import MiyakoLink.Lib.Store

/-!
# The settings and their EEPROM

`device_config.c` and `eeprom.c`. The packed struct `device_conf_t` is a store of 39 bytes, and a
setting is a range of it. The EEPROM has 256 bytes: the settings are at its begin, and the MAC
address is at its end, where nothing is written.

What the bus does is given with each call. The byte behind `data` that the `memcpy` in
`eeprom_write` touches is left out, and so is the mutex, as one call runs at a time.
-/

namespace MiyakoLink.Config

open Lib

abbrev Bytes := List UInt8

/-- The least significant byte first. -/
def le16 (v : UInt16) : Bytes := [v.toUInt8, (v >>> 8).toUInt8]

def le32 (v : UInt32) : Bytes :=
  [v.toUInt8, (v >>> 8).toUInt8, (v >>> 16).toUInt8, (v >>> 24).toUInt8]

/-! ## The settings -/

/-- `device_conf_id_t`. -/
inductive DeviceConfId where
  | crc
  | dhcpEnabled
  | ip
  | netmask
  | gateway
  | mac
  | ledsEnabled
  | interfaceConfig1
  | interfaceConfig1Type
  | interfaceConfig1Port
  | interfaceConfig2
  | interfaceConfig2Type
  | interfaceConfig2Port
  | targetInterfaceConfig1
  | targetInterfaceConfig1Freq
  | targetInterfaceConfig2
  | targetInterfaceConfig2Freq
  deriving DecidableEq

/-- `sizeof(device_configuration)`. -/
abbrev confSize : Nat := 39

/-- `sizeof(device_configuration.mac)`. -/
abbrev macSize : Nat := 6

/-- The settings without the MAC address. -/
abbrev storedSize : Nat := confSize - macSize

/-- Where a setting is in `device_conf_t`: `device_config_get_setting_pointer`. -/
def DeviceConfId.offset : DeviceConfId → Nat
  | .crc => 0
  | .dhcpEnabled => 2
  | .ip => 3
  | .netmask => 7
  | .gateway => 11
  | .ledsEnabled => 15
  | .interfaceConfig1 | .interfaceConfig1Type => 19
  | .interfaceConfig1Port => 20
  | .interfaceConfig2 | .interfaceConfig2Type => 22
  | .interfaceConfig2Port => 23
  | .targetInterfaceConfig1 | .targetInterfaceConfig1Freq => 25
  | .targetInterfaceConfig2 | .targetInterfaceConfig2Freq => 29
  | .mac => 33

/-- The size that `device_config_get_setting_pointer` returns. -/
def DeviceConfId.size : DeviceConfId → Nat
  | .dhcpEnabled | .interfaceConfig1Type | .interfaceConfig2Type => 1
  | .crc | .interfaceConfig1Port | .interfaceConfig2Port => 2
  | .interfaceConfig1 | .interfaceConfig2 => 3
  | .ip | .netmask | .gateway | .ledsEnabled | .targetInterfaceConfig1
  | .targetInterfaceConfig1Freq | .targetInterfaceConfig2 | .targetInterfaceConfig2Freq => 4
  | .mac => 6

/-- `device_configuration` and the contents of the EEPROM. -/
structure Device where
  ram : Store UInt8 confSize
  eeprom : Store UInt8 256
  deriving DecidableEq

/-- The bytes of a setting. -/
def Device.setting (d : Device) (id : DeviceConfId) : Bytes := d.ram.read id.offset id.size

/-- Store the bytes of a setting. -/
def Device.assign (d : Device) (id : DeviceConfId) (value : Bytes) : Device :=
  { d with ram := d.ram.write id.offset value }

/-! ## The checksum -/

def crcTable : List UInt16 :=
  [0x0000, 0xC0C1, 0xC181, 0x0140, 0xC301, 0x03C0, 0x0280, 0xC241, 0xC601, 0x06C0, 0x0780, 0xC741,
    0x0500, 0xC5C1, 0xC481, 0x0440, 0xCC01, 0x0CC0, 0x0D80, 0xCD41, 0x0F00, 0xCFC1, 0xCE81, 0x0E40,
    0x0A00, 0xCAC1, 0xCB81, 0x0B40, 0xC901, 0x09C0, 0x0880, 0xC841, 0xD801, 0x18C0, 0x1980, 0xD941,
    0x1B00, 0xDBC1, 0xDA81, 0x1A40, 0x1E00, 0xDEC1, 0xDF81, 0x1F40, 0xDD01, 0x1DC0, 0x1C80, 0xDC41,
    0x1400, 0xD4C1, 0xD581, 0x1540, 0xD701, 0x17C0, 0x1680, 0xD641, 0xD201, 0x12C0, 0x1380, 0xD341,
    0x1100, 0xD1C1, 0xD081, 0x1040, 0xF001, 0x30C0, 0x3180, 0xF141, 0x3300, 0xF3C1, 0xF281, 0x3240,
    0x3600, 0xF6C1, 0xF781, 0x3740, 0xF501, 0x35C0, 0x3480, 0xF441, 0x3C00, 0xFCC1, 0xFD81, 0x3D40,
    0xFF01, 0x3FC0, 0x3E80, 0xFE41, 0xFA01, 0x3AC0, 0x3B80, 0xFB41, 0x3900, 0xF9C1, 0xF881, 0x3840,
    0x2800, 0xE8C1, 0xE981, 0x2940, 0xEB01, 0x2BC0, 0x2A80, 0xEA41, 0xEE01, 0x2EC0, 0x2F80, 0xEF41,
    0x2D00, 0xEDC1, 0xEC81, 0x2C40, 0xE401, 0x24C0, 0x2580, 0xE541, 0x2700, 0xE7C1, 0xE681, 0x2640,
    0x2200, 0xE2C1, 0xE381, 0x2340, 0xE101, 0x21C0, 0x2080, 0xE041, 0xA001, 0x60C0, 0x6180, 0xA141,
    0x6300, 0xA3C1, 0xA281, 0x6240, 0x6600, 0xA6C1, 0xA781, 0x6740, 0xA501, 0x65C0, 0x6480, 0xA441,
    0x6C00, 0xACC1, 0xAD81, 0x6D40, 0xAF01, 0x6FC0, 0x6E80, 0xAE41, 0xAA01, 0x6AC0, 0x6B80, 0xAB41,
    0x6900, 0xA9C1, 0xA881, 0x6840, 0x7800, 0xB8C1, 0xB981, 0x7940, 0xBB01, 0x7BC0, 0x7A80, 0xBA41,
    0xBE01, 0x7EC0, 0x7F80, 0xBF41, 0x7D00, 0xBDC1, 0xBC81, 0x7C40, 0xB401, 0x74C0, 0x7580, 0xB541,
    0x7700, 0xB7C1, 0xB681, 0x7640, 0x7200, 0xB2C1, 0xB381, 0x7340, 0xB101, 0x71C0, 0x7080, 0xB041,
    0x5000, 0x90C1, 0x9181, 0x5140, 0x9301, 0x53C0, 0x5280, 0x9241, 0x9601, 0x56C0, 0x5780, 0x9741,
    0x5500, 0x95C1, 0x9481, 0x5440, 0x9C01, 0x5CC0, 0x5D80, 0x9D41, 0x5F00, 0x9FC1, 0x9E81, 0x5E40,
    0x5A00, 0x9AC1, 0x9B81, 0x5B40, 0x9901, 0x59C0, 0x5880, 0x9841, 0x8801, 0x48C0, 0x4980, 0x8941,
    0x4B00, 0x8BC1, 0x8A81, 0x4A40, 0x4E00, 0x8EC1, 0x8F81, 0x4F40, 0x8D01, 0x4DC0, 0x4C80, 0x8C41,
    0x4400, 0x84C1, 0x8581, 0x4540, 0x8701, 0x47C0, 0x4680, 0x8641, 0x8201, 0x42C0, 0x4380, 0x8341,
    0x4100, 0x81C1, 0x8081, 0x4040]

def crc16Function (buf : Bytes) : UInt16 :=
  buf.foldl (fun crc b => crc >>> 8 ^^^ crcTable.getD (b ^^^ crc.toUInt8).toNat 0) 0xFFFF

/-- `device_config_calculate_crc`: all but the checksum itself and the MAC address. -/
def Device.calculateCrc (d : Device) : UInt16 :=
  crc16Function (d.ram.read 2 (storedSize - 2))

/-! ## The EEPROM -/

/-- A transfer of a page: it is acknowledged and stored, or it fails, with some bytes stored. -/
inductive Transfer where
  | acked
  | failed (stored : Nat)

/-- `EEPROM_ADDR_MAC`. -/
abbrev addrMac : Nat := 0xFA

/-- `EEPROM_WR_ATTEMPTS`. -/
abbrev wrAttempts : Nat := 100

/-- `EEPROM_MAX_WRITE_SIZE`. -/
abbrev maxWriteSize : Nat := 8

/-- The inner loop of `eeprom_write`, with `left` attempts to go. An acknowledgement that comes
after the last of them does not help. -/
def sendPage (address : Nat) (page : Bytes) :
    Nat → List Transfer → Store UInt8 256 → Bool × List Transfer × Store UInt8 256
  | left, [], eeprom => (decide (left ≠ 0), [], eeprom.write address page)
  | left, .acked :: bus, eeprom => (decide (left ≠ 0), bus, eeprom.write address page)
  | 0, .failed stored :: bus, eeprom => (false, bus, eeprom.write address (page.take stored))
  | left + 1, .failed stored :: bus, eeprom =>
    sendPage address page left bus (eeprom.write address (page.take stored))

/-- `n` turns of the loop over the pages. -/
def sendPages : Nat → Nat → Bytes → List Transfer → Store UInt8 256 → Bool × Store UInt8 256
  | 0, _, _, _, eeprom => (true, eeprom)
  | n + 1, address, data, bus, eeprom =>
    match sendPage address (data.take maxWriteSize) wrAttempts bus eeprom with
    | (true, bus, eeprom) =>
      sendPages n (address + maxWriteSize) (data.drop maxWriteSize) bus eeprom
    | (false, _, eeprom) => (false, eeprom)

/-- `eeprom_write`: whether it does not return -1, and the contents after it. -/
def eepromWrite (address : Nat) (data : Bytes) (bus : List Transfer) (eeprom : Store UInt8 256) :
    Bool × Store UInt8 256 :=
  if data.length > addrMac ∨ address + data.length > addrMac then (false, eeprom)
  else sendPages ((data.length + 7) / maxWriteSize) address data bus eeprom

/-- How many bytes are read, if an error after `k` of them is possible. -/
def transferred (fault : Option Nat) (length : Nat) : Nat := fault.elim length (min length)

/-! ## The functions -/

/-- `device_config_read_all_settings`. The faults are those of its two reads. -/
def Device.readAllSettings (faultConf faultMac : Option Nat) (d : Device) : Device :=
  let d := { d with ram := d.ram.write 0 (d.eeprom.read 0 (transferred faultConf storedSize)) }
  if faultConf.isSome then d
  else
    { d with ram :=
        d.ram.write storedSize (d.eeprom.read addrMac (transferred faultMac macSize)) }

/-- `device_config_write_all_settings`, with whether `eeprom_write` succeeds. -/
def Device.writeAllSettings (bus : List Transfer) (d : Device) : Bool × Device :=
  let d := d.assign .crc (le16 d.calculateCrc)
  let (written, eeprom) := eepromWrite 0 (d.ram.read 0 storedSize) bus d.eeprom
  (written, { d with eeprom := eeprom })

/-- `device_config_reset_to_default`. -/
def Device.resetToDefault (d : Device) : Device :=
  d.assign .dhcpEnabled [0]
    |>.assign .ip [192, 168, 0, 2]
    |>.assign .netmask [255, 255, 255, 0]
    |>.assign .gateway [192, 168, 0, 1]
    |>.assign .ledsEnabled [0xFF, 0xFF, 0xFF, 0xFF]
    |>.assign .interfaceConfig1 [0, 0, 0]
    |>.assign .interfaceConfig2 [0, 0, 0]
    |>.assign .targetInterfaceConfig1Freq (le32 1000000)
    |>.assign .targetInterfaceConfig2Freq (le32 1000000)

/-- `device_config_get_value`: the value, or `none` for -1. -/
def Device.getValue (id : DeviceConfId) (size : Nat) (d : Device) : Option Bytes :=
  if size = 0 then none
  else if id.size = size then some (d.setting id)
  else none

/-- `device_config_set_value`: the result and the device after it. -/
def Device.setValue (id : DeviceConfId) (value : Bytes) (bus : List Transfer) (d : Device) :
    Int × Device :=
  if value.length = 0 then (-1, d)
  else if id.size = value.length then
    if d.setting id ≠ value then (value.length, ((d.assign id value).writeAllSettings bus).2)
    else (value.length, d)
  else (-1, d)

/-- `device_config_init` after a reset, which clears `device_configuration`. -/
def Device.init (faultConf faultMac : Option Nat) (bus : List Transfer)
    (eeprom : Store UInt8 256) : Device :=
  let d : Device := ⟨Store.filled confSize 0, eeprom⟩
  let d := d.readAllSettings faultConf faultMac
  if d.getValue .crc 2 ≠ some (le16 d.calculateCrc) then (d.resetToDefault.writeAllSettings bus).2
  else d

/-! ## Runs -/

/-- What happens to the settings. -/
inductive Op where
  | set (id : DeviceConfId) (value : Bytes) (bus : List Transfer)
  | restart (faultConf faultMac : Option Nat) (bus : List Transfer)

def step (d : Device) : Op → Device
  | .set id value bus => (d.setValue id value bus).2
  | .restart faultConf faultMac bus => Device.init faultConf faultMac bus d.eeprom

/-- A device after its first `device_config_init` and some calls and restarts. -/
def Reachable (d : Device) : Prop :=
  ∃ faultConf faultMac bus eeprom ops,
    d = List.foldl step (Device.init faultConf faultMac bus eeprom) ops

end MiyakoLink.Config
