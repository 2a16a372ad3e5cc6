import MiyakoLink.Lib.Image
import MiyakoLink.Lib.Lanes

/-!
# A memory access port

What is behind `adiv5_dp_low_access` when no access faults: the `SELECT` and `RDBUFF` registers
of the debug port and one memory access port. Reads of the access port are posted, each one
returns the result of the read before it. The transfer address is incremented after an access
to `DRW`; the increment is defined within a page of 1 KiB only, and data is on the byte lanes
that the address selects. What an implementation is free in is a parameter (`Hw`).
-/

namespace MiyakoLink.Adiv5

open Lib

abbrev dpSelect : UInt16 := 0x8

abbrev dpRdbuff : UInt16 := 0xC

abbrev apCsw : UInt16 := 0x100

abbrev apTar : UInt16 := 0x104

abbrev apDrw : UInt16 := 0x10C

/-- The part of an address that the increment does not reach. -/
abbrev pageMask : UInt32 := 0xFFFFFC00

/-- The contents of an address space. -/
abbrev Mem32 := UInt32 → UInt8

/-- What the architecture leaves open: the transfer address after an increment past the end of
a page, and the bytes on the lanes that a read does not select. -/
structure Hw where
  overflow : UInt32 → UInt32
  junk : UInt32 → Nat → UInt8

/-- The registers and the memory behind the access port. -/
structure MemAp where
  select : UInt32
  csw : UInt32
  tar : UInt32
  rdbuff : UInt32
  mem : Mem32

namespace MemAp

/-- The bytes of an access, by the size field of `CSW`. -/
def width (m : MemAp) : UInt32 :=
  if m.csw &&& 7 = 0 then 1 else if m.csw &&& 7 = 1 then 2 else 4

/-- The address of the first byte of an access. -/
def unit (m : MemAp) : UInt32 := m.tar - (m.tar &&& (m.width - 1))

variable (H : Hw)

/-- The transfer address after an access, by the increment field of `CSW`. -/
def nextTar (m : MemAp) : UInt32 :=
  if m.csw &&& 0x30 ≠ 0x10 then m.tar
  else if (m.tar + m.width) &&& pageMask = m.tar &&& pageMask then m.tar + m.width
  else H.overflow m.tar

/-- What a read of `DRW` fetches. -/
def fetch (m : MemAp) : UInt32 :=
  ofLanes fun k =>
    let x := m.tar - (m.tar &&& 3) + UInt32.ofNat k
    if x - m.unit < m.width then m.mem x else H.junk m.tar k

/-- A write of `DRW`: every byte of the access is taken from the lane of its address. -/
def writeDrw (m : MemAp) (v : UInt32) : MemAp :=
  { m with
    mem := overlay m.mem m.unit ((List.range m.width.toNat).map fun k =>
      lane v ((m.unit + UInt32.ofNat k) &&& 3).toNat)
    tar := m.nextTar H }

/-- `adiv5_dp_low_access` with `ADIV5_LOW_WRITE`. The access port `apsel` is there while its
bank 0 is selected. -/
def lowWrite (apsel : UInt8) (addr : UInt16) (value : UInt32) (m : MemAp) : MemAp :=
  if addr = dpSelect then { m with select := value }
  else if m.select = apsel.toUInt32 <<< 24 then
    if addr = apCsw then { m with csw := value }
    else if addr = apTar then { m with tar := value }
    else if addr = apDrw then m.writeDrw H value
    else m
  else m

/-- `adiv5_dp_low_access` with `ADIV5_LOW_READ`. -/
def lowRead (apsel : UInt8) (addr : UInt16) (m : MemAp) : UInt32 × MemAp :=
  if addr = dpRdbuff then (m.rdbuff, m)
  else if m.select = apsel.toUInt32 <<< 24 then
    if addr = apCsw then (m.rdbuff, { m with rdbuff := m.csw })
    else if addr = apTar then (m.rdbuff, { m with rdbuff := m.tar })
    else if addr = apDrw then (m.rdbuff, { m with rdbuff := m.fetch H, tar := m.nextTar H })
    else (m.rdbuff, m)
  else (m.rdbuff, m)

variable {H} {apsel : UInt8} {m : MemAp}

theorem lowWrite_select (value : UInt32) :
    m.lowWrite H apsel dpSelect value = { m with select := value } := if_pos rfl

theorem lowWrite_csw (h : m.select = apsel.toUInt32 <<< 24) (value : UInt32) :
    m.lowWrite H apsel apCsw value = { m with csw := value } := by
  rw [lowWrite, if_neg (by decide), if_pos h, if_pos rfl]

theorem lowWrite_tar (h : m.select = apsel.toUInt32 <<< 24) (value : UInt32) :
    m.lowWrite H apsel apTar value = { m with tar := value } := by
  rw [lowWrite, if_neg (by decide), if_pos h, if_neg (by decide), if_pos rfl]

theorem lowWrite_drw (h : m.select = apsel.toUInt32 <<< 24) (value : UInt32) :
    m.lowWrite H apsel apDrw value = m.writeDrw H value := by
  rw [lowWrite, if_neg (by decide), if_pos h, if_neg (by decide), if_neg (by decide), if_pos rfl]

theorem lowRead_rdbuff : m.lowRead H apsel dpRdbuff = (m.rdbuff, m) := if_pos rfl

theorem lowRead_drw (h : m.select = apsel.toUInt32 <<< 24) :
    m.lowRead H apsel apDrw =
      (m.rdbuff, { m with rdbuff := m.fetch H, tar := m.nextTar H }) := by
  rw [lowRead, if_neg (by decide), if_pos h, if_neg (by decide), if_neg (by decide), if_pos rfl]

end MemAp

end MiyakoLink.Adiv5
