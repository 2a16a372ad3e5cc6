import MiyakoLink.HexUtils
import MiyakoLink.Lib.Effect
import MiyakoLink.Packet.Receive

/-!
# `remotePacketProcess`

The handlers of the remote packets, `remote.c`. They read the packet from the receive buffer,
send their answer character by character, and use the same buffer, from its first address
divisible by eight on (`Port.src`), as memory for what they read from the target or write to
it.

Everything below them (the SWD and JTAG sequences, the access to debug and access ports, the
voltage reading) is an operation of a `Port`. It returns a value or raises an exception. The
JTAG handlers call theirs through a `jtag_proc_t` that is never filled in, which is an
operation like the others here.
-/

namespace MiyakoLink.Remote

open Lib
open Packet (Buffer)

/-- An operation of the port: a value, or `none` for an exception. -/
abbrev Op (σ α : Type) := σ → Option α × σ

structure JtagDev where
  drPrescan : UInt8
  drPostscan : UInt8
  irLen : UInt8
  irPrescan : UInt8
  irPostscan : UInt8
  currentIr : UInt32

/-- The debug port and the access port of a high level packet. The CSW is set by the packets
that carry one. -/
structure Ap where
  dpJdIndex : UInt8
  apsel : UInt8
  csw : Option UInt32
  deriving DecidableEq

/-- The code below the handlers, and what the build sets: the address of the packet buffer
and the text of `PLATFORM_IDENT "" FIRMWARE_VERSION`. -/
structure Port (σ : Type) where
  packetAddr : UInt32
  ident : List UInt8
  /-- `remote_dp` gets the SWD functions, and `swdptap_init`. -/
  swdptapInit : Op σ Unit
  seqInParity : UInt8 → Op σ (Bool × UInt32)
  seqIn : UInt8 → Op σ UInt32
  seqOut : UInt32 → UInt8 → Op σ Unit
  seqOutParity : UInt32 → UInt8 → Op σ Unit
  /-- `remote_dp` gets the JTAG functions, and `jtagtap_init`. -/
  jtagtapInit : Op σ Unit
  jtagtapReset : Op σ Unit
  jtagtapTmsSeq : UInt32 → UInt8 → Op σ Unit
  jtagtapTdiTdoSeq : Bool → UInt64 → UInt8 → Op σ UInt64
  jtagtapNext : Bool → Bool → Op σ UInt32
  jtagAddDevice : UInt8 → JtagDev → Op σ Unit
  platformTargetVoltage : Op σ (List UInt8)
  adiv5DpRead : Ap → UInt16 → Op σ UInt32
  lowAccess : Ap → UInt16 → UInt32 → Op σ UInt32
  adiv5ApRead : Ap → UInt16 → Op σ UInt32
  adiv5ApWrite : Ap → UInt16 → UInt32 → Op σ Unit
  /-- The bytes put to `src`, also before an exception, and whether `fault` is set
  afterwards. -/
  adiv5MemRead : Ap → UInt32 → UInt32 → σ → List UInt8 × Option Bool × σ
  /-- Whether `fault` is set afterwards. -/
  adiv5MemWriteSized : Ap → UInt32 → List UInt8 → UInt8 → Op σ Bool
  /-- `remote_ap.dp->fault = 0`. -/
  clearFault : σ → σ

/-- An access of a handler to the receive buffer. -/
inductive Access where
  | read (pos : Nat)
  | write (pos : Nat)
  deriving DecidableEq

/-- The state of a handler: the buffer, the characters sent, the environment, and the accesses
to the buffer, the last one first. -/
structure State (σ : Type) where
  packet : Buffer
  out : List UInt8
  env : σ
  trace : List Access

abbrev Handler (σ : Type) := EStateM Unit (State σ)

variable {σ α : Type}

/-- Call an operation of the port. -/
def call (op : Op σ α) : Handler σ α := fun s =>
  match op s.env with
  | (some a, env) => .ok a { s with env := env }
  | (none, env) => .error () { s with env := env }

def putchars (cs : List UInt8) : Handler σ Unit := fun s =>
  .ok () { s with out := s.out ++ cs }

/-- `(void *)(((uint32_t)packet + 7) & ~7)`, as an offset to `packet`. -/
def Port.src (P : Port σ) : Nat := ((P.packetAddr + 7) &&& ~~~7 - P.packetAddr).toNat

/-! ## Numbers and answers -/

/-- `remotehston`: the number at `pos`, up to the first character that is no hexadecimal
digit, or `limit` digits. -/
def remotehston (limit : Nat) (packet : Buffer) (pos : Nat) : UInt64 :=
  go limit pos 0
where
  go : Nat → Nat → UInt64 → UInt64
    | 0, _, ret => ret
    | limit + 1, pos, ret =>
      match hexDigit? (packet pos) with
      | none => ret
      | some d => go limit (pos + 1) ((ret <<< 4) ||| UInt64.ofNat d)

abbrev respOk : UInt8 := 0x4B

abbrev respParerr : UInt8 := 0x50

abbrev respErr : UInt8 := 0x45

abbrev errorUnrecognised : UInt64 := 1

abbrev errorWronglen : UInt64 := 2

/-- The digits of a number, without leading zeros. -/
def digits (param : UInt64) : List UInt8 :=
  (Nat.toDigits 16 param.toNat).map fun c => UInt8.ofNat c.toNat

/-- `_respond`: `&`, the code, the number and `#`. -/
def respond (respCode : UInt8) (param : UInt64) : Handler σ Unit :=
  putchars (0x26 :: respCode :: digits param ++ [0x23])

/-- `_respond_buf`. Its loop runs at least once, so at least one byte is sent. -/
def respondBuf (respCode : UInt8) (bs : List UInt8) : Handler σ Unit :=
  putchars (0x26 :: respCode :: hexify bs ++ [0x23])

/-- `_respondS`: the characters that would disturb the protocol are sent as blanks. -/
def respondS (respCode : UInt8) (s : List UInt8) : Handler σ Unit :=
  putchars (0x26 :: respCode ::
    (cstr s).map (fun c => if c = 0x24 ∨ c = 0x21 ∨ c = 0x23 then 0x20 else c) ++ [0x23])

/-- The bytes of a word in memory, least significant first. -/
def wordBytes (w : UInt32) : List UInt8 :=
  [w.toUInt8, (w >>> 8).toUInt8, (w >>> 16).toUInt8, (w >>> 24).toUInt8]

/-! ## The handlers -/

/-- How many characters `remotehston` reads: the first one that is no digit is read too. -/
def hstonLength (packet : Buffer) : Nat → Nat → Nat
  | 0, _ => 0
  | limit + 1, pos =>
    match hexDigit? (packet pos) with
    | none => 1
    | some _ => hstonLength packet limit (pos + 1) + 1

/-- An access to each of `n` bytes from `pos` on. -/
def touched (access : Nat → Access) (pos : Nat) : Nat → List Access → List Access
  | 0, trace => trace
  | n + 1, trace => touched access (pos + 1) n (access pos :: trace)

/-- `remotehston(limit, &packet[pos])`. -/
def number (limit pos : Nat) : Handler σ UInt64 := fun s =>
  .ok (remotehston limit s.packet pos)
    { s with trace := touched .read pos (hstonLength s.packet limit pos) s.trace }

def packetAt (pos : Nat) : Handler σ UInt8 := fun s =>
  .ok (s.packet pos) { s with trace := .read pos :: s.trace }

def remotePacketProcessSWD (P : Port σ) (i : Nat) : Handler σ Unit := do
  match ← packetAt 1 with
  | 0x53 => -- REMOTE_INIT
    if i = 2 then
      call P.swdptapInit
      respond respOk 0
    else
      respond respErr errorWronglen
  | 0x49 => -- REMOTE_IN_PAR
    let ticks := (← number 2 2).toUInt8
    let (badParity, param) ← call (P.seqInParity ticks)
    respond (if badParity then respParerr else respOk) param.toUInt64
  | 0x69 => -- REMOTE_IN
    let ticks := (← number 2 2).toUInt8
    let param ← call (P.seqIn ticks)
    respond respOk param.toUInt64
  | 0x6F => -- REMOTE_OUT
    let ticks := (← number 2 2).toUInt8
    let param := (← number 0xFFFFFFFF 4).toUInt32
    call (P.seqOut param ticks)
    respond respOk 0
  | 0x4F => -- REMOTE_OUT_PAR
    let ticks := (← number 2 2).toUInt8
    let param := (← number 0xFFFFFFFF 4).toUInt32
    call (P.seqOutParity param ticks)
    respond respOk 0
  | _ => respond respErr errorUnrecognised

def remotePacketProcessJTAG (P : Port σ) (i : Nat) : Handler σ Unit := do
  let cmd ← packetAt 1
  match cmd with
  | 0x53 => -- REMOTE_INIT
    call P.jtagtapInit
    respond respOk 0
  | 0x52 => -- REMOTE_RESET
    call P.jtagtapReset
    respond respOk 0
  | 0x54 => -- REMOTE_TMS
    let ticks := (← number 2 2).toUInt8
    let ms := (← number 2 4).toUInt32
    if i < 4 then
      respond respErr errorWronglen
    else
      call (P.jtagtapTmsSeq ms ticks)
      respond respOk 0
  | 0x4E => -- REMOTE_NEXT
    if i ≠ 4 then
      respond respErr errorWronglen
    else
      let tms := (← packetAt 2) == 0x31
      let tdi := (← packetAt 3) == 0x31
      let dat ← call (P.jtagtapNext tms tdi)
      respond respOk dat.toUInt64
  | 0x4A => -- REMOTE_ADD_JTAG_DEV
    if i < 22 then
      respond respErr errorWronglen
    else
      let index := (← number 2 2).toUInt8
      let dev : JtagDev := {
        drPrescan := (← number 2 4).toUInt8
        drPostscan := (← number 2 6).toUInt8
        irLen := (← number 2 8).toUInt8
        irPrescan := (← number 2 10).toUInt8
        irPostscan := (← number 2 12).toUInt8
        currentIr := (← number 8 14).toUInt32 }
      call (P.jtagAddDevice index dev)
      respond respOk 0
  | _ =>
    if cmd = 0x44 ∨ cmd = 0x64 then -- REMOTE_TDITDO_TMS, REMOTE_TDITDO_NOTMS
      if i < 5 then
        respond respErr errorWronglen
      else
        let ticks := (← number 2 2).toUInt8
        let di ← number 0xFFFFFFFF 4
        let dout ← call (P.jtagtapTdiTdoSeq (cmd == 0x44) di ticks)
        -- Mask extra bits on return value.
        let masked := if ticks < 64 then dout &&& (1 <<< ticks.toUInt64 - 1) else dout
        respond respOk masked
    else
      respond respErr errorUnrecognised

/-- The general packets. With `PLATFORM_HAS_POWER_SWITCH`, as the platform has it, those for
the power switch, the frequency and reading the reset line answer nothing. -/
def remotePacketProcessGEN (P : Port σ) : Handler σ Unit := do
  match ← packetAt 1 with
  | 0x56 => -- REMOTE_VOLTAGE
    let voltage ← call P.platformTargetVoltage
    respondS respOk voltage
  | 0x5A => respond respOk 0 -- REMOTE_SRST_SET
  | 0x7A => pure () -- REMOTE_SRST_GET
  | 0x46 => pure () -- REMOTE_FREQ_SET
  | 0x66 => pure () -- REMOTE_FREQ_GET
  | 0x50 => pure () -- REMOTE_PWR_SET
  | 0x70 => pure () -- REMOTE_PWR_GET
  | 0x41 => respondS respOk P.ident -- REMOTE_START
  | _ => respond respErr errorUnrecognised

/-- The buffer with `bs` stored from `pos` on. -/
def store (packet : Buffer) (pos : Nat) : List UInt8 → Buffer
  | [] => packet
  | b :: bs => store (Function.update packet pos b) (pos + 1) bs

/-- `unhexify(&packet[buf], &packet[hex], size)`. Source and destination are parts of the
same buffer, and are read and written in turn. -/
def unhexify (packet : Buffer) (buf hex : Nat) : Nat → Buffer
  | 0 => packet
  | size + 1 =>
    let packet := Function.update packet buf (unhexDigit (packet hex) <<< 4)
    let packet := Function.update packet buf (packet buf ||| unhexDigit (packet (hex + 1)))
    unhexify packet (buf + 1) (hex + 2) size

/-- The accesses of `unhexify`. -/
def unhexifyTrace (buf hex : Nat) : Nat → List Access → List Access
  | 0, trace => trace
  | size + 1, trace =>
    unhexifyTrace (buf + 1) (hex + 2) size
      (.write buf :: .read buf :: .read (hex + 1) :: .write buf :: .read hex :: trace)

/-- `(1 << align) - 1`. A shift by the register width or more gives zero on the core. -/
def alignMask (align : UInt8) : UInt32 := (if align < 32 then 1 <<< align.toUInt32 else 0) - 1

/-- `adiv5_mem_read(&remote_ap, src, address, count)`, and the test of `fault`. -/
def memRead (P : Port σ) (ap : Ap) (address count : UInt32) : Handler σ Bool := fun s =>
  let (data, fault, env) := P.adiv5MemRead ap address count s.env
  let s := { s with
    packet := store s.packet P.src data
    env := env
    trace := touched .write P.src data.length s.trace }
  match fault with
  | some fault => .ok fault s
  | none => .error () s

def clearFault (P : Port σ) : Handler σ Unit := fun s => .ok () { s with env := P.clearFault s.env }

/-- The `n` bytes of the buffer from `src` on. -/
def srcBytes (P : Port σ) (n : Nat) : Handler σ (List UInt8) := fun s =>
  .ok ((List.range n).map fun k => s.packet (P.src + k))
    { s with trace := touched .read P.src n s.trace }

/-- `REMOTE_MEM_READ`, with its numbers from `pos` on. -/
def hlMemRead (P : Port σ) (ap : Ap) (pos : Nat) : Handler σ Unit := do
  let address := (← number 8 pos).toUInt32
  let count := (← number 8 (pos + 8)).toUInt32
  if ← memRead P ap address count then
    respond respErr 0
    clearFault P
  else
    -- `_send_buf` sends a byte before it looks at the length.
    respondBuf respOk (← srcBytes P (max count.toNat 1))

/-- `REMOTE_MEM_WRITE_SIZED`, with its numbers from `pos` on. -/
def hlMemWriteSized (P : Port σ) (ap : Ap) (pos : Nat) : Handler σ Unit := do
  let align := (← number 2 pos).toUInt8
  let dest := (← number 8 (pos + 2)).toUInt32
  let len := (← number 8 (pos + 10)).toUInt32
  if len &&& alignMask align ≠ 0 then
    respond respErr 0
  else
    modify fun s => { s with
      packet := unhexify s.packet P.src (pos + 18) len.toNat
      trace := unhexifyTrace P.src (pos + 18) len.toNat s.trace }
    let data ← srcBytes P len.toNat
    if ← call (P.adiv5MemWriteSized ap dest data align) then
      respond respErr 0
      clearFault P
    else
      respond respOk 0

abbrev remoteHlVersion : UInt64 := 1

def remotePacketProcessHL (P : Port σ) : Handler σ Unit := do
  let index ← packetAt 1
  if index = 0x43 then -- REMOTE_HL_CHECK
    respond respOk remoteHlVersion
  else
    let dpJdIndex := (← number 2 2).toUInt8
    let apsel := (← number 2 4).toUInt8
    let ap : Ap := ⟨dpJdIndex, apsel, none⟩
    match index with
    | 0x64 => -- REMOTE_DP_READ
      let addr16 := (← number 4 6).toUInt16
      let data ← call (P.adiv5DpRead ap addr16)
      respondBuf respOk (wordBytes data)
    | 0x4C => -- REMOTE_LOW_ACCESS
      let addr16 := (← number 4 6).toUInt16
      let value := (← number 8 10).toUInt32
      let data ← call (P.lowAccess ap addr16 value)
      respondBuf respOk (wordBytes data)
    | 0x61 => -- REMOTE_AP_READ
      let addr16 := (← number 4 6).toUInt16
      let data ← call (P.adiv5ApRead ap addr16)
      respondBuf respOk (wordBytes data)
    | 0x41 => -- REMOTE_AP_WRITE
      let addr16 := (← number 4 6).toUInt16
      let value := (← number 8 10).toUInt32
      call (P.adiv5ApWrite ap addr16 value)
      respond respOk 0
    | 0x4D => -- REMOTE_AP_MEM_READ, which falls through
      let csw := (← number 8 6).toUInt32
      hlMemRead P { ap with csw := some csw } 14
    | 0x68 => hlMemRead P ap 6 -- REMOTE_MEM_READ
    | 0x6D => -- REMOTE_AP_MEM_WRITE_SIZED, which falls through
      let csw := (← number 8 6).toUInt32
      hlMemWriteSized P { ap with csw := some csw } 14
    | 0x48 => hlMemWriteSized P ap 6 -- REMOTE_MEM_WRITE_SIZED
    | _ => respond respErr errorUnrecognised

def remotePacketProcess (P : Port σ) (i : Nat) : Handler σ Unit := do
  match ← packetAt 0 with
  | 0x53 => remotePacketProcessSWD P i
  | 0x4A => remotePacketProcessJTAG P i
  | 0x47 => remotePacketProcessGEN P
  | 0x48 => remotePacketProcessHL P
  | _ => respond respErr errorUnrecognised

end MiyakoLink.Remote
