import MiyakoLink.Erase.Samx5x
import MiyakoLink.Flash.Blocks

/-!
# Drivers that write page by page

The erase and the write functions of the SAM D, SAM D5x/E5x, EFM32 and SAM3X/4 parts. A function
leaves a log of what it writes to the registers of the flash controller, and the controller makes
effects of it: it erases a unit of bytes, programs one with what has been loaded, which clears
bits, or erases one and programs it.

* `Target.settle`: what a call makes of the flash.
* `PageFlash.region`: a region with its functions. The drivers do not set `erased`.
-/

namespace MiyakoLink.Pages

open Flash Lib Erase

/-! ## The controllers -/

/-- What a controller does to the unit of so many bytes with that number, counted from `start`.
Some of the data has been loaded at `dest`; the rest of what is programmed are ones. -/
inductive Effect where
  | erase (start : UInt32) (size number : Nat)
  | program (start : UInt32) (size number : Nat) (dest : UInt32) (src : List UInt8)
  | replace (start : UInt32) (size number : Nat) (dest : UInt32) (src : List UInt8)

def Effect.run (flash : UInt32 → UInt8) : Effect → UInt32 → UInt8
  | erase start size number => fun a =>
      if (a - start).toNat / size = number then 0xFF else flash a
  | program start size number dest src => fun a =>
      if (a - start).toNat / size = number then flash a &&& (bytesAt dest src a).getD 0xFF
      else flash a
  | replace start size number dest src => fun a =>
      if (a - start).toNat / size = number then (bytesAt dest src a).getD 0xFF else flash a

/-- A write to a register, with what the address register of the controller holds. -/
structure RegWrite where
  reg : UInt32
  val : UInt32
  address : UInt32

/-- The target, which is not part of the program. The first number is that of the call of a
driver function, the second that of the command, and the third that of the turn of the loop that
waits for it. -/
structure Target where
  /-- What the status register is read as, and `target_check_error`. -/
  status : Nat → Nat → Nat → UInt32
  fault : Nat → Nat → Nat → Bool
  /-- `EEFC_FSR` behind the loop. -/
  sr : Nat → Nat → UInt32
  nvmc : Nat → Samx5x
  /-- What `cortexm_run_stub` returns. -/
  stub : Nat → Ret
  /-- The flash behind a call that has not succeeded. -/
  broken : Nat → (UInt32 → UInt8) → UInt32 → UInt8
  /-- There is a block for an allocation that follows so many others. -/
  room : Nat → Bool

/-- The flash, and the calls and the allocations so far. -/
structure Env where
  flash : UInt32 → UInt8
  calls : Nat
  allocs : Nat

variable (T : Target)

/-- A turn of a loop that waits for `ready` and is left with an error. -/
def Target.turn (ready : UInt32 → Bool) (call k i : Nat) : Option Bool :=
  if ready (T.status call k i) then some true
  else if T.fault call k i then some false
  else none

/-- A call with these effects and this result. One that has not come back counts as failed. -/
def Target.settle (s : Env) (r : List Effect × Option Ret) : Ret × Env :=
  (r.2.getD (-1),
    { s with
      flash := if r.2 = some 0 then r.1.foldl Effect.run s.flash else T.broken s.calls s.flash
      calls := s.calls + 1 })

/-- The result of a function that returns -1 if something has gone wrong. -/
def retOf (ok : Option Bool) : Option Ret := ok.map fun ok => if ok then 0 else -1

/-! ## SAM D -/

abbrev samdRowSize : UInt32 := 256
abbrev samdPageSize : UInt32 := 64

abbrev samdNvmcCtrla : UInt32 := 0x41004000
abbrev samdNvmcAddress : UInt32 := 0x4100401C

abbrev samdCmdKey : UInt32 := 0xA500
abbrev samdCmdEraserow : UInt32 := 0x0002
abbrev samdCmdWritepage : UInt32 := 0x0004
abbrev samdCmdLock : UInt32 := 0x0040
abbrev samdCmdUnlock : UInt32 := 0x0041

/-- What the controller makes of a write to a register, with what has been loaded into the page
buffer. Its address register counts words of 16 bits. -/
def samdEffect (dest : UInt32) (src : List UInt8) (w : RegWrite) : Option Effect :=
  if w.reg ≠ samdNvmcCtrla then none
  else if w.val = samdCmdKey ||| samdCmdEraserow then
    some (.erase 0 samdRowSize.toNat ((w.address <<< 1).toNat / samdRowSize.toNat))
  else if w.val = samdCmdKey ||| samdCmdWritepage then
    some (.program 0 samdPageSize.toNat ((w.address <<< 1).toNat / samdPageSize.toNat) dest src)
  else none

/-- `NVMC_READY`. -/
def samdReady (v : UInt32) : Bool := v &&& 1 != 0

/-- A command with the region of the address unlocked. -/
def samdCommand (call k fuel : Nat) (cmd address : UInt32) : List RegWrite × Option Bool :=
  let log : List RegWrite := [⟨samdNvmcCtrla, samdCmdKey ||| samdCmdUnlock, address⟩,
    ⟨samdNvmcCtrla, samdCmdKey ||| cmd, address⟩]
  match poll (T.turn samdReady call k) fuel with
  | some true => (log ++ [⟨samdNvmcCtrla, samdCmdKey ||| samdCmdLock, address⟩], some true)
  | e => (log, e)

/-- The body of the loop of `samd_flash_erase`. -/
def samdEraseRow (call fuel : Nat) (s : Nat × UInt32) : List RegWrite × Option Bool :=
  let r := samdCommand T call s.1 fuel samdCmdEraserow (s.2 >>> 1)
  (⟨samdNvmcAddress, s.2 >>> 1, s.2 >>> 1⟩ :: r.1, r.2)

def samdFlashErase (call fuel : Nat) (addr len : UInt32) : List Effect × Option Ret :=
  let r := sweep (saturating samdRowSize) (advance samdRowSize) (samdEraseRow T call fuel) fuel len
    (0, addr)
  (r.1.filterMap (samdEffect 0 []), retOf r.2)

/-- `samd_flash_write`. Loading the page buffer sets the address register. -/
def samdFlashWrite (call fuel : Nat) (dest : UInt32) (src : List UInt8) :
    List Effect × Option Ret :=
  let r := samdCommand T call 0 fuel samdCmdWritepage (dest >>> 1)
  (r.1.filterMap (samdEffect dest src), retOf r.2)

/-! ## SAM D5x/E5x -/

abbrev ctrlbCmdWritepage : UInt32 := 0x0003

/-- What the controller makes of a write to a register. -/
def samx5xEffect (dest : UInt32) (src : List UInt8) : NvmcWrite → Option Effect
  | .ctrlb cmd address =>
    if cmd = ctrlbCmdKey ||| ctrlbCmdEraseblock then
      some (.erase 0 samx5xBlockSize.toNat (address.toNat / samx5xBlockSize.toNat))
    else if cmd = ctrlbCmdKey ||| ctrlbCmdWritepage then
      some (.program 0 samx5xPageSize.toNat (address.toNat / samx5xPageSize.toNat) dest src)
    else none
  | _ => none

def samx5xFlashErase (call fuel : Nat) (addr len : UInt32) : List Effect × Option Ret :=
  let r := (T.nvmc call).flashErase fuel addr len
  (r.1.filterMap (samx5xEffect 0 []), r.2)

def samx5xFlashWrite (call fuel : Nat) (dest : UInt32) (src : List UInt8) :
    List Effect × Option Ret :=
  let C := T.nvmc call
  let clear := if C.intflag &&& nvmErrors ≠ 0 then [NvmcWrite.intflag nvmErrors] else []
  let log := clear ++ [.address dest, .ctrlb (ctrlbCmdKey ||| ctrlbCmdUnlock) dest,
    .ctrlb (ctrlbCmdKey ||| ctrlbCmdWritepage) dest]
  let r := match poll (C.turn 0) fuel with
    | some true => (log ++ [NvmcWrite.ctrlb (ctrlbCmdKey ||| ctrlbCmdLock) dest], some true)
    | e => (log, e)
  (r.1.filterMap (samx5xEffect dest src), retOf r.2)

/-! ## EFM32 -/

section

variable (msc : UInt32)

abbrev mscWritectrl : UInt32 := msc + 0x008
abbrev mscWritecmd : UInt32 := msc + 0x00C
abbrev mscAddrb : UInt32 := msc + 0x010
abbrev mscLock : UInt32 := msc + if msc = 0x400c0000 then 0x3C else 0x40

abbrev mscLockLockkey : UInt32 := 0x1B71
abbrev mscWritecmdLaddrim : UInt32 := 1
abbrev mscWritecmdErasepage : UInt32 := 2

/-- What the controller makes of a write to a register; its pages have `blocksize` bytes. -/
def efm32Effect (blocksize : UInt32) (w : RegWrite) : Option Effect :=
  if w.reg = mscWritecmd msc ∧ w.val = mscWritecmdErasepage then
    some (.erase 0 blocksize.toNat (w.address.toNat / blocksize.toNat))
  else none

/-- The controller is not busy. -/
def efm32Ready (v : UInt32) : Bool := v &&& 1 == 0

/-- The body of the loop of `efm32_flash_erase`. -/
def efm32ErasePage (call fuel : Nat) (s : Nat × UInt32) : List RegWrite × Option Bool :=
  ([⟨mscAddrb msc, s.2, s.2⟩, ⟨mscWritecmd msc, mscWritecmdLaddrim, s.2⟩,
    ⟨mscWritecmd msc, mscWritecmdErasepage, s.2⟩], poll (T.turn efm32Ready call s.1) fuel)

def efm32FlashErase (blocksize : UInt32) (call fuel : Nat) (addr len : UInt32) :
    List Effect × Option Ret :=
  let r := sweep (saturating blocksize) (advance blocksize) (efm32ErasePage T msc call fuel) fuel
    len (0, addr)
  let log : List RegWrite := [⟨mscLock msc, mscLockLockkey, 0⟩, ⟨mscWritectrl msc, 1, 0⟩]
  ((log ++ r.1).filterMap (efm32Effect msc blocksize), retOf r.2)

/-- `efm32_flash_write_stub` writes one word after the other. -/
def efm32FlashWriteStub (dest : UInt32) (src : List UInt8) (size : UInt32) : List Effect :=
  (List.range (size.toNat / 4)).map fun i =>
    .program 0 4 ((dest.toNat + 4 * i) / 4) dest src

def efm32FlashWrite (call : Nat) (dest : UInt32) (src : List UInt8) (len : UInt32) :
    List Effect × Option Ret :=
  (efm32FlashWriteStub dest src len, some (T.stub call))

end

/-! ## SAM3X/4 -/

section

variable (base start : UInt32)

abbrev sam3PageSize : UInt32 := 256
abbrev sam4PageSize : UInt32 := 512

abbrev eefcFcr : UInt32 := base + 0x04

abbrev eefcFcrFkey : UInt32 := 0x5A000000
abbrev eefcFcrFcmdWp : UInt8 := 0x01
abbrev eefcFcrFcmdEwp : UInt8 := 0x03
abbrev eefcFcrFcmdEpa : UInt8 := 0x07

/-- What the controller of a bank makes of a write to a register: it takes a command and an
argument out of it. A page is erased before it is written by one of the commands, and eight pages
are erased by another. -/
def samEffect (pageSize dest : UInt32) (src : List UInt8) (w : RegWrite) : Option Effect :=
  let cmd := w.val.toUInt8
  let arg := (w.val >>> 8).toUInt16
  if w.reg ≠ eefcFcr base then none
  else if cmd = eefcFcrFcmdWp then some (.program start pageSize.toNat arg.toNat dest src)
  else if cmd = eefcFcrFcmdEwp then some (.replace start pageSize.toNat arg.toNat dest src)
  else if cmd = eefcFcrFcmdEpa then some (.erase start (8 * pageSize.toNat) (arg.toNat / 8))
  else none

/-- `EEFC_FSR_FRDY`. -/
def samReady (v : UInt32) : Bool := v &&& 1 != 0

/-- `EEFC_FSR_ERROR`. -/
abbrev eefcFsrError : UInt32 := 6

def sam3xFlashCmd (call k fuel : Nat) (cmd : UInt8) (arg : UInt16) :
    List RegWrite × Option Bool :=
  ([⟨eefcFcr base, eefcFcrFkey ||| cmd.toUInt32 ||| arg.toUInt32 <<< 8, 0⟩],
    match poll (T.turn samReady call k) fuel with
    | some true => some (T.sr call k &&& eefcFsrError == 0)
    | e => e)

/-- The body of the loop of `sam4_flash_erase`. -/
def sam4EraseChunk (call fuel : Nat) (s : Nat × UInt32) : List RegWrite × Option Bool :=
  sam3xFlashCmd T base call s.1 fuel eefcFcrFcmdEpa (s.2 ||| 1).toUInt16

def sam4FlashErase (blocksize : UInt32) (call fuel : Nat) (addr len : UInt32) :
    List Effect × Option Ret :=
  let r := sweep (saturating blocksize) (advance 8) (sam4EraseChunk T base call fuel) fuel len
    (0, (addr - start) / sam4PageSize)
  (r.1.filterMap (samEffect base start sam4PageSize 0 []), retOf r.2)

/-- `sam3_flash_erase` does nothing. -/
def sam3FlashErase (_addr _len : UInt32) : List Effect × Option Ret := ([], some 0)

def sam3xFlashWrite (writeCmd : UInt8) (bufSize : UInt32) (call fuel : Nat) (dest : UInt32)
    (src : List UInt8) : List Effect × Option Ret :=
  let r := sam3xFlashCmd T base call 0 fuel writeCmd ((dest - start) / bufSize).toUInt16
  (r.1.filterMap (samEffect base start bufSize dest src), retOf r.2)

end

/-! ## Regions -/

/-- The functions a region is registered with. Those of an EFM32 find the address of the
controller by the driver string, and those of a SAM3X/4 in the region. -/
inductive Driver where
  | samd
  | samx5x
  | efm32 (mscAddr : UInt32)
  | sam3 (eefcBase : UInt32)
  | sam4 (eefcBase : UInt32)

structure PageFlash where
  driver : Driver
  start : UInt32
  length : UInt32
  blocksize : UInt32
  bufSize : UInt32

namespace PageFlash

variable (F : PageFlash)

/-- `f->erase`. -/
def erase (call fuel : Nat) (addr len : UInt32) : List Effect × Option Ret :=
  match F.driver with
  | .samd => samdFlashErase T call fuel addr len
  | .samx5x => samx5xFlashErase T call fuel addr len
  | .efm32 msc => efm32FlashErase T msc F.blocksize call fuel addr len
  | .sam3 _ => sam3FlashErase addr len
  | .sam4 base => sam4FlashErase T base F.start F.blocksize call fuel addr len

/-- `f->write`. -/
def write (call fuel : Nat) (dest : UInt32) (src : List UInt8) (len : UInt32) :
    List Effect × Option Ret :=
  let src := src.take len.toNat
  match F.driver with
  | .samd => samdFlashWrite T call fuel dest src
  | .samx5x => samx5xFlashWrite T call fuel dest src
  | .efm32 _ => efm32FlashWrite T call dest src len
  | .sam3 base => sam3xFlashWrite T base F.start eefcFcrFcmdEwp F.bufSize call fuel dest src
  | .sam4 base => sam3xFlashWrite T base F.start eefcFcrFcmdWp F.bufSize call fuel dest src

/-- The region. A block of the heap is full of zeros, and `erased` and `done` stay so. -/
def region (fuel : Nat) (h : F.bufSize ≠ 0) : FlashRegion Env UInt8 where
  start := F.start
  length := F.length
  blocksize := F.blocksize
  erase addr len s := T.settle s (F.erase T s.calls fuel addr len)
  write dest src len s := T.settle s (F.write T s.calls fuel dest src len)
  done := none
  erased := 0
  bufSize := F.bufSize
  bufSize_ne_zero := h

end PageFlash

def samdAddFlash (addr length : UInt32) : PageFlash :=
  ⟨.samd, addr, length, samdRowSize, samdPageSize⟩

def samx5xAddFlash (addr length eraseBlockSize writePageSize : UInt32) : PageFlash :=
  ⟨.samx5x, addr, length, eraseBlockSize, writePageSize⟩

def efm32AddFlash (mscAddr addr length pageSize : UInt32) : PageFlash :=
  ⟨.efm32 mscAddr, addr, length, pageSize, pageSize⟩

def sam3AddFlash (eefcBase addr length : UInt32) : PageFlash :=
  ⟨.sam3 eefcBase, addr, length, sam3PageSize, sam3PageSize⟩

def sam4AddFlash (eefcBase addr length : UInt32) : PageFlash :=
  ⟨.sam4 eefcBase, addr, length, sam4PageSize * 8, sam4PageSize⟩

end MiyakoLink.Pages
