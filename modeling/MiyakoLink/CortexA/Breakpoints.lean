import MiyakoLink.CortexM.Breakwatch
import MiyakoLink.Lib.Image
import MiyakoLink.Lib.Lanes

/-!
# Breakpoints of a Cortex-A

`cortexa_breakwatch_set` and `cortexa_breakwatch_clear` with the memory accesses they make, and
`target_breakwatch_set` and `target_breakwatch_clear` on top of them. A software breakpoint is an
instruction written to memory over the bytes that were there.

What is modelled of the core are its memory and its breakpoint registers; `Bus` is what the memory
system does with the accesses of one operation.
-/

namespace MiyakoLink.CortexA

open Lib
open CortexM (BreakwatchType)

/-- The memory system: whether loading so many words from an address on aborts, the addresses
whose store aborts, what a load that aborts leaves in the buffer, and `PAR` after the translation of
an address. -/
structure Bus where
  loadAborts : UInt32 → Nat → Bool
  storeAborts : UInt32 → Bool
  junk : Nat → UInt8
  par : UInt32 → UInt32

/-- `struct breakwatch`; `reserved` is `reserved[0]`. -/
structure Breakwatch where
  type : BreakwatchType
  addr : UInt32
  size : UInt32
  reserved : UInt32
  deriving DecidableEq

/-- The target: its memory, the registers of the breakpoint unit, the fields of `struct cortexa_priv`
that breakpoints use, and the list of breakpoints. -/
structure BreakTarget where
  mem : UInt32 → UInt8
  dbgbvr : Nat → UInt32
  dbgbcr : Nat → UInt32
  hwBreakpointMax : Nat
  hwBreakpointMask : UInt16
  bcr0 : UInt32
  bvr0 : UInt32
  mmuFault : Bool
  bwList : List Breakwatch

/-! ## Memory accesses -/

/-- `cortexa_slow_mem_read`: the bytes it leaves at `dest`. It loads whole words. -/
def cortexaSlowMemRead (bus : Bus) (t : BreakTarget) (src : UInt32) (len : Nat) :
    (Nat → UInt8) × BreakTarget :=
  let words := (len + (src &&& 3).toNat + 3) / 4
  let base := src &&& ~~~3
  if bus.loadAborts base words then
    (bus.junk, { t with mmuFault := true })
  else (fun k => t.mem (base + UInt32.ofNat ((src &&& 3).toNat + k)), t)

/-- `cortexa_slow_mem_write_bytes`. -/
def cortexaSlowMemWriteBytes (bus : Bus) (t : BreakTarget) (dest : UInt32) :
    List UInt8 → BreakTarget
  | [] => t
  | b :: src =>
    if bus.storeAborts dest then { t with mmuFault := true }
    else
      cortexaSlowMemWriteBytes bus { t with mem := Function.update t.mem dest b } (dest + 1) src

/-- The loop of `cortexa_slow_mem_write` over words. After an abort no store is executed. -/
def storeWords (bus : Bus) (t : BreakTarget) (dest : UInt32) : List UInt8 → BreakTarget
  | b0 :: b1 :: b2 :: b3 :: src =>
    if bus.storeAborts dest then { t with mmuFault := true }
    else storeWords bus { t with mem := overlay t.mem dest [b0, b1, b2, b3] } (dest + 4) src
  | _ => t

/-- `cortexa_slow_mem_write`. -/
def cortexaSlowMemWrite (bus : Bus) (t : BreakTarget) (dest : UInt32) (src : List UInt8) :
    BreakTarget :=
  if src.length = 0 then t
  else if dest &&& 3 ≠ 0 ∨ src.length % 4 ≠ 0 then cortexaSlowMemWriteBytes bus t dest src
  else storeWords bus t dest src

/-- `cortexa_check_error`. -/
def cortexaCheckError (t : BreakTarget) : Int × BreakTarget :=
  (if t.mmuFault then 1 else 0, { t with mmuFault := false })

/-- The bytes of a value in memory. -/
def leBytes (v : UInt32) (n : Nat) : List UInt8 := (List.range n).map (lane v)

/-- `target_mem_read16` (`n = 2`) and `target_mem_read32` (`n = 4`). -/
def targetMemRead (bus : Bus) (t : BreakTarget) (n : Nat) (addr : UInt32) :
    UInt32 × BreakTarget :=
  let (ret, t) := cortexaSlowMemRead bus t addr n
  (ofLanes fun k => if k < n then ret k else 0, t)

/-- `target_mem_write16` (`n = 2`) and `target_mem_write32` (`n = 4`). -/
def targetMemWrite (bus : Bus) (t : BreakTarget) (n : Nat) (addr value : UInt32) : BreakTarget :=
  cortexaSlowMemWrite bus t addr (leBytes value n)

/-- `va_to_pa`. -/
def vaToPa (bus : Bus) (t : BreakTarget) (va : UInt32) : UInt32 × BreakTarget :=
  let par := bus.par va
  ((par &&& ~~~0xfff) ||| (va &&& 0xfff),
    if par &&& 1 ≠ 0 then { t with mmuFault := true } else t)

/-! ## Breakpoints -/

/-- `DBGBCR_BAS_ANY`, `DBGBCR_BAS_HIGH_HW` or `DBGBCR_BAS_LOW_HW`. -/
def bpBas (addr : UInt32) (len : UInt8) : UInt32 :=
  if len = 4 then 0x1E0 else if addr &&& 2 ≠ 0 then 0x180 else 0x60

/-- The software breakpoints of `cortexa_breakwatch_set`, once their size is known. -/
def setSoft (bus : Bus) (t : BreakTarget) (bw : Breakwatch) (n : Nat) (instr : UInt32) :
    Int × BreakTarget × Breakwatch :=
  let (v, t) := targetMemRead bus t n bw.addr
  let t := targetMemWrite bus t n bw.addr instr
  let (err, t) := cortexaCheckError t
  (err, t, { bw with reserved := v })

/-- `cortexa_breakwatch_set`. -/
def cortexaBreakwatchSet (bus : Bus) (t : BreakTarget) (bw : Breakwatch) :
    Int × BreakTarget × Breakwatch :=
  match bw.type with
  | .breakSoft =>
    if bw.size = 2 then setSoft bus t bw 2 0xBE00
    else if bw.size = 4 then setSoft bus t bw 4 0xE1200070
    else (-1, t, bw)
  | .breakHard =>
    if bw.size ≠ 4 ∧ bw.size ≠ 2 then (-1, t, bw)
    else
      match (List.range t.hwBreakpointMax).find? fun i =>
          t.hwBreakpointMask &&& UInt16.ofNat (1 <<< i) = 0 with
      | none => (-1, t, bw)
      | some i =>
        let bw := { bw with reserved := UInt32.ofNat i }
        let t := { t with hwBreakpointMask := t.hwBreakpointMask ||| UInt16.ofNat (1 <<< i) }
        let (addr, t) := vaToPa bus t bw.addr
        let bcr := bpBas addr bw.size.toUInt8 ||| 1
        let t := { t with
          dbgbvr := Function.update t.dbgbvr i (addr &&& ~~~3)
          dbgbcr := Function.update t.dbgbcr i bcr }
        (0, if i = 0 then { t with bcr0 := bcr, bvr0 := addr &&& ~~~3 } else t, bw)
  | _ => (1, t, bw)

/-- The software breakpoints of `cortexa_breakwatch_clear`, once their size is known. -/
def clearSoft (bus : Bus) (t : BreakTarget) (bw : Breakwatch) (n : Nat) : Int × BreakTarget :=
  cortexaCheckError (targetMemWrite bus t n bw.addr bw.reserved)

/-- `cortexa_breakwatch_clear`. -/
def cortexaBreakwatchClear (bus : Bus) (t : BreakTarget) (bw : Breakwatch) : Int × BreakTarget :=
  match bw.type with
  | .breakSoft =>
    if bw.size = 2 then clearSoft bus t bw 2
    else if bw.size = 4 then clearSoft bus t bw 4
    else (-1, t)
  | .breakHard =>
    let i := bw.reserved.toNat
    let t := { t with
      hwBreakpointMask := t.hwBreakpointMask &&& ~~~ UInt16.ofNat (1 <<< i)
      dbgbcr := Function.update t.dbgbcr i 0 }
    (0, if i = 0 then { t with bcr0 := 0 } else t)
  | _ => (1, t)

/-- `target_breakwatch_set`. `heap` is whether `MemManager_Alloc` returns a block. -/
def targetBreakwatchSet (bus : Bus) (t : BreakTarget) (type : BreakwatchType)
    (addr size : UInt32) (heap : Bool) : Int × BreakTarget :=
  let (ret, t, bw) := cortexaBreakwatchSet bus t ⟨type, addr, size, 0⟩
  if ret = 0 then
    -- Success, make a heap copy.
    if heap then (0, { t with bwList := bw :: t.bwList }) else (1, t)
  else (ret, t)

/-- The entry that `target_breakwatch_clear` looks for. -/
def Breakwatch.isFor (type : BreakwatchType) (addr size : UInt32) (bw : Breakwatch) : Bool :=
  bw.type = type ∧ bw.addr = addr ∧ bw.size = size

/-- `target_breakwatch_clear`. -/
def targetBreakwatchClear (bus : Bus) (t : BreakTarget) (type : BreakwatchType)
    (addr size : UInt32) : Int × BreakTarget :=
  match t.bwList.find? (Breakwatch.isFor type addr size) with
  | none => (-1, t)
  | some bw =>
    let (ret, t) := cortexaBreakwatchClear bus t bw
    if ret = 0 then (ret, { t with bwList := t.bwList.eraseP (Breakwatch.isFor type addr size) })
    else (ret, t)

end MiyakoLink.CortexA
