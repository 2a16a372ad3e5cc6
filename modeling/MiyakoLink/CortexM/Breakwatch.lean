import MiyakoLink.Lib.Slots

/-!
# Breakpoints and watchpoints of a Cortex-M

`cortexm_attach`, `cortexm_detach` and the functions for break- and watchpoints of `cortexm.c`, and
`target_breakwatch_set` and `target_breakwatch_clear` of `target.c` on top of them. The
registers of the breakpoint unit (FPB) and the watchpoint unit (DWT) are memory words; what the
functions do to the other debug registers is left out.

`none` is an access outside of `hw_breakpoint` or `hw_watchpoint`.
-/

namespace MiyakoLink.CortexM

open Lib

/-- `enum target_breakwatch`. -/
inductive BreakwatchType where
  | breakSoft
  | breakHard
  | watchWrite
  | watchRead
  | watchAccess
  deriving DecidableEq, Repr

/-- `struct breakwatch`; `slot` is `reserved[0]`. -/
structure Breakwatch where
  type : BreakwatchType
  addr : UInt32
  size : UInt32
  slot : Nat
  deriving DecidableEq, Repr

/-- `CORTEXM_MAX_BREAKPOINTS`. -/
abbrev maxBreakpoints : Nat := 8

/-- `CORTEXM_MAX_WATCHPOINTS`. -/
abbrev maxWatchpoints : Nat := 4

/-- The registers: `FPB_CTRL`, `DWT_CTRL`, and those of each comparator. -/
structure Core where
  fpbCtrl : UInt32
  dwtCtrl : UInt32
  fpbComp : Nat → UInt32
  dwtComp : Nat → UInt32
  dwtMask : Nat → UInt32
  dwtFunc : Nat → UInt32

/-- `struct cortexm_priv`. -/
structure Priv where
  hwWatchpoint : Slots maxWatchpoints
  flashPatchRevision : UInt32
  hwWatchpointMax : Nat
  hwBreakpoint : Slots maxBreakpoints
  hwBreakpointMax : Nat

/-- The target; `flavourV6m` is its option `TOPT_FLAVOUR_V6M`. -/
structure Target where
  core : Core
  priv : Priv
  flavourV6m : Bool
  bwList : List Breakwatch

/-- The target as `cortexm_probe` makes it. -/
def probed (core : Core) (flavourV6m : Bool) : Target where
  core := core
  priv := ⟨fun _ => false, 0, 0, fun _ => false, 0⟩
  flavourV6m := flavourV6m
  bwList := []

/-- A loop that clears the registers and flags of the first `max` comparators. -/
def clearStale {n : Nat} (max : Nat) (regs : Nat → UInt32) (flags : Slots n) :
    Option ((Nat → UInt32) × Slots n) :=
  (List.range max).foldlM
    (fun s i => (s.2.set? i false).map fun flags => (Function.update s.1 i 0, flags)) (regs, flags)

/-- `cortexm_attach`. `srstStuck` is whether the target is still in reset at the timeout. -/
def cortexmAttach (t : Target) (srstStuck : Bool) : Option (Bool × Target) := do
  -- Size the break/watchpoint units.
  let numComp1 := (t.core.fpbCtrl >>> 4 &&& 0xf).toNat
  let hwBreakpointMax := if numComp1 < maxBreakpoints then numComp1 else maxBreakpoints
  let flashPatchRevision := t.core.fpbCtrl >>> 28
  let numComp := (t.core.dwtCtrl >>> 28).toNat
  let hwWatchpointMax := if numComp > maxWatchpoints then numComp else maxWatchpoints
  let (fpbComp, hwBreakpoint) ← clearStale hwBreakpointMax t.core.fpbComp t.priv.hwBreakpoint
  let (dwtFunc, hwWatchpoint) ← clearStale hwWatchpointMax t.core.dwtFunc t.priv.hwWatchpoint
  return (!srstStuck, { t with
    core := { t.core with fpbComp := fpbComp, dwtFunc := dwtFunc }
    priv := ⟨hwWatchpoint, flashPatchRevision, hwWatchpointMax, hwBreakpoint, hwBreakpointMax⟩ })

/-- `cortexm_detach`. It clears the comparators. -/
def cortexmDetach (t : Target) : Target :=
  { t with core := { t.core with
    fpbComp := (List.range t.priv.hwBreakpointMax).foldl (Function.update · · 0) t.core.fpbComp
    dwtFunc := (List.range t.priv.hwWatchpointMax).foldl (Function.update · · 0) t.core.dwtFunc } }

def dwtMask (size : UInt32) : UInt32 :=
  if size = 1 then 0 else if size = 2 then 1 else if size = 4 then 2 else 0xFFFFFFFF

def dwtFunc (t : Target) (type : BreakwatchType) : UInt32 :=
  let x : UInt32 := if t.flavourV6m then 0 else 0x800
  match type with
  | .watchWrite => 6 ||| x
  | .watchRead => 5 ||| x
  | .watchAccess => 7 ||| x
  | _ => 0xFFFFFFFF

/-- What is written to a breakpoint comparator. -/
def fpbValue (flashPatchRevision addr : UInt32) : UInt32 :=
  let val := if flashPatchRevision = 0 then
      (addr &&& 0x1FFFFFFC) ||| (if addr &&& 2 ≠ 0 then 0x80000000 else 0x40000000)
    else addr
  val ||| 1

/-- The result of a breakwatch operation, with the target and the breakwatch afterwards. -/
abbrev BreakwatchResult := Int × Target × Breakwatch

def setBreakpoint (t : Target) (bw : Breakwatch) : Option BreakwatchResult := do
  let val := fpbValue t.priv.flashPatchRevision bw.addr
  let i ← t.priv.hwBreakpoint.firstFree 0 t.priv.hwBreakpointMax
  if i = t.priv.hwBreakpointMax then
    return (-1, t, bw)
  else
    let hwBreakpoint ← t.priv.hwBreakpoint.set? i true
    return (0, { t with
      priv := { t.priv with hwBreakpoint := hwBreakpoint }
      core := { t.core with fpbComp := Function.update t.core.fpbComp i val } },
      { bw with slot := i })

def setWatchpoint (t : Target) (bw : Breakwatch) : Option BreakwatchResult := do
  let i ← t.priv.hwWatchpoint.firstFree 0 t.priv.hwWatchpointMax
  if i = t.priv.hwWatchpointMax then
    return (-1, t, bw)
  else
    let hwWatchpoint ← t.priv.hwWatchpoint.set? i true
    return (0, { t with
      priv := { t.priv with hwWatchpoint := hwWatchpoint }
      core := { t.core with
        dwtComp := Function.update t.core.dwtComp i bw.addr
        dwtMask := Function.update t.core.dwtMask i (dwtMask bw.size)
        dwtFunc := Function.update t.core.dwtFunc i (dwtFunc t bw.type) } },
      { bw with slot := i })

def cortexmBreakwatchSet (t : Target) (bw : Breakwatch) : Option BreakwatchResult :=
  match bw.type with
  | .breakHard => setBreakpoint t bw
  | .watchWrite | .watchRead | .watchAccess => setWatchpoint t bw
  | .breakSoft => some (1, t, bw)

def cortexmBreakwatchClear (t : Target) (bw : Breakwatch) : Option (Int × Target) := do
  let i := bw.slot
  match bw.type with
  | .breakHard =>
    let hwBreakpoint ← t.priv.hwBreakpoint.set? i false
    return (0, { t with
      priv := { t.priv with hwBreakpoint := hwBreakpoint }
      core := { t.core with fpbComp := Function.update t.core.fpbComp i 0 } })
  | .watchWrite | .watchRead | .watchAccess =>
    let hwWatchpoint ← t.priv.hwWatchpoint.set? i false
    return (0, { t with
      priv := { t.priv with hwWatchpoint := hwWatchpoint }
      core := { t.core with dwtFunc := Function.update t.core.dwtFunc i 0 } })
  | .breakSoft => return (1, t)

/-- `target_breakwatch_set`. `heap` is whether `MemManager_Alloc` returns a block. -/
def targetBreakwatchSet (t : Target) (type : BreakwatchType) (addr size : UInt32) (heap : Bool) :
    Option (Int × Target) := do
  let (ret, t, bw) ← cortexmBreakwatchSet t ⟨type, addr, size, 0⟩
  if ret = 0 then
    -- Success, make a heap copy.
    if heap then return (0, { t with bwList := bw :: t.bwList }) else return (1, t)
  else
    return (ret, t)

/-- `target_breakwatch_clear`. -/
def targetBreakwatchClear (t : Target) (type : BreakwatchType) (addr size : UInt32) :
    Option (Int × Target) :=
  let isIt := fun bw : Breakwatch => bw.type = type ∧ bw.addr = addr ∧ bw.size = size
  match t.bwList.find? isIt with
  | none => some (-1, t)
  | some bw => do
    let (ret, t) ← cortexmBreakwatchClear t bw
    if ret = 0 then return (0, { t with bwList := t.bwList.eraseP isIt }) else return (ret, t)

end MiyakoLink.CortexM
