import MiyakoLink.CortexM.Units
import MiyakoLink.Lib.Guarded

/-!
# Runs of attach, detach, set and clear

`Booked` is what the claim of the three places amounts to: for both units the entries of
`bw_list`, the flags and the comparators agree. The operations keep it under `Safe`: attaching
and detaching is done without entries and on cores with at most four watchpoint comparators, a
slot that is taken exists and can hold the address, and the entry for it can be allocated.
-/

namespace MiyakoLink.CortexM

open Lib
open scoped List

/-- The number of breakpoint comparators that `FPB_CTRL` reports, in two fields. -/
def numBreakpoints (core : Core) : Nat :=
  (core.fpbCtrl >>> 12 &&& 7).toNat * 16 + (core.fpbCtrl >>> 4 &&& 0xf).toNat

/-- The number of watchpoint comparators that `DWT_CTRL` reports. -/
def numWatchpoints (core : Core) : Nat := (core.dwtCtrl >>> 28).toNat

def revision (core : Core) : UInt32 := core.fpbCtrl >>> 28

/-- The address a watchpoint comparator compares with, if it has a function. -/
def dwtAddress (func comp : UInt32) : Option UInt32 :=
  if func &&& 0xf = 0 then none else some comp

def isBreakpoint (bw : Breakwatch) : Bool := bw.type = .breakHard

def isWatchpoint (bw : Breakwatch) : Bool :=
  bw.type = .watchWrite ∨ bw.type = .watchRead ∨ bw.type = .watchAccess

structure Booked (t : Target) : Prop where
  breakpoints : Consistent (numBreakpoints t.core)
    (fun i => fpbAddress (revision t.core) (t.core.fpbComp i)) halfword
    t.priv.hwBreakpoint (t.bwList.filter isBreakpoint)
  watchpoints : Consistent (numWatchpoints t.core)
    (fun i => dwtAddress (t.core.dwtFunc i) (t.core.dwtComp i)) id
    t.priv.hwWatchpoint (t.bwList.filter isWatchpoint)
  kinds : ∀ bw ∈ t.bwList, isBreakpoint bw ∨ isWatchpoint bw

/-- The list, the flags and the comparators are the same. -/
def SameBooks (t t' : Target) : Prop :=
  t'.bwList = t.bwList ∧ t'.priv.hwBreakpoint = t.priv.hwBreakpoint ∧
    t'.priv.hwWatchpoint = t.priv.hwWatchpoint ∧ t'.core = t.core

inductive Op where
  | attach (srstStuck : Bool)
  | detach
  | set (type : BreakwatchType) (addr size : UInt32) (heap : Bool)
  | clear (type : BreakwatchType) (addr size : UInt32)

/-- Whether the operation reports success, and the target afterwards. -/
def step (t : Target) : Op → Option (Bool × Target)
  | .attach srstStuck => cortexmAttach t srstStuck
  | .detach => some (true, cortexmDetach t)
  | .set type addr size heap =>
    (targetBreakwatchSet t type addr size heap).map fun r => (r.1 == 0, r.2)
  | .clear type addr size => (targetBreakwatchClear t type addr size).map fun r => (r.1 == 0, r.2)

/-- The target after the operation, or `none` from an access out of bounds on. -/
def next (t : Option Target) (op : Op) : Option Target :=
  t.bind fun t => (step t op).map Prod.snd

/-- The number of breakpoint comparators that `cortexm_attach` clears. -/
def attachMax (core : Core) : Nat := min (core.fpbCtrl >>> 4 &&& 0xf).toNat maxBreakpoints

/-- The condition on an operation and the state before it. -/
def Safe (t : Target) : Op → Prop
  | .attach _ => t.bwList = [] ∧ numWatchpoints t.core ≤ maxWatchpoints ∧
    ∀ i : Fin maxBreakpoints, attachMax t.core ≤ i →
      fpbAddress (revision t.core) (t.core.fpbComp i) = none
  | .detach => t.bwList = []
  | .set .breakSoft _ _ _ => True
  | .set .breakHard addr _ heap => ∀ i,
    t.priv.hwBreakpoint.firstFree 0 t.priv.hwBreakpointMax = some i → i < t.priv.hwBreakpointMax →
      heap = true ∧ Holdable (revision t.core) addr
  | .set _ _ _ heap => ∀ i,
    t.priv.hwWatchpoint.firstFree 0 t.priv.hwWatchpointMax = some i → i < t.priv.hwWatchpointMax →
      heap = true ∧ i < numWatchpoints t.core
  | .clear _ _ _ => True

/-- The operations of a run meet the condition, each in the state it starts from. -/
def SafeNext (t : Option Target) (op : Op) : Prop := ∀ t', t = some t' → Safe t' op

/-! ## The invariant -/

structure Inv (t : Target) : Prop where
  breakpoints : UnitInv (numBreakpoints t.core) t.priv.hwBreakpointMax
    (fun comp _ => fpbAddress (revision t.core) comp) halfword t.priv.hwBreakpoint
    t.core.fpbComp t.core.fpbComp (t.bwList.filter isBreakpoint)
  watchpoints : UnitInv (numWatchpoints t.core) t.priv.hwWatchpointMax dwtAddress id
    t.priv.hwWatchpoint t.core.dwtFunc t.core.dwtComp (t.bwList.filter isWatchpoint)
  kinds : ∀ bw ∈ t.bwList, isBreakpoint bw ∨ isWatchpoint bw
  breakpointMax : t.priv.hwBreakpointMax = attachMax t.core
  watchpointMax : t.priv.hwWatchpointMax = maxWatchpoints
  flashPatchRevision : t.priv.flashPatchRevision = revision t.core

variable {t t' : Target} {op : Op} {ok : Bool}

theorem Inv.booked (h : Inv t) : Booked t :=
  ⟨h.breakpoints.consistent, h.watchpoints.consistent, h.kinds⟩

theorem dwtAddress_zero (comp : UInt32) : dwtAddress 0 comp = none := rfl

theorem attachMax_le (core : Core) : attachMax core ≤ maxBreakpoints := Nat.min_le_right _ _

/-- A comparator that the driver uses exists. -/
theorem attachMax_le_num (core : Core) : attachMax core ≤ numBreakpoints core := by
  unfold attachMax numBreakpoints
  omega

/-- `cortexm_attach` with no flag set: the comparators are cleared. -/
theorem cortexmAttach_eq (hbreak : ∀ i, t.priv.hwBreakpoint i = false)
    (hwatch : ∀ i, t.priv.hwWatchpoint i = false) (hnum : numWatchpoints t.core ≤ maxWatchpoints)
    (srstStuck : Bool) :
    cortexmAttach t srstStuck = some (!srstStuck, { t with
      core := { t.core with
        fpbComp := zeroed (attachMax t.core) t.core.fpbComp
        dwtFunc := zeroed maxWatchpoints t.core.dwtFunc }
      priv := ⟨t.priv.hwWatchpoint, revision t.core, maxWatchpoints, t.priv.hwBreakpoint,
        attachMax t.core⟩ }) := by
  have hmaxB : (if (t.core.fpbCtrl >>> 4 &&& 0xf).toNat < maxBreakpoints then
      (t.core.fpbCtrl >>> 4 &&& 0xf).toNat else maxBreakpoints) = attachMax t.core := by
    unfold attachMax
    split
    · omega
    · omega
  have hmaxW : (if (t.core.dwtCtrl >>> 28).toNat > maxWatchpoints then
      (t.core.dwtCtrl >>> 28).toNat else maxWatchpoints) = maxWatchpoints :=
    if_neg (Nat.not_lt.mpr hnum)
  unfold cortexmAttach
  dsimp only
  rw [hmaxB, hmaxW, clearStale_eq (attachMax_le t.core) _ hbreak,
    clearStale_eq (Nat.le_refl _) _ hwatch]
  rfl

/-- A safe `cortexm_attach` with no flag set establishes the invariant. -/
theorem Inv.of_attach (hbreak : ∀ i, t.priv.hwBreakpoint i = false)
    (hwatch : ∀ i, t.priv.hwWatchpoint i = false) {srstStuck : Bool}
    (hsafe : Safe t (.attach srstStuck)) :
    ∃ t', cortexmAttach t srstStuck = some (!srstStuck, t') ∧ Inv t' := by
  obtain ⟨hempty, hnum, hstale⟩ := hsafe
  refine ⟨_, cortexmAttach_eq hbreak hwatch hnum srstStuck, ?_⟩
  constructor
  case breakpoints =>
    show UnitInv _ _ _ _ _ _ _ (t.bwList.filter isBreakpoint)
    rw [hempty]
    apply UnitInv.cleared hbreak fun _ => rfl
    intro i hi
    exact hstale i hi
  case watchpoints =>
    show UnitInv _ _ _ _ _ _ _ (t.bwList.filter isWatchpoint)
    rw [hempty]
    apply UnitInv.cleared hwatch dwtAddress_zero
    intro i hi
    exact absurd i.isLt (Nat.not_lt.mpr hi)
  case kinds =>
    show ∀ bw ∈ t.bwList, _
    rw [hempty]
    simp
  case breakpointMax => rfl
  case watchpointMax => rfl
  case flashPatchRevision => rfl

/-- Without entries no flag is set, and no comparator is left to clear. -/
theorem Inv.zeroed_eq (h : Inv t) (hempty : t.bwList = []) :
    zeroed (attachMax t.core) t.core.fpbComp = t.core.fpbComp ∧
      zeroed maxWatchpoints t.core.dwtFunc = t.core.dwtFunc ∧
      (∀ i, t.priv.hwBreakpoint i = false) ∧ ∀ i, t.priv.hwWatchpoint i = false := by
  have hbreak := h.breakpoints
  have hwatch := h.watchpoints
  rw [hempty, h.breakpointMax] at hbreak
  rw [hempty, h.watchpointMax] at hwatch
  exact ⟨hbreak.zeroed_eq (attachMax_le _), hwatch.zeroed_eq (Nat.le_refl _),
    hbreak.booked.flag_eq_false, hwatch.booked.flag_eq_false⟩

/-- Attaching again, without entries. Nothing changes. -/
theorem Inv.attach (h : Inv t) {srstStuck : Bool} (hsafe : Safe t (.attach srstStuck)) :
    ∃ t', cortexmAttach t srstStuck = some (!srstStuck, t') ∧ Inv t' ∧ SameBooks t t' := by
  obtain ⟨hfpb, hdwt, hbreak, hwatch⟩ := h.zeroed_eq hsafe.1
  obtain ⟨t', hattach, hinv⟩ := Inv.of_attach hbreak hwatch hsafe
  refine ⟨t', hattach, hinv, ?_⟩
  rw [cortexmAttach_eq hbreak hwatch hsafe.2.1, hfpb, hdwt] at hattach
  cases hattach
  exact ⟨rfl, rfl, rfl, rfl⟩

theorem Inv.detach (h : Inv t) (hempty : t.bwList = []) : cortexmDetach t = t := by
  obtain ⟨hfpb, hdwt, -, -⟩ := h.zeroed_eq hempty
  unfold cortexmDetach
  rw [foldl_update, foldl_update, h.breakpointMax, h.watchpointMax, hfpb, hdwt]

/-! ## Setting -/

theorem filter_cons_breakpoint {bw : Breakwatch} (h : bw.type = .breakHard)
    (l : List Breakwatch) : (bw :: l).filter isBreakpoint = bw :: l.filter isBreakpoint ∧
      (bw :: l).filter isWatchpoint = l.filter isWatchpoint := by
  simp [isBreakpoint, isWatchpoint, h]

theorem filter_cons_watchpoint {bw : Breakwatch} (h : isWatchpoint bw = true)
    (l : List Breakwatch) : (bw :: l).filter isBreakpoint = l.filter isBreakpoint ∧
      (bw :: l).filter isWatchpoint = bw :: l.filter isWatchpoint := by
  have hnot : isBreakpoint bw = false := by
    unfold isBreakpoint isWatchpoint at *
    cases htype : bw.type <;> simp_all
  exact ⟨List.filter_cons_of_neg (by simp [hnot]), List.filter_cons_of_pos h⟩

theorem dwtFunc_enabled (t : Target) {bw : Breakwatch} (h : isWatchpoint bw = true)
    (addr : UInt32) : dwtAddress (dwtFunc t bw.type) addr = some addr := by
  unfold isWatchpoint at h
  unfold dwtAddress dwtFunc
  cases htype : bw.type <;> cases t.flavourV6m <;> simp_all
  all_goals decide

/-- Setting a breakpoint: no comparator is free, or one is taken for the new entry. -/
theorem Inv.setBreakHard (h : Inv t) {addr size : UInt32} {heap : Bool}
    (hsafe : Safe t (.set .breakHard addr size heap)) :
    ∃ ret t', targetBreakwatchSet t .breakHard addr size heap = some (ret, t') ∧ Inv t' ∧
      (ret ≠ 0 → t' = t) := by
  have hmax : t.priv.hwBreakpointMax ≤ maxBreakpoints := by
    rw [h.breakpointMax]
    exact attachMax_le _
  obtain ⟨i, hfirst, hcases⟩ := Slots.firstFree_cases t.priv.hwBreakpoint hmax
  rcases hcases with hfull | ⟨hlt, hi, hfree⟩
  · refine ⟨-1, t, ?_, h, fun _ => rfl⟩
    unfold targetBreakwatchSet cortexmBreakwatchSet setBreakpoint
    simp [hfirst, hfull]
  · obtain ⟨hheap, hhold⟩ := hsafe i hfirst hlt
    have hnum : i < numBreakpoints t.core := by
      have hle := attachMax_le_num t.core
      rw [← h.breakpointMax] at hle
      omega
    let bw : Breakwatch := ⟨.breakHard, addr, size, i⟩
    obtain ⟨hfilter, hfilter'⟩ := @filter_cons_breakpoint bw rfl t.bwList
    let val := fpbValue t.priv.flashPatchRevision addr
    let t' : Target := { t with
      priv.hwBreakpoint := Function.update t.priv.hwBreakpoint ⟨i, hi⟩ true
      core.fpbComp := Function.update t.core.fpbComp i val
      bwList := bw :: t.bwList }
    refine ⟨0, t', ?_, ?_, fun hret => absurd rfl hret⟩
    · unfold targetBreakwatchSet cortexmBreakwatchSet setBreakpoint
      simp [hfirst, Nat.ne_of_lt hlt, Slots.set?, hi, hheap, t', bw, val]
    · have hheld : fpbAddress (revision t.core) (fpbValue t.priv.flashPatchRevision addr) =
          some (halfword addr) := by
        rw [h.flashPatchRevision]
        exact fpbAddress_fpbValue hhold
      constructor
      case breakpoints =>
        show UnitInv _ _ _ _ _ _ _ ((bw :: t.bwList).filter isBreakpoint)
        rw [hfilter]
        exact h.breakpoints.take (b := bw) hi hfree hnum hheld
      case watchpoints =>
        show UnitInv _ _ _ _ _ _ _ ((bw :: t.bwList).filter isWatchpoint)
        rw [hfilter']
        exact h.watchpoints
      case kinds =>
        intro bw' hbw'
        rcases List.mem_cons.mp hbw' with rfl | hbw'
        · exact .inl rfl
        · exact h.kinds bw' hbw'
      case breakpointMax => exact h.breakpointMax
      case watchpointMax => exact h.watchpointMax
      case flashPatchRevision => exact h.flashPatchRevision

/-- Setting a watchpoint, of any of the three types. -/
theorem Inv.setWatch (h : Inv t) {type : BreakwatchType} {addr size : UInt32} {heap : Bool}
    (htype : type = .watchWrite ∨ type = .watchRead ∨ type = .watchAccess)
    (hsafe : Safe t (.set type addr size heap)) :
    ∃ ret t', targetBreakwatchSet t type addr size heap = some (ret, t') ∧ Inv t' ∧
      (ret ≠ 0 → t' = t) := by
  have hdriver : ∀ bw : Breakwatch, bw.type = type →
      cortexmBreakwatchSet t bw = setWatchpoint t bw := by
    intro bw hbw
    unfold cortexmBreakwatchSet
    rcases htype with rfl | rfl | rfl <;> rw [hbw]
  have htaken : ∀ i, t.priv.hwWatchpoint.firstFree 0 t.priv.hwWatchpointMax = some i →
      i < t.priv.hwWatchpointMax → heap = true ∧ i < numWatchpoints t.core := by
    rcases htype with rfl | rfl | rfl
    · exact hsafe
    · exact hsafe
    · exact hsafe
  obtain ⟨i, hfirst, hcases⟩ :=
    Slots.firstFree_cases t.priv.hwWatchpoint (Nat.le_of_eq h.watchpointMax)
  rcases hcases with hfull | ⟨hlt, hi, hfree⟩
  · refine ⟨-1, t, ?_, h, fun _ => rfl⟩
    unfold targetBreakwatchSet
    rw [hdriver _ rfl]
    simp [setWatchpoint, hfirst, hfull]
  · obtain ⟨hheap, hnum⟩ := htaken i hfirst hlt
    let bw : Breakwatch := ⟨type, addr, size, i⟩
    have hwatch : isWatchpoint bw = true := decide_eq_true htype
    obtain ⟨hfilter, hfilter'⟩ := filter_cons_watchpoint hwatch t.bwList
    let t' : Target := { t with
      priv.hwWatchpoint := Function.update t.priv.hwWatchpoint ⟨i, hi⟩ true
      core.dwtComp := Function.update t.core.dwtComp i addr
      core.dwtMask := Function.update t.core.dwtMask i (dwtMask size)
      core.dwtFunc := Function.update t.core.dwtFunc i (dwtFunc t type)
      bwList := bw :: t.bwList }
    refine ⟨0, t', ?_, ?_, fun hret => absurd rfl hret⟩
    · unfold targetBreakwatchSet
      rw [hdriver _ rfl]
      simp [setWatchpoint, hfirst, Nat.ne_of_lt hlt, Slots.set?, hi, hheap, t', bw]
    · constructor
      case breakpoints =>
        show UnitInv _ _ _ _ _ _ _ ((bw :: t.bwList).filter isBreakpoint)
        rw [hfilter]
        exact h.breakpoints
      case watchpoints =>
        show UnitInv _ _ _ _ _ _ _ ((bw :: t.bwList).filter isWatchpoint)
        rw [hfilter']
        exact h.watchpoints.take (b := bw) hi hfree hnum (dwtFunc_enabled t hwatch addr)
      case kinds =>
        intro bw' hbw'
        rcases List.mem_cons.mp hbw' with rfl | hbw'
        · exact .inr hwatch
        · exact h.kinds bw' hbw'
      case breakpointMax => exact h.breakpointMax
      case watchpointMax => exact h.watchpointMax
      case flashPatchRevision => exact h.flashPatchRevision

theorem Inv.set (h : Inv t) {type : BreakwatchType} {addr size : UInt32} {heap : Bool}
    (hsafe : Safe t (.set type addr size heap)) :
    ∃ ret t', targetBreakwatchSet t type addr size heap = some (ret, t') ∧ Inv t' ∧
      (ret ≠ 0 → t' = t) := by
  cases type with
  | breakSoft => exact ⟨1, t, rfl, h, fun _ => rfl⟩
  | breakHard => exact h.setBreakHard hsafe
  | watchWrite => exact h.setWatch (.inl rfl) hsafe
  | watchRead => exact h.setWatch (.inr (.inl rfl)) hsafe
  | watchAccess => exact h.setWatch (.inr (.inr rfl)) hsafe

/-! ## Clearing -/

/-- The first entry with a property, and the list without it. -/
theorem find?_perm {p : Breakwatch → Bool} {l : List Breakwatch} {bw : Breakwatch}
    (h : l.find? p = some bw) : l ~ bw :: l.eraseP p := by
  obtain ⟨hp, l₁, l₂, rfl, hl₁⟩ := List.find?_eq_some_iff_append.mp h
  have hnot : ∀ a ∈ l₁, ¬ p a = true := by simpa using hl₁
  rw [List.eraseP_append_right _ hnot, List.eraseP_cons_of_pos hp]
  exact List.perm_middle

/-- Clearing: there is no such entry, or its comparator is released. -/
theorem Inv.clear (h : Inv t) (type : BreakwatchType) (addr size : UInt32) :
    ∃ ret t', targetBreakwatchClear t type addr size = some (ret, t') ∧ Inv t' ∧
      (ret ≠ 0 → t' = t) := by
  unfold targetBreakwatchClear
  dsimp only
  cases hfind : t.bwList.find?
      fun bw => decide (bw.type = type ∧ bw.addr = addr ∧ bw.size = size) with
  | none => exact ⟨-1, t, rfl, h, fun _ => rfl⟩
  | some bw =>
    let rest := t.bwList.eraseP fun bw => bw.type = type ∧ bw.addr = addr ∧ bw.size = size
    have hperm : t.bwList ~ bw :: rest := find?_perm hfind
    dsimp only
    have hbw : bw ∈ t.bwList := hperm.mem_iff.mpr List.mem_cons_self
    have hkinds : ∀ bw' ∈ rest, isBreakpoint bw' ∨ isWatchpoint bw' := fun bw' hbw' =>
      h.kinds bw' (hperm.mem_iff.mpr (List.mem_cons_of_mem _ hbw'))
    have hbreaks := h.breakpoints.perm (hperm.filter isBreakpoint)
    have hwatches := h.watchpoints.perm (hperm.filter isWatchpoint)
    rcases h.kinds bw hbw with hbreak | hwatch
    · have htype : bw.type = .breakHard := of_decide_eq_true hbreak
      obtain ⟨hfilter, hfilter'⟩ := filter_cons_breakpoint htype rest
      rw [hfilter] at hbreaks
      rw [hfilter'] at hwatches
      have hk : bw.slot < maxBreakpoints := hbreaks.booked.lt _ List.mem_cons_self
      have hdriver : cortexmBreakwatchClear t bw = some (0, { t with
          priv.hwBreakpoint := Function.update t.priv.hwBreakpoint ⟨bw.slot, hk⟩ false
          core.fpbComp := Function.update t.core.fpbComp bw.slot 0 }) := by
        unfold cortexmBreakwatchClear
        simp [htype, Slots.set?, hk]
      rw [hdriver]
      refine ⟨0, _, rfl, ⟨?_, hwatches, hkinds, h.breakpointMax, h.watchpointMax,
        h.flashPatchRevision⟩, fun hret => absurd rfl hret⟩
      exact hbreaks.release hk (fun _ => rfl) fun i hi => Function.update_of_ne hi _ _
    · obtain ⟨hfilter, hfilter'⟩ := filter_cons_watchpoint hwatch rest
      rw [hfilter] at hbreaks
      rw [hfilter'] at hwatches
      have hk : bw.slot < maxWatchpoints := hwatches.booked.lt _ List.mem_cons_self
      have hdriver : cortexmBreakwatchClear t bw = some (0, { t with
          priv.hwWatchpoint := Function.update t.priv.hwWatchpoint ⟨bw.slot, hk⟩ false
          core.dwtFunc := Function.update t.core.dwtFunc bw.slot 0 }) := by
        unfold cortexmBreakwatchClear
        rcases of_decide_eq_true hwatch with htype | htype | htype
        · simp [htype, Slots.set?, hk]
        · simp [htype, Slots.set?, hk]
        · simp [htype, Slots.set?, hk]
      rw [hdriver]
      refine ⟨0, _, rfl, ⟨hbreaks, ?_, hkinds, h.breakpointMax, h.watchpointMax,
        h.flashPatchRevision⟩, fun hret => absurd rfl hret⟩
      exact hwatches.release hk dwtAddress_zero fun _ _ => rfl

/-! ## Runs -/

/-- A safe operation is defined and keeps the invariant. One that reports failure changes
nothing. -/
theorem Inv.step (h : Inv t) (hsafe : Safe t op) :
    ∃ ok t', step t op = some (ok, t') ∧ Inv t' ∧ (ok = false → SameBooks t t') := by
  have hsame : SameBooks t t := ⟨rfl, rfl, rfl, rfl⟩
  cases op with
  | attach srstStuck =>
    obtain ⟨t', hattach, hinv, hbooks⟩ := h.attach hsafe
    exact ⟨_, t', hattach, hinv, fun _ => hbooks⟩
  | detach =>
    refine ⟨true, t, ?_, h, fun hok => absurd hok (by decide)⟩
    rw [CortexM.step, h.detach hsafe]
  | set type addr size heap =>
    obtain ⟨ret, t', hset, hinv, hfail⟩ := h.set hsafe
    refine ⟨ret == 0, t', ?_, hinv, ?_⟩
    · rw [CortexM.step, hset]
      rfl
    · intro hret
      rw [hfail (by simpa using hret)]
      exact hsame
  | clear type addr size =>
    obtain ⟨ret, t', hclear, hinv, hfail⟩ := h.clear type addr size
    refine ⟨ret == 0, t', ?_, hinv, ?_⟩
    · rw [CortexM.step, hclear]
      rfl
    · intro hret
      rw [hfail (by simpa using hret)]
      exact hsame

/-- A core with six breakpoint comparators, of revision 1, and four watchpoint comparators. -/
def quadCore : Core := ⟨0x10000060, 0x40000000, fun _ => 0, fun _ => 0, fun _ => 0, fun _ => 0⟩

/-- A core with one watchpoint comparator, as a Cortex-M0 may have. -/
def monoCore : Core := { quadCore with dwtCtrl := 0x10000000 }

end MiyakoLink.CortexM
