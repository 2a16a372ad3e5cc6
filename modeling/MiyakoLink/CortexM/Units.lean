import MiyakoLink.CortexM.Comparator

/-!
# One unit and its entries

The breakpoint unit and the watchpoint unit are kept alike: a flag for each comparator, a control
register that enables it, another one for its data, and the entries of `bw_list` for the unit.
`Consistent` says that these agree; `UnitInv` is the invariant behind it, kept when a free
comparator is taken, when one is released, and when all are cleared while there are no entries.
-/

namespace MiyakoLink.CortexM

open Lib
open scoped List

/-- Flags, comparators and entries of a unit with `limit` comparators agree. `holds` is what a
comparator compares with when it is enabled, and `key` the part of an address it can hold. -/
structure Consistent {n : Nat} (limit : Nat) (holds : Nat → Option UInt32)
    (key : UInt32 → UInt32) (flags : Slots n) (entries : List Breakwatch) : Prop where
  slot : ∀ bw ∈ entries, bw.slot < n ∧ bw.slot < limit
  flag : ∀ i : Fin n, flags i = true ↔ (entries.map Breakwatch.slot).count (i : Nat) = 1
  enabled : ∀ i : Fin n, (holds i).isSome ↔ flags i = true
  address : ∀ bw ∈ entries, holds bw.slot = some (key bw.addr)
  unshared : (entries.map Breakwatch.slot).Nodup

section
variable {n limit max : Nat} {holds : UInt32 → UInt32 → Option UInt32} {key : UInt32 → UInt32}
  {flags : Slots n} {ctl data : Nat → UInt32} {entries : List Breakwatch}

structure UnitInv (limit max : Nat) (holds : UInt32 → UInt32 → Option UInt32)
    (key : UInt32 → UInt32) (flags : Slots n) (ctl data : Nat → UInt32)
    (entries : List Breakwatch) : Prop where
  booked : flags.Booked (entries.map Breakwatch.slot)
  inLimit : ∀ bw ∈ entries, bw.slot < limit
  held : ∀ bw ∈ entries, holds (ctl bw.slot) (data bw.slot) = some (key bw.addr)
  off : ∀ i : Fin n, flags i = false → holds (ctl i) (data i) = none
  clear : ∀ i : Fin n, i < max → flags i = false → ctl i = 0

theorem UnitInv.consistent (h : UnitInv limit max holds key flags ctl data entries) :
    Consistent limit (fun i => holds (ctl i) (data i)) key flags entries := by
  refine ⟨?_, h.booked.flag_iff_count, ?_, h.held, h.booked.nodup⟩
  · intro bw hbw
    exact ⟨h.booked.lt _ (List.mem_map_of_mem hbw), h.inLimit bw hbw⟩
  · intro i
    cases hflag : flags i with
    | false => simp [h.off i hflag]
    | true =>
      obtain ⟨bw, hbw, hslot⟩ := List.mem_map.mp ((h.booked.flag i).mp hflag)
      rw [← hslot, h.held bw hbw]
      exact iff_of_true rfl rfl

/-- A free comparator is enabled for a new entry. -/
theorem UnitInv.take (h : UnitInv limit max holds key flags ctl data entries) {b : Breakwatch}
    {v w : UInt32} (hk : b.slot < n) (hfree : flags ⟨b.slot, hk⟩ = false)
    (hlimit : b.slot < limit) (hheld : holds v w = some (key b.addr)) :
    UnitInv limit max holds key (Function.update flags ⟨b.slot, hk⟩ true)
      (Function.update ctl b.slot v) (Function.update data b.slot w) (b :: entries) := by
  have hbooked := h.booked.take hk hfree
  have hne : ∀ b' ∈ entries, b'.slot ≠ b.slot := by
    intro b' hbw' heq
    exact (List.nodup_cons.mp hbooked.nodup).1 (heq ▸ List.mem_map_of_mem hbw')
  constructor
  case booked => exact hbooked
  case inLimit =>
    intro b' hbw'
    rcases List.mem_cons.mp hbw' with rfl | hbw'
    · exact hlimit
    · exact h.inLimit b' hbw'
  case held =>
    intro b' hbw'
    rcases List.mem_cons.mp hbw' with rfl | hbw'
    · rw [Function.update_self, Function.update_self]
      exact hheld
    · rw [Function.update_of_ne (hne b' hbw'), Function.update_of_ne (hne b' hbw')]
      exact h.held b' hbw'
  case off =>
    intro i hi
    have hval : (i : Nat) ≠ b.slot := by
      rintro hval
      rw [Fin.ext (b := ⟨b.slot, hk⟩) hval, Function.update_self] at hi
      contradiction
    rw [Function.update_of_ne fun heq => hval (congrArg Fin.val heq)] at hi
    rw [Function.update_of_ne hval, Function.update_of_ne hval]
    exact h.off i hi
  case clear =>
    intro i hmax hi
    have hval : (i : Nat) ≠ b.slot := by
      rintro hval
      rw [Fin.ext (b := ⟨b.slot, hk⟩) hval, Function.update_self] at hi
      contradiction
    rw [Function.update_of_ne fun heq => hval (congrArg Fin.val heq)] at hi
    rw [Function.update_of_ne hval]
    exact h.clear i hmax hi

/-- The comparator of an entry is disabled, and the entry goes. -/
theorem UnitInv.release {bw : Breakwatch} {data' : Nat → UInt32}
    (h : UnitInv limit max holds key flags ctl data (bw :: entries)) (hk : bw.slot < n)
    (hzero : ∀ w, holds 0 w = none) (hdata : ∀ i, i ≠ bw.slot → data' i = data i) :
    UnitInv limit max holds key (Function.update flags ⟨bw.slot, hk⟩ false)
      (Function.update ctl bw.slot 0) data' entries := by
  have hne : ∀ bw' ∈ entries, bw'.slot ≠ bw.slot := by
    intro bw' hbw' heq
    exact (List.nodup_cons.mp h.booked.nodup).1 (heq ▸ List.mem_map_of_mem hbw')
  constructor
  case booked => exact h.booked.release hk
  case inLimit => exact fun bw' hbw' => h.inLimit bw' (List.mem_cons_of_mem _ hbw')
  case held =>
    intro bw' hbw'
    rw [Function.update_of_ne (hne bw' hbw'), hdata _ (hne bw' hbw')]
    exact h.held bw' (List.mem_cons_of_mem _ hbw')
  case off =>
    intro i hi
    by_cases hval : (i : Nat) = bw.slot
    · rw [hval, Function.update_self]
      exact hzero _
    · rw [Function.update_of_ne fun heq => hval (congrArg Fin.val heq)] at hi
      rw [Function.update_of_ne hval, hdata _ hval]
      exact h.off i hi
  case clear =>
    intro i hmax hi
    by_cases hval : (i : Nat) = bw.slot
    · rw [hval, Function.update_self]
    · rw [Function.update_of_ne fun heq => hval (congrArg Fin.val heq)] at hi
      rw [Function.update_of_ne hval]
      exact h.clear i hmax hi

/-- The entries of the unit matter up to their order. -/
theorem UnitInv.perm {entries' : List Breakwatch}
    (h : UnitInv limit max holds key flags ctl data entries) (hperm : entries ~ entries') :
    UnitInv limit max holds key flags ctl data entries' :=
  ⟨h.booked.perm (hperm.map _), fun bw hbw => h.inLimit bw (hperm.mem_iff.mpr hbw),
    fun bw hbw => h.held bw (hperm.mem_iff.mpr hbw), h.off, h.clear⟩

/-! ## Clearing all comparators -/

/-- The registers with the first `max` ones set to zero. -/
def zeroed (max : Nat) (regs : Nat → UInt32) (i : Nat) : UInt32 := if i < max then 0 else regs i

theorem zeroed_succ (max : Nat) (regs : Nat → UInt32) :
    zeroed (max + 1) regs = Function.update (zeroed max regs) max 0 := by
  ext1 i
  unfold zeroed
  by_cases heq : i = max
  · rw [heq, Function.update_self, if_pos (Nat.lt_succ_self max)]
  · rw [Function.update_of_ne heq]
    by_cases hlt : i < max
    · rw [if_pos hlt, if_pos (by omega)]
    · rw [if_neg hlt, if_neg (by omega)]

theorem foldl_update (max : Nat) (regs : Nat → UInt32) :
    (List.range max).foldl (Function.update · · 0) regs = zeroed max regs := by
  induction max with
  | zero => rfl
  | succ max ih =>
    rw [List.range_succ, List.foldl_append, ih, zeroed_succ]
    rfl

/-- With no flag set, clearing the comparators leaves the flags as they are. -/
theorem clearStale_eq (hmax : max ≤ n) (regs : Nat → UInt32) (hflags : ∀ i, flags i = false) :
    clearStale max regs flags = some (zeroed max regs, flags) := by
  unfold clearStale
  induction max with
  | zero => rfl
  | succ max ih =>
    have hset : flags.set? max false = some flags := by
      rw [Slots.set?, dif_pos (by omega), ← hflags ⟨max, by omega⟩, Function.update_eq_self]
    rw [List.range_succ, List.foldlM_append, ih (by omega)]
    simp [hset, zeroed_succ]

/-- Without entries, all comparators are off after they have been cleared, if those that are
not cleared were off. -/
theorem UnitInv.cleared (hflags : ∀ i, flags i = false) (hzero : ∀ w, holds 0 w = none)
    {data' : Nat → UInt32}
    (hoff : ∀ i : Fin n, max ≤ i → holds (ctl i) (data' i) = none) :
    UnitInv limit max holds key flags (zeroed max ctl) data' [] := by
  refine ⟨⟨List.nodup_nil, by simp, ?_⟩, by simp, by simp, ?_, ?_⟩
  · intro i
    simp [hflags i]
  · intro i _
    unfold zeroed
    split
    case isTrue => exact hzero _
    case isFalse hlt => exact hoff i (Nat.le_of_not_lt hlt)
  · intro i hlt _
    exact if_pos hlt

/-- Then clearing them again changes nothing. -/
theorem UnitInv.zeroed_eq (h : UnitInv limit max holds key flags ctl data [])
    (hmax : max ≤ n) : zeroed max ctl = ctl := by
  ext1 i
  unfold zeroed
  split
  case isTrue hlt =>
    exact (h.clear ⟨i, by omega⟩ hlt (h.booked.flag_eq_false _)).symm
  case isFalse => rfl

end

end MiyakoLink.CortexM
