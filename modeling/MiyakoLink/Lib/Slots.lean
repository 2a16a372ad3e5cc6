import Mathlib.Data.List.Nodup
import Mathlib.Data.List.Perm.Basic
import Mathlib.Logic.Function.Basic
import Mathlib.Tactic.Common

/-!
# Slots with flags

`n` slots with a flag each, and the list of the slots that are held. `Booked` says that the
two agree: no slot is held twice, and a flag is set exactly for the slots that are held. Taking
a free slot and releasing a held one keep this. Access to a flag that does not exist is `none`.
-/

namespace MiyakoLink.Lib

open scoped List

abbrev Slots (n : Nat) := Fin n → Bool

namespace Slots

variable {n : Nat} {flags : Slots n} {held held' : List Nat}

def set? (flags : Slots n) (i : Nat) (value : Bool) : Option (Slots n) :=
  if h : i < n then some (Function.update flags ⟨i, h⟩ value) else none

/-- The first free slot among the `rest` ones from `i` on, or the slot behind them. -/
def firstFree (flags : Slots n) (i : Nat) : Nat → Option Nat
  | 0 => some i
  | rest + 1 =>
    if h : i < n then
      if flags ⟨i, h⟩ then firstFree flags (i + 1) rest else some i
    else none

theorem firstFree_isSome {i rest : Nat} (h : i + rest ≤ n) : (firstFree flags i rest).isSome := by
  induction rest generalizing i with
  | zero => rfl
  | succ rest ih =>
    rw [firstFree, dif_pos (by omega)]
    split
    · exact ih (by omega)
    · rfl

theorem firstFree_some {i rest k : Nat} (h : firstFree flags i rest = some k) :
    k ≤ i + rest ∧ (k < i + rest → ∃ hk : k < n, flags ⟨k, hk⟩ = false) := by
  induction rest generalizing i with
  | zero =>
    cases h
    exact ⟨Nat.le_refl _, fun hlt => absurd hlt (by omega)⟩
  | succ rest ih =>
    rw [firstFree] at h
    split at h
    case isTrue hi =>
      split at h
      case isTrue =>
        obtain ⟨hle, hfree⟩ := ih h
        exact ⟨by omega, fun hlt => hfree (by omega)⟩
      case isFalse hflag =>
        cases h
        exact ⟨by omega, fun _ => ⟨hi, Bool.not_eq_true _ ▸ hflag⟩⟩
    case isFalse => contradiction

/-- The search among the first `max` slots ends at a free one, or behind them. -/
theorem firstFree_cases {max : Nat} (flags : Slots n) (hmax : max ≤ n) :
    ∃ k, firstFree flags 0 max = some k ∧
      (k = max ∨ k < max ∧ ∃ hk : k < n, flags ⟨k, hk⟩ = false) := by
  have hle : 0 + max ≤ n := by omega
  obtain ⟨k, hk⟩ := Option.isSome_iff_exists.mp (firstFree_isSome hle)
  obtain ⟨hkmax, hfree⟩ := firstFree_some hk
  refine ⟨k, hk, ?_⟩
  by_cases heq : k = max
  · exact .inl heq
  · have hlt : k < 0 + max := by omega
    exact .inr ⟨by omega, hfree hlt⟩

section
variable {max : Nat} {β : Type*} {refused : β} {granted : Nat → Slots n → β}

/-- The first free slot is taken, or the request is refused since there is none. -/
theorem takeFirst_cases {r : β}
    (h : ((flags.firstFree 0 max).bind fun i =>
      if i = max then some refused
      else (flags.set? i true).bind fun taken => some (granted i taken)) = some r) :
    (∃ i < max, flags.firstFree 0 max = some i ∧ ∃ taken, r = granted i taken) ∨
      (flags.firstFree 0 max = some max ∧ r = refused) := by
  obtain ⟨i, hi, h⟩ := Option.bind_eq_some_iff.mp h
  split at h
  case isTrue hfull =>
    cases h
    rw [hfull] at hi
    exact .inr ⟨hi, rfl⟩
  case isFalse hfull =>
    obtain ⟨taken, -, h⟩ := Option.bind_eq_some_iff.mp h
    cases h
    have hle := (firstFree_some hi).1
    exact .inl ⟨i, by omega, hi, taken, rfl⟩

/-- A free slot is never refused. -/
theorem takeFirst_free {i : Nat} (hi : i < max) (h : flags.firstFree 0 max = some i) :
    ∃ r, ((flags.firstFree 0 max).bind fun i =>
      if i = max then some refused
      else (flags.set? i true).bind fun taken => some (granted i taken)) = some r := by
  obtain ⟨hk, -⟩ := (firstFree_some h).2 (by omega)
  refine ⟨granted i (Function.update flags ⟨i, hk⟩ true), ?_⟩
  rw [h, Option.bind_some, if_neg (Nat.ne_of_lt hi), set?, dif_pos hk, Option.bind_some]

end

structure Booked (flags : Slots n) (held : List Nat) : Prop where
  nodup : held.Nodup
  lt : ∀ k ∈ held, k < n
  flag : ∀ i : Fin n, flags i = true ↔ (i : Nat) ∈ held

namespace Booked

theorem empty : Booked (fun _ : Fin n => false) [] :=
  ⟨List.nodup_nil, by simp, by simp⟩

theorem flag_eq_false (h : Booked flags []) (i : Fin n) : flags i = false :=
  Bool.eq_false_iff.mpr fun hi => List.not_mem_nil ((h.flag i).mp hi)

theorem perm (h : Booked flags held) (hperm : held ~ held') : Booked flags held' := by
  refine ⟨hperm.nodup_iff.mp h.nodup, ?_, ?_⟩
  · intro k hk
    exact h.lt k (hperm.mem_iff.mpr hk)
  · intro i
    rw [h.flag i, hperm.mem_iff]

theorem take (h : Booked flags held) {k : Nat} (hk : k < n) (hfree : flags ⟨k, hk⟩ = false) :
    Booked (Function.update flags ⟨k, hk⟩ true) (k :: held) := by
  have hnot : k ∉ held := by
    intro hmem
    have hflag := (h.flag ⟨k, hk⟩).mpr hmem
    rw [hfree] at hflag
    contradiction
  refine ⟨List.nodup_cons.mpr ⟨hnot, h.nodup⟩, ?_, ?_⟩
  · intro j hj
    rcases List.mem_cons.mp hj with rfl | hj
    · exact hk
    · exact h.lt j hj
  · intro i
    rw [List.mem_cons]
    by_cases heq : i = ⟨k, hk⟩
    · subst heq
      rw [Function.update_self]
      exact iff_of_true rfl (.inl rfl)
    · have hne : (i : Nat) ≠ k := fun hval => heq (Fin.ext hval)
      rw [Function.update_of_ne heq, h.flag i]
      exact (or_iff_right hne).symm

theorem release {k : Nat} (h : Booked flags (k :: held)) (hk : k < n) :
    Booked (Function.update flags ⟨k, hk⟩ false) held := by
  obtain ⟨hnot, hnodup⟩ := List.nodup_cons.mp h.nodup
  refine ⟨hnodup, fun j hj => h.lt j (List.mem_cons_of_mem _ hj), ?_⟩
  intro i
  by_cases heq : i = ⟨k, hk⟩
  · subst heq
    rw [Function.update_self]
    exact iff_of_false Bool.false_ne_true hnot
  · have hne : (i : Nat) ≠ k := fun hval => heq (Fin.ext hval)
    rw [Function.update_of_ne heq, h.flag i, List.mem_cons]
    exact or_iff_right hne

/-- A flag is set exactly for the slots that are held once. -/
theorem flag_iff_count (h : Booked flags held) (i : Fin n) :
    flags i = true ↔ held.count (i : Nat) = 1 := by
  rw [h.flag i]
  constructor
  · exact List.count_eq_one_of_mem h.nodup
  · intro hcount
    exact List.count_pos_iff.mp (by omega)

end Booked

end Slots

end MiyakoLink.Lib
