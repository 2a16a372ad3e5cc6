import Mathlib.Data.Multiset.Count
import Mathlib.Logic.Function.Basic

/-!
# Reference counts

The objects of a pool carry counters. `Counted count fresh holders` says that the counter of each
object is the number of its holders, and that an object without holders is allocated only while
it is `fresh`, that is before its first holder. Taking and dropping a reference keep this, and the
object goes with its last holder.
-/

namespace MiyakoLink.Lib

variable {ι : Type} [DecidableEq ι]

structure Counted (count : ι → Option Int) (fresh holders : Multiset ι) : Prop where
  value : ∀ i, count i = if i ∈ fresh ∨ i ∈ holders then some (holders.count i : Int) else none
  apart : ∀ i ∈ fresh, i ∉ holders
  nodup : fresh.Nodup

namespace Counted

variable {count : ι → Option Int} {fresh holders : Multiset ι} {i : ι} {n : Int}

theorem nothing : Counted (fun _ : ι => none) 0 0 where
  value := by simp
  apart := by simp
  nodup := Multiset.nodup_zero

theorem held (h : Counted count fresh holders) (hi : i ∈ holders) :
    count i = some (holders.count i : Int) := by
  rw [h.value, if_pos (Or.inr hi)]

theorem of_fresh (h : Counted count (i ::ₘ fresh) holders) : count i = some 0 := by
  have hfresh : i ∈ i ::ₘ fresh := Multiset.mem_cons_self i fresh
  rw [h.value, if_pos (Or.inl hfresh), Multiset.count_eq_zero.mpr (h.apart i hfresh)]
  rfl

theorem free_iff (h : Counted count fresh holders) :
    count i = none ↔ i ∉ fresh ∧ i ∉ holders := by
  rw [h.value]
  by_cases hi : i ∈ fresh ∨ i ∈ holders
  · rw [if_pos hi]
    exact iff_of_false (fun h => nomatch h) fun h' => not_or.mpr h' hi
  · rw [if_neg hi]
    exact iff_of_true rfl (not_or.mp hi)

/-- An allocated object that is not fresh has as many holders as its counter says. -/
theorem of_some (h : Counted count 0 holders) (hn : count i = some n) :
    i ∈ holders ∧ n = holders.count i := by
  rw [h.value] at hn
  by_cases hi : i ∈ (0 : Multiset ι) ∨ i ∈ holders
  · rw [if_pos hi, Option.some.injEq] at hn
    exact ⟨hi.resolve_left (Multiset.notMem_zero i), hn.symm⟩
  · rw [if_neg hi] at hn
    exact nomatch hn

theorem keep (h : Counted count fresh holders) {v : Option Int} (hi : count i = v) :
    Counted (Function.update count i v) fresh holders := by
  rw [← hi, Function.update_eq_self]
  exact h

theorem alloc (h : Counted count fresh holders) (hi : count i = none) :
    Counted (Function.update count i (some 0)) (i ::ₘ fresh) holders where
  value j := by
    obtain ⟨hfresh, hholders⟩ := h.free_iff.mp hi
    by_cases hj : j = i
    · subst hj
      simp [Multiset.count_eq_zero.mpr hholders]
    · rw [Function.update_of_ne hj, h.value]
      simp [hj]
  apart j hj := by
    obtain ⟨hfresh, hholders⟩ := h.free_iff.mp hi
    rcases Multiset.mem_cons.mp hj with rfl | hj
    · exact hholders
    · exact h.apart j hj
  nodup := Multiset.nodup_cons.mpr ⟨(h.free_iff.mp hi).1, h.nodup⟩

theorem ref (h : Counted count fresh holders) (hi : i ∈ holders) (hn : count i = some n) :
    Counted (Function.update count i (some (n + 1))) fresh (i ::ₘ holders) where
  value j := by
    by_cases hj : j = i
    · subst hj
      rw [h.held hi, Option.some.injEq] at hn
      simp [hn]
    · rw [Function.update_of_ne hj, h.value]
      simp [hj]
  apart j hj hmem := by
    rcases Multiset.mem_cons.mp hmem with rfl | hmem
    · exact h.apart j hj hi
    · exact h.apart j hj hmem
  nodup := h.nodup

/-- The first holder. -/
theorem first (h : Counted count (i ::ₘ fresh) holders) :
    Counted (Function.update count i (some 1)) fresh (i ::ₘ holders) where
  value j := by
    have hholders : i ∉ holders := h.apart i (Multiset.mem_cons_self i fresh)
    by_cases hj : j = i
    · subst hj
      simp [Multiset.count_eq_zero.mpr hholders]
    · rw [Function.update_of_ne hj, h.value]
      simp [hj]
  apart j hj hmem := by
    rcases Multiset.mem_cons.mp hmem with rfl | hmem
    · exact (Multiset.nodup_cons.mp h.nodup).1 hj
    · exact h.apart j (Multiset.mem_cons_of_mem hj) hmem
  nodup := (Multiset.nodup_cons.mp h.nodup).2

/-- An object that is held from the start. -/
theorem make (h : Counted count fresh holders) (hi : count i = none) :
    Counted (Function.update count i (some 1)) fresh (i ::ₘ holders) := by
  have := (h.alloc hi).first
  rwa [Function.update_idem] at this

theorem unref (h : Counted count fresh (i ::ₘ holders)) (hn : count i = some n) (hne : n ≠ 1) :
    Counted (Function.update count i (some (n - 1))) fresh holders where
  value j := by
    have hmem : i ∈ i ::ₘ holders := Multiset.mem_cons_self i holders
    by_cases hj : j = i
    · subst hj
      rw [h.held hmem, Option.some.injEq, Multiset.count_cons_self] at hn
      have hpos : 0 < holders.count j := by omega
      rw [Function.update_self, if_pos (Or.inr (Multiset.count_pos.mp hpos)), Option.some.injEq]
      omega
    · rw [Function.update_of_ne hj, h.value]
      simp [hj]
  apart j hj hmem := h.apart j hj (Multiset.mem_cons_of_mem hmem)
  nodup := h.nodup

/-- The last holder goes. -/
theorem last (h : Counted count fresh (i ::ₘ holders)) (hn : count i = some 1) :
    Counted (Function.update count i (some 0)) (i ::ₘ fresh) holders := by
  have hmem : i ∈ i ::ₘ holders := Multiset.mem_cons_self i holders
  have hfresh : i ∉ fresh := fun hf => h.apart i hf hmem
  have hgone : i ∉ holders := by
    rw [h.held hmem, Option.some.injEq, Multiset.count_cons_self] at hn
    exact Multiset.count_eq_zero.mp (by omega)
  refine ⟨fun j => ?_, fun j hj hj' => ?_, Multiset.nodup_cons.mpr ⟨hfresh, h.nodup⟩⟩
  · by_cases hj : j = i
    · subst hj
      simp [Multiset.count_eq_zero.mpr hgone]
    · rw [Function.update_of_ne hj, h.value]
      simp [hj]
  · rcases Multiset.mem_cons.mp hj with rfl | hj
    · exact hgone hj'
    · exact h.apart j hj (Multiset.mem_cons_of_mem hj')

/-- A fresh object is given back. -/
theorem release (h : Counted count (i ::ₘ fresh) holders) :
    Counted (Function.update count i none) fresh holders where
  value j := by
    have hholders : i ∉ holders := h.apart i (Multiset.mem_cons_self i fresh)
    by_cases hj : j = i
    · subst hj
      rw [Function.update_self, if_neg]
      exact not_or.mpr ⟨(Multiset.nodup_cons.mp h.nodup).1, hholders⟩
    · rw [Function.update_of_ne hj, h.value]
      simp [hj]
  apart j hj := h.apart j (Multiset.mem_cons_of_mem hj)
  nodup := (Multiset.nodup_cons.mp h.nodup).2

end Counted

end MiyakoLink.Lib
