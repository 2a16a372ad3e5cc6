import Mathlib.Tactic.Common

/-!
# Flows through a thread

A thread takes elements from one place and puts them into another, and has some in its hand in
between. What it has taken and what has entered the other place only grow.

* `Loses.trans`: losses add up.
* `Loses.kept_iff`: every element enters once and in order just if none has been lost.
-/

namespace MiyakoLink.Lib

structure Flow (α : Type*) where
  taken : List α
  inHand : List α
  entered : List α

namespace Flow

variable {α : Type*} {f f' f'' : Flow α} {n m : Nat}

/-- What is in the hand and what is taken enters, but for what is in the hand afterwards. -/
def Kept (f f' : Flow α) : Prop :=
  ∃ ts es, f'.taken = f.taken ++ ts ∧ f'.entered = f.entered ++ es ∧
    f.inHand ++ ts = es ++ f'.inHand

/-- So many elements have been lost on the way. -/
def Loses (n : Nat) (f f' : Flow α) : Prop :=
  ∃ ts es, f'.taken = f.taken ++ ts ∧ f'.entered = f.entered ++ es ∧
    (f.inHand ++ ts).length = (es ++ f'.inHand).length + n ∧
    (n = 0 → f.inHand ++ ts = es ++ f'.inHand)

theorem Loses.refl (f : Flow α) : Loses 0 f f :=
  ⟨[], [], (List.append_nil _).symm, (List.append_nil _).symm, by simp, by simp⟩

theorem Loses.trans (h : Loses n f f') (h' : Loses m f' f'') : Loses (n + m) f f'' := by
  obtain ⟨ts, es, htaken, hentered, hlength, hkept⟩ := h
  obtain ⟨ts', es', htaken', hentered', hlength', hkept'⟩ := h'
  refine ⟨ts ++ ts', es ++ es', ?_, ?_, ?_, fun hzero => ?_⟩
  · rw [htaken', htaken, List.append_assoc]
  · rw [hentered', hentered, List.append_assoc]
  · simp only [List.length_append] at hlength hlength' ⊢
    omega
  · obtain ⟨hn, hm⟩ := Nat.add_eq_zero_iff.mp hzero
    rw [← List.append_assoc, hkept hn, List.append_assoc, hkept' hm, List.append_assoc]

theorem Loses.kept_iff (h : Loses n f f') : Kept f f' ↔ n = 0 := by
  obtain ⟨ts, es, htaken, hentered, hlength, hkept⟩ := h
  constructor
  · rintro ⟨ts', es', htaken', hentered', hkept'⟩
    rw [List.append_cancel_left (htaken.symm.trans htaken'),
      List.append_cancel_left (hentered.symm.trans hentered'), hkept'] at hlength
    omega
  · intro hzero
    exact ⟨ts, es, htaken, hentered, hkept hzero⟩

/-- An empty hand takes. -/
theorem loses_take (taken entered xs : List α) :
    Loses 0 ⟨taken, [], entered⟩ ⟨taken ++ xs, xs, entered⟩ :=
  ⟨xs, [], rfl, (List.append_nil _).symm, by simp, fun _ => rfl⟩

/-- What is in the hand is put down, and only the first part enters. -/
theorem loses_put (taken entered xs : List α) {accepted refused : List α}
    (h : accepted ++ refused = xs) :
    Loses refused.length ⟨taken, xs, entered⟩ ⟨taken, [], entered ++ accepted⟩ := by
  refine ⟨[], accepted, (List.append_nil _).symm, rfl, ?_, fun hzero => ?_⟩
  · rw [← h]
    simp
  · rw [List.length_eq_zero_iff.mp hzero] at h
    rw [← h]
    exact List.append_nil _

end Flow

end MiyakoLink.Lib
