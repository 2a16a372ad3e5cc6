import Mathlib.Data.List.Basic
import Mathlib.Tactic.Common

/-!
# Changes that are undone in any order

A change of a memory puts new contents over some addresses and keeps the old ones. `Stacked`
says that undoing a list of changes, the newest one first, leads back to the original memory,
and that each change holds when its turn comes.

* `Stacked.push`: making a change.
* `Stacked.remove`: undoing one out of turn, where the newer ones are apart from it.
* `Stacked.holds`: changes that are pairwise apart or alike all hold at once.
-/

namespace MiyakoLink.Lib

variable {α β : Type*}

/-- Contents put over a memory. -/
def put (p : α → Option β) (m : α → β) : α → β := fun a => (p a).getD (m a)

structure Change (α β : Type*) where
  new : α → Option β
  old : α → Option β
  same : ∀ a, old a = none ↔ new a = none

namespace Change

/-- Two changes of different addresses. -/
def Apart (c d : Change α β) : Prop := ∀ a, c.new a = none ∨ d.new a = none

def Holds (c : Change α β) (m : α → β) : Prop := ∀ a v, c.new a = some v → m a = v

variable {c d : Change α β} {m : α → β} {a : α}

theorem put_of_none {p : α → Option β} (h : p a = none) : put p m a = m a := by
  rw [put, h, Option.getD_none]

theorem put_of_some {p : α → Option β} {v : β} (h : p a = some v) : put p m a = v := by
  rw [put, h, Option.getD_some]

theorem holds_put (c : Change α β) (m : α → β) : c.Holds (put c.new m) :=
  fun _ _ hv => put_of_some hv

theorem put_old_of_none (h : c.new a = none) : put c.old m a = m a :=
  put_of_none ((c.same a).mpr h)

/-- A change of no address. -/
theorem put_old_of_nothing (h : ∀ a, c.new a = none) : put c.old m = m := by
  funext a
  exact put_old_of_none (h a)

/-- Undoing another change does not touch it. -/
theorem Holds.put_old (h : c.Holds m) (hapart : c.Apart d) : c.Holds (put d.old m) := by
  intro a v hv
  have hnone : d.new a = none := (hapart a).resolve_left (by rw [hv]; nofun)
  rw [put_old_of_none hnone]
  exact h a v hv

theorem Holds.of_put_old (h : c.Holds (put d.old m)) (hapart : c.Apart d) : c.Holds m := by
  intro a v hv
  have hnone : d.new a = none := (hapart a).resolve_left (by rw [hv]; nofun)
  exact (put_old_of_none hnone).symm.trans (h a v hv)

theorem put_old_comm (hapart : c.Apart d) (m : α → β) :
    put c.old (put d.old m) = put d.old (put c.old m) := by
  funext a
  rcases hapart a with hc | hd
  · rw [put_old_of_none hc]
    unfold put
    rw [(c.same a).mpr hc, Option.getD_none]
  · rw [put_old_of_none hd]
    unfold put
    rw [(d.same a).mpr hd, Option.getD_none]

/-- A change that kept what it has found is undone. -/
theorem put_old_put_new (h : ∀ a, c.new a ≠ none → c.old a = some (m a)) :
    put c.old (put c.new m) = m := by
  funext a
  by_cases hnew : c.new a = none
  · rw [put_old_of_none hnew, put_of_none hnew]
  · exact put_of_some (h a hnew)

end Change

/-- Undone from the newest one on, the changes lead back to `orig`. -/
def Stacked (orig : α → β) : List (Change α β) → (α → β) → Prop
  | [], m => m = orig
  | c :: l, m => c.Holds m ∧ Stacked orig l (put c.old m)

namespace Stacked

open Change

variable {orig m : α → β} {c : Change α β} {l l₁ l₂ : List (Change α β)}

theorem push (h : Stacked orig l m) (hkept : ∀ a, c.new a ≠ none → c.old a = some (m a)) :
    Stacked orig (c :: l) (put c.new m) := by
  refine ⟨holds_put c m, ?_⟩
  rw [put_old_put_new hkept]
  exact h

/-- The newer changes are apart from it, so it can be undone before them. -/
theorem remove (h : Stacked orig (l₁ ++ c :: l₂) m) (hapart : ∀ d ∈ l₁, d.Apart c) :
    Stacked orig (l₁ ++ l₂) (put c.old m) := by
  induction l₁ generalizing m with
  | nil => exact h.2
  | cons d l₁ ih =>
    have hd : d.Apart c := hapart d List.mem_cons_self
    refine ⟨h.1.put_old hd, ?_⟩
    rw [put_old_comm hd]
    exact ih h.2 fun e he => hapart e (List.mem_cons_of_mem _ he)

theorem holds (h : Stacked orig l m)
    (hpair : l.Pairwise fun c d => d.Apart c ∨ d.new = c.new) : ∀ c ∈ l, c.Holds m := by
  induction l generalizing m with
  | nil => exact fun c hc => absurd hc List.not_mem_nil
  | cons d l ih =>
    obtain ⟨hd, hpair⟩ := List.pairwise_cons.mp hpair
    intro c hc
    rcases List.mem_cons.mp hc with rfl | hc
    · exact h.1
    · rcases hd c hc with hapart | halike
      · exact (ih h.2 hpair c hc).of_put_old hapart
      · intro a v hv
        rw [halike] at hv
        exact h.1 a v hv

/-- Without an address changed, the memory is the original one. -/
theorem eq_orig (h : Stacked orig l m) (hnone : ∀ c ∈ l, ∀ a, c.new a = none) : m = orig := by
  induction l generalizing m with
  | nil => exact h
  | cons c l ih =>
    have hrest := h.2
    rw [put_old_of_nothing (hnone c List.mem_cons_self)] at hrest
    exact ih hrest fun d hd => hnone d (List.mem_cons_of_mem _ hd)

theorem of_unchanged (hnone : ∀ c ∈ l, ∀ a, c.new a = none) : Stacked m l m := by
  induction l with
  | nil => rfl
  | cons c l ih =>
    have hc := hnone c List.mem_cons_self
    refine ⟨fun a v hv => ?_, ?_⟩
    · rw [hc a] at hv
      contradiction
    · rw [put_old_of_nothing hc]
      exact ih fun d hd => hnone d (List.mem_cons_of_mem _ hd)

end Stacked

end MiyakoLink.Lib
