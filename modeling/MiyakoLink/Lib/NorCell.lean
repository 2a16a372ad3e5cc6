import Mathlib.Tactic.Common

/-!
# Cells that are programmed once after an erase

`NorCell β` is the programming rule of one flash cell with contents in `β`: programming the
erased value leaves a cell as it is, and an erased cell takes the value programmed.

A write cache in front of such cells holds, for every cell, the value a later flush will
program (`pend`; the erased value where nothing is staged). `Coherent N cell pend want`
says that the cell will hold `want` once `pend` is programmed and that at most one of
`cell` and `pend` differs from the erased value. It survives staging a value for a cell
that is still wanted erased (`Coherent.stage`) and flushing (`Coherent.flush`), any number
of times and in any order, and after a flush the cell holds what is wanted
(`Coherent.settled`).
-/

namespace MiyakoLink.Lib

/-- The programming rule of one flash cell. -/
structure NorCell (β : Type*) where
  erased : β
  /-- The contents of the cell after programming a value. -/
  prog : β → β → β
  prog_erased : ∀ c, prog c erased = c
  erased_prog : ∀ v, prog erased v = v

variable {β : Type*} (N : NorCell β)

/-- Programming what is pending gives what is wanted, and a cell is not programmed twice. -/
def Coherent (cell pend want : β) : Prop :=
  N.prog cell pend = want ∧ (cell = N.erased ∨ pend = N.erased)

variable {N} {cell pend want : β}

theorem Coherent.of_nothing_pending (c : β) : Coherent N c N.erased c :=
  ⟨N.prog_erased c, Or.inr rfl⟩

/-- A cell that is wanted erased is erased, and nothing is pending for it. -/
theorem Coherent.eq_erased (h : Coherent N cell pend N.erased) :
    cell = N.erased ∧ pend = N.erased := by
  obtain ⟨hprog, hone⟩ := h
  rcases hone with rfl | rfl
  · exact ⟨rfl, (N.erased_prog pend).symm.trans hprog⟩
  · exact ⟨(N.prog_erased cell).symm.trans hprog, rfl⟩

theorem Coherent.stage (h : Coherent N cell pend N.erased) (v : β) : Coherent N cell v v := by
  obtain ⟨rfl, _⟩ := h.eq_erased
  exact ⟨N.erased_prog v, Or.inl rfl⟩

theorem Coherent.flush (h : Coherent N cell pend want) :
    Coherent N (N.prog cell pend) N.erased want := by
  rw [h.1]
  exact .of_nothing_pending want

theorem Coherent.settled (h : Coherent N cell N.erased want) : cell = want :=
  (N.prog_erased cell).symm.trans h.1

end MiyakoLink.Lib
