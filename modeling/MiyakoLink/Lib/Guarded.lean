import Mathlib.Tactic.Common

/-!
# Guarded runs of a step function

A deterministic machine is a step function `step : σ → α → σ`; a run over a list of
labels is `List.foldl step`. `Guarded step guard s l` says that every step of the run from
`s` over `l` meets `guard` in the state it starts from.

* `Guarded.invariant`: what every guarded step keeps holds at the end of a guarded run.
* `Guarded.of_append`: an initial part of a guarded run is guarded, so `Guarded.invariant`
  speaks about every state that a guarded run reaches.

`Runs step P s l` is for a machine that may stop: the run from `s` over `l` does not, and all its
states meet `P`. `runs_iff_keepsTo` says when a guard is the exact condition for that, and
`keepsTo_congr` when it is the exact condition for a property of each step.
-/

namespace MiyakoLink.Lib

variable {σ α : Type*} {step : σ → α → σ} {guard : σ → α → Prop}

/-- Every step of the run from `s` over `l` meets the guard in the state it starts from. -/
def Guarded (step : σ → α → σ) (guard : σ → α → Prop) : σ → List α → Prop
  | _, [] => True
  | s, a :: l => guard s a ∧ Guarded step guard (step s a) l

theorem Guarded.invariant {I : σ → Prop}
    (hstep : ∀ s a, I s → guard s a → I (step s a)) {s : σ} {l : List α}
    (h : Guarded step guard s l) (h0 : I s) : I (l.foldl step s) := by
  induction l generalizing s with
  | nil => exact h0
  | cons a l ih => exact ih h.2 (hstep s a h0 h.1)

theorem Guarded.of_append {s : σ} {l₁ l₂ : List α}
    (h : Guarded step guard s (l₁ ++ l₂)) : Guarded step guard s l₁ := by
  induction l₁ generalizing s with
  | nil => trivial
  | cons a l₁ ih => exact ⟨h.1, ih h.2⟩

/-- The rest of a guarded run is guarded. -/
theorem Guarded.rest {s : σ} {l₁ l₂ : List α}
    (h : Guarded step guard s (l₁ ++ l₂)) : Guarded step guard (l₁.foldl step s) l₂ := by
  induction l₁ generalizing s with
  | nil => exact h
  | cons a l₁ ih => exact ih h.2

/-- The guard of the step taken after an initial part of a guarded run. -/
theorem Guarded.last {s : σ} {l : List α} {a : α}
    (h : Guarded step guard s (l ++ [a])) : guard (l.foldl step s) a := by
  induction l generalizing s with
  | nil => exact h.1
  | cons b l ih => exact ih h.2

/-- The labels of the run are such that the guard can say more. -/
theorem Guarded.and_of_forall {P : α → Prop} {s : σ} {l : List α} (h : Guarded step guard s l)
    (hP : ∀ a ∈ l, P a) : Guarded step (fun s a => guard s a ∧ P a) s l := by
  induction l generalizing s with
  | nil => trivial
  | cons a l ih =>
    exact ⟨⟨h.1, hP a List.mem_cons_self⟩, ih h.2 fun b hb => hP b (List.mem_cons_of_mem a hb)⟩

/-! ## Machines that may stop -/

/-- The run from `s` over `l` does not stop, and `P` holds in each of its states. -/
def Runs (step : σ → α → Option σ) (P : σ → Prop) : σ → List α → Prop
  | s, [] => P s
  | s, a :: l => P s ∧ ∃ s', step s a = some s' ∧ Runs step P s' l

/-- Every step of the run meets the guard in the state it starts from. -/
def KeepsTo (step : σ → α → Option σ) (guard : σ → α → Prop) : σ → List α → Prop
  | _, [] => True
  | s, a :: l => guard s a ∧ ∀ s', step s a = some s' → KeepsTo step guard s' l

section
variable {step : σ → α → Option σ} {P I : σ → Prop}

theorem Runs.start {s : σ} {l : List α} (h : Runs step P s l) : P s := by
  cases l with
  | nil => exact h
  | cons a l => exact h.1

/-- A guarded step keeps the invariant, and a step that is not guarded leads to a state where `P`
does not hold. -/
theorem runs_iff_keepsTo (hP : ∀ s, I s → P s)
    (hgood : ∀ s a, I s → guard s a → ∃ s', step s a = some s' ∧ I s')
    (hbad : ∀ s a, I s → ¬ guard s a → ∀ s', step s a = some s' → ¬ P s')
    {s : σ} (h : I s) (l : List α) : Runs step P s l ↔ KeepsTo step guard s l := by
  induction l generalizing s with
  | nil => exact iff_of_true (hP s h) trivial
  | cons a l ih =>
    constructor
    · rintro ⟨_, s', hs', hrest⟩
      have hguard : guard s a := by
        by_contra hno
        exact hbad s a h hno s' hs' hrest.start
      obtain ⟨s'', hs'', hI⟩ := hgood s a h hguard
      obtain rfl := Option.some.inj (hs'.symm.trans hs'')
      refine ⟨hguard, fun t ht => ?_⟩
      obtain rfl := Option.some.inj (hs'.symm.trans ht)
      exact (ih hI).mp hrest
    · rintro ⟨hguard, hrest⟩
      obtain ⟨s', hs', hI⟩ := hgood s a h hguard
      exact ⟨hP s h, s', hs', (ih hI).mpr (hrest s' hs')⟩

/-- Two guards that agree on the labels of the run, where the invariant holds. -/
theorem keepsTo_congr {good : σ → α → Prop} {l : List α}
    (hiff : ∀ s, I s → ∀ a ∈ l, (good s a ↔ guard s a))
    (hstep : ∀ s, I s → ∀ a ∈ l, guard s a → ∀ s', step s a = some s' → I s')
    {s : σ} (h : I s) : KeepsTo step good s l ↔ KeepsTo step guard s l := by
  induction l generalizing s with
  | nil => exact Iff.rfl
  | cons a l ih =>
    have hrest {s' : σ} (hI : I s') : KeepsTo step good s' l ↔ KeepsTo step guard s' l :=
      ih (fun t ht b hb => hiff t ht b (List.mem_cons_of_mem a hb))
        (fun t ht b hb => hstep t ht b (List.mem_cons_of_mem a hb)) hI
    unfold KeepsTo
    rw [hiff s h a List.mem_cons_self]
    refine and_congr_right fun hguard => forall₂_congr fun s' hs' => ?_
    exact hrest (hstep s h a List.mem_cons_self hguard s' hs')

end

end MiyakoLink.Lib
