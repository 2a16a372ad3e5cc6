import Mathlib.Tactic.Common

/-!
# Pre- and postconditions for programs with state and exceptions

The programs are those of `EStateM ε σ`: they end normally with a value or by an exception,
and keep the state they have reached in both cases. `Triple P m Q E` says that from a state
with `P` the program `m` ends normally in `Q` or by an exception in `E`; `Keeps I m` that it
keeps `I` however it ends. The rules follow the constructs of the language.
-/

namespace MiyakoLink.Lib

variable {ε σ α β : Type}

/-- What is known about the end of a run. -/
def Ends (Q : α → σ → Prop) (E : ε → σ → Prop) : EStateM.Result ε σ α → Prop
  | .ok a s => Q a s
  | .error e s => E e s

def Triple (P : σ → Prop) (m : EStateM ε σ α) (Q : α → σ → Prop) (E : ε → σ → Prop) : Prop :=
  ∀ s, P s → Ends Q E (m s)

/-- The program keeps `I`, also when it is left by an exception. -/
def Keeps (I : σ → Prop) (m : EStateM ε σ α) : Prop := Triple I m (fun _ => I) fun _ => I

variable {P P' : σ → Prop} {Q Q' : α → σ → Prop} {R : β → σ → Prop} {E E' : ε → σ → Prop}
  {m : EStateM ε σ α} {f : α → EStateM ε σ β} {I : σ → Prop}

namespace Triple

theorem conseq (h : Triple P m Q E) (hP : ∀ s, P' s → P s) (hQ : ∀ a s, Q a s → Q' a s)
    (hE : ∀ e s, E e s → E' e s) : Triple P' m Q' E' := by
  intro s hs
  have hend := h s (hP s hs)
  cases hm : m s with
  | ok a s' =>
    rw [hm] at hend
    exact hQ a s' hend
  | error e s' =>
    rw [hm] at hend
    exact hE e s' hend

theorem pre (h : Triple P m Q E) (hP : ∀ s, P' s → P s) : Triple P' m Q E :=
  h.conseq hP (fun _ _ => id) fun _ _ => id

theorem post (h : Triple P m Q E) (hQ : ∀ a s, Q a s → Q' a s) : Triple P m Q' E :=
  h.conseq (fun _ => id) hQ fun _ _ => id

theorem pure {a : α} (h : ∀ s, P s → Q a s) : Triple P (Pure.pure a : EStateM ε σ α) Q E := h

theorem throw {e : ε} (h : ∀ s, P s → E e s) :
    Triple P (MonadExcept.throw e : EStateM ε σ α) Q E := h

theorem bind (hm : Triple P m Q E) (hf : ∀ a, Triple (Q a) (f a) R E) :
    Triple P (m >>= f) R E := by
  intro s hs
  have hend := hm s hs
  show Ends R E (EStateM.bind m f s)
  unfold EStateM.bind
  cases hm' : m s with
  | ok a s' =>
    rw [hm'] at hend
    exact hf a s' hend
  | error e s' =>
    rw [hm'] at hend
    exact hend

theorem tryCatch {h : ε → EStateM ε σ α} (hm : Triple P m Q E)
    (hh : ∀ e, Triple (E e) (h e) Q E') :
    Triple P (MonadExcept.tryCatch m h : EStateM ε σ α) Q E' := by
  intro s hs
  have hend := hm s hs
  show Ends Q E' (EStateM.tryCatch m h s)
  unfold EStateM.tryCatch
  cases hm' : m s with
  | ok a s' =>
    rw [hm'] at hend
    exact hend
  | error e s' =>
    rw [hm'] at hend
    exact hh e s' hend

theorem and {Q' : α → σ → Prop} (h : Triple P m Q E) (h' : Triple P' m Q' E') :
    Triple (fun s => P s ∧ P' s) m (fun a s => Q a s ∧ Q' a s) fun e s => E e s ∧ E' e s := by
  rintro s ⟨hs, hs'⟩
  have hend := h s hs
  have hend' := h' s hs'
  cases hm : m s with
  | ok a s' =>
    rw [hm] at hend hend'
    exact ⟨hend, hend'⟩
  | error e s' =>
    rw [hm] at hend hend'
    exact ⟨hend, hend'⟩

/-- What holds of some parameter is proved for each. -/
theorem exists_pre {ι : Sort _} {P : ι → σ → Prop} (h : ∀ x, Triple (P x) m Q E) :
    Triple (fun s => ∃ x, P x s) m Q E := by
  rintro s ⟨x, hs⟩
  exact h x s hs

/-- A part of the precondition that is not about the state. -/
theorem and_pre {p : Prop} (h : p → Triple P m Q E) : Triple (fun s => p ∧ P s) m Q E := by
  rintro s ⟨hp, hs⟩
  exact h hp s hs

theorem discard {Q : PUnit → σ → Prop} (h : Triple P m (fun _ => Q ⟨⟩) E) :
    Triple P (Functor.discard m) Q E := by
  intro s hs
  have hend := h s hs
  show Ends Q E (EStateM.map (Function.const α PUnit.unit) m s)
  unfold EStateM.map
  cases hm : m s with
  | ok a s' =>
    rw [hm] at hend
    exact hend
  | error e s' =>
    rw [hm] at hend
    exact hend

theorem get {Q : σ → σ → Prop} (h : ∀ s, P s → Q s s) :
    Triple P (MonadState.get : EStateM ε σ σ) Q E := h

theorem set {s' : σ} {Q : PUnit → σ → Prop} (h : ∀ s, P s → Q ⟨⟩ s') :
    Triple P (MonadStateOf.set s' : EStateM ε σ PUnit) Q E := h

theorem modify {g : σ → σ} {Q : PUnit → σ → Prop} (h : ∀ s, P s → Q ⟨⟩ (g s)) :
    Triple P (MonadState.modifyGet (fun s => ((⟨⟩ : PUnit), g s)) : EStateM ε σ PUnit) Q E := h

theorem ite {c : Prop} [Decidable c] {m' : EStateM ε σ α} (h : c → Triple P m Q E)
    (h' : ¬ c → Triple P m' Q E) : Triple P (if c then m else m') Q E := by
  split
  · exact h ‹c›
  · exact h' ‹¬ c›

theorem forM {f : β → EStateM ε σ PUnit} (h : ∀ b, Triple I (f b) (fun _ => I) E) (l : List β) :
    Triple I (l.forM f) (fun _ => I) E := by
  induction l with
  | nil => exact Triple.pure fun _ hs => hs
  | cons b l ih => exact (h b).bind fun _ => ih

end Triple

/-- The first part ends in a known way. -/
theorem Ends.bind {s : σ} (h : Ends Q E (m s)) (hf : ∀ a, Triple (Q a) (f a) R E) :
    Ends R E ((m >>= f) s) :=
  Triple.bind (P := fun s' => s' = s) (fun _ hs' => hs' ▸ h) hf s rfl

/-- A program goes on where the first part has ended. -/
theorem bind_ok {a : α} {s s' : σ} (h : m s = .ok a s') : (m >>= f) s = f a s' := by
  show EStateM.bind m f s = f a s'
  unfold EStateM.bind
  rw [h]

/-- Only how the first part ends matters. -/
theorem bind_congr {m' : EStateM ε σ α} {s : σ} (h : m s = m' s) : (m >>= f) s = (m' >>= f) s := by
  show EStateM.bind m f s = EStateM.bind m' f s
  unfold EStateM.bind
  rw [h]

/-- An exception ends the whole program. -/
theorem bind_error {e : ε} {s s' : σ} (h : m s = .error e s') : (m >>= f) s = .error e s' := by
  show EStateM.bind m f s = .error e s'
  unfold EStateM.bind
  rw [h]

/-- A program that ends normally has done so in both parts. -/
theorem bind_eq_ok {b : β} {s s' : σ} (h : (m >>= f) s = .ok b s') :
    ∃ a s₁, m s = .ok a s₁ ∧ f a s₁ = .ok b s' := by
  cases hm : m s with
  | ok a s₁ =>
    rw [bind_ok hm] at h
    exact ⟨a, s₁, rfl, h⟩
  | error e s₁ =>
    rw [bind_error hm] at h
    contradiction

/-- The state at the end of a run. -/
def final : EStateM.Result ε σ α → σ
  | .ok _ s => s
  | .error _ s => s

/-- However the run ends, its state is known. -/
theorem Ends.final {r : EStateM.Result ε σ α} (h : Ends (fun _ => I) (fun _ => I) r) : I (final r) := by
  cases r with
  | ok a s => exact h
  | error e s => exact h

namespace Keeps

theorem final {s : σ} (h : Keeps I m) (hs : I s) : I (final (m s)) := (h s hs).final

theorem pure (a : α) : Keeps I (Pure.pure a : EStateM ε σ α) := fun _ h => h

theorem throw (e : ε) : Keeps I (MonadExcept.throw e : EStateM ε σ α) := fun _ h => h

theorem bind (hm : Keeps I m) (hf : ∀ a, Keeps I (f a)) : Keeps I (m >>= f) :=
  Triple.bind hm hf

theorem ite {c : Prop} [Decidable c] {m' : EStateM ε σ α} (h : Keeps I m) (h' : Keeps I m') :
    Keeps I (if c then m else m') := Triple.ite (fun _ => h) fun _ => h'

theorem tryCatch {h : ε → EStateM ε σ α} (hm : Keeps I m) (hh : ∀ e, Keeps I (h e)) :
    Keeps I (MonadExcept.tryCatch m h : EStateM ε σ α) := Triple.tryCatch hm hh

theorem discard (hm : Keeps I m) : Keeps I (Functor.discard m) := Triple.discard hm

theorem modify {g : σ → σ} (h : ∀ s, I s → I (g s)) :
    Keeps I (MonadState.modifyGet (fun s => ((⟨⟩ : PUnit), g s)) : EStateM ε σ PUnit) :=
  Triple.modify h

theorem of_ok (h : ∀ s, I s → ∃ a s', m s = .ok a s' ∧ I s') : Keeps I m := by
  intro s hs
  obtain ⟨a, s', hm, hI⟩ := h s hs
  rw [hm]
  exact hI

theorem forM {f : β → EStateM ε σ PUnit} (h : ∀ b, Keeps I (f b)) (l : List β) :
    Keeps I (l.forM f) := Triple.forM h l

end Keeps

end MiyakoLink.Lib
