import MiyakoLink.Session.Frame

/-!
# Which controllers point to which targets

While only the loop of one controller runs, `Inv` says which targets are allocated, which
controller they point back to, and which of them a controller may point to. The loop names
`gdb_controller` when it attaches a target, so another one never has a target to attach: no
controller points to anything then.

A call of a driver keeps `Inv` in any case, that is if the connection is lost on the way or packets
are served. What is known of a target across a call is that its controller stays the same
(`marked`).
-/

namespace MiyakoLink.Session

open Lib

/-- A pointer of the controller names the target. -/
def Controller.Names (C : Controller) (t : Ptr) : Prop :=
  C.curTarget = some t ∨ C.lastTarget = some t

/-- The controller may point to the target. -/
structure Nameable (own : Ctl) (L : List Ptr) (w : World) (t : Ptr) : Prop where
  mem : t ∈ L
  static : own = .gdbController
  tc : ∃ T, w.targets t = some T ∧ T.tc = some own

/-- Only the loop of `own` runs, and the targets in `L` are those that are allocated. The
controller of a target is known if it is marked. -/
structure Core (own : Ctl) (marked L : List Ptr) (w : World) : Prop where
  others : ∀ c, c ≠ own → (w.controllers c).targetList = [] ∧ ∀ t, ¬(w.controllers c).Names t
  names : ∀ t, (w.controllers own).Names t → Nameable own L w t
  allocated : ∀ t, t ∈ L ↔ ∃ T, w.targets t = some T
  tc : ∀ t T, w.targets t = some T → T.tc = none ∨ T.tc = some own
  known : ∀ t ∈ marked, t < w.next ∧ ∀ T, w.targets t = some T → T.tc = some own
  nodup : L.Nodup
  fresh : ∀ t ∈ L, t < w.next

def Inv (own : Ctl) (marked : List Ptr) (w : World) : Prop :=
  Core own marked (w.controllers own).targetList w

variable {own c : Ctl} {marked L : List Ptr} {w : World} {t : Ptr} {T : Target}

/-! ## What keeps the invariant -/

/-- The controller keeps its list and gets no new pointer. -/
structure Shrinks (f : Controller → Controller) : Prop where
  targetList : ∀ C, (f C).targetList = C.targetList
  names : ∀ C t, (f C).Names t → C.Names t

theorem shrinks_destroyCallback (t : Ptr) : Shrinks (·.destroyCallback t) where
  targetList _ := rfl
  names C u h := by
    unfold Controller.Names Controller.destroyCallback at h
    dsimp only at h
    rcases h with h | h
    · split at h
      · contradiction
      · exact Or.inl h
    · split at h
      · contradiction
      · exact Or.inr h

theorem shrinks_setFlashMode (b : Bool) : Shrinks fun C => { C with flashMode := b } :=
  ⟨fun _ => rfl, fun _ _ h => h⟩

theorem not_names_destroyCallback (C : Controller) (t : Ptr) : ¬(C.destroyCallback t).Names t := by
  unfold Controller.Names Controller.destroyCallback
  dsimp only
  rintro (h | h)
  · split at h
    · contradiction
    · contradiction
  · split at h
    · contradiction
    · contradiction

namespace Core

/-- Only controllers matter, and what they point to. -/
theorem congr {w' : World} (h : Core own marked L w) (htargets : w'.targets = w.targets)
    (hnext : w'.next = w.next)
    (hlist : ∀ c, c ≠ own → (w'.controllers c).targetList = (w.controllers c).targetList)
    (hnames : ∀ c t, (w'.controllers c).Names t → (w.controllers c).Names t) :
    Core own marked L w' where
  others c hc := ⟨(hlist c hc).trans (h.others c hc).1, fun t ht => (h.others c hc).2 t (hnames c t ht)⟩
  names t ht := by
    obtain ⟨hmem, hstatic, htc⟩ := h.names t (hnames own t ht)
    exact ⟨hmem, hstatic, by rw [htargets]; exact htc⟩
  allocated t := by
    rw [htargets]
    exact h.allocated t
  tc t T hT := h.tc t T (by rw [← htargets]; exact hT)
  known t ht := by
    rw [htargets, hnext]
    exact h.known t ht
  nodup := h.nodup
  fresh t ht := by
    rw [hnext]
    exact h.fresh t ht

/-- What `own` has as its list does not matter here, and its new pointers are such that it may
have them. -/
theorem modifyOwn (h : Core own marked L w) {f : Controller → Controller}
    (hnames : ∀ t, (f (w.controllers own)).Names t →
      (w.controllers own).Names t ∨ Nameable own L w t) :
    Core own marked L (w.modifyController own f) where
  others c hc := by
    rw [w.modifyController_of_ne hc]
    exact h.others c hc
  names t ht := by
    rw [World.modifyController_self] at ht
    obtain ⟨hmem, hstatic, htc⟩ := (hnames t ht).elim (h.names t) id
    exact ⟨hmem, hstatic, htc⟩
  allocated := h.allocated
  tc := h.tc
  known := h.known
  nodup := h.nodup
  fresh := h.fresh

theorem modifyController (h : Core own marked L w) {f : Controller → Controller}
    (hf : Shrinks f) (c : Ctl) : Core own marked L (w.modifyController c f) := by
  by_cases hown : c = own
  · subst hown
    exact h.modifyOwn fun t ht => Or.inl (hf.names _ t ht)
  · refine h.congr rfl rfl ?_ ?_
    · intro c' _
      by_cases heq : c' = c
      · subst heq
        rw [World.modifyController_self, hf.targetList]
      · rw [w.modifyController_of_ne heq]
    · intro c' t ht
      by_cases heq : c' = c
      · subst heq
        rw [World.modifyController_self] at ht
        exact hf.names _ t ht
      · rwa [w.modifyController_of_ne heq] at ht

/-- A target that is allocated is written, and keeps its controller or gets `own`. -/
theorem setTarget {T' : Target} (h : Core own marked L w) (hT : w.targets t = some T)
    (htc : T'.tc = some own ∨ T'.tc = T.tc) : Core own marked L (w.setTarget t (some T')) := by
  have hself := w.setTarget_self t (some T')
  have hother : ∀ u, u ≠ t → (w.setTarget t (some T')).targets u = w.targets u :=
    fun u hu => w.setTarget_of_ne hu _
  have hknown : T.tc = some own → T'.tc = some own := fun heq => htc.elim id fun h' => h'.trans heq
  constructor
  case others => exact h.others
  case names =>
    intro u hu
    obtain ⟨hmem, hstatic, U, hU, hUtc⟩ := h.names u hu
    refine ⟨hmem, hstatic, ?_⟩
    by_cases heq : u = t
    · subst heq
      obtain rfl : T = U := Option.some.inj (hT.symm.trans hU)
      exact ⟨T', hself, hknown hUtc⟩
    · exact ⟨U, (hother u heq).trans hU, hUtc⟩
  case allocated =>
    intro u
    by_cases heq : u = t
    · subst heq
      exact iff_of_true ((h.allocated u).mpr ⟨T, hT⟩) ⟨T', hself⟩
    · rw [hother u heq]
      exact h.allocated u
  case tc =>
    intro u U hU
    by_cases heq : u = t
    · subst heq
      obtain rfl : T' = U := Option.some.inj (hself.symm.trans hU)
      rcases htc with htc | htc
      · exact Or.inr htc
      · rw [htc]
        exact h.tc u T hT
    · rw [hother u heq] at hU
      exact h.tc u U hU
  case known =>
    intro u hu
    refine ⟨(h.known u hu).1, fun U hU => ?_⟩
    by_cases heq : u = t
    · subst heq
      obtain rfl : T' = U := Option.some.inj (hself.symm.trans hU)
      exact hknown ((h.known u hu).2 T hT)
    · rw [hother u heq] at hU
      exact (h.known u hu).2 U hU
  case nodup => exact h.nodup
  case fresh => exact h.fresh

/-- A target that no controller points to is freed. -/
theorem free (h : Core own marked (t :: L) w) (hnames : ¬(w.controllers own).Names t) :
    Core own marked L (w.setTarget t none) := by
  obtain ⟨hnot, hnodup⟩ := List.nodup_cons.mp h.nodup
  have hself := w.setTarget_self t none
  have hother : ∀ u, u ≠ t → (w.setTarget t none).targets u = w.targets u :=
    fun u hu => w.setTarget_of_ne hu _
  have hne : ∀ u U, (w.setTarget t none).targets u = some U → u ≠ t := by
    rintro u U hU rfl
    rw [hself] at hU
    contradiction
  constructor
  case others => exact h.others
  case names =>
    intro u hu
    obtain ⟨hmem, hstatic, htc⟩ := h.names u hu
    have heq : u ≠ t := by
      rintro rfl
      exact hnames hu
    refine ⟨(List.mem_cons.mp hmem).resolve_left heq, hstatic, ?_⟩
    rw [hother u heq]
    exact htc
  case allocated =>
    intro u
    by_cases heq : u = t
    · subst heq
      refine iff_of_false hnot ?_
      rintro ⟨U, hU⟩
      exact hne u U hU rfl
    · rw [hother u heq, ← h.allocated u, List.mem_cons]
      exact (or_iff_right heq).symm
  case tc =>
    intro u U hU
    have heq := hne u U hU
    rw [hother u heq] at hU
    exact h.tc u U hU
  case known =>
    intro u hu
    refine ⟨(h.known u hu).1, fun U hU => ?_⟩
    have heq := hne u U hU
    rw [hother u heq] at hU
    exact (h.known u hu).2 U hU
  case nodup => exact hnodup
  case fresh => exact fun u hu => h.fresh u (List.mem_cons_of_mem _ hu)

/-- A new target goes to the end of the list. -/
theorem new (h : Core own marked L w) (commands : List (List (Monitor.Command Nat))) :
    Core own marked (L ++ [w.next])
      ({ w with next := w.next + 1 }.setTarget w.next (some { commands := commands })) := by
  generalize hw : { w with next := w.next + 1 }.setTarget w.next (some { commands := commands }) = w'
  have hcontrollers : w'.controllers = w.controllers := hw ▸ rfl
  have hnext : w'.next = w.next + 1 := hw ▸ rfl
  have hself : w'.targets w.next = some { commands := commands } :=
    hw ▸ World.setTarget_self ..
  have hother : ∀ u, u ≠ w.next → w'.targets u = w.targets u :=
    fun u hu => hw ▸ World.setTarget_of_ne _ hu _
  have hnot : w.next ∉ L := fun hmem => Nat.lt_irrefl _ (h.fresh _ hmem)
  constructor
  case others =>
    rw [hcontrollers]
    exact h.others
  case names =>
    intro u hu
    rw [hcontrollers] at hu
    obtain ⟨hmem, hstatic, htc⟩ := h.names u hu
    have hne : u ≠ w.next := by
      rintro rfl
      exact hnot hmem
    refine ⟨List.mem_append_left _ hmem, hstatic, ?_⟩
    rw [hother u hne]
    exact htc
  case allocated =>
    intro u
    by_cases heq : u = w.next
    · subst heq
      exact iff_of_true (List.mem_append_right _ (List.mem_singleton_self _)) ⟨_, hself⟩
    · rw [hother u heq, List.mem_append, List.mem_singleton, or_iff_left heq]
      exact h.allocated u
  case tc =>
    intro u U hU
    by_cases heq : u = w.next
    · subst heq
      obtain rfl := Option.some.inj (hself.symm.trans hU)
      exact Or.inl rfl
    · rw [hother u heq] at hU
      exact h.tc u U hU
  case known =>
    intro u hu
    obtain ⟨hlt, htc⟩ := h.known u hu
    refine ⟨hnext ▸ Nat.lt_succ_of_lt hlt, fun U hU => ?_⟩
    rw [hother u (Nat.ne_of_lt hlt)] at hU
    exact htc U hU
  case nodup =>
    refine List.nodup_append.mpr ⟨h.nodup, List.nodup_singleton _, ?_⟩
    intro u hu v hv
    rw [List.mem_singleton.mp hv]
    rintro rfl
    exact hnot hu
  case fresh =>
    intro u hu
    rw [hnext]
    rcases List.mem_append.mp hu with hu | hu
    · exact Nat.lt_succ_of_lt (h.fresh u hu)
    · rw [List.mem_singleton.mp hu]
      exact Nat.lt_succ_self _

/-- A target whose controller is known may be marked. -/
theorem mark (h : Core own marked L w) (hT : w.targets t = some T) (htc : T.tc = some own) :
    Core own (t :: marked) L w :=
  { h with
    known := by
      intro u hu
      rcases List.mem_cons.mp hu with rfl | hu
      · refine ⟨h.fresh u ((h.allocated u).mpr ⟨T, hT⟩), fun U hU => ?_⟩
        rw [← Option.some.inj (hT.symm.trans hU)]
        exact htc
      · exact h.known u hu }

theorem unmark (h : Core own (t :: marked) L w) : Core own marked L w :=
  { h with known := fun u hu => h.known u (List.mem_cons_of_mem _ hu) }

end Core

/-! ## Freeing a list -/

theorem targetFree_ok (h : Core own marked (t :: L) w) :
    ∃ w', targetFree t w = .ok () w' ∧ Core own marked L w' ∧
      ∀ c, (w'.controllers c).targetList = (w.controllers c).targetList := by
  obtain ⟨T, hT⟩ := (h.allocated t).mp (List.mem_cons_self ..)
  cases htc : T.tc with
  | none =>
    refine ⟨w.setTarget t none, ?_, h.free fun hnames => ?_, fun _ => rfl⟩
    · unfold targetFree forget
      rw [bind_ok (getTarget_ok hT), htc]
      rfl
    · obtain ⟨-, -, U, hU, hUtc⟩ := h.names t hnames
      rw [← Option.some.inj (hT.symm.trans hU), htc] at hUtc
      contradiction
  | some c =>
    obtain rfl : c = own := by
      rcases h.tc t T hT with hnone | hsome
      · rw [htc] at hnone
        contradiction
      · exact Option.some.inj (htc.symm.trans hsome)
    have hcore := h.modifyController (shrinks_destroyCallback t) c
    refine ⟨(w.modifyController c (·.destroyCallback t)).setTarget t none, ?_, hcore.free ?_, ?_⟩
    · unfold targetFree forget
      rw [bind_ok (getTarget_ok hT), htc]
      rfl
    · rw [World.modifyController_self]
      exact not_names_destroyCallback _ t
    · intro c'
      show ((w.modifyController c _).controllers c').targetList = _
      by_cases heq : c' = c
      · subst heq
        rw [World.modifyController_self]
        rfl
      · rw [World.modifyController_of_ne w heq]

theorem freeTargets_ok (h : Core own marked L w) :
    ∃ w', freeTargets L w = .ok () w' ∧ Core own marked [] w' ∧
      ∀ c, (w'.controllers c).targetList = (w.controllers c).targetList := by
  induction L generalizing w with
  | nil => exact ⟨w, rfl, h, fun _ => rfl⟩
  | cons t L ih =>
    obtain ⟨w₁, hfree, hcore, hlist⟩ := targetFree_ok h
    obtain ⟨w₂, hrest, hend, hlist'⟩ := ih hcore
    refine ⟨w₂, ?_, hend, fun c => (hlist' c).trans (hlist c)⟩
    unfold freeTargets
    rw [bind_ok hfree]
    exact hrest

/-- A list is freed, with what points to its targets. -/
theorem targetListFree_ok (h : Inv own marked w) (c : Ctl) :
    ∃ w', targetListFree c w = .ok () w' ∧ Inv own marked w' ∧
      (w'.controllers c).targetList = [] := by
  let clear (C : Controller) : Controller := { C with targetList := [] }
  have hcontroller : controller c w = .ok (w.controllers c) w := rfl
  by_cases hc : c = own
  · subst hc
    obtain ⟨w₁, hfree, hcore, -⟩ := freeTargets_ok h
    have hself := w₁.modifyController_self c clear
    refine ⟨w₁.modifyController c clear, ?_, ?_, ?_⟩
    · unfold targetListFree
      rw [bind_ok hcontroller, bind_ok hfree]
      rfl
    · unfold Inv
      rw [hself]
      exact hcore.modifyOwn fun _ ht => Or.inl ht
    · rw [hself]
  · have hnil := (h.others c hc).1
    have hsame : w.modifyController c clear = w := by
      have heq : clear (w.controllers c) = w.controllers c := by
        show { w.controllers c with targetList := [] } = w.controllers c
        rw [← hnil]
      rw [World.modifyController, heq, Function.update_eq_self]
    refine ⟨w, ?_, h, hnil⟩
    unfold targetListFree
    rw [bind_ok hcontroller, hnil]
    exact congrArg (EStateM.Result.ok ()) hsame

/-! ## What the programs keep -/

theorem Inv.congr {w' : World} (h : Inv own marked w) (hcontrollers : w'.controllers = w.controllers)
    (htargets : w'.targets = w.targets) (hnext : w'.next = w.next) : Inv own marked w' := by
  unfold Inv
  rw [hcontrollers]
  refine Core.congr h htargets hnext ?_ ?_
  · intro c _
    rw [hcontrollers]
  · intro c t ht
    rwa [hcontrollers] at ht

theorem Inv.modifyController (h : Inv own marked w) {f : Controller → Controller}
    (hf : Shrinks f) (c : Ctl) : Inv own marked (w.modifyController c f) := by
  have hlist : ((w.modifyController c f).controllers own).targetList =
      (w.controllers own).targetList := by
    by_cases heq : own = c
    · subst heq
      rw [World.modifyController_self, hf.targetList]
    · rw [w.modifyController_of_ne heq]
  unfold Inv
  rw [hlist]
  exact Core.modifyController h hf c

theorem Inv.modifyOwn (h : Inv own marked w) {f : Controller → Controller}
    (hlist : ∀ C, (f C).targetList = C.targetList)
    (hnames : ∀ t, (f (w.controllers own)).Names t →
      (w.controllers own).Names t ∨ Nameable own (w.controllers own).targetList w t) :
    Inv own marked (w.modifyController own f) := by
  unfold Inv
  rw [World.modifyController_self, hlist]
  exact Core.modifyOwn h hnames

theorem ask_keeps : Keeps (Inv own marked) ask := by
  intro w h
  cases hscript : w.script with
  | nil =>
    rw [ask_nil hscript]
    exact h
  | cons a rest =>
    rw [ask_cons hscript]
    exact h.congr rfl rfl rfl

theorem record_keeps (e : Event) : Keeps (Inv own marked) (record e) :=
  Keeps.modify fun _ h => h.congr rfl rfl rfl

theorem put_keeps (r : Reply) : Keeps (Inv own marked) (put r) := record_keeps _

theorem modifyController_keeps {f : Controller → Controller} (hf : Shrinks f) (c : Ctl) :
    Keeps (Inv own marked) (modifyController c f) :=
  Keeps.modify fun _ h => h.modifyController hf c

theorem getTc_spec (t : Ptr) : Triple (Inv own marked) (getTc t)
    (fun c w => c = own ∧ Inv own marked w) fun _ => Inv own marked := by
  refine (getTarget_spec t).bind fun T => ?_
  rintro w ⟨h, hT⟩
  cases htc : T.tc with
  | none => exact h
  | some c =>
    have heq : c = own := by
      rcases h.tc t T hT with hnone | hsome
      · rw [htc] at hnone
        contradiction
      · exact Option.some.inj (htc.symm.trans hsome)
    exact ⟨heq, h⟩

theorem targetListFree_keeps (c : Ctl) : Keeps (Inv own marked) (targetListFree c) := by
  apply Keeps.of_ok
  intro w h
  obtain ⟨w', hfree, hinv, -⟩ := targetListFree_ok h c
  exact ⟨(), w', hfree, hinv⟩

theorem targetNew_keeps (commands : List (List (Monitor.Command Nat))) :
    Keeps (Inv own marked) (targetNew own commands) := by
  apply Keeps.of_ok
  intro w h
  refine ⟨(), _, rfl, ?_⟩
  unfold Inv
  rw [World.modifyController_self]
  exact (Core.new h commands).modifyOwn fun _ ht => Or.inl ht

/-- A pointer that may be stored is. -/
theorem setCurTarget_spec (t : Option Ptr) : Triple (fun w => Inv own marked w ∧
      ∀ t', t = some t' → Nameable own (w.controllers own).targetList w t')
    (setCurTarget own t) (fun _ => Inv own marked) fun _ => Inv own marked := by
  rintro w ⟨h, hname⟩
  refine h.modifyOwn (fun _ => rfl) fun u hu => ?_
  rcases hu with hu | hu
  · exact Or.inr (hname u hu)
  · exact Or.inl (Or.inr hu)

section

variable {nested : Ctl → M Unit} (hnested : ∀ marked, Keeps (Inv own marked) (nested own))
include hnested

theorem driver_keeps (t : Ptr) (fuel : Nat) : Keeps (Inv own marked) (driver nested t fuel) := by
  induction fuel with
  | zero => exact Keeps.throw _
  | succ fuel ih =>
    refine ask_keeps.bind fun a => ?_
    cases a with
    | returned v => exact Keeps.pure v
    | raised e => exact Keeps.throw _
    | lost =>
      refine Triple.bind (getTc_spec t) fun c => Triple.and_pre fun _ => ?_
      exact (targetListFree_keeps c).bind fun _ => ih
    | syscall =>
      refine Triple.bind (getTc_spec t) fun c => Triple.and_pre fun hc => ?_
      subst hc
      exact (inner_keeps (hnested marked)).bind fun _ => ih
    | _ => exact Keeps.throw _

theorem call_keeps (fuel : Nat) (o : Operation) (t : Option Ptr) :
    Keeps (Inv own marked) (call nested fuel o t) := by
  refine (deref_keeps t).bind fun t => (getTarget_keeps t).discard.bind fun _ => ?_
  exact (record_keeps _).bind fun _ => driver_keeps hnested t fuel

/-- Only the loop of `gdb_controller` attaches a target, and the pointer it gets may be stored. -/
theorem targetAttach_spec (hstatic : own = .gdbController) (fuel : Nat) (t : Ptr) :
    Triple (Inv own marked) (targetAttach nested fuel t own)
      (fun r w => Inv own marked w ∧
        ∀ t', r = some t' → Nameable own (w.controllers own).targetList w t')
      fun _ => Inv own marked := by
  refine (getTarget_spec t).bind fun T => ?_
  refine Triple.bind (Q := fun _ w => Inv own marked w ∧ w.targets t = some T) ?_ fun _ => ?_
  · rintro w ⟨h, hT⟩
    unfold forget
    cases T.tc with
    | none => exact ⟨h, hT⟩
    | some c => exact ⟨h.modifyController (shrinks_destroyCallback t) c, hT⟩
  -- From here on its controller stays the same while it is allocated.
  refine Triple.bind (Q := fun _ => Inv own (t :: marked)) ?_ fun _ => ?_
  · rintro w ⟨h, hT⟩
    exact (Core.setTarget h hT (Or.inl rfl)).mark (w.setTarget_self t _) rfl
  refine Triple.conseq (P := Inv own (t :: marked))
    (Q := fun r w => Inv own (t :: marked) w ∧
      ∀ t', r = some t' → Nameable own (w.controllers own).targetList w t')
    (E := fun _ => Inv own (t :: marked))
    ?_ (fun _ => id) (fun _ _ hpost => ⟨Core.unmark hpost.1, hpost.2⟩) fun _ _ => Core.unmark
  refine Triple.bind (call_keeps hnested fuel _ _) fun ok => ?_
  refine Triple.ite (fun _ => ?_) fun _ => ?_
  · exact fun w h => ⟨h, nofun⟩
  refine (getTarget_spec t).bind fun T' => ?_
  rintro w ⟨h, hT'⟩
  have htc := (h.known t (List.mem_cons_self ..)).2 T' hT'
  refine ⟨Core.setTarget h hT' (Or.inr rfl), ?_⟩
  rintro t' heq
  obtain rfl : t = t' := Option.some.inj heq
  exact ⟨(h.allocated t).mpr ⟨T', hT'⟩, hstatic, _, w.setTarget_self t _, htc⟩

/-- Where there is no target, none is attached. -/
theorem targetAttachN_spec (fuel : Nat) (n : Int) :
    Triple (Inv own marked) (targetAttachN nested fuel n .gdbController)
      (fun r w => Inv own marked w ∧
        ∀ t', r = some t' → Nameable own (w.controllers own).targetList w t')
      fun _ => Inv own marked := by
  intro w h
  by_cases hstatic : own = .gdbController
  · subst hstatic
    cases hnth : nthTarget n 1 (w.controllers .gdbController).targetList with
    | none =>
      rw [targetAttachN_none nested fuel hnth]
      exact ⟨h, nofun⟩
    | some t =>
      rw [targetAttachN_some nested fuel hnth]
      exact targetAttach_spec hnested rfl fuel t w h
  · have hnil := (h.others .gdbController fun heq => hstatic heq.symm).1
    have hnth : nthTarget n 1 (w.controllers .gdbController).targetList = none := by
      rw [hnil]
      rfl
    rw [targetAttachN_none nested fuel hnth]
    exact ⟨h, nofun⟩

end

end MiyakoLink.Session
