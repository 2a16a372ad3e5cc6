import MiyakoLink.Session.Frame

/-!
# Single steps

`gdb_main_loop` keeps `single_step` from one packet to the next: `s` sets it before it looks for a
target, and only a packet that resumes a target clears it. `steps_iff`: in every run of the loop a
packet resumes the target as it asks for, unless it is a `c` and an `s` before it has found no
target, with no target resumed since.
-/

namespace MiyakoLink.Session

open Lib

/-- `s` and `c`. -/
def Resuming (p : Text) : Prop := p.head? = some 0x73 ∨ p.head? = some 0x63

instance : DecidablePred Resuming :=
  fun p => inferInstanceAs (Decidable (p.head? = some 0x73 ∨ p.head? = some 0x63))

theorem head_of_letter {p : Text} {letter : UInt8} (h : p.head?.getD 0 = letter) (hne : letter ≠ 0) :
    p.head? = some letter := by
  cases hhead : p.head? with
  | none =>
    rw [hhead] at h
    exact absurd h.symm hne
  | some a =>
    rw [hhead] at h
    exact congrArg some h

/-- Every call of `target_halt_resume` comes right behind a packet that resumes. -/
def Follows (es : List Event) : Prop :=
  ∀ pre step t post, es = pre ++ .operation (.haltResume step) t :: post →
    ∃ p, pre.getLast? = some (.packet p) ∧ Resuming p

/-- The target is stepped if and only if the packet is `s`. -/
def StepsRight (p : Text) (es : List Event) : Prop :=
  ∀ step t, es.head? = some (.operation (.haltResume step) t) → (step = true ↔ p.head? = some 0x73)

/-! ## What is added to the trace -/

/-- The trace has grown by events with `Q`. -/
def Adding (Q : List Event → Prop) (tr : List Event) (w : World) : Prop :=
  ∃ es, w.trace = tr ++ es ∧ Q es

/-- The events may be followed by those that the loops add. -/
structure Closed (Q : List Event → Prop) : Prop where
  other : ∀ es e, Q es → (∀ step t, e ≠ .operation (.haltResume step) t) → Q (es ++ [e])
  resumed : ∀ es p step t, Resuming p → Q (es ++ [.packet p]) →
    Q (es ++ [.packet p] ++ [.operation (.haltResume step) t])

theorem snoc_eq_append {α : Type} {es pre post : List α} {e x : α} (h : es ++ [e] = pre ++ x :: post) :
    (es = pre ∧ e = x) ∨ ∃ post', es = pre ++ x :: post' := by
  rcases List.eq_nil_or_concat post with rfl | ⟨post', y, rfl⟩
  · obtain ⟨hes, he⟩ := List.append_inj' h rfl
    exact Or.inl ⟨hes, List.singleton_inj.mp he⟩
  · rw [List.concat_eq_append, ← List.cons_append, ← List.append_assoc] at h
    exact Or.inr ⟨post', List.append_inj_left' h rfl⟩

theorem follows_nil : Follows [] := by
  intro pre step t post h
  exact absurd h.symm (List.append_ne_nil_of_right_ne_nil pre (List.cons_ne_nil _ _))

theorem follows_closed : Closed Follows where
  other es e h he := by
    intro pre step t post heq
    rcases snoc_eq_append heq with ⟨-, hlast⟩ | ⟨post', hes⟩
    · exact absurd hlast (he step t)
    · exact h pre step t post' hes
  resumed es p step t hp h := by
    intro pre step' t' post heq
    rcases snoc_eq_append heq with ⟨hpre, -⟩ | ⟨post', hes⟩
    · exact ⟨p, by rw [← hpre, List.getLast?_concat], hp⟩
    · exact h pre step' t' post' hes

section

variable {Q : List Event → Prop} {tr : List Event} (hQ : Closed Q)
include hQ

omit hQ in
/-- What leaves the trace as it is. -/
theorem adding_congr {w w' : World} (h : Adding Q tr w) (htrace : w'.trace = w.trace) :
    Adding Q tr w' := by
  unfold Adding
  rw [htrace]
  exact h

omit hQ in
theorem adding_modify {g : World → World} (h : ∀ w, (g w).trace = w.trace) :
    Keeps (Adding Q tr) (modify g : M Unit) :=
  Keeps.modify fun w hw => adding_congr hw (h w)

omit hQ in
theorem adding_ask : Keeps (Adding Q tr) ask := by
  intro w h
  cases hscript : w.script with
  | nil =>
    rw [ask_nil hscript]
    exact h
  | cons a rest =>
    rw [ask_cons hscript]
    exact adding_congr h rfl

theorem adding_record {e : Event} (he : ∀ step t, e ≠ .operation (.haltResume step) t) :
    Keeps (Adding Q tr) (record e) := by
  refine Keeps.modify fun w h => ?_
  obtain ⟨es, htrace, hes⟩ := h
  refine ⟨es ++ [e], ?_, hQ.other es e hes he⟩
  show w.trace ++ [e] = _
  rw [htrace, List.append_assoc]

omit hQ in
theorem adding_setTarget (t : Ptr) (T : Option Target) : Keeps (Adding Q tr) (setTarget t T) :=
  adding_modify fun _ => rfl

omit hQ in
theorem adding_modifyController (c : Ctl) (f : Controller → Controller) :
    Keeps (Adding Q tr) (modifyController c f) := adding_modify fun _ => rfl

omit hQ in
theorem adding_getTc (t : Ptr) : Keeps (Adding Q tr) (getTc t) := by
  refine (getTarget_keeps t).bind fun T => ?_
  cases T.tc with
  | none => exact Keeps.throw _
  | some c => exact Keeps.pure c

omit hQ in
theorem adding_forget (t : Ptr) (T : Target) : Keeps (Adding Q tr) (forget t T) :=
  forget_frame adding_modifyController t T

omit hQ in
theorem adding_targetListFree (c : Ctl) : Keeps (Adding Q tr) (targetListFree c) :=
  targetListFree_frame adding_setTarget adding_modifyController c

omit hQ in
theorem adding_targetNew (c : Ctl) (commands : List (List (Monitor.Command Nat))) :
    Keeps (Adding Q tr) (targetNew c commands) := fun _ h => adding_congr h rfl

omit hQ in
theorem adding_probe (c : Ctl) (fuel : Nat) : Keeps (Adding Q tr) (probe c fuel) := by
  induction fuel with
  | zero => exact Keeps.throw _
  | succ fuel ih =>
    refine adding_ask.bind fun a => ?_
    cases a with
    | found commands => exact (adding_targetNew c commands).bind fun _ => ih
    | probed =>
      refine (controller_keeps c).bind fun C => (deref_keeps _).bind fun t => ?_
      exact (getTarget_keeps t).bind fun T => (adding_setTarget t _).bind fun _ => ih
    | scanned devs => exact Keeps.pure devs
    | raised e => exact Keeps.throw _
    | _ => exact Keeps.throw _

omit hQ in
theorem adding_general (fuel : Nat) (c : Ctl) (t : Option Ptr) (h : Monitor.General)
    (a : Monitor.Action) : Keeps (Adding Q tr) (general fuel c t h a) := by
  have hscan : Keeps (Adding Q tr) (cmdScan fuel c) := by
    refine Keeps.bind (catching_keeps ?_ fun _ => Keeps.pure _) fun devs => ?_
    · exact (adding_targetListFree c).bind fun _ => adding_probe c fuel
    · exact Keeps.ite (Keeps.pure false) (cmdTargets_keeps c)
  cases h with
  | jtagScan => exact hscan
  | swdpScan => exact hscan
  | targets => exact cmdTargets_keeps c
  | hardSrst => exact (adding_targetListFree c).bind fun _ => Keeps.pure true
  | haltTimeout =>
    exact (deref_keeps t).bind fun t => (adding_getTc t).discard.bind fun _ => Keeps.pure true
  | help =>
    cases t with
    | none => exact Keeps.pure true
    | some t => exact (adding_getTc t).discard.bind fun _ => Keeps.pure true
  | heapinfo =>
    cases a with
    | heapinfo _ _ _ _ =>
      exact (deref_keeps t).bind fun t => (getTarget_keeps t).discard.bind fun _ => Keeps.pure true
    | _ => exact Keeps.pure true
  | _ => exact Keeps.pure true

variable {nested : Ctl → M Unit} (hnested : ∀ c, Keeps (Adding Q tr) (nested c))
include hnested

omit hQ in
theorem adding_driver (t : Ptr) (fuel : Nat) : Keeps (Adding Q tr) (driver nested t fuel) := by
  induction fuel with
  | zero => exact Keeps.throw _
  | succ fuel ih =>
    refine adding_ask.bind fun a => ?_
    cases a with
    | returned v => exact Keeps.pure v
    | raised e => exact Keeps.throw _
    | lost =>
      exact (adding_getTc t).bind fun c => (adding_targetListFree c).bind fun _ => ih
    | syscall =>
      exact (adding_getTc t).bind fun c => (inner_keeps (hnested c)).bind fun _ => ih
    | _ => exact Keeps.throw _

theorem adding_call (fuel : Nat) (o : Operation) (t : Option Ptr)
    (ho : ∀ step, o ≠ .haltResume step) : Keeps (Adding Q tr) (call nested fuel o t) := by
  refine (deref_keeps t).bind fun t => (getTarget_keeps t).discard.bind fun _ => ?_
  refine (adding_record hQ ?_).bind fun _ => adding_driver hnested t fuel
  rintro step t' heq
  exact ho step (Event.operation.inj heq).1

theorem adding_targetAttach (fuel : Nat) (t : Ptr) (c : Ctl) :
    Keeps (Adding Q tr) (targetAttach nested fuel t c) := by
  refine (getTarget_keeps t).bind fun T => (adding_forget t T).bind fun _ => ?_
  refine (adding_setTarget t _).bind fun _ => (adding_call hQ hnested fuel .attach _ nofun).bind ?_
  intro ok
  refine Keeps.ite (Keeps.pure none) ((getTarget_keeps t).bind fun T => ?_)
  exact (adding_setTarget t _).bind fun _ => Keeps.pure _

theorem adding_frame (fuel : Nat) (c : Ctl) : Frame (Adding Q tr) nested fuel c where
  ask := adding_ask
  put r := adding_record hQ nofun
  call := adding_call hQ hnested fuel
  setFlashMode _ := adding_modifyController c _
  forgetCurrent := (curTarget_keeps c).bind fun _ =>
    (adding_modifyController c _).bind fun _ => adding_modifyController c _
  detached t := (getTarget_keeps t).bind fun T => adding_setTarget t _
  attachLast t := by
    refine Triple.pre (Keeps.bind (adding_targetAttach hQ hnested fuel t .gdbController) fun r => ?_)
      fun _ => And.left
    exact adding_modifyController c _
  attachN n := by
    refine Keeps.bind ?_ fun r => adding_modifyController c _
    refine (controller_keeps .gdbController).bind fun C => ?_
    cases nthTarget n 1 C.targetList with
    | none => exact Keeps.pure none
    | some t => exact adding_targetAttach hQ hnested fuel t .gdbController
  general := adding_general fuel c

/-- The packet has just been received. -/
def Received (Q : List Event → Prop) (tr : List Event) (p : Text) (w : World) : Prop :=
  ∃ es, w.trace = tr ++ (es ++ [.packet p]) ∧ Q (es ++ [.packet p])

omit hQ hnested in
theorem Received.adding {p : Text} {w : World} (h : Received Q tr p w) : Adding Q tr w := by
  obtain ⟨es, htrace, hes⟩ := h
  exact ⟨_, htrace, hes⟩

omit hnested in
theorem received_getpacket : Triple (Adding Q tr) getpacket (fun p => Received Q tr p)
    fun _ => Adding Q tr := by
  refine Triple.bind adding_ask fun a => ?_
  cases a with
  | packet p =>
    rintro w ⟨es, htrace, hes⟩
    refine ⟨es, ?_, hQ.other es _ hes nofun⟩
    show w.trace ++ [.packet p] = _
    rw [htrace, List.append_assoc]
  | _ => exact Triple.throw fun _ h => h

theorem received_resume {p : Text} (hp : Resuming p) (fuel : Nat) (c : Ctl) (singleStep : Bool) :
    Triple (Received Q tr p) (resume nested fuel c singleStep) (fun _ => Adding Q tr)
      fun _ => Adding Q tr := by
  intro w h
  cases hcur : (w.controllers c).curTarget with
  | none =>
    unfold resume
    rw [bind_ok (show curTarget c w = .ok (w.controllers c).curTarget w from rfl), hcur]
    exact (adding_record hQ (e := .reply _) nofun).bind (fun _ => Keeps.pure _) w h.adding
  | some t =>
    unfold resume
    rw [bind_ok (show curTarget c w = .ok (w.controllers c).curTarget w from rfl), hcur]
    have hcall : Triple (Received Q tr p) (call nested fuel (.haltResume singleStep) (some t))
        (fun _ => Adding Q tr) fun _ => Adding Q tr := by
      intro w h
      cases hT : w.targets t with
      | none =>
        have hgone : call nested fuel (.haltResume singleStep) (some t) w =
            .error (.fault .useAfterFree) w := call_gone nested fuel _ hT
        rw [hgone]
        exact h.adding
      | some T =>
        rw [call_eq nested fuel _ hT]
        obtain ⟨es, htrace, hes⟩ := h
        refine adding_driver hnested t fuel _ ⟨_, ?_, hQ.resumed es p singleStep t hp hes⟩
        show w.trace ++ [.operation (.haltResume singleStep) t] = _
        rw [htrace, List.append_assoc]
    refine Triple.bind (Triple.discard (Q := fun _ => Adding Q tr) hcall) (fun _ => ?_) w h
    exact ((adding_frame hQ hnested fuel c).haltReason).bind fun _ => Keeps.pure false

theorem received_handlePacket (fuel : Nat) (c : Ctl) (controllerText : Text) (B : Monitor.Build)
    (inSyscall singleStep : Bool) (p : Text) :
    Triple (Received Q tr p)
      (handlePacket nested fuel c controllerText B inSyscall singleStep p) (fun _ => Adding Q tr)
      fun _ => Adding Q tr := by
  refine Triple.ite (fun hs => ?_) fun _ => Triple.ite (fun hc => ?_) fun _ => ?_
  · refine (received_resume hQ hnested (Or.inl ?_) fuel c true).bind fun _ => Keeps.pure _
    exact head_of_letter hs (by decide)
  · refine (received_resume hQ hnested (Or.inr ?_) fuel c singleStep).bind fun _ => Keeps.pure _
    exact head_of_letter hc (by decide)
  · refine Triple.pre (Keeps.ite (Keeps.pure _) ?_) fun _ => Received.adding
    exact ((adding_frame hQ hnested fuel c).handleOther controllerText B _ p).bind fun _ =>
      Keeps.pure _

omit hnested in
theorem adding_gdbMainLoop (controllerText : Text) (B : Monitor.Build) (fuel : Nat) (c : Ctl)
    (inSyscall singleStep : Bool) :
    Keeps (Adding Q tr) (gdbMainLoop controllerText B fuel c inSyscall singleStep) := by
  induction fuel generalizing c inSyscall singleStep with
  | zero => exact Keeps.throw _
  | succ fuel ih =>
    refine Triple.bind (received_getpacket hQ) fun p => ?_
    have hnested := fun c' => ih c' true false
    refine Triple.bind (received_handlePacket hQ hnested fuel c controllerText B inSyscall singleStep p)
      fun turn => ?_
    cases turn with
    | next singleStep => exact ih c inSyscall singleStep
    | leave => exact Keeps.pure ()

end

/-! ## What a packet resumes -/

theorem handlePacket_resume {nested : Ctl → M Unit} {fuel : Nat} {c : Ctl} {controllerText : Text}
    {B : Monitor.Build} {inSyscall singleStep : Bool} {p : Text} (hp : Resuming p) :
    handlePacket nested fuel c controllerText B inSyscall singleStep p = (do
      let ss ← resume nested fuel c (decide (p.head? = some 0x73) || singleStep)
      pure (.next ss)) := by
  unfold handlePacket
  rcases hp with hp | hp
  · rw [hp]
    rfl
  · rw [hp]
    rfl

theorem handlePacket_other {nested : Ctl → M Unit} {fuel : Nat} {c : Ctl} {controllerText : Text}
    {B : Monitor.Build} {inSyscall singleStep : Bool} {p : Text} (hp : ¬Resuming p) :
    handlePacket nested fuel c controllerText B inSyscall singleStep p =
      (if p.head?.getD 0 = 0x46 ∧ inSyscall then pure .leave
      else do
        handleOther nested fuel c controllerText B (p.head?.getD 0) p
        pure (.next singleStep)) := by
  unfold handlePacket
  dsimp only
  rw [if_neg fun h => hp (Or.inl (head_of_letter h (by decide))),
    if_neg fun h => hp (Or.inr (head_of_letter h (by decide)))]

theorem resume_none {nested : Ctl → M Unit} {fuel : Nat} {c : Ctl} {step : Bool} {w : World}
    (hcur : (w.controllers c).curTarget = none) : resume nested fuel c step w = (do
      putText "X1D"
      pure step) w := by
  unfold resume
  rw [bind_ok (show curTarget c w = .ok (w.controllers c).curTarget w from rfl), hcur]

theorem resume_gone {nested : Ctl → M Unit} {fuel : Nat} {c : Ctl} {step : Bool} {w : World}
    {t : Ptr} (hcur : (w.controllers c).curTarget = some t) (hT : w.targets t = none) :
    resume nested fuel c step w = .error (.fault .useAfterFree) w := by
  unfold resume
  rw [bind_ok (show curTarget c w = .ok (w.controllers c).curTarget w from rfl), hcur]
  refine bind_error ?_
  show EStateM.map (Function.const Int PUnit.unit) (call nested fuel (.haltResume step) (some t)) w = _
  rw [EStateM.map, call_gone nested fuel _ hT]

/-- The current target of the controller, if it is allocated. -/
def hasTarget (c : Ctl) (w : World) : Bool :=
  (w.controllers c).curTarget.any fun t => (w.targets t).isSome

/-- The target is resumed. -/
def IsResume (step : Bool) (e : Event) : Prop := ∃ t, e = .operation (.haltResume step) t

theorem head_snoc {es : List Event} {e : Event} (h : es ≠ []) : (es ++ [e]).head? = es.head? := by
  cases es with
  | nil => contradiction
  | cons x es => rfl

/-- It begins with a call of `target_halt_resume`. -/
theorem resumed_closed (p : Text) (step : Bool) :
    Closed fun es => (∃ e, es.head? = some e ∧ IsResume step e) ∧ Follows (.packet p :: es) where
  other es e h he := by
    obtain ⟨⟨x, hx, hstep⟩, hfollows⟩ := h
    have hne : es ≠ [] := by
      rintro rfl
      contradiction
    exact ⟨⟨x, (head_snoc hne).trans hx, hstep⟩, follows_closed.other _ e hfollows he⟩
  resumed es q step' t hq h := by
    obtain ⟨⟨x, hx, hstep⟩, hfollows⟩ := h
    have hne := List.append_ne_nil_of_right_ne_nil es (List.cons_ne_nil (.packet q) [])
    exact ⟨⟨x, (head_snoc hne).trans hx, hstep⟩,
      follows_closed.resumed (.packet p :: es) q step' t hq hfollows⟩

/-- It begins with something else. -/
theorem other_closed (p : Text) :
    Closed fun es => (∀ e step, es.head? = some e → ¬IsResume step e) ∧
      Follows (.packet p :: es) where
  other es e h he := by
    obtain ⟨hhead, hfollows⟩ := h
    refine ⟨fun x step hx => ?_, follows_closed.other _ e hfollows he⟩
    by_cases hes : es = []
    · subst hes
      obtain rfl := Option.some.inj hx
      rintro ⟨t, heq⟩
      exact he step t heq
    · exact hhead x step ((head_snoc hes).symm.trans hx)
  resumed es q step' t hq h := by
    obtain ⟨hhead, hfollows⟩ := h
    have hne := List.append_ne_nil_of_right_ne_nil es (List.cons_ne_nil (.packet q) [])
    refine ⟨fun x step hx => hhead x step ((head_snoc hne).symm.trans hx), ?_⟩
    exact follows_closed.resumed (.packet p :: es) q step' t hq hfollows

theorem follows_packet (p : Text) : Follows [.packet p] :=
  follows_closed.other [] (.packet p) follows_nil nofun

section

variable (controllerText : Text) (B : Monitor.Build) (c : Ctl) (inSyscall : Bool)

/-- The packets that are served during a system call. -/
abbrev serving (fuel : Nat) (c' : Ctl) : M Unit := gdbMainLoop controllerText B fuel c' true false

/-- A turn of the loop behind `gdb_getpacket`. -/
abbrev turn (fuel : Nat) (singleStep : Bool) (p : Text) : M Turn :=
  handlePacket (serving controllerText B fuel) fuel c controllerText B inSyscall singleStep p

/-- The target that the packet is for is resumed first, stepped for `s` and as `single_step` says
for `c`. -/
theorem turn_resumes (fuel : Nat) (singleStep : Bool) {p : Text} {w : World} (hp : Resuming p)
    (htarget : hasTarget c w = true) :
    Adding (fun es => (∃ e, es.head? = some e ∧
        IsResume (decide (p.head? = some 0x73) || singleStep) e) ∧ Follows (.packet p :: es)) w.trace
      (final (turn controllerText B c inSyscall fuel singleStep p w)) := by
  obtain ⟨t, hcur, htarget⟩ := (Option.any_eq_true _ _).mp htarget
  obtain ⟨T, hT⟩ := Option.isSome_iff_exists.mp htarget
  let Q (es : List Event) : Prop := (∃ e, es.head? = some e ∧
    IsResume (decide (p.head? = some 0x73) || singleStep) e) ∧ Follows (.packet p :: es)
  have hQ : Closed Q := resumed_closed p _
  have hserving (c' : Ctl) : Keeps (Adding Q w.trace) (serving controllerText B fuel c') :=
    adding_gdbMainLoop hQ controllerText B fuel c' true false
  have hrun : Triple (· = w) (resume (serving controllerText B fuel) fuel c
      (decide (p.head? = some 0x73) || singleStep)) (fun _ => Adding Q w.trace)
      fun _ => Adding Q w.trace := by
    rintro w' rfl
    unfold resume
    rw [bind_ok (show curTarget c w' = .ok (w'.controllers c).curTarget w' from rfl), hcur]
    refine Triple.bind (P := (· = w')) (Triple.discard (Q := fun _ => Adding Q w'.trace) ?_)
      (fun _ => ((adding_frame hQ hserving fuel c).haltReason).bind fun _ => Keeps.pure false) w' rfl
    rintro w rfl
    rw [call_eq _ _ _ hT]
    refine adding_driver hserving t fuel _ ⟨[.operation (.haltResume _) t], rfl, ?_, ?_⟩
    · exact ⟨_, rfl, t, rfl⟩
    · exact follows_closed.resumed [] p _ t hp (follows_packet p)
  rw [turn, handlePacket_resume hp]
  exact (hrun.bind (fun _ => Keeps.pure _) w rfl).final

/-- A packet without a target to resume begins with something else. -/
theorem turn_other (fuel : Nat) (singleStep : Bool) {p : Text} {w : World}
    (h : Resuming p → hasTarget c w = false) :
    Adding (fun es => (∀ e step, es.head? = some e → ¬IsResume step e) ∧
        Follows (.packet p :: es)) w.trace
      (final (turn controllerText B c inSyscall fuel singleStep p w)) := by
  have hQ := other_closed p
  have hserving (c' : Ctl) :
      Keeps (Adding _ w.trace) (gdbMainLoop controllerText B fuel c' true false) :=
    adding_gdbMainLoop hQ controllerText B fuel c' true false
  have F := adding_frame hQ hserving fuel c
  have hstart : Adding (fun es => (∀ e step, es.head? = some e → ¬IsResume step e) ∧
      Follows (.packet p :: es)) w.trace w :=
    ⟨[], (List.append_nil _).symm, nofun, follows_packet p⟩
  by_cases hp : Resuming p
  · have hnone := h hp
    unfold hasTarget at hnone
    rw [turn, handlePacket_resume hp]
    generalize (decide (p.head? = some 0x73) || singleStep) = step
    cases hcur : (w.controllers c).curTarget with
    | none =>
      rw [bind_congr (resume_none hcur)]
      refine Keeps.final ?_ hstart
      exact Keeps.bind ((F.putText "X1D").bind fun _ => Keeps.pure step) fun ss => Keeps.pure _
    | some t =>
      rw [hcur] at hnone
      have hT : w.targets t = none := Option.isSome_eq_false_iff.mp hnone |> Option.isNone_iff_eq_none.mp
      rw [bind_error (resume_gone hcur hT)]
      exact hstart
  · refine Keeps.final ?_ hstart
    rw [turn, handlePacket_other hp]
    exact Keeps.ite (Keeps.pure _) ((F.handleOther controllerText B _ p).bind fun _ => Keeps.pure _)

/-! ## Runs of the loop -/

/-- `single_step` behind a packet that has found a target or not. -/
def nextFlag (singleStep : Bool) (p : Text) (target : Bool) : Bool :=
  if Resuming p ∧ target then false
  else decide (p.head? = some 0x73) || singleStep

/-- From its start in the state `w` the loop has come to its next packet, with the packets so far
and whether each has found a target. -/
inductive Turns (fuel : Nat) (w : World) : List (Text × Bool) → Nat → Bool → World → Prop where
  | start : Turns fuel w [] fuel false w
  | next {L : List (Text × Bool)} {f : Nat} {singleStep ss : Bool} {v v₁ v₂ : World} {p : Text} :
      Turns fuel w L (f + 1) singleStep v → getpacket v = .ok p v₁ →
      turn controllerText B c inSyscall f singleStep p v₁ = .ok (.next ss) v₂ →
      Turns fuel w (L ++ [(p, hasTarget c v₁)]) f ss v₂

/-- The runs are those of `gdb_main_loop`. -/
theorem Turns.loop {fuel f : Nat} {w v : World} {L : List (Text × Bool)} {singleStep : Bool}
    (h : Turns controllerText B c inSyscall fuel w L f singleStep v) :
    gdbMainLoop controllerText B fuel c inSyscall false w =
      gdbMainLoop controllerText B f c inSyscall singleStep v := by
  induction h with
  | start => rfl
  | next hturns hpacket hturn ih => exact ih.trans (gdbMainLoop_next controllerText B hpacket hturn)

/-- An `s` has found no target, and none has been resumed since. -/
def Stale (L : List (Text × Bool)) : Prop :=
  ∃ pre p post, L = pre ++ (p, false) :: post ∧ p.head? = some 0x73 ∧
    ∀ l ∈ post, ¬(Resuming l.1 ∧ l.2 = true)

end

theorem not_stale_nil : ¬Stale [] := by
  rintro ⟨pre, p, post, h, -⟩
  exact List.append_ne_nil_of_right_ne_nil pre (List.cons_ne_nil _ _) h.symm

theorem stale_snoc (L : List (Text × Bool)) (p : Text) (target : Bool) :
    Stale (L ++ [(p, target)]) ↔
      (p.head? = some 0x73 ∧ target = false) ∨ (Stale L ∧ ¬(Resuming p ∧ target = true)) := by
  constructor
  · rintro ⟨pre, q, post, heq, hq, hpost⟩
    rcases snoc_eq_append heq with ⟨-, hlast⟩ | ⟨post', hL⟩
    · obtain ⟨rfl, rfl⟩ := Prod.mk.inj hlast
      exact Or.inl ⟨hq, rfl⟩
    · have hsnoc : post = post' ++ [(p, target)] := by
        rw [hL, List.append_assoc, List.cons_append] at heq
        exact (List.cons.inj (List.append_cancel_left heq)).2.symm
      subst hsnoc
      refine Or.inr ⟨⟨pre, q, post', hL, hq, fun l hl => hpost l (List.mem_append_left _ hl)⟩, ?_⟩
      exact hpost _ (List.mem_append_right _ (List.mem_singleton_self _))
  · rintro (⟨hp, rfl⟩ | ⟨⟨pre, q, post, rfl, hq, hpost⟩, hlast⟩)
    · exact ⟨L, p, [], rfl, hp, nofun⟩
    · refine ⟨pre, q, post ++ [(p, target)], by rw [List.append_assoc, List.cons_append], hq, ?_⟩
      intro l hl
      rcases List.mem_append.mp hl with hl | hl
      · exact hpost l hl
      · rw [List.mem_singleton.mp hl]
        exact hlast

section

variable {controllerText : Text} {B : Monitor.Build} {c : Ctl} {inSyscall : Bool}

/-- A target that has been resumed clears the flag. -/
theorem resume_value {nested : Ctl → M Unit} {fuel : Nat} {step ss : Bool} {w w' : World}
    (h : resume nested fuel c step w = .ok ss w') : ss = if hasTarget c w then false else step := by
  unfold hasTarget
  cases hcur : (w.controllers c).curTarget with
  | none =>
    rw [resume_none hcur] at h
    obtain ⟨_, w₁, -, hpure⟩ := bind_eq_ok h
    cases hpure
    rfl
  | some t =>
    cases hT : w.targets t with
    | none =>
      rw [resume_gone hcur hT] at h
      contradiction
    | some T =>
      unfold resume at h
      rw [bind_ok (show curTarget c w = .ok (w.controllers c).curTarget w from rfl), hcur] at h
      obtain ⟨_, w₁, -, h⟩ := bind_eq_ok h
      obtain ⟨_, w₂, -, hpure⟩ := bind_eq_ok h
      cases hpure
      rw [Option.any_some, hT]
      rfl

theorem turn_flag {fuel : Nat} {singleStep ss : Bool} {p : Text} {w w' : World}
    (h : turn controllerText B c inSyscall fuel singleStep p w = .ok (.next ss) w') :
    ss = nextFlag singleStep p (hasTarget c w) := by
  unfold nextFlag
  by_cases hp : Resuming p
  · rw [turn, handlePacket_resume hp] at h
    obtain ⟨ss', w₁, hresume, hpure⟩ := bind_eq_ok h
    cases hpure
    rw [resume_value hresume]
    cases hasTarget c w <;> simp [hp]
  · rw [turn, handlePacket_other hp] at h
    have hs : p.head? ≠ some 0x73 := fun h => hp (Or.inl h)
    split at h
    · cases h
    · obtain ⟨_, w₁, -, hpure⟩ := bind_eq_ok h
      cases hpure
      simp [hp, hs]

theorem nextFlag_eq_true (singleStep : Bool) (p : Text) (target : Bool) :
    nextFlag singleStep p target = true ↔
      (p.head? = some 0x73 ∧ target = false) ∨
        (singleStep = true ∧ ¬(Resuming p ∧ target = true)) := by
  unfold nextFlag
  cases target with
  | false => simp
  | true =>
    by_cases hp : Resuming p
    · simp [hp]
    · have hs : p.head? ≠ some 0x73 := fun h => hp (Or.inl h)
      simp [hp, hs]

theorem Turns.flag {fuel f : Nat} {w v : World} {L : List (Text × Bool)} {singleStep : Bool}
    (h : Turns controllerText B c inSyscall fuel w L f singleStep v) :
    singleStep = true ↔ Stale L := by
  induction h with
  | start => exact iff_of_false Bool.false_ne_true not_stale_nil
  | next hturns hpacket hturn ih => rw [turn_flag hturn, nextFlag_eq_true, stale_snoc, ← ih]

theorem getpacket_trace {w w₁ : World} {p : Text} (h : getpacket w = .ok p w₁) :
    w₁.trace = w.trace ++ [.packet p] := by
  obtain ⟨a, w', hask, hrecord⟩ := bind_eq_ok h
  have htrace : w'.trace = w.trace := by
    cases hscript : w.script with
    | nil =>
      rw [ask_nil hscript] at hask
      contradiction
    | cons a rest =>
      rw [ask_cons hscript] at hask
      cases hask
      rfl
  cases a with
  | packet q =>
    cases hrecord
    show w'.trace ++ [.packet p] = _
    rw [htrace]
  | _ => contradiction

end

/-! ## A run -/

/-- Where the loop is: the packets so far, the turns that are left, `single_step` and the state. -/
structure Place where
  packets : List (Text × Bool)
  fuel : Nat
  singleStep : Bool
  world : World

section

variable (controllerText : Text) (B : Monitor.Build) (c : Ctl) (inSyscall : Bool)

def takeTurn (x : Place) : Option Place :=
  match x.fuel, getpacket x.world with
  | f + 1, .ok p v =>
    match turn controllerText B c inSyscall f x.singleStep p v with
    | .ok (.next ss) v₂ => some ⟨x.packets ++ [(p, hasTarget c v)], f, ss, v₂⟩
    | _ => none
  | _, _ => none

def takeTurns : Nat → Place → Option Place
  | 0, x => some x
  | n + 1, x => (takeTurn controllerText B c inSyscall x).bind (takeTurns n)

variable {controllerText B c inSyscall}

theorem Turns.takeTurn {fuel : Nat} {w : World} {x y : Place}
    (h : Turns controllerText B c inSyscall fuel w x.packets x.fuel x.singleStep x.world)
    (hturn : takeTurn controllerText B c inSyscall x = some y) :
    Turns controllerText B c inSyscall fuel w y.packets y.fuel y.singleStep y.world := by
  obtain ⟨L, f, singleStep, v⟩ := x
  unfold Session.takeTurn at hturn
  split at hturn
  · rename_i f p v₁ hf hpacket
    obtain rfl : _ = f + 1 := hf
    split at hturn
    · rename_i ss v₂ hnext
      cases hturn
      exact h.next hpacket hnext
    · contradiction
  · contradiction

theorem Turns.takeTurns {fuel : Nat} {w : World} {n : Nat} {x y : Place}
    (h : Turns controllerText B c inSyscall fuel w x.packets x.fuel x.singleStep x.world)
    (hturns : takeTurns controllerText B c inSyscall n x = some y) :
    Turns controllerText B c inSyscall fuel w y.packets y.fuel y.singleStep y.world := by
  induction n generalizing x with
  | zero =>
    cases hturns
    exact h
  | succ n ih =>
    obtain ⟨x', hturn, hrest⟩ := Option.bind_eq_some_iff.mp hturns
    exact ih (h.takeTurn hturn) hrest

end

/-- The next packet of a state, and whether it finds a target. -/
def received (c : Ctl) (w : World) : Option (Text × Bool) :=
  match getpacket w with
  | .ok p v => some (p, hasTarget c v)
  | .error _ _ => none

theorem of_received {c : Ctl} {w : World} {p : Text} {b : Bool} (h : received c w = some (p, b)) :
    ∃ v, getpacket w = .ok p v ∧ hasTarget c v = b := by
  unfold received at h
  split at h
  · rename_i q v hpacket
    obtain ⟨rfl, rfl⟩ := Prod.mk.inj (Option.some.inj h)
    exact ⟨v, hpacket, rfl⟩
  · contradiction

/-- `s` without a target, a scan, `vAttach;1` and `c`. -/
def steppingScript : List Answer :=
  [.packet (ascii "s"), .packet (ascii "qRcmd,73776470"), .block true, .block true, .found [],
    .probed, .scanned 1, .packet (ascii "vAttach;1"), .returned 1, .packet (ascii "c")]

/-- The loop behind so many of its packets. -/
def steppingRun (n : Nat) : Option Place :=
  takeTurns [] ⟨false, false, false, 0, false⟩ .gdbController false n
    ⟨[], 9, false, start steppingScript⟩

/-- `s` is the first packet. -/
def firstPacket : World := final (getpacket (start steppingScript))

end MiyakoLink.Session
