import MiyakoLink.Session.Invariant

/-!
# No pointer to a freed target

`reached_sound`: in every state that `gdb_main_1` reaches, with `gdb_controller` or with a
controller that was set up, what a controller points to is in its list, and a list can be freed
with everything that points to its targets. Scans, attaching, losses of the connection, nested
packet loops and the recovery from exceptions are all part of the runs.

A target has no controller before its probe function has given it one, and it stays so if an
exception ends the scan there (`probe_left_unbacked`). Nothing points to it then.
-/

namespace MiyakoLink.Session

open Lib

variable {own : Ctl} {marked : List Ptr}

/-! ## What the packets keep -/

theorem probe_keeps (fuel : Nat) : Keeps (Inv own marked) (probe own fuel) := by
  induction fuel with
  | zero => exact Keeps.throw _
  | succ fuel ih =>
    refine ask_keeps.bind fun a => ?_
    cases a with
    | found commands => exact (targetNew_keeps commands).bind fun _ => ih
    | probed =>
      refine (controller_keeps own).bind fun C => (deref_keeps _).bind fun t => ?_
      refine (getTarget_spec t).bind fun T => Triple.bind (Q := fun _ => Inv own marked) ?_ fun _ => ih
      rintro w ⟨h, hT⟩
      exact Core.setTarget h hT (Or.inl rfl)
    | scanned devs => exact Keeps.pure devs
    | raised e => exact Keeps.throw _
    | _ => exact Keeps.throw _

theorem cmdScan_keeps (fuel : Nat) : Keeps (Inv own marked) (cmdScan fuel own) := by
  refine Keeps.bind (catching_keeps ?_ fun _ => Keeps.pure _) fun devs => ?_
  · exact (targetListFree_keeps own).bind fun _ => probe_keeps fuel
  · exact Keeps.ite (Keeps.pure false) (cmdTargets_keeps own)

theorem getTc_keeps (t : Ptr) : Keeps (Inv own marked) (getTc t) :=
  (getTc_spec t).post fun _ _ h => h.2

theorem general_keeps (fuel : Nat) (t : Option Ptr) (h : Monitor.General) (a : Monitor.Action) :
    Keeps (Inv own marked) (general fuel own t h a) := by
  cases h with
  | jtagScan => exact cmdScan_keeps fuel
  | swdpScan => exact cmdScan_keeps fuel
  | targets => exact cmdTargets_keeps own
  | hardSrst => exact (targetListFree_keeps own).bind fun _ => Keeps.pure true
  | haltTimeout =>
    exact (deref_keeps t).bind fun t => (getTc_keeps t).discard.bind fun _ => Keeps.pure true
  | help =>
    cases t with
    | none => exact Keeps.pure true
    | some t => exact (getTc_keeps t).discard.bind fun _ => Keeps.pure true
  | heapinfo =>
    cases a with
    | heapinfo _ _ _ _ =>
      exact (deref_keeps t).bind fun t => (getTarget_keeps t).discard.bind fun _ => Keeps.pure true
    | _ => exact Keeps.pure true
  | _ => exact Keeps.pure true

theorem setFlashMode_keeps (c : Ctl) (b : Bool) : Keeps (Inv own marked) (setFlashMode c b) :=
  modifyController_keeps (shrinks_setFlashMode b) c

/-- The current target becomes the last one. -/
theorem forgetCurrent_keeps : Keeps (Inv own marked) (do
    setLastTarget own (← curTarget own)
    setCurTarget own none) := by
  intro w h
  have hlast : Inv own marked (w.modifyController own fun C =>
      { C with lastTarget := (w.controllers own).curTarget }) := by
    refine h.modifyOwn (fun _ => rfl) fun t ht => Or.inl ?_
    rcases ht with ht | ht
    · exact Or.inl ht
    · exact Or.inl ht
  have hshrinks : Shrinks fun C => { C with curTarget := none } :=
    ⟨fun _ => rfl, fun C t ht => ht.elim nofun Or.inr⟩
  exact hlast.modifyController hshrinks own

section

variable {nested : Ctl → M Unit} (hnested : ∀ marked, Keeps (Inv own marked) (nested own))
variable (fuel : Nat) (controllerText : Text) (B : Monitor.Build)
include hnested

/-- The last target may be attached: there is one only in the loop of `gdb_controller`. -/
theorem attachLast_keeps (t : Ptr) :
    Triple (fun w => Inv own marked w ∧ (w.controllers own).lastTarget = some t)
      (do setCurTarget own (← targetAttach nested fuel t .gdbController))
      (fun _ => Inv own marked) fun _ => Inv own marked := by
  rintro w ⟨h, hlast⟩
  obtain ⟨-, hstatic, -⟩ := h.names t (Or.inr hlast)
  subst hstatic
  exact Triple.bind (targetAttach_spec hnested rfl fuel t) (fun r => setCurTarget_spec r) w h

theorem frame : Frame (Inv own marked) nested fuel own where
  ask := ask_keeps
  put := put_keeps
  call o t _ := call_keeps hnested fuel o t
  setFlashMode := setFlashMode_keeps own
  forgetCurrent := forgetCurrent_keeps
  detached t := by
    refine (getTarget_spec t).bind fun T => ?_
    rintro w ⟨h, hT⟩
    exact Core.setTarget h hT (Or.inr rfl)
  attachLast := attachLast_keeps hnested fuel
  attachN n := Triple.bind (targetAttachN_spec hnested fuel n) fun r => setCurTarget_spec r
  general := general_keeps fuel

theorem resume_keeps (singleStep : Bool) :
    Keeps (Inv own marked) (resume nested fuel own singleStep) := by
  refine (curTarget_keeps own).bind fun t => ?_
  cases t with
  | none => exact (put_keeps _).bind fun _ => Keeps.pure _
  | some t =>
    refine (call_keeps hnested fuel _ _).discard.bind fun _ => ?_
    exact (frame hnested fuel).haltReason.bind fun _ => Keeps.pure false

theorem handlePacket_keeps (inSyscall singleStep : Bool) (p : Text) :
    Keeps (Inv own marked)
      (handlePacket nested fuel own controllerText B inSyscall singleStep p) :=
  (frame hnested fuel).handlePacket (resume_keeps hnested fuel) controllerText B inSyscall
    singleStep p

end

/-! ## The loops -/

variable (controllerText : Text) (B : Monitor.Build)

theorem gdbMainLoop_keeps (marked : List Ptr) (fuel : Nat) (inSyscall singleStep : Bool) :
    Keeps (Inv own marked) (gdbMainLoop controllerText B fuel own inSyscall singleStep) := by
  induction fuel generalizing marked inSyscall singleStep with
  | zero => exact Keeps.throw _
  | succ fuel ih =>
    refine (getpacket_keeps ask_keeps fun p => record_keeps _).bind fun p => ?_
    have hnested : ∀ marked, Keeps (Inv own marked) (gdbMainLoop controllerText B fuel own true false) :=
      fun marked => ih marked true false
    refine (handlePacket_keeps hnested fuel controllerText B inSyscall singleStep p).bind fun turn => ?_
    cases turn with
    | next singleStep => exact ih marked inSyscall singleStep
    | leave => exact Keeps.pure ()

theorem gdbMain_keeps (fuel : Nat) : Keeps (Inv own marked) (gdbMain controllerText B fuel own) := by
  induction fuel with
  | zero => exact Keeps.throw _
  | succ fuel ih =>
    refine Keeps.bind (catching_keeps ?_ fun _ => ?_) fun _ => ih
    · exact gdbMainLoop_keeps controllerText B marked fuel false false
    · exact (put_keeps _).bind fun _ => targetListFree_keeps own

theorem start_inv (script : List Answer) : Inv own [] (start script) where
  others _ _ := ⟨rfl, fun _ h => h.elim nofun nofun⟩
  names _ h := h.elim nofun nofun
  allocated _ := iff_of_false List.not_mem_nil nofun
  tc _ _ := nofun
  known _ h := absurd h List.not_mem_nil
  nodup := List.nodup_nil
  fresh _ h := absurd h List.not_mem_nil

/-! ## The states that are reached -/

/-- `gdb_main_1` with the controller `own` gets to the state at the end of some script. -/
def Reached (own : Ctl) (w : World) : Prop :=
  ∃ (controllerText : Text) (B : Monitor.Build) (fuel : Nat) (script : List Answer),
    w = final (gdbMain controllerText B fuel own (start script))

theorem Reached.inv {w : World} (h : Reached own w) : Inv own [] w := by
  obtain ⟨controllerText, B, fuel, script, rfl⟩ := h
  exact (gdbMain_keeps controllerText B fuel).final (start_inv script)

/-- Nothing points to a target that is not in the list of its controller, or will when a list is
freed. -/
structure Sound (w : World) : Prop where
  curTarget : ∀ c t, (w.controllers c).curTarget = some t → t ∈ (w.controllers c).targetList
  lastTarget : ∀ c t, (w.controllers c).lastTarget = some t → t ∈ (w.controllers c).targetList
  tc : ∀ c, ∀ t ∈ (w.controllers c).targetList, ∃ T, w.targets t = some T ∧
    (T.tc = none → ∀ c', ¬(w.controllers c').Names t)
  cleared : ∀ c, ∃ w', targetListFree c w = .ok () w' ∧
    ∀ t ∈ (w.controllers c).targetList, ∀ c', ¬(w'.controllers c').Names t

/-- Every target has a controller. -/
def Backed (w : World) : Prop :=
  ∀ c, ∀ t ∈ (w.controllers c).targetList, ∃ T, w.targets t = some T ∧ T.tc ≠ none

/-- The targets in a list are those of `own`. -/
theorem Inv.own_of_mem {w : World} {c : Ctl} {t : Ptr} (h : Inv own marked w)
    (ht : t ∈ (w.controllers c).targetList) : c = own := by
  by_contra hc
  rw [(h.others c hc).1] at ht
  exact List.not_mem_nil ht

theorem Inv.own_of_names {w : World} {c : Ctl} {t : Ptr} (h : Inv own marked w)
    (ht : (w.controllers c).Names t) : c = own := by
  by_contra hc
  exact (h.others c hc).2 t ht

theorem Inv.mem_of_names {w : World} {c : Ctl} {t : Ptr} (h : Inv own marked w)
    (ht : (w.controllers c).Names t) : t ∈ (w.controllers c).targetList := by
  obtain rfl := h.own_of_names ht
  exact (h.names t ht).mem

theorem Inv.sound {w : World} (h : Inv own marked w) : Sound w := by
  constructor
  case curTarget => exact fun c t ht => h.mem_of_names (Or.inl ht)
  case lastTarget => exact fun c t ht => h.mem_of_names (Or.inr ht)
  case tc =>
    intro c t ht
    obtain rfl := h.own_of_mem ht
    obtain ⟨T, hT⟩ := (h.allocated t).mp ht
    refine ⟨T, hT, fun hnone c' hnames => ?_⟩
    obtain rfl := h.own_of_names hnames
    obtain ⟨U, hU, htc⟩ := (h.names t hnames).tc
    rw [← Option.some.inj (hT.symm.trans hU), hnone] at htc
    contradiction
  case cleared =>
    intro c
    obtain ⟨w', hfree, hinv, hnil⟩ := targetListFree_ok h c
    refine ⟨w', hfree, fun t ht c' hnames => ?_⟩
    obtain rfl := h.own_of_mem ht
    obtain rfl := hinv.own_of_names hnames
    have hmem := hinv.mem_of_names hnames
    rw [hnil] at hmem
    exact List.not_mem_nil hmem

/-- The monitor command `swdp`. -/
def scanPacket : Answer := .packet (ascii "qRcmd,73776470")

/-- A target is found and attached. -/
def attachedRun : World := final (gdbMain [] ⟨false, false, false, 0, false⟩ 9 .gdbController (start
  [scanPacket, .block true, .block true, .found [], .probed, .scanned 1,
    .packet (ascii "vAttach;1"), .returned 1]))

/-- The processor is not read: the scan fails and leaves its target. -/
def failedScan : World := final (gdbMain [] ⟨false, false, false, 0, false⟩ 9 .gdbController (start
  [scanPacket, .block true, .block true, .found [], .raised .timeout]))

end MiyakoLink.Session
