import MiyakoLink.Session.Packets

/-!
# What the packets keep

A packet is put together from replies, calls of the target's functions and a few changes of the
controller. What these keep, every packet keeps but those that resume the target.
-/

namespace MiyakoLink.Session

open Lib

variable {I : World → Prop}

/-! ## What is only read -/

theorem controller_keeps (c : Ctl) : Keeps I (controller c) := fun _ h => h

theorem curTarget_keeps (c : Ctl) : Keeps I (curTarget c) := fun _ h => h

theorem deref_keeps (t : Option Ptr) : Keeps I (deref t) := by
  cases t with
  | none => exact Keeps.throw _
  | some t => exact Keeps.pure t

/-- The target is one that is allocated. -/
theorem getTarget_spec (t : Ptr) : Triple I (getTarget t) (fun T w => I w ∧ w.targets t = some T)
    fun _ => I := by
  intro w h
  cases hT : w.targets t with
  | none =>
    rw [getTarget_gone hT]
    exact h
  | some T =>
    rw [getTarget_ok hT]
    exact ⟨h, hT⟩

theorem getTarget_keeps (t : Ptr) : Keeps I (getTarget t) :=
  (getTarget_spec t).post fun _ _ h => h.1

theorem cmdTargets_keeps (c : Ctl) : Keeps I (cmdTargets c) := by
  refine (controller_keeps c).bind fun C => Keeps.bind ?_ fun _ => Keeps.pure true
  exact Keeps.forM (fun t => (getTarget_keeps t).discard) _

theorem inner_keeps {α : Type} {m : M α} (h : Keeps I m) : Keeps I (inner m) := by
  refine Keeps.tryCatch h fun a => ?_
  cases a with
  | fault f => exact Keeps.throw _
  | exception e => exact Keeps.throw _
  | nested f => exact Keeps.throw _

theorem catching_keeps {α : Type} {m : M α} {handler : Exception → M α} (h : Keeps I m)
    (hh : ∀ e, Keeps I (handler e)) : Keeps I (catching m handler) := by
  refine Keeps.tryCatch h fun a => ?_
  cases a with
  | exception e => exact hh e
  | fault f => exact Keeps.throw _
  | nested f => exact Keeps.throw _

theorem getpacket_keeps (hask : Keeps I ask) (hpacket : ∀ p, Keeps I (record (.packet p))) :
    Keeps I getpacket := by
  refine hask.bind fun a => ?_
  cases a with
  | packet p => exact (hpacket p).bind fun _ => Keeps.pure p
  | _ => exact Keeps.throw _

/-! ## Freeing a list -/

section

variable (hset : ∀ t T, Keeps I (setTarget t T)) (hmodify : ∀ c f, Keeps I (modifyController c f))
include hmodify

theorem forget_frame (t : Ptr) (T : Target) : Keeps I (forget t T) := by
  unfold forget
  cases T.tc with
  | none => exact Keeps.pure ()
  | some c => exact hmodify c _

include hset

theorem freeTargets_frame (L : List Ptr) : Keeps I (freeTargets L) := by
  induction L with
  | nil => exact Keeps.pure ()
  | cons t L ih =>
    refine Keeps.bind ?_ fun _ => ih
    refine (getTarget_keeps t).bind fun T => (forget_frame hmodify t T).bind fun _ => ?_
    exact hset t none

/-- What a write to a target and one to a controller keep, freeing a list keeps. -/
theorem targetListFree_frame (c : Ctl) : Keeps I (targetListFree c) :=
  (controller_keeps c).bind fun _ =>
    (freeTargets_frame hset hmodify _).bind fun _ => hmodify c _

end

/-! ## The parts of a packet -/

/-- The parts of the packets keep `I`, in the loop of the controller `c`. -/
structure Frame (I : World → Prop) (nested : Ctl → M Unit) (fuel : Nat) (c : Ctl) : Prop where
  ask : Keeps I ask
  put : ∀ r, Keeps I (put r)
  call : ∀ o t, (∀ step, o ≠ .haltResume step) → Keeps I (call nested fuel o t)
  setFlashMode : ∀ b, Keeps I (setFlashMode c b)
  /-- The current target becomes the last one. -/
  forgetCurrent : Keeps I (do
    setLastTarget c (← curTarget c)
    setCurTarget c none)
  detached : ∀ t, Keeps I (do
    let T ← getTarget t
    setTarget t (some { T with attached := false }))
  attachLast : ∀ t, Triple (fun w => I w ∧ (w.controllers c).lastTarget = some t)
    (do setCurTarget c (← targetAttach nested fuel t .gdbController)) (fun _ => I) fun _ => I
  attachN : ∀ n, Keeps I (do setCurTarget c (← targetAttachN nested fuel n .gdbController))
  general : ∀ t h a, Keeps I (general fuel c t h a)

namespace Frame

variable {nested : Ctl → M Unit} {fuel : Nat} {c : Ctl} (F : Frame I nested fuel c)
include F

theorem putText (s : String) : Keeps I (putText s) := F.put _

theorem call_discard (o : Operation) (t : Option Ptr) (ho : ∀ step, o ≠ .haltResume step) :
    Keeps I (discard (Session.call nested fuel o t)) := (F.call o t ho).discard

theorem allocated : Keeps I allocated := by
  refine F.ask.bind fun a => ?_
  cases a with
  | block given => exact Keeps.pure given
  | _ => exact Keeps.throw _

theorem commandProcess (controllerText : Text) (B : Monitor.Build) (cmd : Text) :
    Keeps I (commandProcess nested fuel c controllerText B cmd) := by
  refine F.allocated.bind fun given => Keeps.bind (fun _ h => h) fun w => ?_
  dsimp only
  cases Monitor.commandProcess controllerText B given ((w.controllers c).curTarget.map w.tables)
      cmd with
  | undefined => exact Keeps.throw _
  | general h a => exact (F.general _ h a).bind fun ok => Keeps.pure _
  | specific h argv misread => exact (F.call .command _ nofun).bind fun ok => Keeps.pure _
  | unsupported misread =>
    cases (w.controllers c).curTarget with
    | none => exact Keeps.pure _
    | some t => exact (getTarget_keeps t).discard.bind fun _ => Keeps.pure _

/-- What comes behind an attached target does not matter here. -/
theorem attachLast_then {α : Type} {t : Ptr} {k : Option Ptr → M α} (hk : ∀ r, Keeps I (k r)) :
    Triple (fun w => I w ∧ (w.controllers c).lastTarget = some t)
      (Session.attachLast nested fuel c t k) (fun _ => I) fun _ => I := by
  intro w h
  have hattach := F.attachLast t w h
  show Ends _ _ (((targetAttach nested fuel t .gdbController) >>= fun r =>
    setCurTarget c r >>= fun _ => k r) w)
  cases hr : targetAttach nested fuel t .gdbController w with
  | error e w₁ =>
    rw [bind_error hr] at hattach ⊢
    exact hattach
  | ok r w₁ =>
    rw [bind_ok hr] at hattach ⊢
    exact hk r _ hattach

theorem vAttach (n : Int) : Keeps I (vAttach nested fuel c n) := by
  intro w h
  have hattach := F.attachN n w h
  unfold Session.vAttach
  cases hr : targetAttachN nested fuel n .gdbController w with
  | error e w₁ =>
    rw [bind_error hr] at hattach ⊢
    exact hattach
  | ok r w₁ =>
    rw [bind_ok hr] at hattach ⊢
    exact Keeps.ite (F.putText _) (F.putText _) _ hattach

theorem reattach : Keeps I (reattach nested fuel c) := by
  intro w h
  cases hcur : (w.controllers c).curTarget with
  | some t =>
    rw [reattach_attached hcur]
    exact h
  | none =>
    cases hlast : (w.controllers c).lastTarget with
    | none =>
      rw [reattach_none hcur hlast]
      exact h
    | some t =>
      rw [reattach_last hcur hlast]
      exact F.attachLast_then (fun _ => Keeps.pure ()) w ⟨h, hlast⟩

theorem readDocument : Keeps I (readDocument nested fuel c) := by
  refine F.reattach.bind fun _ => (curTarget_keeps c).bind fun t => ?_
  cases t with
  | none => exact F.putText _
  | some t => exact (getTarget_keeps t).discard.bind fun _ => F.put _

theorem handleQPacket (controllerText : Text) (B : Monitor.Build) (p : Text) :
    Keeps I (handleQPacket nested fuel c controllerText B p) := by
  refine Keeps.ite ?_ (Keeps.ite ?_ (Keeps.ite ?_ (Keeps.ite ?_ (Keeps.ite ?_ ?_))))
  · refine F.allocated.bind fun given => Keeps.ite ?_ (Keeps.throw _)
    exact (F.commandProcess controllerText B _).bind fun r => F.put _
  · exact F.putText _
  · exact F.readDocument
  · exact F.readDocument
  · refine (curTarget_keeps c).bind fun t => ?_
    cases t with
    | none => exact F.putText _
    | some t => exact (F.call .crc _ nofun).bind fun res => Keeps.ite (F.put _) (F.putText _)
  · exact F.putText _

theorem runTarget : Keeps I (runTarget nested fuel c) := by
  refine (curTarget_keeps c).bind fun t => (deref_keeps t).bind fun t => ?_
  refine (getTarget_keeps t).discard.bind fun _ => (curTarget_keeps c).bind fun t => ?_
  exact (F.call_discard .reset t nofun).bind fun _ => F.putText _

theorem vRun : Keeps I (vRun nested fuel c) := by
  intro w h
  cases hcur : (w.controllers c).curTarget with
  | some t =>
    rw [vRun_attached hcur]
    exact F.runTarget w h
  | none =>
    cases hlast : (w.controllers c).lastTarget with
    | none =>
      rw [vRun_none hcur hlast]
      exact F.putText _ w h
    | some t =>
      rw [vRun_last hcur hlast]
      exact F.attachLast_then (fun r => Keeps.ite F.runTarget (F.putText _)) w ⟨h, hlast⟩

theorem enterFlashMode (t : Ptr) : Keeps I (enterFlashMode nested fuel c t) := by
  refine (controller_keeps c).bind fun C => Keeps.ite (Keeps.pure ()) ?_
  exact (F.call_discard .reset _ nofun).bind fun _ => F.setFlashMode true

/-- What the flash commands answer where they fail. -/
theorem refused : Keeps I (do
    Session.setFlashMode c false
    Session.putText "EFF") := (F.setFlashMode false).bind fun _ => F.putText _

theorem vFlashErase : Keeps I (vFlashErase nested fuel c) := by
  refine (curTarget_keeps c).bind fun t => ?_
  cases t with
  | none => exact F.putText _
  | some t =>
    refine (F.enterFlashMode t).bind fun _ => (curTarget_keeps c).bind fun t => ?_
    exact (F.call .flashErase t nofun).bind fun ret => Keeps.ite (F.putText _) F.refused

theorem vFlashWrite : Keeps I (vFlashWrite nested fuel c) := by
  refine (curTarget_keeps c).bind fun t => ?_
  cases t with
  | none => exact F.refused
  | some t => exact (F.call .flashWrite _ nofun).bind fun ret => Keeps.ite (F.putText _) F.refused

theorem vFlashDone : Keeps I (vFlashDone nested fuel c) := by
  refine (curTarget_keeps c).bind fun t => (F.call .flashDone t nofun).bind fun ret => ?_
  exact (F.putText _).bind fun _ => F.setFlashMode false

theorem handleVPacket (p : Text) : Keeps I (handleVPacket nested fuel c p) := by
  unfold Session.handleVPacket
  dsimp only
  cases vAttachNumber (cstr p) with
  | some n => exact F.vAttach n
  | none =>
    refine Keeps.ite F.vRun (Keeps.ite F.vFlashErase (Keeps.ite F.vFlashWrite ?_))
    exact Keeps.ite F.vFlashDone (F.putText _)

theorem readRegisters : Keeps I (readRegisters nested fuel c) := by
  refine (curTarget_keeps c).bind fun t => ?_
  cases t with
  | none => exact F.putText _
  | some t => exact (F.call_discard .regsRead _ nofun).bind fun _ => F.put _

theorem accessPacket : Keeps I (accessPacket nested fuel c) := by
  refine (curTarget_keeps c).bind fun t => ?_
  cases t with
  | none => exact F.putText _
  | some t =>
    refine F.ask.bind fun a => ?_
    cases a with
    | access h =>
      exact (Keeps.forM (fun o => F.call_discard (.access o) _ nofun) _).bind fun _ => F.put _
    | _ => exact Keeps.throw _

theorem interrupt (k : UInt8) : Keeps I (interrupt nested fuel c k) := by
  refine Keeps.ite ?_ (Keeps.pure ())
  exact (curTarget_keeps c).bind fun t => F.call_discard .haltRequest t nofun

theorem waitForHalt (turns : Nat) : Keeps I (waitForHalt nested fuel c turns) := by
  induction turns with
  | zero => exact Keeps.throw _
  | succ turns ih =>
    refine (curTarget_keeps c).bind fun t => (F.call .haltPoll t nofun).bind fun reason => ?_
    refine Keeps.ite (Keeps.pure reason) (F.ask.bind fun a => ?_)
    cases a with
    | key k => exact (F.interrupt k).bind fun _ => ih
    | _ => exact Keeps.throw _

theorem haltReason : Keeps I (haltReason nested fuel c) := by
  refine (curTarget_keeps c).bind fun t => ?_
  cases t with
  | none => exact F.putText _
  | some t => exact (F.waitForHalt fuel).bind fun reason => F.put _

theorem targetDetach (t : Option Ptr) : Keeps I (targetDetach nested fuel t) := by
  exact (F.call_discard .detach t nofun).bind fun _ => (deref_keeps t).bind fun t => F.detached t

theorem detach : Keeps I (detach nested fuel c) := by
  refine Keeps.bind ?_ fun _ w h => F.putText "OK" _ (F.forgetCurrent w h)
  refine (curTarget_keeps c).bind fun t => ?_
  cases t with
  | none => exact Keeps.pure ()
  | some t => exact F.targetDetach (some t)

theorem kill : Keeps I (kill nested fuel c) := by
  refine (curTarget_keeps c).bind fun t => ?_
  cases t with
  | none => exact Keeps.pure ()
  | some t =>
    refine (F.call_discard .reset _ nofun).bind fun _ => (curTarget_keeps c).bind fun t => ?_
    exact (F.targetDetach t).bind fun _ => F.forgetCurrent

theorem restart : Keeps I (restart nested fuel c) := by
  intro w h
  cases hcur : (w.controllers c).curTarget with
  | some t =>
    rw [restart_attached hcur]
    exact F.call_discard .reset _ nofun w h
  | none =>
    cases hlast : (w.controllers c).lastTarget with
    | none =>
      rw [restart_none hcur hlast]
      exact h
    | some t =>
      rw [restart_last hcur hlast]
      refine F.attachLast_then (fun r => ?_) w ⟨h, hlast⟩
      exact (curTarget_keeps c).bind fun t => F.call_discard .reset t nofun

/-- Every packet that does not resume the target keeps `I`. -/
theorem handleOther (controllerText : Text) (B : Monitor.Build) (letter : UInt8) (p : Text) :
    Keeps I (handleOther nested fuel c controllerText B letter p) := by
  refine Keeps.ite F.readRegisters (Keeps.ite F.accessPacket (Keeps.ite F.haltReason ?_))
  refine Keeps.ite (F.putText _) (Keeps.ite F.detach (Keeps.ite F.kill (Keeps.ite F.restart ?_)))
  exact Keeps.ite (F.handleQPacket controllerText B p) (Keeps.ite (F.handleVPacket p) (F.putText _))

theorem handlePacket (hresume : ∀ step, Keeps I (resume nested fuel c step))
    (controllerText : Text) (B : Monitor.Build) (inSyscall singleStep : Bool) (p : Text) :
    Keeps I (handlePacket nested fuel c controllerText B inSyscall singleStep p) := by
  refine Keeps.ite ?_ (Keeps.ite ?_ (Keeps.ite (Keeps.pure _) ?_))
  · exact (hresume true).bind fun _ => Keeps.pure _
  · exact (hresume singleStep).bind fun _ => Keeps.pure _
  · exact (F.handleOther controllerText B _ p).bind fun _ => Keeps.pure _

end Frame

end MiyakoLink.Session
