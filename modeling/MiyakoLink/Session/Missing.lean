import MiyakoLink.Session.Attach
import MiyakoLink.Session.Stepping

/-!
# Packets that come without a target

Where the controller has no current target, a packet either checks for one, attaches the last one
first, or does without.

`missing_target`: no NULL pointer is followed, and the packets for a target are refused, if no
target is attached on the way. The packets that `Checked` leaves out follow the pointer unchecked.
-/

namespace MiyakoLink.Session

open Lib

/-- The line of a monitor command. -/
def monitorLine (p : Text) : Option Text :=
  if p.head?.getD 0 = 0x71 ∧ (ascii "qRcmd,").isPrefixOf (cstr p) then
    some (Monitor.rcmdText (p.drop 6))
  else none

/-- The handler of the general table that a line is for. -/
def generalHandler (B : Monitor.Build) (line : Text) : Option Monitor.General :=
  match Monitor.words line with
  | [] => none
  | word :: _ => (Monitor.findCommand word (Monitor.cmdList B)).map Monitor.Command.handler

/-- The packets that are answered without a target: `!`, `D`, `qSupported`, the general commands,
and `F` if a system call waits for it. -/
def Serves (B : Monitor.Build) (inSyscall : Bool) (p : Text) : Prop :=
  p.head?.getD 0 ∈ [(0x21 : UInt8), 0x04, 0x44] ∨ (p.head?.getD 0 = 0x46 ∧ inSyscall) ∨
    (p.head?.getD 0 = 0x71 ∧ (ascii "qSupported").isPrefixOf (cstr p)) ∨
    ∃ line h, monitorLine p = some line ∧ generalHandler B line = some h

/-- Nothing is answered, or an error, the end of a lost or exited program, or the empty packet. -/
def Refused (w w' : World) : Prop :=
  w'.trace = w.trace ∨
    ∃ s ∈ [ascii "EFF", ascii "E01", ascii "X1D", ascii "W00", []],
      w'.trace = w.trace ++ [.reply (.text s)]

/-- No probe function runs before the scan has made a target for it. -/
def NewFirst : List Answer → Prop
  | [] => True
  | .found _ :: _ => True
  | .probed :: _ => False
  | _ :: rest => NewFirst rest

/-- The pool has the two blocks of a monitor command, and a scan makes its targets. -/
structure Provided (p : Text) (script : List Answer) : Prop where
  blocks : ∀ line, monitorLine p = some line → ∃ rest, script = .block true :: .block true :: rest
  newFirst : NewFirst script

section

variable (nested : Ctl → M Unit) (fuel : Nat) (B : Monitor.Build) (own : Ctl) (p : Text)

/-- The packets that check for a target, or for the arguments of a monitor command. -/
structure Checked (w : World) : Prop where
  flashDone : cstr p ≠ ascii "vFlashDone"
  restart : attachSite p = some .restart → ∀ t w', (w.controllers own).lastTarget = some t →
    targetAttach nested fuel t .gdbController w ≠ .ok none w'
  line : ∀ line, monitorLine p = some line →
    Monitor.words line ≠ [] ∧ generalHandler B line ≠ some .haltTimeout

/-- The packet attaches no target: it does not try, or fails and leaves `w₀`. -/
def Unattached (w w₀ : World) : Prop :=
  match attachSite p with
  | none => w₀ = w
  | some (.vAttach n) => targetAttachN nested fuel n .gdbController w = .ok none w₀
  | some _ =>
    match (w.controllers own).lastTarget with
    | none => w₀ = w
    | some t => targetAttach nested fuel t .gdbController w = .ok none w₀

end

/-! ## Programs that follow no NULL pointer -/

/-- The program ends in `Q`, or is left elsewhere than at a NULL pointer. -/
abbrev Sure {α : Type} (P : World → Prop) (m : M α) (Q : α → World → Prop) : Prop :=
  Triple P m Q fun a _ => a ≠ .fault .nullDeref

/-- The run is left elsewhere than at a NULL pointer, if it is. -/
abbrev NoNull {α : Type} (r : EStateM.Result Abort World α) : Prop :=
  Ends (fun _ _ => True) (fun a _ => a ≠ .fault .nullDeref) r

variable {I : World → Prop} {own c : Ctl} {marked : List Ptr} {t : Ptr} {w : World}

theorem NoNull.ne {α : Type} {r : EStateM.Result Abort World α} (h : NoNull r) (w' : World) :
    r ≠ .error (.fault .nullDeref) w' := by
  rintro rfl
  exact h rfl

theorem NoNull.andThen {α β : Type} {m : M α} {f : α → M β} (h : NoNull (m w))
    (hf : ∀ a, Sure (fun _ => True) (f a) fun _ _ => True) : NoNull ((m >>= f) w) := Ends.bind h hf

theorem ask_sure : Sure I ask fun _ _ => True := by
  intro w _
  cases hscript : w.script with
  | nil =>
    rw [ask_nil hscript]
    exact nofun
  | cons a rest =>
    rw [ask_cons hscript]
    trivial

/-- What is kept is kept, and only the faults are left to see. -/
theorem Sure.keeps {α : Type} {m : M α} (h : Sure I m fun _ _ => True) (hm : Keeps I m) :
    Sure I m fun _ => I :=
  (Triple.and hm h).conseq (fun _ hw => ⟨hw, hw⟩) (fun _ _ hQ => hQ.1) fun _ _ hE => hE.2

theorem getTarget_sure (t : Ptr) :
    Sure I (getTarget t) fun T w => I w ∧ w.targets t = some T := by
  intro w h
  cases hT : w.targets t with
  | none =>
    rw [getTarget_gone hT]
    exact nofun
  | some T =>
    rw [getTarget_ok hT]
    exact ⟨h, hT⟩

/-- A target is read, if there is one. -/
theorem check_sure (t : Ptr) : Sure I (discard (getTarget t)) fun _ => I :=
  Triple.discard (Q := fun _ => I) ((getTarget_sure t).post fun _ _ h => h.1)

theorem cmdTargets_sure (c : Ctl) : Sure I (cmdTargets c) fun _ => I := by
  refine Triple.bind (Q := fun _ => I) (fun _ h => h) fun C => ?_
  refine Triple.bind (Q := fun _ => I) ?_ fun _ => Triple.pure fun _ h => h
  exact Triple.forM check_sure _

theorem catching_sure {α : Type} {m : M α} {handler : Exception → M α} {Q : α → World → Prop}
    (h : Sure I m Q) (hh : ∀ e, Sure (fun _ => True) (handler e) Q) : Sure I (catching m handler) Q := by
  refine Triple.tryCatch h fun a => ?_
  cases a with
  | exception e => exact (hh e).pre fun _ _ => trivial
  | fault f => exact Triple.throw fun _ => id
  | nested f => exact Triple.throw fun _ => id

/-- A fault in a nested loop is one of its packets. -/
theorem inner_sure {α : Type} {m : M α} (h : Keeps I m) : Sure I (inner m) fun _ => I := by
  refine Triple.tryCatch h fun a => ?_
  cases a with
  | exception e => exact Triple.throw fun _ _ => nofun
  | fault f => exact Triple.throw fun _ _ => nofun
  | nested f => exact Triple.throw fun _ _ => nofun

theorem targetListFree_sure (c : Ctl) :
    Sure (Inv own marked) (targetListFree c) fun _ => Inv own marked := by
  intro w h
  obtain ⟨w', hfree, hinv, -⟩ := targetListFree_ok h c
  rw [hfree]
  exact hinv

/-- The controller of a marked target is known. -/
theorem getTc_sure (ht : t ∈ marked) :
    Sure (Inv own marked) (getTc t) fun c w => c = own ∧ Inv own marked w := by
  refine (getTarget_sure t).bind fun T => ?_
  rintro w ⟨h, hT⟩
  rw [(h.known t ht).2 T hT]
  exact ⟨rfl, h⟩

section

variable {nested : Ctl → M Unit} (hnested : ∀ marked, Keeps (Inv own marked) (nested own))
include hnested

/-- A connection that is lost frees a list, and packets that are served have faults of their
own. -/
theorem driver_sure (ht : t ∈ marked) (fuel : Nat) :
    Sure (Inv own marked) (driver nested t fuel) fun _ => Inv own marked := by
  induction fuel with
  | zero => exact Triple.throw fun _ _ => nofun
  | succ fuel ih =>
    refine Triple.bind (ask_sure.keeps ask_keeps) fun a => ?_
    cases a with
    | returned v => exact fun _ h => h
    | raised e => exact Triple.throw fun _ _ => nofun
    | lost =>
      refine Triple.bind (getTc_sure ht) fun c => Triple.and_pre fun _ => ?_
      exact (targetListFree_sure c).bind fun _ => ih
    | syscall =>
      refine Triple.bind (getTc_sure ht) fun c => Triple.and_pre fun hc => ?_
      subst hc
      exact (inner_sure (hnested marked)).bind fun _ => ih
    | _ => exact Triple.throw fun _ _ => nofun

theorem call_sure (ht : t ∈ marked) (fuel : Nat) (o : Operation) :
    Sure (Inv own marked) (call nested fuel o (some t)) fun _ => Inv own marked := by
  refine Triple.bind (Q := fun t' w => t' = t ∧ Inv own marked w) (fun _ h => ⟨rfl, h⟩) fun t' =>
    Triple.and_pre fun heq => ?_
  subst heq
  refine Triple.bind (check_sure t') fun _ => ?_
  refine Triple.bind (Q := fun _ => Inv own marked) ?_ fun _ => driver_sure hnested ht fuel
  exact fun w h => h.congr rfl rfl rfl

/-- The target that the controller points to is one that may be called. -/
theorem call_current_sure (fuel : Nat) (o : Operation) :
    Sure (fun w => Inv own marked w ∧ (w.controllers own).curTarget = some t)
      (call nested fuel o (some t)) fun _ => Inv own marked := by
  rintro w ⟨h, hcur⟩
  obtain ⟨-, -, T, hT, htc⟩ := h.names t (Or.inl hcur)
  exact ((call_sure hnested (List.mem_cons_self ..) fuel o).post fun _ _ => Core.unmark) w
    (Core.mark h hT htc)

theorem targetAttach_sure (hstatic : own = .gdbController) (fuel : Nat) (t : Ptr) :
    Sure (Inv own marked) (targetAttach nested fuel t own)
      fun r w => Inv own marked w ∧
        ∀ t', r = some t' → Nameable own (w.controllers own).targetList w t' := by
  have hnull : Sure (Inv own marked) (targetAttach nested fuel t own) fun _ _ => True := by
    refine (getTarget_sure t).bind fun T => ?_
    refine Triple.bind (Q := fun _ w => Inv own marked w ∧ w.targets t = some T) ?_ fun _ => ?_
    · rintro w ⟨h, hT⟩
      unfold forget
      cases T.tc with
      | none => exact ⟨h, hT⟩
      | some c => exact ⟨h.modifyController (shrinks_destroyCallback t) c, hT⟩
    refine Triple.bind (Q := fun _ => Inv own (t :: marked)) ?_ fun _ => ?_
    · rintro w ⟨h, hT⟩
      exact (Core.setTarget h hT (Or.inl rfl)).mark (w.setTarget_self t _) rfl
    refine Triple.bind (call_sure hnested (List.mem_cons_self ..) fuel _) fun ok => ?_
    refine Triple.ite (fun _ _ _ => trivial) fun _ => ?_
    exact (getTarget_sure t).bind fun T' => fun _ _ => trivial
  exact (Triple.and (targetAttach_spec hnested hstatic fuel t) hnull).conseq
    (fun _ h => ⟨h, h⟩) (fun _ _ h => h.1) fun _ _ h => h.2

end

/-! ## Monitor commands -/

theorem NewFirst.tail {a : Answer} {rest : List Answer} (h : NewFirst (a :: rest))
    (hne : ∀ commands, a ≠ .found commands) : NewFirst rest := by
  cases a with
  | found commands => exact absurd rfl (hne commands)
  | probed => exact h.elim
  | _ => exact h

theorem getLast?_sure {L : List Ptr} (h : L ≠ []) : Sure I (deref L.getLast?) fun _ => I := by
  rw [List.getLast?_eq_some_getLast h]
  exact fun _ h => h

/-- A probe function finds the target that the scan has made. -/
theorem probe_sure (fuel : Nat) :
    Sure (fun w => (w.controllers c).targetList ≠ [] ∨ NewFirst w.script) (probe c fuel)
      fun _ _ => True := by
  induction fuel with
  | zero => exact Triple.throw fun _ _ => nofun
  | succ fuel ih =>
    refine Triple.bind (Q := fun a w =>
      (w.controllers c).targetList ≠ [] ∨ NewFirst (a :: w.script)) ?_ fun a => ?_
    · intro w h
      cases hscript : w.script with
      | nil =>
        rw [ask_nil hscript]
        exact nofun
      | cons a rest =>
        rw [ask_cons hscript]
        rwa [hscript] at h
    cases a with
    | found commands =>
      refine Triple.bind (Q := fun _ w => (w.controllers c).targetList ≠ []) ?_ fun _ =>
        ih.pre fun _ => Or.inl
      intro w _
      show ((World.modifyController _ c fun C =>
        { C with targetList := C.targetList ++ [w.next] }).controllers c).targetList ≠ []
      rw [World.modifyController_self]
      exact List.append_ne_nil_of_right_ne_nil _ (List.cons_ne_nil _ _)
    | probed =>
      refine Triple.pre (P := fun w => (w.controllers c).targetList ≠ []) ?_ fun w h =>
        h.elim id fun h => h.elim
      refine Triple.bind (Q := fun C w => C.targetList ≠ [] ∧ (w.controllers c).targetList ≠ [])
        (fun _ h => ⟨h, h⟩) fun C => Triple.and_pre fun hC => ?_
      refine Triple.bind (getLast?_sure hC) fun t => (getTarget_sure t).bind fun T => ?_
      refine Triple.bind (Q := fun _ w => (w.controllers c).targetList ≠ []) ?_ fun _ =>
        ih.pre fun _ => Or.inl
      exact fun _ h => h.1
    | scanned devs => exact fun _ _ => trivial
    | raised e => exact Triple.throw fun _ _ => nofun
    | _ => exact Triple.throw fun _ _ => nofun

theorem script_targetListFree (c : Ctl) (s : List Answer) :
    Keeps (fun w => w.script = s) (targetListFree c) :=
  targetListFree_frame (fun _ _ => Keeps.modify fun _ h => h)
    (fun _ _ => Keeps.modify fun _ h => h) c

theorem cmdScan_sure (fuel : Nat) :
    Sure (fun w => Inv own marked w ∧ NewFirst w.script) (cmdScan fuel own) fun _ _ => True := by
  refine Triple.bind (Q := fun _ _ => True) (catching_sure ?_ fun e _ _ => trivial) fun devs => ?_
  · rintro w ⟨h, hscript⟩
    refine Triple.bind (P := fun w' => Inv own marked w' ∧ w'.script = w.script)
      (Q := fun _ w' => Inv own marked w' ∧ w'.script = w.script) ?_ (fun _ => ?_) w ⟨h, rfl⟩
    · exact ((targetListFree_sure own).and (script_targetListFree own w.script)).conseq
        (fun _ => id) (fun _ _ => id) fun _ _ hE => hE.1
    · exact (probe_sure fuel).pre fun w' h' => Or.inr (h'.2 ▸ hscript)
  · exact Triple.ite (fun _ _ _ => trivial) fun _ => (cmdTargets_sure own).post fun _ _ _ => trivial

/-- What a general handler does without a target. -/
theorem general_sure (fuel : Nat) {h : Monitor.General} (hh : h ≠ .haltTimeout)
    (controllerText : Text) (B : Monitor.Build) (argv : List Monitor.Arg) :
    Sure (fun w => Inv own marked w ∧ NewFirst w.script)
      (general fuel own none h (h.call controllerText B false argv)) fun _ _ => True := by
  cases h with
  | jtagScan => exact cmdScan_sure fuel
  | swdpScan => exact cmdScan_sure fuel
  | targets => exact (cmdTargets_sure own).post fun _ _ _ => trivial
  | hardSrst =>
    exact Triple.bind ((targetListFree_sure own).pre fun _ h => h.1) fun _ _ _ => trivial
  | haltTimeout => exact absurd rfl hh
  | _ => exact fun _ _ => trivial

theorem allocated_block {given : Bool} {rest : List Answer} (hscript : w.script = .block given :: rest) :
    allocated w = .ok given { w with script := rest } := by
  unfold allocated
  rw [bind_ok (ask_cons hscript)]
  rfl

/-- Without a target a line is one for a general handler, or is answered with the empty packet. -/
theorem dispatch_none {H : Type} (controllerText : Text) (B : Monitor.Build) {line : Text}
    (hwords : Monitor.words line ≠ []) :
    Monitor.commandProcess controllerText B true (none : Option (Monitor.Target H)) line =
      (generalHandler B line).elim (.unsupported false) fun h =>
        .general h (h.call controllerText B false
          (.controller :: (Monitor.words line).map Monitor.Arg.word)) := by
  obtain ⟨word, words, hline⟩ := List.exists_cons_of_ne_nil hwords
  unfold Monitor.commandProcess generalHandler
  rw [hline]
  simp only [List.map_cons, List.getElem?_cons_succ, List.getElem?_cons_zero, Monitor.Arg.text]
  cases Monitor.findCommand word (Monitor.cmdList B) with
  | none => rfl
  | some c => rfl

/-- `command_process` without a target. -/
theorem commandProcess_none (nested : Ctl → M Unit) (fuel : Nat) (controllerText : Text)
    (B : Monitor.Build) {line : Text} {rest : List Answer}
    (hcur : (w.controllers c).curTarget = none) (hscript : w.script = .block true :: rest)
    (hwords : Monitor.words line ≠ []) :
    commandProcess nested fuel c controllerText B line w =
      (generalHandler B line).elim (.ok (-1) { w with script := rest }) fun h => (do
        let ok ← general fuel c none h (h.call controllerText B false
          (.controller :: (Monitor.words line).map Monitor.Arg.word))
        pure (if ok then 0 else 1) : M Int) { w with script := rest } := by
  have hget : (get : M World) { w with script := rest } =
    .ok { w with script := rest } { w with script := rest } := rfl
  unfold commandProcess
  rw [bind_ok (allocated_block hscript), bind_ok hget]
  dsimp only
  rw [hcur, Option.map_none, dispatch_none controllerText B hwords]
  cases generalHandler B line with
  | none => rfl
  | some h => rfl

/-! ## Packets that attach a target -/

theorem putText_ok (s : String) (w : World) :
    putText s w = .ok () { w with trace := w.trace ++ [.reply (.text (ascii s))] } := rfl

theorem putText_refused {s : String} (w : World)
    (hs : ascii s ∈ [ascii "EFF", ascii "E01", ascii "X1D", ascii "W00", []]) :
    ∃ w', putText s w = .ok () w' ∧ Refused w w' :=
  ⟨_, putText_ok s w, Or.inr ⟨_, hs, rfl⟩⟩

theorem putText_sure (s : String) : Sure I (putText s) fun _ _ => True := fun _ _ => trivial

theorem setCurTarget_sure (r : Option Ptr) : Sure (fun w => Inv own marked w ∧
      ∀ t', r = some t' → Nameable own (w.controllers own).targetList w t')
    (setCurTarget own r) fun _ w => Inv own marked w ∧ (w.controllers own).curTarget = r := by
  intro w h
  refine ⟨setCurTarget_spec r w h, ?_⟩
  rw [World.modifyController_self]

/-- The current target is `r`. -/
theorem curTarget_sure (r : Option Ptr) :
    Sure (fun w => I w ∧ (w.controllers c).curTarget = r) (curTarget c)
      fun r' w => r' = r ∧ I w ∧ (w.controllers c).curTarget = r :=
  fun _ h => ⟨h.2, h⟩

section

variable {nested : Ctl → M Unit} (hnested : ∀ marked, Keeps (Inv own marked) (nested own))
  (fuel : Nat)
include hnested

theorem targetAttachN_sure (n : Int) :
    Sure (Inv own marked) (targetAttachN nested fuel n .gdbController) fun _ _ => True := by
  intro w h
  cases hnth : nthTarget n 1 (w.controllers .gdbController).targetList with
  | none =>
    rw [targetAttachN_none nested fuel hnth]
    trivial
  | some t =>
    rw [nthTarget_numbered] at hnth
    have hstatic : own = .gdbController := (h.own_of_mem (numbered_mem hnth)).symm
    rw [← nthTarget_numbered] at hnth
    rw [targetAttachN_some nested fuel hnth]
    subst hstatic
    exact (targetAttach_sure hnested rfl fuel t).post (fun _ _ _ => trivial) w h

theorem vAttach_sure (n : Int) : Sure (Inv own marked) (vAttach nested fuel own n) fun _ _ => True := by
  refine Triple.bind (targetAttachN_sure hnested fuel n) fun r => ?_
  refine Triple.bind (Q := fun _ _ => True) (fun _ _ => trivial) fun _ => ?_
  exact Triple.ite (fun _ => putText_sure _) fun _ => putText_sure _

/-- The last target is attached, and what comes behind it follows no NULL pointer, if it is not
reached without a target. -/
theorem attachLast_sure {α : Type} {k : Option Ptr → M α} (h : Inv own marked w)
    (hlast : (w.controllers own).lastTarget = some t)
    (hk : ∀ t', Sure (fun w => Inv own marked w ∧ (w.controllers own).curTarget = some t')
      (k (some t')) fun _ _ => True)
    (hnone : ∀ w', targetAttach nested fuel t .gdbController w = .ok none w' →
      Sure (fun _ => True) (k none) fun _ _ => True) :
    NoNull (attachLast nested fuel own t k w) := by
  obtain ⟨-, hstatic, -⟩ := h.names t (Or.inr hlast)
  subst hstatic
  have hattach := targetAttach_sure hnested rfl fuel t w h
  unfold attachLast
  cases hr : targetAttach nested fuel t .gdbController w with
  | error a w₁ =>
    rw [hr] at hattach
    rw [bind_error hr]
    exact hattach
  | ok r w₁ =>
    rw [hr] at hattach
    rw [bind_ok hr]
    refine Triple.bind (setCurTarget_sure r) (fun _ => ?_) w₁ hattach
    cases r with
    | none => exact (hnone w₁ hr).pre fun _ _ => trivial
    | some t' => exact hk t'

theorem runTarget_sure (t : Ptr) :
    Sure (fun w => Inv own marked w ∧ (w.controllers own).curTarget = some t)
      (runTarget nested fuel own) fun _ _ => True := by
  refine Triple.bind (curTarget_sure (some t)) fun r => Triple.and_pre fun hr => ?_
  subst hr
  refine Triple.bind (Q := fun _ w => Inv own marked w ∧ (w.controllers own).curTarget = some t)
    (fun _ h => h) fun u => Triple.bind (check_sure u) fun _ => ?_
  refine Triple.bind (curTarget_sure (some t)) fun r => Triple.and_pre fun hr => ?_
  subst hr
  exact Triple.bind (Q := fun _ => Inv own marked) (call_current_sure hnested fuel .reset).discard
    fun _ => putText_sure _

theorem readDocument_sure (h : Inv own marked w) (hcur : (w.controllers own).curTarget = none) :
    NoNull (readDocument nested fuel own w) := by
  have hrest : Sure (fun _ => True) (do
      match ← curTarget own with
      | none => putText "E01"
      | some t => do
        discard (getTarget t)
        put .data) fun _ _ => True := by
    refine Triple.bind (Q := fun _ _ => True) (fun _ _ => trivial) fun r => ?_
    cases r with
    | none => exact putText_sure _
    | some t => exact Triple.bind (check_sure t) fun _ _ _ => trivial
  have hattach : NoNull (reattach nested fuel own w) := by
    cases hlast : (w.controllers own).lastTarget with
    | none =>
      rw [reattach_none hcur hlast]
      trivial
    | some t =>
      rw [reattach_last hcur hlast]
      exact attachLast_sure hnested fuel h hlast (fun _ _ _ => trivial) fun _ _ _ _ => trivial
  exact NoNull.andThen hattach fun _ => hrest

theorem vRun_sure (h : Inv own marked w) (hcur : (w.controllers own).curTarget = none) :
    NoNull (vRun nested fuel own w) := by
  cases hlast : (w.controllers own).lastTarget with
  | none =>
    rw [vRun_none hcur hlast]
    trivial
  | some t =>
    rw [vRun_last hcur hlast]
    exact attachLast_sure hnested fuel h hlast (runTarget_sure hnested fuel) fun _ _ => putText_sure _

/-- `R` is sure only where the last target is attached. -/
theorem restart_sure (h : Inv own marked w) (hcur : (w.controllers own).curTarget = none)
    (hok : ∀ t w', (w.controllers own).lastTarget = some t →
      targetAttach nested fuel t .gdbController w ≠ .ok none w') :
    NoNull (restart nested fuel own w) := by
  cases hlast : (w.controllers own).lastTarget with
  | none =>
    rw [restart_none hcur hlast]
    trivial
  | some t =>
    rw [restart_last hcur hlast]
    refine attachLast_sure hnested fuel h hlast (fun t' => ?_) fun w' hw' =>
      absurd hw' (hok t w' hlast)
    refine Triple.bind (curTarget_sure (some t')) fun r => Triple.and_pre fun hr => ?_
    subst hr
    exact ((call_current_sure hnested fuel .reset).post fun _ _ _ => trivial).discard

theorem site_sure (h : Inv own marked w) (hcur : (w.controllers own).curTarget = none) (s : Site)
    (hok : s = .restart → ∀ t w', (w.controllers own).lastTarget = some t →
      targetAttach nested fuel t .gdbController w ≠ .ok none w') :
    NoNull (s.run nested fuel own w) := by
  cases s with
  | vAttach n => exact vAttach_sure hnested fuel n w h
  | restart => exact restart_sure hnested fuel h hcur (hok rfl)
  | vRun => exact vRun_sure hnested fuel h hcur
  | document => exact readDocument_sure hnested fuel h hcur

end

/-! ## Packets that are refused -/

section

variable (nested : Ctl → M Unit) (fuel : Nat) {w₀ : World}

/-- The last target is not attached. -/
theorem attachLast_failed {α : Type} (k : Option Ptr → M α)
    (hfail : targetAttach nested fuel t .gdbController w = .ok none w₀) :
    attachLast nested fuel c t k w =
      k none (w₀.modifyController c fun C => { C with curTarget := none }) := by
  unfold attachLast
  rw [bind_ok hfail]
  rfl

theorem vAttach_failed {n : Int}
    (hfail : targetAttachN nested fuel n .gdbController w = .ok none w₀) :
    ∃ w', vAttach nested fuel c n w = .ok () w' ∧ Refused w₀ w' := by
  unfold vAttach
  rw [bind_ok hfail]
  exact ⟨_, rfl, Or.inr ⟨ascii "E01", by decide, rfl⟩⟩

/-- A document is refused where there is no target. -/
theorem readDocument_refused (h : reattach nested fuel c w = .ok () w₀)
    (hcur : (w₀.controllers c).curTarget = none) :
    ∃ w', readDocument nested fuel c w = .ok () w' ∧ Refused w₀ w' := by
  have hcurTarget : curTarget c w₀ = .ok none w₀ := hcur ▸ rfl
  unfold readDocument
  rw [bind_ok h, bind_ok hcurTarget]
  exact putText_refused w₀ (by decide)

/-- A packet that attaches no target is refused. -/
theorem site_refused {s : Site} (hcur : (w.controllers c).curTarget = none)
    (hsite : attachSite p = some s)
    (hok : s = .restart → ∀ t w', (w.controllers c).lastTarget = some t →
      targetAttach nested fuel t .gdbController w ≠ .ok none w')
    (hunattached : Unattached nested fuel c p w w₀) :
    ∃ w', s.run nested fuel c w = .ok () w' ∧ Refused w₀ w' := by
  unfold Unattached at hunattached
  rw [hsite] at hunattached
  cases s with
  | vAttach n => exact vAttach_failed nested fuel hunattached
  | restart =>
    dsimp only at hunattached
    cases hlast : (w.controllers c).lastTarget with
    | none =>
      rw [hlast] at hunattached
      subst hunattached
      exact ⟨w₀, restart_none hcur hlast, Or.inl rfl⟩
    | some t =>
      rw [hlast] at hunattached
      exact absurd hunattached (hok rfl t w₀ hlast)
  | vRun =>
    dsimp only at hunattached
    show ∃ w', vRun nested fuel c w = .ok () w' ∧ Refused w₀ w'
    cases hlast : (w.controllers c).lastTarget with
    | none =>
      rw [hlast] at hunattached
      subst hunattached
      rw [vRun_none hcur hlast]
      exact putText_refused w₀ (by decide)
    | some t =>
      rw [hlast] at hunattached
      rw [vRun_last hcur hlast, attachLast_failed nested fuel _ hunattached]
      exact ⟨_, rfl, Or.inr ⟨ascii "E01", by decide, rfl⟩⟩
  | document =>
    dsimp only at hunattached
    show ∃ w', readDocument nested fuel c w = .ok () w' ∧ Refused w₀ w'
    cases hlast : (w.controllers c).lastTarget with
    | none =>
      rw [hlast] at hunattached
      subst hunattached
      exact readDocument_refused nested fuel (reattach_none hcur hlast) hcur
    | some t =>
      rw [hlast] at hunattached
      have hattach : reattach nested fuel c w = attachLast nested fuel c t (fun _ => pure ()) w :=
        reattach_last hcur hlast
      rw [attachLast_failed nested fuel _ hunattached] at hattach
      obtain ⟨w', hrun, hrefused⟩ := readDocument_refused nested fuel hattach
        (congrArg Controller.curTarget (World.modifyController_self ..))
      exact ⟨w', hrun, hrefused⟩

/-! ## The other packets -/

variable {controllerText : Text} {B : Monitor.Build} {inSyscall : Bool}

/-- The packets that check for the current target first. -/
theorem guarded_refused {s : String} {k : Ptr → M Unit} {m : M Unit}
    (hcur : (w.controllers c).curTarget = none)
    (hs : ascii s ∈ [ascii "EFF", ascii "E01", ascii "X1D", ascii "W00", []])
    (hm : m = do
      match ← curTarget c with
      | none => putText s
      | some t => k t) :
    ∃ w', m w = .ok () w' ∧ Refused w w' := by
  have hcurTarget : curTarget c w = .ok none w := hcur ▸ rfl
  rw [hm, bind_ok hcurTarget]
  exact putText_refused w hs

theorem vFlashWrite_refused (hcur : (w.controllers c).curTarget = none) :
    ∃ w', vFlashWrite nested fuel c w = .ok () w' ∧ Refused w w' := by
  have hcurTarget : curTarget c w = .ok none w := hcur ▸ rfl
  unfold vFlashWrite
  rw [bind_ok hcurTarget]
  exact ⟨_, rfl, Or.inr ⟨ascii "EFF", by decide, rfl⟩⟩

theorem kill_refused (hcur : (w.controllers c).curTarget = none) :
    ∃ w', kill nested fuel c w = .ok () w' ∧ Refused w w' := by
  have hcurTarget : curTarget c w = .ok none w := hcur ▸ rfl
  unfold kill
  rw [bind_ok hcurTarget]
  exact ⟨w, rfl, Or.inl rfl⟩

theorem handleVPacket_flash (hattach : vAttachNumber (cstr p) = none)
    (hrun : (ascii "vRun").isPrefixOf (cstr p) = false) :
    handleVPacket nested fuel c p =
      if isFlashErase (cstr p) then vFlashErase nested fuel c
      else if isFlashWrite (cstr p) then vFlashWrite nested fuel c
      else if cstr p = ascii "vFlashDone" then vFlashDone nested fuel c
      else putText "" := by
  unfold handleVPacket
  dsimp only
  rw [hattach]
  dsimp only
  rw [hrun, if_neg Bool.false_ne_true]

theorem handleVPacket_refused (hcur : (w.controllers c).curTarget = none)
    (hattach : vAttachNumber (cstr p) = none) (hrun : (ascii "vRun").isPrefixOf (cstr p) = false)
    (hdone : cstr p ≠ ascii "vFlashDone") :
    ∃ w', handleVPacket nested fuel c p w = .ok () w' ∧ Refused w w' := by
  rw [handleVPacket_flash nested fuel hattach hrun]
  by_cases herase : isFlashErase (cstr p)
  · rw [if_pos herase]
    exact guarded_refused hcur (by decide) rfl
  by_cases hwrite : isFlashWrite (cstr p)
  · rw [if_neg herase, if_pos hwrite]
    exact vFlashWrite_refused nested fuel hcur
  · rw [if_neg herase, if_neg hwrite, if_neg hdone]
    exact putText_refused w (by decide)

/-- A line that no general handler takes. -/
theorem rcmd_refused {line : Text} {rest : List Answer} (hcur : (w.controllers c).curTarget = none)
    (hscript : w.script = .block true :: .block true :: rest) (hwords : Monitor.words line ≠ [])
    (hgeneral : generalHandler B line = none) :
    ∃ w', (do
      if ← allocated then do
        let r ← commandProcess nested fuel c controllerText B line
        put (.text (Monitor.rcmdAnswer r))
      else throw (.fault .nullDeref) : M Unit) w = .ok () w' ∧ Refused w w' := by
  have hprocess : commandProcess nested fuel c controllerText B line
      { w with script := .block true :: rest } = .ok (-1) { w with script := rest } := by
    rw [commandProcess_none (w := { w with script := .block true :: rest }) nested fuel
      controllerText B hcur rfl hwords, hgeneral]
    rfl
  rw [bind_ok (allocated_block hscript), if_pos rfl, bind_ok hprocess]
  exact ⟨_, rfl, Or.inr ⟨[], by decide, rfl⟩⟩

theorem attachSite_q (h : attachSite p = none) (hletter : p.head?.getD 0 = 0x71)
    (hrcmd : ¬(ascii "qRcmd,").isPrefixOf (cstr p)) (hsupported : ¬(ascii "qSupported").isPrefixOf (cstr p)) :
    ¬(ascii "qXfer:memory-map:read::").isPrefixOf (cstr p) ∧
      ¬(ascii "qXfer:features:read:target.xml:").isPrefixOf (cstr p) := by
  unfold attachSite at h
  dsimp only at h
  rw [hletter, if_neg (by decide), if_pos rfl, if_neg hrcmd, if_neg hsupported] at h
  constructor
  · intro hmap
    rw [if_pos hmap] at h
    contradiction
  · intro hfeatures
    by_cases hmap : (ascii "qXfer:memory-map:read::").isPrefixOf (cstr p)
    · rw [if_pos hmap] at h
      contradiction
    · rw [if_neg hmap, if_pos hfeatures] at h
      contradiction

theorem attachSite_v (h : attachSite p = none) (hletter : p.head?.getD 0 = 0x76) :
    vAttachNumber (cstr p) = none ∧ (ascii "vRun").isPrefixOf (cstr p) = false := by
  unfold attachSite at h
  dsimp only at h
  rw [hletter, if_neg (by decide), if_neg (by decide), if_pos rfl] at h
  cases hnumber : vAttachNumber (cstr p) with
  | some n =>
    rw [hnumber] at h
    contradiction
  | none =>
    rw [hnumber] at h
    refine ⟨rfl, Bool.eq_false_iff.mpr fun hrun => ?_⟩
    dsimp only at h
    rw [if_pos hrun] at h
    contradiction

theorem handleQPacket_refused (hcur : (w.controllers c).curTarget = none)
    (hsite : attachSite p = none) (hletter : p.head?.getD 0 = 0x71)
    (hserves : ¬Serves B inSyscall p) (hwords : ∀ line, monitorLine p = some line →
      Monitor.words line ≠ []) (hprovided : Provided p w.script) :
    ∃ w', handleQPacket nested fuel c controllerText B p w = .ok () w' ∧ Refused w w' := by
  have hsupported : ¬(ascii "qSupported").isPrefixOf (cstr p) := fun h =>
    hserves (Or.inr (Or.inr (Or.inl ⟨hletter, h⟩)))
  unfold handleQPacket
  by_cases hrcmd : (ascii "qRcmd,").isPrefixOf (cstr p)
  · have hline : monitorLine p = some (Monitor.rcmdText (p.drop 6)) := if_pos ⟨hletter, hrcmd⟩
    obtain ⟨rest, hscript⟩ := hprovided.blocks _ hline
    have hgeneral : generalHandler B (Monitor.rcmdText (p.drop 6)) = none := by
      rw [Option.eq_none_iff_forall_ne_some]
      exact fun h hh => hserves (Or.inr (Or.inr (Or.inr ⟨_, h, hline, hh⟩)))
    rw [if_pos hrcmd]
    exact rcmd_refused nested fuel hcur hscript (hwords _ hline) hgeneral
  obtain ⟨hmap, hfeatures⟩ := attachSite_q hsite hletter hrcmd hsupported
  rw [if_neg hrcmd, if_neg hsupported, if_neg hmap, if_neg hfeatures]
  by_cases hcrc : isCrc (cstr p)
  · rw [if_pos hcrc]
    exact guarded_refused hcur (by decide) rfl
  · rw [if_neg hcrc]
    exact putText_refused w (by decide)

/-- What is neither answered without a target nor attaches one is refused. -/
theorem handleOther_refused (hcur : (w.controllers c).curTarget = none)
    (hsite : attachSite p = none) (hserves : ¬Serves B inSyscall p)
    (hdone : cstr p ≠ ascii "vFlashDone") (hwords : ∀ line, monitorLine p = some line →
      Monitor.words line ≠ []) (hprovided : Provided p w.script) :
    ∃ w', handleOther nested fuel c controllerText B (p.head?.getD 0) p w = .ok () w' ∧
      Refused w w' := by
  have hplain : p.head?.getD 0 ∉ [(0x21 : UInt8), 0x04, 0x44] := fun h => hserves (Or.inl h)
  have hrestart : ¬(p.head?.getD 0 = 0x72 ∨ p.head?.getD 0 = 0x52) := by
    intro h
    unfold attachSite at hsite
    dsimp only at hsite
    rw [if_pos h] at hsite
    contradiction
  simp only [List.mem_cons, List.not_mem_nil, or_false, not_or] at hplain
  unfold handleOther
  by_cases hg : p.head?.getD 0 = 0x67
  · rw [if_pos hg]
    exact guarded_refused hcur (by decide) rfl
  by_cases haccess : p.head?.getD 0 ∈ [(0x6D : UInt8), 0x4D, 0x58, 0x70, 0x50, 0x47, 0x5A, 0x7A]
  · rw [if_neg hg, if_pos haccess]
    exact guarded_refused hcur (by decide) rfl
  by_cases hquestion : p.head?.getD 0 = 0x3F
  · rw [if_neg hg, if_neg haccess, if_pos hquestion]
    exact guarded_refused hcur (by decide) rfl
  rw [if_neg hg, if_neg haccess, if_neg hquestion, if_neg hplain.1,
    if_neg fun h => h.elim hplain.2.1 hplain.2.2, if_neg hrestart]
  by_cases hk : p.head?.getD 0 = 0x6B
  · rw [if_pos hk]
    exact kill_refused nested fuel hcur
  by_cases hq : p.head?.getD 0 = 0x71
  · rw [if_neg hk, if_pos hq]
    exact handleQPacket_refused nested fuel hcur hsite hq hserves hwords hprovided
  by_cases hv : p.head?.getD 0 = 0x76
  · obtain ⟨hattach, hrun⟩ := attachSite_v hsite hv
    rw [if_neg hk, if_neg hq, if_pos hv]
    exact handleVPacket_refused nested fuel hcur hattach hrun hdone
  · rw [if_neg hk, if_neg hq, if_neg hv]
    exact putText_refused w (by decide)

theorem handlePacket_refused (singleStep : Bool) (hcur : (w.controllers c).curTarget = none)
    (hsite : attachSite p = none) (hserves : ¬Serves B inSyscall p)
    (hdone : cstr p ≠ ascii "vFlashDone") (hwords : ∀ line, monitorLine p = some line →
      Monitor.words line ≠ []) (hprovided : Provided p w.script) :
    ∃ ss w', handlePacket nested fuel c controllerText B inSyscall singleStep p w =
      .ok (.next ss) w' ∧ Refused w w' := by
  by_cases hp : Resuming p
  · rw [handlePacket_resume hp, bind_congr (resume_none hcur)]
    exact ⟨_, _, rfl, Or.inr ⟨ascii "X1D", by decide, rfl⟩⟩
  · rw [handlePacket_other hp, if_neg fun h => hserves (Or.inr (Or.inl h))]
    obtain ⟨w', hrun, hrefused⟩ :=
      handleOther_refused nested fuel hcur hsite hserves hdone hwords hprovided
    refine ⟨singleStep, w', ?_, hrefused⟩
    rw [bind_ok hrun]
    rfl

/-- `qRcmd`, with a line for a general handler or for none. -/
theorem rcmd_sure {line : Text} {rest : List Answer} (hinv : Inv own marked w)
    (hcur : (w.controllers own).curTarget = none)
    (hscript : w.script = .block true :: .block true :: rest) (hnew : NewFirst w.script)
    (hline : Monitor.words line ≠ [] ∧ generalHandler B line ≠ some .haltTimeout) :
    NoNull ((do
      if ← allocated then do
        let r ← commandProcess nested fuel own controllerText B line
        put (.text (Monitor.rcmdAnswer r))
      else throw (.fault .nullDeref) : M Unit) w) := by
  have hnew' : NewFirst rest := by
    rw [hscript] at hnew
    exact hnew
  have hprocess : NoNull (commandProcess nested fuel own controllerText B line
      { w with script := .block true :: rest }) := by
    rw [commandProcess_none (w := { w with script := .block true :: rest }) nested fuel
      controllerText B hcur rfl hline.1]
    cases hgeneral : generalHandler B line with
    | none => trivial
    | some h =>
      refine Triple.bind (general_sure fuel (fun hh => hline.2 (hh ▸ hgeneral)) controllerText B _)
        (fun ok => ?_) { w with script := rest } ⟨hinv.congr rfl rfl rfl, hnew'⟩
      exact fun _ _ => trivial
  rw [bind_ok (allocated_block hscript), if_pos rfl]
  exact NoNull.andThen hprocess fun _ _ _ => trivial

theorem handleQPacket_sure (hinv : Inv own marked w) (hcur : (w.controllers own).curTarget = none)
    (hletter : p.head?.getD 0 = 0x71)
    (hserves : (ascii "qSupported").isPrefixOf (cstr p) ∨ (ascii "qRcmd,").isPrefixOf (cstr p))
    (hline : ∀ line, monitorLine p = some line →
      Monitor.words line ≠ [] ∧ generalHandler B line ≠ some .haltTimeout)
    (hprovided : Provided p w.script) :
    NoNull (handleQPacket nested fuel own controllerText B p w) := by
  unfold handleQPacket
  by_cases hrcmd : (ascii "qRcmd,").isPrefixOf (cstr p)
  · have hmonitor : monitorLine p = some (Monitor.rcmdText (p.drop 6)) := if_pos ⟨hletter, hrcmd⟩
    obtain ⟨rest, hscript⟩ := hprovided.blocks _ hmonitor
    rw [if_pos hrcmd]
    exact rcmd_sure nested fuel hinv hcur hscript hprovided.newFirst (hline _ hmonitor)
  · rw [if_neg hrcmd, if_pos (hserves.resolve_right hrcmd)]
    trivial

theorem detach_sure (hcur : (w.controllers c).curTarget = none) : NoNull (detach nested fuel c w) := by
  have hcurTarget : curTarget c w = .ok none w := hcur ▸ rfl
  have hnone : detachCurrent nested fuel c w = .ok () w := by
    unfold detachCurrent
    rw [bind_ok hcurTarget]
    rfl
  unfold detach
  rw [bind_ok hnone]
  trivial

/-- What is answered without a target follows no pointer. -/
theorem serves_sure (singleStep : Bool) (hinv : Inv own marked w)
    (hcur : (w.controllers own).curTarget = none) (hserves : Serves B inSyscall p)
    (hline : ∀ line, monitorLine p = some line →
      Monitor.words line ≠ [] ∧ generalHandler B line ≠ some .haltTimeout)
    (hprovided : Provided p w.script) :
    NoNull (handlePacket nested fuel own controllerText B inSyscall singleStep p w) := by
  have hq (hletter : p.head?.getD 0 = 0x71)
      (h : (ascii "qSupported").isPrefixOf (cstr p) ∨ (ascii "qRcmd,").isPrefixOf (cstr p)) :
      NoNull (handlePacket nested fuel own controllerText B inSyscall singleStep p w) := by
    have hquery : NoNull (handleQPacket nested fuel own controllerText B p w) :=
      handleQPacket_sure nested fuel hinv hcur hletter h hline hprovided
    unfold handlePacket
    rw [hletter]
    exact NoNull.andThen hquery fun _ _ _ => trivial
  rcases hserves with hplain | ⟨hletter, hsyscall⟩ | ⟨hletter, hsupported⟩ | ⟨line, h, hmonitor, -⟩
  · simp only [List.mem_cons, List.not_mem_nil, or_false] at hplain
    unfold handlePacket
    rcases hplain with hletter | hletter | hletter
    · rw [hletter]
      trivial
    · rw [hletter]
      exact NoNull.andThen (detach_sure nested fuel hcur) fun _ _ _ => trivial
    · rw [hletter]
      exact NoNull.andThen (detach_sure nested fuel hcur) fun _ _ _ => trivial
  · unfold handlePacket
    rw [hletter, if_neg (by decide), if_neg (by decide), if_pos ⟨rfl, hsyscall⟩]
    trivial
  · exact hq hletter (Or.inl hsupported)
  · have hrcmd : p.head?.getD 0 = 0x71 ∧ (ascii "qRcmd,").isPrefixOf (cstr p) := by
      unfold monitorLine at hmonitor
      by_contra hnot
      rw [if_neg hnot] at hmonitor
      contradiction
    exact hq hrcmd.1 (Or.inr hrcmd.2)

end

/-! ## The loop -/

/-- A packet comes in any state that is reached, and there is no current target. -/
theorem missing_target {own : Ctl} {w : World} (h : Reached own w)
    (hcur : (w.controllers own).curTarget = none) (controllerText : Text) (B : Monitor.Build)
    (inSyscall singleStep : Bool) (fuel : Nat) (p : Text) (script : List Answer)
    (hprovided : Provided p script)
    (hchecked : Checked (serving controllerText B fuel) fuel B own p { w with script := script }) :
    (∀ w', turn controllerText B own inSyscall fuel singleStep p { w with script := script } ≠
      .error (.fault .nullDeref) w') ∧
    (¬Serves B inSyscall p → ∀ w₀,
      Unattached (serving controllerText B fuel) fuel own p { w with script := script } w₀ →
      ∃ ss w', turn controllerText B own inSyscall fuel singleStep p { w with script := script } =
        .ok (.next ss) w' ∧ Refused w₀ w') := by
  generalize hw : ({ w with script := script } : World) = v at hchecked ⊢
  have hcontrollers : v.controllers = w.controllers := hw ▸ rfl
  have hinv : Inv own [] v := h.inv.congr hcontrollers (hw ▸ rfl) (hw ▸ rfl)
  have hprovided : Provided p v.script := by
    rw [← hw]
    exact hprovided
  rw [← hcontrollers] at hcur
  have hnested : ∀ marked, Keeps (Inv own marked) (serving controllerText B fuel own) :=
    fun marked => gdbMainLoop_keeps controllerText B marked fuel true false
  have hwords : ∀ line, monitorLine p = some line → Monitor.words line ≠ [] :=
    fun line hline => (hchecked.line line hline).1
  unfold turn
  cases hsite : attachSite p with
  | some s =>
    have hrestart : s = .restart → ∀ t w', (v.controllers own).lastTarget = some t →
        targetAttach (serving controllerText B fuel) fuel t .gdbController v ≠ .ok none w' :=
      fun hs => hchecked.restart (hsite.trans (congrArg some hs))
    rw [handlePacket_site hsite]
    constructor
    · apply NoNull.ne
      exact NoNull.andThen (site_sure hnested fuel hinv hcur s hrestart) fun _ _ _ => trivial
    · intro _ w₀ hunattached
      obtain ⟨w', hrun, hrefused⟩ := site_refused _ fuel hcur hsite hrestart hunattached
      refine ⟨singleStep, w', ?_, hrefused⟩
      rw [bind_ok hrun]
      rfl
  | none =>
    have hrefuse (hserves : ¬Serves B inSyscall p) :
        ∃ ss w', handlePacket (serving controllerText B fuel) fuel own controllerText B inSyscall
          singleStep p v = .ok (.next ss) w' ∧ Refused v w' :=
      handlePacket_refused _ fuel singleStep hcur hsite hserves hchecked.flashDone hwords hprovided
    constructor
    · by_cases hserves : Serves B inSyscall p
      · exact (serves_sure _ fuel singleStep hinv hcur hserves hchecked.line hprovided).ne
      · obtain ⟨ss, w', hrun, -⟩ := hrefuse hserves
        rw [hrun]
        exact fun _ => nofun
    · intro hserves w₀ hunattached
      unfold Unattached at hunattached
      rw [hsite] at hunattached
      subst hunattached
      exact hrefuse hserves

/-- `monitor foo`. -/
def unknownCommand : Text := ascii "qRcmd,666f6f"

theorem missing_target_unknown :
    ∃ ss w', turn [] ⟨false, false, false, 0, false⟩ .gdbController false 0 false unknownCommand
      { start [] with script := [.block true, .block true] } = .ok (.next ss) w' ∧
        Refused { start [] with script := [.block true, .block true] } w' := by
  have hprovided : Provided unknownCommand [.block true, .block true] :=
    ⟨fun _ _ => ⟨[], rfl⟩, trivial⟩
  have hmonitor : monitorLine unknownCommand = some (ascii "foo") := by decide
  have hchecked : Checked (serving [] ⟨false, false, false, 0, false⟩ 0) 0
      ⟨false, false, false, 0, false⟩ .gdbController unknownCommand
      { start [] with script := [.block true, .block true] } := by
    constructor
    · decide
    · intro hsite
      exact absurd hsite (by decide)
    · intro line hline
      obtain rfl := Option.some.inj (hmonitor.symm.trans hline)
      decide
  refine (missing_target (w := start []) ⟨[], ⟨false, false, false, 0, false⟩, 0, [], rfl⟩ rfl []
    ⟨false, false, false, 0, false⟩ false false 0 unknownCommand _ hprovided hchecked).2 ?_ _ rfl
  rintro (h | ⟨h, -⟩ | ⟨-, h⟩ | ⟨line, handler, hline, hgeneral⟩)
  · exact absurd h (by decide)
  · exact absurd h (by decide)
  · exact absurd h (by decide)
  · obtain rfl := Option.some.inj (hmonitor.symm.trans hline)
    exact absurd hgeneral (by decide +revert)

/-- `D` is answered with `OK` in any case. -/
theorem detach_answered : ¬∀ (own : Ctl) (w : World) (p : Text) (script : List Answer),
    Reached own w → (w.controllers own).curTarget = none → Provided p script →
    (∀ w', turn [] ⟨false, false, false, 0, false⟩ own false 0 false p { w with script := script } ≠
      .error (.fault .nullDeref) w') ∧
    ∀ w₀, Unattached (serving [] ⟨false, false, false, 0, false⟩ 0) 0 own p
        { w with script := script } w₀ →
      ∃ ss w', turn [] ⟨false, false, false, 0, false⟩ own false 0 false p
        { w with script := script } = .ok (.next ss) w' ∧ Refused w₀ w' := by
  intro h
  have hprovided : Provided (ascii "D") [] := by
    refine ⟨fun line hline => ?_, trivial⟩
    exact absurd hline (by decide +revert)
  obtain ⟨ss, w', hrun, hrefused⟩ := (h .gdbController (start []) (ascii "D") []
    ⟨[], ⟨false, false, false, 0, false⟩, 0, [], rfl⟩ rfl hprovided).2 _ rfl
  have htrace : w'.trace = [.reply (.text (ascii "OK"))] := by
    cases hrun
    rfl
  rcases hrefused with hsame | ⟨s, hs, hanswer⟩
  · rw [htrace] at hsame
    cases hsame
  · rw [htrace] at hanswer
    obtain rfl : ascii "OK" = s := by
      injection hanswer with hreply
      injection hreply with hreply
      injection hreply
    exact absurd hs (by decide)

end MiyakoLink.Session
