import MiyakoLink.Session.Pointers

/-!
# Which target a packet attaches

`vAttach;n`, `R`, `vRun` and the requests for documents attach a target. In the loop of a
controller they should attach the target of that controller, and leave the controller in `tc`
(`Right`). All four name `gdb_controller`.

`attaches_iff`: on every other controller a number of its list is refused that should be attached;
`R` answers nothing, and follows a NULL pointer, where the target is not attached. An exception of
the driver leaves the packet, and `gdb_main_1` answers another error.
-/

namespace MiyakoLink.Session

open Lib

/-- The packets that attach a target. -/
inductive Site where
  | vAttach (n : Int)
  | restart
  | vRun
  | document
  deriving DecidableEq

/-- Which of them a packet is. -/
def attachSite (p : Text) : Option Site :=
  let s := cstr p
  let letter := p.head?.getD 0
  if letter = 0x72 ∨ letter = 0x52 then some .restart
  else if letter = 0x71 then
    if (ascii "qRcmd,").isPrefixOf s then none
    else if (ascii "qSupported").isPrefixOf s then none
    else if (ascii "qXfer:memory-map:read::").isPrefixOf s then some .document
    else if (ascii "qXfer:features:read:target.xml:").isPrefixOf s then some .document
    else none
  else if letter = 0x76 then
    match vAttachNumber s with
    | some n => some (.vAttach n)
    | none => if (ascii "vRun").isPrefixOf s then some .vRun else none
  else none

/-- How the function of the driver ends that attaches the target. -/
inductive Outcome where
  | returned (v : Int)
  | raised (e : Exception)
  deriving DecidableEq

namespace Outcome

def answer : Outcome → Answer
  | returned v => .returned v
  | raised e => .raised e

def Returns : Outcome → Prop
  | returned _ => True
  | raised _ => False

/-- `target_attach` takes everything but 0 for success. -/
def Succeeds : Outcome → Prop
  | returned v => v ≠ 0
  | raised _ => False

instance : DecidablePred Succeeds
  | returned v => inferInstanceAs (Decidable (v ≠ 0))
  | raised _ => inferInstanceAs (Decidable False)

end Outcome

/-- The target that has the number in `monitor targets`. -/
def numbered (targets : List Ptr) (n : Int) : Option Ptr :=
  if 1 ≤ n then targets[(n - 1).toNat]? else none

namespace Site

/-- The packet attaches a target at once, or if there is only a last one. -/
def Applies (C : Controller) : Site → Prop
  | vAttach _ => True
  | _ => C.curTarget = none ∧ C.lastTarget ≠ none

/-- The target that is asked for. -/
def wanted (C : Controller) : Site → Option Ptr
  | vAttach n => numbered C.targetList n
  | _ => C.lastTarget

/-- The packet does what it should. -/
def Served (own : Ctl) (C : Controller) (o : Outcome) : Site → Prop
  | vAttach n => numbered C.targetList n = none ∨
      if own = .gdbController then o.Returns else ¬o.Succeeds
  | restart => o.Succeeds
  | _ => o.Returns

def run (nested : Ctl → M Unit) (fuel : Nat) (c : Ctl) : Site → M Unit
  | vAttach n => Session.vAttach nested fuel c n
  | restart => Session.restart nested fuel c
  | vRun => Session.vRun nested fuel c
  | document => readDocument nested fuel c

end Site

/-- The target is the current one of the controller, and has it as its own. -/
structure Attached (c : Ctl) (t : Ptr) (w : World) : Prop where
  curTarget : (w.controllers c).curTarget = some t
  tc : ∃ T, w.targets t = some T ∧ T.tc = some c

/-- The target that is wanted is attached if the driver succeeds, and all else is answered with an
error. -/
def Right (c : Ctl) (wanted : Option Ptr) (o : Outcome) (r : EStateM.Result Abort World Turn) :
    Prop :=
  ∃ turn w, r = .ok turn w ∧ ((o.Succeeds ∧ ∃ t, wanted = some t ∧ Attached c t w) ∨
    ((¬o.Succeeds ∨ wanted = none) ∧ w.trace.getLast? = some (.reply (.text (ascii "E01")))))

/-! ## The numbers -/

theorem nthTarget_eq (n : Int) (i : Nat) (targets : List Ptr) :
    nthTarget n i targets = if (i : Int) ≤ n then targets[(n - i).toNat]? else none := by
  induction targets generalizing i with
  | nil =>
    rw [nthTarget, List.getElem?_nil, ite_self]
  | cons t targets ih =>
    rw [nthTarget]
    by_cases heq : (i : Int) = n
    · rw [if_pos heq, if_pos (Int.le_of_eq heq), ← heq, Int.sub_self]
      rfl
    · rw [if_neg heq]
      have hsucc := ih (i + 1)
      rw [Int.natCast_add, Int.natCast_one] at hsucc
      rw [hsucc]
      by_cases hle : (i : Int) ≤ n
      · have hidx : (n - i).toNat = (n - (i + 1)).toNat + 1 := by omega
        rw [if_pos hle, if_pos (by omega), hidx, List.getElem?_cons_succ]
      · rw [if_neg hle, if_neg (by omega)]

theorem nthTarget_numbered (n : Int) (targets : List Ptr) :
    nthTarget n 1 targets = numbered targets n := nthTarget_eq n 1 targets

theorem numbered_mem {targets : List Ptr} {n : Int} {t : Ptr} (h : numbered targets n = some t) :
    t ∈ targets := by
  unfold numbered at h
  split at h
  · exact List.mem_of_getElem? h
  · contradiction

/-! ## A packet is one of the sites -/

theorem handlePacket_site {nested : Ctl → M Unit} {fuel : Nat} {c : Ctl} {controllerText : Text}
    {B : Monitor.Build} {inSyscall singleStep : Bool} {p : Text} {s : Site}
    (h : attachSite p = some s) :
    handlePacket nested fuel c controllerText B inSyscall singleStep p = (do
      s.run nested fuel c
      pure (.next singleStep)) := by
  unfold attachSite at h
  unfold handlePacket handleOther
  dsimp only at h ⊢
  generalize p.head?.getD 0 = letter at h ⊢
  split at h
  case isTrue hrestart =>
    obtain rfl := Option.some.inj h
    rcases hrestart with rfl | rfl
    · rfl
    · rfl
  split at h
  case isTrue hq =>
    subst hq
    show (do
      handleQPacket nested fuel c controllerText B p
      pure (Turn.next singleStep)) = _
    unfold handleQPacket
    dsimp only
    split at h
    case isTrue => contradiction
    case isFalse hrcmd =>
      rw [if_neg hrcmd]
      split at h
      case isTrue => contradiction
      case isFalse hsupported =>
        rw [if_neg hsupported]
        split at h
        case isTrue hmap =>
          obtain rfl := Option.some.inj h
          rw [if_pos hmap]
          rfl
        case isFalse hmap =>
          rw [if_neg hmap]
          split at h
          case isTrue hfeatures =>
            obtain rfl := Option.some.inj h
            rw [if_pos hfeatures]
            rfl
          case isFalse => contradiction
  split at h
  case isTrue hv =>
    subst hv
    show (do
      handleVPacket nested fuel c p
      pure (Turn.next singleStep)) = _
    unfold handleVPacket
    dsimp only
    cases hnumber : vAttachNumber (cstr p) with
    | some n =>
      rw [hnumber] at h
      obtain rfl := Option.some.inj h
      rfl
    | none =>
      rw [hnumber] at h
      dsimp only at h ⊢
      split at h
      case isTrue hrun =>
        obtain rfl := Option.some.inj h
        rw [if_pos hrun]
        rfl
      case isFalse => contradiction
  case isFalse => contradiction

/-! ## A driver that ends -/

section

variable (nested : Ctl → M Unit) (fuel : Nat) {c : Ctl} {w : World} {t : Ptr} {T : Target} {v : Int}
  {e : Exception} {rest : List Answer}

/-- Behind a call whose driver has ended, with the rest of the script. -/
def World.called (w : World) (o : Operation) (t : Ptr) (rest : List Answer) : World :=
  { w with script := rest, trace := w.trace ++ [.operation o t] }

theorem call_returned (o : Operation) (hT : w.targets t = some T)
    (hscript : w.script = .returned v :: rest) :
    call nested (fuel + 1) o (some t) w = .ok v (w.called o t rest) := by
  have hask : ask { w with trace := w.trace ++ [.operation o t] } =
      .ok (.returned v) (w.called o t rest) := ask_cons hscript
  rw [call_eq nested _ o hT]
  unfold driver
  rw [bind_ok hask]
  rfl

theorem call_raised (o : Operation) (hT : w.targets t = some T)
    (hscript : w.script = .raised e :: rest) :
    call nested (fuel + 1) o (some t) w = .error (.exception e) (w.called o t rest) := by
  have hask : ask { w with trace := w.trace ++ [.operation o t] } =
      .ok (.raised e) (w.called o t rest) := ask_cons hscript
  rw [call_eq nested _ o hT]
  unfold driver
  rw [bind_ok hask]
  rfl

theorem forget_ok (t : Ptr) (T : Target) (w : World) :
    ∃ w', forget t T w = .ok () w' ∧ w'.targets = w.targets ∧ w'.script = w.script := by
  unfold forget
  cases T.tc with
  | none => exact ⟨w, rfl, rfl, rfl⟩
  | some c => exact ⟨_, rfl, rfl, rfl⟩

/-- The target has the controller that is named, and is the result if the driver returns something
else than 0. -/
theorem targetAttach_returned (hT : w.targets t = some T)
    (hscript : w.script = .returned v :: rest) :
    ∃ w' T', targetAttach nested (fuel + 1) t c w = .ok (if v = 0 then none else some t) w' ∧
      w'.script = rest ∧ w'.targets t = some T' ∧ T'.tc = some c := by
  obtain ⟨w₁, hforget, -, hscript₁⟩ := forget_ok t T w
  have hself := w₁.setTarget_self t (some { T with tc := some c })
  have hset : setTarget t (some { T with tc := some c }) w₁ =
      .ok () (w₁.setTarget t (some { T with tc := some c })) := rfl
  have hcall := call_returned nested fuel .attach hself (hscript₁.trans hscript)
  unfold targetAttach
  rw [bind_ok (getTarget_ok hT), bind_ok hforget, bind_ok hset, bind_ok hcall]
  by_cases hv : v = 0
  · rw [if_pos hv, if_pos hv]
    exact ⟨_, _, rfl, rfl, hself, rfl⟩
  · have hget : getTarget t ((w₁.setTarget t (some { T with tc := some c })).called .attach t rest) =
        .ok { T with tc := some c }
          ((w₁.setTarget t (some { T with tc := some c })).called .attach t rest) := getTarget_ok hself
    rw [if_neg hv, if_neg hv, bind_ok hget]
    exact ⟨_, _, rfl, rfl, World.setTarget_self .., rfl⟩

theorem targetAttach_raised (hT : w.targets t = some T) (hscript : w.script = .raised e :: rest) :
    ∃ w', targetAttach nested (fuel + 1) t c w = .error (.exception e) w' := by
  obtain ⟨w₁, hforget, -, hscript₁⟩ := forget_ok t T w
  have hself := w₁.setTarget_self t (some { T with tc := some c })
  have hset : setTarget t (some { T with tc := some c }) w₁ =
      .ok () (w₁.setTarget t (some { T with tc := some c })) := rfl
  have hcall := call_raised nested fuel .attach hself (hscript₁.trans hscript)
  unfold targetAttach
  rw [bind_ok (getTarget_ok hT), bind_ok hforget, bind_ok hset, bind_error hcall]
  exact ⟨_, rfl⟩

/-- The same, with what comes behind it where the target becomes the current one. -/
theorem attach_then {α : Type} (k : Option Ptr → M α) (hT : w.targets t = some T)
    (hscript : w.script = .returned v :: rest) :
    ∃ w' T', attachLast nested (fuel + 1) c t k w = k (if v = 0 then none else some t) w' ∧
      w'.script = rest ∧ (w'.controllers c).curTarget = (if v = 0 then none else some t) ∧
      w'.targets t = some T' ∧ T'.tc = some .gdbController := by
  obtain ⟨w₁, T', hattach, hscript₁, hT', htc⟩ :=
    targetAttach_returned nested fuel (c := .gdbController) hT hscript
  refine ⟨w₁.modifyController c fun C => { C with curTarget := if v = 0 then none else some t }, T',
    ?_, hscript₁, ?_, hT', htc⟩
  · unfold attachLast
    rw [bind_ok hattach]
    rfl
  · rw [World.modifyController_self]

theorem attach_raised {α : Type} (k : Option Ptr → M α) (hT : w.targets t = some T)
    (hscript : w.script = .raised e :: rest) :
    ∃ w', attachLast nested (fuel + 1) c t k w = .error (.exception e) w' := by
  obtain ⟨w₁, hattach⟩ := targetAttach_raised nested fuel (c := .gdbController) hT hscript
  exact ⟨w₁, bind_error hattach⟩

end

/-! ## What is right -/

section

variable {c : Ctl} {wanted : Option Ptr} {o : Outcome} {turn : Turn} {w : World} {t : Ptr}

theorem right_refused (hcur : (w.controllers c).curTarget = none)
    (hlast : w.trace.getLast? = some (.reply (.text (ascii "E01")))) :
    Right c wanted o (.ok turn w) ↔ ¬o.Succeeds ∨ wanted = none := by
  constructor
  · rintro ⟨turn', w', heq, ⟨-, t, -, hattached⟩ | ⟨hrefused, -⟩⟩
    · cases heq
      have hsome := hattached.curTarget
      rw [hcur] at hsome
      contradiction
    · exact hrefused
  · exact fun hrefused => ⟨turn, w, rfl, Or.inr ⟨hrefused, hlast⟩⟩

theorem right_attached (ho : o.Succeeds) (h : Attached c t w) : Right c (some t) o (.ok turn w) :=
  ⟨turn, w, rfl, Or.inl ⟨ho, t, rfl, h⟩⟩

theorem not_right_error (a : Abort) : ¬Right c wanted o (.error a w) := by
  rintro ⟨turn, w', heq, -⟩
  cases heq

/-- A reply ends the packet. -/
theorem putText_last (s : String) (w : World) :
    ∃ w', putText s w = .ok () w' ∧ w'.controllers = w.controllers ∧ w'.targets = w.targets ∧
      w'.trace.getLast? = some (.reply (.text (ascii s))) :=
  ⟨_, rfl, rfl, rfl, List.getLast?_concat⟩

/-- An exception leaves the packet. -/
theorem not_right_raised {m : M Unit} {singleStep : Bool} {a : Abort} {w' : World}
    (h : m w = .error a w') :
    ¬Right c wanted o ((do
      m
      pure (Turn.next singleStep)) w) := by
  rw [bind_error h]
  exact not_right_error a

end

/-! ## The sites -/

section

variable (nested : Ctl → M Unit) (fuel : Nat) (singleStep : Bool) {own : Ctl} {w : World} {t : Ptr}
  {v v' : Int} {e : Exception} {o : Outcome} {rest : List Answer}

/-- The target is looked for in the list of `gdb_controller`. -/
theorem vAttach_some {n : Int}
    (h : nthTarget n 1 (w.controllers .gdbController).targetList = some t) :
    vAttach nested fuel own n w = attachLast nested fuel own t (fun r =>
      if r.isSome then putText "T05" else putText "E01") w :=
  bind_congr (targetAttachN_some nested fuel h)

/-- Where `gdb_controller` has no such target, the answer is an error. -/
theorem vAttach_refused {n : Int}
    (hnone : nthTarget n 1 (w.controllers .gdbController).targetList = none) :
    Right own (numbered (w.controllers own).targetList n) o ((do
      vAttach nested fuel own n
      pure (Turn.next singleStep)) w) ↔
    ¬o.Succeeds ∨ numbered (w.controllers own).targetList n = none := by
  let w₁ := w.modifyController own fun C => { C with curTarget := none }
  obtain ⟨w', hput, hcontrollers, -, hlast⟩ := putText_last "E01" w₁
  have hattach : vAttach nested fuel own n w = .ok () w' := by
    unfold vAttach
    rw [bind_ok (targetAttachN_none nested fuel hnone)]
    exact hput
  rw [bind_ok hattach]
  refine right_refused ?_ hlast
  rw [hcontrollers, World.modifyController_self]

theorem vAttach_right (h : Inv own [] w) (hscript : w.script = o.answer :: rest) (n : Int) :
    Right own (numbered (w.controllers own).targetList n) o ((do
      vAttach nested (fuel + 1) own n
      pure (Turn.next singleStep)) w) ↔
    (Site.vAttach n).Served own (w.controllers own) o := by
  by_cases hstatic : own = .gdbController
  · subst hstatic
    unfold Site.Served
    rw [if_pos rfl]
    cases hnumber : numbered (w.controllers .gdbController).targetList n with
    | none =>
      refine iff_of_true ?_ (Or.inl hnumber)
      have hnth := (nthTarget_numbered n _).trans hnumber
      exact hnumber ▸ (vAttach_refused nested _ singleStep hnth).mpr (Or.inr hnumber)
    | some t =>
      obtain ⟨T, hT⟩ := (h.allocated t).mp (numbered_mem hnumber)
      have hvAttach : vAttach nested (fuel + 1) .gdbController _ _ = _ :=
        vAttach_some nested (fuel + 1) ((nthTarget_numbered n _).trans hnumber)
      cases o with
      | raised e =>
        obtain ⟨w', hraised⟩ := attach_raised nested fuel (c := .gdbController)
          (fun t => if t.isSome then putText "T05" else putText "E01") hT hscript
        refine iff_of_false (not_right_raised (hvAttach.trans hraised)) ?_
        rintro (hnone | hreturns)
        · rw [hnumber] at hnone
          contradiction
        · exact hreturns
      | returned v =>
        refine iff_of_true ?_ (Or.inr trivial)
        obtain ⟨w₁, T', hattach, -, hcur, hT', htc⟩ := attach_then nested fuel
          (c := .gdbController) (fun t => if t.isSome then putText "T05" else putText "E01") hT hscript
        have hrun := hvAttach.trans hattach
        by_cases hv : v = 0
        · obtain ⟨w', hput, hcontrollers, -, hlast⟩ := putText_last "E01" w₁
          rw [if_pos hv] at hrun hcur
          rw [bind_ok (hrun.trans hput)]
          exact (right_refused (hcontrollers ▸ hcur) hlast).mpr (Or.inl fun hne => hne hv)
        · obtain ⟨w', hput, hcontrollers, htargets, -⟩ := putText_last "T05" w₁
          rw [if_neg hv] at hrun hcur
          rw [bind_ok (hrun.trans hput)]
          exact right_attached hv ⟨hcontrollers ▸ hcur, T', htargets ▸ hT', htc⟩
  · have hnone : nthTarget n 1 (w.controllers .gdbController).targetList = none := by
      rw [(h.others .gdbController fun heq => hstatic heq.symm).1]
      rfl
    unfold Site.Served
    rw [if_neg hstatic, vAttach_refused nested _ singleStep hnone]
    exact or_comm

/-- The last target of a controller is attached: what comes of the packet. -/
theorem attachLast_then (h : Inv own [] w) (hlast : (w.controllers own).lastTarget = some t)
    (hscript : w.script = .returned v :: rest) (k : Option Ptr → M Unit) :
    ∃ w₁ T', attachLast nested (fuel + 1) own t k w = k (if v = 0 then none else some t) w₁ ∧ w₁.script = rest ∧
      (w₁.controllers own).curTarget = (if v = 0 then none else some t) ∧
      w₁.targets t = some T' ∧ T'.tc = some own := by
  obtain ⟨-, hstatic, T, hT, -⟩ := h.names t (Or.inr hlast)
  subst hstatic
  exact attach_then nested fuel k hT hscript

theorem attachLast_raised (h : Inv own [] w) (hlast : (w.controllers own).lastTarget = some t)
    (hscript : w.script = .raised e :: rest) (k : Option Ptr → M Unit) :
    ∃ w', attachLast nested (fuel + 1) own t k w = .error (.exception e) w' := by
  obtain ⟨-, -, T, hT, -⟩ := h.names t (Or.inr hlast)
  exact attach_raised nested fuel k hT hscript

theorem document_right (h : Inv own [] w) (hcur : (w.controllers own).curTarget = none)
    (hlast : (w.controllers own).lastTarget = some t) (hscript : w.script = o.answer :: rest) :
    Right own (some t) o ((do
      readDocument nested (fuel + 1) own
      pure (Turn.next singleStep)) w) ↔ o.Returns := by
  have hreattach : reattach nested (fuel + 1) own w =
      attachLast nested (fuel + 1) own t (fun _ => pure ()) w := reattach_last hcur hlast
  cases o with
  | raised e =>
    obtain ⟨w', hraised⟩ := attachLast_raised nested fuel h hlast hscript fun _ => pure ()
    exact iff_of_false (not_right_raised (bind_error (hreattach.trans hraised))) id
  | returned v =>
    refine iff_of_true ?_ trivial
    obtain ⟨w₁, T', hattach, -, hcur₁, hT', htc⟩ :=
      attachLast_then nested fuel h hlast hscript fun _ => pure ()
    have hok : reattach nested (fuel + 1) own w = .ok () w₁ := hreattach.trans hattach
    have hget : curTarget own w₁ = .ok (w₁.controllers own).curTarget w₁ := rfl
    by_cases hv : v = 0
    · obtain ⟨w', hput, hcontrollers, -, hend⟩ := putText_last "E01" w₁
      rw [if_pos hv] at hcur₁
      have hrun : readDocument nested (fuel + 1) own w = .ok () w' := by
        unfold readDocument
        rw [bind_ok hok, bind_ok hget, hcur₁]
        exact hput
      rw [bind_ok hrun]
      exact (right_refused (hcontrollers ▸ hcur₁) hend).mpr (Or.inl fun hne => hne hv)
    · rw [if_neg hv] at hcur₁
      have hrun : readDocument nested (fuel + 1) own w =
          .ok () { w₁ with trace := w₁.trace ++ [.reply .data] } := by
        have htarget : (discard (getTarget t) : M Unit) w₁ = .ok () w₁ := by
          show EStateM.map (Function.const Target PUnit.unit) (getTarget t) w₁ = _
          rw [EStateM.map, getTarget_ok hT']
        unfold readDocument
        rw [bind_ok hok, bind_ok hget, hcur₁]
        exact bind_ok htarget
      rw [bind_ok hrun]
      exact right_attached hv ⟨hcur₁, T', hT', htc⟩

theorem restart_right (h : Inv own [] w) (hcur : (w.controllers own).curTarget = none)
    (hlast : (w.controllers own).lastTarget = some t)
    (hscript : w.script = o.answer :: .returned v' :: rest) :
    Right own (some t) o ((do
      restart nested (fuel + 1) own
      pure (Turn.next singleStep)) w) ↔ o.Succeeds := by
  let k (_ : Option Ptr) : M Unit := do discard (call nested (fuel + 1) .reset (← curTarget own))
  have hrestart : restart nested (fuel + 1) own w = attachLast nested (fuel + 1) own t k w :=
    restart_last hcur hlast
  cases o with
  | raised e =>
    obtain ⟨w', hraised⟩ := attachLast_raised nested fuel h hlast hscript k
    exact iff_of_false (not_right_raised (hrestart.trans hraised)) id
  | returned v =>
    obtain ⟨w₁, T', hattach, hscript₁, hcur₁, hT', htc⟩ := attachLast_then nested fuel h hlast hscript k
    have hok : restart nested (fuel + 1) own w =
        (do discard (call nested (fuel + 1) .reset (← curTarget own)) : M Unit) w₁ :=
      hrestart.trans hattach
    have hget : curTarget own w₁ = .ok (w₁.controllers own).curTarget w₁ := rfl
    by_cases hv : v = 0
    · refine iff_of_false ?_ fun hne => hne hv
      rw [if_pos hv] at hcur₁
      -- There is no target, and the packet resets it.
      have hnull : restart nested (fuel + 1) own w = .error (.fault .nullDeref) w₁ := by
        rw [hok, bind_ok hget, hcur₁]
        rfl
      exact not_right_raised hnull
    · refine iff_of_true ?_ hv
      rw [if_neg hv] at hcur₁
      have hrun : restart nested (fuel + 1) own w = .ok () (w₁.called .reset t rest) := by
        rw [hok, bind_ok hget, hcur₁]
        show EStateM.map _ (call nested (fuel + 1) .reset (some t)) w₁ = _
        rw [EStateM.map, call_returned nested fuel .reset hT' hscript₁]
      rw [bind_ok hrun]
      exact right_attached hv ⟨hcur₁, T', hT', htc⟩

theorem vRun_right (h : Inv own [] w) (hcur : (w.controllers own).curTarget = none)
    (hlast : (w.controllers own).lastTarget = some t)
    (hscript : w.script = o.answer :: .returned v' :: rest) :
    Right own (some t) o ((do
      vRun nested (fuel + 1) own
      pure (Turn.next singleStep)) w) ↔ o.Returns := by
  let k (t : Option Ptr) : M Unit :=
    if t.isSome then runTarget nested (fuel + 1) own else putText "E01"
  have hvRun : vRun nested (fuel + 1) own w = attachLast nested (fuel + 1) own t k w :=
    vRun_last hcur hlast
  cases o with
  | raised e =>
    obtain ⟨w', hraised⟩ := attachLast_raised nested fuel h hlast hscript k
    exact iff_of_false (not_right_raised (hvRun.trans hraised)) id
  | returned v =>
    refine iff_of_true ?_ trivial
    obtain ⟨w₁, T', hattach, hscript₁, hcur₁, hT', htc⟩ := attachLast_then nested fuel h hlast hscript k
    have hok := hvRun.trans hattach
    by_cases hv : v = 0
    · obtain ⟨w', hput, hcontrollers, -, hend⟩ := putText_last "E01" w₁
      rw [if_pos hv] at hok hcur₁
      rw [bind_ok (hok.trans hput)]
      exact (right_refused (hcontrollers ▸ hcur₁) hend).mpr (Or.inl fun hne => hne hv)
    · rw [if_neg hv] at hok hcur₁
      obtain ⟨w', hput, hcontrollers, htargets, -⟩ := putText_last "T05" (w₁.called .reset t rest)
      have hrun : runTarget nested (fuel + 1) own w₁ = .ok () w' := by
        have hget : curTarget own w₁ = .ok (some t) w₁ := congrArg (EStateM.Result.ok · w₁) hcur₁
        have hderef : deref (some t) w₁ = .ok t w₁ := rfl
        have htarget : (discard (getTarget t) : M Unit) w₁ = .ok () w₁ := by
          show EStateM.map (Function.const Target PUnit.unit) (getTarget t) w₁ = _
          rw [EStateM.map, getTarget_ok hT']
        have hreset : (discard (call nested (fuel + 1) .reset (some t)) : M Unit) w₁ =
            .ok () (w₁.called .reset t rest) := by
          show EStateM.map (Function.const Int PUnit.unit) (call nested (fuel + 1) .reset (some t)) w₁ =
            _
          rw [EStateM.map, call_returned nested fuel .reset hT' hscript₁]
        unfold runTarget
        rw [bind_ok hget, bind_ok hderef, bind_ok htarget, bind_ok hget, bind_ok hreset]
        exact hput
      rw [bind_ok (hok.trans hrun)]
      exact right_attached hv ⟨hcontrollers ▸ hcur₁, T', htargets ▸ hT', htc⟩

end

/-! ## The packets -/

/-- The packet comes in any state that is reached, and the driver ends with `o` if it is called. -/
theorem attaches_iff {own : Ctl} {w : World} (h : Reached own w) (nested : Ctl → M Unit) (fuel : Nat)
    (controllerText : Text) (B : Monitor.Build) (inSyscall singleStep : Bool) {p : Text} {s : Site}
    (hsite : attachSite p = some s) (happ : s.Applies (w.controllers own)) (o : Outcome) (v' : Int)
    (rest : List Answer) :
    Right own (s.wanted (w.controllers own)) o
      (handlePacket nested (fuel + 1) own controllerText B inSyscall singleStep p
        { w with script := o.answer :: .returned v' :: rest }) ↔
    s.Served own (w.controllers own) o := by
  rw [handlePacket_site hsite]
  generalize hw : ({ w with script := o.answer :: .returned v' :: rest } : World) = w'
  have hcontrollers : w'.controllers = w.controllers := hw ▸ rfl
  have hscript : w'.script = o.answer :: .returned v' :: rest := hw ▸ rfl
  have hinv : Inv own [] w' := h.inv.congr hcontrollers (hw ▸ rfl) (hw ▸ rfl)
  rw [← hcontrollers] at happ ⊢
  cases s with
  | vAttach n => exact vAttach_right nested fuel singleStep hinv hscript n
  | restart =>
    obtain ⟨hcur, hlast⟩ := happ
    obtain ⟨t, hlast⟩ := Option.ne_none_iff_exists'.mp hlast
    unfold Site.wanted
    rw [hlast]
    exact restart_right nested fuel singleStep hinv hcur hlast hscript
  | vRun =>
    obtain ⟨hcur, hlast⟩ := happ
    obtain ⟨t, hlast⟩ := Option.ne_none_iff_exists'.mp hlast
    unfold Site.wanted
    rw [hlast]
    exact vRun_right nested fuel singleStep hinv hcur hlast hscript
  | document =>
    obtain ⟨hcur, hlast⟩ := happ
    obtain ⟨t, hlast⟩ := Option.ne_none_iff_exists'.mp hlast
    unfold Site.wanted
    rw [hlast]
    exact document_right nested fuel singleStep hinv hcur hlast hscript

/-- A scan finds a target through the controller `own`. -/
def scannedRun (own : Ctl) : World := final (gdbMain [] ⟨false, false, false, 0, false⟩ 9 own (start
  [scanPacket, .block true, .block true, .found [], .probed, .scanned 1]))

theorem scannedRun_reached (own : Ctl) : Reached own (scannedRun own) := ⟨[], _, 9, _, rfl⟩

/-- The first target of a list is attached, without packets on the way. -/
def attachFirst (own : Ctl) : EStateM.Result Abort World Turn :=
  handlePacket (fun _ => pure ()) 1 own [] ⟨false, false, false, 0, false⟩ false false
    (ascii "vAttach;1") { scannedRun own with script := [.returned 1, .returned 0] }

theorem attaches_static : Right .gdbController (some 0) (.returned 1) (attachFirst .gdbController) := by
  have hlist : ((scannedRun .gdbController).controllers .gdbController).targetList = [0] := by
    decide +kernel
  have hiff := attaches_iff (scannedRun_reached .gdbController) (fun _ => pure ()) 0 []
    ⟨false, false, false, 0, false⟩ false false (p := ascii "vAttach;1") (s := .vAttach 1)
    (by decide) trivial (.returned 1) 0 []
  unfold Site.wanted Site.Served at hiff
  rw [hlist] at hiff
  exact hiff.mpr (Or.inr trivial)

/-- The loop of another controller does not attach what it has found. -/
theorem initialised_refuses : ¬∀ (own : Ctl) (w : World) (p : Text) (s : Site) (o : Outcome),
    Reached own w → attachSite p = some s → s.Applies (w.controllers own) →
    Right own (s.wanted (w.controllers own)) o
      (handlePacket (fun _ => pure ()) 1 own [] ⟨false, false, false, 0, false⟩ false false p
        { w with script := [o.answer, .returned 0] }) := by
  intro h
  have hlist : ((scannedRun (.initialised 0)).controllers (.initialised 0)).targetList = [0] := by
    decide +kernel
  have hright := h (.initialised 0) _ (ascii "vAttach;1") (.vAttach 1) (.returned 1)
    (scannedRun_reached _) (by decide) trivial
  unfold Site.wanted at hright
  rw [hlist] at hright
  obtain ⟨turn, w, heq, ⟨-, t, -, hattached⟩ | ⟨hrefused, -⟩⟩ := hright
  · have hcur : ((final (attachFirst (.initialised 0))).controllers (.initialised 0)).curTarget = none := by
      decide +kernel
    rw [show attachFirst (.initialised 0) = .ok turn w from heq] at hcur
    exact Option.some_ne_none t (hattached.curTarget.symm.trans hcur)
  · exact hrefused.elim (fun hne => hne (by decide)) nofun

end MiyakoLink.Session
