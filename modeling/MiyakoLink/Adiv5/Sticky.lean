import MiyakoLink.Adiv5.LowAccess
import MiyakoLink.Lib.Effect
import MiyakoLink.Lib.Guarded

/-!
# A fault blocks the access port until it is cleared

A run is a list of low-level accesses, aborts, calls of `dp->error` and attaches, each with the
answers of the target. The accesses of a memory access are some of them, and a check of it is a
call of `dp->error` behind them.

Over SWD no request goes to an access port while `dp->fault` is set. When the target never lets
the host wait until its time is over, and faults only for a flag, the flags of a target tell
whether a request was refused (`fault_run`). Over JTAG `dp->fault` is not looked at and never
cleared, so after an attach nothing is blocked (`jtag_attach_stuck`).
-/

namespace MiyakoLink.Adiv5

open Lib

inductive Op where
  | lowAccess (r : Request) (answers : List Answer)
  | abort (value : UInt32) (answers : List Answer)
  | error (answers : List Answer)
  | attach (answers : List Answer)
  /-- The remote commands for blocks set `dp->fault` to 0. -/
  | remoteForget

def Op.callsError : Op → Bool
  | .error _ | .attach _ => true
  | _ => false

/-- The state at the end, normal or by an exception. -/
def finish {α : Type} : EStateM.Result DpException Link α → Link
  | .ok _ s => s
  | .error _ s => s

/-- The state at the end of a check, which begins a new account when it ends normally. -/
def finishCheck {α : Type} : EStateM.Result DpException Link α → Link
  | .ok _ s => { s with refused := false }
  | .error _ s => s

def Link.step (T : Transport) (s : Link) : Op → Link
  | .lowAccess r answers => finish (lowAccess T r (s.give answers))
  | .abort value answers => finish (dpAbortAccess T value (s.give answers))
  | .error answers => finishCheck (dpError T (s.give answers))
  | .attach answers => finishCheck (cortexmAttach T (s.give answers))
  | .remoteForget => s.clearFault

/-! ## The property -/

def apRequests (s : Link) : List Request := s.wire.filter Request.ap

/-- While `dp->fault` is set no request goes to an access port before a call of `dp->error`. -/
def Blocked (T : Transport) (s : Link) (more : List Op) : Prop :=
  s.dp.fault = true → (∀ op ∈ more, op.callsError = false) →
    apRequests (more.foldl (Link.step T) s) = apRequests s

/-- A normal return of `dp->error` has cleared the fault and what it found, the next access to an
access port is put on the wire, and the check reports what was refused. -/
def Cleared (T : Transport) (s : Link) (answers : List Answer) : Prop :=
  ∀ err s', dpError T (s.give answers) = .ok err s' →
    s'.dp.fault = false ∧ s'.sticky.bits &&& err = 0 ∧
      (∀ r next, r.ap = true →
        ∃ later, (s'.step T (.lowAccess r next)).wire = later ++ r :: s'.wire) ∧
      cortexmCheckError T (s.give answers) = .ok s.refused s'

/-- The target does not let the host wait until its time is over, does not fault without a flag,
and its data is not disturbed. -/
def Answer.quiet : Answer → Bool
  | .comply _ _ parityOk => parityOk
  | .wait expired => !expired
  | .fault => false
  | .noise => true

/-- The conditions on a step. Over SWD only `dp->error` writes the bits of ABORT that clear flags,
an attach is not hit by an invalid acknowledge, and the fault is not forgotten. Over JTAG the time
of the host is never over, only `dp->error` clears flags, and there is no attach. -/
def Sound : Transport → Op → Prop
  | .jtag, .lowAccess r answers =>
    .wait true ∉ answers ∧ (r.addr = dpCtrlstat → r.rnw = false → r.value &&& 0x32 = 0)
  | .jtag, .abort .. => True
  | .jtag, .error answers => .wait true ∉ answers
  | .jtag, .attach _ => False
  | .jtag, .remoteForget => True
  | _, .lowAccess r answers =>
    (∀ a ∈ answers, a.quiet = true) ∧ (r.addr = dpAbort → r.rnw = false → r.value &&& 0x1E = 0)
  | _, .abort value answers => (∀ a ∈ answers, a.quiet = true) ∧ value &&& 0x1E = 0
  | _, .error answers => ∀ a ∈ answers, a.quiet = true
  | _, .attach answers => ∀ a ∈ answers, a.quiet = true ∧ a ≠ .noise
  | _, .remoteForget => False

/-- The debug port before the first access. -/
structure Fresh (s : Link) : Prop where
  fault : s.dp.fault = false
  sticky : s.sticky = .none
  refused : s.refused = false

/-! ## Flags -/

theorem bits_eq_zero (f : Sticky) : f.bits = 0 ↔ f = .none := by
  obtain ⟨a, b, c, d⟩ := f
  cases a <;> cases b <;> cases c <;> cases d <;> decide

theorem abort_abortBits (f : Sticky) : f.abort (abortBits f.bits) = .none := by
  obtain ⟨a, b, c, d⟩ := f
  cases a <;> cases b <;> cases c <;> cases d <;> decide

theorem writeOne_all {f : Sticky} (h : f.wdataerr = false) : f.writeOne 0xF0000032 = .none := by
  obtain ⟨a, b, c, d⟩ := f
  cases h
  cases a <;> cases b <;> cases c <;> decide

/-- A field of a word that is replaced is what is read from it. -/
theorem field_or {b m : UInt32} (h : b &&& m = b) (a : UInt32) :
    (a &&& ~~~m ||| b) &&& m = b := by
  apply UInt32.toBitVec_inj.mp
  apply BitVec.eq_of_getLsbD_eq
  intro i hi
  have hbit := congrArg (fun x => x.toBitVec.getLsbD i) h
  simp only [UInt32.toBitVec_and, BitVec.getLsbD_and] at hbit
  simp only [UInt32.toBitVec_and, UInt32.toBitVec_or, UInt32.toBitVec_not, BitVec.getLsbD_and,
    BitVec.getLsbD_or, BitVec.getLsbD_not]
  cases hm : m.toBitVec.getLsbD i
  · rw [hm] at hbit
    simpa using hbit
  · simp

theorem mask_bits (f : Sticky) (data : UInt32) :
    (data &&& ~~~0xB2 ||| f.bits) &&& 0xB2 = f.bits := by
  apply field_or
  obtain ⟨a, b, c, d⟩ := f
  cases a <;> cases b <;> cases c <;> cases d <;> decide

theorem jtagMask_bits {f : Sticky} (h : f.wdataerr = false) (data : UInt32) :
    (data &&& ~~~0x32 ||| f.bits) &&& 0x32 = f.bits := by
  apply field_or
  obtain ⟨a, b, c, d⟩ := f
  cases h
  cases a <;> cases b <;> cases c <;> decide

/-- Bits of a field that is zero. -/
theorem part_zero {v m k : UInt32} (h : v &&& m = 0) (hk : m &&& k = k) : v &&& k = 0 := by
  rw [← hk, ← UInt32.and_assoc, h, UInt32.zero_and]

theorem abort_none {v : UInt32} (h : v &&& 0x1E = 0) (f : Sticky) : f.abort v = f := by
  unfold Sticky.abort
  rw [part_zero h (k := 0x10) (by decide), part_zero h (k := 0x2) (by decide),
    part_zero h (k := 0x4) (by decide), part_zero h (k := 0x8) (by decide)]
  simp

theorem writeOne_none {v : UInt32} (h : v &&& 0x32 = 0) (f : Sticky) : f.writeOne v = f := by
  unfold Sticky.writeOne
  rw [part_zero h (k := 0x2) (by decide), part_zero h (k := 0x10) (by decide),
    part_zero h (k := 0x20) (by decide)]
  simp

theorem join_none (f : Sticky) : Sticky.none.join f = f := by
  unfold Sticky.join
  simp

/-! ## One request over SWD -/

/-- Nothing has changed but the wire and the answers to come, which are some of the old ones. -/
structure Same (s s' : Link) : Prop where
  dp : s'.dp = s.dp
  sticky : s'.sticky = s.sticky
  refused : s'.refused = s.refused

theorem swdReply_exempt {r : Request} (hr : r.exempt = true) (f : Sticky) (a : Answer) :
    swdReply f r a = a := by
  cases a with
  | comply raised data parityOk =>
    rw [swdReply, if_neg]
    simp [hr]
  | wait expired => rfl
  | fault => rfl
  | noise => rfl

theorem swdAnswer_exempt {r : Request} (hr : r.exempt = true) (raised : Sticky) (data : UInt32)
    (s : Link) :
    ∃ v s', swdAnswer r raised data true s = .ok v s' ∧
      (r.rnw = true → r.addr = dpCtrlstat → v &&& 0xB2 = s.sticky.bits) ∧
      s'.dp = s.dp ∧ s'.refused = s.refused ∧
      s'.sticky = (if r.rnw then s.sticky else s.sticky.abort r.value) ∧
      s'.answers = s.answers := by
  obtain ⟨hap, hrest⟩ : r.ap = false ∧
      (if r.rnw then r.addr == dpIdcode || r.addr == dpCtrlstat else r.addr == dpAbort) = true := by
    simpa [Request.exempt] using hr
  unfold swdAnswer swdPerform
  rw [hap, if_neg Bool.false_ne_true]
  cases hrnw : r.rnw with
  | true =>
    rw [if_pos rfl]
    by_cases haddr : r.addr = dpCtrlstat
    · rw [if_pos haddr]
      exact ⟨_, _, rfl, fun _ _ => mask_bits _ _, rfl, rfl, rfl, rfl⟩
    · rw [if_neg haddr]
      exact ⟨_, _, rfl, fun _ h => absurd h haddr, rfl, rfl, rfl, rfl⟩
  | false =>
    rw [hrnw, if_neg Bool.false_ne_true] at hrest
    rw [if_neg Bool.false_ne_true, if_pos (eq_of_beq hrest)]
    exact ⟨_, _, rfl, fun h => absurd h Bool.false_ne_true, rfl, rfl, rfl, rfl⟩

/-- The end of a request that a target takes whatever its flags are. -/
theorem swdTransfer_exempt {r : Request} (hr : r.exempt = true) (answers : List Answer)
    (hq : ∀ a ∈ answers, a.quiet = true) (s : Link) :
    Ends
      (fun v s' => (r.rnw = true → r.addr = dpCtrlstat → v &&& 0xB2 = s.sticky.bits) ∧
        s'.dp = s.dp ∧ s'.refused = s.refused ∧
        s'.sticky = (if r.rnw then s.sticky else s.sticky.abort r.value) ∧ s'.answers ⊆ answers)
      (fun _ s' => Same s s' ∧ .noise ∈ answers ∧ s'.answers ⊆ answers)
      (swdTransfer answers r s) := by
  induction answers generalizing s with
  | nil =>
    obtain ⟨v, s', heq, hv, hdp, href, hsticky, hrest⟩ :=
      swdAnswer_exempt hr .none 0 ((s.send r).give [])
    rw [swdTransfer, swdReply_exempt hr]
    dsimp only
    rw [heq]
    refine ⟨hv, hdp, href, hsticky, ?_⟩
    rw [hrest]
    exact List.Subset.refl _
  | cons a rest ih =>
    have hqrest : ∀ a ∈ rest, a.quiet = true := fun b hb => hq b (List.mem_cons_of_mem _ hb)
    rw [swdTransfer, swdReply_exempt hr]
    cases a with
    | comply raised data parityOk =>
      have hok : parityOk = true := hq _ (List.mem_cons_self ..)
      obtain ⟨v, s', heq, hv, hdp, href, hsticky, hrest⟩ :=
        swdAnswer_exempt hr raised data ((s.send r).give rest)
      dsimp only
      rw [hok, heq]
      refine ⟨hv, hdp, href, hsticky, ?_⟩
      rw [hrest]
      exact List.subset_cons_self _ _
    | wait expired =>
      have hno : expired = false := by simpa [Answer.quiet] using hq _ (List.mem_cons_self ..)
      cases hno
      have hend := ih hqrest ((s.send r).give rest)
      dsimp only
      cases h : swdTransfer rest r ((s.send r).give rest) with
      | ok v s' =>
        rw [h] at hend
        obtain ⟨hv, hdp, href, hsticky, hrest⟩ := hend
        exact ⟨hv, hdp, href, hsticky, fun b hb => List.mem_cons_of_mem _ (hrest hb)⟩
      | error e s' =>
        rw [h] at hend
        obtain ⟨⟨hdp, hsticky, href⟩, hnoise, hrest⟩ := hend
        exact ⟨⟨hdp, hsticky, href⟩, List.mem_cons_of_mem _ hnoise,
          fun b hb => List.mem_cons_of_mem _ (hrest hb)⟩
    | fault => exact absurd (hq _ (List.mem_cons_self ..)) Bool.false_ne_true
    | noise =>
      exact ⟨⟨rfl, rfl, rfl⟩, List.mem_cons_self .., fun b hb => List.mem_cons_of_mem _ hb⟩

theorem lowAccess_swd {T : Transport} (hT : T ≠ .jtag) (r : Request) (s : Link) :
    lowAccess T r s = if r.ap && s.dp.fault then .ok 0 s.refuse else swdTransfer s.answers r s := by
  cases T with
  | swd => rfl
  | pio => rfl
  | jtag => contradiction

/-- `s'` is `s` with fewer answers to come and more on the wire. -/
def Later (s s' : Link) : Prop := Same s s' ∧ s'.answers ⊆ s.answers

theorem Later.refl (s : Link) : Later s s := ⟨⟨rfl, rfl, rfl⟩, List.Subset.refl _⟩

variable {T : Transport} {s₀ : Link}

theorem exempt_triple (hT : T ≠ .jtag) {r : Request} (hr : r.exempt = true)
    (hq : ∀ a ∈ s₀.answers, a.quiet = true) :
    Triple (Later s₀) (lowAccess T r)
      (fun v s' => (r.rnw = true → r.addr = dpCtrlstat → v &&& 0xB2 = s₀.sticky.bits) ∧
        s'.dp = s₀.dp ∧ s'.refused = s₀.refused ∧
        s'.sticky = (if r.rnw then s₀.sticky else s₀.sticky.abort r.value) ∧
        s'.answers ⊆ s₀.answers)
      (fun _ s' => Same s₀ s' ∧ .noise ∈ s₀.answers) := by
  rintro s ⟨⟨hdp, hsticky, href⟩, hsub⟩
  have hap : r.ap = false := by
    have := hr
    simp only [Request.exempt, Bool.and_eq_true, Bool.not_eq_true'] at this
    exact this.1
  have hend := swdTransfer_exempt hr s.answers (fun a ha => hq a (hsub ha)) s
  rw [lowAccess_swd hT, hap, Bool.false_and, if_neg Bool.false_ne_true]
  cases h : swdTransfer s.answers r s with
  | ok v s' =>
    rw [h] at hend
    obtain ⟨hv, hdp', href', hsticky', hrest⟩ := hend
    rw [hsticky] at hv hsticky'
    exact ⟨hv, hdp'.trans hdp, href'.trans href, hsticky', List.Subset.trans hrest hsub⟩
  | error e s' =>
    rw [h] at hend
    obtain ⟨⟨hdp', hsticky', href'⟩, hnoise, -⟩ := hend
    exact ⟨⟨hdp'.trans hdp, hsticky'.trans hsticky, href'.trans href⟩, hsub hnoise⟩

theorem read_triple (hT : T ≠ .jtag) {addr : UInt16}
    (hr : (⟨true, addr, 0⟩ : Request).exempt = true) (hq : ∀ a ∈ s₀.answers, a.quiet = true) :
    Triple (Later s₀) (firmwareSwdpRead T addr)
      (fun v s' => (addr = dpCtrlstat → v &&& 0xB2 = s₀.sticky.bits) ∧ Later s₀ s')
      (fun _ s' => Same s₀ s' ∧ .noise ∈ s₀.answers) := by
  have hap : ¬addr &&& apndp ≠ 0 := by
    simp only [Request.exempt, Request.ap, Bool.and_eq_true, Bool.not_eq_true', bne_eq_false_iff_eq]
      at hr
    exact fun h => h hr.1
  unfold firmwareSwdpRead
  rw [if_neg hap]
  apply (exempt_triple hT hr hq).post
  rintro v s' ⟨hv, hdp, href, hsticky, hsub⟩
  exact ⟨hv rfl, ⟨hdp, hsticky, href⟩, hsub⟩

theorem exempt_abort (value : UInt32) : (abortRequest value).exempt = true := by
  simp [Request.exempt, Request.ap, abortRequest]

theorem reselect_triple (hT : T ≠ .jtag) (hq : ∀ a ∈ s₀.answers, a.quiet = true) :
    Triple (Later s₀) (reselectFaulted T) (fun _ => Later s₀)
      (fun _ s' => Same s₀ s' ∧ .noise ∈ s₀.answers) := by
  unfold reselectFaulted
  apply Triple.bind (Triple.get (Q := fun _ => Later s₀) fun _ h => h)
  intro s
  apply Triple.ite
  · intro _
    apply Triple.bind (Triple.modify (Q := fun _ => Later s₀) ?_)
    · intro _
      apply Triple.discard
      exact (read_triple hT (by decide) hq).post fun _ _ h => h.2
    · rintro s ⟨⟨hdp, hsticky, href⟩, hsub⟩
      exact ⟨⟨hdp, hsticky, href⟩, hsub⟩
  · intro _
    exact Triple.pure fun _ h => h

/-- What a call of `dp->error` finds and leaves. -/
theorem swdError_triple (hT : T ≠ .jtag) (hq : ∀ a ∈ s₀.answers, a.quiet = true) :
    Triple (Later s₀) (firmwareSwdpError T)
      (fun err s' => err = s₀.sticky.bits ∧ s'.dp.fault = false ∧ s'.sticky = .none ∧
        s'.refused = s₀.refused ∧ s'.answers ⊆ s₀.answers)
      (fun _ s' => Same s₀ s' ∧ .noise ∈ s₀.answers) := by
  unfold firmwareSwdpError
  apply Triple.bind (reselect_triple hT hq)
  intro _
  apply Triple.bind (read_triple hT (by decide) hq)
  intro v
  -- What is written clears what has been read.
  apply Triple.bind (Q := fun _ s' => v &&& 0xB2 = s₀.sticky.bits ∧ s'.sticky = .none ∧
    s'.refused = s₀.refused ∧ s'.answers ⊆ s₀.answers)
  · intro s hs
    obtain ⟨hv, hlater⟩ := hs
    have hbits := hv rfl
    have hwrite := exempt_triple hT (exempt_abort (abortBits (v &&& 0xB2))) hq
    refine Triple.discard (hwrite.post ?_) s hlater
    rintro _ s' ⟨-, -, href, hsticky, hsub⟩
    refine ⟨hbits, ?_, href, hsub⟩
    rw [hbits] at hsticky
    exact hsticky.trans (abort_abortBits _)
  · intro _
    apply Triple.bind (Triple.modify (Q := fun _ s' => v &&& 0xB2 = s₀.sticky.bits ∧
      s'.dp.fault = false ∧ s'.sticky = .none ∧ s'.refused = s₀.refused ∧
      s'.answers ⊆ s₀.answers) ?_)
    · intro _
      exact Triple.pure fun _ h => h
    · rintro s ⟨hbits, hsticky, href, hsub⟩
      exact ⟨hbits, rfl, hsticky, href, hsub⟩

/-! ## Any request over SWD -/

/-- What the host knows agrees with the flags of the target: a fault comes from a flag, and a
flag from a request that was refused. -/
structure Tracks (s : Link) : Prop where
  fault : s.dp.fault = true → s.sticky ≠ .none
  refused : s.refused = true ↔ s.sticky ≠ .none

theorem Tracks.congr {s s' : Link} (h : Tracks s) (hdp : s'.dp = s.dp) (hsticky : s'.sticky = s.sticky)
    (href : s'.refused = s.refused) : Tracks s' := by
  constructor
  · rw [hdp, hsticky]
    exact h.fault
  · rw [href, hsticky]
    exact h.refused

theorem Tracks.refuse {s : Link} (h : Tracks s) (hflag : s.sticky ≠ .none) : Tracks s.refuse :=
  ⟨h.fault, ⟨fun _ => hflag, fun _ => rfl⟩⟩

theorem Tracks.setFault {s : Link} (h : Tracks s) (hflag : s.sticky ≠ .none) : Tracks s.setFault :=
  ⟨fun _ => hflag, h.refused⟩

theorem swdAnswer_tracks {r : Request} (hr : r.addr = dpAbort → r.rnw = false → r.value &&& 0x1E = 0)
    (raised : Sticky) (data : UInt32) {s : Link} (h : Tracks s)
    (hflag : r.ap = true → s.sticky = .none) :
    ∃ v s', swdAnswer r raised data true s = .ok v s' ∧ Tracks s' := by
  have hperform : Tracks (swdPerform r raised data s).2 := by
    unfold swdPerform
    cases hap : r.ap with
    | true =>
      rw [if_pos rfl]
      have hnone := hflag hap
      have hfault : s.dp.fault = false := Bool.eq_false_iff.mpr fun hf => h.fault hf hnone
      have href : s.refused = false := Bool.eq_false_iff.mpr fun hf => h.refused.mp hf hnone
      constructor
      · intro hf
        rw [hfault] at hf
        contradiction
      · dsimp only
        rw [href, hnone, join_none, Bool.false_or, decide_eq_true_iff]
    | false =>
      rw [if_neg Bool.false_ne_true]
      split
      · split
        · exact h
        · exact h
      · next hrnw =>
        split
        · next haddr =>
          have hsame := abort_none (hr haddr (Bool.eq_false_iff.mpr hrnw)) s.sticky
          exact h.congr rfl hsame rfl
        · exact h
  unfold swdAnswer
  cases hrnw : r.rnw with
  | true => exact ⟨_, _, rfl, hperform⟩
  | false => exact ⟨_, _, rfl, hperform⟩

/-- An answer that complies is a fault, or one to a request that the target takes. -/
theorem swdReply_tracks {r : Request} (hr : r.addr = dpAbort → r.rnw = false → r.value &&& 0x1E = 0)
    (raised : Sticky) (data : UInt32) {s s' : Link} (h : Tracks s') (hsticky : s'.sticky = s.sticky) :
    (swdReply s.sticky r (.comply raised data true) = .fault ∧ Tracks s'.setFault.refuse) ∨
      (swdReply s.sticky r (.comply raised data true) = .comply raised data true ∧
        ∃ v s'', swdAnswer r raised data true s' = .ok v s'' ∧ Tracks s'') := by
  by_cases hfault : s.sticky ≠ .none ∧ r.exempt = false
  · left
    have hflag : s'.sticky ≠ .none := by
      rw [hsticky]
      exact hfault.1
    exact ⟨if_pos hfault, (h.setFault hflag).refuse hflag⟩
  · right
    refine ⟨if_neg hfault, swdAnswer_tracks hr raised data h ?_⟩
    intro hap
    rw [hsticky]
    by_contra hne
    exact hfault ⟨hne, by rw [Request.exempt, hap]; rfl⟩

/-- A request keeps the account, however it ends. -/
theorem swdTransfer_tracks {r : Request}
    (hr : r.addr = dpAbort → r.rnw = false → r.value &&& 0x1E = 0) (answers : List Answer)
    (hq : ∀ a ∈ answers, a.quiet = true) {s : Link} (h : Tracks s) :
    Tracks (finish (swdTransfer answers r s)) := by
  induction answers generalizing s with
  | nil =>
    have hsent : Tracks ((s.send r).give []) := h.congr rfl rfl rfl
    rw [swdTransfer]
    rcases swdReply_tracks hr .none 0 (s := s) hsent rfl with ⟨hreply, htracks⟩ | ⟨hreply, v, s', heq, htracks⟩
    · rw [hreply]
      exact htracks
    · rw [hreply]
      dsimp only
      rw [heq]
      exact htracks
  | cons a rest ih =>
    have hqrest : ∀ a ∈ rest, a.quiet = true := fun b hb => hq b (List.mem_cons_of_mem _ hb)
    have hsent : Tracks ((s.send r).give rest) := h.congr rfl rfl rfl
    rw [swdTransfer]
    cases a with
    | comply raised data parityOk =>
      have hok : parityOk = true := hq _ (List.mem_cons_self ..)
      rw [hok]
      rcases swdReply_tracks hr raised data (s := s) hsent rfl with
        ⟨hreply, htracks⟩ | ⟨hreply, v, s', heq, htracks⟩
      · rw [hreply]
        exact htracks
      · rw [hreply]
        dsimp only
        rw [heq]
        exact htracks
    | wait expired =>
      have hno : expired = false := by simpa [Answer.quiet] using hq _ (List.mem_cons_self ..)
      cases hno
      exact ih hqrest hsent
    | fault => exact absurd (hq _ (List.mem_cons_self ..)) Bool.false_ne_true
    | noise => exact hsent

theorem lowAccess_tracks (hT : T ≠ .jtag) {r : Request}
    (hr : r.addr = dpAbort → r.rnw = false → r.value &&& 0x1E = 0) {s : Link}
    (hq : ∀ a ∈ s.answers, a.quiet = true) (h : Tracks s) :
    Tracks (finish (lowAccess T r s)) := by
  rw [lowAccess_swd hT]
  split
  · next hblocked =>
    rw [Bool.and_eq_true] at hblocked
    exact h.refuse (h.fault hblocked.2)
  · exact swdTransfer_tracks hr s.answers hq h

/-! ## What is blocked -/

theorem swdPerform_frame (r : Request) (raised : Sticky) (data : UInt32) (s : Link) :
    (swdPerform r raised data s).2.dp = s.dp ∧ (swdPerform r raised data s).2.wire = s.wire := by
  unfold swdPerform
  split
  · exact ⟨rfl, rfl⟩
  · split
    · split
      · exact ⟨rfl, rfl⟩
      · exact ⟨rfl, rfl⟩
    · split
      · exact ⟨rfl, rfl⟩
      · exact ⟨rfl, rfl⟩

/-- An answer puts nothing on the wire and clears no fault. -/
theorem swdAnswer_frame (r : Request) (raised : Sticky) (data : UInt32) (parityOk : Bool)
    (s : Link) :
    (finish (swdAnswer r raised data parityOk s)).wire = s.wire ∧
      (s.dp.fault = true → (finish (swdAnswer r raised data parityOk s)).dp.fault = true) := by
  obtain ⟨hdp, hwire⟩ := swdPerform_frame r raised data s
  unfold swdAnswer
  dsimp only
  split
  · split
    · exact ⟨hwire, fun h => (congrArg Dp.fault hdp).trans h⟩
    · exact ⟨hwire, fun _ => rfl⟩
  · exact ⟨hwire, fun h => (congrArg Dp.fault hdp).trans h⟩

theorem apRequests_of_wire {s s' : Link} {r : Request} (hr : r.ap = false)
    (hwire : s'.wire = r :: s.wire) : apRequests s' = apRequests s := by
  rw [apRequests, hwire, List.filter_cons_of_neg (by rw [hr]; exact Bool.false_ne_true)]
  rfl

/-- A request that is none to an access port brings none to the wire, and a fault stays. -/
theorem swdTransfer_blocked {r : Request} (hr : r.ap = false) (answers : List Answer) {s : Link}
    (h : s.dp.fault = true) :
    (finish (swdTransfer answers r s)).dp.fault = true ∧
      apRequests (finish (swdTransfer answers r s)) = apRequests s := by
  induction answers generalizing r s with
  | nil =>
    rw [swdTransfer]
    split
    · obtain ⟨hwire, hfault⟩ := swdAnswer_frame r _ _ _ ((s.send r).give [])
      exact ⟨hfault h, apRequests_of_wire hr hwire⟩
    · exact ⟨rfl, apRequests_of_wire hr rfl⟩
  | cons a rest ih =>
    have hsent : apRequests ((s.send r).give rest) = apRequests s := apRequests_of_wire hr rfl
    rw [swdTransfer]
    split
    · exact ⟨rfl, hsent⟩
    · have habort : (abortRequest daPabort).ap = false := by decide
      obtain ⟨hfault, hap⟩ := ih (s := (s.send r).give rest) habort h
      split
      · next heq =>
        rw [heq] at hap
        exact ⟨rfl, hap.trans hsent⟩
      · next heq =>
        rw [heq] at hfault hap
        exact ⟨hfault, hap.trans hsent⟩
    · obtain ⟨hfault, hap⟩ := ih (s := (s.send r).give rest) hr h
      exact ⟨hfault, hap.trans hsent⟩
    · obtain ⟨hwire, hfault⟩ := swdAnswer_frame r _ _ _ ((s.send r).give rest)
      exact ⟨hfault h, apRequests_of_wire hr hwire⟩
    · exact ⟨h, hsent⟩

theorem lowAccess_blocked (hT : T ≠ .jtag) (r : Request) {s : Link} (h : s.dp.fault = true) :
    (finish (lowAccess T r s)).dp.fault = true ∧
      apRequests (finish (lowAccess T r s)) = apRequests s := by
  rw [lowAccess_swd hT, h, Bool.and_true]
  cases hr : r.ap with
  | true => exact ⟨h, rfl⟩
  | false => exact swdTransfer_blocked hr s.answers h

/-- A request that is sent stays on the wire. -/
theorem swdTransfer_wire (answers : List Answer) (r : Request) (s : Link) :
    ∃ later, (finish (swdTransfer answers r s)).wire = later ++ r :: s.wire := by
  induction answers generalizing r s with
  | nil =>
    rw [swdTransfer]
    split
    · exact ⟨[], (swdAnswer_frame r _ _ _ ((s.send r).give [])).1⟩
    · exact ⟨[], rfl⟩
  | cons a rest ih =>
    rw [swdTransfer]
    split
    · exact ⟨[], rfl⟩
    · obtain ⟨later, hwire⟩ := ih (abortRequest daPabort) ((s.send r).give rest)
      have hwire' : (finish (swdTransfer rest (abortRequest daPabort) ((s.send r).give rest))).wire
          = (later ++ [abortRequest daPabort]) ++ r :: s.wire := by
        rw [hwire, List.append_assoc]
        rfl
      split
      · next heq =>
        rw [heq] at hwire'
        exact ⟨_, hwire'⟩
      · next heq =>
        rw [heq] at hwire'
        exact ⟨_, hwire'⟩
    · obtain ⟨later, hwire⟩ := ih r ((s.send r).give rest)
      refine ⟨later ++ [r], hwire.trans ?_⟩
      rw [List.append_assoc]
      rfl
    · exact ⟨[], (swdAnswer_frame r _ _ _ ((s.send r).give rest)).1⟩
    · exact ⟨[], rfl⟩

/-! ## JTAG -/

/-- What holds over JTAG while the time of the host is never over: there is no fault. -/
structure Clear (s : Link) : Prop where
  fault : s.dp.fault = false
  wdataerr : s.sticky.wdataerr = false
  refused : s.refused = true ↔ s.sticky ≠ .none

theorem jtagPerform_clear {r : Request}
    (hr : r.addr = dpCtrlstat → r.rnw = false → r.value &&& 0x32 = 0) (raised : Sticky)
    (data : UInt32) {s : Link} (h : Clear s) : Clear (jtagPerform r raised data s).2 := by
  unfold jtagPerform
  dsimp only
  split
  · split
    · next hnone =>
      have href : s.refused = false := Bool.eq_false_iff.mpr fun hf => h.refused.mp hf hnone
      refine ⟨h.fault, rfl, ?_⟩
      rw [href, Bool.false_or, decide_eq_true_iff]
    · next hflag => exact ⟨h.fault, h.wdataerr, ⟨fun _ => hflag, fun _ => rfl⟩⟩
  · split
    · next haddr =>
      split
      · exact ⟨h.fault, h.wdataerr, h.refused⟩
      · next hrnw =>
        have hsame := writeOne_none (hr haddr (Bool.eq_false_iff.mpr hrnw)) s.sticky
        rw [hsame]
        exact ⟨h.fault, h.wdataerr, h.refused⟩
    · exact ⟨h.fault, h.wdataerr, h.refused⟩

theorem jtagTransfer_clear {r : Request}
    (hr : r.addr = dpCtrlstat → r.rnw = false → r.value &&& 0x32 = 0) (answers : List Answer)
    (hq : .wait true ∉ answers) {s : Link} (h : Clear s) :
    Clear (finish (jtagTransfer answers r s)) := by
  induction answers generalizing s with
  | nil => exact jtagPerform_clear hr .none 0 (s := (s.send r).give []) ⟨h.fault, h.wdataerr, h.refused⟩
  | cons a rest ih =>
    have hsent : Clear ((s.send r).give rest) := ⟨h.fault, h.wdataerr, h.refused⟩
    have hqrest : .wait true ∉ rest := fun hmem => hq (List.mem_cons_of_mem _ hmem)
    cases a with
    | comply raised data parityOk => exact jtagPerform_clear hr raised data hsent
    | wait expired =>
      cases expired with
      | true => exact absurd (List.mem_cons_self ..) hq
      | false => exact ih hqrest hsent
    | fault => exact hsent
    | noise => exact hsent

theorem jtagPerform_ctrlstat (rnw : Bool) (value : UInt32) (raised : Sticky) (data : UInt32)
    (s : Link) :
    jtagPerform ⟨rnw, dpCtrlstat, value⟩ raised data s =
      (s.posted,
        if rnw then { s with posted := data &&& ~~~0x32 ||| s.sticky.bits }
        else { s with sticky := s.sticky.writeOne value, posted := data }) := by
  have hap : (⟨rnw, dpCtrlstat, value⟩ : Request).ap = false := by
    show (dpCtrlstat &&& apndp != 0) = false
    decide
  rw [jtagPerform, hap, if_neg Bool.false_ne_true, if_pos rfl]

/-- What the host knows after a request to CTRL/STAT over JTAG. -/
structure Ctrlstat (s : Link) (rnw : Bool) (value : UInt32) (s' : Link) : Prop where
  dp : s'.dp = s.dp
  refused : s'.refused = s.refused
  sticky : s'.sticky = if rnw then s.sticky else s.sticky.writeOne value
  posted : rnw = true → s'.posted &&& 0x32 = s.sticky.bits

theorem jtagPerform_found {s : Link} (hw : s.sticky.wdataerr = false) (rnw : Bool) (value : UInt32)
    (raised : Sticky) (data : UInt32) :
    Ctrlstat s rnw value (jtagPerform ⟨rnw, dpCtrlstat, value⟩ raised data s).2 ∧
      (jtagPerform ⟨rnw, dpCtrlstat, value⟩ raised data s).2.answers = s.answers := by
  rw [jtagPerform_ctrlstat]
  cases rnw with
  | true => exact ⟨⟨rfl, rfl, rfl, fun _ => jtagMask_bits hw data⟩, rfl⟩
  | false => exact ⟨⟨rfl, rfl, rfl, fun h => absurd h Bool.false_ne_true⟩, rfl⟩

/-- A request to CTRL/STAT over JTAG returns what the one before it has posted. -/
theorem jtagTransfer_ctrlstat (rnw : Bool) (value : UInt32) (answers : List Answer)
    (hq : .wait true ∉ answers) {s : Link} (hw : s.sticky.wdataerr = false) :
    Ends
      (fun v s' => v = s.posted ∧ Ctrlstat s rnw value s' ∧ s'.answers ⊆ answers)
      (fun _ s' => Same s s')
      (jtagTransfer answers ⟨rnw, dpCtrlstat, value⟩ s) := by
  induction answers generalizing s with
  | nil =>
    obtain ⟨⟨hdp, href, hsticky, hposted⟩, hrest⟩ := jtagPerform_found
      (s := (s.send ⟨rnw, dpCtrlstat, value⟩).give []) hw rnw value .none 0
    exact ⟨rfl, ⟨hdp, href, hsticky, hposted⟩, fun b hb => (congrArg (b ∈ ·) hrest).mp hb⟩
  | cons a rest ih =>
    have hqrest : .wait true ∉ rest := fun hmem => hq (List.mem_cons_of_mem _ hmem)
    cases a with
    | comply raised data parityOk =>
      obtain ⟨⟨hdp, href, hsticky, hposted⟩, hrest⟩ := jtagPerform_found
        (s := (s.send ⟨rnw, dpCtrlstat, value⟩).give rest) hw rnw value raised data
      exact ⟨rfl, ⟨hdp, href, hsticky, hposted⟩,
        fun b hb => List.mem_cons_of_mem _ ((congrArg (b ∈ ·) hrest).mp hb)⟩
    | wait expired =>
      cases expired with
      | true => exact absurd (List.mem_cons_self ..) hq
      | false =>
        have hend := ih hqrest (s := (s.send ⟨rnw, dpCtrlstat, value⟩).give rest) hw
        rw [jtagTransfer]
        cases h : jtagTransfer rest ⟨rnw, dpCtrlstat, value⟩
            ((s.send ⟨rnw, dpCtrlstat, value⟩).give rest) with
        | ok v s' =>
          rw [h] at hend
          obtain ⟨hv, ⟨hdp, href, hsticky, hposted⟩, hsub⟩ := hend
          exact ⟨hv, ⟨hdp, href, hsticky, hposted⟩, fun b hb => List.mem_cons_of_mem _ (hsub hb)⟩
        | error e s' =>
          rw [h] at hend
          obtain ⟨hdp, hsticky, href⟩ := hend
          exact ⟨hdp, hsticky, href⟩
    | fault => exact ⟨rfl, rfl, rfl⟩
    | noise => exact ⟨rfl, rfl, rfl⟩

/-- What a call of `dp->error` finds and leaves over JTAG. -/
theorem jtagError_triple {s₀ : Link} (hq : .wait true ∉ s₀.answers)
    (hw : s₀.sticky.wdataerr = false) :
    Triple (· = s₀) adiv5JtagdpError
      (fun err s' => err = s₀.sticky.bits ∧ s'.dp = s₀.dp ∧ s'.sticky = .none ∧
        s'.refused = s₀.refused)
      (fun _ s' => Same s₀ s') := by
  unfold adiv5JtagdpError
  apply Triple.bind (Q := fun _ s => s.dp = s₀.dp ∧ s.refused = s₀.refused ∧
    s.sticky = s₀.sticky ∧ s.posted &&& 0x32 = s₀.sticky.bits ∧ s.answers ⊆ s₀.answers)
  · apply Triple.discard
    rintro s rfl
    have hend := jtagTransfer_ctrlstat true 0 s.answers hq hw
    show Ends _ _ (jtagTransfer s.answers ⟨true, dpCtrlstat, 0⟩ s)
    cases h : jtagTransfer s.answers ⟨true, dpCtrlstat, 0⟩ s with
    | ok v s' =>
      rw [h] at hend
      obtain ⟨-, ⟨hdp, href, hsticky, hposted⟩, hsub⟩ := hend
      exact ⟨hdp, href, hsticky, hposted rfl, hsub⟩
    | error e s' =>
      rw [h] at hend
      exact hend
  · intro _
    apply Triple.bind (Q := fun v s' => v &&& 0x32 = s₀.sticky.bits ∧ s'.dp = s₀.dp ∧
      s'.sticky = .none ∧ s'.refused = s₀.refused)
    · rintro s ⟨hdp, href, hsticky, hposted, hsub⟩
      have hws : s.sticky.wdataerr = false := by
        rw [hsticky]
        exact hw
      have hqs : .wait true ∉ s.answers := fun hmem => hq (hsub hmem)
      have hend := jtagTransfer_ctrlstat false 0xF0000032 s.answers hqs hws
      show Ends _ _ (jtagTransfer s.answers ⟨false, dpCtrlstat, 0xF0000032⟩ s)
      cases h : jtagTransfer s.answers ⟨false, dpCtrlstat, 0xF0000032⟩ s with
      | ok v s' =>
        rw [h] at hend
        obtain ⟨hv, ⟨hdp', href', hsticky', -⟩, -⟩ := hend
        refine ⟨?_, hdp'.trans hdp, ?_, href'.trans href⟩
        · rw [hv]
          exact hposted
        · exact hsticky'.trans (writeOne_all hws)
      | error e s' =>
        rw [h] at hend
        obtain ⟨hdp', hsticky', href'⟩ := hend
        exact ⟨hdp'.trans hdp, hsticky'.trans hsticky, href'.trans href⟩
    · intro _
      exact Triple.pure fun _ h => h

/-! ## Runs -/

/-- What holds between the steps. -/
def Settled (T : Transport) (s : Link) : Prop := if T = .jtag then Clear s else Tracks s

theorem settled_swd (hT : T ≠ .jtag) (s : Link) : Settled T s = Tracks s := if_neg hT

theorem dpError_swd (hT : T ≠ .jtag) : dpError T = firmwareSwdpError T := by
  cases T with
  | swd => rfl
  | pio => rfl
  | jtag => contradiction

theorem dpAbortAccess_swd (hT : T ≠ .jtag) (value : UInt32) :
    dpAbortAccess T value = Functor.discard (lowAccess T (abortRequest value)) := by
  cases T with
  | swd => rfl
  | pio => rfl
  | jtag => contradiction

theorem finish_discard {α : Type} (m : Access α) (s : Link) :
    finish ((Functor.discard m : Access PUnit) s) = finish (m s) := by
  show finish (EStateM.map (Function.const α PUnit.unit) m s) = _
  unfold EStateM.map
  cases m s with
  | ok a s' => rfl
  | error e s' => rfl

theorem checkError_ok {s s' : Link} {err : UInt32} (h : dpError T s = .ok err s') :
    cortexmCheckError T s = .ok (err ≠ 0) s' := by
  show EStateM.bind (dpError T) _ s = _
  rw [EStateM.bind, h]
  rfl

/-- The end of a check over SWD. -/
theorem swdCheck (hT : T ≠ .jtag) {s : Link} (hq : ∀ a ∈ s.answers, a.quiet = true) :
    (∃ s', dpError T s = .ok s.sticky.bits s' ∧ s'.dp.fault = false ∧ s'.sticky = .none ∧
      s'.answers ⊆ s.answers) ∨
    ∃ e s', dpError T s = .error e s' ∧ Same s s' ∧ .noise ∈ s.answers := by
  have hend := swdError_triple hT hq s (Later.refl s)
  rw [← dpError_swd hT] at hend
  cases h : dpError T s with
  | ok err s' =>
    rw [h] at hend
    obtain ⟨rfl, hfault, hsticky, -, hsub⟩ := hend
    exact Or.inl ⟨s', rfl, hfault, hsticky, hsub⟩
  | error e s' =>
    rw [h] at hend
    exact Or.inr ⟨e, s', rfl, hend⟩

/-- Without an invalid acknowledge a check over SWD ends normally. -/
theorem swdCheck_ok (hT : T ≠ .jtag) {s : Link} (hq : ∀ a ∈ s.answers, a.quiet = true)
    (hnoise : .noise ∉ s.answers) :
    ∃ b s', cortexmCheckError T s = .ok b s' ∧ s'.dp.fault = false ∧ s'.sticky = .none ∧
      s'.answers ⊆ s.answers := by
  rcases swdCheck hT hq with ⟨s', heq, hfault, hsticky, hsub⟩ | ⟨e, s', -, -, hmem⟩
  · exact ⟨_, s', checkError_ok heq, hfault, hsticky, hsub⟩
  · exact absurd hmem hnoise

theorem discard_ok {α : Type} {m : Access α} {v : α} {s s' : Link} (h : m s = .ok v s') :
    (Functor.discard m : Access PUnit) s = .ok ⟨⟩ s' := by
  show EStateM.map (Function.const α PUnit.unit) m s = _
  rw [EStateM.map, h]

/-- An attach over SWD that is not hit by an invalid acknowledge. -/
theorem attach_ok (hT : T ≠ .jtag) {s : Link} (hq : ∀ a ∈ s.answers, a.quiet = true ∧ a ≠ .noise) :
    ∃ s', cortexmAttach T s = .ok ⟨⟩ s' ∧ s'.dp.fault = false ∧ s'.sticky = .none := by
  have hquiet : ∀ a ∈ s.answers, a.quiet = true := fun a ha => (hq a ha).1
  have hnoise : .noise ∉ s.answers := fun h => (hq _ h).2 rfl
  obtain ⟨b, s₁, hfirst, -, -, hsub⟩ := swdCheck_ok hT (s := s.setFault) hquiet hnoise
  obtain ⟨b', s₂, hsecond, hfault, hsticky, -⟩ := swdCheck_ok hT (s := s₁)
    (fun a ha => hquiet a (hsub ha)) fun h => hnoise (hsub h)
  refine ⟨s₂, ?_, hfault, hsticky⟩
  show EStateM.bind (Functor.discard (cortexmCheckError T))
    (fun _ => Functor.discard (cortexmCheckError T)) s.setFault = _
  rw [EStateM.bind, discard_ok hfirst]
  exact discard_ok hsecond

/-- After a check that ends normally the account is new. -/
theorem tracks_new {s : Link} (hfault : s.dp.fault = false) (hsticky : s.sticky = .none) :
    Tracks { s with refused := false } := by
  constructor
  · intro h
    exact absurd (hfault.symm.trans h) Bool.false_ne_true
  · dsimp only
    rw [hsticky]
    simp

theorem step_abort (hT : T ≠ .jtag) (s : Link) (value : UInt32) (answers : List Answer) :
    s.step T (.abort value answers) = finish (lowAccess T (abortRequest value) (s.give answers)) := by
  show finish (dpAbortAccess T value (s.give answers)) = _
  rw [dpAbortAccess_swd hT, finish_discard]

theorem step_error (T : Transport) (s : Link) (answers : List Answer) :
    s.step T (.error answers) = finishCheck (dpError T (s.give answers)) :=
  rfl

theorem step_attach (T : Transport) (s : Link) (answers : List Answer) :
    s.step T (.attach answers) = finishCheck (cortexmAttach T (s.give answers)) :=
  rfl

theorem step_tracks (hT : T ≠ .jtag) {s : Link} {op : Op} (h : Tracks s) (hop : Sound T op) :
    Tracks (s.step T op) := by
  cases op with
  | lowAccess r answers =>
    have hop' : (∀ a ∈ answers, a.quiet = true) ∧
        (r.addr = dpAbort → r.rnw = false → r.value &&& 0x1E = 0) := by
      cases T with
      | swd => exact hop
      | pio => exact hop
      | jtag => contradiction
    exact lowAccess_tracks hT hop'.2 (s := s.give answers) hop'.1 (h.congr rfl rfl rfl)
  | abort value answers =>
    have hop' : (∀ a ∈ answers, a.quiet = true) ∧ value &&& 0x1E = 0 := by
      cases T with
      | swd => exact hop
      | pio => exact hop
      | jtag => contradiction
    rw [step_abort hT]
    exact lowAccess_tracks hT (r := abortRequest value) (fun _ _ => hop'.2) (s := s.give answers)
      hop'.1 (h.congr rfl rfl rfl)
  | error answers =>
    have hop' : ∀ a ∈ answers, a.quiet = true := by
      cases T with
      | swd => exact hop
      | pio => exact hop
      | jtag => contradiction
    rw [step_error]
    rcases swdCheck hT (s := s.give answers) hop' with
      ⟨s', heq, hfault, hsticky, -⟩ | ⟨e, s', heq, ⟨hdp, hsticky, href⟩, -⟩
    · rw [heq]
      exact tracks_new hfault hsticky
    · rw [heq]
      exact h.congr hdp hsticky href
  | attach answers =>
    have hop' : ∀ a ∈ answers, a.quiet = true ∧ a ≠ .noise := by
      cases T with
      | swd => exact hop
      | pio => exact hop
      | jtag => contradiction
    obtain ⟨s', heq, hfault, hsticky⟩ := attach_ok hT (s := s.give answers) hop'
    rw [step_attach, heq]
    exact tracks_new hfault hsticky
  | remoteForget =>
    cases T with
    | swd => exact absurd hop id
    | pio => exact absurd hop id
    | jtag => contradiction

/-- The end of a check over JTAG. -/
theorem jtagCheck {s : Link} (hq : .wait true ∉ s.answers) (hw : s.sticky.wdataerr = false) :
    (∃ s', dpError .jtag s = .ok s.sticky.bits s' ∧ s'.dp = s.dp ∧ s'.sticky = .none) ∨
    ∃ e s', dpError .jtag s = .error e s' ∧ Same s s' := by
  have hend := jtagError_triple hq hw s rfl
  show (∃ s', adiv5JtagdpError s = _ ∧ _) ∨ ∃ e s', adiv5JtagdpError s = _ ∧ _
  cases h : adiv5JtagdpError s with
  | ok err s' =>
    rw [h] at hend
    obtain ⟨rfl, hdp, hsticky, -⟩ := hend
    exact Or.inl ⟨s', rfl, hdp, hsticky⟩
  | error e s' =>
    rw [h] at hend
    exact Or.inr ⟨e, s', rfl, hend⟩

theorem step_clear {s : Link} {op : Op} (h : Clear s) (hop : Sound .jtag op) :
    Clear (s.step .jtag op) := by
  cases op with
  | lowAccess r answers =>
    exact jtagTransfer_clear hop.2 answers hop.1 (s := s.give answers)
      ⟨h.fault, h.wdataerr, h.refused⟩
  | abort value answers => exact ⟨h.fault, h.wdataerr, h.refused⟩
  | error answers =>
    rw [step_error]
    rcases jtagCheck (s := s.give answers) hop h.wdataerr with
      ⟨s', heq, hdp, hsticky⟩ | ⟨e, s', heq, hdp, hsticky, href⟩
    · rw [heq]
      refine ⟨(congrArg Dp.fault hdp).trans h.fault, ?_, ?_⟩
      · show s'.sticky.wdataerr = false
        rw [hsticky]
      · show false = true ↔ s'.sticky ≠ .none
        rw [hsticky]
        simp
    · rw [heq]
      refine ⟨(congrArg Dp.fault hdp).trans h.fault, ?_, ?_⟩
      · exact (congrArg Sticky.wdataerr hsticky).trans h.wdataerr
      · show s'.refused = true ↔ s'.sticky ≠ .none
        rw [href, hsticky]
        exact h.refused
  | attach answers => exact absurd hop id
  | remoteForget => exact ⟨rfl, h.wdataerr, h.refused⟩

theorem step_settled {s : Link} {op : Op} (h : Settled T s) (hop : Sound T op) :
    Settled T (s.step T op) := by
  by_cases hT : T = .jtag
  · subst hT
    exact step_clear h hop
  · rw [settled_swd hT] at h ⊢
    exact step_tracks hT h hop

theorem Fresh.settled {s : Link} (h : Fresh s) : Settled T s := by
  obtain ⟨hfault, hsticky, href⟩ := h
  unfold Settled
  split
  · refine ⟨hfault, ?_, ?_⟩
    · rw [hsticky]
    · rw [href, hsticky]
      simp
  · constructor
    · intro hf
      exact absurd (hfault.symm.trans hf) Bool.false_ne_true
    · rw [href, hsticky]
      simp

/-- A fault blocks over SWD. -/
theorem step_blocked (hT : T ≠ .jtag) {s : Link} {op : Op} (h : s.dp.fault = true)
    (hcalls : op.callsError = false) (hop : Sound T op) :
    (s.step T op).dp.fault = true ∧ apRequests (s.step T op) = apRequests s := by
  cases op with
  | lowAccess r answers => exact lowAccess_blocked hT r (s := s.give answers) h
  | abort value answers =>
    rw [step_abort hT]
    exact lowAccess_blocked hT _ (s := s.give answers) h
  | error answers => contradiction
  | attach answers => contradiction
  | remoteForget =>
    cases T with
    | swd => exact absurd hop id
    | pio => exact absurd hop id
    | jtag => contradiction

theorem run_blocked {s : Link} {more : List Op} (hs : Settled T s)
    (hrun : Guarded (Link.step T) (fun _ => Sound T) s more) : Blocked T s more := by
  by_cases hT : T = .jtag
  · -- There is no fault over JTAG.
    subst hT
    intro hfault
    exact absurd (hs.fault.symm.trans hfault) Bool.false_ne_true
  · induction more generalizing s with
    | nil =>
      intro _ _
      rfl
    | cons op more ih =>
      intro hfault hcalls
      obtain ⟨hop, hmore⟩ := hrun
      obtain ⟨hfault', hap⟩ := step_blocked hT hfault (hcalls op (List.mem_cons_self ..)) hop
      have hnext := ih (step_settled hs hop) hmore hfault'
        fun op' hmem => hcalls op' (List.mem_cons_of_mem _ hmem)
      exact hnext.trans hap

theorem jtagPerform_wire (r : Request) (raised : Sticky) (data : UInt32) (s : Link) :
    (jtagPerform r raised data s).2.wire = s.wire := by
  unfold jtagPerform
  dsimp only
  split
  · split
    · rfl
    · rfl
  · split
    · split
      · rfl
      · rfl
    · rfl

theorem jtagTransfer_wire (answers : List Answer) (r : Request) (s : Link) :
    ∃ later, (finish (jtagTransfer answers r s)).wire = later ++ r :: s.wire := by
  induction answers generalizing s with
  | nil => exact ⟨[], jtagPerform_wire r .none 0 ((s.send r).give [])⟩
  | cons a rest ih =>
    cases a with
    | comply raised data parityOk => exact ⟨[], jtagPerform_wire r raised data ((s.send r).give rest)⟩
    | wait expired =>
      cases expired with
      | true => exact ⟨[abortRequest daPabort], rfl⟩
      | false =>
        obtain ⟨later, hwire⟩ := ih ((s.send r).give rest)
        refine ⟨later ++ [r], hwire.trans ?_⟩
        rw [List.append_assoc]
        rfl
    | fault => exact ⟨[], rfl⟩
    | noise => exact ⟨[], rfl⟩

/-- Without a fault a request to an access port is put on the wire. -/
theorem lowAccess_issued {s : Link} (h : s.dp.fault = false) (r : Request) (next : List Answer) :
    ∃ later, (s.step T (.lowAccess r next)).wire = later ++ r :: s.wire := by
  by_cases hT : T = .jtag
  · subst hT
    exact jtagTransfer_wire next r (s.give next)
  · have hfault : (s.give next).dp.fault = false := h
    show ∃ later, (finish (lowAccess T r (s.give next))).wire = later ++ r :: s.wire
    rw [lowAccess_swd hT, hfault, Bool.and_false, if_neg Bool.false_ne_true]
    exact swdTransfer_wire next r (s.give next)

theorem Settled.refused {s : Link} (h : Settled T s) : decide (s.sticky.bits ≠ 0) = s.refused := by
  have hiff : s.refused = true ↔ s.sticky ≠ .none := by
    unfold Settled at h
    split at h
    · exact Clear.refused h
    · exact Tracks.refused h
  rw [Bool.eq_iff_iff, decide_eq_true_iff, hiff, Ne, bits_eq_zero]

theorem check_cleared {s : Link} {answers : List Answer} (hs : Settled T s)
    (hop : Sound T (.error answers)) : Cleared T s answers := by
  -- What a normal end leaves, over either.
  have hend : ∀ err s', dpError T (s.give answers) = .ok err s' →
      err = s.sticky.bits ∧ s'.dp.fault = false ∧ s'.sticky = .none := by
    intro err s' heq
    by_cases hT : T = .jtag
    · subst hT
      have hclear : Clear s := hs
      rcases jtagCheck (s := s.give answers) hop hclear.wdataerr with
        ⟨s'', heq', hdp, hsticky⟩ | ⟨e, s'', heq', -⟩
      · rw [heq'] at heq
        cases heq
        exact ⟨rfl, (congrArg Dp.fault hdp).trans hclear.fault, hsticky⟩
      · rw [heq'] at heq
        contradiction
    · have hop' : ∀ a ∈ answers, a.quiet = true := by
        cases T with
        | swd => exact hop
        | pio => exact hop
        | jtag => contradiction
      rcases swdCheck hT (s := s.give answers) hop' with
        ⟨s'', heq', hfault, hsticky, -⟩ | ⟨e, s'', heq', -⟩
      · rw [heq'] at heq
        cases heq
        exact ⟨rfl, hfault, hsticky⟩
      · rw [heq'] at heq
        contradiction
  intro err s' heq
  obtain ⟨rfl, hfault, hsticky⟩ := hend err s' heq
  refine ⟨hfault, ?_, fun r next _ => lowAccess_issued hfault r next, ?_⟩
  · have hzero : Sticky.none.bits = 0 := by decide
    rw [hsticky, hzero, UInt32.zero_and]
  · rw [checkError_ok heq, hs.refused]

/-- Within the limits a fault blocks, and a check clears and reports it. -/
theorem fault_run {s : Link} (h : Fresh s) {ops more : List Op} {answers : List Answer}
    (hrun : Guarded (Link.step T) (fun _ => Sound T) s (ops ++ more))
    (hcheck : Sound T (.error answers)) :
    Blocked T (ops.foldl (Link.step T) s) more ∧ Cleared T (ops.foldl (Link.step T) s) answers := by
  have hsettled := hrun.of_append.invariant (I := Settled T) (fun _ _ => step_settled) h.settled
  exact ⟨run_blocked hsettled hrun.rest, check_cleared hsettled hcheck⟩

/-! ## Runs within the limits and beyond -/

/-- A debug port of version 2 with nothing on the wire. -/
def freshLink : Link := ⟨⟨false, 0x0BC12477, 0x01002927, true⟩, .none, 0, [], [], false⟩

/-- A read of `DRW`. -/
def drwRead : Request := ⟨true, apDrw, 0⟩

/-- A bus error is reported, and what follows it is withheld. -/
theorem fault_run_busError :
    Blocked .swd ([Op.lowAccess drwRead [.wait false, .comply ⟨false, false, true, false⟩ 0 true],
        .lowAccess drwRead []].foldl (Link.step .swd) freshLink) [.lowAccess drwRead []] ∧
      Cleared .swd ([Op.lowAccess drwRead [.wait false, .comply ⟨false, false, true, false⟩ 0 true],
        .lowAccess drwRead []].foldl (Link.step .swd) freshLink) [] := by
  apply fault_run ⟨rfl, rfl, rfl⟩
  · refine ⟨⟨?_, ?_⟩, ⟨?_, ?_⟩, ⟨?_, ?_⟩, trivial⟩ <;> decide
  · intro a ha
    contradiction

/-- After an attach over JTAG the fault is set, and nothing is blocked. -/
theorem jtag_attach_stuck :
    ¬∀ (T : Transport) (s : Link) (ops more : List Op) (answers : List Answer), Fresh s →
      Blocked T (ops.foldl (Link.step T) s) more ∧
        Cleared T (ops.foldl (Link.step T) s) answers := by
  intro h
  have hblocked := (h .jtag freshLink [.attach []] [.lowAccess drwRead []] [] ⟨rfl, rfl, rfl⟩).1
  have hfault : ([Op.attach []].foldl (Link.step .jtag) freshLink).dp.fault = true := by decide
  have hsame := hblocked hfault (by decide)
  revert hsame
  decide

end MiyakoLink.Adiv5
