import Mathlib.Data.Nat.Find
import MiyakoLink.Adiv5.Sticky

/-!
# The retry loop of an SWD access

The two implementations of `low_access` over SWD, for a target that answers its requests for ever,
and for a clock. The requests are numbered in the order in which they are on the wire, those of the
abort at the end of an access included: the abort is a write through `low_access` again, with a limit
of its own. The loops and the calls run on fuel.

* `ends_iff`: when an access ends with a bounded depth of the calls and no request behind its limit.
* `call_sameEnd`: an access that ends is the access of `swdTransfer` over the answers it got.
-/

namespace MiyakoLink.Adiv5.Retry

abbrev swdpAckOk : BitVec 3 := 1

abbrev swdpAckWait : BitVec 3 := 2

abbrev swdpAckFault : BitVec 3 := 4

/-- What the target sends after a request. The data and their parity are those of a read. -/
structure Reply where
  ack : BitVec 3
  data : UInt32
  parityOk : Bool

/-- The answers of a target, and the uptime in milliseconds before every request. -/
structure Wire where
  reply : Nat → Reply
  uptime : Nat → Nat

namespace Wire

/-- `platform_time_ms` before request `k`. -/
def timeMs (w : Wire) (k : Nat) : UInt32 := UInt32.ofNat (w.uptime k)

/-- `platform_timeout_is_expired` before request `k`, for the 20 ms set before request `s`. -/
def expired (w : Wire) (s k : Nat) : Bool := w.timeMs s + 20 < w.timeMs k

/-- The loop over the requests from `k` on, of an access whose first one is `s`: the last one. -/
def retry (w : Wire) (s : Nat) : Nat → Nat → Option Nat
  | 0, _ => none
  | fuel + 1, k =>
    if (w.reply k).ack = swdpAckWait ∧ w.expired s (k + 1) = false then w.retry s fuel (k + 1)
    else some k

end Wire

/-- How a call ends: with what, and with `dp->fault`. `depth` is the number of calls that were
active at once, and the spans are the first and the last request of each. -/
structure Call where
  result : Except DpException UInt32
  fault : Bool
  depth : Nat
  spans : List (Nat × Nat)

/-- The end of a call whose last request is not to wait. -/
def answered (reply : Reply) (r : Request) (fault : Bool) (span : Nat × Nat) : Call :=
  if reply.ack = swdpAckFault then ⟨.ok 0, true, 1, [span]⟩
  else if reply.ack ≠ swdpAckOk then ⟨.error .swdpInvalidAck, fault, 1, [span]⟩
  else if r.rnw then
    if reply.parityOk then ⟨.ok reply.data, fault, 1, [span]⟩
    else ⟨.error .swdpParityError, true, 1, [span]⟩
  else ⟨.ok 0, fault, 1, [span]⟩

/-- The end of a call behind its abort. -/
def Call.aborted (span : Nat × Nat) (abort : Call) : Call :=
  match abort.result with
  | .ok _ => ⟨.ok 0, true, abort.depth + 1, span :: abort.spans⟩
  | .error e => ⟨.error e, abort.fault, abort.depth + 1, span :: abort.spans⟩

/-- A call of `low_access` whose first request is number `s`. -/
def swdLowAccess (w : Wire) : Nat → Request → Bool → Nat → Option Call
  | 0, _, _, _ => none
  | fuel + 1, r, fault, s =>
    if r.ap && fault then some ⟨.ok 0, fault, 1, []⟩
    else do
      let k ← w.retry s fuel s
      if (w.reply k).ack = swdpAckWait then
        let abort ← swdLowAccess w fuel (abortRequest daPabort) fault (k + 1)
        return abort.aborted (s, k)
      else return answered (w.reply k) r fault (s, k)

/-- `firmware_swdp_low_access`. -/
def firmwareSwdpLowAccess (w : Wire) (fuel : Nat) (r : Request) (fault : Bool) (s : Nat) :
    Option Call := swdLowAccess w fuel r fault s

/-- `platform_target_interface_non_iso_swd_low_access`. It sends the data of a write with the
request. -/
def platformSwdLowAccess (w : Wire) (fuel : Nat) (r : Request) (fault : Bool) (s : Nat) :
    Option Call := swdLowAccess w fuel r fault s

/-- None of the calls makes a request more than 20 ms after its first one. -/
def Wire.Timely (w : Wire) (spans : List (Nat × Nat)) : Prop :=
  ∀ span ∈ spans, ∀ k, span.1 ≤ k → k ≤ span.2 → w.uptime k ≤ w.uptime span.1 + 20

/-- The call ends in time, and at most `D` calls are active at once. -/
def EndsWithin (D : Nat) (w : Wire) (access : Nat → Request → Bool → Nat → Option Call)
    (r : Request) (fault : Bool) (s : Nat) : Prop :=
  ∃ fuel c, access fuel r fault s = some c ∧ c.depth ≤ D ∧ w.Timely c.spans

/-! ## The condition -/

/-- The limit set before request `s` is not over before request `n`, and it has not been missed
when the counter of the milliseconds wrapped. -/
def Wire.Within (w : Wire) (s n : Nat) : Prop :=
  s ≤ n ∧ ∀ k, s < k → k ≤ n → w.expired s k = false ∧ w.uptime k ≤ w.uptime s + 20

/-- An acknowledge other than WAIT comes within one of `D` limits, of which the first is set before
request `s` and every other one when that before it is over. -/
def Wire.InTime (w : Wire) : Nat → Nat → Prop
  | 0, _ => False
  | D + 1, s =>
    (∃ n, w.Within s n ∧ (w.reply n).ack ≠ swdpAckWait) ∨
      ∃ n, w.Within s n ∧ w.expired s (n + 1) = true ∧ w.InTime D (n + 1)

/-! ## The loop -/

theorem retry_again {w : Wire} {s k : Nat}
    (h : (w.reply k).ack = swdpAckWait ∧ w.expired s (k + 1) = false) (fuel : Nat) :
    w.retry s (fuel + 1) k = w.retry s fuel (k + 1) :=
  if_pos h

theorem retry_stop {w : Wire} {s k : Nat}
    (h : ¬((w.reply k).ack = swdpAckWait ∧ w.expired s (k + 1) = false)) (fuel : Nat) :
    w.retry s (fuel + 1) k = some k :=
  if_neg h

theorem retry_some {w : Wire} {s fuel k n : Nat} (h : w.retry s fuel k = some n) :
    k ≤ n ∧ (∀ m, k ≤ m → m < n →
        (w.reply m).ack = swdpAckWait ∧ w.expired s (m + 1) = false) ∧
      ((w.reply n).ack = swdpAckWait → w.expired s (n + 1) = true) := by
  induction fuel generalizing k with
  | zero => exact absurd h nofun
  | succ fuel ih =>
    by_cases hgo : (w.reply k).ack = swdpAckWait ∧ w.expired s (k + 1) = false
    · rw [retry_again hgo] at h
      obtain ⟨hle, hbefore, hlast⟩ := ih h
      refine ⟨by omega, fun m hm hlt => ?_, hlast⟩
      rcases Nat.eq_or_lt_of_le hm with rfl | hm
      · exact hgo
      · exact hbefore m hm hlt
    · rw [retry_stop hgo] at h
      obtain rfl := Option.some.inj h
      refine ⟨Nat.le_refl k, fun m hm hlt => by omega, fun hwait => ?_⟩
      exact Bool.not_eq_false _ ▸ fun hnot => hgo ⟨hwait, hnot⟩

theorem retry_of {w : Wire} {s fuel k n : Nat} (hle : k ≤ n) (hfuel : n < k + fuel)
    (hbefore : ∀ m, k ≤ m → m < n →
      (w.reply m).ack = swdpAckWait ∧ w.expired s (m + 1) = false)
    (hlast : (w.reply n).ack = swdpAckWait → w.expired s (n + 1) = true) :
    w.retry s fuel k = some n := by
  induction fuel generalizing k with
  | zero => omega
  | succ fuel ih =>
    rcases Nat.eq_or_lt_of_le hle with rfl | hlt
    · have hstop : ¬((w.reply k).ack = swdpAckWait ∧ w.expired s (k + 1) = false) := by
        rintro ⟨hwait, hnot⟩
        exact absurd (hlast hwait) (hnot ▸ nofun)
      exact retry_stop hstop fuel
    · rw [retry_again (hbefore k (Nat.le_refl k) hlt)]
      exact ih hlt (by omega) fun m hm => hbefore m (by omega)

/-- The loop stops at the first request that it may stop at. -/
theorem exists_stop {w : Wire} {s n : Nat} (hwithin : w.Within s n)
    (hstop : (w.reply n).ack ≠ swdpAckWait ∨ w.expired s (n + 1) = true) :
    ∃ e, s ≤ e ∧ e ≤ n ∧ (∀ m, s ≤ m → m < e →
        (w.reply m).ack = swdpAckWait ∧ w.expired s (m + 1) = false) ∧
      ((w.reply e).ack ≠ swdpAckWait ∨ e = n ∧ w.expired s (n + 1) = true) := by
  have hex : ∃ e, s ≤ e ∧ ((w.reply e).ack ≠ swdpAckWait ∨ e = n) := ⟨n, hwithin.1, Or.inr rfl⟩
  obtain ⟨hle, hcase⟩ := Nat.find_spec hex
  have hmin : ∀ m, s ≤ m → m < Nat.find hex → (w.reply m).ack = swdpAckWait ∧ m ≠ n := by
    intro m hm hlt
    have hnot := Nat.find_min hex hlt
    exact ⟨by_contra fun hack => hnot ⟨hm, Or.inl hack⟩, fun heq => hnot ⟨hm, Or.inr heq⟩⟩
  have hn : Nat.find hex ≤ n := Nat.find_le ⟨hwithin.1, Or.inr rfl⟩
  refine ⟨Nat.find hex, hle, hn, fun m hm hlt => ?_, ?_⟩
  · exact ⟨(hmin m hm hlt).1, (hwithin.2 (m + 1) (by omega) (by omega)).1⟩
  · rcases hcase with hack | heq
    · exact Or.inl hack
    · rw [heq]
      exact hstop.imp id fun hexp => ⟨rfl, hexp⟩

/-! ## The calls -/

theorem answered_spans (reply : Reply) (r : Request) (fault : Bool) (span : Nat × Nat) :
    (answered reply r fault span).depth = 1 ∧ (answered reply r fault span).spans = [span] := by
  unfold answered
  repeat' split
  all_goals exact ⟨rfl, rfl⟩

theorem aborted_spans (span : Nat × Nat) (abort : Call) :
    (abort.aborted span).depth = abort.depth + 1 ∧
      (abort.aborted span).spans = span :: abort.spans := by
  unfold Call.aborted
  cases abort.result with
  | ok _ => exact ⟨rfl, rfl⟩
  | error _ => exact ⟨rfl, rfl⟩

theorem call_off {w : Wire} {fuel s : Nat} {r : Request} {fault : Bool}
    (hoff : (r.ap && fault) = true) :
    swdLowAccess w (fuel + 1) r fault s = some ⟨.ok 0, fault, 1, []⟩ :=
  if_pos hoff

theorem call_on {w : Wire} {fuel s : Nat} {r : Request} {fault : Bool}
    (hon : (r.ap && fault) = false) :
    swdLowAccess w (fuel + 1) r fault s = (w.retry s fuel s).bind fun k =>
      if (w.reply k).ack = swdpAckWait then
        (swdLowAccess w fuel (abortRequest daPabort) fault (k + 1)).bind fun abort =>
          some (abort.aborted (s, k))
      else some (answered (w.reply k) r fault (s, k)) :=
  if_neg (Bool.eq_false_iff.mp hon)

/-- An access whose last request is not to wait is over with it. -/
theorem call_answered {w : Wire} {fuel s k : Nat} {r : Request} {fault : Bool}
    (hon : (r.ap && fault) = false) (hretry : w.retry s fuel s = some k)
    (hack : (w.reply k).ack ≠ swdpAckWait) :
    swdLowAccess w (fuel + 1) r fault s = some (answered (w.reply k) r fault (s, k)) := by
  rw [call_on hon, hretry]
  exact if_neg hack

/-- One whose limit is over ends with the abort. -/
theorem call_waits {w : Wire} {fuel s k : Nat} {r : Request} {fault : Bool}
    (hon : (r.ap && fault) = false) (hretry : w.retry s fuel s = some k)
    (hack : (w.reply k).ack = swdpAckWait) :
    swdLowAccess w (fuel + 1) r fault s =
      (swdLowAccess w fuel (abortRequest daPabort) fault (k + 1)).map (Call.aborted (s, k)) := by
  rw [call_on hon, hretry]
  refine (if_pos hack).trans ?_
  cases swdLowAccess w fuel (abortRequest daPabort) fault (k + 1) with
  | none => rfl
  | some abort => rfl

theorem abortRequest_on (fault : Bool) : ((abortRequest daPabort).ap && fault) = false :=
  Bool.false_and fault

/-- The requests of a span that the loop has made. -/
theorem within_of_retry {w : Wire} {fuel s k : Nat} (hretry : w.retry s fuel s = some k)
    (htimely : ∀ m, s ≤ m → m ≤ k → w.uptime m ≤ w.uptime s + 20) : w.Within s k := by
  obtain ⟨hle, hbefore, -⟩ := retry_some hretry
  refine ⟨hle, fun m hm hk => ⟨?_, htimely m (by omega) hk⟩⟩
  have hexp := (hbefore (m - 1) (by omega) (by omega)).2
  rwa [Nat.sub_add_cancel (by omega)] at hexp

/-- A call that ends has been answered in time. -/
theorem inTime_of_call {w : Wire} {fuel D s : Nat} {r : Request} {fault : Bool} {c : Call}
    (hon : (r.ap && fault) = false) (hcall : swdLowAccess w fuel r fault s = some c)
    (hdepth : c.depth ≤ D) (htimely : w.Timely c.spans) : w.InTime D s := by
  induction fuel generalizing D s r c with
  | zero => exact absurd hcall nofun
  | succ fuel ih =>
    cases hretry : w.retry s fuel s with
    | none =>
      rw [call_on hon, hretry] at hcall
      exact absurd hcall nofun
    | some k =>
      by_cases hack : (w.reply k).ack = swdpAckWait
      · rw [call_waits hon hretry hack] at hcall
        obtain ⟨abort, habort, hc⟩ := Option.map_eq_some_iff.mp hcall
        rw [← hc, (aborted_spans _ abort).2] at htimely
        rw [← hc, (aborted_spans _ abort).1] at hdepth
        obtain ⟨hspan, hrest⟩ := List.forall_mem_cons.mp htimely
        cases D with
        | zero => omega
        | succ D =>
          refine Or.inr ⟨k, within_of_retry hretry hspan, (retry_some hretry).2.2 hack, ?_⟩
          exact ih (abortRequest_on fault) habort (by omega) hrest
      · obtain rfl := Option.some.inj ((call_answered hon hretry hack).symm.trans hcall)
        rw [(answered_spans _ r fault (s, k)).1] at hdepth
        rw [(answered_spans _ r fault (s, k)).2] at htimely
        cases D with
        | zero => omega
        | succ D =>
          exact Or.inl ⟨k, within_of_retry hretry (List.forall_mem_singleton.mp htimely), hack⟩

/-- The requests up to one within the limit are not late. -/
theorem span_timely {w : Wire} {s n e : Nat} (h : w.Within s n) (he : e ≤ n) :
    ∀ m, s ≤ m → m ≤ e → w.uptime m ≤ w.uptime s + 20 := by
  intro m hm hme
  rcases Nat.eq_or_lt_of_le hm with rfl | hlt
  · exact Nat.le_add_right _ _
  · exact (h.2 m hlt (by omega)).2

/-- An access that is answered in time ends, with any fuel from some on. -/
theorem call_of_inTime {w : Wire} {D s : Nat} {r : Request} {fault : Bool}
    (hon : (r.ap && fault) = false) (h : w.InTime D s) :
    ∃ least c, (∀ fuel, least ≤ fuel → swdLowAccess w fuel r fault s = some c) ∧ c.depth ≤ D ∧
      w.Timely c.spans := by
  induction D generalizing s r with
  | zero => exact absurd h nofun
  | succ D ih =>
    obtain ⟨n, hwithin, hstop, hnext⟩ : ∃ n, w.Within s n ∧
        ((w.reply n).ack ≠ swdpAckWait ∨ w.expired s (n + 1) = true) ∧
        ((w.reply n).ack = swdpAckWait → w.InTime D (n + 1)) := by
      rcases h with ⟨n, hwithin, hack⟩ | ⟨n, hwithin, hexp, hnext⟩
      · exact ⟨n, hwithin, Or.inl hack, fun hwait => absurd hwait hack⟩
      · exact ⟨n, hwithin, Or.inr hexp, fun _ => hnext⟩
    obtain ⟨e, hle, hen, hbefore, hlast⟩ := exists_stop hwithin hstop
    have hspan := span_timely hwithin hen
    have hretry : ∀ fuel, e + 1 ≤ fuel → w.retry s fuel s = some e := by
      intro fuel hfuel
      refine retry_of hle (by omega) hbefore fun hwait => ?_
      rcases hlast with hack | ⟨rfl, hexp⟩
      · exact absurd hwait hack
      · exact hexp
    by_cases hack : (w.reply e).ack = swdpAckWait
    · have hen' : e = n := by
        rcases hlast with hnot | ⟨heq, -⟩
        · exact absurd hack hnot
        · exact heq
      subst hen'
      obtain ⟨least, abort, hrun, hdepth, htimely⟩ := ih (abortRequest_on fault) (hnext hack)
      refine ⟨max least (e + 1) + 1, abort.aborted (s, e), fun fuel hfuel => ?_, ?_, ?_⟩
      · obtain ⟨fuel, rfl⟩ : ∃ k, fuel = k + 1 := ⟨fuel - 1, by omega⟩
        rw [call_waits hon (hretry fuel (by omega)) hack, hrun fuel (by omega), Option.map_some]
      · rw [(aborted_spans _ abort).1]
        exact Nat.succ_le_succ hdepth
      · rw [Wire.Timely, (aborted_spans _ abort).2]
        exact List.forall_mem_cons.mpr ⟨hspan, htimely⟩
    · refine ⟨e + 2, answered (w.reply e) r fault (s, e), fun fuel hfuel => ?_, ?_, ?_⟩
      · obtain ⟨fuel, rfl⟩ : ∃ k, fuel = k + 1 := ⟨fuel - 1, by omega⟩
        exact call_answered hon (hretry fuel (by omega)) hack
      · rw [(answered_spans _ r fault (s, e)).1]
        exact Nat.succ_le_succ (Nat.zero_le D)
      · rw [Wire.Timely, (answered_spans _ r fault (s, e)).2]
        exact List.forall_mem_singleton.mpr hspan

/-- The same body ends the same way under both names. -/
theorem swdEnds_iff (D : Nat) (w : Wire) (r : Request) (fault : Bool) (s : Nat) :
    EndsWithin D w (swdLowAccess w) r fault s ↔
      if r.ap && fault then 1 ≤ D else w.InTime D s := by
  cases hon : r.ap && fault with
  | true =>
    rw [if_pos rfl]
    constructor
    · rintro ⟨fuel, c, hcall, hdepth, -⟩
      cases fuel with
      | zero => exact absurd hcall nofun
      | succ fuel =>
        obtain rfl := Option.some.inj ((call_off hon).symm.trans hcall)
        exact hdepth
    · exact fun hD => ⟨1, _, call_off hon, hD, fun _ hmem => absurd hmem List.not_mem_nil⟩
  | false =>
    rw [if_neg Bool.false_ne_true]
    constructor
    · rintro ⟨fuel, c, hcall, hdepth, htimely⟩
      exact inTime_of_call hon hcall hdepth htimely
    · intro h
      obtain ⟨least, c, hrun, hdepth, htimely⟩ := call_of_inTime hon h
      exact ⟨least, c, hrun least (Nat.le_refl _), hdepth, htimely⟩

/-- Both accesses end with at most `D` calls at once if and only if they are not made at all, or an
acknowledge other than WAIT comes within `D` limits. -/
theorem ends_iff (D : Nat) (w : Wire) (r : Request) (fault : Bool) (s : Nat) :
    (EndsWithin D w (firmwareSwdpLowAccess w) r fault s ↔
        if r.ap && fault then 1 ≤ D else w.InTime D s) ∧
      (EndsWithin D w (platformSwdLowAccess w) r fault s ↔
        if r.ap && fault then 1 ≤ D else w.InTime D s) :=
  ⟨swdEnds_iff D w r fault s, swdEnds_iff D w r fault s⟩

/-- A target that never does anything but wait, with a request a millisecond. -/
def busy : Wire := ⟨fun _ => ⟨swdpAckWait, 0, true⟩, fun k => k⟩

theorem busy_not_inTime (D s : Nat) : ¬busy.InTime D s := by
  induction D generalizing s with
  | zero => exact id
  | succ D ih =>
    rintro (⟨n, -, hack⟩ | ⟨n, -, -, hnext⟩)
    · exact hack rfl
    · exact ih (n + 1) hnext

/-- Its aborts wait as well, and are aborted. -/
theorem busy_never_ends :
    ¬∃ D, ∀ (w : Wire) (r : Request) (fault : Bool) (s : Nat),
      EndsWithin D w (firmwareSwdpLowAccess w) r fault s ∧
        EndsWithin D w (platformSwdLowAccess w) r fault s := by
  rintro ⟨D, h⟩
  have hends := (h busy ⟨true, dpIdcode, 0⟩ false 0).1
  exact busy_not_inTime D 0 ((swdEnds_iff D busy ⟨true, dpIdcode, 0⟩ false 0).mp hends)

/-! ## The answers as a list -/

/-- The last answer of a call. -/
def Reply.answer (reply : Reply) : Answer :=
  if reply.ack = swdpAckWait then .wait true
  else if reply.ack = swdpAckFault then .fault
  else if reply.ack ≠ swdpAckOk then .noise
  else .comply .none reply.data reply.parityOk

def Wire.answers (w : Wire) (spans : List (Nat × Nat)) : List Answer :=
  spans.flatMap fun span =>
    List.replicate (span.2 - span.1) (.wait false) ++ [(w.reply span.2).answer]

/-- The access over the list has ended as the call has. -/
def SameEnd (c : Call) (e : Ended UInt32) : Prop :=
  match c.result, e with
  | .ok _, .ok _ l => l.dp.fault = c.fault
  | .error ex, .error ex' l => ex = ex' ∧ l.dp.fault = c.fault
  | _, _ => False

theorem swdTransfer_waits (n : Nat) (rest : List Answer) (r : Request) (l : Link) :
    ∃ l' : Link, l'.dp = l.dp ∧ l'.sticky = l.sticky ∧
      swdTransfer (List.replicate n (.wait false) ++ rest) r l = swdTransfer rest r l' := by
  induction n generalizing l with
  | zero => exact ⟨l, rfl, rfl, rfl⟩
  | succ n ih =>
    obtain ⟨l', hdp, hsticky, hrun⟩ := ih ((l.send r).give (List.replicate n (.wait false) ++ rest))
    exact ⟨l', hdp, hsticky, hrun⟩

/-- The end of an access that the target takes. -/
theorem complied_sameEnd {reply : Reply} (hok : reply.ack = swdpAckOk) (r : Request)
    (span : Nat × Nat) {l : Link} (hsticky : l.sticky = .none) :
    SameEnd (answered reply r l.dp.fault span)
      (swdTransfer [.comply .none reply.data reply.parityOk] r l) := by
  have hreply : swdReply l.sticky r (.comply .none reply.data reply.parityOk) =
      .comply .none reply.data reply.parityOk := if_neg fun h => h.1 hsticky
  have hrun : swdTransfer [.comply .none reply.data reply.parityOk] r l =
      swdAnswer r .none reply.data reply.parityOk ((l.send r).give []) := by
    unfold swdTransfer
    rw [hreply]
  have hdp := (swdPerform_frame r .none reply.data ((l.send r).give [])).1
  have hack : swdpAckOk ≠ swdpAckFault := by decide
  rw [hrun]
  unfold swdAnswer answered
  rw [hok, if_neg hack, if_neg (not_not_intro rfl)]
  generalize swdPerform r .none reply.data ((l.send r).give []) = done at hdp ⊢
  obtain ⟨data, l'⟩ := done
  cases r.rnw with
  | true =>
    cases reply.parityOk with
    | true => exact congrArg Dp.fault hdp
    | false => exact ⟨rfl, rfl⟩
  | false => exact congrArg Dp.fault hdp

/-- The end of an access without an abort. -/
theorem answered_sameEnd {reply : Reply} (hack : reply.ack ≠ swdpAckWait) (r : Request)
    (span : Nat × Nat) {l : Link} (hsticky : l.sticky = .none) :
    SameEnd (answered reply r l.dp.fault span) (swdTransfer [reply.answer] r l) := by
  unfold Reply.answer
  rw [if_neg hack]
  by_cases hfault : reply.ack = swdpAckFault
  · rw [if_pos hfault, answered, if_pos hfault]
    exact rfl
  · rw [if_neg hfault]
    by_cases hok : reply.ack = swdpAckOk
    · rw [if_neg (not_not_intro hok)]
      exact complied_sameEnd hok r span hsticky
    · rw [if_pos hok, answered, if_neg hfault, if_pos hok]
      exact ⟨rfl, rfl⟩

/-- The end of an access with one. -/
theorem aborted_sameEnd {w : Wire} {k : Nat} (hack : (w.reply k).ack = swdpAckWait) (r : Request)
    (s : Nat) {abort : Call} {l : Link}
    (h : SameEnd abort (swdTransfer (w.answers abort.spans) (abortRequest daPabort)
      ((l.send r).give (w.answers abort.spans)))) :
    SameEnd (abort.aborted (s, k))
      (swdTransfer ((w.reply k).answer :: w.answers abort.spans) r l) := by
  have hanswer : (w.reply k).answer = .wait true := if_pos hack
  rw [hanswer]
  unfold swdTransfer
  dsimp only [swdReply]
  unfold Call.aborted
  generalize swdTransfer (w.answers abort.spans) (abortRequest daPabort)
    ((l.send r).give (w.answers abort.spans)) = e at h ⊢
  unfold SameEnd at h
  cases hresult : abort.result with
  | ok v =>
    rw [hresult] at h
    cases e with
    | ok v' l' => exact rfl
    | error ex l' => exact h.elim
  | error ex =>
    rw [hresult] at h
    cases e with
    | ok v' l' => exact h.elim
    | error ex' l' => exact h

/-- A call that ends is an access over the list of the answers that it got. -/
theorem call_sameEnd {w : Wire} {fuel s : Nat} {r : Request} {l : Link} {c : Call}
    (hon : (r.ap && l.dp.fault) = false) (hsticky : l.sticky = .none)
    (hcall : swdLowAccess w fuel r l.dp.fault s = some c) :
    SameEnd c (swdTransfer (w.answers c.spans) r l) := by
  induction fuel generalizing s r l c with
  | zero => exact absurd hcall nofun
  | succ fuel ih =>
    cases hretry : w.retry s fuel s with
    | none =>
      rw [call_on hon, hretry] at hcall
      exact absurd hcall nofun
    | some k =>
      by_cases hack : (w.reply k).ack = swdpAckWait
      · rw [call_waits hon hretry hack] at hcall
        obtain ⟨abort, habort, rfl⟩ := Option.map_eq_some_iff.mp hcall
        rw [(aborted_spans _ abort).2, Wire.answers, List.flatMap_cons, List.append_assoc]
        obtain ⟨l', hdp, hsticky', hrun⟩ := swdTransfer_waits (k - s)
          ([(w.reply k).answer] ++ w.answers abort.spans) r l
        have hend := @ih (k + 1) (abortRequest daPabort)
          ((l'.send r).give (w.answers abort.spans)) abort (abortRequest_on _)
          (hsticky'.trans hsticky) (by rw [← habort, ← hdp]; rfl)
        have := aborted_sameEnd hack r s hend
        rw [← List.singleton_append, ← hrun] at this
        exact this
      · obtain rfl := Option.some.inj ((call_answered hon hretry hack).symm.trans hcall)
        rw [(answered_spans _ r _ (s, k)).2, Wire.answers, List.flatMap_singleton]
        obtain ⟨l', hdp, hsticky', hrun⟩ := swdTransfer_waits (k - s) [(w.reply k).answer] r l
        rw [hrun, ← hdp]
        exact answered_sameEnd hack r (s, k) (hsticky'.trans hsticky)

end MiyakoLink.Adiv5.Retry
