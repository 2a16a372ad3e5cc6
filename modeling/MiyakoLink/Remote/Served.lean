import MiyakoLink.Remote.Safety

/-!
# Which remote packets are served

A handler is followed from a state in which it has only read its packet (`Clean`) to an answer, to
a read behind the packet, or to the call of a function that is not set.

* `served_iff`: at start-up the harmless packets are served, and no others.
* `allServed_iff`: every packet of a run is served exactly if all are harmless.
-/

namespace MiyakoLink.Remote

open Lib
open Packet (Buffer)

variable {size : Nat} {τ α : Type}

/-- The handler has read its packet and done nothing else. -/
structure Clean (b : Body size) (lower : τ) (s : State (Env τ)) : Prop where
  packet : s.packet = b.packet
  env : s.env = Env.start lower
  out : s.out = []
  within : Within size b.i s.trace
  reads : ∀ k, Access.write k ∉ s.trace

/-- The handler has done what it should exactly if `H`, and then without a use of the target. -/
def Verdict (b : Body size) (lower : τ) (H : Prop) (s : State (Env τ)) : Prop :=
  (Good b s ↔ H) ∧ (H → s.env = Env.start lower)

theorem Verdict.of_not {b : Body size} {lower : τ} {H : Prop} {s : State (Env τ)} (hH : ¬ H)
    (h : ¬ Good b s) : Verdict b lower H s := ⟨iff_of_false h hH, fun h => absurd h hH⟩

variable {b : Body size} {lower : τ} {H : Prop} {s : State (Env τ)} {P : Port (Bool × τ)}

/-- A run that goes wrong. -/
theorem leads_of_spoilt {m : Handler (Env τ) Unit} (hH : ¬ H) (h : Leads (Spoilt b) m s) :
    Leads (Verdict b lower H) m s := by
  unfold Leads at h ⊢
  cases hrun : m s with
  | ok a s' =>
    rw [hrun] at h
    exact .of_not hH (Spoilt.not_good h)
  | error e s' =>
    rw [hrun] at h
    exact .of_not hH (Spoilt.not_good h)

theorem call_spoilt {op : Op (Env τ) α} {f : α → Handler (Env τ) Unit}
    (hop : ¬ CalledSet (op s.env).2.log) (hstays : ∀ a, Stays b (f a)) :
    Leads (Spoilt b) (call op >>= f) s := by
  show Ends _ _ (EStateM.bind (call op) f s)
  unfold EStateM.bind call
  cases hrun : op s.env with
  | mk a e =>
    rw [hrun] at hop
    cases a with
    | none => exact fun hgood => hop hgood.2
    | some a =>
      apply hstays a
      exact fun hgood => hop hgood.2

theorem leads_modify {Q : State (Env τ) → Prop} {g : State (Env τ) → State (Env τ)}
    {f : PUnit → Handler (Env τ) Unit} (h : Leads Q (f ⟨⟩) (g s)) : Leads Q (modify g >>= f) s := h

theorem leads_srcBytes {Q : State (Env τ) → Prop} {n : Nat}
    {f : List UInt8 → Handler (Env τ) Unit}
    (h : ∀ trace data, Leads Q (f data) { s with trace := trace }) :
    Leads Q (srcBytes (firmware P) n >>= f) s := h _ _

namespace Clean

theorem packetAt {pos : Nat} {f : UInt8 → Handler (Env τ) Unit} (hs : Clean b lower s)
    (hpos : pos ≤ b.i)
    (hf : ∀ s', Clean b lower s' → Leads (Verdict b lower H) (f (b.packet pos)) s') :
    Leads (Verdict b lower H) (packetAt pos >>= f) s := by
  rw [← hs.packet] at hf
  apply hf
  refine ⟨hs.packet, hs.env, hs.out, ⟨Or.inl hpos, hs.within⟩, ?_⟩
  intro k hk
  cases hk with
  | tail _ hk => exact hs.reads k hk

/-- A number in the packet. -/
theorem inside {limit pos : Nat} {f : UInt64 → Handler (Env τ) Unit} (hs : Clean b lower s)
    (hpos : pos ≤ b.i)
    (hf : ∀ s', Clean b lower s' →
      Leads (Verdict b lower H) (f (remotehston limit b.packet pos)) s') :
    Leads (Verdict b lower H) (number limit pos >>= f) s := by
  rw [← hs.packet] at hf
  apply hf
  refine ⟨hs.packet, hs.env, hs.out, within_reads hs.within ?_, touched_read_writes hs.reads⟩
  rw [hs.packet]
  exact hstonLength_le b.ended limit hpos

/-- A number behind the packet. -/
theorem behind {limit pos : Nat} {f : UInt64 → Handler (Env τ) Unit} (hs : Clean b lower s)
    (hlimit : 0 < limit) (hpos : b.i < pos) (hH : ¬ H) (hstays : ∀ n, Stays b (f n)) :
    Leads (Verdict b lower H) (number limit pos >>= f) s := by
  apply leads_of_spoilt hH
  apply hstays
  intro hgood
  exact not_within_read hs.reads hpos (hstonLength_pos s.packet hlimit pos) hgood.1

/-- A number that has to be in the packet. -/
theorem number {limit pos : Nat} {f : UInt64 → Handler (Env τ) Unit} (hs : Clean b lower s)
    (hlimit : 0 < limit) (hH : H → pos ≤ b.i) (hstays : ∀ n, Stays b (f n))
    (hf : pos ≤ b.i → ∀ s', Clean b lower s' →
      Leads (Verdict b lower H) (f (remotehston limit b.packet pos)) s') :
    Leads (Verdict b lower H) (number limit pos >>= f) s := by
  by_cases hpos : pos ≤ b.i
  · exact hs.inside hpos (hf hpos)
  · exact hs.behind hlimit (by omega) (fun h => hpos (hH h)) hstays

/-- Two numbers that have to be in the packet. -/
theorem numbers {limit limit' pos pos' : Nat} {f : UInt64 → UInt64 → Handler (Env τ) Unit}
    (hs : Clean b lower s) (hlimit : 0 < limit) (hlimit' : 0 < limit')
    (hH : H → pos ≤ b.i ∧ pos' ≤ b.i) (hstays : ∀ m n, Stays b (f m n))
    (hf : pos' ≤ b.i → ∀ s', Clean b lower s' →
      Leads (Verdict b lower H) (f (remotehston limit b.packet pos)
        (remotehston limit' b.packet pos')) s') :
    Leads (Verdict b lower H)
      (Remote.number limit pos >>= fun m => Remote.number limit' pos' >>= f m) s := by
  apply hs.number hlimit (fun h => (hH h).1)
  · exact fun m => .bind (.number _ _) (hstays m)
  · intro _ s' hs'
    exact hs'.number hlimit' (fun h => (hH h).2) (hstays _) hf

/-- A function is called that is not set. -/
theorem call {op : Op (Env τ) α} {f : α → Handler (Env τ) Unit} (hs : Clean b lower s) (hH : ¬ H)
    (hop : ¬ CalledSet (op (Env.start lower)).2.log) (hstays : ∀ a, Stays b (f a)) :
    Leads (Verdict b lower H) (call op >>= f) s := by
  apply leads_of_spoilt hH
  apply call_spoilt _ hstays
  rw [hs.env]
  exact hop

theorem answer {code : UInt8} {data : List UInt8} (hs : Clean b lower s) (hH : H)
    (hdata : 0x23 ∉ data) (hblock : b.blockLength = none ∨ code ≠ respOk) :
    Leads (Verdict b lower H) (putchars (0x26 :: code :: (data ++ [0x23]))) s := by
  refine ⟨iff_of_true ⟨hs.within, ?_, code, data, ?_, hdata, ?_⟩ hH, fun _ => hs.env⟩
  · rw [hs.env]
    trivial
  · rw [hs.out]
    rfl
  · intro n hn hcode
    rcases hblock with hblock | hblock
    · rw [hblock] at hn
      contradiction
    · contradiction

theorem respond {code : UInt8} {param : UInt64} (hs : Clean b lower s) (hH : H)
    (hdigits : 0x23 ∉ digits param) (hblock : b.blockLength = none ∨ code ≠ respOk) :
    Leads (Verdict b lower H) (respond code param) s := hs.answer hH hdigits hblock

/-- The characters of a text that are sent. -/
theorem respondS {code : UInt8} {text : List UInt8} (hs : Clean b lower s) (hH : H)
    (hblock : b.blockLength = none ∨ code ≠ respOk) :
    Leads (Verdict b lower H) (respondS code text) s := by
  apply hs.answer hH _ hblock
  intro hmem
  obtain ⟨c, -, hc⟩ := List.mem_map.mp hmem
  split at hc
  case isTrue => exact absurd hc (by decide)
  case isFalse h => exact h (Or.inr (Or.inr hc))

theorem error {param : UInt64} (hs : Clean b lower s) (hH : H) (hdigits : 0x23 ∉ digits param) :
    Leads (Verdict b lower H) (Remote.respond respErr param) s :=
  hs.respond hH hdigits (Or.inr (by decide))

/-- A handler that answers nothing. -/
theorem silent (hs : Clean b lower s) (hH : ¬ H) :
    Leads (Verdict b lower H) (pure () : Handler (Env τ) Unit) s := by
  apply Verdict.of_not hH
  intro hgood
  obtain ⟨code, data, hout, -⟩ := hgood.answered
  rw [hs.out] at hout
  contradiction

end Clean

theorem unset_logged {events : List Event} {op : Op (Bool × τ) α} (h : ¬ CalledSet events) :
    ¬ CalledSet (logged events op (Env.start lower)).2.log := by
  show ¬ CalledSet (events ++ [])
  rw [List.append_nil]
  exact h

theorem error_digits : (0x23 : UInt8) ∉ digits 0 ∧ 0x23 ∉ digits errorUnrecognised ∧
    0x23 ∉ digits errorWronglen ∧ 0x23 ∉ digits remoteHlVersion := by
  decide

/-- A character that is not NUL is in front of the end. -/
theorem Body.lt_of_ne {k : Nat} (h : b.packet k ≠ 0) : b.i ≠ k := by
  intro hi
  apply h
  rw [← hi]
  exact b.ended

/-! ## The handlers -/

section

variable (hs : Clean b lower s)

include hs

theorem remotePacketProcessSWD_verdict (h0 : b.packet 0 = 0x53) (hi : 1 ≤ b.i) :
    Leads (Verdict b lower (Harmless b)) (remotePacketProcessSWD (firmware P) b.i) s := by
  obtain ⟨-, hunrecognised, hwronglen, -⟩ := error_digits
  apply hs.packetAt hi
  intro s' hs'
  split
  case h_1 h => -- REMOTE_INIT
    split
    case isTrue hlength =>
      apply hs'.call (by simp [Harmless, h0, h, hlength]) (unset_logged (by simp [CalledSet]))
      exact fun _ => .respond _ _
    case isFalse hlength => exact hs'.error (by simp [Harmless, h0, h, hlength]) hwronglen
  case h_2 h => -- REMOTE_IN_PAR
    have hH : ¬ Harmless b := by simp [Harmless, h0, h]
    apply hs'.number (by decide) (fun hH' => absurd hH' hH)
    · exact fun n => .bind (.call (adds_logged _ _)) fun _ => .respond _ _
    · intro _ s'' hs''
      exact hs''.call hH (unset_logged (by simp [CalledSet])) fun _ => .respond _ _
  case h_3 h => -- REMOTE_IN
    have hH : ¬ Harmless b := by simp [Harmless, h0, h]
    apply hs'.number (by decide) (fun hH' => absurd hH' hH)
    · exact fun n => .bind (.call (adds_logged _ _)) fun _ => .respond _ _
    · intro _ s'' hs''
      exact hs''.call hH (unset_logged (by simp [CalledSet])) fun _ => .respond _ _
  case h_4 h => -- REMOTE_OUT
    have hH : ¬ Harmless b := by simp [Harmless, h0, h]
    apply hs'.numbers (by decide) (by decide) (fun hH' => absurd hH' hH)
    · exact fun _ _ => .bind (.call (adds_logged _ _)) fun _ => .respond _ _
    · intro _ s'' hs''
      exact hs''.call hH (unset_logged (by simp [CalledSet])) fun _ => .respond _ _
  case h_5 h => -- REMOTE_OUT_PAR
    have hH : ¬ Harmless b := by simp [Harmless, h0, h]
    apply hs'.numbers (by decide) (by decide) (fun hH' => absurd hH' hH)
    · exact fun _ _ => .bind (.call (adds_logged _ _)) fun _ => .respond _ _
    · intro _ s'' hs''
      exact hs''.call hH (unset_logged (by simp [CalledSet])) fun _ => .respond _ _
  case h_6 hS hI hi ho hO =>
    exact hs'.error (by simp_all [Harmless]) hunrecognised

theorem remotePacketProcessJTAG_verdict (h0 : b.packet 0 = 0x4A) (hi : 1 ≤ b.i) :
    Leads (Verdict b lower (Harmless b)) (remotePacketProcessJTAG (firmware P) b.i) s := by
  obtain ⟨hzero, hunrecognised, hwronglen, -⟩ := error_digits
  have hblock : b.blockLength = none := by simp [Body.blockLength, h0]
  apply hs.packetAt hi
  intro s' hs'
  split
  case h_1 h => -- REMOTE_INIT
    apply hs'.call (by simp [Harmless, h0, h]) (unset_logged (by simp [CalledSet]))
    exact fun _ => .respond _ _
  case h_2 h => -- REMOTE_RESET
    apply hs'.call (by simp [Harmless, h0, h]) (unset_logged (by simp [CalledSet]))
    exact fun _ => .respond _ _
  case h_3 h => -- REMOTE_TMS
    have hH : ¬ Harmless b := by simp [Harmless, h0, h]
    have hstays : ∀ ticks : UInt8, ∀ ms : UInt64, Stays b (if b.i < 4 then
        respond respErr errorWronglen
      else do
        Remote.call ((firmware P).jtagtapTmsSeq ms.toUInt32 ticks)
        respond respOk 0) :=
      fun _ _ => .ite (.respond _ _) (.bind (.call (adds_logged _ _)) fun _ => .respond _ _)
    apply hs'.number (by decide) (fun hH' => absurd hH' hH)
    · exact fun ticks => .bind (.number _ _) fun ms => hstays _ ms
    · intro _ s'' hs''
      -- The second number is read before the length is looked at.
      by_cases hlength : b.i < 4
      · exact hs''.behind (by decide) hlength hH (hstays _)
      · apply hs''.inside (by omega)
        intro s₃ hs₃
        dsimp only
        rw [if_neg hlength]
        exact hs₃.call hH (unset_logged (by simp [CalledSet])) fun _ => .respond _ _
  case h_4 h => -- REMOTE_NEXT
    split
    case isTrue hlength => exact hs'.error (by simp [Harmless, h0, h, hlength]) hwronglen
    case isFalse hlength =>
      have hi' : b.i = 4 := not_not.mp hlength
      apply hs'.packetAt (by omega)
      intro s'' hs''
      apply hs''.packetAt (by omega)
      intro s₃ hs₃
      apply hs₃.call (by simp [Harmless, h0, h, hi']) (unset_logged (by simp [CalledSet]))
      exact fun _ => .respond _ _
  case h_5 h => -- REMOTE_ADD_JTAG_DEV
    have hH : Harmless b := by simp [Harmless, h0, h]
    split
    case isTrue hlength => exact hs'.error hH hwronglen
    case isFalse hlength =>
      apply hs'.inside (by omega)
      intro s₁ hs₁
      apply hs₁.inside (by omega)
      intro s₂ hs₂
      apply hs₂.inside (by omega)
      intro s₃ hs₃
      apply hs₃.inside (by omega)
      intro s₄ hs₄
      apply hs₄.inside (by omega)
      intro s₅ hs₅
      apply hs₅.inside (by omega)
      intro s₆ hs₆
      apply hs₆.inside (by omega)
      intro s₇ hs₇
      exact hs₇.respond hH hzero (Or.inl hblock)
  case h_6 hS hR hT hN hJ =>
    split
    case isTrue hcmd => -- REMOTE_TDITDO_TMS, REMOTE_TDITDO_NOTMS
      have hH : Harmless b ↔ b.i < 5 := by simp [Harmless, h0, hcmd]
      split
      case isTrue hlength => exact hs'.error (hH.mpr hlength) hwronglen
      case isFalse hlength =>
        apply hs'.inside (by omega)
        intro s₁ hs₁
        apply hs₁.inside (by omega)
        intro s₂ hs₂
        apply hs₂.call (fun h => hlength (hH.mp h)) (unset_logged (by simp [CalledSet]))
        exact fun _ => .respond _ _
    case isFalse hcmd => exact hs'.error (by simp_all [Harmless]) hunrecognised

theorem remotePacketProcessGEN_verdict (h0 : b.packet 0 = 0x47) (hi : 1 ≤ b.i) :
    Leads (Verdict b lower (Harmless b)) (remotePacketProcessGEN (firmware P)) s := by
  obtain ⟨hzero, hunrecognised, -, -⟩ := error_digits
  have hblock : b.blockLength = none := by simp [Body.blockLength, h0]
  apply hs.packetAt hi
  intro s' hs'
  split
  case h_1 h => exact hs'.respondS (by simp [Harmless, h0, h]) (Or.inl hblock)
  case h_2 h => exact hs'.respond (by simp [Harmless, h0, h]) hzero (Or.inl hblock)
  case h_3 h => exact hs'.silent (by simp [Harmless, h0, h])
  case h_4 h => exact hs'.silent (by simp [Harmless, h0, h])
  case h_5 h => exact hs'.silent (by simp [Harmless, h0, h])
  case h_6 h => exact hs'.silent (by simp [Harmless, h0, h])
  case h_7 h => exact hs'.silent (by simp [Harmless, h0, h])
  case h_8 h => exact hs'.respondS (by simp [Harmless, h0, h]) (Or.inl hblock)
  case h_9 => exact hs'.error (by simp_all [Harmless]) hunrecognised

theorem memRead_zero {ap : Ap} {address : UInt32} {f : Bool → Handler (Env τ) Unit} :
    (memRead (firmware P) ap address 0 >>= f) s = f false s := by
  have hread : (firmware P).adiv5MemRead ap address 0 s.env = ([], some false, s.env) := by
    show firmwareMemRead P ap address 0 s.env = _
    rw [firmwareMemRead, if_pos rfl, hs.env]
    rfl
  show EStateM.bind (memRead (firmware P) ap address 0) f s = _
  unfold EStateM.bind memRead
  rw [hread]
  rfl

theorem memRead_spoilt {ap : Ap} {address count : UInt32} {f : Bool → Handler (Env τ) Unit}
    (hcount : count ≠ 0) (hstays : ∀ fault, Stays b (f fault)) :
    Leads (Spoilt b) (memRead (firmware P) ap address count >>= f) s := by
  have hlog : ¬ CalledSet ((firmware P).adiv5MemRead ap address count s.env).2.2.log := by
    show ¬ CalledSet (firmwareMemRead P ap address count s.env).2.2.log
    rw [firmwareMemRead, if_neg hcount, hs.env]
    exact fun h => List.not_mem_nil h.1
  show Ends _ _ (EStateM.bind (memRead (firmware P) ap address count) f s)
  unfold EStateM.bind memRead
  cases hread : (firmware P).adiv5MemRead ap address count s.env with
  | mk data rest =>
    obtain ⟨fault, e⟩ := rest
    rw [hread] at hlog
    cases fault with
    | none => exact fun hgood => hlog hgood.2
    | some fault =>
      apply hstays fault
      exact fun hgood => hlog hgood.2

/-- A block of no bytes is answered with two digits, and any other one needs the target. -/
theorem hlMemRead_verdict {ap : Ap} {pos : Nat} (hH : ¬ H)
    (hblock : b.blockLength = some (remotehston 8 b.packet (pos + 8)).toUInt32) :
    Leads (Verdict b lower H) (hlMemRead (firmware P) ap pos) s := by
  have hanswer : ∀ count : UInt32, ∀ fault : Bool, Stays b (if fault = true then do
        respond respErr 0
        clearFault (firmware P)
      else do
        let bs ← srcBytes (firmware P) (max count.toNat 1)
        respondBuf respOk bs) := by
    intro count fault
    apply Stays.ite
    · exact .bind (.respond _ _) fun _ => .clearFault P
    · exact .bind (.srcBytes _ _) fun bs => .respondBuf _ bs
  apply hs.number (by decide) (fun h => absurd h hH)
  · exact fun address => .bind (.number _ _) fun count => .bind (.memRead P ap _ _) (hanswer _)
  · intro _ s₁ hs₁
    apply hs₁.number (by decide) (fun h => absurd h hH)
    · exact fun count => .bind (.memRead P ap _ _) (hanswer _)
    · intro _ s₂ hs₂
      generalize (remotehston 8 b.packet (pos + 8)).toUInt32 = count at hblock ⊢
      by_cases hcount : count = 0
      · unfold Leads
        dsimp only
        rw [hcount, memRead_zero hs₂]
        apply Verdict.of_not hH
        intro hgood
        obtain ⟨code, data, hout, -, hdata⟩ := hgood.answered
        have hsent : s₂.out ++ (0x26 :: respOk :: (hexify [_] ++ [0x23])) =
            0x26 :: code :: (data ++ [0x23]) := hout
        rw [hs₂.out, List.nil_append] at hsent
        obtain ⟨hcode, hsent⟩ := List.cons.inj (List.cons.inj hsent).2
        have hlength := (hdata count hblock hcode.symm).1
        rw [← List.append_cancel_right hsent, hcount] at hlength
        contradiction
      · exact leads_of_spoilt hH (memRead_spoilt hs₂ hcount (hanswer count))

/-- A write to memory is refused, or needs the target. -/
theorem hlMemWriteSized_verdict {ap : Ap} {pos : Nat} (hH : H ↔ pos + 10 ≤ b.i ∧ b.Misaligned pos) :
    Leads (Verdict b lower H) (hlMemWriteSized (firmware P) ap pos) s := by
  obtain ⟨hzero, -⟩ := error_digits
  have hwrite : ∀ align : UInt8, ∀ dest len : UInt32, Stays b (do
      modify fun s => { s with
        packet := unhexify s.packet (firmware P).src (pos + 18) len.toNat
        trace := unhexifyTrace (firmware P).src (pos + 18) len.toNat s.trace }
      let data ← srcBytes (firmware P) len.toNat
      if ← Remote.call ((firmware P).adiv5MemWriteSized ap dest data align) then
        respond respErr 0
        clearFault (firmware P)
      else
        respond respOk 0) := by
    intro align dest len
    refine .bind (.unhexify _ _ _) fun _ => .bind (.srcBytes _ _) fun data => ?_
    refine .bind (.call (adds_memWriteSized P _ _ _ _)) fun fault => .ite ?_ (.respond _ _)
    exact .bind (.respond _ _) fun _ => .clearFault P
  apply hs.number (by decide) (fun h => (by have := (hH.mp h).1; omega))
  · intro align
    refine .bind (.number _ _) fun dest => .bind (.number _ _) fun len => ?_
    exact .ite (.respond _ _) (hwrite _ _ _)
  · intro _ s₁ hs₁
    apply hs₁.number (by decide) (fun h => (by have := (hH.mp h).1; omega))
    · exact fun dest => .bind (.number _ _) fun len => .ite (.respond _ _) (hwrite _ _ _)
    · intro _ s₂ hs₂
      apply hs₂.number (by decide) (fun h => (hH.mp h).1)
      · exact fun len => .ite (.respond _ _) (hwrite _ _ _)
      · intro hpos s₃ hs₃
        dsimp only
        split
        case isTrue hmask => exact hs₃.error (hH.mpr ⟨hpos, hmask⟩) hzero
        case isFalse hmask =>
          apply leads_of_spoilt fun h => hmask (hH.mp h).2
          apply leads_modify
          apply leads_srcBytes
          intro trace data
          apply call_spoilt
          · rw [hs₃.env]
            exact fun h => List.not_mem_nil h.1
          · exact fun fault => .ite (.bind (.respond _ _) fun _ => .clearFault P) (.respond _ _)

theorem remotePacketProcessHL_verdict (h0 : b.packet 0 = 0x48) (hi : 1 ≤ b.i) :
    Leads (Verdict b lower (Harmless b)) (remotePacketProcessHL (firmware P)) s := by
  obtain ⟨-, hunrecognised, -, hversion⟩ := error_digits
  apply hs.packetAt hi
  intro s' hs'
  split
  case isTrue h => -- REMOTE_HL_CHECK
    exact hs'.respond (by simp [Harmless, h0, h]) hversion (Or.inl (by simp [Body.blockLength, h]))
  case isFalse hcheck =>
    have hneeded : Harmless b → 4 ≤ b.i := by
      intro hH
      simp only [Harmless, h0, if_neg hcheck] at hH
      split at hH
      · omega
      · split at hH
        · omega
        · exact hH.2
    apply hs'.numbers (by decide) (by decide)
    · intro hH
      have := hneeded hH
      omega
    · intro m n
      dsimp only
      split
      · exact .bind (.number _ _) fun _ => .bind (.call (adds_logged _ _)) fun _ => .respondBuf _ _
      · exact .bind (.number _ _) fun _ => .bind (.number _ _) fun _ =>
          .bind (.call (adds_logged _ _)) fun _ => .respondBuf _ _
      · exact .bind (.number _ _) fun _ => .bind (.call (adds_logged _ _)) fun _ => .respondBuf _ _
      · exact .bind (.number _ _) fun _ => .bind (.number _ _) fun _ =>
          .bind (.call (adds_logged _ _)) fun _ => .respond _ _
      · exact .bind (.number _ _) fun _ => .hlMemRead P _ _
      · exact .hlMemRead P _ _
      · exact .bind (.number _ _) fun _ => .hlMemWriteSized P _ _
      · exact .hlMemWriteSized P _ _
      · exact .respond _ _
    · intro hlength s₁ hs₁
      dsimp only
      split
      case h_1 h => -- REMOTE_DP_READ
        have hH : ¬ Harmless b := by simp [Harmless, h0, h]
        apply hs₁.number (by decide) (fun hH' => absurd hH' hH)
        · exact fun _ => .bind (.call (adds_logged _ _)) fun _ => .respondBuf _ _
        · intro _ s₂ hs₂
          exact hs₂.call hH (unset_logged (by simp [CalledSet])) fun _ => .respondBuf _ _
      case h_2 h => -- REMOTE_LOW_ACCESS
        have hH : ¬ Harmless b := by simp [Harmless, h0, h]
        apply hs₁.numbers (by decide) (by decide) (fun hH' => absurd hH' hH)
        · exact fun _ _ => .bind (.call (adds_logged _ _)) fun _ => .respondBuf _ _
        · intro _ s₂ hs₂
          exact hs₂.call hH (unset_logged (by simp [CalledSet])) fun _ => .respondBuf _ _
      case h_3 h => -- REMOTE_AP_READ
        have hH : ¬ Harmless b := by simp [Harmless, h0, h]
        apply hs₁.number (by decide) (fun hH' => absurd hH' hH)
        · exact fun _ => .bind (.call (adds_logged _ _)) fun _ => .respondBuf _ _
        · intro _ s₂ hs₂
          exact hs₂.call hH (unset_logged (by simp [CalledSet])) fun _ => .respondBuf _ _
      case h_4 h => -- REMOTE_AP_WRITE
        have hH : ¬ Harmless b := by simp [Harmless, h0, h]
        apply hs₁.numbers (by decide) (by decide) (fun hH' => absurd hH' hH)
        · exact fun _ _ => .bind (.call (adds_logged _ _)) fun _ => .respond _ _
        · intro _ s₂ hs₂
          exact hs₂.call hH (unset_logged (by simp [CalledSet])) fun _ => .respond _ _
      case h_5 h => -- REMOTE_AP_MEM_READ
        have hH : ¬ Harmless b := by simp [Harmless, h0, h]
        apply hs₁.number (by decide) (fun hH' => absurd hH' hH)
        · exact fun _ => .hlMemRead P _ _
        · intro _ s₂ hs₂
          exact hlMemRead_verdict hs₂ hH (by simp [Body.blockLength, h0, h])
      case h_6 h => -- REMOTE_MEM_READ
        exact hlMemRead_verdict hs₁ (by simp [Harmless, h0, h]) (by simp [Body.blockLength, h0, h])
      case h_7 h => -- REMOTE_AP_MEM_WRITE_SIZED
        have hH : Harmless b ↔ 24 ≤ b.i ∧ b.Misaligned 14 := by simp [Harmless, h0, h]
        apply hs₁.number (by decide) (fun hH' => (by have := (hH.mp hH').1; omega))
        · exact fun _ => .hlMemWriteSized P _ _
        · intro _ s₂ hs₂
          exact hlMemWriteSized_verdict hs₂ hH
      case h_8 h => -- REMOTE_MEM_WRITE_SIZED
        exact hlMemWriteSized_verdict hs₁ (by simp [Harmless, h0, h])
      case h_9 hd hL ha hA hM hh hm hH =>
        exact hs₁.error (by simp_all [Harmless]) hunrecognised

end

/-- What comes of a packet while nothing has been set. -/
theorem remotePacketProcess_verdict (P : Port (Bool × τ)) (lower : τ) (b : Body size) :
    Leads (Verdict b lower (Harmless b)) (remotePacketProcess (firmware P) b.i)
      ⟨b.packet, [], Env.start lower, []⟩ := by
  obtain ⟨-, hunrecognised, -⟩ := error_digits
  have hs : Clean b lower ⟨b.packet, [], Env.start lower, []⟩ :=
    ⟨rfl, rfl, rfl, trivial, fun _ => List.not_mem_nil⟩
  have hi : b.packet 0 ≠ 0 → 1 ≤ b.i := fun h => Nat.one_le_iff_ne_zero.mpr (b.lt_of_ne h)
  apply hs.packetAt (Nat.zero_le _)
  intro s' hs'
  split
  case h_1 h => exact remotePacketProcessSWD_verdict hs' h (hi (by simp [h]))
  case h_2 h => exact remotePacketProcessJTAG_verdict hs' h (hi (by simp [h]))
  case h_3 h => exact remotePacketProcessGEN_verdict hs' h (hi (by simp [h]))
  case h_4 h => exact remotePacketProcessHL_verdict hs' h (hi (by simp [h]))
  case h_5 hS hJ hG hH => exact hs'.error (by simp_all [Harmless]) hunrecognised

/-! ## Packets and runs -/

/-- At start-up the harmless packets are served, and no others. -/
theorem served_iff (P : Port (Bool × τ)) (lower : τ) (b : Body size) :
    Served P (Env.start lower) b ↔ Harmless b := by
  have hverdict := remotePacketProcess_verdict P lower b
  unfold Leads at hverdict
  unfold Served Leads
  cases hrun : remotePacketProcess (firmware P) b.i ⟨b.packet, [], Env.start lower, []⟩ with
  | ok a s =>
    rw [hrun] at hverdict
    exact hverdict.1
  | error e s =>
    rw [hrun] at hverdict
    exact hverdict.1

/-- A harmless packet leaves everything as it was at start-up. -/
theorem after_harmless (P : Port (Bool × τ)) (lower : τ) (h : Harmless b) :
    after P (Env.start lower) b = Env.start lower := by
  have hverdict := remotePacketProcess_verdict P lower b
  unfold Leads at hverdict
  unfold after
  cases hrun : remotePacketProcess (firmware P) b.i ⟨b.packet, [], Env.start lower, []⟩ with
  | ok a s =>
    rw [hrun] at hverdict
    exact hverdict.2 h
  | error e s =>
    rw [hrun] at hverdict
    exact hverdict.2 h

/-- A run in which every packet is served is one of harmless packets. -/
theorem allServed_iff (P : Port (Bool × τ)) (lower : τ) (bodies : List (Body size)) :
    AllServed P (Env.start lower) bodies ↔ ∀ b ∈ bodies, Harmless b := by
  induction bodies with
  | nil => exact iff_of_true trivial fun _ h => absurd h List.not_mem_nil
  | cons b bodies ih =>
    rw [List.forall_mem_cons, AllServed, served_iff]
    apply and_congr_right
    intro h
    rw [after_harmless P lower h]
    exact ih

/-- An operation that returns `a` and does nothing else. -/
def idle (a : α) : Op (Bool × Unit) α := fun s => (some a, s)

/-- A target in which nothing happens. -/
def idlePort : Port (Bool × Unit) where
  packetAddr := 0x20001000
  ident := []
  swdptapInit := idle ()
  seqInParity _ := idle (false, 0)
  seqIn _ := idle 0
  seqOut _ _ := idle ()
  seqOutParity _ _ := idle ()
  jtagtapInit := idle ()
  jtagtapReset := idle ()
  jtagtapTmsSeq _ _ := idle ()
  jtagtapTdiTdoSeq _ _ _ := idle 0
  jtagtapNext _ _ := idle 0
  jtagAddDevice _ _ := idle ()
  platformTargetVoltage := idle []
  adiv5DpRead _ _ := idle 0
  lowAccess _ _ _ := idle 0
  adiv5ApRead _ _ := idle 0
  adiv5ApWrite _ _ _ := idle ()
  adiv5MemRead _ _ count s := (List.replicate count.toNat 0, some false, s)
  adiv5MemWriteSized _ _ _ _ := idle false
  clearFault := id

/-- The packet `SI21`, which reads 33 bits. -/
def readBits : Body 1024 where
  packet k := (ascii "SI21").getD k 0
  i := 4
  fits := by decide
  ended := rfl

/-- `SI21` calls a function that is not set. -/
theorem readBits_unserved : ¬ ∀ (P : Port (Bool × Unit)) (bodies : List (Body 1024)),
    AllServed P (Env.start ()) bodies := by
  intro h
  have hserved := (h idlePort [readBits]).1
  have hharmless := (served_iff idlePort () readBits).mp hserved
  have h0 : readBits.packet 0 = 0x53 := by decide
  have h1 : readBits.packet 1 = 0x49 := by decide
  simp [Harmless, h0, h1] at hharmless

end MiyakoLink.Remote
