import MiyakoLink.Hosted.Client

/-!
# Sessions over the remote protocol

A program on the host calls functions of `swdptap.c`, and `jtagtap_init`, and each of them is carried
out by the probe. `direct` is what the probe would do if it were called itself.

* `ask_answers`: a request that is answered with a number is carried out, and the answer is read.
* `session_direct`: a session has the results and the effects of the calls that it stands for.
-/

namespace MiyakoLink.Hosted

open Lib
open Packet (Buffer Receiver bytes dollar feed getcharStep remoteSom)
open Remote (Op Port digits hstonStep remotehston remotePacketProcess respErr respOk respParerr)

variable {σ α : Type}

/-! ## Calls -/

inductive Call where
  | swdptapInit
  | swdptapSeqInParity (ticks : UInt32)
  | swdptapSeqIn (ticks : UInt32)
  | swdptapSeqOut (MS ticks : UInt32)
  | swdptapSeqOutParity (MS ticks : UInt32)
  | jtagtapInit

/-- What a call returns. -/
inductive Reply where
  | done
  | word (ret : UInt32)
  | parity (bad : Bool) (ret : UInt32)
  deriving DecidableEq

/-- The ticks have two digits. -/
def Call.InRange : Call → Prop
  | .swdptapInit | .jtagtapInit => True
  | .swdptapSeqInParity ticks | .swdptapSeqIn ticks => ticks.toNat < 256
  | .swdptapSeqOut _ ticks | .swdptapSeqOutParity _ ticks => ticks.toNat < 256

/-- The call, by the functions of the host. -/
def hosted (P : Port σ) : Call → Client σ Reply
  | .swdptapInit => do swdptapInit P; return .done
  | .swdptapSeqInParity ticks => do
    let r ← swdptapSeqInParity P ticks
    return .parity r.1 r.2
  | .swdptapSeqIn ticks => do return .word (← swdptapSeqIn P ticks)
  | .swdptapSeqOut MS ticks => do swdptapSeqOut P MS ticks; return .done
  | .swdptapSeqOutParity MS ticks => do swdptapSeqOutParity P MS ticks; return .done
  | .jtagtapInit => do jtagtapInit P; return .done

/-- A program for the port that ends without an exception. -/
abbrev Direct (σ : Type) := StateT σ Option

def perform (op : Op σ α) : Direct σ α := fun env =>
  match op env with
  | (some a, env) => some (a, env)
  | (none, _) => none

/-- The call, by the functions of the probe. -/
def direct (P : Port σ) : Call → Direct σ Reply
  | .swdptapInit => do perform P.swdptapInit; return .done
  | .swdptapSeqInParity ticks => do
    let r ← perform (P.seqInParity ticks.toUInt8)
    return .parity r.1 r.2
  | .swdptapSeqIn ticks => do return .word (← perform (P.seqIn ticks.toUInt8))
  | .swdptapSeqOut MS ticks => do perform (P.seqOut MS ticks.toUInt8); return .done
  | .swdptapSeqOutParity MS ticks => do perform (P.seqOutParity MS ticks.toUInt8); return .done
  | .jtagtapInit => do perform P.jtagtapInit; return .done

/-! ## A request in the buffer -/

/-- A text without the characters of the protocol. -/
def Plain (text : List UInt8) : Prop := ∀ c ∈ text, c ≠ Packet.hash ∧ c ≠ remoteSom ∧ c ≠ dollar

instance (text : List UInt8) : Decidable (Plain text) :=
  List.decidableBAll _ text

theorem Plain.of_isHex {text : List UInt8} (h : ∀ c ∈ text, isHex c = true) : Plain text :=
  fun c hc => isHex_plain (h c hc)

theorem Plain.append {text more : List UInt8} (h : Plain text) (h' : Plain more) :
    Plain (text ++ more) := by
  intro c hc
  rcases List.mem_append.mp hc with hc | hc
  · exact h c hc
  · exact h' c hc

section
variable {remote : Packet.Remote σ} {r : Receiver σ} {text : List UInt8} {i : Nat}

/-- The characters of a remote packet are stored one behind the other. -/
theorem feed_text (htext : Plain text) (hwait : r.wait = .remote i)
    (hroom : i + text.length ≤ bufSize) : feed bufSize remote r text =
      some { r with packet := Remote.store r.packet i text, wait := .remote (i + text.length) } := by
  induction text generalizing r i with
  | nil =>
    obtain ⟨wait, packet, env, trace⟩ := r
    cases hwait
    rfl
  | cons c text ih =>
    obtain ⟨hhash, hsom, hdollar⟩ := htext c List.mem_cons_self
    rw [List.length_cons] at hroom
    have hstep : getcharStep bufSize remote r c = .next { r with
        packet := Function.update r.packet i c, wait := .remote (i + 1) } := by
      simp only [getcharStep, hwait, if_neg hsom, if_neg hhash, if_neg hdollar,
        if_pos (show i < bufSize by omega)]
    rw [feed, hstep]
    show feed bufSize remote _ text = _
    rw [ih (fun c hc => htext c (List.mem_cons_of_mem _ hc)) rfl (by omega), Remote.store,
      List.length_cons, Nat.add_comm text.length 1, ← Nat.add_assoc]

/-- The buffer begins with the text and a NUL. -/
def Holds (packet : Buffer) (text : List UInt8) : Prop :=
  ∀ k ≤ text.length, packet k = construct text k

theorem store_apply (packet : Buffer) (pos : Nat) (k : Nat) : Remote.store packet pos text k =
    if pos ≤ k ∧ k < pos + text.length then text.getD (k - pos) 0 else packet k := by
  induction text generalizing packet pos with
  | nil => rw [Remote.store, List.length_nil, if_neg (by omega)]
  | cons c text ih =>
    rw [Remote.store, ih, List.length_cons]
    rcases Nat.lt_trichotomy k pos with hlt | rfl | hgt
    · rw [if_neg (by omega), if_neg (by omega), Function.update_of_ne (by omega)]
    · rw [if_neg (by omega), if_pos (by omega), Function.update_self, Nat.sub_self]
      rfl
    · obtain ⟨j, rfl⟩ := Nat.exists_eq_add_of_lt hgt
      have hindex : pos + j + 1 - pos = j + 1 := by omega
      have hbehind : pos + j + 1 - (pos + 1) = j := by omega
      have hcond : (pos + 1 ≤ pos + j + 1 ∧ pos + j + 1 < pos + 1 + text.length) =
          (pos ≤ pos + j + 1 ∧ pos + j + 1 < pos + (text.length + 1)) := by
        rw [eq_iff_iff]
        omega
      rw [hindex, hbehind, List.getD_cons_succ, Function.update_of_ne (by omega)]
      simp only [hcond]

theorem store_holds (packet : Buffer) :
    Holds (Function.update (Remote.store packet 0 text) text.length 0) text := by
  intro k hk
  rcases Nat.lt_or_eq_of_le hk with hlt | rfl
  · rw [Function.update_of_ne (Nat.ne_of_lt hlt), store_apply, if_pos (by omega)]
    rfl
  · rw [Function.update_self, construct, List.getD_eq_default _ _ (Nat.le_refl _)]

end

/-! ## An answered request -/

/-- The handlers answer the text with a number, and leave the buffer as it is. -/
def Answers (P : Port σ) (text : List UInt8) (code : UInt8) (n : UInt64) (env env' : σ) : Prop :=
  ∀ packet, Holds packet text → ∃ trace,
    remotePacketProcess P text.length ⟨packet, [], env, []⟩ =
      .ok () ⟨packet, remoteResp :: code :: digits n ++ [Packet.hash], env', trace⟩

/-- Between two calls. -/
structure Idle (link : Link σ) (env : σ) : Prop where
  wait : link.probe.wait = .start
  env : link.probe.env = env
  unread : link.unread = []

theorem sent_behind (trace : List Packet.Event) (body cs : List UInt8) :
    sent ((trace ++ (.remoteCall body :: cs.map .putchar : List Packet.Event)).drop
      trace.length) = cs := by
  rw [List.drop_left]
  show sent (cs.map .putchar) = cs
  induction cs with
  | nil => rfl
  | cons c cs ih => exact congrArg (c :: ·) ih

section
variable {P : Port σ} {text noise : List UInt8} {code : UInt8} {n : UInt64} {env env' : σ}
  {r : Receiver σ} {link : Link σ} {least checked : Nat}

/-- Characters in front of a request are dropped. -/
theorem feed_noise {remote : Packet.Remote σ}
    (hnoise : ∀ c ∈ noise, c ≠ 0x04 ∧ c ≠ remoteSom ∧ c ≠ dollar) (hwait : r.wait = .start) :
    ∃ packet, feed bufSize remote r noise = some { r with packet := packet } := by
  induction noise generalizing r with
  | nil => exact ⟨r.packet, rfl⟩
  | cons c noise ih =>
    obtain ⟨hend, hsom, hdollar⟩ := hnoise c List.mem_cons_self
    have hstep : getcharStep bufSize remote r c =
        .next { r with packet := Function.update r.packet 0 c } := by
      obtain ⟨wait, packet, env, trace⟩ := r
      cases hwait
      simp only [getcharStep, if_neg hend, if_neg hsom, Receiver.hunted, Function.update_self,
        if_neg hdollar]
    obtain ⟨packet, hrest⟩ := ih (fun c hc => hnoise c (List.mem_cons_of_mem _ hc))
      (r := { r with packet := Function.update r.packet 0 c }) hwait
    refine ⟨packet, ?_⟩
    rw [feed, hstep]
    exact hrest

/-- A request is handed to the handlers, and the probe waits for the next one. -/
theorem feed_request (hanswers : Answers P text code n env env') (hplain : Plain text)
    (hne : text ≠ []) (hroom : text.length ≤ bufSize) (hwait : r.wait = .start)
    (henv : r.env = env) : ∃ body packet, feed bufSize P.remote r (request text) =
      some ⟨.start, packet, env', r.trace ++ .remoteCall body ::
        (remoteResp :: code :: digits n ++ [Packet.hash]).map .putchar⟩ := by
  obtain ⟨wait, packet, env₀, trace⟩ := r
  cases hwait
  cases henv
  have hsom : getcharStep bufSize P.remote ⟨.start, packet, env₀, trace⟩ remoteSom =
      .next ⟨.remote 0, Function.update packet 0 remoteSom, env₀, trace⟩ := rfl
  have htext : feed bufSize P.remote
      ⟨.remote 0, Function.update packet 0 remoteSom, env₀, trace⟩ text = _ :=
    feed_text hplain rfl (by omega)
  rw [Nat.zero_add] at htext
  obtain ⟨q, hq⟩ : ∃ q, q = Function.update
      (Remote.store (Function.update packet 0 remoteSom) 0 text) text.length 0 := ⟨_, rfl⟩
  have hholds : Holds q text := hq ▸ store_holds _
  obtain ⟨accesses, hrun⟩ := hanswers q hholds
  have hfirst : q 0 ≠ dollar := by
    rw [hholds 0 (Nat.zero_le _)]
    obtain ⟨c, rest, rfl⟩ := List.exists_cons_of_ne_nil hne
    exact (hplain c List.mem_cons_self).2.2
  have hcall : Receiver.callRemote ⟨.remote text.length,
      Remote.store (Function.update packet 0 remoteSom) 0 text, env₀, trace⟩ P.remote text.length =
        .next ⟨.start, q, env', trace ++ .remoteCall (bytes q text.length) ::
          (remoteResp :: code :: digits n ++ [Packet.hash]).map .putchar⟩ := by
    simp only [Receiver.callRemote, Receiver.afterRemote, Receiver.remoteResult, Port.remote,
      ← hq, hrun, if_neg Bool.false_ne_true, Receiver.hunted, if_neg hfirst]
  refine ⟨bytes q text.length, q, ?_⟩
  rw [request, List.cons_append, feed, hsom]
  show feed bufSize P.remote _ (text ++ [Packet.hash]) = _
  rw [Packet.feed_append htext, feed]
  simp only [getcharStep, if_neg (show Packet.hash ≠ remoteSom by decide), if_true, hcall]
  rfl

/-- The request is carried out, and its answer is read. -/
theorem ask_answers (hanswers : Answers P text code n env env')
    (hnoise : ∀ c ∈ noise, c ≠ 0x04 ∧ c ≠ remoteSom ∧ c ≠ dollar) (hplain : Plain text)
    (hne : text ≠ []) (hroom : text.length ≤ bufSize) (hidle : Idle link env)
    (hleast : least ≤ 2) (hcode : code ≠ Packet.hash)
    (hchecked : construct (code :: digits n) checked ≠ respErr) :
    ∃ link', Idle link' env' ∧
      ask P (noise ++ request text) least checked link = some (code :: digits n, link') := by
  obtain ⟨probe, unread⟩ := link
  obtain ⟨hwait, henv, hunread⟩ := hidle
  cases hunread
  obtain ⟨packet, hfirst⟩ : ∃ packet, feed bufSize P.remote probe noise =
      some { probe with packet := packet } := feed_noise hnoise hwait
  obtain ⟨body, packet', hsecond⟩ := feed_request (r := { probe with packet := packet }) hanswers
    hplain hne hroom hwait henv
  refine ⟨⟨⟨.start, packet', env', probe.trace ++ .remoteCall body ::
    (remoteResp :: code :: digits n ++ [Packet.hash]).map .putchar⟩, []⟩, ⟨rfl, rfl, rfl⟩, ?_⟩
  have hwrite : platformBufferWrite P (noise ++ request text) ⟨probe, []⟩ = some ((),
      ⟨⟨.start, packet', env', probe.trace ++ .remoteCall body ::
        (remoteResp :: code :: digits n ++ [Packet.hash]).map .putchar⟩,
        remoteResp :: code :: digits n ++ [Packet.hash]⟩) := by
    rw [platformBufferWrite, Packet.feed_append hfirst, hsecond]
    exact congrArg (fun unread => some ((), Link.mk _ unread)) (sent_behind probe.trace body _)
  have hlength : least ≤ (code :: digits n).length := by
    have hpos := List.length_pos_iff.mpr (digits_ne_nil n)
    rw [List.length_cons]
    omega
  show (platformBufferWrite P _ _).bind _ = _
  rw [hwrite]
  show (platformBufferRead platformMaxMsgSize _).bind _ = _
  rw [platformBufferRead, readAnswer_answer hcode (by decide)]
  show (if _ then failure else pure _ : Client σ (List UInt8)) _ = _
  rw [if_neg (not_or.mpr ⟨Nat.not_lt.mpr hlength, hchecked⟩)]
  rfl

end

/-! ## The handlers -/

section
variable {packet : Buffer} {out : List UInt8} {env env' : σ} {trace : List Remote.Access}
  {m : α → Remote.Handler σ Unit}

theorem packetAt_bind {m : UInt8 → Remote.Handler σ Unit} {pos : Nat} {c : UInt8}
    (h : packet pos = c) : (Remote.packetAt pos >>= m) ⟨packet, out, env, trace⟩ =
      m c ⟨packet, out, env, .read pos :: trace⟩ := by
  rw [← h]
  rfl

theorem number_bind {m : UInt64 → Remote.Handler σ Unit} {limit pos : Nat} {n : UInt64}
    (h : remotehston limit packet pos = n) :
    (Remote.number limit pos >>= m) ⟨packet, out, env, trace⟩ = m n ⟨packet, out, env,
      Remote.touched .read pos (Remote.hstonLength packet limit pos) trace⟩ := by
  rw [← h]
  rfl

theorem call_bind {op : Op σ α} {a : α} (h : op env = (some a, env')) :
    (Remote.call op >>= m) ⟨packet, out, env, trace⟩ = m a ⟨packet, out, env', trace⟩ := by
  apply bind_ok
  simp only [Remote.call, h]

/-- The handlers of the wire are chosen by the first character. -/
theorem process_swd {P : Port σ} {i : Nat} (h : packet 0 = 0x53) :
    remotePacketProcess P i ⟨packet, [], env, []⟩ =
      Remote.remotePacketProcessSWD P i ⟨packet, [], env, [.read 0]⟩ :=
  packetAt_bind h

theorem respond_eq (code : UInt8) (n : UInt64) :
    Remote.respond code n ⟨packet, [], env, trace⟩ =
      .ok () ⟨packet, remoteResp :: code :: digits n ++ [Packet.hash], env, trace⟩ := rfl

/-- The number behind a part of the text. -/
theorem number_at {text : List UInt8} (hholds : Holds packet text) {front cs back : List UInt8}
    (htext : text = front ++ (cs ++ back)) (hcs : ∀ c ∈ cs, isHex c = true) {limit : Nat}
    (hlimit : cs.length ≤ limit) (hend : back = [] ∨ limit = cs.length) :
    remotehston limit packet front.length = cs.foldl hstonStep 0 := by
  have hlength : text.length = front.length + (cs.length + back.length) := by
    rw [htext, List.length_append, List.length_append]
  refine Remote.go_digits hcs ?_ hlimit (hend.imp_left ?_) 0
  · intro i hi
    rw [hholds _ (by omega), construct, htext, List.getD_append_right _ _ _ _ (by omega),
      Nat.add_sub_cancel_left, List.getD_append _ _ _ _ hi]
  · rintro rfl
    have hlast : front.length + cs.length = text.length := by
      rw [hlength, List.length_nil, Nat.add_zero]
    rw [hlast, hholds _ (Nat.le_refl _), construct, List.getD_eq_default _ _ (Nat.le_refl _)]
    rfl

variable {P : Port σ} {ticks MS : UInt32}

theorem ticks_length (hticks : ticks.toNat < 256) : (padded 2 ticks.toUInt64).length = 2 :=
  padded_length (by decide) (by rwa [UInt32.toNat_toUInt64])

/-- The ticks are behind the two letters of the command. -/
theorem ticks_at (hticks : ticks.toNat < 256) {a b : UInt8} {rest : List UInt8}
    (hholds : Holds packet ([a, b] ++ (padded 2 ticks.toUInt64 ++ rest))) :
    packet 0 = a ∧ packet 1 = b ∧ remotehston 2 packet 2 = ticks.toUInt64 := by
  have hlength := ticks_length hticks
  refine ⟨hholds 0 (Nat.zero_le _), hholds 1 (Nat.succ_le_succ (Nat.zero_le _)), ?_⟩
  have hnumber := number_at hholds rfl (fun _ => isHex_of_mem_padded) (Nat.le_of_eq hlength)
    (.inr hlength.symm)
  rw [padded_foldl] at hnumber
  exact hnumber

/-- A number behind the ticks ends with the text. -/
theorem number_behind (hticks : ticks.toNat < 256) {a b : UInt8} {n : UInt64}
    (hholds : Holds packet ([a, b] ++ (padded 2 ticks.toUInt64 ++ digits n))) {limit : Nat}
    (hlimit : (digits n).length ≤ limit) : remotehston limit packet 4 = n := by
  have hlength : ([a, b] ++ padded 2 ticks.toUInt64).length = 4 := by
    rw [List.length_append, ticks_length hticks]
    rfl
  have htext : [a, b] ++ (padded 2 ticks.toUInt64 ++ digits n) =
      [a, b] ++ padded 2 ticks.toUInt64 ++ (digits n ++ []) := by
    rw [List.append_nil, List.append_assoc]
  have hnumber := number_at hholds htext (fun _ => isHex_of_mem_digits) hlimit (.inl rfl)
  rw [digits_foldl, hlength] at hnumber
  exact hnumber

theorem toUInt8_toUInt64 (w : UInt32) : w.toUInt64.toUInt8 = w.toUInt8 := by
  apply UInt8.toNat_inj.mp
  rw [UInt64.toNat_toUInt8, UInt32.toNat_toUInt64, UInt32.toNat_toUInt8]

theorem digits_length_long (n : UInt64) : (digits n).length ≤ 0xFFFFFFFF :=
  Nat.le_trans (digits_length_le (k := 16) (by decide) n.toNat_lt) (by decide)

end

section
variable {P : Port σ} {env env' : σ} {ticks : UInt32}

theorem answers_swdptapInit (hop : P.swdptapInit env = (some (), env')) :
    Answers P (ascii "SS") respOk 0 env env' := by
  intro packet hholds
  have h0 : packet 0 = 0x53 := hholds 0 (by decide)
  have h1 : packet 1 = 0x53 := hholds 1 (by decide)
  have hrun := calc
    remotePacketProcess P 2 ⟨packet, [], env, []⟩
    _ = _ := process_swd h0
    _ = _ := packetAt_bind h1
    _ = _ := call_bind hop
    _ = _ := respond_eq _ _
  exact ⟨_, hrun⟩

theorem answers_swdptapSeqInParity (hticks : ticks.toNat < 256) {r : Bool × UInt32}
    (hop : P.seqInParity ticks.toUInt8 env = (some r, env')) :
    Answers P (ascii "SI" ++ padded 2 ticks.toUInt64) (if r.1 then respParerr else respOk)
      r.2.toUInt64 env env' := by
  intro packet hholds
  rw [← List.append_nil (padded 2 _)] at hholds
  obtain ⟨h0, h1, hnumber⟩ := ticks_at (a := 0x53) (b := 0x49) hticks hholds
  obtain ⟨bad, ret⟩ := r
  rw [← toUInt8_toUInt64] at hop
  have hrun (i : Nat) := calc
    remotePacketProcess P i ⟨packet, [], env, []⟩
    _ = _ := process_swd h0
    _ = _ := packetAt_bind h1
    _ = _ := number_bind hnumber
    _ = _ := call_bind hop
    _ = _ := respond_eq (if bad then respParerr else respOk) ret.toUInt64
  exact ⟨_, hrun _⟩

theorem answers_swdptapSeqIn (hticks : ticks.toNat < 256) {ret : UInt32}
    (hop : P.seqIn ticks.toUInt8 env = (some ret, env')) :
    Answers P (ascii "Si" ++ padded 2 ticks.toUInt64) respOk ret.toUInt64 env env' := by
  intro packet hholds
  rw [← List.append_nil (padded 2 _)] at hholds
  obtain ⟨h0, h1, hnumber⟩ := ticks_at (a := 0x53) (b := 0x69) hticks hholds
  rw [← toUInt8_toUInt64] at hop
  have hrun (i : Nat) := calc
    remotePacketProcess P i ⟨packet, [], env, []⟩
    _ = _ := process_swd h0
    _ = _ := packetAt_bind h1
    _ = _ := number_bind hnumber
    _ = _ := call_bind hop
    _ = _ := respond_eq _ _
  exact ⟨_, hrun _⟩

theorem answers_swdptapSeqOut (hticks : ticks.toNat < 256) {MS : UInt32}
    (hop : P.seqOut MS ticks.toUInt8 env = (some (), env')) :
    Answers P (ascii "So" ++ (padded 2 ticks.toUInt64 ++ digits MS.toUInt64)) respOk 0 env
      env' := by
  intro packet hholds
  obtain ⟨h0, h1, hnumber⟩ := ticks_at (a := 0x53) (b := 0x6F) hticks hholds
  have hMS := number_behind (a := 0x53) (b := 0x6F) hticks hholds (digits_length_long _)
  rw [← toUInt8_toUInt64, ← UInt32.toUInt32_toUInt64 MS] at hop
  have hrun (i : Nat) := calc
    remotePacketProcess P i ⟨packet, [], env, []⟩
    _ = _ := process_swd h0
    _ = _ := packetAt_bind h1
    _ = _ := number_bind hnumber
    _ = _ := number_bind hMS
    _ = _ := call_bind hop
    _ = _ := respond_eq _ _
  exact ⟨_, hrun _⟩

theorem answers_swdptapSeqOutParity (hticks : ticks.toNat < 256) {MS : UInt32}
    (hop : P.seqOutParity MS ticks.toUInt8 env = (some (), env')) :
    Answers P (ascii "SO" ++ (padded 2 ticks.toUInt64 ++ digits MS.toUInt64)) respOk 0 env
      env' := by
  intro packet hholds
  obtain ⟨h0, h1, hnumber⟩ := ticks_at (a := 0x53) (b := 0x4F) hticks hholds
  have hMS := number_behind (a := 0x53) (b := 0x4F) hticks hholds (digits_length_long _)
  rw [← toUInt8_toUInt64, ← UInt32.toUInt32_toUInt64 MS] at hop
  have hrun (i : Nat) := calc
    remotePacketProcess P i ⟨packet, [], env, []⟩
    _ = _ := process_swd h0
    _ = _ := packetAt_bind h1
    _ = _ := number_bind hnumber
    _ = _ := number_bind hMS
    _ = _ := call_bind hop
    _ = _ := respond_eq _ _
  exact ⟨_, hrun _⟩

theorem answers_jtagtapInit (hop : P.jtagtapInit env = (some (), env')) :
    Answers P (ascii "JS") respOk 0 env env' := by
  intro packet hholds
  have h0 : packet 0 = 0x4A := hholds 0 (by decide)
  have h1 : packet 1 = 0x53 := hholds 1 (by decide)
  have hrun (i : Nat) := calc
    remotePacketProcess P i ⟨packet, [], env, []⟩
    _ = _ := packetAt_bind h0
    _ = _ := packetAt_bind h1
    _ = _ := call_bind hop
    _ = _ := respond_eq _ _
  exact ⟨_, hrun _⟩

end

/-! ## What can be sent -/

/-- A text that arrives in the buffer as it is. -/
structure Sendable (text : List UInt8) : Prop where
  plain : Plain text
  ne_nil : text ≠ []
  room : text.length ≤ bufSize

theorem sendable_ticks {a b : UInt8} {ticks : UInt32} (hab : Plain [a, b])
    (hticks : ticks.toNat < 256) : Sendable ([a, b] ++ padded 2 ticks.toUInt64) where
  plain := hab.append (.of_isHex fun _ => isHex_of_mem_padded)
  ne_nil := List.cons_ne_nil _ _
  room := by
    rw [List.length_append, ticks_length hticks]
    exact (by decide : 4 ≤ 1024)

theorem sendable_number {a b : UInt8} {ticks : UInt32} {n : UInt64} (hab : Plain [a, b])
    (hticks : ticks.toNat < 256) :
    Sendable ([a, b] ++ (padded 2 ticks.toUInt64 ++ digits n)) where
  plain := hab.append (.append (.of_isHex fun _ => isHex_of_mem_padded)
    (.of_isHex fun _ => isHex_of_mem_digits))
  ne_nil := List.cons_ne_nil _ _
  room := by
    have hdigits := digits_length_le (n := n) (k := 16) (by decide) n.toNat_lt
    rw [List.length_append, List.length_append, ticks_length hticks]
    show 2 + (2 + (digits n).length) ≤ 1024
    omega

/-! ## Sessions -/

section
variable {P : Port σ} {env env' : σ} {link : Link σ} {reply : Reply}

/-- What a part of a session has to show: it comes out with the reply, between two calls. -/
def Comes (m : Client σ α) (link : Link σ) (a : α) (env' : σ) : Prop :=
  ∃ link', Idle link' env' ∧ m link = some (a, link')

theorem Comes.bind {β : Type} {m : Client σ α} {k : α → Client σ β} {a : α} {b : β}
    (h : Comes m link a env) (hk : ∀ link', Idle link' env → Comes (k a) link' b env') :
    Comes (m >>= k) link b env' := by
  obtain ⟨link₁, hidle, hm⟩ := h
  obtain ⟨link₂, hidle', hk⟩ := hk link₁ hidle
  refine ⟨link₂, hidle', ?_⟩
  show (m link).bind _ = _
  rw [hm]
  exact hk

theorem Comes.pure (a : α) (hidle : Idle link env) : Comes (pure a : Client σ α) link a env :=
  ⟨link, hidle, rfl⟩

theorem perform_bind {op : Op σ α} {k : α → Direct σ Reply}
    (h : (perform op >>= k) env = some (reply, env')) :
    ∃ a env₁, op env = (some a, env₁) ∧ k a env₁ = some (reply, env') := by
  replace h : (perform op env).bind (fun p => k p.1 p.2) = _ := h
  unfold perform at h
  cases hop : op env with
  | mk a env₁ =>
    rw [hop] at h
    cases a with
    | none => cases h
    | some a => exact ⟨a, env₁, rfl, h⟩

/-- A request and what is made of its answer. -/
theorem comes_ask {text noise : List UInt8} {code : UInt8} {n : UInt64} {least checked : Nat}
    {k : List UInt8 → Client σ α} {a : α} (hanswers : Answers P text code n env env')
    (hnoise : ∀ c ∈ noise, c ≠ 0x04 ∧ c ≠ remoteSom ∧ c ≠ dollar) (htext : Sendable text)
    (hidle : Idle link env) (hleast : least ≤ 2) (hcode : code ≠ Packet.hash)
    (hchecked : construct (code :: digits n) checked ≠ respErr)
    (hk : k (code :: digits n) = pure a) :
    Comes (ask P (noise ++ request text) least checked >>= k) link a env' := by
  refine Comes.bind (a := code :: digits n) (ask_answers hanswers hnoise htext.plain htext.ne_nil
    htext.room hidle hleast hcode hchecked) ?_
  intro link' hidle'
  rw [hk]
  exact .pure a hidle'

theorem no_noise : ∀ c ∈ ([] : List UInt8), c ≠ 0x04 ∧ c ≠ remoteSom ∧ c ≠ dollar :=
  List.forall_mem_nil _

/-- A call through the protocol has the reply and the effect of the call itself. -/
theorem call_direct {call : Call} (hrange : call.InRange) (hidle : Idle link env)
    (hdirect : direct P call env = some (reply, env')) :
    Comes (hosted P call) link reply env' := by
  cases call with
  | swdptapInit =>
    obtain ⟨_, env₁, hop, hreply⟩ := perform_bind hdirect
    cases hreply
    refine Comes.bind (comes_ask (answers_swdptapInit hop) no_noise ?_ hidle (by decide)
      (by decide) (by decide : respOk ≠ respErr) rfl) fun _ => .pure _
    exact ⟨by decide, by decide, by decide⟩
  | swdptapSeqInParity ticks =>
    obtain ⟨⟨bad, ret⟩, env₁, hop, hreply⟩ := perform_bind hdirect
    cases hreply
    refine Comes.bind (a := (bad, ret)) (comes_ask (answers_swdptapSeqInParity hrange hop) no_noise
      (sendable_ticks (a := 0x53) (b := 0x49) (by decide) hrange) hidle (by decide) ?_ ?_ ?_)
      fun _ => .pure _
    · cases bad
      · exact (by decide : respOk ≠ Packet.hash)
      · exact (by decide : respParerr ≠ Packet.hash)
    · cases bad
      · exact (by decide : respOk ≠ respErr)
      · exact (by decide : respParerr ≠ respErr)
    · rw [answerNumber_digits, UInt32.toUInt32_toUInt64]
      cases bad <;> rfl
  | swdptapSeqIn ticks =>
    obtain ⟨ret, env₁, hop, hreply⟩ := perform_bind hdirect
    cases hreply
    refine Comes.bind (a := ret) (comes_ask (answers_swdptapSeqIn hrange hop) no_noise
      (sendable_ticks (a := 0x53) (b := 0x69) (by decide) hrange) hidle (by decide) (by decide)
      (by decide : respOk ≠ respErr) ?_) fun _ => .pure _
    rw [answerNumber_digits, UInt32.toUInt32_toUInt64]
  | swdptapSeqOut MS ticks =>
    obtain ⟨_, env₁, hop, hreply⟩ := perform_bind hdirect
    cases hreply
    exact Comes.bind (comes_ask (answers_swdptapSeqOut hrange hop) no_noise
      (sendable_number (a := 0x53) (b := 0x6F) (by decide) hrange) hidle (by decide) (by decide)
      (by decide) rfl)
      fun _ => .pure _
  | swdptapSeqOutParity MS ticks =>
    obtain ⟨_, env₁, hop, hreply⟩ := perform_bind hdirect
    cases hreply
    exact Comes.bind (comes_ask (answers_swdptapSeqOutParity hrange hop) no_noise
      (sendable_number (a := 0x53) (b := 0x4F) (by decide) hrange) hidle (by decide) (by decide)
      (by decide) rfl)
      fun _ => .pure _
  | jtagtapInit =>
    obtain ⟨_, env₁, hop, hreply⟩ := perform_bind hdirect
    cases hreply
    have hnoise : ∀ c ∈ ascii "+#", c ≠ 0x04 ∧ c ≠ remoteSom ∧ c ≠ dollar :=
      List.forall_mem_cons.mpr ⟨by decide, List.forall_mem_cons.mpr ⟨by decide, List.forall_mem_nil _⟩⟩
    exact Comes.bind (comes_ask (answers_jtagtapInit hop) hnoise
      ⟨by decide, by decide, by decide⟩ hidle (by decide) (by decide)
      (by decide : respOk ≠ respErr) rfl)
      fun _ => .pure _

/-- A session through the protocol has the replies and the effect of its calls. -/
theorem session_direct {calls : List Call} {replies : List Reply}
    (hrange : ∀ call ∈ calls, call.InRange) (hidle : Idle link env)
    (hdirect : calls.mapM (direct P) env = some (replies, env')) :
    ∃ link', Idle link' env' ∧ calls.mapM (hosted P) link = some (replies, link') := by
  induction calls generalizing link env replies with
  | nil =>
    cases hdirect
    exact ⟨link, hidle, rfl⟩
  | cons call calls ih =>
    rw [List.mapM_cons] at hdirect
    obtain ⟨⟨reply, env₁⟩, hcall, hrest⟩ := Option.bind_eq_some_iff.mp hdirect
    obtain ⟨⟨others, env₂⟩, hothers, hreplies⟩ := Option.bind_eq_some_iff.mp hrest
    cases hreplies
    rw [List.mapM_cons]
    refine Comes.bind (call_direct (hrange call List.mem_cons_self) hidle hcall) ?_
    intro link₁ hidle₁
    refine Comes.bind (ih (fun c hc => hrange c (List.mem_cons_of_mem _ hc)) hidle₁ hothers) ?_
    exact fun link₂ hidle₂ => .pure _ hidle₂

end

/-- A port that keeps the sequences put out, and reads the ID of a debug port. -/
def wirePort : Port (List (UInt32 × UInt8)) where
  packetAddr := 0x20001000
  ident := []
  swdptapInit env := (some (), env)
  seqInParity _ env := (some (false, 0x2BA01477), env)
  seqIn _ env := (some 1, env)
  seqOut MS ticks env := (some (), env ++ [(MS, ticks)])
  seqOutParity MS ticks env := (some (), env ++ [(MS, ticks)])
  jtagtapInit env := (some (), env)
  jtagtapReset env := (none, env)
  jtagtapTmsSeq _ _ env := (none, env)
  jtagtapTdiTdoSeq _ _ _ env := (none, env)
  jtagtapNext _ _ env := (none, env)
  jtagAddDevice _ _ env := (none, env)
  platformTargetVoltage env := (none, env)
  adiv5DpRead _ _ env := (none, env)
  lowAccess _ _ _ env := (none, env)
  adiv5ApRead _ _ env := (none, env)
  adiv5ApWrite _ _ _ env := (none, env)
  adiv5MemRead _ _ _ env := ([], none, env)
  adiv5MemWriteSized _ _ _ _ env := (none, env)
  clearFault := id

/-- The ID of the debug port is read. -/
theorem session_direct_readId : ∃ link',
    Idle link' [(0xA5, 8)] ∧
      [Call.swdptapInit, .swdptapSeqOut 0xA5 8, .swdptapSeqIn 3, .swdptapSeqInParity 32].mapM
        (hosted wirePort) ⟨⟨.start, fun _ => 0, [], []⟩, []⟩ =
          some ([.done, .done, .word 1, .parity false 0x2BA01477], link') :=
  session_direct (by
    intro call hcall
    simp only [List.mem_cons, List.not_mem_nil, or_false] at hcall
    rcases hcall with rfl | rfl | rfl | rfl <;> simp [Call.InRange]) ⟨rfl, rfl, rfl⟩ rfl

end MiyakoLink.Hosted
