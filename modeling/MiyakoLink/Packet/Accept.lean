import Mathlib.Data.List.Basic
import Mathlib.Data.List.Induction
import Mathlib.Tactic.Common
import MiyakoLink.Packet.Capture

/-!
# Which frames `gdb_getpacket` accepts

`ValidFrame` says of the characters read by a call that they end with a frame: a `$`, a body,
a `#` and two hexadecimal digits that give the sum of the body. The code accepts more, in
three ways.

* The body fills the buffer before its end. The next character is dropped and the two behind
  it are taken for the checksum (`OverLong`).
* `strtol` reads the checksum, and also takes white space, a sign, a prefix or a stop at the
  first character that is no digit. So the two characters need not be digits.
* The hunting loop ends on the contents of the buffer. A remote packet whose handler leaves a
  `$` there starts a capture without a `$` having been read (`Stray`).

`acknowledged_valid_iff`: what is acknowledged is a valid frame with the returned bytes as its
contents exactly when none of the three happened in the accepted frame.
-/

namespace MiyakoLink.Packet

open Lib

variable {σ : Type} {size : Nat} {remote : Remote σ} {r₀ r : Receiver σ}

/-- The call reads `consumed`, sends `+` and returns `n`. -/
def Acknowledges (size : Nat) (remote : Remote σ) (r₀ : Receiver σ) (consumed : List UInt8)
    (n : Nat) (r' : Receiver σ) : Prop :=
  ∃ q c r, consumed = q ++ [c] ∧ feed size remote r₀ q = some r ∧
    getcharStep size remote r c = .ret n r' ∧ r'.trace = r.trace ++ [.putchar plus]

theorem Acknowledges.gdbGetpacket_eq {consumed : List UInt8} {n : Nat} {r' : Receiver σ}
    (h : Acknowledges size remote r₀ consumed n r') (rest : List UInt8) :
    gdbGetpacket size remote r₀ (consumed ++ rest) = .returned n r' rest := by
  obtain ⟨q, c, r, rfl, hfeed, hret, _⟩ := h
  rw [List.append_assoc, gdbGetpacket_feed hfeed, List.singleton_append, gdbGetpacket, hret]

/-- The characters end with a complete frame whose contents are `data`. -/
def ValidFrame (consumed data : List UInt8) : Prop :=
  ∃ p body h1 h2, consumed = p ++ dollar :: (body ++ [hash, h1, h2]) ∧ isHex h1 = true ∧
    isHex h2 = true ∧ hexValue [h1, h2] = (byteSum body).toNat ∧ unescape body = some data

/-- The capture before the last three characters was left at the buffer limit. -/
def OverLong (size : Nat) (remote : Remote σ) (r₀ : Receiver σ) (consumed : List UInt8) : Prop :=
  ∃ q b h1 h2 r csum, consumed = q ++ [b, h1, h2] ∧ feed size remote r₀ q = some r ∧
    r.wait = .body size csum ∧ b ≠ hash

/-- The last two characters are hexadecimal digits. -/
def HexTrailer (consumed : List UInt8) : Prop :=
  ∃ q h1 h2, consumed = q ++ [h1, h2] ∧ isHex h1 = true ∧ isHex h2 = true

/-- A remote packet leaves the receiver in a capture. -/
def LeavesCapture (size : Nat) (remote : Remote σ) (r₀ : Receiver σ) (p : List UInt8) : Prop :=
  ∃ r k r', feed size remote r₀ p = some r ∧ r.wait = .remote k ∧
    getcharStep size remote r hash = .next r' ∧ r'.wait = .body 0 0

/-- The capture before the last three characters was started by a remote packet: what was
read since its end is a body that fits the buffer. -/
def Stray (size : Nat) (remote : Remote σ) (r₀ : Receiver σ) (consumed : List UInt8) : Prop :=
  ∃ p body u b h1 h2, consumed = p ++ hash :: (body ++ [b, h1, h2]) ∧
    LeavesCapture size remote r₀ p ∧ unescape body = some u ∧ u.length ≤ size

theorem hexTrailer_iff {q : List UInt8} {h1 h2 : UInt8} :
    HexTrailer (q ++ [h1, h2]) ↔ isHex h1 = true ∧ isHex h2 = true := by
  constructor
  · rintro ⟨q', k1, k2, heq, hk1, hk2⟩
    obtain ⟨_, htrailer⟩ := List.append_inj' heq rfl
    simp only [List.cons.injEq, and_true] at htrailer
    obtain ⟨rfl, rfl⟩ := htrailer
    exact ⟨hk1, hk2⟩
  · rintro ⟨hk1, hk2⟩
    exact ⟨q, h1, h2, rfl, hk1, hk2⟩

theorem ValidFrame.hexTrailer {consumed data : List UInt8} (h : ValidFrame consumed data) :
    HexTrailer consumed := by
  obtain ⟨p, body, h1, h2, rfl, hk1, hk2, _⟩ := h
  refine ⟨p ++ dollar :: (body ++ [hash]), h1, h2, ?_, hk1, hk2⟩
  rw [List.append_assoc, List.cons_append, List.append_assoc]
  rfl

/-! ## The invariant of a capture -/

/-- The capture that is going on after `q` was started, and has read `body` since. -/
def Started (size : Nat) (remote : Remote σ) (r₀ : Receiver σ) (q body : List UInt8) : Prop :=
  (∃ p, q = p ++ dollar :: body) ∨
    ∃ p, q = p ++ hash :: body ∧ LeavesCapture size remote r₀ p

/-- The buffer holds the contents of the body read so far, `data`, and its sum is `csum`. -/
def Captured (size : Nat) (remote : Remote σ) (r₀ : Receiver σ) (q data : List UInt8)
    (csum : UInt8) : Prop :=
  ∃ body, Started size remote r₀ q body ∧ unescape body = some data ∧ byteSum body = csum

theorem Started.append {q body : List UInt8} (h : Started size remote r₀ q body)
    (t : List UInt8) : Started size remote r₀ (q ++ t) (body ++ t) := by
  rcases h with ⟨p, rfl⟩ | ⟨p, rfl, hp⟩
  · exact Or.inl ⟨p, by rw [List.append_assoc, List.cons_append]⟩
  · exact Or.inr ⟨p, by rw [List.append_assoc, List.cons_append], hp⟩

structure CaptureInv (size : Nat) (remote : Remote σ) (r₀ : Receiver σ) (q : List UInt8)
    (r : Receiver σ) : Prop where
  body : ∀ i csum, r.wait = .body i csum →
    Captured size remote r₀ q (bytes r.packet i) csum ∧ i ≤ size
  escaped : ∀ i csum, r.wait = .escaped i csum →
    (∃ q', q = q' ++ [rbrace] ∧ Captured size remote r₀ q' (bytes r.packet i) csum) ∧ i < size
  remote : ∀ k, r.wait = .remote k → r.packet 0 ≠ dollar

theorem CaptureInv.start (h : r₀.wait = .start) : CaptureInv size remote r₀ [] r₀ where
  body i csum hw := by
    rw [h] at hw
    contradiction
  escaped i csum hw := by
    rw [h] at hw
    contradiction
  remote k hw := by
    rw [h] at hw
    contradiction

/-- One more character. -/
theorem CaptureInv.step {q : List UInt8} {c : UInt8} {r' : Receiver σ}
    (h : CaptureInv size remote r₀ q r) (hfeed : feed size remote r₀ q = some r)
    (hstep : getcharStep size remote r c = .next r') :
    CaptureInv size remote r₀ (q ++ [c]) r' where
  body i csum hw := by
    rcases next_body hstep hw with ⟨rfl, rfl, hstart⟩ | hstore | hstore
    · refine ⟨⟨[], ?_, rfl, rfl⟩, Nat.zero_le size⟩
      rcases hstart with rfl | ⟨k, hk, rfl | hfront⟩
      · exact Or.inl ⟨q, rfl⟩
      · exact Or.inr ⟨q, rfl, r, k, r', hfeed, hk, hstep, hw⟩
      · exact absurd hfront (h.remote k hk)
    · obtain ⟨j, csum₀, hj, hfull, hhash, hdollar, hesc, rfl, rfl, hpacket⟩ := hstore
      obtain ⟨⟨body, hstarted, hbody, rfl⟩, hle⟩ := h.body j csum₀ hj
      refine ⟨⟨body ++ [c], hstarted.append [c], ?_, byteSum_concat body c⟩, by omega⟩
      rw [hpacket, bytes_update_succ]
      exact unescape_concat hbody hhash hdollar hesc
    · obtain ⟨j, csum₀, hj, rfl, rfl, hpacket⟩ := hstore
      obtain ⟨⟨q', rfl, body, hstarted, hbody, rfl⟩, hlt⟩ := h.escaped j csum₀ hj
      refine ⟨⟨body ++ [rbrace, c], ?_, ?_, ?_⟩, hlt⟩
      · have happ := hstarted.append [rbrace, c]
        rw [List.append_assoc]
        exact happ
      · rw [hpacket, bytes_update_succ]
        exact unescape_concat_escaped hbody c
      · rw [byteSum_append, byteSum_cons, byteSum_cons, byteSum_nil, UInt8.add_zero,
          UInt8.add_comm rbrace]
  escaped i csum hw := by
    obtain ⟨rfl, hi, hfull, hpacket⟩ := next_escaped hstep hw
    obtain ⟨hcaptured, hle⟩ := h.body i csum hi
    refine ⟨⟨q, rfl, ?_⟩, by omega⟩
    rw [hpacket]
    exact hcaptured
  remote k hw := next_remote hstep hw h.remote

theorem CaptureInv.feed {q : List UInt8} (hstart : r₀.wait = .start)
    (hfeed : feed size remote r₀ q = some r) : CaptureInv size remote r₀ q r := by
  induction q using List.reverseRecOn generalizing r with
  | nil =>
    cases hfeed
    exact .start hstart
  | append_singleton q c ih =>
    obtain ⟨r₁, hfeed₁, hstep⟩ := feed_concat hfeed
    exact (ih hfeed₁).step hfeed₁ hstep

/-! ## Accepted frames -/

/-- A special character within a body is an escaped one: the contents split behind it. -/
theorem unescape_split {t s v : List UInt8} {c : UInt8} (hc : c = dollar ∨ c = hash)
    (h : unescape (t ++ c :: s) = some v) :
    ∃ x w, x ≠ [] ∧ unescape s = some w ∧ v = x ++ w := by
  fun_induction unescape t generalizing v with
  | case1 =>
    have hesc : c ≠ rbrace := by
      rcases hc with rfl | rfl <;> decide
    rw [List.nil_append, unescape.eq_def] at h
    simp only [if_neg hesc, if_pos hc] at h
    contradiction
  | case2 =>
    rw [List.singleton_append, unescape_rbrace] at h
    obtain ⟨w, hw, rfl⟩ := Option.map_eq_some_iff.mp h
    exact ⟨[c ^^^ 0x20], w, List.cons_ne_nil _ _, hw, rfl⟩
  | case3 d ds ih =>
    rw [List.cons_append, List.cons_append, unescape_rbrace] at h
    obtain ⟨v', hv', rfl⟩ := Option.map_eq_some_iff.mp h
    obtain ⟨x, w, _, hw, rfl⟩ := ih hv'
    exact ⟨(d ^^^ 0x20) :: x, w, List.cons_ne_nil _ _, hw, rfl⟩
  | case4 d ds hesc hbare =>
    rw [List.cons_append, unescape.eq_def] at h
    simp only [if_neg hesc, if_pos hbare] at h
    contradiction
  | case5 d ds hesc hbare ih =>
    rw [List.cons_append, unescape_cons hesc hbare] at h
    obtain ⟨v', hv', rfl⟩ := Option.map_eq_some_iff.mp h
    obtain ⟨x, w, _, hw, rfl⟩ := ih hv'
    exact ⟨d :: x, w, List.cons_ne_nil _ _, hw, rfl⟩

/-- Of two bodies behind different starts in the same characters one has fewer contents. -/
theorem contents_ne {p p' body body' u u' : List UInt8}
    (h : p ++ dollar :: body = p' ++ hash :: body') (hu : unescape body = some u)
    (hu' : unescape body' = some u') : u ≠ u' := by
  rintro rfl
  have hsplit : ∀ {x : List UInt8}, x ≠ [] → u = x ++ u → False := by
    intro x hx hux
    have hlen := congrArg List.length hux
    rw [List.length_append] at hlen
    exact hx (List.length_eq_zero_iff.mp (by omega))
  rcases List.append_eq_append_iff.mp h with ⟨t, rfl, ht⟩ | ⟨t, rfl, ht⟩
  · cases t with
    | nil => cases (List.cons.inj ht).1
    | cons d t =>
      obtain ⟨rfl, rfl⟩ := List.cons.inj ht
      obtain ⟨x, w, hx, hw, hux⟩ := unescape_split (Or.inr rfl) hu
      cases hu'.symm.trans hw
      exact hsplit hx hux
  · cases t with
    | nil => cases (List.cons.inj ht).1
    | cons d t =>
      obtain ⟨rfl, rfl⟩ := List.cons.inj ht
      obtain ⟨x, w, hx, hw, hux⟩ := unescape_split (Or.inl rfl) hu'
      cases hu.symm.trans hw
      exact hsplit hx hux

/-- The receiver has read something when it does not wait for a start any more. -/
theorem feed_last {q : List UInt8} (hstart : r₀.wait = .start)
    (hfeed : feed size remote r₀ q = some r) (hwait : r.wait ≠ .start) :
    ∃ q' c r₁, q = q' ++ [c] ∧ feed size remote r₀ q' = some r₁ ∧
      getcharStep size remote r₁ c = .next r := by
  rcases List.eq_nil_or_concat' q with rfl | ⟨q', c, rfl⟩
  · cases hfeed
    exact absurd hstart hwait
  · obtain ⟨r₁, hfeed₁, hstep⟩ := feed_concat hfeed
    exact ⟨q', c, r₁, rfl, hfeed₁, hstep⟩

/-- The last three characters of an accepted frame and the capture before them. -/
theorem Acknowledges.capture {consumed : List UInt8} {n : Nat} {r' : Receiver σ}
    (hstart : r₀.wait = .start) (h : Acknowledges size remote r₀ consumed n r') :
    ∃ q b h1 h2 r csum, consumed = q ++ [b, h1, h2] ∧ feed size remote r₀ q = some r ∧
      r.wait = .body n csum ∧ (b = hash ∨ n = size) ∧ bytes r'.packet n = bytes r.packet n ∧
      (csum.toNat : Int) = strtol16 [h1, h2] := by
  obtain ⟨q, h2, r₃, rfl, hfeed, hret, htrace⟩ := h
  rcases ret_cases hret with ⟨_, hsame⟩ | ⟨csum, h1, hwait, hvalue, hpacket, _⟩
  · rw [hsame] at htrace
    simp at htrace
  · obtain ⟨q, d, r₂, rfl, hfeed, hstep⟩ := feed_last hstart hfeed (by rw [hwait]; nofun)
    obtain ⟨hwait₂, rfl, hpacket₂⟩ := next_csum1 hstep hwait
    obtain ⟨q, b, r₁, rfl, hfeed, hstep⟩ := feed_last hstart hfeed (by rw [hwait₂]; nofun)
    obtain ⟨hwait₁, hend, hpacket₁⟩ := next_csum0 hstep hwait₂
    refine ⟨q, b, d, h2, r₁, csum, ?_, hfeed, hwait₁, hend, ?_, hvalue⟩
    · rw [List.append_assoc, List.append_assoc]
      rfl
    · rw [hpacket, bytes_update, hpacket₂, hpacket₁]

/-- What a stray capture has read is in the buffer. -/
theorem Stray.captured {q : List UInt8} {b h1 h2 : UInt8} {n : Nat} {csum : UInt8}
    (h : Stray size remote r₀ (q ++ [b, h1, h2])) (hfeed : feed size remote r₀ q = some r)
    (hwait : r.wait = .body n csum) :
    ∃ p body, q = p ++ hash :: body ∧ unescape body = some (bytes r.packet n) := by
  obtain ⟨p, body, u, b', g1, g2, heq, ⟨r₁, k, r₂, hfeed₁, _, hstep, hwait₂⟩, hu, hlen⟩ := h
  rw [← List.cons_append, ← List.append_assoc] at heq
  obtain ⟨rfl, _⟩ := List.append_inj' heq rfl
  obtain ⟨r₃, ⟨hfeed₃, _⟩, hwait₃, hbytes⟩ : ∃ r₃, Reads size remote r₂ body r₃ ∧
      r₃.wait = .body (0 + u.length) (0 + byteSum body) ∧
      bytes r₃.packet (0 + u.length) = bytes r₂.packet 0 ++ u :=
    reads_unescape hwait₂ hu (by omega)
  rw [feed_append hfeed₁, feed, hstep] at hfeed
  cases hfeed₃.symm.trans hfeed
  rw [hwait₃] at hwait
  cases hwait
  refine ⟨p, body, rfl, ?_⟩
  rw [hbytes]
  exact hu

/-- What is acknowledged is a valid frame with the returned bytes as its contents, exactly
when the body fitted the buffer, the trailer was two hexadecimal digits and the capture was
started by a `$` that was read. -/
theorem acknowledged_valid_iff {consumed : List UInt8} {n : Nat} {r' : Receiver σ}
    (hstart : r₀.wait = .start) (h : Acknowledges size remote r₀ consumed n r') :
    ValidFrame consumed (bytes r'.packet n) ↔
      ¬ OverLong size remote r₀ consumed ∧ HexTrailer consumed ∧
        ¬ Stray size remote r₀ consumed := by
  obtain ⟨q, b, h1, h2, r, csum, rfl, hfeed, hwait, hend, hbytes, hvalue⟩ := h.capture hstart
  obtain ⟨⟨body, hstarted, hbody, rfl⟩, hle⟩ := (CaptureInv.feed hstart hfeed).body n csum hwait
  rw [← hbytes] at hbody
  -- A list that ends with three given characters has one part before them.
  have hlast : ∀ {s t : List UInt8} {x y z x' y' z' : UInt8},
      s ++ [x, y, z] = t ++ [x', y', z'] → s = t ∧ x = x' ∧ y = y' ∧ z = z' := by
    intro s t x y z x' y' z' heq
    obtain ⟨rfl, hxyz⟩ := List.append_inj' heq rfl
    simp only [List.cons.injEq, and_true] at hxyz
    exact ⟨rfl, hxyz⟩
  constructor
  · intro hvalid
    have htrailer := hvalid.hexTrailer
    obtain ⟨p, body', k1, k2, heq, _, _, _, hcontents⟩ := hvalid
    have heq' : q ++ [b, h1, h2] = (p ++ dollar :: body') ++ [hash, k1, k2] := by
      rw [heq, List.append_assoc, List.cons_append]
    obtain ⟨hq, rfl, rfl, rfl⟩ := hlast heq'
    refine ⟨?_, htrailer, ?_⟩
    · rintro ⟨q', b', g1, g2, _, _, hover, _, _, hne⟩
      exact hne (hlast hover).2.1.symm
    · intro hstray
      obtain ⟨p', sbody, hq', hsbody⟩ := hstray.captured hfeed hwait
      rw [hbytes] at hcontents
      exact contents_ne (hq.symm.trans hq') hcontents hsbody rfl
  · rintro ⟨hover, htrailer, hstray⟩
    have hsplit : q ++ [b, h1, h2] = (q ++ [b]) ++ [h1, h2] := by
      rw [List.append_assoc]
      rfl
    rw [hsplit] at htrailer
    obtain ⟨hk1, hk2⟩ := hexTrailer_iff.mp htrailer
    have hhash : b = hash := by
      by_contra hne
      have hfull : n = size := hend.resolve_left hne
      subst hfull
      exact hover ⟨q, b, h1, h2, r, byteSum body, rfl, hfeed, hwait, hne⟩
    subst hhash
    rw [strtol16_hex hk1 hk2] at hvalue
    rcases hstarted with ⟨p, rfl⟩ | ⟨p, rfl, hleaves⟩
    · refine ⟨p, body, h1, h2, ?_, hk1, hk2, (Int.natCast_inj.mp hvalue).symm, hbody⟩
      rw [List.append_assoc, List.cons_append]
    · refine absurd ⟨p, body, bytes r'.packet n, hash, h1, h2, ?_, hleaves, hbody, ?_⟩ hstray
      · rw [List.append_assoc, List.cons_append]
      · rw [bytes_length]
        exact hle

/-- A remote handler that does nothing, and a receiver that begins to hunt. -/
def idleRemote : Remote Unit := fun _ packet _ => ⟨false, packet, [], ()⟩

def idleReceiver : Receiver Unit := ⟨.start, fun _ => 0, (), []⟩

/-- The frame `$OK#9A`. -/
def okFrame : List UInt8 := [dollar, 0x4F, 0x4B, hash, 0x39, 0x41]

theorem okFrame_valid_iff :
    ∃ r', Acknowledges 1024 idleRemote idleReceiver okFrame 2 r' ∧
      (ValidFrame okFrame (bytes r'.packet 2) ↔
        ¬ OverLong 1024 idleRemote idleReceiver okFrame ∧ HexTrailer okFrame ∧
          ¬ Stray 1024 idleRemote idleReceiver okFrame) := by
  obtain ⟨r', h⟩ : ∃ r', Acknowledges 1024 idleRemote idleReceiver okFrame 2 r' :=
    ⟨_, [dollar, 0x4F, 0x4B, hash, 0x39], 0x41, _, rfl, rfl, rfl, rfl⟩
  exact ⟨r', h, acknowledged_valid_iff rfl h⟩

/-- `strtol` reads nothing from `zz` and returns zero, which is the sum of an empty body. -/
theorem zzFrame_acknowledged :
    ∃ r', Acknowledges 1024 idleRemote idleReceiver [dollar, hash, 0x7A, 0x7A] 0 r' ∧
      ¬ ValidFrame [dollar, hash, 0x7A, 0x7A] (bytes r'.packet 0) := by
  refine ⟨_, ⟨[dollar, hash, 0x7A], 0x7A, _, rfl, rfl, rfl, rfl⟩, ?_⟩
  intro hvalid
  have htrailer : HexTrailer ([dollar, hash] ++ [0x7A, 0x7A]) := hvalid.hexTrailer
  exact absurd (hexTrailer_iff.mp htrailer) (by decide)

end MiyakoLink.Packet
