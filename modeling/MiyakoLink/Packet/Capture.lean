import Mathlib.Tactic.Common
import MiyakoLink.Packet.Receive

/-!
# Reading without an answer

`Reads` says that the receiver goes over characters without doing anything but reading. The
lemmas say so for noise, for the start of a packet, for the part of a body (`reads_partial`)
and for a body that fits the buffer (`reads_unescape`), which is then in the buffer unescaped.

The last section tells for each wait of a capture which turns lead to it.
-/

namespace MiyakoLink.Packet

open Lib

variable {σ : Type} {size : Nat} {remote : Remote σ} {r : Receiver σ}

/-- The receiver goes on from `r` to `r'` over `s` without doing anything but reading. -/
def Reads (size : Nat) (remote : Remote σ) (r : Receiver σ) (s : List UInt8)
    (r' : Receiver σ) : Prop :=
  feed size remote r s = some r' ∧ r'.trace = r.trace ∧ r'.env = r.env

theorem Reads.refl (r : Receiver σ) : Reads size remote r [] r := ⟨rfl, rfl, rfl⟩

theorem Reads.trans {r₁ r₂ : Receiver σ} {s t : List UInt8} (h : Reads size remote r s r₁)
    (h' : Reads size remote r₁ t r₂) : Reads size remote r (s ++ t) r₂ := by
  obtain ⟨hfeed, htrace, henv⟩ := h
  obtain ⟨hfeed', htrace', henv'⟩ := h'
  refine ⟨?_, htrace'.trans htrace, henv'.trans henv⟩
  rw [feed_append hfeed, hfeed']

/-- One character that does not end the call. -/
theorem Reads.step {r₁ : Receiver σ} {c : UInt8} (h : getcharStep size remote r c = .next r₁)
    (htrace : r₁.trace = r.trace) (henv : r₁.env = r.env) : Reads size remote r [c] r₁ := by
  refine ⟨?_, htrace, henv⟩
  rw [feed, h]
  rfl

/-- Characters that start nothing leave the receiver hunting. -/
theorem reads_noise {noise : List UInt8} (hwait : r.wait = .start)
    (hnoise : ∀ c ∈ noise, c ≠ dollar ∧ c ≠ remoteSom ∧ c ≠ 0x04) :
    ∃ r', Reads size remote r noise r' ∧ r'.wait = .start := by
  induction noise generalizing r with
  | nil => exact ⟨r, .refl r, hwait⟩
  | cons c noise ih =>
    obtain ⟨hdollar, hsom, heot⟩ := hnoise c (.head noise)
    have hstep : getcharStep size remote r c =
        .next { r with packet := Function.update r.packet 0 c, wait := .start } := by
      simp only [getcharStep, hwait, if_neg heot, if_neg hsom, Receiver.hunted,
        Function.update_self, if_neg hdollar]
    obtain ⟨r', hreads, hwait'⟩ := ih (r := { r with
      packet := Function.update r.packet 0 c, wait := .start }) rfl
      fun d hd => hnoise d (.tail c hd)
    exact ⟨r', (Reads.step hstep rfl rfl).trans hreads, hwait'⟩

theorem reads_start (size : Nat) (remote : Remote σ) (hwait : r.wait = .start) :
    ∃ r', Reads size remote r [dollar] r' ∧ r'.wait = .body 0 0 := by
  refine ⟨{ r with packet := Function.update r.packet 0 dollar, wait := .body 0 0 },
    Reads.step ?_ rfl rfl, rfl⟩
  have heot : dollar ≠ 0x04 := by decide
  have hsom : dollar ≠ remoteSom := by decide
  simp only [getcharStep, hwait, if_neg heot, if_neg hsom, Receiver.hunted,
    Function.update_self, if_true]

/-- A body without `#` and `}` that is too short to fill the buffer is still being captured
behind its last character. -/
theorem reads_partial {part : List UInt8} {i : Nat} {csum : UInt8}
    (hwait : r.wait = .body i csum) (hroom : i + part.length < size)
    (hpart : ∀ c ∈ part, c ≠ hash ∧ c ≠ rbrace) :
    ∃ r' j csum', Reads size remote r part r' ∧ r'.wait = .body j csum' ∧ j < size := by
  induction part generalizing r i csum with
  | nil => exact ⟨r, i, csum, .refl r, hwait, hroom⟩
  | cons c part ih =>
    obtain ⟨hhash, hesc⟩ := hpart c (.head part)
    rw [List.length_cons] at hroom
    have hfull : i ≠ size := by omega
    by_cases hdollar : c = dollar
    · subst hdollar
      obtain ⟨r', j, csum', hreads, hbody⟩ := ih (r := { r with wait := .body 0 0 }) rfl
        (by omega) fun d hd => hpart d (.tail _ hd)
      have hstep := Reads.step (getcharStep_dollar size remote hwait hfull) rfl rfl
      exact ⟨r', j, csum', hstep.trans hreads, hbody⟩
    · obtain ⟨r', j, csum', hreads, hbody⟩ := ih (r := { r with
        packet := Function.update r.packet i c, wait := .body (i + 1) (csum + c) }) rfl
        (by omega) fun d hd => hpart d (.tail c hd)
      have hstep := Reads.step
        (getcharStep_store size remote hwait hfull hhash hdollar hesc) rfl rfl
      exact ⟨r', j, csum', hstep.trans hreads, hbody⟩

/-- A body that fits behind what the buffer holds is stored there unescaped, and its raw
bytes are added to the checksum. -/
theorem reads_unescape {body u : List UInt8} {i : Nat} {csum : UInt8}
    (hwait : r.wait = .body i csum) (hu : unescape body = some u) (hroom : i + u.length ≤ size) :
    ∃ r', Reads size remote r body r' ∧
      r'.wait = .body (i + u.length) (csum + byteSum body) ∧
      bytes r'.packet (i + u.length) = bytes r.packet i ++ u := by
  fun_induction unescape body generalizing r i csum u with
  | case1 =>
    cases hu
    exact ⟨r, .refl r, by rw [hwait]; simp [byteSum], (List.append_nil _).symm⟩
  | case2 => contradiction
  | case3 d ds ih =>
    obtain ⟨v, hv, rfl⟩ := Option.map_eq_some_iff.mp hu
    rw [List.length_cons] at hroom
    have hfull : i ≠ size := by omega
    have hesc := Reads.step (getcharStep_rbrace size remote hwait hfull) rfl rfl
    have hstore := Reads.step (getcharStep_escaped size remote
      (r := { r with wait := .escaped i csum }) (c := d) rfl) rfl rfl
    obtain ⟨r', hreads, hwait', hbytes⟩ := ih (r := { r with
      packet := Function.update r.packet i (d ^^^ 0x20)
      wait := .body (i + 1) (csum + (d + rbrace)) }) rfl hv (by omega)
    have hlen : i + ((d ^^^ 0x20) :: v).length = i + 1 + v.length := by
      rw [List.length_cons]
      omega
    rw [hlen]
    refine ⟨r', hesc.trans (hstore.trans hreads), ?_, ?_⟩
    · rw [hwait', byteSum_cons, byteSum_cons, UInt8.add_comm d, UInt8.add_assoc, UInt8.add_assoc]
    · rw [hbytes, bytes_update_succ, List.append_assoc, List.singleton_append]
  | case4 => contradiction
  | case5 c cs hesc hbare ih =>
    obtain ⟨v, hv, rfl⟩ := Option.map_eq_some_iff.mp hu
    obtain ⟨hdollar, hhash⟩ := not_or.mp hbare
    rw [List.length_cons] at hroom
    have hfull : i ≠ size := by omega
    have hstore := Reads.step (getcharStep_store size remote hwait hfull hhash hdollar hesc)
      rfl rfl
    obtain ⟨r', hreads, hwait', hbytes⟩ := ih (r := { r with
      packet := Function.update r.packet i c, wait := .body (i + 1) (csum + c) }) rfl hv (by omega)
    have hlen : i + (c :: v).length = i + 1 + v.length := by
      rw [List.length_cons]
      omega
    rw [hlen]
    refine ⟨r', hstore.trans hreads, ?_, ?_⟩
    · rw [hwait', byteSum_cons, UInt8.add_assoc]
    · rw [hbytes, bytes_update_succ, List.append_assoc, List.singleton_append]

/-! ## Which turns lead to a capture -/

theorem feed_concat {q : List UInt8} {c : UInt8} {r' : Receiver σ}
    (h : feed size remote r (q ++ [c]) = some r') :
    ∃ r₁, feed size remote r q = some r₁ ∧ getcharStep size remote r₁ c = .next r' := by
  induction q generalizing r with
  | nil =>
    rw [List.nil_append, feed] at h
    cases hstep : getcharStep size remote r c with
    | next r₁ =>
      rw [hstep] at h
      cases h
      exact ⟨r, rfl, hstep⟩
    | ret n r₁ =>
      rw [hstep] at h
      contradiction
    | raised r₁ =>
      rw [hstep] at h
      contradiction
  | cons d q ih =>
    rw [List.cons_append, feed] at h
    rw [feed]
    cases hstep : getcharStep size remote r d with
    | next r₁ =>
      rw [hstep] at h
      exact ih h
    | ret n r₁ =>
      rw [hstep] at h
      contradiction
    | raised r₁ =>
      rw [hstep] at h
      contradiction

theorem hunted_body {i : Nat} {csum : UInt8} (h : r.hunted.wait = .body i csum) :
    r.packet 0 = dollar ∧ i = 0 ∧ csum = 0 := by
  by_cases hfront : r.packet 0 = dollar
  · rw [Receiver.hunted, if_pos hfront] at h
    cases h
    exact ⟨hfront, rfl, rfl⟩
  · rw [Receiver.hunted, if_neg hfront] at h
    contradiction

theorem hunted_wait (r : Receiver σ) : r.hunted.wait = .body 0 0 ∨ r.hunted.wait = .start :=
  ite_eq_or_eq _ _ _

/-- The turns that lead to the wait for a body character: a `$` starts or restarts the
capture, the remote handler leaves one in the buffer, or the hunting loop finds one there;
or a character is stored. -/
theorem next_body {c : UInt8} {r' : Receiver σ} {i : Nat} {csum : UInt8}
    (h : getcharStep size remote r c = .next r') (hwait : r'.wait = .body i csum) :
    (i = 0 ∧ csum = 0 ∧
      (c = dollar ∨ ∃ k, r.wait = .remote k ∧ (c = hash ∨ r.packet 0 = dollar))) ∨
    (∃ j csum₀, r.wait = .body j csum₀ ∧ j ≠ size ∧ c ≠ hash ∧ c ≠ dollar ∧ c ≠ rbrace ∧
      i = j + 1 ∧ csum = csum₀ + c ∧ r'.packet = Function.update r.packet j c) ∨
    (∃ j csum₀, r.wait = .escaped j csum₀ ∧ i = j + 1 ∧ csum = csum₀ + (c + rbrace) ∧
      r'.packet = Function.update r.packet j (c ^^^ 0x20)) := by
  unfold getcharStep at h
  cases hw : r.wait with
  | start =>
    simp only [hw] at h
    split at h
    · contradiction
    split at h
    · cases h
      contradiction
    cases h
    obtain ⟨hfront, rfl, rfl⟩ := hunted_body hwait
    have hc : c = dollar := (Function.update_self 0 c r.packet).symm.trans hfront
    exact Or.inl ⟨rfl, rfl, Or.inl hc⟩
  | remote k =>
    simp only [hw] at h
    split at h
    · cases h
      contradiction
    split at h
    · rename_i hhash
      unfold Receiver.callRemote at h
      split at h
      · contradiction
      cases h
      obtain ⟨_, rfl, rfl⟩ := hunted_body hwait
      exact Or.inl ⟨rfl, rfl, Or.inr ⟨k, rfl, Or.inl hhash⟩⟩
    split at h
    · rename_i hdollar
      cases h
      cases hwait
      exact Or.inl ⟨rfl, rfl, Or.inl hdollar⟩
    split at h
    · cases h
      contradiction
    cases h
    obtain ⟨hfront, rfl, rfl⟩ := hunted_body hwait
    exact Or.inl ⟨rfl, rfl, Or.inr ⟨k, rfl, Or.inr hfront⟩⟩
  | body j csum₀ =>
    simp only [hw] at h
    split at h
    · cases h
      contradiction
    split at h
    · cases h
      contradiction
    split at h
    · rename_i hdollar
      cases h
      cases hwait
      exact Or.inl ⟨rfl, rfl, Or.inl hdollar⟩
    split at h
    · cases h
      contradiction
    rename_i hhash hfull hdollar hesc
    cases h
    cases hwait
    exact Or.inr (Or.inl ⟨j, csum₀, rfl, hfull, hhash, hdollar, hesc, rfl, rfl, rfl⟩)
  | escaped j csum₀ =>
    simp only [hw] at h
    cases h
    cases hwait
    exact Or.inr (Or.inr ⟨j, csum₀, rfl, rfl, rfl, rfl⟩)
  | csum0 j csum₀ =>
    simp only [hw] at h
    cases h
    contradiction
  | csum1 j csum₀ recv =>
    simp only [hw] at h
    split at h
    · contradiction
    cases h
    contradiction

theorem next_escaped {c : UInt8} {r' : Receiver σ} {i : Nat} {csum : UInt8}
    (h : getcharStep size remote r c = .next r') (hwait : r'.wait = .escaped i csum) :
    c = rbrace ∧ r.wait = .body i csum ∧ i ≠ size ∧ r'.packet = r.packet := by
  have hhunted := hunted_wait (σ := σ)
  unfold getcharStep Receiver.callRemote at h
  cases hw : r.wait <;> simp only [hw] at h <;> grind

/-- The capture ends at a `#`, or at the buffer limit. -/
theorem next_csum0 {c : UInt8} {r' : Receiver σ} {i : Nat} {csum : UInt8}
    (h : getcharStep size remote r c = .next r') (hwait : r'.wait = .csum0 i csum) :
    r.wait = .body i csum ∧ (c = hash ∨ i = size) ∧ r'.packet = r.packet := by
  have hhunted := hunted_wait (σ := σ)
  unfold getcharStep Receiver.callRemote at h
  cases hw : r.wait <;> simp only [hw] at h <;> grind

theorem next_csum1 {c : UInt8} {r' : Receiver σ} {i : Nat} {csum h1 : UInt8}
    (h : getcharStep size remote r c = .next r') (hwait : r'.wait = .csum1 i csum h1) :
    r.wait = .csum0 i csum ∧ c = h1 ∧ r'.packet = r.packet := by
  have hhunted := hunted_wait (σ := σ)
  unfold getcharStep Receiver.callRemote at h
  cases hw : r.wait <;> simp only [hw] at h <;> grind

/-- A call returns at an EOT while hunting, or at a checksum that matches. -/
theorem ret_cases {c : UInt8} {r' : Receiver σ} {n : Nat}
    (h : getcharStep size remote r c = .ret n r') :
    (r.wait = .start ∧ r'.trace = r.trace) ∨
      ∃ csum h1, r.wait = .csum1 n csum h1 ∧ (csum.toNat : Int) = strtol16 [h1, c] ∧
        r'.packet = Function.update r.packet n 0 ∧ r'.trace = r.trace ++ [.putchar plus] := by
  unfold getcharStep Receiver.callRemote at h
  cases hw : r.wait <;> simp only [hw] at h <;> grind

/-- While a remote packet is read there is no `$` at the front of the buffer. -/
theorem next_remote {c : UInt8} {r' : Receiver σ} {i : Nat}
    (h : getcharStep size remote r c = .next r') (hwait : r'.wait = .remote i)
    (hr : ∀ k, r.wait = .remote k → r.packet 0 ≠ dollar) : r'.packet 0 ≠ dollar := by
  have hhunted := hunted_wait (σ := σ)
  unfold getcharStep Receiver.callRemote at h
  cases hw : r.wait with
  | start =>
    simp only [hw] at h
    split at h
    · contradiction
    split at h
    · rename_i hsom
      cases h
      dsimp only
      rw [Function.update_self, hsom]
      decide
    · grind
  | remote k =>
    simp only [hw] at h
    split at h
    · cases h
      exact hr k hw
    split at h
    · grind
    split at h
    · cases h
      contradiction
    rename_i hdollar
    split at h
    · cases h
      dsimp only
      rw [Function.update_apply]
      split
      · exact hdollar
      · exact hr k hw
    · grind
  | body | escaped | csum0 | csum1 =>
    simp only [hw] at h
    grind

end MiyakoLink.Packet
