import Mathlib.Tactic.Common
import MiyakoLink.Packet.Capture
import MiyakoLink.Packet.Send

/-!
# A packet that is sent is received

`unescape_putBody` and `putBody_csum` say what `gdb_putpacket` sends for a payload: a body
that unescapes to it, and the sum of that body. `gdbGetpacket_transmission` is the round trip,
behind noise and one abandoned frame.
-/

namespace MiyakoLink.Packet

open Lib

variable {σ : Type} {size : Nat} {remote : Remote σ} {r : Receiver σ}

theorem unescape_putBody (cs : List UInt8) (csum : UInt8) :
    unescape (putBody cs csum).1 = some cs := by
  induction cs generalizing csum with
  | nil => rfl
  | cons c cs ih =>
    rw [putBody]
    split
    · have hxor : c ^^^ 0x20 ^^^ 0x20 = c := by
        rw [UInt8.xor_assoc, UInt8.xor_self, UInt8.xor_zero]
      rw [unescape_rbrace, ih, hxor]
      rfl
    · rename_i hspecial
      obtain ⟨hdollar, hhash, hesc⟩ : c ≠ dollar ∧ c ≠ hash ∧ c ≠ rbrace := by
        simpa only [not_or] using hspecial
      rw [unescape_cons hesc (by simp only [hdollar, hhash, or_self, not_false_eq_true]), ih]
      rfl

theorem putBody_csum (cs : List UInt8) (csum : UInt8) :
    (putBody cs csum).2 = csum + byteSum (putBody cs csum).1 := by
  induction cs generalizing csum with
  | nil => exact (UInt8.add_zero csum).symm
  | cons c cs ih =>
    rw [putBody]
    split
    · rw [ih, byteSum_cons, byteSum_cons, UInt8.add_assoc, UInt8.add_assoc]
    · rw [ih, byteSum_cons, UInt8.add_assoc]

/-- The transmission of a payload is received from any point where a `$` starts a packet. -/
theorem gdbGetpacket_of_starts {payload : List UInt8} (rest : List UInt8)
    (hsize : payload.length ≤ size)
    (hstart : ∃ r₁, Reads size remote r [dollar] r₁ ∧ r₁.wait = .body 0 0) :
    ∃ r', gdbGetpacket size remote r (transmission payload ++ rest) =
        .returned payload.length r' rest ∧
      bytes r'.packet payload.length = payload ∧ r'.trace = r.trace ++ [.putchar plus] := by
  obtain ⟨r₁, hreads₁, hwait₁⟩ := hstart
  obtain ⟨r₂, hreads₂, hwait₂, hbytes⟩ : ∃ r₂, Reads size remote r₁ (putBody payload 0).1 r₂ ∧
      r₂.wait = .body (0 + payload.length) (putBody payload 0).2 ∧
      bytes r₂.packet (0 + payload.length) = bytes r₁.packet 0 ++ payload :=
    by
      rw [putBody_csum payload 0]
      exact reads_unescape hwait₁ (unescape_putBody payload 0) (by omega)
  rw [Nat.zero_add] at hwait₂ hbytes
  have hhash := Reads.step (getcharStep_hash size remote hwait₂) rfl rfl
  have hall := (hreads₁.trans hreads₂).trans hhash
  have hvalue := printfHex2_value (putBody payload 0).2
  have hsplit : transmission payload ++ rest =
      ([dollar] ++ (putBody payload 0).1 ++ [hash]) ++ (printfHex2 (putBody payload 0).2 ++ rest) := by
    simp [transmission]
  rw [printfHex2] at hvalue hsplit
  refine ⟨{ r₂ with
    wait := .csum1 payload.length (putBody payload 0).2
      (hexUpper ((putBody payload 0).2.toNat / 16))
    packet := Function.update r₂.packet payload.length 0
    trace := r₂.trace ++ [.putchar plus] }, ?_, ?_, ?_⟩
  · rw [hsplit, gdbGetpacket_feed hall.1]
    simp only [List.cons_append, List.nil_append, gdbGetpacket, getcharStep]
    rw [if_pos hvalue.symm]
  · rw [bytes_update, hbytes]
    rfl
  · have htrace : r₂.trace = r.trace := hall.2.1
    rw [htrace]

/-- What a frame may be sent behind: noise, and at most one abandoned frame. -/
structure Preamble (size : Nat) where
  noise : List UInt8
  part : Option (List UInt8)
  noise_ok : ∀ c ∈ noise, c ≠ dollar ∧ c ≠ remoteSom ∧ c ≠ 0x04
  part_length : ∀ {s}, part = some s → s.length < size
  part_ok : ∀ {s}, part = some s → ∀ c ∈ s, c ≠ hash ∧ c ≠ rbrace

def Preamble.chars {size : Nat} (p : Preamble size) : List UInt8 :=
  p.noise ++ p.part.elim [] (dollar :: ·)

/-- A payload that fits the buffer is received from its transmission, behind noise and an
abandoned frame: one `+` is sent, and the frame and nothing else is consumed. -/
theorem gdbGetpacket_transmission (p : Preamble size) {payload rest : List UInt8}
    (hwait : r.wait = .start) (hsize : payload.length ≤ size) :
    ∃ r', gdbGetpacket size remote r (p.chars ++ (transmission payload ++ rest)) =
        .returned payload.length r' rest ∧
      bytes r'.packet payload.length = payload ∧ r'.trace = r.trace ++ [.putchar plus] := by
  obtain ⟨r₁, hnoise, hwait₁⟩ : ∃ r₁, Reads size remote r p.noise r₁ ∧ r₁.wait = .start :=
    reads_noise hwait p.noise_ok
  obtain ⟨r₂, hreads₂, hstart⟩ : ∃ r₂, Reads size remote r p.chars r₂ ∧
      ∃ r₃, Reads size remote r₂ [dollar] r₃ ∧ r₃.wait = .body 0 0 := by
    unfold Preamble.chars
    cases hpart : p.part with
    | none =>
      rw [Option.elim_none, List.append_nil]
      exact ⟨r₁, hnoise, reads_start size remote hwait₁⟩
    | some s =>
      obtain ⟨r₂, hdollar, hwait₂⟩ := reads_start size remote hwait₁
      have hlen := p.part_length hpart
      obtain ⟨r₃, j, csum, hreads, hwait₃, hroom⟩ : ∃ r₃ j csum, Reads size remote r₂ s r₃ ∧
          r₃.wait = .body j csum ∧ j < size :=
        reads_partial hwait₂ (by omega) (p.part_ok hpart)
      refine ⟨r₃, hnoise.trans (hdollar.trans hreads), ?_⟩
      exact ⟨_, Reads.step (getcharStep_dollar size remote hwait₃ (by omega)) rfl rfl, rfl⟩
  obtain ⟨r', hreturned, hbytes, htrace⟩ :=
    gdbGetpacket_of_starts rest hsize hstart
  refine ⟨r', ?_, hbytes, ?_⟩
  · rw [gdbGetpacket_feed hreads₂.1]
    exact hreturned
  · rw [htrace, hreads₂.2.1]

/-- Noise, an abandoned frame and a payload with every special character, in a buffer that
it just fills. -/
theorem gdbGetpacket_transmission_special :
    ∃ r', gdbGetpacket 4 (fun _ packet _ => ⟨false, packet, [], ()⟩)
        ⟨.start, fun _ => 0, (), []⟩
        ([0x41, dollar, 0x42, dollar] ++ (transmission [dollar, hash, rbrace, 0x04] ++ [plus])) =
        .returned 4 r' [plus] ∧
      bytes r'.packet 4 = [dollar, hash, rbrace, 0x04] ∧ r'.trace = [.putchar plus] :=
  gdbGetpacket_transmission
    { noise := [0x41]
      part := some [0x42, dollar]
      noise_ok := List.forall_mem_singleton.mpr (by decide)
      part_length := by
        intro s hs
        cases hs
        decide
      part_ok := by
        intro s hs
        cases hs
        exact List.forall_mem_cons.mpr ⟨by decide, List.forall_mem_singleton.mpr (by decide)⟩ } rfl (by decide)

end MiyakoLink.Packet
