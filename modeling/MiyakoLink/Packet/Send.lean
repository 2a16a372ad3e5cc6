import Mathlib.Tactic.Common
import MiyakoLink.Packet.Receive

/-!
# `gdb_putpacket`

`transmission` is what one turn of the outer loop of `gdb_putpacket` sends. The loop sends
it again until an acknowledge comes, four times at most (`gdbPutpacket_eq`).

* `printfHex2_value`: the two digits sent behind the body are read as the checksum.
-/

namespace MiyakoLink.Packet

open Lib

/-- A digit as `%X` prints it. -/
def hexUpper (n : Nat) : UInt8 := if n < 10 then UInt8.ofNat (0x30 + n) else UInt8.ofNat (0x37 + n)

/-- `snprintf(xmit_csum, sizeof(xmit_csum), "%02X", csum)`. -/
def printfHex2 (csum : UInt8) : List UInt8 :=
  [hexUpper (csum.toNat / 16), hexUpper (csum.toNat % 16)]

/-- The loop over the packet: what it sends, and the checksum behind it. -/
def putBody : List UInt8 → UInt8 → List UInt8 × UInt8
  | [], csum => ([], csum)
  | c :: cs, csum =>
    if c = dollar ∨ c = hash ∨ c = rbrace then
      let r := putBody cs (csum + (rbrace + (c ^^^ 0x20)))
      (rbrace :: (c ^^^ 0x20) :: r.1, r.2)
    else
      let r := putBody cs (csum + c)
      (c :: r.1, r.2)

def transmission (packet : List UInt8) : List UInt8 :=
  let b := putBody packet 0
  dollar :: b.1 ++ hash :: printfHex2 b.2

/-- The outer loop with `left` more tries. An answer is what `gdb_if_getchar_to(2000)`
returns, `none` for a timeout. -/
def putpacketTries (packet : List UInt8) : Nat → List (Option UInt8) → List UInt8
  | 0, _ => transmission packet
  | left + 1, answers =>
    transmission packet ++
      if answers.head?.join = some plus then [] else putpacketTries packet left answers.tail

def gdbPutpacket (packet : List UInt8) (answers : List (Option UInt8)) : List UInt8 :=
  putpacketTries packet 3 answers

theorem putpacketTries_eq (packet : List UInt8) (left : Nat) (answers : List (Option UInt8)) :
    ∃ n, 1 ≤ n ∧ n ≤ left + 1 ∧
      putpacketTries packet left answers = (List.replicate n (transmission packet)).flatten := by
  induction left generalizing answers with
  | zero => exact ⟨1, Nat.le_refl 1, Nat.le_refl 1, (List.append_nil _).symm⟩
  | succ left ih =>
    rw [putpacketTries]
    split
    · exact ⟨1, Nat.le_refl 1, by omega, rfl⟩
    · obtain ⟨n, hone, hmax, hn⟩ := ih answers.tail
      refine ⟨n + 1, by omega, by omega, ?_⟩
      rw [hn, List.replicate_succ, List.flatten_cons]

/-- The packet is sent one to four times. -/
theorem gdbPutpacket_eq (packet : List UInt8) (answers : List (Option UInt8)) :
    ∃ n, 1 ≤ n ∧ n ≤ 4 ∧
      gdbPutpacket packet answers = (List.replicate n (transmission packet)).flatten :=
  putpacketTries_eq packet 3 answers

theorem hexDigit?_hexUpper {n : Nat} (h : n < 16) : hexDigit? (hexUpper n) = some n := by
  decide +revert

/-- The digits sent are read as the checksum. -/
theorem printfHex2_value (csum : UInt8) : strtol16 (printfHex2 csum) = csum.toNat := by
  have hlt := csum.toNat_lt
  have hhigh := hexDigit?_hexUpper (n := csum.toNat / 16) (by omega)
  have hlow := hexDigit?_hexUpper (n := csum.toNat % 16) (by omega)
  rw [printfHex2, strtol16_hex (by rw [isHex, hhigh]; rfl) (by rw [isHex, hlow]; rfl)]
  simp only [hexValue, List.foldl_cons, List.foldl_nil, hhigh, hlow, Option.getD_some]
  omega

end MiyakoLink.Packet
