import Mathlib.Tactic.Common

/-!
# Hexadecimal text

`hex_utils.c`. Digits are not checked: `unhex_digit` gives some value for every character.
-/

namespace MiyakoLink

/-- A digit of `hexify`. -/
def hexLower (n : Nat) : UInt8 := if n < 10 then UInt8.ofNat (0x30 + n) else UInt8.ofNat (0x57 + n)

def hexify (bs : List UInt8) : List UInt8 :=
  bs.flatMap fun b => [hexLower (b.toNat / 16), hexLower (b.toNat % 16)]

/-- `unhex_digit`, in eight bits. -/
def unhexDigit (hex : UInt8) : UInt8 :=
  let tmp := hex - 0x30
  let tmp := if tmp > 9 then tmp - 7 else tmp
  if tmp > 16 then tmp - 32 else tmp

/-- The `size` bytes that `unhexify` decodes from `hex`, which is followed by zeros. -/
def unhexBytes (hex : List UInt8) (size : Nat) : List UInt8 :=
  (List.range size).map fun k =>
    unhexDigit (hex.getD (2 * k) 0) <<< 4 ||| unhexDigit (hex.getD (2 * k + 1) 0)

/-- Two digits give the number that they are written for. -/
theorem shiftLeft_or_digit (high : Nat) {low : Nat} (hlow : low < 16) :
    UInt8.ofNat high <<< 4 ||| UInt8.ofNat low = UInt8.ofNat (high * 16 + low) := by
  have hsum : high * 16 + low = high <<< 4 ||| low := by
    rw [← Nat.shiftLeft_add_eq_or_of_lt (show low < 2 ^ 4 from hlow), Nat.shiftLeft_eq]
  have hhigh : ((high % 2 ^ 8) <<< 4) % 2 ^ 8 = (high <<< 4) % 2 ^ 8 := by
    rw [Nat.shiftLeft_eq, Nat.shiftLeft_eq]
    omega
  apply UInt8.toNat_inj.mp
  rw [hsum, UInt8.toNat_or, UInt8.toNat_shiftLeft, UInt8.toNat_ofNat', UInt8.toNat_ofNat',
    UInt8.toNat_ofNat', Nat.or_mod_two_pow, ← hhigh]
  rfl

end MiyakoLink
