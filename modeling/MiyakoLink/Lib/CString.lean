import Mathlib.Tactic.Common

/-!
# C strings of bytes

A string is a list of bytes and ends at its first NUL. `strtol16` is `strtol(s, NULL, 16)`
as the C standard describes it (white space, one sign, an optional `0x` before a digit, then
digits), without the overflow clause, which no short string reaches.

* `strtol16_hex`: two hexadecimal digits are read as their value.
-/

namespace MiyakoLink.Lib

/-- The bytes before the terminator. -/
def cstr (s : List UInt8) : List UInt8 := s.takeWhile (· ≠ 0)

/-- `isspace` in the C locale. -/
def isSpace (c : UInt8) : Bool := c == 0x20 || (0x09 ≤ c && c ≤ 0x0D)

/-- The value of a hexadecimal digit. -/
def hexDigit? (c : UInt8) : Option Nat :=
  if 0x30 ≤ c ∧ c ≤ 0x39 then some (c.toNat - 0x30)
  else if 0x41 ≤ c ∧ c ≤ 0x46 then some (c.toNat - 0x41 + 10)
  else if 0x61 ≤ c ∧ c ≤ 0x66 then some (c.toNat - 0x61 + 10)
  else none

/-- `isxdigit`. -/
def isHex (c : UInt8) : Bool := (hexDigit? c).isSome

/-- The number whose hexadecimal digits are given, most significant first. -/
def hexValue (digits : List UInt8) : Nat :=
  digits.foldl (fun v c => v * 16 + (hexDigit? c).getD 0) 0

/-- An optional sign: whether it is a minus, and the rest. -/
def scanSign : List UInt8 → Bool × List UInt8
  | 0x2D :: s => (true, s)
  | 0x2B :: s => (false, s)
  | s => (false, s)

/-- The prefix `0x` is dropped where a digit follows it. -/
def dropHexPrefix : List UInt8 → List UInt8
  | 0x30 :: x :: d :: s => if (x = 0x78 ∨ x = 0x58) ∧ isHex d then d :: s else 0x30 :: x :: d :: s
  | s => s

def strtol16 (s : List UInt8) : Int :=
  let signed := scanSign ((cstr s).dropWhile isSpace)
  let v := (hexValue ((dropHexPrefix signed.2).takeWhile isHex) : Int)
  if signed.1 then -v else v

theorem cstr_append_nul (s rest : List UInt8) : cstr (s ++ 0 :: rest) = cstr s := by
  unfold cstr
  induction s with
  | nil => rfl
  | cons c s ih =>
    rw [List.cons_append, List.takeWhile_cons, List.takeWhile_cons, ih]

theorem cstr_append {s : List UInt8} (h : ∀ c ∈ s, c ≠ 0) (rest : List UInt8) :
    cstr (s ++ rest) = s ++ cstr rest := by
  unfold cstr
  apply List.takeWhile_append_of_pos
  intro c hc
  exact decide_eq_true (h c hc)

theorem cstr_cons {c : UInt8} (h : c ≠ 0) (s : List UInt8) : cstr (c :: s) = c :: cstr s := by
  rw [cstr, List.takeWhile_cons, if_pos (decide_eq_true h)]
  rfl

theorem cstr_drop {s : List UInt8} {n : Nat} (h : n ≤ (cstr s).length) :
    cstr (s.drop n) = (cstr s).drop n := by
  induction s generalizing n with
  | nil =>
    rw [List.drop_nil]
    exact List.drop_nil.symm
  | cons c s ih =>
    cases n with
    | zero => rfl
    | succ n =>
      by_cases hc : c = 0
      · rw [hc] at h
        exact absurd h (Nat.not_succ_le_zero n)
      · rw [cstr_cons hc, List.length_cons] at h
        rw [cstr_cons hc, List.drop_succ_cons, List.drop_succ_cons]
        exact ih (Nat.le_of_succ_le_succ h)

theorem isHex_iff {c : UInt8} :
    isHex c = true ↔ (0x30 ≤ c.toNat ∧ c.toNat ≤ 0x39) ∨ (0x41 ≤ c.toNat ∧ c.toNat ≤ 0x46) ∨
      (0x61 ≤ c.toNat ∧ c.toNat ≤ 0x66) := by
  unfold isHex hexDigit?
  simp only [UInt8.le_iff_toNat_le]
  split
  · simp_all
  · split
    · simp_all
    · split <;> simp_all

/-- A hexadecimal digit is no NUL, no white space and no sign. -/
theorem isHex_cases {c : UInt8} (h : isHex c = true) :
    c ≠ 0 ∧ isSpace c = false ∧ c ≠ 0x2D ∧ c ≠ 0x2B := by
  have hrange := isHex_iff.mp h
  refine ⟨?_, ?_, ?_, ?_⟩
  · rintro rfl
    contradiction
  · rw [Bool.eq_false_iff]
    intro hspace
    simp only [isSpace, Bool.or_eq_true, beq_iff_eq, Bool.and_eq_true, decide_eq_true_eq,
      UInt8.le_iff_toNat_le] at hspace
    rcases hspace with rfl | ⟨hlow, hhigh⟩
    · contradiction
    · have hlit : (0x0D : UInt8).toNat = 13 := rfl
      omega
  · rintro rfl
    contradiction
  · rintro rfl
    contradiction

theorem strtol16_hex {h1 h2 : UInt8} (hd1 : isHex h1 = true) (hd2 : isHex h2 = true) :
    strtol16 [h1, h2] = hexValue [h1, h2] := by
  obtain ⟨hnul1, hspace, hminus, hplus⟩ := isHex_cases hd1
  obtain ⟨hnul2, _⟩ := isHex_cases hd2
  have hcstr : cstr [h1, h2] = [h1, h2] := by simp [cstr, hnul1, hnul2]
  have hsign : scanSign [h1, h2] = (false, [h1, h2]) := by
    unfold scanSign
    split <;> simp_all
  have hpre : dropHexPrefix [h1, h2] = [h1, h2] := by
    unfold dropHexPrefix
    split <;> simp_all
  have hdigits : [h1, h2].takeWhile isHex = [h1, h2] := by simp [List.takeWhile, hd1, hd2]
  simp only [strtol16, hcstr, List.dropWhile_cons, hspace, Bool.false_eq_true, if_false, hsign,
    hpre, hdigits]

end MiyakoLink.Lib
