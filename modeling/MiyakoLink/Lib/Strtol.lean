import MiyakoLink.Lib.Scanf

/-!
# `strtol` and `strtok`

Numbers and words of a C string, as the C standard describes them, with a `long` of 32 bits.

* `strtol_letter`: what begins with no digit, sign or white space has no number.
* `strtok_length`: the words are at most one more than the separators.
-/

namespace MiyakoLink.Lib

/-- The value of a digit in some base up to 16. -/
def digitIn (base : Nat) (c : UInt8) : Bool := (hexDigit? c).any (· < base)

/-- The number whose digits in a base are given, most significant first. -/
def digitsValue (base : Nat) (digits : List UInt8) : Nat :=
  digits.foldl (fun v c => v * base + (hexDigit? c).getD 0) 0

/-- The base for a subject sequence, and the digits without the prefix. Base 0 is that of a C
constant. -/
def detectBase (base : Nat) (s : List UInt8) : Nat × List UInt8 :=
  if base = 16 then (16, dropHexPrefix s)
  else if base = 0 then
    if dropHexPrefix s ≠ s then (16, dropHexPrefix s)
    else if s.head? = some 0x30 then (8, s)
    else (10, s)
  else (base, s)

/-- Sign, magnitude and end of the number at the front of a string. Without digits the end is the
string itself. -/
def scanNumber (base : Nat) (s : List UInt8) : Bool × Nat × List UInt8 :=
  let signed := scanSign (s.dropWhile isSpace)
  let based := detectBase base signed.2
  let digits := based.2.takeWhile (digitIn based.1)
  if digits = [] then (false, 0, s)
  else (signed.1, digitsValue based.1 digits, based.2.drop digits.length)

/-- `strtol`, with the end pointer. -/
def strtol (base : Nat) (s : List UInt8) : Int × List UInt8 :=
  let n := scanNumber base s
  (if n.1 then max (-(n.2.1 : Int)) (-2147483648) else min (n.2.1 : Int) 2147483647, n.2.2)

/-- `strtoul`. -/
def strtoul (base : Nat) (s : List UInt8) : UInt32 :=
  let n := scanNumber base s
  if 0xFFFFFFFF < n.2.1 then 0xFFFFFFFF
  else if n.1 then -UInt32.ofNat n.2.1 else UInt32.ofNat n.2.1

/-- `atoi` and `atol`. -/
def atol (s : List UInt8) : Int := (strtol 10 s).1

theorem strtol_letter {base : Nat} {c : UInt8} {s : List UInt8} (hspace : isSpace c = false)
    (hminus : c ≠ 0x2D) (hplus : c ≠ 0x2B) (hdigit : digitIn base c = false) (h16 : base ≠ 16)
    (h0 : base ≠ 0) : strtol base (c :: s) = (0, c :: s) := by
  have hsign : scanSign (c :: s) = (false, c :: s) := by
    unfold scanSign
    split
    · next heq => exact absurd (List.cons.inj heq).1 hminus
    · next heq => exact absurd (List.cons.inj heq).1 hplus
    · rfl
  have hscan : scanNumber base (c :: s) = (false, 0, c :: s) := by
    rw [scanNumber, List.dropWhile_cons, hspace, if_neg Bool.false_ne_true, hsign]
    dsimp only
    rw [detectBase, if_neg h16, if_neg h0, List.takeWhile_cons, hdigit, if_neg Bool.false_ne_true,
      if_pos rfl]
  rw [strtol, hscan]
  rfl

/-- The words between separators, where `cur` is the begin of the first. -/
def strtok (sep : UInt8 → Bool) (cur : List UInt8) : List UInt8 → List (List UInt8)
  | [] => if cur = [] then [] else [cur]
  | c :: s =>
    if sep c then
      if cur = [] then strtok sep [] s else cur :: strtok sep [] s
    else strtok sep (cur ++ [c]) s

theorem strtok_ne_nil {sep : UInt8 → Bool} {cur s w : List UInt8} (h : w ∈ strtok sep cur s) :
    w ≠ [] := by
  induction s generalizing cur with
  | nil =>
    rw [strtok] at h
    split at h
    · contradiction
    · next hcur =>
      rw [List.mem_singleton.mp h]
      exact hcur
  | cons c s ih =>
    rw [strtok] at h
    split at h
    · split at h
      · exact ih h
      · next hcur =>
        rcases List.mem_cons.mp h with rfl | h
        · exact hcur
        · exact ih h
    · exact ih h

theorem strtok_length (sep : UInt8 → Bool) (cur s : List UInt8) :
    (strtok sep cur s).length ≤ s.countP sep + 1 := by
  induction s generalizing cur with
  | nil =>
    rw [strtok]
    split
    · exact Nat.zero_le _
    · exact Nat.le_refl _
  | cons c s ih =>
    rw [strtok, List.countP_cons]
    split
    · split
      · have := ih []
        omega
      · have := ih []
        rw [List.length_cons]
        omega
    · have := ih (cur ++ [c])
      omega

end MiyakoLink.Lib
