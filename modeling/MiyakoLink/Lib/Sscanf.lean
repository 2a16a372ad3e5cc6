import Mathlib.Data.List.Induction
import Mathlib.Data.List.TakeWhile
import MiyakoLink.Lib.Strtol

/-!
# `sscanf`

A format is a list of directives. They are matched one after the other up to the first that does
not match, and the values are those assigned until then.

* `scanHex_digits`: `%x` reads hexadecimal digits back.
* `scanDec_digits`: `%d` reads hexadecimal digits as their number if the number is below ten, and
  never otherwise.
-/

namespace MiyakoLink.Lib

/-- A part of a format: a character, `%x`, `%d`, `%n` or `%c`. -/
inductive Directive where
  | char (c : UInt8)
  | hex
  | dec
  | count
  | chr

/-- What is assigned. -/
inductive Assigned where
  | number (v : UInt32)
  | int (v : Int)
  | chr (c : UInt8)
  deriving DecidableEq

/-- `%d`. -/
def scanDec (s : List UInt8) : Option (Int × List UInt8) :=
  let n := strtol 10 s
  if n.2 = s then none else some n

/-- `sscanf`, when `n` characters have been consumed before. -/
def sscanf : List Directive → Nat → List UInt8 → List Assigned
  | [], _, _ => []
  | .char _ :: _, _, [] => []
  | .char f :: ds, n, c :: s => if c = f then sscanf ds (n + 1) s else []
  | .hex :: ds, n, s =>
    match scanHex none s with
    | some (v, rest) => .number v :: sscanf ds (n + (s.length - rest.length)) rest
    | none => []
  | .dec :: ds, n, s =>
    match scanDec s with
    | some (v, rest) => .int v :: sscanf ds (n + (s.length - rest.length)) rest
    | none => []
  | .count :: ds, n, s => .int n :: sscanf ds n s
  | .chr :: _, _, [] => []
  | .chr :: ds, n, c :: s => .chr c :: sscanf ds (n + 1) s

/-- Hexadecimal digits, at least one. -/
structure Digits (ds : List UInt8) : Prop where
  ne_nil : ds ≠ []
  hex : ∀ c ∈ ds, isHex c = true

/-- What may follow a number: nothing that could belong to it. -/
def Ends16 (rest : List UInt8) : Prop :=
  ∀ c, rest.head? = some c → isHex c = false ∧ c ≠ 0x78 ∧ c ≠ 0x58

theorem ends16_nil : Ends16 [] := by
  intro c h
  cases h

theorem ends16_cons {c : UInt8} {s : List UInt8} (hhex : isHex c = false) (hx : c ≠ 0x78)
    (hX : c ≠ 0x58) : Ends16 (c :: s) := by
  intro d h
  cases h
  exact ⟨hhex, hx, hX⟩

section

variable {ds rest : List UInt8}

theorem Digits.first (h : Digits ds) : ∃ c tail, ds = c :: tail ∧ isHex c = true := by
  cases ds with
  | nil => exact absurd rfl h.ne_nil
  | cons c tail => exact ⟨c, tail, rfl, h.hex c List.mem_cons_self⟩

theorem takeWhile_hex (h : Digits ds) (hrest : Ends16 rest) :
    (ds ++ rest).takeWhile isHex = ds := by
  rw [List.takeWhile_append_of_pos h.hex]
  cases rest with
  | nil => simp
  | cons c rest => simp [(hrest c rfl).1]

theorem dropWhile_space (rest : List UInt8) (h : Digits ds) : (ds ++ rest).dropWhile isSpace = ds ++ rest := by
  obtain ⟨c, tail, rfl, hc⟩ := h.first
  rw [List.cons_append, List.dropWhile_cons, (isHex_cases hc).2.1]
  rfl

theorem scanSign_digits (rest : List UInt8) (h : Digits ds) : scanSign (ds ++ rest) = (false, ds ++ rest) := by
  obtain ⟨c, tail, rfl, hc⟩ := h.first
  obtain ⟨-, -, hminus, hplus⟩ := isHex_cases hc
  rw [List.cons_append]
  unfold scanSign
  split
  · next heq => exact absurd (List.cons.inj heq).1 hminus
  · next heq => exact absurd (List.cons.inj heq).1 hplus
  · rfl

/-- There is no prefix to drop: an `x` is no digit and does not follow one here. -/
theorem dropHexPrefix_digits (h : Digits ds) (hrest : Ends16 rest) :
    dropHexPrefix (ds ++ rest) = ds ++ rest := by
  unfold dropHexPrefix
  split
  next x d s heq =>
    rw [if_neg, heq]
    rintro ⟨hx, -⟩
    obtain ⟨c, tail, rfl, hc⟩ := h.first
    rw [List.cons_append] at heq
    have heq := (List.cons.inj heq).2
    cases tail with
    | nil =>
      have hends := hrest x (by rw [← List.nil_append rest, heq]; rfl)
      rcases hx with hx | hx
      · exact hends.2.1 hx
      · exact hends.2.2 hx
    | cons x' tail =>
      rw [List.cons_append] at heq
      have hhex := h.hex x' (by simp)
      rw [(List.cons.inj heq).1] at hhex
      rcases hx with rfl | rfl
      · exact absurd hhex (by decide)
      · exact absurd hhex (by decide)
  next => rfl

theorem scanHex_digits (h : Digits ds) (hrest : Ends16 rest) :
    scanHex none (ds ++ rest) = some (UInt32.ofNat (min (hexValue ds) 0xFFFFFFFF), rest) := by
  unfold scanHex
  rw [dropWhile_space rest h]
  dsimp only [Option.getD_none]
  rw [List.take_length, scanSign_digits rest h]
  dsimp only
  rw [dropHexPrefix_digits h hrest, takeWhile_hex h hrest, if_neg h.ne_nil, Nat.sub_self,
    Nat.zero_add, List.drop_left]
  by_cases hlarge : 0xFFFFFFFF < hexValue ds
  · rw [if_pos hlarge, min_eq_right (Nat.le_of_lt hlarge)]
    rfl
  · rw [if_neg hlarge, min_eq_left (Nat.le_of_not_lt hlarge)]
    rfl

theorem hexValue_snoc (ds : List UInt8) (c : UInt8) :
    hexValue (ds ++ [c]) = hexValue ds * 16 + (hexDigit? c).getD 0 := by
  rw [hexValue, List.foldl_append]
  rfl

theorem digitsValue_snoc (ds : List UInt8) (c : UInt8) :
    digitsValue 10 (ds ++ [c]) = digitsValue 10 ds * 10 + (hexDigit? c).getD 0 := by
  rw [digitsValue, List.foldl_append]
  rfl

theorem digitIn_iff {c : UInt8} (h : isHex c = true) :
    digitIn 10 c = true ↔ (hexDigit? c).getD 0 < 10 := by
  unfold isHex at h
  unfold digitIn
  cases hd : hexDigit? c with
  | none =>
    rw [hd] at h
    contradiction
  | some d => simp

/-- The decimal digits at the front of a hexadecimal number are the number itself if it is below
ten, and are a smaller number otherwise. -/
theorem decimal_front (hds : ∀ c ∈ ds, isHex c = true) :
    (hexValue ds < 10 ∧ ds.takeWhile (digitIn 10) = ds ∧ digitsValue 10 ds = hexValue ds) ∨
      (10 ≤ hexValue ds ∧ digitsValue 10 (ds.takeWhile (digitIn 10)) < hexValue ds) := by
  induction ds using List.reverseRecOn with
  | nil => exact Or.inl ⟨by decide, rfl, rfl⟩
  | append_singleton ds c ih =>
    have hc : isHex c = true := hds c (by simp)
    have hdigit := digitIn_iff hc
    have hih := ih fun d hd => hds d (by simp [hd])
    rw [hexValue_snoc]
    rcases hih with ⟨hsmall, htake, hvalue⟩ | ⟨hlarge, hless⟩
    · have hall : ∀ d ∈ ds, digitIn 10 d = true := List.takeWhile_eq_self_iff.mp htake
      rw [List.takeWhile_append_of_pos hall]
      by_cases hdec : digitIn 10 c = true
      · rw [List.takeWhile_cons, hdec, if_pos rfl, List.takeWhile_nil, digitsValue_snoc, hvalue]
        have := hdigit.mp hdec
        by_cases hzero : hexValue ds = 0
        · exact Or.inl ⟨by omega, rfl, by omega⟩
        · exact Or.inr ⟨by omega, by omega⟩
      · rw [List.takeWhile_cons, if_neg hdec, List.append_nil, hvalue]
        have : ¬ (hexDigit? c).getD 0 < 10 := fun h => hdec (hdigit.mpr h)
        exact Or.inr ⟨by omega, by omega⟩
    · have hstop : (ds ++ [c]).takeWhile (digitIn 10) = ds.takeWhile (digitIn 10) ∨
          (ds ++ [c]).takeWhile (digitIn 10) = ds ++ [c] ∧ ds.takeWhile (digitIn 10) = ds ∧
            digitIn 10 c = true := by
        by_cases hall : ∀ d ∈ ds, digitIn 10 d = true
        · rw [List.takeWhile_append_of_pos hall, List.takeWhile_eq_self_iff.mpr hall]
          by_cases hdec : digitIn 10 c = true
          · exact Or.inr ⟨by rw [List.takeWhile_cons, if_pos hdec, List.takeWhile_nil], rfl, hdec⟩
          · exact Or.inl (by rw [List.takeWhile_cons, if_neg hdec, List.append_nil])
        · have hshort : (ds.takeWhile (digitIn 10)).length ≠ ds.length := by
            intro hlength
            apply hall
            apply List.takeWhile_eq_self_iff.mp
            exact (List.takeWhile_prefix _).eq_of_length hlength
          rw [List.takeWhile_append, if_neg hshort]
          exact Or.inl rfl
      rcases hstop with hstop | ⟨hstop, htake, hdec⟩
      · rw [hstop]
        exact Or.inr ⟨by omega, by omega⟩
      · rw [htake] at hless
        rw [hstop, digitsValue_snoc]
        have := hdigit.mp hdec
        exact Or.inr ⟨by omega, by omega⟩

/-- `%d` at a number: it is read if it is below ten. What is not read is not the number. -/
theorem scanDec_digits (h : Digits ds) :
    (hexValue ds < 10 ∧ scanDec ds = some ((hexValue ds : Int), [])) ∨
      (10 ≤ hexValue ds ∧ ∀ v rest, scanDec ds = some (v, rest) → v < hexValue ds) := by
  have hnumber : scanNumber 10 ds =
      if ds.takeWhile (digitIn 10) = [] then (false, 0, ds)
      else (false, digitsValue 10 (ds.takeWhile (digitIn 10)),
        ds.drop (ds.takeWhile (digitIn 10)).length) := by
    have hspace := dropWhile_space [] h
    have hsign := scanSign_digits [] h
    rw [List.append_nil] at hspace hsign
    rw [scanNumber, hspace, hsign]
    rfl
  rcases decimal_front h.hex with ⟨hsmall, htake, hvalue⟩ | ⟨hlarge, hless⟩
  · refine Or.inl ⟨hsmall, ?_⟩
    rw [htake, if_neg h.ne_nil, hvalue, List.drop_length] at hnumber
    rw [scanDec, strtol, hnumber]
    dsimp only
    rw [if_neg (Ne.symm h.ne_nil), if_neg Bool.false_ne_true]
    have : min (hexValue ds : Int) 2147483647 = hexValue ds := by omega
    rw [this]
  · refine Or.inr ⟨hlarge, ?_⟩
    intro v rest hscan
    have hsmaller : ∃ n e, scanNumber 10 ds = (false, n, e) ∧ n < hexValue ds := by
      rw [hnumber]
      split
      · exact ⟨0, ds, rfl, by omega⟩
      · exact ⟨_, _, rfl, hless⟩
    obtain ⟨n, e, hscanned, hn⟩ := hsmaller
    rw [scanDec, strtol, hscanned] at hscan
    dsimp only at hscan
    split at hscan
    · contradiction
    · rw [if_neg Bool.false_ne_true, Option.some.injEq, Prod.mk.injEq] at hscan
      have hv := hscan.1
      omega

end

end MiyakoLink.Lib
