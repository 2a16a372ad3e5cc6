import Mathlib.Algebra.Field.ZMod
import Mathlib.Algebra.Polynomial.Div
import Mathlib.Data.ZMod.Basic
import Mathlib.RingTheory.Coprime.Lemmas
import Mathlib.Tactic.Common
import Mathlib.Tactic.LinearCombination

/-!
# Cyclic redundancy checks

A shift register of `w` bits with feedback `p`, that takes in a message bit by bit and shifts
towards its most significant bit. It divides polynomials over the field of two elements.

* `toPoly_register`: what is left in the register is the remainder of the message.
* `register_burst`: messages of one length that differ in a window of `w` bits leave different
  remainders.
* `reverse_registerRight`: the register that shifts the other way is the mirror image.
-/

namespace MiyakoLink.Lib.Crc

open Polynomial

variable {w : Nat}

/-- A turn of the register. -/
def turn (p v : BitVec w) : BitVec w := if v.msb then v <<< 1 ^^^ p else v <<< 1

/-- A turn that takes in a bit. -/
def feed (p v : BitVec w) (b : Bool) : BitVec w := if v.msb ^^ b then v <<< 1 ^^^ p else v <<< 1

/-- The register behind a message. -/
def register (p v : BitVec w) (l : List Bool) : BitVec w := l.foldl (feed p) v

variable {p u v : BitVec w}

/-! ## Turns are linear -/

theorem turn_eq (p v : BitVec w) : turn p v = v <<< 1 ^^^ if v.msb then p else 0#w := by
  unfold turn
  split
  · rfl
  · exact BitVec.xor_zero.symm

theorem ite_xor (a b : Bool) :
    (if a ^^ b then p else 0#w) = (if a then p else 0#w) ^^^ if b then p else 0#w := by
  cases a <;> cases b <;> simp

theorem turn_xor (p u v : BitVec w) : turn p (u ^^^ v) = turn p u ^^^ turn p v := by
  rw [turn_eq, turn_eq, turn_eq, BitVec.msb_xor, ite_xor, BitVec.shiftLeft_xor_distrib]
  ac_rfl

theorem turns_xor (p u v : BitVec w) (n : Nat) :
    (turn p)^[n] (u ^^^ v) = (turn p)^[n] u ^^^ (turn p)^[n] v := by
  induction n generalizing u v with
  | zero => rfl
  | succ n ih => rw [Function.iterate_succ_apply, turn_xor, ih]; rfl

/-- Nothing is fed back as long as no bit gets to the top. -/
theorem turns_of_shift {n : Nat} (h : ∀ i < n, (v <<< i).msb = false) :
    (turn p)^[n] v = v <<< n := by
  induction n with
  | zero => exact (BitVec.shiftLeft_zero v).symm
  | succ n ih =>
    rw [Function.iterate_succ_apply', ih fun i hi => h i (Nat.lt_succ_of_lt hi), turn,
      h n (Nat.lt_succ_self n), BitVec.shiftLeft_add]
    rfl

theorem feed_eq (p v : BitVec w) (b : Bool) : feed p v b = turn p v ^^^ if b then p else 0#w := by
  rw [turn_eq, BitVec.xor_assoc, ← ite_xor]
  unfold feed
  split
  · rfl
  · exact BitVec.xor_zero.symm

theorem register_cons (p v : BitVec w) (b : Bool) (l : List Bool) :
    register p v (b :: l) = register p (feed p v b) l := rfl

theorem register_append (p v : BitVec w) (l l' : List Bool) :
    register p v (l ++ l') = register p (register p v l) l' := List.foldl_append

/-- The bits of `v` get in from the top on, as if `v` were in the register. -/
theorem register_getMsbD (p u v : BitVec w) (n : Nat) :
    register p u ((List.range n).map v.getMsbD) = (turn p)^[n] (u ^^^ v) ^^^ v <<< n := by
  induction n with
  | zero =>
    rw [BitVec.shiftLeft_zero, Function.iterate_zero_apply, BitVec.xor_assoc, BitVec.xor_self,
      BitVec.xor_zero]
    rfl
  | succ n ih =>
    have hbit : v.getMsbD n = (v <<< n).msb := BitVec.msb_shiftLeft.symm
    rw [List.range_succ, List.map_append, register_append, ih, Function.iterate_succ_apply']
    show feed p _ (v.getMsbD n) = _
    rw [feed_eq, turn_xor, turn_eq p (v <<< n), hbit, BitVec.xor_assoc, BitVec.xor_assoc,
      BitVec.xor_self, BitVec.xor_zero, BitVec.shiftLeft_add]

/-! ## Polynomials -/

/-- A bit as a coefficient. -/
def bit (b : Bool) : ZMod 2 := if b then 1 else 0

theorem bit_xor (a b : Bool) : bit (a ^^ b) = bit a + bit b := by
  revert a b
  decide

theorem bit_injective : Function.Injective bit := by
  intro a b
  revert a b
  decide

/-- The contents of a register as a polynomial. -/
noncomputable def toPoly (v : BitVec w) : (ZMod 2)[X] :=
  ∑ i ∈ Finset.range w, C (bit (v.getLsbD i)) * X ^ i

/-- A message as a polynomial; its first bit is the leading one. -/
noncomputable def ofBits (l : List Bool) : (ZMod 2)[X] := l.foldl (fun q b => X * q + C (bit b)) 0

/-- The divisor. -/
noncomputable def divisor (p : BitVec w) : (ZMod 2)[X] := X ^ w + toPoly p

@[simp] theorem coeff_toPoly (v : BitVec w) (i : Nat) : (toPoly v).coeff i = bit (v.getLsbD i) := by
  unfold toPoly
  rw [finsetSum_coeff]
  by_cases hi : i < w
  · rw [Finset.sum_eq_single i]
    · simp
    · intro j _ hj
      rw [coeff_C_mul_X_pow, if_neg (Ne.symm hj)]
    · intro hout
      exact absurd (Finset.mem_range.mpr hi) hout
  · rw [BitVec.getLsbD_of_ge v i (Nat.le_of_not_lt hi)]
    refine Finset.sum_eq_zero fun j hj => ?_
    rw [coeff_C_mul_X_pow, if_neg]
    rintro rfl
    exact hi (Finset.mem_range.mp hj)

theorem toPoly_injective : Function.Injective (toPoly : BitVec w → (ZMod 2)[X]) := by
  intro u v h
  apply BitVec.eq_of_getLsbD_eq
  intro i _
  apply bit_injective
  rw [← coeff_toPoly, h, coeff_toPoly]

theorem degree_toPoly_lt (v : BitVec w) : (toPoly v).degree < w := by
  rw [degree_lt_iff_coeff_zero]
  intro i hi
  rw [coeff_toPoly, BitVec.getLsbD_of_ge v i hi]
  rfl

theorem divisor_monic (p : BitVec w) : (divisor p).Monic := monic_X_pow_add (degree_toPoly_lt p)

theorem degree_divisor (p : BitVec w) : (divisor p).degree = w := by
  unfold divisor
  rw [degree_add_eq_left_of_degree_lt]
  · exact degree_X_pow w
  · rw [degree_X_pow]
    exact degree_toPoly_lt p

theorem toPoly_xor (u v : BitVec w) : toPoly (u ^^^ v) = toPoly u + toPoly v := by
  ext i
  rw [coeff_add, coeff_toPoly, coeff_toPoly, coeff_toPoly, BitVec.getLsbD_xor, bit_xor]

theorem toPoly_zero : toPoly 0#w = 0 := by
  ext i
  rw [coeff_toPoly, BitVec.getLsbD_zero, coeff_zero]
  rfl

theorem toPoly_ite (c : Bool) : toPoly (if c then p else 0#w) = C (bit c) * toPoly p := by
  cases c with
  | false => simp [bit, toPoly_zero]
  | true => simp [bit]

/-- A shift loses the bit at the top. -/
theorem toPoly_shift (v : BitVec w) :
    X * toPoly v = toPoly (v <<< 1) + C (bit v.msb) * X ^ w := by
  ext i
  rw [coeff_add, coeff_C_mul_X_pow, coeff_toPoly, BitVec.getLsbD_shiftLeft]
  cases i with
  | zero =>
    rw [coeff_X_mul_zero]
    cases w with
    | zero => simp [BitVec.msb, bit]
    | succ w => simp [bit]
  | succ i =>
    rw [coeff_X_mul, coeff_toPoly]
    rcases Nat.lt_trichotomy (i + 1) w with hlt | heq | hgt
    · simp [hlt, Nat.ne_of_lt hlt]
    · subst heq
      simp [BitVec.msb_eq_getLsbD_last, bit]
    · rw [BitVec.getLsbD_of_ge v i (Nat.le_of_lt_succ hgt), if_neg (Nat.ne_of_gt hgt)]
      simp [Nat.not_lt_of_gt hgt]

/-- What a turn that takes in a bit means for the remainder. -/
theorem toPoly_feed (p v : BitVec w) (b : Bool) :
    X * toPoly v + C (bit b) * X ^ w =
      toPoly (feed p v b) + C (bit (v.msb ^^ b)) * divisor p := by
  have hfeed : feed p v b = v <<< 1 ^^^ if v.msb ^^ b then p else 0#w := by
    unfold feed
    split
    · rfl
    · exact BitVec.xor_zero.symm
  have htwo (q : (ZMod 2)[X]) : q + q = 0 := CharTwo.add_self_eq_zero q
  rw [hfeed, toPoly_xor, toPoly_ite, toPoly_shift, divisor, bit_xor, C_add]
  linear_combination (-1 : (ZMod 2)[X]) * htwo ((C (bit v.msb) + C (bit b)) * toPoly p)

theorem ofBits_concat (l : List Bool) (b : Bool) :
    ofBits (l ++ [b]) = X * ofBits l + C (bit b) := by
  unfold ofBits
  rw [List.foldl_append]
  rfl

/-- The register holds the message modulo the divisor. -/
theorem toPoly_register (p v : BitVec w) (l : List Bool) :
    toPoly (register p v l) =
      (toPoly v * X ^ l.length + ofBits l * X ^ w) %ₘ divisor p := by
  have hex : ∃ q, toPoly v * X ^ l.length + ofBits l * X ^ w =
      toPoly (register p v l) + q * divisor p := by
    induction l using List.reverseRecOn with
    | nil => exact ⟨0, by simp [ofBits, register]⟩
    | append_singleton l b ih =>
      obtain ⟨q, hq⟩ := ih
      have hfeed := toPoly_feed p (register p v l) b
      refine ⟨X * q + C (bit ((register p v l).msb ^^ b)), ?_⟩
      rw [register_append, ofBits_concat, List.length_append, List.length_singleton, pow_succ]
      show _ = toPoly (feed p (register p v l) b) + _
      linear_combination X * hq + hfeed
  obtain ⟨q, hq⟩ := hex
  have hdiv : (q * divisor p) %ₘ divisor p = 0 :=
    (modByMonic_eq_zero_iff_dvd (divisor_monic p)).mpr (dvd_mul_left _ _)
  rw [hq, add_modByMonic, hdiv, add_zero]
  refine ((modByMonic_eq_self_iff (divisor_monic p)).mpr ?_).symm
  rw [degree_divisor]
  exact degree_toPoly_lt _

/-! ## Bursts -/

theorem coeff_ofBits (l : List Bool) (i : Nat) :
    (ofBits l).coeff i = bit (l.reverse.getD i false) := by
  induction l using List.reverseRecOn generalizing i with
  | nil => rfl
  | append_singleton l b ih =>
    rw [ofBits_concat, coeff_add, List.reverse_concat]
    cases i with
    | zero => simp
    | succ i =>
      rw [coeff_X_mul, ih, coeff_C_succ, add_zero]
      rfl

theorem ofBits_inj {l l' : List Bool} (hlen : l.length = l'.length) (h : ofBits l = ofBits l') :
    l = l' := by
  apply List.reverse_injective
  apply List.ext_getElem
  · rw [List.length_reverse, List.length_reverse, hlen]
  · intro i hi hi'
    have hcoeff := congrArg (fun q => q.coeff i) h
    simp only [coeff_ofBits] at hcoeff
    rw [List.getD_eq_getElem?_getD, List.getD_eq_getElem?_getD, List.getElem?_eq_getElem hi,
      List.getElem?_eq_getElem hi'] at hcoeff
    exact bit_injective hcoeff

theorem getD_reverse {l : List Bool} {i : Nat} (h : i < l.length) :
    l.reverse.getD i false = l.getD (l.length - 1 - i) false := by
  rw [List.getD_eq_getElem?_getD, List.getD_eq_getElem?_getD, List.getElem?_reverse h]

theorem getD_reverse_of_le {l : List Bool} {i : Nat} (h : l.length ≤ i) :
    l.reverse.getD i false = false := by
  rw [List.getD_eq_getElem?_getD, List.getElem?_eq_none (by rw [List.length_reverse]; exact h)]
  rfl

/-- The divisor has got no factor `X`. -/
theorem isCoprime_divisor (hw : 0 < w) (hp : p.getLsbD 0 = true) (n : Nat) :
    IsCoprime (divisor p) (X ^ n) := by
  apply IsCoprime.pow_right
  have hcoeff : (divisor p).coeff 0 = 1 := by
    rw [divisor, coeff_add, coeff_toPoly, hp, coeff_X_pow, if_neg (Nat.ne_of_lt hw), zero_add]
    rfl
  have hsplit := divX_mul_X_add (divisor p)
  rw [hcoeff, C_1] at hsplit
  refine ⟨1, -(divisor p).divX, ?_⟩
  linear_combination -hsplit

/-- A message that differs in a window of the width of the register leaves another remainder. -/
theorem register_burst (hp : p.getLsbD 0 = true) {l l' : List Bool}
    (hlen : l.length = l'.length) (hne : l ≠ l') {s : Nat}
    (hwindow : ∀ i, l.getD i false ≠ l'.getD i false → s ≤ i ∧ i < s + w) :
    register p v l ≠ register p v l' := by
  intro heq
  have hw : 0 < w := by
    by_contra hzero
    obtain rfl : w = 0 := by omega
    simp at hp
  have hcoeff : ∀ i, (ofBits l - ofBits l').coeff i ≠ 0 →
      l.length - s - w ≤ i ∧ i < l.length - s := by
    intro i hi
    rw [coeff_sub, sub_ne_zero, coeff_ofBits, coeff_ofBits] at hi
    have hlt : i < l.length := by
      by_contra hout
      rw [getD_reverse_of_le (Nat.le_of_not_lt hout),
        getD_reverse_of_le (by omega)] at hi
      exact hi rfl
    rw [getD_reverse hlt, getD_reverse (by omega), ← hlen] at hi
    have hin := hwindow (l.length - 1 - i) fun h => hi (congrArg bit h)
    omega
  -- The difference of the messages is `e`, shifted.
  obtain ⟨e, he⟩ : X ^ (l.length - s - w) ∣ ofBits l - ofBits l' := by
    rw [X_pow_dvd_iff]
    intro d hd
    by_contra hne
    exact absurd (hcoeff d hne).1 (Nat.not_le_of_lt hd)
  have hdegree : e.degree < w := by
    rw [degree_lt_iff_coeff_zero]
    intro i hi
    by_contra hne
    rw [← coeff_X_pow_mul e (l.length - s - w) i, ← he] at hne
    have hhigh := (hcoeff _ hne).2
    omega
  have hdvd : divisor p ∣ X ^ (w + (l.length - s - w)) * e := by
    have hmod := toPoly_register p v l
    rw [heq, toPoly_register, hlen] at hmod
    have hsub := (modByMonic_eq_zero_iff_dvd (divisor_monic p)).mp
      ((sub_modByMonic _ _ _).trans (sub_eq_zero.mpr hmod))
    rw [pow_add, mul_assoc, ← he]
    refine (dvd_neg.mpr hsub).trans (dvd_of_eq ?_)
    ring
  have hzero : e = 0 := by
    by_contra hne
    exact (divisor_monic p).not_dvd_of_degree_lt hne (by rw [degree_divisor]; exact hdegree)
      ((isCoprime_divisor hw hp _).dvd_of_dvd_mul_left hdvd)
  rw [hzero, mul_zero] at he
  exact hne (ofBits_inj hlen (sub_eq_zero.mp he))

/-! ## The other way -/

/-- A turn of the register that shifts towards its least significant bit. -/
def turnRight (p v : BitVec w) : BitVec w := if v.getLsbD 0 then v >>> 1 ^^^ p else v >>> 1

def feedRight (p v : BitVec w) (b : Bool) : BitVec w :=
  if v.getLsbD 0 ^^ b then v >>> 1 ^^^ p else v >>> 1

theorem reverse_xor (u v : BitVec w) : (u ^^^ v).reverse = u.reverse ^^^ v.reverse := by
  apply BitVec.eq_of_getLsbD_eq
  intro i _
  rw [BitVec.getLsbD_xor, BitVec.getLsbD_reverse, BitVec.getLsbD_reverse, BitVec.getLsbD_reverse,
    BitVec.getMsbD_xor]

theorem reverse_shiftRight (v : BitVec w) (n : Nat) : (v >>> n).reverse = v.reverse <<< n := by
  apply BitVec.eq_of_getLsbD_eq
  intro i hi
  rw [BitVec.getLsbD_reverse, BitVec.getMsbD_ushiftRight, BitVec.getLsbD_shiftLeft,
    BitVec.getLsbD_reverse]
  simp [hi]

/-- The mirror image. -/
theorem reverse_feedRight (p v : BitVec w) (b : Bool) :
    (feedRight p v b).reverse = feed p.reverse v.reverse b := by
  unfold feedRight feed
  rw [BitVec.msb_reverse]
  split
  · rw [reverse_xor, reverse_shiftRight]
  · rw [reverse_shiftRight]

theorem reverse_turnRight (p v : BitVec w) :
    (turnRight p v).reverse = turn p.reverse v.reverse := by
  unfold turnRight turn
  rw [BitVec.msb_reverse]
  split
  · rw [reverse_xor, reverse_shiftRight]
  · rw [reverse_shiftRight]

theorem reverse_turnsRight (p v : BitVec w) (n : Nat) :
    ((turnRight p)^[n] v).reverse = (turn p.reverse)^[n] v.reverse :=
  Function.Semiconj.iterate_right (reverse_turnRight p) n v

theorem reverse_injective : Function.Injective (BitVec.reverse : BitVec w → BitVec w) := by
  intro u v h
  rw [← BitVec.reverse_reverse_eq (x := u), h, BitVec.reverse_reverse_eq]

theorem turnsRight_xor (p u v : BitVec w) (n : Nat) :
    (turnRight p)^[n] (u ^^^ v) = (turnRight p)^[n] u ^^^ (turnRight p)^[n] v := by
  apply reverse_injective
  rw [reverse_turnsRight, reverse_xor, turns_xor, reverse_xor, reverse_turnsRight,
    reverse_turnsRight]

theorem turnsRight_of_shift {n : Nat} (h : ∀ i < n, v.getLsbD i = false) :
    (turnRight p)^[n] v = v >>> n := by
  apply reverse_injective
  rw [reverse_turnsRight, reverse_shiftRight]
  apply turns_of_shift
  intro i hi
  rw [BitVec.msb_shiftLeft, BitVec.getMsbD_reverse]
  exact h i hi

def registerRight (p v : BitVec w) (l : List Bool) : BitVec w := l.foldl (feedRight p) v

theorem reverse_registerRight (p v : BitVec w) (l : List Bool) :
    (registerRight p v l).reverse = register p.reverse v.reverse l := by
  induction l generalizing v with
  | nil => rfl
  | cons b l ih =>
    rw [register_cons, ← reverse_feedRight]
    exact ih _

theorem registerRight_append (p v : BitVec w) (l l' : List Bool) :
    registerRight p v (l ++ l') = registerRight p (registerRight p v l) l' := List.foldl_append

theorem registerRight_getLsbD (p u v : BitVec w) (n : Nat) :
    registerRight p u ((List.range n).map v.getLsbD) =
      (turnRight p)^[n] (u ^^^ v) ^^^ v >>> n := by
  have hbits : v.getLsbD = v.reverse.getMsbD := funext fun i => (BitVec.getMsbD_reverse).symm
  apply reverse_injective
  rw [reverse_registerRight, reverse_xor, reverse_turnsRight, reverse_xor, reverse_shiftRight,
    hbits]
  exact register_getMsbD _ _ _ n

theorem registerRight_burst (hp : p.msb = true) {l l' : List Bool}
    (hlen : l.length = l'.length) (hne : l ≠ l') {s : Nat}
    (hwindow : ∀ i, l.getD i false ≠ l'.getD i false → s ≤ i ∧ i < s + w) :
    registerRight p v l ≠ registerRight p v l' := by
  intro heq
  have hrev := congrArg BitVec.reverse heq
  rw [reverse_registerRight, reverse_registerRight] at hrev
  refine register_burst ?_ hlen hne hwindow hrev
  rw [BitVec.getLsbD_reverse]
  exact hp

end MiyakoLink.Lib.Crc
