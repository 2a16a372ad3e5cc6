import Mathlib.Algebra.Group.Nat.Defs
import Mathlib.Tactic.Common

/-!
# The bytes of a word

`lane` and `ofLanes` take a 32-bit word apart into its four bytes and put it together; shifts
by whole bytes move the lanes.
-/

namespace MiyakoLink.Lib

/-- Byte `k` of a word, counted from the least significant one. -/
def lane (v : UInt32) (k : Nat) : UInt8 := UInt8.ofNat (v.toNat / 256 ^ k)

def ofLanes (f : Nat → UInt8) : UInt32 :=
  UInt32.ofNat ((f 0).toNat + 256 * (f 1).toNat + 65536 * (f 2).toNat + 16777216 * (f 3).toNat)

theorem ofLanes_toNat (f : Nat → UInt8) : (ofLanes f).toNat =
    (f 0).toNat + 256 * (f 1).toNat + 65536 * (f 2).toNat + 16777216 * (f 3).toNat := by
  have h0 := (f 0).toNat_lt
  have h1 := (f 1).toNat_lt
  have h2 := (f 2).toNat_lt
  have h3 := (f 3).toNat_lt
  apply UInt32.toNat_ofNat_of_lt'
  rw [UInt32.size]
  omega

theorem lane_ofLanes (f : Nat → UInt8) {k : Nat} (h : k < 4) : lane (ofLanes f) k = f k := by
  apply UInt8.toNat_inj.mp
  rw [lane, UInt8.toNat_ofNat', ofLanes_toNat]
  have h0 := (f 0).toNat_lt
  have h1 := (f 1).toNat_lt
  have h2 := (f 2).toNat_lt
  have h3 := (f 3).toNat_lt
  match k, h with
  | 0, _ => omega
  | 1, _ => omega
  | 2, _ => omega
  | 3, _ => omega

theorem lane_congr {v w : UInt32} {k l : Nat}
    (h : v.toNat / 256 ^ k % 256 = w.toNat / 256 ^ l % 256) : lane v k = lane w l := by
  apply UInt8.toNat_inj.mp
  rw [lane, lane, UInt8.toNat_ofNat', UInt8.toNat_ofNat']
  exact h

theorem lane_zero (v : UInt32) : lane v 0 = (v &&& 0xFF).toUInt8 := by
  apply UInt8.toNat_inj.mp
  have hmask : v.toNat &&& 255 = v.toNat % 2 ^ 8 := Nat.and_two_pow_sub_one_eq_mod v.toNat 8
  rw [lane, UInt8.toNat_ofNat', UInt32.toNat_toUInt8, UInt32.toNat_and,
    show (0xFF : UInt32).toNat = 255 from rfl, hmask]
  omega

/-- A mask over two bytes keeps their lanes. -/
theorem lane_and (v : UInt32) {k : Nat} (h : k < 2) : lane (v &&& 0xFFFF) k = lane v k := by
  apply lane_congr
  have hmask : v.toNat &&& 65535 = v.toNat % 2 ^ 16 := Nat.and_two_pow_sub_one_eq_mod v.toNat 16
  rw [UInt32.toNat_and, show (0xFFFF : UInt32).toNat = 65535 from rfl, hmask]
  match k, h with
  | 0, _ => omega
  | 1, _ => omega

/-- A shift by whole bytes moves the lanes down. -/
theorem lane_shiftRight {v s : UInt32} {d k : Nat} (hs : s.toNat = 8 * d) (hd : d < 4) :
    lane (v >>> s) k = lane v (k + d) := by
  apply lane_congr
  rw [UInt32.toNat_shiftRight, hs, Nat.mod_eq_of_lt (by omega : 8 * d < 32),
    Nat.shiftRight_eq_div_pow, Nat.div_div_eq_div_mul, Nat.pow_mul, Nat.add_comm k,
    Nat.pow_add]

/-- A shift by whole bytes moves the lanes up. -/
theorem lane_shiftLeft {v s : UInt32} {d k : Nat} (hs : s.toNat = 8 * d) (h : k + d < 4) :
    lane (v <<< s) (k + d) = lane v k := by
  apply lane_congr
  rw [UInt32.toNat_shiftLeft, hs, Nat.mod_eq_of_lt (by omega : 8 * d < 32),
    Nat.shiftLeft_eq, Nat.pow_mul]
  have hv := v.toNat_lt
  have hpow : (2 : Nat) ^ 32 = 256 ^ 4 := by decide
  have hsplit : (2 : Nat) ^ 32 = 256 ^ (k + d) * 256 ^ (4 - (k + d)) := by
    rw [hpow, ← Nat.pow_add, Nat.add_sub_cancel' (by omega)]
  have hpos : 0 < 256 ^ d := Nat.pow_pos (by decide)
  show v.toNat * 256 ^ d % 2 ^ 32 / 256 ^ (k + d) % 256 = v.toNat / 256 ^ k % 256
  rw [hsplit, Nat.mod_mul_right_div_self, Nat.pow_add, Nat.mul_comm (256 ^ k),
    ← Nat.div_div_eq_div_mul, Nat.mul_div_cancel _ hpos]
  apply Nat.mod_mod_of_dvd
  exact Nat.dvd_of_pow_dvd (Nat.le_sub_of_add_le' h) (Nat.dvd_refl _)

/-- Masking the low bits rounds a word down. -/
theorem and_not_toNat (len : UInt32) {k m : Nat} {mask : UInt32}
    (hmask : (~~~mask).toNat = 2 ^ k * (2 ^ m - 1)) (hm : k + m = 32) :
    (len &&& ~~~mask).toNat = 2 ^ k * (len.toNat / 2 ^ k) := by
  have hlen := len.toNat_lt
  rw [UInt32.toNat_and, hmask]
  apply Nat.eq_of_testBit_eq
  intro i
  rw [Nat.testBit_and, Nat.testBit_two_pow_mul, Nat.testBit_two_pow_mul,
    Nat.testBit_two_pow_sub_one, Nat.testBit_div_two_pow]
  by_cases hk : k ≤ i
  · rw [Nat.sub_add_cancel hk]
    by_cases hi : i < 32
    · simp [hk, show i - k < m by omega]
    · have hbit : len.toNat.testBit i = false :=
        Nat.testBit_lt_two_pow (Nat.lt_of_lt_of_le hlen (Nat.pow_le_pow_right (by omega) (by omega)))
      simp [hbit]
  · simp [hk]

end MiyakoLink.Lib
