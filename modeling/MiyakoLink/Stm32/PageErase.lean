import Mathlib.Data.Nat.Bitwise
import MiyakoLink.Erase.Sectors

/-!
# Page erase commands of `FLASH_CR`

A page is erased with two writes to `FLASH_CR`, one with PER, the page number and the bank bit,
and one with STRT besides. The drivers put the page number there without a mask, and the bank bit
is the one behind the field.

* `startedBy_fits`, `startedBy_spills`, `startedBy_large`: the commands that the two writes start.
* `flatMap_eq_map_iff`: when there is one command for each page.
-/

namespace MiyakoLink.Stm32

open Lib

/-- A write to a register of the flash controller. -/
inductive FlashWrite where
  | keyr (val : UInt32)
  | sr (val : UInt32)
  | cr (val : UInt32)
  deriving DecidableEq

abbrev crPer : UInt32 := 0x2

abbrev crStrt : UInt32 := 0x10000

abbrev crLock : UInt32 := 0x80000000

/-- The width of the page number. -/
inductive PageField where
  | bits8 | bits10

namespace PageField

def width : PageField → Nat
  | bits8 => 8
  | bits10 => 10

def mask : PageField → UInt32
  | bits8 => 0xFF
  | bits10 => 0x3FF

/-- The bank bit. -/
def bker : PageField → UInt32
  | bits8 => 0x800
  | bits10 => 0x2000

variable (field : PageField)

/-- The command for a page of a bank. -/
def eraseCommand (bank : Bool) (pnb : UInt32) : UInt32 :=
  crPer ||| crStrt ||| pnb <<< 3 ||| if bank then field.bker else 0

/-- The bank and the page number of a command, if no other field of `FLASH_CR` is set. -/
def target (cr : UInt32) : Option (Bool × Nat) :=
  let bank := cr &&& field.bker != 0
  let pnb := cr >>> 3 &&& field.mask
  if cr = field.eraseCommand bank pnb then some (bank, pnb.toNat) else none

/-- What is put to `FLASH_CR` for a page number. -/
def pageFields (upper : Bool) (page : UInt32) : UInt32 :=
  crPer ||| page <<< 3 ||| if upper then field.bker else 0

def pageCommand (upper : Bool) (page : UInt32) : UInt32 := field.pageFields upper page ||| crStrt

end PageField

/-- The value of a write that starts a command: STRT is set, and LOCK is not. -/
def FlashWrite.started : FlashWrite → Option UInt32
  | cr val => if val &&& crStrt ≠ 0 ∧ val &&& crLock = 0 then some val else none
  | _ => none

/-- A turn of a loop that polls for BSY. -/
def busyTurn (busy : UInt32) (sr : Nat → UInt32) (fault : Nat → Bool) (i : Nat) : Option Bool :=
  if sr i &&& busy = 0 then some true else if fault i then some false else none

/-! ## The fields of a command -/

theorem shift_toNat {p : Nat} (hp : p < 2 ^ 16) : (UInt32.ofNat p <<< 3).toNat = 8 * p := by
  rw [UInt32.toNat_shiftLeft, UInt32.toNat_ofNat_of_lt' (show p < 2 ^ 32 by omega),
    Nat.shiftLeft_eq]
  show p * 8 % 2 ^ 32 = _
  omega

namespace PageField

variable {field : PageField}

theorem width_le (field : PageField) : field.width ≤ 10 := by
  cases field with
  | bits8 => decide
  | bits10 => decide

theorem one_le_width (field : PageField) : 1 ≤ field.width := by
  cases field with
  | bits8 => decide
  | bits10 => decide

theorem mask_eq (field : PageField) : field.mask.toNat = 2 ^ field.width - 1 := by
  cases field with
  | bits8 => rfl
  | bits10 => rfl

theorem bker_toNat (field : PageField) : field.bker.toNat = 2 ^ (field.width + 3) := by
  cases field with
  | bits8 => rfl
  | bits10 => rfl

theorem lt_of_page (field : PageField) {p : Nat} (hp : p < 2 ^ (field.width + 1)) : p < 2 ^ 16 := by
  have hwidth := width_le field
  exact Nat.lt_trans hp (Nat.pow_lt_pow_right (by decide) (by omega))

/-- The shifted page number lies below the bank bit. -/
theorem shifted_lt (field : PageField) {q : Nat} (hq : q < 2 ^ field.width) :
    8 * q < 2 ^ (field.width + 3) := by
  rw [Nat.pow_add]
  omega

theorem bankBit_toNat (field : PageField) (bank : Bool) :
    (if bank then field.bker else 0).toNat = if bank then 2 ^ (field.width + 3) else 0 := by
  cases bank with
  | false => rfl
  | true => exact field.bker_toNat

/-- The parts of a command, of which no two have a bit in common. -/
theorem eraseCommand_toNat (bank : Bool) {q : Nat} (hq : q < 2 ^ field.width) :
    (field.eraseCommand bank (UInt32.ofNat q)).toNat =
      2 ^ 1 ||| 2 ^ 16 ||| 8 * q ||| if bank then 2 ^ (field.width + 3) else 0 := by
  rw [eraseCommand, UInt32.toNat_or, UInt32.toNat_or, UInt32.toNat_or, bankBit_toNat,
    shift_toNat (lt_of_page field (Nat.lt_trans hq (Nat.pow_lt_pow_succ (by decide))))]
  rfl

theorem eraseCommand_bank (bank : Bool) {q : Nat} (hq : q < 2 ^ field.width) :
    (field.eraseCommand bank (UInt32.ofNat q) &&& field.bker != 0) = bank := by
  have hlow := one_le_width field
  have hhigh := width_le field
  have hbit :
      (field.eraseCommand bank (UInt32.ofNat q)).toNat.testBit (field.width + 3) = bank := by
    rw [eraseCommand_toNat bank hq, Nat.testBit_or, Nat.testBit_or, Nat.testBit_or,
      Nat.testBit_two_pow_of_ne (by omega), Nat.testBit_two_pow_of_ne (by omega),
      Nat.testBit_lt_two_pow (shifted_lt field hq)]
    cases bank with
    | false => simp
    | true => simp
  have hand : (field.eraseCommand bank (UInt32.ofNat q) &&& field.bker).toNat =
      bank.toNat * 2 ^ (field.width + 3) := by
    rw [UInt32.toNat_and, bker_toNat, Nat.and_two_pow, hbit]
  have hpos := Nat.two_pow_pos (field.width + 3)
  cases bank with
  | false =>
    rw [Bool.toNat_false, Nat.zero_mul] at hand
    have hzero : field.eraseCommand false (UInt32.ofNat q) &&& field.bker = 0 :=
      UInt32.toNat_inj.mp hand
    rw [hzero]
    rfl
  | true =>
    rw [Bool.toNat_true, Nat.one_mul] at hand
    rw [bne_iff_ne]
    intro hzero
    rw [hzero] at hand
    exact absurd hand (Nat.ne_of_lt hpos)

theorem eraseCommand_page (bank : Bool) {q : Nat} (hq : q < 2 ^ field.width) :
    field.eraseCommand bank (UInt32.ofNat q) >>> 3 &&& field.mask = UInt32.ofNat q := by
  have hwidth := width_le field
  have hlt := Nat.pow_le_pow_right (show 0 < 2 by decide) hwidth
  have hpow : 2 ^ (field.width + 3) / 2 ^ 3 = 2 ^ field.width := by
    rw [Nat.pow_add, Nat.mul_div_cancel _ (by decide)]
  have hstart : 2 ^ 16 / 2 ^ 3 % 2 ^ field.width = 0 :=
    Nat.mod_eq_zero_of_dvd (Nat.pow_dvd_pow 2 (show field.width ≤ 13 by omega))
  have hbank : (if bank then 2 ^ (field.width + 3) else 0) / 2 ^ 3 % 2 ^ field.width = 0 := by
    cases bank with
    | false => rw [if_neg Bool.false_ne_true, Nat.zero_div, Nat.zero_mod]
    | true => rw [if_pos rfl, hpow, Nat.mod_self]
  apply UInt32.toNat_inj.mp
  rw [UInt32.toNat_ofNat_of_lt' (show q < 2 ^ 32 by omega), UInt32.toNat_and, mask_eq,
    Nat.and_two_pow_sub_one_eq_mod,
    UInt32.toNat_shiftRight, eraseCommand_toNat bank hq]
  show (_ >>> 3) % _ = q
  rw [Nat.shiftRight_eq_div_pow, Nat.or_div_two_pow, Nat.or_div_two_pow, Nat.or_div_two_pow,
    Nat.or_mod_two_pow, Nat.or_mod_two_pow, Nat.or_mod_two_pow, hstart, hbank,
    show 8 * q / 2 ^ 3 = q from Nat.mul_div_cancel_left q (by decide),
    Nat.mod_eq_of_lt hq]
  simp

/-- A page number of one bit too many has it where the bank bit is. -/
theorem pageFields_split (field : PageField) (upper : Bool) {p : Nat}
    (hp : p < 2 ^ (field.width + 1)) :
    field.pageFields upper (UInt32.ofNat p) =
      crPer ||| UInt32.ofNat (p % 2 ^ field.width) <<< 3 |||
        if upper || decide (2 ^ field.width ≤ p) then field.bker else 0 := by
  unfold pageFields
  by_cases hlow : 2 ^ field.width ≤ p
  · have hsplit := Nat.pow_succ (n := 2) (m := field.width)
    have hmod : p % 2 ^ field.width = p - 2 ^ field.width := by
      rw [Nat.mod_eq_sub_mod hlow, Nat.mod_eq_of_lt (by omega)]
    have hshift : UInt32.ofNat p <<< 3 =
        UInt32.ofNat (p - 2 ^ field.width) <<< 3 ||| field.bker := by
      apply UInt32.toNat_inj.mp
      have hq := shifted_lt field (q := p - 2 ^ field.width) (by omega)
      have hsum := Nat.two_pow_add_eq_or_of_lt hq 1
      rw [UInt32.toNat_or, bker_toNat, shift_toNat (lt_of_page field hp),
        shift_toNat (lt_of_page field (by omega)), Nat.or_comm]
      rw [Nat.mul_one, Nat.pow_add] at hsum
      rw [Nat.pow_add, ← hsum]
      omega
    rw [hmod, hshift, decide_eq_true hlow, Bool.or_true, if_pos rfl, ← UInt32.or_assoc]
    cases upper with
    | false => rw [if_neg Bool.false_ne_true, UInt32.or_zero]
    | true => rw [if_pos rfl, UInt32.or_assoc, UInt32.or_self]
  · rw [Nat.mod_eq_of_lt (by omega), decide_eq_false hlow, Bool.or_false]

theorem pageCommand_split (upper : Bool) {p : Nat} (hp : p < 2 ^ (field.width + 1)) :
    field.pageCommand upper (UInt32.ofNat p) =
      field.eraseCommand (upper || decide (2 ^ field.width ≤ p))
        (UInt32.ofNat (p % 2 ^ field.width)) := by
  rw [pageCommand, pageFields_split field upper hp, eraseCommand]
  ac_rfl

theorem target_small {p : Nat} (hp : p < 2 ^ (field.width + 1)) (upper : Bool) :
    field.target (field.pageCommand upper (UInt32.ofNat p)) =
      some (upper || decide (2 ^ field.width ≤ p), p % 2 ^ field.width) := by
  have hq : p % 2 ^ field.width < 2 ^ field.width := Nat.mod_lt _ (Nat.two_pow_pos _)
  have hlt := lt_of_page field (Nat.lt_trans hq (Nat.pow_lt_pow_succ (by decide)))
  rw [pageCommand_split upper hp]
  unfold target
  dsimp only
  rw [eraseCommand_bank _ hq, eraseCommand_page _ hq, if_pos rfl,
    UInt32.toNat_ofNat_of_lt' (Nat.lt_trans hlt (by decide))]

theorem eraseCommand_lt (bank : Bool) {q : Nat} (hq : q < 2 ^ field.width) :
    (field.eraseCommand bank (UInt32.ofNat q)).toNat < 2 ^ 16 + 2 ^ (field.width + 4) := by
  have hlow := one_le_width field
  have hhigh := width_le field
  have hnext : 2 ^ (field.width + 3) < 2 ^ (field.width + 4) := Nat.pow_lt_pow_succ (by decide)
  have hbank : (if bank then 2 ^ (field.width + 3) else 0) < 2 ^ (field.width + 4) := by
    split
    · exact hnext
    · exact Nat.two_pow_pos _
  have hbelow : 2 ^ 1 ||| 8 * q ||| (if bank then 2 ^ (field.width + 3) else 0) <
      2 ^ (field.width + 4) :=
    Nat.or_lt_two_pow (Nat.or_lt_two_pow (Nat.pow_lt_pow_right (by decide) (by omega))
      (Nat.lt_trans (shifted_lt field hq) hnext)) hbank
  have hsum := Nat.two_pow_add_eq_or_of_lt (Nat.lt_of_lt_of_le hbelow
    (Nat.pow_le_pow_right (by decide) (show field.width + 4 ≤ 16 by omega))) 1
  rw [eraseCommand_toNat bank hq, Nat.or_comm (2 ^ 1), Nat.or_assoc, Nat.or_assoc,
    ← Nat.or_assoc (2 ^ 1)]
  rw [Nat.mul_one] at hsum
  omega

theorem mask_toNat (field : PageField) : field.mask.toNat < 2 ^ field.width := by
  have hpos := Nat.two_pow_pos field.width
  rw [mask_eq]
  omega

/-- A number that is too large for the field and the bit behind it changes other fields. -/
theorem target_large {cr : UInt32} (h : 2 ^ 16 + 2 ^ (field.width + 4) ≤ cr.toNat) :
    field.target cr = none := by
  unfold target
  dsimp only
  apply if_neg
  intro heq
  have hpnb : (cr >>> 3 &&& field.mask).toNat < 2 ^ field.width := by
    rw [UInt32.toNat_and]
    exact Nat.lt_of_le_of_lt Nat.and_le_right (mask_toNat field)
  have hlt := eraseCommand_lt (cr &&& field.bker != 0) hpnb
  rw [UInt32.ofNat_toNat, ← heq] at hlt
  omega

end PageField

namespace PageField

variable {field : PageField}

/-- The fields of a command beside the start bit. -/
theorem pageFields_toNat (field : PageField) (upper : Bool) {p : Nat} (hp : p < 2 ^ 16) :
    8 * p ≤ (field.pageFields upper (UInt32.ofNat p)).toNat ∧
    (p < 8192 → (field.pageFields upper (UInt32.ofNat p)).toNat < 2 ^ 16) ∧
    (field.pageFields upper (UInt32.ofNat p)).toNat / 2 ^ 16 = 8 * p / 2 ^ 16 := by
  have hbker : (if upper then field.bker else 0 : UInt32).toNat < 2 ^ 14 := by
    cases field with
    | bits8 => cases upper <;> decide
    | bits10 => cases upper <;> decide
  unfold pageFields
  rw [UInt32.toNat_or, UInt32.toNat_or, shift_toNat hp]
  refine ⟨Nat.le_trans Nat.right_le_or Nat.left_le_or, fun hsmall => ?_, ?_⟩
  · apply Nat.or_lt_two_pow
    · exact Nat.or_lt_two_pow (by decide) (by omega)
    · omega
  · rw [Nat.or_div_two_pow, Nat.or_div_two_pow,
      Nat.div_eq_of_lt (show crPer.toNat < 2 ^ 16 by decide),
      Nat.div_eq_of_lt (Nat.lt_trans hbker (by decide)), Nat.zero_or, Nat.or_zero]

/-- The bits of a page number that is at most one bit too long do not reach the start bit. -/
theorem pageFields_quiet (upper : Bool) {p : Nat} (hp : p < 2 ^ (field.width + 1)) :
    field.pageFields upper (UInt32.ofNat p) &&& crStrt = 0 := by
  have hwidth := Nat.pow_le_pow_right (show 0 < 2 by decide) (Nat.succ_le_succ (width_le field))
  obtain ⟨-, hsmall, -⟩ := pageFields_toNat field upper (lt_of_page field hp)
  apply UInt32.toNat_inj.mp
  rw [UInt32.toNat_and]
  show _ &&& 2 ^ 16 = 0
  rw [Nat.and_two_pow, Nat.testBit_lt_two_pow (hsmall (by omega)), Bool.toNat_false, Nat.zero_mul]

theorem pageFields_lt (field : PageField) (upper : Bool) {p : Nat} (hp : p < 2 ^ 16) :
    (field.pageFields upper (UInt32.ofNat p)).toNat < 2 ^ 19 := by
  obtain ⟨-, -, hdiv⟩ := pageFields_toNat field upper hp
  omega

theorem pageCommand_lt (upper : Bool) {p : Nat} (hp : p < 2 ^ 16) :
    (field.pageCommand upper (UInt32.ofNat p)).toNat < 2 ^ 19 := by
  rw [pageCommand, UInt32.toNat_or]
  exact Nat.or_lt_two_pow (pageFields_lt field upper hp) (by decide)

theorem pageCommand_large (upper : Bool) {p : Nat} (hp : p < 2 ^ 16)
    (hlow : 2 ^ (field.width + 1) ≤ p) (hne : p < 8192 ∨ 16384 ≤ p) :
    2 ^ 16 + 2 ^ (field.width + 4) ≤ (field.pageCommand upper (UInt32.ofNat p)).toNat := by
  obtain ⟨hle, hsmall, -⟩ := pageFields_toNat field upper hp
  have hpow : 2 ^ (field.width + 4) = 8 * 2 ^ (field.width + 1) := by
    rw [Nat.pow_add, Nat.pow_succ]
    omega
  unfold pageCommand
  rw [UInt32.toNat_or, hpow]
  rcases hne with hlt | hge
  · have hsum := Nat.two_pow_add_eq_or_of_lt (hsmall hlt) 1
    rw [Nat.mul_one] at hsum
    rw [Nat.or_comm]
    show _ ≤ 2 ^ 16 ||| _
    rw [← hsum]
    omega
  · have hor : (field.pageFields upper (UInt32.ofNat p)).toNat ≤
        (field.pageFields upper (UInt32.ofNat p)).toNat ||| crStrt.toNat :=
      Nat.left_le_or
    have hwidth : 2 ^ (field.width + 1) ≤ 2 ^ 11 := by
      cases field with
      | bits8 => decide
      | bits10 => decide
    omega

end PageField

/-! ## The commands that are started -/

theorem started_iff {x : UInt32} (h : x.toNat < 2 ^ 19) :
    FlashWrite.started (.cr x) = if x &&& crStrt ≠ 0 then some x else none := by
  have hlock : x &&& crLock = 0 := by
    apply UInt32.toNat_inj.mp
    rw [UInt32.toNat_and]
    show x.toNat &&& 2 ^ 31 = 0
    rw [Nat.and_two_pow, Nat.testBit_lt_two_pow (Nat.lt_trans h (by decide))]
    rfl
  simp only [FlashWrite.started, hlock, and_true]

theorem starts_of_testBit {x : UInt32} (h : x.toNat.testBit 16 = true) : x &&& crStrt ≠ 0 := by
  intro hzero
  have hand := congrArg (fun y => y.toNat.testBit 16) hzero
  simp only [UInt32.toNat_and, Nat.testBit_and, h] at hand
  exact absurd hand (by decide)

/-- A page number whose own bits include the start bit. -/
theorem pageFields_starts {field : PageField} (upper : Bool) {p : Nat} (hlow : 8192 ≤ p)
    (hhigh : p < 16384) : field.pageFields upper (UInt32.ofNat p) &&& crStrt ≠ 0 := by
  obtain ⟨-, -, hdiv⟩ := PageField.pageFields_toNat field upper (p := p) (by omega)
  apply starts_of_testBit
  have hone : 8 * p / 2 ^ 16 = 1 := by omega
  rw [Nat.testBit_eq_decide_div_mod_eq, hdiv, hone]
  decide

theorem pageCommand_starts (field : PageField) (upper : Bool) (page : UInt32) :
    field.pageCommand upper page &&& crStrt ≠ 0 := by
  apply starts_of_testBit
  rw [PageField.pageCommand, UInt32.toNat_or, Nat.testBit_or, Bool.or_eq_true]
  exact Or.inr (by decide)

/-- The commands that the two writes for a page start. -/
def startedBy (field : PageField) (upper : Bool) (p : Nat) : List UInt32 :=
  [FlashWrite.cr (field.pageFields upper (UInt32.ofNat p)),
    FlashWrite.cr (field.pageCommand upper (UInt32.ofNat p))].filterMap FlashWrite.started

section

variable {field : PageField} {upper : Bool} {p : Nat}

theorem startedBy_cases (field : PageField) (upper : Bool) (hp : p < 2 ^ 16) :
    (field.pageFields upper (UInt32.ofNat p) &&& crStrt = 0 ∧
      startedBy field upper p = [field.pageCommand upper (UInt32.ofNat p)]) ∨
    (field.pageFields upper (UInt32.ofNat p) &&& crStrt ≠ 0 ∧
      (startedBy field upper p).length = 2) := by
  have hcommand : FlashWrite.started (.cr (field.pageCommand upper (UInt32.ofNat p))) =
      some (field.pageCommand upper (UInt32.ofNat p)) := by
    rw [started_iff (PageField.pageCommand_lt upper hp), if_pos (pageCommand_starts field upper _)]
  have hfields := started_iff (PageField.pageFields_lt field upper hp)
  unfold startedBy
  by_cases h : field.pageFields upper (UInt32.ofNat p) &&& crStrt = 0
  · rw [if_neg (not_not_intro h)] at hfields
    rw [List.filterMap_cons_none hfields, List.filterMap_cons_some hcommand, List.filterMap_nil]
    exact Or.inl ⟨h, rfl⟩
  · rw [if_pos h] at hfields
    rw [List.filterMap_cons_some hfields, List.filterMap_cons_some hcommand, List.filterMap_nil]
    exact Or.inr ⟨h, rfl⟩

theorem startedBy_ne_nil (hp : p < 2 ^ 16) : startedBy field upper p ≠ [] := by
  rcases startedBy_cases field upper hp with ⟨-, hone⟩ | ⟨-, htwo⟩
  · rw [hone]
    exact List.cons_ne_nil _ _
  · intro hnil
    rw [hnil] at htwo
    contradiction

theorem startedBy_small (hp : p < 2 ^ (field.width + 1)) :
    (startedBy field upper p).map field.target =
      [some (upper || decide (2 ^ field.width ≤ p), p % 2 ^ field.width)] := by
  have hlt : p < 2 ^ 16 := Nat.lt_of_lt_of_le hp (by cases field <;> decide)
  obtain ⟨-, hone⟩ := (startedBy_cases field upper hlt).resolve_right fun h =>
    h.1 (PageField.pageFields_quiet upper hp)
  rw [hone, List.map_singleton, PageField.target_small hp]

/-- A number that fits into the field. -/
theorem startedBy_fits (field : PageField) (hp : p < 2 ^ field.width) :
    (startedBy field upper p).map field.target = [some (upper, p)] := by
  rw [startedBy_small (Nat.lt_trans hp (Nat.pow_lt_pow_succ (by decide))), Nat.mod_eq_of_lt hp,
    decide_eq_false (Nat.not_le.mpr hp), Bool.or_false]

/-- One whose highest bit becomes the bank bit. -/
theorem startedBy_spills (field : PageField) (hlow : 2 ^ field.width ≤ p)
    (hp : p < 2 ^ (field.width + 1)) :
    (startedBy field upper p).map field.target = [some (true, p - 2 ^ field.width)] := by
  rw [Nat.pow_succ] at hp
  rw [startedBy_small (by rw [Nat.pow_succ]; exact hp), decide_eq_true hlow, Bool.or_true,
    Nat.mod_eq_sub_mod hlow, Nat.mod_eq_of_lt (by omega)]

/-- One that changes other fields. -/
theorem startedBy_large (field : PageField) (hlow : 2 ^ (field.width + 1) ≤ p) (hp : p < 2 ^ 16)
    (x : Bool × Nat) :
    (startedBy field upper p).map field.target ≠ [some x] := by
  intro h
  rcases startedBy_cases field upper hp with ⟨hquiet, hone⟩ | ⟨-, htwo⟩
  · have hne : p < 8192 ∨ 16384 ≤ p := by
      by_contra hmid
      exact pageFields_starts upper (p := p) (by omega) (by omega) hquiet
    rw [hone, List.map_singleton,
      PageField.target_large (PageField.pageCommand_large upper hp hlow hne)] at h
    exact absurd (List.singleton_inj.mp h) (by simp)
  · have hlen := congrArg List.length h
    rw [List.length_map, htwo] at hlen
    exact absurd hlen (by simp)

end

/-! ## One command for each page -/

section

variable {α : Type*} {items : Nat → List α} {item : Nat → α} {n : Nat}

theorem le_flatMap_length (h : ∀ j < n, items j ≠ []) :
    n ≤ ((List.range n).flatMap items).length := by
  induction n with
  | zero => exact Nat.zero_le _
  | succ n ih =>
    have hn := ih fun j hj => h j (Nat.lt_succ_of_lt hj)
    have hpos := List.length_pos_iff.mpr (h n (Nat.lt_succ_self n))
    rw [List.range_succ, List.flatMap_append, List.flatMap_singleton, List.length_append]
    omega

/-- Lists of which each has an item hold one item each when there are no more items than lists. -/
theorem flatMap_eq_map_iff (h : ∀ j < n, items j ≠ []) :
    (List.range n).flatMap items = (List.range n).map item ↔ ∀ j < n, items j = [item j] := by
  constructor
  · intro heq
    induction n with
    | zero => exact fun j hj => absurd hj (Nat.not_lt_zero j)
    | succ n ih =>
      have hne : ∀ j < n, items j ≠ [] := fun j hj => h j (Nat.lt_succ_of_lt hj)
      have hlen := congrArg List.length heq
      rw [List.range_succ, List.flatMap_append, List.map_append, List.flatMap_singleton,
        List.map_singleton] at heq
      rw [List.range_succ, List.flatMap_append, List.flatMap_singleton, List.length_append,
        List.length_map, List.length_append, List.length_range, List.length_singleton] at hlen
      have hle := le_flatMap_length hne
      have hpos := List.length_pos_iff.mpr (h n (Nat.lt_succ_self n))
      have hinit : ((List.range n).flatMap items).length = ((List.range n).map item).length := by
        rw [List.length_map, List.length_range]
        omega
      obtain ⟨hinit, hlast⟩ := List.append_inj heq hinit
      intro j hj
      rcases Nat.lt_succ_iff_lt_or_eq.mp hj with hj | rfl
      · exact ih hne hinit j hj
      · exact hlast
  · intro hall
    rw [List.map_eq_flatMap]
    exact List.flatMap_congr fun j hj => hall j (List.mem_range.mp hj)

end

/-! ## Polls -/

theorem busyTurn_not_false (busy : UInt32) (sr : Nat → UInt32) {fault : Nat → Bool}
    (h : ∀ i, fault i = false) (fuel : Nat) : poll (busyTurn busy sr fault) fuel ≠ some false := by
  intro hpoll
  obtain ⟨i, -, hturn, -⟩ := poll_iff.mp hpoll
  unfold busyTurn at hturn
  rw [h i] at hturn
  split at hturn
  · contradiction
  · contradiction

/-- A controller that is not busy. -/
theorem busyTurn_idle (busy : UInt32) (fault : Nat → Bool) :
    Leaves (busyTurn busy (fun _ => 0) fault) true := by
  refine ⟨0, ?_, fun j hj => absurd hj (Nat.not_lt_zero j)⟩
  unfold busyTurn
  rw [UInt32.zero_and, if_pos rfl]

end MiyakoLink.Stm32
