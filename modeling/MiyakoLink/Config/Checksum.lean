import Mathlib.Data.List.GetD
import MiyakoLink.Config.Restart
import MiyakoLink.Lib.Crc

/-!
# The checksum of the settings

`crc16_function` is a register of 16 bits that shifts to the right and takes in the bits of a byte
from the least significant one on. A burst is a corruption within a window of 16 bits in this order.

* `checksum_bursts`: a burst changes the checksum of a buffer, and a stored record that it leaves
  valid has been changed both in its checksum and in its settings.
-/

namespace MiyakoLink.Config

open Lib Lib.Crc

/-- A turn of the CRC-16, bit by bit. -/
def crc16Bit (crc : UInt16) : UInt16 := if crc &&& 1 ≠ 0 then crc >>> 1 ^^^ 0xA001 else crc >>> 1

/-- The CRC-16, bit by bit. -/
def crc16Bitwise (buf : Bytes) : UInt16 :=
  buf.foldl (fun crc b => crc16Bit^[8] (crc ^^^ b.toUInt16)) 0xFFFF

/-- The bits of a byte, the least significant one first. -/
def byteBits (b : UInt8) : List Bool := (List.range 8).map b.toBitVec.getLsbD

/-- Two buffers of one length that differ, and only within a window of 16 bits. -/
structure Burst (buf buf' : Bytes) : Prop where
  length : buf.length = buf'.length
  differ : buf ≠ buf'
  window : ∃ s, ∀ i,
    (buf.flatMap byteBits).getD i false ≠ (buf'.flatMap byteBits).getD i false → s ≤ i ∧ i < s + 16

/-- What the EEPROM has of the settings. -/
abbrev record (eeprom : Store UInt8 256) : Bytes := eeprom.read 0 storedSize

/-- `device_config_init` keeps what it reads. -/
def Accepts (eeprom : Store UInt8 256) : Prop :=
  let d := Device.readAllSettings none none ⟨Store.filled confSize 0, eeprom⟩
  d.getValue .crc 2 = some (le16 d.calculateCrc)

/-! ## The table -/

abbrev crc16Poly : BitVec 16 := 0xA001#16

theorem and_one_eq_zero (v : BitVec 16) : v &&& 1#16 = 0#16 ↔ v.getLsbD 0 = false := by
  rw [BitVec.and_one_eq_setWidth_ofBool_getLsbD]
  cases v.getLsbD 0 with
  | false => simp
  | true => decide

theorem crc16Bit_toBitVec (crc : UInt16) :
    (crc16Bit crc).toBitVec = turnRight crc16Poly crc.toBitVec := by
  have hmask : crc &&& 1 = 0 ↔ crc.toBitVec.getLsbD 0 = false := by
    rw [← UInt16.toBitVec_inj]
    exact and_one_eq_zero crc.toBitVec
  unfold crc16Bit turnRight
  by_cases h : crc &&& 1 = 0
  · rw [if_neg (not_not.mpr h), if_neg (by rw [hmask.mp h]; exact Bool.false_ne_true)]
    rfl
  · rw [if_pos h, if_pos (by rwa [hmask, Bool.not_eq_false] at h)]
    rfl

theorem crc16Bits_toBitVec (n : Nat) (crc : UInt16) :
    (crc16Bit^[n] crc).toBitVec = (turnRight crc16Poly)^[n] crc.toBitVec :=
  Function.Semiconj.iterate_right crc16Bit_toBitVec n crc

theorem crc16Bits_xor (n : Nat) (a b : UInt16) :
    crc16Bit^[n] (a ^^^ b) = crc16Bit^[n] a ^^^ crc16Bit^[n] b := by
  apply UInt16.toBitVec_inj.mp
  rw [crc16Bits_toBitVec, UInt16.toBitVec_xor, turnsRight_xor, UInt16.toBitVec_xor,
    crc16Bits_toBitVec, crc16Bits_toBitVec]

theorem crcTable_eq (b : UInt8) : crcTable.getD b.toNat 0 = crc16Bit^[8] b.toUInt16 := by
  have htable : crcTable =
      (List.range 256).map fun n => crc16Bit^[8] (UInt8.ofNat n).toUInt16 := by
    decide +kernel
  have hindex := List.getElem?_range b.toNat_lt
  rw [htable, List.getD_eq_getElem?_getD, List.getElem?_map, hindex, Option.map_some,
    Option.getD_some, UInt8.ofNat_toNat]

/-- What is above the byte at the bottom moves down. -/
theorem turnsRight_above {p : BitVec 16} (v : BitVec 16) :
    (turnRight p)^[8] (v >>> 8 <<< 8) = v >>> 8 := by
  rw [turnsRight_of_shift]
  · apply BitVec.eq_of_getLsbD_eq
    intro i hi
    by_cases h : 8 + i < 16
    · simp [h]
    · simp [h, BitVec.getLsbD_of_ge v (8 + i) (by omega)]
  · intro i hi
    simp [hi]

/-- The byte at the bottom and what is above it. -/
theorem split_bottom (v : BitVec 16) (b : BitVec 8) :
    v ^^^ b.setWidth 16 = v >>> 8 <<< 8 ^^^ (b ^^^ v.setWidth 8).setWidth 16 := by
  apply BitVec.eq_of_getLsbD_eq
  intro i hi
  by_cases h : i < 8
  · simp [hi, h, Bool.xor_comm]
  · simp [hi, h, show 8 + (i - 8) = i by omega]

/-- A step with the table is eight turns behind a byte. -/
theorem crcStep_eq (crc : UInt16) (b : UInt8) :
    crc >>> 8 ^^^ crcTable.getD (b ^^^ crc.toUInt8).toNat 0 = crc16Bit^[8] (crc ^^^ b.toUInt16) := by
  have hhigh : crc16Bit^[8] (crc >>> 8 <<< 8) = crc >>> 8 := by
    apply UInt16.toBitVec_inj.mp
    rw [crc16Bits_toBitVec]
    exact turnsRight_above crc.toBitVec
  have hsplit : crc ^^^ b.toUInt16 = crc >>> 8 <<< 8 ^^^ (b ^^^ crc.toUInt8).toUInt16 :=
    UInt16.toBitVec_inj.mp (split_bottom crc.toBitVec b.toBitVec)
  rw [crcTable_eq, hsplit, crc16Bits_xor, hhigh]

theorem crc16Function_eq (buf : Bytes) : crc16Function buf = crc16Bitwise buf := by
  unfold crc16Function crc16Bitwise
  exact congrArg (fun f => buf.foldl f 0xFFFF) (funext fun crc => funext fun b => crcStep_eq crc b)

/-! ## Bits -/

theorem length_byteBits (b : UInt8) : (byteBits b).length = 8 := by
  rw [byteBits, List.length_map, List.length_range]

theorem byteBits_injective : Function.Injective byteBits := by
  intro b b' h
  apply UInt8.toBitVec_inj.mp
  apply BitVec.eq_of_getLsbD_eq
  intro i hi
  have hbit := congrArg (fun l => l[i]?) h
  simpa [byteBits, hi] using hbit

theorem length_bits (buf : Bytes) : (buf.flatMap byteBits).length = 8 * buf.length := by
  induction buf with
  | nil => rfl
  | cons b buf ih =>
    rw [List.flatMap_cons, List.length_append, length_byteBits, ih, List.length_cons]
    omega

theorem bits_inj {buf buf' : Bytes} (hlen : buf.length = buf'.length)
    (h : buf.flatMap byteBits = buf'.flatMap byteBits) : buf = buf' := by
  induction buf generalizing buf' with
  | nil => exact (List.length_eq_zero_iff.mp hlen.symm).symm
  | cons b buf ih =>
    cases buf' with
    | nil => contradiction
    | cons b' buf' =>
      obtain ⟨hbyte, hrest⟩ := List.append_inj h ((length_byteBits b).trans (length_byteBits b').symm)
      rw [byteBits_injective hbyte, ih (Nat.succ.inj hlen) hrest]

theorem registerRight_byteBits (crc : UInt16) (b : UInt8) :
    registerRight crc16Poly crc.toBitVec (byteBits b) =
      (crc16Bit^[8] (crc ^^^ b.toUInt16)).toBitVec := by
  have hbits : byteBits b = (List.range 8).map (b.toBitVec.setWidth 16).getLsbD := by
    apply List.map_congr_left
    intro j hj
    have hj := List.mem_range.mp hj
    simp [show j < 16 by omega]
  have hunder : b.toBitVec.setWidth 16 >>> 8 = 0#16 := by
    apply BitVec.eq_of_getLsbD_eq
    intro i _
    simp
  rw [hbits, registerRight_getLsbD, hunder, BitVec.xor_zero, crc16Bits_toBitVec]
  rfl

theorem crc16Function_toBitVec (buf : Bytes) :
    (crc16Function buf).toBitVec = registerRight crc16Poly 0xFFFF#16 (buf.flatMap byteBits) := by
  have hfold (crc : UInt16) :
      (buf.foldl (fun crc b => crc16Bit^[8] (crc ^^^ b.toUInt16)) crc).toBitVec =
        registerRight crc16Poly crc.toBitVec (buf.flatMap byteBits) := by
    induction buf generalizing crc with
    | nil => rfl
    | cons b buf ih =>
      rw [List.foldl_cons, ih, List.flatMap_cons, registerRight_append, registerRight_byteBits]
  rw [crc16Function_eq]
  exact hfold 0xFFFF

/-- The bits of the first `n` bytes, and of those behind them. -/
theorem bits_split {buf : Bytes} {n : Nat} (hn : n ≤ buf.length) :
    buf.flatMap byteBits = (buf.take n).flatMap byteBits ++ (buf.drop n).flatMap byteBits ∧
      ((buf.take n).flatMap byteBits).length = 8 * n := by
  constructor
  · rw [← List.flatMap_append, List.take_append_drop]
  · rw [length_bits, List.length_take, Nat.min_eq_left hn]

theorem getD_bits_take {buf : Bytes} {n i : Nat} (hn : n ≤ buf.length) (hi : i < 8 * n) :
    ((buf.take n).flatMap byteBits).getD i false = (buf.flatMap byteBits).getD i false := by
  obtain ⟨hsplit, hlen⟩ := bits_split hn
  rw [hsplit, List.getD_append _ _ _ _ (by rw [hlen]; exact hi)]

theorem getD_bits_drop {buf : Bytes} {n i : Nat} (hn : n ≤ buf.length) :
    ((buf.drop n).flatMap byteBits).getD i false =
      (buf.flatMap byteBits).getD (8 * n + i) false := by
  obtain ⟨hsplit, hlen⟩ := bits_split hn
  rw [hsplit, List.getD_append_right _ _ _ _ (by rw [hlen]; exact Nat.le_add_right _ _), hlen,
    Nat.add_sub_cancel_left]

/-! ## Bursts -/

variable {buf buf' : Bytes} {eeprom eeprom' : Store UInt8 256}

/-- A burst changes the checksum. -/
theorem Burst.crc16_ne (h : Burst buf buf') : crc16Function buf ≠ crc16Function buf' := by
  intro heq
  obtain ⟨s, hs⟩ := h.window
  have hregister := congrArg UInt16.toBitVec heq
  rw [crc16Function_toBitVec, crc16Function_toBitVec] at hregister
  refine registerRight_burst (by decide) ?_ (fun hbits => h.differ (bits_inj h.length hbits)) hs
    hregister
  rw [length_bits, length_bits, h.length]

/-- What is behind the first `n` bytes. -/
theorem Burst.drop (h : Burst buf buf') {n : Nat} (hn : n ≤ buf.length)
    (hdiffer : buf.drop n ≠ buf'.drop n) : Burst (buf.drop n) (buf'.drop n) where
  length := by rw [List.length_drop, List.length_drop, h.length]
  differ := hdiffer
  window := by
    obtain ⟨s, hs⟩ := h.window
    refine ⟨s - 8 * n, fun i hi => ?_⟩
    rw [getD_bits_drop hn, getD_bits_drop (by rw [← h.length]; exact hn)] at hi
    have hin := hs _ hi
    omega

theorem le16_injective : Function.Injective le16 := by
  intro a b h
  unfold le16 at h
  obtain ⟨hlow, hhigh⟩ : a.toUInt8 = b.toUInt8 ∧ (a >>> 8).toUInt8 = (b >>> 8).toUInt8 := by
    simpa using h
  apply UInt16.toNat_inj.mp
  have hlow := congrArg UInt8.toNat hlow
  have hhigh := congrArg UInt8.toNat hhigh
  rw [UInt16.toNat_toUInt8, UInt16.toNat_toUInt8] at hlow hhigh
  rw [UInt16.toNat_shiftRight, UInt16.toNat_shiftRight] at hhigh
  have hhigh : a.toNat >>> 8 % 2 ^ 8 = b.toNat >>> 8 % 2 ^ 8 := hhigh
  rw [Nat.shiftRight_eq_div_pow, Nat.shiftRight_eq_div_pow] at hhigh
  have ha := a.toNat_lt
  have hb := b.toNat_lt
  omega

theorem accepts_iff :
    Accepts eeprom ↔ (record eeprom).take 2 = le16 (crc16Function ((record eeprom).drop 2)) := by
  let d := Device.readAllSettings none none ⟨Store.filled confSize 0, eeprom⟩
  have hlen : (record eeprom).length = storedSize := Store.length_read (by decide)
  have hfits : 0 + (record eeprom).length ≤ confSize := by
    rw [hlen]
    decide
  have hstored : ((Store.filled confSize 0).write 0 (record eeprom)).read 0 storedSize =
      record eeprom := by
    have hwritten := Store.read_write (s := Store.filled confSize 0) hfits
    rwa [hlen] at hwritten
  have hread : d.ram.read 0 storedSize = record eeprom :=
    (Store.read_write_apart (Or.inr (Nat.le_refl _))).trans hstored
  have hcrc : d.setting .crc = ((d.ram.read 0 storedSize).drop 0).take 2 :=
    Store.read_sub d.ram (Nat.le_refl 0) (by decide)
  have hsettings : d.ram.read 2 (storedSize - 2) =
      ((d.ram.read 0 storedSize).drop 2).take (storedSize - 2) :=
    Store.read_sub d.ram (Nat.zero_le 2) (by decide)
  rw [hread, List.drop_zero] at hcrc
  rw [hread, List.take_of_length_le (by rw [List.length_drop, hlen])] at hsettings
  show d.getValue .crc DeviceConfId.crc.size = some (le16 (crc16Function _)) ↔ _
  rw [getValue_size, Option.some_inj, hcrc, hsettings]

/-- `crc16_function` is the CRC-16, and a burst changes it. A burst that leaves the stored record
valid has changed its checksum and its settings. -/
theorem checksum_bursts :
    (∀ buf, crc16Function buf = crc16Bitwise buf) ∧
    (∀ buf buf', Burst buf buf' → crc16Function buf ≠ crc16Function buf') ∧
    (∀ eeprom eeprom', Burst (record eeprom) (record eeprom') → Accepts eeprom →
      Accepts eeprom' → (record eeprom).take 2 ≠ (record eeprom').take 2 ∧
        (record eeprom).drop 2 ≠ (record eeprom').drop 2) := by
  refine ⟨crc16Function_eq, fun _ _ h => h.crc16_ne, fun e e' h he he' => ?_⟩
  rw [accepts_iff] at he he'
  have hsettings : (record e).drop 2 ≠ (record e').drop 2 := by
    intro hsame
    apply h.differ
    rw [← List.take_append_drop 2 (record e), ← List.take_append_drop 2 (record e'), he, he', hsame]
  refine ⟨fun hsame => ?_, hsettings⟩
  have hlen : (record e).length = storedSize := Store.length_read (by decide)
  refine (h.drop (by rw [hlen]; decide) hsettings).crc16_ne (le16_injective ?_)
  rw [← he, ← he', hsame]

/-! ## A burst over the end of the checksum -/

/-- A change of two bytes that are side by side is a burst. -/
theorem burst_of_bytes {n : Nat} (hlen : buf.length = buf'.length) (hne : buf ≠ buf')
    (hn : n + 2 ≤ buf.length) (hfront : buf.take n = buf'.take n)
    (hback : buf.drop (n + 2) = buf'.drop (n + 2)) : Burst buf buf' where
  length := hlen
  differ := hne
  window := by
    refine ⟨8 * n, fun i hi => ?_⟩
    by_contra hout
    apply hi
    rcases Nat.lt_or_ge i (8 * n) with hlt | hge
    · rw [← getD_bits_take (by omega) hlt, hfront, getD_bits_take (by omega) hlt]
    · obtain ⟨j, rfl⟩ : ∃ j, i = 8 * (n + 2) + j := ⟨i - 8 * (n + 2), by omega⟩
      rw [← getD_bits_drop hn, hback, getD_bits_drop (by omega)]

/-- The defaults, with bits changed in the last byte of the checksum and in the first setting. -/
def overEnd : Store UInt8 256 :=
  factory.eeprom.write 1 [(factory.eeprom.read 1 1).getD 0 0 ^^^ 0x1B, 0x30]

/-- Such a record is taken for a valid one. -/
theorem overEnd_accepted : ¬ ∀ eeprom eeprom', Burst (record eeprom) (record eeprom') →
    Accepts eeprom → ¬ Accepts eeprom' := by
  intro h
  refine h factory.eeprom overEnd (burst_of_bytes (n := 1) ?_ ?_ ?_ ?_ ?_) (accepts_iff.mpr ?_)
    (accepts_iff.mpr ?_)
  all_goals decide +kernel

end MiyakoLink.Config
