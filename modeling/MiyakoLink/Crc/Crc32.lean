import MiyakoLink.Crc.GenericCrc32

/-!
# The checksum of `qCRC`

A step with the table is eight turns of the register, and so is a byte that is written to the CRC
unit as a part of a word.

* `genericCrc32_isCrc32`: the variant with a table computes the remainder of the whole range.
* `genericCrc32Unit_eq`: the variant with the CRC unit returns the same.
-/

namespace MiyakoLink.Crc

open Flash Lib Lib.Crc Polynomial

/-- The CRC-32 of a message: its remainder when the register starts with ones. -/
def IsCrc32 (data : List UInt8) (crc : UInt32) : Prop :=
  toPoly crc.toBitVec =
    (toPoly 0xFFFFFFFF#32 * X ^ (8 * data.length) + ofBits (data.flatMap byteBits) * X ^ 32) %ₘ
      divisor crc32Poly

/-! ## Steps -/

theorem and_msb (v : BitVec 32) : v &&& 0x80000000#32 = 0#32 ↔ v.msb = false := by
  rw [show 0x80000000#32 = BitVec.twoPow 32 31 by decide, BitVec.and_twoPow,
    BitVec.msb_eq_getLsbD_last]
  show (if v.getLsbD 31 = true then _ else _) = _ ↔ v.getLsbD 31 = false
  cases v.getLsbD 31 with
  | false => simp
  | true => simp

theorem crc32Bit_toBitVec (crc : UInt32) :
    (crc32Bit crc).toBitVec = turn crc32Poly crc.toBitVec := by
  have hmask : crc &&& 0x80000000 = 0 ↔ crc.toBitVec.msb = false := by
    rw [← UInt32.toBitVec_inj]
    exact and_msb crc.toBitVec
  unfold crc32Bit turn
  by_cases h : crc &&& 0x80000000 = 0
  · rw [if_neg (not_not.mpr h), if_neg (by rw [hmask.mp h]; exact Bool.false_ne_true)]
    rfl
  · rw [if_pos h, if_pos (by rwa [hmask, Bool.not_eq_false] at h)]
    rfl

theorem crc32Bits_toBitVec (n : Nat) (crc : UInt32) :
    (crc32Bit^[n] crc).toBitVec = (turn crc32Poly)^[n] crc.toBitVec :=
  Function.Semiconj.iterate_right crc32Bit_toBitVec n crc

theorem length_byteBits (b : UInt8) : (byteBits b).length = 8 := by
  rw [byteBits, List.length_map, List.length_range]

/-- Eight turns behind a byte. -/
theorem register_byteBits (crc : UInt32) (b : UInt8) :
    register crc32Poly crc.toBitVec (byteBits b) =
      (crc32Bit^[8] (crc ^^^ (b.toUInt32 <<< (24 : UInt32)))).toBitVec := by
  let v : BitVec 32 := b.toBitVec.setWidth 32 <<< 24
  have hbits : byteBits b = (List.range 8).map v.getMsbD := by
    apply List.map_congr_left
    intro j _
    simp [v, BitVec.getMsbD_setWidth, show 24 ≤ j + 24 by omega]
  have hover : v <<< 8 = 0#32 := by
    rw [← BitVec.shiftLeft_add]
    exact BitVec.shiftLeft_eq_zero (by decide)
  rw [hbits, register_getMsbD, hover, BitVec.xor_zero, crc32Bits_toBitVec]
  rfl

theorem crc32Table_eq (b : UInt8) :
    crc32Table.getD b.toNat 0 = crc32Bit^[8] (b.toUInt32 <<< (24 : UInt32)) := by
  have htable : crc32Table = (List.range 256).map fun n =>
      crc32Bit^[8] ((UInt8.ofNat n).toUInt32 <<< (24 : UInt32)) := by
    decide +kernel
  have hindex := List.getElem?_range b.toNat_lt
  rw [htable, List.getD_eq_getElem?_getD, List.getElem?_map, hindex, Option.map_some,
    Option.getD_some, UInt8.ofNat_toNat]

/-- The byte at the top and what is below it. -/
theorem split_top (v : BitVec 32) (b : BitVec 8) :
    v ^^^ b.setWidth 32 <<< 24 =
      v <<< 8 >>> 8 ^^^ ((v >>> 24).setWidth 8 ^^^ b).setWidth 32 <<< 24 := by
  apply BitVec.eq_of_getLsbD_eq
  intro i hi
  by_cases h : i < 24
  · simp only [BitVec.getLsbD_xor, BitVec.getLsbD_shiftLeft, BitVec.getLsbD_ushiftRight, h]
    simp [hi, show 8 + i < 32 by omega]
  · obtain ⟨j, rfl⟩ : ∃ j, i = 24 + j := ⟨i - 24, by omega⟩
    simp [hi, show ¬ 8 + (24 + j) < 32 by omega, show j < 8 by omega]

/-- What is below the top byte moves up. -/
theorem turns_below {p : BitVec 32} (v : BitVec 32) :
    (turn p)^[8] (v <<< 8 >>> 8) = v <<< 8 := by
  rw [turns_of_shift]
  · apply BitVec.eq_of_getLsbD_eq
    intro i hi
    by_cases h : i < 8
    · simp [h]
    · simp [hi, h, show 8 + (i - 8) = i by omega]
  · intro i hi
    rw [BitVec.msb_eq_getLsbD_last, BitVec.getLsbD_shiftLeft, BitVec.getLsbD_ushiftRight,
      BitVec.getLsbD_shiftLeft]
    simp [show ¬ 8 + (31 - i) < 32 by omega]

theorem crc32Bits_xor (n : Nat) (a b : UInt32) :
    crc32Bit^[n] (a ^^^ b) = crc32Bit^[n] a ^^^ crc32Bit^[n] b := by
  apply UInt32.toBitVec_inj.mp
  rw [crc32Bits_toBitVec, UInt32.toBitVec_xor, turns_xor, UInt32.toBitVec_xor, crc32Bits_toBitVec,
    crc32Bits_toBitVec]

/-- A step with the table takes in a byte. -/
theorem crc32Calc_eq (crc : UInt32) (b : UInt8) :
    crc32Calc crc b = crc32Bit^[8] (crc ^^^ (b.toUInt32 <<< (24 : UInt32))) := by
  have hindex : ((crc >>> 24 ^^^ b.toUInt32) &&& 255).toNat =
      ((crc >>> 24).toUInt8 ^^^ b).toNat := by
    have hmask : ((crc >>> 24 ^^^ b.toUInt32).toNat &&& 255) =
        (crc >>> 24 ^^^ b.toUInt32).toNat % 2 ^ 8 := Nat.and_two_pow_sub_one_eq_mod _ 8
    rw [UInt32.toNat_and, show (255 : UInt32).toNat = 255 from rfl, hmask, UInt32.toNat_xor,
      UInt8.toNat_xor, Nat.xor_mod_two_pow, UInt32.toNat_toUInt8, UInt8.toNat_toUInt32,
      Nat.mod_eq_of_lt b.toNat_lt]
  have hlow : crc32Bit^[8] (crc <<< 8 >>> 8) = crc <<< 8 := by
    apply UInt32.toBitVec_inj.mp
    rw [crc32Bits_toBitVec]
    exact turns_below crc.toBitVec
  have hsplit : crc ^^^ (b.toUInt32 <<< (24 : UInt32)) =
      crc <<< 8 >>> 8 ^^^ (((crc >>> 24).toUInt8 ^^^ b).toUInt32 <<< (24 : UInt32)) :=
    UInt32.toBitVec_inj.mp (split_top crc.toBitVec b.toBitVec)
  rw [crc32Calc, hindex, crc32Table_eq, hsplit, crc32Bits_xor, hlow]

/-! ## Messages -/

theorem foldl_crc32Calc (crc : UInt32) (data : List UInt8) :
    (data.foldl crc32Calc crc).toBitVec =
      register crc32Poly crc.toBitVec (data.flatMap byteBits) := by
  induction data generalizing crc with
  | nil => rfl
  | cons b data ih =>
    rw [List.foldl_cons, ih, List.flatMap_cons, register_append, register_byteBits, crc32Calc_eq]

theorem length_flatMap_byteBits (data : List UInt8) :
    (data.flatMap byteBits).length = 8 * data.length := by
  induction data with
  | nil => rfl
  | cons b data ih =>
    rw [List.flatMap_cons, List.length_append, length_byteBits, ih, List.length_cons]
    omega

theorem isCrc32_iff {data : List UInt8} {crc : UInt32} :
    IsCrc32 data crc ↔ crc = data.foldl crc32Calc 0xFFFFFFFF := by
  have hregister := toPoly_register crc32Poly 0xFFFFFFFF#32 (data.flatMap byteBits)
  rw [length_flatMap_byteBits] at hregister
  rw [IsCrc32, ← hregister, toPoly_injective.eq_iff, ← UInt32.toBitVec_inj, foldl_crc32Calc]
  rfl

/-! ## The variant with a table -/

/-- One of the reads that the range is cut into fails; they are numbered from `k` on. -/
def Reader.AnyFails (T : Reader) (k : Nat) (base len : UInt32) : Prop :=
  ∃ j < (len.toNat + 127) / 128,
    T.fails (k + j) (base + UInt32.ofNat (128 * j)) (min32 128 (len - UInt32.ofNat (128 * j)))

theorem read_eq_none {T : Reader} {k : Nat} {base len : UInt32} :
    T.read k base len = none ↔ T.fails k base len = true := by
  unfold Reader.read
  split
  · rename_i h
    simp [h]
  · rename_i h
    simp [h]

theorem read_eq_some {T : Reader} {k : Nat} {base len : UInt32} {bytes : List UInt8}
    (h : T.read k base len = some bytes) :
    T.fails k base len = false ∧ bytes = readBytes T.mem base len.toNat := by
  unfold Reader.read at h
  split at h
  · contradiction
  · rename_i hfails
    exact ⟨Bool.not_eq_true _ ▸ hfails, (Option.some.inj h).symm⟩

/-- What is left behind a chunk. -/
theorem chunk_rest (n len : UInt32) :
    (len - min32 n len).toNat = len.toNat - (min32 n len).toNat := by
  have hmin := min32_toNat n len
  exact UInt32.toNat_sub_of_le _ _ (UInt32.le_iff_toNat_le.mpr (by omega))

/-- A chunk that something is left behind is a full one. -/
theorem chunk_full (len : UInt32) (h : 128 < len.toNat) : min32 128 len = 128 := by
  apply UInt32.toNat_inj.mp
  have hmin := min32_toNat 128 len
  rw [show (128 : UInt32).toNat = 128 from rfl] at hmin ⊢
  omega

theorem sub_add_eq_sub (a b c : UInt32) : a - (b + c) = a - b - c := by
  apply UInt32.toNat_inj.mp
  have ha := a.toNat_lt
  have hb := b.toNat_lt
  have hc := c.toNat_lt
  simp only [UInt32.toNat_sub, UInt32.toNat_add]
  omega

theorem chunk_offset (j : Nat) : UInt32.ofNat (128 * (j + 1)) = 128 + UInt32.ofNat (128 * j) := by
  rw [Nat.mul_succ, Nat.add_comm, UInt32.ofNat_add]
  rfl

/-- The first read fails, or one of those behind it. -/
theorem anyFails_step {T : Reader} {k : Nat} {base len : UInt32} (hlen : len ≠ 0) :
    T.AnyFails k base len ↔ T.fails k base (min32 128 len) = true ∨
      T.AnyFails (k + 1) (base + min32 128 len) (len - min32 128 len) := by
  have hpos : 0 < len.toNat := Nat.pos_of_ne_zero fun h => hlen (UInt32.toNat_inj.mp h)
  have hrest := chunk_rest 128 len
  have hmin := min32_toNat 128 len
  rw [show (128 : UInt32).toNat = 128 from rfl] at hmin
  have hzero : UInt32.ofNat (128 * 0) = 0 := rfl
  unfold Reader.AnyFails
  constructor
  · rintro ⟨j, hj, hfails⟩
    cases j with
    | zero =>
      rw [hzero, UInt32.add_zero, UInt32.sub_zero] at hfails
      exact Or.inl hfails
    | succ j =>
      have hfull := chunk_full len (by omega)
      rw [chunk_offset, ← UInt32.add_assoc, sub_add_eq_sub] at hfails
      refine Or.inr ⟨j, by omega, ?_⟩
      rw [hfull, Nat.add_assoc, Nat.add_comm 1]
      exact hfails
  · rintro (hfails | ⟨j, hj, hfails⟩)
    · refine ⟨0, by omega, ?_⟩
      rw [hzero, UInt32.add_zero, UInt32.sub_zero]
      exact hfails
    · have hfull := chunk_full len (by omega)
      refine ⟨j + 1, by omega, ?_⟩
      rw [chunk_offset, ← UInt32.add_assoc, sub_add_eq_sub]
      rw [hfull, Nat.add_assoc, Nat.add_comm 1] at hfails
      exact hfails

/-- The bytes of a chunk and those behind it. -/
theorem readBytes_chunk (mem : UInt32 → UInt8) (base : UInt32) {n len : UInt32}
    (h : n.toNat ≤ len.toNat) :
    readBytes mem base len.toNat =
      readBytes mem base n.toNat ++ readBytes mem (base + n) (len - n).toNat := by
  have hsub := UInt32.toNat_sub_of_le _ _ (UInt32.le_iff_toNat_le.mpr h)
  rw [show len.toNat = n.toNat + (len - n).toNat by omega, readBytes_add, UInt32.ofNat_toNat]

theorem crc32Loop_none {T : Reader} {k : Nat} {crc base len : UInt32}
    (h : T.AnyFails k base len) : crc32Loop T k crc base len = none := by
  fun_induction crc32Loop T k crc base len with
  | case1 k crc base =>
    obtain ⟨j, hj, -⟩ := h
    exact absurd hj (Nat.not_lt_zero j)
  | case2 => rfl
  | case3 k crc base len hlen readLen bytes hread ih =>
    have hok := (read_eq_some hread).1
    refine ih (((anyFails_step hlen).mp h).resolve_left ?_)
    rw [hok]
    exact Bool.false_ne_true

theorem crc32Loop_some {T : Reader} {k : Nat} {crc base len : UInt32}
    (h : ¬ T.AnyFails k base len) :
    crc32Loop T k crc base len =
      some ((readBytes T.mem base len.toNat).foldl crc32Calc crc) := by
  fun_induction crc32Loop T k crc base len with
  | case1 => rfl
  | case2 k crc base len hlen readLen hread =>
    exact absurd ((anyFails_step hlen).mpr (Or.inl (read_eq_none.mp hread))) h
  | case3 k crc base len hlen readLen bytes hread ih =>
    obtain ⟨-, rfl⟩ := read_eq_some hread
    have hchunk := chunk_pos (n := 128) (Nat.zero_lt_succ 127) hlen
    rw [ih fun hrest => h ((anyFails_step hlen).mpr (Or.inr hrest)),
      readBytes_chunk T.mem base hchunk.2, List.foldl_append]

/-- `generic_crc32` with the table: the CRC-32 of the range if all reads succeed, and otherwise
an error that leaves the result variable as it is. -/
theorem genericCrc32_isCrc32 (T : Reader) (crcRes base len : UInt32) :
    (T.AnyFails 0 base len →
      (genericCrc32 T crcRes base len).1 ≠ 0 ∧ (genericCrc32 T crcRes base len).2 = crcRes) ∧
    (¬ T.AnyFails 0 base len →
      (genericCrc32 T crcRes base len).1 = 0 ∧
        IsCrc32 (readBytes T.mem base len.toNat) (genericCrc32 T crcRes base len).2) := by
  unfold genericCrc32
  constructor
  · intro h
    rw [crc32Loop_none h]
    exact ⟨show (-1 : Ret) ≠ 0 by decide, rfl⟩
  · intro h
    rw [crc32Loop_some h]
    exact ⟨rfl, isCrc32_iff.mpr rfl⟩

/-! ## The variant with the CRC unit -/

theorem getMsbD_lane (v : UInt32) {k j : Nat} (hk : k < 4) (hj : j < 8) :
    (lane v k).toBitVec.getMsbD j = v.toBitVec.getMsbD (8 * (3 - k) + j) := by
  rw [BitVec.getMsbD_eq_getLsbD, BitVec.getMsbD_eq_getLsbD]
  show (decide (j < 8) && ((v.toNat / 256 ^ k) % 2 ^ 8).testBit (8 - 1 - j)) =
    (decide (8 * (3 - k) + j < 32) && v.toNat.testBit (32 - 1 - (8 * (3 - k) + j)))
  rw [Nat.testBit_mod_two_pow, show (256 : Nat) = 2 ^ 8 from rfl, ← Nat.pow_mul,
    Nat.testBit_div_two_pow]
  simp [hj, show 8 * (3 - k) + j < 32 by omega, show 7 - j < 8 by omega,
    show 7 - j + 8 * k = 31 - (8 * (3 - k) + j) by omega]

theorem wordBits_eq (v : UInt32) :
    wordBits v =
      byteBits (lane v 3) ++ byteBits (lane v 2) ++ byteBits (lane v 1) ++ byteBits (lane v 0) := by
  have hbyte {k : Nat} (hk : k < 4) : byteBits (lane v k) =
      (List.range 8).map fun j => v.toBitVec.getMsbD (8 * (3 - k) + j) := by
    apply List.map_congr_left
    intro j hj
    exact getMsbD_lane v hk (List.mem_range.mp hj)
  rw [hbyte (by decide), hbyte (by decide), hbyte (by decide), hbyte (by decide)]
  show (List.range (8 + 8 + 8 + 8)).map _ = _
  rw [List.range_add, List.range_add, List.range_add]
  simp only [List.map_append, List.map_map]
  rfl

/-- A word that is written to the unit takes in four bytes. -/
theorem crcUnit_eq (dr : UInt32) (b₀ b₁ b₂ b₃ : UInt8) :
    crcUnit dr (bswap32 (ofLanes fun k => [b₀, b₁, b₂, b₃].getD k 0)) =
      [b₀, b₁, b₂, b₃].foldl crc32Calc dr := by
  apply UInt32.toBitVec_inj.mp
  have hlane {k : Nat} (hk : k < 4) :
      lane (bswap32 (ofLanes fun k => [b₀, b₁, b₂, b₃].getD k 0)) k =
        [b₀, b₁, b₂, b₃].getD (3 - k) 0 := by
    rw [bswap32, lane_ofLanes _ hk, lane_ofLanes _ (by omega)]
  rw [foldl_crc32Calc, crcUnit, wordBits_eq, hlane (by decide), hlane (by decide),
    hlane (by decide), hlane (by decide)]
  simp [List.append_assoc]

theorem crcUnitBytes_eq {dr : UInt32} {bytes : List UInt8} (h : 4 ∣ bytes.length) :
    crcUnitBytes dr bytes = bytes.foldl crc32Calc dr := by
  fun_induction crcUnitBytes dr bytes with
  | case1 dr b₀ b₁ b₂ b₃ bytes ih =>
    rw [ih, crcUnit_eq]
    · simp only [List.foldl_cons, List.foldl_nil]
    · simp only [List.length_cons] at h
      omega
  | case2 bytes dr hshort =>
    match bytes, h, hshort with
    | [], _, _ => rfl
    | [_], h, _ => exact absurd (show 4 ∣ 1 from h) (by decide)
    | [_, _], h, _ => exact absurd (show 4 ∣ 2 from h) (by decide)
    | [_, _, _], h, _ => exact absurd (show 4 ∣ 3 from h) (by decide)
    | b₀ :: b₁ :: b₂ :: b₃ :: bytes, _, hshort => exact absurd rfl (hshort b₀ b₁ b₂ b₃ bytes)

theorem crc32Tail_eq (crc : UInt32) (data : List UInt8) :
    crc32Tail crc data = data.foldl crc32Calc crc := by
  unfold crc32Tail
  exact congrArg (fun f => data.foldl f crc) (funext fun c => funext fun b => (crc32Calc_eq c b).symm)

/-! ## Both variants on one memory -/

variable {mem : UInt32 → UInt8} {bad : UInt32 → Bool}

/-- Some byte of the range cannot be read. -/
def anyBad (bad : UInt32 → Bool) (base : UInt32) (n : Nat) : Bool :=
  (List.range n).any fun i => bad (base + UInt32.ofNat i)

theorem anyBad_chunk (bad : UInt32 → Bool) (base : UInt32) {n len : UInt32}
    (h : n.toNat ≤ len.toNat) :
    anyBad bad base len.toNat =
      (anyBad bad base n.toNat || anyBad bad (base + n) (len - n).toNat) := by
  have hsub := UInt32.toNat_sub_of_le _ _ (UInt32.le_iff_toNat_le.mpr h)
  have hoff : (fun i => bad (base + UInt32.ofNat (n.toNat + i))) =
      fun i => bad (base + n + UInt32.ofNat i) := by
    funext i
    rw [UInt32.ofNat_add, UInt32.ofNat_toNat, UInt32.add_assoc]
  rw [show len.toNat = n.toNat + (len - n).toNat by omega]
  unfold anyBad
  rw [List.range_add, List.any_append, List.any_map]
  exact congrArg (fun f => _ || (List.range _).any f) hoff

theorem read_memory (k : Nat) (base len : UInt32) :
    (Reader.ofMemory mem bad).read k base len =
      if anyBad bad base len.toNat then none else some (readBytes mem base len.toNat) := rfl

theorem crc32Loop_memory (mem : UInt32 → UInt8) (bad : UInt32 → Bool) (k : Nat)
    (crc base len : UInt32) :
    crc32Loop (Reader.ofMemory mem bad) k crc base len =
      if anyBad bad base len.toNat then none
      else some ((readBytes mem base len.toNat).foldl crc32Calc crc) := by
  fun_induction crc32Loop (Reader.ofMemory mem bad) k crc base len with
  | case1 => rfl
  | case2 k crc base len hlen readLen hread =>
    have hchunk := chunk_pos (n := 128) (Nat.zero_lt_succ 127) hlen
    have hbad : anyBad bad base readLen.toNat = true := read_eq_none.mp hread
    rw [anyBad_chunk bad base hchunk.2, hbad]
    rfl
  | case3 k crc base len hlen readLen bytes hread ih =>
    have hchunk := chunk_pos (n := 128) (Nat.zero_lt_succ 127) hlen
    obtain ⟨hgood, rfl⟩ : anyBad bad base readLen.toNat = false ∧
      bytes = readBytes mem base readLen.toNat := read_eq_some hread
    rw [ih, anyBad_chunk bad base hchunk.2, hgood, Bool.false_or,
      readBytes_chunk mem base hchunk.2, List.foldl_append]

/-- The words and the bytes that are left, if they can be read. -/
theorem crc32UnitLoop_memory (mem : UInt32 → UInt8) (bad : UInt32 → Bool) (k : Nat)
    (dr base len : UInt32) :
    ((crc32UnitLoop (Reader.ofMemory mem bad) k dr base len).bind fun (k, dr, base, len) =>
        ((Reader.ofMemory mem bad).read k base len).map (crc32Tail dr)) =
      if anyBad bad base len.toNat then none
      else some ((readBytes mem base len.toNat).foldl crc32Calc dr) := by
  fun_induction crc32UnitLoop (Reader.ofMemory mem bad) k dr base len with
  | case1 k dr base len hlen readLen hread =>
    have hbad : anyBad bad base readLen.toNat = true := read_eq_none.mp hread
    rw [anyBad_chunk bad base (words_pos hlen).2, hbad]
    rfl
  | case2 k dr base len hlen readLen bytes hread ih =>
    obtain ⟨hgood, rfl⟩ : anyBad bad base readLen.toNat = false ∧
      bytes = readBytes mem base readLen.toNat := read_eq_some hread
    have hwords : 4 ∣ (readBytes mem base readLen.toNat).length := by
      rw [readBytes_length, and_not_toNat (k := 2) (m := 30) _ rfl rfl]
      exact Nat.dvd_mul_right 4 _
    rw [ih, anyBad_chunk bad base (words_pos hlen).2, hgood, Bool.false_or,
      readBytes_chunk mem base (words_pos hlen).2, List.foldl_append, crcUnitBytes_eq hwords]
  | case3 k dr base len hlen =>
    rw [Option.bind_some]
    dsimp only
    rw [read_memory]
    split
    · rfl
    · rw [Option.map_some, crc32Tail_eq]

/-- The variant with the CRC unit returns what the one with the table does. -/
theorem genericCrc32Unit_eq (mem : UInt32 → UInt8) (bad : UInt32 → Bool)
    (crcRes base len : UInt32) :
    genericCrc32Unit (Reader.ofMemory mem bad) crcRes base len =
      genericCrc32 (Reader.ofMemory mem bad) crcRes base len := by
  have hunit := crc32UnitLoop_memory mem bad 0 0xFFFFFFFF base len
  have htable := crc32Loop_memory mem bad 0 0xFFFFFFFF base len
  rw [← htable] at hunit
  unfold genericCrc32Unit genericCrc32
  rw [← hunit]
  cases crc32UnitLoop (Reader.ofMemory mem bad) 0 0xFFFFFFFF base len with
  | none => rfl
  | some s =>
    obtain ⟨k, dr, base, len⟩ := s
    dsimp only [Option.bind_some]
    cases (Reader.ofMemory mem bad).read k base len with
    | none => rfl
    | some bytes => rfl

end MiyakoLink.Crc
