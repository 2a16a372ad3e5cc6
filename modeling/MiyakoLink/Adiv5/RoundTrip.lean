import MiyakoLink.Adiv5.Mem

/-!
# What was written to target memory is read back

Both loops keep the transfer address of the access port at the address of the next unit: it is
incremented within a page, and loaded again where the pointer enters the next page. A turn of
the one writes the bytes of a unit, a turn of the other reads them.

* `memWrite_memRead`: what `adiv5_mem_write` has written to a range, `adiv5_mem_read` reads
  back, and nothing outside of the range is changed.
-/

namespace MiyakoLink.Adiv5

open Lib

/-! ## Masks -/

theorem or_and_distrib (x y m : UInt32) : (x ||| y) &&& m = x &&& m ||| y &&& m := by
  apply UInt32.toBitVec_inj.mp
  exact BitVec.and_or_distrib_right

theorem xor_and_eq_zero (x y m : UInt32) : (x ^^^ y) &&& m = 0 ↔ x &&& m = y &&& m := by
  have h : (x ^^^ y) &&& m = x &&& m ^^^ y &&& m := by
    apply UInt32.toBitVec_inj.mp
    apply BitVec.eq_of_getLsbD_eq
    intro i hi
    simp
    grind
  rw [h]
  exact UInt32.xor_eq_zero_iff

/-! ## Pages -/

/-- Two addresses are in one page. -/
theorem page_iff (x y : UInt32) :
    x &&& pageMask = y &&& pageMask ↔ x.toNat / 1024 = y.toNat / 1024 := by
  have hbit : ∀ i < 32, BitVec.getLsbD 4294966272#32 i = decide (10 ≤ i) := by decide
  have hkeep : ∀ z : UInt32, (z &&& pageMask) >>> 10 = z >>> 10 := by
    intro z
    apply UInt32.toBitVec_inj.mp
    apply BitVec.eq_of_getLsbD_eq
    intro i hi
    simp
    grind
  have hback : ∀ z : UInt32, (z >>> 10) <<< 10 = z &&& pageMask := by
    intro z
    apply UInt32.toBitVec_inj.mp
    apply BitVec.eq_of_getLsbD_eq
    intro i hi
    simp
    grind
  have hdiv : ∀ z : UInt32, (z >>> 10).toNat = z.toNat / 1024 := by
    intro z
    rw [UInt32.toNat_shiftRight]
    exact Nat.shiftRight_eq_div_pow _ 10
  constructor
  · intro h
    rw [← hdiv, ← hdiv, ← hkeep x, h, hkeep]
  · intro h
    rw [← hdiv, ← hdiv] at h
    rw [← hback, ← hback, UInt32.toNat_inj.mp h]

/-! ## Alignment -/

theorem and_three (x : UInt32) : (x &&& 3).toNat = x.toNat % 4 := by
  rw [UInt32.toNat_and]
  exact Nat.and_two_pow_sub_one_eq_mod x.toNat 2

theorem and_one (x : UInt32) : (x &&& 1).toNat = x.toNat % 2 := by
  rw [UInt32.toNat_and]
  exact Nat.and_two_pow_sub_one_eq_mod x.toNat 1

/-- Bit 1 of an even number. -/
theorem and_two {x : UInt32} (h : x.toNat % 2 = 0) : (x &&& 2).toNat = x.toNat % 4 := by
  have hsplit : x &&& 3 = (x &&& 1) ||| (x &&& 2) := by
    rw [UInt32.and_comm x 1, UInt32.and_comm x 2, ← or_and_distrib, UInt32.and_comm]
    rfl
  have hone : x &&& 1 = 0 := UInt32.toNat_inj.mp ((and_one x).trans h)
  rw [← and_three, hsplit, hone, UInt32.zero_or]

theorem alignof_spec (x : UInt32) : x.toNat % (alignof x).step.toNat = 0 := by
  unfold alignof
  split
  · rename_i h
    exact (and_three x).symm.trans (congrArg UInt32.toNat h)
  · split
    · rename_i h
      exact (and_one x).symm.trans (congrArg UInt32.toNat h)
    · exact Nat.mod_one _

theorem alignof_ne_dword (x : UInt32) : alignof x ≠ .dword := by
  unfold alignof
  split
  · exact Align.noConfusion
  · split
    · exact Align.noConfusion
    · exact Align.noConfusion

theorem minAlign_ne_dword (x y : UInt32) : minAlign (alignof x) (alignof y) ≠ .dword := by
  unfold minAlign
  split
  · exact alignof_ne_dword x
  · exact alignof_ne_dword y

theorem minAlign_dvd (a b : Align) :
    (minAlign a b).step.toNat ∣ a.step.toNat ∧ (minAlign a b).step.toNat ∣ b.step.toNat := by
  cases a <;> cases b <;> decide

/-- Both an address and a length are multiples of the access size that is chosen for them. -/
theorem minAlign_spec (x y : UInt32) :
    x.toNat % (minAlign (alignof x) (alignof y)).step.toNat = 0 ∧
      y.toNat % (minAlign (alignof x) (alignof y)).step.toNat = 0 := by
  obtain ⟨hx, hy⟩ := minAlign_dvd (alignof x) (alignof y)
  exact ⟨Nat.mod_eq_zero_of_dvd (Nat.dvd_trans hx (Nat.dvd_of_mod_eq_zero (alignof_spec x))),
    Nat.mod_eq_zero_of_dvd (Nat.dvd_trans hy (Nat.dvd_of_mod_eq_zero (alignof_spec y)))⟩

/-- The steps of the three access sizes. -/
theorem step_cases {align : Align} (h : align ≠ .dword) :
    align.step = 1 ∨ align.step = 2 ∨ align.step = 4 := by
  cases align with
  | byte => exact .inl rfl
  | halfword => exact .inr (.inl rfl)
  | word => exact .inr (.inr rfl)
  | dword => exact absurd rfl h

theorem step_pos (align : Align) : 0 < align.step.toNat := by
  cases align <;> decide

theorem shiftRight_code {align : Align} (h : align ≠ .dword) (len : UInt32) :
    (len >>> align.code).toNat = len.toNat / align.step.toNat := by
  rw [UInt32.toNat_shiftRight]
  cases align with
  | byte => exact (Nat.div_one _).symm
  | halfword => exact Nat.shiftRight_eq_div_pow _ 1
  | word => exact Nat.shiftRight_eq_div_pow _ 2
  | dword => exact absurd rfl h

/-- The units of an aligned length. -/
theorem unit_count {align : Align} (h : align ≠ .dword) {len : UInt32}
    (haligned : len.toNat % align.step.toNat = 0) :
    (len >>> align.code).toNat * align.step.toNat = len.toNat := by
  rw [shiftRight_code h, Nat.mul_comm]
  exact Nat.mul_div_cancel' (Nat.dvd_of_mod_eq_zero haligned)

/-- The units but the last one, and the last one. -/
theorem last_unit {align : Align} (h : align ≠ .dword) {len : UInt32} (hne : len ≠ 0)
    (haligned : len.toNat % align.step.toNat = 0) :
    (len >>> align.code - 1).toNat * align.step.toNat + align.step.toNat = len.toNat := by
  have hcount := unit_count h haligned
  have hpos : 0 < (len >>> align.code).toNat := by
    by_contra hnot
    rw [Nat.le_zero.mp (Nat.not_lt.mp hnot), Nat.zero_mul] at hcount
    exact hne (UInt32.toNat_inj.mp hcount.symm)
  have hturns : (len >>> align.code - 1).toNat = (len >>> align.code).toNat - 1 :=
    UInt32.toNat_sub_of_le _ _ (UInt32.le_iff_toNat_le.mpr hpos)
  rw [← hcount, hturns, ← Nat.succ_mul, Nat.succ_eq_add_one, Nat.sub_add_cancel hpos]

/-! ## The access port -/

/-- The access port is set up for accesses of the given size at successive addresses. -/
structure Ready (ap : Ap) (align : Align) (m : MemAp) : Prop where
  select : m.select = ap.apsel.toUInt32 <<< 24
  width : m.width = align.step
  increment : m.csw &&& 0x30 = 0x10

section
variable {H : Hw} {ap : Ap} {align : Align} {m : MemAp} {addr : UInt32}

/-- `ap_mem_access_setup` loads three registers. -/
theorem setup_eq (align : Align) (addr : UInt32) : ∃ size : UInt32,
    apMemAccessSetup H ap addr align m =
      { m with
        select := ap.apsel.toUInt32 <<< 24
        csw := ap.csw ||| 0x10 ||| size
        tar := addr } ∧
    size &&& 0x30 = 0 ∧
    (align ≠ .dword → (if size &&& 7 = 0 then 1 else if size &&& 7 = 1 then 2 else 4) = align.step) := by
  have hwrite : ∀ csw, apWrite H ap apCsw csw m =
      { m with select := ap.apsel.toUInt32 <<< 24, csw := csw } := by
    intro csw
    have hbank : (apCsw &&& 0xF0).toUInt32 = 0 := by decide
    rw [apWrite, MemAp.lowWrite_select, hbank, UInt32.or_zero]
    apply MemAp.lowWrite_csw
    rfl
  have htar : ∀ csw, (apWrite H ap apCsw csw m).lowWrite H ap.apsel apTar addr =
      { m with select := ap.apsel.toUInt32 <<< 24, csw := csw, tar := addr } := by
    intro csw
    rw [hwrite]
    apply MemAp.lowWrite_tar
    rfl
  cases align with
  | byte => exact ⟨0, htar _, by decide, by decide⟩
  | halfword => exact ⟨1, htar _, by decide, by decide⟩
  | word => exact ⟨2, htar _, by decide, by decide⟩
  | dword => exact ⟨2, htar _, by decide, by decide⟩

theorem setup_spec (halign : align ≠ .dword) (addr : UInt32) :
    Ready ap align (apMemAccessSetup H ap addr align m) ∧
      (apMemAccessSetup H ap addr align m).tar = addr ∧
      (apMemAccessSetup H ap addr align m).mem = m.mem := by
  obtain ⟨size, hsetup, hsize, hstep⟩ := @setup_eq H ap m align addr
  have hclear : ∀ k : UInt32, 0x37 &&& k = k → ap.csw &&& k = 0 := by
    intro k hk
    rw [← hk, ← UInt32.and_assoc, ap.csw_clear, UInt32.zero_and]
  rw [hsetup]
  refine ⟨⟨rfl, ?_, ?_⟩, rfl, rfl⟩
  · have hbits : (ap.csw ||| 0x10 ||| size) &&& 7 = size &&& 7 := by
      rw [or_and_distrib, or_and_distrib, hclear 7 (by decide),
        show (0x10 : UInt32) &&& 7 = 0 by decide, UInt32.or_zero, UInt32.zero_or]
    rw [MemAp.width, hbits]
    exact hstep halign
  · rw [or_and_distrib, or_and_distrib, hclear 0x30 (by decide), hsize]
    decide

/-- An access does not cross a word. -/
theorem lane_index {x : UInt32} {k : Nat} (halign : align ≠ .dword)
    (haligned : x.toNat % align.step.toNat = 0) (hk : k < align.step.toNat) :
    ((x + UInt32.ofNat k) &&& 3).toNat = x.toNat % 4 + k ∧ x.toNat % 4 + k < 4 := by
  rw [and_three, UInt32.toNat_add, UInt32.toNat_ofNat']
  rcases step_cases halign with h | h | h
  · rw [h, show (1 : UInt32).toNat = 1 from rfl] at haligned hk
    omega
  · rw [h, show (2 : UInt32).toNat = 2 from rfl] at haligned hk
    omega
  · rw [h, show (4 : UInt32).toNat = 4 from rfl] at haligned hk
    omega

theorem Ready.unit (h : Ready ap align m) (halign : align ≠ .dword)
    (haligned : m.tar.toNat % align.step.toNat = 0) : m.unit = m.tar := by
  have hzero : m.tar &&& (align.step - 1) = 0 := by
    apply UInt32.toNat_inj.mp
    rcases step_cases halign with hs | hs | hs
    · rw [hs]
      exact congrArg UInt32.toNat UInt32.and_zero
    · rw [hs] at haligned ⊢
      exact (and_one m.tar).trans haligned
    · rw [hs] at haligned ⊢
      exact (and_three m.tar).trans haligned
  rw [MemAp.unit, h.width, hzero, UInt32.sub_zero]

theorem Ready.nextTar (h : Ready ap align m)
    (hpage : (m.tar + align.step) &&& pageMask = m.tar &&& pageMask) :
    m.nextTar H = m.tar + align.step := by
  rw [MemAp.nextTar, if_neg (not_not.mpr h.increment), h.width, if_pos hpage]

/-! ## Byte lanes -/

theorem byte_shift (x : UInt32) : ((x &&& 3) <<< 3).toNat = 8 * (x.toNat % 4) := by
  rw [UInt32.toNat_shiftLeft, and_three, Nat.shiftLeft_eq]
  show x.toNat % 4 * 8 % 2 ^ 32 = 8 * (x.toNat % 4)
  omega

theorem halfword_shift {x : UInt32} (h : x.toNat % 2 = 0) :
    ((x &&& 2) <<< 3).toNat = 8 * (x.toNat % 4) := by
  rw [UInt32.toNat_shiftLeft, and_two h, Nat.shiftLeft_eq]
  show x.toNat % 4 * 8 % 2 ^ 32 = 8 * (x.toNat % 4)
  omega

/-- The lanes of what is written hold the bytes of the buffer. -/
theorem pack_lane (ram : Mem32) (src : UInt32) {dest : UInt32} {k : Nat} (halign : align ≠ .dword)
    (haligned : dest.toNat % align.step.toNat = 0) (hk : k < align.step.toNat) :
    lane (pack ram src dest align) (dest.toNat % 4 + k) = ram (src + UInt32.ofNat k) := by
  obtain ⟨-, hlane⟩ := lane_index halign haligned hk
  have hbyte : ∀ b : UInt8, lane b.toUInt32 0 = b := by
    intro b
    apply UInt8.toNat_inj.mp
    have hb := b.toNat_lt
    rw [lane, UInt8.toNat_ofNat', UInt8.toNat_toUInt32]
    omega
  cases align with
  | byte =>
    obtain rfl : k = 0 := Nat.lt_one_iff.mp hk
    rw [pack, Nat.add_comm, lane_shiftLeft (byte_shift dest) (by omega), hbyte]
    exact congrArg ram (UInt32.add_zero src).symm
  | halfword =>
    have hk : k < 2 := hk
    have hlow : lane ((ram src).toUInt32 ||| (ram (src + 1)).toUInt32 <<< 8) k =
        ram (src + UInt32.ofNat k) := by
      have h0 := (ram src).toNat_lt
      have h1 := (ram (src + 1)).toNat_lt
      have hsum : ((ram src).toUInt32 ||| (ram (src + 1)).toUInt32 <<< 8).toNat =
          (ram (src + 1)).toNat * 256 + (ram src).toNat := by
        have hshift : ((ram (src + 1)).toUInt32 <<< 8).toNat = (ram (src + 1)).toNat <<< 8 := by
          rw [UInt32.toNat_shiftLeft, UInt8.toNat_toUInt32]
          apply Nat.mod_eq_of_lt
          rw [Nat.shiftLeft_eq]
          show (ram (src + 1)).toNat * 256 < 2 ^ 32
          omega
        rw [UInt32.toNat_or, hshift, UInt8.toNat_toUInt32, Nat.or_comm,
          ← Nat.shiftLeft_add_eq_or_of_lt h0, Nat.shiftLeft_eq]
      apply UInt8.toNat_inj.mp
      rw [lane, UInt8.toNat_ofNat', hsum]
      obtain rfl | rfl : k = 0 ∨ k = 1 := by omega
      · rw [show src + UInt32.ofNat 0 = src from UInt32.add_zero src]
        omega
      · show _ = (ram (src + 1)).toNat
        omega
    rw [pack, Nat.add_comm, lane_shiftLeft (halfword_shift haligned) (by omega), hlow]
  | word =>
    have haligned : dest.toNat % 4 = 0 := haligned
    rw [haligned, Nat.zero_add, pack, lane_ofLanes _ (by omega)]
  | dword => exact absurd rfl halign

/-- The lanes of what is fetched hold the bytes of the memory. -/
theorem Ready.fetch_lane (h : Ready ap align m) (halign : align ≠ .dword)
    (haligned : m.tar.toNat % align.step.toNat = 0) {k : Nat} (hk : k < align.step.toNat) :
    lane (m.fetch H) (m.tar.toNat % 4 + k) = m.mem (m.tar + UInt32.ofNat k) := by
  obtain ⟨-, hlane⟩ := lane_index halign haligned hk
  have haddr : m.tar - (m.tar &&& 3) + UInt32.ofNat (m.tar.toNat % 4 + k) =
      m.tar + UInt32.ofNat k := by
    rw [UInt32.ofNat_add, ← and_three, UInt32.ofNat_toNat, ← UInt32.add_assoc,
      UInt32.sub_add_cancel]
  have hinside : m.tar + UInt32.ofNat k - m.unit < m.width := by
    rw [h.unit halign haligned, h.width, UInt32.lt_iff_toNat_lt, add_sub_toNat (by omega)]
    exact hk
  rw [MemAp.fetch, lane_ofLanes _ hlane]
  dsimp only
  rw [haddr, if_pos hinside]

/-- Read data is taken from the lanes that hold it. -/
theorem extract_eq {mem ram : Mem32} {dest src val : UInt32} (halign : align ≠ .dword)
    (haligned : src.toNat % align.step.toNat = 0)
    (hval : ∀ k < align.step.toNat, lane val (src.toNat % 4 + k) = mem (src + UInt32.ofNat k)) :
    extract ram dest src val align =
      (overlay ram dest (readBytes mem src align.step.toNat), dest + align.step) := by
  refine Prod.ext ?_ rfl
  cases align with
  | byte =>
    have hbyte : ((val >>> ((src &&& 3) <<< 3)) &&& 0xFF).toUInt8 = mem (src + UInt32.ofNat 0) := by
      rw [← lane_zero, lane_shiftRight (byte_shift src) (by omega), Nat.add_comm]
      exact hval 0 (by decide)
    show overlay ram dest [_] = overlay ram dest [_]
    rw [hbyte]
  | halfword =>
    have haligned : src.toNat % 2 = 0 := haligned
    have hlane : ∀ k < 2, lane ((val >>> ((src &&& 2) <<< 3)) &&& 0xFFFF) k =
        mem (src + UInt32.ofNat k) := by
      intro k hk
      rw [lane_and _ hk, lane_shiftRight (halfword_shift haligned) (by omega), Nat.add_comm]
      exact hval k hk
    show overlay ram dest [_, _] = overlay ram dest [_, _]
    rw [hlane 0 (by decide), hlane 1 (by decide)]
  | word =>
    have haligned : src.toNat % 4 = 0 := haligned
    have hlane : ∀ k < 4, lane val k = mem (src + UInt32.ofNat k) := by
      intro k hk
      rw [← hval k hk, haligned, Nat.zero_add]
    show overlay ram dest [_, _, _, _] = overlay ram dest [_, _, _, _]
    rw [hlane 0 (by decide), hlane 1 (by decide), hlane 2 (by decide), hlane 3 (by decide)]
  | dword => exact absurd rfl halign

/-! ## The loop of the write -/

theorem add_step_aligned {x : UInt32} (halign : align ≠ .dword)
    (haligned : x.toNat % align.step.toNat = 0) :
    (x + align.step).toNat % align.step.toNat = 0 := by
  rw [UInt32.toNat_add]
  rcases step_cases halign with h | h | h
  · rw [h, show (1 : UInt32).toNat = 1 from rfl] at haligned ⊢
    omega
  · rw [h, show (2 : UInt32).toNat = 2 from rfl] at haligned ⊢
    omega
  · rw [h, show (4 : UInt32).toNat = 4 from rfl] at haligned ⊢
    omega

/-- Between two turns the transfer address is that of the next unit. -/
structure Writing (ap : Ap) (align : Align) (s : WriteState) : Prop where
  ready : Ready ap align s.ap
  tar : s.ap.tar = s.dest
  aligned : s.dest.toNat % align.step.toNat = 0
  page : s.dest &&& pageMask = s.odest &&& pageMask

theorem Writing.turn {ram : Mem32} {s : WriteState} (h : Writing ap align s)
    (halign : align ≠ .dword) :
    Writing ap align (writeTurn H ap ram align s) ∧
      (writeTurn H ap ram align s).src = s.src + align.step ∧
      (writeTurn H ap ram align s).dest = s.dest + align.step ∧
      (writeTurn H ap ram align s).ap.mem =
        overlay s.ap.mem s.dest (readBytes ram s.src align.step.toNat) := by
  obtain ⟨hready, htar, haligned, hpage⟩ := h
  have haligned' := add_step_aligned halign haligned
  have hunit : s.ap.unit = s.dest := by
    rw [hready.unit halign (by rw [htar]; exact haligned), htar]
  have hdrw : s.ap.lowWrite H ap.apsel apDrw (pack ram s.src s.dest align) =
      { s.ap with
        mem := overlay s.ap.mem s.dest (readBytes ram s.src align.step.toNat)
        tar := s.ap.nextTar H } := by
    rw [MemAp.lowWrite_drw hready.select, MemAp.writeDrw, hunit, hready.width]
    congr 2
    apply List.map_congr_left
    intro k hk
    have hk := List.mem_range.mp hk
    rw [(lane_index halign haligned hk).1]
    exact pack_lane ram s.src halign haligned hk
  unfold writeTurn
  dsimp only
  rw [hdrw]
  by_cases hcross : (s.dest + align.step ^^^ s.odest) &&& pageMask = 0
  · rw [if_neg (not_not.mpr hcross)]
    have hsame := (xor_and_eq_zero _ _ _).mp hcross
    refine ⟨⟨⟨hready.select, hready.width, hready.increment⟩, ?_, haligned', hsame⟩, rfl, rfl, rfl⟩
    show s.ap.nextTar H = s.dest + align.step
    rw [hready.nextTar (by rw [htar, hsame, hpage]), htar]
  · rw [if_pos hcross, MemAp.lowWrite_tar]
    · exact ⟨⟨⟨hready.select, hready.width, hready.increment⟩, rfl, haligned', rfl⟩, rfl, rfl, rfl⟩
    · exact hready.select

/-- The run of the loop: `n` units have been written. -/
theorem Writing.run {ram : Mem32} {s : WriteState} (h : Writing ap align s)
    (halign : align ≠ .dword) (n : Nat) (hsize : n * align.step.toNat ≤ 2 ^ 32) :
    Writing ap align ((writeTurn H ap ram align)^[n] s) ∧
      ((writeTurn H ap ram align)^[n] s).src = s.src + UInt32.ofNat (n * align.step.toNat) ∧
      ((writeTurn H ap ram align)^[n] s).dest = s.dest + UInt32.ofNat (n * align.step.toNat) ∧
      ((writeTurn H ap ram align)^[n] s).ap.mem =
        overlay s.ap.mem s.dest (readBytes ram s.src (n * align.step.toNat)) := by
  induction n with
  | zero =>
    rw [Nat.zero_mul]
    exact ⟨h, (UInt32.add_zero _).symm, (UInt32.add_zero _).symm, rfl⟩
  | succ n ih =>
    rw [Nat.succ_mul] at hsize ⊢
    obtain ⟨hinv, hsrc, hdest, hmem⟩ := ih (by omega)
    obtain ⟨hinv', hsrc', hdest', hmem'⟩ := @Writing.turn H ap align ram _ hinv halign
    rw [Function.iterate_succ_apply', hsrc', hdest', hmem', hsrc, hdest, hmem]
    refine ⟨hinv', ?_, ?_, ?_⟩
    · rw [UInt32.ofNat_add, UInt32.ofNat_toNat, UInt32.add_assoc]
    · rw [UInt32.ofNat_add, UInt32.ofNat_toNat, UInt32.add_assoc]
    · have hpos := step_pos align
      exact overlay_readBytes_add _ _ _ _ (by omega) hsize

/-! ## The loop of the read -/

/-- Between two turns the unit at `src` has been fetched, and the transfer address is that of
the next one if it is in the same page. -/
structure Reading (ap : Ap) (align : Align) (s : ReadState) : Prop where
  ready : Ready ap align s.ap
  fetched : ∀ k < align.step.toNat,
    lane s.ap.rdbuff (s.src.toNat % 4 + k) = s.ap.mem (s.src + UInt32.ofNat k)
  tar : (s.src + align.step) &&& pageMask = s.src &&& pageMask → s.ap.tar = s.src + align.step
  aligned : s.src.toNat % align.step.toNat = 0
  page : s.src &&& pageMask = s.osrc &&& pageMask

/-- A read of `DRW` at `src` leaves the loop of the read between two turns. -/
theorem Ready.reading {ram : Mem32} {dest src osrc rdbuff : UInt32} (h : Ready ap align m)
    (halign : align ≠ .dword) (htar : m.tar = src) (haligned : src.toNat % align.step.toNat = 0)
    (hpage : src &&& pageMask = osrc &&& pageMask) (hrdbuff : rdbuff = m.fetch H) :
    Reading ap align
      ⟨ram, dest, src, osrc, { m with rdbuff := rdbuff, tar := m.nextTar H }⟩ := by
  subst htar
  constructor
  case ready => exact ⟨h.select, h.width, h.increment⟩
  case fetched =>
    intro k hk
    rw [hrdbuff]
    exact h.fetch_lane halign haligned hk
  case tar => exact fun hsame => h.nextTar hsame
  case aligned => exact haligned
  case page => exact hpage

theorem Reading.turn {s : ReadState} (h : Reading ap align s) (halign : align ≠ .dword) :
    Reading ap align (readTurn H ap align s) ∧
      (readTurn H ap align s).src = s.src + align.step ∧
      (readTurn H ap align s).dest = s.dest + align.step ∧
      (readTurn H ap align s).ram =
        overlay s.ram s.dest (readBytes s.ap.mem s.src align.step.toNat) ∧
      (readTurn H ap align s).ap.mem = s.ap.mem := by
  obtain ⟨hready, hfetched, htar, haligned, hpage⟩ := h
  have haligned' := add_step_aligned halign haligned
  unfold readTurn
  rw [MemAp.lowRead_drw hready.select]
  dsimp only
  rw [extract_eq halign haligned hfetched]
  dsimp only
  by_cases hcross : (s.src + align.step ^^^ s.osrc) &&& pageMask = 0
  · rw [if_neg (not_not.mpr hcross)]
    have hsame := (xor_and_eq_zero _ _ _).mp hcross
    exact ⟨hready.reading halign (htar (by rw [hsame, hpage])) haligned' hsame rfl,
      rfl, rfl, rfl, rfl⟩
  · have hready' : Ready ap align
        { s.ap with rdbuff := s.ap.fetch H, tar := s.src + align.step } :=
      ⟨hready.select, hready.width, hready.increment⟩
    have hload : MemAp.lowWrite H ap.apsel apTar (s.src + align.step)
        { s.ap with rdbuff := s.ap.fetch H, tar := s.ap.nextTar H } =
        { s.ap with rdbuff := s.ap.fetch H, tar := s.src + align.step } := by
      apply MemAp.lowWrite_tar
      exact hready.select
    rw [if_pos hcross, hload, MemAp.lowRead_drw hready'.select]
    exact ⟨hready'.reading halign rfl haligned' rfl rfl, rfl, rfl, rfl, rfl⟩

/-- The run of the loop: `n` units have been stored. -/
theorem Reading.run {s : ReadState} (h : Reading ap align s) (halign : align ≠ .dword) (n : Nat)
    (hsize : n * align.step.toNat ≤ 2 ^ 32) :
    Reading ap align ((readTurn H ap align)^[n] s) ∧
      ((readTurn H ap align)^[n] s).src = s.src + UInt32.ofNat (n * align.step.toNat) ∧
      ((readTurn H ap align)^[n] s).dest = s.dest + UInt32.ofNat (n * align.step.toNat) ∧
      ((readTurn H ap align)^[n] s).ram =
        overlay s.ram s.dest (readBytes s.ap.mem s.src (n * align.step.toNat)) ∧
      ((readTurn H ap align)^[n] s).ap.mem = s.ap.mem := by
  induction n with
  | zero =>
    rw [Nat.zero_mul]
    exact ⟨h, (UInt32.add_zero _).symm, (UInt32.add_zero _).symm, rfl, rfl⟩
  | succ n ih =>
    rw [Nat.succ_mul] at hsize ⊢
    obtain ⟨hinv, hsrc, hdest, hram, hmem⟩ := ih (by omega)
    obtain ⟨hinv', hsrc', hdest', hram', hmem'⟩ := hinv.turn (H := H) halign
    rw [Function.iterate_succ_apply', hsrc', hdest', hram', hmem', hsrc, hdest, hram, hmem]
    refine ⟨hinv', ?_, ?_, ?_, rfl⟩
    · rw [UInt32.ofNat_add, UInt32.ofNat_toNat, UInt32.add_assoc]
    · rw [UInt32.ofNat_add, UInt32.ofNat_toNat, UInt32.add_assoc]
    · have hpos := step_pos align
      exact overlay_readBytes_add _ _ _ _ (by omega) hsize

/-- `firmware_mem_write_sized` writes the buffer to the range. -/
theorem memWriteSized_mem {ram : Mem32} {dest src len : UInt32} (halign : align ≠ .dword)
    (hdest : dest.toNat % align.step.toNat = 0) (hlen : len.toNat % align.step.toNat = 0) :
    (memWriteSized H ap dest src len align ram m).mem =
      overlay m.mem dest (readBytes ram src len.toNat) := by
  obtain ⟨hready, htar, hmem⟩ := @setup_spec H ap align m halign dest
  have hcount := unit_count halign hlen
  have hwriting : Writing ap align ⟨src, dest, dest, apMemAccessSetup H ap dest align m⟩ :=
    ⟨hready, htar, hdest, rfl⟩
  have hl := len.toNat_lt
  have hrun := (@Writing.run H ap align ram _ hwriting halign (len >>> align.code).toNat
    (by omega)).2.2.2
  rw [hcount] at hrun
  exact hrun.trans (congrArg (fun mem => overlay mem dest _) hmem)

/-- `adiv5_mem_write` writes the buffer to the range. -/
theorem memWrite_mem {ram : Mem32} {dest src len : UInt32} :
    (memWrite H ap dest src len ram m).mem =
      overlay m.mem dest (readBytes ram src len.toNat) := by
  obtain ⟨hdest, hlen⟩ := minAlign_spec dest len
  exact memWriteSized_mem (minAlign_ne_dword dest len) hdest hlen

/-- `adiv5_mem_read` reads the range to the buffer, and changes no memory. -/
theorem memRead_spec {ram : Mem32} {dest src len : UInt32} :
    (memRead H ap dest src len ram m).1 = overlay ram dest (readBytes m.mem src len.toNat) ∧
      (memRead H ap dest src len ram m).2.mem = m.mem := by
  have halign := minAlign_ne_dword src len
  obtain ⟨haddr, hlen⟩ := minAlign_spec src len
  unfold memRead
  generalize minAlign (alignof src) (alignof len) = align at *
  dsimp only
  by_cases hzero : len = 0
  · rw [if_pos hzero, hzero]
    exact ⟨rfl, rfl⟩
  rw [if_neg hzero]
  obtain ⟨hready, htar, hmem⟩ := @setup_spec H ap align m halign src
  have hreading : Reading ap align ⟨ram, dest, src, src,
      ((apMemAccessSetup H ap src align m).lowRead H ap.apsel apDrw).2⟩ := by
    rw [MemAp.lowRead_drw hready.select]
    exact hready.reading halign htar haddr rfl rfl
  -- The last unit is read after the loop.
  have hlast := last_unit halign hzero hlen
  have hl := len.toNat_lt
  obtain ⟨hinv, hsrc, hdest, hram, hmem'⟩ :=
    hreading.run (H := H) halign (len >>> align.code - 1).toNat (by omega)
  rw [MemAp.lowRead_rdbuff]
  dsimp only
  rw [extract_eq halign hinv.aligned hinv.fetched, hsrc, hdest, hram, hmem']
  have hmem₀ : ((apMemAccessSetup H ap src align m).lowRead H ap.apsel apDrw).2.mem = m.mem := by
    rw [MemAp.lowRead_drw hready.select]
    exact hmem
  have hpos' := step_pos align
  have happend := overlay_readBytes_add ram m.mem dest src
    (m := (len >>> align.code - 1).toNat * align.step.toNat) (n := align.step.toNat)
    (by omega) (by omega)
  rw [hlast] at happend
  rw [hmem₀]
  exact ⟨happend, rfl⟩

end

/-- A write of any bytes to a range that does not wrap, from the buffer `src`, and a read of the
same range into the buffer `dest`. -/
theorem memWrite_memRead (H : Hw) (ap : Ap) (m : MemAp) (ram : Mem32) (addr src dest : UInt32)
    (data : List UInt8) (hsize : data.length < 2 ^ 32)
    (hwrap : addr.toNat + data.length ≤ 2 ^ 32) (hdata : readBytes ram src data.length = data) :
    let len := UInt32.ofNat data.length
    let written := memWrite H ap addr src len ram m
    let read := memRead H ap dest addr len ram written
    readBytes read.1 dest data.length = data ∧
      (∀ x : UInt32, x.toNat < addr.toNat ∨ addr.toNat + data.length ≤ x.toNat →
        written.mem x = m.mem x) ∧ read.2.mem = written.mem := by
  intro len written read
  have hlen : len.toNat = data.length := UInt32.toNat_ofNat_of_lt' hsize
  have hwritten : written.mem = overlay m.mem addr data := by
    rw [memWrite_mem, hlen, hdata]
  obtain ⟨hread, hkept⟩ := @memRead_spec H ap written ram dest addr len
  refine ⟨?_, ?_, hkept⟩
  · rw [hread, hwritten, hlen, readBytes_overlay m.mem addr (by omega),
      readBytes_overlay ram dest (by omega)]
  · intro x hx
    rw [hwritten]
    apply overlay_outside
    have hlt := x.toNat_lt
    have ha := addr.toNat_lt
    rw [UInt32.toNat_sub]
    omega

/-- An access port whose transfer address wraps within its page. -/
def wrappingHw : Hw := ⟨fun tar => tar &&& pageMask, fun _ _ => 0xEE⟩

/-- Three bytes across a page. -/
theorem memWrite_memRead_page :
    let ram := overlay (fun _ => 0) 0x20000000 [1, 2, 3]
    let ap : Ap := ⟨0, 0x23000040, by decide⟩
    let written := memWrite wrappingHw ap 0x3FE 0x20000000 3 ram ⟨0, 0, 0, 0, fun _ => 0xFF⟩
    readBytes (memRead wrappingHw ap 0x20000100 0x3FE 3 ram written).1 0x20000100 3 = [1, 2, 3] := by
  intro ram ap written
  exact (memWrite_memRead wrappingHw ap ⟨0, 0, 0, 0, fun _ => 0xFF⟩ ram 0x3FE 0x20000000
    0x20000100 [1, 2, 3] (by decide) (by decide) (readBytes_overlay _ _ (by decide))).1

end MiyakoLink.Adiv5
