import MiyakoLink.Adiv5.RoundTrip

/-!
# Writes of a given size

`firmware_mem_write_sized` with the access size of its caller, and the reads of its source. Bytes,
halfwords and words are written as they are. With `ALIGN_DWORD` the pointers go on by eight bytes
in each turn of the loop, but a turn takes four bytes and the transfer address goes on by four:
the end of the range is not written.

* `tracedWrite_forget`: without the trace it is `memWriteSized`.
* `writesExactly_iff`: whatever the memory holds, the range is written, if and only if the access
  size is not the doubleword.
-/

namespace MiyakoLink.Adiv5

open Lib

/-- The number of bytes that a turn of the loop takes from `src`. -/
def Align.taken : Align → Nat
  | .byte => 1
  | .halfword => 2
  | .word | .dword => 4

/-- The state of the loop, with the address and the length of each read of the source. -/
structure TracedWrite where
  state : WriteState
  taken : List (UInt32 × Nat)

section
variable (H : Hw) (ap : Ap)

/-- The body of the loop of `firmware_mem_write_sized`. -/
def tracedWriteTurn (ram : Mem32) (align : Align) (s : TracedWrite) : TracedWrite :=
  ⟨writeTurn H ap ram align s.state, s.taken ++ [(s.state.src, align.taken)]⟩

/-- `firmware_mem_write_sized`: the access port, and the reads of the source. -/
def firmwareMemWriteSized (dest src len : UInt32) (align : Align) (ram : Mem32) (m : MemAp) :
    MemAp × List (UInt32 × Nat) :=
  let len := len >>> align.code
  let m := apMemAccessSetup H ap dest align m
  let s := (tracedWriteTurn H ap ram align)^[len.toNat] ⟨⟨src, dest, dest, m⟩, []⟩
  (s.state.ap, s.taken)

/-- The range holds what the source does, nothing else is changed, and the source is read within
`len` bytes only. -/
structure WritesExactly (dest src len : UInt32) (align : Align) (ram : Mem32) (m : MemAp) :
    Prop where
  written : ∀ k < len.toNat, (firmwareMemWriteSized H ap dest src len align ram m).1.mem
    (dest + UInt32.ofNat k) = ram (src + UInt32.ofNat k)
  kept : ∀ x : UInt32, x.toNat < dest.toNat ∨ dest.toNat + len.toNat ≤ x.toNat →
    (firmwareMemWriteSized H ap dest src len align ram m).1.mem x = m.mem x
  inside : ∀ r ∈ (firmwareMemWriteSized H ap dest src len align ram m).2,
    (r.1 - src).toNat + r.2 ≤ len.toNat

end

section
variable {H : Hw} {ap : Ap} {align : Align} {ram : Mem32}

theorem tracedTurns_state (n : Nat) (s : TracedWrite) :
    ((tracedWriteTurn H ap ram align)^[n] s).state = (writeTurn H ap ram align)^[n] s.state := by
  induction n with
  | zero => rfl
  | succ n ih =>
    rw [Function.iterate_succ_apply', Function.iterate_succ_apply', tracedWriteTurn, ih]

variable (H ap align ram) in
/-- The trace changes nothing. -/
theorem tracedWrite_forget (dest src len : UInt32) (m : MemAp) :
    (firmwareMemWriteSized H ap dest src len align ram m).1 =
      memWriteSized H ap dest src len align ram m := by
  unfold firmwareMemWriteSized memWriteSized
  dsimp only
  rw [tracedTurns_state]

/-! ## The source -/

theorem turn_src (s : WriteState) : (writeTurn H ap ram align s).src = s.src + align.step := by
  unfold writeTurn
  dsimp only
  split
  · rfl
  · rfl

/-- The units taken by `n` turns lie one after the other. -/
theorem taken_run (n : Nat) (s : TracedWrite) :
    ((tracedWriteTurn H ap ram align)^[n] s).state.src =
        s.state.src + UInt32.ofNat (n * align.step.toNat) ∧
      ((tracedWriteTurn H ap ram align)^[n] s).taken = s.taken ++ (List.range n).map fun k =>
        (s.state.src + UInt32.ofNat (k * align.step.toNat), align.taken) := by
  induction n with
  | zero =>
    rw [Nat.zero_mul]
    exact ⟨(UInt32.add_zero _).symm, (List.append_nil _).symm⟩
  | succ n ih =>
    obtain ⟨hsrc, htaken⟩ := ih
    rw [Function.iterate_succ_apply', tracedWriteTurn, turn_src, hsrc, htaken, Nat.succ_mul,
      List.range_succ, List.map_append, List.append_assoc]
    refine ⟨?_, rfl⟩
    rw [UInt32.ofNat_add, UInt32.ofNat_toNat, UInt32.add_assoc]

theorem taken_le_step (align : Align) : align.taken ≤ align.step.toNat := by
  cases align <;> decide

/-- The count of units, for each of the four sizes. -/
theorem units_count {len : UInt32} (haligned : len.toNat % align.step.toNat = 0) :
    (len >>> align.code).toNat * align.step.toNat = len.toNat := by
  by_cases h : align = .dword
  · subst h
    have haligned : len.toNat % 8 = 0 := haligned
    have hshift : (len >>> Align.dword.code).toNat = len.toNat / 8 := by
      rw [UInt32.toNat_shiftRight]
      exact Nat.shiftRight_eq_div_pow _ 3
    rw [hshift]
    show len.toNat / 8 * 8 = len.toNat
    omega
  · exact unit_count h haligned

theorem taken_inside {dest src len : UInt32} {m : MemAp}
    (haligned : len.toNat % align.step.toNat = 0) :
    ∀ r ∈ (firmwareMemWriteSized H ap dest src len align ram m).2,
      (r.1 - src).toNat + r.2 ≤ len.toNat := by
  intro r hr
  have hcount := units_count haligned
  unfold firmwareMemWriteSized at hr
  dsimp only at hr
  rw [(taken_run _ _).2] at hr
  obtain ⟨k, hk, rfl⟩ := List.mem_map.mp hr
  have hk := List.mem_range.mp hk
  have hl := len.toNat_lt
  have htaken := taken_le_step align
  have hmul : (k + 1) * align.step.toNat ≤ len.toNat := by
    rw [← hcount]
    exact Nat.mul_le_mul_right _ hk
  rw [Nat.succ_mul] at hmul
  have hpos := step_pos align
  show (src + UInt32.ofNat (k * align.step.toNat) - src).toNat + align.taken ≤ _
  rw [add_sub_toNat (by omega)]
  omega

/-! ## Bytes, halfwords and words -/

theorem writesExactly_of_unit {dest src len : UInt32} {m : MemAp} (halign : align ≠ .dword)
    (hdest : dest.toNat % align.step.toNat = 0) (hlen : len.toNat % align.step.toNat = 0)
    (hwrap : dest.toNat + len.toNat ≤ 2 ^ 32) :
    WritesExactly H ap dest src len align ram m := by
  have hl := len.toNat_lt
  have hlength : (readBytes ram src len.toNat).length = len.toNat := readBytes_length ..
  constructor
  case written =>
    intro k hk
    rw [tracedWrite_forget, memWriteSized_mem halign hdest hlen,
      overlay_inside _ (by omega) (by omega)]
    simp only [readBytes, List.getElem_map, List.getElem_range]
  case kept =>
    intro x hx
    rw [tracedWrite_forget, memWriteSized_mem halign hdest hlen]
    apply overlay_outside
    have hlt := x.toNat_lt
    have ha := dest.toNat_lt
    rw [UInt32.toNat_sub]
    omega
  case inside => exact taken_inside hlen

/-! ## Doublewords -/

/-- Between two turns with `ALIGN_DWORD` the transfer address has not got further than the
pointer. -/
structure Lagging (ap : Ap) (s : WriteState) : Prop where
  ready : Ready ap .word s.ap
  behind : s.ap.tar.toNat ≤ s.dest.toNat
  word : s.ap.tar.toNat % 4 = 0
  aligned : s.dest.toNat % 8 = 0
  page : s.dest.toNat / 1024 = s.odest.toNat / 1024
  near : s.ap.tar.toNat / 1024 = s.dest.toNat / 1024

variable (H ram) in
theorem Lagging.turn {s : WriteState} (h : Lagging ap s) :
    Lagging ap (writeTurn H ap ram .dword s) ∧
      (writeTurn H ap ram .dword s).dest = s.dest + 8 ∧
      ∀ x : UInt32, s.dest.toNat + 4 ≤ x.toNat →
        (writeTurn H ap ram .dword s).ap.mem x = s.ap.mem x := by
  obtain ⟨hready, hbehind, hword, haligned, hpage, hnear⟩ := h
  have hd := s.dest.toNat_lt
  have htar : (s.ap.tar + 4).toNat = s.ap.tar.toNat + 4 := by
    rw [UInt32.toNat_add]
    show (s.ap.tar.toNat + 4) % 2 ^ 32 = _
    omega
  have hdest : (s.dest + 8).toNat = (s.dest.toNat + 8) % 2 ^ 32 := UInt32.toNat_add ..
  have hunit : s.ap.unit = s.ap.tar := hready.unit (by decide) hword
  have hnext : s.ap.nextTar H = s.ap.tar + 4 := by
    apply hready.nextTar
    apply (page_iff _ _).mpr
    show (s.ap.tar + 4).toNat / 1024 = _
    omega
  have hdrw : ∃ bytes : List UInt8, bytes.length = 4 ∧
      s.ap.lowWrite H ap.apsel apDrw (pack ram s.src s.dest .dword) =
        { s.ap with mem := overlay s.ap.mem s.ap.tar bytes, tar := s.ap.tar + 4 } := by
    refine ⟨(List.range s.ap.width.toNat).map fun k =>
      lane (pack ram s.src s.dest .dword) ((s.ap.tar + UInt32.ofNat k) &&& 3).toNat, ?_, ?_⟩
    · rw [List.length_map, List.length_range, hready.width]
      rfl
    · rw [MemAp.lowWrite_drw hready.select, MemAp.writeDrw, hunit, hnext]
  obtain ⟨bytes, hlength, hdrw⟩ := hdrw
  have hkept : ∀ x : UInt32, s.dest.toNat + 4 ≤ x.toNat →
      overlay s.ap.mem s.ap.tar bytes x = s.ap.mem x := by
    intro x hx
    apply overlay_outside
    have hlt := x.toNat_lt
    rw [UInt32.toNat_sub, hlength]
    omega
  unfold writeTurn
  dsimp only
  rw [hdrw, show Align.dword.step = 8 from rfl]
  by_cases hcross : (s.dest + 8 ^^^ s.odest) &&& pageMask = 0
  · rw [if_neg (not_not.mpr hcross)]
    have hsame := (page_iff _ _).mp ((xor_and_eq_zero _ _ _).mp hcross)
    refine ⟨⟨⟨hready.select, hready.width, hready.increment⟩, ?_, ?_, ?_, hsame, ?_⟩, rfl, hkept⟩
    · show (s.ap.tar + 4).toNat ≤ (s.dest + 8).toNat
      omega
    · show (s.ap.tar + 4).toNat % 4 = 0
      omega
    · show (s.dest + 8).toNat % 8 = 0
      omega
    · show (s.ap.tar + 4).toNat / 1024 = (s.dest + 8).toNat / 1024
      omega
  · rw [if_pos hcross, MemAp.lowWrite_tar (m := { s.ap with
      mem := overlay s.ap.mem s.ap.tar bytes
      tar := s.ap.tar + 4 }) hready.select]
    refine ⟨⟨⟨hready.select, hready.width, hready.increment⟩, Nat.le_of_eq rfl, ?_, ?_, rfl, rfl⟩,
      rfl, hkept⟩
    · show (s.dest + 8).toNat % 4 = 0
      omega
    · show (s.dest + 8).toNat % 8 = 0
      omega

variable (H ram) in
/-- The second half of the last unit is not written by `n` turns. -/
theorem Lagging.run {s : WriteState} (h : Lagging ap s) (n : Nat)
    (hwrap : s.dest.toNat + 8 * n ≤ 2 ^ 32) :
    Lagging ap ((writeTurn H ap ram .dword)^[n] s) ∧
      ((writeTurn H ap ram .dword)^[n] s).dest = s.dest + UInt32.ofNat (8 * n) ∧
      ∀ x : UInt32, s.dest.toNat + 8 * n ≤ x.toNat + 4 →
        ((writeTurn H ap ram .dword)^[n] s).ap.mem x = s.ap.mem x := by
  induction n with
  | zero => exact ⟨h, (UInt32.add_zero _).symm, fun _ _ => rfl⟩
  | succ n ih =>
    obtain ⟨hinv, hdest, hkept⟩ := ih (by omega)
    obtain ⟨hinv', hdest', hkept'⟩ := hinv.turn H ram
    have hat : ((writeTurn H ap ram .dword)^[n] s).dest.toNat = s.dest.toNat + 8 * n := by
      rw [hdest, UInt32.toNat_add, UInt32.toNat_ofNat']
      omega
    rw [Function.iterate_succ_apply']
    refine ⟨hinv', ?_, ?_⟩
    · rw [hdest', hdest, UInt32.add_assoc, Nat.mul_succ, UInt32.ofNat_add]
      rfl
    · intro x hx
      rw [hkept' x (by omega), hkept x (by omega)]

/-- With `ALIGN_DWORD` the last byte of the range is as it was. -/
theorem memWriteSized_dword {dest src len : UInt32} {m : MemAp} (hdest : dest.toNat % 8 = 0)
    (hlen : len.toNat % 8 = 0) (hpos : 1 ≤ len.toNat) (hwrap : dest.toNat + len.toNat ≤ 2 ^ 32) :
    (memWriteSized H ap dest src len .dword ram m).mem (dest + UInt32.ofNat (len.toNat - 1)) =
      m.mem (dest + UInt32.ofNat (len.toNat - 1)) := by
  obtain ⟨hready, htar, hmem⟩ := @setup_spec H ap .word m (by decide) dest
  have hsetup : apMemAccessSetup H ap dest .dword m = apMemAccessSetup H ap dest .word m := rfl
  have hlagging : Lagging ap ⟨src, dest, dest, apMemAccessSetup H ap dest .word m⟩ := by
    refine ⟨hready, ?_, ?_, hdest, rfl, ?_⟩
    · exact Nat.le_of_eq (congrArg UInt32.toNat htar)
    · show (apMemAccessSetup H ap dest .word m).tar.toNat % 4 = 0
      rw [htar]
      omega
    · exact congrArg (UInt32.toNat · / 1024) htar
  have hcount : (len >>> Align.dword.code).toNat * 8 = len.toNat := @units_count .dword len hlen
  have hl := len.toNat_lt
  have hlast : (dest + UInt32.ofNat (len.toNat - 1)).toNat = dest.toNat + len.toNat - 1 := by
    rw [UInt32.toNat_add, UInt32.toNat_ofNat']
    omega
  unfold memWriteSized
  dsimp only
  rw [hsetup, (hlagging.run H ram (len >>> Align.dword.code).toNat ?_).2.2 _ ?_]
  · exact congrFun hmem _
  · show dest.toNat + _ ≤ _
    omega
  · show dest.toNat + _ ≤ _
    omega

end

/-- Every write of the given size does what it is to do, if and only if the size is not the
doubleword. -/
theorem writesExactly_iff (H : Hw) (ap : Ap) (align : Align) (dest src len : UInt32) (ram : Mem32)
    (hdest : dest.toNat % align.step.toNat = 0) (hlen : len.toNat % align.step.toNat = 0)
    (hpos : 1 ≤ len.toNat) (hwrap : dest.toNat + len.toNat ≤ 2 ^ 32) :
    (∀ m, WritesExactly H ap dest src len align ram m) ↔ align ≠ .dword := by
  constructor
  · rintro h rfl
    -- A memory that holds anything else at the end of the range.
    let last := src + UInt32.ofNat (len.toNat - 1)
    have hwritten := (h ⟨0, 0, 0, 0, fun _ => ram last + 1⟩).written (len.toNat - 1) (by omega)
    rw [tracedWrite_forget, memWriteSized_dword hdest hlen hpos hwrap] at hwritten
    have hne : ram last + 1 ≠ ram last := by
      intro heq
      have hnat := congrArg UInt8.toNat heq
      rw [UInt8.toNat_add] at hnat
      have hlt := (ram last).toNat_lt
      have hone : (1 : UInt8).toNat = 1 := rfl
      omega
    exact hne hwritten
  · intro halign m
    exact writesExactly_of_unit halign hdest hlen hwrap

/-- Words over a page. -/
theorem writesExactly_words :
    WritesExactly wrappingHw ⟨0, 0x23000040, by decide⟩ 0x200003F8 0x20000000 16 .word
      (fun a => a.toUInt8) ⟨0, 0, 0, 0, fun _ => 0⟩ :=
  (writesExactly_iff _ _ _ _ _ _ _ (by decide) (by decide) (by decide) (by decide)).mpr
    (by decide) _

/-- A doubleword of zeros in erased flash. -/
theorem dword_half_written :
    ¬∀ (ap : Ap) (align : Align) (dest src len : UInt32) (ram : Mem32) (m : MemAp),
      dest.toNat % align.step.toNat = 0 → len.toNat % align.step.toNat = 0 → 1 ≤ len.toNat →
      dest.toNat + len.toNat ≤ 2 ^ 32 → WritesExactly wrappingHw ap dest src len align ram m := by
  intro h
  have hwritten := (h ⟨0, 0x23000040, by decide⟩ .dword 0x08000000 0x20000000 8 (fun _ => 0)
    ⟨0, 0, 0, 0, fun _ => 0xFF⟩ (by decide) (by decide) (by decide) (by decide)).written 7 (by decide)
  revert hwritten
  decide

end MiyakoLink.Adiv5
