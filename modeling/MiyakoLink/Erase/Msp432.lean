import MiyakoLink.Erase.Ke04
import MiyakoLink.Erase.Samx5x

/-!
# The erase function of the MSP432 parts, and what the three drivers erase

`msp432_flash_erase` calls a ROM routine for each sector. It subtracts the sector size from the
length twice in each turn, and leaves the address as it is.

* `flashErase_iff`: when the erase functions of the three drivers do what they are for.
-/

namespace MiyakoLink.Erase

open Flash Lib

/-- What `msp432_add_flash` has stored, and what the target answers to the `k`th call of the ROM:
the protection, whether it has halted in the `i`th turn, and `R0`. -/
structure Msp432 where
  eraseRoutine : UInt32
  protectRegister : UInt32
  protection : Nat → UInt32
  halted : Nat → Nat → Bool
  result : Nat → UInt32

/-- A write to a register of the target, or a call of the ROM with `R0`. -/
inductive Msp432Access where
  | write (addr val : UInt32)
  | call (pc r0 : UInt32)
  deriving DecidableEq

abbrev sectorSize : UInt32 := 0x1000

namespace Msp432

variable (C : Msp432)

/-- The sector that an access erases. -/
def erased : Msp432Access → Option UInt32
  | .call pc r0 => if pc = C.eraseRoutine then some r0 else none
  | _ => none

/-- `msp432_sector_erase`; its result is that of the ROM. -/
def sectorErase (start addr : UInt32) (fuel k : Nat) : List Msp432Access × Option Bool :=
  let secMask := ~~~(1 <<< ((addr - start) / sectorSize)) &&& C.protection k
  let log := [.write C.protectRegister secMask, .write 0x4000480C 0x5A88, .write 0x01000000 0xBE00,
    .call C.eraseRoutine addr]
  if poll (fun i => if C.halted k i then some () else none) fuel = none then (log, none)
  else (log ++ [.write C.protectRegister (C.protection k)], some true)

/-- `len -= f->blocksize`, and once more. -/
def lenLeft (len : UInt32) : UInt32 :=
  let len := len - sectorSize
  if len > sectorSize then len - sectorSize else 0

/-- `msp432_flash_erase`: the accesses, and the result if it has come back. -/
def flashErase (start : UInt32) (fuel : Nat) (addr len : UInt32) :
    List Msp432Access × Option Ret :=
  let s := sweep lenLeft (· + 1) (C.sectorErase start addr fuel) fuel len 0
  let calls := (s.1.filterMap C.erased).length
  (s.1, s.2.map fun _ => if (List.range calls).any (C.result · = 0) then 1 else 0)

/-- The sectors it erases, and its result. -/
def run (start addr len : UInt32) (fuel : Nat) : List Nat × Option Ret :=
  (((C.flashErase start fuel addr len).1.filterMap C.erased).map (sectorOf start sectorSize),
    (C.flashErase start fuel addr len).2)

/-- The `k`th call comes back. -/
abbrev Halts (k : Nat) : Prop := ∃ i, C.halted k i = true

end Msp432

namespace Msp432

variable {C : Msp432} {len : UInt32}

/-! ## The length -/

theorem lenLeft_toNat {v : UInt32} (h : 0x1000 ≤ v.toNat) :
    (lenLeft v).toNat = v.toNat - 0x2000 := by
  have hsize : sectorSize.toNat = 0x1000 := rfl
  have hsub : (v - sectorSize).toNat = v.toNat - 0x1000 := sub_toNat_of_le h
  unfold lenLeft
  dsimp only
  split
  · next hgt =>
    rw [gt_iff_lt, UInt32.lt_iff_toNat_lt, hsize, hsub] at hgt
    rw [sub_toNat_of_le (by omega), hsub, hsize]
    omega
  · next hle =>
    rw [gt_iff_lt, UInt32.lt_iff_toNat_lt, hsize, hsub] at hle
    rw [UInt32.toNat_zero]
    omega

/-- A remainder of less than a sector comes back below zero. -/
theorem lenLeft_mod {v : UInt32} (h : 0 < v.toNat % 0x2000 ∧ v.toNat % 0x2000 < 0x1000) :
    (lenLeft v).toNat % 0x2000 = v.toNat % 0x2000 := by
  have hsize : sectorSize.toNat = 0x1000 := rfl
  have hv := v.toNat_lt
  by_cases hlow : 0x1000 ≤ v.toNat
  · rw [lenLeft_toNat hlow]
    omega
  · have hsub : (v - sectorSize).toNat = 2 ^ 32 + v.toNat - 0x1000 := by
      rw [UInt32.toNat_sub, hsize]
      omega
    unfold lenLeft
    dsimp only
    rw [if_pos (by rw [gt_iff_lt, UInt32.lt_iff_toNat_lt, hsub, hsize]; omega),
      sub_toNat_of_le (by rw [hsub, hsize]; omega), hsub, hsize]
    omega

/-- The length is used up some time. -/
abbrev Counts (len : UInt32) : Prop := len.toNat % 0x2000 = 0 ∨ 0x1000 ≤ len.toNat % 0x2000

/-- How many turns that takes. -/
def turns (len : UInt32) : Nat := (len.toNat + 0x1FFF) / 0x2000

theorem lenLeft_iterate (h : Counts len) {j : Nat} (hj : j ≤ turns len) :
    (lenLeft^[j] len).toNat = len.toNat - 0x2000 * j := by
  unfold turns at hj
  unfold Counts at h
  induction j with
  | zero => rfl
  | succ j ih =>
    have hv := ih (by omega)
    rw [Function.iterate_succ_apply', lenLeft_toNat (by omega), hv]
    omega

theorem lenLeft_live (h : Counts len) {j : Nat} (hj : j < turns len) : lenLeft^[j] len ≠ 0 := by
  apply ne_zero_of_toNat
  rw [lenLeft_iterate h (Nat.le_of_lt hj)]
  unfold turns at hj
  omega

theorem lenLeft_zero (h : Counts len) : lenLeft^[turns len] len = 0 := by
  apply UInt32.toNat_inj.mp
  rw [lenLeft_iterate h (Nat.le_refl _), UInt32.toNat_zero]
  unfold turns
  omega

theorem lenLeft_never (h : ¬ Counts len) (j : Nat) : lenLeft^[j] len ≠ 0 := by
  have hmod (j : Nat) : (lenLeft^[j] len).toNat % 0x2000 = len.toNat % 0x2000 := by
    induction j with
    | zero => rfl
    | succ j ih =>
      rw [Function.iterate_succ_apply', lenLeft_mod (by omega), ih]
  intro hzero
  have hj := hmod j
  rw [hzero, UInt32.toNat_zero] at hj
  omega

/-! ## The calls -/

theorem sectorErase_erased (start addr : UInt32) (fuel k : Nat) :
    (C.sectorErase start addr fuel k).1.filterMap C.erased = [addr] := by
  unfold sectorErase
  dsimp only
  split
  · simp [List.filterMap_cons, erased]
  · simp [List.filterMap_cons, erased]

theorem sectorErase_snd (start addr : UInt32) (fuel k : Nat) :
    (C.sectorErase start addr fuel k).2 =
      if ∃ i < fuel, C.halted k i = true then some true else none := by
  have hiff : poll (fun i => if C.halted k i then some () else none) fuel = none ↔
      ¬ ∃ i < fuel, C.halted k i = true := by
    rw [poll_eq_none]
    constructor
    · rintro h ⟨i, hi, hhalted⟩
      have hnone := h i hi
      rw [if_pos hhalted] at hnone
      contradiction
    · intro h i hi
      exact if_neg fun hhalted => h ⟨i, hi, hhalted⟩
  unfold sectorErase
  dsimp only
  by_cases hhalts : ∃ i < fuel, C.halted k i = true
  · rw [if_neg (mt hiff.mp (not_not.mpr hhalts)), if_pos hhalts]
  · rw [if_pos (hiff.mpr hhalts), if_neg hhalts]

theorem advance_iterate (n : Nat) : (· + 1)^[n] 0 = n := by
  induction n with
  | zero => rfl
  | succ n ih => rw [Function.iterate_succ_apply', ih]

theorem logs_erased (start addr : UInt32) (fuel n : Nat) :
    (logs (· + 1) (C.sectorErase start addr fuel) 0 n).filterMap C.erased =
      List.replicate n addr := by
  unfold logs
  induction n with
  | zero => rfl
  | succ n ih =>
    rw [List.range_succ, List.flatMap_append, List.filterMap_append, ih, List.flatMap_singleton,
      sectorErase_erased, List.replicate_succ']

/-- All calls are for the first sector. -/
theorem run_only {start addr : UInt32} {fuel k : Nat} (h : k ∈ (C.run start addr len fuel).1) :
    k = sectorOf start sectorSize addr := by
  unfold run flashErase at h
  dsimp only at h
  obtain ⟨a, ha, rfl⟩ := List.mem_map.mp h
  rcases sweep_cases lenLeft (· + 1) (C.sectorErase start addr fuel) fuel len 0 with
    ⟨n, hn, hp, hlive, hend⟩ | ⟨n, hn, hp, hzero⟩ | hp
  · rw [sweep_stop hp hlive hend hn, List.filterMap_append, logs_erased, sectorErase_erased] at ha
    rcases List.mem_append.mp ha with ha | ha
    · rw [(List.mem_replicate.mp ha).2]
    · rw [List.mem_singleton.mp ha]
  · rw [sweep_finish hp hzero hn, logs_erased] at ha
    rw [(List.mem_replicate.mp ha).2]
  · rw [sweep_running hp, logs_erased] at ha
    rw [(List.mem_replicate.mp ha).2]

/-- What is known when the function has come back. -/
theorem run_end {start addr : UInt32} {fuel : Nat} (h : (C.run start addr len fuel).2 ≠ none) :
    Counts len ∧ (∀ k < turns len, C.Halts k) ∧
      C.run start addr len fuel =
        (List.replicate (turns len) (sectorOf start sectorSize addr),
          some (if (List.range (turns len)).any (C.result · = 0) then 1 else 0)) := by
  unfold run flashErase at h ⊢
  dsimp only at h ⊢
  rcases sweep_cases lenLeft (· + 1) (C.sectorErase start addr fuel) fuel len 0 with
    ⟨n, hn, hp, hlive, hend⟩ | ⟨n, hn, hp, hzero⟩ | hp
  · rw [sweep_stop hp hlive hend hn] at h
    rw [sectorErase_snd] at h hend
    split at hend
    · exact absurd rfl hend
    · next hnot =>
      rw [if_neg hnot] at h
      exact absurd rfl h
  · have hcounts : Counts len := by
      by_contra hnot
      exact lenLeft_never hnot n hzero
    have hturns : n = turns len := by
      apply Nat.le_antisymm
      · by_contra hlt
        exact hp.live _ (Nat.lt_of_not_le hlt) (lenLeft_zero hcounts)
      · by_contra hlt
        exact lenLeft_live hcounts (Nat.lt_of_not_le hlt) hzero
    refine ⟨hcounts, fun k hk => ?_, ?_⟩
    · have hwell := hp.well k (hturns ▸ hk)
      rw [advance_iterate, sectorErase_snd] at hwell
      split at hwell
      · next hhalts =>
        obtain ⟨i, -, hi⟩ := hhalts
        exact ⟨i, hi⟩
      · contradiction
    · rw [sweep_finish hp hzero hn, logs_erased, List.length_replicate, List.map_replicate, hturns]
      rfl
  · rw [sweep_running hp] at h
    exact absurd rfl h

/-- With enough fuel the function comes back. -/
theorem run_back {start addr : UInt32} (hcounts : Counts len) (h : ∀ k < turns len, C.Halts k) :
    ∃ fuel, (C.run start addr len fuel).2 ≠ none := by
  have hfuel : ∃ m, ∀ k < turns len, ∃ i < m, C.halted k i = true := by
    generalize turns len = n at h
    induction n with
    | zero => exact ⟨0, fun k hk => absurd hk (Nat.not_lt_zero k)⟩
    | succ n ih =>
      obtain ⟨m, hm⟩ := ih fun k hk => h k (Nat.lt_succ_of_lt hk)
      obtain ⟨i, hi⟩ := h n (Nat.lt_succ_self n)
      refine ⟨max m (i + 1), fun k hk => ?_⟩
      rcases Nat.lt_succ_iff_lt_or_eq.mp hk with hk | rfl
      · obtain ⟨i', hi', hhalted⟩ := hm k hk
        exact ⟨i', by omega, hhalted⟩
      · exact ⟨i, by omega, hi⟩
  obtain ⟨m, hm⟩ := hfuel
  refine ⟨max m (turns len + 1), ?_⟩
  have hp : Passed lenLeft (· + 1) (C.sectorErase start addr (max m (turns len + 1))) len 0
      (turns len) := by
    constructor
    · intro j hj
      exact lenLeft_live hcounts hj
    · intro j hj
      obtain ⟨i, hi, hhalted⟩ := hm j hj
      rw [advance_iterate, sectorErase_snd, if_pos ⟨i, by omega, hhalted⟩]
  unfold run flashErase
  dsimp only
  rw [sweep_finish hp (lenLeft_zero hcounts) (by omega)]
  exact Option.some_ne_none _

/-- A single sector, or a call of the ROM has failed; and the length is used up some time, and all
calls come back. -/
theorem erasesWell_iff {start length : UInt32} (r : Span start length sectorSize) :
    ErasesWell r (C.run start r.addr r.len) ↔
      Counts r.len ∧ (∀ k < turns r.len, C.Halts k) ∧
        (r.len = 0x1000 ∨ ∃ k < turns r.len, C.result k = 0) := by
  have hsize : sectorSize.toNat = 0x1000 := rfl
  have hpos : 0 < sectorSize.toNat := by decide
  have hrpos := r.pos
  have hone : r.len.toNat = 0x1000 → r.len = 0x1000 := fun h => UInt32.toNat_inj.mp h
  have hfirst : sectorOf start sectorSize r.addr = r.first := by
    rw [sectorOf, sub_toNat_of_le r.low]
    rfl
  have hmeets : r.Meets r.first :=
    (Span.meets_iff hpos).mpr ⟨Nat.le_refl _, Nat.lt_add_of_pos_right (r.count_pos hpos)⟩
  constructor
  · intro hwell
    obtain ⟨fuel, hback⟩ := hwell.ends
    obtain ⟨hcounts, hhalts, hrun⟩ := run_end hback
    refine ⟨hcounts, hhalts, ?_⟩
    by_contra hnot
    obtain ⟨hlen, hresult⟩ := not_or.mp hnot
    have hret : (List.range (turns r.len)).any (C.result · = 0) = false := by
      rw [List.any_eq_false]
      intro k hk
      simpa using fun hzero => hresult ⟨k, List.mem_range.mp hk, hzero⟩
    rw [hret] at hrun
    -- The sector behind the first one belongs to the range, but is never erased.
    have hcounts' := hcounts
    unfold Counts at hcounts'
    have hsecond : r.Meets (r.first + 1) := by
      apply (Span.meets_iff hpos).mpr
      have hlt : 1 < r.count := by
        rw [Span.lt_count_iff hpos, hsize]
        by_contra hle
        exact hlen (hone (by omega))
      omega
    have hcount := hwell.complete fuel (by rw [hrun]; rfl) _ hsecond
    have hnone : r.first + 1 ∉ List.replicate (turns r.len) r.first := fun hmem =>
      Nat.succ_ne_self _ (List.mem_replicate.mp hmem).2
    rw [hrun, hfirst, List.count_eq_zero.mpr hnone] at hcount
    contradiction
  · rintro ⟨hcounts, hhalts, hlast⟩
    constructor
    case ends => exact run_back hcounts hhalts
    case complete =>
      intro fuel hzero k hk
      obtain ⟨-, -, hrun⟩ := run_end (C := C) (by rw [hzero]; exact Option.some_ne_none 0)
      rcases hlast with hlen | ⟨j, hj, hresult⟩
      · have hturns : turns r.len = 1 := by rw [hlen]; rfl
        have hcount : r.count = 1 := by
          unfold Span.count
          rw [hlen]
          rfl
        have hkey := (Span.meets_iff hpos).mp hk
        rw [hcount] at hkey
        have hk : k = r.first := by omega
        rw [hrun, hturns, hfirst, hk]
        exact List.count_singleton_self
      · have hany : (List.range (turns r.len)).any (C.result · = 0) = true := by
          rw [List.any_eq_true]
          exact ⟨j, List.mem_range.mpr hj, decide_eq_true hresult⟩
        rw [hrun, hany] at hzero
        exact absurd (Option.some.inj hzero) (by decide)
    case inside =>
      intro fuel k hk
      rw [run_only hk, hfirst]
      exact hmeets

end Msp432

/-! ## The three drivers -/

/-- The erase function of the SAM D5x/E5x does what it is for when it returns in front of the first
block, when a block of the range is refused, and when all are taken and the length is a multiple
of the block size; that of the KE04 likewise. The one of the MSP432 only gets a single sector right,
or reports the failure of a call; other lengths it has to be able to count down at all. -/
theorem flashErase_iff (S : Samx5x) (K : Ke04) (M : Msp432) {s k start m : UInt32}
    (rS : Span 0 s samx5xBlockSize) (hS : s.toNat ≤ 0x100000)
    (rK : Span 0 k ke04SectorSize) (hK : k.toNat ≤ 0x20000) (rM : Span start m sectorSize) :
    (ErasesWell rS (S.run rS.addr rS.len) ↔
      S.locked rS.addr = true ∨
      (∃ k < rS.count, (∀ j < k, S.Outcome j true) ∧ S.Outcome k false) ∨
      8192 ∣ rS.len.toNat ∧ ∀ j < rS.count, S.Outcome j true) ∧
    (ErasesWell rK (K.run rK.addr rK.len) ↔
      (∃ k < rK.count, (∀ j < k, K.Outcome j true) ∧ K.Outcome k false) ∨
      512 ∣ rK.len.toNat ∧ ∀ j < rK.count, K.Outcome j true) ∧
    (ErasesWell rM (M.run start rM.addr rM.len) ↔
      Msp432.Counts rM.len ∧ (∀ k < Msp432.turns rM.len, M.Halts k) ∧
      (rM.len = 0x1000 ∨ ∃ k < Msp432.turns rM.len, M.result k = 0)) :=
  ⟨Samx5x.erasesWell_iff rS hS, Ke04.erasesWell_iff rK hK, Msp432.erasesWell_iff rM⟩

/-- A controller that takes all commands. -/
def steadySamx5x : Samx5x where
  intflag := 0
  status := 0x0F01
  runlock := 0xFFFFFFFF
  param := 0x0400
  ready _ _ := 1
  fault _ _ := false
  flags _ _ := 0
  pages := by decide

def steadyKe04 : Ke04 where
  fclkdiv _ := 0x17
  beforeClock _ _ := 0x80
  beforeStart _ _ := 0x80
  behindStart _ _ := 0x80

def steadyMsp432 : Msp432 where
  eraseRoutine := 0x02000801
  protectRegister := 0x400110B4
  protection _ := 0xFFFFFFFF
  halted _ _ := true
  result _ := 1

/-- The first two sectors of a region at the begin of the memory. -/
def twoSectors (length size : UInt32) (hsize : 0 < size.toNat) (hwrap : (2 * size).toNat = 2 * size.toNat)
    (h : 2 * size.toNat ≤ length.toNat) : Span 0 length size where
  addr := 0
  len := 2 * size
  pos := by omega
  low := Nat.le_refl _
  high := by rw [hwrap, UInt32.toNat_zero]; omega
  aligned := Nat.zero_mod _

theorem flashErase_iff_two :
    let rS := twoSectors 0x80000 samx5xBlockSize (by decide) (by decide) (by decide)
    let rK := twoSectors 0x20000 ke04SectorSize (by decide) (by decide) (by decide)
    let rM := twoSectors 0x20000 sectorSize (by decide) (by decide) (by decide)
    (ErasesWell rS (steadySamx5x.run rS.addr rS.len) ↔
      steadySamx5x.locked rS.addr = true ∨
      (∃ k < rS.count, (∀ j < k, steadySamx5x.Outcome j true) ∧ steadySamx5x.Outcome k false) ∨
      8192 ∣ rS.len.toNat ∧ ∀ j < rS.count, steadySamx5x.Outcome j true) ∧
    (ErasesWell rK (steadyKe04.run rK.addr rK.len) ↔
      (∃ k < rK.count, (∀ j < k, steadyKe04.Outcome j true) ∧ steadyKe04.Outcome k false) ∨
      512 ∣ rK.len.toNat ∧ ∀ j < rK.count, steadyKe04.Outcome j true) ∧
    (ErasesWell rM (steadyMsp432.run 0 rM.addr rM.len) ↔
      Msp432.Counts rM.len ∧ (∀ k < Msp432.turns rM.len, steadyMsp432.Halts k) ∧
      (rM.len = 0x1000 ∨ ∃ k < Msp432.turns rM.len, steadyMsp432.result k = 0)) :=
  flashErase_iff steadySamx5x steadyKe04 steadyMsp432 (twoSectors 0x80000 samx5xBlockSize _ _ _)
    (by decide) (twoSectors 0x20000 ke04SectorSize _ _ _) (by decide)
    (twoSectors 0x20000 sectorSize _ _ _)

/-- The second of two sectors stays as it is, and the result is 0. -/
theorem twoSectors_not_erased : ¬ ErasesWell
    (twoSectors 0x20000 sectorSize (by decide) (by decide) (by decide))
    (steadyMsp432.run 0 0 (2 * sectorSize)) := by
  intro h
  have hiff := (Msp432.erasesWell_iff
    (twoSectors 0x20000 sectorSize (by decide) (by decide) (by decide))).mp h
  obtain ⟨-, -, hlen | ⟨k, -, hzero⟩⟩ := hiff
  · exact absurd hlen (by decide)
  · exact absurd hzero (show (1 : UInt32) ≠ 0 by decide)

end MiyakoLink.Erase
