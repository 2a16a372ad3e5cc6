import MiyakoLink.Flash.Blocks
import MiyakoLink.Rp.Driver

/-!
# The write buffer of the RP2040

The region of an RP2040 is a `BlockBuffer` of 2 KiB in front of the flash. It is padded with
zeros, since `erased` is not set.

* `rpFlashErase_read`, `rpFlashWrite_read`: what a call that succeeds makes of the flash.
* `represents_iff`: so the region is one whose driver programs blocks.
-/

namespace MiyakoLink.Rp

open Flash Lib

variable {R : Rom}

/-! ## The callbacks -/

theorem rpRomCall_flash {c : RomCall} {timeout : UInt32} (ht : timeout ≠ 0) {s : Env}
    (h : (rpRomCall R c timeout s).1 = false) :
    (rpRomCall R c timeout s).2.flash = c.run s.sram s.flash := by
  have hfails : R.fails s.calls.length = false := by
    simpa [rpRomCall, ht] using h
  simp [rpRomCall, hfails]

theorem rpRomCall_quiet {c : RomCall} (hc : c.writes = false) (timeout : UInt32) (s : Env) :
    (rpRomCall R c timeout s).2.flash = c.run s.sram s.flash := by
  simp [rpRomCall, hc]

@[simp] theorem rpFlashPrepare_flash (s : Env) : (rpFlashPrepare R s).flash = s.flash := by
  unfold rpFlashPrepare
  split
  · rfl
  · show (rpRomCall R .flashExitXip 100 _).2.flash = s.flash
    rw [rpRomCall_quiet rfl]
    exact rpRomCall_quiet rfl 100 s

@[simp] theorem rpFlashResume_flash (s : Env) : (rpFlashResume R s).flash = s.flash := by
  unfold rpFlashResume
  split
  · show (rpRomCall R .flashEnterCmdXip 100 _).2.flash = s.flash
    rw [rpRomCall_quiet rfl]
    exact rpRomCall_quiet rfl 100 s
  · rfl

/-- The range of an address and a length, also when it wraps. -/
theorem sub_add_lt_iff {a addr len chunk : UInt32} (h : chunk.toNat ≤ len.toNat) :
    a - addr < len ↔ a - addr < chunk ∨ a - (addr + chunk) < len - chunk := by
  have ha := a.toNat_lt
  have haddr := addr.toNat_lt
  have hlen := len.toNat_lt
  simp only [UInt32.lt_iff_toNat_lt,
    UInt32.toNat_sub_of_le _ _ (UInt32.le_iff_toNat_le.mpr h), UInt32.toNat_sub, UInt32.toNat_add]
  omega

/-- A turn of the erase loop, and the turns behind it. -/
theorem erase_turn {flash flash' flash'' : UInt32 → UInt8} {addr len chunk : UInt32}
    (h : chunk.toNat ≤ len.toNat)
    (hturn : ∀ a, flash' a = if a - addr < chunk then 0xFF else flash a)
    (hrest : ∀ a, flash'' a = if a - (addr + chunk) < len - chunk then 0xFF else flash' a)
    (a : UInt32) : flash'' a = if a - addr < len then 0xFF else flash a := by
  rw [hrest, hturn, ← ite_or]
  exact ite_congr (propext (or_comm.trans (sub_add_lt_iff h).symm)) (fun _ => rfl) fun _ => rfl

theorem sub_le_maxFlash {len chunk : UInt32} (hlen : len ≤ maxFlash)
    (h : chunk.toNat ≤ len.toNat) : len - chunk ≤ maxFlash := by
  rw [UInt32.le_iff_toNat_le] at hlen ⊢
  rw [UInt32.toNat_sub_of_le _ _ (UInt32.le_iff_toNat_le.mpr h)]
  omega

theorem eraseLoop_flash {addr len : UInt32} {s : Env} (hlen : len ≤ maxFlash)
    (h : (eraseLoop R addr len s).1 = false) :
    ∀ a, (eraseLoop R addr len s).2.flash a = if a - addr < len then 0xFF else s.flash a := by
  fun_induction eraseLoop R addr len s with
  | case1 addr s => simp
  | case2 addr len s hne hbig =>
    obtain rfl := UInt32.le_antisymm hbig hlen
    exact congrFun (rpRomCall_flash (by decide) h)
  | case3 addr len s hne hbig hblock chunk r hr =>
    rw [hr] at h
    contradiction
  | case4 addr len s hne hbig hblock chunk r hr ih =>
    have hle : chunk.toNat ≤ len.toNat := (block64k_bounds hblock).2
    have hturn := rpRomCall_flash (R := R) (by decide) (Bool.not_eq_true _ ▸ hr)
    exact erase_turn hle (congrFun hturn) (ih (sub_le_maxFlash hlen hle) h)
  | case5 addr len s hne hbig hblock hblock' chunk r hr =>
    rw [hr] at h
    contradiction
  | case6 addr len s hne hbig hblock hblock' chunk r hr ih =>
    have hle : chunk.toNat ≤ len.toNat := (block32k_bounds hblock').2
    have hturn := rpRomCall_flash (R := R) (by decide) (Bool.not_eq_true _ ▸ hr)
    exact erase_turn hle (congrFun hturn) (ih (sub_le_maxFlash hlen hle) h)
  | case7 addr len s hne hbig hblock hblock' =>
    exact congrFun (rpRomCall_flash (by decide) h)

theorem eraseLength_le (len : UInt32) : eraseLength len ≤ maxFlash := by
  unfold eraseLength
  split
  · exact UInt32.le_refl _
  · rename_i h
    exact UInt32.not_lt.mp h

/-- What is read from an address. -/
def Env.read (s : Env) (a : UInt32) : UInt8 := s.flash (a - xipFlashStart)

theorem sub_sub_base (a b c : UInt32) : a - c - (b - c) = a - b := by
  apply UInt32.toNat_inj.mp
  have ha := a.toNat_lt
  have hb := b.toNat_lt
  have hc := c.toNat_lt
  simp only [UInt32.toNat_sub]
  omega

theorem ret_eq_zero {b : Bool} (h : (if b then 1 else 0 : Ret) = 0) : b = false := by
  cases b with
  | false => rfl
  | true => exact absurd h (show (1 : Ret) ≠ 0 by decide)

theorem rpFlashErase_read {addr len : UInt32} {s : Env} (h : (rpFlashErase R addr len s).1 = 0)
    (a : UInt32) : (rpFlashErase R addr len s).2.read a =
      if a - addr < eraseLength len then 0xFF else s.read a := by
  unfold rpFlashErase at h ⊢
  split at h
  · exact absurd h (show (-1 : Ret) ≠ 0 by decide)
  · rename_i haligned
    have hloop := eraseLoop_flash (eraseLength_le len) (ret_eq_zero h) (a - xipFlashStart)
    rw [if_neg haligned, Env.read, rpFlashResume_flash, hloop, sub_sub_base, rpFlashPrepare_flash]
    rfl

/-- The write of a block. -/
theorem rpFlashWrite_read {dest : UInt32} {src : List UInt8} {s : Env}
    (h : (rpFlashWrite R dest src 0x800 s).1 = 0) (a : UInt32) :
    (rpFlashWrite R dest src 0x800 s).2.read a =
      if a - dest < 0x800 then s.read a &&& (src.take 0x800).getD (a - dest).toNat 0xFF
      else s.read a := by
  unfold rpFlashWrite at h ⊢
  split at h
  · exact absurd h (show (-1 : Ret) ≠ 0 by decide)
  · rename_i haligned
    have hloop := ret_eq_zero h
    rw [if_neg haligned, Env.read, rpFlashResume_flash]
    -- The block fits into one call.
    rw [writeLoop, dif_neg (by decide)] at hloop ⊢
    simp only [show chunkSize 0x800 = 0x800 from rfl] at hloop ⊢
    split at hloop
    · rename_i hr
      rw [hloop] at hr
      contradiction
    · rename_i hr
      rw [if_neg hr, writeLoop, dif_pos (by decide)]
      rw [rpRomCall_flash (by decide) (Bool.not_eq_true _ ▸ hr)]
      simp only [RomCall.run, sub_sub_base, rpFlashPrepare_flash]
      rfl

/-! ## The buffer of the region -/

/-- The block of an address. -/
abbrev blockOf (a : UInt32) : Nat := a.toNat / 0x800

abbrev Buffer := BlockBuffer UInt32 Nat UInt8

/-- A write to the buffer. It is padded with zeros. -/
abbrev store (s : Buffer) (w : UInt32 × UInt8) : Buffer := s.write blockOf (· &&& ·) 0 w

abbrev Buffer.written (s : Buffer) : UInt32 → UInt8 := s.flushed blockOf (· &&& ·)

/-- The bytes of a buffer are those of a block. -/
def Holds (f : TargetFlash Env Tagged) (b : List Tagged) (c : UInt32 → UInt8) : Prop :=
  f.buf = some b ∧ b.length = 0x800 ∧
    ∀ o < 0x800, (b[o]?).map Prod.fst = some (c (f.bufAddr + UInt32.ofNat o))

/-- The region with its buffer stands for a buffer in front of the flash. -/
structure Represents (R : Rom) (length : UInt32) (f : TargetFlash Env Tagged) (s : Env)
    (B : Buffer) : Prop where
  region : f.toFlashRegion = rpAddFlash R xipFlashStart length
  mem : ∀ a, B.mem a = s.read a
  empty : B.held = none → f.buf = none ∨ f.bufAddr = invalidAddr
  held : ∀ k c, B.held = some (k, c) → f.bufAddr.toNat = 0x800 * k ∧ ∃ b, Holds f b c

/-- The region as one whose driver programs blocks. -/
def paged (R : Rom) (length : UInt32) : Paged Env Tagged where
  region := rpAddFlash R xipFlashStart length
  val := Prod.fst
  read := Env.read
  prog := (· &&& ·)
  size := 0x800
  inside _ := True
  bufSize_eq := rfl
  size_gt := by decide
  size_dvd := by decide
  write_read := by
    rintro dest src s ⟨k, hk⟩ - hlen hret a
    have hread := rpFlashWrite_read hret a
    have hblock : a - dest < 0x800 ↔ a.toNat / 0x800 = dest.toNat / 0x800 := by
      have ha := a.toNat_lt
      have hdest := dest.toNat_lt
      rw [UInt32.lt_iff_toNat_lt, UInt32.toNat_sub]
      show _ < 0x800 ↔ _
      omega
    refine hread.trans (ite_congr (propext hblock) (fun ha => ?_) fun _ => rfl)
    have hlt : (a - dest).toNat < src.length := by
      rw [hlen]
      exact UInt32.lt_iff_toNat_lt.mp (hblock.mpr ha)
    rw [List.take_of_length_le (Nat.le_of_eq ((List.length_map _).trans hlen)),
      List.getD_eq_getElem?_getD, List.getElem?_map, List.getD_eq_getElem?_getD,
      List.getElem?_eq_getElem hlt]
    rfl

theorem represents_iff {length : UInt32} {f : TargetFlash Env Tagged} {s : Env} {B : Buffer} :
    Represents R length f s B ↔ (paged R length).Represents f s B := by
  constructor
  · intro h
    refine ⟨h.region, h.mem, h.empty, fun k c hB => ?_⟩
    obtain ⟨haddr, hb⟩ := h.held k c hB
    exact ⟨haddr, ⟨f.bufAddr, trivial, Paged.blockOf_base haddr⟩, hb⟩
  · intro h
    refine ⟨h.region, h.mem, h.empty, fun k c hB => ?_⟩
    obtain ⟨haddr, -, hb⟩ := h.held k c hB
    exact ⟨haddr, hb⟩

end MiyakoLink.Rp
