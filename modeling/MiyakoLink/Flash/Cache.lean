import Mathlib.Tactic.Common
import MiyakoLink.Lib.Image
import MiyakoLink.Flash.Buffered

/-!
# The write cache of one region over NOR flash

`NorFlash` says what the drivers of a list of regions do to the flash memory when they
return zero. `RegionOk` relates a region's cache, the memory and the contents `want` the
memory shall have after a flush; `writeBuffered_ok` and `doneBuffered_ok` are the steps that
keep it: the first one moves `want` on by the bytes written, the second one leaves the
region with nothing pending.
-/

namespace MiyakoLink.Flash

open Lib

variable {σ β : Type}

/-- The addresses of a region, as numbers. -/
def FlashRegion.Contains (r : FlashRegion σ β) (a : UInt32) : Prop :=
  r.start.toNat ≤ a.toNat ∧ a.toNat < r.start.toNat + r.length.toNat

/-- A range of `n` addresses from `a` on lies in the region. -/
def FlashRegion.ContainsRange (r : FlashRegion σ β) (a : UInt32) (n : Nat) : Prop :=
  r.start.toNat ≤ a.toNat ∧ a.toNat + n ≤ r.start.toNat + r.length.toNat

/-- `a` is the address of a block of the region: aligned, and the block is inside. -/
def FlashRegion.IsBlock (r : FlashRegion σ β) (a : UInt32) : Prop :=
  r.bufSize.toNat ∣ a.toNat ∧ r.ContainsRange a r.bufSize.toNat

/-- The region starts and ends at a block boundary. -/
def FlashRegion.Aligned (r : FlashRegion σ β) : Prop :=
  r.bufSize.toNat ∣ r.start.toNat ∧ r.bufSize.toNat ∣ r.length.toNat

theorem FlashRegion.bufSize_pos (r : FlashRegion σ β) : 0 < r.bufSize.toNat := by
  have := mt UInt32.toNat_inj.mp r.bufSize_ne_zero
  simp only [UInt32.toNat_zero] at this
  omega

/-- The block around an address of an aligned region is a block of the region. -/
theorem FlashRegion.Aligned.isBlock_base {r : FlashRegion σ β} (h : r.Aligned) {a : UInt32}
    (ha : r.Contains a) : r.IsBlock (a - a % r.bufSize) := by
  obtain ⟨⟨p, hp⟩, ⟨q, hq⟩⟩ := h
  obtain ⟨hstart, hend⟩ := ha
  have hpos := r.bufSize_pos
  have hle : a.toNat % r.bufSize.toNat ≤ a.toNat := Nat.mod_le _ _
  have hbase : (a - a % r.bufSize).toNat = r.bufSize.toNat * (a.toNat / r.bufSize.toNat) := by
    have hdiv := Nat.div_add_mod a.toNat r.bufSize.toNat
    rw [UInt32.toNat_sub_of_le _ _ (by rw [UInt32.le_iff_toNat_le, UInt32.toNat_mod]; exact hle),
      UInt32.toNat_mod]
    omega
  have hlow : p ≤ a.toNat / r.bufSize.toNat := by
    rw [Nat.le_div_iff_mul_le hpos, Nat.mul_comm]
    omega
  have hhigh : a.toNat / r.bufSize.toNat < p + q := by
    rw [Nat.div_lt_iff_lt_mul hpos, Nat.mul_comm, Nat.mul_add]
    omega
  refine ⟨⟨_, hbase⟩, ?_, ?_⟩
  · rw [hbase, hp]
    exact Nat.mul_le_mul_left _ hlow
  · have hmul := Nat.mul_le_mul_left r.bufSize.toNat (Nat.succ_le_of_lt hhigh)
    rw [Nat.mul_succ, Nat.mul_add] at hmul
    rw [hbase, hp, hq]
    exact hmul

/-- What a driver call must look like and return: a write is one whole block of its region. -/
def DriverCall.Ok (regions : List (FlashRegion σ β)) (c : DriverCall β) : Prop :=
  c.ret = 0 ∧ ∀ addr data len, c.call = .write addr data len →
    ∃ r, regions[c.region]? = some r ∧ r.IsBlock addr ∧ len = r.bufSize ∧
      data.length = r.bufSize.toNat

/-- The flash memory behind a list of regions. `cell` reads it from the environment and
`nor i` is the programming rule of the cells of region `i`. A driver call that returns
nonzero may leave anything behind. -/
structure NorFlash (H : Heap σ β) (regions : List (FlashRegion σ β)) where
  cell : σ → UInt32 → β
  nor : Nat → NorCell β
  erased_eq : ∀ {i : Nat} {r}, regions[i]? = some r → r.erased = (nor i).erased
  write_cell : ∀ {i : Nat} {r}, regions[i]? = some r → ∀ {addr data len s},
    (r.write addr data len s).1 = 0 →
    cell (r.write addr data len s).2 = programmed (nor i) (cell s) addr (data.take len.toNat)
  done_cell : ∀ {i : Nat} {r : FlashRegion σ β} {d}, regions[i]? = some r → r.done = some d →
    ∀ {s}, (d s).1 = 0 → cell (d s).2 = cell s
  alloc_cell : ∀ n s, cell (H.alloc n s).2 = cell s
  free_cell : ∀ s, cell (H.free s) = cell s

namespace TargetFlash

/-- The value the next flush programs into the cell at `a`. -/
def pendAt (f : TargetFlash σ β) (a : UInt32) : β :=
  if f.Pending then (bytesAt f.bufAddr (f.buf.getD []) a).getD f.erased else f.erased

theorem pendAt_of_not_pending {f : TargetFlash σ β} (h : ¬ f.Pending) (a : UInt32) :
    f.pendAt a = f.erased := if_neg h

/-- The buffer has the block size, and a pending block is a block of the region, which does
not wrap. -/
structure BlockOk (f : TargetFlash σ β) : Prop where
  length : ∀ {b}, f.buf = some b → b.length = f.bufSize.toNat
  isBlock : f.Pending → f.IsBlock f.bufAddr
  top : f.Pending → f.start.toNat + f.length.toNat < 2 ^ 32

end TargetFlash

variable {H : Heap σ β} {regions : List (FlashRegion σ β)} (M : NorFlash H regions)

/-- Cache and memory of region `i` hold `want` together. -/
structure RegionOk (i : Nat) (f : TargetFlash σ β) (w : World σ β) (want : UInt32 → β) :
    Prop where
  region : regions[i]? = some f.toFlashRegion
  block : f.BlockOk
  coherent : ∀ a, f.Contains a → Coherent (M.nor i) (M.cell w.env a) (f.pendAt a) (want a)
  log : ∀ c ∈ w.log, c.Ok regions

/-- The memory outside of a region is as before. -/
def Frame (r : FlashRegion σ β) (w w' : World σ β) : Prop :=
  ∀ a, ¬ r.Contains a → M.cell w'.env a = M.cell w.env a

variable {M} {i : Nat} {f : TargetFlash σ β} {w : World σ β} {want : UInt32 → β}

theorem Frame.refl (r : FlashRegion σ β) (w : World σ β) : Frame M r w w := fun _ _ => rfl

theorem Frame.trans {r : FlashRegion σ β} {w₁ w₂ w₃ : World σ β} (h : Frame M r w₁ w₂)
    (h' : Frame M r w₂ w₃) : Frame M r w₁ w₃ :=
  fun a ha => (h' a ha).trans (h a ha)

/-- A region whose memory and wanted contents are as before is as it was. -/
theorem RegionOk.congr (h : RegionOk M i f w want) {w' : World σ β} {want' : UInt32 → β}
    (hcell : ∀ a, f.Contains a → M.cell w'.env a = M.cell w.env a)
    (hwant : ∀ a, f.Contains a → want' a = want a) (hlog : ∀ c ∈ w'.log, c.Ok regions) :
    RegionOk M i f w' want' where
  region := h.region
  block := h.block
  log := hlog
  coherent a ha := by
    rw [hcell a ha, hwant a ha]
    exact h.coherent a ha

/-- Flushing the pending block: the region then holds what was wanted with nothing staged. -/
theorem RegionOk.flush (h : RegionOk M i f w want) (hp : f.Pending)
    (hret : (f.writeBlock i w).1 = 0) :
    (∀ a, f.Contains a → M.cell (f.writeBlock i w).2.env a = want a) ∧
      Frame M f.toFlashRegion w (f.writeBlock i w).2 ∧
      ∀ c ∈ (f.writeBlock i w).2.log, c.Ok regions := by
  obtain ⟨b, hb⟩ := Option.ne_none_iff_exists'.mp hp.1
  have hblock := h.block.isBlock hp
  have hlen := h.block.length hb
  have hcell : M.cell (f.writeBlock i w).2.env =
      programmed (M.nor i) (M.cell w.env) f.bufAddr b := by
    unfold TargetFlash.writeBlock at hret ⊢
    rw [World.call_env, M.write_cell h.region hret, hb, Option.getD_some, ← hlen,
      List.take_length]
  have hend : f.bufAddr.toNat + b.length ≤ f.start.toNat + f.length.toNat := by
    rw [hlen]
    exact hblock.2.2
  refine ⟨fun a ha => ?_, fun a ha => ?_, ?_⟩
  · obtain ⟨hprog, _⟩ := h.coherent a ha
    rw [TargetFlash.pendAt, if_pos hp, hb, Option.getD_some, M.erased_eq h.region] at hprog
    rw [hcell, programmed_eq, hprog]
  · rw [hcell]
    apply programmed_of_none
    have htop := h.block.top hp
    have hstart := hblock.2.1
    rw [bytesAt_eq_none_iff (by omega)]
    unfold FlashRegion.Contains at ha
    omega
  · refine forall_mem_call_log h.log ⟨hret, ?_⟩
    intro addr data len hc
    obtain ⟨rfl, rfl, rfl⟩ := FlashCall.write.inj hc
    exact ⟨f.toFlashRegion, h.region, hblock, rfl, by rw [hb]; exact hlen⟩

/-- Making a block the one in the buffer keeps the region's memory together with what is
staged; where a block was pending before, it is flushed. -/
theorem RegionOk.loadBlock (h : RegionOk M i f w want) {base : UInt32}
    (hbuf : f.buf ≠ none) (hbase : f.IsBlock base)
    (htop : f.start.toNat + f.length.toNat < 2 ^ 32)
    (hret : (loadBlock i base f w).1 = 0) :
    RegionOk M i (loadBlock i base f w).2.1 (loadBlock i base f w).2.2 want ∧
      Frame M f.toFlashRegion w (loadBlock i base f w).2.2 ∧
      (loadBlock i base f w).2.1.bufAddr = base := by
  have hvalid : base ≠ invalidAddr := by
    rintro rfl
    have hpos := f.bufSize_pos
    have hend := hbase.2.2
    have hmax : invalidAddr.toNat = 2 ^ 32 - 1 := rfl
    omega
  unfold Flash.loadBlock at hret ⊢
  by_cases hsame : base = f.bufAddr
  · rw [if_neg (not_not_intro hsame)] at hret ⊢
    exact ⟨h, .refl _ _, hsame.symm⟩
  rw [if_pos hsame] at hret ⊢
  -- The new block is all padding: nothing is staged for any cell.
  have hfresh : ∀ a, (TargetFlash.pendAt { f with
      bufAddr := base, buf := some (List.replicate f.bufSize.toNat f.erased) } a) = f.erased := by
    intro a
    unfold TargetFlash.pendAt
    split
    · simp only [Option.getD_some, bytesAt, List.getElem?_replicate]
      split <;> rfl
    · rfl
  have hblock : TargetFlash.BlockOk { f with
      bufAddr := base, buf := some (List.replicate f.bufSize.toNat f.erased) } :=
    { length := by
        intro b hb
        obtain rfl := Option.some.inj hb
        exact List.length_replicate
      isBlock := fun _ => hbase
      top := fun _ => htop }
  by_cases hp : f.bufAddr = invalidAddr
  · simp only [if_neg (not_not_intro hp)] at hret ⊢
    refine ⟨⟨h.region, hblock, fun a ha => ?_, h.log⟩, .refl _ _, trivial⟩
    have hnone := TargetFlash.pendAt_of_not_pending (f := f) (fun hpend => hpend.2 hp) a
    rw [hfresh, ← hnone]
    exact h.coherent a ha
  · simp only [if_pos hp] at hret ⊢
    obtain ⟨hcell, hframe, hlog⟩ := h.flush ⟨hbuf, hp⟩ hret
    refine ⟨⟨h.region, hblock, fun a ha => ?_, hlog⟩, hframe, trivial⟩
    rw [hfresh, hcell a ha, M.erased_eq h.region]
    exact .of_nothing_pending (want a)

/-- Staging bytes for cells that are still wanted erased. -/
theorem RegionOk.copyChunk (h : RegionOk M i f w want) {dest : UInt32} {chunk : List β}
    (hbuf : f.buf ≠ none) (hvalid : f.bufAddr ≠ invalidAddr)
    (hbase : f.bufAddr = dest - dest % f.bufSize)
    (hfits : (dest % f.bufSize).toNat + chunk.length ≤ f.bufSize.toNat)
    (hfree : ∀ a, bytesAt dest chunk a ≠ none → want a = f.erased) :
    RegionOk M i (f.copyChunk (dest % f.bufSize) chunk) w (overlay want dest chunk) := by
  obtain ⟨b, hb⟩ := Option.ne_none_iff_exists'.mp hbuf
  have hp : f.Pending := ⟨hbuf, hvalid⟩
  have hp' : (f.copyChunk (dest % f.bufSize) chunk).Pending :=
    ⟨by simp [TargetFlash.copyChunk, hb], hvalid⟩
  have hlen := h.block.length hb
  have hblock := (h.block.isBlock hp).2
  have htop := h.block.top hp
  have hdest : dest.toNat = f.bufAddr.toNat + (dest % f.bufSize).toNat := by
    rw [hbase, UInt32.toNat_sub_of_le]
    · have : (dest % f.bufSize).toNat ≤ dest.toNat := by
        rw [UInt32.toNat_mod]
        exact Nat.mod_le _ _
      omega
    · rw [UInt32.le_iff_toNat_le, UInt32.toNat_mod]
      exact Nat.mod_le _ _
  have hpatched : (patch b (dest % f.bufSize).toNat chunk).length = f.bufSize.toNat := by
    rw [length_patch (by omega), hlen]
  have hend := hblock.2
  refine ⟨h.region, ⟨?_, fun _ => h.block.isBlock hp, fun _ => htop⟩, fun a ha => ?_, h.log⟩
  · intro b' hb'
    simp only [TargetFlash.copyChunk, hb, Option.map_some] at hb'
    obtain rfl := Option.some.inj hb'
    exact hpatched
  · have hcoh := h.coherent a ha
    have hold : f.pendAt a = (bytesAt f.bufAddr b a).getD f.erased := by
      rw [TargetFlash.pendAt, if_pos hp, hb, Option.getD_some]
    have hnew : (f.copyChunk (dest % f.bufSize) chunk).pendAt a =
        (bytesAt dest chunk a).getD (f.pendAt a) := by
      rw [TargetFlash.pendAt, if_pos hp', hold]
      simp only [TargetFlash.copyChunk, hb, Option.map_some, Option.getD_some]
      rw [bytesAt_patch (by omega) (by omega) hdest, Option.getD_or]
    rw [hnew, overlay]
    cases hbyte : bytesAt dest chunk a with
    | none => exact hcoh
    | some v =>
      rw [hfree a (by rw [hbyte]; exact Option.some_ne_none v), M.erased_eq h.region] at hcoh
      exact hcoh.stage v

/-- The loop moves the wanted contents on by the bytes it is given. The induction is on the
loop; in a turn the block around `dest` is loaded and one chunk is staged in it. -/
theorem RegionOk.writeLoop {r : FlashRegion σ β} {dest len : UInt32} {src : List β}
    (h : RegionOk M i f w want) (hr : f.toFlashRegion = r) (halign : r.Aligned)
    (htop : r.start.toNat + r.length.toNat < 2 ^ 32) (hbuf : f.buf ≠ none)
    (hin : r.ContainsRange dest len.toNat) (hsrc : len.toNat ≤ src.length)
    (hfree : ∀ a, bytesAt dest (src.take len.toNat) a ≠ none → want a = r.erased)
    (hret : (writeBufferedLoop i f dest src len w).1 = 0) :
    RegionOk M i (writeBufferedLoop i f dest src len w).2.1
        (writeBufferedLoop i f dest src len w).2.2
        (overlay want dest (src.take len.toNat)) ∧
      Frame M r w (writeBufferedLoop i f dest src len w).2.2 := by
  fun_induction writeBufferedLoop i f dest src len w generalizing want with
  | case1 f dest src w =>
    rw [UInt32.toNat_zero, List.take_zero, overlay_nil]
    exact ⟨h, .refl _ _⟩
  | case2 f dest src len w hlen offset base l sectlen rest =>
    rename_i ih
    subst hr
    obtain ⟨hl, hrest⟩ := or_eq_zero.mp hret
    have hpos : 0 < sectlen.toNat := sectlen_pos f.bufSize_ne_zero hlen dest
    have hle : sectlen.toNat ≤ len.toNat := sectlen_toNat_le _ len
    have hroom : sectlen.toNat ≤ f.bufSize.toNat - dest.toNat % f.bufSize.toNat := by
      rw [← sub_offset_toNat f.bufSize_ne_zero, min32_toNat]
      exact Nat.min_le_left _ _
    have hoff := offset_lt f.bufSize_ne_zero dest
    obtain ⟨hstart, hend⟩ := hin
    have hbase : f.IsBlock base := halign.isBlock_base ⟨hstart, by omega⟩
    obtain ⟨hload, hframe, haddr⟩ := h.loadBlock hbuf hbase htop hl
    have hbuf' : l.2.1.buf ≠ none := loadBlock_buf hbuf i base w
    have hregion : l.2.1.toFlashRegion = f.toFlashRegion := loadBlock_region i base f w
    have hvalid : l.2.1.bufAddr ≠ invalidAddr := by
      rw [haddr]
      intro hinv
      have hend' := hbase.2.2
      have hpos := f.bufSize_pos
      rw [hinv, show invalidAddr.toNat = 2 ^ 32 - 1 from rfl] at hend'
      omega
    have hchunk : (src.take sectlen.toNat).length = sectlen.toNat := by
      rw [List.length_take]
      omega
    have hsplit : src.take len.toNat =
        src.take sectlen.toNat ++ (src.drop sectlen.toNat).take (len - sectlen).toNat := by
      rw [UInt32.toNat_sub_of_le _ _ (UInt32.le_iff_toNat_le.mpr hle), ← List.take_add,
        Nat.add_sub_cancel' hle]
    have hrestLen : ((src.drop sectlen.toNat).take (len - sectlen).toNat).length =
        len.toNat - sectlen.toNat := by
      rw [List.length_take, List.length_drop,
        UInt32.toNat_sub_of_le _ _ (UInt32.le_iff_toNat_le.mpr hle)]
      omega
    have hdest : (dest + sectlen).toNat = dest.toNat + sectlen.toNat := by
      rw [UInt32.toNat_add]
      omega
    have hlenTake : (src.take len.toNat).length = len.toNat := by
      rw [List.length_take]
      omega
    have hstage : RegionOk M i (l.2.1.copyChunk (dest % l.2.1.bufSize) (src.take sectlen.toNat))
        l.2.2 (overlay want dest (src.take sectlen.toNat)) := hload.copyChunk hbuf' hvalid
      (by rw [hregion]; exact haddr) (by rw [hregion, hchunk, UInt32.toNat_mod]; omega)
      (by
        intro a ha
        rw [hregion]
        apply hfree
        rw [Ne, bytesAt_eq_none_iff (by omega)] at ha ⊢
        omega)
    rw [hregion] at hstage
    obtain ⟨hok, hframe'⟩ := ih hstage hregion (copyChunk_buf hbuf' _ _)
      ⟨by omega, by
        rw [hdest, UInt32.toNat_sub_of_le _ _ (UInt32.le_iff_toNat_le.mpr hle)]
        omega⟩
      (by
        rw [List.length_drop, UInt32.toNat_sub_of_le _ _ (UInt32.le_iff_toNat_le.mpr hle)]
        omega)
      (by
        intro a ha
        rw [Ne, bytesAt_eq_none_iff (by omega)] at ha
        rw [overlay_of_none ((bytesAt_eq_none_iff (by omega)).mpr (by omega))]
        apply hfree
        rw [Ne, bytesAt_eq_none_iff (by omega)]
        omega)
      hrest
    rw [overlay_append hchunk.symm (by omega), ← hsplit] at hok
    exact ⟨hok, hframe.trans hframe'⟩

theorem RegionOk.writeBuffered {dest len : UInt32} {src : List β}
    (h : RegionOk M i f w want) (halign : f.Aligned)
    (htop : f.start.toNat + f.length.toNat < 2 ^ 32)
    (hin : f.ContainsRange dest len.toNat) (hsrc : len.toNat ≤ src.length)
    (hfree : ∀ a, bytesAt dest (src.take len.toNat) a ≠ none → want a = f.erased)
    (hret : (targetFlashWriteBuffered H i f dest src len w).1 = 0) :
    RegionOk M i (targetFlashWriteBuffered H i f dest src len w).2.1
        (targetFlashWriteBuffered H i f dest src len w).2.2
        (overlay want dest (src.take len.toNat)) ∧
      Frame M f.toFlashRegion w (targetFlashWriteBuffered H i f dest src len w).2.2 := by
  unfold targetFlashWriteBuffered at hret ⊢
  cases hbuf : f.buf with
  | some b =>
    simp only [hbuf] at hret
    exact h.writeLoop rfl halign htop (by rw [hbuf]; exact Option.some_ne_none b) hin hsrc hfree
      hret
  | none =>
    simp only [hbuf] at hret
    by_cases halloc : (H.alloc f.bufSize w.env).1 = true
    · simp only [if_pos halloc] at hret ⊢
      have hnone : ¬ f.Pending := fun hp => hp.1 hbuf
      have hfresh : RegionOk M i { f with
            bufAddr := invalidAddr, buf := some (List.replicate f.bufSize.toNat H.zero) }
          (w.call i (.alloc f.bufSize) (0, (H.alloc f.bufSize w.env).2)).2 want := by
        refine ⟨h.region, ⟨?_, fun hp => absurd rfl hp.2, fun _ => htop⟩, fun a ha => ?_, ?_⟩
        · intro b hb
          obtain rfl := Option.some.inj hb
          exact List.length_replicate
        · have hcoh := h.coherent a ha
          rw [TargetFlash.pendAt_of_not_pending hnone] at hcoh
          rw [TargetFlash.pendAt_of_not_pending (fun hp => hp.2 rfl), World.call_env,
            M.alloc_cell]
          exact hcoh
        · exact forall_mem_call_log h.log ⟨rfl, fun _ _ _ hc => nomatch hc⟩
      obtain ⟨hok, hframe⟩ :=
        hfresh.writeLoop rfl halign htop (Option.some_ne_none _) hin hsrc hfree hret
      refine ⟨hok, Frame.trans (fun a _ => ?_) hframe⟩
      rw [World.call_env, M.alloc_cell]
    · simp only [if_neg halloc] at hret
      exact absurd hret (by decide)

theorem RegionOk.doneBuffered (h : RegionOk M i f w want)
    (hret : (targetFlashDoneBuffered H i f w).1 = 0) :
    RegionOk M i (targetFlashDoneBuffered H i f w).2.1 (targetFlashDoneBuffered H i f w).2.2
        want ∧
      Frame M f.toFlashRegion w (targetFlashDoneBuffered H i f w).2.2 ∧
      ¬ (targetFlashDoneBuffered H i f w).2.1.Pending := by
  unfold targetFlashDoneBuffered at hret ⊢
  by_cases hp : f.Pending
  · simp only [if_pos hp] at hret ⊢
    obtain ⟨hcell, hframe, hlog⟩ := h.flush hp hret
    have hclear : ¬ TargetFlash.Pending { f with bufAddr := invalidAddr, buf := none } :=
      fun hp' => hp'.1 rfl
    refine ⟨⟨h.region, ⟨fun hb => (Option.some_ne_none _ hb.symm).elim,
      fun hp' => absurd hp' hclear, fun hp' => absurd hp' hclear⟩, fun a ha => ?_, hlog⟩,
      fun a ha => ?_, hclear⟩
    · rw [TargetFlash.pendAt_of_not_pending hclear, M.free_cell, hcell a ha,
        M.erased_eq h.region]
      exact .of_nothing_pending (want a)
    · rw [M.free_cell]
      exact hframe a ha
  · simp only [if_neg hp] at hret ⊢
    exact ⟨h, .refl _ _, hp⟩

theorem RegionOk.callDone (h : RegionOk M i f w want) (hret : (f.callDone i w).1 = 0) :
    M.cell (f.callDone i w).2.env = M.cell w.env ∧
      ∀ c ∈ (f.callDone i w).2.log, c.Ok regions := by
  unfold TargetFlash.callDone at hret ⊢
  cases hd : f.done with
  | none => exact ⟨rfl, h.log⟩
  | some d =>
    simp only [hd] at hret
    exact ⟨M.done_cell h.region hd hret,
      forall_mem_call_log h.log ⟨hret, fun _ _ _ hc => nomatch hc⟩⟩

end MiyakoLink.Flash
