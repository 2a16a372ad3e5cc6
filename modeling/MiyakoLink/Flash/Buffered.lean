import Mathlib.Tactic.Common
import MiyakoLink.Flash.Region

/-!
# The buffered flash operations of `target.c`

`targetFlashErase`, `targetFlashWrite` and `targetFlashDone` with the block cache below
them. A driver call gets the index of its region in the list, under which it is recorded.

* `tmplen_bounds`: the part of a request handed to one region is never empty and never
  longer than the request, so the loops end; `tmplen_toNat` is its length when the request
  stays below the top of the address space.
-/

namespace MiyakoLink.Flash

open Lib

variable {σ β : Type}

/-! ## The write cache of one region -/

/-- The part of the loop body that makes `base` the block held in the buffer. -/
def loadBlock (i : Nat) (base : UInt32) (f : TargetFlash σ β) (w : World σ β) :
    Ret × TargetFlash σ β × World σ β :=
  if base ≠ f.bufAddr then
    let r := if f.bufAddr ≠ invalidAddr then f.writeBlock i w else (0, w)
    (r.1, { f with bufAddr := base, buf := some (List.replicate f.bufSize.toNat f.erased) }, r.2)
  else
    (0, f, w)

/-- `memcpy(f->buf + offset, src, sectlen)`. -/
def TargetFlash.copyChunk (f : TargetFlash σ β) (offset : UInt32) (chunk : List β) :
    TargetFlash σ β :=
  { f with buf := f.buf.map fun b => patch b offset.toNat chunk }

theorem min32_ne_zero {x y : UInt32} (hx : x ≠ 0) (hy : y ≠ 0) : min32 x y ≠ 0 := by
  unfold min32
  split <;> assumption

theorem sectlen_toNat_le (x len : UInt32) : (min32 x len).toNat ≤ len.toNat := by
  rw [min32_toNat]
  omega

/-- The offset of an address in its block is below the block size. -/
theorem offset_lt {b : UInt32} (hb : b ≠ 0) (x : UInt32) : (x % b).toNat < b.toNat := by
  have hpos : 0 < b.toNat := by
    have := mt UInt32.toNat_inj.mp hb
    simp only [UInt32.toNat_zero] at this
    omega
  rw [UInt32.toNat_mod]
  exact Nat.mod_lt _ hpos

theorem sub_offset_toNat {b : UInt32} (hb : b ≠ 0) (x : UInt32) :
    (b - x % b).toNat = b.toNat - x.toNat % b.toNat := by
  rw [UInt32.toNat_sub_of_le, UInt32.toNat_mod]
  exact UInt32.le_iff_toNat_le.mpr (Nat.le_of_lt (offset_lt hb x))

theorem sectlen_pos {b len : UInt32} (hb : b ≠ 0) (hlen : len ≠ 0) (x : UInt32) :
    0 < (min32 (b - x % b) len).toNat := by
  have hoff := offset_lt hb x
  rw [UInt32.toNat_mod] at hoff
  have hpos : 0 < len.toNat := by
    have := mt UInt32.toNat_inj.mp hlen
    simp only [UInt32.toNat_zero] at this
    omega
  rw [min32_toNat, sub_offset_toNat hb]
  omega

theorem sub_toNat_lt {len s : UInt32} (hs : 0 < s.toNat) (hle : s.toNat ≤ len.toNat) :
    (len - s).toNat < len.toNat := by
  rw [UInt32.toNat_sub_of_le _ _ (UInt32.le_iff_toNat_le.mpr hle)]
  omega

@[simp] theorem loadBlock_region (i : Nat) (base : UInt32) (f : TargetFlash σ β)
    (w : World σ β) : (loadBlock i base f w).2.1.toFlashRegion = f.toFlashRegion := by
  unfold loadBlock
  split <;> rfl

theorem loadBlock_buf {f : TargetFlash σ β} (h : f.buf ≠ none) (i : Nat) (base : UInt32)
    (w : World σ β) : (loadBlock i base f w).2.1.buf ≠ none := by
  unfold loadBlock
  split
  · exact Option.some_ne_none _
  · exact h

theorem copyChunk_buf {f : TargetFlash σ β} (h : f.buf ≠ none) (offset : UInt32)
    (chunk : List β) : (f.copyChunk offset chunk).buf ≠ none :=
  mt Option.map_eq_none_iff.mp h

/-- The loop of `target_flash_write_buffered`. -/
def writeBufferedLoop (i : Nat) (f : TargetFlash σ β) (dest : UInt32) (src : List β)
    (len : UInt32) (w : World σ β) : Ret × TargetFlash σ β × World σ β :=
  if _ : len = 0 then
    (0, f, w)
  else
    let offset := dest % f.bufSize
    let base := dest - offset
    let l := loadBlock i base f w
    let sectlen := min32 (f.bufSize - offset) len
    let r := writeBufferedLoop i (l.2.1.copyChunk offset (src.take sectlen.toNat))
      (dest + sectlen) (src.drop sectlen.toNat) (len - sectlen) l.2.2
    (l.1 ||| r.1, r.2)
termination_by len.toNat
decreasing_by
  exact sub_toNat_lt (sectlen_pos f.bufSize_ne_zero ‹_› dest) (sectlen_toNat_le _ len)

def targetFlashWriteBuffered (H : Heap σ β) (i : Nat) (f : TargetFlash σ β) (dest : UInt32)
    (src : List β) (len : UInt32) (w : World σ β) : Ret × TargetFlash σ β × World σ β :=
  match f.buf with
  | some _ => writeBufferedLoop i f dest src len w
  | none =>
    let a := H.alloc f.bufSize w.env
    let r := w.call i (.alloc f.bufSize) (if a.1 then 0 else 1, a.2)
    if a.1 then
      writeBufferedLoop i
        { f with bufAddr := invalidAddr, buf := some (List.replicate f.bufSize.toNat H.zero) }
        dest src len r.2
    else
      (1, f, r.2)

def targetFlashDoneBuffered (H : Heap σ β) (i : Nat) (f : TargetFlash σ β) (w : World σ β) :
    Ret × TargetFlash σ β × World σ β :=
  if f.Pending then
    let r := f.writeBlock i w
    (r.1, { f with bufAddr := invalidAddr, buf := none },
      { r.2 with env := H.free r.2.env })
  else
    (0, f, w)

@[simp] theorem writeBufferedLoop_region (i : Nat) (f : TargetFlash σ β) (dest : UInt32)
    (src : List β) (len : UInt32) (w : World σ β) :
    (writeBufferedLoop i f dest src len w).2.1.toFlashRegion = f.toFlashRegion := by
  fun_induction writeBufferedLoop i f dest src len w with
  | case1 => rfl
  | case2 f dest src len w =>
    rename_i ih
    exact ih.trans (loadBlock_region _ _ f w)

@[simp] theorem targetFlashWriteBuffered_region (H : Heap σ β) (i : Nat) (f : TargetFlash σ β)
    (dest : UInt32) (src : List β) (len : UInt32) (w : World σ β) :
    (targetFlashWriteBuffered H i f dest src len w).2.1.toFlashRegion = f.toFlashRegion := by
  unfold targetFlashWriteBuffered
  split
  · exact writeBufferedLoop_region i f dest src len w
  · dsimp only
    split
    · exact writeBufferedLoop_region i _ dest src len _
    · rfl

@[simp] theorem targetFlashDoneBuffered_region (H : Heap σ β) (i : Nat) (f : TargetFlash σ β)
    (w : World σ β) :
    (targetFlashDoneBuffered H i f w).2.1.toFlashRegion = f.toFlashRegion := by
  unfold targetFlashDoneBuffered
  split <;> rfl

/-! ## The operations over the list of regions -/

/-- `MIN(addr + len, f->start + f->length) - addr`: the part of a request of `len` bytes at
`addr` that goes to region `f`. -/
def FlashRegion.tmplen (f : FlashRegion σ β) (addr len : UInt32) : UInt32 :=
  min32 (addr + len) (f.start + f.length) - addr

theorem covers_iff {f : FlashRegion σ β} {addr : UInt32} :
    f.covers addr = true ↔ f.start.toNat ≤ addr.toNat ∧
      addr.toNat < (f.start.toNat + f.length.toNat) % 2 ^ 32 := by
  simp only [FlashRegion.covers, Bool.and_eq_true, decide_eq_true_eq,
    UInt32.le_iff_toNat_le, UInt32.lt_iff_toNat_lt, UInt32.toNat_add]

/-- A region whose end wraps covers nothing, so an address that is covered lies in it. -/
theorem covers_toNat {f : FlashRegion σ β} {addr : UInt32} (h : f.covers addr = true) :
    f.start.toNat ≤ addr.toNat ∧ addr.toNat < f.start.toNat + f.length.toNat ∧
      f.start.toNat + f.length.toNat < 2 ^ 32 := by
  obtain ⟨hstart, hend⟩ := covers_iff.mp h
  have hs := f.start.toNat_lt
  have hl := f.length.toNat_lt
  omega

/-- The part handed to a region is nonempty and within the request. When the request wraps
it is all of the request. -/
theorem tmplen_bounds {f : FlashRegion σ β} {addr len : UInt32} (h : f.covers addr = true)
    (hlen : len ≠ 0) :
    0 < (f.tmplen addr len).toNat ∧ (f.tmplen addr len).toNat ≤ len.toNat := by
  obtain ⟨hstart, hend, htop⟩ := covers_toNat h
  have ha := addr.toNat_lt
  have hl := len.toNat_lt
  have hpos : 0 < len.toNat := by
    have := mt UInt32.toNat_inj.mp hlen
    simp only [UInt32.toNat_zero] at this
    omega
  simp only [FlashRegion.tmplen, UInt32.toNat_sub, min32_toNat, UInt32.toNat_add]
  omega

theorem tmplen_toNat {f : FlashRegion σ β} {addr len : UInt32} (h : f.covers addr = true)
    (hnowrap : addr.toNat + len.toNat < 2 ^ 32) :
    (f.tmplen addr len).toNat =
      min len.toNat (f.start.toNat + f.length.toNat - addr.toNat) := by
  obtain ⟨hstart, hend, htop⟩ := covers_toNat h
  simp only [FlashRegion.tmplen, UInt32.toNat_sub, min32_toNat, UInt32.toNat_add]
  omega

theorem flashForAddr_eq_some {flash : List (TargetFlash σ β)} {addr : UInt32}
    {i : Fin flash.length} (h : flashForAddr flash addr = some i) :
    (flash.get i).covers addr = true := by
  unfold flashForAddr at h
  rw [List.findFinIdx?_eq_some_iff] at h
  exact h.1

/-- The loop of `target_flash_erase`, with its accumulated result. -/
def targetFlashEraseLoop (flash : List (TargetFlash σ β)) (ret : Ret) (addr len : UInt32)
    (w : World σ β) : Ret × World σ β :=
  if _ : len = 0 then
    (ret, w)
  else
    match _ : flashForAddr flash addr with
    | none => (ret, w)
    | some i =>
      let f := flash.get i
      let tmplen := f.tmplen addr len
      let r := w.call i (.erase addr tmplen) (f.erase addr tmplen w.env)
      targetFlashEraseLoop flash (ret ||| r.1) (addr + tmplen) (len - tmplen) r.2
termination_by len.toNat
decreasing_by
  have hb := tmplen_bounds (flashForAddr_eq_some ‹_›) ‹_›
  exact sub_toNat_lt hb.1 hb.2

def targetFlashErase (flash : List (TargetFlash σ β)) (addr len : UInt32) (w : World σ β) :
    Ret × World σ β :=
  targetFlashEraseLoop flash 0 addr len w

/-- The loop of `target_flash_write`, with its accumulated result. Unlike an erase, a write
that reaches an unmapped address fails. -/
def targetFlashWriteLoop (H : Heap σ β) (flash : List (TargetFlash σ β)) (ret : Ret)
    (dest : UInt32) (src : List β) (len : UInt32) (w : World σ β) :
    Ret × List (TargetFlash σ β) × World σ β :=
  if _ : len = 0 then
    (ret, flash, w)
  else
    match _ : flashForAddr flash dest with
    | none => (1, flash, w)
    | some i =>
      let f := flash.get i
      let tmplen := f.tmplen dest len
      let r := targetFlashWriteBuffered H i f dest src tmplen w
      targetFlashWriteLoop H (flash.set i r.2.1) (ret ||| r.1) (dest + tmplen)
        (src.drop tmplen.toNat) (len - tmplen) r.2.2
termination_by len.toNat
decreasing_by
  have hb := tmplen_bounds (flashForAddr_eq_some ‹_›) ‹_›
  exact sub_toNat_lt hb.1 hb.2

def targetFlashWrite (H : Heap σ β) (flash : List (TargetFlash σ β)) (dest : UInt32)
    (src : List β) (len : UInt32) (w : World σ β) :
    Ret × List (TargetFlash σ β) × World σ β :=
  targetFlashWriteLoop H flash 0 dest src len w

/-- `f->done(f)` where the driver has one. -/
def TargetFlash.callDone (f : TargetFlash σ β) (i : Nat) (w : World σ β) : Ret × World σ β :=
  match f.done with
  | none => (0, w)
  | some done => w.call i .done (done w.env)

/-- The loop of `target_flash_done` over the regions from index `i` on. It leaves at the
first region whose flush or `done` fails. -/
def targetFlashDoneFrom (H : Heap σ β) (i : Nat) :
    List (TargetFlash σ β) → World σ β → Ret × List (TargetFlash σ β) × World σ β
  | [], w => (0, [], w)
  | f :: fs, w =>
    let d := targetFlashDoneBuffered H i f w
    if d.1 ≠ 0 then
      (d.1, d.2.1 :: fs, d.2.2)
    else
      let c := d.2.1.callDone i d.2.2
      if c.1 ≠ 0 then
        (c.1, d.2.1 :: fs, c.2)
      else
        let r := targetFlashDoneFrom H (i + 1) fs c.2
        (r.1, d.2.1 :: r.2.1, r.2.2)

def targetFlashDone (H : Heap σ β) (flash : List (TargetFlash σ β)) (w : World σ β) :
    Ret × List (TargetFlash σ β) × World σ β :=
  targetFlashDoneFrom H 0 flash w

end MiyakoLink.Flash
