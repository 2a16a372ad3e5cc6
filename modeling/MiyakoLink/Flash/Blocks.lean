import MiyakoLink.Flash.Calls
import MiyakoLink.Lib.BlockBuffer
import MiyakoLink.Lib.Image

/-!
# The write cache of a region as a buffer of one block

A driver whose write function programs whole blocks is a `Paged`. With its cache in front of it a
region is a `BlockBuffer` in front of the flash, padded with the `erased` byte of the region.

* `Paged.writeBuffered_represents`: a write that succeeds stores its bytes one after the other.
* `Paged.doneBuffered_read`: the flush that ends a session programs the block that is held.
-/

namespace MiyakoLink.Flash

open Lib

variable {σ β : Type}

/-- A region whose driver programs blocks of `size` bytes: `read` is what is read from the flash,
`prog` what programming makes of a byte, and `inside` are the addresses that are written to. -/
structure Paged (σ β : Type) where
  region : FlashRegion σ β
  val : β → UInt8
  read : σ → UInt32 → UInt8
  prog : UInt8 → UInt8 → UInt8
  size : Nat
  inside : UInt32 → Prop
  bufSize_eq : region.bufSize.toNat = size
  size_gt : 1 < size
  size_dvd : size ∣ 2 ^ 32
  write_read : ∀ (dest : UInt32) (src : List β) (s : σ), size ∣ dest.toNat →
    (∃ a, inside a ∧ a.toNat / size = dest.toNat / size) → src.length = size →
    (region.write dest src region.bufSize s).1 = 0 → ∀ a,
      read (region.write dest src region.bufSize s).2 a =
        if a.toNat / size = dest.toNat / size then
          prog (read s a) (val (src.getD (a - dest).toNat region.erased))
        else read s a

abbrev Buffer := BlockBuffer UInt32 Nat UInt8

namespace Paged

variable (P : Paged σ β)

/-- The block of an address. -/
abbrev blockOf (a : UInt32) : Nat := a.toNat / P.size

/-- What the cache is padded with. -/
abbrev pad : UInt8 := P.val P.region.erased

/-- A write to the buffer. -/
abbrev store (B : Buffer) (w : UInt32 × UInt8) : Buffer := B.write P.blockOf P.prog P.pad w

abbrev written (B : Buffer) : UInt32 → UInt8 := B.flushed P.blockOf P.prog

/-- The bytes of a cache are those of a block. -/
def Holds (f : TargetFlash σ β) (b : List β) (c : UInt32 → UInt8) : Prop :=
  f.buf = some b ∧ b.length = P.size ∧
    ∀ o < P.size, (b[o]?).map P.val = some (c (f.bufAddr + UInt32.ofNat o))

/-- The region with its cache stands for a buffer in front of the flash. -/
structure Represents (f : TargetFlash σ β) (s : σ) (B : Buffer) : Prop where
  region : f.toFlashRegion = P.region
  mem : ∀ a, B.mem a = P.read s a
  empty : B.held = none → f.buf = none ∨ f.bufAddr = invalidAddr
  held : ∀ k c, B.held = some (k, c) → f.bufAddr.toNat = P.size * k ∧
    (∃ a, P.inside a ∧ P.blockOf a = k) ∧ ∃ b, P.Holds f b c

variable {P} {f : TargetFlash σ β} {B : Buffer}

/-! ## Blocks -/

theorem size_pos (P : Paged σ β) : 0 < P.size := Nat.lt_of_succ_lt P.size_gt

/-- A block that begins in the address space ends there. -/
theorem block_le {base : UInt32} {k : Nat} (hbase : base.toNat = P.size * k) :
    base.toNat + P.size ≤ 2 ^ 32 := by
  obtain ⟨m, hm⟩ := P.size_dvd
  have hlt := base.toNat_lt
  rw [hbase, hm] at hlt
  have hk := Nat.mul_le_mul_left P.size (Nat.succ_le_of_lt (Nat.lt_of_mul_lt_mul_left hlt))
  rw [Nat.mul_succ] at hk
  omega

theorem size_le (P : Paged σ β) : P.size ≤ 2 ^ 32 :=
  Nat.le_of_dvd (by decide) P.size_dvd

theorem blockOf_base {base : UInt32} {k : Nat} (hbase : base.toNat = P.size * k) :
    P.blockOf base = k := by
  unfold blockOf
  rw [hbase, Nat.mul_div_cancel_left _ P.size_pos]

theorem blockOf_eq_iff {a base : UInt32} {k : Nat} (hbase : base.toNat = P.size * k) :
    P.blockOf a = k ↔ (a - base).toNat < P.size := by
  have ha := a.toNat_lt
  have hlt := base.toNat_lt
  have hend := block_le hbase
  have hsize := P.size_pos
  have hdiv : P.blockOf a = k ↔ base.toNat ≤ a.toNat ∧ a.toNat < base.toNat + P.size := by
    rw [Nat.div_eq_iff hsize, hbase, Nat.mul_comm k]
    omega
  rw [hdiv, UInt32.toNat_sub]
  omega

theorem ne_invalidAddr {base : UInt32} {k : Nat} (hbase : base.toNat = P.size * k) :
    base ≠ invalidAddr := by
  rintro rfl
  have hend := block_le hbase
  have hsize := P.size_gt
  have hlast : invalidAddr.toNat = 2 ^ 32 - 1 := rfl
  omega

theorem Represents.bufSize {s : σ} (h : P.Represents f s B) : f.bufSize.toNat = P.size := by
  rw [h.region]
  exact P.bufSize_eq

theorem Represents.ne_none {s : σ} (h : P.Represents f s B) (hB : B.held ≠ none) :
    f.buf ≠ none ∧ f.bufAddr ≠ invalidAddr := by
  obtain ⟨⟨k, c⟩, hkc⟩ := Option.ne_none_iff_exists'.mp hB
  obtain ⟨haddr, -, b, hb, -⟩ := h.held k c hkc
  exact ⟨hb ▸ Option.some_ne_none b, ne_invalidAddr haddr⟩

/-! ## The cache -/

/-- The block that is held is programmed. -/
theorem Represents.writeBlock {w : World σ β} (h : P.Represents f w.env B) (hp : f.Pending)
    (i : Nat) (hret : (f.writeBlock i w).1 = 0) (a : UInt32) :
    P.read (f.writeBlock i w).2.env a = P.written B a := by
  unfold written BlockBuffer.flushed
  cases hB : B.held with
  | none => exact absurd (h.empty hB) (not_or.mpr hp)
  | some kc =>
    obtain ⟨k, c⟩ := kc
    obtain ⟨haddr, ⟨x, hx, hxk⟩, b, hb, hlen, hbytes⟩ := h.held k c hB
    have hblock := blockOf_base haddr
    have hcall : f.write f.bufAddr (f.buf.getD []) f.bufSize w.env =
        P.region.write f.bufAddr b P.region.bufSize w.env := by
      rw [hb, h.region]
      rfl
    rw [TargetFlash.writeBlock, World.call_ret, hcall] at hret
    rw [TargetFlash.writeBlock, World.call_env, hcall,
      P.write_read f.bufAddr b w.env ⟨k, haddr⟩ ⟨x, hx, hxk.trans hblock.symm⟩ hlen
        hret]
    dsimp only
    by_cases ha : P.blockOf a = k
    · have hbyte := hbytes _ ((blockOf_eq_iff haddr).mp ha)
      rw [UInt32.ofNat_toNat, UInt32.add_comm, UInt32.sub_add_cancel] at hbyte
      obtain ⟨v, hv, hval⟩ := Option.map_eq_some_iff.mp hbyte
      rw [if_pos (ha.trans hblock.symm), if_pos ha, h.mem a, List.getD_eq_getElem?_getD, hv]
      exact congrArg _ hval
    · rw [if_neg fun heq => ha (heq.trans hblock), if_neg ha, h.mem a]

/-- A fresh block is one of padding. -/
theorem holds_fresh (h : f.toFlashRegion = P.region) (base : UInt32) :
    P.Holds { f with bufAddr := base, buf := some (List.replicate f.bufSize.toNat f.erased) }
      (List.replicate f.bufSize.toNat f.erased) fun _ => P.pad := by
  have hsize : f.bufSize.toNat = P.size := by
    rw [h]
    exact P.bufSize_eq
  have herased : f.erased = P.region.erased := congrArg FlashRegion.erased h
  refine ⟨rfl, ?_, fun o ho => ?_⟩
  · rw [List.length_replicate, hsize]
  · rw [hsize, herased, List.getElem?_replicate, if_pos ho]
    rfl

/-- A block is loaded. -/
theorem Represents.load {w : World σ β} (h : P.Represents f w.env B) (hbuf : f.buf ≠ none)
    (i : Nat) {base : UInt32} {k : Nat} (hbase : base.toNat = P.size * k)
    (hret : (loadBlock i base f w).1 = 0) :
    (loadBlock i base f w).2.1.bufAddr = base ∧
      (∃ b, P.Holds (loadBlock i base f w).2.1 b (B.load P.blockOf P.prog P.pad k).2) ∧
      ∀ a, (B.load P.blockOf P.prog P.pad k).1 a = P.read (loadBlock i base f w).2.2.env a := by
  unfold loadBlock at hret ⊢
  unfold BlockBuffer.load
  by_cases hsame : base ≠ f.bufAddr
  · rw [if_pos hsame] at hret ⊢
    dsimp only at hret ⊢
    have hfresh := holds_fresh h.region base
    cases hB : B.held with
    | none =>
      have hinvalid : f.bufAddr = invalidAddr := (h.empty hB).resolve_left hbuf
      rw [if_neg (not_not.mpr hinvalid)]
      exact ⟨rfl, ⟨_, hfresh⟩, h.mem⟩
    | some kc =>
      obtain ⟨k', c⟩ := kc
      obtain ⟨haddr, -⟩ := h.held k' c hB
      have hk : k ≠ k' := fun hk => hsame (UInt32.toNat_inj.mp (by rw [hbase, haddr, hk]))
      have hvalid := ne_invalidAddr haddr
      rw [if_pos hvalid] at hret ⊢
      dsimp only
      rw [if_neg hk]
      exact ⟨rfl, ⟨_, hfresh⟩, fun a => (h.writeBlock ⟨hbuf, hvalid⟩ i hret a).symm⟩
  · rw [if_neg hsame]
    obtain rfl := not_not.mp hsame
    cases hB : B.held with
    | none => exact absurd (h.empty hB) (not_or.mpr ⟨hbuf, ne_invalidAddr hbase⟩)
    | some kc =>
      obtain ⟨k', c⟩ := kc
      obtain ⟨haddr, -, hheld⟩ := h.held k' c hB
      have hk : k = k' := Nat.eq_of_mul_eq_mul_left P.size_pos (hbase.symm.trans haddr)
      dsimp only
      rw [if_pos hk]
      exact ⟨rfl, hheld, h.mem⟩

/-- The chunk is copied into the block that is held. -/
theorem Holds.copyChunk {b : List β} {c : UInt32 → UInt8} (h : P.Holds f b c) {offset : UInt32}
    {chunk : List β} (hfits : offset.toNat + chunk.length ≤ P.size)
    (haddr : f.bufAddr.toNat + P.size ≤ 2 ^ 32) :
    ∃ b', P.Holds (f.copyChunk offset chunk) b'
      (overlay c (f.bufAddr + offset) (chunk.map P.val)) := by
  obtain ⟨hb, hlen, hbytes⟩ := h
  have hsize := P.size_pos
  have hbase := f.bufAddr.toNat_lt
  rw [← hlen] at hfits
  refine ⟨patch b offset.toNat chunk, ?_, ?_, fun o ho => ?_⟩
  · rw [TargetFlash.copyChunk, hb]
    rfl
  · rw [length_patch hfits, hlen]
  · have hnat : (f.bufAddr + UInt32.ofNat o).toNat = f.bufAddr.toNat + o := by
      rw [UInt32.toNat_add, UInt32.toNat_ofNat_of_lt' (show o < 2 ^ 32 by omega)]
      omega
    show ((patch b offset.toNat chunk)[o]?).map P.val =
      some (overlay c (f.bufAddr + offset) (chunk.map P.val) (f.bufAddr + UInt32.ofNat o))
    have hdist : (f.bufAddr + UInt32.ofNat o - (f.bufAddr + offset)).toNat =
        (2 ^ 32 - offset.toNat + o) % 2 ^ 32 := by
      have hoffset := offset.toNat_lt
      rw [UInt32.toNat_sub, hnat, UInt32.toNat_add]
      omega
    rw [getElem?_patch hfits, overlay, bytesAt, hdist, List.getElem?_map]
    by_cases hin : offset.toNat ≤ o ∧ o < offset.toNat + chunk.length
    · rw [if_pos hin, show (2 ^ 32 - offset.toNat + o) % 2 ^ 32 = o - offset.toNat by omega,
        List.getElem?_eq_getElem (by omega)]
      rfl
    · have hout : chunk.length ≤ (2 ^ 32 - offset.toNat + o) % 2 ^ 32 := by
        have hoffset := offset.toNat_lt
        omega
      rw [if_neg hin, hbytes o ho, List.getElem?_eq_none hout]
      rfl

/-! ## Writes -/

theorem placed_block {dest : UInt32} {data : List UInt8}
    (h : dest.toNat % P.size + data.length ≤ P.size) :
    ∀ w ∈ placed dest data, P.blockOf w.1 = P.blockOf dest := by
  intro w hw
  obtain ⟨j, hj, hw⟩ := mem_placed hw
  have hdest := dest.toNat_lt
  have hsize := P.size_le
  have hbase : (dest - UInt32.ofNat (dest.toNat % P.size)).toNat = P.size * P.blockOf dest := by
    show _ = P.size * (dest.toNat / P.size)
    have hdiv := Nat.div_add_mod dest.toNat P.size
    have hle := Nat.mod_le dest.toNat P.size
    have hmod : dest.toNat % P.size < 2 ^ 32 := Nat.lt_of_le_of_lt hle hdest
    rw [UInt32.toNat_sub, UInt32.toNat_ofNat_of_lt' hmod]
    omega
  rw [blockOf_eq_iff hbase, hw]
  have hdist : (dest + UInt32.ofNat j - (dest - UInt32.ofNat (dest.toNat % P.size))).toNat =
      dest.toNat % P.size + j := by
    rw [UInt32.toNat_sub, UInt32.toNat_sub, UInt32.toNat_add,
      UInt32.toNat_ofNat_of_lt' (show j < 2 ^ 32 by omega),
      UInt32.toNat_ofNat_of_lt' (show dest.toNat % P.size < 2 ^ 32 by omega)]
    have hmod := Nat.mod_lt dest.toNat P.size_pos
    omega
  omega

/-- What lies in one block is stored by loading the block and placing the data. -/
theorem foldl_store_block (B : Buffer) {dest : UInt32} {data : List UInt8} (hne : data ≠ [])
    (h : dest.toNat % P.size + data.length ≤ P.size) :
    (placed dest data).foldl P.store B =
      ⟨(B.load P.blockOf P.prog P.pad (P.blockOf dest)).1, some (P.blockOf dest,
        overlay (B.load P.blockOf P.prog P.pad (P.blockOf dest)).2 dest data)⟩ := by
  have hblock := placed_block h
  have hsize := P.size_le
  rw [← foldl_placed _ dest (show data.length ≤ 2 ^ 32 by omega)]
  cases data with
  | nil => exact absurd rfl hne
  | cons x data => exact BlockBuffer.foldl_block P.blockOf P.prog P.pad B hblock

/-- A turn of the loop of `target_flash_write_buffered`. -/
theorem Represents.turn {w : World σ β} (h : P.Represents f w.env B) (hbuf : f.buf ≠ none)
    (i : Nat) (dest : UInt32) (hinside : P.inside dest) {chunk : List β} (hne : chunk ≠ [])
    (hfits : dest.toNat % P.size + chunk.length ≤ P.size)
    (hret : (loadBlock i (dest - dest % f.bufSize) f w).1 = 0) :
    P.Represents ((loadBlock i (dest - dest % f.bufSize) f w).2.1.copyChunk (dest % f.bufSize) chunk)
      (loadBlock i (dest - dest % f.bufSize) f w).2.2.env
      ((placed dest (chunk.map P.val)).foldl P.store B) := by
  have hoff : (dest % f.bufSize).toNat = dest.toNat % P.size := by
    rw [UInt32.toNat_mod, h.bufSize]
  have hbase : (dest - dest % f.bufSize).toNat = P.size * P.blockOf dest := by
    show _ = P.size * (dest.toNat / P.size)
    have hdiv := Nat.div_add_mod dest.toNat P.size
    have hle := Nat.mod_le dest.toNat P.size
    rw [UInt32.toNat_sub_of_le _ _ (UInt32.le_iff_toNat_le.mpr (by rw [hoff]; exact hle)), hoff]
    omega
  have hregion := loadBlock_region i (dest - dest % f.bufSize) f w
  obtain ⟨haddr, ⟨b, hb⟩, hmem⟩ := h.load hbuf i hbase hret
  have hend : dest.toNat % P.size + chunk.length ≤ P.size := hfits
  rw [← hoff] at hend
  obtain ⟨b', hb'⟩ := hb.copyChunk hend (by rw [haddr]; exact block_le hbase)
  rw [haddr, UInt32.sub_add_cancel] at hb'
  rw [foldl_store_block B (by simpa using hne) (by rw [List.length_map]; exact hfits)]
  refine ⟨hregion.trans h.region, hmem, fun hheld => (nomatch hheld), fun k c hheld => ?_⟩
  cases hheld
  exact ⟨(congrArg UInt32.toNat haddr).trans hbase, ⟨dest, hinside, rfl⟩, b', hb'⟩

theorem writeBufferedLoop_represents {w : World σ β} (h : P.Represents f w.env B)
    (hbuf : f.buf ≠ none) {i : Nat} {dest len : UInt32} {src : List β}
    (hsrc : len.toNat ≤ src.length)
    (hinside : ∀ k < len.toNat, P.inside (dest + UInt32.ofNat k))
    (hret : (writeBufferedLoop i f dest src len w).1 = 0) :
    P.Represents (writeBufferedLoop i f dest src len w).2.1
      (writeBufferedLoop i f dest src len w).2.2.env
      ((placed dest ((src.take len.toNat).map P.val)).foldl P.store B) := by
  fun_induction writeBufferedLoop i f dest src len w generalizing B with
  | case1 f dest src w => exact h
  | case2 f dest src len w hlen offset base l sectlen r =>
    rename_i ih
    have hsize := h.bufSize
    have hpos := sectlen_pos f.bufSize_ne_zero hlen dest
    have hle := sectlen_toNat_le (f.bufSize - dest % f.bufSize) len
    have hmin := min32_toNat (f.bufSize - dest % f.bufSize) len
    rw [sub_offset_toNat f.bufSize_ne_zero, hsize] at hmin
    obtain ⟨hl, hr⟩ := or_eq_zero.mp hret
    simp only [sectlen, l, base, offset, r] at hl hr ih hpos hle hmin ⊢
    generalize min32 (f.bufSize - dest % f.bufSize) len = n at *
    have hmod := Nat.mod_lt dest.toNat P.size_pos
    have htake : (src.take n.toNat).length = n.toNat := by
      rw [List.length_take]
      omega
    have hsub : (len - n).toNat = len.toNat - n.toNat :=
      UInt32.toNat_sub_of_le _ _ (UInt32.le_iff_toNat_le.mpr hle)
    have hdest : P.inside dest := by
      have hfirst := hinside 0 (by omega)
      rwa [show dest + UInt32.ofNat 0 = dest from UInt32.add_zero dest] at hfirst
    have hturn := h.turn hbuf i dest hdest
      (List.ne_nil_of_length_pos (show 0 < (src.take n.toNat).length by omega)) (by omega) hl
    have hrest := ih hturn (copyChunk_buf (loadBlock_buf hbuf _ _ _) _ _)
      (by rw [List.length_drop]; omega) (fun k hk => by
        have hnext := hinside (n.toNat + k) (by omega)
        rwa [UInt32.ofNat_add, UInt32.ofNat_toNat, ← UInt32.add_assoc] at hnext) hr
    have hbytes : placed dest ((src.take len.toNat).map P.val) =
        placed dest ((src.take n.toNat).map P.val) ++
          placed (dest + n) (((src.drop n.toNat).take (len - n).toNat).map P.val) := by
      rw [show len.toNat = n.toNat + (len - n).toNat by omega, List.take_add, List.map_append,
        placed_append, List.length_map, htake, UInt32.ofNat_toNat]
    rw [hbytes, List.foldl_append]
    exact hrest

variable {H : Heap σ β} (hheap : ∀ n s a, P.read (H.alloc n s).2 a = P.read s a)
include hheap

/-- A write that succeeds stores its bytes. -/
theorem writeBuffered_represents {w : World σ β} (h : P.Represents f w.env B) {i : Nat}
    {dest len : UInt32} {src : List β} (hsrc : len.toNat ≤ src.length)
    (hinside : ∀ k < len.toNat, P.inside (dest + UInt32.ofNat k))
    (hret : (targetFlashWriteBuffered H i f dest src len w).1 = 0) :
    P.Represents (targetFlashWriteBuffered H i f dest src len w).2.1
      (targetFlashWriteBuffered H i f dest src len w).2.2.env
      ((placed dest ((src.take len.toNat).map P.val)).foldl P.store B) := by
  unfold targetFlashWriteBuffered at hret ⊢
  split at hret
  · rename_i b hb
    exact writeBufferedLoop_represents h (by rw [hb]; exact Option.some_ne_none b) hsrc hinside hret
  · rename_i hnone
    by_cases hroom : (H.alloc f.bufSize w.env).1 = true
    · simp only [if_pos hroom] at hret ⊢
      have hheld : B.held = none := by
        by_contra hB
        exact (h.ne_none hB).1 hnone
      refine writeBufferedLoop_represents (B := B) ?_ (Option.some_ne_none _) hsrc hinside hret
      refine ⟨h.region, fun a => ?_, fun _ => Or.inr rfl, fun k c hB => ?_⟩
      · rw [World.call_env, hheap]
        exact h.mem a
      · rw [hheld] at hB
        contradiction
    · simp only [if_neg hroom] at hret
      exact absurd hret (show (1 : Ret) ≠ 0 by decide)

omit hheap in
/-- The flush of a region that succeeds. -/
theorem doneBuffered_read (hfree : ∀ s a, P.read (H.free s) a = P.read s a) {w : World σ β}
    (h : P.Represents f w.env B) {i : Nat} (hret : (targetFlashDoneBuffered H i f w).1 = 0)
    (a : UInt32) : P.read (targetFlashDoneBuffered H i f w).2.2.env a = P.written B a := by
  unfold targetFlashDoneBuffered at hret ⊢
  by_cases hp : f.Pending
  · simp only [if_pos hp] at hret ⊢
    rw [hfree]
    exact h.writeBlock hp i hret a
  · rw [if_neg hp]
    show P.read w.env a = P.written B a
    have hheld : B.held = none := by
      by_contra hB
      exact hp (h.ne_none hB)
    unfold written BlockBuffer.flushed
    rw [hheld]
    exact (h.mem a).symm

end Paged

end MiyakoLink.Flash
