import Mathlib.Tactic.Common
import MiyakoLink.Flash.Cache

/-!
# A flash programming session

A `Session` is a target with disjoint, block-aligned flash regions over NOR flash and a
sequence of `target_flash_write` calls with disjoint ranges, followed by
`target_flash_done`. `Session.Sound` is what a session in which every call returns zero
shall have done to the memory and through the drivers.

* `writeLoop_ok`, `writeCalls_ok`: one write and all writes keep `FlashOk`, the invariant
  that relates memory, caches and the bytes requested so far.
* `doneFrom_ok`: the final flush puts the wanted contents into the memory.
* `Session.sound_of_noWrap`: a session is sound when no write that begins inside a region
  runs to the top of the address space or past it.
* `topSession_not_sound`: one that does so is not; the sum `dest + len` of the source wraps.
-/

namespace MiyakoLink.Flash

open Lib

variable {σ β : Type}

/-! ## All regions together -/

/-- The regions end at block boundaries and share no address. -/
structure Layout (regions : List (FlashRegion σ β)) : Prop where
  aligned : ∀ r ∈ regions, r.Aligned
  disjoint : ∀ {i j : Nat} {r r' : FlashRegion σ β}, regions[i]? = some r →
    regions[j]? = some r' → ∀ a, r.Contains a → r'.Contains a → i = j

variable {H : Heap σ β} {regions : List (FlashRegion σ β)} (M : NorFlash H regions)

/-- Caches and memory of all regions hold `want` together. -/
structure FlashOk (flash : List (TargetFlash σ β)) (w : World σ β) (want : UInt32 → β) :
    Prop where
  length : flash.length = regions.length
  region : ∀ {i : Nat} {f}, flash[i]? = some f → RegionOk M i f w want
  log : ∀ c ∈ w.log, c.Ok regions

variable {M} {flash : List (TargetFlash σ β)} {w : World σ β} {want : UInt32 → β}

theorem FlashOk.mem_regions (h : FlashOk M flash w want) {f : TargetFlash σ β}
    (hf : f ∈ flash) : f.toFlashRegion ∈ regions := by
  obtain ⟨i, hi⟩ := List.mem_iff_getElem?.mp hf
  exact List.mem_of_getElem? (h.region hi).region

theorem FlashOk.exists_mem (h : FlashOk M flash w want) {r : FlashRegion σ β}
    (hr : r ∈ regions) : ∃ f ∈ flash, f.toFlashRegion = r := by
  obtain ⟨i, hi⟩ := List.mem_iff_getElem?.mp hr
  have hlt : i < flash.length := by
    rw [h.length]
    exact (List.getElem?_eq_some_iff.mp hi).1
  have hf := (h.region (List.getElem?_eq_getElem hlt)).region
  exact ⟨flash[i], List.getElem_mem hlt, Option.some.inj (hf.symm.trans hi)⟩

/-- One region moves on, the others see neither their memory nor their wanted contents
change. -/
theorem FlashOk.set (h : FlashOk M flash w want) (hlayout : Layout regions) {i : Nat}
    {f f' : TargetFlash σ β} (hi : flash[i]? = some f) {w' : World σ β} {want' : UInt32 → β}
    (hf' : RegionOk M i f' w' want') (hframe : Frame M f.toFlashRegion w w')
    (hwant : ∀ a, ¬ f.Contains a → want' a = want a) :
    FlashOk M (flash.set i f') w' want' := by
  refine ⟨by rw [List.length_set, h.length], fun {j g} hj => ?_, hf'.log⟩
  have hlt : i < flash.length := (List.getElem?_eq_some_iff.mp hi).1
  by_cases hij : i = j
  · subst hij
    rw [List.getElem?_set_self hlt] at hj
    obtain rfl := Option.some.inj hj
    exact hf'
  · rw [List.getElem?_set_ne hij] at hj
    have hg := h.region hj
    have hout : ∀ a, g.Contains a → ¬ f.Contains a := fun a hga hfa =>
      hij (hlayout.disjoint (h.region hi).region hg.region a hfa hga)
    exact hg.congr (fun a ha => hframe a (hout a ha)) (fun a ha => hwant a (hout a ha)) hf'.log

/-! ## The writes -/

/-- Every byte of a range that lies in a region is wanted erased. -/
def WantedErased (regions : List (FlashRegion σ β)) (want : UInt32 → β) (dest : UInt32)
    (src : List β) : Prop :=
  ∀ a, bytesAt dest src a ≠ none → ∀ r ∈ regions, r.Contains a → want a = r.erased

/-- A failure of an earlier turn is never lost. -/
theorem writeLoop_ret {flash : List (TargetFlash σ β)} {ret : Ret} {dest len : UInt32}
    {src : List β} {w : World σ β}
    (hret : (targetFlashWriteLoop H flash ret dest src len w).1 = 0) : ret = 0 := by
  fun_induction targetFlashWriteLoop H flash ret dest src len w with
  | case1 => exact hret
  | case2 => exact absurd hret (show (1 : Ret) ≠ 0 by decide)
  | case3 _ _ _ _ _ _ _ _ _ _ _ _ ih => exact (or_eq_zero.mp (ih hret)).1

/-- A write below the top of the address space that returns zero moves the wanted contents
on by its bytes, all of which lie in regions. The induction is on the loop: a turn hands the
part of the request inside one region to that region's cache. -/
theorem writeLoop_ok (hlayout : Layout regions) {ret : Ret} {dest len : UInt32} {src : List β}
    (h : FlashOk M flash w want) (hsrc : len.toNat = src.length)
    (hnowrap : dest.toNat + len.toNat < 2 ^ 32) (hfree : WantedErased regions want dest src)
    (hret : (targetFlashWriteLoop H flash ret dest src len w).1 = 0) :
    FlashOk M (targetFlashWriteLoop H flash ret dest src len w).2.1
        (targetFlashWriteLoop H flash ret dest src len w).2.2 (overlay want dest src) ∧
      ∀ a, bytesAt dest src a ≠ none → ∃ r ∈ regions, r.Contains a := by
  fun_induction targetFlashWriteLoop H flash ret dest src len w generalizing want with
  | case1 flash ret dest src w =>
    obtain rfl := List.length_eq_zero_iff.mp hsrc.symm
    rw [overlay_nil]
    exact ⟨h, fun a ha => absurd List.getElem?_nil ha⟩
  | case2 => exact absurd hret (show (1 : Ret) ≠ 0 by decide)
  | case3 flash ret dest src len w hlen i hfind f tmplen r =>
    rename_i ih
    have hcovers : f.covers dest = true := flashForAddr_eq_some hfind
    have hb : 0 < tmplen.toNat ∧ tmplen.toNat ≤ len.toNat := tmplen_bounds hcovers hlen
    have hlenEq : tmplen.toNat = min len.toNat (f.start.toNat + f.length.toNat - dest.toNat) :=
      tmplen_toNat hcovers hnowrap
    obtain ⟨hstart, hend, htop⟩ := covers_toNat hcovers
    have hi : flash[i.1]? = some f := List.getElem?_eq_getElem i.2
    have hf := h.region hi
    have hmem : f.toFlashRegion ∈ regions := List.mem_of_getElem? hf.region
    have hin : f.ContainsRange dest tmplen.toNat := ⟨hstart, by omega⟩
    have htake : (src.take tmplen.toNat).length = tmplen.toNat := by
      rw [List.length_take]
      omega
    have hdrop : (src.drop tmplen.toNat).length = len.toNat - tmplen.toNat := by
      rw [List.length_drop, hsrc]
    have hsub : (len - tmplen).toNat = len.toNat - tmplen.toNat :=
      UInt32.toNat_sub_of_le _ _ (UInt32.le_iff_toNat_le.mpr hb.2)
    have hdest : (dest + tmplen).toNat = dest.toNat + tmplen.toNat := by
      rw [UInt32.toNat_add]
      omega
    -- The bytes of this turn are those of the request below `dest + tmplen`.
    have hinside : ∀ a, bytesAt dest (src.take tmplen.toNat) a ≠ none →
        f.Contains a ∧ bytesAt dest src a ≠ none := by
      intro a ha
      rw [Ne, bytesAt_eq_none_iff (by omega)] at ha
      rw [Ne, bytesAt_eq_none_iff (by omega)]
      unfold FlashRegion.Contains
      omega
    have hafter : ∀ a, bytesAt (dest + tmplen) (src.drop tmplen.toNat) a ≠ none →
        bytesAt dest (src.take tmplen.toNat) a = none ∧ bytesAt dest src a ≠ none := by
      intro a ha
      rw [Ne, bytesAt_eq_none_iff (by omega)] at ha
      rw [Ne, bytesAt_eq_none_iff (by omega), bytesAt_eq_none_iff (by omega)]
      omega
    have hr : r.1 = 0 := (or_eq_zero.mp (writeLoop_ret hret)).2
    obtain ⟨hregion, hframe⟩ := hf.writeBuffered (hlayout.aligned _ hmem) htop hin
      (by omega) (fun a ha => hfree a (hinside a ha).2 _ hmem (hinside a ha).1) hr
    have hset := h.set hlayout hi hregion hframe (fun a ha =>
      overlay_of_none (not_not.mp fun hne => ha (hinside a hne).1))
    obtain ⟨hok, hmapped⟩ := ih hset (by omega) (by omega)
      (by
        intro a ha g hg hga
        rw [overlay_of_none (hafter a ha).1]
        exact hfree a (hafter a ha).2 g hg hga)
      hret
    rw [overlay_append htake.symm (by omega), List.take_append_drop] at hok
    refine ⟨hok, fun a ha => ?_⟩
    by_cases hhere : bytesAt dest (src.take tmplen.toNat) a = none
    · apply hmapped
      rw [Ne, bytesAt_eq_none_iff (by omega)] at ha ⊢
      rw [bytesAt_eq_none_iff (by omega)] at hhere
      omega
    · exact ⟨f.toFlashRegion, hmem, (hinside a hhere).1⟩

/-- A `target_flash_write` call of a session: its address and its bytes. -/
abbrev WriteCall (β : Type) := UInt32 × List β

/-- The calls of a session one after the other, with their results. -/
def writeCalls (H : Heap σ β) :
    List (WriteCall β) → List (TargetFlash σ β) → World σ β →
      List Ret × List (TargetFlash σ β) × World σ β
  | [], flash, w => ([], flash, w)
  | c :: calls, flash, w =>
    let r := targetFlashWrite H flash c.1 c.2 (UInt32.ofNat c.2.length) w
    let rest := writeCalls H calls r.2.1 r.2.2
    (r.1 :: rest.1, rest.2)

/-- The image after the bytes of all calls are put in their places. -/
def requested (want : UInt32 → β) (calls : List (WriteCall β)) : UInt32 → β :=
  calls.foldl (fun m c => overlay m c.1 c.2) want

/-- Two calls address no byte in common. -/
def WriteCall.Disjoint (c c' : WriteCall β) : Prop :=
  ∀ a, bytesAt c.1 c.2 a = none ∨ bytesAt c'.1 c'.2 a = none

/-- A call that begins inside a region ends below the top of the address space. -/
def WriteCall.NoWrap (regions : List (FlashRegion σ β)) (c : WriteCall β) : Prop :=
  ∀ r ∈ regions, r.covers c.1 = true → c.1.toNat + c.2.length < 2 ^ 32

theorem requested_of_none {a : UInt32} {calls : List (WriteCall β)} (want : UInt32 → β)
    (h : ∀ c ∈ calls, bytesAt c.1 c.2 a = none) : requested want calls a = want a := by
  induction calls generalizing want with
  | nil => rfl
  | cons c calls ih =>
    rw [requested, List.foldl_cons, ← requested, ih _ fun c' hc' => h c' (.tail c hc')]
    exact overlay_of_none (h c (.head calls))

theorem requested_of_some {a : UInt32} {v : β} {c : WriteCall β} {calls : List (WriteCall β)}
    (want : UInt32 → β) (hc : c ∈ calls) (hv : bytesAt c.1 c.2 a = some v)
    (hdisjoint : calls.Pairwise WriteCall.Disjoint) : requested want calls a = v := by
  induction calls generalizing want with
  | nil => cases hc
  | cons d calls ih =>
    obtain ⟨hd, hcalls⟩ := List.pairwise_cons.mp hdisjoint
    rw [requested, List.foldl_cons, ← requested]
    rcases List.mem_cons.mp hc with rfl | hc
    · have hne : bytesAt c.1 c.2 a ≠ none := by
        rw [hv]
        exact Option.some_ne_none v
      rw [requested_of_none _ fun c' hc' => (hd c' hc' a).resolve_left hne]
      exact overlay_of_some hv
    · exact ih _ hc hcalls

/-- A call that returns zero keeps the invariant, and all its bytes lie in regions. -/
theorem write_ok (hlayout : Layout regions) {c : WriteCall β}
    (h : FlashOk M flash w want) (hlen : c.2.length < 2 ^ 32) (hnowrap : c.NoWrap regions)
    (hfree : WantedErased regions want c.1 c.2)
    (hret : (targetFlashWrite H flash c.1 c.2 (UInt32.ofNat c.2.length) w).1 = 0) :
    FlashOk M (targetFlashWrite H flash c.1 c.2 (UInt32.ofNat c.2.length) w).2.1
        (targetFlashWrite H flash c.1 c.2 (UInt32.ofNat c.2.length) w).2.2
        (overlay want c.1 c.2) ∧
      ∀ a, bytesAt c.1 c.2 a ≠ none → ∃ r ∈ regions, r.Contains a := by
  have hnat : (UInt32.ofNat c.2.length).toNat = c.2.length := UInt32.toNat_ofNat_of_lt' hlen
  have hsum : c.1.toNat + c.2.length < 2 ^ 32 := by
    by_cases hzero : UInt32.ofNat c.2.length = 0
    · rw [hzero, UInt32.toNat_zero] at hnat
      have := c.1.toNat_lt
      omega
    · unfold targetFlashWrite targetFlashWriteLoop at hret
      rw [dif_neg hzero] at hret
      split at hret
      · exact absurd hret (show (1 : Ret) ≠ 0 by decide)
      · rename_i i hfind
        exact hnowrap _ (h.mem_regions (List.get_mem flash i)) (flashForAddr_eq_some hfind)
  exact writeLoop_ok hlayout h hnat (by omega) hfree hret

theorem WantedErased.overlay {c c' : WriteCall β} (h : WantedErased regions want c'.1 c'.2)
    (hdisjoint : c.Disjoint c') : WantedErased regions (overlay want c.1 c.2) c'.1 c'.2 := by
  intro a ha r hr hra
  rw [overlay_of_none ((hdisjoint a).resolve_right ha)]
  exact h a ha r hr hra

/-- Calls with disjoint ranges that all return zero leave the requested bytes in memory and
caches together. -/
theorem writeCalls_ok (hlayout : Layout regions) {calls : List (WriteCall β)}
    (h : FlashOk M flash w want) (hlen : ∀ c ∈ calls, c.2.length < 2 ^ 32)
    (hnowrap : ∀ c ∈ calls, c.NoWrap regions) (hdisjoint : calls.Pairwise WriteCall.Disjoint)
    (hfree : ∀ c ∈ calls, WantedErased regions want c.1 c.2)
    (hret : ∀ r ∈ (writeCalls H calls flash w).1, r = 0) :
    FlashOk M (writeCalls H calls flash w).2.1 (writeCalls H calls flash w).2.2
        (requested want calls) ∧
      ∀ c ∈ calls, ∀ a, bytesAt c.1 c.2 a ≠ none → ∃ r ∈ regions, r.Contains a := by
  induction calls generalizing flash w want with
  | nil => exact ⟨h, fun c hc => nomatch hc⟩
  | cons c calls ih =>
    obtain ⟨hd, hcalls⟩ := List.pairwise_cons.mp hdisjoint
    obtain ⟨hok, hmapped⟩ := write_ok hlayout h (hlen c (.head calls))
      (hnowrap c (.head calls)) (hfree c (.head calls)) (hret _ (.head _))
    obtain ⟨hrest, hmapped'⟩ := ih hok (fun c' hc' => hlen c' (.tail c hc'))
      (fun c' hc' => hnowrap c' (.tail c hc')) hcalls
      (fun c' hc' => (hfree c' (.tail c hc')).overlay (hd c' hc'))
      (fun r hr => hret r (.tail _ hr))
    refine ⟨hrest, fun c' hc' => ?_⟩
    rcases List.mem_cons.mp hc' with rfl | hc'
    · exact hmapped
    · exact hmapped' c' hc'

/-! ## The final flush -/

/-- `target_flash_done` over the regions from `i` on. When it returns zero, the cells of
these regions hold what was wanted and no other cell has changed. -/
theorem doneFrom_ok (hlayout : Layout regions) {i : Nat} {fs : List (TargetFlash σ β)}
    {w : World σ β} (hlog : ∀ c ∈ w.log, c.Ok regions)
    (h : ∀ {j : Nat} {f}, fs[j]? = some f → RegionOk M (i + j) f w want)
    (hret : (targetFlashDoneFrom H i fs w).1 = 0) :
    (∀ f ∈ fs, ∀ a, f.Contains a →
        M.cell (targetFlashDoneFrom H i fs w).2.2.env a = want a) ∧
      (∀ a, (∀ f ∈ fs, ¬ f.Contains a) →
        M.cell (targetFlashDoneFrom H i fs w).2.2.env a = M.cell w.env a) ∧
      ∀ c ∈ (targetFlashDoneFrom H i fs w).2.2.log, c.Ok regions := by
  induction fs generalizing i w with
  | nil => exact ⟨by simp, fun _ _ => rfl, hlog⟩
  | cons f fs ih =>
    have hf : RegionOk M i f w want := h (j := 0) rfl
    rw [targetFlashDoneFrom] at hret ⊢
    have hd : (targetFlashDoneBuffered H i f w).1 = 0 := by
      by_contra hne
      rw [if_pos hne] at hret
      exact hne hret
    obtain ⟨hregion, hframe, hclean⟩ := hf.doneBuffered hd
    simp only [hd, ne_eq, not_true_eq_false, if_false] at hret ⊢
    have hsame := targetFlashDoneBuffered_region H i f w
    generalize targetFlashDoneBuffered H i f w = d at *
    have hc : (d.2.1.callDone i d.2.2).1 = 0 := by
      by_contra hne
      rw [if_pos hne] at hret
      exact hne hret
    obtain ⟨hcell, hlog'⟩ := hregion.callDone hc
    simp only [hc, not_true_eq_false, if_false] at hret ⊢
    -- No later region shares an address with `f`.
    have hapart : ∀ g ∈ fs, ∀ a, g.Contains a → ¬ f.Contains a := by
      intro g hg a hga hfa
      obtain ⟨j, hj⟩ := List.mem_iff_getElem?.mp hg
      have := hlayout.disjoint hf.region (h (j := j + 1) hj).region a hfa hga
      omega
    obtain ⟨hin, hout, hlog''⟩ := ih hlog' (fun {j g} hj => by
        rw [Nat.add_right_comm]
        refine (h (j := j + 1) hj).congr (fun a ha => ?_) (fun _ _ => rfl) hlog'
        rw [hcell]
        exact hframe a (hapart g (List.mem_of_getElem? hj) a ha)) hret
    refine ⟨?_, fun a ha => ?_, hlog''⟩
    · intro g hg a ha
      rcases List.mem_cons.mp hg with rfl | hg
      · have hcoh := hregion.coherent a (by rw [hsame]; exact ha)
        rw [TargetFlash.pendAt_of_not_pending hclean, M.erased_eq hregion.region] at hcoh
        rw [hout a (fun f' hf' hfa => hapart f' hf' a hfa ha), hcell, hcoh.settled]
      · exact hin g hg a ha
    · rw [hout a (fun g hg => ha g (.tail f hg)), hcell, hframe a (ha f (.head fs))]

/-! ## Sessions -/

/-- A flash programming session of a target: nothing is staged when it begins, the calls
address disjoint ranges, and the cells of the regions they address are erased. -/
structure Session (σ β : Type) where
  heap : Heap σ β
  flash : List (TargetFlash σ β)
  memory : NorFlash heap (flash.map (·.toFlashRegion))
  layout : Layout (flash.map (·.toFlashRegion))
  idle : ∀ f ∈ flash, ¬ f.Pending
  buf_length : ∀ f ∈ flash, ∀ b, f.buf = some b → b.length = f.bufSize.toNat
  env : σ
  calls : List (WriteCall β)
  calls_length : ∀ c ∈ calls, c.2.length < 2 ^ 32
  calls_disjoint : calls.Pairwise WriteCall.Disjoint
  calls_erased : ∀ c ∈ calls,
    WantedErased (flash.map (·.toFlashRegion)) (memory.cell env) c.1 c.2

namespace Session

variable (S : Session σ β)

/-- The results of the write calls, and the regions and the world after them. -/
def written : List Ret × List (TargetFlash σ β) × World σ β :=
  writeCalls S.heap S.calls S.flash ⟨S.env, [], 0⟩

/-- The call of `target_flash_done` that ends the session. -/
def finished : Ret × List (TargetFlash σ β) × World σ β :=
  targetFlashDone S.heap S.written.2.1 S.written.2.2

def Succeeds : Prop := (∀ r ∈ S.written.1, r = 0) ∧ S.finished.1 = 0

variable {S} in
theorem succeeds_of_results {n : Nat} (hwritten : S.written.1 = List.replicate n 0)
    (hdone : S.finished.1 = 0) : S.Succeeds :=
  ⟨fun _ hr => List.eq_of_mem_replicate (hwritten ▸ hr), hdone⟩

/-- What a session that succeeds shall have done. -/
structure Sound : Prop where
  no_failure : ∀ c ∈ S.finished.2.2.log, c.ret = 0
  written : ∀ c ∈ S.calls, ∀ a v, bytesAt c.1 c.2 a = some v →
    S.memory.cell S.finished.2.2.env a = v
  untouched : ∀ a, (∀ c ∈ S.calls, bytesAt c.1 c.2 a = none) → ∀ f ∈ S.flash, f.Contains a →
    S.memory.cell S.finished.2.2.env a = S.memory.cell S.env a
  blocks : ∀ c ∈ S.finished.2.2.log, ∀ addr data len, c.call = .write addr data len →
    ∃ f, S.flash[c.region]? = some f ∧ f.IsBlock addr ∧ len = f.bufSize ∧
      data.length = f.bufSize.toNat

/-- The write calls that begin inside a region stay below the top of the address space. -/
def NoWrap : Prop := ∀ c ∈ S.calls, c.NoWrap (S.flash.map (·.toFlashRegion))

theorem start_ok :
    FlashOk S.memory S.flash ⟨S.env, [], 0⟩ (S.memory.cell S.env) where
  length := (List.length_map _).symm
  log := by simp
  region {i f} hi := by
    have hf := List.mem_of_getElem? hi
    have hregion : (S.flash.map (·.toFlashRegion))[i]? = some f.toFlashRegion := by
      rw [List.getElem?_map, hi]
      rfl
    have hidle := S.idle f hf
    refine ⟨hregion, ⟨fun hb => S.buf_length f hf _ hb, fun hp => absurd hp hidle,
      fun hp => absurd hp hidle⟩, fun a _ => ?_, by simp⟩
    rw [TargetFlash.pendAt_of_not_pending hidle, S.memory.erased_eq hregion]
    exact .of_nothing_pending _

/-- A session whose calls all return zero is sound when no write wraps. -/
theorem sound_of_noWrap (hnowrap : S.NoWrap) (hsucceeds : S.Succeeds) : S.Sound := by
  obtain ⟨hwritten, hdone⟩ := hsucceeds
  obtain ⟨hok, hmapped⟩ := writeCalls_ok S.layout S.start_ok S.calls_length hnowrap
    S.calls_disjoint S.calls_erased hwritten
  obtain ⟨hin, hout, hlog⟩ := doneFrom_ok S.layout hok.log
    (fun {j f} hj => by rw [Nat.zero_add]; exact hok.region hj) hdone
  have hcell : ∀ r ∈ S.flash.map (·.toFlashRegion), ∀ a, r.Contains a →
      S.memory.cell S.finished.2.2.env a = requested (S.memory.cell S.env) S.calls a := by
    intro r hr a ha
    obtain ⟨f, hf, rfl⟩ := hok.exists_mem hr
    exact hin f hf a ha
  refine ⟨fun c hc => (hlog c hc).1, ?_, ?_, ?_⟩
  · intro c hc a v hv
    obtain ⟨r, hr, ha⟩ := hmapped c hc a (by rw [hv]; exact Option.some_ne_none v)
    rw [hcell r hr a ha]
    exact requested_of_some _ hc hv S.calls_disjoint
  · intro a hnone f hf ha
    rw [hcell f.toFlashRegion (List.mem_map_of_mem hf) a ha]
    exact requested_of_none _ hnone
  · intro c hc addr data len hcall
    obtain ⟨r, hr, hblock, hlen, hdata⟩ := (hlog c hc).2 addr data len hcall
    rw [List.getElem?_map, Option.map_eq_some_iff] at hr
    obtain ⟨f, hf, rfl⟩ := hr
    exact ⟨f, hf, hblock, hlen, hdata⟩

end Session

/-! ## Two sessions on one region

A region of NOR flash behind a driver that never fails, erased, and one write.
-/

/-- Flash bytes: programming clears bits. -/
def flashByte : NorCell UInt8 where
  erased := 0xFF
  prog c v := c &&& v
  prog_erased _ := UInt8.toBitVec_inj.mp BitVec.and_allOnes
  erased_prog _ := UInt8.toBitVec_inj.mp BitVec.allOnes_and

def norRegion (start length bufSize : UInt32) (hbuf : bufSize ≠ 0) :
    TargetFlash (UInt32 → UInt8) UInt8 where
  start := start
  length := length
  blocksize := bufSize
  erase addr len mem := (0, fun a => if (a - addr).toNat < len.toNat then 0xFF else mem a)
  write addr data len mem := (0, programmed flashByte mem addr (data.take len.toNat))
  done := none
  erased := 0xFF
  bufSize := bufSize
  bufSize_ne_zero := hbuf
  bufAddr := 0
  buf := none

def norSession (start length bufSize : UInt32) (hbuf : bufSize ≠ 0)
    (halign : (norRegion start length bufSize hbuf).Aligned) (c : WriteCall UInt8)
    (hc : c.2.length < 2 ^ 32) : Session (UInt32 → UInt8) UInt8 where
  heap := ⟨0, fun _ mem => (true, mem), id⟩
  flash := [norRegion start length bufSize hbuf]
  memory :=
    { cell := id
      nor := fun _ => flashByte
      erased_eq := fun {i r} h => by
        obtain rfl := List.mem_singleton.mp (List.mem_of_getElem? h)
        rfl
      write_cell := fun {i r} h => by
        obtain rfl := List.mem_singleton.mp (List.mem_of_getElem? h)
        exact fun _ => rfl
      done_cell := fun {i r d} h hd => by
        obtain rfl := List.mem_singleton.mp (List.mem_of_getElem? h)
        exact absurd hd.symm (Option.some_ne_none d)
      alloc_cell := fun _ _ => rfl
      free_cell := fun _ => rfl }
  layout :=
    { aligned := fun r hr => by
        obtain rfl := List.mem_singleton.mp hr
        exact halign
      disjoint := fun {i j r r'} hi hj _ _ _ => by
        have := (List.getElem?_eq_some_iff.mp hi).1
        have := (List.getElem?_eq_some_iff.mp hj).1
        simp only [List.length_map, List.length_singleton] at *
        omega }
  idle f hf := by
    obtain rfl := List.mem_singleton.mp hf
    exact fun hp => hp.1 rfl
  buf_length f hf b hb := by
    obtain rfl := List.mem_singleton.mp hf
    exact absurd hb.symm (Option.some_ne_none b)
  env := fun _ => 0xFF
  calls := [c]
  calls_length c' hc' := by
    obtain rfl := List.mem_singleton.mp hc'
    exact hc
  calls_disjoint := List.pairwise_singleton _ _
  calls_erased _ _ _ _ r hr _ := by
    obtain rfl := List.mem_singleton.mp hr
    rfl

/-- Five bytes that straddle two blocks. -/
def lowSession : Session (UInt32 → UInt8) UInt8 :=
  norSession 0x08000000 0x1000 4 (by decide) ⟨by decide, by decide⟩
    (0x08000002, [1, 2, 3, 4, 5]) (by decide)

theorem lowSession_sound : lowSession.NoWrap ∧ lowSession.Succeeds ∧ lowSession.Sound := by
  have hnowrap : lowSession.NoWrap := by
    intro c hc r _ _
    obtain rfl := List.mem_singleton.mp hc
    decide
  have hsucceeds : lowSession.Succeeds :=
    Session.succeeds_of_results (n := 1) (by decide +kernel) (by decide +kernel)
  exact ⟨hnowrap, hsucceeds, lowSession.sound_of_noWrap hnowrap hsucceeds⟩

/-- Eight bytes up to the top of the address space, on a region that has room for four. -/
def topSession : Session (UInt32 → UInt8) UInt8 :=
  norSession 0xFFFFFFF8 4 4 (by decide) ⟨by decide, by decide⟩
    (0xFFFFFFF8, [1, 2, 3, 4, 5, 6, 7, 8]) (by decide)

/-- `dest + len` wraps to zero, so the whole request goes to the region, and its second
block is programmed behind the region's end. -/
theorem topSession_not_sound : topSession.Succeeds ∧ ¬ topSession.Sound := by
  refine ⟨Session.succeeds_of_results (n := 1) (by decide +kernel) (by decide +kernel),
    fun hsound => ?_⟩
  have hmem : (⟨0, 0, .write 0xFFFFFFFC [5, 6, 7, 8] 4, 0⟩ : DriverCall UInt8) ∈
      topSession.finished.2.2.log := by decide +kernel
  obtain ⟨f, hf, hblock, _, _⟩ := hsound.blocks _ hmem _ _ _ rfl
  obtain rfl := List.mem_singleton.mp (List.mem_of_getElem? hf)
  exact absurd hblock.2.2 (by decide)

end MiyakoLink.Flash
