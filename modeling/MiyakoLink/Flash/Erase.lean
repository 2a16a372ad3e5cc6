import Mathlib.Tactic.Common
import MiyakoLink.Flash.Packets

/-!
# What a successful erase has erased

`Handed` says that the calls of an erase are the pieces of its range, in order and each inside
its region. The loop ends without a complaint at an address that no region covers, so a range
is known to be erased only where it is mapped.

* `eraseCovers_iff`: `target_flash_erase` is right about a range if and only if the range is
  mapped or one of its erase calls fails.
-/

namespace MiyakoLink.Flash

variable {σ β : Type}

/-- Every address of the range is one of the 32-bit space and in a region. -/
def InFlash (regions : List (FlashRegion σ β)) (addr len : UInt32) : Prop :=
  ∀ x, addr.toNat ≤ x → x < addr.toNat + len.toNat → x < 2 ^ 32 ∧
    ∃ r ∈ regions, r.start.toNat ≤ x ∧ x < r.start.toNat + r.length.toNat

/-- The calls erase the `n` addresses from `a` on piece by piece, each piece inside of its
region, and all of them return zero. -/
inductive Handed (regions : List (FlashRegion σ β)) : Nat → Nat → List (DriverCall β) → Prop where
  | nil (a : Nat) : Handed regions a 0 []
  | cons {c : DriverCall β} {calls : List (DriverCall β)} {r : FlashRegion σ β}
      {addr tmplen : UInt32} {n : Nat} (hcall : c.call = .erase addr tmplen) (hret : c.ret = 0)
      (hregion : regions[c.region]? = some r) (hpos : 0 < tmplen.toNat)
      (hstart : r.start.toNat ≤ addr.toNat)
      (hend : addr.toNat + tmplen.toNat ≤ r.start.toNat + r.length.toNat)
      (hrest : Handed regions (addr.toNat + tmplen.toNat) n calls) :
      Handed regions addr.toNat (tmplen.toNat + n) (c :: calls)

/-- No region covers the last address, as the test of `flash_for_addr` wraps there. -/
theorem not_covers_last (f : FlashRegion σ β) : f.covers 0xFFFFFFFF = false := by
  rw [Bool.eq_false_iff]
  intro h
  obtain ⟨-, hend, htop⟩ := covers_toNat h
  have hlast : (0xFFFFFFFF : UInt32).toNat = 2 ^ 32 - 1 := rfl
  omega

/-- A mapped range does not wrap. -/
theorem Mapped.nowrap {regions : List (FlashRegion σ Tagged)} {addr : UInt32} {n : Nat}
    (h : Mapped regions addr n) : addr.toNat + n < 2 ^ 32 := by
  by_contra hwrap
  have ha := addr.toNat_lt
  obtain ⟨r, -, hcovers⟩ := h (2 ^ 32 - 1 - addr.toNat) (by omega)
  have hlast : addr + UInt32.ofNat (2 ^ 32 - 1 - addr.toNat) = 0xFFFFFFFF := by
    apply UInt32.toNat_inj.mp
    rw [UInt32.toNat_add, UInt32.toNat_ofNat_of_lt' (by rw [UInt32.size]; omega)]
    show _ = 2 ^ 32 - 1
    omega
  rw [hlast, not_covers_last] at hcovers
  contradiction

theorem Mapped.inFlash {regions : List (FlashRegion σ Tagged)} {addr len : UInt32}
    (h : Mapped regions addr len.toNat) : InFlash regions addr len := by
  intro x hx hx'
  have hnowrap := h.nowrap
  obtain ⟨r, hr, hcovers⟩ := h (x - addr.toNat) (by omega)
  obtain ⟨hstart, hend, -⟩ := covers_toNat hcovers
  rw [UInt32.toNat_add, UInt32.toNat_ofNat_of_lt' (by rw [UInt32.size]; omega)] at hstart hend
  exact ⟨by omega, r, hr, by omega, by omega⟩

/-- What is left of a mapped range after its first part. -/
theorem Mapped.drop {regions : List (FlashRegion σ Tagged)} {addr : UInt32} {n : Nat}
    (h : Mapped regions addr n) (m : UInt32) :
    Mapped regions (addr + m) (n - m.toNat) := by
  intro k hk
  obtain ⟨r, hr, hcovers⟩ := h (m.toNat + k) (by omega)
  refine ⟨r, hr, ?_⟩
  rw [UInt32.ofNat_add, UInt32.ofNat_toNat, ← UInt32.add_assoc] at hcovers
  exact hcovers

theorem newCalls_step {w : World σ β} {i : Nat} {c : FlashCall β} {r : Ret × σ}
    {w' : World σ β} (h : (w.call i c r).2.Extends w') :
    w.newCalls w' = ⟨i, w.session, c, r.1⟩ :: (w.call i c r).2.newCalls w' := by
  rw [World.newCalls_trans (World.extends_call w i c r) h, World.newCalls_call]
  rfl

/-! ## The loop -/

/-- The result is zero only if all erase calls have returned zero. -/
theorem eraseLoop_zero {flash : List (TargetFlash σ β)} {ret : Ret} {addr len : UInt32}
    {w : World σ β} (h : (targetFlashEraseLoop flash ret addr len w).1 = 0) :
    ret = 0 ∧ ∀ c ∈ w.newCalls (targetFlashEraseLoop flash ret addr len w).2, c.ret = 0 := by
  fun_induction targetFlashEraseLoop flash ret addr len w with
  | case1 ret addr w =>
    rw [World.newCalls_self]
    exact ⟨h, by simp⟩
  | case2 ret addr len w =>
    rw [World.newCalls_self]
    exact ⟨h, by simp⟩
  | case3 ret addr len w hlen i hfind f tmplen r =>
    rename_i ih
    obtain ⟨hor, hcalls⟩ := ih h
    obtain ⟨hret, hr⟩ := or_eq_zero.mp hor
    refine ⟨hret, ?_⟩
    rw [newCalls_step (eraseLoop_extends _ _ _ _ _)]
    intro c hc
    rcases List.mem_cons.mp hc with rfl | hc
    · exact hr
    · exact hcalls c hc

/-- A mapped range is handed to the regions. Each turn hands over the part up to the end of
the region that covers its first address. -/
theorem eraseLoop_handed {flash : List (TargetFlash σ Tagged)} {ret : Ret} {addr len : UInt32}
    {w : World σ Tagged} (hmapped : Mapped (flash.map (·.toFlashRegion)) addr len.toNat)
    (hcalls : ∀ c ∈ w.newCalls (targetFlashEraseLoop flash ret addr len w).2, c.ret = 0) :
    Handed (flash.map (·.toFlashRegion)) addr.toNat len.toNat
      (w.newCalls (targetFlashEraseLoop flash ret addr len w).2) := by
  fun_induction targetFlashEraseLoop flash ret addr len w with
  | case1 ret addr w =>
    rw [World.newCalls_self]
    exact .nil _
  | case2 ret addr len w hlen hfind =>
    have hpos : 0 < len.toNat := by
      have := mt UInt32.toNat_inj.mp hlen
      simp only [UInt32.toNat_zero] at this
      omega
    obtain ⟨r, hr, hcovers⟩ := hmapped 0 hpos
    obtain ⟨f, hf, rfl⟩ := List.mem_map.mp hr
    rw [show addr + UInt32.ofNat 0 = addr from UInt32.add_zero addr,
      flashForAddr_eq_none hfind f hf] at hcovers
    contradiction
  | case3 ret addr len w hlen i hfind f tmplen r =>
    rename_i ih
    have hcovers := flashForAddr_eq_some hfind
    have hb : 0 < tmplen.toNat ∧ tmplen.toNat ≤ len.toNat := tmplen_bounds hcovers hlen
    have hnowrap := hmapped.nowrap
    have htmplen : tmplen.toNat = _ := tmplen_toNat hcovers hnowrap
    obtain ⟨hstart, hend, -⟩ := covers_toNat hcovers
    have hsub : (len - tmplen).toNat = len.toNat - tmplen.toNat :=
      UInt32.toNat_sub_of_le _ _ (UInt32.le_iff_toNat_le.mpr hb.2)
    have hsum : (addr + tmplen).toNat = addr.toNat + tmplen.toNat := by
      rw [UInt32.toNat_add]
      omega
    rw [newCalls_step (eraseLoop_extends _ _ _ _ _)] at hcalls ⊢
    have hr : r.1 = 0 := hcalls _ (List.mem_cons_self ..)
    have hrest := ih (hsub ▸ hmapped.drop tmplen) fun c hc => hcalls c (List.mem_cons_of_mem _ hc)
    rw [hsum, hsub] at hrest
    have hregion : (flash.map (·.toFlashRegion))[i.1]? = some f.toFlashRegion := by
      rw [List.getElem?_map, List.getElem?_eq_getElem i.2]
      rfl
    rw [← Nat.add_sub_cancel' hb.2]
    exact .cons rfl hr hregion hb.1 hstart (by omega) hrest

/-- A range that is handed to the regions is mapped: the loop looks up where each piece
begins, and a piece inside of its region is covered by it to its end. -/
theorem eraseLoop_mapped {flash : List (TargetFlash σ Tagged)} {ret : Ret} {addr len : UInt32}
    {w : World σ Tagged}
    (h : Handed (flash.map (·.toFlashRegion)) addr.toNat len.toNat
      (w.newCalls (targetFlashEraseLoop flash ret addr len w).2)) :
    Mapped (flash.map (·.toFlashRegion)) addr len.toNat := by
  fun_induction targetFlashEraseLoop flash ret addr len w with
  | case1 ret addr w =>
    intro k hk
    exact absurd hk (Nat.not_lt_zero k)
  | case2 ret addr len w =>
    rw [World.newCalls_self] at h
    generalize addr.toNat = a at h
    generalize len.toNat = n at h ⊢
    cases h
    intro k hk
    exact absurd hk (Nat.not_lt_zero k)
  | case3 ret addr len w hlen i hfind f tmplen r =>
    rename_i ih
    rw [newCalls_step (eraseLoop_extends _ _ _ _ _)] at h
    have hcovers := flashForAddr_eq_some hfind
    have hb : 0 < tmplen.toNat ∧ tmplen.toNat ≤ len.toNat := tmplen_bounds hcovers hlen
    have hregion : (flash.map (·.toFlashRegion))[i.1]? = some f.toFlashRegion := by
      rw [List.getElem?_map, List.getElem?_eq_getElem i.2]
      rfl
    obtain ⟨hstart, -, htop⟩ : f.start.toNat ≤ addr.toNat ∧ _ ∧
        f.start.toNat + f.length.toNat < 2 ^ 32 := covers_toNat hcovers
    generalize hn : len.toNat = n at h
    generalize ha : addr.toNat = a at h
    obtain _ | @⟨_, _, g, addr', tmplen', n, hcall, hret, hregion', hpos, hstart', hend', hrest⟩ := h
    obtain ⟨rfl, rfl⟩ := FlashCall.erase.inj hcall
    obtain rfl : f.toFlashRegion = g := Option.some.inj (hregion.symm.trans hregion')
    have hend : addr.toNat + tmplen.toNat ≤ f.start.toNat + f.length.toNat := hend'
    have hsum : (addr + tmplen).toNat = addr.toNat + tmplen.toNat := by
      rw [UInt32.toNat_add]
      omega
    have hsub : (len - tmplen).toNat = n := by
      rw [UInt32.toNat_sub_of_le _ _ (UInt32.le_iff_toNat_le.mpr hb.2)]
      change len.toNat = tmplen.toNat + n at hn
      omega
    rw [← hsub, ← hsum] at hrest
    have hmapped := ih hrest
    intro k hk
    by_cases hfirst : k < tmplen.toNat
    · refine ⟨f.toFlashRegion, List.mem_map.mpr ⟨f, List.get_mem flash i, rfl⟩, ?_⟩
      have hx : (addr + UInt32.ofNat k).toNat = addr.toNat + k := by
        have ht := tmplen.toNat_lt
        rw [UInt32.toNat_add, UInt32.toNat_ofNat_of_lt' (by rw [UInt32.size]; omega)]
        omega
      rw [covers_iff, hx, Nat.mod_eq_of_lt htop]
      exact ⟨by omega, by omega⟩
    · obtain ⟨g, hg, hcov⟩ := hmapped (k - tmplen.toNat) (by omega)
      refine ⟨g, hg, ?_⟩
      have heq : addr + tmplen + UInt32.ofNat (k - tmplen.toNat) = addr + UInt32.ofNat k := by
        rw [UInt32.add_assoc]
        congr 1
        nth_rewrite 1 [← UInt32.ofNat_toNat (x := tmplen)]
        rw [← UInt32.ofNat_add]
        congr 1
        omega
      rw [heq] at hcov
      exact hcov

/-! ## The packet -/

namespace Probe

variable (P : Probe σ)

/-- A `vFlashErase` in the state `s`: `target_flash_erase` returns zero only for a range in
flash that it has handed to the regions, and a range that is not in flash is answered `EFF`. -/
def EraseCovers (s : FlashState σ) (addr len : UInt32) : Prop :=
  let w := P.eraseWorld s
  let r := targetFlashErase s.flash addr len w
  let regions := s.flash.map (·.toFlashRegion)
  (r.1 = 0 → InFlash regions addr len ∧
    Handed regions addr.toNat len.toNat (w.newCalls r.2)) ∧
  (¬ InFlash regions addr len →
    r.1 ≠ 0 ∧ (P.handle s (.vFlash (.erase addr len))).1 = "EFF")

/-- The erase of a range is right if and only if `flash_for_addr` finds a region for every
address of it, or one of the erase calls fails. -/
theorem eraseCovers_iff (s : FlashState σ) (addr len : UInt32) :
    P.EraseCovers s addr len ↔
      Mapped (s.flash.map (·.toFlashRegion)) addr len.toNat ∨
        ∃ c ∈ (P.eraseWorld s).newCalls (targetFlashErase s.flash addr len (P.eraseWorld s)).2,
          c.ret ≠ 0 := by
  constructor
  · intro h
    by_cases hfail : ∃ c ∈ (P.eraseWorld s).newCalls
        (targetFlashErase s.flash addr len (P.eraseWorld s)).2, c.ret ≠ 0
    · exact .inr hfail
    · have hzero : (targetFlashErase s.flash addr len (P.eraseWorld s)).1 = 0 := by
        by_contra hne
        exact hfail (eraseLoop_ret hne rfl)
      exact .inl (eraseLoop_mapped (h.1 hzero).2)
  · intro h
    have hok : (targetFlashErase s.flash addr len (P.eraseWorld s)).1 = 0 →
        Mapped (s.flash.map (·.toFlashRegion)) addr len.toNat := by
      intro hzero
      rcases h with hmapped | ⟨c, hc, hne⟩
      · exact hmapped
      · exact absurd ((eraseLoop_zero hzero).2 c hc) hne
    constructor
    · intro hzero
      exact ⟨(hok hzero).inFlash, eraseLoop_handed (hok hzero) (eraseLoop_zero hzero).2⟩
    · intro hout
      have hne : (targetFlashErase s.flash addr len (P.eraseWorld s)).1 ≠ 0 :=
        fun hzero => hout (hok hzero).inFlash
      refine ⟨hne, ?_⟩
      rw [P.handle_erase]
      simp only [if_neg hne]

end Probe

theorem smallSize_ne_zero : (0x400 : UInt32) ≠ 0 := by decide

/-- A target with one kilobyte of flash, whose driver always succeeds. -/
def smallFlash : FlashState Unit where
  flash := [{
    start := 0x08000000
    length := 0x400
    blocksize := 0x400
    erase := fun _ _ _ => (0, ())
    write := fun _ _ _ _ => (0, ())
    done := none
    erased := (0xFF, none)
    bufSize := 0x400
    bufSize_ne_zero := smallSize_ne_zero
    bufAddr := invalidAddr
    buf := none }]
  flashMode := true
  world := ⟨(), [], 0⟩

/-- An erase of RAM is answered `OK` without an erase call. -/
theorem ram_not_eraseCovers :
    ¬ Probe.EraseCovers ⟨⟨(0, none), fun _ _ => (true, ()), id⟩, id⟩ smallFlash 0x20000000 4 := by
  rw [Probe.eraseCovers_iff]
  have hcalls : (targetFlashErase smallFlash.flash 0x20000000 4 ⟨(), [], 0⟩) =
      (0, ⟨(), [], 0⟩) := by
    rw [targetFlashErase, targetFlashEraseLoop]
    rfl
  rintro (h | ⟨c, hc, -⟩)
  · obtain ⟨r, hr, hcovers⟩ := h 0 (by decide)
    rw [List.mem_singleton.mp hr] at hcovers
    revert hcovers
    decide
  · rw [show (Probe.eraseWorld _ smallFlash) = ⟨(), [], 0⟩ from rfl, hcalls] at hc
    exact absurd hc (List.not_mem_nil)

end MiyakoLink.Flash
