import Mathlib.Tactic.Common
import MiyakoLink.Flash.Calls
import MiyakoLink.Flash.VFlash

/-!
# Flash packets and flash sessions

The flash packets of GDB handled with a current target: a session ends with `vFlashDone`, or
with a `vFlashErase` or `vFlashWrite` that is answered `EFF`. Every byte carries the number
of the session whose packet brought it, or no number for padding.

A driver callback returns here. One that raises an exception ends the target instead: the
handler around `gdb_main_loop` frees it with its regions.

* `clean_of_contained`: when a session ends nothing is left pending, provided the failures of
  the packet are `Contained`.
-/

namespace MiyakoLink.Flash

open Lib

/-- A byte with the number of the session whose packet brought it. -/
abbrev Tagged := UInt8 × Option Nat

variable {σ : Type}

/-- The flash regions of the current target and the controller's `flash_mode`. -/
structure FlashState (σ : Type) where
  flash : List (TargetFlash σ Tagged)
  flashMode : Bool
  world : World σ Tagged

/-- A packet: a flash packet, or another one, which acts on the environment only. -/
inductive Packet (σ : Type) where
  | vFlash (v : VFlash)
  | other (act : σ → σ)

/-- The code below the flash packets. -/
structure Probe (σ : Type) where
  heap : Heap σ Tagged
  targetReset : σ → σ

namespace Probe

variable (P : Probe σ)

def port : FlashPort (StateM (FlashState σ)) where
  hasTarget := pure true
  flashMode := fun s => (s.flashMode, s)
  setFlashMode on := fun s => ((), { s with flashMode := on })
  targetReset := fun s => ((), { s with world.env := P.targetReset s.world.env })
  targetFlashErase addr len := fun s =>
    let r := targetFlashErase s.flash addr len s.world
    (r.1, { s with world := r.2 })
  targetFlashWrite addr data len := fun s =>
    let r := targetFlashWrite P.heap s.flash addr
      (data.map fun x => (x, some s.world.session)) len s.world
    (r.1, { s with flash := r.2.1, world := r.2.2 })
  targetFlashDone := fun s =>
    let r := targetFlashDone P.heap s.flash s.world
    (r.1, { s with flash := r.2.1, world := r.2.2 })

end Probe

/-- The packet ends the flash session it is part of. -/
def VFlash.endsSession (v : VFlash) (answer : String) : Bool :=
  match v with
  | .done => true
  | _ => answer == "EFF"

def FlashState.nextSession (s : FlashState σ) : FlashState σ :=
  { s with world.session := s.world.session + 1 }

/-- Handle a packet: the answer, and the state after it. -/
def Probe.handle (P : Probe σ) (s : FlashState σ) : Packet σ → String × FlashState σ
  | .vFlash v =>
    let r := (handleVFlash P.port v).run s
    if v.endsSession r.1 then (r.1, r.2.nextSession) else r
  | .other act => ("", { s with world.env := act s.world.env })

namespace Probe

variable (P : Probe σ)

theorem pure_state {α τ : Type} (a : α) (s : τ) : (pure a : StateM τ α) s = (a, s) := rfl

/-- The world in which an erase packet erases: the target has been reset when it is the
first flash command. -/
def eraseWorld (s : FlashState σ) : World σ Tagged :=
  if s.flashMode then s.world else { s.world with env := P.targetReset s.world.env }

theorem eraseWorld_extends (s : FlashState σ) : s.world.Extends (P.eraseWorld s) := by
  unfold eraseWorld
  split
  · exact .refl s.world
  · exact ⟨List.prefix_refl _, rfl⟩

theorem handle_erase (s : FlashState σ) (addr len : UInt32) :
    P.handle s (.vFlash (.erase addr len)) =
      let r := targetFlashErase s.flash addr len (P.eraseWorld s)
      if r.1 = 0 then ("OK", ⟨s.flash, true, r.2⟩)
      else ("EFF", FlashState.nextSession ⟨s.flash, false, r.2⟩) := by
  obtain ⟨flash, mode, w⟩ := s
  cases mode with
  | true =>
    by_cases h : (targetFlashErase flash addr len w).1 = 0#32 <;>
      simp [handle, handleVFlash, port, bind, StateT.bind, pure_state, StateT.run,
        eraseWorld, h, VFlash.endsSession]
  | false =>
    by_cases h : (targetFlashErase flash addr len
        { w with env := P.targetReset w.env }).1 = 0#32 <;>
      simp [handle, handleVFlash, port, bind, StateT.bind, pure_state, StateT.run,
        eraseWorld, h, VFlash.endsSession]

theorem handle_write (s : FlashState σ) (addr : UInt32) (data : List UInt8) :
    P.handle s (.vFlash (.write addr data)) =
      let r := targetFlashWrite P.heap s.flash addr
        (data.map fun x => (x, some s.world.session)) (UInt32.ofNat data.length) s.world
      if r.1 = 0 then ("OK", ⟨r.2.1, s.flashMode, r.2.2⟩)
      else ("EFF", FlashState.nextSession ⟨r.2.1, false, r.2.2⟩) := by
  by_cases h : (targetFlashWrite P.heap s.flash addr
      (data.map fun x => (x, some s.world.session)) (UInt32.ofNat data.length) s.world).1 = 0#32
    <;> simp [handle, handleVFlash, port, bind, StateT.bind, pure_state, StateT.run, h,
      VFlash.endsSession]

theorem handle_done (s : FlashState σ) :
    P.handle s (.vFlash .done) =
      let r := targetFlashDone P.heap s.flash s.world
      (if r.1 ≠ 0 then "EFF" else "OK", FlashState.nextSession ⟨r.2.1, false, r.2.2⟩) := by
  rfl

end Probe

/-! ## Nothing is left pending -/

/-- No region holds data not yet written. -/
def FlashState.Clean (s : FlashState σ) : Prop := ∀ f ∈ s.flash, ¬ f.Pending

/-- Every byte of a range is in a region. -/
def Mapped (regions : List (FlashRegion σ Tagged)) (addr : UInt32) (len : Nat) : Prop :=
  ∀ k < len, ∃ r ∈ regions, r.covers (addr + UInt32.ofNat k) = true

/-- What fails while a packet is handled leaves no staged data behind.
* A `vFlashErase`: nothing is pending before it, or none of its erase calls fails.
* A `vFlashWrite`: it lies in flash and none of its calls fails; or no region has a buffer and
  every call it makes, an allocation then, fails.
* A `vFlashDone`: no region behind one whose flush or `done` fails is pending. -/
def Probe.Contained (P : Probe σ) (s : FlashState σ) (p : Packet σ) : Prop :=
  let calls := s.world.newCalls (P.handle s p).2.world
  match p with
  | .vFlash (.erase _ _) => s.Clean ∨ ∀ c ∈ calls, c.ret = 0
  | .vFlash (.write addr data) =>
    (Mapped (s.flash.map (·.toFlashRegion)) addr (UInt32.ofNat data.length).toNat ∧
      ∀ c ∈ calls, c.ret = 0) ∨
    (∀ f ∈ s.flash, f.buf = none) ∧ ∀ c ∈ calls, c.ret ≠ 0
  | .vFlash .done => ∀ c ∈ calls, c.ret ≠ 0 →
    ∀ (j : Nat) (f : TargetFlash σ Tagged), c.region < j → s.flash[j]? = some f → ¬ f.Pending
  | .other _ => True

theorem flashForAddr_eq_none {flash : List (TargetFlash σ Tagged)} {addr : UInt32}
    (h : flashForAddr flash addr = none) : ∀ f ∈ flash, f.covers addr = false := by
  unfold flashForAddr at h
  rw [List.findFinIdx?_eq_none_iff] at h
  exact fun f hf => Bool.eq_false_iff.mpr (h f hf)

/-- A write that lies in flash and makes no call that fails returns zero. -/
theorem writeLoop_of_mapped {H : Heap σ Tagged} {flash : List (TargetFlash σ Tagged)}
    {ret : Ret} {dest len : UInt32} {src : List Tagged} {w : World σ Tagged}
    (hmapped : Mapped (flash.map (·.toFlashRegion)) dest len.toNat) (hret : ret = 0)
    (h : ∀ c ∈ w.newCalls (targetFlashWriteLoop H flash ret dest src len w).2.2, c.ret = 0) :
    (targetFlashWriteLoop H flash ret dest src len w).1 = 0 := by
  fun_induction targetFlashWriteLoop H flash ret dest src len w with
  | case1 => exact hret
  | case2 flash ret dest src len w hlen hfind =>
    have hpos : 0 < len.toNat := by
      have := mt UInt32.toNat_inj.mp hlen
      simp only [UInt32.toNat_zero] at this
      omega
    obtain ⟨r, hr, hcovers⟩ := hmapped 0 hpos
    obtain ⟨f, hf, rfl⟩ := List.mem_map.mp hr
    have hnone := flashForAddr_eq_none hfind f hf
    rw [show dest + UInt32.ofNat 0 = dest from UInt32.add_zero dest] at hcovers
    rw [hcovers] at hnone
    contradiction
  | case3 flash ret dest src len w hlen i hfind f tmplen r =>
    rename_i ih
    have hb : 0 < tmplen.toNat ∧ tmplen.toNat ≤ len.toNat :=
      tmplen_bounds (flashForAddr_eq_some hfind) hlen
    have hcall : w.Extends r.2.2 := targetFlashWriteBuffered_extends H i.1 f dest src tmplen w
    have hrest := writeLoop_extends H (flash.set i.1 r.2.1) (ret ||| r.1) (dest + tmplen)
      (src.drop tmplen.toNat) (len - tmplen) r.2.2
    have hregions : (flash.set i.1 r.2.1).map (·.toFlashRegion) =
        flash.map (·.toFlashRegion) := by
      rw [List.map_set, targetFlashWriteBuffered_region]
      exact List.ext_getElem? fun j => by
        rw [List.getElem?_set]
        split
        · rename_i hij
          subst hij
          simp [f]
        · rfl
    refine ih ?_ (or_eq_zero.mpr ⟨hret, ?_⟩) fun c hc => h c (World.newCalls_right hcall hrest hc)
    · rw [hregions]
      intro k hk
      rw [UInt32.toNat_sub_of_le _ _ (UInt32.le_iff_toNat_le.mpr hb.2)] at hk
      obtain ⟨g, hg, hcovers⟩ := hmapped (tmplen.toNat + k) (by omega)
      refine ⟨g, hg, ?_⟩
      rw [UInt32.ofNat_add, UInt32.ofNat_toNat, ← UInt32.add_assoc] at hcovers
      exact hcovers
    · exact writeBuffered_ret fun c hc => h c (World.newCalls_left hcall hrest hc)

/-- A write that makes no call but failing ones on regions without buffers stages nothing. -/
theorem writeLoop_of_failed {H : Heap σ Tagged} {flash : List (TargetFlash σ Tagged)}
    {ret : Ret} {dest len : UInt32} {src : List Tagged} {w : World σ Tagged}
    (hbuf : ∀ f ∈ flash, f.buf = none)
    (h : ∀ c ∈ w.newCalls (targetFlashWriteLoop H flash ret dest src len w).2.2, c.ret ≠ 0) :
    (targetFlashWriteLoop H flash ret dest src len w).2.1 = flash := by
  fun_induction targetFlashWriteLoop H flash ret dest src len w with
  | case1 => rfl
  | case2 => rfl
  | case3 flash ret dest src len w hlen i hfind f tmplen r =>
    rename_i ih
    have hcall : w.Extends r.2.2 := targetFlashWriteBuffered_extends H i.1 f dest src tmplen w
    have hrest := writeLoop_extends H (flash.set i.1 r.2.1) (ret ||| r.1) (dest + tmplen)
      (src.drop tmplen.toNat) (len - tmplen) r.2.2
    have hr : r.2.1 = f := by
      have hfail : ∀ c ∈ w.newCalls r.2.2, c.ret ≠ 0 := fun c hc =>
        h c (World.newCalls_left hcall hrest hc)
      have hnone : f.buf = none := hbuf f (List.get_mem flash i)
      simp only [r, targetFlashWriteBuffered, hnone] at hfail ⊢
      by_cases halloc : (H.alloc f.bufSize w.env).1 = true
      · simp only [if_pos halloc] at hfail
        exact absurd rfl (hfail _ (World.newCalls_left (World.extends_call w i.1 _ _)
          (writeBufferedLoop_extends i.1 _ _ _ _ _) (World.mem_newCalls_call w i.1 _ _)))
      · simp only [if_neg halloc]
    have hset : flash.set i.1 r.2.1 = flash := by
      rw [hr]
      exact List.set_getElem_self i.2
    rw [hset] at ih h hrest ⊢
    exact ih hbuf fun c hc => h c (World.newCalls_right hcall hrest hc)

theorem doneBuffered_not_pending (H : Heap σ Tagged) (i : Nat) (f : TargetFlash σ Tagged)
    (w : World σ Tagged) : ¬ (targetFlashDoneBuffered H i f w).2.1.Pending := by
  unfold targetFlashDoneBuffered
  split
  · exact fun hp => hp.1 rfl
  · assumption

/-- `target_flash_done` leaves nothing pending when no region behind a failing one is. The
induction is on the regions: one that fails ends the loop, and those behind it stay as they
are. -/
theorem doneFrom_clean {H : Heap σ Tagged} {i : Nat} {fs : List (TargetFlash σ Tagged)}
    {w : World σ Tagged}
    (h : ∀ c ∈ w.newCalls (targetFlashDoneFrom H i fs w).2.2, c.ret ≠ 0 →
      ∀ (j : Nat) (f : TargetFlash σ Tagged), c.region < i + j → fs[j]? = some f → ¬ f.Pending) :
    ∀ f ∈ (targetFlashDoneFrom H i fs w).2.1, ¬ f.Pending := by
  induction fs generalizing i w with
  | nil => exact fun f hf => nomatch hf
  | cons f fs ih =>
    have hclean := doneBuffered_not_pending H i f w
    have hd := targetFlashDoneBuffered_extends H i f w
    have hfail := fun hne => doneBuffered_ret (H := H) (i := i) (f := f) (w := w) hne
    rw [targetFlashDoneFrom] at h ⊢
    generalize targetFlashDoneBuffered H i f w = d at *
    have hc := callDone_extends i d.2.1 d.2.2
    have hstop : ∀ c : DriverCall Tagged, c.region = i →
        (∀ (j : Nat) (g : TargetFlash σ Tagged), c.region < i + j →
          (f :: fs)[j]? = some g → ¬ g.Pending) → ∀ g ∈ d.2.1 :: fs, ¬ g.Pending := by
      intro c hci hlater g hg
      rcases List.mem_cons.mp hg with rfl | hg
      · exact hclean
      · obtain ⟨j, hj⟩ := List.mem_iff_getElem?.mp hg
        exact hlater (j + 1) g (by omega) hj
    by_cases hzero : d.1 = 0
    · simp only [hzero, ne_eq, not_true_eq_false, if_false] at h ⊢
      by_cases hzero' : (d.2.1.callDone i d.2.2).1 = 0
      · simp only [hzero', not_true_eq_false, if_false] at h ⊢
        have hrest := doneFrom_extends H (i + 1) fs (d.2.1.callDone i d.2.2).2
        intro g hg
        rcases List.mem_cons.mp hg with rfl | hg
        · exact hclean
        · refine ih (fun c hmem hne j g' hlt hj => ?_) g hg
          exact h c (World.newCalls_right (hd.trans hc) hrest hmem) hne (j + 1) g' (by omega) hj
      · simp only [hzero', not_false_eq_true, if_true] at h ⊢
        obtain ⟨c, hmem, hregion, hne⟩ := callDone_ret hzero'
        exact hstop c hregion (h c (World.newCalls_right hd hc hmem) hne)
    · simp only [hzero, ne_eq, not_false_eq_true, if_true] at h ⊢
      obtain ⟨c, hmem, hregion, hne⟩ := hfail hzero
      exact hstop c hregion (h c hmem hne)

/-- A packet that ends a session and is contained leaves no region pending. -/
theorem clean_of_contained (P : Probe σ) {s : FlashState σ} {v : VFlash}
    (h : P.Contained s (.vFlash v)) (hend : v.endsSession (P.handle s (.vFlash v)).1 = true) :
    (P.handle s (.vFlash v)).2.Clean := by
  cases v with
  | erase addr len =>
    have h : s.Clean ∨
      ∀ c ∈ s.world.newCalls (P.handle s (.vFlash (.erase addr len))).2.world, c.ret = 0 := h
    rw [P.handle_erase] at h hend ⊢
    by_cases hret : (targetFlashErase s.flash addr len (P.eraseWorld s)).1 = 0
    · simp only [if_pos hret] at hend
      contradiction
    · simp only [if_neg hret] at h ⊢
      rcases h with hclean | hcalls
      · exact hclean
      · obtain ⟨c, hc, hne⟩ := eraseLoop_ret hret rfl
        exact absurd (hcalls c (World.newCalls_right (P.eraseWorld_extends s)
          (eraseLoop_extends _ _ _ _ _) hc)) hne
  | write addr data =>
    have h : (Mapped (s.flash.map (·.toFlashRegion)) addr (UInt32.ofNat data.length).toNat ∧
          ∀ c ∈ s.world.newCalls (P.handle s (.vFlash (.write addr data))).2.world, c.ret = 0) ∨
        (∀ f ∈ s.flash, f.buf = none) ∧
          ∀ c ∈ s.world.newCalls (P.handle s (.vFlash (.write addr data))).2.world, c.ret ≠ 0 := h
    rw [P.handle_write] at h hend ⊢
    by_cases hret : (targetFlashWrite P.heap s.flash addr
      (data.map fun x => (x, some s.world.session)) (UInt32.ofNat data.length) s.world).1 = 0
    · simp only [if_pos hret] at hend
      contradiction
    · simp only [if_neg hret] at h ⊢
      rcases h with ⟨hmapped, hcalls⟩ | ⟨hbuf, hcalls⟩
      · exact absurd (writeLoop_of_mapped hmapped rfl hcalls) hret
      · intro f hf
        have hflash := writeLoop_of_failed hbuf hcalls
        exact fun hp => hp.1 (hbuf f (hflash ▸ hf))
  | done =>
    refine doneFrom_clean fun c hc hne j f hlt hj => ?_
    rw [Nat.zero_add] at hlt
    exact h c hc hne j f hlt hj

end MiyakoLink.Flash
