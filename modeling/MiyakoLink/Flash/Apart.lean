import Mathlib.Tactic.Common
import MiyakoLink.Lib.Guarded
import MiyakoLink.Flash.Packets

/-!
# Flash sessions do not leak into each other

`OwnBytes` says of a driver write that it programs nothing of another session.

* `OwnState.handle`: a contained packet keeps the invariant that the staged bytes are of the
  session under way.
* `sessions_apart`: in a run of contained packets, a packet that ends its session leaves no
  region pending, and no driver write programs a byte of another session.
* `leakyRun`: a failed flush leaves the region behind it pending, and its bytes are
  programmed in the next session.
-/

namespace MiyakoLink.Flash

open Lib

variable {σ : Type}

/-! ## Whose bytes are programmed -/

/-- The byte is padding or was brought in session `n`. -/
def FromSession (n : Nat) (x : Tagged) : Prop := x.2 = none ∨ x.2 = some n

/-- A driver write programs padding and bytes of its own session only. -/
def DriverCall.OwnBytes (c : DriverCall Tagged) : Prop :=
  ∀ addr data len, c.call = .write addr data len → ∀ x ∈ data, FromSession c.session x

/-- What the region has staged is of session `n`; its erased value is no packet's byte. -/
structure TargetFlash.Own (n : Nat) (f : TargetFlash σ Tagged) : Prop where
  erased : f.erased.2 = none
  staged : f.Pending → ∀ x ∈ f.buf.getD [], FromSession n x

variable {f : TargetFlash σ Tagged} {w : World σ Tagged} {i : Nat}

theorem ownBytes_call (hlog : ∀ c ∈ w.log, c.OwnBytes) (c : FlashCall Tagged) (r : Ret × σ)
    (hc : ∀ addr data len, c ≠ .write addr data len) :
    ∀ c' ∈ (w.call i c r).2.log, c'.OwnBytes :=
  forall_mem_call_log hlog fun addr data len h => absurd h (hc addr data len)

theorem TargetFlash.Own.writeBlock (h : f.Own w.session) (hp : f.Pending)
    (hlog : ∀ c ∈ w.log, c.OwnBytes) : ∀ c ∈ (f.writeBlock i w).2.log, c.OwnBytes :=
  forall_mem_call_log hlog fun addr data len hc => by
    obtain ⟨rfl, rfl, rfl⟩ := FlashCall.write.inj hc
    exact h.staged hp

theorem TargetFlash.Own.loadBlock (h : f.Own w.session) (hbuf : f.buf ≠ none)
    (hlog : ∀ c ∈ w.log, c.OwnBytes) (base : UInt32) :
    (loadBlock i base f w).2.1.Own w.session ∧
      ∀ c ∈ (loadBlock i base f w).2.2.log, c.OwnBytes := by
  unfold Flash.loadBlock
  by_cases hsame : base ≠ f.bufAddr
  · simp only [if_pos hsame]
    refine ⟨⟨h.erased, fun _ x hx => ?_⟩, ?_⟩
    · rw [List.eq_of_mem_replicate hx]
      exact Or.inl h.erased
    · split
      · rename_i hvalid
        exact h.writeBlock ⟨hbuf, hvalid⟩ hlog
      · exact hlog
  · rw [if_neg hsame]
    exact ⟨h, hlog⟩

theorem TargetFlash.Own.copyChunk {n : Nat} (h : f.Own n) (offset : UInt32)
    {chunk : List Tagged} (hchunk : ∀ x ∈ chunk, FromSession n x) :
    (f.copyChunk offset chunk).Own n := by
  refine ⟨h.erased, fun hp x hx => ?_⟩
  cases hbuf : f.buf with
  | none => simp [TargetFlash.copyChunk, hbuf] at hx
  | some b =>
    simp only [TargetFlash.copyChunk, hbuf, Option.map_some, Option.getD_some] at hx
    rcases mem_patch hx with hx | hx
    · refine h.staged ⟨by rw [hbuf]; exact Option.some_ne_none b, hp.2⟩ x ?_
      rw [hbuf]
      exact hx
    · exact hchunk x hx

theorem TargetFlash.Own.writeLoop {dest len : UInt32} {src : List Tagged}
    (h : f.Own w.session) (hbuf : f.buf ≠ none) (hlog : ∀ c ∈ w.log, c.OwnBytes)
    (hsrc : ∀ x ∈ src, FromSession w.session x) :
    (writeBufferedLoop i f dest src len w).2.1.Own w.session ∧
      ∀ c ∈ (writeBufferedLoop i f dest src len w).2.2.log, c.OwnBytes := by
  fun_induction writeBufferedLoop i f dest src len w with
  | case1 => exact ⟨h, hlog⟩
  | case2 f dest src len w _ offset base l sectlen =>
    rename_i ih
    obtain ⟨hl, hlog'⟩ := h.loadBlock (i := i) hbuf hlog base
    have hsession : l.2.2.session = w.session := (loadBlock_extends i base f w).session
    rw [hsession] at ih
    exact ih (hl.copyChunk offset fun x hx => hsrc x (List.mem_of_mem_take hx))
      (copyChunk_buf (loadBlock_buf hbuf i base w) _ _) hlog'
      fun x hx => hsrc x (List.mem_of_mem_drop hx)

theorem TargetFlash.Own.writeBuffered {H : Heap σ Tagged} {dest len : UInt32}
    {src : List Tagged} (h : f.Own w.session) (hlog : ∀ c ∈ w.log, c.OwnBytes)
    (hsrc : ∀ x ∈ src, FromSession w.session x) :
    (targetFlashWriteBuffered H i f dest src len w).2.1.Own w.session ∧
      ∀ c ∈ (targetFlashWriteBuffered H i f dest src len w).2.2.log, c.OwnBytes := by
  unfold targetFlashWriteBuffered
  cases hbuf : f.buf with
  | some b => exact h.writeLoop (by rw [hbuf]; exact Option.some_ne_none b) hlog hsrc
  | none =>
    have hfresh : TargetFlash.Own w.session { f with
        bufAddr := invalidAddr, buf := some (List.replicate f.bufSize.toNat H.zero) } :=
      ⟨h.erased, fun hp => absurd rfl hp.2⟩
    dsimp only
    split
    · exact hfresh.writeLoop (w := (w.call i _ _).2) (Option.some_ne_none _)
        (ownBytes_call hlog (.alloc f.bufSize) _ (fun _ _ _ => nofun)) hsrc
    · exact ⟨h, ownBytes_call hlog (.alloc f.bufSize) _ (fun _ _ _ => nofun)⟩

theorem TargetFlash.Own.doneBuffered {H : Heap σ Tagged} (h : f.Own w.session)
    (hlog : ∀ c ∈ w.log, c.OwnBytes) :
    (targetFlashDoneBuffered H i f w).2.1.Own w.session ∧
      ∀ c ∈ (targetFlashDoneBuffered H i f w).2.2.log, c.OwnBytes := by
  refine ⟨⟨?_, fun hp => absurd hp (doneBuffered_not_pending H i f w)⟩, ?_⟩
  · rw [targetFlashDoneBuffered_region]
    exact h.erased
  · unfold targetFlashDoneBuffered
    split
    · rename_i hp
      exact h.writeBlock hp hlog
    · exact hlog

theorem ownBytes_callDone (hlog : ∀ c ∈ w.log, c.OwnBytes) :
    ∀ c ∈ (f.callDone i w).2.log, c.OwnBytes := by
  unfold TargetFlash.callDone
  split
  · exact hlog
  · exact ownBytes_call hlog .done _ (fun _ _ _ => nofun)

theorem ownBytes_eraseLoop {flash : List (TargetFlash σ Tagged)} {ret : Ret}
    {addr len : UInt32} (hlog : ∀ c ∈ w.log, c.OwnBytes) :
    ∀ c ∈ (targetFlashEraseLoop flash ret addr len w).2.log, c.OwnBytes := by
  fun_induction targetFlashEraseLoop flash ret addr len w with
  | case1 => exact hlog
  | case2 => exact hlog
  | case3 =>
    rename_i ih
    refine ih (ownBytes_call hlog (.erase _ _) _ ?_)
    intro _ _ _ heq
    cases heq

/-- The invariant of a run: every staged byte is of the session under way. -/
structure OwnState (flash : List (TargetFlash σ Tagged)) (w : World σ Tagged) : Prop where
  flash : ∀ f ∈ flash, f.Own w.session
  log : ∀ c ∈ w.log, c.OwnBytes

variable {flash : List (TargetFlash σ Tagged)}

theorem OwnState.writeLoop {H : Heap σ Tagged} {ret : Ret} {dest len : UInt32}
    {src : List Tagged} (h : OwnState flash w) (hsrc : ∀ x ∈ src, FromSession w.session x) :
    OwnState (targetFlashWriteLoop H flash ret dest src len w).2.1
      (targetFlashWriteLoop H flash ret dest src len w).2.2 := by
  fun_induction targetFlashWriteLoop H flash ret dest src len w with
  | case1 => exact h
  | case2 => exact h
  | case3 flash ret dest src len w _ k _ f tmplen r =>
    rename_i ih
    have hr : r.2.1.Own w.session ∧ ∀ c ∈ r.2.2.log, c.OwnBytes :=
      (h.flash f (List.get_mem flash k)).writeBuffered h.log hsrc
    obtain ⟨hf, hlog⟩ := hr
    have hsession : r.2.2.session = w.session :=
      (targetFlashWriteBuffered_extends H k.1 f dest src tmplen w).session
    rw [hsession] at ih
    refine ih ⟨fun g hg => ?_, hlog⟩ fun x hx => hsrc x (List.mem_of_mem_drop hx)
    rw [hsession]
    rcases List.mem_or_eq_of_mem_set hg with hg | rfl
    · exact h.flash g hg
    · exact hf

theorem OwnState.doneFrom {H : Heap σ Tagged} (h : OwnState flash w) :
    OwnState (targetFlashDoneFrom H i flash w).2.1 (targetFlashDoneFrom H i flash w).2.2 := by
  induction flash generalizing i w with
  | nil => exact h
  | cons f fs ih =>
    obtain ⟨hf, hlog⟩ := (h.flash f (.head fs)).doneBuffered (H := H) (i := i) h.log
    have hd := (targetFlashDoneBuffered_extends H i f w).session
    have hfs : ∀ g ∈ fs, g.Own w.session := fun g hg => h.flash g (.tail f hg)
    rw [targetFlashDoneFrom]
    generalize targetFlashDoneBuffered H i f w = d at *
    have hc := (callDone_extends i d.2.1 d.2.2).session.trans hd
    have hlog' := ownBytes_callDone (f := d.2.1) (i := i) hlog
    dsimp only
    split
    · refine ⟨fun g hg => ?_, hlog⟩
      rw [hd]
      exact (List.mem_cons.mp hg).elim (fun e => e ▸ hf) (hfs g)
    · split
      · refine ⟨fun g hg => ?_, hlog'⟩
        rw [hc]
        exact (List.mem_cons.mp hg).elim (fun e => e ▸ hf) (hfs g)
      · obtain ⟨hrest, hlog''⟩ := ih (i := i + 1) (w := (d.2.1.callDone i d.2.2).2)
          ⟨by rw [hc]; exact hfs, hlog'⟩
        refine ⟨fun g hg => ?_, hlog''⟩
        rcases List.mem_cons.mp hg with rfl | hg
        · rw [(doneFrom_extends H (i + 1) fs _).session, hc]
          exact hf
        · exact hrest g hg

theorem OwnState.nextSession {s : FlashState σ} (h : OwnState s.flash s.world)
    (hclean : s.nextSession.Clean) : OwnState s.nextSession.flash s.nextSession.world where
  flash f hf := ⟨(h.flash f hf).erased, fun hp => absurd hp (hclean f hf)⟩
  log := h.log

/-- The state after a packet. -/
def Probe.step (P : Probe σ) (s : FlashState σ) (p : Packet σ) : FlashState σ := (P.handle s p).2

/-- A contained packet keeps the invariant: when it ends the session nothing is staged. -/
theorem OwnState.handle {P : Probe σ} {s : FlashState σ} {p : Packet σ}
    (h : OwnState s.flash s.world) (hp : P.Contained s p) :
    OwnState (P.step s p).flash (P.step s p).world := by
  unfold Probe.step
  cases p with
  | other act => exact ⟨h.flash, h.log⟩
  | vFlash v =>
    have hclean := clean_of_contained P hp
    cases v with
    | erase addr len =>
      have hext := (P.eraseWorld_extends s).trans
        (eraseLoop_extends s.flash 0 addr len (P.eraseWorld s))
      have hlog : ∀ c ∈ (targetFlashErase s.flash addr len (P.eraseWorld s)).2.log,
          c.OwnBytes := by
        refine ownBytes_eraseLoop ?_
        unfold Probe.eraseWorld
        split <;> exact h.log
      have hstate : OwnState s.flash (targetFlashErase s.flash addr len (P.eraseWorld s)).2 :=
        ⟨fun f hf => hext.session ▸ h.flash f hf, hlog⟩
      rw [P.handle_erase] at hclean ⊢
      dsimp only at hclean ⊢
      split
      · exact hstate
      · rename_i hret
        rw [if_neg hret] at hclean
        exact OwnState.nextSession hstate (hclean rfl)
    | write addr data =>
      rw [P.handle_write] at hclean ⊢
      generalize hsrc : (data.map fun x => (x, some s.world.session)) = src at hclean ⊢
      have hown : ∀ x ∈ src, FromSession s.world.session x := by
        subst hsrc
        simp [FromSession]
      have hstate : OwnState
          (targetFlashWrite P.heap s.flash addr src (UInt32.ofNat data.length) s.world).2.1
          (targetFlashWrite P.heap s.flash addr src (UInt32.ofNat data.length) s.world).2.2 :=
        h.writeLoop hown
      dsimp only at hclean ⊢
      split
      · exact hstate
      · rename_i hret
        rw [if_neg hret] at hclean
        exact OwnState.nextSession (s := ⟨_, false, _⟩) hstate (hclean rfl)
    | done =>
      rw [P.handle_done] at hclean ⊢
      exact OwnState.nextSession (s := ⟨_, false, _⟩) h.doneFrom (hclean rfl)

/-- No flash command has been handled yet. -/
structure FlashState.Fresh (s : FlashState σ) : Prop where
  clean : s.Clean
  erased : ∀ f ∈ s.flash, f.erased.2 = none
  log : s.world.log = []

theorem FlashState.Fresh.own {s : FlashState σ} (h : s.Fresh) : OwnState s.flash s.world where
  flash f hf := ⟨h.erased f hf, fun hp => absurd hp (h.clean f hf)⟩
  log c hc := by
    rw [h.log] at hc
    contradiction

/-- In a run of contained packets every session ends with nothing pending, and every driver
write so far has programmed padding and bytes of its own session only. -/
theorem sessions_apart (P : Probe σ) {s₀ : FlashState σ} (h₀ : s₀.Fresh)
    {l : List (Packet σ)} {p : Packet σ} (hg : Guarded P.step P.Contained s₀ (l ++ [p])) :
    (∀ v, p = .vFlash v → v.endsSession (P.handle (l.foldl P.step s₀) p).1 = true →
        (P.handle (l.foldl P.step s₀) p).2.Clean) ∧
      ∀ c ∈ (P.handle (l.foldl P.step s₀) p).2.world.log, c.OwnBytes := by
  have hinv : OwnState (l.foldl P.step s₀).flash (l.foldl P.step s₀).world :=
    hg.of_append.invariant (I := fun s => OwnState s.flash s.world)
      (fun _ _ h hp => h.handle hp) h₀.own
  refine ⟨fun v hv hend => ?_, (hinv.handle hg.last).log⟩
  subst hv
  exact clean_of_contained P hg.last hend

/-! ## Two runs on two regions

Each region has room for four blocks of four bytes. The driver of the first one answers
`ret` to every write, that of the second one zero.
-/

theorem stubSize_ne_zero : (4 : UInt32) ≠ 0 := by decide

def stubRegion (start : UInt32) (ret : Ret) : TargetFlash Unit Tagged where
  start := start
  length := 16
  blocksize := 4
  erase _ _ env := (0, env)
  write _ _ _ env := (ret, env)
  done := none
  erased := (0xFF, none)
  bufSize := 4
  bufSize_ne_zero := stubSize_ne_zero
  bufAddr := 0
  buf := none

def stubState (ret : Ret) : FlashState Unit where
  flash := [stubRegion 0 ret, stubRegion 16 0]
  flashMode := false
  world := ⟨(), [], 0⟩

def stubProbe : Probe Unit where
  heap := ⟨(0, none), fun _ env => (true, env), id⟩
  targetReset := id

theorem stubState_fresh (ret : Ret) : (stubState ret).Fresh where
  clean f hf := by
    simp only [stubState, List.mem_cons, List.not_mem_nil, or_false] at hf
    rcases hf with rfl | rfl <;> exact fun hp => hp.1 rfl
  erased f hf := by
    simp only [stubState, List.mem_cons, List.not_mem_nil, or_false] at hf
    rcases hf with rfl | rfl <;> rfl
  log := rfl

instance (s : FlashState σ) : Decidable s.Clean :=
  inferInstanceAs (Decidable (∀ f ∈ s.flash, ¬ f.Pending))

/-- Both regions hold a staged byte when the session ends. -/
def twoWrites : List (Packet Unit) := [.vFlash (.write 0 [1]), .vFlash (.write 16 [2])]

theorem goodRun_apart :
    (stubProbe.handle (twoWrites.foldl stubProbe.step (stubState 0)) (.vFlash .done)).2.Clean ∧
      ∀ c ∈ (stubProbe.handle (twoWrites.foldl stubProbe.step (stubState 0))
        (.vFlash .done)).2.world.log, c.OwnBytes := by
  have hg : Guarded stubProbe.step stubProbe.Contained (stubState 0)
      (twoWrites ++ [.vFlash .done]) := by
    refine ⟨Or.inl ⟨?_, ?_⟩, Or.inl ⟨?_, ?_⟩, ?_, trivial⟩
    · unfold Mapped
      decide +kernel
    · decide +kernel
    · unfold Mapped
      decide +kernel
    · decide +kernel
    · have hcalls : ∀ c ∈ (twoWrites.foldl stubProbe.step (stubState 0)).world.newCalls
          (stubProbe.handle (twoWrites.foldl stubProbe.step (stubState 0))
            (.vFlash .done)).2.world, c.ret = 0 := by decide +kernel
      exact fun c hc hne => absurd (hcalls c hc) hne
  obtain ⟨hclean, hlog⟩ := sessions_apart stubProbe (stubState_fresh 0) hg
  exact ⟨hclean .done rfl rfl, hlog⟩

def leakyRun : List (Packet Unit) := twoWrites ++ [.vFlash .done, .vFlash (.write 20 [3])]

/-- The flush of the first region fails: `vFlashDone` is answered `EFF` with the second one
still pending, and the next session's first write programs its byte. -/
theorem leakyRun_leaks :
    (stubState 1).Fresh ∧
      ¬ (stubProbe.handle (twoWrites.foldl stubProbe.step (stubState 1))
        (.vFlash .done)).2.Clean ∧
      ∃ c ∈ (leakyRun.foldl stubProbe.step (stubState 1)).world.log, ¬ c.OwnBytes := by
  refine ⟨stubState_fresh 1, by decide +kernel,
    ⟨1, 1, .write 16 [(2, some 0), (0xFF, none), (0xFF, none), (0xFF, none)] 4, 0⟩,
    by decide +kernel, fun hown => ?_⟩
  have hfirst := hown _ _ _ rfl (2, some 0) (.head _)
  rcases hfirst with h | h <;> simp at h

end MiyakoLink.Flash
