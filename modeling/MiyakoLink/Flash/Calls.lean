import Mathlib.Tactic.Common
import MiyakoLink.Flash.Buffered

/-!
# The calls an operation makes and its result

`newCalls w w'` are the calls recorded between two worlds. Every flash operation only adds
calls (`Extends`), and its result is that of its calls: it is zero when they all return zero
(`writeBuffered_ret`), and when it is not zero one of them has failed (`eraseLoop_ret`,
`doneBuffered_ret`, `callDone_ret`).
-/

namespace MiyakoLink.Flash

variable {σ β : Type}

namespace World

/-- `w'` is `w` after some more calls of the same session. -/
structure Extends (w w' : World σ β) : Prop where
  log : w.log <+: w'.log
  session : w'.session = w.session

def newCalls (w w' : World σ β) : List (DriverCall β) := w'.log.drop w.log.length

variable {w w₁ w₂ : World σ β}

theorem Extends.refl (w : World σ β) : w.Extends w := ⟨List.prefix_refl _, rfl⟩

theorem Extends.trans (h : w.Extends w₁) (h' : w₁.Extends w₂) : w.Extends w₂ :=
  ⟨h.log.trans h'.log, h'.session.trans h.session⟩

theorem extends_call (w : World σ β) (i : Nat) (c : FlashCall β) (r : Ret × σ) :
    w.Extends (w.call i c r).2 := ⟨List.prefix_append _ _, rfl⟩

theorem newCalls_self (w : World σ β) : w.newCalls w = [] := List.drop_length

theorem newCalls_call (w : World σ β) (i : Nat) (c : FlashCall β) (r : Ret × σ) :
    w.newCalls (w.call i c r).2 = [⟨i, w.session, c, r.1⟩] := List.drop_left

theorem mem_newCalls_call (w : World σ β) (i : Nat) (c : FlashCall β) (r : Ret × σ) :
    ⟨i, w.session, c, r.1⟩ ∈ w.newCalls (w.call i c r).2 := by
  rw [newCalls_call]
  exact .head []

theorem newCalls_trans (h : w.Extends w₁) (h' : w₁.Extends w₂) :
    w.newCalls w₂ = w.newCalls w₁ ++ w₁.newCalls w₂ := by
  obtain ⟨l₁, hl₁⟩ := h.log
  obtain ⟨l₂, hl₂⟩ := h'.log
  simp only [newCalls, ← hl₂, ← hl₁, List.append_assoc, List.drop_left]
  rw [← List.append_assoc, List.drop_left]

theorem newCalls_left (h : w.Extends w₁) (h' : w₁.Extends w₂) {c : DriverCall β}
    (hc : c ∈ w.newCalls w₁) : c ∈ w.newCalls w₂ := by
  rw [newCalls_trans h h']
  exact List.mem_append_left _ hc

theorem newCalls_right (h : w.Extends w₁) (h' : w₁.Extends w₂) {c : DriverCall β}
    (hc : c ∈ w₁.newCalls w₂) : c ∈ w.newCalls w₂ := by
  rw [newCalls_trans h h']
  exact List.mem_append_right _ hc

end World

open World

/-! ## Every operation only adds calls -/

theorem loadBlock_extends (i : Nat) (base : UInt32) (f : TargetFlash σ β) (w : World σ β) :
    w.Extends (loadBlock i base f w).2.2 := by
  unfold loadBlock
  split
  · dsimp only
    split
    · exact extends_call w i _ _
    · exact .refl w
  · exact .refl w

theorem writeBufferedLoop_extends (i : Nat) (f : TargetFlash σ β) (dest : UInt32)
    (src : List β) (len : UInt32) (w : World σ β) :
    w.Extends (writeBufferedLoop i f dest src len w).2.2 := by
  fun_induction writeBufferedLoop i f dest src len w with
  | case1 f _ _ w => exact .refl w
  | case2 f dest src len w =>
    rename_i ih
    exact (loadBlock_extends i _ f w).trans ih

theorem targetFlashWriteBuffered_extends (H : Heap σ β) (i : Nat) (f : TargetFlash σ β)
    (dest : UInt32) (src : List β) (len : UInt32) (w : World σ β) :
    w.Extends (targetFlashWriteBuffered H i f dest src len w).2.2 := by
  unfold targetFlashWriteBuffered
  split
  · exact writeBufferedLoop_extends i f dest src len w
  · dsimp only
    split
    · exact (extends_call w i _ _).trans (writeBufferedLoop_extends i _ dest src len _)
    · exact extends_call w i _ _

theorem targetFlashDoneBuffered_extends (H : Heap σ β) (i : Nat) (f : TargetFlash σ β)
    (w : World σ β) : w.Extends (targetFlashDoneBuffered H i f w).2.2 := by
  unfold targetFlashDoneBuffered
  split
  · exact ⟨(extends_call w i _ _).log, rfl⟩
  · exact .refl w

theorem callDone_extends (i : Nat) (f : TargetFlash σ β) (w : World σ β) :
    w.Extends (f.callDone i w).2 := by
  unfold TargetFlash.callDone
  split
  · exact .refl w
  · exact extends_call w i _ _

theorem eraseLoop_extends (flash : List (TargetFlash σ β)) (ret : Ret) (addr len : UInt32)
    (w : World σ β) : w.Extends (targetFlashEraseLoop flash ret addr len w).2 := by
  fun_induction targetFlashEraseLoop flash ret addr len w with
  | case1 _ _ w => exact .refl w
  | case2 _ _ _ w => exact .refl w
  | case3 ret addr len w =>
    rename_i ih
    exact (extends_call w _ _ _).trans ih

theorem writeLoop_extends (H : Heap σ β) (flash : List (TargetFlash σ β)) (ret : Ret)
    (dest : UInt32) (src : List β) (len : UInt32) (w : World σ β) :
    w.Extends (targetFlashWriteLoop H flash ret dest src len w).2.2 := by
  fun_induction targetFlashWriteLoop H flash ret dest src len w with
  | case1 _ _ _ _ w => exact .refl w
  | case2 _ _ _ _ _ w => exact .refl w
  | case3 flash ret dest src len w =>
    rename_i ih
    exact (targetFlashWriteBuffered_extends H _ _ dest src _ w).trans ih

theorem doneFrom_extends (H : Heap σ β) (i : Nat) (fs : List (TargetFlash σ β))
    (w : World σ β) : w.Extends (targetFlashDoneFrom H i fs w).2.2 := by
  induction fs generalizing i w with
  | nil => exact .refl w
  | cons f fs ih =>
    have hd := targetFlashDoneBuffered_extends H i f w
    rw [targetFlashDoneFrom]
    dsimp only
    split
    · exact hd
    · have hc := hd.trans (callDone_extends i (targetFlashDoneBuffered H i f w).2.1
        (targetFlashDoneBuffered H i f w).2.2)
      split
      · exact hc
      · exact hc.trans (ih _ _)

/-! ## The result of an operation is that of its calls -/

theorem loadBlock_ret {i : Nat} {base : UInt32} {f : TargetFlash σ β} {w : World σ β}
    (h : ∀ c ∈ w.newCalls (loadBlock i base f w).2.2, c.ret = 0) :
    (loadBlock i base f w).1 = 0 := by
  unfold loadBlock at h ⊢
  by_cases hsame : base ≠ f.bufAddr
  · simp only [if_pos hsame] at h ⊢
    split
    · rename_i hvalid
      rw [if_pos hvalid] at h
      exact h _ (by rw [TargetFlash.writeBlock, newCalls_call]; exact .head _)
    · rfl
  · rw [if_neg hsame]

theorem writeBufferedLoop_ret {i : Nat} {f : TargetFlash σ β} {dest : UInt32} {src : List β}
    {len : UInt32} {w : World σ β}
    (h : ∀ c ∈ w.newCalls (writeBufferedLoop i f dest src len w).2.2, c.ret = 0) :
    (writeBufferedLoop i f dest src len w).1 = 0 := by
  fun_induction writeBufferedLoop i f dest src len w with
  | case1 => rfl
  | case2 f dest src len w _ offset base l sectlen rest =>
    rename_i ih
    have hl : w.Extends l.2.2 := loadBlock_extends i base f w
    have hr : l.2.2.Extends rest.2.2 := writeBufferedLoop_extends i _ _ _ _ _
    exact or_eq_zero.mpr ⟨loadBlock_ret fun c hc => h c (newCalls_left hl hr hc),
      ih fun c hc => h c (newCalls_right hl hr hc)⟩

theorem writeBuffered_ret {H : Heap σ β} {i : Nat} {f : TargetFlash σ β} {dest : UInt32}
    {src : List β} {len : UInt32} {w : World σ β}
    (h : ∀ c ∈ w.newCalls (targetFlashWriteBuffered H i f dest src len w).2.2, c.ret = 0) :
    (targetFlashWriteBuffered H i f dest src len w).1 = 0 := by
  unfold targetFlashWriteBuffered at h ⊢
  cases hbuf : f.buf with
  | some b =>
    simp only [hbuf] at h
    exact writeBufferedLoop_ret h
  | none =>
    simp only [hbuf] at h
    by_cases halloc : (H.alloc f.bufSize w.env).1 = true
    · simp only [if_pos halloc] at h ⊢
      exact writeBufferedLoop_ret fun c hc => h c
        (newCalls_right (extends_call w i _ _) (writeBufferedLoop_extends i _ _ _ _ _) hc)
    · simp only [if_neg halloc] at h
      exact absurd (h _ (mem_newCalls_call w i _ _)) (show (1 : Ret) ≠ 0 by decide)

theorem eraseLoop_ret {flash : List (TargetFlash σ β)} {ret : Ret} {addr len : UInt32}
    {w : World σ β} (h : (targetFlashEraseLoop flash ret addr len w).1 ≠ 0) (hret : ret = 0) :
    ∃ c ∈ w.newCalls (targetFlashEraseLoop flash ret addr len w).2, c.ret ≠ 0 := by
  fun_induction targetFlashEraseLoop flash ret addr len w with
  | case1 => exact absurd hret h
  | case2 => exact absurd hret h
  | case3 ret addr len w hlen i hfind f tmplen r =>
    rename_i ih
    subst hret
    have hcall : w.Extends r.2 := extends_call w i.1 _ _
    have hrest := eraseLoop_extends flash (0 ||| r.1) (addr + tmplen) (len - tmplen) r.2
    by_cases hr : r.1 = 0
    · obtain ⟨c, hc, hfail⟩ := ih h (or_eq_zero.mpr ⟨rfl, hr⟩)
      exact ⟨c, newCalls_right hcall hrest hc, hfail⟩
    · exact ⟨_, newCalls_left hcall hrest (mem_newCalls_call w i _ _), hr⟩

theorem doneBuffered_ret {H : Heap σ β} {i : Nat} {f : TargetFlash σ β} {w : World σ β}
    (h : (targetFlashDoneBuffered H i f w).1 ≠ 0) :
    ∃ c ∈ w.newCalls (targetFlashDoneBuffered H i f w).2.2, c.region = i ∧ c.ret ≠ 0 := by
  unfold targetFlashDoneBuffered at h ⊢
  by_cases hp : f.Pending
  · simp only [if_pos hp] at h ⊢
    exact ⟨_, mem_newCalls_call w i (.write f.bufAddr (f.buf.getD []) f.bufSize) _, rfl, h⟩
  · rw [if_neg hp] at h
    exact absurd rfl h

theorem callDone_ret {i : Nat} {f : TargetFlash σ β} {w : World σ β}
    (h : (f.callDone i w).1 ≠ 0) :
    ∃ c ∈ w.newCalls (f.callDone i w).2, c.region = i ∧ c.ret ≠ 0 := by
  unfold TargetFlash.callDone at h ⊢
  cases hd : f.done with
  | none => simp [hd] at h
  | some d =>
    simp only [hd] at h
    exact ⟨_, mem_newCalls_call w i .done (d w.env), rfl, h⟩

end MiyakoLink.Flash
