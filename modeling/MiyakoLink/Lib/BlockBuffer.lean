import Mathlib.Tactic.Common
import Mathlib.Logic.Function.Basic

/-!
# A buffer of one block

A write-back buffer in front of a memory that is programmed block by block. It holds the
block that was written last. A write to another block programs the one that is held, and goes on
with a block of padding.

What becomes of a cell is `settled`: the writes to its block count, and whether the block was left
between them. The padding is taken to be what programming cannot change any more.

* `settled_of_apart`: the cells of a block that nothing is written to stay as they are.
* `settled_of_once`: a cell is programmed if its block is written without a break.
* `settled_of_unwritten`, `settled_of_again`: the other cells of a block that is written, and all
  cells of one that is written again, become padding.
* `settled_replaced`: a cell that is replaced when it is programmed.
-/

namespace MiyakoLink.Lib

universe u v w

/-- The memory, and the block that is held with its contents. -/
structure BlockBuffer (α : Type u) (κ : Type v) (β : Type w) where
  mem : α → β
  held : Option (κ × (α → β))

/-- The elements with `p` stand side by side. -/
def SideBySide {α : Type u} (p : α → Bool) (l : List α) : Prop :=
  ∀ a ∈ (l.dropWhile fun a => !p a).dropWhile p, p a = false

/-- From the first element with `q` on, the elements with `p` stand side by side. -/
def SideBySideFrom {α : Type u} (q p : α → Bool) (l : List α) : Prop :=
  ∀ a ∈ (l.dropWhile fun a => !q a).dropWhile p, p a = false

variable {α : Type u} {κ : Type v} {β : Type w} [DecidableEq α] [DecidableEq κ]
  (blk : α → κ) (prog : β → β → β) (pad : β)

namespace BlockBuffer

/-- The memory when the held block has been programmed. -/
def flushed (s : BlockBuffer α κ β) : α → β :=
  match s.held with
  | none => s.mem
  | some (k, c) => fun a => if blk a = k then prog (s.mem a) (c a) else s.mem a

/-- Memory and contents when `k` has been made the block that is held. -/
def load (s : BlockBuffer α κ β) (k : κ) : (α → β) × (α → β) :=
  match s.held with
  | none => (s.mem, fun _ => pad)
  | some (k', c) => if k = k' then (s.mem, c) else (s.flushed blk prog, fun _ => pad)

def write (s : BlockBuffer α κ β) (w : α × β) : BlockBuffer α κ β :=
  let l := s.load blk prog pad (blk w.1)
  ⟨l.1, some (blk w.1, Function.update l.2 w.1 w.2)⟩

/-- A cell of the memory, and of the buffer if its block is held. -/
def cell (s : BlockBuffer α κ β) (b : α) : β × Option β :=
  (s.mem b, match s.held with
    | none => none
    | some (k, c) => if blk b = k then some (c b) else none)

end BlockBuffer

open BlockBuffer

/-- What a write means for a cell. -/
def cellWrite (b : α) (s : β × Option β) (w : α × β) : β × Option β :=
  if blk w.1 = blk b then (s.1, some (if w.1 = b then w.2 else s.2.getD pad))
  else (s.2.elim s.1 (prog s.1), none)

theorem BlockBuffer.cell_write (s : BlockBuffer α κ β) (w : α × β) (b : α) :
    (s.write blk prog pad w).cell blk b = cellWrite blk prog pad b (s.cell blk b) w := by
  obtain ⟨mem, held⟩ := s
  unfold cell write load cellWrite flushed
  by_cases hb : blk w.1 = blk b
  · -- The block of the cell is held, or it is loaded.
    rw [if_pos hb]
    cases held with
    | none =>
      by_cases hw : w.1 = b
      · simp [hw]
      · simp [hb, hw, Function.update_of_ne (Ne.symm hw)]
    | some h =>
      obtain ⟨k, c⟩ := h
      by_cases hk : blk b = k
      · by_cases hw : w.1 = b
        · simp [hk, hw]
        · simp [hb, hk, hw, Function.update_of_ne (Ne.symm hw)]
      · by_cases hw : w.1 = b
        · simp [hk, hw]
        · simp [hb, hk, hw, Function.update_of_ne (Ne.symm hw)]
  · rw [if_neg hb]
    cases held with
    | none => simp [Ne.symm hb]
    | some h =>
      obtain ⟨k, c⟩ := h
      by_cases hk : blk w.1 = k
      · have hbk : ¬ blk b = k := fun h => hb (hk.trans h.symm)
        simp [hk, hbk]
      · by_cases hbk : blk b = k
        · simp [hk, hbk, Ne.symm hk]
        · simp [hk, hbk, Ne.symm hb]

/-- The cell when everything has been written and the buffer is flushed. -/
def settled (b : α) (s : β × Option β) (l : List (α × β)) : β :=
  let e := l.foldl (cellWrite blk prog pad b) s
  e.2.elim e.1 (prog e.1)

theorem BlockBuffer.flushed_foldl (s : BlockBuffer α κ β) (l : List (α × β)) (b : α) :
    (l.foldl (write blk prog pad) s).flushed blk prog b =
      settled blk prog pad b (s.cell blk b) l := by
  induction l generalizing s with
  | nil =>
    obtain ⟨mem, held⟩ := s
    unfold settled flushed cell
    cases held with
    | none => rfl
    | some h =>
      obtain ⟨k, c⟩ := h
      by_cases hk : blk b = k
      · simp [hk]
      · simp [hk]
  | cons w l ih =>
    rw [List.foldl_cons, ih, cell_write]
    rfl

/-- Writes to the block that is held stay in the buffer. -/
theorem BlockBuffer.foldl_held {k : κ} (mem c : α → β) {l : List (α × β)}
    (h : ∀ w ∈ l, blk w.1 = k) :
    l.foldl (write blk prog pad) ⟨mem, some (k, c)⟩ =
      ⟨mem, some (k, l.foldl (fun c w => Function.update c w.1 w.2) c)⟩ := by
  induction l generalizing c with
  | nil => rfl
  | cons w l ih =>
    have hstep : write blk prog pad ⟨mem, some (k, c)⟩ w =
        ⟨mem, some (k, Function.update c w.1 w.2)⟩ := by
      simp [write, load, h w List.mem_cons_self]
    rw [List.foldl_cons, hstep]
    exact ih _ fun w' hw' => h w' (List.mem_cons_of_mem w hw')

/-- Writes to one block load it and stay in the buffer. -/
theorem BlockBuffer.foldl_block {k : κ} (s : BlockBuffer α κ β) {w : α × β} {l : List (α × β)}
    (h : ∀ w' ∈ w :: l, blk w'.1 = k) :
    (w :: l).foldl (write blk prog pad) s =
      ⟨(s.load blk prog pad k).1, some (k,
        (w :: l).foldl (fun c w => Function.update c w.1 w.2) (s.load blk prog pad k).2)⟩ := by
  have hstep : write blk prog pad s w = ⟨(s.load blk prog pad k).1,
      some (k, Function.update (s.load blk prog pad k).2 w.1 w.2)⟩ := by
    rw [write, h w List.mem_cons_self]
  rw [List.foldl_cons, hstep, foldl_held blk prog pad _ _ fun w' hw' =>
    h w' (List.mem_cons_of_mem w hw')]
  rfl

/-! ## What becomes of a cell -/

variable {blk prog pad} {b : α} {m v : β} {l : List (α × β)}

theorem settled_cons (s : β × Option β) (w : α × β) (l : List (α × β)) :
    settled blk prog pad b s (w :: l) =
      settled blk prog pad b (cellWrite blk prog pad b s w) l := rfl

theorem cellWrite_here {s : β × Option β} {w : α × β} (h : blk w.1 = blk b) :
    cellWrite blk prog pad b s w = (s.1, some (if w.1 = b then w.2 else s.2.getD pad)) := if_pos h

theorem cellWrite_apart {s : β × Option β} {w : α × β} (h : ¬ blk w.1 = blk b) :
    cellWrite blk prog pad b s w = (s.2.elim s.1 (prog s.1), none) := if_neg h

theorem settled_of_apart (h : ∀ w ∈ l, blk w.1 ≠ blk b) :
    settled blk prog pad b (m, none) l = m := by
  induction l with
  | nil => rfl
  | cons w l ih =>
    rw [settled_cons, cellWrite_apart (h w List.mem_cons_self)]
    exact ih fun w' hw' => h w' (List.mem_cons_of_mem w hw')

/-- A block that is held and left is programmed. -/
theorem settled_held (h : ∀ w ∈ l, blk w.1 ≠ blk b) :
    settled blk prog pad b (m, some v) l = prog m v := by
  cases l with
  | nil => rfl
  | cons w l =>
    rw [settled_cons, cellWrite_apart (h w List.mem_cons_self)]
    exact settled_of_apart fun w' hw' => h w' (List.mem_cons_of_mem w hw')

section

variable (hpad : ∀ v, prog pad v = pad)
include hpad

theorem settled_pad (o : Option β) : settled blk prog pad b (pad, o) l = pad := by
  induction l generalizing o with
  | nil =>
    cases o with
    | none => rfl
    | some v => exact hpad v
  | cons w l ih =>
    rw [settled_cons]
    by_cases hw : blk w.1 = blk b
    · rw [cellWrite_here hw]
      exact ih _
    · rw [cellWrite_apart hw]
      cases o with
      | none => exact ih none
      | some v =>
        show settled blk prog pad b (prog pad v, none) l = pad
        rw [hpad]
        exact ih none

end

section

variable (hpad' : ∀ v, prog v pad = pad)
include hpad'

/-- Padding in the place of the cell stays there, in the buffer and behind it. -/
theorem settled_padding {o : Option β} (ho : o = some pad ∨ o = none ∧ m = pad)
    (h : ∀ w ∈ l, w.1 ≠ b) : settled blk prog pad b (m, o) l = pad := by
  induction l generalizing m o with
  | nil =>
    rcases ho with rfl | ⟨rfl, rfl⟩
    · exact hpad' m
    · rfl
  | cons w l ih =>
    have htail : ∀ w' ∈ l, w'.1 ≠ b := fun w' hw' => h w' (List.mem_cons_of_mem w hw')
    rw [settled_cons]
    by_cases hw : blk w.1 = blk b
    · rw [cellWrite_here hw, if_neg (h w List.mem_cons_self)]
      refine ih (Or.inl ?_) htail
      rcases ho with rfl | ⟨rfl, -⟩
      · rfl
      · rfl
    · rw [cellWrite_apart hw]
      refine ih (Or.inr ⟨rfl, ?_⟩) htail
      rcases ho with rfl | ⟨rfl, hm⟩
      · exact hpad' m
      · exact hm

theorem settled_of_unwritten (h : ∀ w ∈ l, w.1 ≠ b) (hvisited : ∃ w ∈ l, blk w.1 = blk b) :
    settled blk prog pad b (m, none) l = pad := by
  induction l with
  | nil =>
    obtain ⟨w, hw, -⟩ := hvisited
    exact absurd hw List.not_mem_nil
  | cons w l ih =>
    have htail : ∀ w' ∈ l, w'.1 ≠ b := fun w' hw' => h w' (List.mem_cons_of_mem w hw')
    rw [settled_cons]
    by_cases hw : blk w.1 = blk b
    · rw [cellWrite_here hw, if_neg (h w List.mem_cons_self)]
      exact settled_padding hpad' (Or.inl rfl) htail
    · rw [cellWrite_apart hw]
      refine ih htail ?_
      obtain ⟨w', hw', hblk⟩ := hvisited
      rcases List.mem_cons.mp hw' with rfl | hw'
      · exact absurd hblk hw
      · exact ⟨w', hw', hblk⟩

/-- The block is held, is left and comes back without the cell. -/
theorem settled_left (hunwritten : ∀ w ∈ l, w.1 ≠ b)
    (h : ∃ w ∈ l.dropWhile fun w => decide (blk w.1 = blk b), blk w.1 = blk b) :
    settled blk prog pad b (m, some v) l = pad := by
  induction l with
  | nil =>
    obtain ⟨w, hw, -⟩ := h
    exact absurd hw List.not_mem_nil
  | cons w l ih =>
    have htail : ∀ w' ∈ l, w'.1 ≠ b := fun w' hw' => hunwritten w' (List.mem_cons_of_mem w hw')
    rw [settled_cons]
    by_cases hw : blk w.1 = blk b
    · rw [List.dropWhile_cons_of_pos (by simpa using hw)] at h
      rw [cellWrite_here hw, if_neg (hunwritten w List.mem_cons_self)]
      exact ih htail h
    · rw [List.dropWhile_cons_of_neg (by simpa using hw)] at h
      rw [cellWrite_apart hw]
      refine settled_of_unwritten hpad' htail ?_
      obtain ⟨w', hw', hblk⟩ := h
      rcases List.mem_cons.mp hw' with rfl | hw'
      · exact absurd hblk hw
      · exact ⟨w', hw', hblk⟩

end

section

variable (hpad : ∀ v, prog pad v = pad) (hpad' : ∀ v, prog v pad = pad)
include hpad hpad'

/-- The block is held with padding in the place of the cell, is left and comes back. -/
theorem settled_returned (hnodup : (l.map Prod.fst).Nodup)
    (h : ∃ w ∈ l.dropWhile fun w => decide (blk w.1 = blk b), blk w.1 = blk b) :
    settled blk prog pad b (m, some pad) l = pad := by
  induction l with
  | nil =>
    obtain ⟨w, hw, -⟩ := h
    exact absurd hw List.not_mem_nil
  | cons w l ih =>
    rw [List.map_cons, List.nodup_cons] at hnodup
    rw [settled_cons]
    by_cases hw : blk w.1 = blk b
    · rw [List.dropWhile_cons_of_pos (by simpa using hw)] at h
      rw [cellWrite_here hw]
      by_cases hwb : w.1 = b
      · refine settled_left hpad' (fun w' hw' heq => hnodup.1 ?_) h
        rw [hwb, ← heq]
        exact List.mem_map_of_mem hw'
      · rw [if_neg hwb]
        exact ih hnodup.2 h
    · rw [cellWrite_apart hw]
      show settled blk prog pad b (prog m pad, none) l = pad
      rw [hpad']
      exact settled_pad hpad none

theorem settled_of_again (hnodup : (l.map Prod.fst).Nodup)
    (h : ¬ SideBySide (fun w : α × β => decide (blk w.1 = blk b)) l) :
    settled blk prog pad b (m, none) l = pad := by
  induction l with
  | nil => exact absurd (fun w hw => absurd hw List.not_mem_nil) h
  | cons w l ih =>
    rw [List.map_cons, List.nodup_cons] at hnodup
    rw [settled_cons]
    by_cases hw : blk w.1 = blk b
    · have hback : ∃ w ∈ l.dropWhile fun w => decide (blk w.1 = blk b), blk w.1 = blk b := by
        unfold SideBySide at h
        rw [List.dropWhile_cons_of_neg (by simpa using hw),
          List.dropWhile_cons_of_pos (by simpa using hw)] at h
        simpa using h
      rw [cellWrite_here hw]
      by_cases hwb : w.1 = b
      · refine settled_left hpad' (fun w' hw' heq => hnodup.1 ?_) hback
        rw [hwb, ← heq]
        exact List.mem_map_of_mem hw'
      · rw [if_neg hwb]
        exact settled_returned hpad hpad' hnodup.2 hback
    · rw [cellWrite_apart hw]
      refine ih hnodup.2 fun hside => h ?_
      unfold SideBySide
      rw [List.dropWhile_cons_of_pos (by simpa using hw)]
      exact hside

end

/-- A block that is held until it is left for good. -/
theorem settled_kept (hnodup : (l.map Prod.fst).Nodup) {x : β}
    (hx : (b, x) ∈ l ∨ v = x ∧ ∀ w ∈ l, w.1 ≠ b)
    (h : ∀ w ∈ l.dropWhile fun w => decide (blk w.1 = blk b), ¬ blk w.1 = blk b) :
    settled blk prog pad b (m, some v) l = prog m x := by
  induction l generalizing v with
  | nil =>
    obtain ⟨rfl, -⟩ := hx.resolve_left List.not_mem_nil
    rfl
  | cons w l ih =>
    rw [List.map_cons, List.nodup_cons] at hnodup
    by_cases hw : blk w.1 = blk b
    · rw [List.dropWhile_cons_of_pos (by simpa using hw)] at h
      rw [settled_cons, cellWrite_here hw]
      refine ih hnodup.2 ?_ h
      by_cases hwb : w.1 = b
      · have hrest : ∀ w' ∈ l, w'.1 ≠ b := fun w' hw' heq => hnodup.1 (by
          rw [hwb, ← heq]
          exact List.mem_map_of_mem hw')
        rw [if_pos hwb]
        refine Or.inr ⟨?_, hrest⟩
        rcases hx with hx | ⟨-, hx⟩
        · rcases List.mem_cons.mp hx with rfl | hx
          · rfl
          · exact absurd rfl (hrest _ hx)
        · exact absurd hwb (hx w List.mem_cons_self)
      · rw [if_neg hwb]
        refine hx.imp (fun hx => ?_) fun ⟨hv, hx⟩ => ⟨hv, fun w' hw' =>
          hx w' (List.mem_cons_of_mem w hw')⟩
        rcases List.mem_cons.mp hx with rfl | hx
        · exact absurd rfl hwb
        · exact hx
    · rw [List.dropWhile_cons_of_neg (by simpa using hw)] at h
      rw [settled_held h]
      rcases hx with hx | ⟨rfl, -⟩
      · exact absurd rfl (h _ hx)
      · rfl

theorem settled_of_once (hnodup : (l.map Prod.fst).Nodup) {x : β} (hx : (b, x) ∈ l)
    (h : SideBySide (fun w : α × β => decide (blk w.1 = blk b)) l) :
    settled blk prog pad b (m, none) l = prog m x := by
  induction l with
  | nil => exact absurd hx List.not_mem_nil
  | cons w l ih =>
    have hnodup' := hnodup
    rw [List.map_cons, List.nodup_cons] at hnodup
    by_cases hw : blk w.1 = blk b
    · -- The first write to the block is one to a block full of padding.
      have hheld : settled blk prog pad b (m, none) (w :: l) =
          settled blk prog pad b (m, some pad) (w :: l) := by
        rw [settled_cons, settled_cons, cellWrite_here hw, cellWrite_here hw]
        rfl
      unfold SideBySide at h
      rw [List.dropWhile_cons_of_neg (by simpa using hw)] at h
      rw [hheld]
      exact settled_kept hnodup' (Or.inl hx) (by simpa using h)
    · unfold SideBySide at h
      rw [List.dropWhile_cons_of_pos (by simpa using hw)] at h
      rw [settled_cons, cellWrite_apart hw]
      refine ih hnodup.2 ?_ h
      rcases List.mem_cons.mp hx with rfl | hx
      · exact absurd rfl hw
      · exact hx

/-! ## Programming that replaces -/

section

variable (hprog : ∀ m v, prog m v = v)
include hprog

/-- Only the last visit to the block counts: the cell keeps what it has got if that was it, and
becomes padding if it was not. -/
theorem settled_replaced (hnodup : (l.map Prod.fst).Nodup) {x : β} (hx : (b, x) ∈ l)
    (s : β × Option β) :
    (SideBySideFrom (fun w : α × β => decide (w.1 = b)) (fun w => decide (blk w.1 = blk b)) l →
        settled blk prog pad b s l = x) ∧
      (¬ SideBySideFrom (fun w : α × β => decide (w.1 = b)) (fun w => decide (blk w.1 = blk b)) l →
        settled blk prog pad b s l = pad) := by
  induction l generalizing s with
  | nil => exact absurd hx List.not_mem_nil
  | cons w l ih =>
    have hnodup' := hnodup
    rw [List.map_cons, List.nodup_cons] at hnodup
    by_cases hwb : w.1 = b
    · -- This is the write to the cell.
      have hrest : ∀ w' ∈ l, w'.1 ≠ b := fun w' hw' heq => hnodup.1 (by
        rw [hwb, ← heq]
        exact List.mem_map_of_mem hw')
      have hw : w.2 = x := by
        rcases List.mem_cons.mp hx with rfl | hx
        · rfl
        · exact absurd rfl (hrest _ hx)
      have hhere : blk w.1 = blk b := congrArg blk hwb
      have hdrop : ((w :: l).dropWhile fun w => !decide (w.1 = b)).dropWhile
          (fun w => decide (blk w.1 = blk b)) =
          l.dropWhile fun w => decide (blk w.1 = blk b) := by
        rw [List.dropWhile_cons_of_neg (by simpa using hwb),
          List.dropWhile_cons_of_pos (by simpa using hhere)]
      unfold SideBySideFrom
      rw [settled_cons, cellWrite_here hhere, if_pos hwb, hdrop, hw]
      constructor
      · intro h
        rw [settled_kept hnodup.2 (Or.inr ⟨rfl, hrest⟩) (by simpa using h)]
        exact hprog _ x
      · intro h
        exact settled_left (fun v => hprog v pad) hrest (by simpa using h)
    · have hdrop : ((w :: l).dropWhile fun w => !decide (w.1 = b)) =
          l.dropWhile fun w => !decide (w.1 = b) :=
        List.dropWhile_cons_of_pos (by simpa using hwb)
      have hx : (b, x) ∈ l := by
        rcases List.mem_cons.mp hx with rfl | hx
        · exact absurd rfl hwb
        · exact hx
      unfold SideBySideFrom
      rw [hdrop, settled_cons]
      exact ih hnodup.2 hx _

end

end MiyakoLink.Lib
