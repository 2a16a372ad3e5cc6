import Mathlib.Tactic.Common

/-!
# Stream buffers

A queue with room for so many elements. Of a list that is offered it takes as many as it has room
for, from the front, and it gives up to so many of the oldest.

* `offer_items`, `received_append`: the two operations lose nothing of what they have taken.
* `refused_eq_nil_iff`: all that is offered is taken just if there is room for it.
-/

namespace MiyakoLink.Lib

structure StreamBuffer (α : Type*) (capacity : Nat) where
  items : List α
  length_le : items.length ≤ capacity

namespace StreamBuffer

variable {α : Type*} {capacity : Nat}

def empty : StreamBuffer α capacity := ⟨[], Nat.zero_le capacity⟩

def room (b : StreamBuffer α capacity) : Nat := capacity - b.items.length

/-- What is taken of a list. -/
def accepted (xs : List α) (b : StreamBuffer α capacity) : List α := xs.take b.room

theorem length_accepted_le (xs : List α) (b : StreamBuffer α capacity) :
    (b.items ++ b.accepted xs).length ≤ capacity := by
  have hle := b.length_le
  rw [List.length_append, accepted, List.length_take, room]
  omega

def offer (xs : List α) (b : StreamBuffer α capacity) : StreamBuffer α capacity :=
  ⟨b.items ++ b.accepted xs, length_accepted_le xs b⟩

/-- What a receive of up to `n` elements gives. -/
def received (n : Nat) (b : StreamBuffer α capacity) : List α := b.items.take n

def receive (n : Nat) (b : StreamBuffer α capacity) : StreamBuffer α capacity :=
  ⟨b.items.drop n, by
    rw [List.length_drop]
    exact Nat.le_trans (Nat.sub_le _ _) b.length_le⟩

@[simp] theorem offer_items (xs : List α) (b : StreamBuffer α capacity) :
    (b.offer xs).items = b.items ++ b.accepted xs := rfl

theorem received_append (n : Nat) (b : StreamBuffer α capacity) :
    b.received n ++ (b.receive n).items = b.items := List.take_append_drop n b.items

theorem length_received_le (n : Nat) (b : StreamBuffer α capacity) :
    (b.received n).length ≤ n := List.length_take_le n b.items

/-- A receive gives nothing just if there is nothing. -/
theorem received_eq_nil_iff {n : Nat} (hn : n ≠ 0) (b : StreamBuffer α capacity) :
    b.received n = [] ↔ b.items = [] := by
  rw [received, List.take_eq_nil_iff, or_iff_right hn]

/-- What is not taken. -/
def refused (xs : List α) (b : StreamBuffer α capacity) : List α := xs.drop b.room

theorem accepted_append (xs : List α) (b : StreamBuffer α capacity) :
    b.accepted xs ++ b.refused xs = xs := List.take_append_drop b.room xs

theorem length_refused_nil (b : StreamBuffer α capacity) : (b.refused []).length = 0 := by
  rw [refused, List.drop_nil, List.length_nil]

theorem refused_eq_nil_iff (xs : List α) (b : StreamBuffer α capacity) :
    b.refused xs = [] ↔ xs.length ≤ b.room := List.drop_eq_nil_iff

end StreamBuffer

end MiyakoLink.Lib
