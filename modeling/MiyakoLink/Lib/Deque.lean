import Mathlib.Tactic.Common

/-!
# Bounded deques

A queue that holds at most `capacity` elements. Sending to a full queue fails and leaves it as
it is; so does receiving from an empty one. The bound is part of the structure.
-/

namespace MiyakoLink.Lib

variable {α : Type*}

structure Deque (α : Type*) where
  capacity : Nat
  items : List α
  bounded : items.length ≤ capacity

namespace Deque

def create (capacity : Nat) : Deque α := ⟨capacity, [], Nat.zero_le capacity⟩

/-- Whether there was room, and the queue afterwards. -/
def sendToFront (q : Deque α) (a : α) : Bool × Deque α :=
  if h : q.items.length < q.capacity then (true, ⟨q.capacity, a :: q.items, h⟩) else (false, q)

/-- The front element and the rest, or `none` for an empty queue. -/
def receive (q : Deque α) : Option (α × Deque α) :=
  match q with
  | ⟨_, [], _⟩ => none
  | ⟨capacity, a :: items, h⟩ => some (a, ⟨capacity, items, Nat.le_of_succ_le h⟩)

theorem sendToFront_room {q : Deque α} (h : q.items.length < q.capacity) (a : α) :
    (q.sendToFront a).2.items = a :: q.items := by
  rw [sendToFront, dif_pos h]

theorem sendToFront_capacity (q : Deque α) (a : α) :
    (q.sendToFront a).2.capacity = q.capacity := by
  unfold sendToFront
  split
  · rfl
  · rfl

theorem receive_some {q q' : Deque α} {a : α} (h : q.receive = some (a, q')) :
    q.items = a :: q'.items ∧ q'.capacity = q.capacity := by
  obtain ⟨capacity, items, hbounded⟩ := q
  cases items with
  | nil => contradiction
  | cons b items =>
    cases h
    exact ⟨rfl, rfl⟩

end Deque

end MiyakoLink.Lib
