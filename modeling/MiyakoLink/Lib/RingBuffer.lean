import Mathlib.Logic.Function.Basic
import Mathlib.Tactic.Common

/-!
# Rings

A ring of slots between a producer and a consumer, who keep an index each. It is empty when the two
are the same, and so one slot is never in use.

* `RingBuffer.full_iff`, `RingBuffer.empty_iff`: what the comparisons of the indices say.
* `RingBuffer.of_lt`, `RingBuffer.eq_items`: the indices say what is in use.
* `RingBuffer.push`, `RingBuffer.drop`: a step of the producer, and one of the consumer.
-/

namespace MiyakoLink.Lib

variable {α : Type*}

/-- What waits between the indices of the consumer and the producer. -/
structure RingBuffer (size : Nat) (slots : Nat → α) (head tail : Nat) (xs : List α) : Prop where
  head_lt : head < size
  length_lt : xs.length < size
  tail_eq : tail = (head + xs.length) % size
  slot : ∀ i, (h : i < xs.length) → slots ((head + i) % size) = xs[i]

namespace RingBuffer

/-- The index behind `i`, for one who compares it with the size. -/
def wrap (size i : Nat) : Nat := if size ≤ i + 1 then 0 else i + 1

theorem wrap_eq {size i : Nat} (hi : i < size) : wrap size i = (i + 1) % size := by
  unfold wrap
  split
  next h => rw [show i + 1 = size by omega, Nat.mod_self]
  next h => exact (Nat.mod_eq_of_lt (by omega)).symm

/-- Slots behind each other, from one on. -/
def slotsFrom (size : Nat) (slots : Nat → α) (head n : Nat) : List α :=
  (List.range n).map fun i => slots ((head + i) % size)

/-- What is in use for such indices. -/
def items (size : Nat) (slots : Nat → α) (head tail : Nat) : List α :=
  slotsFrom size slots head ((tail + size - head) % size)

/-- Two slots are different when they are less than a round apart. -/
theorem slot_ne {size head i j : Nat} (hij : i < j) (hj : j < size) :
    (head + i) % size ≠ (head + j) % size := by
  intro heq
  have hdvd : size ∣ (head + j) - (head + i) :=
    Nat.dvd_of_mod_eq_zero (Nat.sub_mod_eq_zero_of_mod_eq heq.symm)
  have hle := Nat.le_of_dvd (by omega) hdvd
  omega

variable {size : Nat} {slots : Nat → α} {head tail : Nat} {xs : List α}

theorem tail_lt (h : RingBuffer size slots head tail xs) : tail < size := by
  rw [h.tail_eq]
  exact Nat.mod_lt _ (Nat.zero_lt_of_lt h.head_lt)

/-- The indices are so far apart. -/
theorem tail_cases (h : RingBuffer size slots head tail xs) :
    tail = head + xs.length ∨ tail + size = head + xs.length := by
  have hhead := h.head_lt
  have hlength := h.length_lt
  rw [h.tail_eq]
  by_cases hwrap : head + xs.length < size
  · exact Or.inl (Nat.mod_eq_of_lt hwrap)
  · have hmod : (head + xs.length) % size = head + xs.length - size := by
      rw [Nat.mod_eq_sub_mod (Nat.le_of_not_lt hwrap)]
      exact Nat.mod_eq_of_lt (by omega)
    omega

theorem empty_iff (h : RingBuffer size slots head tail xs) : tail = head ↔ xs = [] := by
  have htail := h.tail_cases
  have hhead := h.head_lt
  have hlength := h.length_lt
  rw [← List.length_eq_zero_iff]
  omega

theorem full_iff (h : RingBuffer size slots head tail xs) :
    (tail + 1) % size = head ↔ xs.length + 1 = size := by
  have htail := h.tail_cases
  have hlt := h.tail_lt
  have hhead := h.head_lt
  have hlength := h.length_lt
  by_cases hlast : tail + 1 = size
  · rw [hlast, Nat.mod_self]
    omega
  · rw [Nat.mod_eq_of_lt (by omega)]
    omega

theorem slotsFrom_eq (h : RingBuffer size slots head tail xs) {n : Nat} (hn : n ≤ xs.length) :
    slotsFrom size slots head n = xs.take n := by
  refine List.ext_getElem ?_ fun i hi hi' => ?_
  · rw [slotsFrom, List.length_map, List.length_range, List.length_take, Nat.min_eq_left hn]
  · have hlt : i < xs.length := Nat.lt_of_lt_of_le hi' (List.length_take_le' _ _)
    simp only [slotsFrom, List.getElem_map, List.getElem_range, List.getElem_take]
    exact h.slot i hlt

theorem eq_items (h : RingBuffer size slots head tail xs) : items size slots head tail = xs := by
  have htail := h.tail_cases
  have hlt := h.tail_lt
  have hhead := h.head_lt
  have hlength := h.length_lt
  have hcount : (tail + size - head) % size = xs.length := by
    rcases htail with heq | heq
    · rw [show tail + size - head = xs.length + size by omega, Nat.add_mod_right]
      exact Nat.mod_eq_of_lt hlength
    · rw [show tail + size - head = xs.length by omega]
      exact Nat.mod_eq_of_lt hlength
  rw [items, hcount, h.slotsFrom_eq (Nat.le_refl _), List.take_length]

theorem of_lt (hhead : head < size) (htail : tail < size) :
    RingBuffer size slots head tail (items size slots head tail) := by
  have hlength : (items size slots head tail).length = (tail + size - head) % size := by
    rw [items, slotsFrom, List.length_map, List.length_range]
  refine ⟨hhead, ?_, ?_, fun i hi => ?_⟩
  · rw [hlength]
    exact Nat.mod_lt _ (Nat.zero_lt_of_lt hhead)
  · rw [hlength, Nat.add_mod_mod, show head + (tail + size - head) = tail + size by omega,
      Nat.add_mod_right, Nat.mod_eq_of_lt htail]
  · simp only [items, slotsFrom, List.getElem_map, List.getElem_range]

/-- A slot that is not in use is free to be written. -/
theorem write (h : RingBuffer size slots head tail xs) (x : α) :
    RingBuffer size (Function.update slots tail x) head tail xs where
  head_lt := h.head_lt
  length_lt := h.length_lt
  tail_eq := h.tail_eq
  slot i hi := by
    rw [Function.update_of_ne, h.slot i hi]
    rw [h.tail_eq]
    exact slot_ne hi h.length_lt

/-- The producer fills a slot and goes on. -/
theorem push (h : RingBuffer size slots head tail xs) (hroom : xs.length + 1 < size) (x : α) :
    RingBuffer size (Function.update slots tail x) head ((tail + 1) % size) (xs ++ [x]) where
  head_lt := h.head_lt
  length_lt := by
    rw [List.length_append]
    exact hroom
  tail_eq := by
    rw [h.tail_eq, List.length_append, List.length_singleton, Nat.mod_add_mod, Nat.add_assoc]
  slot i hi := by
    rw [List.length_append, List.length_singleton] at hi
    by_cases hold : i < xs.length
    · rw [(h.write x).slot i hold, List.getElem_append_left hold]
    · obtain rfl : i = xs.length := by omega
      rw [← h.tail_eq, Function.update_self, List.getElem_concat_length rfl]

/-- The consumer goes on. -/
theorem drop (h : RingBuffer size slots head tail xs) {n : Nat} (hn : n ≤ xs.length) :
    RingBuffer size slots ((head + n) % size) tail (xs.drop n) where
  head_lt := Nat.mod_lt _ (Nat.zero_lt_of_lt h.head_lt)
  length_lt := by
    have hlength := h.length_lt
    rw [List.length_drop]
    omega
  tail_eq := by
    rw [List.length_drop, Nat.mod_add_mod, h.tail_eq,
      show head + n + (xs.length - n) = head + xs.length by omega]
  slot i hi := by
    rw [List.length_drop] at hi
    rw [Nat.mod_add_mod, Nat.add_assoc, h.slot (n + i) (by omega), List.getElem_drop]

end RingBuffer

end MiyakoLink.Lib
