import Mathlib.Algebra.Group.Nat.Defs
import Mathlib.Tactic.Common

/-!
# Byte memory

Memory is a function from addresses to bytes. Words are four bytes, the least significant one
first; `readWord_writeWord` is the round trip, and the lemmas about disjoint ranges say what a
store leaves as it is.
-/

namespace MiyakoLink.Lib

abbrev Memory := Nat → UInt8

namespace Memory

variable {mem mem' : Memory} {a b : Nat}

def readWord (mem : Memory) (a : Nat) : Nat :=
  (mem a).toNat + (mem (a + 1)).toNat * 256 + (mem (a + 2)).toNat * 65536 +
    (mem (a + 3)).toNat * 16777216

def writeWord (mem : Memory) (a w : Nat) : Memory := fun x =>
  if a ≤ x ∧ x < a + 4 then UInt8.ofNat (w / 256 ^ (x - a)) else mem x

/-- `memset`. -/
def fill (mem : Memory) (a : Nat) (b : UInt8) (n : Nat) : Memory := fun x =>
  if a ≤ x ∧ x < a + n then b else mem x

def writeByte (mem : Memory) (a : Nat) (b : UInt8) : Memory := fun x => if x = a then b else mem x

theorem readWord_writeWord {w : Nat} (h : w < 2 ^ 32) : readWord (writeWord mem a w) a = w := by
  simp only [readWord, writeWord]
  rw [if_pos (by omega), if_pos (by omega), if_pos (by omega), if_pos (by omega)]
  have h0 : a - a = 0 := by omega
  have h1 : a + 1 - a = 1 := by omega
  have h2 : a + 2 - a = 2 := by omega
  have h3 : a + 3 - a = 3 := by omega
  rw [h0, h1, h2, h3]
  simp only [UInt8.toNat_ofNat']
  omega

/-- A word depends on its four bytes only. -/
theorem readWord_congr (h : ∀ x, a ≤ x → x < a + 4 → mem' x = mem x) :
    readWord mem' a = readWord mem a := by
  unfold readWord
  rw [h a (by omega) (by omega), h (a + 1) (by omega) (by omega), h (a + 2) (by omega) (by omega),
    h (a + 3) (by omega) (by omega)]

theorem writeWord_of_disjoint {w x : Nat} (h : x < a ∨ a + 4 ≤ x) : writeWord mem a w x = mem x :=
  if_neg (by omega)

theorem fill_of_mem {c : UInt8} {n x : Nat} (h : a ≤ x) (h' : x < a + n) :
    fill mem a c n x = c := if_pos ⟨h, h'⟩

theorem fill_of_disjoint {c : UInt8} {n x : Nat} (h : x < a ∨ a + n ≤ x) :
    fill mem a c n x = mem x := if_neg (by omega)

end Memory

end MiyakoLink.Lib
