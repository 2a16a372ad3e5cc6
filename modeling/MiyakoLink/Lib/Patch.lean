import Mathlib.Algebra.Group.Nat.Defs
import Mathlib.Tactic.Common

/-!
# Overwriting part of a list

`patch l off d` is `l` with the elements from position `off` on replaced by those of `d`:
what `memcpy(l + off, d, len)` does to an array held as a list.
-/

namespace MiyakoLink.Lib

variable {β : Type*}

def patch (l : List β) (off : Nat) (d : List β) : List β :=
  l.take off ++ d ++ l.drop (off + d.length)

theorem length_patch {l d : List β} {off : Nat} (h : off + d.length ≤ l.length) :
    (patch l off d).length = l.length := by
  simp only [patch, List.length_append, List.length_take, List.length_drop]
  omega

theorem getElem?_patch {l d : List β} {off : Nat} (h : off + d.length ≤ l.length) (i : Nat) :
    (patch l off d)[i]? = if off ≤ i ∧ i < off + d.length then d[i - off]? else l[i]? := by
  have htake : (l.take off).length = off := by
    rw [List.length_take]
    omega
  unfold patch
  by_cases hlow : i < off
  · rw [List.append_assoc, List.getElem?_append_left (by omega), List.getElem?_take_of_lt hlow,
      if_neg (by omega)]
  · by_cases hmid : i < off + d.length
    · rw [List.getElem?_append_left (by rw [List.length_append]; omega),
        List.getElem?_append_right (by omega), htake, if_pos ⟨by omega, hmid⟩]
    · rw [List.getElem?_append_right (by rw [List.length_append]; omega), List.getElem?_drop,
        List.length_append, htake, if_neg (by omega)]
      congr 1
      omega

/-- Every element of a patched list comes from one of the two lists. -/
theorem mem_patch {l d : List β} {off : Nat} {b : β} (h : b ∈ patch l off d) :
    b ∈ l ∨ b ∈ d := by
  rcases List.mem_append.mp h with h | h
  · rcases List.mem_append.mp h with h | h
    · exact Or.inl (List.mem_of_mem_take h)
    · exact Or.inr h
  · exact Or.inl (List.mem_of_mem_drop h)

end MiyakoLink.Lib
