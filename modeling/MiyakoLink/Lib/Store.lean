import MiyakoLink.Lib.Patch

/-!
# Stores of a fixed size

A `Store β n` has `n` elements. Ranges of it are read and written. `read_write` and
`read_write_apart` are the laws of the two operations, and `read_sub` cuts a range out of another.
-/

namespace MiyakoLink.Lib

structure Store (β : Type*) (n : Nat) where
  elems : List β
  length_eq : elems.length = n
  deriving DecidableEq

namespace Store

variable {β : Type*} {n : Nat} {s s' : Store β n} {off len : Nat}

/-- One value everywhere. -/
def filled (n : Nat) (b : β) : Store β n := ⟨List.replicate n b, List.length_replicate⟩

def read (s : Store β n) (off len : Nat) : List β := (s.elems.drop off).take len

/-- The elements from `off` on become those of `d`. A range that does not fit is not written. -/
def write (s : Store β n) (off : Nat) (d : List β) : Store β n :=
  if h : off + d.length ≤ n then
    ⟨patch s.elems off d, (length_patch (s.length_eq.symm ▸ h)).trans s.length_eq⟩
  else s

theorem length_read (h : off + len ≤ n) : (s.read off len).length = len := by
  have := s.length_eq
  simp only [read, List.length_take, List.length_drop]
  omega

theorem getElem?_read (s : Store β n) (off len i : Nat) :
    (s.read off len)[i]? = if i < len then s.elems[off + i]? else none := by
  simp only [read, List.getElem?_take, List.getElem?_drop]

theorem elems_write {d : List β} (h : off + d.length ≤ n) :
    (s.write off d).elems = patch s.elems off d := by
  simp [write, h]

/-- What is written is read back. -/
theorem read_write {d : List β} (h : off + d.length ≤ n) :
    (s.write off d).read off d.length = d := by
  apply List.ext_getElem?
  intro i
  rw [getElem?_read, elems_write h, getElem?_patch (s.length_eq.symm ▸ h)]
  by_cases hi : i < d.length
  · simp [hi]
  · simp [hi]

theorem getElem?_write_apart {d : List β} {i : Nat} (h : i < off ∨ off + d.length ≤ i) :
    (s.write off d).elems[i]? = s.elems[i]? := by
  by_cases hfit : off + d.length ≤ n
  · rw [elems_write hfit, getElem?_patch (s.length_eq.symm ▸ hfit), if_neg (by omega)]
  · simp [write, hfit]

/-- A range depends on its elements. -/
theorem read_ext {m : Nat} {t : Store β m} {o l : Nat}
    (h : ∀ i, o ≤ i → i < o + l → s.elems[i]? = t.elems[i]?) : s.read o l = t.read o l := by
  apply List.ext_getElem?
  intro i
  rw [getElem?_read, getElem?_read]
  by_cases hi : i < l
  · rw [if_pos hi, if_pos hi, h (o + i) (by omega) (by omega)]
  · rw [if_neg hi, if_neg hi]

/-- A write leaves the other ranges as they are. -/
theorem read_write_apart {d : List β} {o l : Nat} (h : off + d.length ≤ o ∨ o + l ≤ off) :
    (s.write off d).read o l = s.read o l :=
  read_ext fun _ _ _ => getElem?_write_apart (by omega)

theorem read_add (s : Store β n) (off k l : Nat) :
    s.read off (k + l) = s.read off k ++ s.read (off + k) l := by
  simp only [read, List.take_add, List.drop_drop]

/-- A range that lies in another one. -/
theorem read_sub (s : Store β n) {o l : Nat} (hlow : off ≤ o) (hhigh : o + l ≤ off + len) :
    s.read o l = ((s.read off len).drop (o - off)).take l := by
  apply List.ext_getElem?
  intro i
  rw [getElem?_read, List.getElem?_take, List.getElem?_drop, getElem?_read]
  by_cases hi : i < l
  · rw [if_pos hi, if_pos hi, if_pos (by omega)]
    congr 1
    omega
  · rw [if_neg hi, if_neg hi]

/-- Stores that agree on a range agree on its parts. -/
theorem read_congr {m : Nat} {t : Store β m} {o l : Nat} (h : s.read off len = t.read off len)
    (hlow : off ≤ o) (hhigh : o + l ≤ off + len) : s.read o l = t.read o l := by
  rw [read_sub s hlow hhigh, h, ← read_sub t hlow hhigh]

end Store

end MiyakoLink.Lib
