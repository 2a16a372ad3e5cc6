import MiyakoLink.CortexM.Breakwatch

/-!
# What a breakpoint comparator holds

`fpbAddress` reads a comparator register of the breakpoint unit as the hardware does: revision
0 compares the bits 28 to 2 of an address below `0x20000000` and selects a halfword with the
bits 31 and 30, later revisions compare a whole address. `fpbAddress_fpbValue` says that
`cortexm_breakwatch_set` writes the address it is given, where the unit can hold it.
-/

namespace MiyakoLink.CortexM

/-- The halfword on which the comparator stops, or `none` when it is not enabled. -/
def fpbAddress (revision comp : UInt32) : Option UInt32 :=
  if comp &&& 1 = 0 then none
  else if revision = 0 then
    if comp &&& 0xC0000000 = 0x40000000 then some (comp &&& 0x1FFFFFFC)
    else if comp &&& 0xC0000000 = 0x80000000 then some (comp &&& 0x1FFFFFFC ||| 2)
    else none
  else some (comp &&& 0xFFFFFFFE)

/-- The halfword of an address. -/
def halfword (addr : UInt32) : UInt32 := addr &&& 0xFFFFFFFE

/-- The addresses that the breakpoint unit can hold. -/
def Holdable (revision addr : UInt32) : Prop := revision = 0 → addr < 0x20000000

instance (revision addr : UInt32) : Decidable (Holdable revision addr) :=
  inferInstanceAs (Decidable (_ → _))

theorem or_and (a b d : UInt32) : (a ||| b) &&& d = (a &&& d) ||| (b &&& d) := by
  rw [← UInt32.toBitVec_inj]
  simp only [UInt32.toBitVec_and, UInt32.toBitVec_or]
  ext i
  simp only [BitVec.getElem_and, BitVec.getElem_or]
  exact Bool.and_or_distrib_right ..

theorem and_two_cases (a : UInt32) : a &&& 2 = 0 ∨ a &&& 2 = 2 := by
  have hle : (a &&& 2).toNat ≤ 2 := Nat.and_le_right
  have heven : (a &&& 2).toNat % 2 = 0 := by
    rw [UInt32.toNat_and, ← Nat.pow_one 2, Nat.and_mod_two_pow]
    exact Nat.and_zero _
  have hnat : (a &&& 2).toNat = 0 ∨ (a &&& 2).toNat = 2 := by omega
  exact hnat.imp (fun h => UInt32.toNat_inj.mp h) fun h => UInt32.toNat_inj.mp h

/-- The upper three bits of a code address are clear. -/
theorem and_code {a : UInt32} (h : a < 0x20000000) : a &&& 0x1FFFFFFF = a := by
  apply UInt32.toNat_inj.mp
  have hmask : (a &&& 0x1FFFFFFF).toNat = a.toNat &&& (2 ^ 29 - 1) := by simp
  rw [hmask, Nat.and_two_pow_sub_one_eq_mod]
  exact Nat.mod_eq_of_lt (UInt32.lt_iff_toNat_lt.mp h)

theorem or_and_self (a b : UInt32) : (a ||| b) &&& b = b := by
  rw [← UInt32.toBitVec_inj]
  simp only [UInt32.toBitVec_and, UInt32.toBitVec_or]
  ext i
  simp only [BitVec.getElem_and, BitVec.getElem_or]
  cases a.toBitVec[i] <;> cases b.toBitVec[i] <;> rfl

/-- The value for revision 0, with the halfword selected by `select`. -/
theorem fpbAddress_code (addr select : UInt32) (hselect : select &&& 0x3FFFFFFF = 0) :
    (addr &&& 0x1FFFFFFC ||| select ||| 1) &&& 0xC0000000 = select &&& 0xC0000000 ∧
      (addr &&& 0x1FFFFFFC ||| select ||| 1) &&& 0x1FFFFFFC = addr &&& 0x1FFFFFFC := by
  have hlow : select &&& 0x1FFFFFFC = 0 := by
    have hmask : (0x3FFFFFFF : UInt32) &&& 0x1FFFFFFC = 0x1FFFFFFC := by decide
    rw [← hmask, ← UInt32.and_assoc, hselect, UInt32.zero_and]
  have htop : (0x1FFFFFFC : UInt32) &&& 0xC0000000 = 0 := by decide
  have hone : (1 : UInt32) &&& 0xC0000000 = 0 := by decide
  have hone' : (1 : UInt32) &&& 0x1FFFFFFC = 0 := by decide
  rw [or_and, or_and, UInt32.and_assoc, htop, hone, UInt32.and_zero, UInt32.zero_or,
    UInt32.or_zero, or_and, or_and, UInt32.and_assoc, UInt32.and_self, hlow, hone',
    UInt32.or_zero, UInt32.or_zero]
  exact ⟨rfl, rfl⟩

/-- A code address without its lowest bit: the word, and the halfword in it. -/
theorem halfword_code {addr : UInt32} (h : addr < 0x20000000) :
    halfword addr = addr &&& 0x1FFFFFFC ||| addr &&& 2 := by
  have hmask : (0x1FFFFFFF : UInt32) &&& 0xFFFFFFFE = 0x1FFFFFFC ||| 2 := by decide
  calc halfword addr
    _ = (addr &&& 0x1FFFFFFF) &&& 0xFFFFFFFE := by rw [and_code h, halfword]
    _ = (0x1FFFFFFC ||| 2) &&& addr := by rw [UInt32.and_assoc, hmask, UInt32.and_comm]
    _ = addr &&& 0x1FFFFFFC ||| addr &&& 2 := by
      rw [or_and, UInt32.and_comm addr, UInt32.and_comm addr]

/-- The comparator stops on the address that was set. -/
theorem fpbAddress_fpbValue {revision addr : UInt32} (h : Holdable revision addr) :
    fpbAddress revision (fpbValue revision addr) = some (halfword addr) := by
  have henabled : fpbValue revision addr &&& 1 ≠ 0 := by
    unfold fpbValue
    rw [or_and_self]
    decide
  unfold fpbAddress
  rw [if_neg henabled]
  unfold fpbValue
  by_cases hrev : revision = 0
  · simp only [if_pos hrev]
    rw [halfword_code (h hrev)]
    rcases and_two_cases addr with hword | hword
    · have hselect := fpbAddress_code addr 0x40000000 (by decide)
      rw [hword, if_neg (not_not.mpr rfl), hselect.1, hselect.2, if_pos (by decide),
        UInt32.or_zero]
    · have hselect := fpbAddress_code addr 0x80000000 (by decide)
      have hhigh : (2 : UInt32) ≠ 0 := by decide
      rw [hword, if_pos hhigh, hselect.1, hselect.2, if_neg (by decide),
        if_pos (by decide)]
  · have hone : (1 : UInt32) &&& 0xFFFFFFFE = 0 := by decide
    simp only [if_neg hrev]
    rw [or_and, hone, UInt32.or_zero, halfword]

end MiyakoLink.CortexM
