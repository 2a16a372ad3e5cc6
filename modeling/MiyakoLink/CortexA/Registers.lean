import Mathlib.Logic.Function.Basic
import Mathlib.Tactic.Common

/-!
# The register cache of a Cortex-A

`ptr_for_reg`, `cortexa_reg_read` and `cortexa_reg_write`. The registers of a halted core are kept
in `reg_cache`; a register is its bytes there. `touches` are the accesses to the cache.

`none` is an access through a null pointer.
-/

namespace MiyakoLink.CortexA

/-- A field of `reg_cache`, or an element of one. -/
inductive CacheReg where
  | r (i : Nat)
  | cpsr
  | fpscr
  | d (i : Nat)
  deriving DecidableEq

/-- The target, as far as single registers go. -/
structure CacheTarget where
  regCache : CacheReg → Nat → UInt8
  touches : List CacheReg

/-- `ptr_for_reg`: its result, and the pointer. -/
def ptrForReg (reg : Int) : Int × Option CacheReg :=
  if 0 ≤ reg ∧ reg ≤ 15 then (4, some (.r reg.toNat))
  else if reg = 16 then (4, some .cpsr)
  else if reg = 17 then (4, some .fpscr)
  else if 18 ≤ reg ∧ reg ≤ 33 then (8, some (.d (reg - 18).toNat))
  else (-1, none)

/-- `cortexa_reg_read`: the result, what is copied to `data`, and the target. -/
def cortexaRegRead (t : CacheTarget) (reg : Int) (max : UInt32) :
    Option (Int × List UInt8 × CacheTarget) :=
  let (s, r) := ptrForReg reg
  -- `size_t s`
  let s := UInt32.ofInt s
  if s > max then some (-1, [], t)
  else do
    let r ← r
    return (s.toNat, (List.range s.toNat).map (t.regCache r), { t with touches := t.touches ++ [r] })

/-- `cortexa_reg_write`, with `max` bytes at `data`. -/
def cortexaRegWrite (t : CacheTarget) (reg : Int) (data : List UInt8) (max : UInt32) :
    Option (Int × CacheTarget) :=
  let (s, r) := ptrForReg reg
  let s := UInt32.ofInt s
  if s > max then some (-1, t)
  else do
    let r ← r
    let bytes := fun k => if k < s.toNat then data.getD k 0 else t.regCache r k
    return (s.toNat, ⟨Function.update t.regCache r bytes, t.touches ++ [r]⟩)

/-- The registers, in the order of their numbers. -/
def cacheReg (n : Nat) : CacheReg :=
  if n ≤ 15 then .r n else if n = 16 then .cpsr else if n = 17 then .fpscr else .d (n - 18)

/-- The bytes of a register. -/
def CacheReg.width : CacheReg → Nat
  | .d _ => 8
  | _ => 4

abbrev cacheCount : Nat := 34

theorem ptrForReg_inside {n : Nat} (h : n < cacheCount) :
    ptrForReg n = (((cacheReg n).width : Int), some (cacheReg n)) := by
  have h : n < 34 := h
  unfold ptrForReg cacheReg
  by_cases hr : n ≤ 15
  · rw [if_pos (by omega), if_pos hr, Int.toNat_natCast]
    rfl
  rw [if_neg (by omega), if_neg hr]
  by_cases hcpsr : n = 16
  · rw [if_pos (by omega), if_pos hcpsr]
    rfl
  rw [if_neg (by omega), if_neg hcpsr]
  by_cases hfpscr : n = 17
  · rw [if_pos (by omega), if_pos hfpscr]
    rfl
  have hd : ((n : Int) - 18).toNat = n - 18 := by omega
  rw [if_neg (by omega), if_neg hfpscr, if_pos (by omega), hd]
  rfl

theorem ptrForReg_outside {reg : Int} (h : reg < 0 ∨ 34 ≤ reg) : ptrForReg reg = (-1, none) := by
  unfold ptrForReg
  rw [if_neg (by omega), if_neg (by omega), if_neg (by omega), if_neg (by omega)]

theorem width_cases (r : CacheReg) : r.width = 4 ∨ r.width = 8 := by
  cases r with
  | r i => exact Or.inl rfl
  | cpsr => exact Or.inl rfl
  | fpscr => exact Or.inl rfl
  | d i => exact Or.inr rfl

section
variable (t : CacheTarget) {reg : Int} {n : Nat} {max : UInt32}

theorem width_size (r : CacheReg) : (UInt32.ofInt (r.width : Int)).toNat = r.width := by
  rcases width_cases r with h | h
  · rw [h]
    rfl
  · rw [h]
    rfl

theorem not_gt_of_fits {r : CacheReg} (h : r.width ≤ max.toNat) :
    ¬UInt32.ofInt (r.width : Int) > max := by
  intro hgt
  have hlt := UInt32.lt_iff_toNat_lt.mp hgt
  rw [width_size] at hlt
  omega

/-- A register outside of the set is refused, without an access. -/
theorem cortexaRegRead_outside (h : reg < 0 ∨ 34 ≤ reg) (hmax : max < 0xFFFFFFFF) :
    cortexaRegRead t reg max = some (-1, [], t) := by
  unfold cortexaRegRead
  rw [ptrForReg_outside h]
  exact if_pos hmax

theorem cortexaRegWrite_outside (data : List UInt8) (h : reg < 0 ∨ 34 ≤ reg)
    (hmax : max < 0xFFFFFFFF) : cortexaRegWrite t reg data max = some (-1, t) := by
  unfold cortexaRegWrite
  rw [ptrForReg_outside h]
  exact if_pos hmax

/-- A register that does not fit is refused, without an access. -/
theorem cortexaRegWrite_short (data : List UInt8) (h : n < cacheCount)
    (hmax : max.toNat < (cacheReg n).width) : cortexaRegWrite t n data max = some (-1, t) := by
  unfold cortexaRegWrite
  rw [ptrForReg_inside h]
  apply if_pos
  apply UInt32.lt_iff_toNat_lt.mpr
  rw [width_size]
  exact hmax

/-- A register that fits is copied. -/
theorem cortexaRegRead_inside (h : n < cacheCount) (hmax : (cacheReg n).width ≤ max.toNat) :
    cortexaRegRead t n max = some (((cacheReg n).width : Int),
      (List.range (cacheReg n).width).map (t.regCache (cacheReg n)),
      { t with touches := t.touches ++ [cacheReg n] }) := by
  unfold cortexaRegRead
  rw [ptrForReg_inside h]
  dsimp only
  rw [if_neg (not_gt_of_fits hmax), width_size]
  rfl

theorem cortexaRegWrite_inside (data : List UInt8) (h : n < cacheCount)
    (hmax : (cacheReg n).width ≤ max.toNat) :
    cortexaRegWrite t n data max = some (((cacheReg n).width : Int),
      ⟨Function.update t.regCache (cacheReg n) (fun k => if k < (cacheReg n).width then
        data.getD k 0 else t.regCache (cacheReg n) k), t.touches ++ [cacheReg n]⟩) := by
  unfold cortexaRegWrite
  rw [ptrForReg_inside h]
  dsimp only
  rw [if_neg (not_gt_of_fits hmax), width_size]
  rfl

end

end MiyakoLink.CortexA
