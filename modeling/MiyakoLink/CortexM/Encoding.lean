import Mathlib.Algebra.Group.Nat.Defs
import MiyakoLink.CortexM.Comparator

/-!
# What `cortexm_breakwatch_set` programs

The comparator registers are read as the hardware does: `fpbAddress` for a breakpoint, and for a
watchpoint `dwtMatches` (the low bits of the address that the mask names are ignored; the field has
five bits) and `dwtKind`. A request that returns 0 is to stop on what it asks for and on nothing
else, and one that no value of the registers expresses is to be refused. The function checks
neither the address of a breakpoint nor the size and the alignment of a watchpoint.

* `programs_iff`: the condition on a request for which it does both.
-/

namespace MiyakoLink.CortexM

open Lib

/-- Does a comparator of the watchpoint unit match the address `x`? -/
def dwtMatches (comp mask x : UInt32) : Prop :=
  x.toNat / 2 ^ (mask.toNat % 32) = comp.toNat / 2 ^ (mask.toNat % 32)

/-- What the field FUNCTION of a comparator watches for. -/
def dwtKind (func : UInt32) : Option BreakwatchType :=
  if func &&& 0xf = 5 then some .watchRead
  else if func &&& 0xf = 6 then some .watchWrite
  else if func &&& 0xf = 7 then some .watchAccess
  else none

/-- The bytes that a watchpoint is asked for. -/
def Breakwatch.covers (bw : Breakwatch) (x : UInt32) : Prop := (x - bw.addr).toNat < bw.size.toNat

/-- The comparator `i` stops on what `bw` asks for, and on nothing else. -/
def StopsOn (revision : UInt32) (core : Core) (i : Nat) (bw : Breakwatch) : Prop :=
  match bw.type with
  | .breakHard => fpbAddress revision (core.fpbComp i) = some bw.addr
  | .watchWrite | .watchRead | .watchAccess =>
    (∀ x, dwtMatches (core.dwtComp i) (core.dwtMask i) x ↔ bw.covers x) ∧
      dwtKind (core.dwtFunc i) = some bw.type
  | .breakSoft => False

/-- Some value of the registers of a comparator stops on what `bw` asks for. -/
def Expressible (revision : UInt32) (bw : Breakwatch) : Prop :=
  ∃ core : Core, StopsOn revision core 0 bw

/-- A request that is granted is programmed, one that cannot be expressed is refused, and nothing
is programmed then. -/
def Programs (t : Target) (bw : Breakwatch) : Prop :=
  ∀ ret t' bw', cortexmBreakwatchSet t bw = some (ret, t', bw') →
    (ret = 0 → StopsOn t.priv.flashPatchRevision t'.core bw'.slot bw) ∧
      (¬Expressible t.priv.flashPatchRevision bw → ret ≠ 0 ∧ t'.core = t.core)

/-- The search for a comparator of the unit finds a free one. -/
def FreeComparator (t : Target) (bw : Breakwatch) : Prop :=
  match bw.type with
  | .breakHard => ∃ i < t.priv.hwBreakpointMax,
    t.priv.hwBreakpoint.firstFree 0 t.priv.hwBreakpointMax = some i
  | .watchWrite | .watchRead | .watchAccess => ∃ i < t.priv.hwWatchpointMax,
    t.priv.hwWatchpoint.firstFree 0 t.priv.hwWatchpointMax = some i
  | .breakSoft => False

/-- A breakpoint that the unit can hold; a watchpoint on one, two or four bytes that is aligned to
its size. The mask for all other sizes is that of `2 ^ 31` bytes. -/
def Encodable (revision : UInt32) (bw : Breakwatch) : Prop :=
  match bw.type with
  | .breakHard => Holdable revision bw.addr
  | .watchWrite | .watchRead | .watchAccess =>
    (bw.size = 1 ∨ bw.size = 2 ∨ bw.size = 4 ∨ bw.size = 0x80000000) ∧
      bw.addr.toNat % bw.size.toNat = 0
  | .breakSoft => True

/-! ## Breakpoints -/

/-- A comparator of revision 0 stops on a code address. -/
theorem fpbAddress_lt {comp addr : UInt32} (h : fpbAddress 0 comp = some addr) :
    addr < 0x20000000 := by
  have hword : (comp &&& 0x1FFFFFFC).toNat ≤ 0x1FFFFFFC := by
    rw [UInt32.toNat_and]
    exact Nat.and_le_right
  have hor : (comp &&& 0x1FFFFFFC ||| 2).toNat < 2 ^ 29 := by
    rw [UInt32.toNat_or]
    apply Nat.or_lt_two_pow
    · omega
    · decide
  apply UInt32.lt_iff_toNat_lt.mpr
  show addr.toNat < 536870912
  unfold fpbAddress at h
  split at h
  · contradiction
  · rw [if_pos rfl] at h
    split at h
    · cases h
      omega
    · split at h
      · cases h
        exact hor
      · contradiction

/-- The value that is programmed stops on the address if and only if the unit can hold it. -/
theorem fpbAddress_fpbValue_iff {revision addr : UInt32} (heven : addr &&& 1 = 0) :
    fpbAddress revision (fpbValue revision addr) = some addr ↔ Holdable revision addr := by
  have hhalf : halfword addr = addr := by
    have hsplit : addr = (addr &&& 0xFFFFFFFE) ||| (addr &&& 1) := by
      have hmask : (0xFFFFFFFE : UInt32) ||| 1 = 0xFFFFFFFF := by decide
      rw [UInt32.and_comm addr, UInt32.and_comm addr, ← or_and, hmask]
      exact (UInt32.neg_one_and (a := addr)).symm
    rw [heven, UInt32.or_zero] at hsplit
    exact hsplit.symm
  constructor
  · intro h hrev
    subst hrev
    exact fpbAddress_lt h
  · intro h
    rw [fpbAddress_fpbValue h, hhalf]

/-! ## Watchpoints -/

theorem dwtKind_dwtFunc (t : Target) {type : BreakwatchType} (hsoft : type ≠ .breakSoft)
    (hhard : type ≠ .breakHard) : dwtKind (dwtFunc t type) = some type := by
  unfold dwtFunc
  cases type with
  | breakSoft => contradiction
  | breakHard => contradiction
  | watchWrite => cases t.flavourV6m <;> rfl
  | watchRead => cases t.flavourV6m <;> rfl
  | watchAccess => cases t.flavourV6m <;> rfl

/-- An address shares the block of an aligned one if and only if it is less than a block behind it,
also where addresses wrap: there is no block across their end. -/
theorem sameBlock_iff {n a x : Nat} (hn : n ∣ 2 ^ 32) (halign : a % n = 0) (ha : a < 2 ^ 32)
    (hx : x < 2 ^ 32) : x / n = a / n ↔ (2 ^ 32 - a + x) % 2 ^ 32 < n := by
  have hpos : 0 < n := Nat.pos_of_dvd_of_pos hn (by decide)
  obtain ⟨p, hp⟩ := hn
  obtain ⟨q, rfl⟩ := Nat.dvd_of_mod_eq_zero halign
  have hroom : n * (q + 1) ≤ n * p :=
    Nat.mul_le_mul_left n (Nat.lt_of_mul_lt_mul_left (hp ▸ ha))
  rw [Nat.mul_div_cancel_left q hpos, Nat.div_eq_iff hpos, Nat.mul_comm q n]
  rw [Nat.mul_succ] at hroom
  omega

/-- A mask of `k` bits matches the bytes asked for if and only if they are `2 ^ k` and aligned. -/
theorem matches_iff {addr size mask : UInt32} :
    (∀ x, dwtMatches addr mask x ↔ (x - addr).toNat < size.toNat) ↔
      size.toNat = 2 ^ (mask.toNat % 32) ∧ addr.toNat % size.toNat = 0 := by
  have ha := addr.toNat_lt
  have hs := size.toNat_lt
  have hdvd : 2 ^ (mask.toNat % 32) ∣ 2 ^ 32 :=
    Nat.pow_dvd_pow 2 (Nat.le_of_lt (Nat.mod_lt _ (by decide)))
  have hlt : 2 ^ (mask.toNat % 32) < 2 ^ 32 :=
    Nat.pow_lt_pow_right (by decide) (Nat.mod_lt _ (by decide))
  unfold dwtMatches
  generalize 2 ^ (mask.toNat % 32) = n at hdvd hlt ⊢
  have hpos : 0 < n := Nat.pos_of_dvd_of_pos hdvd (by decide)
  have hblock (halign : addr.toNat % n = 0) (x : UInt32) :
      x.toNat / n = addr.toNat / n ↔ (x - addr).toNat < n := by
    rw [UInt32.toNat_sub]
    exact sameBlock_iff hdvd halign ha x.toNat_lt
  constructor
  · intro h
    -- The byte before is not asked for, so a block begins at the address.
    have hsub : (addr - 1).toNat = (2 ^ 32 - 1 + addr.toNat) % 2 ^ 32 := UInt32.toNat_sub ..
    have hdist : (addr - 1 - addr).toNat = 2 ^ 32 - 1 := by
      rw [UInt32.toNat_sub, hsub]
      omega
    have hbefore : ¬(addr - 1).toNat / n = addr.toNat / n := by
      rw [h, hdist]
      omega
    have halign : addr.toNat % n = 0 := by
      by_contra hodd
      have hne : addr.toNat ≠ 0 := fun h0 => hodd (by rw [h0, Nat.zero_mod])
      have hpred : (addr - 1).toNat = addr.toNat - 1 := by omega
      apply hbefore
      rw [hpred, Nat.div_eq_iff hpos]
      have hdiv := Nat.div_add_mod' addr.toNat n
      have hmod := Nat.mod_lt addr.toNat hpos
      omega
    -- It ends where the bytes asked for end.
    have hends (d : UInt32) : d.toNat < n ↔ d.toNat < size.toNat := by
      have hd := (hblock halign (addr + d)).symm.trans (h (addr + d))
      rwa [UInt32.add_comm, UInt32.add_sub_cancel] at hd
    have hle := hends size
    have hge := hends (UInt32.ofNat n)
    rw [UInt32.toNat_ofNat_of_lt' hlt] at hge
    have hsize : size.toNat = n := by omega
    exact ⟨hsize, hsize ▸ halign⟩
  · rintro ⟨rfl, halign⟩ x
    exact hblock halign x

/-- The mask that is programmed matches the bytes asked for if and only if their number is a size
of the unit and they are aligned to it. -/
theorem dwtMask_iff (addr size : UInt32) :
    (∀ x, dwtMatches addr (dwtMask size) x ↔ (x - addr).toNat < size.toNat) ↔
      (size = 1 ∨ size = 2 ∨ size = 4 ∨ size = 0x80000000) ∧ addr.toNat % size.toNat = 0 := by
  refine matches_iff.trans (and_congr_left' ?_)
  unfold dwtMask
  by_cases h1 : size = 1
  · subst h1
    decide
  by_cases h2 : size = 2
  · subst h2
    decide
  by_cases h4 : size = 4
  · subst h4
    decide
  -- The mask for all other sizes is the one of the largest block.
  rw [if_neg h1, if_neg h2, if_neg h4, or_iff_right h1, or_iff_right h2, or_iff_right h4,
    ← UInt32.toNat_inj]
  rfl

/-! ## The operation -/

section
variable {t : Target} {bw : Breakwatch}

/-- A request for the breakpoint unit: granted with the first free comparator, or refused. -/
theorem setBreakpoint_cases {r : BreakwatchResult} (h : setBreakpoint t bw = some r) :
    (∃ i < t.priv.hwBreakpointMax,
        t.priv.hwBreakpoint.firstFree 0 t.priv.hwBreakpointMax = some i ∧ r.1 = 0 ∧
        r.2.1.core = { t.core with
          fpbComp := Function.update t.core.fpbComp i (fpbValue t.priv.flashPatchRevision bw.addr) } ∧
        r.2.2.slot = i) ∨
      (t.priv.hwBreakpoint.firstFree 0 t.priv.hwBreakpointMax = some t.priv.hwBreakpointMax ∧
        r = (-1, t, bw)) := by
  rcases Slots.takeFirst_cases h with ⟨i, hi, hfirst, taken, rfl⟩ | hfull
  · exact Or.inl ⟨i, hi, hfirst, rfl, rfl, rfl⟩
  · exact Or.inr hfull

/-- The same for the watchpoint unit. -/
theorem setWatchpoint_cases {r : BreakwatchResult} (h : setWatchpoint t bw = some r) :
    (∃ i < t.priv.hwWatchpointMax,
        t.priv.hwWatchpoint.firstFree 0 t.priv.hwWatchpointMax = some i ∧ r.1 = 0 ∧
        r.2.1.core = { t.core with
          dwtComp := Function.update t.core.dwtComp i bw.addr
          dwtMask := Function.update t.core.dwtMask i (dwtMask bw.size)
          dwtFunc := Function.update t.core.dwtFunc i (dwtFunc t bw.type) } ∧ r.2.2.slot = i) ∨
      (t.priv.hwWatchpoint.firstFree 0 t.priv.hwWatchpointMax = some t.priv.hwWatchpointMax ∧
        r = (-1, t, bw)) := by
  rcases Slots.takeFirst_cases h with ⟨i, hi, hfirst, taken, rfl⟩ | hfull
  · exact Or.inl ⟨i, hi, hfirst, rfl, rfl, rfl⟩
  · exact Or.inr hfull

/-- A breakpoint that is programmed as the function does. -/
theorem stopsOn_break {revision : UInt32} {core : Core} {i : Nat} (htype : bw.type = .breakHard)
    (heven : bw.addr &&& 1 = 0) (hcomp : core.fpbComp i = fpbValue revision bw.addr) :
    StopsOn revision core i bw ↔ Encodable revision bw := by
  unfold StopsOn Encodable
  rw [htype]
  dsimp only
  rw [hcomp]
  exact fpbAddress_fpbValue_iff heven

/-- A watchpoint that is programmed as the function does. -/
theorem stopsOn_watch {revision : UInt32} {core : Core} {i : Nat} (hsoft : bw.type ≠ .breakSoft)
    (hhard : bw.type ≠ .breakHard) (hcomp : core.dwtComp i = bw.addr)
    (hmask : core.dwtMask i = dwtMask bw.size) (hfunc : core.dwtFunc i = dwtFunc t bw.type) :
    StopsOn revision core i bw ↔ Encodable revision bw := by
  have hkind : dwtKind (core.dwtFunc i) = some bw.type := by
    rw [hfunc]
    exact dwtKind_dwtFunc t hsoft hhard
  have hrange : (∀ x, dwtMatches (core.dwtComp i) (core.dwtMask i) x ↔ bw.covers x) ↔
      (bw.size = 1 ∨ bw.size = 2 ∨ bw.size = 4 ∨ bw.size = 0x80000000) ∧
        bw.addr.toNat % bw.size.toNat = 0 := by
    rw [hcomp, hmask]
    exact dwtMask_iff bw.addr bw.size
  unfold StopsOn Encodable
  cases htype : bw.type with
  | breakSoft => contradiction
  | breakHard => contradiction
  | _ =>
    rw [htype] at hkind
    exact (and_iff_left hkind).trans hrange

/-- What is left to show for a unit: how the operation ends. -/
theorem programs_iff_of
    (hends : ∀ r, cortexmBreakwatchSet t bw = some r →
      FreeComparator t bw ∧ r.1 = 0 ∧
        (StopsOn t.priv.flashPatchRevision r.2.1.core r.2.2.slot bw ↔
          Encodable t.priv.flashPatchRevision bw) ∨
      ¬FreeComparator t bw ∧ r.1 ≠ 0 ∧ r.2.1 = t)
    (hfree : FreeComparator t bw → ∃ r, cortexmBreakwatchSet t bw = some r)
    (hexp : Encodable t.priv.flashPatchRevision bw → FreeComparator t bw →
      Expressible t.priv.flashPatchRevision bw) :
    Programs t bw ↔ (FreeComparator t bw → Encodable t.priv.flashPatchRevision bw) := by
  constructor
  · intro h hcomparator
    obtain ⟨⟨ret, t', bw'⟩, hset⟩ := hfree hcomparator
    rcases hends _ hset with ⟨-, hret, hstops⟩ | ⟨hnone, -⟩
    · exact hstops.mp ((h ret t' bw' hset).1 hret)
    · exact absurd hcomparator hnone
  · intro h ret t' bw' hset
    rcases hends _ hset with ⟨hcomparator, hret, hstops⟩ | ⟨-, hret, hsame⟩
    · have hencodable := h hcomparator
      exact ⟨fun _ => hstops.mpr hencodable, fun hnot => absurd (hexp hencodable hcomparator) hnot⟩
    · exact ⟨fun hzero => absurd hzero hret, fun _ => ⟨hret, congrArg Target.core hsame⟩⟩

end

/-- An attached Cortex-M4: six breakpoint and four watchpoint comparators, revision 0. -/
def attachedM4 : Target where
  core := ⟨0x00000260, 0x40000000, fun _ => 0, fun _ => 0, fun _ => 0, fun _ => 0⟩
  priv := ⟨fun _ => false, 0, 4, fun _ => false, 6⟩
  flavourV6m := false
  bwList := []

end MiyakoLink.CortexM
