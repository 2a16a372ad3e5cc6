import Mathlib.Algebra.BigOperators.Group.Finset.Piecewise
import Mathlib.Algebra.Group.Pi.Basic
import Mathlib.Algebra.Order.Group.Multiset
import MiyakoLink.Lib.RefCount
import MiyakoLink.Scan.Probe

/-!
# Who holds what

`Owned X w` says that `X` accounts for the pool: each counter is the number of references in `X`,
and each other block is in `X` once. What the list of targets holds, what the running program
holds and what is lost add up to it.
-/

namespace MiyakoLink.Scan

open Lib

/-- A reference to an access port or to a debug port, one of these that has no reference yet, or
another block. -/
inductive Kind where
  | ap
  | dp
  | newAp
  | newDp
  | plain
  deriving DecidableEq

abbrev Holding := Kind → Multiset Ptr

def one (k : Kind) (p : Ptr) : Holding := Pi.single k {p}

/-- How a new block is held. -/
def Block.kind : Block → Kind
  | .plain => .plain
  | .ap _ _ => .newAp
  | .dp _ => .newDp

def apCount : Option Block → Option Int
  | some (.ap n _) => some n
  | _ => none

def dpCount : Option Block → Option Int
  | some (.dp n) => some n
  | _ => none

def plainCount : Option Block → Option Int
  | some .plain => some 1
  | _ => none

theorem apCount_some {b : Option Block} {n : Int} (h : apCount b = some n) :
    ∃ d, b = some (.ap n d) := by
  match b, h with
  | some (.ap _ d), h => exact ⟨d, by rw [Option.some.inj h]⟩

theorem dpCount_some {b : Option Block} {n : Int} (h : dpCount b = some n) : b = some (.dp n) := by
  match b, h with
  | some (.dp _), h => rw [Option.some.inj h]

theorem plainCount_some {b : Option Block} {n : Int} (h : plainCount b = some n) :
    b = some .plain := by
  match b, h with
  | some .plain, _ => rfl

/-- The reference that an access port holds. -/
def apDps : Option Block → Multiset Ptr
  | some (.ap n d) => if n = 0 then 0 else {d}
  | _ => 0

/-- The references that the access ports hold. -/
def World.apDps (w : World) : Multiset Ptr :=
  (Finset.range w.next).sum fun a => Scan.apDps (w.blocks a)

/-- A block as it is when it is new. -/
def Block.Unused : Block → Prop
  | .plain => True
  | .ap n _ => n = 0
  | .dp n => n = 0

theorem Block.Unused.apDps_eq {b : Block} (h : b.Unused) : Scan.apDps (some b) = 0 := by
  cases b with
  | ap n d =>
    cases h
    rfl
  | _ => rfl

structure Owned (X : Holding) (w : World) : Prop where
  aps : Counted (apCount ∘ w.blocks) (X .newAp) (X .ap)
  dps : Counted (dpCount ∘ w.blocks) (X .newDp) (X .dp + w.apDps)
  plain : Counted (plainCount ∘ w.blocks) 0 (X .plain)
  fresh : ∀ p, w.next ≤ p → w.blocks p = none

/-! ## The pool -/

@[simp] theorem one_self (k : Kind) (p : Ptr) : one k p k = {p} := by
  simp [one]

@[simp] theorem one_of_ne {k k' : Kind} (h : k' ≠ k) (p : Ptr) : one k p k' = 0 := by
  simp [one, h]

theorem one_add_self (k : Kind) (p : Ptr) (X : Holding) : (one k p + X) k = p ::ₘ X k := by
  simp

theorem one_ne_zero (k : Kind) (p : Ptr) : one k p ≠ 0 := by
  intro h
  have := congrFun h k
  simp at this

theorem sum_update {i n : Nat} (hi : i < n) (f : Nat → Multiset Ptr) (b : Multiset Ptr) :
    (Finset.range n).sum (Function.update f i b) + f i = b + (Finset.range n).sum f := by
  have hmem : i ∈ Finset.range n := Finset.mem_range.mpr hi
  rw [Finset.sum_update_of_mem hmem, ← Finset.add_sum_erase _ f hmem,
    Finset.sdiff_singleton_eq_erase, add_assoc, add_comm (f i)]

namespace Owned

variable {X : Holding} {w : World} {a d p : Ptr}

theorem lt_next (h : Owned X w) {p : Ptr} {b : Block} (hp : w.blocks p = some b) : p < w.next := by
  by_contra hle
  rw [h.fresh p (Nat.le_of_not_lt hle)] at hp
  exact nomatch hp

theorem setBlock_apDps (h : Owned X w) {p : Ptr} {b c : Block} (hp : w.blocks p = some b) :
    (w.setBlock p c).apDps + Scan.apDps (some b) = Scan.apDps (some c) + w.apDps := by
  have hsum := sum_update (h.lt_next hp) (Scan.apDps ∘ w.blocks) (Scan.apDps (some c))
  rw [← Function.comp_update] at hsum
  rw [← hp]
  exact hsum

theorem freeBlock_apDps (h : Owned X w) {p : Ptr} {b : Block} (hp : w.blocks p = some b) :
    (w.freeBlock p).apDps + Scan.apDps (some b) = w.apDps := by
  have hsum := sum_update (h.lt_next hp) (Scan.apDps ∘ w.blocks) (Scan.apDps none)
  rw [← Function.comp_update] at hsum
  rw [← hp]
  exact hsum.trans (zero_add _)

theorem ap_block (h : Owned X w) {a : Ptr} (ha : a ∈ X .ap) :
    ∃ n d, w.blocks a = some (.ap n d) ∧ 0 < n := by
  have hcount := h.aps.held ha
  have hpos := Multiset.count_pos.mpr ha
  obtain ⟨d, hb⟩ := apCount_some hcount
  exact ⟨_, d, hb, by omega⟩

theorem dp_block (h : Owned X w) {d : Ptr} (hd : d ∈ X .dp + w.apDps) :
    ∃ n, w.blocks d = some (.dp n) ∧ 0 < n := by
  have hcount := h.dps.held hd
  have hpos := Multiset.count_pos.mpr hd
  exact ⟨_, dpCount_some hcount, by omega⟩

theorem newAp_block (h : Owned (one .newAp a + X) w) : ∃ d, w.blocks a = some (.ap 0 d) := by
  have hcount := h.aps
  rw [one_add_self] at hcount
  exact apCount_some hcount.of_fresh

theorem newDp_block (h : Owned (one .newDp d + X) w) : w.blocks d = some (.dp 0) := by
  have hcount := h.dps
  rw [one_add_self] at hcount
  exact dpCount_some hcount.of_fresh

theorem plain_block (h : Owned X w) (hp : p ∈ X .plain) : w.blocks p = some .plain :=
  plainCount_some (h.plain.held hp)

/-- What there is to show after a block has been written. -/
theorem of_setBlock {Y : Holding} {b : Block} (h : Owned X w) (hp : p < w.next)
    (haps : Counted (Function.update (apCount ∘ w.blocks) p (apCount (some b))) (Y .newAp) (Y .ap))
    (hdps : Counted (Function.update (dpCount ∘ w.blocks) p (dpCount (some b))) (Y .newDp)
      (Y .dp + (w.setBlock p b).apDps))
    (hplain : Counted (Function.update (plainCount ∘ w.blocks) p (plainCount (some b))) 0
      (Y .plain)) : Owned Y (w.setBlock p b) where
  aps := by
    rw [← Function.comp_update] at haps
    exact haps
  dps := by
    rw [← Function.comp_update] at hdps
    exact hdps
  plain := by
    rw [← Function.comp_update] at hplain
    exact hplain
  fresh q hq := by
    show Function.update w.blocks p (some b) q = none
    rw [Function.update_of_ne (Nat.ne_of_gt (hp.trans_le hq))]
    exact h.fresh q hq

theorem of_freeBlock {Y : Holding} (h : Owned X w)
    (haps : Counted (Function.update (apCount ∘ w.blocks) p none) (Y .newAp) (Y .ap))
    (hdps : Counted (Function.update (dpCount ∘ w.blocks) p none) (Y .newDp)
      (Y .dp + (w.freeBlock p).apDps))
    (hplain : Counted (Function.update (plainCount ∘ w.blocks) p none) 0 (Y .plain)) :
    Owned Y (w.freeBlock p) where
  aps := by
    have hcomp := Function.comp_update apCount w.blocks p none
    exact hcomp ▸ haps
  dps := by
    have hcomp := Function.comp_update dpCount w.blocks p none
    exact hcomp ▸ hdps
  plain := by
    have hcomp := Function.comp_update plainCount w.blocks p none
    exact hcomp ▸ hplain
  fresh q hq := by
    show Function.update w.blocks p none q = none
    by_cases hqp : q = p
    · rw [hqp, Function.update_self]
    · rw [Function.update_of_ne hqp]
      exact h.fresh q hq

/-- A counter changes from one positive value to another. -/
theorem setBlock_counted {m n : Int} (h : Owned X w) (hb : w.blocks a = some (.ap n d)) (hn : n ≠ 0)
    (hm : m ≠ 0) : (w.setBlock a (.ap m d)).apDps = w.apDps := by
  have hsum := h.setBlock_apDps hb (c := .ap m d)
  rw [Scan.apDps, Scan.apDps, if_neg hn, if_neg hm, add_comm] at hsum
  exact add_left_cancel hsum

/-- Another reference to an access port. -/
theorem apRef {n : Int} (h : Owned X w) (ha : a ∈ X .ap) (hb : w.blocks a = some (.ap n d)) :
    Owned (one .ap a + X) (w.setBlock a (.ap (n + 1) d)) := by
  have hpos : 0 < n := by
    obtain ⟨n', d', hb', hpos⟩ := h.ap_block ha
    rw [hb] at hb'
    cases hb'
    exact hpos
  refine h.of_setBlock (h.lt_next hb) ?_ ?_ ?_
  · simpa [apCount] using h.aps.ref ha (congrArg apCount hb)
  · rw [h.setBlock_counted hb (by omega) (by omega)]
    simpa [dpCount] using h.dps.keep (congrArg dpCount hb)
  · simpa [plainCount] using h.plain.keep (congrArg plainCount hb)

/-- A reference to a debug port. -/
theorem dpRef {n : Int} (h : Owned X w) (hd : d ∈ X .dp + w.apDps)
    (hb : w.blocks d = some (.dp n)) : Owned (one .dp d + X) (w.setBlock d (.dp (n + 1))) := by
  have hsum := h.setBlock_apDps hb (c := .dp (n + 1))
  refine h.of_setBlock (h.lt_next hb) ?_ ?_ ?_
  · simpa [apCount] using h.aps.keep (congrArg apCount hb)
  · have hdps : (w.setBlock d (.dp (n + 1))).apDps = w.apDps := by
      simpa [Scan.apDps] using hsum
    rw [hdps]
    simpa [dpCount] using h.dps.ref hd (congrArg dpCount hb)
  · simpa [plainCount] using h.plain.keep (congrArg plainCount hb)

/-- The first reference to a debug port. -/
theorem dpFirst (h : Owned (one .newDp d + X) w) :
    Owned (one .dp d + X) (w.setBlock d (.dp 1)) := by
  have hb := h.newDp_block
  have hsum := h.setBlock_apDps hb (c := .dp 1)
  have hdps : (w.setBlock d (.dp 1)).apDps = w.apDps := by
    simpa [Scan.apDps] using hsum
  have hcount := h.dps
  rw [one_add_self] at hcount
  refine h.of_setBlock (h.lt_next hb) ?_ ?_ ?_
  · simpa [apCount] using h.aps.keep (congrArg apCount hb)
  · rw [hdps]
    simpa [apCount, dpCount] using hcount.first
  · simpa [plainCount] using h.plain.keep (congrArg plainCount hb)

/-- The first reference to an access port: it takes over a reference to its debug port. -/
theorem apFirst (h : Owned (one .newAp a + (one .dp d + X)) w) (hb : w.blocks a = some (.ap 0 d)) :
    Owned (one .ap a + X) (w.setBlock a (.ap 1 d)) := by
  have hsum := h.setBlock_apDps hb (c := .ap 1 d)
  have hdps : (w.setBlock a (.ap 1 d)).apDps = d ::ₘ w.apDps := by
    simpa [Scan.apDps] using hsum
  have hcount := h.aps
  rw [one_add_self] at hcount
  refine h.of_setBlock (h.lt_next hb) ?_ ?_ ?_
  · simpa [apCount, dpCount] using hcount.first
  · rw [hdps]
    simpa [dpCount] using h.dps.keep (congrArg dpCount hb)
  · simpa [plainCount] using h.plain.keep (congrArg plainCount hb)

/-- A reference to a debug port is dropped, and another is left. -/
theorem dpUnref {n : Int} (h : Owned (one .dp d + X) w) (hb : w.blocks d = some (.dp n))
    (hn : n ≠ 1) : Owned X (w.setBlock d (.dp (n - 1))) := by
  have hsum := h.setBlock_apDps hb (c := .dp (n - 1))
  have hdps : (w.setBlock d (.dp (n - 1))).apDps = w.apDps := by
    simpa [Scan.apDps] using hsum
  have hcount := h.dps
  rw [one_add_self, Multiset.cons_add] at hcount
  refine h.of_setBlock (h.lt_next hb) ?_ ?_ ?_
  · simpa [apCount] using h.aps.keep (congrArg apCount hb)
  · rw [hdps]
    simpa [dpCount] using hcount.unref (congrArg dpCount hb) hn
  · simpa [plainCount] using h.plain.keep (congrArg plainCount hb)

/-- The last reference to a debug port is dropped. -/
theorem dpLast (h : Owned (one .dp d + X) w) (hb : w.blocks d = some (.dp 1)) :
    Owned (one .newDp d + X) (w.setBlock d (.dp 0)) := by
  have hsum := h.setBlock_apDps hb (c := .dp 0)
  have hdps : (w.setBlock d (.dp 0)).apDps = w.apDps := by
    simpa [Scan.apDps] using hsum
  have hcount := h.dps
  rw [one_add_self, Multiset.cons_add] at hcount
  refine h.of_setBlock (h.lt_next hb) ?_ ?_ ?_
  · simpa [apCount] using h.aps.keep (congrArg apCount hb)
  · rw [hdps]
    simpa [dpCount] using hcount.last (congrArg dpCount hb)
  · simpa [plainCount] using h.plain.keep (congrArg plainCount hb)

/-- A reference to an access port is dropped, and another is left. -/
theorem apUnref {n : Int} (h : Owned (one .ap a + X) w) (hb : w.blocks a = some (.ap n d))
    (hn : n ≠ 1) (hpos : 0 < n) : Owned X (w.setBlock a (.ap (n - 1) d)) := by
  have hcount := h.aps
  rw [one_add_self] at hcount
  refine h.of_setBlock (h.lt_next hb) ?_ ?_ ?_
  · simpa [apCount] using hcount.unref (congrArg apCount hb) hn
  · rw [h.setBlock_counted hb (by omega) (by omega)]
    simpa [dpCount] using h.dps.keep (congrArg dpCount hb)
  · simpa [plainCount] using h.plain.keep (congrArg plainCount hb)

/-- The last reference to an access port is dropped: it gives up the one to its debug port. -/
theorem apLast (h : Owned (one .ap a + X) w) (hb : w.blocks a = some (.ap 1 d)) :
    Owned (one .newAp a + (one .dp d + X)) (w.setBlock a (.ap 0 d)) := by
  have hsum := h.setBlock_apDps hb (c := .ap 0 d)
  have hdps : d ::ₘ (w.setBlock a (.ap 0 d)).apDps = w.apDps := by
    rw [Scan.apDps, Scan.apDps, if_neg (by omega), if_pos rfl, zero_add, add_comm] at hsum
    exact hsum
  have hcount := h.aps
  rw [one_add_self] at hcount
  have hkeep := h.dps.keep (congrArg dpCount hb)
  rw [← hdps] at hkeep
  refine h.of_setBlock (h.lt_next hb) ?_ ?_ ?_
  · simpa [apCount] using hcount.last (congrArg apCount hb)
  · simpa [dpCount] using hkeep
  · simpa [plainCount] using h.plain.keep (congrArg plainCount hb)

theorem freePlain (h : Owned (one .plain p + X) w) : Owned X (w.freeBlock p) := by
  have hb := h.plain_block (p := p) (by simp)
  have hdps : (w.freeBlock p).apDps = w.apDps := by
    simpa [Scan.apDps] using h.freeBlock_apDps hb
  have hcount := h.plain
  rw [one_add_self] at hcount
  refine h.of_freeBlock ?_ ?_ ?_
  · simpa [apCount] using h.aps.keep (congrArg apCount hb)
  · rw [hdps]
    simpa [dpCount] using h.dps.keep (congrArg dpCount hb)
  · have hgone := (hcount.last (congrArg plainCount hb)).release
    rwa [Function.update_idem] at hgone

theorem freeNewAp (h : Owned (one .newAp a + X) w) : Owned X (w.freeBlock a) := by
  obtain ⟨d, hb⟩ := h.newAp_block
  have hdps : (w.freeBlock a).apDps = w.apDps := by
    simpa [Scan.apDps] using h.freeBlock_apDps hb
  have hcount := h.aps
  rw [one_add_self] at hcount
  refine h.of_freeBlock ?_ ?_ ?_
  · simpa using hcount.release
  · rw [hdps]
    simpa [dpCount] using h.dps.keep (congrArg dpCount hb)
  · simpa [plainCount] using h.plain.keep (congrArg plainCount hb)

theorem freeNewDp (h : Owned (one .newDp d + X) w) : Owned X (w.freeBlock d) := by
  have hb := h.newDp_block
  have hdps : (w.freeBlock d).apDps = w.apDps := by
    simpa [Scan.apDps] using h.freeBlock_apDps hb
  have hcount := h.dps
  rw [one_add_self] at hcount
  refine h.of_freeBlock ?_ ?_ ?_
  · simpa [apCount] using h.aps.keep (congrArg apCount hb)
  · rw [hdps]
    simpa using hcount.release
  · simpa [plainCount] using h.plain.keep (congrArg plainCount hb)

/-- A new block. -/
theorem alloc {b : Block} (h : Owned X w) (hb : b.Unused) :
    Owned (one b.kind w.next + X) { w.setBlock w.next b with next := w.next + 1 } := by
  have hfree : w.blocks w.next = none := h.fresh w.next (Nat.le_refl _)
  have hdps : World.apDps { w.setBlock w.next b with next := w.next + 1 } = w.apDps := by
    have hrest : ∀ a ∈ Finset.range w.next,
        Scan.apDps ((w.setBlock w.next b).blocks a) = Scan.apDps (w.blocks a) := by
      intro a ha
      show Scan.apDps (Function.update w.blocks w.next (some b) a) = _
      rw [Function.update_of_ne (Nat.ne_of_lt (Finset.mem_range.mp ha))]
    have hlast : Scan.apDps ((w.setBlock w.next b).blocks w.next) = 0 := by
      show Scan.apDps (Function.update w.blocks w.next (some b) w.next) = 0
      rw [Function.update_self, hb.apDps_eq]
    exact (Finset.sum_range_succ _ _).trans
      (by rw [hlast, add_zero]; exact Finset.sum_congr rfl hrest)
  refine ⟨?_, ?_, ?_, ?_⟩
  · have hcomp := Function.comp_update apCount w.blocks w.next (some b)
    show Counted (apCount ∘ Function.update w.blocks w.next (some b)) _ _
    rw [hcomp]
    cases b with
    | ap n d =>
      cases hb
      simpa [apCount, Block.kind] using h.aps.alloc (congrArg apCount hfree)
    | _ => simpa [apCount, Block.kind] using h.aps.keep (congrArg apCount hfree)
  · have hcomp := Function.comp_update dpCount w.blocks w.next (some b)
    rw [hdps]
    show Counted (dpCount ∘ Function.update w.blocks w.next (some b)) _ _
    rw [hcomp]
    cases b with
    | dp n =>
      cases hb
      simpa [dpCount, Block.kind] using h.dps.alloc (congrArg dpCount hfree)
    | _ => simpa [dpCount, Block.kind] using h.dps.keep (congrArg dpCount hfree)
  · have hcomp := Function.comp_update plainCount w.blocks w.next (some b)
    show Counted (plainCount ∘ Function.update w.blocks w.next (some b)) _ _
    rw [hcomp]
    cases b with
    | plain => simpa [plainCount, Block.kind] using h.plain.make (congrArg plainCount hfree)
    | _ => simpa [plainCount, Block.kind] using h.plain.keep (congrArg plainCount hfree)
  · intro p hp
    show Function.update w.blocks w.next (some b) p = none
    rw [Function.update_of_ne (Nat.ne_of_gt hp)]
    exact h.fresh p (Nat.le_of_succ_le hp)

end Owned

end MiyakoLink.Scan
