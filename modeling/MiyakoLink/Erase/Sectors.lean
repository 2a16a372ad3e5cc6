import Mathlib.Data.List.Nodup
import MiyakoLink.Flash.Region
import MiyakoLink.Lib.Sweep

/-!
# Erasing a range sector by sector

What an erase function of a driver is for, and when a loop that counts its length down by the
sector size, with wrap-around, does it.

* `wrapping_iff`: it does if the controller refuses a sector of the range, or takes all of them and
  the length is a multiple of the sector size.
-/

namespace MiyakoLink.Erase

open Flash Lib

/-- A range inside of a region that is not empty and starts on a sector boundary. -/
structure Span (start length size : UInt32) where
  addr : UInt32
  len : UInt32
  pos : 0 < len.toNat
  low : start.toNat ≤ addr.toNat
  high : addr.toNat + len.toNat ≤ start.toNat + length.toNat
  aligned : (addr.toNat - start.toNat) % size.toNat = 0

/-- The number of the sector of an address. -/
def sectorOf (start size a : UInt32) : Nat := (a - start).toNat / size.toNat

namespace Span

variable {start length size : UInt32} (r : Span start length size)

def first : Nat := (r.addr.toNat - start.toNat) / size.toNat

/-- How many sectors the range intersects. -/
def count : Nat := (r.len.toNat + size.toNat - 1) / size.toNat

/-- The range intersects a sector. -/
def Meets (k : Nat) : Prop :=
  k * size.toNat < r.addr.toNat - start.toNat + r.len.toNat ∧
    r.addr.toNat - start.toNat < (k + 1) * size.toNat

/-- The address of the `j`th sector of the range. -/
def sector (j : Nat) : UInt32 := r.addr + UInt32.ofNat j * size

end Span

/-- An erase function with its fuel, as the sectors it erases and its result: it ends, it has
erased every sector of the range once if the result is 0, and it never erases another one. -/
structure ErasesWell {start length size : UInt32} (r : Span start length size)
    (run : Nat → List Nat × Option Ret) : Prop where
  ends : ∃ fuel, (run fuel).2 ≠ none
  complete : ∀ fuel, (run fuel).2 = some 0 → ∀ k, r.Meets k → (run fuel).1.count k = 1
  inside : ∀ fuel, ∀ k ∈ (run fuel).1, r.Meets k

namespace Span

variable {start length size : UInt32} {r : Span start length size}

theorem addr_eq :
    r.addr.toNat = start.toNat + r.first * size.toNat := by
  have haligned := Nat.div_mul_cancel (Nat.dvd_of_mod_eq_zero r.aligned)
  have hlow := r.low
  unfold first
  omega

theorem lt_count_iff (hsize : 0 < size.toNat) {j : Nat} :
    j < r.count ↔ j * size.toNat < r.len.toNat := by
  have hpos := r.pos
  unfold count
  rw [← Nat.succ_le_iff, Nat.le_div_iff_mul_le hsize, Nat.succ_mul]
  omega

/-- The sectors of the range hold it. -/
theorem len_le (r : Span start length size) (hsize : 0 < size.toNat) : r.len.toNat ≤ r.count * size.toNat := by
  by_contra hlt
  exact Nat.lt_irrefl _ ((lt_count_iff hsize).mpr (Nat.lt_of_not_le hlt))

theorem count_pos (r : Span start length size) (hsize : 0 < size.toNat) : 0 < r.count := by
  rw [lt_count_iff hsize, Nat.zero_mul]
  exact r.pos

/-- The last sector begins in the range. -/
theorem count_mul_lt (r : Span start length size) (hsize : 0 < size.toNat) :
    r.count * size.toNat < r.len.toNat + size.toNat := by
  have hpos := r.count_pos hsize
  have hlast := (lt_count_iff (r := r) hsize (j := r.count - 1)).mp (by omega)
  rw [Nat.sub_one_mul] at hlast
  omega

theorem count_mul_of_dvd (r : Span start length size) (hsize : 0 < size.toNat) (h : size.toNat ∣ r.len.toNat) :
    r.count * size.toNat = r.len.toNat := by
  obtain ⟨c, hc⟩ := h
  have hle := r.len_le hsize
  have hlt := r.count_mul_lt hsize
  rw [hc, Nat.mul_comm size.toNat] at hle hlt ⊢
  rw [← Nat.succ_mul] at hlt
  rw [Nat.le_antisymm (Nat.le_of_lt_succ (Nat.lt_of_mul_lt_mul_right hlt))
    (Nat.le_of_mul_le_mul_right hle hsize)]

theorem meets_iff (hsize : 0 < size.toNat) {k : Nat} :
    r.Meets k ↔ r.first ≤ k ∧ k < r.first + r.count := by
  have haddr := r.addr_eq
  have hoff : r.addr.toNat - start.toNat = r.first * size.toNat := by omega
  unfold Meets
  rw [hoff]
  constructor
  · rintro ⟨hlow, hhigh⟩
    have hfirst := Nat.lt_succ_iff.mp (Nat.lt_of_mul_lt_mul_right hhigh)
    obtain ⟨j, rfl⟩ := Nat.exists_eq_add_of_le hfirst
    rw [Nat.add_mul] at hlow
    have hj : j < r.count := (lt_count_iff hsize).mpr (by omega)
    exact ⟨hfirst, by omega⟩
  · rintro ⟨hfirst, hlast⟩
    obtain ⟨j, rfl⟩ := Nat.exists_eq_add_of_le hfirst
    have hj := (lt_count_iff hsize).mp (show j < r.count by omega)
    rw [Nat.add_mul, Nat.succ_mul, Nat.add_mul]
    constructor
    · omega
    · omega

theorem sector_toNat {j : Nat} (h : r.addr.toNat + j * size.toNat < 2 ^ 32) :
    (r.sector j).toNat = r.addr.toNat + j * size.toNat := by
  have hmul : (UInt32.ofNat j * size).toNat = j * size.toNat := by
    rw [UInt32.toNat_mul, UInt32.toNat_ofNat', Nat.mod_mul_mod]
    exact Nat.mod_eq_of_lt (by omega)
  rw [sector, UInt32.toNat_add, hmul]
  exact Nat.mod_eq_of_lt h

theorem sectorOf_sector (hsize : 0 < size.toNat) {j : Nat}
    (h : r.addr.toNat + j * size.toNat < 2 ^ 32) :
    sectorOf start size (r.sector j) = r.first + j := by
  have haddr := r.addr_eq
  have hnat := sector_toNat h
  have hsub : (r.sector j - start).toNat = (r.first + j) * size.toNat := by
    rw [sub_toNat_of_le (by omega), hnat, haddr, Nat.add_mul]
    omega
  rw [sectorOf, hsub, Nat.mul_div_cancel _ hsize]

end Span

/-! ## Commands -/

/-- The next sector, and the number of the next command. -/
def advance (size : UInt32) (s : Nat × UInt32) : Nat × UInt32 := (s.1 + 1, s.2 + size)

theorem advance_iterate (size : UInt32) (j k : Nat) (a : UInt32) :
    (advance size)^[j] (k, a) = (k + j, a + UInt32.ofNat j * size) := by
  induction j with
  | zero =>
    show (k, a) = (k + 0, a + 0 * size)
    rw [UInt32.zero_mul, UInt32.add_zero]
    rfl
  | succ j ih =>
    rw [Function.iterate_succ_apply', ih, advance, UInt32.ofNat_add, UInt32.add_mul,
      UInt32.add_assoc, ← Nat.add_assoc]
    show _ = (_, _ + (_ + 1 * size))
    rw [UInt32.one_mul]

/-- A command erases a sector below `bound` when it has come back with a result. `out` is what
comes of a command, by its number. -/
structure Commands {ω : Type} (bound : Nat) (hit : ω → Option UInt32)
    (body : Nat → Nat × UInt32 → List ω × Option Bool) (out : Nat → Bool → Prop) : Prop where
  only : ∀ fuel k a, a.toNat < bound → ∀ x ∈ (body fuel (k, a)).1.filterMap hit, x = a
  once : ∀ fuel k a b, a.toNat < bound → (body fuel (k, a)).2 = some b →
    (body fuel (k, a)).1.filterMap hit = [a]
  sound : ∀ fuel k a b, (body fuel (k, a)).2 = some b → out k b
  enough : ∀ k b, out k b → ∃ n, ∀ fuel, n ≤ fuel → ∀ a, (body fuel (k, a)).2 = some b

theorem Commands.unique {ω : Type} {bound : Nat} {hit : ω → Option UInt32}
    {body : Nat → Nat × UInt32 → List ω × Option Bool} {out : Nat → Bool → Prop}
    (h : Commands bound hit body out) {k : Nat} (htrue : out k true) : ¬ out k false := by
  intro hfalse
  obtain ⟨n, hn⟩ := h.enough k true htrue
  obtain ⟨n', hn'⟩ := h.enough k false hfalse
  have hboth := hn (max n n') (Nat.le_max_left n n') 0
  rw [hn' (max n n') (Nat.le_max_right n n') 0] at hboth
  contradiction

/-- All commands before the `n`th come back with enough fuel. -/
theorem Commands.enough_all {ω : Type} {bound : Nat} {hit : ω → Option UInt32}
    {body : Nat → Nat × UInt32 → List ω × Option Bool} {out : Nat → Bool → Prop}
    (h : Commands bound hit body out) {n : Nat} (hout : ∀ j < n, out j true) :
    ∃ m, ∀ fuel, m ≤ fuel → ∀ j < n, ∀ a, (body fuel (j, a)).2 = some true := by
  induction n with
  | zero => exact ⟨0, fun _ _ j hj => absurd hj (Nat.not_lt_zero j)⟩
  | succ n ih =>
    obtain ⟨m, hm⟩ := ih fun j hj => hout j (Nat.lt_succ_of_lt hj)
    obtain ⟨m', hm'⟩ := h.enough n true (hout n (Nat.lt_succ_self n))
    refine ⟨max m m', fun fuel hfuel j hj a => ?_⟩
    rcases Nat.lt_succ_iff_lt_or_eq.mp hj with hj | rfl
    · exact hm fuel (Nat.le_trans (Nat.le_max_left m m') hfuel) j hj a
    · exact hm' fuel (Nat.le_trans (Nat.le_max_right m m') hfuel) a

/-! ## Sweeps of commands -/

section

variable {ω : Type} {start length size : UInt32} {bound : Nat} {hit : ω → Option UInt32}
  {body : Nat → Nat × UInt32 → List ω × Option Bool} {out : Nat → Bool → Prop}
  {next : UInt32 → UInt32} {r : Span start length size} {fuel n : Nat}

/-- The sweep over a range. -/
abbrev sweepOver (next : UInt32 → UInt32) (body : Nat → Nat × UInt32 → List ω × Option Bool)
    (r : Span start length size) (fuel : Nat) : List ω × Option Bool :=
  sweep next (advance size) (body fuel) fuel r.len (0, r.addr)

/-- An erase function as its sectors and its result; `e` stands for an error. -/
def runOf (hit : ω → Option UInt32) (e : Ret) (next : UInt32 → UInt32)
    (body : Nat → Nat × UInt32 → List ω × Option Bool) (r : Span start length size) (fuel : Nat) :
    List Nat × Option Ret :=
  (((sweepOver next body r fuel).1.filterMap hit).map (sectorOf start size),
    (sweepOver next body r fuel).2.map fun ok => if ok then 0 else e)

theorem advance_sector (j : Nat) : (advance size)^[j] (0, r.addr) = (j, r.sector j) := by
  rw [advance_iterate, Nat.zero_add]
  rfl

/-- The first bodies have gone well. -/
abbrev PassedTo (next : UInt32 → UInt32) (body : Nat → Nat × UInt32 → List ω × Option Bool)
    (r : Span start length size) (fuel n : Nat) : Prop :=
  Passed next (advance size) (body fuel) r.len (0, r.addr) n

theorem passed_out (h : Commands bound hit body out) (hp : PassedTo next body r fuel n) :
    ∀ j < n, out j true := by
  intro j hj
  have hwell := hp.well j hj
  rw [advance_sector] at hwell
  exact h.sound _ _ _ _ hwell

/-- What the bodies that have gone well have erased. -/
theorem passed_hits (h : Commands bound hit body out) (hp : PassedTo next body r fuel n)
    (hbound : ∀ j < n, (r.sector j).toNat < bound) :
    (logs (advance size) (body fuel) (0, r.addr) n).filterMap hit =
      (List.range n).map r.sector := by
  unfold logs
  induction n with
  | zero => rfl
  | succ n ih =>
    have hwell := hp.well n (Nat.lt_succ_self n)
    rw [advance_sector] at hwell
    have hone := h.once fuel n (r.sector n) true (hbound n (Nat.lt_succ_self n)) hwell
    have hlast : ((advance size)^[n] (0, r.addr)) = (n, r.sector n) := advance_sector n
    rw [List.range_succ, List.flatMap_append, List.filterMap_append, List.map_append,
      ih ⟨fun j hj => hp.live j (Nat.lt_succ_of_lt hj), fun j hj => hp.well j (Nat.lt_succ_of_lt hj)⟩
        fun j hj => hbound j (Nat.lt_succ_of_lt hj),
      List.flatMap_singleton, hlast, hone]
    rfl

/-- The sectors of the first addresses. -/
theorem sectors_range (hsize : 0 < size.toNat)
    (htop : ∀ j < n, r.addr.toNat + j * size.toNat < 2 ^ 32) :
    ((List.range n).map r.sector).map (sectorOf start size) =
      (List.range n).map fun j => r.first + j := by
  rw [List.map_map]
  apply List.map_congr_left
  intro j hj
  exact Span.sectorOf_sector hsize (htop j (List.mem_range.mp hj))

/-- The sectors of the range are those of its addresses, each once. -/
theorem count_sectors (hsize : 0 < size.toNat) {k : Nat} (hk : r.Meets k) :
    ((List.range r.count).map fun j => r.first + j).count k = 1 := by
  obtain ⟨hfirst, hlast⟩ := (Span.meets_iff hsize).mp hk
  have hnodup : ((List.range r.count).map fun j => r.first + j).Nodup :=
    List.Nodup.map (fun a b h => Nat.add_left_cancel h) List.nodup_range
  apply List.count_eq_one_of_mem hnodup
  exact List.mem_map.mpr ⟨k - r.first, List.mem_range.mpr (by omega), by omega⟩

variable {e : Ret}

/-- A sweep erases what the commands it gets to stand for. -/
theorem run_inside {m : Nat} (h : Commands bound hit body out) (hsize : 0 < size.toNat)
    (hbound : bound ≤ 2 ^ 32)
    (hm : ∀ j, (∀ i ≤ j, next^[i] r.len ≠ 0) → (∀ i < j, out i true) → j < m)
    (htop : ∀ j < m, r.addr.toNat + j * size.toNat < bound) :
    ∀ x ∈ (runOf hit e next body r fuel).1, ∃ j < m, x = r.first + j := by
  have hsector (j : Nat) (hj : j < m) : (r.sector j).toNat < bound := by
    have hlt := htop j hj
    rw [Span.sector_toNat (by omega)]
    exact hlt
  have hnumber (j : Nat) (hj : j < m) : sectorOf start size (r.sector j) = r.first + j := by
    have hlt := htop j hj
    exact Span.sectorOf_sector hsize (by omega)
  have hpassed {n : Nat} (hp : PassedTo next body r fuel n) : ∀ j < n, j < m :=
    fun j hj => hm j (fun i hi => hp.live i (Nat.lt_of_le_of_lt hi hj))
      fun i hi => passed_out h hp i (Nat.lt_trans hi hj)
  -- The sectors of bodies that have gone well.
  have hwell {n : Nat} (hp : PassedTo next body r fuel n) {a : UInt32}
      (ha : a ∈ (logs (advance size) (body fuel) (0, r.addr) n).filterMap hit) :
      ∃ j < m, sectorOf start size a = r.first + j := by
    rw [passed_hits h hp fun j hj => hsector j (hpassed hp j hj)] at ha
    obtain ⟨j, hj, rfl⟩ := List.mem_map.mp ha
    have hj := hpassed hp j (List.mem_range.mp hj)
    exact ⟨j, hj, hnumber j hj⟩
  intro x hx
  obtain ⟨a, ha, rfl⟩ := List.mem_map.mp hx
  unfold sweepOver at ha
  rcases sweep_cases next (advance size) (body fuel) fuel r.len (0, r.addr) with
    ⟨n, hn, hp, hlive, hend⟩ | ⟨n, hn, hp, hzero⟩ | hp
  · rw [sweep_stop hp hlive hend hn, List.filterMap_append] at ha
    rcases List.mem_append.mp ha with ha | ha
    · exact hwell hp ha
    · have hall : ∀ i ≤ n, next^[i] r.len ≠ 0 := by
        intro i hi
        rcases Nat.lt_or_eq_of_le hi with hi | rfl
        · exact hp.live i hi
        · exact hlive
      have hnm := hm n hall (passed_out h hp)
      rw [advance_sector] at ha
      rw [h.only fuel n (r.sector n) (hsector n hnm) a ha]
      exact ⟨n, hnm, hnumber n hnm⟩
  · rw [sweep_finish hp hzero hn] at ha
    exact hwell hp ha
  · rw [sweep_running hp] at ha
    exact hwell hp ha

/-- What is known when a sweep has come back. -/
theorem run_back (h : Commands bound hit body out)
    (hback : (runOf hit e next body r fuel).2 ≠ none) :
    ∃ n, PassedTo next body r fuel n ∧
      ((next^[n] r.len ≠ 0 ∧ (body fuel (n, r.sector n)).2 = some false ∧ out n false ∧
          sweepOver next body r fuel = (logs (advance size) (body fuel) (0, r.addr) n ++
            (body fuel (n, r.sector n)).1, some false)) ∨
        (next^[n] r.len = 0 ∧
          sweepOver next body r fuel =
            (logs (advance size) (body fuel) (0, r.addr) n, some true))) := by
  unfold runOf at hback
  unfold sweepOver at hback ⊢
  rcases sweep_cases next (advance size) (body fuel) fuel r.len (0, r.addr) with
    ⟨n, hn, hp, hlive, hend⟩ | ⟨n, hn, hp, hzero⟩ | hp
  · rw [sweep_stop hp hlive hend hn] at hback ⊢
    rw [advance_sector] at hback hend ⊢
    cases hbody : (body fuel (n, r.sector n)).2 with
    | none =>
      rw [hbody] at hback
      exact absurd rfl hback
    | some ok =>
      cases ok with
      | true => exact absurd hbody hend
      | false => exact ⟨n, hp, Or.inl ⟨hlive, hbody, h.sound _ _ _ _ hbody, rfl⟩⟩
  · rw [sweep_finish hp hzero hn]
    exact ⟨n, hp, Or.inr ⟨hzero, rfl⟩⟩
  · rw [sweep_running hp] at hback
    exact absurd rfl hback

/-- A command that is refused ends the sweep. -/
theorem run_refused (h : Commands bound hit body out) (hout : ∀ j < n, out j true)
    (hfalse : out n false) (hlive : ∀ j ≤ n, next^[j] r.len ≠ 0) :
    ∃ fuel, (runOf hit e next body r fuel).2 = some e := by
  obtain ⟨m, hm⟩ := h.enough_all hout
  obtain ⟨m', hm'⟩ := h.enough n false hfalse
  refine ⟨max (max m m') (n + 1), ?_⟩
  have hbody := hm' (max (max m m') (n + 1)) (by omega) (r.sector n)
  have hp : PassedTo next body r (max (max m m') (n + 1)) n := by
    constructor
    · intro j hj
      exact hlive j (Nat.le_of_lt hj)
    · intro j hj
      rw [advance_sector]
      exact hm _ (by omega) j hj _
  have hend : (body (max (max m m') (n + 1)) ((advance size)^[n] (0, r.addr))).2 ≠ some true := by
    rw [advance_sector, hbody]
    decide
  unfold runOf sweepOver
  rw [sweep_stop hp (hlive n (Nat.le_refl n)) hend (by omega), advance_sector, hbody]
  rfl

/-- A sweep whose commands are all taken comes to its end. -/
theorem run_taken (h : Commands bound hit body out) (hout : ∀ j < n, out j true)
    (hlive : ∀ j < n, next^[j] r.len ≠ 0) (hzero : next^[n] r.len = 0) :
    ∃ fuel, (runOf hit e next body r fuel).2 = some 0 := by
  obtain ⟨m, hm⟩ := h.enough_all hout
  refine ⟨max m (n + 1), ?_⟩
  have hp : PassedTo next body r (max m (n + 1)) n := by
    constructor
    · exact hlive
    · intro j hj
      rw [advance_sector]
      exact hm _ (by omega) j hj _
  unfold runOf sweepOver
  rw [sweep_finish hp hzero (by omega)]
  rfl

/-- A range whose sectors are below `bound`, with those behind it that a sweep gets to first. -/
structure Below (bound : Nat) (start length size : UInt32) : Prop where
  pos : 0 < size.toNat
  top : start.toNat + length.toNat + size.toNat ≤ bound
  le : bound ≤ 2 ^ 32

theorem Below.addr_lt (hb : Below bound start length size) {j : Nat} (hj : j ≤ r.count) :
    r.addr.toNat + j * size.toNat < bound := by
  have hhigh := r.high
  have htop := hb.top
  have hlt := r.count_mul_lt hb.pos
  have hle := Nat.mul_le_mul_right size.toNat hj
  omega

theorem Below.meets (hb : Below bound start length size) {j : Nat} (hj : j < r.count) :
    r.Meets (r.first + j) :=
  (Span.meets_iff hb.pos).mpr ⟨by omega, by omega⟩

/-- Nothing behind the range is erased when a sector of it is refused. -/
theorem erasesWell_of_refused (h : Commands bound hit body out) (he : e ≠ 0)
    (hb : Below bound start length size) (hlive : ∀ j < r.count, next^[j] r.len ≠ 0)
    (hn : n < r.count) (hbefore : ∀ j < n, out j true) (hfalse : out n false) :
    ErasesWell r (runOf hit e next body r) := by
  constructor
  case ends =>
    obtain ⟨fuel, hfuel⟩ := run_refused (e := e) h hbefore hfalse
      fun j hj => hlive j (Nat.lt_of_le_of_lt hj hn)
    refine ⟨fuel, ?_⟩
    rw [hfuel]
    exact Option.some_ne_none e
  case complete =>
    intro fuel hzero
    exfalso
    have hback : (runOf hit e next body r fuel).2 ≠ none := by
      rw [hzero]
      exact Option.some_ne_none 0
    obtain ⟨m, hp, ⟨-, -, -, hsweep⟩ | ⟨hend, -⟩⟩ := run_back h hback
    · unfold runOf at hzero
      rw [hsweep] at hzero
      exact he (Option.some.inj hzero)
    · have hm : r.count ≤ m := by
        by_contra hlt
        exact hlive m (Nat.lt_of_not_le hlt) hend
      exact h.unique (passed_out h hp n (Nat.lt_of_lt_of_le hn hm)) hfalse
  case inside =>
    intro fuel x hx
    have hm : ∀ j, (∀ i ≤ j, next^[i] r.len ≠ 0) → (∀ i < j, out i true) → j < n + 1 := by
      intro j _ hj
      by_contra hlt
      exact h.unique (hj n (by omega)) hfalse
    obtain ⟨j, hj, rfl⟩ := run_inside h hb.pos hb.le hm (fun j hj => hb.addr_lt (by omega)) x hx
    exact hb.meets (by omega)

/-- All sectors of the range are erased when they are taken and the length is used up behind
them. -/
theorem erasesWell_of_taken (h : Commands bound hit body out) (he : e ≠ 0)
    (hb : Below bound start length size) (hlive : ∀ j < r.count, next^[j] r.len ≠ 0)
    (hzero : next^[r.count] r.len = 0) (hall : ∀ j < r.count, out j true) :
    ErasesWell r (runOf hit e next body r) := by
  have hle := hb.le
  constructor
  case ends =>
    obtain ⟨fuel, hfuel⟩ : ∃ fuel, (runOf hit e next body r fuel).2 = some 0 :=
      run_taken h hall hlive hzero
    refine ⟨fuel, ?_⟩
    rw [hfuel]
    exact Option.some_ne_none 0
  case complete =>
    intro fuel hback k hk
    have hsome : (runOf hit e next body r fuel).2 ≠ none := by
      rw [hback]
      exact Option.some_ne_none 0
    obtain ⟨n, hp, ⟨-, -, -, hsweep⟩ | ⟨hend, hsweep⟩⟩ := run_back h hsome
    · unfold runOf at hback
      rw [hsweep] at hback
      exact absurd (Option.some.inj hback) he
    · have hn : n = r.count := by
        apply Nat.le_antisymm
        · by_contra hlt
          exact hp.live r.count (Nat.lt_of_not_le hlt) hzero
        · by_contra hlt
          exact hlive n (Nat.lt_of_not_le hlt) hend
      subst hn
      have hsector (j : Nat) (hj : j < r.count) : (r.sector j).toNat < bound := by
        have hlt := hb.addr_lt (Nat.le_of_lt hj)
        rw [Span.sector_toNat (by omega)]
        exact hlt
      show (((sweepOver next body r fuel).1.filterMap hit).map (sectorOf start size)).count k = 1
      rw [hsweep, passed_hits h hp hsector, sectors_range hb.pos fun j hj => by
        have hlt := hb.addr_lt (Nat.le_of_lt hj)
        omega]
      exact count_sectors hb.pos hk
  case inside =>
    intro fuel x hx
    have hm : ∀ j, (∀ i ≤ j, next^[i] r.len ≠ 0) → (∀ i < j, out i true) → j < r.count := by
      intro j hj _
      by_contra hlt
      exact hj r.count (Nat.le_of_not_lt hlt) hzero
    obtain ⟨j, hj, rfl⟩ := run_inside h hb.pos hb.le hm (fun j hj => hb.addr_lt (by omega)) x hx
    exact hb.meets hj

/-! ## The length counted down with wrap-around -/

theorem wrapping_live (hsize : 0 < size.toNat) {j : Nat} (hj : j < r.count) :
    (wrapping size)^[j] r.len ≠ 0 := by
  have hlt := (Span.lt_count_iff hsize).mp hj
  apply ne_zero_of_toNat
  rw [wrapping_iterate (Nat.le_of_lt hlt)]
  omega

/-- The sector behind the range is erased by a sweep that has come to an end behind it. -/
theorem run_behind (h : Commands bound hit body out) (hb : Below bound start length size)
    (hp : PassedTo next body r fuel n) (hn : r.count ≤ n)
    (hbody : (body fuel (n, r.sector n)).2 = some false)
    (hsweep : sweepOver next body r fuel = (logs (advance size) (body fuel) (0, r.addr) n ++
      (body fuel (n, r.sector n)).1, some false)) :
    r.first + r.count ∈ (runOf hit e next body r fuel).1 := by
  have hlt := hb.addr_lt (r := r) (Nat.le_refl _)
  have hle := hb.le
  have hbelow : (r.sector r.count).toNat < bound := by
    rw [Span.sector_toNat (by omega)]
    exact hlt
  rw [← Span.sectorOf_sector hb.pos (by omega)]
  apply List.mem_map_of_mem
  rw [hsweep, List.filterMap_append]
  rcases Nat.lt_or_eq_of_le hn with hn | hn
  · apply List.mem_append_left
    have hwell := hp.well r.count hn
    rw [advance_sector] at hwell
    unfold logs
    rw [List.filterMap_flatMap]
    apply List.mem_flatMap.mpr
    refine ⟨r.count, List.mem_range.mpr hn, ?_⟩
    rw [advance_sector, h.once _ _ _ _ hbelow hwell]
    exact List.mem_singleton_self _
  · apply List.mem_append_right
    subst hn
    rw [h.once _ _ _ _ hbelow hbody]
    exact List.mem_singleton_self _

/-- A sweep that subtracts the sector size from the length does what it is for if a sector of the
range is refused, or all are taken and the length is a multiple of the sector size. -/
theorem wrapping_iff (h : Commands bound hit body out) (he : e ≠ 0)
    (hb : Below bound start length size) (hdvd : size.toNat ∣ 2 ^ 32) :
    ErasesWell r (runOf hit e (wrapping size) body r) ↔
      (∃ k < r.count, (∀ j < k, out j true) ∧ out k false) ∨
        size.toNat ∣ r.len.toNat ∧ ∀ j < r.count, out j true := by
  constructor
  · intro hwell
    obtain ⟨fuel, hback⟩ := hwell.ends
    obtain ⟨n, hp, ⟨hne, hbody, hfalse, hsweep⟩ | ⟨hzero, -⟩⟩ := run_back h hback
    · by_cases hn : n < r.count
      · exact Or.inl ⟨n, hn, passed_out h hp, hfalse⟩
      · have hmem := run_behind (e := e) h hb hp (Nat.le_of_not_lt hn) hbody hsweep
        have hin := (Span.meets_iff hb.pos).mp (hwell.inside fuel _ hmem)
        omega
    · have hn : r.count ≤ n := by
        by_contra hlt
        exact wrapping_live hb.pos (Nat.lt_of_not_le hlt) hzero
      refine Or.inr ⟨?_, fun j hj => passed_out h hp j (Nat.lt_of_lt_of_le hj hn)⟩
      by_contra hndvd
      exact wrapping_ne_zero hdvd hndvd n hzero
  · rintro (⟨k, hk, hbefore, hfalse⟩ | ⟨hmultiple, hall⟩)
    · exact erasesWell_of_refused h he hb (fun j => wrapping_live hb.pos) hk hbefore hfalse
    · have hexact := r.count_mul_of_dvd hb.pos hmultiple
      refine erasesWell_of_taken h he hb (fun j => wrapping_live hb.pos) ?_ hall
      apply UInt32.toNat_inj.mp
      rw [wrapping_iterate (Nat.le_of_eq hexact), hexact, Nat.sub_self]
      rfl

end

end MiyakoLink.Erase
