import Mathlib.Algebra.Group.Nat.Defs
import Mathlib.Data.List.Basic
import Mathlib.Logic.Function.Iterate
import Mathlib.Tactic.Common

/-!
# Polling and sweeping

Two loops that drivers are made of. `poll` turns until something is read that leaves it, and
`sweep` works on one block after the other of a length of 32 bits that is counted down by `next`.
Neither has to end, so they get fuel and give `none` when it is used up.

* `poll_iff`: which turn leaves the loop.
* `sweep_stop`, `sweep_finish`, `sweep_running`: the three ways in which a sweep goes, and
  `sweep_cases`: there are no others.
* `wrapping_iterate`, `saturating_iterate`: the two usual ways to count down.
-/

namespace MiyakoLink.Lib

section

variable {β : Type*} {turn : Nat → Option β} {fuel : Nat} {b b' : β}

/-- The first turn that leaves the loop. -/
def poll (turn : Nat → Option β) (fuel : Nat) : Option β := (List.range fuel).findSome? turn

/-- The loop is left with `b`. -/
def Leaves (turn : Nat → Option β) (b : β) : Prop := ∃ i, turn i = some b ∧ ∀ j < i, turn j = none

theorem poll_succ (turn : Nat → Option β) (fuel : Nat) :
    poll turn (fuel + 1) = (poll turn fuel).or (turn fuel) := by
  unfold poll
  rw [List.range_succ, List.findSome?_append]
  congr 1
  cases h : turn fuel with
  | none => simp [h]
  | some b => simp [h]

theorem poll_eq_none : poll turn fuel = none ↔ ∀ j < fuel, turn j = none := by
  unfold poll
  rw [List.findSome?_eq_none_iff]
  constructor
  · intro h j hj
    exact h j (List.mem_range.mpr hj)
  · intro h j hj
    exact h j (List.mem_range.mp hj)

theorem poll_iff : poll turn fuel = some b ↔ ∃ i < fuel, turn i = some b ∧ ∀ j < i, turn j = none := by
  induction fuel with
  | zero =>
    constructor
    · intro h
      exact absurd h (by simp [poll])
    · rintro ⟨i, hi, -⟩
      exact absurd hi (Nat.not_lt_zero i)
  | succ fuel ih =>
    rw [poll_succ]
    cases hp : poll turn fuel with
    | some c =>
      rw [Option.some_or]
      rw [hp] at ih
      rw [ih]
      constructor
      · rintro ⟨i, hi, h⟩
        exact ⟨i, Nat.lt_succ_of_lt hi, h⟩
      · rintro ⟨i, hi, hturn, hbefore⟩
        rcases Nat.lt_succ_iff_lt_or_eq.mp hi with hi | rfl
        · exact ⟨i, hi, hturn, hbefore⟩
        · rw [poll_eq_none.mpr hbefore] at hp
          contradiction
    | none =>
      rw [Option.none_or]
      have hnone := poll_eq_none.mp hp
      constructor
      · intro h
        exact ⟨fuel, Nat.lt_succ_self fuel, h, hnone⟩
      · rintro ⟨i, hi, hturn, -⟩
        rcases Nat.lt_succ_iff_lt_or_eq.mp hi with hi | rfl
        · rw [hnone i hi] at hturn
          contradiction
        · exact hturn

theorem Leaves.of_poll (h : poll turn fuel = some b) : Leaves turn b := by
  obtain ⟨i, -, hi⟩ := poll_iff.mp h
  exact ⟨i, hi⟩

/-- Enough fuel gives the result. -/
theorem Leaves.poll (h : Leaves turn b) : ∃ n, ∀ fuel, n ≤ fuel → poll turn fuel = some b := by
  obtain ⟨i, hi⟩ := h
  exact ⟨i + 1, fun fuel hfuel => poll_iff.mpr ⟨i, hfuel, hi⟩⟩

theorem Leaves.unique (h : Leaves turn b) (h' : Leaves turn b') : b = b' := by
  obtain ⟨n, hn⟩ := h.poll
  obtain ⟨n', hn'⟩ := h'.poll
  have hb := hn (max n n') (Nat.le_max_left n n')
  rw [hn' (max n n') (Nat.le_max_right n n')] at hb
  exact (Option.some.inj hb).symm

/-- Enough fuel for all polls. -/
theorem polls_leave {turn : Nat → Nat → Option β} {n : Nat} (h : ∀ k < n, ∃ b, Leaves (turn k) b) :
    ∃ m, ∀ fuel, m ≤ fuel → ∀ k < n, poll (turn k) fuel ≠ none := by
  induction n with
  | zero => exact ⟨0, fun _ _ k hk => absurd hk (Nat.not_lt_zero k)⟩
  | succ n ih =>
    obtain ⟨m, hm⟩ := ih fun k hk => h k (Nat.lt_succ_of_lt hk)
    obtain ⟨b, hb⟩ := h n (Nat.lt_succ_self n)
    obtain ⟨m', hm'⟩ := hb.poll
    refine ⟨max m m', fun fuel hfuel k hk => ?_⟩
    rcases Nat.lt_succ_iff_lt_or_eq.mp hk with hk | rfl
    · exact hm fuel (by omega) k hk
    · rw [hm' fuel (by omega)]
      exact Option.some_ne_none b

end

/-! ## Sweeps -/

section

variable {σ ω : Type*}

/-- `while (len)`: the body leaves a log, and says whether the loop goes on, ends with an error or
has not come back; then the length is counted down. -/
def sweep (next : UInt32 → UInt32) (advance : σ → σ) (body : σ → List ω × Option Bool) :
    Nat → UInt32 → σ → List ω × Option Bool
  | 0, _, _ => ([], none)
  | fuel + 1, len, s =>
    if len = 0 then ([], some true)
    else
      let r := body s
      if r.2 = some true then
        let rest := sweep next advance body fuel (next len) (advance s)
        (r.1 ++ rest.1, rest.2)
      else r

/-- `do … while (len)`. -/
def sweepDo (next : UInt32 → UInt32) (advance : σ → σ) (body : σ → List ω × Option Bool)
    (fuel : Nat) (len : UInt32) (s : σ) : List ω × Option Bool :=
  let r := body s
  if r.2 = some true then
    let rest := sweep next advance body fuel (next len) (advance s)
    (r.1 ++ rest.1, rest.2)
  else r

variable {next : UInt32 → UInt32} {advance : σ → σ} {body : σ → List ω × Option Bool}
  {fuel : Nat} {len : UInt32} {s : σ}

theorem sweep_zero : sweep next advance body 0 len s = ([], none) := rfl

theorem sweep_len_zero (h : len = 0) :
    sweep next advance body (fuel + 1) len s = ([], some true) :=
  if_pos h

theorem sweepDo_eq (h : len ≠ 0) :
    sweepDo next advance body fuel len s = sweep next advance body (fuel + 1) len s :=
  (if_neg h).symm

/-- The bodies before the `n`th have gone well, and the length has not been used up in front of
any of them. -/
structure Passed (next : UInt32 → UInt32) (advance : σ → σ) (body : σ → List ω × Option Bool)
    (len : UInt32) (s : σ) (n : Nat) : Prop where
  live : ∀ j < n, next^[j] len ≠ 0
  well : ∀ j < n, (body (advance^[j] s)).2 = some true

/-- What the first `n` bodies leave. -/
def logs (advance : σ → σ) (body : σ → List ω × Option Bool) (s : σ) (n : Nat) : List ω :=
  (List.range n).flatMap fun j => (body (advance^[j] s)).1

theorem logs_succ (n : Nat) :
    logs advance body s (n + 1) = (body s).1 ++ logs advance body (advance s) n := by
  unfold logs
  rw [List.range_succ_eq_map, List.flatMap_cons, List.flatMap_map]
  rfl

theorem Passed.zero : Passed next advance body len s 0 where
  live _ h := absurd h (Nat.not_lt_zero _)
  well _ h := absurd h (Nat.not_lt_zero _)

theorem Passed.tail {n : Nat} (h : Passed next advance body len s (n + 1)) :
    Passed next advance body (next len) (advance s) n where
  live j hj := h.live (j + 1) (Nat.succ_lt_succ hj)
  well j hj := h.well (j + 1) (Nat.succ_lt_succ hj)

theorem Passed.step {n : Nat} (h : Passed next advance body len s n)
    (hlive : next^[n] len ≠ 0) (hwell : (body (advance^[n] s)).2 = some true) :
    Passed next advance body len s (n + 1) := by
  constructor
  · intro j hj
    rcases Nat.lt_succ_iff_lt_or_eq.mp hj with hj | rfl
    · exact h.live j hj
    · exact hlive
  · intro j hj
    rcases Nat.lt_succ_iff_lt_or_eq.mp hj with hj | rfl
    · exact h.well j hj
    · exact hwell

/-- The bodies that have passed, and the rest of the sweep. -/
theorem sweep_passed {n : Nat} (h : Passed next advance body len s n) :
    sweep next advance body (n + fuel) len s =
      let rest := sweep next advance body fuel (next^[n] len) (advance^[n] s)
      (logs advance body s n ++ rest.1, rest.2) := by
  induction n generalizing len s with
  | zero => rw [Nat.zero_add]; rfl
  | succ n ih =>
    have hlive : len ≠ 0 := h.live 0 (Nat.succ_pos n)
    have hwell : (body s).2 = some true := h.well 0 (Nat.succ_pos n)
    rw [Nat.add_right_comm, ← sweepDo_eq hlive, sweepDo]
    dsimp only
    rw [if_pos hwell, ih h.tail, logs_succ]
    simp only [List.append_assoc, Function.iterate_succ_apply]

/-- The sweep ends in a body. -/
theorem sweep_stop {n : Nat} (h : Passed next advance body len s n) (hlive : next^[n] len ≠ 0)
    (hend : (body (advance^[n] s)).2 ≠ some true) (hfuel : n < fuel) :
    sweep next advance body fuel len s =
      (logs advance body s n ++ (body (advance^[n] s)).1, (body (advance^[n] s)).2) := by
  obtain ⟨k, rfl⟩ := Nat.exists_eq_add_of_lt hfuel
  rw [Nat.add_assoc, sweep_passed h, ← sweepDo_eq hlive, sweepDo]
  dsimp only
  rw [if_neg hend]

/-- The sweep gets to the end. -/
theorem sweep_finish {n : Nat} (h : Passed next advance body len s n) (hzero : next^[n] len = 0)
    (hfuel : n < fuel) :
    sweep next advance body fuel len s = (logs advance body s n, some true) := by
  obtain ⟨k, rfl⟩ := Nat.exists_eq_add_of_lt hfuel
  rw [Nat.add_assoc, sweep_passed h, sweep_len_zero hzero]
  dsimp only
  rw [List.append_nil]

/-- The fuel is used up. -/
theorem sweep_running (h : Passed next advance body len s fuel) :
    sweep next advance body fuel len s = (logs advance body s fuel, none) := by
  have hall : sweep next advance body (fuel + 0) len s = _ := sweep_passed h
  rw [Nat.add_zero] at hall
  rw [hall, sweep_zero]
  dsimp only
  rw [List.append_nil]

theorem sweep_cases (next : UInt32 → UInt32) (advance : σ → σ)
    (body : σ → List ω × Option Bool) (fuel : Nat) (len : UInt32) (s : σ) :
    (∃ n < fuel, Passed next advance body len s n ∧ next^[n] len ≠ 0 ∧
      (body (advance^[n] s)).2 ≠ some true) ∨
    (∃ n < fuel, Passed next advance body len s n ∧ next^[n] len = 0) ∨
    Passed next advance body len s fuel := by
  induction fuel with
  | zero => exact Or.inr (Or.inr Passed.zero)
  | succ fuel ih =>
    rcases ih with ⟨n, hn, h⟩ | ⟨n, hn, h⟩ | h
    · exact Or.inl ⟨n, Nat.lt_succ_of_lt hn, h⟩
    · exact Or.inr (Or.inl ⟨n, Nat.lt_succ_of_lt hn, h⟩)
    · by_cases hzero : next^[fuel] len = 0
      · exact Or.inr (Or.inl ⟨fuel, Nat.lt_succ_self fuel, h, hzero⟩)
      · by_cases hwell : (body (advance^[fuel] s)).2 = some true
        · exact Or.inr (Or.inr (h.step hzero hwell))
        · exact Or.inl ⟨fuel, Nat.lt_succ_self fuel, h, hzero, hwell⟩

/-- What is left behind by a sweep is the log of its first bodies. -/
theorem sweep_log (next : UInt32 → UInt32) (advance : σ → σ) (body : σ → List ω × Option Bool)
    (fuel : Nat) (len : UInt32) (s : σ) :
    ∃ n, (sweep next advance body fuel len s).1 = logs advance body s n ∧
      ∀ j < n, next^[j] len ≠ 0 := by
  rcases sweep_cases next advance body fuel len s with
    ⟨n, hn, hp, hlive, hend⟩ | ⟨n, hn, hp, hzero⟩ | hp
  · refine ⟨n + 1, ?_, fun j hj => ?_⟩
    · rw [sweep_stop hp hlive hend hn]
      unfold logs
      rw [List.range_succ, List.flatMap_append, List.flatMap_singleton]
    · rcases Nat.lt_succ_iff_lt_or_eq.mp hj with hj | rfl
      · exact hp.live j hj
      · exact hlive
  · exact ⟨n, by rw [sweep_finish hp hzero hn], hp.live⟩
  · exact ⟨fuel, by rw [sweep_running hp], hp.live⟩

/-- A sweep that has come to its end. -/
theorem sweep_done (h : (sweep next advance body fuel len s).2 = some true) :
    ∃ n, Passed next advance body len s n ∧ next^[n] len = 0 ∧
      (sweep next advance body fuel len s).1 = logs advance body s n := by
  rcases sweep_cases next advance body fuel len s with
    ⟨n, hn, hp, hlive, hend⟩ | ⟨n, hn, hp, hzero⟩ | hp
  · rw [sweep_stop hp hlive hend hn] at h
    exact absurd h hend
  · exact ⟨n, hp, hzero, by rw [sweep_finish hp hzero hn]⟩
  · rw [sweep_running hp] at h
    contradiction

/-- A sweep only ends with an error if a body does. -/
theorem sweep_ne_false (h : ∀ s, (body s).2 ≠ some false) :
    (sweep next advance body fuel len s).2 ≠ some false := by
  rcases sweep_cases next advance body fuel len s with
    ⟨n, hn, hp, hlive, hend⟩ | ⟨n, hn, hp, hzero⟩ | hp
  · rw [sweep_stop hp hlive hend hn]
    exact h _
  · rw [sweep_finish hp hzero hn]
    exact fun heq => Bool.noConfusion (Option.some.inj heq)
  · rw [sweep_running hp]
    exact nofun

end

/-! ## Counting down -/

/-- `len -= size`. -/
def wrapping (size len : UInt32) : UInt32 := len - size

/-- `if (len > size) len -= size; else len = 0`. -/
def saturating (size len : UInt32) : UInt32 := if len > size then len - size else 0

/-- `len--` for a length of 16 bits. -/
def counting (len : UInt32) : UInt32 := (len.toUInt16 - 1).toUInt32

section

variable {size len : UInt32}

theorem sub_toNat_of_le {a b : UInt32} (h : b.toNat ≤ a.toNat) :
    (a - b).toNat = a.toNat - b.toNat :=
  UInt32.toNat_sub_of_le _ _ (UInt32.le_iff_toNat_le.mpr h)

theorem wrapping_iterate {n : Nat} (h : n * size.toNat ≤ len.toNat) :
    ((wrapping size)^[n] len).toNat = len.toNat - n * size.toNat := by
  induction n with
  | zero => rw [Nat.zero_mul, Nat.sub_zero]; rfl
  | succ n ih =>
    rw [Nat.succ_mul] at h
    have hn := ih (by omega)
    rw [Function.iterate_succ_apply', wrapping, sub_toNat_of_le (by omega), hn, Nat.succ_mul]
    omega

/-- What is no multiple of the size is never used up. -/
theorem wrapping_ne_zero (hsize : size.toNat ∣ 2 ^ 32) (h : ¬ size.toNat ∣ len.toNat) (n : Nat) :
    (wrapping size)^[n] len ≠ 0 := by
  have hmod (n : Nat) : ((wrapping size)^[n] len).toNat % size.toNat = len.toNat % size.toNat := by
    induction n with
    | zero => rfl
    | succ n ih =>
      obtain ⟨k, hk⟩ := hsize
      have hlt := size.toNat_lt
      rw [Function.iterate_succ_apply', wrapping, UInt32.toNat_sub, Nat.mod_mod_of_dvd _ ⟨k, hk⟩,
        ← ih]
      have hsplit : 2 ^ 32 - size.toNat + ((wrapping size)^[n] len).toNat =
          ((wrapping size)^[n] len).toNat + size.toNat * (k - 1) := by
        rw [hk, Nat.mul_sub_one, Nat.add_comm]
      rw [hsplit, Nat.add_mul_mod_self_left]
  intro hzero
  have hn := hmod n
  rw [hzero, UInt32.toNat_zero, Nat.zero_mod] at hn
  exact h (Nat.dvd_of_mod_eq_zero hn.symm)

theorem saturating_toNat : (saturating size len).toNat = len.toNat - size.toNat := by
  unfold saturating
  split
  · next hgt =>
    rw [gt_iff_lt, UInt32.lt_iff_toNat_lt] at hgt
    exact sub_toNat_of_le (Nat.le_of_lt hgt)
  · next hle =>
    rw [gt_iff_lt, UInt32.lt_iff_toNat_lt] at hle
    rw [UInt32.toNat_zero]
    omega

theorem saturating_iterate (n : Nat) :
    ((saturating size)^[n] len).toNat = len.toNat - n * size.toNat := by
  induction n with
  | zero => rw [Nat.zero_mul, Nat.sub_zero]; rfl
  | succ n ih =>
    rw [Function.iterate_succ_apply', saturating_toNat, ih, Nat.succ_mul]
    omega

theorem counting_iterate {n : Nat} (hlen : len.toNat < 2 ^ 16) (h : n ≤ len.toNat) :
    (counting^[n] len).toNat = len.toNat - n := by
  induction n with
  | zero => rfl
  | succ n ih =>
    have hn := ih (by omega)
    rw [Function.iterate_succ_apply', counting, UInt16.toNat_toUInt32, UInt16.toNat_sub,
      UInt32.toNat_toUInt16, hn]
    show (2 ^ 16 - 1 + (len.toNat - n) % 2 ^ 16) % 2 ^ 16 = len.toNat - (n + 1)
    omega

theorem ne_zero_of_toNat {a : UInt32} (h : a.toNat ≠ 0) : a ≠ 0 := by
  rintro rfl
  exact h UInt32.toNat_zero

end

end MiyakoLink.Lib
