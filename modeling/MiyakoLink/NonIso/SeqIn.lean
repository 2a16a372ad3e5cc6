import Mathlib.Algebra.Group.Nat.Defs
import MiyakoLink.Lib.Pio

/-!
# The programs of `seq_in` and `seq_out`

What the state machine does with the words of one call. `input k` is the level of SWDIO after `k`
rising edges of the call.

* `run_data`, `run_plain`, `run_parity`: with fewer than 32 bits there is one word for the data,
  one for the parity bit if it is asked for, and one at the end.
* `run_data_full`, `run_data_full_extra`: the 32nd bit pushes the data by itself, and the `push`
  behind the loop adds a word without data.
* `run_out`: `seq_out` pushes one word.
-/

namespace MiyakoLink.SwdSeq

open Lib.Pio

/-- `target_interface_non_iso_swd_low_seq_in`. -/
def seqInProgram : List Line :=
  [⟨.pull, none⟩,
    ⟨.movOsr .x, none⟩,
    ⟨.jmp .notX 8, none⟩,
    ⟨.setPins false, none⟩,
    ⟨.out .x, none⟩,
    ⟨.out .pindirs, none⟩,
    ⟨.nop, some true⟩,
    ⟨.nop, some false⟩,
    -- `dir_not_changed`
    ⟨.pull, none⟩,
    ⟨.movOsr .x, none⟩,
    -- `data_loop`
    ⟨.inPins, some false⟩,
    ⟨.jmp .xDec 10, some true⟩,
    ⟨.push true, none⟩,
    ⟨.pull, none⟩,
    ⟨.out .y, none⟩,
    ⟨.jmp .notY 23, none⟩,
    ⟨.inPins, some false⟩,
    ⟨.nop, some true⟩,
    ⟨.push true, some false⟩,
    ⟨.nop, some true⟩,
    ⟨.nop, some false⟩,
    ⟨.setPins true, none⟩,
    ⟨.out .pindirs, none⟩,
    -- `read_done`
    ⟨.nop, some false⟩,
    ⟨.out .isr, none⟩,
    ⟨.push true, none⟩]

/-- `target_interface_non_iso_swd_low_seq_out`. -/
def seqOutProgram : List Line :=
  [⟨.pull, none⟩,
    ⟨.movOsr .x, none⟩,
    ⟨.jmp .notX 5, none⟩,
    ⟨.setPins true, some true⟩,
    ⟨.out .pindirs, some false⟩,
    -- `dir_not_changed`
    ⟨.pull, none⟩,
    ⟨.movOsr .x, none⟩,
    ⟨.pull, none⟩,
    -- `data_loop`
    ⟨.out .pins, some false⟩,
    ⟨.jmp .xDec 8, some true⟩,
    ⟨.pull, none⟩,
    ⟨.out .y, none⟩,
    ⟨.jmp .notY 16, none⟩,
    ⟨.out .pins, some false⟩,
    ⟨.nop, some true⟩,
    ⟨.nop, some false⟩,
    -- `write_done`
    ⟨.out .isr, some false⟩,
    ⟨.push true, none⟩]

/-- The configuration for SWD: automatic push at 32 bits. -/
def seqInSetup (input : Nat → Bool) : Setup := ⟨seqInProgram, true, input⟩

def seqOutSetup (input : Nat → Bool) : Setup := ⟨seqOutProgram, true, input⟩

/-- The machine waits for the words of a call. -/
def waiting (x y osr : Word) (tx : List Word) (set out dir : Bool) : Machine :=
  ⟨0, x, y, osr, 0, 0, tx, [], set, out, dir, false, []⟩

/-- The levels before `n` clocks, from the one with `start` edges behind it on. -/
def samples (input : Nat → Bool) (start n : Nat) : List Bool :=
  (List.range n).map fun k => input (start + k)

theorem samples_succ (input : Nat → Bool) (start n : Nat) :
    samples input start (n + 1) = input start :: samples input (start + 1) n := by
  unfold samples
  rw [List.range_succ_eq_map, List.map_cons, List.map_map]
  refine congrArg (_ :: ·) (List.map_congr_left fun k _ => ?_)
  show input (start + (k + 1)) = _
  rw [Nat.add_right_comm, Nat.add_assoc]

theorem samples_concat (input : Nat → Bool) (start n : Nat) :
    samples input start (n + 1) = samples input start n ++ [input (start + n)] := by
  unfold samples
  rw [List.range_succ, List.map_append, List.map_singleton]

theorem samples_length (input : Nat → Bool) (start n : Nat) :
    (samples input start n).length = n := by
  rw [samples, List.length_map, List.length_range]

variable {input : Nat → Bool} {x y osr isr c f : Word} {n : Nat} {tx : List Word}
  {set out dir clock : Bool} {edges : List (Bool × Bool)}

/-! ## The bits of `seq_in` -/

/-- The direction stays, or turns with one clock. -/
theorem run_turn (input : Nat → Bool) (x y osr c f : Word) (set out dir turn : Bool) :
    ∃ a set' dir' edges', a ≤ 10 ∧ edges'.length = turn.toNat ∧
    run (seqInSetup input) a (waiting x y osr [bit turn, c, f] set out dir) =
      some ⟨10, c, y, c, 0, 0, [f], [], set', out, dir', false, edges'⟩ := by
  cases turn with
  | false => exact ⟨5, set, dir, [], by decide, rfl, rfl⟩
  | true =>
    -- in two parts, with the jump at the end of the first one
    have hjump : run (seqInSetup input) 3 (waiting x y osr [bit true, c, f] set out dir) =
        some ⟨3, 1, y, 1, 0, 0, [c, f], [], set, out, dir, false, []⟩ := rfl
    have hturn (x w : Word) : run (seqInSetup input) 7
        ⟨3, x, y, w, 0, 0, [c, f], [], set, out, dir, false, []⟩ =
          some ⟨10, c, y, c, 0, 0, [f], [], false, out, (w >>> 1).getLsbD 0, false,
            [(false, out)]⟩ := rfl
    have hrun := run_trans hjump (hturn 1 1)
    exact ⟨10, false, _, [(false, out)], by decide, rfl, hrun⟩

/-- A bit that does not fill the register. -/
theorem step_in (hn : n + 1 < 32) :
    step (seqInSetup input) ⟨10, x, y, osr, isr, n, tx, [], set, out, dir, clock, edges⟩ =
      some ⟨11, x, y, osr, shiftIn isr (input edges.length), n + 1, tx, [], set, out, dir, false,
        edges⟩ := by
  have hcount : min 32 (n + 1) = n + 1 := Nat.min_eq_right (Nat.le_of_lt hn)
  have hroom : ¬ (true = true ∧ 32 ≤ n + 1) := fun h => Nat.not_le_of_lt hn h.2
  show (exec _ _ .inPins).bind _ = _
  unfold exec
  simp only [hcount]
  rw [if_neg (show ¬ ((seqInSetup input).autopush = true ∧ 32 ≤ n + 1) from hroom)]
  rfl

theorem step_loop :
    step (seqInSetup input) ⟨11, x, y, osr, isr, n, tx, [], set, out, dir, false, edges⟩ =
      some ⟨if x ≠ 0 then 10 else 12, x - 1, y, osr, isr, n, tx, [], set, out, dir, true,
        edges ++ [(set, out)]⟩ :=
  rfl

/-- A turn of the loop. -/
theorem run_bit (input : Nat → Bool) (x y osr isr : Word) (tx : List Word)
    (set out dir clock : Bool) (edges : List (Bool × Bool)) (hn : n + 1 < 32) :
    run (seqInSetup input) 2 ⟨10, x, y, osr, isr, n, tx, [], set, out, dir, clock, edges⟩ =
      some ⟨if x ≠ 0 then 10 else 12, x - 1, y, osr, shiftIn isr (input edges.length), n + 1, tx,
        [], set, out, dir, true, edges ++ [(set, out)]⟩ := by
  show (step _ _).bind _ = _
  rw [step_in hn]
  exact step_loop

/-- `k` turns that are not the last one. -/
theorem run_bits (input : Nat → Bool) (y osr isr : Word) (tx : List Word)
    (set out dir clock : Bool) (edges : List (Bool × Bool)) (j k : Nat) (hx : j + k < 2 ^ 32)
    (hn : n + k < 32) :
    ∃ clock' edges', edges'.length = edges.length + k ∧ run (seqInSetup input) (2 * k)
      ⟨10, BitVec.ofNat 32 (j + k), y, osr, isr, n, tx, [], set, out, dir, clock, edges⟩ =
        some ⟨10, BitVec.ofNat 32 j, y, osr, (samples input edges.length k).foldl shiftIn isr,
          n + k, tx, [], set, out, dir, clock', edges'⟩ := by
  induction k generalizing isr n clock edges with
  | zero => exact ⟨clock, edges, rfl, rfl⟩
  | succ k ih =>
    have hturn := run_bit input (BitVec.ofNat 32 (j + (k + 1))) y osr isr tx set out dir clock edges
      (show n + 1 < 32 by omega)
    rw [← Nat.add_assoc, if_pos (ofNat_succ_ne_zero (by omega)), ofNat_succ_sub_one] at hturn
    obtain ⟨clock', edges', hlength, hrest⟩ := ih (shiftIn isr (input edges.length)) true
      (edges ++ [(set, out)]) (n := n + 1) (by omega) (by omega)
    rw [List.length_append, List.length_singleton] at hlength hrest
    refine ⟨clock', edges', by omega, ?_⟩
    rw [samples_succ, List.foldl_cons, ← Nat.add_assoc j, Nat.mul_succ, Nat.add_comm _ 2,
      Nat.add_comm k, ← Nat.add_assoc n]
    exact run_trans hturn hrest

/-- Fewer than 32 bits: the `push` behind the loop brings them. -/
theorem run_data (input : Nat → Bool) (x y osr f : Word) (set out dir turn : Bool) {k : Nat}
    (hk : k + 1 < 32) :
    ∃ a x' osr' set' dir' edges', a ≤ 100 ∧ edges'.length = turn.toNat + (k + 1) ∧
      run (seqInSetup input) a
        (waiting x y osr [bit turn, BitVec.ofNat 32 k, f] set out dir) =
          some ⟨13, x', y, osr', 0, 0, [f], [shifted (samples input turn.toNat (k + 1))], set', out,
            dir', true, edges'⟩ := by
  obtain ⟨a, set', dir', edges₁, ha, hlength₁, hturn⟩ :=
    run_turn input x y osr (BitVec.ofNat 32 k) f set out dir turn
  obtain ⟨clock, edges₂, hlength₂, hbits⟩ :=
    run_bits input y (BitVec.ofNat 32 k) 0 [f] set' out dir' false edges₁ 0 k (n := 0) (by omega)
      (by omega)
  rw [Nat.zero_add] at hbits
  have hlast := run_bit input 0 y (BitVec.ofNat 32 k)
    ((samples input edges₁.length k).foldl shiftIn 0) [f] set' out dir' clock edges₂ hk
  rw [if_neg (not_not.mpr rfl)] at hlast
  refine ⟨a + (2 * k + (2 + 1)), 0 - 1, BitVec.ofNat 32 k, set', dir', edges₂ ++ [(set', out)],
    by omega, ?_, run_trans hturn
    (run_trans hbits (run_trans hlast ?_))⟩
  · rw [List.length_append, List.length_singleton, hlength₂, hlength₁, Nat.add_assoc]
  · rw [samples_concat, shifted_concat, ← hlength₁, ← hlength₂]
    rfl

/-- 32 bits: the last one pushes them, in the middle of the loop. -/
theorem run_data_full (input : Nat → Bool) (x y osr f : Word) (set out dir turn : Bool) :
    ∃ a osr' set' dir' edges', a ≤ 100 ∧ run (seqInSetup input) a
      (waiting x y osr [bit turn, BitVec.ofNat 32 31, f] set out dir) =
        some ⟨11, 0, y, osr', 0, 0, [f], [shifted (samples input turn.toNat 32)], set', out, dir',
          false, edges'⟩ := by
  obtain ⟨a, set', dir', edges₁, ha, hlength₁, hturn⟩ :=
    run_turn input x y osr (BitVec.ofNat 32 31) f set out dir turn
  obtain ⟨clock, edges₂, hlength₂, hbits⟩ :=
    run_bits input y (BitVec.ofNat 32 31) 0 [f] set' out dir' false edges₁ 0 31 (n := 0) (by omega)
      (by omega)
  rw [Nat.zero_add] at hbits
  refine ⟨a + (2 * 31 + 1), BitVec.ofNat 32 31, set', dir', edges₂, by omega, run_trans hturn
    (run_trans hbits ?_)⟩
  have hlast := samples_concat input edges₁.length 31
  rw [← hlength₂] at hlast
  rw [← hlength₁, hlast, shifted_concat]
  rfl

/-- The `push` behind the loop then brings a word without data. -/
theorem run_data_full_extra (input : Nat → Bool) (y osr : Word) (tx : List Word) (set out dir : Bool)
    (edges : List (Bool × Bool)) : ∃ x' edges', run (seqInSetup input) 2
    ⟨11, 0, y, osr, 0, 0, tx, [], set, out, dir, false, edges⟩ =
      some ⟨13, x', y, osr, 0, 0, tx, [0], set, out, dir, true, edges'⟩ :=
  ⟨_, _, rfl⟩

/-! ## The words behind the data -/

theorem run_test (input : Nat → Bool) (x y osr f : Word) (set out dir : Bool)
    (edges : List (Bool × Bool)) : run (seqInSetup input) 3
      ⟨13, x, y, osr, 0, 0, [f], [], set, out, dir, true, edges⟩ =
        some ⟨if bit (f.getLsbD 0) = 0 then 23 else 16, x, bit (f.getLsbD 0), f >>> 1, 0, 0, [], [],
          set, out, dir, true, edges⟩ :=
  rfl

theorem run_plain (input : Nat → Bool) (x y osr : Word) (set out dir : Bool)
    (edges : List (Bool × Bool)) : ∃ y' osr' w, run (seqInSetup input) 6
      ⟨13, x, y, osr, 0, 0, [0], [], set, out, dir, true, edges⟩ =
        some ⟨0, x, y', osr', 0, 0, [], [w], set, out, dir, false, edges⟩ := by
  have htest := run_test input x y osr 0 set out dir edges
  rw [if_pos (by decide)] at htest
  have hdone (y osr : Word) : run (seqInSetup input) 3
      ⟨23, x, y, osr, 0, 0, [], [], set, out, dir, true, edges⟩ =
        some ⟨0, x, y, osr >>> 1, 0, 0, [], [bit (osr.getLsbD 0)], set, out, dir, false, edges⟩ :=
    rfl
  exact ⟨_, _, _, run_trans htest (hdone _ _)⟩

/-- The parity bit is at the top of its word. -/
theorem run_parity (input : Nat → Bool) (x y osr : Word) (set out dir : Bool)
    (edges : List (Bool × Bool)) : ∃ y' osr' edges', run (seqInSetup input) 6
      ⟨13, x, y, osr, 0, 0, [3], [], set, out, dir, true, edges⟩ =
        some ⟨19, x, y', osr', 0, 0, [], [shiftIn 0 (input edges.length)], set, out, dir, false,
          edges'⟩ := by
  have htest := run_test input x y osr 3 set out dir edges
  rw [if_neg (by decide)] at htest
  have hin (y osr : Word) : run (seqInSetup input) 3
      ⟨16, x, y, osr, 0, 0, [], [], set, out, dir, true, edges⟩ =
        some ⟨19, x, y, osr, 0, 0, [], [shiftIn 0 (input edges.length)], set, out, dir, false,
          edges ++ [(set, out)]⟩ :=
    rfl
  exact ⟨_, _, _, run_trans htest (hin _ _)⟩

theorem run_parity_end (input : Nat → Bool) (x y osr : Word) (set out dir : Bool)
    (edges : List (Bool × Bool)) :
    ∃ osr' dir' w edges', run (seqInSetup input) 7
    ⟨19, x, y, osr, 0, 0, [], [], set, out, dir, false, edges⟩ =
      some ⟨0, x, y, osr', 0, 0, [], [w], true, out, dir', false, edges'⟩ :=
  ⟨_, _, _, _, rfl⟩

/-- A machine that waits has nothing to do. -/
theorem step_stalled {rx : List Word} :
    step (seqInSetup input) ⟨0, x, y, osr, 0, 0, [], rx, set, out, dir, clock, edges⟩ = none :=
  rfl

/-! ## `seq_out` -/

theorem run_out_loop (input : Nat → Bool) (y osr : Word) (tx : List Word) (set out dir clock : Bool)
    (edges : List (Bool × Bool)) (k : Nat) (hk : k < 2 ^ 32) :
    ∃ x' osr' out' edges', run (seqOutSetup input) (2 * (k + 1))
      ⟨8, BitVec.ofNat 32 k, y, osr, 0, 0, tx, [], set, out, dir, clock, edges⟩ =
        some ⟨10, x', y, osr', 0, 0, tx, [], set, out', dir, true, edges'⟩ := by
  induction k generalizing osr out clock edges with
  | zero => exact ⟨_, _, _, _, rfl⟩
  | succ k ih =>
    have hturn : ∃ osr' out' edges', run (seqOutSetup input) 2
        ⟨8, BitVec.ofNat 32 (k + 1), y, osr, 0, 0, tx, [], set, out, dir, clock, edges⟩ =
          some ⟨if BitVec.ofNat 32 (k + 1) ≠ 0 then 8 else 10, BitVec.ofNat 32 (k + 1) - 1, y, osr',
            0, 0, tx, [], set, out', dir, true, edges'⟩ := ⟨_, _, _, rfl⟩
    obtain ⟨osr₁, out₁, edges₁, hturn⟩ := hturn
    rw [if_pos (ofNat_succ_ne_zero hk), ofNat_succ_sub_one] at hturn
    obtain ⟨x', osr', out', edges', hrest⟩ := ih osr₁ out₁ true edges₁ (Nat.lt_of_succ_lt hk)
    refine ⟨x', osr', out', edges', ?_⟩
    rw [Nat.mul_succ, Nat.add_comm]
    exact run_trans hturn hrest

theorem run_out_turn (input : Nat → Bool) (x y osr c w p : Word) (set out dir turn : Bool) :
    ∃ a set' dir' edges', a ≤ 10 ∧
    run (seqOutSetup input) a (waiting x y osr [bit turn, c, w, p] set out dir) =
      some ⟨8, c, y, w, 0, 0, [p], [], set', out, dir', false, edges'⟩ := by
  cases turn with
  | false => exact ⟨6, set, dir, [], by decide, rfl⟩
  | true =>
    have hjump : run (seqOutSetup input) 3 (waiting x y osr [bit true, c, w, p] set out dir) =
        some ⟨3, 1, y, 1, 0, 0, [c, w, p], [], set, out, dir, false, []⟩ := rfl
    have hturn (x v : Word) : run (seqOutSetup input) 5
        ⟨3, x, y, v, 0, 0, [c, w, p], [], set, out, dir, false, []⟩ =
          some ⟨8, c, y, w, 0, 0, [p], [], true, out, v.getLsbD 0, false, [(true, out)]⟩ := rfl
    have hrun := run_trans hjump (hturn 1 1)
    exact ⟨8, true, _, [(true, out)], by decide, hrun⟩

/-- The parity bit is sent or not. -/
theorem run_out_end (input : Nat → Bool) (x y osr f : Word) (set out dir clock : Bool)
    (edges : List (Bool × Bool)) : ∃ a y' osr' out' v edges', a ≤ 10 ∧ run (seqOutSetup input) a
    ⟨10, x, y, osr, 0, 0, [f], [], set, out, dir, clock, edges⟩ =
      some ⟨0, x, y', osr', 0, 0, [], [v], set, out', dir, false, edges'⟩ := by
  have htest : run (seqOutSetup input) 3
      ⟨10, x, y, osr, 0, 0, [f], [], set, out, dir, clock, edges⟩ =
        some ⟨if bit (f.getLsbD 0) = 0 then 16 else 13, x, bit (f.getLsbD 0), f >>> 1, 0, 0, [], [],
          set, out, dir, clock, edges⟩ := rfl
  by_cases h : bit (f.getLsbD 0) = 0
  · rw [if_pos h] at htest
    exact ⟨3 + 2, _, _, _, _, _, by decide, run_trans htest rfl⟩
  · rw [if_neg h] at htest
    exact ⟨3 + 5, _, _, _, _, _, by decide, run_trans htest rfl⟩

theorem run_out (input : Nat → Bool) (x y osr w p : Word) (set out dir turn : Bool) {k : Nat}
    (hk : k < 32) :
    ∃ a x' y' osr' set' out' dir' v edges', a ≤ 100 ∧
      run (seqOutSetup input) a
        (waiting x y osr [bit turn, BitVec.ofNat 32 k, w, p] set out dir) =
          some ⟨0, x', y', osr', 0, 0, [], [v], set', out', dir', false, edges'⟩ := by
  obtain ⟨a, set', dir', edges₁, ha, hturn⟩ :=
    run_out_turn input x y osr (BitVec.ofNat 32 k) w p set out dir turn
  obtain ⟨x', osr₂, out₂, edges₂, hloop⟩ :=
    run_out_loop input y w [p] set' out dir' false edges₁ k (by omega)
  obtain ⟨b, y', osr', out', v, edges', hb, hend⟩ :=
    run_out_end input x' y osr₂ p set' out₂ dir' true edges₂
  exact ⟨a + (2 * (k + 1) + b), x', y', osr', set', out', dir', v, edges', by omega,
    run_trans hturn (run_trans hloop hend)⟩

end MiyakoLink.SwdSeq
