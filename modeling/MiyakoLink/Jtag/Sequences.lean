import Mathlib.Tactic.Common
import MiyakoLink.Jtag.Scan

/-!
# What the sequences do to a chain

A reset loads every instruction register and ends in Run-Test/Idle. From there `shiftIr` and
`shiftDr` capture the registers, filler bits and data are shifted in three parts, and
`returnIdle` gives every device its part of what was shifted in.
-/

namespace MiyakoLink.Jtag

open Lib

/-- The devices of a chain. -/
def devices (c : Chain) : List Device := c.ports.map (·.device)

theorem distribute_devices {len : Port → Nat} {put : Port → List Bool → Port}
    (h : ∀ p reg, (put p reg).device = p.device) (ps : List Port) (reg : List Bool) :
    (distribute len put ps reg).map (·.device) = ps.map (·.device) := by
  induction ps generalizing reg with
  | nil => rfl
  | cons p ps ih => rw [distribute, List.map_cons, List.map_cons, h, ih]

theorem update_device (p : Port) (reg : List Bool) : (p.update reg).device = p.device := by
  unfold Port.update
  split
  · rfl
  · rfl

theorem clock_devices (c : Chain) (tms tdi : Bool) :
    devices (c.clock tms tdi).2 = devices c := by
  unfold Chain.clock devices
  split
  · rw [List.map_map]
    rfl
  · rfl
  · rfl
  · rfl
  · rfl
  · exact distribute_devices update_device _ _
  · apply distribute_devices
    intro p reg
    rfl
  · rfl

theorem clock_tap (c : Chain) (tms tdi : Bool) : (c.clock tms tdi).2.tap = c.tap.next tms := by
  unfold Chain.clock
  split <;> rfl

theorem clocks_devices (c : Chain) (s : List (Bool × Bool)) :
    devices (c.clocks s).2 = devices c := by
  induction s generalizing c with
  | nil => rfl
  | cons a s ih =>
    rw [Chain.clocks]
    exact (ih _).trans (clock_devices c _ _)

theorem clocks_tap (c : Chain) (s : List (Bool × Bool)) :
    (c.clocks s).2.tap = (s.map Prod.fst).foldl TapState.next c.tap := by
  induction s generalizing c with
  | nil => rfl
  | cons a s ih =>
    rw [Chain.clocks, List.map_cons, List.foldl_cons, ← clock_tap c a.1 a.2]
    exact ih _

theorem devices_length (c : Chain) : (devices c).length = c.ports.length := List.length_map _

/-! ## From state to state -/

theorem shiftIr_idle {c : Chain} (h : c.tap = .runTestIdle) :
    shiftIr c = { c with tap := .shiftIr, reg := c.ports.flatMap (·.device.irCapture) } := by
  obtain ⟨tap, reg, ports⟩ := c
  cases h
  rfl

theorem shiftDr_idle {c : Chain} (h : c.tap = .runTestIdle) :
    shiftDr c = { c with tap := .shiftDr, reg := c.ports.flatMap Port.captured } := by
  obtain ⟨tap, reg, ports⟩ := c
  cases h
  rfl

theorem returnIdle_ir {c : Chain} (h : c.tap = .exit1Ir) :
    returnIdle c = { c with
      tap := .runTestIdle
      ports := distribute (·.device.irLen) (fun p reg => { p with ir := reg }) c.ports c.reg } := by
  obtain ⟨tap, reg, ports⟩ := c
  cases h
  rfl

theorem returnIdle_dr {c : Chain} (h : c.tap = .exit1Dr) :
    returnIdle c = { c with
      tap := .runTestIdle
      ports := distribute (·.captured.length) Port.update c.ports c.reg } := by
  obtain ⟨tap, reg, ports⟩ := c
  cases h
  rfl

/-- Five clocks with the mode signal high reset the ports from every state. -/
theorem softReset_spec (c : Chain) :
    (softReset c).tap = .runTestIdle ∧ devices (softReset c) = devices c ∧
      ∀ p ∈ (softReset c).ports, p.ir = p.device.resetIr := by
  refine ⟨?_, clocks_devices _ _, ?_⟩
  · show (c.clocks _).2.tap = _
    rw [clocks_tap]
    cases c.tap <;> rfl
  · have hsplit : softReset c =
        ((c.clocks (List.replicate 5 (true, true))).2.clock false true).2 := rfl
    have htap : (c.clocks (List.replicate 5 (true, true))).2.tap = .testLogicReset := by
      rw [clocks_tap]
      cases c.tap <;> rfl
    rw [hsplit, Chain.clock, htap]
    intro p hp
    obtain ⟨q, -, rfl⟩ := List.mem_map.mp hp
    rfl

theorem tdiTdoSeq_shift {c : Chain} (h : c.tap = .shiftDr ∨ c.tap = .shiftIr) (final : Bool)
    (di : List Bool) :
    tdiTdoSeq final di c = ((c.reg ++ di).take di.length,
      { c with
        tap := if di = [] then c.tap else c.tap.next final
        reg := (c.reg ++ di).drop di.length }) := Chain.clocks_shift h final di

theorem drop_append_append (r a b : List Bool) :
    ((r ++ a).drop a.length ++ b).drop b.length = (r ++ (a ++ b)).drop (a ++ b).length := by
  have hlen : a.length ≤ (r ++ a).length := by simp
  rw [← List.append_assoc, List.length_append, ← List.drop_drop,
    List.drop_append_of_le_length hlen]

/-- Three parts shifted in one behind the other. The mode signal is high at the last bit, which
is one of the second part when the third is empty. -/
theorem three_parts {c : Chain} (h : c.tap = .shiftDr ∨ c.tap = .shiftIr)
    (pre : List Bool) {mid post : List Bool} {last : Bool} (hmid : mid ≠ []) (hlast : last = true ↔ post = []) :
    (tdiTdoSeq last mid (tdiSeq false pre c)).1 =
        ((c.reg ++ pre).drop pre.length ++ mid).take mid.length ∧
      tdiSeq true post (tdiTdoSeq last mid (tdiSeq false pre c)).2 =
        { c with
          tap := c.tap.next true
          reg := (c.reg ++ (pre ++ (mid ++ post))).drop (pre ++ (mid ++ post)).length } := by
  have hstay : c.tap.next false = c.tap := by
    rcases h with h | h
    · rw [h]
      rfl
    · rw [h]
      rfl
  have hpre : tdiSeq false pre c = { c with reg := (c.reg ++ pre).drop pre.length } := by
    rw [tdiSeq, tdiTdoSeq_shift h, hstay, ite_self]
  have hmiddle := tdiTdoSeq_shift (c := ⟨c.tap, (c.reg ++ pre).drop pre.length, c.ports⟩) h last mid
  rw [hpre, hmiddle, if_neg hmid]
  refine ⟨rfl, ?_⟩
  cases post with
  | nil =>
    rw [hlast.mpr rfl]
    show Chain.mk _ _ _ = _
    rw [drop_append_append, List.append_nil]
  | cons b post =>
    have hfalse : last = false := Bool.eq_false_iff.mpr fun hl => by
      have := hlast.mp hl
      contradiction
    rw [hfalse, hstay]
    have hshift := tdiTdoSeq_shift (c := ⟨c.tap,
      ((c.reg ++ pre).drop pre.length ++ mid).drop mid.length, c.ports⟩) h true (b :: post)
    rw [tdiSeq, hshift, if_neg (List.cons_ne_nil b post)]
    dsimp only
    rw [drop_append_append, drop_append_append]

theorem onesBits_eq {W : Behind} {n : Nat} (h : ∀ k, 32 ≤ k → k < n → W.ones k = true) :
    onesBits W n = List.replicate n true := by
  rw [List.eq_replicate_iff]
  refine ⟨by rw [onesBits, List.length_map, List.length_range], ?_⟩
  intro b hb
  obtain ⟨k, hk, rfl⟩ := List.mem_map.mp hb
  split
  · rfl
  · exact h k (by omega) (List.mem_range.mp hk)

end MiyakoLink.Jtag
