import MiyakoLink.Lib.PioWide

/-!
# The programs of `low_access`

What the state machine does with the words of one attempt. `input k` is the level of SWDIO after `k`
rising edges of the attempt: the acknowledgement is there after nine of them, the data after twelve
and its parity after 44.

* `runs_readOk`, `runs_readRefused`: a read, with the data phase or without it.
* `runs_writeOk`, `runs_writeRefused`: a write.
-/

namespace MiyakoLink.SwdAccess

open Lib.Pio

/-- `target_interface_non_iso_swd_low_access_read`. -/
def readProgram : List WideLine :=
  [⟨.narrow .pull, none⟩,
    ⟨.narrow (.movOsr .y), none⟩,
    ⟨.narrow .pull, none⟩,
    ⟨.setX 7, none⟩,
    -- `req_loop`
    ⟨.narrow (.out .pins), some false⟩,
    ⟨.narrow (.jmp .xDec 4), some true⟩,
    ⟨.setX 2, some false⟩,
    ⟨.narrow (.setPins false), some true⟩,
    ⟨.narrow (.out .pindirs), none⟩,
    -- `ack_loop`
    ⟨.narrow .inPins, some false⟩,
    ⟨.narrow (.jmp .xDec 9), some true⟩,
    ⟨.movIsr, some false⟩,
    ⟨.jmpDiffer 19, none⟩,
    ⟨.narrow (.push true), none⟩,
    ⟨.setX 31, none⟩,
    -- `data_loop`
    ⟨.narrow .inPins, some true⟩,
    ⟨.narrow (.jmp .xDec 15), some false⟩,
    ⟨.narrow .inPins, some true⟩,
    ⟨.narrow .nop, some false⟩,
    -- `read_done`
    ⟨.narrow .nop, some true⟩,
    ⟨.narrow (.setPins true), some false⟩,
    ⟨.narrow (.out .pindirs), some false⟩,
    ⟨.narrow (.out .pins), none⟩,
    ⟨.narrow (.push true), none⟩]

/-- `target_interface_non_iso_swd_low_access_write`. -/
def writeProgram : List WideLine :=
  [⟨.narrow .pull, none⟩,
    ⟨.narrow (.movOsr .y), none⟩,
    ⟨.narrow .pull, none⟩,
    ⟨.setX 7, none⟩,
    -- `req_loop`
    ⟨.narrow (.out .pins), some false⟩,
    ⟨.narrow (.jmp .xDec 4), some true⟩,
    ⟨.narrow (.setPins false), some false⟩,
    ⟨.narrow (.out .pindirs), some true⟩,
    ⟨.setX 2, none⟩,
    -- `ack_loop`
    ⟨.narrow .inPins, some false⟩,
    ⟨.narrow (.jmp .xDec 9), some true⟩,
    ⟨.movIsr, some false⟩,
    ⟨.narrow (.setPins true), some true⟩,
    ⟨.narrow (.out .pindirs), some false⟩,
    ⟨.jmpDiffer 24, none⟩,
    ⟨.narrow .pull, none⟩,
    ⟨.setX 31, none⟩,
    -- `data_loop`
    ⟨.narrow (.out .pins), some false⟩,
    ⟨.narrow (.jmp .xDec 17), some true⟩,
    ⟨.narrow .pull, none⟩,
    ⟨.setX 7, none⟩,
    -- `parity_loop`
    ⟨.narrow (.out .pins), some false⟩,
    ⟨.narrow (.jmp .xDec 21), some true⟩,
    ⟨.narrow (.jmp .always 26), none⟩,
    -- `ack_not_ok`
    ⟨.narrow .pull, none⟩,
    ⟨.narrow .pull, none⟩,
    -- `write_done`
    ⟨.narrow (.push true), some false⟩]

/-- The configuration for SWD: automatic push at 32 bits. -/
def readSetup (input : Nat → Bool) : WideSetup := ⟨readProgram, true, input⟩

def writeSetup (input : Nat → Bool) : WideSetup := ⟨writeProgram, true, input⟩

/-- The machine waits for the words of an attempt. -/
def waiting (x y osr : Word) (tx : List Word) (set out dir : Bool) : Machine :=
  ⟨0, x, y, osr, 0, 0, tx, [], set, out, dir, false, []⟩

/-- The acknowledgement, as it is in the input register. -/
def ackWord (input : Nat → Bool) : Word := shifted (levels input 9 3)

/-- The data that a target sends, and the word with its parity bit. -/
def dataWord (input : Nat → Bool) : Word := shifted (levels input 12 32)

def parityWord (input : Nat → Bool) : Word := shiftIn 0 (input 44)

/-- The edges of a request: its eight bits while the host drives the line. -/
def requested (set : Bool) (q : Word) : List (Bool × Bool) := driven set 8 q

section
variable (input : Nat → Bool) (x y osr e q v f : Word) (set out dir : Bool)

theorem read_request : OutLoop (readSetup input) 4 := ⟨rfl, rfl, by show 6 < 24; decide⟩

theorem read_ack : InLoop (readSetup input) 9 false := ⟨rfl, rfl, by show 11 < 24; decide⟩

theorem read_data : InLoop (readSetup input) 15 true := ⟨rfl, rfl, by show 17 < 24; decide⟩

theorem write_request : OutLoop (writeSetup input) 4 := ⟨rfl, rfl, by show 6 < 27; decide⟩

theorem write_ack : InLoop (writeSetup input) 9 false := ⟨rfl, rfl, by show 11 < 27; decide⟩

theorem write_data : OutLoop (writeSetup input) 17 := ⟨rfl, rfl, by show 19 < 27; decide⟩

theorem write_parity : OutLoop (writeSetup input) 21 := ⟨rfl, rfl, by show 23 < 27; decide⟩

/-! ## Reads -/

theorem bit_of_shift (w : Word) (k j : Nat) : (w >>> k).getLsbD j = w.getLsbD (k + j) :=
  BitVec.getLsbD_ushiftRight w k j

theorem clocked_length (set : Bool) (q : Word) (n : Nat) (b : Bool) :
    (requested set q ++ List.replicate n (false, b)).length = 8 + n := by
  rw [List.length_append, requested, driven_length, List.length_replicate]

/-- The request and the acknowledgement. -/
theorem runs_readAck : runs (wideStep (readSetup input)) 30 (waiting x y osr [e, q] set out dir) =
    some ⟨12, ackWord input, e, q >>> 9, ackWord input, 3, [], [], false, q.getLsbD 7, q.getLsbD 8,
      false, requested set q ++ List.replicate 4 (false, q.getLsbD 7)⟩ := by
  have hwords : runs (wideStep (readSetup input)) 4 (waiting x y osr [e, q] set out dir) =
      some ⟨4, BitVec.ofNat 32 7, e, q, 0, 0, [], [], set, out, dir, false, []⟩ := rfl
  have hrequest := runs_outLoop (read_request input) e q 0 0 [] set out dir false [] (k := 7)
    (by decide)
  have hturn : runs (wideStep (readSetup input)) 3
      ⟨6, 0 - 1, e, q >>> 8, 0, 0, [], [], set, q.getLsbD 7, dir, true, requested set q⟩ =
        some ⟨9, BitVec.ofNat 32 2, e, q >>> 8 >>> 1, 0, 0, [], [], false, q.getLsbD 7,
          (q >>> 8).getLsbD 0, true, requested set q ++ List.replicate 1 (false, q.getLsbD 7)⟩ := rfl
  have hack := runs_inLoop (read_ack input) (n := 0) e (q >>> 9) 0 [] false (q.getLsbD 7)
    (q.getLsbD 8) true (requested set q ++ List.replicate 1 (false, q.getLsbD 7)) (k := 2)
    (fun h => absurd h Bool.false_ne_true) (by decide)
  have hcompare (a : Word) (edges : List (Bool × Bool)) : runs (wideStep (readSetup input)) 1
      ⟨11, 0 - 1, e, q >>> 9, a, 3, [], [], false, q.getLsbD 7, q.getLsbD 8, true, edges⟩ =
        some ⟨12, a, e, q >>> 9, a, 3, [], [], false, q.getLsbD 7, q.getLsbD 8, false, edges⟩ := rfl
  rw [← BitVec.shiftRight_add, bit_of_shift] at hturn
  rw [clocked_length, List.append_assoc, List.replicate_append_replicate] at hack
  exact runs_trans hwords (runs_trans hrequest (runs_trans hturn (runs_trans hack (hcompare _ _))))

theorem step_differ (a : Word) (n : Nat) (edges : List (Bool × Bool)) :
    wideStep (readSetup input)
      ⟨12, a, e, osr, a, n, [], [], set, out, dir, false, edges⟩ =
        some ⟨if a ≠ e then 19 else 13, a, e, osr, a, n, [], [], set, out, dir, false, edges⟩ :=
  rfl

/-- Another acknowledgement than the expected one is the result, and the line is taken back. -/
theorem runs_readRefused (h : ackWord input ≠ e) : ∃ n x' osr', n ≤ 200 ∧
    runs (wideStep (readSetup input)) n (waiting x y osr [e, q] set out dir) =
      some ⟨0, x', e, osr', 0, 0, [], [ackWord input], true, q.getLsbD 10, q.getLsbD 9, false,
        requested set q ++ List.replicate 5 (false, q.getLsbD 7)⟩ := by
  have hjump := step_differ input (q >>> 9) e false (q.getLsbD 7) (q.getLsbD 8) (ackWord input) 3
    (requested set q ++ List.replicate 4 (false, q.getLsbD 7))
  rw [if_pos h] at hjump
  have hend (a d : Word) (out dir : Bool) (edges : List (Bool × Bool)) :
      runs (wideStep (readSetup input)) 5
        ⟨19, a, e, d, a, 3, [], [], false, out, dir, false, edges⟩ =
          some ⟨0, a, e, d >>> 1 >>> 1, 0, 0, [], [a], true, (d >>> 1).getLsbD 0, d.getLsbD 0, false,
            edges ++ [(false, out)]⟩ := rfl
  have hdone := hend (ackWord input) (q >>> 9) (q.getLsbD 7) (q.getLsbD 8)
    (requested set q ++ List.replicate 4 (false, q.getLsbD 7))
  rw [← BitVec.shiftRight_add q 9 1, bit_of_shift, bit_of_shift, List.append_assoc,
    ← List.replicate_succ'] at hdone
  exact ⟨_, _, _, by decide, runs_trans (runs_readAck input x y osr e q set out dir)
    (runs_head rfl hjump hdone)⟩

/-- The machine behind an expected acknowledgement, with the data still to come. -/
def dataPhase : Machine :=
  ⟨14, e, e, q >>> 9, 0, 0, [], [], false, q.getLsbD 7, q.getLsbD 8, false,
    requested set q ++ List.replicate 4 (false, q.getLsbD 7)⟩

/-- The machine behind the last bit of the data. -/
def parityPhase : Machine :=
  ⟨16, 0, e, q >>> 9, 0, 0, [], [], false, q.getLsbD 7, q.getLsbD 8, true,
    requested set q ++ List.replicate 36 (false, q.getLsbD 7)⟩

/-- The expected acknowledgement is the first result. -/
theorem runs_readOk (h : ackWord input = e) :
    runs (wideStep (readSetup input)) 32 (waiting x y osr [e, q] set out dir) =
      some { dataPhase e q set with rx := [e] } := by
  have hack := runs_readAck input x y osr e q set out dir
  rw [h] at hack
  have hjump := step_differ input (q >>> 9) e false (q.getLsbD 7) (q.getLsbD 8) e 3
    (requested set q ++ List.replicate 4 (false, q.getLsbD 7))
  rw [if_neg (not_not.mpr rfl)] at hjump
  have hpush : runs (wideStep (readSetup input)) 1 ⟨13, e, e, q >>> 9, e, 3, [], [], false,
      q.getLsbD 7, q.getLsbD 8, false, requested set q ++ List.replicate 4 (false, q.getLsbD 7)⟩ =
        some { dataPhase e q set with rx := [e] } := rfl
  exact runs_trans hack (runs_head rfl hjump hpush)

/-- The data is the second one: the last bit pushes it. -/
theorem runs_readData : runs (wideStep (readSetup input)) 64 (dataPhase e q set) =
    some { parityPhase e q set with rx := [dataWord input] } := by
  have hcount : runs (wideStep (readSetup input)) 1 (dataPhase e q set) =
      some ⟨15, BitVec.ofNat 32 31, e, q >>> 9, 0, 0, [], [], false, q.getLsbD 7, q.getLsbD 8, false,
        requested set q ++ List.replicate 4 (false, q.getLsbD 7)⟩ := rfl
  obtain ⟨clock, hclock, hturns⟩ := runs_inTurns (read_data input) (n := 0) e (q >>> 9) 0 [] false
    (q.getLsbD 7) (q.getLsbD 8) false (requested set q ++ List.replicate 4 (false, q.getLsbD 7)) 0 31
    (fun _ => rfl) (by decide) (by decide)
  have hlast (isr : Word) (edges : List (Bool × Bool)) : runs (wideStep (readSetup input)) 1
      ⟨15, BitVec.ofNat 32 0, e, q >>> 9, isr, 31, [], [], false, q.getLsbD 7, q.getLsbD 8, false,
        edges⟩ =
        some ⟨16, 0, e, q >>> 9, 0, 0, [], [shiftIn isr (input edges.length)], false, q.getLsbD 7,
          q.getLsbD 8, true, edges ++ [(false, q.getLsbD 7)]⟩ := rfl
  rw [hclock rfl, List.append_assoc, List.replicate_append_replicate, clocked_length] at hturns
  have hdata := hlast ((levels input 12 31).foldl shiftIn 0)
    (requested set q ++ List.replicate 35 (false, q.getLsbD 7))
  rw [clocked_length, List.append_assoc, ← List.replicate_succ'] at hdata
  have hword : dataWord input = shiftIn ((levels input 12 31).foldl shiftIn 0) (input (8 + 35)) :=
    (congrArg shifted (levels_concat input 12 31)).trans (shifted_concat _ _)
  rw [← hword] at hdata
  exact runs_trans hcount (runs_trans hturns hdata)

/-- The parity bit is the third one, and the line is taken back. -/
theorem runs_readParity : ∃ x' osr',
    runs (wideStep (readSetup input)) 8 (parityPhase e q set) =
      some ⟨0, x', e, osr', 0, 0, [], [parityWord input], true, q.getLsbD 10, q.getLsbD 9, false,
        requested set q ++ List.replicate 38 (false, q.getLsbD 7)⟩ := by
  have hrun (d : Word) (out dir : Bool) (edges : List (Bool × Bool)) :
      runs (wideStep (readSetup input)) 8
        ⟨16, 0, e, d, 0, 0, [], [], false, out, dir, true, edges⟩ =
          some ⟨0, 0 - 1, e, d >>> 1 >>> 1, 0, 0, [], [shiftIn 0 (input edges.length)], true,
            (d >>> 1).getLsbD 0, d.getLsbD 0, false, edges ++ [(false, out)] ++ [(false, out)]⟩ := rfl
  have hdone := hrun (q >>> 9) (q.getLsbD 7) (q.getLsbD 8)
    (requested set q ++ List.replicate 36 (false, q.getLsbD 7))
  rw [clocked_length, ← BitVec.shiftRight_add q 9 1, bit_of_shift, bit_of_shift,
    List.append_assoc (requested set q), ← List.replicate_succ', List.append_assoc (requested set q),
    ← List.replicate_succ'] at hdone
  exact ⟨_, _, hdone⟩

/-! ## Writes -/

/-- The edges of a request that is not complied with, or of one up to its data. -/
def turned (set : Bool) (q : Word) : List (Bool × Bool) :=
  requested set q ++ List.replicate 4 (false, q.getLsbD 7) ++ [(true, q.getLsbD 7)]

/-- The request and the acknowledgement; then the line is taken back. -/
theorem runs_writeAck :
    runs (wideStep (writeSetup input)) 32 (waiting x y osr [e, q, v, f] set out dir) =
      some ⟨14, ackWord input, e, q >>> 9 >>> 1, ackWord input, 3, [v, f], [], true, q.getLsbD 7,
        q.getLsbD 9, false, turned set q⟩ := by
  have hwords : runs (wideStep (writeSetup input)) 4 (waiting x y osr [e, q, v, f] set out dir) =
      some ⟨4, BitVec.ofNat 32 7, e, q, 0, 0, [v, f], [], set, out, dir, false, []⟩ := rfl
  have hrequest := runs_outLoop (write_request input) e q 0 0 [v, f] set out dir false [] (k := 7)
    (by decide)
  have hturn : runs (wideStep (writeSetup input)) 3
      ⟨6, 0 - 1, e, q >>> 8, 0, 0, [v, f], [], set, q.getLsbD 7, dir, true, requested set q⟩ =
        some ⟨9, BitVec.ofNat 32 2, e, q >>> 8 >>> 1, 0, 0, [v, f], [], false, q.getLsbD 7,
          (q >>> 8).getLsbD 0, true, requested set q ++ List.replicate 1 (false, q.getLsbD 7)⟩ := rfl
  have hack := runs_inLoop (write_ack input) (n := 0) e (q >>> 9) 0 [v, f] false (q.getLsbD 7)
    (q.getLsbD 8) true (requested set q ++ List.replicate 1 (false, q.getLsbD 7)) (k := 2)
    (fun h => absurd h Bool.false_ne_true) (by decide)
  have hback (a d : Word) (edges : List (Bool × Bool)) : runs (wideStep (writeSetup input)) 3
      ⟨11, 0 - 1, e, d, a, 3, [v, f], [], false, q.getLsbD 7, q.getLsbD 8, true, edges⟩ =
        some ⟨14, a, e, d >>> 1, a, 3, [v, f], [], true, q.getLsbD 7, d.getLsbD 0, false,
          edges ++ [(true, q.getLsbD 7)]⟩ := rfl
  have hdone := hback (ackWord input) (q >>> 9)
    (requested set q ++ List.replicate 4 (false, q.getLsbD 7))
  rw [← BitVec.shiftRight_add, bit_of_shift] at hturn
  rw [clocked_length, List.append_assoc, List.replicate_append_replicate] at hack
  rw [bit_of_shift] at hdone
  exact runs_trans hwords (runs_trans hrequest (runs_trans hturn (runs_trans hack hdone)))

theorem step_writeDiffer (a d : Word) (n : Nat) (out dir : Bool) (edges : List (Bool × Bool)) :
    wideStep (writeSetup input) ⟨14, a, e, d, a, n, [v, f], [], true, out, dir, false, edges⟩ =
      some ⟨if a ≠ e then 24 else 15, a, e, d, a, n, [v, f], [], true, out, dir, false, edges⟩ :=
  rfl

/-- The data of a refused write is taken from its queue. -/
theorem runs_writeRefused (h : ackWord input ≠ e) : ∃ n x' osr', n ≤ 200 ∧
    runs (wideStep (writeSetup input)) n (waiting x y osr [e, q, v, f] set out dir) =
      some ⟨0, x', e, osr', 0, 0, [], [ackWord input], true, q.getLsbD 7, q.getLsbD 9, false,
        turned set q⟩ := by
  have hjump := step_writeDiffer input e v f (ackWord input) (q >>> 9 >>> 1) 3 (q.getLsbD 7)
    (q.getLsbD 9) (turned set q)
  rw [if_pos h] at hjump
  have hend (a d : Word) (out dir : Bool) (edges : List (Bool × Bool)) :
      runs (wideStep (writeSetup input)) 3
        ⟨24, a, e, d, a, 3, [v, f], [], true, out, dir, false, edges⟩ =
          some ⟨0, a, e, f, 0, 0, [], [a], true, out, dir, false, edges⟩ := rfl
  exact ⟨_, _, _, by decide, runs_trans (runs_writeAck input x y osr e q v f set out dir)
    (runs_head rfl hjump (hend _ _ _ _ _))⟩

/-- The data of a write, and the eight bits of the word behind it. -/
theorem runs_writeOk (h : ackWord input = e) : ∃ n x' osr', n ≤ 200 ∧
    runs (wideStep (writeSetup input)) n (waiting x y osr [e, q, v, f] set out dir) =
      some ⟨0, x', e, osr', 0, 0, [], [e], true, f.getLsbD 7, q.getLsbD 9, false,
        turned set q ++ driven true 32 v ++ driven true 8 f⟩ := by
  have hack := runs_writeAck input x y osr e q v f set out dir
  rw [h] at hack
  have hjump := step_writeDiffer input e v f e (q >>> 9 >>> 1) 3 (q.getLsbD 7) (q.getLsbD 9)
    (turned set q)
  rw [if_neg (not_not.mpr rfl)] at hjump
  have hvalue : runs (wideStep (writeSetup input)) 2
      ⟨15, e, e, q >>> 9 >>> 1, e, 3, [v, f], [], true, q.getLsbD 7, q.getLsbD 9, false, turned set q⟩ =
        some ⟨17, BitVec.ofNat 32 31, e, v, e, 3, [f], [], true, q.getLsbD 7, q.getLsbD 9, false,
          turned set q⟩ := rfl
  have hdata := runs_outLoop (write_data input) e v e 3 [f] true (q.getLsbD 7) (q.getLsbD 9) false
    (turned set q) (k := 31) (by decide)
  have hnext (out : Bool) (d : Word) (edges : List (Bool × Bool)) :
      runs (wideStep (writeSetup input)) 2
        ⟨19, 0 - 1, e, d, e, 3, [f], [], true, out, q.getLsbD 9, true, edges⟩ =
          some ⟨21, BitVec.ofNat 32 7, e, f, e, 3, [], [], true, out, q.getLsbD 9, true, edges⟩ := rfl
  have hparity := runs_outLoop (write_parity input) e f e 3 [] true (v.getLsbD 31) (q.getLsbD 9) true
    (turned set q ++ driven true 32 v) (k := 7) (by decide)
  have hend (out : Bool) (d : Word) (edges : List (Bool × Bool)) :
      runs (wideStep (writeSetup input)) 2
        ⟨23, 0 - 1, e, d, e, 3, [], [], true, out, q.getLsbD 9, true, edges⟩ =
          some ⟨0, 0 - 1, e, d, 0, 0, [], [e], true, out, q.getLsbD 9, false, edges⟩ := rfl
  exact ⟨_, _, _, by decide, runs_trans hack (runs_head rfl hjump (runs_trans hvalue
    (runs_trans hdata (runs_trans (hnext _ _ _) (runs_trans hparity (hend _ _ _))))))⟩

end

end MiyakoLink.SwdAccess
