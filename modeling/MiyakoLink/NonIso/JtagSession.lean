import MiyakoLink.Lib.PioWide
import MiyakoLink.NonIso.Primitives
import MiyakoLink.NonIso.TdiTdoSeq

/-!
# Sessions of the JTAG primitives

`platform_target_interface_non_iso_jtag_next`, `_tms_seq`, `_tdi_tdo_seq` and `_tdi_seq`, with the
state machine and, in the `#else` branches, with the pins. All four run one program. For `_tms_seq`
the set and the out pin are exchanged, so that the mode signal is what is shifted out.

* `reaches_words`: a pass of the program, with any of its words.
* `session_agrees`: a session clocks what it clocks with the pins, and has the same results.
-/

namespace MiyakoLink.JtagSeq

open Lib.Pio
open NonIso (PioProgram)
open TdiTdo (Buffers Memory Shifts Waiting bitAt byteCount clocked outData received setup waiting
  wanted)

/-! ## With the state machine -/

/-- `current_program` and the state machine. -/
structure State where
  currentProgram : PioProgram
  machine : Machine

/-- `pio_sm_set_out_pins` and `pio_sm_set_set_pins`, of the pins that the other one had. An edge is
about the set and the out pin, in this order. -/
def exchanged (m : Machine) : Machine :=
  { m with setLevel := m.outLevel, outLevel := m.setLevel, edges := m.edges.map Prod.swap }

/-- The program is loaded, and the pins and the machine are initialised. -/
def initialised (m : Machine) : Machine :=
  { m with
    pc := 0, isr := 0, isrCount := 0, setLevel := false, outLevel := false, pindir := true,
    clock := false }

/-- Before `next`, `tdi_tdo_seq` and `tdi_seq`: the mode signal is the set pin. -/
def State.load (s : State) : Machine :=
  if s.currentProgram = .jtagDpTmsSeq then exchanged s.machine
  else if s.currentProgram.isJtag then s.machine
  else initialised s.machine

/-- Before `tms_seq`: the mode signal is the out pin. -/
def State.loadTmsSeq (s : State) : Machine :=
  if s.currentProgram = .jtagDpTmsSeq then s.machine
  else if s.currentProgram.isJtag then exchanged s.machine
  else exchanged (initialised s.machine)

/-- `platform_target_interface_non_iso_jtag_next`. -/
def jtagNext (fuel : Nat) (input : Nat → Bool) (dTMS dTDI : Bool) (s : State) :
    Option (Bool × State) :=
  (get (setup input) fuel
    { s.load with tx := [bit dTMS, bit dTMS, 0, bit dTDI], rx := [] }).map
      fun (ret, m) => (decide (ret ≠ 0), ⟨.jtagDpNext, m⟩)

/-- `platform_target_interface_non_iso_jtag_tms_seq`. -/
def jtagTmsSeq (fuel : Nat) (input : Nat → Bool) (MS : Word) (ticks : Nat) (s : State) :
    Option State :=
  (get (setup input) fuel
    { s.loadTmsSeq with
      tx := [1, 1, BitVec.ofNat 32 (ticks - 1), MS], rx := [], setLevel := true }).map
        fun (_, m) => ⟨.jtagDpTmsSeq, m⟩

/-- `platform_target_interface_non_iso_jtag_tdi_tdo_seq`. -/
def jtagTdiTdoSeq (fuel : Nat) (input : Nat → Bool) (finalTms : Bool) (DO DI ticks : Nat)
    (mem : Memory) (s : State) : Option (Memory × State) :=
  (TdiTdo.pioTdiTdoSeq fuel input finalTms DO DI ticks s.load mem).map fun (m, mem) =>
    (mem, ⟨.jtagDpTdiTdoSeq, m⟩)

/-- The loop of `tdi_seq`. The results are read and dropped. -/
def tdiLoop (fuel : Nat) (input : Nat → Bool) (finalTms : Bool) (mem : Memory) (DI i : Nat)
    (m : Machine) : Option Machine :=
  if i = 0 then some m
  else
    let n := byteCount i
    let outCount := if i > 32 then 32 - 1 else i - 1
    let words := [0, if i > 32 then 0 else bit finalTms, BitVec.ofNat 32 outCount, outData mem DI n]
    (get (setup input) fuel { m with tx := m.tx ++ words }).bind fun (_, m) =>
      tdiLoop fuel input finalTms mem (DI + n) (i - 32) m
termination_by i

/-- `platform_target_interface_non_iso_jtag_tdi_seq`. -/
def jtagTdiSeq (fuel : Nat) (input : Nat → Bool) (finalTms : Bool) (DI ticks : Nat) (mem : Memory)
    (s : State) : Option State :=
  (tdiLoop fuel input finalTms mem DI ticks { s.load with tx := [], rx := [] }).map fun m =>
    ⟨.jtagDpTdiSeq, m⟩

/-! ## With the pins -/

/-- `platform_target_interface_non_iso_jtag_next`, in the branch for the pins. -/
def pinsNext (input : Nat → Bool) (dTMS dTDI : Bool) (edges : List (Bool × Bool)) :
    Bool × List (Bool × Bool) :=
  let edges := edges ++ [(dTMS, dTDI)]
  (input edges.length, edges)

/-- The loop of `tms_seq`, with `data` put out before `MS` is shifted. -/
def pinsTmsLoop : Nat → Word → Bool → List (Bool × Bool) → List (Bool × Bool)
  | 0, _, _, edges => edges
  | ticks + 1, MS, data, edges =>
    let edges := edges ++ [(data, true)]
    let MS := MS >>> 1
    pinsTmsLoop ticks MS (MS.getLsbD 0) edges

def pinsTmsSeq (MS : Word) (ticks : Nat) (edges : List (Bool × Bool)) : List (Bool × Bool) :=
  pinsTmsLoop ticks MS (MS.getLsbD 0) edges

/-- The loop of `tdi_seq`. -/
def pinsTdiLoop (finalTms : Bool) (mem : Memory) :
    Nat → BitVec 8 → Nat → List (Bool × Bool) → List (Bool × Bool)
  | 0, _, _, edges => edges
  | ticks + 1, index, DI, edges =>
    let edges := edges ++ [(if ticks ≠ 0 then false else finalTms, decide (mem DI &&& index ≠ 0))]
    let index := index <<< 1
    if index = 0 then pinsTdiLoop finalTms mem ticks 1 (DI + 1) edges
    else pinsTdiLoop finalTms mem ticks index DI edges

def pinsTdiSeq (finalTms : Bool) (DI ticks : Nat) (mem : Memory) (edges : List (Bool × Bool)) :
    List (Bool × Bool) :=
  pinsTdiLoop finalTms mem ticks 1 DI edges

/-! ## A pass of the program -/

section
variable {input : Nat → Bool} {x y osr isr w f c d : Word} {n : Nat} {tms tdi dir : Bool}
  {edges : List (Bool × Bool)}

/-- The first word is the level of the set pin. -/
theorem reaches_start :
    Reaches (setup input) (waiting x y osr [w, f, c, d] tms tdi dir edges)
      ⟨11, c, f, d, 0, 0, [], [], decide (w ≠ 0), tdi, dir, false, edges⟩ := by
  by_cases hw : w = 0
  · subst hw
    exact TdiTdo.reaches_header
  · have htaken : Reaches (setup input) (waiting x y osr [w, f, c, d] tms tdi dir edges)
        ⟨2, x, w, w, 0, 0, [f, c, d], [], tms, tdi, dir, false, edges⟩ :=
      reaches_of_run (show run _ 2 _ = _ from rfl)
    have hjump : step (setup input) ⟨2, x, w, w, 0, 0, [f, c, d], [], tms, tdi, dir, false, edges⟩ =
        some ⟨if w = 0 then 5 else 3, x, w, w, 0, 0, [f, c, d], [], tms, tdi, dir, false, edges⟩ :=
      rfl
    rw [if_neg hw] at hjump
    rw [decide_eq_true hw]
    exact (htaken.tail ⟨rfl, hjump⟩).trans (reaches_of_run (show run _ 7 _ = _ from rfl))

/-- The loop moves one bit more than `x` counts, at any level of the set pin. -/
theorem reaches_turns (input : Nat → Bool) (y osr isr : Word) (n : Nat) (tms tdi dir : Bool)
    (edges : List (Bool × Bool)) {k : Nat} (hk : k < 2 ^ 32) :
    ∃ x' n' tdi', Reaches (setup input)
      ⟨13, BitVec.ofNat 32 k, y, osr, isr, n, [], [], tms, tdi, dir, false, edges⟩
      ⟨16, x', y, osr >>> (k + 1), (received input edges.length (k + 1)).foldl shiftIn isr, n', [],
        [], tms, tdi', dir, false,
        edges ++ driven tms (k + 1) osr⟩ := by
  induction k generalizing osr isr n tdi edges with
  | zero => exact ⟨_, _, _, TdiTdo.reaches_again⟩
  | succ k ih =>
    obtain ⟨x', n', tdi', hrest⟩ := ih (osr >>> 1) (shiftIn isr (input (edges.length + 1)))
      (min 32 (n + 1)) (osr.getLsbD 0) (edges ++ [(tms, osr.getLsbD 0)]) (by omega)
    refine ⟨x', n', tdi', TdiTdo.reaches_again.trans ?_⟩
    rw [if_pos (ofNat_succ_ne_zero hk), ofNat_succ_sub_one, driven_succ, TdiTdo.received_succ,
      List.foldl_cons]
    rw [List.length_append, List.length_singleton, ← BitVec.shiftRight_add, Nat.add_comm 1,
      List.append_assoc, List.singleton_append] at hrest
    exact hrest

/-- All bits but the last one. -/
theorem reaches_bits (input : Nat → Bool) (f d : Word) (tms tdi dir : Bool)
    (edges : List (Bool × Bool)) {n : Nat} (hn : n < 2 ^ 32) :
    ∃ x' n' tdi', Reaches (setup input)
      ⟨11, BitVec.ofNat 32 n, f, d, 0, 0, [], [], tms, tdi, dir, false, edges⟩
      ⟨16, x', f, d >>> n, (received input edges.length n).foldl shiftIn 0, n', [], [], tms, tdi',
        dir, false, edges ++ driven tms n d⟩ := by
  cases n with
  | zero =>
    refine ⟨0, 0, tdi, reaches_of_run (n := 1) ?_⟩
    show some _ = some _
    rw [driven, List.range_zero, List.map_nil, List.append_nil, BitVec.ushiftRight_zero]
    rfl
  | succ n =>
    have htest : step (setup input)
        ⟨11, BitVec.ofNat 32 (n + 1), f, d, 0, 0, [], [], tms, tdi, dir, false, edges⟩ =
        some ⟨if BitVec.ofNat 32 (n + 1) = 0 then 16 else 12, BitVec.ofNat 32 (n + 1), f, d, 0, 0,
          [], [], tms, tdi, dir, false, edges⟩ := rfl
    have henter : step (setup input)
        ⟨12, BitVec.ofNat 32 (n + 1), f, d, 0, 0, [], [], tms, tdi, dir, false, edges⟩ =
        some ⟨if BitVec.ofNat 32 (n + 1) ≠ 0 then 13 else 13, BitVec.ofNat 32 (n + 1) - 1, f, d, 0,
          0, [], [], tms, tdi, dir, false, edges⟩ := rfl
    rw [if_neg (ofNat_succ_ne_zero hn)] at htest
    rw [ite_self, ofNat_succ_sub_one] at henter
    obtain ⟨x', n', tdi', hturns⟩ := reaches_turns input f d 0 0 tms tdi dir edges
      (Nat.lt_of_succ_lt hn)
    exact ⟨x', n', tdi', .head ⟨rfl, htest⟩ (.head ⟨rfl, henter⟩ hturns)⟩

/-- The edges of `n + 1` bits, with the level of the set pin and its last one. -/
def passed (level final : Bool) (n : Nat) (d : Word) : List (Bool × Bool) :=
  driven level n d ++ [(final, d.getLsbD n)]

/-- A pass of the program with the words `w`, `f`, `n` and `d`. -/
theorem reaches_words (input : Nat → Bool) (x y osr w f d : Word) (tms tdi dir : Bool)
    (edges : List (Bool × Bool)) {n : Nat} (hn : n < 2 ^ 32) :
    ∃ x' y' osr' tms' tdi', Reaches (setup input)
      (waiting x y osr [w, f, BitVec.ofNat 32 n, d] tms tdi dir edges)
      { waiting x' y' osr' [] tms' tdi' dir
          (edges ++ passed (decide (w ≠ 0)) (decide (f ≠ 0)) n d) with
        rx := [shifted (received input edges.length (n + 1))] } := by
  obtain ⟨x', n', tdi', hbits⟩ := reaches_bits input f d (decide (w ≠ 0)) tdi dir edges hn
  refine ⟨x', f, (d >>> n) >>> 1, decide (f ≠ 0), (d >>> n).getLsbD 0,
    reaches_start.trans (hbits.trans ?_)⟩
  have hbit : (d >>> n).getLsbD 0 = d.getLsbD n := BitVec.getLsbD_ushiftRight d n 0
  have hlength : (edges ++ driven (decide (w ≠ 0)) n d).length = edges.length + n := by
    rw [List.length_append, driven_length]
  rw [passed, TdiTdo.received_concat, shifted_concat, ← List.append_assoc, ← hlength, ← hbit]
  exact TdiTdo.reaches_final

/-- A pass, as a function that waits for its result sees it. -/
theorem get_words (input : Nat → Bool) (w f d : Word) {m : Machine} (hm : Waiting m)
    (hn : n < 2 ^ 32) :
    ∃ N m', (∀ fuel, N ≤ fuel →
        get (setup input) fuel { m with tx := [w, f, BitVec.ofNat 32 n, d], rx := [] } =
          some (shifted (received input m.edges.length (n + 1)), m')) ∧
      Waiting m' ∧ m'.edges = m.edges ++ passed (decide (w ≠ 0)) (decide (f ≠ 0)) n d := by
  obtain ⟨pc, x, y, osr, isr, count, tx, rx, tms, tdi, dir, clock, edges⟩ := m
  obtain ⟨rfl, rfl, rfl, rfl⟩ := hm
  obtain ⟨x', y', osr', tms', tdi', hpass⟩ := reaches_words input x y osr w f d tms tdi dir edges hn
  obtain ⟨N, hN⟩ := get_of_reaches hpass rfl
  exact ⟨N, _, hN, ⟨rfl, rfl, rfl, rfl⟩, rfl⟩

end

/-! ## Between two calls -/

/-- The edges so far, of TMS and TDI. -/
def State.clocks (s : State) : List (Bool × Bool) :=
  if s.currentProgram = .jtagDpTmsSeq then s.machine.edges.map Prod.swap else s.machine.edges

/-- The machine waits if it has the program. -/
def Ready (s : State) : Prop := s.currentProgram.isJtag = true → Waiting s.machine

section
variable {s : State}

theorem swap_swap (edges : List (Bool × Bool)) :
    (edges.map Prod.swap).map Prod.swap = edges := by
  rw [List.map_map, Prod.swap_swap_eq, List.map_id]

theorem Ready.load (h : Ready s) : Waiting s.load ∧ s.load.edges = s.clocks := by
  unfold State.load State.clocks
  split
  · rename_i htms
    exact ⟨h (by rw [htms]; rfl), rfl⟩
  · split
    · rename_i hjtag
      exact ⟨h hjtag, rfl⟩
    · exact ⟨⟨rfl, rfl, rfl, rfl⟩, rfl⟩

theorem Ready.loadTmsSeq (h : Ready s) :
    Waiting s.loadTmsSeq ∧ s.loadTmsSeq.edges.map Prod.swap = s.clocks := by
  unfold State.loadTmsSeq State.clocks
  split
  · rename_i htms
    exact ⟨h (by rw [htms]; rfl), rfl⟩
  · split
    · rename_i hjtag
      exact ⟨h hjtag, swap_swap _⟩
    · exact ⟨⟨rfl, rfl, rfl, rfl⟩, swap_swap _⟩

variable {α : Type}

/-- With enough fuel a call with the state machine is what the call with the pins is. -/
def Agrees (call : Nat → Option (α × State)) (pins : α × List (Bool × Bool)) : Prop :=
  ∃ a s', (∃ N, ∀ fuel, N ≤ fuel → call fuel = some (a, s')) ∧ Ready s' ∧ pins = (a, s'.clocks)

theorem Agrees.map {β : Type} {call : Nat → Option (α × State)} {pins : α × List (Bool × Bool)}
    (f : α → β) (h : Agrees call pins) :
    Agrees (fun fuel => (call fuel).map fun p => (f p.1, p.2)) (f pins.1, pins.2) := by
  obtain ⟨a, s', ⟨N, hN⟩, hs', rfl⟩ := h
  exact ⟨f a, s', ⟨N, fun fuel hfuel => congrArg (Option.map _) (hN fuel hfuel)⟩, hs', rfl⟩

end

/-! ## The calls -/

section
variable {input : Nat → Bool} {finalTms : Bool} {DO DI ticks n : Nat} {mem : Memory} {s : State}
  {edges : List (Bool × Bool)}

theorem shifted_one (b : Bool) : decide (shifted [b] ≠ 0) = b := by
  cases b <;> decide

theorem next_agrees (hs : Ready s) (input : Nat → Bool) (dTMS dTDI : Bool) :
    Agrees (fun fuel => jtagNext fuel input dTMS dTDI s) (pinsNext input dTMS dTDI s.clocks) := by
  obtain ⟨hwaiting, hedges⟩ := hs.load
  obtain ⟨N, m', hget, hwaiting', hedges'⟩ := get_words input (bit dTMS) (bit dTMS) (bit dTDI)
    hwaiting (show 0 < 2 ^ 32 by decide)
  have hclock : passed (decide (bit dTMS ≠ 0)) (decide (bit dTMS ≠ 0)) 0 (bit dTDI) =
      [(dTMS, dTDI)] := by
    cases dTMS <;> cases dTDI <;> decide
  have hreply : shifted (received input s.load.edges.length (0 + 1)) =
      shifted [input (s.load.edges.length + 1)] := rfl
  rw [hreply] at hget
  rw [hedges, hclock] at hedges'
  refine ⟨input (s.load.edges.length + 1), ⟨.jtagDpNext, m'⟩, ⟨N, fun fuel hfuel => ?_⟩,
    fun _ => hwaiting', ?_⟩
  · refine (congrArg (Option.map _) (hget fuel hfuel)).trans ?_
    exact congrArg (fun ret => some (ret, State.mk _ m')) (shifted_one _)
  · show (input (s.clocks ++ _).length, _) = (_, m'.edges)
    rw [hedges', hedges, List.length_append]
    rfl

theorem pinsTmsLoop_eq (n : Nat) (MS : Word) (edges : List (Bool × Bool)) :
    pinsTmsLoop n MS (MS.getLsbD 0) edges =
      edges ++ (List.range n).map fun j => (MS.getLsbD j, true) := by
  induction n generalizing MS edges with
  | zero => exact (List.append_nil edges).symm
  | succ n ih =>
    rw [pinsTmsLoop, ih, List.append_assoc, List.range_succ_eq_map, List.map_cons, List.map_map]
    refine congrArg (edges ++ _ :: ·) (List.map_congr_left fun j _ => ?_)
    rw [BitVec.getLsbD_ushiftRight, Nat.add_comm 1 j]
    rfl

theorem passed_swap (n : Nat) (d : Word) :
    (passed true true n d).map Prod.swap =
      (List.range (n + 1)).map fun j => (d.getLsbD j, true) := by
  rw [passed, driven, List.range_succ, List.map_append, List.map_append, List.map_map]
  rfl

theorem tmsSeq_agrees (hs : Ready s) (input : Nat → Bool) (MS : Word) (hpos : 1 ≤ ticks)
    (hticks : ticks < 2 ^ 31) :
    Agrees (fun fuel => (jtagTmsSeq fuel input MS ticks s).map fun s => ((), s))
      ((), pinsTmsSeq MS ticks s.clocks) := by
  obtain ⟨k, rfl⟩ := Nat.exists_eq_add_of_le' hpos
  obtain ⟨hwaiting, hedges⟩ := hs.loadTmsSeq
  obtain ⟨N, m', hget, hwaiting', hedges'⟩ := get_words input 1 1 MS
    (m := { s.loadTmsSeq with setLevel := true }) hwaiting (show k < 2 ^ 32 by omega)
  refine ⟨(), ⟨.jtagDpTmsSeq, m'⟩, ⟨N, fun fuel hfuel => ?_⟩, fun _ => hwaiting', ?_⟩
  · show ((get _ fuel { s.loadTmsSeq with
      tx := [1, 1, BitVec.ofNat 32 k, MS], rx := [], setLevel := true }).map _).map _ = _
    rw [show get _ fuel { s.loadTmsSeq with
      tx := [1, 1, BitVec.ofNat 32 k, MS], rx := [], setLevel := true } = _ from hget fuel hfuel]
    rfl
  · show ((), _) = ((), m'.edges.map Prod.swap)
    rw [hedges', List.map_append, ← hedges]
    exact congrArg ((), ·) ((pinsTmsLoop_eq _ _ _).trans
      (congrArg (_ ++ ·) (passed_swap k MS).symm))

theorem pinsTdiLoop_eq (finalTms : Bool) (mem : Memory) (n DI : Nat) {r : Nat} (hr : r < 8)
    (edges : List (Bool × Bool)) :
    pinsTdiLoop finalTms mem n (BitVec.twoPow 8 r) DI edges =
      edges ++ wanted mem finalTms DI r n := by
  induction n generalizing r DI edges with
  | zero => exact (List.append_nil edges).symm
  | succ n ih =>
    have hclock : (if n ≠ 0 then false else finalTms,
        decide (mem DI &&& BitVec.twoPow 8 r ≠ 0)) :: wanted mem finalTms DI (r + 1) n =
          wanted mem finalTms DI r (n + 1) := by
      rw [TdiTdo.tdi_eq hr]
      cases n with
      | zero => rfl
      | succ n => rw [TdiTdo.wanted_succ, if_pos (Nat.succ_ne_zero n)]
    rw [pinsTdiLoop]
    rcases Nat.lt_or_eq_of_le (Nat.le_of_lt_succ hr) with hsmall | rfl
    · -- the same byte
      obtain ⟨hshift, hne⟩ := TdiTdo.index_shift r hsmall
      rw [hshift, if_neg hne, ih DI (by omega), List.append_assoc, List.singleton_append, hclock]
    · -- the next byte
      rw [TdiTdo.index_last, if_pos rfl, TdiTdo.index_first, ih (DI + 1) (by decide),
        TdiTdo.wanted_next, List.append_assoc, List.singleton_append, hclock]

/-- The last turn of the loop. -/
theorem tdiLoop_last {fuel i : Nat} {m m' : Machine} {w : Word} (hpos : 0 < i) (hi : i ≤ 32)
    (htx : m.tx = []) (hget : get (setup input) fuel { m with tx :=
      [0, bit finalTms, BitVec.ofNat 32 (i - 1), outData mem DI (byteCount i)] } = some (w, m')) :
    tdiLoop fuel input finalTms mem DI i m = some m' := by
  rw [tdiLoop, if_neg (by omega)]
  simp only [if_neg (show ¬ i > 32 by omega), htx, List.nil_append, hget, Option.bind_some]
  rw [show i - 32 = 0 by omega, tdiLoop, if_pos rfl]

/-- A turn of the loop that is not the last one. -/
theorem tdiLoop_word {fuel i : Nat} {m m' : Machine} {w : Word} (hi : 32 < i) (htx : m.tx = [])
    (hget : get (setup input) fuel { m with tx :=
      [0, 0, BitVec.ofNat 32 31, outData mem DI 4] } = some (w, m')) :
    tdiLoop fuel input finalTms mem DI i m =
      tdiLoop fuel input finalTms mem (DI + 4) (i - 32) m' := by
  have hcount : byteCount i = 4 := if_pos hi
  rw [tdiLoop, if_neg (by omega)]
  simp only [if_pos hi, hcount, htx, List.nil_append, hget, Option.bind_some]

theorem tdiLoop_clocks (input : Nat → Bool) (finalTms : Bool) (mem : Memory) (i DI : Nat)
    (x y osr : Word) (tms tdi dir : Bool) (edges : List (Bool × Bool)) :
    ∃ N x' y' osr' tms' tdi', ∀ fuel, N ≤ fuel →
      tdiLoop fuel input finalTms mem DI i (waiting x y osr [] tms tdi dir edges) =
        some (waiting x' y' osr' [] tms' tdi' dir (edges ++ wanted mem finalTms DI 0 i)) := by
  induction i using Nat.strongRecOn generalizing DI x y osr tms tdi edges with
  | ind i ih =>
    rcases Nat.eq_zero_or_pos i with rfl | hpos
    · refine ⟨0, x, y, osr, tms, tdi, fun fuel _ => ?_⟩
      rw [tdiLoop, if_pos rfl]
      exact congrArg (some ∘ waiting x y osr [] tms tdi dir) (List.append_nil edges).symm
    · rcases Nat.lt_or_ge 32 i with hlarge | hsmall
      · -- a full word, without the mode signal
        obtain ⟨N, x₁, y₁, osr₁, tms₁, tdi₁, hget⟩ := TdiTdo.get_pass input x y osr
          0 (outData mem DI 4) tms tdi dir edges (show 31 < 2 ^ 32 by decide)
        obtain ⟨n, rfl⟩ := Nat.exists_eq_add_of_le (Nat.le_of_lt hlarge)
        obtain ⟨N', x', y', osr', tms', tdi', hrest⟩ := ih n (by omega) (DI + 4) x₁ y₁ osr₁ tms₁
          tdi₁ (edges ++ clocked (decide ((0 : Word) ≠ 0)) (31 + 1) (outData mem DI 4))
        have hwords : clocked (decide ((0 : Word) ≠ 0)) (31 + 1) (outData mem DI 4) =
            wanted mem false DI 0 32 := by
          rw [decide_eq_false (not_not.mpr rfl)]
          apply TdiTdo.clocked_eq_wanted
          intro k hk
          rw [TdiTdo.outData_getLsbD _ hk, decide_eq_true (by omega), Bool.true_and]
        have hwanted : wanted mem finalTms (DI + 4) 0 n = wanted mem finalTms DI 32 n := by
          refine List.map_congr_left fun k _ => ?_
          rw [TdiTdo.bitAt_word, Nat.zero_add]
        refine ⟨max N N', x', y', osr', tms', tdi', fun fuel hfuel => ?_⟩
        rw [tdiLoop_word hlarge rfl (hget fuel (Nat.le_trans (Nat.le_max_left N N') hfuel)),
          Nat.add_sub_cancel_left, hrest fuel (Nat.le_trans (Nat.le_max_right N N') hfuel),
          List.append_assoc, hwords, hwanted, TdiTdo.wanted_add (by omega)]
      · -- the rest
        obtain ⟨N, x', y', osr', tms', tdi', hget⟩ := TdiTdo.get_pass input x y osr
          (bit finalTms) (outData mem DI (byteCount i)) tms tdi dir edges
          (show i - 1 < 2 ^ 32 by omega)
        have hlast : i - 1 + 1 = i := by omega
        have hcount := TdiTdo.byteCount_small hsmall
        have hwords : clocked finalTms i (outData mem DI (byteCount i)) =
            wanted mem finalTms DI 0 i := by
          apply TdiTdo.clocked_eq_wanted
          intro k hk
          rw [TdiTdo.outData_getLsbD _ (by omega), decide_eq_true (by omega), Bool.true_and]
        refine ⟨N, x', y', osr', tms', tdi', fun fuel hfuel => ?_⟩
        rw [tdiLoop_last hpos hsmall rfl (hget fuel hfuel), TdiTdo.bit_ne_zero, hlast, hwords]

theorem tdiSeq_agrees (hs : Ready s) (input : Nat → Bool) (finalTms : Bool) (DI ticks : Nat)
    (mem : Memory) :
    Agrees (fun fuel => (jtagTdiSeq fuel input finalTms DI ticks mem s).map fun s => ((), s))
      ((), pinsTdiSeq finalTms DI ticks mem s.clocks) := by
  obtain ⟨hwaiting, hedges⟩ := hs.load
  obtain ⟨N, x', y', osr', tms', tdi', hloop⟩ := tdiLoop_clocks input finalTms mem ticks DI
    s.load.x s.load.y s.load.osr s.load.setLevel s.load.outLevel s.load.pindir s.load.edges
  refine ⟨(), ⟨.jtagDpTdiSeq, waiting x' y' osr' [] tms' tdi' s.load.pindir
    (s.load.edges ++ wanted mem finalTms DI 0 ticks)⟩, ⟨N, fun fuel hfuel => ?_⟩,
    fun _ => ⟨rfl, rfl, rfl, rfl⟩, ?_⟩
  · show (Option.map _ (tdiLoop _ _ _ _ _ _ _)).map _ = _
    rw [hwaiting.eq, hloop fuel hfuel]
    rfl
  · show ((), _) = ((), s.load.edges ++ _)
    rw [hedges]
    exact congrArg ((), ·) (pinsTdiLoop_eq finalTms mem ticks DI (r := 0) (by decide) s.clocks)

/-- The first bits of a buffer. -/
def bits (mem : Memory) (p n : Nat) : List Bool := (List.range n).map (bitAt mem p)

theorem tdiTdoSeq_agrees (hs : Ready s) (input : Nat → Bool) (finalTms : Bool) (mem : Memory)
    (hpos : 1 ≤ ticks) (hbuf : Buffers DO DI ((ticks + 7) / 8)) :
    Agrees
      (fun fuel => (jtagTdiTdoSeq fuel input finalTms DO DI ticks mem s).map fun p =>
        (bits p.1 DO ticks, p.2))
      (bits (TdiTdo.pinsTdiTdoSeq input finalTms DO DI ticks s.clocks mem).2 DO ticks,
        (TdiTdo.pinsTdiTdoSeq input finalTms DO DI ticks s.clocks mem).1) := by
  obtain ⟨k, rfl⟩ := Nat.exists_eq_add_of_le' hpos
  obtain ⟨hwaiting, hedges⟩ := hs.load
  obtain ⟨N, x', y', osr', tms', tdi', edges', mem', hloop, hpio⟩ := TdiTdo.pioLoop_shifts input
    finalTms (k + 1) DO DI hbuf s.load.x s.load.y s.load.osr s.load.setLevel s.load.outLevel
    s.load.pindir s.load.edges mem
  have hsize : 0 + k + 8 = k + 1 + 7 := by omega
  obtain ⟨edges₁, mem₁, hrun, hpins, -⟩ := TdiTdo.pinsLoop_shifts input finalTms k DO DI (r := 0)
    (by decide) 0 (fun _ _ => BitVec.getLsbD_zero) (by rwa [hsize]) s.clocks mem
  have hbits : bits mem₁ DO (k + 1) = bits mem' DO (k + 1) := by
    refine List.map_congr_left fun j hj => ?_
    have hj := List.mem_range.mp hj
    have hleft := hpins.bits j hj
    have hright := hpio.bits j hj
    rw [Nat.zero_add] at hleft hright
    rw [hleft, hright, hedges]
  refine ⟨bits mem' DO (k + 1), ⟨.jtagDpTdiTdoSeq, waiting x' y' osr' [] tms' tdi' s.load.pindir
    edges'⟩, ⟨N, fun fuel hfuel => ?_⟩, fun _ => ⟨rfl, rfl, rfl, rfl⟩, ?_⟩
  · show (Option.map _ (TdiTdo.pioLoop _ _ _ _ _ _ _ _)).map _ = _
    rw [hwaiting.eq, hloop fuel hfuel]
    rfl
  · have hpinsRun : TdiTdo.pinsTdiTdoSeq input finalTms DO DI (k + 1) s.clocks mem =
        (edges₁, mem₁) := hrun
    have hclocks : edges₁ = edges' := by
      rw [hpins.clocks, hpio.clocks, hedges]
    rw [hpinsRun, hbits, hclocks]
    rfl

end

/-! ## Sessions -/

/-- A call, with the memory that its buffers are in. -/
inductive Call where
  | next (dTMS dTDI : Bool)
  | tmsSeq (MS : Word) (ticks : Nat)
  | tdiTdoSeq (finalTms : Bool) (DO DI ticks : Nat) (mem : Memory)
  | tdiSeq (finalTms : Bool) (DI ticks : Nat) (mem : Memory)

/-- What a call returns: the level of TDO, or the bits in `DO`. -/
inductive Reply where
  | done
  | level (ret : Bool)
  | bits (data : List Bool)
  deriving DecidableEq

/-- There is something to be clocked, and the buffers do not overlap unless they are the same. -/
def Call.Valid : Call → Prop
  | .next _ _ | .tdiSeq _ _ _ _ => True
  | .tmsSeq _ ticks => 1 ≤ ticks ∧ ticks < 2 ^ 31
  | .tdiTdoSeq _ DO DI ticks _ => 1 ≤ ticks ∧ Buffers DO DI ((ticks + 7) / 8)

/-- A call with the state machine. -/
def pio (input : Nat → Bool) (fuel : Nat) : Call → StateT State Option Reply
  | .next dTMS dTDI => fun s =>
    (jtagNext fuel input dTMS dTDI s).map fun (ret, s) => (.level ret, s)
  | .tmsSeq MS ticks => fun s =>
    (jtagTmsSeq fuel input MS ticks s).map fun s => (.done, s)
  | .tdiTdoSeq finalTms DO DI ticks mem => fun s =>
    (jtagTdiTdoSeq fuel input finalTms DO DI ticks mem s).map fun (mem, s) =>
      (.bits (bits mem DO ticks), s)
  | .tdiSeq finalTms DI ticks mem => fun s =>
    (jtagTdiSeq fuel input finalTms DI ticks mem s).map fun s => (.done, s)

/-- A call with the pins. The state is what has been clocked. -/
def pins (input : Nat → Bool) : Call → StateM (List (Bool × Bool)) Reply
  | .next dTMS dTDI => fun edges =>
    let (ret, edges) := pinsNext input dTMS dTDI edges
    (.level ret, edges)
  | .tmsSeq MS ticks => fun edges => (.done, pinsTmsSeq MS ticks edges)
  | .tdiTdoSeq finalTms DO DI ticks mem => fun edges =>
    let (edges, mem) := TdiTdo.pinsTdiTdoSeq input finalTms DO DI ticks edges mem
    (.bits (bits mem DO ticks), edges)
  | .tdiSeq finalTms DI ticks mem => fun edges => (.done, pinsTdiSeq finalTms DI ticks mem edges)

theorem call_agrees {s : State} (hs : Ready s) (input : Nat → Bool) {call : Call}
    (hcall : call.Valid) :
    Agrees (fun fuel => pio input fuel call s) (pins input call s.clocks) := by
  cases call with
  | next dTMS dTDI => exact (next_agrees hs input dTMS dTDI).map Reply.level
  | tmsSeq MS ticks =>
    have h := (tmsSeq_agrees hs input MS hcall.1 hcall.2).map fun _ => Reply.done
    simp only [Option.map_map] at h
    exact h
  | tdiTdoSeq finalTms DO DI ticks mem =>
    have h := (tdiTdoSeq_agrees hs input finalTms mem hcall.1 hcall.2).map Reply.bits
    simp only [Option.map_map] at h
    exact h
  | tdiSeq finalTms DI ticks mem =>
    have h := (tdiSeq_agrees hs input finalTms DI ticks mem).map fun _ => Reply.done
    simp only [Option.map_map] at h
    exact h

/-- A session with the state machine returns, with enough fuel. It has the results of the session
with the pins, and clocks what that clocks. -/
theorem session_agrees {s : State} (hs : Ready s) (input : Nat → Bool) {calls : List Call}
    (hcalls : ∀ call ∈ calls, call.Valid) :
    ∃ replies s', (∃ N, ∀ fuel, N ≤ fuel → calls.mapM (pio input fuel) s = some (replies, s')) ∧
      Ready s' ∧ calls.mapM (pins input) s.clocks = (replies, s'.clocks) := by
  induction calls generalizing s with
  | nil => exact ⟨[], s, ⟨0, fun _ _ => rfl⟩, hs, rfl⟩
  | cons call calls ih =>
    obtain ⟨reply, s₁, ⟨N₁, hfirst⟩, hs₁, hpins₁⟩ :=
      call_agrees hs input (hcalls call List.mem_cons_self)
    obtain ⟨replies, s₂, ⟨N₂, hrest⟩, hs₂, hpins₂⟩ :=
      ih hs₁ fun c hc => hcalls c (List.mem_cons_of_mem _ hc)
    refine ⟨reply :: replies, s₂, ⟨max N₁ N₂, fun fuel hfuel => ?_⟩, hs₂, ?_⟩
    · rw [List.mapM_cons]
      show (pio input fuel call s).bind _ = _
      rw [show pio input fuel call s = _ from
        hfirst fuel (Nat.le_trans (Nat.le_max_left N₁ N₂) hfuel)]
      show (calls.mapM (pio input fuel) s₁).bind _ = _
      rw [hrest fuel (Nat.le_trans (Nat.le_max_right N₁ N₂) hfuel)]
      rfl
    · rw [List.mapM_cons]
      show (let r := pins input call s.clocks
        let rs := calls.mapM (pins input) r.2
        (r.1 :: rs.1, rs.2)) = _
      rw [hpins₁]
      show (let rs := calls.mapM (pins input) s₁.clocks; (reply :: rs.1, rs.2)) = _
      rw [hpins₂]

/-- The switch to JTAG, and a register of nine bits. -/
theorem session_agrees_switch : ∃ replies s',
    (∃ N, ∀ fuel, N ≤ fuel →
      [Call.next true false, .tmsSeq 0xE73C 16, .tdiTdoSeq true 0 0 9 fun _ => 0xA5,
        .next false true].mapM (pio (fun k => k % 3 = 0) fuel)
          ⟨.notSet, waiting 0 0 0 [] false false false []⟩ = some (replies, s')) ∧
      Ready s' ∧
      [Call.next true false, .tmsSeq 0xE73C 16, .tdiTdoSeq true 0 0 9 fun _ => 0xA5,
        .next false true].mapM (pins fun k => k % 3 = 0) [] = (replies, s'.clocks) :=
  session_agrees (s := ⟨.notSet, waiting 0 0 0 [] false false false []⟩)
    (fun h => absurd h Bool.false_ne_true) _ (by
      intro call hcall
      simp only [List.mem_cons, List.not_mem_nil, or_false] at hcall
      rcases hcall with rfl | rfl | rfl | rfl
      · trivial
      · exact ⟨by decide, by decide⟩
      · exact ⟨by decide, .inl rfl⟩
      · trivial)

end MiyakoLink.JtagSeq
