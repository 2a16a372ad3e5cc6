import MiyakoLink.Lib.Guarded
import MiyakoLink.NonIso.Primitives
import MiyakoLink.NonIso.SeqIn

/-!
# Sessions of `seq_in` and its siblings

`platform_target_interface_non_iso_seq_in`, `_seq_in_parity`, `_seq_out` and `_seq_out_parity` with
their state machine, the bit-bang `swdptap_seq_in` and `swdptap_seq_in_parity`, and the reads of an
acknowledgement in the low access and the low write.

* `shifted_eq_iff`: with fewer than 32 bits the data is aligned to the other end, so that it is
  right if it is zero.
* `pioSeqIn_full`: with 32 bits a word is left behind, and the parity bit is not looked at.
* `sessions_iff`: exactly the sessions without these two are right.
-/

namespace MiyakoLink.SwdSeq

open Lib Lib.Pio
open NonIso (PioProgram TmsDirection)

/-! ## With the state machine -/

/-- `target_interface_param` and the state machine. -/
structure State where
  currentProgram : PioProgram
  tmsDirection : TmsDirection
  machine : Machine

/-- The level of SWDIO after each number of rising edges of a call, and how many instructions the
machine still executes before the call stops it. -/
structure Wire where
  input : Nat → Bool
  slack : Nat

/-- Another program is loaded and the machine is initialised; the pins too, the first time. -/
def State.load (s : State) (program : PioProgram) : Machine :=
  if s.currentProgram = program then s.machine
  else
    let m := if s.tmsDirection = .notInitialized then
        { s.machine with setLevel := false, outLevel := false, pindir := false, clock := false }
      else s.machine
    { m with pc := 0, isr := 0, isrCount := 0 }

/-- An input needs a clock to turn the line. -/
def State.turnsIn (s : State) : Bool :=
  s.tmsDirection ≠ .dirIn && s.tmsDirection ≠ .notInitialized

/-- The end of `platform_pio_non_iso_seq_in`, from the machine with its words on; `parity` is
`*pParity` before. -/
def takeWords (fuel : Nat) (wire : Wire) (hasParity : Bool) (parity : Word) (m : Machine) :
    Option (Word × Word × State) :=
  let S := seqInSetup wire.input
  (get S fuel m).bind fun (data, m) =>
    (if hasParity then get S fuel m else some (parity, m)).bind fun (parity, m) =>
      (get S fuel m).map fun (_, m) =>
        (data, parity, ⟨.swdDpLowSeqIn, if hasParity then .dirOut else .dirIn, runOn S wire.slack m⟩)

/-- `platform_pio_non_iso_seq_in`, with `*pData` and `*pParity` before. -/
def pioSeqIn (fuel : Nat) (wire : Wire) (ticks : Nat) (hasParity : Bool) (data parity : Word)
    (s : State) : Option (Word × Word × State) :=
  if ticks = 0 then some (data, parity, s)
  else
    let words := [bit s.turnsIn, BitVec.ofNat 32 (if ticks > 32 then 32 - 1 else ticks - 1),
      if hasParity then 0x03 else 0x00]
    takeWords fuel wire hasParity parity
      { s.load .swdDpLowSeqIn with tx := words, rx := [], edges := [] }

/-- `platform_target_interface_non_iso_seq_in`. -/
def seqIn (fuel : Nat) (wire : Wire) (ticks : Nat) (s : State) : Option (Word × State) :=
  (pioSeqIn fuel wire ticks false 0 0 s).map fun (ret, _, s) => (ret, s)

/-- `__builtin_popcount`. -/
def popcount (w : Word) : Nat := (List.range 32).countP fun k => w.getLsbD k

/-- `platform_target_interface_non_iso_seq_in_parity`. -/
def seqInParity (fuel : Nat) (wire : Wire) (ret : Word) (ticks : Nat) (s : State) :
    Option (Word × Bool × State) :=
  (pioSeqIn fuel wire ticks true ret 0 s).map fun (ret, parity, s) =>
    (ret, decide ((if parity ≠ 0 then popcount ret + 1 else popcount ret) % 2 = 1), s)

/-- `platform_pio_non_iso_seq_out`. -/
def pioSeqOut (fuel : Nat) (wire : Wire) (MS : Word) (ticks : Nat) (isParity : Bool)
    (parity : Word) (s : State) : Option State :=
  if ticks = 0 then some s
  else
    let S := seqOutSetup wire.input
    let words := [bit (s.tmsDirection ≠ .dirOut),
      BitVec.ofNat 32 (if ticks > 32 then 32 - 1 else ticks - 1), MS,
      if isParity then parity <<< 1 ||| 1 else 0]
    (get S fuel { s.load .swdDpLowSeqOut with tx := words, rx := [], edges := [] }).map fun (_, m) =>
      ⟨.swdDpLowSeqOut, .dirOut, runOn S wire.slack m⟩

/-- `platform_target_interface_non_iso_seq_out`. -/
def seqOut (fuel : Nat) (wire : Wire) (MS : Word) (ticks : Nat) (s : State) : Option State :=
  pioSeqOut fuel wire MS ticks false 0 s

/-- `platform_target_interface_non_iso_seq_out_parity`. -/
def seqOutParity (fuel : Nat) (wire : Wire) (MS : Word) (ticks : Nat) (s : State) :
    Option State :=
  pioSeqOut fuel wire MS ticks true (BitVec.ofNat 32 (popcount MS % 2)) s

/-! ## With the pins -/

/-- One turn of the loop: `index`, `res` and `parity`. -/
def swdptapBit (input : Nat → Bool) (start : Nat) : Word × Word × Bool → Nat → Word × Word × Bool
  | (index, res, parity), k =>
    if input (start + k) then (index <<< 1, res ||| index, !parity)
    else (index <<< 1, res, parity)

/-- The loop, behind `start` rising edges. -/
def swdptapBits (input : Nat → Bool) (start ticks : Nat) : Word × Word × Bool :=
  (List.range ticks).foldl (swdptapBit input start) (1, 0, false)

/-- `swdptap_seq_in`. -/
def swdptapSeqIn (input : Nat → Bool) (start ticks : Nat) : Word :=
  (swdptapBits input start ticks).2.1

/-- `swdptap_seq_in_parity`. -/
def swdptapSeqInParity (input : Nat → Bool) (start ticks : Nat) : Word × Bool :=
  let (_, res, parity) := swdptapBits input start ticks
  (res, if input (start + ticks) then !parity else parity)

/-! ## The callers -/

/-- `SWDP_ACK_OK`. -/
abbrev ackOk : Word := 0x01

/-- `ack` in `firmware_swdp_low_access`. -/
def lowAccessAck (fuel : Nat) (wire : Wire) (s : State) : Option (Word × State) :=
  (seqIn fuel wire 3 s).map fun (res, s) => (res >>> 29, s)

/-- What `firmware_dp_low_write` returns. -/
def lowWriteFails (fuel : Nat) (wire : Wire) (s : State) : Option (Bool × State) :=
  (seqIn fuel wire 3 s).map fun (res, s) => (decide (res ≠ ackOk), s)

/-! ## Bits of the data -/

/-- How many of `n` bits are ones. -/
def ones (input : Nat → Bool) (start n : Nat) : Nat :=
  (List.range n).countP fun k => input (start + k)

theorem ones_succ (input : Nat → Bool) (start n : Nat) :
    ones input start (n + 1) = ones input start n + if input (start + n) then 1 else 0 := by
  unfold ones
  rw [List.range_succ, List.countP_append, List.countP_singleton]

section
variable {input : Nat → Bool} {start n : Nat}

theorem shifted_samples (hn : n ≤ 32) {k : Nat} (hk : k < 32) :
    (shifted (samples input start n)).getLsbD k =
      (decide (32 ≤ k + n) && input (start + (k + n - 32))) := by
  have hlength := samples_length input start n
  rw [shifted_getLsbD (by omega) hk, hlength]
  split
  · rename_i hin
    rw [decide_eq_true hin, Bool.true_and, samples, List.getD_eq_getElem?_getD, List.getElem?_map,
      List.getElem?_range (by omega)]
    rfl
  · rename_i hout
    rw [decide_eq_false hout, Bool.false_and]

theorem popcount_shifted (hn : n ≤ 32) : popcount (shifted (samples input start n)) =
    ones input start n := by
  have hsplit : List.range 32 = List.range (32 - n) ++ (List.range n).map (32 - n + ·) := by
    rw [← List.range_add, Nat.sub_add_cancel hn]
  have hlow : (List.range (32 - n)).countP
      (fun k => (shifted (samples input start n)).getLsbD k) = 0 := by
    rw [List.countP_eq_zero]
    intro k hk
    have hk := List.mem_range.mp hk
    rw [shifted_samples hn (by omega), decide_eq_false (by omega), Bool.false_and]
    exact Bool.false_ne_true
  rw [popcount, hsplit, List.countP_append, hlow, Nat.zero_add, List.countP_map]
  refine List.countP_congr fun k hk => ?_
  have hk := List.mem_range.mp hk
  have hindex : 32 - n + k + n - 32 = k := by omega
  rw [Function.comp_apply, shifted_samples hn (by omega), decide_eq_true (by omega), Bool.true_and,
    hindex]

theorem one_getLsbD : ∀ k < 32, (1 : Word).getLsbD k = decide (k = 0) := by
  decide

theorem oneShift_getLsbD (n : Nat) {k : Nat} (hk : k < 32) :
    ((1 : Word) <<< n).getLsbD k = decide (k = n) := by
  rw [BitVec.getLsbD_shiftLeft, decide_eq_true hk, Bool.true_and]
  by_cases hlt : k < n
  · rw [decide_eq_true hlt, decide_eq_false (by omega)]
    rfl
  · rw [decide_eq_false hlt, one_getLsbD _ (by omega), Bool.not_false, Bool.true_and]
    exact decide_eq_decide.mpr (by omega)

theorem swdptapBit_eq (index res : Word) (parity : Bool) (k : Nat) :
    swdptapBit input start (index, res, parity) k =
      if input (start + k) then (index <<< 1, res ||| index, !parity)
      else (index <<< 1, res, parity) :=
  rfl

/-- The bits are at the other end. -/
theorem swdptapBits_spec (input : Nat → Bool) (start n : Nat) :
    ∃ res, swdptapBits input start n =
      ((1 : Word) <<< n, res, decide (ones input start n % 2 = 1)) ∧
    ∀ k < 32, res.getLsbD k = (decide (k < n) && input (start + k)) := by
  induction n with
  | zero =>
    refine ⟨0, rfl, fun k _ => ?_⟩
    rw [decide_eq_false (Nat.not_lt_zero k), Bool.false_and]
    exact BitVec.getLsbD_zero
  | succ n ih =>
    obtain ⟨res, hrun, hres⟩ := ih
    have hturn : swdptapBits input start (n + 1) =
        swdptapBit input start (swdptapBits input start n) n := by
      unfold swdptapBits
      rw [List.range_succ, List.foldl_append]
      rfl
    have hindex : (1 : Word) <<< n <<< 1 = (1 : Word) <<< (n + 1) := by
      rw [BitVec.shiftLeft_add]
    rw [hturn, hrun, ones_succ, swdptapBit_eq]
    by_cases hbit : input (start + n) = true
    · refine ⟨res ||| (1 : Word) <<< n, ?_, fun k hk => ?_⟩
      · rw [if_pos hbit, if_pos hbit, hindex, ← decide_not]
        have hodd : (¬ ones input start n % 2 = 1) = ((ones input start n + 1) % 2 = 1) := by
          rw [eq_iff_iff]
          omega
        simp only [hodd]
      · rw [BitVec.getLsbD_or, hres k hk, oneShift_getLsbD n hk]
        rcases Nat.lt_trichotomy k n with hlt | rfl | hgt
        · rw [decide_eq_true hlt, decide_eq_false (show ¬ k = n by omega),
            decide_eq_true (show k < n + 1 by omega), Bool.or_false]
        · rw [hbit, decide_eq_true (Nat.lt_succ_self k), decide_eq_true rfl, Bool.or_true,
            Bool.and_true]
        · rw [decide_eq_false (show ¬ k < n by omega), decide_eq_false (show ¬ k = n by omega),
            decide_eq_false (show ¬ k < n + 1 by omega), Bool.or_false, Bool.false_and]
    · refine ⟨res, ?_, fun k hk => ?_⟩
      · rw [if_neg hbit, if_neg hbit, hindex]
        rfl
      · rw [hres k hk]
        rcases Nat.lt_trichotomy k n with hlt | rfl | hgt
        · rw [decide_eq_true hlt, decide_eq_true (show k < n + 1 by omega)]
        · rw [Bool.eq_false_iff.mpr hbit, Bool.and_false, Bool.and_false]
        · rw [decide_eq_false (show ¬ k < n by omega),
            decide_eq_false (show ¬ k < n + 1 by omega)]

theorem swdptapSeqIn_getLsbD {k : Nat} (hk : k < 32) :
    (swdptapSeqIn input start n).getLsbD k = (decide (k < n) && input (start + k)) := by
  obtain ⟨res, hrun, hres⟩ := swdptapBits_spec input start n
  rw [swdptapSeqIn, hrun]
  exact hres k hk

theorem swdptapSeqInParity_eq : swdptapSeqInParity input start n =
    (swdptapSeqIn input start n, decide (ones input start (n + 1) % 2 = 1)) := by
  obtain ⟨res, hrun, -⟩ := swdptapBits_spec input start n
  rw [swdptapSeqInParity, swdptapSeqIn, hrun, ones_succ]
  by_cases hbit : input (start + n) = true
  · have hodd : (¬ ones input start n % 2 = 1) = ((ones input start n + 1) % 2 = 1) := by
      rw [eq_iff_iff]
      omega
    simp only [if_pos hbit, ← decide_not, hodd]
  · simp only [if_neg hbit, Nat.add_zero]

/-! ## Alignment -/

/-- The data is at the top. -/
theorem shifted_shift (hn : n ≤ 32) :
    shifted (samples input start n) >>> (32 - n) = swdptapSeqIn input start n := by
  apply BitVec.eq_of_getLsbD_eq
  intro k hk
  rw [BitVec.getLsbD_ushiftRight, swdptapSeqIn_getLsbD hk]
  by_cases hin : k < n
  · have hindex : 32 - n + k + n - 32 = k := by omega
    rw [shifted_samples hn (by omega), decide_eq_true (by omega), decide_eq_true hin, hindex]
  · rw [decide_eq_false hin, Bool.false_and]
    exact BitVec.getLsbD_of_ge _ _ (by omega)

/-- At the top and at the bottom are the same if there is no one among fewer than 32 bits: a bit
is then the one `32 - n` before it. -/
theorem shifted_eq_iff (hn : n < 32) :
    shifted (samples input start n) = swdptapSeqIn input start n ↔
      ∀ k < n, input (start + k) = false := by
  constructor
  · intro h k
    induction k using Nat.strongRecOn with
    | ind k ih =>
      intro hk
      have hbit := congrArg (·.getLsbD k) h
      simp only [shifted_samples (Nat.le_of_lt hn) (Nat.lt_trans hk hn),
        swdptapSeqIn_getLsbD (Nat.lt_trans hk hn), decide_eq_true hk, Bool.true_and] at hbit
      rw [← hbit]
      by_cases hin : 32 ≤ k + n
      · rw [ih (k + n - 32) (by omega) (by omega), Bool.and_false]
      · rw [decide_eq_false hin, Bool.false_and]
  · intro h
    apply BitVec.eq_of_getLsbD_eq
    intro k hk
    rw [shifted_samples (Nat.le_of_lt hn) hk, swdptapSeqIn_getLsbD hk]
    have hleft : (decide (32 ≤ k + n) && input (start + (k + n - 32))) = false := by
      by_cases hin : 32 ≤ k + n
      · rw [h _ (by omega), Bool.and_false]
      · rw [decide_eq_false hin, Bool.false_and]
    have hright : (decide (k < n) && input (start + k)) = false := by
      by_cases hin : k < n
      · rw [h k hin, Bool.and_false]
      · rw [decide_eq_false hin, Bool.false_and]
    rw [hleft, hright]

end

/-! ## What a call does -/

/-- The machine waits for the words of the next call. -/
structure Idle (m : Machine) : Prop where
  pc : m.pc = 0
  isr : m.isr = 0
  isrCount : m.isrCount = 0
  tx : m.tx = []
  rx : m.rx = []
  clock : m.clock = false

theorem Idle.stalled {m : Machine} (h : Idle m) (input : Nat → Bool) :
    step (seqInSetup input) m = none ∧ step (seqOutSetup input) m = none := by
  obtain ⟨pc, x, y, osr, isr, n, tx, rx, set, out, dir, clock, edges⟩ := m
  obtain ⟨rfl, rfl, rfl, rfl, rfl, rfl⟩ := h
  exact ⟨rfl, rfl⟩

/-- Between two calls. -/
structure Ready (s : State) : Prop where
  clock : s.tmsDirection ≠ .notInitialized → s.machine.clock = false
  idle : s.currentProgram = .swdDpLowSeqIn ∨ s.currentProgram = .swdDpLowSeqOut →
    s.tmsDirection ≠ .notInitialized ∧ Idle s.machine

/-- The machine as a call starts it. -/
theorem Ready.load {s : State} (hs : Ready s) (program : PioProgram)
    (hprogram : program = .swdDpLowSeqIn ∨ program = .swdDpLowSeqOut) (words : List Word) :
    ∃ x y osr set out dir, { s.load program with tx := words, rx := [], edges := [] } =
      waiting x y osr words set out dir := by
  obtain ⟨current, direction, pc, x, y, osr, isr, n, tx, rx, set, out, dir, clock, edges⟩ := s
  unfold State.load
  by_cases hsame : current = program
  · subst hsame
    obtain ⟨-, rfl, rfl, rfl, -, -, rfl⟩ := hs.idle hprogram
    rw [if_pos rfl]
    exact ⟨x, y, osr, set, out, dir, rfl⟩
  · rw [if_neg hsame]
    by_cases hfirst : direction = .notInitialized
    · subst hfirst
      exact ⟨x, y, osr, false, false, false, rfl⟩
    · have hlow : clock = false := hs.clock hfirst
      subst hlow
      simp only [if_neg hfirst]
      exact ⟨x, y, osr, set, out, dir, rfl⟩

/-- The machine that a call has stopped brings a word, now or if it goes on. -/
def LeavesWord (input : Nat → Bool) (m : Machine) : Prop :=
  ∃ j, (runOn (seqInSetup input) j m).rx ≠ []

theorem Idle.runOn {m : Machine} (h : Idle m) (input : Nat → Bool) (j : Nat) :
    runOn (seqInSetup input) j m = m ∧ runOn (seqOutSetup input) j m = m :=
  ⟨runOn_stalled (h.stalled input).1 j, runOn_stalled (h.stalled input).2 j⟩

section
variable {fuel : Nat} (wire : Wire)

/-- The words of an input of `k + 1` bits are taken. -/
theorem pioSeqIn_succ {s : State} (hs : Ready s) {k : Nat} (hk : k < 32) (hasParity : Bool)
    (data parity : Word) : ∃ x y osr set out dir,
      pioSeqIn fuel wire (k + 1) hasParity data parity s =
        takeWords fuel wire hasParity parity (waiting x y osr
          [bit s.turnsIn, BitVec.ofNat 32 k, if hasParity then 3 else 0] set out dir) := by
  obtain ⟨x, y, osr, set, out, dir, hload⟩ := hs.load .swdDpLowSeqIn (.inl rfl)
    [bit s.turnsIn, BitVec.ofNat 32 k, if hasParity then 3 else 0]
  refine ⟨x, y, osr, set, out, dir, ?_⟩
  rw [← hload, pioSeqIn, if_neg (Nat.succ_ne_zero k), if_neg (by omega)]
  rfl

theorem takeWords_two {parity data w : Word} {m m₁ m₂ : Machine}
    (h : get (seqInSetup wire.input) fuel m = some (data, m₁))
    (h₁ : get (seqInSetup wire.input) fuel m₁ = some (w, m₂)) :
    takeWords fuel wire false parity m = some (data, parity,
      ⟨.swdDpLowSeqIn, .dirIn, runOn (seqInSetup wire.input) wire.slack m₂⟩) := by
  simp only [takeWords, h, h₁, Option.bind_some, Option.map_some, if_neg Bool.false_ne_true]

theorem takeWords_three {parity data parity' w : Word} {m m₁ m₂ m₃ : Machine}
    (h : get (seqInSetup wire.input) fuel m = some (data, m₁))
    (h₁ : get (seqInSetup wire.input) fuel m₁ = some (parity', m₂))
    (h₂ : get (seqInSetup wire.input) fuel m₂ = some (w, m₃)) :
    takeWords fuel wire true parity m = some (data, parity',
      ⟨.swdDpLowSeqIn, .dirOut, runOn (seqInSetup wire.input) wire.slack m₃⟩) := by
  simp only [takeWords, h, h₁, h₂, Option.bind_some, Option.map_some, if_true]

section
variable (hfuel : 128 ≤ fuel) (x y osr parity : Word) (set out dir turn : Bool)
include hfuel

/-- Fewer than 32 bits: the data at the top, and nothing is left. -/
theorem takeWords_plain {k : Nat} (hk : k + 1 < 32) : ∃ m, Idle m ∧
    takeWords fuel wire false parity (waiting x y osr [bit turn, BitVec.ofNat 32 k, 0] set out dir) =
      some (shifted (samples wire.input turn.toNat (k + 1)), parity, ⟨.swdDpLowSeqIn, .dirIn, m⟩) := by
  obtain ⟨a, x₁, osr₁, set₁, dir₁, edges₁, ha, -, hdata⟩ :=
    run_data wire.input x y osr 0 set out dir turn hk
  obtain ⟨y₂, osr₂, w, hend⟩ := run_plain wire.input x₁ y osr₁ set₁ out dir₁ edges₁
  have hidle : Idle ⟨0, x₁, y₂, osr₂, 0, 0, [], [], set₁, out, dir₁, false, edges₁⟩ :=
    ⟨rfl, rfl, rfl, rfl, rfl, rfl⟩
  have htwo := @takeWords_two fuel wire parity _ _ _ _ _
    (get_of_run hdata rfl (by omega)) (get_of_run hend rfl (by omega))
  rw [(hidle.runOn wire.input wire.slack).1] at htwo
  exact ⟨_, hidle, htwo⟩

/-- The same with the parity bit behind the data. -/
theorem takeWords_parity {k : Nat} (hk : k + 1 < 32) : ∃ m, Idle m ∧
    takeWords fuel wire true parity (waiting x y osr [bit turn, BitVec.ofNat 32 k, 3] set out dir) =
      some (shifted (samples wire.input turn.toNat (k + 1)),
        shiftIn 0 (wire.input (turn.toNat + (k + 1))), ⟨.swdDpLowSeqIn, .dirOut, m⟩) := by
  obtain ⟨a, x₁, osr₁, set₁, dir₁, edges₁, ha, hlength, hdata⟩ :=
    run_data wire.input x y osr 3 set out dir turn hk
  obtain ⟨y₂, osr₂, edges₂, hparity⟩ := run_parity wire.input x₁ y osr₁ set₁ out dir₁ edges₁
  obtain ⟨osr₃, dir₃, w, edges₃, hend⟩ := run_parity_end wire.input x₁ y₂ osr₂ set₁ out dir₁ edges₂
  have hidle : Idle ⟨0, x₁, y₂, osr₃, 0, 0, [], [], true, out, dir₃, false, edges₃⟩ :=
    ⟨rfl, rfl, rfl, rfl, rfl, rfl⟩
  have hthree := @takeWords_three fuel wire parity _ _ _ _ _ _ _
    (get_of_run hdata rfl (by omega)) (get_of_run hparity rfl (by omega))
    (get_of_run hend rfl (by omega))
  rw [(hidle.runOn wire.input wire.slack).1] at hthree
  rw [← hlength]
  exact ⟨_, hidle, hthree⟩

/-- 32 bits: the word without data is taken for the one at the end, which is left. -/
theorem takeWords_full_plain : ∃ m, LeavesWord wire.input m ∧
    takeWords fuel wire false parity (waiting x y osr [bit turn, BitVec.ofNat 32 31, 0] set out dir) =
      some (shifted (samples wire.input turn.toNat 32), parity, ⟨.swdDpLowSeqIn, .dirIn, m⟩) := by
  obtain ⟨a, osr₁, set₁, dir₁, edges₁, ha, hdata⟩ :=
    run_data_full wire.input x y osr 0 set out dir turn
  obtain ⟨x₂, edges₂, hextra⟩ := run_data_full_extra wire.input y osr₁ [0] set₁ out dir₁ edges₁
  obtain ⟨y₃, osr₃, w, hend⟩ := run_plain wire.input x₂ y osr₁ set₁ out dir₁ edges₂
  refine ⟨_, ⟨6, ?_⟩, takeWords_two wire (get_of_run hdata rfl (by omega))
    (get_of_run hextra rfl (by omega))⟩
  rw [runOn_of_stalled hend step_stalled wire.slack]
  exact List.cons_ne_nil w []

/-- The same with a parity bit, for which the word without data is taken. -/
theorem takeWords_full_parity : ∃ m, LeavesWord wire.input m ∧
    takeWords fuel wire true parity (waiting x y osr [bit turn, BitVec.ofNat 32 31, 3] set out dir) =
      some (shifted (samples wire.input turn.toNat 32), 0, ⟨.swdDpLowSeqIn, .dirOut, m⟩) := by
  obtain ⟨a, osr₁, set₁, dir₁, edges₁, ha, hdata⟩ :=
    run_data_full wire.input x y osr 3 set out dir turn
  obtain ⟨x₂, edges₂, hextra⟩ := run_data_full_extra wire.input y osr₁ [3] set₁ out dir₁ edges₁
  obtain ⟨y₃, osr₃, edges₃, hparity⟩ := run_parity wire.input x₂ y osr₁ set₁ out dir₁ edges₂
  obtain ⟨osr₄, dir₄, w, edges₄, hend⟩ := run_parity_end wire.input x₂ y₃ osr₃ set₁ out dir₁ edges₃
  refine ⟨_, ⟨7, ?_⟩, takeWords_three wire (get_of_run hdata rfl (by omega))
    (get_of_run hextra rfl (by omega)) (get_of_run hparity rfl (by omega))⟩
  rw [runOn_of_stalled hend step_stalled wire.slack]
  exact List.cons_ne_nil w []

end

/-! ## The calls -/

theorem seqIn_of {ticks : Nat} {s s' : State} {w p : Word}
    (h : pioSeqIn fuel wire ticks false 0 0 s = some (w, p, s')) :
    seqIn fuel wire ticks s = some (w, s') := by
  rw [seqIn, h]
  rfl

theorem seqInParity_of {ticks : Nat} {s s' : State} {ret w p : Word}
    (h : pioSeqIn fuel wire ticks true ret 0 s = some (w, p, s')) :
    seqInParity fuel wire ret ticks s =
      some (w, decide ((if p ≠ 0 then popcount w + 1 else popcount w) % 2 = 1), s') := by
  rw [seqInParity, h]
  rfl

section
variable {s : State} (hfuel : 128 ≤ fuel) (hs : Ready s)
include hfuel hs

theorem seqIn_short {k : Nat} (hk : k + 1 < 32) : ∃ m, Idle m ∧
    seqIn fuel wire (k + 1) s =
      some (shifted (samples wire.input s.turnsIn.toNat (k + 1)), ⟨.swdDpLowSeqIn, .dirIn, m⟩) := by
  obtain ⟨x, y, osr, set, out, dir, hcall⟩ := @pioSeqIn_succ fuel wire s hs _
    (Nat.lt_of_succ_lt hk) false 0 0
  obtain ⟨m, hidle, hwords⟩ := takeWords_plain wire hfuel x y osr 0 set out dir s.turnsIn hk
  exact ⟨m, hidle, seqIn_of wire (hcall.trans hwords)⟩

theorem seqIn_full : ∃ m, LeavesWord wire.input m ∧
    seqIn fuel wire 32 s =
      some (shifted (samples wire.input s.turnsIn.toNat 32), ⟨.swdDpLowSeqIn, .dirIn, m⟩) := by
  obtain ⟨x, y, osr, set, out, dir, hcall⟩ := @pioSeqIn_succ fuel wire s hs _
    (Nat.lt_succ_self 31) false 0 0
  obtain ⟨m, hleft, hwords⟩ := takeWords_full_plain wire hfuel x y osr 0 set out dir s.turnsIn
  exact ⟨m, hleft, seqIn_of wire (hcall.trans hwords)⟩

theorem seqInParity_short {k : Nat} (hk : k + 1 < 32) (ret : Word) : ∃ m, Idle m ∧
    seqInParity fuel wire ret (k + 1) s =
      some (shifted (samples wire.input s.turnsIn.toNat (k + 1)),
        decide (ones wire.input s.turnsIn.toNat (k + 1 + 1) % 2 = 1), ⟨.swdDpLowSeqIn, .dirOut, m⟩) := by
  obtain ⟨x, y, osr, set, out, dir, hcall⟩ := @pioSeqIn_succ fuel wire s hs _
    (Nat.lt_of_succ_lt hk) true ret 0
  obtain ⟨m, hidle, hwords⟩ := takeWords_parity wire hfuel x y osr 0 set out dir s.turnsIn hk
  refine ⟨m, hidle, ?_⟩
  rw [seqInParity_of wire (hcall.trans hwords), popcount_shifted (by omega), ones_succ _ _ (k + 1)]
  cases wire.input (s.turnsIn.toNat + (k + 1)) with
  | false => rfl
  | true => rfl

/-- The parity bit is not looked at. -/
theorem seqInParity_full (ret : Word) : ∃ m, LeavesWord wire.input m ∧
    seqInParity fuel wire ret 32 s =
      some (shifted (samples wire.input s.turnsIn.toNat 32),
        decide (ones wire.input s.turnsIn.toNat 32 % 2 = 1), ⟨.swdDpLowSeqIn, .dirOut, m⟩) := by
  obtain ⟨x, y, osr, set, out, dir, hcall⟩ := @pioSeqIn_succ fuel wire s hs _
    (Nat.lt_succ_self 31) true ret 0
  obtain ⟨m, hleft, hwords⟩ := takeWords_full_parity wire hfuel x y osr 0 set out dir s.turnsIn
  refine ⟨m, hleft, ?_⟩
  rw [seqInParity_of wire (hcall.trans hwords), popcount_shifted (Nat.le_refl 32)]
  rfl

-- 32 zeros and a parity bit that is a one: no error
example : (seqInParity 128 ⟨fun k => decide (k = 32), 20⟩ 0 32
      ⟨.notSet, .notInitialized, waiting 0 0 0 [] false false false⟩).map
    (fun (ret, error, s) => (ret, error, s.machine.rx)) = some (0, false, [0]) := by
  decide +kernel

/-- The acknowledgement is decoded as it was sent. -/
theorem lowAccessAck_eq : ∃ s',
    lowAccessAck fuel wire s = some (swdptapSeqIn wire.input s.turnsIn.toNat 3, s') := by
  obtain ⟨m, -, hcall⟩ := seqIn_short wire hfuel hs (show 2 + 1 < 32 by decide)
  refine ⟨⟨.swdDpLowSeqIn, .dirIn, m⟩, ?_⟩
  rw [lowAccessAck, hcall, ← shifted_shift (show 3 ≤ 32 by decide)]
  rfl

/-- No acknowledgement is taken for a good one. -/
theorem lowWriteFails_eq : ∃ s', lowWriteFails fuel wire s = some (true, s') := by
  obtain ⟨m, -, hcall⟩ := seqIn_short wire hfuel hs (show 2 + 1 < 32 by decide)
  have hne : shifted (samples wire.input s.turnsIn.toNat 3) ≠ ackOk := by
    intro h
    have hbit := congrArg (·.getLsbD 0) h
    simp only [shifted_samples (show 3 ≤ 32 by decide) (show 0 < 32 by decide)] at hbit
    exact Bool.false_ne_true hbit
  refine ⟨⟨.swdDpLowSeqIn, .dirIn, m⟩, ?_⟩
  rw [lowWriteFails, hcall, Option.map_some]
  show some (decide (_ ≠ ackOk), _) = _
  rw [decide_eq_true hne]

theorem pioSeqOut_succ (MS parity : Word) (isParity : Bool) (n : Nat) : ∃ m, Idle m ∧
    pioSeqOut fuel wire MS (n + 1) isParity parity s = some ⟨.swdDpLowSeqOut, .dirOut, m⟩ := by
  have hcount : ∃ k < 32, (if n + 1 > 32 then 32 - 1 else n + 1 - 1) = k := by
    split
    · exact ⟨31, by decide, rfl⟩
    · exact ⟨n, by omega, rfl⟩
  obtain ⟨k, hk, hcount⟩ := hcount
  obtain ⟨x, y, osr, set, out, dir, hload⟩ := hs.load .swdDpLowSeqOut (.inr rfl)
    [bit (s.tmsDirection ≠ .dirOut), BitVec.ofNat 32 k, MS,
      if isParity then parity <<< 1 ||| 1 else 0]
  obtain ⟨a, x', y', osr', set', out', dir', v, edges', ha, hrun⟩ := run_out wire.input x y osr MS
    (if isParity then parity <<< 1 ||| 1 else 0) set out dir (s.tmsDirection ≠ .dirOut) hk
  have hidle : Idle ⟨0, x', y', osr', 0, 0, [], [], set', out', dir', false, edges'⟩ :=
    ⟨rfl, rfl, rfl, rfl, rfl, rfl⟩
  have hget : get (seqOutSetup wire.input) fuel _ = _ := get_of_run hrun rfl (by omega)
  refine ⟨_, hidle, ?_⟩
  simp only [pioSeqOut, if_neg (Nat.succ_ne_zero n), hcount, hload, hget, Option.map_some,
    (hidle.runOn wire.input wire.slack).2]

end

end

/-! ## Sessions -/

inductive LowProgram where
  | write
  | accessRead
  | accessWrite

def LowProgram.pioProgram : LowProgram → PioProgram
  | .write => .swdDpLowWrite
  | .accessRead => .swdDpLowAccessRead
  | .accessWrite => .swdDpLowAccessWrite

/-- A call of one of the primitives; `lowAccess` and `lowWrite` are the reads of an acknowledgement
in the callers. `low` is a low write or a low access with a program of its own: each of them ends
with a low clock and drives the line, and nothing else of what it leaves is used again. -/
inductive Call where
  | seqIn (wire : Wire) (ticks : Nat)
  | seqInParity (wire : Wire) (ret : Word) (ticks : Nat)
  | lowAccess (wire : Wire)
  | lowWrite (wire : Wire)
  | seqOut (wire : Wire) (MS : Word) (ticks : Nat)
  | seqOutParity (wire : Wire) (MS : Word) (ticks : Nat)
  | low (program : LowProgram) (left : Machine)

/-- Inputs of 1 to 32 bits. -/
def Call.InRange : Call → Prop
  | .seqIn _ ticks | .seqInParity _ _ ticks => 1 ≤ ticks ∧ ticks ≤ 32
  | _ => True

/-- After `platform_target_interface_non_iso_init`. -/
def start (m : Machine) : State := ⟨.notSet, .notInitialized, m⟩

def call (fuel : Nat) (s : State) : Call → Option State
  | .seqIn wire ticks => (seqIn fuel wire ticks s).map fun (_, s) => s
  | .seqInParity wire ret ticks => (seqInParity fuel wire ret ticks s).map fun (_, _, s) => s
  | .lowAccess wire => (lowAccessAck fuel wire s).map fun (_, s) => s
  | .lowWrite wire => (lowWriteFails fuel wire s).map fun (_, s) => s
  | .seqOut wire MS ticks => seqOut fuel wire MS ticks s
  | .seqOutParity wire MS ticks => seqOutParity fuel wire MS ticks s
  | .low program left => some ⟨program.pioProgram, .dirOut, { left with clock := false }⟩

/-- `seq_in` gives what the bit-bang gives for the same bits, and no word is left behind. -/
def SeqInRight (fuel : Nat) (wire : Wire) (ticks : Nat) (s : State) : Prop :=
  ∃ ret s', seqIn fuel wire ticks s = some (ret, s') ∧
    ret = swdptapSeqIn wire.input s.turnsIn.toNat ticks ∧ ¬ LeavesWord wire.input s'.machine

/-- The same for `seq_in_parity`, which reports an error if the ones are odd in number. -/
def SeqInParityRight (fuel : Nat) (wire : Wire) (ret : Word) (ticks : Nat) (s : State) : Prop :=
  ∃ ret' error s', seqInParity fuel wire ret ticks s = some (ret', error, s') ∧
    ret' = (swdptapSeqInParity wire.input s.turnsIn.toNat ticks).1 ∧
    (error = true ↔ ones wire.input s.turnsIn.toNat (ticks + 1) % 2 = 1) ∧
    ¬ LeavesWord wire.input s'.machine

/-- The callers decode what the target has sent, from a `seq_in` that is right. -/
def Right (fuel : Nat) (s : State) : Call → Prop
  | .seqIn wire ticks => SeqInRight fuel wire ticks s
  | .seqInParity wire ret ticks => SeqInParityRight fuel wire ret ticks s
  | .lowAccess wire => SeqInRight fuel wire 3 s ∧ ∃ ack s', lowAccessAck fuel wire s = some (ack, s') ∧
      ack = swdptapSeqIn wire.input s.turnsIn.toNat 3
  | .lowWrite wire => SeqInRight fuel wire 3 s ∧ ∃ fails s', lowWriteFails fuel wire s = some (fails, s') ∧
      (fails = true ↔ swdptapSeqIn wire.input s.turnsIn.toNat 3 ≠ ackOk)
  | .seqOut wire MS ticks => ∃ s', seqOut fuel wire MS ticks s = some s'
  | .seqOutParity wire MS ticks => ∃ s', seqOutParity fuel wire MS ticks s = some s'
  | .low _ _ => True

/-- Fewer than 32 bits, without a one. -/
def Zeros (wire : Wire) (ticks : Nat) (s : State) : Prop :=
  ticks < 32 ∧ ∀ k < ticks, wire.input (s.turnsIn.toNat + k) = false

/-- The calls that are right. -/
def ReadsZeros (s : State) : Call → Prop
  | .seqIn wire ticks | .seqInParity wire _ ticks => Zeros wire ticks s
  | .lowAccess wire | .lowWrite wire => Zeros wire 3 s
  | _ => True

theorem ready_start (m : Machine) : Ready (start m) :=
  ⟨fun h => absurd rfl h, fun h => by
    rcases h with h | h <;> cases h⟩

theorem Idle.ready {m : Machine} (h : Idle m) (program : PioProgram) {direction : TmsDirection}
    (hdirection : direction ≠ .notInitialized) : Ready ⟨program, direction, m⟩ :=
  ⟨fun _ => h.clock, fun _ => ⟨hdirection, h⟩⟩

theorem Idle.leaves_nothing {m : Machine} (h : Idle m) (input : Nat → Bool) :
    ¬ LeavesWord input m := by
  rintro ⟨j, hj⟩
  rw [(h.runOn input j).1] at hj
  exact hj h.rx

section
variable {fuel : Nat} {wire : Wire} {s : State} (hfuel : 128 ≤ fuel) (hs : Ready s)
include hfuel hs

theorem seqInRight_iff {ticks : Nat} (hpos : 1 ≤ ticks) (hticks : ticks ≤ 32) :
    SeqInRight fuel wire ticks s ↔ Zeros wire ticks s := by
  rcases Nat.lt_or_eq_of_le hticks with hlt | rfl
  · obtain ⟨k, rfl⟩ := Nat.exists_eq_add_of_le' hpos
    obtain ⟨m, hidle, hcall⟩ := seqIn_short wire hfuel hs hlt
    have haligned := @shifted_eq_iff wire.input s.turnsIn.toNat (k + 1) hlt
    constructor
    · rintro ⟨ret, s', hcall', hret, -⟩
      obtain ⟨rfl, rfl⟩ := Prod.mk.inj (Option.some.inj (hcall.symm.trans hcall'))
      exact ⟨hlt, haligned.mp hret⟩
    · rintro ⟨-, hzeros⟩
      exact ⟨_, _, hcall, haligned.mpr hzeros, hidle.leaves_nothing wire.input⟩
  · obtain ⟨m, hleft, hcall⟩ := seqIn_full wire hfuel hs
    constructor
    · rintro ⟨ret, s', hcall', -, hnothing⟩
      obtain ⟨rfl, rfl⟩ := Prod.mk.inj (Option.some.inj (hcall.symm.trans hcall'))
      exact absurd hleft hnothing
    · rintro ⟨hlt, -⟩
      exact absurd hlt (Nat.lt_irrefl 32)

theorem seqInParityRight_iff {ret : Word} {ticks : Nat} (hpos : 1 ≤ ticks) (hticks : ticks ≤ 32) :
    SeqInParityRight fuel wire ret ticks s ↔ Zeros wire ticks s := by
  unfold SeqInParityRight
  rw [swdptapSeqInParity_eq]
  rcases Nat.lt_or_eq_of_le hticks with hlt | rfl
  · obtain ⟨k, rfl⟩ := Nat.exists_eq_add_of_le' hpos
    obtain ⟨m, hidle, hcall⟩ := seqInParity_short wire hfuel hs hlt ret
    have haligned := @shifted_eq_iff wire.input s.turnsIn.toNat (k + 1) hlt
    constructor
    · rintro ⟨ret', error, s', hcall', hret, -, -⟩
      obtain ⟨rfl, -⟩ := Prod.mk.inj (Option.some.inj (hcall.symm.trans hcall'))
      exact ⟨hlt, haligned.mp hret⟩
    · rintro ⟨-, hzeros⟩
      exact ⟨_, _, _, hcall, haligned.mpr hzeros, decide_eq_true_iff,
        hidle.leaves_nothing wire.input⟩
  · obtain ⟨m, hleft, hcall⟩ := seqInParity_full wire hfuel hs ret
    constructor
    · rintro ⟨ret', error, s', hcall', -, -, hnothing⟩
      obtain ⟨-, h⟩ := Prod.mk.inj (Option.some.inj (hcall.symm.trans hcall'))
      obtain ⟨-, rfl⟩ := Prod.mk.inj h
      exact absurd hleft hnothing
    · rintro ⟨hlt, -⟩
      exact absurd hlt (Nat.lt_irrefl 32)

theorem right_iff {c : Call} (hc : c.InRange) : Right fuel s c ↔ ReadsZeros s c := by
  cases c with
  | seqIn wire ticks => exact seqInRight_iff hfuel hs hc.1 hc.2
  | seqInParity wire ret ticks => exact seqInParityRight_iff hfuel hs hc.1 hc.2
  | lowAccess wire =>
    refine (and_iff_left ?_).trans (seqInRight_iff hfuel hs (by decide) (by decide))
    obtain ⟨s', hack⟩ := lowAccessAck_eq wire hfuel hs
    exact ⟨_, s', hack, rfl⟩
  | lowWrite wire =>
    refine Iff.trans ?_ (seqInRight_iff hfuel hs (by decide) (by decide))
    refine and_iff_left_of_imp fun hright => ?_
    obtain ⟨-, hzeros⟩ := (seqInRight_iff hfuel hs (by decide) (by decide)).mp hright
    obtain ⟨s', hfails⟩ := lowWriteFails_eq wire hfuel hs
    refine ⟨true, s', hfails, iff_of_true rfl fun hok => ?_⟩
    -- the lowest bit of a good one is a one
    have hbit := congrArg (·.getLsbD 0) hok
    simp only [swdptapSeqIn_getLsbD (show 0 < 32 by decide), hzeros 0 (by decide),
      Bool.and_false] at hbit
    exact Bool.false_ne_true hbit
  | seqOut wire MS ticks =>
    refine iff_of_true ?_ trivial
    cases ticks with
    | zero => exact ⟨s, rfl⟩
    | succ n =>
      obtain ⟨m, -, hcall⟩ := pioSeqOut_succ wire hfuel hs MS 0 false n
      exact ⟨_, hcall⟩
  | seqOutParity wire MS ticks =>
    refine iff_of_true ?_ trivial
    cases ticks with
    | zero => exact ⟨s, rfl⟩
    | succ n =>
      obtain ⟨m, -, hcall⟩ := pioSeqOut_succ wire hfuel hs MS
        (BitVec.ofNat 32 (popcount MS % 2)) true n
      exact ⟨_, hcall⟩
  | low program left => exact Iff.rfl

theorem ready_seqIn (wire : Wire) {ticks : Nat} (hpos : 1 ≤ ticks) (hlt : ticks < 32) :
    ∃ ret s', seqIn fuel wire ticks s = some (ret, s') ∧ Ready s' := by
  obtain ⟨k, rfl⟩ := Nat.exists_eq_add_of_le' hpos
  obtain ⟨m, hidle, hcall⟩ := seqIn_short wire hfuel hs hlt
  exact ⟨_, _, hcall, hidle.ready .swdDpLowSeqIn (by decide)⟩

theorem ready_pioSeqOut {MS parity : Word} {isParity : Bool} {ticks : Nat} {s' : State}
    (h : pioSeqOut fuel wire MS ticks isParity parity s = some s') : Ready s' := by
  cases ticks with
  | zero =>
    obtain rfl := Option.some.inj h
    exact hs
  | succ n =>
    obtain ⟨m, hidle, hcall⟩ := pioSeqOut_succ wire hfuel hs MS parity isParity n
    obtain rfl := Option.some.inj (hcall.symm.trans h)
    exact hidle.ready .swdDpLowSeqOut (by decide)

/-- A call that reads zeros leaves everything ready for the next one. -/
theorem ready_call {c : Call} (hc : c.InRange) (hzeros : ReadsZeros s c) {s' : State}
    (h : call fuel s c = some s') : Ready s' := by
  cases c with
  | seqIn wire ticks =>
    obtain ⟨ret, s₁, hcall, hready⟩ := ready_seqIn hfuel hs wire hc.1 hzeros.1
    rw [call, hcall] at h
    cases h
    exact hready
  | seqInParity wire ret ticks =>
    obtain ⟨k, rfl⟩ := Nat.exists_eq_add_of_le' hc.1
    obtain ⟨m, hidle, hcall⟩ := seqInParity_short wire hfuel hs hzeros.1 ret
    rw [call, hcall] at h
    cases h
    exact hidle.ready .swdDpLowSeqIn (by decide)
  | lowAccess wire =>
    obtain ⟨ret, s₁, hcall, hready⟩ := ready_seqIn hfuel hs wire (show 1 ≤ 3 by decide)
      (by decide)
    rw [call, lowAccessAck, hcall] at h
    cases h
    exact hready
  | lowWrite wire =>
    obtain ⟨ret, s₁, hcall, hready⟩ := ready_seqIn hfuel hs wire (show 1 ≤ 3 by decide)
      (by decide)
    rw [call, lowWriteFails, hcall] at h
    cases h
    exact hready
  | seqOut wire MS ticks => exact ready_pioSeqOut hfuel hs h
  | seqOutParity wire MS ticks => exact ready_pioSeqOut hfuel hs h
  | low program left =>
    cases h
    refine ⟨fun _ => rfl, fun h => ?_⟩
    cases program <;> rcases h with h | h <;> cases h

end

/-- In a session from the start each call is right exactly if each input reads fewer than 32 bits
and only zeros. -/
theorem sessions_iff {fuel : Nat} (hfuel : 128 ≤ fuel) (m : Machine) {l : List Call}
    (hl : ∀ c ∈ l, c.InRange) :
    KeepsTo (call fuel) (Right fuel) (start m) l ↔ KeepsTo (call fuel) ReadsZeros (start m) l :=
  keepsTo_congr (fun _ hs c hc => right_iff hfuel hs (hl c hc))
    (fun _ hs c hc hzeros _ h => ready_call hfuel hs (hl c hc) hzeros h) (ready_start m)

/-- An output, and an acknowledgement without a one. -/
theorem sessions_iff_zeros : KeepsTo (call 128) (Right 128)
    (start (waiting 0 0 0 [] false false false))
    [.seqOut ⟨fun _ => true, 5⟩ 0xA5 8, .lowAccess ⟨fun _ => false, 3⟩] := by
  have hrange (c : Call) (hc : c ∈ [.seqOut ⟨fun _ => true, 5⟩ 0xA5 8,
      .lowAccess ⟨fun _ => false, 3⟩]) : c.InRange := by
    rcases List.mem_cons.mp hc with rfl | hc
    · trivial
    · obtain rfl := List.mem_singleton.mp hc
      trivial
  exact (sessions_iff (Nat.le_refl 128) _ hrange).mpr
    ⟨trivial, fun _ _ => ⟨⟨by decide, fun _ _ => rfl⟩, fun _ _ => trivial⟩⟩

/-- A good acknowledgement. -/
def sendsOk : Wire := ⟨fun k => decide (k = 0), 0⟩

/-- The low write reads a good acknowledgement, which `seq_in` gives in the wrong place. -/
theorem lowWrite_not_right : ¬ KeepsTo (call 128) (Right 128)
    (start (waiting 0 0 0 [] false false false)) [.lowWrite sendsOk] := by
  rintro ⟨h, -⟩
  have hzeros := (@right_iff 128 _ (Nat.le_refl 128) (ready_start _) (.lowWrite sendsOk) trivial).mp h
  exact absurd (hzeros.2 0 (by decide)) (by decide)

end MiyakoLink.SwdSeq
