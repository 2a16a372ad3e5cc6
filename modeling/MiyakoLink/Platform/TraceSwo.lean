import Mathlib.Data.List.GetD
import MiyakoLink.Lib.Manchester
import MiyakoLink.NonIso.TdiTdo

/-!
# The Manchester decoder of the trace output

`TRACE_ISR` of `traceswo.c` for the STM32 platforms. The timer starts again at each rising edge, and
captures the high time of a pulse and its whole time; the routine runs when a pulse ends, and when
the line stays low for too long.

* `session_decodes`: frames that are measured with an error of up to two counts are decoded.
-/

namespace MiyakoLink.Platform.TraceSwo

open Lib TdiTdo

/-- What the routine reads of `TIM_SR`, `TIM_CCR1` and `TIM_CCR2`. -/
structure Capture where
  cc1if : Bool
  cc2if : Bool
  cc1of : Bool
  uif : Bool
  ccr1 : UInt16
  ccr2 : UInt16
deriving DecidableEq

/-- The static variables of the routine, and what it sets in the timer. -/
structure Decoder where
  bt : UInt16
  lastbit : Bool
  decbuf : TdiTdo.Memory
  decbufPos : UInt8
  halfbit : Bool
  notstart : Bool
  period : UInt32
  updateIrq : Bool

abbrev allowedDutyError : UInt16 := 5

/-- The decoder behind a call, and the bytes for `trace_buf_push` if it is called. -/
abbrev Result := Decoder × Option (List (BitVec 8))

namespace Decoder

/-- `flush_and_reset`. -/
def flushAndReset (s : Decoder) : Result :=
  ({ s with
      period := -1
      updateIrq := false
      bt := 0
      decbufPos := 0
      decbuf := fun i => if i < 17 then 0 else s.decbuf i },
    some ((List.range (s.decbufPos.toNat >>> 3)).map s.decbuf))

/-- `lastbit` behind the bits in `decbuf`. -/
def putBit (s : Decoder) : Decoder :=
  let i := s.decbufPos.toNat >>> 3
  { s with
    decbuf := Function.update s.decbuf i
      (s.decbuf i ||| (if s.lastbit then (1 : BitVec 8) else 0) <<< (s.decbufPos.toNat &&& 7))
    decbufPos := s.decbufPos + 1 }

/-- The first bit gives the unit. -/
def sync (duty : UInt16) (s : Decoder) : Decoder :=
  { s with
    bt := duty
    lastbit := true
    halfbit := false
    period := duty.toUInt32 * 6
    updateIrq := true }

/-- The part of `TRACE_ISR` for the low time. -/
def lowTime (cc1if : Bool) (cycle duty : UInt16) (s : Decoder) : Result :=
  let low := ((cycle.toNat : Int) - duty.toNat).tdiv s.bt.toNat
  if !cc1if ∨ 2 < low then s.flushAndReset
  else if 1 < low ∧ s.halfbit then s.flushAndReset
  else
    let s := if 1 < low then putBit { s with halfbit := true, lastbit := !s.lastbit } else s
    if s.decbufPos < 128 then (s, none) else s.flushAndReset

/-- `TRACE_ISR`. -/
def traceIsr (c : Capture) (s : Decoder) : Result :=
  let cycle := c.ccr1
  let duty := c.ccr2
  if (c.cc1of ∨ c.uif) ∧ ¬ (c.cc2if ∨ c.cc1if) then s.flushAndReset
  else if (s.bt ≠ 0 ∧ (2 < duty / s.bt ∨ duty / s.bt = 0)) ∨ duty = 0 then s.flushAndReset
  else
    let s := if c.cc1if then s else { s with notstart := true }
    if s.bt = 0 then
      if s.notstart then ({ s with notstart := false }, none)
      else
        let duty := duty - allowedDutyError
        if cycle / duty ≠ 2 ∧ cycle / duty ≠ 3 then (s, none)
        else
          lowTime c.cc1if cycle duty (s.sync duty)
    else if 1 < duty / s.bt then
      if s.halfbit then
        lowTime c.cc1if cycle duty (putBit { s with halfbit := false, lastbit := !s.lastbit })
      else s.flushAndReset
    else lowTime c.cc1if cycle duty s.putBit

/-- Calls one after the other, and what they push. -/
def run : List Capture → Decoder → Decoder × List (List (BitVec 8))
  | [], s => (s, [])
  | c :: cs, s =>
    let r := s.traceIsr c
    let rest := run cs r.1
    (rest.1, r.2.toList ++ rest.2)

/-- The decoder before the first call. -/
def start : Decoder := ⟨0, false, fun _ => 0, 0, false, false, 0xFFFF, false⟩

end Decoder

/-! ## Bits in the buffer -/

/-- The buffer has some bits, and zeros behind them. -/
def Holds (bits : List Bool) (m : TdiTdo.Memory) : Prop := ∀ k, bitAt m 0 k = bits.getD k false

theorem holds_nil : Holds [] fun _ => 0 := fun _ => BitVec.getLsbD_zero

theorem getD_concat_false (bits : List Bool) (b : Bool) (k : Nat) :
    (bits ++ [b]).getD k false = (bits.getD k false || (b && decide (k = bits.length))) := by
  rcases Nat.lt_trichotomy k bits.length with hlt | heq | hgt
  · rw [List.getD_append _ _ _ _ hlt, decide_eq_false (Nat.ne_of_lt hlt), Bool.and_false, Bool.or_false]
  · subst heq
    rw [List.getD_append_right _ _ _ _ (Nat.le_refl _), Nat.sub_self, decide_eq_true rfl,
      Bool.and_true, List.getD_eq_default _ _ (Nat.le_refl _)]
    rfl
  · rw [List.getD_eq_default _ _ (Nat.le_of_lt hgt), decide_eq_false (Nat.ne_of_gt hgt),
      Bool.and_false, List.getD_eq_default]
    · rfl
    · rw [List.length_append, List.length_singleton]
      omega

theorem getLsbD_bit (b : Bool) {i j : Nat} (hi : i < 8) (hj : j < 8) :
    ((if b then 1 else 0 : BitVec 8) <<< j).getLsbD i = (b && decide (i = j)) := by
  have hall : ∀ (b : Bool) (i j : Fin 8), ((if b then 1 else 0 : BitVec 8) <<< j.val).getLsbD i =
      (b && decide (i.val = j.val)) := by decide
  exact hall b ⟨i, hi⟩ ⟨j, hj⟩

theorem Holds.concat {bits : List Bool} {m : TdiTdo.Memory} (h : Holds bits m) (b : Bool) :
    Holds (bits ++ [b]) (Function.update m (bits.length >>> 3)
      (m (bits.length >>> 3) ||| (if b then (1 : BitVec 8) else 0) <<< (bits.length &&& 7))) := by
  intro k
  have hold := h k
  have hbyte : bits.length >>> 3 = bits.length / 8 := Nat.shiftRight_eq_div_pow _ 3
  have hbit : bits.length &&& 7 = bits.length % 8 := Nat.and_two_pow_sub_one_eq_mod _ 3
  rw [hbyte, hbit, getD_concat_false]
  unfold bitAt at hold ⊢
  rw [Nat.zero_add] at hold ⊢
  by_cases hk : k / 8 = bits.length / 8
  · have hsame : (k % 8 = bits.length % 8) = (k = bits.length) := propext ⟨by omega, by rintro rfl; rfl⟩
    rw [← hk, Function.update_self, BitVec.getLsbD_or, hold,
      getLsbD_bit b (Nat.mod_lt _ (by decide)) (Nat.mod_lt _ (by decide))]
    simp only [hsame]
  · have hne : k ≠ bits.length := fun heq => hk (congrArg (· / 8) heq)
    rw [Function.update_of_ne hk, hold, decide_eq_false hne, Bool.and_false, Bool.or_false]

/-- The bytes behind the bits are 0. -/
theorem Holds.behind {bits : List Bool} {m : TdiTdo.Memory} (h : Holds bits m) {i : Nat}
    (hi : bits.length ≤ 8 * i) : m i = 0 := by
  refine BitVec.eq_of_getLsbD_eq fun j hj => ?_
  have hbit := h (8 * i + j)
  unfold bitAt at hbit
  rw [Nat.zero_add, show (8 * i + j) / 8 = i by omega, show (8 * i + j) % 8 = j by omega] at hbit
  rw [hbit, List.getD_eq_default _ _ (by omega)]
  exact BitVec.getLsbD_zero.symm

/-- The bits of some bytes, the lowest first. -/
def bitsOf (data : List (BitVec 8)) : List Bool :=
  data.flatMap fun w => (List.range 8).map w.getLsbD

theorem bitsOf_length (data : List (BitVec 8)) : (bitsOf data).length = 8 * data.length := by
  induction data with
  | nil => rfl
  | cons w data ih =>
    show ((List.range 8).map w.getLsbD ++ bitsOf data).length = _
    rw [List.length_append, List.length_map, List.length_range, ih, List.length_cons]
    omega

theorem bitsOf_getD {data : List (BitVec 8)} {i j : Nat} (hj : j < 8) :
    (bitsOf data).getD (8 * i + j) false = (data.getD i 0).getLsbD j := by
  induction data generalizing i with
  | nil => exact BitVec.getLsbD_zero.symm
  | cons w data ih =>
    show ((List.range 8).map w.getLsbD ++ bitsOf data).getD _ false = _
    cases i with
    | zero =>
      rw [List.getD_append _ _ _ _ (by simpa using hj)]
      simp [hj]
    | succ i =>
      have hle : ((List.range 8).map w.getLsbD).length ≤ 8 * (i + 1) + j := by
        rw [List.length_map, List.length_range]
        omega
      rw [List.getD_append_right _ _ _ _ hle, List.length_map, List.length_range,
        show 8 * (i + 1) + j - 8 = 8 * i + j by omega, ih]
      rfl

/-- The bytes of the buffer are those whose bits it has. -/
theorem Holds.bytes {data : List (BitVec 8)} {m : TdiTdo.Memory} (h : Holds (bitsOf data) m) :
    (List.range data.length).map m = data := by
  refine List.ext_getElem (by rw [List.length_map, List.length_range]) fun i hi hi' => ?_
  rw [List.getElem_map, List.getElem_range]
  refine BitVec.eq_of_getLsbD_eq fun j hj => ?_
  have hbit := h (8 * i + j)
  rw [bitsOf_getD hj] at hbit
  unfold bitAt at hbit
  rw [Nat.zero_add, show (8 * i + j) / 8 = i by omega, show (8 * i + j) % 8 = j by omega] at hbit
  rw [hbit, List.getD_eq_getElem _ _ hi']

/-! ## Pulses -/

/-- In the middle of a frame, behind `bits`, with a unit of `bt` counts. `last` tells whether the
next pulse begins with a bit, or in the middle of one. -/
structure Synced (bt : UInt16) (bits : List Bool) (last : Bool) (s : Decoder) : Prop where
  bt : s.bt = bt
  lastbit : s.lastbit = last
  halfbit : s.halfbit = !last
  pos : s.decbufPos.toNat = bits.length
  buf : Holds bits s.decbuf

section

variable {bt : UInt16} {bits : List Bool} {last : Bool} {s : Decoder}

theorem Synced.putBit (h : Synced bt bits last s) (hroom : bits.length < 255) :
    Synced bt (bits ++ [last]) last s.putBit where
  bt := h.bt
  lastbit := h.lastbit
  halfbit := h.halfbit
  pos := by
    show (s.decbufPos + 1).toNat = _
    rw [UInt8.toNat_add, h.pos, List.length_append]
    exact Nat.mod_eq_of_lt (show bits.length + 1 < 256 by omega)
  buf := by
    have hbuf := h.buf.concat last
    rw [← h.pos, ← h.lastbit] at hbuf
    rw [← h.lastbit]
    exact hbuf

theorem Synced.turn (h : Synced bt bits last s) :
    Synced bt bits (!last) { s with halfbit := last, lastbit := !s.lastbit } where
  bt := h.bt
  lastbit := congrArg not h.lastbit
  halfbit := (Bool.not_not last).symm
  pos := h.pos
  buf := h.buf

/-- A high time of one or two units. -/
theorem traceIsr_high {c : Capture} (h : Synced bt bits last s) (hbt : bt ≠ 0)
    (hflag : c.cc2if ∨ c.cc1if) {k : Nat} (hhigh : c.ccr2.toNat / bt.toNat = k)
    (hk : k = 1 ∨ k = 2 ∧ last = false) (hroom : bits.length < 255) :
    ∃ s', s.traceIsr c = Decoder.lowTime c.cc1if c.ccr1 c.ccr2 s' ∧
      Synced bt (bits ++ [last || k == 2]) (last || k == 2) s' ∧
      s'.notstart = (s.notstart || !c.cc1if) := by
  obtain ⟨s₁, hs₁⟩ : ∃ s₁, (if c.cc1if = true then s else { s with notstart := true }) = s₁ :=
    ⟨_, rfl⟩
  have hsynced : Synced bt bits last s₁ := by
    rw [← hs₁]
    split
    · exact h
    · exact ⟨h.bt, h.lastbit, h.halfbit, h.pos, h.buf⟩
  have hnotstart : s₁.notstart = (s.notstart || !c.cc1if) := by
    rw [← hs₁]
    cases c.cc1if with
    | true => exact (Bool.or_false _).symm
    | false => exact (Bool.or_true _).symm
  have hunits : (c.ccr2 / bt).toNat = k := by rw [UInt16.toNat_div, hhigh]
  have hregular : ¬ ((bt ≠ 0 ∧ (2 < c.ccr2 / bt ∨ c.ccr2 / bt = 0)) ∨ c.ccr2 = 0) := by
    rw [UInt16.lt_iff_toNat_lt, ← UInt16.toNat_inj, ← UInt16.toNat_inj, hunits]
    rintro (⟨-, h2 | h0⟩ | hzero)
    · change 2 < k at h2
      omega
    · change k = 0 at h0
      omega
    · rw [hzero, show (0 : UInt16).toNat = 0 from rfl, Nat.zero_div] at hhigh
      omega
  have hextended : 1 < c.ccr2 / s₁.bt ↔ 1 < k := by
    rw [UInt16.lt_iff_toNat_lt, hsynced.bt, hunits]
    exact Iff.rfl
  unfold Decoder.traceIsr
  dsimp only
  rw [if_neg fun hnone => hnone.2 hflag, hs₁, h.bt, if_neg hregular,
    if_neg fun hzero => hbt (hsynced.bt.symm.trans hzero)]
  rcases hk with rfl | ⟨rfl, rfl⟩
  · refine ⟨s₁.putBit, if_neg fun hlong => absurd (hextended.mp hlong) (by decide), ?_, hnotstart⟩
    rw [show (1 == 2) = false from rfl, Bool.or_false]
    exact hsynced.putBit hroom
  · exact ⟨_, (if_pos (hextended.mpr (by decide))).trans (if_pos hsynced.halfbit),
      hsynced.turn.putBit hroom, hnotstart⟩

/-- A low time of one unit. -/
theorem lowTime_one {cycle duty : UInt16} (h : Synced bt bits last s) (hroom : bits.length < 128)
    (hlow : ((cycle.toNat : Int) - duty.toNat).tdiv bt.toNat ≤ 1) :
    Decoder.lowTime true cycle duty s = (s, none) := by
  have hpos : s.decbufPos < 128 := by
    rw [UInt8.lt_iff_toNat_lt, h.pos]
    exact hroom
  have hshort : ¬ 1 < ((cycle.toNat : Int) - duty.toNat).tdiv bt.toNat := Int.not_lt.mpr hlow
  have hgoes : ¬ ((!true) = true ∨ 2 < ((cycle.toNat : Int) - duty.toNat).tdiv bt.toNat) := by
    rintro (h | h)
    · exact Bool.false_ne_true h
    · omega
  unfold Decoder.lowTime
  dsimp only
  rw [h.bt, if_neg hgoes, if_neg fun h => hshort h.1, if_neg hshort, if_pos hpos]

/-- A low time of two units behind a one. -/
theorem lowTime_two {cycle duty : UInt16} (h : Synced bt bits true s) (hroom : bits.length + 1 < 128)
    (hlow : ((cycle.toNat : Int) - duty.toNat).tdiv bt.toNat = 2) :
    ∃ s', Decoder.lowTime true cycle duty s = (s', none) ∧ Synced bt (bits ++ [false]) false s' ∧
      s'.notstart = s.notstart := by
  have hturned : Synced bt bits false { s with halfbit := true, lastbit := !s.lastbit } := h.turn
  have hput := hturned.putBit (by omega)
  have hpos : (Decoder.putBit { s with halfbit := true, lastbit := !s.lastbit }).decbufPos < 128 := by
    rw [UInt8.lt_iff_toNat_lt, hput.pos, List.length_append]
    exact hroom
  rw [← h.bt] at hlow
  have hwhole : ¬ ((1 : Int) < 2 ∧ s.halfbit = true) := by
    rw [h.halfbit]
    decide
  refine ⟨_, ?_, hput, rfl⟩
  unfold Decoder.lowTime
  dsimp only
  rw [hlow, if_neg (by decide), if_neg hwhole, if_pos (show (1 : Int) < 2 by decide), if_pos hpos]

/-- The line stays low. -/
theorem lowTime_end (cycle duty : UInt16) : Decoder.lowTime false cycle duty s = s.flushAndReset := by
  unfold Decoder.lowTime
  exact if_pos (Or.inl rfl)

end

/-! ## Times -/

/-- `n` units of `t` counts are measured as `x`. -/
def Near (t n : Nat) (x : UInt16) : Prop := n * t ≤ x.toNat + 2 ∧ x.toNat ≤ n * t + 2

instance (t n : Nat) (x : UInt16) : Decidable (Near t n x) := inferInstanceAs (Decidable (_ ∧ _))

/-- The decoder is synchronised to units of `t` counts. -/
structure Fits (t : Nat) (bt : UInt16) : Prop where
  large : 31 ≤ t
  above : bt.toNat + 3 ≤ t
  below : t ≤ bt.toNat + 7

section

variable {t k : Nat} {bt cycle duty : UInt16}

theorem Near.high_eq (hfits : Fits t bt) (hk : k = 1 ∨ k = 2) (h : Near t k duty) :
    duty.toNat / bt.toNat = k := by
  obtain ⟨hlarge, habove, hbelow⟩ := hfits
  obtain ⟨hle, hge⟩ := h
  rcases hk with rfl | rfl
  · exact Nat.div_eq_of_lt_le (by omega) (by omega)
  · exact Nat.div_eq_of_lt_le (by omega) (by omega)

theorem tdiv_sub {a b : Nat} (h : b ≤ a) (n : Nat) :
    ((a : Int) - b).tdiv n = ((a - b) / n : Nat) := by
  rw [← Int.ofNat_sub h, Int.ofNat_tdiv]

theorem Near.low_one (hfits : Fits t bt) (hduty : Near t k duty) (hcycle : Near t (k + 1) cycle) :
    ((cycle.toNat : Int) - duty.toNat).tdiv bt.toNat ≤ 1 := by
  obtain ⟨hlarge, habove, hbelow⟩ := hfits
  obtain ⟨hdle, hdge⟩ := hduty
  obtain ⟨hcle, hcge⟩ := hcycle
  rw [Nat.succ_mul] at hcle hcge
  rw [tdiv_sub (by omega)]
  have hlt : (cycle.toNat - duty.toNat) / bt.toNat < 2 := Nat.div_lt_of_lt_mul (by omega)
  omega

theorem Near.low_two (hfits : Fits t bt) (hduty : Near t k duty) (hcycle : Near t (k + 2) cycle) :
    ((cycle.toNat : Int) - duty.toNat).tdiv bt.toNat = 2 := by
  obtain ⟨hlarge, habove, hbelow⟩ := hfits
  obtain ⟨hdle, hdge⟩ := hduty
  obtain ⟨hcle, hcge⟩ := hcycle
  rw [Nat.add_mul] at hcle hcge
  rw [tdiv_sub (by omega)]
  exact congrArg Nat.cast (Nat.div_eq_of_lt_le (by omega) (by omega) : _ = 2)

end

/-! ## Frames -/

/-- Between two frames. -/
structure Idle (s : Decoder) : Prop where
  bt : s.bt = 0
  pos : s.decbufPos = 0
  buf : s.decbuf = fun _ => 0

theorem flushAndReset_idle {s : Decoder} {bits : List Bool} (hroom : bits.length ≤ 136)
    (h : Holds bits s.decbuf) : Idle s.flushAndReset.1 where
  bt := rfl
  pos := rfl
  buf := by
    funext i
    show (if i < 17 then 0 else s.decbuf i) = 0
    split
    · rfl
    · exact h.behind (by omega)

theorem Near.fits {t : Nat} {duty : UInt16} (ht : 31 ≤ t) (h : Near t 1 duty) :
    (duty - allowedDutyError).toNat = duty.toNat - 5 ∧ Fits t (duty - allowedDutyError) := by
  obtain ⟨hle, hge⟩ := h
  have hsub : (duty - allowedDutyError).toNat = duty.toNat - 5 :=
    UInt16.toNat_sub_of_le _ _ (UInt16.le_iff_toNat_le.mpr (show 5 ≤ duty.toNat by omega))
  exact ⟨hsub, ht, by omega, by omega⟩

/-- The first pulse of a frame is for its start bit, and gives the unit. -/
theorem traceIsr_first {c : Capture} {s : Decoder} {t l : Nat} (h : Idle s)
    (hstart : s.notstart = false) (hflag : c.cc1if = true) (ht : 31 ≤ t) (hl : l = 1 ∨ l = 2)
    (hduty : Near t 1 c.ccr2) (hcycle : Near t (1 + l) c.ccr1) :
    ∃ s', s.traceIsr c = Decoder.lowTime true c.ccr1 (c.ccr2 - allowedDutyError) s' ∧
      Synced (c.ccr2 - allowedDutyError) [] true s' ∧ s'.notstart = false := by
  obtain ⟨hsub, hlarge, habove, hbelow⟩ := hduty.fits ht
  obtain ⟨hdle, hdge⟩ := hduty
  obtain ⟨hcle, hcge⟩ := hcycle
  have hregular : ¬ ((s.bt ≠ 0 ∧ (2 < c.ccr2 / s.bt ∨ c.ccr2 / s.bt = 0)) ∨ c.ccr2 = 0) := by
    rintro (⟨hne, -⟩ | hzero)
    · exact hne h.bt
    · rw [hzero, show (0 : UInt16).toNat = 0 from rfl] at hdle
      omega
  have hratio : (c.ccr1 / (c.ccr2 - allowedDutyError)).toNat = 1 + l := by
    rw [UInt16.toNat_div]
    rcases hl with rfl | rfl
    · exact Nat.div_eq_of_lt_le (by omega) (by omega)
    · exact Nat.div_eq_of_lt_le (by omega) (by omega)
  have hcycle : ¬ (c.ccr1 / (c.ccr2 - allowedDutyError) ≠ 2 ∧
      c.ccr1 / (c.ccr2 - allowedDutyError) ≠ 3) := by
    rw [ne_eq, ne_eq, ← UInt16.toNat_inj, ← UInt16.toNat_inj, hratio]
    change ¬ (1 + l ≠ 2 ∧ 1 + l ≠ 3)
    omega
  refine ⟨s.sync (c.ccr2 - allowedDutyError), ?_, ?_, hstart⟩
  · unfold Decoder.traceIsr
    dsimp only
    rw [if_neg fun hnone => hnone.2 (Or.inr hflag), if_neg hregular, if_pos hflag, if_pos h.bt,
      if_neg (by rw [hstart]; decide), if_neg hcycle, hflag]
  · exact ⟨rfl, rfl, rfl, congrArg UInt8.toNat h.pos, h.buf ▸ holds_nil⟩

theorem Near.first_low_one {t : Nat} {duty cycle : UInt16} (ht : 31 ≤ t) (hduty : Near t 1 duty)
    (hcycle : Near t 2 cycle) : ((cycle.toNat : Int) - (duty - allowedDutyError).toNat).tdiv
      (duty - allowedDutyError).toNat ≤ 1 := by
  obtain ⟨hsub, hlarge, habove, hbelow⟩ := hduty.fits ht
  obtain ⟨hdle, hdge⟩ := hduty
  obtain ⟨hcle, hcge⟩ := hcycle
  rw [tdiv_sub (by omega)]
  have hlt : (cycle.toNat - (duty - allowedDutyError).toNat) / (duty - allowedDutyError).toNat < 2 :=
    Nat.div_lt_of_lt_mul (by omega)
  omega

theorem Near.first_low_two {t : Nat} {duty cycle : UInt16} (ht : 31 ≤ t) (hduty : Near t 1 duty)
    (hcycle : Near t 3 cycle) : ((cycle.toNat : Int) - (duty - allowedDutyError).toNat).tdiv
      (duty - allowedDutyError).toNat = 2 := by
  obtain ⟨hsub, hlarge, habove, hbelow⟩ := hduty.fits ht
  obtain ⟨hdle, hdge⟩ := hduty
  obtain ⟨hcle, hcge⟩ := hcycle
  rw [tdiv_sub (by omega)]
  exact congrArg Nat.cast (Nat.div_eq_of_lt_le (by omega) (by omega) : _ = 2)

/-- The captures of some pulses. The last one is for a line that stays low. -/
def Measured (t : Nat) : List (Nat × Nat) → List Capture → Prop
  | p :: ps, c :: cs =>
    Near t p.1 c.ccr2 ∧
      if ps = [] then c.cc1if = false ∧ c.cc2if = true ∧ cs = []
      else c.cc1if = true ∧ Near t (p.1 + p.2) c.ccr1 ∧ Measured t ps cs
  | _, _ => False

/-- The pulses from the one that begins in the bit before `bits`, which is a one or a zero. -/
def pulsesBehind (one last : Bool) (bits : List Bool) : List (Nat × Nat) :=
  if one then Manchester.pulsesFrom (if last then 1 else 2) 1 (Manchester.signal bits)
  else Manchester.pulsesFrom 1 0 (Manchester.signal bits)

instance (t : Nat) : (ps : List (Nat × Nat)) → (cs : List Capture) → Decidable (Measured t ps cs)
  | [], _ => inferInstanceAs (Decidable False)
  | _ :: _, [] => inferInstanceAs (Decidable False)
  | p :: ps, c :: cs =>
    have : Decidable (Measured t ps cs) := instDecidableMeasured t ps cs
    inferInstanceAs (Decidable (Near t p.1 c.ccr2 ∧
      if ps = [] then c.cc1if = false ∧ c.cc2if = true ∧ cs = []
      else c.cc1if = true ∧ Near t (p.1 + p.2) c.ccr1 ∧ Measured t ps cs))

theorem run_none {c : Capture} {s s' : Decoder} (h : s.traceIsr c = (s', none)) (cs : List Capture) :
    s.run (c :: cs) = s'.run cs := by
  rw [Decoder.run, h]
  rfl

theorem pulsesBehind_ne_nil (one last : Bool) (bits : List Bool) : pulsesBehind one last bits ≠ [] := by
  unfold pulsesBehind
  split
  · exact Manchester.pulsesFrom_ne_nil _ _ _
  · exact Manchester.pulsesFrom_ne_nil _ _ _

/-- A pulse that is not the last one. -/
theorem Measured.cons {t : Nat} {p : Nat × Nat} {ps : List (Nat × Nat)} {cs : List Capture}
    (h : Measured t (p :: ps) cs) (hps : ps ≠ []) :
    ∃ c cs', cs = c :: cs' ∧ c.cc1if = true ∧ Near t p.1 c.ccr2 ∧ Near t (p.1 + p.2) c.ccr1 ∧
      Measured t ps cs' := by
  cases cs with
  | nil => exact h.elim
  | cons c cs =>
    obtain ⟨hduty, hmore⟩ := h
    rw [if_neg hps] at hmore
    exact ⟨c, cs, rfl, hmore.1, hduty, hmore.2.1, hmore.2.2⟩

theorem Measured.last {t : Nat} {p : Nat × Nat} {cs : List Capture} (h : Measured t [p] cs) :
    ∃ c, cs = [c] ∧ c.cc1if = false ∧ c.cc2if = true ∧ Near t p.1 c.ccr2 := by
  cases cs with
  | nil => exact h.elim
  | cons c cs =>
    obtain ⟨hduty, hmore⟩ := h
    rw [if_pos rfl] at hmore
    exact ⟨c, by rw [hmore.2.2], hmore.1, hmore.2.1, hduty⟩

section

variable {t : Nat} {bt : UInt16} {bits : List Bool} {last : Bool} {s : Decoder} {c : Capture}

theorem Fits.ne_zero (h : Fits t bt) : bt ≠ 0 := by
  rintro rfl
  have hbelow := h.below
  have hlarge := h.large
  change t ≤ 0 + 7 at hbelow
  omega

/-- A pulse with a short low time. -/
theorem traceIsr_short (hfits : Fits t bt) (h : Synced bt bits last s) (hstart : s.notstart = false)
    (hroom : bits.length + 1 < 128) {k : Nat} (hk : k = 1 ∨ k = 2 ∧ last = false)
    (hflag : c.cc1if = true) (hduty : Near t k c.ccr2) (hcycle : Near t (k + 1) c.ccr1) :
    ∃ s', s.traceIsr c = (s', none) ∧
      Synced bt (bits ++ [last || k == 2]) (last || k == 2) s' ∧ s'.notstart = false := by
  obtain ⟨s', hrun, hs', hstart'⟩ := traceIsr_high h hfits.ne_zero (Or.inr hflag)
    (hduty.high_eq hfits (hk.imp_right And.left)) hk (by omega)
  have hlength : (bits ++ [last || k == 2]).length < 128 := by
    rw [List.length_append]
    exact hroom
  rw [hflag, lowTime_one hs' hlength (Near.low_one hfits hduty hcycle)] at hrun
  rw [hstart, hflag] at hstart'
  exact ⟨s', hrun, hs', hstart'⟩

/-- A pulse with a long low time, which is that of a one with a zero behind it. -/
theorem traceIsr_long (hfits : Fits t bt) (h : Synced bt bits last s) (hstart : s.notstart = false)
    (hroom : bits.length + 2 < 128) (hflag : c.cc1if = true)
    (hduty : Near t (if last then 1 else 2) c.ccr2)
    (hcycle : Near t ((if last then 1 else 2) + 2) c.ccr1) :
    ∃ s', s.traceIsr c = (s', none) ∧ Synced bt (bits ++ [true] ++ [false]) false s' ∧
      s'.notstart = false := by
  have hk : (if last then 1 else 2) = 1 ∨ (if last then 1 else 2) = 2 ∧ last = false := by
    cases last <;> decide
  have hone : (last || (if last then 1 else 2) == 2) = true := by cases last <;> rfl
  obtain ⟨s', hrun, hs', hstart'⟩ := traceIsr_high h hfits.ne_zero (Or.inr hflag)
    (hduty.high_eq hfits (hk.imp_right And.left)) hk (by omega)
  rw [hone] at hs'
  obtain ⟨s'', hlow, hs'', hstart''⟩ := lowTime_two hs' (by rw [List.length_append]; exact hroom)
    (Near.low_two hfits hduty hcycle)
  rw [hflag, hlow] at hrun
  rw [hstart', hstart, hflag] at hstart''
  exact ⟨s'', hrun, hs'', hstart''⟩

/-- The last pulse of a frame. -/
theorem run_last (hfits : Fits t bt) (h : Synced bt bits last s) (hroom : bits.length < 128) {k : Nat}
    (hk : k = 1 ∨ k = 2 ∧ last = false) (hflag : c.cc1if = false) (hflag' : c.cc2if = true)
    (hduty : Near t k c.ccr2) :
    ∃ s' m, s.run [c] = (s', [(List.range ((bits.length + 1) >>> 3)).map m]) ∧ Idle s' ∧
      s'.notstart = true ∧ Holds (bits ++ [last || k == 2]) m := by
  obtain ⟨s', hrun, hs', hstart'⟩ := traceIsr_high h hfits.ne_zero (Or.inl hflag')
    (hduty.high_eq hfits (hk.imp_right And.left)) hk (by omega)
  rw [hflag, lowTime_end] at hrun
  have hidle : Idle s'.flushAndReset.1 :=
    flushAndReset_idle (by rw [List.length_append, List.length_singleton]; omega) hs'.buf
  refine ⟨s'.flushAndReset.1, s'.decbuf, ?_, hidle, ?_, hs'.buf⟩
  · rw [Decoder.run, hrun]
    show (_, [(List.range (s'.decbufPos.toNat >>> 3)).map s'.decbuf]) = _
    rw [hs'.pos, List.length_append]
    rfl
  · rw [hflag, Bool.not_false, Bool.or_true] at hstart'
    exact hstart'

end

theorem Holds.of_concat_false {bits : List Bool} {m : TdiTdo.Memory} (h : Holds (bits ++ [false]) m) :
    Holds bits m := by
  intro k
  rw [h k, getD_concat_false, Bool.false_and, Bool.or_false]

/-- The bits of a frame, when those of `bits` are in the buffer and the next pulse ends in the bit
before `rest`, which is not in the buffer if it is a one. -/
def frameBits (bits : List Bool) (one : Bool) (rest : List Bool) : List Bool :=
  bits ++ (if one then [true] else []) ++ rest

theorem frameBits_cons (bits : List Bool) (one b : Bool) (rest : List Bool) :
    frameBits bits one (b :: rest) =
      frameBits (bits ++ (if one then [true] else []) ++ (if b then [] else [false])) b rest := by
  unfold frameBits
  cases one <;> cases b <;> simp

/-- The rest of a frame is pushed with what is in the buffer. -/
theorem run_bits {t : Nat} {bt : UInt16} (hfits : Fits t bt) {rest bits : List Bool} {one last : Bool}
    {s : Decoder} {cs : List Capture} (h : Synced bt bits last s) (hstart : s.notstart = false)
    (hlast : one = false → last = false) (hroom : (frameBits bits one rest).length + 1 < 128)
    (hcs : Measured t (pulsesBehind one last rest) cs) :
    ∃ s' m n, s.run cs = (s', [(List.range (n >>> 3)).map m]) ∧ Idle s' ∧ s'.notstart = true ∧
      Holds (frameBits bits one rest) m ∧ (frameBits bits one rest).length ≤ n ∧
      n ≤ (frameBits bits one rest).length + 1 := by
  induction rest generalizing bits one last s cs with
  | nil =>
    have hlength : bits.length < 128 := by
      simp only [frameBits, List.length_append, List.append_nil] at hroom
      omega
    cases one with
    | true =>
      obtain ⟨c, rfl, hflag, hflag', hduty⟩ := hcs.last
      have hk : (if last then 1 else 2) = 1 ∨ (if last then 1 else 2) = 2 ∧ last = false := by
        cases last <;> decide
      have hone : (last || (if last then 1 else 2) == 2) = true := by cases last <;> rfl
      obtain ⟨s', m, hrun, hidle, hstart', hm⟩ := run_last hfits h hlength hk hflag hflag' hduty
      rw [hone] at hm
      refine ⟨s', m, bits.length + 1, hrun, hidle, hstart', ?_, ?_, ?_⟩
      · simpa [frameBits] using hm
      · simp [frameBits]
      · simp [frameBits]
    | false =>
      obtain rfl := hlast rfl
      obtain ⟨c, rfl, hflag, hflag', hduty⟩ := hcs.last
      obtain ⟨s', m, hrun, hidle, hstart', hm⟩ :=
        run_last hfits h hlength (Or.inl rfl) hflag hflag' hduty
      refine ⟨s', m, bits.length + 1, hrun, hidle, hstart', ?_, ?_, ?_⟩
      · simpa [frameBits] using Holds.of_concat_false hm
      · simp [frameBits]
      · simp [frameBits]
  | cons b rest ih =>
    rw [frameBits_cons] at hroom ⊢
    have hlength : bits.length + 2 < 128 := by
      cases one <;> cases b <;> simp [frameBits] at hroom <;> omega
    cases one with
    | true =>
      have hpulses : pulsesBehind true last (b :: rest) =
          (if last then 1 else 2, if b then 1 else 2) :: pulsesBehind b b rest := by
        unfold pulsesBehind
        rw [if_pos rfl, Manchester.pulses_one]
        cases b <;> rfl
      rw [hpulses] at hcs
      obtain ⟨c, cs, rfl, hflag, hduty, hcycle, hcs⟩ := hcs.cons (pulsesBehind_ne_nil _ _ _)
      cases b with
      | true =>
        have hk : (if last then 1 else 2) = 1 ∨ (if last then 1 else 2) = 2 ∧ last = false := by
          cases last <;> decide
        have hone : (last || (if last then 1 else 2) == 2) = true := by cases last <;> rfl
        obtain ⟨s', hrun, hs', hstart'⟩ := traceIsr_short hfits h hstart (Nat.lt_of_succ_lt hlength)
          hk hflag hduty hcycle
        rw [hone] at hs'
        rw [run_none hrun]
        simp only [if_true, List.append_nil] at hroom ⊢
        exact ih hs' hstart' (fun h => absurd h (by decide)) hroom hcs
      | false =>
        obtain ⟨s', hrun, hs', hstart'⟩ := traceIsr_long hfits h hstart hlength hflag hduty hcycle
        rw [run_none hrun]
        exact ih hs' hstart' (fun _ => rfl) hroom hcs
    | false =>
      obtain rfl := hlast rfl
      cases b with
      | true =>
        have hpulses : pulsesBehind false false (true :: rest) = pulsesBehind true false rest := by
          unfold pulsesBehind
          rw [if_neg Bool.false_ne_true, Manchester.pulses_zero]
          rfl
        rw [hpulses] at hcs
        simp only [Bool.false_eq_true, if_false, if_true, List.append_nil] at hroom ⊢
        exact ih h hstart (fun h => absurd h (by decide)) hroom hcs
      | false =>
        have hpulses : pulsesBehind false false (false :: rest) =
            (1, 1) :: pulsesBehind false false rest := by
          unfold pulsesBehind
          rw [if_neg Bool.false_ne_true, Manchester.pulses_zero]
          rfl
        rw [hpulses] at hcs
        obtain ⟨c, cs, rfl, hflag, hduty, hcycle, hcs⟩ := hcs.cons (pulsesBehind_ne_nil _ _ _)
        obtain ⟨s', hrun, hs', hstart'⟩ := traceIsr_short hfits h hstart (Nat.lt_of_succ_lt hlength)
          (Or.inl rfl) hflag hduty hcycle
        rw [run_none hrun]
        simp only [Bool.false_eq_true, if_false, List.append_nil] at hroom ⊢
        exact ih hs' hstart' (fun _ => rfl) hroom hcs

/-! ## Sessions -/

/-- A frame: the bytes that are sent with units of `t` counts, the capture of its first edge, and
those of its pulses. -/
structure Frame where
  t : Nat
  data : List (BitVec 8)
  opening : Capture
  pulses : List Capture

def Frame.captures (f : Frame) : List Capture := f.opening :: f.pulses

/-- A frame arrives and is measured. At its first edge `TIM_CCR2` has what it had before, which is 0
as long as nothing has been captured. -/
structure Frame.Arrives (fresh : Bool) (f : Frame) : Prop where
  unit : 31 ≤ f.t
  size : 0 < f.data.length ∧ f.data.length < 16
  opens : f.opening.cc1if = true
  before : f.opening.ccr2 = 0 ↔ fresh = true
  measured : Measured f.t (Manchester.pulses (Manchester.signal (true :: bitsOf f.data))) f.pulses

/-- The first edge only prepares the decoder. -/
theorem run_opening {fresh : Bool} {c : Capture} {s : Decoder} (hs : Idle s)
    (hstart : s.notstart = !fresh) (hflag : c.cc1if = true) (hbefore : c.ccr2 = 0 ↔ fresh = true) :
    ∃ s' out, s.traceIsr c = (s', out) ∧ out.toList.flatten = [] ∧ Idle s' ∧ s'.notstart = false := by
  have hflags : ¬ ((c.cc1of = true ∨ c.uif = true) ∧ ¬ (c.cc2if = true ∨ c.cc1if = true)) :=
    fun hnone => hnone.2 (Or.inr hflag)
  cases fresh with
  | true =>
    refine ⟨s.flushAndReset.1, s.flushAndReset.2, ?_, ?_,
      flushAndReset_idle (Nat.zero_le _) (hs.buf ▸ holds_nil), hstart⟩
    · unfold Decoder.traceIsr
      dsimp only
      rw [if_neg hflags, if_pos (Or.inr (hbefore.mpr rfl))]
    · rw [Decoder.flushAndReset, hs.pos]
      rfl
  | false =>
    have hregular : ¬ ((s.bt ≠ 0 ∧ (2 < c.ccr2 / s.bt ∨ c.ccr2 / s.bt = 0)) ∨ c.ccr2 = 0) := by
      rintro (⟨hne, -⟩ | hzero)
      · exact hne hs.bt
      · exact Bool.false_ne_true (hbefore.mp hzero)
    refine ⟨{ s with notstart := false }, none, ?_, rfl, ⟨hs.bt, hs.pos, hs.buf⟩, rfl⟩
    unfold Decoder.traceIsr
    dsimp only
    rw [if_neg hflags, if_neg hregular, if_pos hflag, if_pos hs.bt,
      if_pos (show s.notstart = true from hstart)]

/-- Behind the first pulse of a frame. -/
theorem run_first {t : Nat} {b : Bool} {rest : List Bool} {cs : List Capture} {s : Decoder}
    (hs : Idle s) (hstart : s.notstart = false) (ht : 31 ≤ t)
    (hcs : Measured t (Manchester.pulses (Manchester.signal (true :: b :: rest))) cs) :
    ∃ bt s' cs', s.run cs = s'.run cs' ∧ Fits t bt ∧
      Synced bt (if b then [] else [false]) b s' ∧ s'.notstart = false ∧
      Measured t (pulsesBehind b b rest) cs' := by
  have hpulses : Manchester.pulses (Manchester.signal (true :: b :: rest)) =
      (1, if b then 1 else 2) :: pulsesBehind b b rest := by
    rw [Manchester.pulses_start, Manchester.pulses_one]
    cases b <;> rfl
  rw [hpulses] at hcs
  obtain ⟨c, cs', rfl, hflag, hduty, hcycle, hcs'⟩ := hcs.cons (pulsesBehind_ne_nil _ _ _)
  have hl : (if b then 1 else 2) = 1 ∨ (if b then 1 else 2) = 2 := by cases b <;> decide
  obtain ⟨s₁, hrun, hs₁, hstart₁⟩ := traceIsr_first hs hstart hflag ht hl hduty hcycle
  refine ⟨c.ccr2 - allowedDutyError, ?_⟩
  cases b with
  | true =>
    rw [lowTime_one hs₁ (by decide) (hduty.first_low_one ht hcycle)] at hrun
    exact ⟨s₁, cs', run_none hrun cs', (hduty.fits ht).2, hs₁, hstart₁, hcs'⟩
  | false =>
    obtain ⟨s₂, hlow, hs₂, hstart₂⟩ := lowTime_two hs₁ (by decide) (hduty.first_low_two ht hcycle)
    rw [hlow] at hrun
    exact ⟨s₂, cs', run_none hrun cs', (hduty.fits ht).2, hs₂, hstart₂.trans hstart₁, hcs'⟩

/-- A frame is pushed, and the decoder is idle again. -/
theorem run_frame {fresh : Bool} {f : Frame} {s : Decoder} (hf : f.Arrives fresh) (hs : Idle s)
    (hstart : s.notstart = !fresh) :
    ∃ s' out, s.run f.captures = (s', out) ∧ out.flatten = f.data ∧ Idle s' ∧ s'.notstart = true := by
  obtain ⟨t, data, opening, pulses⟩ := f
  obtain ⟨s₀, out₀, hopening, hout₀, hs₀, hstart₀⟩ := run_opening hs hstart hf.opens hf.before
  obtain ⟨hpos, hsize⟩ : 0 < data.length ∧ data.length < 16 := hf.size
  obtain ⟨b, rest, hbits⟩ : ∃ b rest, bitsOf data = b :: rest :=
    List.exists_cons_of_length_pos (by rw [bitsOf_length]; omega)
  have hmeasured : Measured t (Manchester.pulses (Manchester.signal (true :: bitsOf data))) pulses :=
    hf.measured
  rw [hbits] at hmeasured
  obtain ⟨bt, s₁, cs, hfirst, hfits, hs₁, hstart₁, hcs⟩ := run_first hs₀ hstart₀ hf.unit hmeasured
  have hframe : frameBits (if b then [] else [false]) b rest = bitsOf data := by
    rw [hbits]
    cases b <;> rfl
  have hlength : (frameBits (if b then [] else [false]) b rest).length = 8 * data.length := by
    rw [hframe, bitsOf_length]
  obtain ⟨s₂, m, n, hrun, hidle, hstart₂, hm, hle, hge⟩ := run_bits hfits hs₁ hstart₁ id
    (by omega) hcs
  rw [hframe] at hm
  rw [hlength] at hle hge
  have hbytes : n >>> 3 = data.length := by
    rw [Nat.shiftRight_eq_div_pow]
    omega
  refine ⟨s₂, out₀.toList ++ [data], ?_, ?_, hidle, hstart₂⟩
  · show Decoder.run (opening :: pulses) s = _
    rw [Decoder.run, hopening]
    dsimp only
    rw [hfirst, hrun, hbytes, hm.bytes]
  · rw [List.flatten_append, hout₀, List.flatten_singleton]
    rfl

/-- Frames one after the other. -/
def Session : Bool → List Frame → Prop
  | _, [] => True
  | fresh, f :: frames => f.Arrives fresh ∧ Session false frames

theorem run_append (cs cs' : List Capture) (s : Decoder) :
    s.run (cs ++ cs') =
      (((s.run cs).1.run cs').1, (s.run cs).2 ++ ((s.run cs).1.run cs').2) := by
  induction cs generalizing s with
  | nil => rfl
  | cons c cs ih => rw [List.cons_append, Decoder.run, Decoder.run, ih, List.append_assoc]

theorem run_session {fresh : Bool} {frames : List Frame} {s : Decoder} (h : Session fresh frames)
    (hs : Idle s) (hstart : s.notstart = !fresh) :
    (s.run (frames.flatMap Frame.captures)).2.flatten = frames.flatMap Frame.data := by
  induction frames generalizing fresh s with
  | nil => rfl
  | cons f frames ih =>
    obtain ⟨s', out, hrun, hout, hidle, hstart'⟩ := run_frame h.1 hs hstart
    rw [List.flatMap_cons, List.flatMap_cons, run_append, List.flatten_append, hrun, hout,
      ih h.2 hidle hstart']

/-! ## Any captures -/

/-- `n` bits have been decoded. -/
def Packed (n : Nat) (s : Decoder) : Prop :=
  s.decbufPos.toNat = n ∧ ∃ bits, bits.length = n ∧ Holds bits s.decbuf

theorem Packed.putBit {n : Nat} {s : Decoder} (h : Packed n s) (hroom : n < 255) :
    Packed (n + 1) s.putBit := by
  obtain ⟨hpos, bits, hlength, hbits⟩ := h
  refine ⟨?_, bits ++ [s.lastbit], ?_, ?_⟩
  · show (s.decbufPos + 1).toNat = _
    rw [UInt8.toNat_add, hpos]
    exact Nat.mod_eq_of_lt (show n + 1 < 256 by omega)
  · rw [List.length_append, hlength, List.length_singleton]
  · have hbuf := hbits.concat s.lastbit
    rw [hlength, ← hpos] at hbuf
    exact hbuf

/-- The decoder between two calls. -/
def Sound (s : Decoder) : Prop := ∃ n, Packed n s ∧ n < 128 ∧ (s.bt = 0 → n = 0)

/-- What a call does. -/
def Inside (r : Result) : Prop := Sound r.1 ∧ ∀ out ∈ r.2, out.length ≤ 16

theorem Sound.idle {s : Decoder} (h : Sound s) (hbt : s.bt = 0) : Idle s := by
  obtain ⟨n, ⟨hpos, bits, hlength, hbits⟩, -, hzero⟩ := h
  obtain rfl := hzero hbt
  refine ⟨hbt, UInt8.toNat_inj.mp hpos, funext fun i => hbits.behind ?_⟩
  rw [hlength]
  exact Nat.zero_le _

theorem Idle.sound {s : Decoder} (h : Idle s) : Sound s :=
  ⟨0, ⟨congrArg UInt8.toNat h.pos, [], rfl, h.buf ▸ holds_nil⟩, by decide, fun _ => rfl⟩

theorem Packed.flush {n : Nat} {s : Decoder} (h : Packed n s) (hroom : n < 136) :
    Inside s.flushAndReset := by
  obtain ⟨hpos, bits, hlength, hbits⟩ := h
  refine ⟨(flushAndReset_idle (by omega) hbits).sound, ?_⟩
  rintro out ⟨⟩
  rw [List.length_map, List.length_range, hpos, Nat.shiftRight_eq_div_pow]
  omega

theorem Packed.goes_on {n : Nat} {s : Decoder} (h : Packed n s) (hroom : n < 128) (hbt : s.bt ≠ 0) :
    Inside (s, none) :=
  ⟨⟨n, h, hroom, fun hzero => absurd hzero hbt⟩, fun _ hout => nomatch hout⟩

theorem lowTime_inside {n : Nat} {s : Decoder} (h : Packed n s) (hroom : n ≤ 128) (hbt : s.bt ≠ 0)
    (cc1if : Bool) (cycle duty : UInt16) : Inside (s.lowTime cc1if cycle duty) := by
  unfold Decoder.lowTime
  dsimp only
  split
  · exact h.flush (by omega)
  split
  · exact h.flush (by omega)
  split
  · have hput : Packed (n + 1) (Decoder.putBit { s with halfbit := true, lastbit := !s.lastbit }) :=
      Packed.putBit h (by omega)
    split
    next hpos =>
      rw [UInt8.lt_iff_toNat_lt, hput.1] at hpos
      exact hput.goes_on hpos hbt
    next => exact hput.flush (by omega)
  · split
    next hpos =>
      rw [UInt8.lt_iff_toNat_lt, h.1] at hpos
      exact h.goes_on hpos hbt
    next => exact h.flush (by omega)

theorem traceIsr_inside {s : Decoder} (h : Sound s) (c : Capture) : Inside (s.traceIsr c) := by
  obtain ⟨n, hn, hroom, hzero⟩ := h
  unfold Decoder.traceIsr
  dsimp only
  split
  · exact hn.flush (by omega)
  split
  · exact hn.flush (by omega)
  have hsame : ∃ s', (if c.cc1if = true then s else { s with notstart := true }) = s' ∧
      Packed n s' ∧ s'.bt = s.bt := by
    split
    · exact ⟨s, rfl, hn, rfl⟩
    · exact ⟨_, rfl, hn, rfl⟩
  obtain ⟨s', hs', hn', hbt'⟩ := hsame
  rw [hs']
  rw [← hbt'] at hzero
  split
  next hbt =>
    split
    · exact ⟨⟨n, hn', hroom, hzero⟩, fun _ hout => nomatch hout⟩
    split
    · exact ⟨⟨n, hn', hroom, hzero⟩, fun _ hout => nomatch hout⟩
    next hratio =>
      refine lowTime_inside (s := s'.sync _) hn' (by omega) ?_ _ _ _
      -- a quotient of 2 or 3 has no divisor 0
      intro hduty
      change c.ccr2 - allowedDutyError = 0 at hduty
      rw [hduty] at hratio
      exact hratio ⟨by rw [UInt16.div_zero]; decide, by rw [UInt16.div_zero]; decide⟩
  next hbt =>
    split
    · split
      · exact lowTime_inside (Packed.putBit (s := { s' with halfbit := false, lastbit := !s'.lastbit })
          hn' (by omega)) (by omega) hbt _ _ _
      · exact hn'.flush (by omega)
    · exact lowTime_inside (hn'.putBit (by omega)) (by omega) hbt _ _ _

theorem run_inside {s : Decoder} (h : Sound s) (cs : List Capture) :
    Sound (s.run cs).1 ∧ ∀ out ∈ (s.run cs).2, out.length ≤ 16 := by
  induction cs generalizing s with
  | nil => exact ⟨h, fun _ hout => nomatch hout⟩
  | cons c cs ih =>
    obtain ⟨hsound, hout⟩ := traceIsr_inside h c
    obtain ⟨hsound', hout'⟩ := ih hsound
    refine ⟨hsound', fun out hmem => ?_⟩
    rcases List.mem_append.mp hmem with hmem | hmem
    · exact hout out (Option.mem_toList.mp hmem)
    · exact hout' out hmem

theorem start_sound : Sound Decoder.start := Idle.sound ⟨rfl, rfl, rfl⟩

/-- Whatever is captured, no byte behind the 17 of `decbuf` is written, and no more than 16 bytes
are pushed. -/
theorem captures_inside (cs : List Capture) :
    (Decoder.start.run cs).1.decbufPos < 128 ∧
      (∀ i, 17 ≤ i → (Decoder.start.run cs).1.decbuf i = 0) ∧
      ∀ out ∈ (Decoder.start.run cs).2, out.length ≤ 16 := by
  obtain ⟨⟨n, ⟨hpos, bits, hlength, hbits⟩, hroom, -⟩, hout⟩ := run_inside start_sound cs
  refine ⟨?_, fun i hi => hbits.behind (by omega), hout⟩
  rw [UInt8.lt_iff_toNat_lt, hpos]
  exact hroom

/-- A capture that is not the last one of a frame. -/
def between (ccr1 ccr2 : UInt16) : Capture := ⟨true, true, false, false, ccr1, ccr2⟩

/-- A capture behind which the line stays low. -/
def final (ccr1 ccr2 : UInt16) : Capture := ⟨false, true, false, true, ccr1, ccr2⟩

end MiyakoLink.Platform.TraceSwo
