import MiyakoLink.NonIso.TdiTdo

/-!
# `tdi_tdo_seq` and its two siblings

`platform_target_interface_non_iso_jtag_tdi_tdo_seq` with the state machine, its `#else` branch
with the pins, and `jtagtap_tdi_tdo_seq`. Each of them clocks one bit of `DI` after the other, with
`final_tms` at the last one, and puts what comes back to `DO`. `DO` may be `DI`.

* `tdiTdoSeq_agree`: they are equivalent.
-/

namespace MiyakoLink.TdiTdo

open Lib.Pio

/-! ## With the state machine -/

def byteCount (i : Nat) : Nat := if i > 32 then 4 else if i % 8 ≠ 0 then i / 8 + 1 else i / 8

/-- `out_data`. -/
def outData (mem : Memory) (DI n : Nat) : Word :=
  (List.range n).foldl (fun w j => w + (mem (DI + j)).setWidth 32 <<< (j * 8)) 0

/-- `in_data` goes to `n` bytes. -/
def store : Nat → Nat → Word → Memory → Memory
  | 0, _, _, mem => mem
  | n + 1, DO, inData, mem =>
    store n (DO + 1) (inData >>> 8) (Function.update mem DO (inData.setWidth 8))

/-- The loop over 32 bits at a time. -/
def pioLoop (fuel : Nat) (input : Nat → Bool) (finalTms : Bool) (DO DI i : Nat) (m : Machine)
    (mem : Memory) : Option (Machine × Memory) :=
  if i = 0 then some (m, mem)
  else
    let n := byteCount i
    let outCount := if i > 32 then 32 - 1 else i - 1
    let words := [0, if i > 32 then 0 else bit finalTms, BitVec.ofNat 32 outCount, outData mem DI n]
    (get (setup input) fuel { m with tx := m.tx ++ words }).bind fun (inData, m) =>
      let inData := if outCount ≠ 32 - 1 then inData >>> (32 - 1 - outCount) else inData
      pioLoop fuel input finalTms (DO + n) (DI + n) (i - 32) m (store n DO inData mem)
termination_by i

/-- The function behind its choice of the program: the queues are cleared. -/
def pioTdiTdoSeq (fuel : Nat) (input : Nat → Bool) (finalTms : Bool) (DO DI ticks : Nat)
    (m : Machine) (mem : Memory) : Option (Machine × Memory) :=
  pioLoop fuel input finalTms DO DI ticks { m with tx := [], rx := [] } mem

/-! ## With the pins -/

/-- The rest of the function from `index` and `res` on; what is clocked, and the memory. -/
def pinsLoop (input : Nat → Bool) (finalTms : Bool) : Nat → BitVec 8 → BitVec 8 → Nat → Nat →
    List (Bool × Bool) → Memory → List (Bool × Bool) × Memory
  | ticks + 2, index, res, DO, DI, edges, mem =>
    let edges := edges ++ [(false, decide (mem DI &&& index ≠ 0))]
    let res := if input edges.length then res ||| index else res
    let index := index <<< 1
    if index = 0 then
      pinsLoop input finalTms (ticks + 1) 1 0 (DO + 1) (DI + 1) edges (Function.update mem DO res)
    else pinsLoop input finalTms (ticks + 1) index res DO DI edges mem
  | _, index, res, DO, DI, edges, mem =>
    let edges := edges ++ [(finalTms, decide (mem DI &&& index ≠ 0))]
    let res := if input edges.length then res ||| index else res
    (edges, Function.update mem DO res)

def pinsTdiTdoSeq (input : Nat → Bool) (finalTms : Bool) (DO DI ticks : Nat)
    (edges : List (Bool × Bool)) (mem : Memory) : List (Bool × Bool) × Memory :=
  pinsLoop input finalTms ticks 1 0 DO DI edges mem

/-! ## With `jtagtap_next` -/

def genericLoop (input : Nat → Bool) (finalTms : Bool) : Nat → BitVec 8 → Nat → Nat →
    List (Bool × Bool) → Memory → List (Bool × Bool) × Memory
  | 0, _, _, _, edges, mem => (edges, mem)
  | ticks + 1, index, DO, DI, edges, mem =>
    let tms := if ticks ≠ 0 then false else finalTms
    let edges := edges ++ [(tms, decide (mem DI &&& index ≠ 0))]
    let mem := Function.update mem DO
      (if input edges.length then mem DO ||| index else mem DO &&& ~~~index)
    let index := index <<< 1
    if index = 0 then genericLoop input finalTms ticks 1 (DO + 1) (DI + 1) edges mem
    else genericLoop input finalTms ticks index DO DI edges mem

/-- `jtagtap_tdi_tdo_seq`. -/
def jtagtapTdiTdoSeq (input : Nat → Bool) (finalTms : Bool) (DO DI ticks : Nat)
    (edges : List (Bool × Bool)) (mem : Memory) : List (Bool × Bool) × Memory :=
  genericLoop input finalTms ticks 1 DO DI edges mem

/-! ## What they have in common -/

/-- `n` bits of `DI` from bit `r` on are clocked, with the mode signal at the last one. -/
def wanted (mem : Memory) (finalTms : Bool) (DI r n : Nat) : List (Bool × Bool) :=
  (List.range n).map fun k => (decide (k + 1 = n) && finalTms, bitAt mem DI (r + k))

/-- They are clocked, the bits that came back are in `DO`, and no byte but those of `DO` up to the
last bit has changed. -/
structure Shifts (input : Nat → Bool) (finalTms : Bool) (DO DI r n : Nat)
    (edges : List (Bool × Bool)) (mem : Memory) (edges' : List (Bool × Bool)) (mem' : Memory) :
    Prop where
  clocks : edges' = edges ++ wanted mem finalTms DI r n
  bits : ∀ k < n, bitAt mem' DO (r + k) = input (edges.length + k + 1)
  frame : ∀ a, a < DO ∨ DO + (r + n + 7) / 8 ≤ a → mem' a = mem a

/-- `DO` is `DI`, or the two do not overlap. -/
def Buffers (DO DI len : Nat) : Prop := DO = DI ∨ DO + len ≤ DI ∨ DI + len ≤ DO

section
variable {input : Nat → Bool} {finalTms : Bool} {DO DI r n : Nat} {edges : List (Bool × Bool)}
  {mem mem' : Memory}

theorem bitAt_small (mem : Memory) (p : Nat) {k : Nat} (hk : k < 8) :
    bitAt mem p k = (mem p).getLsbD k := by
  rw [bitAt, Nat.div_eq_of_lt hk, Nat.mod_eq_of_lt hk, Nat.add_zero]

theorem bitAt_next (mem : Memory) (p k : Nat) : bitAt mem (p + 1) k = bitAt mem p (8 + k) := by
  have hdiv : (8 + k) / 8 = 1 + k / 8 := by omega
  have hmod : (8 + k) % 8 = k % 8 := by omega
  rw [bitAt, bitAt, hdiv, hmod, Nat.add_assoc]

/-- A bit behind the ones of the byte that is written. -/
theorem bitAt_update_of_ne {p a k : Nat} {b : BitVec 8} (h : p + k / 8 ≠ a) :
    bitAt (Function.update mem a b) p k = bitAt mem p k := by
  rw [bitAt, bitAt, Function.update_of_ne h]

theorem wanted_succ :
    wanted mem finalTms DI r (n + 2) =
      (false, bitAt mem DI r) :: wanted mem finalTms DI (r + 1) (n + 1) := by
  unfold wanted
  rw [List.range_succ_eq_map, List.map_cons, List.map_map, decide_eq_false (by omega),
    Bool.false_and]
  refine congrArg (_ :: ·) (List.map_congr_left fun k _ => ?_)
  have hlast : (k.succ + 1 = n + 2) = (k + 1 = n + 1) := by
    rw [eq_iff_iff]
    omega
  have hindex : r + k.succ = r + 1 + k := by omega
  simp only [Function.comp_apply, hlast, hindex]

theorem wanted_next :
    wanted mem finalTms (DI + 1) 0 n = wanted mem finalTms DI 8 n := by
  refine List.map_congr_left fun k _ => ?_
  rw [bitAt_next, Nat.zero_add]

theorem wanted_congr {mem₁ : Memory} (h : ∀ k < n, bitAt mem₁ DI (r + k) = bitAt mem DI (r + k)) :
    wanted mem₁ finalTms DI r n = wanted mem finalTms DI r n := by
  refine List.map_congr_left fun k hk => ?_
  rw [h k (List.mem_range.mp hk)]

/-- Bit 8 of a byte is bit 0 of the next one. -/
theorem Shifts.next {edges' : List (Bool × Bool)}
    (h : Shifts input finalTms (DO + 1) (DI + 1) 0 n edges mem edges' mem') :
    Shifts input finalTms DO DI 8 n edges mem edges' mem' := by
  refine ⟨?_, ?_, ?_⟩
  · rw [h.clocks, wanted_next]
  · intro k hk
    rw [← h.bits k hk, bitAt_next, Nat.zero_add]
  · intro a ha
    apply h.frame
    omega

/-- One more bit in front, for which only the byte of `DO` has changed. -/
theorem Shifts.cons {mem₁ : Memory} {edges' : List (Bool × Bool)}
    (h : Shifts input finalTms DO DI (r + 1) (n + 1) (edges ++ [(false, bitAt mem DI r)]) mem₁
      edges' mem')
    (hunread : ∀ k < n + 1, bitAt mem₁ DI (r + 1 + k) = bitAt mem DI (r + 1 + k))
    (hbit : bitAt mem' DO r = input (edges.length + 1))
    (hframe : ∀ a, a ≠ DO → mem₁ a = mem a) :
    Shifts input finalTms DO DI r (n + 2) edges mem edges' mem' := by
  refine ⟨?_, ?_, ?_⟩
  · rw [h.clocks, wanted_congr hunread, wanted_succ, List.append_assoc, List.singleton_append]
  · intro k hk
    cases k with
    | zero => exact hbit
    | succ k =>
      have hrest := h.bits k (by omega)
      rw [List.length_append, List.length_singleton] at hrest
      rw [Nat.add_comm k 1, ← Nat.add_assoc, hrest, ← Nat.add_assoc]
  · intro a ha
    rw [h.frame a (by omega), hframe a (by omega)]

/-! ## The mask of a bit -/

theorem index_and (b : BitVec 8) {r : Nat} (hr : r < 8) :
    decide (b &&& BitVec.twoPow 8 r ≠ 0) = b.getLsbD r := by
  rw [BitVec.and_twoPow]
  cases hbit : b.getLsbD r with
  | false => rfl
  | true =>
    rw [if_pos rfl, decide_eq_true_eq]
    intro hzero
    have h := congrArg (BitVec.getLsbD · r) hzero
    rw [BitVec.getLsbD_twoPow, decide_eq_true hr] at h
    simp at h

theorem index_shift : ∀ r < 7, BitVec.twoPow 8 r <<< 1 = BitVec.twoPow 8 (r + 1) ∧
    BitVec.twoPow 8 (r + 1) ≠ 0 := by
  decide

theorem index_last : BitVec.twoPow 8 7 <<< 1 = 0 := by decide

theorem index_first : (1 : BitVec 8) = BitVec.twoPow 8 0 := by decide

/-- `res` with the bit of `index` set where `b` says so. -/
theorem index_or (res : BitVec 8) {b : Bool} (hr : r < 8) (hres : res.getLsbD r = false) (j : Nat) :
    (if b then res ||| BitVec.twoPow 8 r else res).getLsbD j =
      if j = r then b else res.getLsbD j := by
  by_cases hj : j = r
  · subst hj
    rw [if_pos rfl]
    cases b with
    | false => exact hres
    | true =>
      rw [if_pos rfl, BitVec.getLsbD_or, BitVec.getLsbD_twoPow, decide_eq_true hr]
      simp
  · have hne : decide (r = j) = false := decide_eq_false (Ne.symm hj)
    rw [if_neg hj]
    cases b with
    | false => rfl
    | true =>
      rw [if_pos rfl, BitVec.getLsbD_or, BitVec.getLsbD_twoPow, hne, Bool.and_false, Bool.or_false]

theorem tdi_eq (hr : r < 8) :
    decide (mem DI &&& BitVec.twoPow 8 r ≠ 0) = bitAt mem DI r := by
  rw [index_and _ hr, bitAt_small mem DI hr]

/-! ## The version with the pins -/

theorem pinsLoop_shifts (input : Nat → Bool) (finalTms : Bool) (n DO DI : Nat) {r : Nat} (hr : r < 8) (res : BitVec 8)
    (hres : ∀ j, r ≤ j → res.getLsbD j = false) (hbuf : Buffers DO DI ((r + n + 8) / 8))
    (edges : List (Bool × Bool)) (mem : Memory) :
    ∃ edges' mem', pinsLoop input finalTms (n + 1) (BitVec.twoPow 8 r) res DO DI edges mem =
        (edges', mem') ∧
      Shifts input finalTms DO DI r (n + 1) edges mem edges' mem' ∧
      ∀ j < r, bitAt mem' DO j = res.getLsbD j := by
  induction n generalizing r res DO DI edges mem with
  | zero =>
    refine ⟨_, _, rfl, ⟨?_, ?_, ?_⟩, ?_⟩
    · rw [tdi_eq hr]
      rfl
    · intro k hk
      obtain rfl := Nat.lt_one_iff.mp hk
      rw [Nat.add_zero, bitAt_small _ DO hr, Function.update_self, index_or res hr (hres r (Nat.le_refl r)),
        if_pos rfl, List.length_append]
      rfl
    · intro a ha
      rw [Function.update_of_ne (by omega)]
    · intro j hj
      rw [bitAt_small _ DO (by omega), Function.update_self,
        index_or res hr (hres r (Nat.le_refl r)), if_neg (by omega)]
  | succ n ih =>
    have hset := index_or res (b := input (edges.length + 1)) hr (hres r (Nat.le_refl r))
    have hlength : (edges ++ [(false, bitAt mem DI r)]).length = edges.length + 1 :=
      List.length_append
    rw [pinsLoop, tdi_eq hr, hlength]
    generalize hres' : (if input (edges.length + 1) then res ||| BitVec.twoPow 8 r else res) = res'
      at hset
    rcases Nat.lt_or_eq_of_le (Nat.le_of_lt_succ hr) with hr | rfl
    · -- the same byte
      obtain ⟨hshift, hne⟩ := index_shift r hr
      rw [hshift, if_neg hne]
      obtain ⟨edges', mem', hrun, hshifts, hkept⟩ := ih DO DI (r := r + 1) (by omega) res' (by
        intro j hj
        rw [hset, if_neg (by omega), hres j (by omega)]) (by
        rwa [show r + 1 + n + 8 = r + (n + 1) + 8 by omega]) (edges ++ [(false, bitAt mem DI r)]) mem
      refine ⟨edges', mem', hrun, hshifts.cons (fun _ _ => rfl) ?_ fun _ _ => rfl, ?_⟩
      · rw [hkept r (Nat.lt_succ_self r), hset, if_pos rfl]
      · intro j hj
        rw [hkept j (Nat.lt_succ_of_lt hj), hset, if_neg (Nat.ne_of_lt hj)]
    · -- the next byte
      rw [index_last, if_pos rfl, index_first]
      obtain ⟨edges', mem', hrun, hshifts, _⟩ := ih (DO + 1) (DI + 1) (r := 0)
        (by decide) 0 (fun _ _ => BitVec.getLsbD_zero) (by
          unfold Buffers at hbuf ⊢
          omega) (edges ++ [(false, bitAt mem DI 7)]) (Function.update mem DO res')
      have hbyte : mem' DO = res' := by
        rw [hshifts.frame DO (by omega), Function.update_self]
      refine ⟨edges', mem', hrun, hshifts.next.cons ?_ ?_ ?_, ?_⟩
      · intro k hk
        apply bitAt_update_of_ne
        unfold Buffers at hbuf
        omega
      · rw [bitAt_small mem' DO (by decide), hbyte, hset, if_pos rfl]
      · intro a ha
        exact Function.update_of_ne ha _ _
      · intro j hj
        rw [bitAt_small mem' DO (by omega), hbyte, hset, if_neg (Nat.ne_of_lt hj)]

/-! ## The version with `jtagtap_next` -/

/-- A byte with the bit of `index` set or cleared. -/
theorem index_put {v : BitVec 8} {b : Bool} (hr : r < 8) {j : Nat} (hj : j < 8) :
    (if b then v ||| BitVec.twoPow 8 r else v &&& ~~~BitVec.twoPow 8 r).getLsbD j =
      if j = r then b else v.getLsbD j := by
  have hmask : (BitVec.twoPow 8 r).getLsbD j = decide (r = j) := by
    rw [BitVec.getLsbD_twoPow, decide_eq_true hr, Bool.true_and]
  cases b with
  | false =>
    rw [if_neg Bool.false_ne_true, BitVec.getLsbD_and, BitVec.getLsbD_not, hmask,
      decide_eq_true hj, Bool.true_and]
    by_cases hjr : j = r
    · rw [if_pos hjr, decide_eq_true hjr.symm]
      exact Bool.and_false _
    · rw [if_neg hjr, decide_eq_false (Ne.symm hjr)]
      exact Bool.and_true _
  | true =>
    rw [if_pos rfl, BitVec.getLsbD_or, hmask]
    by_cases hjr : j = r
    · rw [if_pos hjr, decide_eq_true hjr.symm, Bool.or_true]
    · rw [if_neg hjr, decide_eq_false (Ne.symm hjr), Bool.or_false]

/-- Writing bit `r` of `DO` leaves the bits of `DI` behind it. -/
theorem bitAt_put {v : BitVec 8} (hr : r < 8) (hv : ∀ j < 8, j ≠ r → v.getLsbD j = (mem DO).getLsbD j)
    {len k : Nat} (hbuf : Buffers DO DI len) (hk : (r + 1 + k) / 8 < len) :
    bitAt (Function.update mem DO v) DI (r + 1 + k) = bitAt mem DI (r + 1 + k) := by
  by_cases hbyte : DI + (r + 1 + k) / 8 = DO
  · have hsame : DO = DI ∧ r + 1 + k < 8 := by
      unfold Buffers at hbuf
      omega
    rw [bitAt_small _ DI hsame.2, bitAt_small _ DI hsame.2, ← hsame.1, Function.update_self,
      hv _ hsame.2 (by omega)]
  · exact bitAt_update_of_ne hbyte

theorem genericLoop_shifts (input : Nat → Bool) (finalTms : Bool) (n DO DI : Nat) {r : Nat} (hr : r < 8)
    (hbuf : Buffers DO DI ((r + n + 8) / 8)) (edges : List (Bool × Bool)) (mem : Memory) :
    ∃ edges' mem', genericLoop input finalTms (n + 1) (BitVec.twoPow 8 r) DO DI edges mem =
        (edges', mem') ∧
      Shifts input finalTms DO DI r (n + 1) edges mem edges' mem' ∧
      ∀ j < r, bitAt mem' DO j = bitAt mem DO j := by
  induction n generalizing r DO DI edges mem with
  | zero =>
    have hlength : (edges ++ [(finalTms, bitAt mem DI r)]).length = edges.length + 1 :=
      List.length_append
    rw [genericLoop, if_neg (not_not.mpr rfl), tdi_eq hr, hlength, genericLoop, genericLoop, ite_self]
    have hput (j : Nat) (hj : j < 8) := index_put (v := mem DO) (b := input (edges.length + 1)) hr hj
    generalize (if input (edges.length + 1) then mem DO ||| BitVec.twoPow 8 r
      else mem DO &&& ~~~BitVec.twoPow 8 r) = v at hput
    refine ⟨_, _, rfl, ⟨rfl, ?_, ?_⟩, ?_⟩
    · intro k hk
      obtain rfl := Nat.lt_one_iff.mp hk
      rw [Nat.add_zero, bitAt_small _ DO hr, Function.update_self, hput r hr, if_pos rfl]
    · intro a ha
      rw [Function.update_of_ne (by omega)]
    · intro j hj
      rw [bitAt_small _ DO (by omega), Function.update_self, hput j (by omega),
        if_neg (Nat.ne_of_lt hj), bitAt_small mem DO (by omega)]
  | succ n ih =>
    have hlength : (edges ++ [(false, bitAt mem DI r)]).length = edges.length + 1 :=
      List.length_append
    rw [genericLoop, if_pos (Nat.succ_ne_zero n), tdi_eq hr, hlength]
    have hput (j : Nat) (hj : j < 8) := index_put (v := mem DO) (b := input (edges.length + 1)) hr hj
    generalize (if input (edges.length + 1) then mem DO ||| BitVec.twoPow 8 r
      else mem DO &&& ~~~BitVec.twoPow 8 r) = v at hput
    have hv (j : Nat) (hj : j < 8) (hne : j ≠ r) : v.getLsbD j = (mem DO).getLsbD j := by
      rw [hput j hj, if_neg hne]
    have hunread (k : Nat) (hk : k < n + 1) :
        bitAt (Function.update mem DO v) DI (r + 1 + k) = bitAt mem DI (r + 1 + k) :=
      bitAt_put hr hv hbuf (by omega)
    have hframe (a : Nat) (ha : a ≠ DO) : Function.update mem DO v a = mem a :=
      Function.update_of_ne ha _ _
    rcases Nat.lt_or_eq_of_le (Nat.le_of_lt_succ hr) with hsmall | rfl
    · -- the same byte
      obtain ⟨hshift, hne⟩ := index_shift r hsmall
      rw [hshift, if_neg hne]
      obtain ⟨edges', mem', hrun, hshifts, hkept⟩ := ih DO DI (r := r + 1) (by omega) (by
        rwa [show r + 1 + n + 8 = r + (n + 1) + 8 by omega]) (edges ++ [(false, bitAt mem DI r)])
        (Function.update mem DO v)
      have hbyte (j : Nat) (hj : j < r + 1) : bitAt mem' DO j = v.getLsbD j := by
        rw [hkept j hj, bitAt_small _ DO (by omega), Function.update_self]
      refine ⟨edges', mem', hrun, hshifts.cons hunread ?_ hframe, ?_⟩
      · rw [hbyte r (Nat.lt_succ_self r), hput r hr, if_pos rfl]
      · intro j hj
        rw [hbyte j (Nat.lt_succ_of_lt hj), hv j (by omega) (Nat.ne_of_lt hj),
          bitAt_small mem DO (by omega)]
    · -- the next byte
      rw [index_last, if_pos rfl, index_first]
      obtain ⟨edges', mem', hrun, hshifts, _⟩ := ih (DO + 1) (DI + 1) (r := 0) (by decide) (by
          unfold Buffers at hbuf ⊢
          omega) (edges ++ [(false, bitAt mem DI 7)]) (Function.update mem DO v)
      have hbyte (j : Nat) (hj : j < 8) : bitAt mem' DO j = v.getLsbD j := by
        rw [bitAt_small mem' DO hj, hshifts.frame DO (by omega), Function.update_self]
      refine ⟨edges', mem', hrun, hshifts.next.cons hunread ?_ hframe, ?_⟩
      · rw [hbyte 7 hr, hput 7 hr, if_pos rfl]
      · intro j hj
        rw [hbyte j (by omega), hv j (by omega) (Nat.ne_of_lt hj), bitAt_small mem DO (by omega)]

/-! ## The version with the state machine -/

theorem byte_getLsbD (b : BitVec 8) (n k : Nat) (hk : k < 32) :
    (b.setWidth 32 <<< (n * 8)).getLsbD k = (decide (n * 8 ≤ k) && b.getLsbD (k - n * 8)) := by
  rw [BitVec.getLsbD_shiftLeft, BitVec.getLsbD_setWidth, decide_eq_true hk, Bool.true_and,
    decide_eq_true (show k - n * 8 < 32 by omega), Bool.true_and]
  by_cases h : k < n * 8
  · rw [decide_eq_true h, decide_eq_false (by omega)]
    rfl
  · rw [decide_eq_false h, decide_eq_true (by omega)]
    rfl

theorem outData_getLsbD (n : Nat) {k : Nat} (hk : k < 32) :
    (outData mem DI n).getLsbD k = (decide (k < n * 8) && bitAt mem DI k) := by
  induction n generalizing k with
  | zero =>
    rw [decide_eq_false (by omega), Bool.false_and]
    exact BitVec.getLsbD_zero
  | succ n ih =>
    have hsplit : outData mem DI (n + 1) =
        outData mem DI n + (mem (DI + n)).setWidth 32 <<< (n * 8) := by
      unfold outData
      rw [List.range_succ, List.foldl_append]
      rfl
    have hapart : outData mem DI n &&& (mem (DI + n)).setWidth 32 <<< (n * 8) = 0 := by
      apply BitVec.eq_of_getLsbD_eq
      intro j hj
      rw [BitVec.getLsbD_and, ih hj, byte_getLsbD _ _ _ hj]
      by_cases h : j < n * 8
      · rw [decide_eq_false (show ¬ n * 8 ≤ j by omega), Bool.false_and, Bool.and_false]
        exact BitVec.getLsbD_zero.symm
      · rw [decide_eq_false h, Bool.false_and, Bool.false_and]
        exact BitVec.getLsbD_zero.symm
    rw [hsplit, BitVec.add_eq_or_of_and_eq_zero _ _ hapart, BitVec.getLsbD_or, ih hk,
      byte_getLsbD _ _ _ hk]
    by_cases h : k < n * 8
    · rw [decide_eq_true h, decide_eq_false (show ¬ n * 8 ≤ k by omega),
        decide_eq_true (show k < (n + 1) * 8 by omega), Bool.false_and, Bool.or_false]
    · rw [decide_eq_false h, decide_eq_true (show n * 8 ≤ k by omega), Bool.false_and,
        Bool.false_or, Bool.true_and]
      by_cases hin : k < (n + 1) * 8
      · have hdiv : k / 8 = n := by omega
        have hmod : k % 8 = k - n * 8 := by omega
        rw [decide_eq_true hin, Bool.true_and, bitAt, hdiv, hmod]
      · rw [decide_eq_false hin, Bool.false_and, BitVec.getLsbD_of_ge _ _ (by omega)]

theorem store_frame {w : Word} {a : Nat} (h : a < DO ∨ DO + n ≤ a) : store n DO w mem a = mem a := by
  induction n generalizing DO w mem with
  | zero => rfl
  | succ n ih => rw [store, ih (by omega), Function.update_of_ne (by omega)]

theorem store_bitAt {w : Word} {k : Nat} (hk : k < n * 8) :
    bitAt (store n DO w mem) DO k = w.getLsbD k := by
  induction n generalizing DO w mem k with
  | zero => omega
  | succ n ih =>
    rw [store]
    by_cases hfirst : k < 8
    · rw [bitAt_small _ DO hfirst, store_frame (by omega), Function.update_self,
        BitVec.getLsbD_setWidth, decide_eq_true hfirst, Bool.true_and]
    · obtain ⟨j, rfl⟩ := Nat.exists_eq_add_of_le (Nat.not_lt.mp hfirst)
      rw [← bitAt_next, ih (by omega), BitVec.getLsbD_ushiftRight]

/-- The bits of `in_data`, shifted down. -/
theorem inData_getLsbD {start k : Nat} (hn : n < 32) (hk : k ≤ n) :
    (if n ≠ 32 - 1 then shifted (received input start (n + 1)) >>> (32 - 1 - n)
      else shifted (received input start (n + 1))).getLsbD k = input (start + k + 1) := by
  have hshift : (if n ≠ 32 - 1 then shifted (received input start (n + 1)) >>> (32 - 1 - n)
      else shifted (received input start (n + 1))) =
        shifted (received input start (n + 1)) >>> (31 - n) := by
    split
    · rfl
    · rw [show 31 - n = 0 by omega, BitVec.ushiftRight_zero]
  have hlength : (received input start (n + 1)).length = n + 1 := by
    rw [received, List.length_map, List.length_range]
  have hindex : 31 - n + k + (n + 1) - 32 = k := by omega
  rw [hshift, BitVec.getLsbD_ushiftRight, shifted_getLsbD (by omega) (by omega), hlength,
    if_pos (by omega), hindex, received, List.getD_eq_getElem?_getD, List.getElem?_map,
    List.getElem?_range (by omega)]
  rfl

theorem bit_ne_zero (b : Bool) : decide (bit b ≠ 0) = b := by
  cases b <;> decide

/-- One pass of the program, as the function sees it. -/
theorem get_pass (input : Nat → Bool) (x y osr f d : Word) (tms tdi dir : Bool) (edges : List (Bool × Bool))
    (hn : n < 2 ^ 32) :
    ∃ N x' y' osr' tms' tdi', ∀ fuel, N ≤ fuel →
      get (setup input) fuel (waiting x y osr [0, f, BitVec.ofNat 32 n, d] tms tdi dir edges) =
        some (shifted (received input edges.length (n + 1)),
          waiting x' y' osr' [] tms' tdi' dir (edges ++ clocked (decide (f ≠ 0)) (n + 1) d)) := by
  obtain ⟨x', y', osr', tms', tdi', hpass⟩ := reaches_pass input x y osr f d tms tdi dir edges hn
  obtain ⟨N, hN⟩ := get_of_reaches hpass rfl
  exact ⟨N, x', y', osr', tms', tdi', hN⟩

theorem clocked_eq_wanted {d : Word} (h : ∀ k < n, d.getLsbD k = bitAt mem DI k) :
    clocked finalTms n d = wanted mem finalTms DI 0 n := by
  refine List.map_congr_left fun k hk => ?_
  rw [h k (List.mem_range.mp hk), Nat.zero_add]

theorem wanted_add (hn : 0 < n) :
    wanted mem finalTms DI 0 (32 + n) =
      wanted mem false DI 0 32 ++ wanted mem finalTms DI 32 n := by
  unfold wanted
  rw [List.range_add, List.map_append, List.map_map]
  refine congrArg₂ (· ++ ·) (List.map_congr_left fun k hk => ?_)
    (List.map_congr_left fun k hk => ?_)
  · have hne : ¬ k + 1 = 32 + n := by
      have := List.mem_range.mp hk
      omega
    rw [decide_eq_false hne, Bool.false_and, Bool.and_false]
  · have hlast : (32 + k + 1 = 32 + n) = (k + 1 = n) := by
      rw [eq_iff_iff]
      omega
    simp only [Function.comp_apply, hlast, Nat.zero_add]

theorem bitAt_word (mem : Memory) (p k : Nat) : bitAt mem (p + 4) k = bitAt mem p (32 + k) := by
  have hdiv : (32 + k) / 8 = 4 + k / 8 := by omega
  have hmod : (32 + k) % 8 = k % 8 := by omega
  rw [bitAt, bitAt, hdiv, hmod, Nat.add_assoc]

/-- 32 bits in front of the others. -/
theorem Shifts.word {mem₁ : Memory} {edges' : List (Bool × Bool)} (hn : 0 < n)
    (h : Shifts input finalTms (DO + 4) (DI + 4) 0 n (edges ++ wanted mem false DI 0 32) mem₁ edges'
      mem')
    (hbits : ∀ k < 32, bitAt mem₁ DO k = input (edges.length + k + 1))
    (hframe : ∀ a, a < DO ∨ DO + 4 ≤ a → mem₁ a = mem a)
    (hbuf : Buffers DO DI ((32 + n + 7) / 8)) :
    Shifts input finalTms DO DI 0 (32 + n) edges mem edges' mem' := by
  have hunread (k : Nat) (hk : k < n) : bitAt mem₁ (DI + 4) (0 + k) = bitAt mem (DI + 4) (0 + k) := by
    rw [Nat.zero_add, bitAt, bitAt, hframe _ (by unfold Buffers at hbuf; omega)]
  have hwanted : wanted mem finalTms (DI + 4) 0 n = wanted mem finalTms DI 32 n := by
    refine List.map_congr_left fun k _ => ?_
    rw [bitAt_word, Nat.zero_add]
  refine ⟨?_, ?_, ?_⟩
  · rw [h.clocks, wanted_congr hunread, hwanted, wanted_add hn, List.append_assoc]
  · intro k hk
    rw [Nat.zero_add]
    by_cases hfirst : k < 32
    · rw [← hbits k hfirst, bitAt, bitAt, h.frame _ (by omega)]
    · obtain ⟨j, rfl⟩ := Nat.exists_eq_add_of_le (Nat.not_lt.mp hfirst)
      have hrest := h.bits j (by omega)
      rw [Nat.zero_add, bitAt_word, List.length_append, wanted, List.length_map, List.length_range]
        at hrest
      rw [hrest, Nat.add_assoc edges.length 32 j]
  · intro a ha
    rw [h.frame a (by omega), hframe a (by omega)]

theorem byteCount_small {i : Nat} (hi : i ≤ 32) : byteCount i = (i + 7) / 8 := by
  unfold byteCount
  rw [if_neg (by omega)]
  split <;> omega

/-- The last turn of the loop. -/
theorem pioLoop_last {fuel i : Nat} {m m' : Machine} {w : Word} (hpos : 0 < i) (hi : i ≤ 32)
    (hget : get (setup input) fuel { m with tx := m.tx ++
      [0, bit finalTms, BitVec.ofNat 32 (i - 1), outData mem DI (byteCount i)] } = some (w, m')) :
    pioLoop fuel input finalTms DO DI i m mem =
      some (m', store (byteCount i) DO
        (if i - 1 ≠ 32 - 1 then w >>> (32 - 1 - (i - 1)) else w) mem) := by
  have hlarge : ¬ i > 32 := by omega
  rw [pioLoop, if_neg (by omega)]
  simp only [if_neg hlarge, hget, Option.bind_some]
  rw [show i - 32 = 0 by omega, pioLoop, if_pos rfl]

/-- A turn of the loop that is not the last one. -/
theorem pioLoop_word {fuel i : Nat} {m m' : Machine} {w : Word} (hi : 32 < i)
    (hget : get (setup input) fuel { m with tx := m.tx ++
      [0, 0, BitVec.ofNat 32 31, outData mem DI 4] } = some (w, m')) :
    pioLoop fuel input finalTms DO DI i m mem =
      pioLoop fuel input finalTms (DO + 4) (DI + 4) (i - 32) m' (store 4 DO w mem) := by
  have hcount : byteCount i = 4 := if_pos hi
  rw [pioLoop, if_neg (by omega)]
  simp only [if_pos hi, hcount, hget, Option.bind_some]
  rfl

theorem pioLoop_shifts (input : Nat → Bool) (finalTms : Bool) (i DO DI : Nat)
    (hbuf : Buffers DO DI ((i + 7) / 8)) (x y osr : Word)
    (tms tdi dir : Bool) (edges : List (Bool × Bool)) (mem : Memory) :
    ∃ N x' y' osr' tms' tdi' edges' mem', (∀ fuel, N ≤ fuel →
        pioLoop fuel input finalTms DO DI i (waiting x y osr [] tms tdi dir edges) mem =
          some (waiting x' y' osr' [] tms' tdi' dir edges', mem')) ∧
      Shifts input finalTms DO DI 0 i edges mem edges' mem' := by
  induction i using Nat.strongRecOn generalizing DO DI x y osr tms tdi edges mem with
  | ind i ih =>
    rcases Nat.eq_zero_or_pos i with rfl | hpos
    · refine ⟨0, x, y, osr, tms, tdi, edges, mem, fun fuel _ => ?_, ?_, ?_, fun _ _ => rfl⟩
      · rw [pioLoop, if_pos rfl]
      · exact (List.append_nil edges).symm
      · intro k hk
        omega
    · rcases Nat.lt_or_ge 32 i with hlarge | hsmall
      · -- a full word, without the mode signal
        obtain ⟨N, x₁, y₁, osr₁, tms₁, tdi₁, hget⟩ := get_pass input x y osr
          0 (outData mem DI 4) tms tdi dir edges (show 31 < 2 ^ 32 by decide)
        obtain ⟨n, rfl⟩ := Nat.exists_eq_add_of_le (Nat.le_of_lt hlarge)
        have hclocked : clocked (decide ((0 : Word) ≠ 0)) (31 + 1) (outData mem DI 4) =
            wanted mem false DI 0 32 := by
          rw [decide_eq_false (not_not.mpr rfl)]
          apply clocked_eq_wanted
          intro k hk
          rw [outData_getLsbD _ hk, decide_eq_true (by omega), Bool.true_and]
        rw [hclocked] at hget
        obtain ⟨N', x', y', osr', tms', tdi', edges', mem', hrest, hshifts⟩ := ih n (by omega)
          (DO + 4) (DI + 4) (by
            unfold Buffers at hbuf ⊢
            omega) x₁ y₁ osr₁ tms₁ tdi₁ (edges ++ wanted mem false DI 0 32)
          (store 4 DO (shifted (received input edges.length (31 + 1))) mem)
        refine ⟨max N N', x', y', osr', tms', tdi', edges', mem', fun fuel hfuel => ?_,
          hshifts.word (by omega) ?_ (fun a ha => store_frame ha) hbuf⟩
        · rw [pioLoop_word hlarge (hget fuel (Nat.le_trans (Nat.le_max_left N N') hfuel)), Nat.add_sub_cancel_left]
          exact hrest fuel (Nat.le_trans (Nat.le_max_right N N') hfuel)
        · intro k hk
          have hbit : _ = input (edges.length + k + 1) :=
            inData_getLsbD (show 31 < 32 by decide) (show k ≤ 31 by omega)
          rw [store_bitAt (by omega)]
          exact hbit
      · -- the rest
        obtain ⟨N, x', y', osr', tms', tdi', hget⟩ := get_pass input x y osr
          (bit finalTms) (outData mem DI (byteCount i)) tms tdi dir edges
          (show i - 1 < 2 ^ 32 by omega)
        have hlast : i - 1 + 1 = i := by omega
        have hcount := byteCount_small hsmall
        refine ⟨N, x', y', osr', tms', tdi', _, _,
          fun fuel hfuel => pioLoop_last hpos hsmall (hget fuel hfuel), ?_, ?_, ?_⟩
        · rw [bit_ne_zero, hlast, clocked_eq_wanted]
          intro k hk
          rw [outData_getLsbD _ (by omega), decide_eq_true (by omega), Bool.true_and]
        · intro k hk
          rw [Nat.zero_add, store_bitAt (by omega)]
          exact inData_getLsbD (by omega) (by omega)
        · intro a ha
          exact store_frame (by omega)

end

/-! ## Equivalence -/

/-- A machine that waits for the first word of the program, with a low clock and an empty input
register, as after its initialisation and after each call. -/
def Waiting (m : Machine) : Prop := m.pc = 0 ∧ m.isr = 0 ∧ m.isrCount = 0 ∧ m.clock = false

theorem Waiting.eq {m : Machine} (h : Waiting m) : { m with tx := [], rx := [] } =
    waiting m.x m.y m.osr [] m.setLevel m.outLevel m.pindir m.edges := by
  obtain ⟨pc, x, y, osr, isr, n, tx, rx, tms, tdi, dir, clock, edges⟩ := m
  obtain ⟨rfl, rfl, rfl, rfl⟩ := h
  rfl

/-- With enough fuel the version with the state machine returns. It clocks what the two others
clock, which is one bit a tick; the bits in `DO` are the same; it leaves all bytes behind the last
one, and the machine waits again. -/
theorem tdiTdoSeq_agree (input : Nat → Bool) (finalTms : Bool) {DO DI ticks : Nat}
    (hticks : 1 ≤ ticks) (hbuf : Buffers DO DI ((ticks + 7) / 8)) {m : Machine} (hm : Waiting m)
    (mem : Memory) :
    ∃ m' mem', (∃ N, ∀ fuel, N ≤ fuel →
        pioTdiTdoSeq fuel input finalTms DO DI ticks m mem = some (m', mem')) ∧
      Waiting m' ∧
      m'.edges = (pinsTdiTdoSeq input finalTms DO DI ticks m.edges mem).1 ∧
      m'.edges = (jtagtapTdiTdoSeq input finalTms DO DI ticks m.edges mem).1 ∧
      m'.edges.length = m.edges.length + ticks ∧
      (∀ k < ticks,
        bitAt mem' DO k = bitAt (pinsTdiTdoSeq input finalTms DO DI ticks m.edges mem).2 DO k ∧
        bitAt mem' DO k = bitAt (jtagtapTdiTdoSeq input finalTms DO DI ticks m.edges mem).2 DO k) ∧
      ∀ a, a < DO ∨ DO + (ticks + 7) / 8 ≤ a → mem' a = mem a := by
  obtain ⟨n, rfl⟩ := Nat.exists_eq_add_of_le' hticks
  have hsize : 0 + n + 8 = n + 1 + 7 := by omega
  obtain ⟨N, x', y', osr', tms', tdi', edges', mem', hrun, hpio⟩ := pioLoop_shifts input
    finalTms (n + 1) DO DI hbuf m.x m.y m.osr m.setLevel m.outLevel m.pindir m.edges
    mem
  obtain ⟨edges₁, mem₁, hpins, hpins', _⟩ := pinsLoop_shifts input
    finalTms n DO DI (r := 0) (by decide) 0 (fun _ _ => BitVec.getLsbD_zero)
    (by rwa [hsize]) m.edges mem
  obtain ⟨edges₂, mem₂, hgeneric, hgeneric', _⟩ := genericLoop_shifts input
    finalTms n DO DI (r := 0) (by decide) (by rwa [hsize]) m.edges mem
  have hpinsRun : pinsTdiTdoSeq input finalTms DO DI (n + 1) m.edges mem = (edges₁, mem₁) := hpins
  have hgenericRun : jtagtapTdiTdoSeq input finalTms DO DI (n + 1) m.edges mem =
      (edges₂, mem₂) := hgeneric
  have hbit {edges : List (Bool × Bool)} {mem₃ : Memory} {k : Nat} (hk : k < n + 1)
      (h : Shifts input finalTms DO DI 0 (n + 1) m.edges mem edges mem₃) :
      bitAt mem₃ DO k = input (m.edges.length + k + 1) := by
    rw [← h.bits k hk, Nat.zero_add]
  rw [hpinsRun, hgenericRun]
  refine ⟨waiting x' y' osr' [] tms' tdi' m.pindir edges', mem', ⟨N, fun fuel hfuel => ?_⟩,
    ⟨rfl, rfl, rfl, rfl⟩, ?_, ?_, ?_, ?_, ?_⟩
  · rw [pioTdiTdoSeq, hm.eq]
    exact hrun fuel hfuel
  · exact hpio.clocks.trans hpins'.clocks.symm
  · exact hpio.clocks.trans hgeneric'.clocks.symm
  · show edges'.length = _
    rw [hpio.clocks, List.length_append, wanted, List.length_map, List.length_range]
  · intro k hk
    rw [hbit hk hpio, hbit hk hpins', hbit hk hgeneric']
    exact ⟨rfl, rfl⟩
  · intro a ha
    exact hpio.frame a (by omega)

/-- Nine bits, in place. -/
theorem tdiTdoSeq_agree_nine : ∃ m' mem', (∃ N, ∀ fuel, N ≤ fuel →
      pioTdiTdoSeq fuel (fun k => k % 3 = 0) true 0 0 9 (waiting 0 0 0 [] false false true [])
        (fun _ => 0xA5) = some (m', mem')) ∧
    m'.edges = (pinsTdiTdoSeq (fun k => k % 3 = 0) true 0 0 9 [] fun _ => 0xA5).1 ∧
    m'.edges.length = 9 := by
  obtain ⟨m', mem', hrun, _, hpins, _, hlength, _⟩ :=
    @tdiTdoSeq_agree (fun k => k % 3 = 0) true 0 0 9 (by decide) (.inl rfl)
      (waiting 0 0 0 [] false false true []) ⟨rfl, rfl, rfl, rfl⟩ fun _ => 0xA5
  exact ⟨m', mem', hrun, hpins, hlength⟩

end MiyakoLink.TdiTdo
