import MiyakoLink.Lib.Pio

/-!
# More instructions of a PIO state machine

Programs with `set x`, `mov x, ISR` and `jmp x!=y` beside the instructions of `Lib.Pio`. The machine
is the same one. A loop is about the two lines it is made of, wherever they are in a program.

* `getBy_of_runs`: a blocking read, by what the machine does until it pushes a result.
* `runs_outLoop`, `runs_inLoop`: one bit a turn goes out, or comes in.
-/

namespace MiyakoLink.Lib.Pio

/-! ## Instructions -/

inductive WideInstr where
  | narrow (instr : Instr)
  | setX (value : Word)
  | movIsr
  | jmpDiffer (target : Nat)
  deriving DecidableEq

structure WideLine where
  instr : WideInstr
  side : Option Bool := none
  deriving DecidableEq

structure WideSetup where
  program : List WideLine
  autopush : Bool
  input : Nat → Bool

/-- What of an instruction `exec` knows. -/
def WideInstr.known : WideInstr → Instr
  | .narrow instr => instr
  | _ => .nop

variable (S : WideSetup)

/-- The other instructions do not depend on the program but by its length. -/
def WideSetup.known : Setup :=
  ⟨S.program.map fun line => ⟨line.instr.known, line.side⟩, S.autopush, S.input⟩

def WideSetup.behind (pc : Nat) : Nat := S.known.behind pc

def wideExec (m : Machine) : WideInstr → Option Machine
  | .narrow instr => exec S.known m instr
  | .setX value => some { m with pc := S.behind m.pc, x := value }
  | .movIsr => some { m with pc := S.behind m.pc, x := m.isr }
  | .jmpDiffer target => some (m.goto (if m.x ≠ m.y then target else S.behind m.pc))

def wideStep (m : Machine) : Option Machine := do
  let line ← S.program[m.pc]?
  let m' ← wideExec S m line.instr
  some (m'.sideSet line.side)

/-! ## Reading a result -/

/-- `pio_sm_get_blocking`, with fuel for the machine. -/
def getBy (step : Machine → Option Machine) : Nat → Machine → Option (Word × Machine)
  | 0, _ => none
  | fuel + 1, m =>
    match m.rx with
    | w :: rx => some (w, { m with rx := rx })
    | [] => (step m).bind (getBy step fuel)

/-- `n` steps of a machine that has no result to be read. -/
def runs (step : Machine → Option Machine) : Nat → Machine → Option Machine
  | 0, m => some m
  | n + 1, m =>
    match m.rx with
    | [] => (step m).bind (runs step n)
    | _ :: _ => none

section
variable {step : Machine → Option Machine} {m m₁ m' : Machine}

theorem runs_head {n : Nat} (hrx : m.rx = []) (hstep : step m = some m₁)
    (h : runs step n m₁ = some m') : runs step (n + 1) m = some m' := by
  rw [runs, hrx]
  show (step m).bind _ = _
  rw [hstep]
  exact h

theorem runs_trans {a b : Nat} (h₁ : runs step a m = some m₁) (h₂ : runs step b m₁ = some m') :
    runs step (a + b) m = some m' := by
  induction a generalizing m with
  | zero =>
    cases h₁
    rw [Nat.zero_add]
    exact h₂
  | succ a ih =>
    rw [runs] at h₁
    split at h₁
    · rename_i hrx
      obtain ⟨m₂, hstep, hrest⟩ := Option.bind_eq_some_iff.mp h₁
      rw [Nat.add_right_comm]
      exact runs_head hrx hstep (ih hrest)
    · cases h₁

theorem getBy_of_runs {n fuel : Nat} (h : runs step n m = some m') {w : Word} {rx : List Word}
    (hw : m'.rx = w :: rx) (hfuel : n < fuel) :
    getBy step fuel m = some (w, { m' with rx := rx }) := by
  induction n generalizing m fuel with
  | zero =>
    obtain ⟨k, rfl⟩ := Nat.exists_eq_add_of_le' hfuel
    cases h
    rw [getBy, hw]
  | succ n ih =>
    obtain ⟨k, rfl⟩ := Nat.exists_eq_add_of_le' (show 1 ≤ fuel by omega)
    rw [runs] at h
    split at h
    · rename_i hrx
      obtain ⟨m₂, hstep, hrest⟩ := Option.bind_eq_some_iff.mp h
      rw [getBy, hrx]
      show (step m).bind _ = _
      rw [hstep]
      exact ih hrest (by omega)
    · cases h

end

/-! ## Loops -/

variable {S} {p : Nat} {x y osr isr : Word} {n : Nat} {tx : List Word}
  {set out dir clock : Bool} {edges : List (Bool × Bool)}

theorem WideSetup.behind_eq (h : p + 1 < S.program.length) : S.behind p = p + 1 := by
  have hlength : S.known.program.length = S.program.length := List.length_map _
  rw [behind, Setup.behind, hlength, if_pos h]

/-- The two lines of a loop that puts bits out. -/
structure OutLoop (S : WideSetup) (p : Nat) : Prop where
  body : S.program[p]? = some ⟨.narrow (.out .pins), some false⟩
  turn : S.program[p + 1]? = some ⟨.narrow (.jmp .xDec p), some true⟩
  inside : p + 2 < S.program.length

/-- The two lines of a loop that takes bits in. The clock rises at the line with `true`. -/
structure InLoop (S : WideSetup) (p : Nat) (level : Bool) : Prop where
  body : S.program[p]? = some ⟨.narrow .inPins, some level⟩
  turn : S.program[p + 1]? = some ⟨.narrow (.jmp .xDec p), some (!level)⟩
  inside : p + 2 < S.program.length

theorem runs_outTurn (h : OutLoop S p) (x y osr isr : Word) (n : Nat) (tx : List Word)
    (set out dir clock : Bool) (edges : List (Bool × Bool)) :
    runs (wideStep S) 2 ⟨p, x, y, osr, isr, n, tx, [], set, out, dir, clock, edges⟩ =
      some ⟨if x ≠ 0 then p else p + 2, x - 1, y, osr >>> 1, isr, n, tx, [], set, osr.getLsbD 0, dir,
        true, edges ++ [(set, osr.getLsbD 0)]⟩ := by
  have hbody : wideStep S ⟨p, x, y, osr, isr, n, tx, [], set, out, dir, clock, edges⟩ =
      some ⟨p + 1, x, y, osr >>> 1, isr, n, tx, [], set, osr.getLsbD 0, dir, false, edges⟩ := by
    have hbehind := S.behind_eq (p := p) (Nat.lt_of_succ_lt h.inside)
    simp only [wideStep, h.body]
    show some (Machine.mk (S.behind p) _ _ _ _ _ _ _ _ _ _ _ _) = _
    rw [hbehind]
    rfl
  have hturn : wideStep S
      ⟨p + 1, x, y, osr >>> 1, isr, n, tx, [], set, osr.getLsbD 0, dir, false, edges⟩ =
      some ⟨if x ≠ 0 then p else p + 2, x - 1, y, osr >>> 1, isr, n, tx, [], set, osr.getLsbD 0, dir,
        true, edges ++ [(set, osr.getLsbD 0)]⟩ := by
    have hbehind := S.behind_eq (p := p + 1) h.inside
    simp only [wideStep, h.turn]
    show some (Machine.mk (if x ≠ 0 then p else S.behind (p + 1)) _ _ _ _ _ _ _ _ _ _ _ _) = _
    rw [hbehind]
    rfl
  show (wideStep S _).bind _ = _
  rw [hbody]
  show (wideStep S _).bind _ = _
  rw [hturn]
  rfl

/-- The edges of `n` bits of a word. -/
def driven (set : Bool) (n : Nat) (w : Word) : List (Bool × Bool) :=
  (List.range n).map fun j => (set, w.getLsbD j)

theorem driven_succ (set : Bool) (n : Nat) (w : Word) :
    driven set (n + 1) w = (set, w.getLsbD 0) :: driven set n (w >>> 1) := by
  unfold driven
  rw [List.range_succ_eq_map, List.map_cons, List.map_map]
  refine congrArg (_ :: ·) (List.map_congr_left fun j _ => ?_)
  show (set, w.getLsbD (j + 1)) = _
  rw [BitVec.getLsbD_ushiftRight, Nat.add_comm 1 j]

theorem driven_length (set : Bool) (n : Nat) (w : Word) : (driven set n w).length = n := by
  rw [driven, List.length_map, List.length_range]

/-- One bit more than `x` counts is put out, each with a clock. -/
theorem runs_outLoop (h : OutLoop S p) (y osr isr : Word) (n : Nat) (tx : List Word)
    (set out dir clock : Bool) (edges : List (Bool × Bool)) {k : Nat} (hk : k < 2 ^ 32) :
    runs (wideStep S) (2 * (k + 1))
      ⟨p, BitVec.ofNat 32 k, y, osr, isr, n, tx, [], set, out, dir, clock, edges⟩ =
        some ⟨p + 2, 0 - 1, y, osr >>> (k + 1), isr, n, tx, [], set, osr.getLsbD k, dir, true,
          edges ++ driven set (k + 1) osr⟩ := by
  induction k generalizing osr out clock edges with
  | zero => exact runs_outTurn h 0 y osr isr n tx set out dir clock edges
  | succ k ih =>
    have hturn := runs_outTurn h (BitVec.ofNat 32 (k + 1)) y osr isr n tx set out dir clock edges
    rw [if_pos (ofNat_succ_ne_zero hk), ofNat_succ_sub_one] at hturn
    have hrest := ih (osr >>> 1) (osr.getLsbD 0) true (edges ++ [(set, osr.getLsbD 0)])
      (Nat.lt_of_succ_lt hk)
    rw [← BitVec.shiftRight_add, Nat.add_comm 1, BitVec.getLsbD_ushiftRight, Nat.add_comm 1,
      List.append_assoc, List.singleton_append, ← driven_succ] at hrest
    rw [Nat.mul_succ, Nat.add_comm]
    exact runs_trans hturn hrest

/-- A bit that does not fill the register. -/
theorem runs_inTurn {level : Bool} (h : InLoop S p level) (x y osr isr : Word) (tx : List Word)
    (set out dir : Bool) (edges : List (Bool × Bool)) (hclock : level = true → clock = false)
    (hn : n + 1 < 32) :
    runs (wideStep S) 2 ⟨p, x, y, osr, isr, n, tx, [], set, out, dir, clock, edges⟩ =
      some ⟨if x ≠ 0 then p else p + 2, x - 1, y, osr, shiftIn isr (S.input edges.length), n + 1, tx,
        [], set, out, dir, !level, edges ++ [(set, out)]⟩ := by
  have hcount : min 32 (n + 1) = n + 1 := Nat.min_eq_right (Nat.le_of_lt hn)
  have hroom : ¬ (S.autopush = true ∧ 32 ≤ n + 1) := fun h => Nat.not_le_of_lt hn h.2
  have hbody : wideStep S ⟨p, x, y, osr, isr, n, tx, [], set, out, dir, clock, edges⟩ =
      some ⟨p + 1, x, y, osr, shiftIn isr (S.input edges.length), n + 1, tx, [], set, out, dir, level,
        if level then edges ++ [(set, out)] else edges⟩ := by
    have hbehind := S.behind_eq (p := p) (Nat.lt_of_succ_lt h.inside)
    have hexec : wideExec S ⟨p, x, y, osr, isr, n, tx, [], set, out, dir, clock, edges⟩
        (.narrow .inPins) = some ⟨p + 1, x, y, osr, shiftIn isr (S.input edges.length), n + 1, tx, [],
          set, out, dir, clock, edges⟩ := by
      show (if S.autopush = true ∧ 32 ≤ min 32 (n + 1) then _ else some (Machine.mk (S.behind p) x y
        osr (shiftIn isr (S.input edges.length)) (min 32 (n + 1)) tx [] set out dir clock edges)) = _
      rw [hcount, if_neg hroom, hbehind]
    simp only [wideStep, h.body]
    show (wideExec S _ _).bind _ = _
    rw [hexec]
    cases level with
    | false => rfl
    | true =>
      rw [hclock rfl]
      rfl
  have hturn : wideStep S ⟨p + 1, x, y, osr, shiftIn isr (S.input edges.length), n + 1, tx, [], set,
      out, dir, level, if level then edges ++ [(set, out)] else edges⟩ =
      some ⟨if x ≠ 0 then p else p + 2, x - 1, y, osr, shiftIn isr (S.input edges.length), n + 1, tx,
        [], set, out, dir, !level, edges ++ [(set, out)]⟩ := by
    have hbehind := S.behind_eq (p := p + 1) h.inside
    simp only [wideStep, h.turn]
    show some (Machine.sideSet (Machine.mk (if x ≠ 0 then p else S.behind (p + 1)) _ _ _ _ _ _ _ _ _ _
      _ _) _) = _
    rw [hbehind]
    cases level <;> rfl
  show (wideStep S _).bind _ = _
  rw [hbody]
  show (wideStep S _).bind _ = _
  rw [hturn]
  rfl

/-- The levels from a number of edges on. -/
def levels (input : Nat → Bool) (start n : Nat) : List Bool :=
  (List.range n).map fun k => input (start + k)

theorem levels_succ (input : Nat → Bool) (start n : Nat) :
    levels input start (n + 1) = input start :: levels input (start + 1) n := by
  unfold levels
  rw [List.range_succ_eq_map, List.map_cons, List.map_map]
  refine congrArg (_ :: ·) (List.map_congr_left fun k _ => ?_)
  show input (start + (k + 1)) = _
  rw [Nat.add_right_comm, Nat.add_assoc]

theorem levels_concat (input : Nat → Bool) (start n : Nat) :
    levels input start (n + 1) = levels input start n ++ [input (start + n)] := by
  unfold levels
  rw [List.range_succ, List.map_append, List.map_singleton]

theorem levels_length (input : Nat → Bool) (start n : Nat) : (levels input start n).length = n := by
  rw [levels, List.length_map, List.length_range]

/-- `k` turns that are not the last one and do not fill the register. -/
theorem runs_inTurns {level : Bool} (h : InLoop S p level) (y osr isr : Word) (tx : List Word)
    (set out dir clock : Bool) (edges : List (Bool × Bool)) (j k : Nat)
    (hclock : level = true → clock = false) (hx : j + k < 2 ^ 32) (hn : n + k < 32) :
    ∃ clock', (level = true → clock' = false) ∧ runs (wideStep S) (2 * k)
      ⟨p, BitVec.ofNat 32 (j + k), y, osr, isr, n, tx, [], set, out, dir, clock, edges⟩ =
        some ⟨p, BitVec.ofNat 32 j, y, osr, (levels S.input edges.length k).foldl shiftIn isr, n + k,
          tx, [], set, out, dir, clock', edges ++ List.replicate k (set, out)⟩ := by
  induction k generalizing isr n clock edges with
  | zero => exact ⟨clock, hclock, by rw [List.replicate_zero, List.append_nil]; rfl⟩
  | succ k ih =>
    have hturn := runs_inTurn h (BitVec.ofNat 32 (j + k + 1)) y osr isr tx set out dir edges hclock
      (show n + 1 < 32 by omega)
    rw [if_pos (ofNat_succ_ne_zero (by omega)), ofNat_succ_sub_one] at hturn
    obtain ⟨clock', hclock', hrest⟩ := ih (n := n + 1) (shiftIn isr (S.input edges.length)) (!level)
      (edges ++ [(set, out)]) (by rintro rfl; rfl) (by omega) (by omega)
    refine ⟨clock', hclock', ?_⟩
    rw [List.length_append, List.length_singleton, List.append_assoc, List.singleton_append,
      ← List.replicate_succ] at hrest
    have hcount : n + (k + 1) = n + 1 + k := by omega
    rw [levels_succ, List.foldl_cons, Nat.mul_succ, Nat.add_comm _ 2, ← Nat.add_assoc j, hcount]
    exact runs_trans hturn hrest

/-- One bit more than `x` counts is taken in, each with a clock, without filling the register. -/
theorem runs_inLoop {level : Bool} (h : InLoop S p level) (y osr isr : Word) (tx : List Word)
    (set out dir clock : Bool) (edges : List (Bool × Bool)) {k : Nat}
    (hclock : level = true → clock = false) (hn : n + k + 1 < 32) :
    runs (wideStep S) (2 * (k + 1))
      ⟨p, BitVec.ofNat 32 k, y, osr, isr, n, tx, [], set, out, dir, clock, edges⟩ =
        some ⟨p + 2, 0 - 1, y, osr, (levels S.input edges.length (k + 1)).foldl shiftIn isr,
          n + k + 1, tx, [], set, out, dir, !level, edges ++ List.replicate (k + 1) (set, out)⟩ := by
  obtain ⟨clock', hclock', hturns⟩ := runs_inTurns h y osr isr tx set out dir clock edges 0 k hclock
    (by omega) (show n + k < 32 by omega)
  have hlast := runs_inTurn h 0 y osr ((levels S.input edges.length k).foldl shiftIn isr) tx set out
    dir (edges ++ List.replicate k (set, out)) hclock' hn
  rw [Nat.zero_add] at hturns
  rw [if_neg (not_not.mpr rfl), List.length_append, List.length_replicate, List.append_assoc,
    ← List.replicate_succ'] at hlast
  rw [levels_concat, List.foldl_append, Nat.mul_succ]
  exact runs_trans hturns hlast

end MiyakoLink.Lib.Pio
