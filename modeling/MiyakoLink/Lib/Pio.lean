import Mathlib.Algebra.Group.Nat.Defs
import Mathlib.Data.List.Induction
import Mathlib.Logic.Relation

/-!
# A PIO state machine

The instructions of a programmable I/O state machine as the programs here use them: one bit at a
time, shifts to the right, no automatic pull. A program begins again behind its last instruction.
`input k` is the level of the input pin after `k` rising edges of the side-set pin, which is the
clock; `edges` records the levels of the set and the out pin at each of them.

* `get_of_reaches`: a blocking read from the queue of results, by what the machine does until it
  pushes one.
* `shiftIn_getLsbD`: the input register holds the bits that were shifted in, the last one on top.
-/

namespace MiyakoLink.Lib.Pio

abbrev Word := BitVec 32

/-! ## Counting down -/

theorem ofNat_succ_ne_zero {k : Nat} (hk : k + 1 < 2 ^ 32) : BitVec.ofNat 32 (k + 1) ≠ 0 := by
  intro h
  have h := congrArg BitVec.toNat h
  rw [BitVec.toNat_ofNat, Nat.mod_eq_of_lt hk] at h
  exact Nat.succ_ne_zero k h

theorem ofNat_succ_sub_one (k : Nat) : BitVec.ofNat 32 (k + 1) - 1 = BitVec.ofNat 32 k := by
  rw [BitVec.ofNat_add]
  exact BitVec.add_sub_cancel _ _

/-! ## Instructions -/

inductive Scratch where
  | x
  | y
  deriving DecidableEq

inductive Condition where
  | always
  | notX
  | notY
  | xDec
  deriving DecidableEq

inductive OutDest where
  | pins
  | pindirs
  | x
  | y
  | isr
  deriving DecidableEq

/-- `in pins, 1`, `out dest, 1`, `mov dest, OSR`, and the others as they are written. -/
inductive Instr where
  | jmp (condition : Condition) (target : Nat)
  | inPins
  | out (dest : OutDest)
  | push (block : Bool)
  | pull
  | movOsr (dest : Scratch)
  | setPins (value : Bool)
  | nop
  deriving DecidableEq

/-- An instruction with its optional side-set. -/
structure Line where
  instr : Instr
  side : Option Bool := none
  deriving DecidableEq

/-- What a state machine is set up with. -/
structure Setup where
  program : List Line
  autopush : Bool
  input : Nat → Bool

/-! ## Steps -/

structure Machine where
  pc : Nat
  x : Word
  y : Word
  osr : Word
  isr : Word
  isrCount : Nat
  tx : List Word
  rx : List Word
  setLevel : Bool
  outLevel : Bool
  pindir : Bool
  clock : Bool
  edges : List (Bool × Bool)

def bit (b : Bool) : Word := if b then 1 else 0

def shiftIn (isr : Word) (b : Bool) : Word := isr >>> 1 ||| if b then 0x80000000 else 0

/-- The depth of a queue. -/
abbrev fifoDepth : Nat := 4

namespace Machine

variable (m : Machine)

/-- The input register goes to the queue of results. -/
def pushed : Machine := { m with rx := m.rx ++ [m.isr], isr := 0, isrCount := 0 }

def goto (pc : Nat) : Machine := { m with pc := pc }

/-- The side-set, and the edge it makes on the clock. -/
def sideSet : Option Bool → Machine
  | none => m
  | some level =>
    { m with
      clock := level
      edges := if level && !m.clock then m.edges ++ [(m.setLevel, m.outLevel)] else m.edges }

end Machine

variable (S : Setup)

/-- The address behind `pc`. -/
def Setup.behind (pc : Nat) : Nat := if pc + 1 < S.program.length then pc + 1 else 0

/-- An instruction without its side-set; `none` if it stalls. -/
def exec (m : Machine) : Instr → Option Machine
  | .jmp .always target => some (m.goto target)
  | .jmp .notX target => some (m.goto (if m.x = 0 then target else S.behind m.pc))
  | .jmp .notY target => some (m.goto (if m.y = 0 then target else S.behind m.pc))
  | .jmp .xDec target =>
    some { m with pc := if m.x ≠ 0 then target else S.behind m.pc, x := m.x - 1 }
  | .inPins =>
    let m' := { m with
      pc := S.behind m.pc
      isr := shiftIn m.isr (S.input m.edges.length)
      isrCount := min 32 (m.isrCount + 1) }
    if S.autopush ∧ 32 ≤ m'.isrCount then if m.rx.length < fifoDepth then some m'.pushed else none
    else some m'
  | .out dest =>
    let b := m.osr.getLsbD 0
    let m' := { m with pc := S.behind m.pc, osr := m.osr >>> 1 }
    match dest with
    | .pins => some { m' with outLevel := b }
    | .pindirs => some { m' with pindir := b }
    | .x => some { m' with x := bit b }
    | .y => some { m' with y := bit b }
    | .isr => some { m' with isr := bit b, isrCount := 1 }
  | .push block =>
    if m.rx.length < fifoDepth then some (m.pushed.goto (S.behind m.pc))
    else if block then none
    else some { m with pc := S.behind m.pc, isr := 0, isrCount := 0 }
  | .pull =>
    match m.tx with
    | [] => none
    | w :: tx => some { m with pc := S.behind m.pc, osr := w, tx := tx }
  | .movOsr .x => some { m with pc := S.behind m.pc, x := m.osr }
  | .movOsr .y => some { m with pc := S.behind m.pc, y := m.osr }
  | .setPins value => some { m with pc := S.behind m.pc, setLevel := value }
  | .nop => some (m.goto (S.behind m.pc))

def step (m : Machine) : Option Machine := do
  let line ← S.program[m.pc]?
  let m' ← exec S m line.instr
  some (m'.sideSet line.side)

/-! ## Reading a result -/

/-- `pio_sm_get_blocking`, with fuel for the machine. -/
def get : Nat → Machine → Option (Word × Machine)
  | 0, _ => none
  | fuel + 1, m =>
    match m.rx with
    | w :: rx => some (w, { m with rx := rx })
    | [] => (step S m).bind (get fuel)

/-- A step of a machine that has no result to be read. -/
def Advances (m m' : Machine) : Prop := m.rx = [] ∧ step S m = some m'

abbrev Reaches : Machine → Machine → Prop := Relation.ReflTransGen (Advances S)

variable {S} {m m' : Machine}

theorem get_result {w : Word} {rx : List Word} (hw : m.rx = w :: rx) (fuel : Nat) :
    get S (fuel + 1) m = some (w, { m with rx := rx }) := by
  cases m
  cases hw
  rfl

theorem Advances.get (h : Advances S m m') (fuel : Nat) : get S (fuel + 1) m = get S fuel m' := by
  obtain ⟨hrx, hstep⟩ := h
  cases m
  cases hrx
  show (step S _).bind _ = _
  rw [hstep]
  rfl

theorem get_of_reaches (h : Reaches S m m') {w : Word} {rx : List Word} (hw : m'.rx = w :: rx) :
    ∃ N, ∀ fuel, N ≤ fuel → get S fuel m = some (w, { m' with rx := rx }) := by
  induction h using Relation.ReflTransGen.head_induction_on with
  | refl =>
    refine ⟨1, fun fuel hfuel => ?_⟩
    obtain ⟨k, rfl⟩ := Nat.exists_eq_add_of_le' hfuel
    exact get_result hw k
  | head hstep _ ih =>
    obtain ⟨N, hN⟩ := ih
    refine ⟨N + 1, fun fuel hfuel => ?_⟩
    obtain ⟨k, rfl⟩ := Nat.exists_eq_add_of_le' hfuel
    rw [← Nat.add_assoc, hstep.get]
    exact hN _ (Nat.le_add_left N k)

/-- `n` steps of a machine that has no result to be read. -/
def run (S : Setup) : Nat → Machine → Option Machine
  | 0, m => some m
  | n + 1, m =>
    match m.rx with
    | [] => (step S m).bind (run S n)
    | _ :: _ => none

theorem Advances.run (h : Advances S m m') (n : Nat) : run S (n + 1) m = run S n m' := by
  obtain ⟨hrx, hstep⟩ := h
  cases m
  cases hrx
  show (step S _).bind _ = _
  rw [hstep]
  rfl

/-- A run begins with a step. -/
theorem exists_of_run_succ {n : Nat} (h : run S (n + 1) m = some m') :
    ∃ m₁, Advances S m m₁ ∧ run S n m₁ = some m' := by
  cases hrx : m.rx with
  | nil =>
    cases m
    cases hrx
    obtain ⟨m₁, hstep, hrest⟩ := Option.bind_eq_some_iff.mp h
    exact ⟨m₁, ⟨rfl, hstep⟩, hrest⟩
  | cons w rx =>
    cases m
    cases hrx
    cases h

theorem reaches_of_run {n : Nat} (h : run S n m = some m') : Reaches S m m' := by
  induction n generalizing m with
  | zero =>
    cases h
    exact .refl
  | succ n ih =>
    obtain ⟨m₁, hstep, hrest⟩ := exists_of_run_succ h
    exact .head hstep (ih hrest)

theorem run_trans {a b : Nat} {m₁ : Machine} (h₁ : run S a m = some m₁)
    (h₂ : run S b m₁ = some m') : run S (a + b) m = some m' := by
  induction a generalizing m with
  | zero =>
    cases h₁
    rw [Nat.zero_add]
    exact h₂
  | succ a ih =>
    obtain ⟨m₂, hstep, hrest⟩ := exists_of_run_succ h₁
    rw [Nat.add_right_comm, hstep.run]
    exact ih hrest

theorem get_of_run {n fuel : Nat} (h : run S n m = some m') {w : Word} {rx : List Word}
    (hw : m'.rx = w :: rx) (hfuel : n < fuel) : get S fuel m = some (w, { m' with rx := rx }) := by
  induction n generalizing m fuel with
  | zero =>
    obtain ⟨k, rfl⟩ := Nat.exists_eq_add_of_le' hfuel
    cases h
    exact get_result hw k
  | succ n ih =>
    obtain ⟨k, rfl⟩ := Nat.exists_eq_add_of_le' (show 1 ≤ fuel by omega)
    obtain ⟨m₁, hstep, hrest⟩ := exists_of_run_succ h
    rw [hstep.get]
    exact ih hrest (by omega)

/-- `n` steps of a machine that nobody reads from. -/
def runOn (S : Setup) : Nat → Machine → Machine
  | 0, m => m
  | n + 1, m =>
    match step S m with
    | none => m
    | some m' => runOn S n m'

theorem runOn_succ (n : Nat) (m : Machine) :
    runOn S (n + 1) m = ((step S m).map (runOn S n)).getD m := by
  show (match step S m with | none => m | some m' => runOn S n m') = _
  cases step S m with
  | none => rfl
  | some m' => rfl

theorem runOn_stalled (h : step S m = none) (n : Nat) : runOn S n m = m := by
  cases n with
  | zero => rfl
  | succ n =>
    rw [runOn_succ, h]
    rfl

theorem runOn_step (h : step S m = some m') (n : Nat) : runOn S (n + 1) m = runOn S n m' := by
  rw [runOn_succ, h]
  rfl

theorem runOn_add (a b : Nat) (m : Machine) : runOn S (a + b) m = runOn S b (runOn S a m) := by
  induction a generalizing m with
  | zero =>
    rw [Nat.zero_add]
    rfl
  | succ a ih =>
    cases hstep : step S m with
    | none => rw [runOn_stalled hstep, runOn_stalled hstep, runOn_stalled hstep]
    | some m₁ => rw [Nat.add_right_comm, runOn_step hstep, runOn_step hstep, ih]

theorem runOn_of_run {n : Nat} (h : run S n m = some m') : runOn S n m = m' := by
  induction n generalizing m with
  | zero =>
    cases h
    rfl
  | succ n ih =>
    obtain ⟨m₁, hstep, hrest⟩ := exists_of_run_succ h
    rw [runOn_step hstep.2]
    exact ih hrest

/-- A machine that comes to a stall comes there from wherever it is stopped on its way. -/
theorem runOn_of_stalled {n : Nat} (h : run S n m = some m') (hstall : step S m' = none) (k : Nat) :
    runOn S n (runOn S k m) = m' := by
  rw [← runOn_add, Nat.add_comm, runOn_add, runOn_of_run h, runOn_stalled hstall]

/-! ## Shifted bits -/

theorem topBit_getLsbD : ∀ k < 32, (0x80000000 : Word).getLsbD k = decide (k = 31) := by
  decide

theorem shiftIn_getLsbD (isr : Word) (b : Bool) {k : Nat} (hk : k < 32) :
    (shiftIn isr b).getLsbD k = if k = 31 then b else isr.getLsbD (k + 1) := by
  have hzero : (0 : Word).getLsbD k = false := BitVec.getLsbD_zero
  have hbehind : isr.getLsbD 32 = false := BitVec.getLsbD_of_ge isr 32 (Nat.le_refl 32)
  have htop := topBit_getLsbD k hk
  unfold shiftIn
  rw [BitVec.getLsbD_or, BitVec.getLsbD_ushiftRight, Nat.add_comm 1 k]
  by_cases hlast : k = 31
  · subst hlast
    rw [if_pos rfl, hbehind, Bool.false_or]
    cases b with
    | false => exact hzero
    | true => exact htop
  · rw [decide_eq_false hlast] at htop
    rw [if_neg hlast]
    cases b with
    | false => rw [if_neg Bool.false_ne_true, hzero, Bool.or_false]
    | true => rw [if_pos rfl, htop, Bool.or_false]

/-- The input register after some bits. -/
def shifted (bits : List Bool) : Word := bits.foldl shiftIn 0

theorem shifted_concat (bits : List Bool) (b : Bool) :
    shifted (bits ++ [b]) = shiftIn (shifted bits) b := by
  unfold shifted
  rw [List.foldl_append]
  rfl

/-- The bits are at the top, in their order. -/
theorem shifted_getLsbD {bits : List Bool} (h : bits.length ≤ 32) {k : Nat} (hk : k < 32) :
    (shifted bits).getLsbD k =
      if 32 ≤ k + bits.length then bits.getD (k + bits.length - 32) false else false := by
  induction bits using List.reverseRecOn generalizing k with
  | nil =>
    rw [List.length_nil, if_neg (by omega)]
    exact BitVec.getLsbD_zero
  | append_singleton bits b ih =>
    rw [List.length_append, List.length_singleton] at h
    rw [shifted_concat, shiftIn_getLsbD _ _ hk, List.length_append, List.length_singleton]
    split
    · rename_i hlast
      have hindex : k + (bits.length + 1) - 32 = bits.length := by omega
      rw [if_pos (by omega), hindex, List.getD_eq_getElem?_getD, List.getElem?_concat_length]
      rfl
    · rename_i hlast
      rw [ih (by omega) (by omega)]
      have hindex : k + (bits.length + 1) - 32 = k + 1 + bits.length - 32 := by omega
      by_cases hin : 32 ≤ k + 1 + bits.length
      · rw [if_pos hin, if_pos (by omega), hindex, List.getD_eq_getElem?_getD,
          List.getD_eq_getElem?_getD, List.getElem?_append_left (by omega)]
      · rw [if_neg hin, if_neg (by omega)]

end MiyakoLink.Lib.Pio
