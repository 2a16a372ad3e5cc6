import Mathlib.Tactic.Common

/-!
# Manchester code

A bit is two halves of opposite levels, the first of them the bit. A receiver that measures pulses
sees how long the line is high and how long it is low behind that, in halves of a bit.

* `pulses_one`, `pulses_zero`: the next pulse of a signal, from the bit that its high part ends in.
-/

namespace MiyakoLink.Lib.Manchester

/-- The levels of the two halves. -/
def code (b : Bool) : List Bool := [b, !b]

def signal (bits : List Bool) : List Bool := bits.flatMap code

/-- The pulses of a signal: a high part and the low part behind it. The first one has begun with
`high` and `low` halves. -/
def pulsesFrom (high low : Nat) : List Bool → List (Nat × Nat)
  | [] => [(high, low)]
  | false :: levels => pulsesFrom high (low + 1) levels
  | true :: levels =>
    if low = 0 then pulsesFrom (high + 1) 0 levels else (high, low) :: pulsesFrom 1 0 levels

def pulses (levels : List Bool) : List (Nat × Nat) := pulsesFrom 0 0 levels

theorem pulsesFrom_ne_nil (high low : Nat) (levels : List Bool) :
    pulsesFrom high low levels ≠ [] := by
  induction levels generalizing high low with
  | nil => exact List.cons_ne_nil _ _
  | cons level levels ih =>
    cases level with
    | false => exact ih high (low + 1)
    | true =>
      rw [pulsesFrom]
      split
      · exact ih (high + 1) 0
      · exact List.cons_ne_nil _ _

theorem signal_cons (b : Bool) (bits : List Bool) :
    signal (b :: bits) = b :: (!b) :: signal bits := rfl

/-- Behind a one the line is low. -/
theorem pulses_one (high : Nat) (b : Bool) (bits : List Bool) :
    pulsesFrom high 1 (signal (b :: bits)) =
      (high, if b then 1 else 2) :: pulsesFrom 1 (if b then 1 else 0) (signal bits) := by
  rw [signal_cons]
  cases b with
  | true => rfl
  | false => rfl

/-- Behind a zero the line is high. -/
theorem pulses_zero (b : Bool) (bits : List Bool) :
    pulsesFrom 1 0 (signal (b :: bits)) =
      if b then pulsesFrom 2 1 (signal bits) else (1, 1) :: pulsesFrom 1 0 (signal bits) := by
  rw [signal_cons]
  cases b with
  | true => rfl
  | false => rfl

/-- A signal begins with a one. -/
theorem pulses_start (bits : List Bool) :
    pulses (signal (true :: bits)) = pulsesFrom 1 1 (signal bits) := rfl

end MiyakoLink.Lib.Manchester
