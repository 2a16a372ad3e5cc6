import Mathlib.Algebra.GroupWithZero.Nat
import Mathlib.Tactic.Common

/-!
# Chains of JTAG test access ports

IEEE 1149.1 devices between one data input and one data output. All ports see the same mode
signal, so they are in one state of the TAP controller, and the registers they have selected
form one shift register. Devices are listed from the data output on, and so are the bits of the
shift register.

* `clocks_shift`: shifting bits in pushes the old contents out, in order.
-/

namespace MiyakoLink.Lib

/-- The states of the TAP controller. -/
inductive TapState where
  | testLogicReset
  | runTestIdle
  | selectDr
  | captureDr
  | shiftDr
  | exit1Dr
  | pauseDr
  | exit2Dr
  | updateDr
  | selectIr
  | captureIr
  | shiftIr
  | exit1Ir
  | pauseIr
  | exit2Ir
  | updateIr
  deriving DecidableEq, Repr

/-- The state after a clock, for a mode signal that is low and one that is high. -/
def TapState.next : TapState → Bool → TapState
  | .testLogicReset, tms => if tms then .testLogicReset else .runTestIdle
  | .runTestIdle, tms => if tms then .selectDr else .runTestIdle
  | .selectDr, tms => if tms then .selectIr else .captureDr
  | .captureDr, tms => if tms then .exit1Dr else .shiftDr
  | .shiftDr, tms => if tms then .exit1Dr else .shiftDr
  | .exit1Dr, tms => if tms then .updateDr else .pauseDr
  | .pauseDr, tms => if tms then .exit2Dr else .pauseDr
  | .exit2Dr, tms => if tms then .updateDr else .shiftDr
  | .updateDr, tms => if tms then .selectDr else .runTestIdle
  | .selectIr, tms => if tms then .testLogicReset else .captureIr
  | .captureIr, tms => if tms then .exit1Ir else .shiftIr
  | .shiftIr, tms => if tms then .exit1Ir else .shiftIr
  | .exit1Ir, tms => if tms then .updateIr else .pauseIr
  | .pauseIr, tms => if tms then .exit2Ir else .pauseIr
  | .exit2Ir, tms => if tms then .updateIr else .shiftIr
  | .updateIr, tms => if tms then .selectDr else .runTestIdle

/-- The low bits of a word, the least significant one first. -/
def wordBits (v : UInt32) (n : Nat) : List Bool := (List.range n).map v.toNat.testBit

/-- What is fixed about a device. The lowest bit of what the instruction register captures is
one. The instruction that is loaded on a reset selects the identification register, or the
bypass register where there is no identification. -/
structure Device where
  irLen : Nat
  irCapture : List Bool
  irCapture_length : irCapture.length = irLen
  irCapture_head : irCapture.head? = some true
  idcode : Option UInt32
  resetIr : List Bool
  resetIr_length : resetIr.length = irLen
  resetIr_bypass : resetIr = List.replicate irLen true ↔ idcode = none

/-- A port: its instruction register, and the contents of its data registers by the
instruction that selects them. -/
structure Port where
  device : Device
  ir : List Bool
  data : List Bool → List Bool

namespace Port

/-- The instruction whose bits are all one selects the bypass register. -/
def Bypassed (p : Port) : Prop := p.ir = List.replicate p.device.irLen true

instance (p : Port) : Decidable p.Bypassed := inferInstanceAs (Decidable (_ = _))

/-- What the selected data register captures. -/
def captured (p : Port) : List Bool :=
  if p.Bypassed then [false]
  else
    match p.device.idcode with
    | some v => if p.ir = p.device.resetIr then wordBits v 32 else p.data p.ir
    | none => p.data p.ir

/-- The identification and the bypass register cannot be written. -/
def update (p : Port) (reg : List Bool) : Port :=
  if p.Bypassed ∨ p.ir = p.device.resetIr then p
  else { p with data := fun ir => if ir = p.ir then reg else p.data ir }

def reset (p : Port) : Port := { p with ir := p.device.resetIr }

end Port

structure Chain where
  tap : TapState
  reg : List Bool
  ports : List Port

/-- Give every port its part of the shift register. -/
def distribute (len : Port → Nat) (put : Port → List Bool → Port) :
    List Port → List Bool → List Port
  | [], _ => []
  | p :: ps, reg => put p (reg.take (len p)) :: distribute len put ps (reg.drop (len p))

/-- A clock: the bit on the data output, and the chain. -/
def Chain.clock (c : Chain) (tms tdi : Bool) : Bool × Chain :=
  let tap := c.tap.next tms
  match c.tap with
  | .testLogicReset => (true, { c with tap := tap, ports := c.ports.map Port.reset })
  | .captureDr => (true, { c with tap := tap, reg := c.ports.flatMap Port.captured })
  | .captureIr => (true, { c with tap := tap, reg := c.ports.flatMap (·.device.irCapture) })
  | .shiftDr | .shiftIr =>
    ((c.reg ++ [tdi]).headD true, { c with tap := tap, reg := (c.reg ++ [tdi]).tail })
  | .updateDr =>
    (true, { c with
      tap := tap
      ports := distribute (·.captured.length) Port.update c.ports c.reg })
  | .updateIr =>
    (true, { c with
      tap := tap
      ports := distribute (·.device.irLen) (fun p reg => { p with ir := reg }) c.ports c.reg })
  | _ => (true, { c with tap := tap })

/-- Several clocks, with the bits on the data output. -/
def Chain.clocks (c : Chain) : List (Bool × Bool) → List Bool × Chain
  | [] => ([], c)
  | (tms, tdi) :: s =>
    let r := c.clock tms tdi
    let rest := r.2.clocks s
    (r.1 :: rest.1, rest.2)

/-- Data bits with the mode signal low, and as `final` says at the last one. -/
def withMode (final : Bool) : List Bool → List (Bool × Bool)
  | [] => []
  | [b] => [(final, b)]
  | b :: bs => (false, b) :: withMode final bs

namespace Chain

/-- A clock in one of the two states that shift. -/
theorem clock_shift {c : Chain} (h : c.tap = .shiftDr ∨ c.tap = .shiftIr) (tms tdi : Bool) :
    c.clock tms tdi =
      ((c.reg ++ [tdi]).headD true,
        { c with tap := c.tap.next tms, reg := (c.reg ++ [tdi]).tail }) := by
  unfold clock
  rcases h with h | h
  · rw [h]
  · rw [h]

/-- Shifting bits in pushes the old contents out, in order. -/
theorem clocks_shift {c : Chain} (h : c.tap = .shiftDr ∨ c.tap = .shiftIr) (final : Bool)
    (bits : List Bool) :
    c.clocks (withMode final bits) =
      ((c.reg ++ bits).take bits.length,
        { c with
          tap := if bits = [] then c.tap else c.tap.next final
          reg := (c.reg ++ bits).drop bits.length }) := by
  induction bits generalizing c with
  | nil => simp [withMode, clocks]
  | cons b bits ih =>
    obtain ⟨x, r, hreg⟩ : ∃ x r, c.reg ++ [b] = x :: r := by
      cases hr : c.reg with
      | nil => exact ⟨b, [], rfl⟩
      | cons x r => exact ⟨x, r ++ [b], rfl⟩
    have hsplit : c.reg ++ b :: bits = x :: (r ++ bits) := by
      rw [← List.singleton_append, ← List.append_assoc, hreg]
      rfl
    cases bits with
    | nil =>
      rw [withMode, clocks, clock_shift h, hreg]
      simp [clocks]
    | cons b' bits =>
      have hstay : c.tap.next false = c.tap := by
        rcases h with h | h
        · rw [h]
          rfl
        · rw [h]
          rfl
      have hmode : withMode final (b :: b' :: bits) = (false, b) :: withMode final (b' :: bits) :=
        rfl
      have hrest := ih (c := { c with reg := r }) h
      rw [hmode, clocks, clock_shift h, hreg, hsplit, hstay]
      dsimp only [List.tail_cons]
      rw [hrest]
      simp

end Chain

theorem distribute_length (len : Port → Nat) (put : Port → List Bool → Port) (ps : List Port)
    (reg : List Bool) : (distribute len put ps reg).length = ps.length := by
  induction ps generalizing reg with
  | nil => rfl
  | cons p ps ih => exact congrArg (· + 1) (ih _)

/-- What a port gets: the part behind those of the ports before it. -/
theorem distribute_getElem? (len : Port → Nat) (put : Port → List Bool → Port) (ps : List Port)
    (reg : List Bool) (i : Nat) :
    (distribute len put ps reg)[i]? =
      ps[i]?.map fun p => put p ((reg.drop ((ps.take i).map len).sum).take (len p)) := by
  induction ps generalizing reg i with
  | nil => rfl
  | cons p ps ih =>
    cases i with
    | zero => rfl
    | succ i =>
      rw [distribute, List.getElem?_cons_succ, List.getElem?_cons_succ, ih, List.take_succ_cons,
        List.map_cons, List.sum_cons, List.drop_drop]

end MiyakoLink.Lib
