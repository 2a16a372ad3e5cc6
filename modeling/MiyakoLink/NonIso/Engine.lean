import Mathlib.Algebra.Group.Nat.Defs
import Mathlib.Logic.Function.Basic
import Mathlib.Logic.Function.Iterate

/-!
# The PIO engine of the non-isolated interface

What the functions of the PIO driver do to the state machine that all SWD and JTAG primitives use,
and the programs for it. A program is the sequence of its instructions, each of them a function.
The side-set moves nothing but the clock pin and is left out, and so is what is read from the pins:
what the target sends is an argument. `samples` collects whether the pin was an output each time it
was read.
-/

namespace MiyakoLink.NonIso

/-! ## The hardware -/

inductive Pin where
  | tms
  | tmsDir
  | tck
  | tdi
  | tdo
  deriving DecidableEq

/-- The assembled programs. -/
inductive Program where
  | swdLowAccessRead
  | swdLowAccessWrite
  | swdLowSeqIn
  | swdLowSeqOut
  | swdLowWrite
  | jtagTdiTdoSeq
  deriving DecidableEq

/-- The pins that the instructions are about. -/
structure Pins where
  inPins : Pin
  outPins : Pin
  setPins : Pin
  sidesetPins : Pin
  deriving DecidableEq

/-- `pio_sm_config`, with dividers from `δ`. -/
structure Config (δ : Type) extends Pins where
  autopush : Bool
  clkdiv : δ

structure Pio (δ : Type) where
  instructionMemory : List Program
  config : Config δ
  enabled : Bool
  level : Pin → Bool
  /-- The pins that are outputs. -/
  pindir : Pin → Bool
  /-- The pins that are connected to the engine. -/
  selected : Pin → Bool

section

variable {δ : Type}

/-- The pins of a mask get new values. -/
def assign (f : Pin → Bool) (values : List (Pin × Bool)) : Pin → Bool :=
  values.foldl (fun f v => Function.update f v.1 v.2) f

def Pio.clearInstructionMemory (p : Pio δ) : Pio δ := { p with instructionMemory := [] }

def Pio.addProgram (program : Program) (p : Pio δ) : Pio δ :=
  { p with instructionMemory := program :: p.instructionMemory }

def Pio.smInit (config : Config δ) (p : Pio δ) : Pio δ :=
  { p with config := config, enabled := false }

def Pio.smSetEnabled (enabled : Bool) (p : Pio δ) : Pio δ := { p with enabled := enabled }

def Pio.smSetOutPins (pin : Pin) (p : Pio δ) : Pio δ := { p with config.outPins := pin }

def Pio.smSetSetPins (pin : Pin) (p : Pio δ) : Pio δ := { p with config.setPins := pin }

def Pio.smSetClkdiv (clkdiv : δ) (p : Pio δ) : Pio δ := { p with config.clkdiv := clkdiv }

def Pio.smSetPinsWithMask (values : List (Pin × Bool)) (p : Pio δ) : Pio δ :=
  { p with level := assign p.level values }

def Pio.smSetPindirsWithMask (values : List (Pin × Bool)) (p : Pio δ) : Pio δ :=
  { p with pindir := assign p.pindir values }

def Pio.gpioInit (pin : Pin) (p : Pio δ) : Pio δ :=
  { p with selected := Function.update p.selected pin true }

/-! ## The instructions -/

/-- The state machine as it runs. -/
structure Sm where
  level : Pin → Bool
  pindir : Pin → Bool
  osr : Nat
  samples : List Bool

namespace Sm

variable (pins : Pins) (s : Sm)

def pull (word : Nat) : Sm := { s with osr := word }

/-- `out x, 1`, where the bit is known or not used. -/
def outX : Sm := { s with osr := s.osr >>> 1 }

def setPins (v : Bool) : Sm := { s with level := Function.update s.level pins.setPins v }

def outPins : Sm :=
  { s with
    level := Function.update s.level pins.outPins (s.osr.testBit 0)
    osr := s.osr >>> 1 }

def outPindirs : Sm :=
  { s with
    pindir := Function.update s.pindir pins.outPins (s.osr.testBit 0)
    osr := s.osr >>> 1 }

def inPins : Sm := { s with samples := s.samples ++ [s.pindir pins.inPins] }

end Sm

/-- A loop over one instruction. -/
def Sm.loop (n : Nat) (instr : Sm → Sm) (s : Sm) : Sm := instr^[n] s

/-! ## The programs -/

section

variable (pins : Pins)

/-- `target_interface_non_iso_swd_low_seq_out`. -/
def swdLowSeqOut (turn count ms parity : Nat) (s : Sm) : Sm :=
  let s := s.pull turn
  let s := if turn ≠ 0 then (s.setPins pins true).outPindirs pins else s
  let s := (s.pull count).pull ms
  let s := s.loop (count + 1) (Sm.outPins pins)
  let s := s.pull parity
  let y := s.osr.testBit 0
  let s := s.outX
  let s := if y then s.outPins pins else s
  s.outX

/-- `target_interface_non_iso_swd_low_seq_in`. -/
def swdLowSeqIn (turn count parity : Nat) (s : Sm) : Sm :=
  let s := s.pull turn
  let s := if turn ≠ 0 then ((s.setPins pins false).outX).outPindirs pins else s
  let s := s.pull count
  let s := s.loop (count + 1) (Sm.inPins pins)
  let s := s.pull parity
  let y := s.osr.testBit 0
  let s := s.outX
  let s := if y then ((s.inPins pins).setPins pins true).outPindirs pins else s
  s.outX

/-- `target_interface_non_iso_swd_low_write`. -/
def swdLowWrite (turn request data parity : Nat) (s : Sm) : Sm :=
  let s := s.pull turn
  let s := if turn ≠ 0 then ((s.setPins pins true).outPindirs pins).outPins pins else s
  let s := s.pull request
  let s := s.loop 8 (Sm.outPins pins)
  let s := (s.setPins pins false).outPindirs pins
  let s := s.loop 3 (Sm.inPins pins)
  let s := s.setPins pins true
  -- `set x, 1` and `mov OSR, x`.
  let s := (s.pull 1).outPindirs pins
  let s := s.pull data
  let s := s.loop 32 (Sm.outPins pins)
  let s := s.pull parity
  s.outPins pins

/-- `target_interface_non_iso_swd_low_access_read`. The three bits of the acknowledgement are shifted
in from the left; if they are the expected ones, 32 bits of data and the parity follow. -/
def swdLowAccessRead (expected request ack : Nat) (s : Sm) : Sm :=
  let s := (s.pull expected).pull request
  let s := s.loop 8 (Sm.outPins pins)
  let s := (s.setPins pins false).outPindirs pins
  let s := s.loop 3 (Sm.inPins pins)
  let s := if ack <<< 29 = expected then s.loop 33 (Sm.inPins pins) else s
  ((s.setPins pins true).outPindirs pins).outPins pins

/-- `target_interface_non_iso_swd_low_access_write`. -/
def swdLowAccessWrite (expected request value parity ack : Nat) (s : Sm) : Sm :=
  let s := (s.pull expected).pull request
  let s := s.loop 8 (Sm.outPins pins)
  let s := (s.setPins pins false).outPindirs pins
  let s := s.loop 3 (Sm.inPins pins)
  let s := (s.setPins pins true).outPindirs pins
  if ack <<< 29 = expected then
    let s := (s.pull value).loop 32 (Sm.outPins pins)
    (s.pull parity).loop 8 (Sm.outPins pins)
  else (s.pull value).pull parity

/-- `target_interface_non_iso_jtag_tdi_tdo_seq`. -/
def jtagTdiTdoSeq (initial final count data : Nat) (s : Sm) : Sm :=
  let s := (s.pull initial).setPins pins (initial ≠ 0)
  let s := ((s.pull final).pull count).pull data
  let s := s.loop count fun s => (s.outPins pins).inPins pins
  let s := s.setPins pins (final ≠ 0)
  (s.outPins pins).inPins pins

end

end

end MiyakoLink.NonIso
