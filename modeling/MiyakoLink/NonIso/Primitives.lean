import MiyakoLink.NonIso.Engine

/-!
# The primitives of the non-isolated interface

`platform_target_interface_non_iso.c`, and the frequency from `platform.c`. A primitive is in two
parts: `start` is what it does until it enables the state machine, and `finish` is the rest. The
words for the program are put into the empty queue in between; they are computed in `finish`.

The divider of a frequency is given by `div`. What the primitives return is left out. The request
that `dp->abort` sends is a primitive of its own, after the one that calls it.
-/

namespace MiyakoLink.NonIso

/-- `target_interface_pio_program_t`. -/
inductive PioProgram where
  | notSet
  | swdDpLowAccessRead
  | swdDpLowAccessWrite
  | swdDpLowSeqOut
  | swdDpLowSeqIn
  | swdDpLowWrite
  | jtagDpTdiTdoSeq
  | jtagDpTdiSeq
  | jtagDpTmsSeq
  | jtagDpNext
  deriving DecidableEq

/-- `TARGET_INTERFACE_PROGRAM_IS_JTAG`. -/
def PioProgram.isJtag : PioProgram → Bool
  | .jtagDpTdiTdoSeq | .jtagDpTdiSeq | .jtagDpTmsSeq | .jtagDpNext => true
  | _ => false

/-- `target_interface_tms_dir_t`. -/
inductive TmsDirection where
  | notInitialized
  | dirIn
  | dirOut
  deriving DecidableEq

/-- `target_interface_param_t`. -/
structure Param (δ : Type) where
  currentProgram : PioProgram
  minFrequency : UInt32
  maxFrequency : UInt32
  currentFrequency : UInt32
  clkdiv : δ
  updateClkdiv : Bool
  tmsDirection : TmsDirection

structure State (δ : Type) where
  param : Param δ
  pio : Pio δ

section

variable {δ : Type}

/-! ## The frequency -/

/-- `PIO_MIN_FREQUENCY` and `PIO_MAX_FREQUENCY`. -/
abbrev pioMinFrequency : UInt32 := 1000
abbrev pioMaxFrequency : UInt32 := 40000000

/-- `TARGET_INTERFACE_1_MIN_FREQUENCY` and `TARGET_INTERFACE_1_MAX_FREQUENCY`. -/
abbrev targetInterface1MinFrequency : UInt32 := pioMinFrequency
abbrev targetInterface1MaxFrequency : UInt32 := 20000000

/-- `platform_calculate_pio_clkdiv`. A negative divider is `none`. -/
def platformCalculatePioClkdiv (div : UInt32 → δ) (frequency : UInt32) : Option δ :=
  if frequency < pioMinFrequency ∨ frequency > pioMaxFrequency then none else some (div frequency)

/-- `platform_max_frequency_set`. -/
def platformMaxFrequencySet (div : UInt32 → δ) (frequency : UInt32) (s : State δ) : State δ :=
  if frequency < s.param.minFrequency ∨ frequency > s.param.maxFrequency then s
  else
    match platformCalculatePioClkdiv div frequency with
    | none => s
    | some clkdiv => { s with param := { s.param with
        clkdiv := clkdiv, currentFrequency := frequency, updateClkdiv := true } }

/-- `platform_target_interface_non_iso_init`, with the frequency that is stored. -/
def platformTargetInterfaceNonIsoInit (div : UInt32 → δ) (stored : UInt32) (s : State δ) :
    State δ :=
  platformMaxFrequencySet div stored { s with param := { s.param with
    currentProgram := .notSet
    minFrequency := targetInterface1MinFrequency
    maxFrequency := targetInterface1MaxFrequency
    tmsDirection := .notInitialized } }

/-! ## Before the state machine is enabled -/

/-- `platorm_pio_non_iso_swd_prog_config`. -/
def swdProgConfig (clkdiv : δ) : Config δ where
  inPins := .tms
  outPins := .tms
  setPins := .tmsDir
  sidesetPins := .tck
  autopush := true
  clkdiv := clkdiv

/-- `platorm_pio_non_iso_jtag_prog_config`. -/
def jtagProgConfig (clkdiv : δ) : Config δ where
  inPins := .tdo
  outPins := .tdi
  setPins := .tms
  sidesetPins := .tck
  autopush := false
  clkdiv := clkdiv

/-- `platorm_pio_non_iso_swd_pins_config`. -/
def swdPinsConfig (p : Pio δ) : Pio δ :=
  p.smSetPinsWithMask [(.tms, false), (.tmsDir, false), (.tck, false)]
    |>.smSetPindirsWithMask [(.tms, false), (.tmsDir, true), (.tck, true)]
    |>.gpioInit .tmsDir
    |>.gpioInit .tck
    |>.gpioInit .tms

/-- `platorm_pio_non_iso_jtag_pins_config`. -/
def jtagPinsConfig (p : Pio δ) : Pio δ :=
  p.smSetPinsWithMask
      [(.tdi, false), (.tdo, false), (.tms, false), (.tmsDir, true), (.tck, false)]
    |>.smSetPindirsWithMask
      [(.tdi, true), (.tdo, false), (.tms, true), (.tmsDir, true), (.tck, true)]
    |>.gpioInit .tdi
    |>.gpioInit .tdo
    |>.gpioInit .tmsDir
    |>.gpioInit .tms
    |>.gpioInit .tck

/-- The update of the divider, as all primitives do it. -/
def applyClkdiv (s : State δ) : State δ :=
  if s.param.updateClkdiv then
    { param := { s.param with updateClkdiv := false }
      pio := s.pio.smSetClkdiv s.param.clkdiv }
  else s

/-- The begin of the SWD primitives: the program is loaded if it is not the current one. -/
def selectSwd (target : PioProgram) (program : Program) (s : State δ) : State δ :=
  let s := { s with pio := s.pio.smSetEnabled false }
  let s :=
    if s.param.currentProgram ≠ target then
      let pio := s.pio.clearInstructionMemory.addProgram program
      let pio := if s.param.tmsDirection = .notInitialized then swdPinsConfig pio else pio
      { param := { s.param with currentProgram := target, updateClkdiv := false }
        pio := pio.smInit (swdProgConfig s.param.clkdiv) }
    else s
  applyClkdiv s

/-- The program of the JTAG primitives is loaded with the configuration. -/
def loadJtag (config : Config δ) (s : State δ) : State δ :=
  { param := { s.param with updateClkdiv := false }
    pio := (jtagPinsConfig (s.pio.clearInstructionMemory.addProgram .jtagTdiTdoSeq)).smInit
      config }

/-- The begin of the JTAG primitives other than `jtag_tms_seq`. -/
def selectJtag (target : PioProgram) (s : State δ) : State δ :=
  let s := { s with pio := s.pio.smSetEnabled false }
  let s :=
    if s.param.currentProgram ≠ target then
      if s.param.currentProgram = .jtagDpTmsSeq then
        { s with pio := (s.pio.smSetOutPins .tdi).smSetSetPins .tms }
      else if !s.param.currentProgram.isJtag then loadJtag (jtagProgConfig s.param.clkdiv) s
      else s
    else s
  applyClkdiv { s with param := { s.param with currentProgram := target } }

/-- The begin of `jtag_tms_seq`. -/
def selectTmsSeq (s : State δ) : State δ :=
  let s := { s with pio := s.pio.smSetEnabled false }
  let s :=
    if s.param.currentProgram ≠ .jtagDpTmsSeq then
      if !s.param.currentProgram.isJtag then
        loadJtag { jtagProgConfig s.param.clkdiv with outPins := .tms, setPins := .tdi } s
      else { s with pio := (s.pio.smSetOutPins .tms).smSetSetPins .tdi }
    else s
  applyClkdiv { s with param := { s.param with currentProgram := .jtagDpTmsSeq } }

def State.setTmsDirection (dir : TmsDirection) (s : State δ) : State δ :=
  { s with param := { s.param with tmsDirection := dir } }

/-! ## The primitives -/

/-- The functions of the interface, with what the target answers, and accepted or refused changes
of the frequency. -/
inductive Op where
  | seqOut (ms : UInt32) (ticks : Int)
  | seqOutParity (ms : UInt32) (ticks : Int)
  | seqIn (ticks : Int)
  /-- `ret` tells whether the pointer for the data is not NULL. -/
  | seqInParity (ret : Bool) (ticks : Int)
  | swdLowWrite (addr : UInt16) (data : UInt32)
  /-- `fault` is that of the DP; `ack` and `acks` are what the target would answer, until the
  timeout. -/
  | swdLowAccess (fault RnW : Bool) (addr : UInt16) (value : UInt32) (ack : Nat) (acks : List Nat)
  | jtagNext (dTMS dTDI : Bool)
  | jtagTmsSeq (ms : UInt32) (ticks : Int)
  | jtagTdiTdoSeq (finalTms : Bool) (di : List UInt8) (ticks : Int)
  | jtagTdiSeq (finalTms : Bool) (di : List UInt8) (ticks : Int)
  | maxFrequencySet (frequency : UInt32)

/-- `ADIV5_APnDP`. -/
abbrev apndp : UInt16 := 0x100

/-- Until the state machine is enabled, if it is. -/
def start (op : Op) (s : State δ) : Option (State δ) :=
  let enable (s : State δ) : State δ := { s with pio := s.pio.smSetEnabled true }
  match op with
  | .seqOut _ ticks | .seqOutParity _ ticks =>
    if ticks = 0 then none
    else some (enable ((selectSwd .swdDpLowSeqOut .swdLowSeqOut s).setTmsDirection .dirOut))
  | .seqIn ticks =>
    if ticks = 0 then none
    else some (enable ((selectSwd .swdDpLowSeqIn .swdLowSeqIn s).setTmsDirection .dirIn))
  | .seqInParity ret ticks =>
    if ticks = 0 ∨ ret = false then none
    else some (enable ((selectSwd .swdDpLowSeqIn .swdLowSeqIn s).setTmsDirection .dirIn))
  | .swdLowWrite _ _ =>
    some (enable ((selectSwd .swdDpLowWrite .swdLowWrite s).setTmsDirection .dirOut))
  | .swdLowAccess fault RnW addr _ _ _ =>
    if addr &&& apndp ≠ 0 ∧ fault then none
    else if RnW then
      some (enable ((selectSwd .swdDpLowAccessRead .swdLowAccessRead s).setTmsDirection .dirOut))
    else
      some (enable ((selectSwd .swdDpLowAccessWrite .swdLowAccessWrite s).setTmsDirection .dirOut))
  | .jtagNext _ _ => some (enable (selectJtag .jtagDpNext s))
  | .jtagTmsSeq _ _ =>
    let s := selectTmsSeq s
    some (enable { s with pio := s.pio.smSetPinsWithMask [(.tdi, true)] })
  | .jtagTdiTdoSeq _ _ _ => some (enable (selectJtag .jtagDpTdiTdoSeq s))
  | .jtagTdiSeq _ _ _ => some (enable (selectJtag .jtagDpTdiSeq s))
  | .maxFrequencySet _ => none

/-! ## The run of the program -/

/-- `make_packet_request`. -/
def makePacketRequest (RnW : Bool) (addr : Nat) : Nat :=
  let request := 0x81
  let request := if addr &&& 0x100 ≠ 0 then request ^^^ 0x22 else request
  let request := if RnW then request ^^^ 0x24 else request
  let addr := addr &&& 0xC
  let request := request ||| ((addr <<< 1) &&& 0x18)
  if addr = 4 ∨ addr = 8 then request ^^^ 0x20 else request

/-- `__builtin_popcount(w) & 1`. -/
def parityOf (w : UInt32) : Nat := (List.range 32).countP w.toNat.testBit % 2

/-- The word for a number of clocks. -/
def countWord (ticks : Int) : Nat :=
  if ticks > 32 then 32 - 1 else (UInt32.ofInt (ticks - 1)).toNat

/-- Whether the direction has to change before something is sent. -/
def turnOut (olddir : TmsDirection) : Nat := if olddir ≠ .dirOut then 1 else 0

/-- Whether the direction has to change before something is read. -/
def turnIn (olddir : TmsDirection) : Nat :=
  if olddir ≠ .dirIn ∧ olddir ≠ .notInitialized then 1 else 0

/-- `SWDP_ACK_OK`, `SWDP_ACK_WAIT` and `SWDP_ACK_FAULT`. -/
abbrev swdpAckOk : Nat := 1
abbrev swdpAckWait : Nat := 2
abbrev swdpAckFault : Nat := 4

/-- `swd_low_access` changes the direction by itself, without a turnaround in the program. -/
def takeLine (olddir : TmsDirection) (sm : Sm) : Sm :=
  if olddir ≠ .dirOut then
    { sm with
      level := assign sm.level [(.tmsDir, true)]
      pindir := assign sm.pindir [(.tms, true)] }
  else sm

/-- One run of the program of `swd_low_access`. -/
def accessProgram (pins : Pins) (RnW : Bool) (addr : UInt16) (value : UInt32) (ack : Nat)
    (sm : Sm) : Sm :=
  let request := makePacketRequest RnW addr.toNat ||| 1 <<< 9
  if RnW then swdLowAccessRead pins 0x20000000 request ack sm
  else swdLowAccessWrite pins 0x20000000 request value.toNat (parityOf value) ack sm

/-- The loop of `swd_low_access`: the program runs again as long as the target is not ready. The
result has the last acknowledgement. -/
def attempts (program : Nat → Sm → Sm) : Nat → List Nat → Sm → Sm × Nat
  | ack, [], s => (program ack s, ack)
  | ack, next :: acks, s =>
    if ack = swdpAckWait then attempts program next acks (program ack s)
    else (program ack s, ack)

/-- The word of the next bytes, the first one in the least significant bits. -/
def outData : List UInt8 → Nat
  | [] => 0
  | b :: bs => b.toNat + 256 * outData bs

/-- `n` turns of the loop over the words of `jtag_tdi_tdo_seq` and `jtag_tdi_seq`, with `i` clocks
to go. -/
def seqWords (pins : Pins) (finalTms : Bool) : Nat → Nat → List UInt8 → Sm → Sm
  | 0, _, _, s => s
  | n + 1, i, di, s =>
    let byteCount := if i > 32 then 4 else (i + 7) / 8
    let data := outData (di.take byteCount)
    let s :=
      if i > 32 then jtagTdiTdoSeq pins 0 0 31 data s
      else jtagTdiTdoSeq pins 0 finalTms.toNat (i - 1) data s
    seqWords pins finalTms n (i - 32) (di.drop byteCount) s

def Sm.ofPio (p : Pio δ) : Sm := ⟨p.level, p.pindir, 0, []⟩

/-- The pins as the state machine leaves them. -/
def Pio.afterRun (p : Pio δ) (sm : Sm) : Pio δ :=
  { p with level := sm.level, pindir := sm.pindir }

/-- What the state machine does, and whether it is still enabled afterwards: an acknowledgement
that is none of the three raises an exception before it is disabled. -/
def runProgram (pins : Pins) (olddir : TmsDirection) : Op → Sm → Sm × Bool
  | .seqOut ms ticks, sm =>
    (swdLowSeqOut pins (turnOut olddir) (countWord ticks) ms.toNat 0 sm, false)
  | .seqOutParity ms ticks, sm =>
    (swdLowSeqOut pins (turnOut olddir) (countWord ticks) ms.toNat (2 * parityOf ms + 1) sm, false)
  | .seqIn ticks, sm => (swdLowSeqIn pins (turnIn olddir) (countWord ticks) 0 sm, false)
  | .seqInParity _ ticks, sm => (swdLowSeqIn pins (turnIn olddir) (countWord ticks) 3 sm, false)
  | .swdLowWrite addr data, sm =>
    let request := makePacketRequest false (addr.toNat &&& 0xF) ||| 1 <<< 9
    (swdLowWrite pins (turnOut olddir) request data.toNat (parityOf data) sm, false)
  | .swdLowAccess _ RnW addr value ack acks, sm =>
    let r := attempts (accessProgram pins RnW addr value) ack acks (takeLine olddir sm)
    (r.1, decide (r.2 ≠ swdpAckOk ∧ r.2 ≠ swdpAckWait ∧ r.2 ≠ swdpAckFault))
  | .jtagNext dTMS dTDI, sm => (jtagTdiTdoSeq pins dTMS.toNat dTMS.toNat 0 dTDI.toNat sm, false)
  | .jtagTmsSeq ms ticks, sm =>
    (jtagTdiTdoSeq pins 1 1 (UInt32.ofInt (ticks - 1)).toNat ms.toNat sm, false)
  | .jtagTdiTdoSeq finalTms di ticks, sm | .jtagTdiSeq finalTms di ticks, sm =>
    (seqWords pins finalTms ((ticks.toNat + 31) / 32) ticks.toNat di sm, false)
  | .maxFrequencySet _, sm => (sm, false)

/-- The direction that is recorded at the end. -/
def lastDirection : Op → TmsDirection → TmsDirection
  | .seqInParity _ _, _ => .dirOut
  | _, dir => dir

/-- From where the state machine is enabled on. -/
def finish (op : Op) (olddir : TmsDirection) (s : State δ) : State δ :=
  let (sm, enabled) := runProgram s.pio.config.toPins olddir op (Sm.ofPio s.pio)
  { param := { s.param with tmsDirection := lastDirection op s.param.tmsDirection }
    pio := (s.pio.afterRun sm).smSetEnabled enabled }

def step (div : UInt32 → δ) (s : State δ) (op : Op) : State δ :=
  match op with
  | .maxFrequencySet frequency => platformMaxFrequencySet div frequency s
  | op =>
    match start op s with
    | none => s
    | some s' => finish op s.param.tmsDirection s'

/-- A call is a new frequency or a primitive. -/
theorem step_frequency_or (div : UInt32 → δ) (s : State δ) (op : Op) :
    (∃ f, op = .maxFrequencySet f) ∨ step div s op =
      (match start op s with
      | none => s
      | some s' => finish op s.param.tmsDirection s') := by
  cases op with
  | maxFrequencySet f => exact .inl ⟨f, rfl⟩
  | _ => exact .inr rfl

theorem step_none {div : UInt32 → δ} {s : State δ} {op : Op} (hop : ¬∃ f, op = .maxFrequencySet f)
    (hstart : start op s = none) : step div s op = s := by
  rw [(step_frequency_or div s op).resolve_left hop, hstart]

theorem step_some {div : UInt32 → δ} {s s' : State δ} {op : Op}
    (hop : ¬∃ f, op = .maxFrequencySet f) (hstart : start op s = some s') :
    step div s op = finish op s.param.tmsDirection s' := by
  rw [(step_frequency_or div s op).resolve_left hop, hstart]

/-- The states after `platform_target_interface_non_iso_init` and some calls. -/
def run (div : UInt32 → δ) (stored : UInt32) (s : State δ) (ops : List Op) : State δ :=
  ops.foldl (step div) (platformTargetInterfaceNonIsoInit div stored s)

end

end MiyakoLink.NonIso
