import Mathlib.Tactic.SplitIfs
import MiyakoLink.NonIso.Ready

/-!
# The direction of SWDIO

`tms_direction` is to be the direction in which SWDIO is driven, as all SWD primitives rely on it.
Among themselves they keep it right, whatever the target answers (`direction_real`). The JTAG
primitives make SWDIO an output and leave the record as it is, so it gets wrong if it was `dirIn`
(`jtag_not_real`).
-/

namespace MiyakoLink.NonIso

variable {δ : Type} {div : UInt32 → δ} {s s' : State δ} {sm : Sm} {out : Bool}

/-! ## The pins that matter -/

/-- SWDIO is an output or an input, and the direction pin says so. -/
structure Sm.Drives (out : Bool) (sm : Sm) : Prop where
  tms : sm.pindir .tms = out
  tmsDir : sm.pindir .tmsDir = true
  level : sm.level .tmsDir = out

/-- The same for the engine, which the two pins are connected to. -/
structure Pio.Drives (out : Bool) (p : Pio δ) : Prop where
  tms : p.selected .tms = true ∧ p.pindir .tms = out
  tmsDir : p.selected .tmsDir = true ∧ p.pindir .tmsDir = true
  level : p.level .tmsDir = out

section

variable (s : Sm) (v : Bool) (w n : Nat)

@[simp] theorem Sm.pull_fields : (s.pull w).pindir = s.pindir ∧ (s.pull w).level = s.level ∧
    (s.pull w).osr = w ∧ (s.pull w).samples = s.samples := ⟨rfl, rfl, rfl, rfl⟩

@[simp] theorem Sm.outX_fields : s.outX.pindir = s.pindir ∧ s.outX.level = s.level ∧
    s.outX.osr = s.osr >>> 1 ∧ s.outX.samples = s.samples := ⟨rfl, rfl, rfl, rfl⟩

@[simp] theorem Sm.setPins_fields : (s.setPins swdPins v).pindir = s.pindir ∧
    (s.setPins swdPins v).level .tmsDir = v ∧ (s.setPins swdPins v).osr = s.osr ∧
    (s.setPins swdPins v).samples = s.samples := ⟨rfl, rfl, rfl, rfl⟩

@[simp] theorem Sm.outPins_fields : (s.outPins swdPins).pindir = s.pindir ∧
    (s.outPins swdPins).level .tmsDir = s.level .tmsDir ∧
    (s.outPins swdPins).osr = s.osr >>> 1 ∧ (s.outPins swdPins).samples = s.samples :=
  ⟨rfl, rfl, rfl, rfl⟩

@[simp] theorem Sm.outPindirs_fields :
    (s.outPindirs swdPins).pindir .tms = s.osr.testBit 0 ∧
    (s.outPindirs swdPins).pindir .tmsDir = s.pindir .tmsDir ∧
    (s.outPindirs swdPins).level = s.level ∧ (s.outPindirs swdPins).osr = s.osr >>> 1 ∧
    (s.outPindirs swdPins).samples = s.samples := ⟨rfl, rfl, rfl, rfl, rfl⟩

@[simp] theorem Sm.inPins_fields : (s.inPins swdPins).pindir = s.pindir ∧
    (s.inPins swdPins).level = s.level ∧ (s.inPins swdPins).osr = s.osr ∧
    (s.inPins swdPins).samples = s.samples ++ [s.pindir .tms] := ⟨rfl, rfl, rfl, rfl⟩

@[simp] theorem Sm.loop_outPins_fields :
    (s.loop n (Sm.outPins swdPins)).pindir = s.pindir ∧
    (s.loop n (Sm.outPins swdPins)).level .tmsDir = s.level .tmsDir ∧
    (s.loop n (Sm.outPins swdPins)).osr = s.osr >>> n ∧
    (s.loop n (Sm.outPins swdPins)).samples = s.samples := by
  induction n generalizing s with
  | zero => exact ⟨rfl, rfl, rfl, rfl⟩
  | succ n ih =>
    obtain ⟨hpindir, hlevel, hosr, hsamples⟩ := ih (s.outPins swdPins)
    refine ⟨hpindir, hlevel, hosr.trans ?_, hsamples⟩
    rw [Nat.add_comm n 1, Nat.shiftRight_add]
    rfl

@[simp] theorem Sm.loop_inPins_fields :
    (s.loop n (Sm.inPins swdPins)).pindir = s.pindir ∧
    (s.loop n (Sm.inPins swdPins)).level = s.level ∧
    (s.loop n (Sm.inPins swdPins)).osr = s.osr ∧
    (s.loop n (Sm.inPins swdPins)).samples =
      s.samples ++ List.replicate n (s.pindir .tms) := by
  induction n generalizing s with
  | zero => simp [Sm.loop]
  | succ n ih =>
    obtain ⟨hpindir, hlevel, hosr, hsamples⟩ := ih (s.inPins swdPins)
    refine ⟨hpindir, hlevel, hosr, hsamples.trans ?_⟩
    simp [List.replicate_succ]

end

/-! ## The programs -/

/-- Every time SWDIO was read, it was an input. -/
def Sm.Quiet (sm : Sm) : Prop := ∀ b ∈ sm.samples, b = false

theorem swdLowSeqOut_drives (h : sm.Drives out) (hquiet : sm.Quiet) (count ms parity : Nat) :
    (swdLowSeqOut swdPins (if out then 0 else 1) count ms parity sm).Drives true ∧
      (swdLowSeqOut swdPins (if out then 0 else 1) count ms parity sm).Quiet := by
  obtain ⟨htms, htmsDir, hlevel⟩ := h
  unfold Sm.Quiet at hquiet ⊢
  cases out <;> cases hparity : parity.testBit 0
  all_goals
    constructor
    · constructor <;> simp [swdLowSeqOut, hparity, htms, htmsDir, hlevel]
    · simpa [swdLowSeqOut, hparity] using hquiet

/-- Without a parity bit to read, the target keeps the line. -/
theorem swdLowSeqIn_drives (h : sm.Drives out) (hquiet : sm.Quiet) (count : Nat) :
    (swdLowSeqIn swdPins (if out then 1 else 0) count 0 sm).Drives false ∧
      (swdLowSeqIn swdPins (if out then 1 else 0) count 0 sm).Quiet := by
  obtain ⟨htms, htmsDir, hlevel⟩ := h
  unfold Sm.Quiet at hquiet ⊢
  cases out
  all_goals
    constructor
    · constructor <;> simp [swdLowSeqIn, htms, htmsDir, hlevel]
    · simpa [swdLowSeqIn, htms, or_imp, forall_and] using hquiet

theorem swdLowSeqIn_parity_drives (h : sm.Drives out) (hquiet : sm.Quiet) (count : Nat) :
    (swdLowSeqIn swdPins (if out then 1 else 0) count 3 sm).Drives true ∧
      (swdLowSeqIn swdPins (if out then 1 else 0) count 3 sm).Quiet := by
  obtain ⟨htms, htmsDir, hlevel⟩ := h
  unfold Sm.Quiet at hquiet ⊢
  cases out
  all_goals
    constructor
    · constructor <;> simp [swdLowSeqIn, htmsDir]
    · simpa [swdLowSeqIn, htms, or_imp, forall_and] using hquiet

/-- A request is eight bits, a zero and a one. -/
structure IsRequest (request : Nat) : Prop where
  zero : request.testBit 8 = false
  one : request.testBit 9 = true

theorem makePacketRequest_lt (RnW : Bool) (addr : Nat) : makePacketRequest RnW addr < 2 ^ 8 := by
  unfold makePacketRequest
  have hxor : ∀ {p : Prop} [Decidable p] {a b : Nat}, a < 2 ^ 8 → b < 2 ^ 8 →
      (if p then a ^^^ b else a) < 2 ^ 8 := by
    intro p _ a b ha hb
    split
    · exact Nat.xor_lt_two_pow ha hb
    · exact ha
  apply hxor _ (by decide)
  apply Nat.or_lt_two_pow
  · exact hxor (hxor (by decide) (by decide)) (by decide)
  · exact Nat.lt_of_le_of_lt Nat.and_le_right (by decide)

theorem isRequest (RnW : Bool) (addr : Nat) : IsRequest (makePacketRequest RnW addr ||| 1 <<< 9) := by
  have hlt := makePacketRequest_lt RnW addr
  constructor
  · rw [Nat.testBit_or, Nat.testBit_lt_two_pow hlt]
    decide
  · rw [Nat.testBit_or, Nat.testBit_lt_two_pow (Nat.lt_trans hlt (by decide))]
    decide

theorem swdLowWrite_drives (h : sm.Drives out) (hquiet : sm.Quiet) {request : Nat}
    (hrequest : IsRequest request) (data parity : Nat) :
    (swdLowWrite swdPins (if out then 0 else 1) request data parity sm).Drives true ∧
      (swdLowWrite swdPins (if out then 0 else 1) request data parity sm).Quiet := by
  obtain ⟨htms, htmsDir, hlevel⟩ := h
  have hzero := hrequest.zero
  unfold Sm.Quiet at hquiet ⊢
  cases out
  all_goals
    constructor
    · constructor <;> simp [swdLowWrite, htmsDir]
    · simpa [swdLowWrite, hzero, or_imp, forall_and] using hquiet

theorem swdLowAccessRead_drives (h : sm.Drives true) (hquiet : sm.Quiet) {request : Nat}
    (hrequest : IsRequest request) (expected ack : Nat) :
    (swdLowAccessRead swdPins expected request ack sm).Drives true ∧
      (swdLowAccessRead swdPins expected request ack sm).Quiet := by
  obtain ⟨htms, htmsDir, hlevel⟩ := h
  obtain ⟨hzero, hone⟩ := hrequest
  unfold Sm.Quiet at hquiet ⊢
  by_cases hack : ack <<< 29 = expected
  all_goals
    constructor
    · constructor <;> simp [swdLowAccessRead, hack, hone, htmsDir]
    · simpa [swdLowAccessRead, hack, hzero, or_imp, forall_and] using hquiet

theorem swdLowAccessWrite_drives (h : sm.Drives true) (hquiet : sm.Quiet) {request : Nat}
    (hrequest : IsRequest request) (expected value parity ack : Nat) :
    (swdLowAccessWrite swdPins expected request value parity ack sm).Drives true ∧
      (swdLowAccessWrite swdPins expected request value parity ack sm).Quiet := by
  obtain ⟨htms, htmsDir, hlevel⟩ := h
  obtain ⟨hzero, hone⟩ := hrequest
  unfold Sm.Quiet at hquiet ⊢
  by_cases hack : ack <<< 29 = expected
  all_goals
    constructor
    · constructor <;> simp [swdLowAccessWrite, hack, hone, htmsDir]
    · simpa [swdLowAccessWrite, hack, hzero, or_imp, forall_and] using hquiet

/-- What every run of a program keeps, all attempts keep. -/
theorem attempts_keeps {P : Sm → Prop} {program : Nat → Sm → Sm}
    (h : ∀ ack sm, P sm → P (program ack sm)) (ack : Nat) (acks : List Nat) (hsm : P sm) :
    P (attempts program ack acks sm).1 := by
  induction acks generalizing ack sm with
  | nil => exact h ack sm hsm
  | cons next acks ih =>
    unfold attempts
    split
    · exact ih next (h ack sm hsm)
    · exact h ack sm hsm

/-! ## JTAG -/

/-- The pins of an instruction that leaves the direction alone. -/
structure Pins.Jtag (pins : Pins) : Prop where
  out : pins.outPins ≠ .tmsDir
  set : pins.setPins ≠ .tmsDir

theorem jtagPins_jtag : jtagPins.Jtag := ⟨by decide, by decide⟩

theorem tmsSeqPins_jtag : tmsSeqPins.Jtag := ⟨by decide, by decide⟩

theorem jtagTdiTdoSeq_drives {pins : Pins} (hpins : pins.Jtag) (h : sm.Drives out)
    (initial final count data : Nat) :
    (jtagTdiTdoSeq pins initial final count data sm).Drives out := by
  have hset : ∀ {sm : Sm} (v : Bool), sm.Drives out → (sm.setPins pins v).Drives out :=
    fun v h => ⟨h.tms, h.tmsDir, (Function.update_of_ne hpins.set.symm _ _).trans h.level⟩
  have hcycle : ∀ {sm : Sm}, sm.Drives out → ((sm.outPins pins).inPins pins).Drives out :=
    fun h => ⟨h.tms, h.tmsDir, (Function.update_of_ne hpins.out.symm _ _).trans h.level⟩
  have hloop : ∀ (n : Nat) {sm : Sm}, sm.Drives out →
      (sm.loop n fun s => (s.outPins pins).inPins pins).Drives out := by
    intro n
    induction n with
    | zero => exact id
    | succ n ih => exact fun h => ih (hcycle h)
  have hpull : ∀ {sm : Sm} (w : Nat), sm.Drives out → (sm.pull w).Drives out :=
    fun _ h => ⟨h.tms, h.tmsDir, h.level⟩
  exact hcycle (hset _ (hloop _ (hpull _ (hpull _ (hpull _ (hset _ (hpull _ h)))))))

theorem seqWords_drives {pins : Pins} (hpins : pins.Jtag) (h : sm.Drives out) (finalTms : Bool)
    (n i : Nat) (di : List UInt8) : (seqWords pins finalTms n i di sm).Drives out := by
  induction n generalizing i di sm with
  | zero => exact h
  | succ n ih =>
    unfold seqWords
    apply ih
    split
    · exact jtagTdiTdoSeq_drives hpins h _ _ _ _
    · exact jtagTdiTdoSeq_drives hpins h _ _ _ _

/-! ## The record -/

def Op.isJtag : Op → Bool
  | .jtagNext _ _ | .jtagTmsSeq _ _ | .jtagTdiTdoSeq _ _ _ | .jtagTdiSeq _ _ _ => true
  | _ => false

def Op.isSwd : Op → Bool
  | .seqOut _ _ | .seqOutParity _ _ | .seqIn _ | .seqInParity _ _ | .swdLowWrite _ _
  | .swdLowAccess _ _ _ _ _ _ => true
  | _ => false

/-- SWDIO is driven as `tms_direction` says. -/
def Real (s : State δ) : Prop :=
  (s.param.tmsDirection = .dirIn → s.pio.Drives false) ∧
    (s.param.tmsDirection = .dirOut → s.pio.Drives true)

/-- The first SWD primitive loads its program, and then configures the pins. -/
def Fresh (s : State δ) : Prop :=
  s.param.tmsDirection = .notInitialized →
    s.param.currentProgram = .notSet ∨ s.param.currentProgram.isJtag = true

/-- The direction that a primitive begins with. -/
def Op.firstDirection : Op → Bool
  | .seqIn _ | .seqInParity _ _ => false
  | _ => true

/-- Whether a turnaround cycle is inserted. -/
def Op.turns (olddir : TmsDirection) : Op → Bool
  | .seqIn _ | .seqInParity _ _ => turnIn olddir ≠ 0
  | _ => turnOut olddir ≠ 0

/-- Whether SWDIO was an output, each time it was read. -/
def samples (op : Op) (s : State δ) : List Bool :=
  match start op s with
  | none => []
  | some s' =>
    (runProgram s'.pio.config.toPins s.param.tmsDirection op (Sm.ofPio s'.pio)).1.samples

/-- What an SWD primitive relies on, and what it is for. -/
structure Sound (op : Op) (s : State δ) : Prop where
  real : Real s
  /-- As long as nothing is recorded, SWDIO is made an input first. -/
  unrecorded : s.param.tmsDirection = .notInitialized →
    ∀ s', start op s = some s' → s'.pio.Drives false
  turnaround : ∀ s', start op s = some s' →
    (op.turns s.param.tmsDirection = true ↔ s'.pio.pindir .tms ≠ op.firstDirection)
  quiet : ∀ b ∈ samples op s, b = false

/-- A JTAG primitive does not follow on a primitive that left SWDIO to the target. -/
def Keeps (op : Op) (s : State δ) : Prop := op.isJtag = true → s.param.tmsDirection ≠ .dirIn

/-- Every call of a run keeps the record. -/
def AllKeep (div : UInt32 → δ) : List Op → State δ → Prop
  | [], _ => True
  | op :: ops, s => Keeps op s ∧ AllKeep div ops (step div s op)

/-! ## The begin of an SWD primitive -/

theorem swdPinsConfig_drives (p : Pio δ) : (swdPinsConfig p).Drives false :=
  ⟨⟨rfl, rfl⟩, ⟨rfl, rfl⟩, rfl⟩

theorem Pio.Drives.congr {p p' : Pio δ} (h : p.Drives out) (hlevel : p'.level = p.level)
    (hpindir : p'.pindir = p.pindir) (hselected : p'.selected = p.selected) : p'.Drives out := by
  constructor
  · rw [hselected, hpindir]
    exact h.tms
  · rw [hselected, hpindir]
    exact h.tmsDir
  · rw [hlevel]
    exact h.level

theorem applyClkdiv_drives (h : s.pio.Drives out) : (applyClkdiv s).pio.Drives out := by
  unfold applyClkdiv
  split
  · exact h.congr rfl rfl rfl
  · exact h

/-- When an SWD program starts, SWDIO is an input if nothing was recorded, and it is as recorded
otherwise. -/
theorem selectSwd_drives (hreal : Real s) (hfresh : Fresh s) {target : PioProgram}
    (program : Program) (hset : target ≠ .notSet) (hswd : target.isJtag = false) :
    (selectSwd target program s).pio.Drives (decide (s.param.tmsDirection = .dirOut)) := by
  unfold selectSwd
  apply applyClkdiv_drives
  dsimp only
  cases hdir : s.param.tmsDirection with
  | notInitialized =>
    have hcurrent : s.param.currentProgram ≠ target := by
      rintro rfl
      rcases hfresh hdir with hnotSet | hjtag
      · exact hset hnotSet
      · rw [hjtag] at hswd
        cases hswd
    rw [if_pos hcurrent, if_pos rfl]
    exact (swdPinsConfig_drives _).congr rfl rfl rfl
  | dirIn =>
    have hdrives := hreal.1 hdir
    split
    · rw [if_neg (by simp)]
      exact hdrives.congr rfl rfl rfl
    · exact hdrives.congr rfl rfl rfl
  | dirOut =>
    have hdrives := hreal.2 hdir
    split
    · rw [if_neg (by simp)]
      exact hdrives.congr rfl rfl rfl
    · exact hdrives.congr rfl rfl rfl

/-- The direction that is recorded when a primitive begins. -/
def Op.direction (op : Op) : TmsDirection := if op.firstDirection then .dirOut else .dirIn

/-- The state in which an SWD program runs. -/
structure Begun (olddir : TmsDirection) (op : Op) (s' : State δ) : Prop where
  drives : s'.pio.Drives (decide (olddir = .dirOut))
  pins : s'.pio.config.toPins = swdPins
  direction : s'.param.tmsDirection = op.direction

theorem start_begun (hloaded : Loaded s) (hreal : Real s) (hfresh : Fresh s) {op : Op}
    (hswd : op.isSwd = true) (hstart : start op s = some s') :
    Begun s.param.tmsDirection op s' := by
  have hselect : ∀ {target : PioProgram} {program : Program} {dir : TmsDirection},
      target.needs = some (program, swdPins) → target.isJtag = false → dir = op.direction →
      Begun s.param.tmsDirection op
        { (selectSwd target program s).setTmsDirection dir with
          pio := ((selectSwd target program s).setTmsDirection dir).pio.smSetEnabled true } := by
    intro target program dir hneeds hjtag hdir
    have hset : target ≠ .notSet := by
      rintro rfl
      cases hneeds
    have hready := (selectSwd_ready hloaded hneeds).1
    refine ⟨(selectSwd_drives hreal hfresh program hset hjtag).congr rfl rfl rfl, ?_, hdir⟩
    rw [← hready.current] at hneeds
    exact hready.loaded.pins _ hneeds
  unfold start at hstart
  cases op with
  | seqOut ms ticks | seqOutParity ms ticks | seqIn ticks | seqInParity ret ticks =>
    dsimp only at hstart
    split at hstart
    · cases hstart
    · cases hstart
      exact hselect rfl rfl rfl
  | swdLowWrite addr data =>
    cases hstart
    exact hselect rfl rfl rfl
  | swdLowAccess fault RnW addr value ack acks =>
    dsimp only at hstart
    split at hstart
    · cases hstart
    · cases RnW
      all_goals
        cases hstart
        exact hselect rfl rfl rfl
  | jtagNext _ _ | jtagTmsSeq _ _ | jtagTdiTdoSeq _ _ _ | jtagTdiSeq _ _ _
  | maxFrequencySet _ => cases hswd

theorem turnOut_eq (olddir : TmsDirection) :
    turnOut olddir = if decide (olddir = .dirOut) = true then 0 else 1 := by
  cases olddir <;> rfl

theorem turnIn_eq (olddir : TmsDirection) :
    turnIn olddir = if decide (olddir = .dirOut) = true then 1 else 0 := by
  cases olddir <;> rfl

/-- Every attempt of `swd_low_access` begins with an output. -/
theorem takeLine_drives {olddir : TmsDirection} (h : sm.Drives (decide (olddir = .dirOut)))
    (hquiet : sm.Quiet) : (takeLine olddir sm).Drives true ∧ (takeLine olddir sm).Quiet := by
  unfold takeLine
  split
  case isTrue => exact ⟨⟨rfl, h.tmsDir, rfl⟩, hquiet⟩
  case isFalse hdir =>
    rw [not_not.mp hdir] at h
    exact ⟨h, hquiet⟩

theorem accessProgram_drives (h : sm.Drives true) (hquiet : sm.Quiet) (RnW : Bool)
    (addr : UInt16) (value : UInt32) (ack : Nat) :
    (accessProgram swdPins RnW addr value ack sm).Drives true ∧
      (accessProgram swdPins RnW addr value ack sm).Quiet := by
  have hrequest := isRequest RnW addr.toNat
  unfold accessProgram
  dsimp only
  by_cases hread : RnW = true
  · rw [if_pos hread]
    exact swdLowAccessRead_drives h hquiet hrequest _ _
  · rw [if_neg hread]
    exact swdLowAccessWrite_drives h hquiet hrequest _ _ _ _

/-- An SWD program leaves SWDIO as it is recorded, and reads it only as an input. -/
theorem runProgram_swd {op : Op} (hswd : op.isSwd = true) {olddir : TmsDirection}
    (h : sm.Drives (decide (olddir = .dirOut))) (hquiet : sm.Quiet) :
    (runProgram swdPins olddir op sm).1.Drives
        (decide (lastDirection op op.direction = .dirOut)) ∧
      (runProgram swdPins olddir op sm).1.Quiet := by
  cases op with
  | seqOut ms ticks | seqOutParity ms ticks =>
    rw [runProgram, turnOut_eq]
    exact swdLowSeqOut_drives h hquiet _ _ _
  | seqIn ticks =>
    rw [runProgram, turnIn_eq]
    exact swdLowSeqIn_drives h hquiet _
  | seqInParity ret ticks =>
    rw [runProgram, turnIn_eq]
    exact swdLowSeqIn_parity_drives h hquiet _
  | swdLowWrite addr data =>
    rw [runProgram, turnOut_eq]
    exact swdLowWrite_drives h hquiet (isRequest _ _) _ _
  | swdLowAccess fault RnW addr value ack acks =>
    exact attempts_keeps (P := fun sm => sm.Drives true ∧ sm.Quiet)
      (fun ack sm hsm => accessProgram_drives hsm.1 hsm.2 RnW addr value ack) ack acks
      (takeLine_drives h hquiet)
  | jtagNext _ _ | jtagTmsSeq _ _ | jtagTdiTdoSeq _ _ _ | jtagTdiSeq _ _ _
  | maxFrequencySet _ => cases hswd

theorem ofPio_drives {p : Pio δ} (h : p.Drives out) : (Sm.ofPio p).Drives out :=
  ⟨h.tms.2, h.tmsDir.2, h.level⟩

/-- The pins after the run, which stay connected to the engine. -/
theorem Pio.Drives.finish {op : Op} {olddir : TmsDirection} {b : Bool} (h : s'.pio.Drives b)
    (hrun : (runProgram s'.pio.config.toPins olddir op (Sm.ofPio s'.pio)).1.Drives out) :
    (finish op olddir s').pio.Drives out :=
  ⟨⟨h.tms.1, hrun.tms⟩, ⟨h.tmsDir.1, hrun.tmsDir⟩, hrun.level⟩

/-! ## The begin of a JTAG primitive -/

theorem jtagPinsConfig_drives (p : Pio δ) : (jtagPinsConfig p).Drives true :=
  ⟨⟨rfl, rfl⟩, ⟨rfl, rfl⟩, rfl⟩

/-- SWDIO is an output after a configuration for JTAG, and it stays one. -/
theorem selectJtag_drives {target : PioProgram} (htarget : target.isJtag = true)
    (h : s.param.currentProgram.isJtag = true → s.pio.Drives true) :
    (selectJtag target s).pio.Drives true := by
  unfold selectJtag
  apply applyClkdiv_drives
  dsimp only
  split_ifs with hcurrent htms hjtag
  · exact (h (by rw [htms]; rfl)).congr rfl rfl rfl
  · exact (jtagPinsConfig_drives _).congr rfl rfl rfl
  · exact (h (by simpa using hjtag)).congr rfl rfl rfl
  · exact (h (by rw [not_not.mp hcurrent]; exact htarget)).congr rfl rfl rfl

theorem selectTmsSeq_drives (h : s.param.currentProgram.isJtag = true → s.pio.Drives true) :
    (selectTmsSeq s).pio.Drives true := by
  unfold selectTmsSeq
  apply applyClkdiv_drives
  dsimp only
  split_ifs with hcurrent hjtag
  · exact (jtagPinsConfig_drives _).congr rfl rfl rfl
  · exact (h (by simpa using hjtag)).congr rfl rfl rfl
  · exact (h (by rw [not_not.mp hcurrent]; rfl)).congr rfl rfl rfl

theorem applyClkdiv_direction (s : State δ) :
    (applyClkdiv s).param.tmsDirection = s.param.tmsDirection := by
  unfold applyClkdiv
  split <;> rfl

theorem selectJtag_direction (target : PioProgram) (s : State δ) :
    (selectJtag target s).param.tmsDirection = s.param.tmsDirection := by
  unfold selectJtag
  rw [applyClkdiv_direction]
  dsimp only
  split_ifs <;> rfl

theorem selectTmsSeq_direction (s : State δ) :
    (selectTmsSeq s).param.tmsDirection = s.param.tmsDirection := by
  unfold selectTmsSeq
  rw [applyClkdiv_direction]
  dsimp only
  split_ifs <;> rfl

/-- The record stays, and SWDIO is an output, whether it was configured now or before. -/
theorem start_jtag {op : Op} (hjtag : op.isJtag = true) (hstart : start op s = some s') :
    s'.param.tmsDirection = s.param.tmsDirection ∧
      ((s.param.currentProgram.isJtag = true → s.pio.Drives true) → s'.pio.Drives true) := by
  unfold start at hstart
  cases op with
  | jtagNext _ _ | jtagTdiTdoSeq _ _ _ | jtagTdiSeq _ _ _ =>
    cases hstart
    exact ⟨selectJtag_direction _ s, fun h => (selectJtag_drives rfl h).congr rfl rfl rfl⟩
  | jtagTmsSeq ms ticks =>
    cases hstart
    refine ⟨selectTmsSeq_direction s, ?_⟩
    intro h
    have hdrives := selectTmsSeq_drives h
    exact ⟨hdrives.tms, hdrives.tmsDir, hdrives.level⟩
  | seqOut _ _ | seqOutParity _ _ | seqIn _ | seqInParity _ _ | swdLowWrite _ _
  | swdLowAccess _ _ _ _ _ _ | maxFrequencySet _ => cases hjtag

theorem runProgram_jtag {op : Op} (hjtag : op.isJtag = true) {pins : Pins} (hpins : pins.Jtag)
    (olddir : TmsDirection) (h : sm.Drives out) :
    (runProgram pins olddir op sm).1.Drives out := by
  cases op with
  | jtagNext dTMS dTDI => exact jtagTdiTdoSeq_drives hpins h _ _ _ _
  | jtagTmsSeq ms ticks => exact jtagTdiTdoSeq_drives hpins h _ _ _ _
  | jtagTdiTdoSeq finalTms di ticks | jtagTdiSeq finalTms di ticks =>
    exact seqWords_drives hpins h _ _ _ _
  | seqOut _ _ | seqOutParity _ _ | seqIn _ | seqInParity _ _ | swdLowWrite _ _
  | swdLowAccess _ _ _ _ _ _ | maxFrequencySet _ => cases hjtag

theorem target_isJtag {op : Op} (hjtag : op.isJtag = true) :
    op.target.isJtag = true ∧ ∃ r, op.target.needs = some r ∧ r.2.Jtag := by
  cases op with
  | jtagNext _ _ | jtagTdiTdoSeq _ _ _ | jtagTdiSeq _ _ _ => exact ⟨rfl, _, rfl, jtagPins_jtag⟩
  | jtagTmsSeq _ _ => exact ⟨rfl, _, rfl, tmsSeqPins_jtag⟩
  | seqOut _ _ | seqOutParity _ _ | seqIn _ | seqInParity _ _ | swdLowWrite _ _
  | swdLowAccess _ _ _ _ _ _ | maxFrequencySet _ => cases hjtag

/-! ## Runs -/

theorem maxFrequencySet_real (h : Real s) (hfresh : Fresh s) (f : UInt32) :
    Real (platformMaxFrequencySet div f s) ∧ Fresh (platformMaxFrequencySet div f s) := by
  unfold platformMaxFrequencySet
  split
  · exact ⟨h, hfresh⟩
  split
  · exact ⟨h, hfresh⟩
  · exact ⟨⟨h.1, h.2⟩, hfresh⟩

theorem swd_real (hloaded : Loaded s) (hreal : Real s) (hfresh : Fresh s) {op : Op}
    (hswd : op.isSwd = true) (hstart : start op s = some s') :
    Real (finish op s.param.tmsDirection s') ∧ Fresh (finish op s.param.tmsDirection s') := by
  have hbegun := start_begun hloaded hreal hfresh hswd hstart
  have hrun := (runProgram_swd hswd (ofPio_drives hbegun.drives) (by
    intro b hb
    cases hb)).1
  rw [← hbegun.pins] at hrun
  have hdrives := hbegun.drives.finish hrun
  have hdirection : (finish op s.param.tmsDirection s').param.tmsDirection =
      lastDirection op op.direction := by
    rw [← hbegun.direction]
    rfl
  have hset : lastDirection op op.direction ≠ .notInitialized := by
    cases op <;> simp [lastDirection, Op.direction, Op.firstDirection]
  refine ⟨⟨?_, ?_⟩, ?_⟩
  · intro hdir
    rw [← hdirection, hdir] at hdrives
    exact hdrives
  · intro hdir
    rw [← hdirection, hdir] at hdrives
    exact hdrives
  · intro hdir
    exact absurd (hdirection.symm.trans hdir) hset

theorem jtag_real (hloaded : Loaded s) (hreal : Real s) {op : Op} (hjtag : op.isJtag = true)
    (hkeeps : Keeps op s) (hstart : start op s = some s') :
    Real (finish op s.param.tmsDirection s') ∧ Fresh (finish op s.param.tmsDirection s') := by
  obtain ⟨hdir, hdrives⟩ := start_jtag hjtag hstart
  obtain ⟨hready, -, -⟩ := start_ready_of_loaded hloaded hstart
  obtain ⟨htarget, r, hneeds, hpins⟩ := target_isJtag hjtag
  rw [← hready.current] at hneeds htarget
  rw [← hready.loaded.pins r hneeds] at hpins
  have hlast : (finish op s.param.tmsDirection s').param.tmsDirection = s.param.tmsDirection := by
    rw [← hdir]
    cases op <;> first | rfl | cases hjtag
  refine ⟨⟨?_, ?_⟩, ?_⟩
  · intro h
    exact absurd (hlast.symm.trans h) (hkeeps hjtag)
  · intro h
    have hout := hdrives fun _ => hreal.2 (hlast.symm.trans h)
    exact hout.finish (runProgram_jtag hjtag hpins _ (ofPio_drives hout))
  · intro _
    exact .inr htarget

/-- One call keeps the record, unless it is a JTAG primitive while SWDIO is left to the target. -/
theorem step_real (div : UInt32 → δ) (hloaded : Loaded s) (hreal : Real s) (hfresh : Fresh s)
    {op : Op} (hkeeps : Keeps op s) : Real (step div s op) ∧ Fresh (step div s op) := by
  rcases step_cases div s op with ⟨f, rfl, heq⟩ | ⟨hnone, ⟨-, heq⟩ | ⟨s', hstart, heq⟩⟩
  all_goals rw [heq]
  · exact maxFrequencySet_real hreal hfresh f
  · exact ⟨hreal, hfresh⟩
  · have hkind : op.isSwd = true ∨ op.isJtag = true := by
      cases op <;> first | exact .inl rfl | exact .inr rfl | cases hstart
    rcases hkind with hswd | hjtag
    · exact swd_real hloaded hreal hfresh hswd hstart
    · exact jtag_real hloaded hreal hjtag hkeeps hstart

theorem init_real (div : UInt32 → δ) (stored : UInt32) (s : State δ) :
    Real (platformTargetInterfaceNonIsoInit div stored s) ∧
      Fresh (platformTargetInterfaceNonIsoInit div stored s) := by
  apply maxFrequencySet_real
  · exact ⟨TmsDirection.noConfusion, TmsDirection.noConfusion⟩
  · exact fun _ => .inl rfl

theorem run_real (hloaded : Loaded s) (hreal : Real s) (hfresh : Fresh s) {ops : List Op}
    (hkeep : AllKeep div ops s) :
    Loaded (ops.foldl (step div) s) ∧ Real (ops.foldl (step div) s) ∧
      Fresh (ops.foldl (step div) s) := by
  induction ops generalizing s with
  | nil => exact ⟨hloaded, hreal, hfresh⟩
  | cons op ops ih =>
    obtain ⟨hreal', hfresh'⟩ := step_real div hloaded hreal hfresh hkeep.1
    exact ih (hloaded.step div op) hreal' hfresh' hkeep.2

/-- A primitive begins with the direction that it was told, so it turns around if and only if
SWDIO is driven the other way. -/
theorem turns_iff (op : Op) (olddir : TmsDirection) :
    op.turns olddir = true ↔ decide (olddir = .dirOut) ≠ op.firstDirection := by
  cases olddir <;> cases op <;> simp [Op.turns, Op.firstDirection, turnIn, turnOut]

theorem start_jtag_ne_none {op : Op} (hjtag : op.isJtag = true) (s : State δ) :
    start op s ≠ none := by
  cases op with
  | jtagNext _ _ | jtagTmsSeq _ _ | jtagTdiTdoSeq _ _ _ | jtagTdiSeq _ _ _ => simp [start]
  | seqOut _ _ | seqOutParity _ _ | seqIn _ | seqInParity _ _ | swdLowWrite _ _
  | swdLowAccess _ _ _ _ _ _ | maxFrequencySet _ => cases hjtag

/-- The record is wrong after every such call. -/
theorem jtag_not_real (div : UInt32 → δ) (hloaded : Loaded s)
    (hcurrent : s.param.currentProgram.isJtag = false) {op : Op} (hjtag : op.isJtag = true)
    (hdir : s.param.tmsDirection = .dirIn) : ¬ Real (step div s op) := by
  obtain ⟨-, r, hneeds, hpins⟩ := target_isJtag hjtag
  rcases step_cases div s op with ⟨f, rfl, -⟩ | ⟨-, ⟨hnone, -⟩ | ⟨s', hstart, heq⟩⟩
  · cases hjtag
  · exact absurd hnone (start_jtag_ne_none hjtag s)
  · obtain ⟨hsame, hdrives⟩ := start_jtag hjtag hstart
    obtain ⟨hready, -, -⟩ := start_ready_of_loaded hloaded hstart
    rw [← hready.current] at hneeds
    rw [← hready.loaded.pins r hneeds] at hpins
    have hout := hdrives fun h => by
      rw [hcurrent] at h
      cases h
    have hdrives' := hout.finish (runProgram_jtag hjtag hpins s.param.tmsDirection
      (ofPio_drives hout))
    have hlast : (finish op s.param.tmsDirection s').param.tmsDirection = .dirIn := by
      rw [← hdir, ← hsame]
      cases op <;> first | rfl | cases hjtag
    rw [heq]
    intro hreal
    have hin := (hreal.1 hlast).tms.2
    rw [hdrives'.tms.2] at hin
    cases hin

end MiyakoLink.NonIso
