import MiyakoLink.NonIso.Primitives

/-!
# What the state machine is started with

Nine primitives share one state machine, and each sets up only what it thinks to be different.
`start_ready` says that this is enough: whenever the state machine is enabled, the instruction
memory has the program of the primitive and nothing else, the pins are its pins, and the divider
is that of the last frequency that was accepted.
-/

namespace MiyakoLink.NonIso

variable {δ : Type} {div : UInt32 → δ} {s s' : State δ}

/-! ## What a primitive needs -/

def swdPins : Pins := ⟨.tms, .tms, .tmsDir, .tck⟩

def jtagPins : Pins := ⟨.tdo, .tdi, .tms, .tck⟩

/-- TMS and TDI are swapped. -/
def tmsSeqPins : Pins := ⟨.tdo, .tms, .tdi, .tck⟩

/-- The program and the pins for a value of `current_program`. -/
def PioProgram.needs : PioProgram → Option (Program × Pins)
  | .notSet => none
  | .swdDpLowAccessRead => some (.swdLowAccessRead, swdPins)
  | .swdDpLowAccessWrite => some (.swdLowAccessWrite, swdPins)
  | .swdDpLowSeqOut => some (.swdLowSeqOut, swdPins)
  | .swdDpLowSeqIn => some (.swdLowSeqIn, swdPins)
  | .swdDpLowWrite => some (.swdLowWrite, swdPins)
  | .jtagDpTmsSeq => some (.jtagTdiTdoSeq, tmsSeqPins)
  | .jtagDpTdiTdoSeq | .jtagDpTdiSeq | .jtagDpNext => some (.jtagTdiTdoSeq, jtagPins)

/-- The program and the pins for a primitive. -/
def Op.needs : Op → Option (Program × Pins)
  | .seqOut _ _ | .seqOutParity _ _ => some (.swdLowSeqOut, swdPins)
  | .seqIn _ | .seqInParity _ _ => some (.swdLowSeqIn, swdPins)
  | .swdLowWrite _ _ => some (.swdLowWrite, swdPins)
  | .swdLowAccess _ RnW _ _ _ _ =>
    some (if RnW then .swdLowAccessRead else .swdLowAccessWrite, swdPins)
  | .jtagNext _ _ | .jtagTdiTdoSeq _ _ _ | .jtagTdiSeq _ _ _ => some (.jtagTdiTdoSeq, jtagPins)
  | .jtagTmsSeq _ _ => some (.jtagTdiTdoSeq, tmsSeqPins)
  | .maxFrequencySet _ => none

/-- The frequencies that are accepted. -/
def Accepted (frequency : UInt32) : Prop :=
  (¬ (frequency < targetInterface1MinFrequency ∨ frequency > targetInterface1MaxFrequency)) ∧
    ¬ (frequency < pioMinFrequency ∨ frequency > pioMaxFrequency)

instance : DecidablePred Accepted := fun _ => inferInstanceAs (Decidable (_ ∧ _))

/-- The frequencies that are asked for. -/
def frequencies (ops : List Op) : List UInt32 :=
  ops.filterMap fun
    | .maxFrequencySet frequency => some frequency
    | _ => none

def lastAccepted (frequencies : List UInt32) : Option UInt32 :=
  (frequencies.filter fun f => decide (Accepted f)).getLast?

/-! ## The invariant -/

/-- The state machine is set up for `current`, but for a divider that is still to be set. -/
structure Loaded (s : State δ) : Prop where
  memory : ∀ r, s.param.currentProgram.needs = some r → s.pio.instructionMemory = [r.1]
  pins : ∀ r, s.param.currentProgram.needs = some r → s.pio.config.toPins = r.2
  clkdiv : s.param.currentProgram ≠ .notSet → s.param.updateClkdiv = true ∨
    s.pio.config.clkdiv = s.param.clkdiv

/-- The state machine is set up for `target`. -/
structure Ready (target : PioProgram) (s : State δ) : Prop where
  loaded : Loaded s
  current : s.param.currentProgram = target
  clkdiv : s.pio.config.clkdiv = s.param.clkdiv

/-- What the primitives leave of the parameters. -/
structure SameFrequency (s s' : State δ) : Prop where
  minFrequency : s'.param.minFrequency = s.param.minFrequency
  maxFrequency : s'.param.maxFrequency = s.param.maxFrequency
  clkdiv : s'.param.clkdiv = s.param.clkdiv

/-- The parameters have the divider of the last frequency. -/
structure Tuned (div : UInt32 → δ) (last : Option UInt32) (s : State δ) : Prop where
  minFrequency : s.param.minFrequency = targetInterface1MinFrequency
  maxFrequency : s.param.maxFrequency = targetInterface1MaxFrequency
  clkdiv : ∀ f, last = some f → s.param.clkdiv = div f

theorem Tuned.same {last : Option UInt32} (h : Tuned div last s) (hsame : SameFrequency s s') :
    Tuned div last s' :=
  ⟨hsame.minFrequency.trans h.minFrequency, hsame.maxFrequency.trans h.maxFrequency,
    fun f hf => hsame.clkdiv.trans (h.clkdiv f hf)⟩

/-! ## Setting up -/

/-- The update of the divider ends the setup. -/
theorem applyClkdiv_ready (h : Loaded s) (hcurrent : s.param.currentProgram ≠ .notSet) :
    Ready s.param.currentProgram (applyClkdiv s) := by
  unfold applyClkdiv
  split
  case isTrue => exact ⟨⟨h.memory, h.pins, fun _ => .inr rfl⟩, rfl, rfl⟩
  case isFalse hupdate =>
    have hclkdiv := (h.clkdiv hcurrent).resolve_left hupdate
    exact ⟨h, rfl, hclkdiv⟩

theorem applyClkdiv_same (s : State δ) : SameFrequency s (applyClkdiv s) := by
  unfold applyClkdiv
  split <;> exact ⟨rfl, rfl, rfl⟩

theorem ready_of_loaded {s₁ : State δ} {target : PioProgram} (h : Loaded s₁)
    (hcurrent : s₁.param.currentProgram = target) (htarget : target ≠ .notSet)
    (hsame : SameFrequency s s₁) :
    Ready target (applyClkdiv s₁) ∧ SameFrequency s (applyClkdiv s₁) := by
  have happly := applyClkdiv_same s₁
  subst hcurrent
  exact ⟨applyClkdiv_ready h htarget, happly.minFrequency.trans hsame.minFrequency,
    happly.maxFrequency.trans hsame.maxFrequency, happly.clkdiv.trans hsame.clkdiv⟩

theorem loaded_of_needs {target : PioProgram} {r : Program × Pins} {s₁ : State δ}
    (hneeds : target.needs = some r) (hcurrent : s₁.param.currentProgram = target)
    (hmemory : s₁.pio.instructionMemory = [r.1]) (hpins : s₁.pio.config.toPins = r.2)
    (hclkdiv : s₁.param.updateClkdiv = true ∨ s₁.pio.config.clkdiv = s₁.param.clkdiv) :
    Loaded s₁ := by
  subst hcurrent
  refine ⟨?_, ?_, fun _ => hclkdiv⟩
  · intro r' hr'
    obtain rfl := Option.some.inj (hneeds.symm.trans hr')
    exact hmemory
  · intro r' hr'
    obtain rfl := Option.some.inj (hneeds.symm.trans hr')
    exact hpins

theorem selectSwd_ready (h : Loaded s) {target : PioProgram} {program : Program}
    (hneeds : target.needs = some (program, swdPins)) :
    Ready target (selectSwd target program s) ∧ SameFrequency s (selectSwd target program s) := by
  have htarget : target ≠ .notSet := by
    rintro rfl
    cases hneeds
  unfold selectSwd
  dsimp only
  by_cases hcurrent : s.param.currentProgram = target
  · rw [if_neg (not_not.mpr hcurrent)]
    exact ready_of_loaded ⟨h.memory, h.pins, h.clkdiv⟩ hcurrent htarget ⟨rfl, rfl, rfl⟩
  · rw [if_pos hcurrent]
    refine ready_of_loaded (loaded_of_needs hneeds rfl ?_ rfl (.inr rfl)) rfl htarget ⟨rfl, rfl, rfl⟩
    split <;> rfl

/-- The JTAG primitives share a program, so only the pins may have to be changed. -/
theorem needs_of_isJtag {current : PioProgram} (h : current.isJtag = true) :
    current.needs = some (.jtagTdiTdoSeq,
      if current = .jtagDpTmsSeq then tmsSeqPins else jtagPins) := by
  cases current <;> first | contradiction | rfl

theorem Loaded.jtag (h : Loaded s) (hjtag : s.param.currentProgram.isJtag = true) :
    s.pio.instructionMemory = [.jtagTdiTdoSeq] ∧
      s.pio.config.toPins =
        (if s.param.currentProgram = .jtagDpTmsSeq then tmsSeqPins else jtagPins) ∧
      (s.param.updateClkdiv = true ∨ s.pio.config.clkdiv = s.param.clkdiv) := by
  have hneeds := needs_of_isJtag hjtag
  refine ⟨h.memory _ hneeds, h.pins _ hneeds, h.clkdiv ?_⟩
  intro hnotSet
  rw [hnotSet] at hjtag
  cases hjtag

theorem selectJtag_ready (h : Loaded s) {target : PioProgram}
    (hneeds : target.needs = some (.jtagTdiTdoSeq, jtagPins)) :
    Ready target (selectJtag target s) ∧ SameFrequency s (selectJtag target s) := by
  have htarget : target ≠ .notSet := by
    rintro rfl
    cases hneeds
  have htmsSeq : target ≠ .jtagDpTmsSeq := by
    rintro rfl
    cases hneeds
  unfold selectJtag
  dsimp only
  by_cases hcurrent : s.param.currentProgram = target
  · rw [if_neg (not_not.mpr hcurrent)]
    subst hcurrent
    exact ready_of_loaded (loaded_of_needs hneeds rfl (h.memory _ hneeds) (h.pins _ hneeds)
      (h.clkdiv htarget)) rfl htarget ⟨rfl, rfl, rfl⟩
  rw [if_pos hcurrent]
  by_cases hjtag : s.param.currentProgram.isJtag = true
  · obtain ⟨hmemory, hpins, hclkdiv⟩ := h.jtag hjtag
    by_cases htms : s.param.currentProgram = .jtagDpTmsSeq
    · -- The pins are swapped back.
      rw [if_pos htms]
      rw [if_pos htms] at hpins
      refine ready_of_loaded (loaded_of_needs hneeds rfl hmemory ?_ hclkdiv) rfl htarget
        ⟨rfl, rfl, rfl⟩
      show { s.pio.config.toPins with outPins := .tdi, setPins := .tms } = jtagPins
      rw [hpins]
      rfl
    · rw [if_neg htms] at hpins
      rw [if_neg htms, if_neg (by simp [hjtag])]
      exact ready_of_loaded (loaded_of_needs hneeds rfl hmemory hpins hclkdiv) rfl htarget
        ⟨rfl, rfl, rfl⟩
  · have htms : s.param.currentProgram ≠ .jtagDpTmsSeq := by
      intro htms
      rw [htms] at hjtag
      exact hjtag rfl
    rw [if_neg htms, if_pos (by simpa using hjtag)]
    exact ready_of_loaded (loaded_of_needs hneeds rfl rfl rfl (.inr rfl)) rfl htarget
      ⟨rfl, rfl, rfl⟩

theorem selectTmsSeq_ready (h : Loaded s) :
    Ready .jtagDpTmsSeq (selectTmsSeq s) ∧ SameFrequency s (selectTmsSeq s) := by
  have hneeds : PioProgram.jtagDpTmsSeq.needs = some (.jtagTdiTdoSeq, tmsSeqPins) := rfl
  unfold selectTmsSeq
  dsimp only
  by_cases hcurrent : s.param.currentProgram = .jtagDpTmsSeq
  · rw [if_neg (not_not.mpr hcurrent)]
    rw [← hcurrent] at hneeds
    refine ready_of_loaded (loaded_of_needs rfl rfl (h.memory _ hneeds) (h.pins _ hneeds)
      (h.clkdiv ?_)) rfl (by decide) ⟨rfl, rfl, rfl⟩
    rw [hcurrent]
    decide
  rw [if_pos hcurrent]
  by_cases hjtag : s.param.currentProgram.isJtag = true
  · obtain ⟨hmemory, hpins, hclkdiv⟩ := h.jtag hjtag
    rw [if_neg hcurrent] at hpins
    rw [if_neg (by simp [hjtag])]
    refine ready_of_loaded (loaded_of_needs hneeds rfl hmemory ?_ hclkdiv) rfl (by decide)
      ⟨rfl, rfl, rfl⟩
    show { s.pio.config.toPins with outPins := .tms, setPins := .tdi } = tmsSeqPins
    rw [hpins]
    rfl
  · rw [if_pos (by simpa using hjtag)]
    exact ready_of_loaded (loaded_of_needs hneeds rfl rfl rfl (.inr rfl)) rfl (by decide)
      ⟨rfl, rfl, rfl⟩

/-! ## A primitive -/

/-- The value of `current_program` that a primitive asks for. -/
def Op.target : Op → PioProgram
  | .seqOut _ _ | .seqOutParity _ _ => .swdDpLowSeqOut
  | .seqIn _ | .seqInParity _ _ => .swdDpLowSeqIn
  | .swdLowWrite _ _ => .swdDpLowWrite
  | .swdLowAccess _ RnW _ _ _ _ => if RnW then .swdDpLowAccessRead else .swdDpLowAccessWrite
  | .jtagNext _ _ => .jtagDpNext
  | .jtagTmsSeq _ _ => .jtagDpTmsSeq
  | .jtagTdiTdoSeq _ _ _ => .jtagDpTdiTdoSeq
  | .jtagTdiSeq _ _ _ => .jtagDpTdiSeq
  | .maxFrequencySet _ => .notSet

theorem target_needs (op : Op) : op.target.needs = op.needs := by
  cases op with
  | swdLowAccess fault RnW addr value ack acks => cases RnW <;> rfl
  | _ => rfl

/-- Fields that the setup is not about may change. -/
theorem Ready.congr {target : PioProgram} (h : Ready target s)
    (hcurrent : s'.param.currentProgram = s.param.currentProgram)
    (hmemory : s'.pio.instructionMemory = s.pio.instructionMemory)
    (hconfig : s'.pio.config = s.pio.config) (hclkdiv : s'.param.clkdiv = s.param.clkdiv) :
    Ready target s' := by
  refine ⟨⟨?_, ?_, ?_⟩, ?_, ?_⟩
  · rw [hcurrent, hmemory]
    exact h.loaded.memory
  · rw [hcurrent, hconfig]
    exact h.loaded.pins
  · intro _
    rw [hconfig, hclkdiv]
    exact .inr h.clkdiv
  · exact hcurrent.trans h.current
  · rw [hconfig, hclkdiv]
    exact h.clkdiv

/-- When the state machine is enabled, it is set up for the primitive. -/
theorem start_ready_of_loaded (h : Loaded s) {op : Op} (hstart : start op s = some s') :
    Ready op.target s' ∧ SameFrequency s s' ∧ op.target ≠ .notSet := by
  have hswd : ∀ {target : PioProgram} {program : Program} {dir : TmsDirection},
      target.needs = some (program, swdPins) →
      Ready target { (selectSwd target program s).setTmsDirection dir with
        pio := ((selectSwd target program s).setTmsDirection dir).pio.smSetEnabled true } ∧
      SameFrequency s { (selectSwd target program s).setTmsDirection dir with
        pio := ((selectSwd target program s).setTmsDirection dir).pio.smSetEnabled true } ∧
      target ≠ .notSet := by
    intro target program dir hneeds
    obtain ⟨hready, hsame⟩ := selectSwd_ready h hneeds
    refine ⟨hready.congr rfl rfl rfl rfl,
      ⟨hsame.minFrequency, hsame.maxFrequency, hsame.clkdiv⟩, ?_⟩
    rintro rfl
    cases hneeds
  have hjtag : ∀ {target : PioProgram},
      target.needs = some (.jtagTdiTdoSeq, jtagPins) →
      Ready target { selectJtag target s with
        pio := (selectJtag target s).pio.smSetEnabled true } ∧
      SameFrequency s { selectJtag target s with
        pio := (selectJtag target s).pio.smSetEnabled true } ∧ target ≠ .notSet := by
    intro target hneeds
    obtain ⟨hready, hsame⟩ := selectJtag_ready h hneeds
    refine ⟨hready.congr rfl rfl rfl rfl,
      ⟨hsame.minFrequency, hsame.maxFrequency, hsame.clkdiv⟩, ?_⟩
    rintro rfl
    cases hneeds
  unfold start at hstart
  cases op with
  | seqOut ms ticks | seqOutParity ms ticks | seqIn ticks | seqInParity ret ticks =>
    dsimp only at hstart
    split at hstart
    · cases hstart
    · cases hstart
      exact hswd rfl
  | swdLowWrite addr data =>
    cases hstart
    exact hswd rfl
  | swdLowAccess fault RnW addr value ack acks =>
    dsimp only at hstart
    split at hstart
    · cases hstart
    · cases RnW
      all_goals
        cases hstart
        exact hswd rfl
  | jtagNext dTMS dTDI | jtagTdiTdoSeq finalTms di ticks | jtagTdiSeq finalTms di ticks =>
    cases hstart
    exact hjtag rfl
  | jtagTmsSeq ms ticks =>
    cases hstart
    obtain ⟨hready, hsame⟩ := selectTmsSeq_ready h
    refine ⟨hready.congr rfl rfl rfl rfl,
      ⟨hsame.minFrequency, hsame.maxFrequency, hsame.clkdiv⟩, ?_⟩
    intro hnotSet
    cases hnotSet
  | maxFrequencySet frequency => cases hstart

theorem start_enabled {op : Op} (hstart : start op s = some s') : s'.pio.enabled = true := by
  unfold start at hstart
  cases op with
  | seqOut ms ticks | seqOutParity ms ticks | seqIn ticks | seqInParity ret ticks =>
    dsimp only at hstart
    split at hstart
    · cases hstart
    · cases hstart
      rfl
  | swdLowAccess fault RnW addr value ack acks =>
    dsimp only at hstart
    split at hstart
    · cases hstart
    · cases RnW
      all_goals
        cases hstart
        rfl
  | swdLowWrite _ _ | jtagNext _ _ | jtagTmsSeq _ _ | jtagTdiTdoSeq _ _ _ | jtagTdiSeq _ _ _ =>
    cases hstart
    rfl
  | maxFrequencySet frequency => cases hstart

/-! ## Runs -/

theorem lastAccepted_append_one (fs : List UInt32) (f : UInt32) :
    lastAccepted (fs ++ [f]) = if Accepted f then some f else lastAccepted fs := by
  unfold lastAccepted
  by_cases h : Accepted f
  · simp [h]
  · simp [h]

theorem maxFrequencySet_tuned {fs : List UInt32} (h : Tuned div (lastAccepted fs) s)
    (f : UInt32) :
    Tuned div (lastAccepted (fs ++ [f])) (platformMaxFrequencySet div f s) := by
  rw [lastAccepted_append_one]
  unfold platformMaxFrequencySet platformCalculatePioClkdiv
  rw [h.minFrequency, h.maxFrequency]
  by_cases hrange : f < targetInterface1MinFrequency ∨ f > targetInterface1MaxFrequency
  · rw [if_pos hrange, if_neg fun ha => ha.1 hrange]
    exact h
  rw [if_neg hrange]
  by_cases hpio : f < pioMinFrequency ∨ f > pioMaxFrequency
  · rw [if_pos hpio, if_neg fun ha => ha.2 hpio]
    exact h
  rw [if_neg hpio, if_pos ⟨hrange, hpio⟩]
  refine ⟨h.minFrequency, h.maxFrequency, ?_⟩
  rintro f' ⟨⟩
  rfl

/-- A new frequency is to be set before the state machine is enabled the next time. -/
theorem maxFrequencySet_loaded (h : Loaded s) (f : UInt32) :
    Loaded (platformMaxFrequencySet div f s) := by
  unfold platformMaxFrequencySet
  split
  · exact h
  split
  · exact h
  · exact ⟨h.memory, h.pins, fun _ => .inl rfl⟩

theorem finish_loaded (op : Op) {target : PioProgram} (h : Ready target s)
    (olddir : TmsDirection) :
    Loaded (finish op olddir s) ∧ SameFrequency s (finish op olddir s) := by
  have hready : Ready target (finish op olddir s) := h.congr rfl rfl rfl rfl
  exact ⟨hready.loaded, rfl, rfl, rfl⟩

/-- A call is a new frequency or a primitive. -/
theorem step_cases (div : UInt32 → δ) (s : State δ) (op : Op) :
    (∃ f, op = .maxFrequencySet f ∧ step div s op = platformMaxFrequencySet div f s) ∨
      (frequencies [op] = [] ∧ (start op s = none ∧ step div s op = s ∨
        ∃ s', start op s = some s' ∧ step div s op = finish op s.param.tmsDirection s')) := by
  by_cases hop : ∃ f, op = .maxFrequencySet f
  · obtain ⟨f, rfl⟩ := hop
    exact .inl ⟨f, rfl, rfl⟩
  refine .inr ⟨?_, ?_⟩
  · cases op with
    | maxFrequencySet f => exact absurd ⟨f, rfl⟩ hop
    | _ => rfl
  · cases hstart : start op s with
    | none => exact .inl ⟨rfl, step_none hop hstart⟩
    | some s' => exact .inr ⟨s', rfl, step_some hop hstart⟩

theorem Loaded.step (h : Loaded s) (div : UInt32 → δ) (op : Op) : Loaded (step div s op) := by
  rcases step_cases div s op with ⟨f, -, heq⟩ | ⟨-, ⟨-, heq⟩ | ⟨s', hstart, heq⟩⟩
  all_goals rw [heq]
  · exact maxFrequencySet_loaded h f
  · exact h
  · exact (finish_loaded op (start_ready_of_loaded h hstart).1 s.param.tmsDirection).1

theorem Tuned.step {fs : List UInt32} (h : Tuned div (lastAccepted fs) s) (hloaded : Loaded s)
    (op : Op) : Tuned div (lastAccepted (fs ++ frequencies [op])) (step div s op) := by
  rcases step_cases div s op with ⟨f, rfl, heq⟩ | ⟨hnone, ⟨-, heq⟩ | ⟨s', hstart, heq⟩⟩
  · exact maxFrequencySet_tuned h f
  · rw [hnone, List.append_nil, heq]
    exact h
  · rw [hnone, List.append_nil, heq]
    obtain ⟨hready, hsame, -⟩ := start_ready_of_loaded hloaded hstart
    exact (h.same hsame).same (finish_loaded op hready s.param.tmsDirection).2

theorem init_loaded (div : UInt32 → δ) (stored : UInt32) (s : State δ) :
    Loaded (platformTargetInterfaceNonIsoInit div stored s) ∧
      Tuned div (lastAccepted [stored]) (platformTargetInterfaceNonIsoInit div stored s) := by
  constructor
  · apply maxFrequencySet_loaded
    constructor
    · intro r hr
      cases hr
    · intro r hr
      cases hr
    · intro h
      exact absurd rfl h
  · refine maxFrequencySet_tuned (show Tuned div (lastAccepted []) _ from ⟨rfl, rfl, ?_⟩) stored
    intro f hf
    cases hf

theorem run_loaded (div : UInt32 → δ) (stored : UInt32) (s : State δ) (ops : List Op) :
    Loaded (run div stored s ops) ∧
      Tuned div (lastAccepted (stored :: frequencies ops)) (run div stored s ops) := by
  have hrun : ∀ (fs : List UInt32) (s : State δ), Loaded s → Tuned div (lastAccepted fs) s →
      Loaded (ops.foldl (step div) s) ∧
        Tuned div (lastAccepted (fs ++ frequencies ops)) (ops.foldl (step div) s) := by
    induction ops with
    | nil =>
      intro fs s h htuned
      simpa [frequencies] using ⟨h, htuned⟩
    | cons op ops ih =>
      intro fs s h htuned
      have hfrequencies : fs ++ frequencies (op :: ops) =
          fs ++ frequencies [op] ++ frequencies ops := by
        rw [List.append_assoc, frequencies, frequencies, frequencies, ← List.filterMap_append]
        rfl
      rw [hfrequencies]
      exact ih _ _ (h.step div op) (htuned.step h op)
  obtain ⟨hloaded, htuned⟩ := init_loaded div stored s
  exact hrun [stored] _ hloaded htuned

/-- Whenever a primitive enables the state machine, after any calls, the instruction memory has its
program only, the pins are its pins, and the divider is that of the last frequency that was
accepted. -/
theorem start_ready (div : UInt32 → δ) (stored : UInt32) (s : State δ) (ops : List Op) (op : Op)
    {s' : State δ} (hstart : start op (run div stored s ops) = some s') :
    ∃ program pins, op.needs = some (program, pins) ∧ s'.pio.instructionMemory = [program] ∧
      s'.pio.config.toPins = pins ∧ s'.pio.enabled = true ∧
      ∀ f, lastAccepted (stored :: frequencies ops) = some f → s'.pio.config.clkdiv = div f := by
  obtain ⟨hloaded, htuned⟩ := run_loaded div stored s ops
  obtain ⟨hready, hsame, hset⟩ := start_ready_of_loaded hloaded hstart
  have hneeds : ∃ r, op.target.needs = some r := by
    generalize op.target = target at hset
    cases target <;> first | exact ⟨_, rfl⟩ | exact absurd rfl hset
  obtain ⟨⟨program, pins⟩, hneeds⟩ := hneeds
  have htarget := hneeds
  rw [← hready.current] at htarget
  refine ⟨program, pins, (target_needs op).symm.trans hneeds, hready.loaded.memory _ htarget,
    hready.loaded.pins _ htarget, start_enabled hstart, ?_⟩
  intro f hf
  rw [hready.clkdiv, hsame.clkdiv, htuned.clkdiv f hf]

/-- A probe before its initialisation. -/
def bench : State UInt32 where
  param := ⟨.notSet, 0, 0, 0, 0, false, .notInitialized⟩
  pio := ⟨[], ⟨⟨.tdo, .tdo, .tdo, .tdo⟩, false, 0⟩, false, fun _ => false, fun _ => false,
    fun _ => false⟩

/-- SWD after JTAG, with a new frequency in between and one that is refused. -/
theorem start_ready_seqIn : ∃ s' : State UInt32,
    start (.seqIn 8) (run id 1000000 bench [.jtagNext true false, .maxFrequencySet 2000000,
      .jtagTmsSeq 0xE73C 16, .maxFrequencySet 30000000]) = some s' ∧
    s'.pio.config.clkdiv = 2000000 ∧ s'.pio.config.toPins = swdPins := by
  obtain ⟨program, pins, hneeds, -, hpins, -, hclkdiv⟩ := start_ready id 1000000 bench
    [.jtagNext true false, .maxFrequencySet 2000000, .jtagTmsSeq 0xE73C 16,
      .maxFrequencySet 30000000] (.seqIn 8) rfl
  cases hneeds
  exact ⟨_, rfl, hclkdiv 2000000 (by decide), hpins⟩

end MiyakoLink.NonIso
