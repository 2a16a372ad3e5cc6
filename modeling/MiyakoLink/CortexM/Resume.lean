import MiyakoLink.CortexM.Unwind
import MiyakoLink.Lib.Guarded

/-!
# Resuming over a breakpoint instruction

`cortexm_halt_poll` and `cortexm_halt_resume` in runs of a core that stops, is written to by the
debugger, is reset and resumed. `last` is the breakpoint instruction that the core executed to come
to its last halt, with its address; the functions do not know it. A stop is polled at once, or the
debugger goes on without a poll. The watchpoint that is reported and the exceptions of the first
read of a poll are left out, and so is a resume of a running core.

* `resumes_iff`: the steps whose runs resume right in all their states.
-/

namespace MiyakoLink.CortexM

open Lib

/-- `CORTEXM_DFSR_HALTED`. -/
abbrev dfsrHalted : UInt32 := 0x1

/-- `CORTEXM_DFSR_BKPT`. -/
abbrev dfsrBkpt : UInt32 := 0x2

/-- `CORTEXM_DFSR_DWTTRAP`. -/
abbrev dfsrDwttrap : UInt32 := 0x4

/-- `CORTEXM_DFSR_VCATCH`. -/
abbrev dfsrVcatch : UInt32 := 0x8

/-- `CORTEXM_DFSR_RESETALL`. -/
abbrev dfsrResetall : UInt32 := 0x1F

/-- `enum target_halt_reason`. -/
inductive HaltReason where
  | running
  | request
  | stepping
  | breakpoint
  | watchpoint
  | fault
  deriving DecidableEq

/-- A halfword in memory. -/
def halfAt (mem : UInt32 → UInt8) (a : UInt32) : UInt16 :=
  (mem a).toUInt16 ||| (mem (a + 1)).toUInt16 <<< 8

/-- Is it a `BKPT`? -/
def IsBkpt (instr : UInt16) : Prop := instr &&& 0xFF00 = 0xBE00

instance (instr : UInt16) : Decidable (IsBkpt instr) := inferInstanceAs (Decidable (_ = _))

/-- A `BKPT` and its address. -/
structure BkptInstr where
  addr : UInt32
  instr : UInt16
  isBkpt : IsBkpt instr

/-- Is it the instruction at `pc`? -/
def isAt (last : Option BkptInstr) (mem : UInt32 → UInt8) (pc : UInt32) : Bool :=
  last.any fun b => b.addr == pc && b.instr == halfAt mem pc

namespace FaultTarget

variable (t : FaultTarget)

/-- The register that `cortexm_pc_read` reads. -/
def pc : UInt32 := t.registers.core.regs 0x0F

/-- `cortexm_pc_read`. -/
def pcRead : UInt32 × FaultTarget :=
  let (value, core) := (t.registers.core.writeDcrsr 0x0F).readDcrdr
  (value, { t with registers.core := core })

/-- `cortexm_pc_write`. -/
def pcWrite (val : UInt32) : FaultTarget :=
  { t with registers.core := (t.registers.core.writeDcrdr val).writeDcrsr (dcrsrRegWnR ||| 0x0F) }

end FaultTarget

/-- A call of `cortexm_halt_resume`: the PC before it and behind it, and whether the last halt was
by the execution of the instruction at the first. -/
structure Resumed where
  seen : UInt32
  resumed : UInt32
  executed : Bool

/-- The PC is advanced if and only if the instruction there has been executed. -/
def Resumed.Right (r : Resumed) : Prop := r.resumed = if r.executed then r.seen + 2 else r.seen

structure ResumeTarget where
  core : FaultTarget
  dfsr : UInt32
  running : Bool
  stepping : Bool
  onBkpt : Bool
  last : Option BkptInstr
  log : List Resumed

/-- What a semihosting call does: it returns a value in `r0`, and it writes to memory. -/
structure Hostio where
  interrupted : Bool
  ret : UInt32
  mem : UInt32 → UInt8

/-- `cortexm_hostio_request`, which writes back the other registers as it has read them. -/
def cortexmHostioRequest (io : Hostio) (t : FaultTarget) : Bool × FaultTarget :=
  (io.interrupted, { t with
    registers.core.regs := Function.update t.registers.core.regs 0 io.ret
    mem := io.mem })

namespace ResumeTarget

variable (t : ResumeTarget)

/-- `cortexm_halt_resume`. -/
def haltResume (step : Bool) : ResumeTarget :=
  let t := { t with stepping := step }
  let t :=
    if t.onBkpt then
      let (pc, core) := t.core.pcRead
      if IsBkpt (halfAt core.mem pc) then { t with core := core.pcWrite (pc + 2) }
      else { t with core := core }
    else t
  { t with running := true }

/-- What the call does to the PC. -/
def resumed (step : Bool) : Resumed :=
  ⟨t.core.pc, (t.haltResume step).core.pc, isAt t.last t.core.mem t.core.pc⟩

/-- The call, with its entry in the log. -/
def resume (step : Bool) : ResumeTarget :=
  { t.haltResume step with log := t.resumed step :: t.log }

/-- The end of `cortexm_halt_poll`. -/
def reason (dfsr : UInt32) : HaltReason :=
  if dfsr &&& dfsrDwttrap ≠ 0 then .watchpoint
  else if dfsr &&& dfsrBkpt ≠ 0 then .breakpoint
  else if dfsr &&& dfsrHalted ≠ 0 then if t.stepping then .stepping else .request
  else .breakpoint

/-- `cortexm_halt_poll` behind the unwinding of a fault. -/
def recordBkpt (dfsr : UInt32) (io : Hostio) : HaltReason × ResumeTarget :=
  -- Remember if we stopped on a breakpoint
  let t := { t with onBkpt := decide (dfsr &&& dfsrBkpt ≠ 0) }
  if t.onBkpt then
    let (pc, core) := t.core.pcRead
    let t := { t with core := core }
    if halfAt core.mem pc = 0xBEAB then
      let (interrupted, core) := cortexmHostioRequest io t.core
      let t := { t with core := core }
      if interrupted then (.request, t) else (.running, t.resume t.stepping)
    else (t.reason dfsr, t)
  else (t.reason dfsr, t)

/-- `cortexm_halt_poll`. -/
def haltPoll (io : Hostio) : HaltReason × ResumeTarget :=
  if t.running then (.running, t)
  else
    let dfsr := t.dfsr
    -- write back to reset
    let t := { t with dfsr := t.dfsr &&& ~~~dfsr }
    let (unwound, core) :=
      if dfsr &&& dfsrVcatch ≠ 0 then cortexmFaultUnwind t.core else (false, t.core)
    let t := { t with core := core }
    if unwound then (.fault, t) else t.recordBkpt dfsr io

end ResumeTarget

/-- A stop of the running core: what is in it then, the flags that are set in `DFSR`, and whether
the core executed the breakpoint instruction at its PC, which sets a flag. -/
structure Stop where
  core : FaultTarget
  dfsr : UInt32
  executed : Bool
  flagged : executed = true → dfsr &&& dfsrBkpt ≠ 0
  there : executed = true → IsBkpt (halfAt core.mem core.pc)

def Stop.last (o : Stop) : Option BkptInstr :=
  if h : o.executed = true then some ⟨o.core.pc, halfAt o.core.mem o.core.pc, o.there h⟩ else none

inductive Event where
  /-- The core stops, and nobody polls it. -/
  | stop (o : Stop)
  /-- The core stops and is polled. -/
  | halt (o : Stop) (io : Hostio)
  /-- A poll. -/
  | poll (io : Hostio)
  /-- The debugger writes registers and memory, the debug registers included. -/
  | write (core : FaultTarget) (dfsr : UInt32)
  /-- A reset, behind which the core runs or is halted by vector catch. -/
  | reset (core : FaultTarget) (running : Bool)
  | resume (step : Bool)

namespace ResumeTarget

variable (t : ResumeTarget)

/-- The flags in `DFSR` stay until they are written. -/
def stopped (o : Stop) : ResumeTarget :=
  { t with core := o.core, dfsr := t.dfsr ||| o.dfsr, running := false, last := o.last }

def step : Event → ResumeTarget
  | .stop o => if t.running then t.stopped o else t
  | .halt o io => if t.running then ((t.stopped o).haltPoll io).2 else t
  | .poll io => (t.haltPoll io).2
  | .write core dfsr => { t with core := core, dfsr := dfsr }
  | .reset core running =>
    { t with core := core, dfsr := t.dfsr &&& ~~~dfsrResetall, running := running, last := none }
  | .resume step => if t.running then t else t.resume step

/-- A target behind its probe, before the first halt. -/
def fresh (core : FaultTarget) (running : Bool) : ResumeTarget :=
  ⟨core, 0, running, false, false, none, []⟩

/-- A call of `cortexm_halt_resume` would be right. -/
def ResumesRight : Prop := ∀ step, (t.resumed step).Right

/-- All calls have been right, and in a halted core one now would be. -/
structure Sound : Prop where
  log : ∀ r ∈ t.log, r.Right
  now : t.running = false → t.ResumesRight

end ResumeTarget

/-! ## The condition -/

/-- If there is a breakpoint instruction at `pc`, the flag tells whether the last halt was by its
execution. -/
def Agrees (flag : Bool) (last : Option BkptInstr) (mem : UInt32 → UInt8) (pc : UInt32) : Prop :=
  IsBkpt (halfAt mem pc) → flag = isAt last mem pc

namespace ResumeTarget

variable (t : ResumeTarget)

/-- Does a poll unwind a fault? -/
def Unwinding : Prop := t.dfsr &&& dfsrVcatch ≠ 0 ∧ Faulted t.core

instance : Decidable t.Unwinding :=
  inferInstanceAs (Decidable (t.dfsr &&& dfsrVcatch ≠ 0 ∧
    (t.core.hfsr &&& hfsrForced ≠ 0 ∨ t.core.cfsr ≠ 0) ∧ t.core.stackFault = false))

/-- The memory behind the semihosting call that a poll makes. -/
def hostioMem (io : Hostio) : UInt32 → UInt8 :=
  if t.dfsr &&& dfsrBkpt ≠ 0 ∧ halfAt t.core.mem t.core.pc = 0xBEAB then io.mem else t.core.mem

/-- The condition on a poll of a halted core. If it unwinds, the flag is the one from before, and
the PC comes from the stack. If not, the flag is that in `DFSR`. -/
def PollGuard (io : Hostio) : Prop :=
  if t.Unwinding then
    Agrees t.onBkpt t.last t.core.mem (stacked t.core.mem t.core.registers.core.regs 6)
  else Agrees (decide (t.dfsr &&& dfsrBkpt ≠ 0)) t.last (t.hostioMem io) t.core.pc

/-- The condition on a step. -/
def Guard : Event → Prop
  | .stop o => t.running = true → Agrees t.onBkpt o.last o.core.mem o.core.pc
  | .halt o io => t.running = true → (t.stopped o).PollGuard io
  | .poll io => t.running = false → t.PollGuard io
  | .write core _ => t.running = false → Agrees t.onBkpt t.last core.mem core.pc
  | .reset core running => running = false → Agrees t.onBkpt none core.mem core.pc
  | .resume _ => True

end ResumeTarget

/-! ## A call -/

namespace FaultTarget

variable (t : FaultTarget)

theorem pcRead_eq : t.pcRead.1 = t.pc ∧ t.pcRead.2.pc = t.pc ∧ t.pcRead.2.mem = t.mem := by
  unfold pcRead
  rw [read_transfer (by decide) (by decide)]
  exact ⟨rfl, rfl, rfl⟩

theorem pcWrite_pc (val : UInt32) : (t.pcWrite val).pc = val := by
  unfold pcWrite pc
  rw [write_transfer val (by decide) (by decide)]
  show Function.update t.registers.core.regs 0x0F val 0x0F = val
  exact Function.update_self ..

end FaultTarget

/-- A word advanced by two is another word. -/
theorem add_two_ne (pc : UInt32) : pc + 2 ≠ pc := by
  intro h
  have hnat := congrArg UInt32.toNat h
  rw [UInt32.toNat_add] at hnat
  have hlt := pc.toNat_lt
  have htwo : (2 : UInt32).toNat = 2 := rfl
  omega

theorem isAt_isBkpt {last : Option BkptInstr} {mem : UInt32 → UInt8} {pc : UInt32}
    (h : isAt last mem pc = true) : IsBkpt (halfAt mem pc) := by
  cases last with
  | none => exact absurd h nofun
  | some b =>
    have hboth : (b.addr == pc && b.instr == halfAt mem pc) = true := h
    have hinstr := eq_of_beq (Bool.and_eq_true_iff.mp hboth).2
    exact hinstr ▸ b.isBkpt

namespace ResumeTarget

variable (t : ResumeTarget)

theorem haltResume_pc (step : Bool) : (t.haltResume step).core.pc =
    if t.onBkpt = true ∧ IsBkpt (halfAt t.core.mem t.core.pc) then t.core.pc + 2 else t.core.pc := by
  obtain ⟨hpc, hkeep, hmem⟩ := t.core.pcRead_eq
  unfold haltResume
  cases hflag : t.onBkpt with
  | false => rfl
  | true =>
    dsimp only
    rw [if_pos rfl, hpc, hmem]
    by_cases hbkpt : IsBkpt (halfAt t.core.mem t.core.pc)
    · rw [if_pos hbkpt, if_pos ⟨rfl, hbkpt⟩]
      exact FaultTarget.pcWrite_pc _ _
    · rw [if_neg hbkpt, if_neg fun h => hbkpt h.2]
      exact hkeep

/-- A call is right if and only if the flag agrees. -/
theorem resumed_right (step : Bool) :
    (t.resumed step).Right ↔ Agrees t.onBkpt t.last t.core.mem t.core.pc := by
  have hne := add_two_ne t.core.pc
  unfold Resumed.Right resumed Agrees
  dsimp only
  rw [haltResume_pc]
  by_cases hbkpt : IsBkpt (halfAt t.core.mem t.core.pc)
  · cases t.onBkpt <;> cases isAt t.last t.core.mem t.core.pc <;> simp [hbkpt, hne, hne.symm]
  · have hnot : isAt t.last t.core.mem t.core.pc = false :=
      Bool.eq_false_iff.mpr fun h => hbkpt (isAt_isBkpt h)
    rw [hnot, if_neg fun h => hbkpt h.2]
    exact iff_of_true rfl fun h => absurd h hbkpt

theorem resumesRight_iff : t.ResumesRight ↔ Agrees t.onBkpt t.last t.core.mem t.core.pc :=
  ⟨fun h => (t.resumed_right false).mp (h false), fun h step => (t.resumed_right step).mpr h⟩

theorem sound_iff_log : t.Sound ↔ (∀ r ∈ t.log, r.Right) ∧
    (t.running = false → Agrees t.onBkpt t.last t.core.mem t.core.pc) := by
  rw [← resumesRight_iff]
  exact ⟨fun h => ⟨h.log, h.now⟩, fun h => ⟨h.1, h.2⟩⟩

/-- Behind a call the core runs. -/
theorem sound_resume (step : Bool) : (t.resume step).Sound ↔
    (∀ r ∈ t.log, r.Right) ∧ Agrees t.onBkpt t.last t.core.mem t.core.pc := by
  have hrunning : (t.resume step).running = true := rfl
  have hlog : (t.resume step).log = t.resumed step :: t.log := rfl
  rw [sound_iff_log, hrunning, hlog, List.forall_mem_cons, resumed_right]
  exact ⟨fun h => ⟨h.1.2, h.1.1⟩, fun h => ⟨⟨h.2, h.1⟩, nofun⟩⟩

end ResumeTarget

/-! ## A poll -/

theorem cortexmFaultUnwind_mem (t : FaultTarget) : (cortexmFaultUnwind t).2.mem = t.mem := by
  unfold cortexmFaultUnwind
  dsimp only
  split
  · split <;> rfl
  · rfl

/-- Without a fault to unwind the registers stay. -/
theorem cortexmFaultUnwind_pc {t : FaultTarget} (h : ¬Faulted t) :
    (cortexmFaultUnwind t).1 = false ∧ (cortexmFaultUnwind t).2.pc = t.pc := by
  have hfalse : (cortexmFaultUnwind t).1 = false :=
    Bool.eq_false_iff.mpr fun htrue => h ((cortexmFaultUnwind_true t).mp htrue)
  refine ⟨hfalse, ?_⟩
  have hregs : (cortexmRegsRead t.registers).2.core.regs = t.registers.core.regs :=
    (readRegs_eq (fun _ hn => ⟨(regnums_field t.registers hn).1,
      (regnums_field t.registers hn).2.1⟩) t.registers.core).2
  unfold cortexmFaultUnwind at hfalse ⊢
  dsimp only at hfalse ⊢
  by_cases hfault : t.hfsr &&& hfsrForced ≠ 0 ∨ t.cfsr ≠ 0
  · rw [if_pos hfault] at hfalse ⊢
    by_cases hstack : t.stackFault = true
    · rw [if_pos hstack]
      exact congrFun hregs 0x0F
    · rw [if_neg hstack] at hfalse
      exact absurd hfalse nofun
  · rw [if_neg hfault]
    rfl

namespace ResumeTarget

variable (t : ResumeTarget)

/-- A poll that has nothing to unwind. -/
theorem recordBkpt_sound (hhalted : t.running = false) (hlog : ∀ r ∈ t.log, r.Right)
    (dfsr : UInt32) (io : Hostio) :
    (t.recordBkpt dfsr io).2.Sound ↔ Agrees (decide (dfsr &&& dfsrBkpt ≠ 0)) t.last
      (if dfsr &&& dfsrBkpt ≠ 0 ∧ halfAt t.core.mem t.core.pc = 0xBEAB then io.mem
        else t.core.mem) t.core.pc := by
  obtain ⟨hpc, hkeep, hmem⟩ := t.core.pcRead_eq
  unfold recordBkpt
  dsimp only
  by_cases hflag : dfsr &&& dfsrBkpt ≠ 0
  · rw [decide_eq_true hflag, if_pos rfl, hpc, hmem]
    by_cases hcall : halfAt t.core.mem t.core.pc = 0xBEAB
    · have hboth : dfsr &&& dfsrBkpt ≠ 0 ∧ halfAt t.core.mem t.core.pc = 0xBEAB := ⟨hflag, hcall⟩
      rw [if_pos hcall, if_pos hboth]
      have hpc' : (cortexmHostioRequest io t.core.pcRead.2).2.pc = t.core.pc := by
        show Function.update t.core.pcRead.2.registers.core.regs 0 io.ret 0x0F = t.core.pc
        rw [Function.update_of_ne (by decide)]
        exact hkeep
      unfold cortexmHostioRequest at hpc' ⊢
      dsimp only at hpc' ⊢
      cases io.interrupted with
      | true =>
        rw [if_pos rfl, sound_iff_log]
        dsimp only
        rw [hpc']
        exact ⟨fun h => h.2 hhalted, fun h => ⟨hlog, fun _ => h⟩⟩
      | false =>
        rw [if_neg Bool.false_ne_true, sound_resume]
        dsimp only
        rw [hpc']
        exact ⟨fun h => h.2, fun h => ⟨hlog, h⟩⟩
    · rw [if_neg hcall, if_neg fun h => hcall h.2, sound_iff_log]
      dsimp only
      rw [hkeep, hmem]
      exact ⟨fun h => h.2 hhalted, fun h => ⟨hlog, fun _ => h⟩⟩
  · rw [decide_eq_false hflag, if_neg Bool.false_ne_true, if_neg fun h => hflag h.1, sound_iff_log]
    exact ⟨fun h => h.2 hhalted, fun h => ⟨hlog, fun _ => h⟩⟩

/-- A poll of a halted core keeps the calls right if and only if its condition holds. -/
theorem haltPoll_sound (hhalted : t.running = false) (hlog : ∀ r ∈ t.log, r.Right) (io : Hostio) :
    (t.haltPoll io).2.Sound ↔ t.PollGuard io := by
  unfold haltPoll PollGuard
  rw [hhalted, if_neg Bool.false_ne_true]
  dsimp only
  by_cases hunwind : t.Unwinding
  · have htrue := (cortexmFaultUnwind_true t.core).mpr hunwind.2
    have hpc := (cortexmFaultUnwind_return t.core hunwind.2).2.1
    rw [if_pos hunwind, if_pos hunwind.1, if_pos htrue, sound_iff_log]
    dsimp only
    rw [cortexmFaultUnwind_mem, FaultTarget.pc, hpc]
    exact ⟨fun h => h.2 rfl, fun h => ⟨hlog, fun _ => h⟩⟩
  · have hnone : ∃ core, (if t.dfsr &&& dfsrVcatch ≠ 0 then cortexmFaultUnwind t.core
        else (false, t.core)) = (false, core) ∧ core.pc = t.core.pc ∧ core.mem = t.core.mem := by
      by_cases hcatch : t.dfsr &&& dfsrVcatch ≠ 0
      · obtain ⟨hfalse, hpc⟩ := cortexmFaultUnwind_pc fun h => hunwind ⟨hcatch, h⟩
        rw [if_pos hcatch]
        exact ⟨_, Prod.ext hfalse rfl, hpc, cortexmFaultUnwind_mem t.core⟩
      · rw [if_neg hcatch]
        exact ⟨_, rfl, rfl, rfl⟩
    obtain ⟨core, hcore, hpc, hmem⟩ := hnone
    rw [if_neg hunwind, hcore, if_neg Bool.false_ne_true]
    refine (recordBkpt_sound { t with core := core, dfsr := t.dfsr &&& ~~~t.dfsr, running := false }
      rfl hlog t.dfsr io).trans ?_
    dsimp only
    rw [hpc, hmem]
    rfl

/-! ## Runs -/

/-- A step from a sound state leads to a sound state if and only if its condition holds. -/
theorem step_sound (h : t.Sound) (e : Event) : (t.step e).Sound ↔ t.Guard e := by
  obtain ⟨hlog, hnow⟩ := t.sound_iff_log.mp h
  cases e with
  | stop o =>
    show (if t.running = true then t.stopped o else t).Sound ↔
      (t.running = true → Agrees t.onBkpt o.last o.core.mem o.core.pc)
    cases hrunning : t.running with
    | true =>
      rw [if_pos rfl, sound_iff_log]
      exact ⟨fun h _ => h.2 rfl, fun h => ⟨hlog, fun _ => h rfl⟩⟩
    | false =>
      rw [if_neg Bool.false_ne_true]
      exact iff_of_true h nofun
  | halt o io =>
    show (if t.running = true then ((t.stopped o).haltPoll io).2 else t).Sound ↔
      (t.running = true → (t.stopped o).PollGuard io)
    cases hrunning : t.running with
    | true =>
      rw [if_pos rfl, haltPoll_sound (t.stopped o) rfl hlog]
      exact ⟨fun h _ => h, fun h => h rfl⟩
    | false =>
      rw [if_neg Bool.false_ne_true]
      exact iff_of_true h nofun
  | poll io =>
    show (t.haltPoll io).2.Sound ↔ (t.running = false → t.PollGuard io)
    cases hrunning : t.running with
    | true =>
      unfold haltPoll
      rw [hrunning, if_pos rfl]
      exact iff_of_true h nofun
    | false =>
      rw [haltPoll_sound t hrunning hlog]
      exact ⟨fun h _ => h, fun h => h rfl⟩
  | write core dfsr =>
    rw [sound_iff_log]
    exact ⟨fun h => h.2, fun h => ⟨hlog, h⟩⟩
  | reset core running =>
    rw [sound_iff_log]
    exact ⟨fun h => h.2, fun h => ⟨hlog, h⟩⟩
  | resume step =>
    show (if t.running = true then t else t.resume step).Sound ↔ True
    cases hrunning : t.running with
    | true =>
      rw [if_pos rfl]
      exact iff_of_true h trivial
    | false =>
      rw [if_neg Bool.false_ne_true, sound_resume]
      exact iff_of_true ⟨hlog, hnow hrunning⟩ trivial

theorem fresh_sound (core : FaultTarget) (running : Bool) : (fresh core running).Sound := by
  rw [sound_iff_log]
  exact ⟨fun _ hmem => absurd hmem List.not_mem_nil, fun _ _ => rfl⟩

end ResumeTarget

/-- A core with a breakpoint instruction in every halfword of its memory. -/
def bkptCore (pc : UInt32) : FaultTarget where
  registers := ⟨false, ⟨fun n => if n = 0x0F then pc else 0, 0, []⟩⟩
  hfsr := 0
  cfsr := 0
  aircr := 0
  mem a := if a % 2 = 0 then 0x00 else 0xBE
  stackFault := false

/-- It executes the instruction at 0x100. -/
def bkptStop : Stop := ⟨bkptCore 0x100, dfsrBkpt, true, by decide, by decide⟩

end MiyakoLink.CortexM
