import MiyakoLink.CortexM.Comparator
import MiyakoLink.CortexM.Registers

/-!
# Unwinding a fault

`cortexm_fault_unwind` on a core that vector catch has halted at the entry of a fault handler. The
link register holds the return code: bit 2 selects the process stack, and bit 4 is clear for an
extended frame. Bit 9 of the stacked `xPSR` tells of a word for the alignment behind the frame.
`ExceptionReturn` says what an exception return leaves in the registers.

In the packed special register `CONTROL` is the upper byte: bit 25 is `SPSEL` and bit 26 is
`FPCA`. The function takes them the other way round, and sets them only.

* `unwinds_iff`: when what it writes back is an exception return.
-/

namespace MiyakoLink.CortexM

open Lib

/-- The registers in the file that the function reads and writes back. -/
abbrev regSp : Nat := 13
abbrev regLr : Nat := 14
abbrev regPc : Nat := 15
abbrev regMsp : Nat := 17
abbrev regPsp : Nat := 18
abbrev regSpecial : Nat := 19

/-- `CORTEXM_HFSR_FORCED`. -/
abbrev hfsrForced : UInt32 := 0x40000000

/-- `CORTEXM_AIRCR_VECTKEY | CORTEXM_AIRCR_VECTCLRACTIVE`. -/
abbrev vectclractive : UInt32 := 0x05FA0002

/-- A word in memory. -/
def wordAt (mem : UInt32 → UInt8) (a : UInt32) : UInt32 := ofLanes fun k => mem (a + UInt32.ofNat k)

/-- The halted target. `stackFault` is the result of `target_check_error` after the read of the
frame. -/
structure FaultTarget where
  registers : RegisterTarget
  hfsr : UInt32
  cfsr : UInt32
  aircr : UInt32
  mem : UInt32 → UInt8
  stackFault : Bool

/-- The part of `cortexm_fault_unwind` that changes the register file. -/
def unwindRegs (regs : List UInt32) (stack : Nat → UInt32) : List UInt32 :=
  let retcode := regs.getD regLr 0
  let spsel := retcode &&& 4 ≠ 0
  let fpca := retcode &&& 0x10 = 0
  -- restore LR and PC to pre-exception state
  let regs := regs.set regLr (stack 5)
  let regs := regs.set regPc (stack 6)
  -- adjust stack to pop exception state
  let framesize : UInt32 := if fpca then 0x68 else 0x20
  let framesize := if stack 7 &&& 0x200 ≠ 0 then framesize + 4 else framesize
  let regs :=
    if spsel then
      let regs := regs.set regSpecial (regs.getD regSpecial 0 ||| 0x4000000)
      let psp := regs.getD regPsp 0 + framesize
      (regs.set regPsp psp).set regSp psp
    else
      let msp := regs.getD regMsp 0 + framesize
      (regs.set regMsp msp).set regSp msp
  if fpca then regs.set regSpecial (regs.getD regSpecial 0 ||| 0x2000000) else regs

/-- `cortexm_fault_unwind`. -/
def cortexmFaultUnwind (t : FaultTarget) : Bool × FaultTarget :=
  let hfsr := t.hfsr
  let cfsr := t.cfsr
  -- write back to reset
  let t := { t with hfsr := t.hfsr &&& ~~~hfsr, cfsr := t.cfsr &&& ~~~cfsr }
  if hfsr &&& hfsrForced ≠ 0 ∨ cfsr ≠ 0 then
    let (regs, registers) := cortexmRegsRead t.registers
    let t := { t with registers := registers }
    let sp := if regs.getD regLr 0 &&& 4 ≠ 0 then regs.getD regPsp 0 else regs.getD regMsp 0
    let stack := fun k => wordAt t.mem (sp + UInt32.ofNat (4 * k))
    if t.stackFault then (false, t)
    else
      -- Reset exception state to allow resuming from restored state.
      let t := { t with aircr := vectclractive }
      (true, { t with registers := cortexmRegsWrite t.registers (unwindRegs regs stack) })
  else (false, t)

/-! ## Exception return -/

section
variable (mem : UInt32 → UInt8) (before after : UInt32 → UInt32)

/-- Does the return code in the link register select the process stack? -/
def ProcessStack : Prop := before 14 &&& 4 ≠ 0

/-- Does it say that the frame is an extended one? -/
def Extended : Prop := before 14 &&& 0x10 = 0

instance : Decidable (ProcessStack before) := inferInstanceAs (Decidable (_ ≠ _))

instance : Decidable (Extended before) := inferInstanceAs (Decidable (_ = _))

/-- The number of the selected stack pointer. -/
def selected : UInt32 := if ProcessStack before then 0x12 else 0x11

/-- A word of the stacked frame. -/
def stacked (k : Nat) : UInt32 := wordAt mem (before (selected before) + UInt32.ofNat (4 * k))

/-- The bytes of the frame, with the word for the alignment. -/
def frameSize : UInt32 :=
  (if Extended before then 0x68 else 0x20) + if stacked mem before 7 &&& 0x200 ≠ 0 then 4 else 0

/-- The registers after an exception return, but for `xPSR`. Both are given by number. -/
structure ExceptionReturn : Prop where
  lr : after 14 = stacked mem before 5
  pc : after 15 = stacked mem before 6
  low : ∀ k : UInt32, k < 13 → after k = before k
  stack : after (selected before) = before (selected before) + frameSize mem before
  sp : after 13 = after (selected before)
  spsel : after 0x14 &&& 0x2000000 ≠ 0 ↔ ProcessStack before
  fpca : after 0x14 &&& 0x4000000 ≠ 0 ↔ Extended before
  special : after 0x14 &&& ~~~0x6000000 = before 0x14 &&& ~~~0x6000000

end

/-- The function unwinds: there is a fault, and the frame can be read. -/
def Faulted (t : FaultTarget) : Prop :=
  (t.hfsr &&& hfsrForced ≠ 0 ∨ t.cfsr ≠ 0) ∧ t.stackFault = false

/-- The process stack and an extended frame; or the main stack and a basic frame, with both bits
clear before. -/
def Returnable (before : UInt32 → UInt32) : Prop :=
  ProcessStack before ∧ Extended before ∨
    ¬ProcessStack before ∧ ¬Extended before ∧ before 0x14 &&& 0x6000000 = 0

/-- What the function writes back is an exception return, when it reports that it unwound. -/
def Unwinds (t : FaultTarget) : Prop :=
  (cortexmFaultUnwind t).1 = true →
    ExceptionReturn t.mem t.registers.core.regs (cortexmFaultUnwind t).2.registers.core.regs

/-! ## The register file -/

section
variable {regs : List UInt32} {stack : Nat → UInt32}

/-- The special register that is written back. -/
def unwoundSpecial (process extended : Bool) (special : UInt32) : UInt32 :=
  special ||| (if process then 0x4000000 else 0) ||| if extended then 0x2000000 else 0

/-- What the function changes in the register file. -/
theorem unwindRegs_get (hlength : 20 ≤ regs.length) {process extended : Bool}
    (hprocess : process = decide (regs.getD regLr 0 &&& 4 ≠ 0))
    (hextended : extended = decide (regs.getD regLr 0 &&& 0x10 = 0)) :
    let sp := if process then regPsp else regMsp
    let moved := regs.getD sp 0 + ((if extended then 0x68 else 0x20) +
      if stack 7 &&& 0x200 ≠ 0 then 4 else 0)
    (∀ k < 13, (unwindRegs regs stack)[k]? = regs[k]?) ∧
      (unwindRegs regs stack)[regLr]? = some (stack 5) ∧
      (unwindRegs regs stack)[regPc]? = some (stack 6) ∧
      (unwindRegs regs stack)[sp]? = some moved ∧
      (unwindRegs regs stack)[regSp]? = some moved ∧
      (unwindRegs regs stack)[regSpecial]? =
        some (unwoundSpecial process extended (regs.getD regSpecial 0)) := by
  intro sp moved
  have hsize : ∀ base : UInt32, (if stack 7 &&& 0x200 ≠ 0 then base + 4 else base) =
      base + if stack 7 &&& 0x200 ≠ 0 then 4 else 0 := by
    intro base
    split
    · rfl
    · exact (UInt32.add_zero base).symm
  unfold unwindRegs
  dsimp only
  rw [hsize]
  -- The four branches; each sets the elements of a list one after the other.
  have hp : (regs.getD regLr 0 &&& 4 ≠ 0) = (process = true) := by
    rw [hprocess, decide_eq_true_eq]
  have he : (regs.getD regLr 0 &&& 0x10 = 0) = (extended = true) := by
    rw [hextended, decide_eq_true_eq]
  simp only [hp, he]
  cases process
  all_goals
    cases extended
    all_goals
      refine ⟨fun k hk => ?_, ?_, ?_, ?_, ?_, ?_⟩
      all_goals
        simp [List.getElem?_set, List.getD_eq_getElem?_getD, sp, moved, unwoundSpecial]
        try grind

end

/-! ## The special register -/

theorem special_clear (special : UInt32) :
    special &&& 0x6000000 = 0 ↔ special &&& 0x2000000 = 0 ∧ special &&& 0x4000000 = 0 := by
  have hsplit : special &&& 0x6000000 = special &&& 0x2000000 ||| special &&& 0x4000000 := by
    have hmask : (0x6000000 : UInt32) = 0x2000000 ||| 0x4000000 := by decide
    rw [hmask, UInt32.and_comm, or_and, UInt32.and_comm, UInt32.and_comm 0x4000000]
  rw [hsplit]
  exact UInt32.or_eq_zero_iff

/-- The two bits are right if and only if the stack and the frame go with the code. -/
theorem unwoundSpecial_iff (special : UInt32) (process extended : Bool) :
    ((unwoundSpecial process extended special &&& 0x2000000 ≠ 0 ↔ process = true) ∧
      (unwoundSpecial process extended special &&& 0x4000000 ≠ 0 ↔ extended = true)) ↔
      process = true ∧ extended = true ∨
        process = false ∧ extended = false ∧ special &&& 0x6000000 = 0 := by
  have hbits : ∀ mask : UInt32, unwoundSpecial process extended special &&& mask =
      special &&& mask ||| (if process then 0x4000000 else 0) &&& mask |||
        (if extended then 0x2000000 else 0) &&& mask := by
    intro mask
    rw [unwoundSpecial, or_and, or_and]
  have hset : ∀ a b : UInt32, b ≠ 0 → a ||| b ≠ 0 := fun a b hb h => hb (UInt32.or_eq_zero_iff.mp h).2
  have hset' : ∀ a b : UInt32, a ≠ 0 → a ||| b ≠ 0 := fun a b ha h => ha (UInt32.or_eq_zero_iff.mp h).1
  rw [hbits, hbits, special_clear]
  cases process with
  | true =>
    have hfpca : special &&& 0x4000000 ||| (0x4000000 : UInt32) &&& 0x4000000 |||
        (if extended then 0x2000000 else 0) &&& 0x4000000 ≠ 0 :=
      hset' _ _ (hset _ _ (by decide))
    cases extended with
    | true => exact iff_of_true ⟨iff_of_true (hset _ _ (by decide)) rfl, iff_of_true hfpca rfl⟩ (Or.inl ⟨rfl, rfl⟩)
    | false =>
      refine iff_of_false (fun h => ?_) (by simp)
      exact absurd (h.2.mp hfpca) (by decide)
  | false =>
    cases extended with
    | true =>
      refine iff_of_false (fun h => ?_) (by simp)
      exact absurd (h.1.mp (hset _ _ (by decide))) (by decide)
    | false => simp

theorem unwoundSpecial_rest (special : UInt32) (process extended : Bool) :
    unwoundSpecial process extended special &&& ~~~0x6000000 = special &&& ~~~0x6000000 := by
  have hmask : (0x4000000 : UInt32) &&& ~~~0x6000000 = 0 := by decide
  have hmask' : (0x2000000 : UInt32) &&& ~~~0x6000000 = 0 := by decide
  rw [unwoundSpecial, or_and, or_and]
  cases process <;> cases extended <;> simp [hmask, hmask']

/-! ## The function -/

section
variable (t : FaultTarget)

/-- The frame that the function reads. -/
def readStack (k : Nat) : UInt32 := stacked t.mem t.registers.core.regs k

/-- The register file that it reads. -/
def readFile : List UInt32 := t.registers.regnums.map t.registers.core.regs

/-- The first numbers of the tables. -/
theorem regnums_low (r : RegisterTarget) {k : Nat} (hk : k < 20) :
    r.regnums[k]? = regnumCortexM[k]? := List.getElem?_append_left hk

theorem readFile_get {k : Nat} {n : UInt32} (hk : k < 20) (hn : regnumCortexM[k]? = some n) :
    (readFile t)[k]? = some (t.registers.core.regs n) := by
  rw [readFile, List.getElem?_map, regnums_low _ hk, hn]
  rfl

theorem readFile_getD {k : Nat} {n : UInt32} (hk : k < 20) (hn : regnumCortexM[k]? = some n) :
    (readFile t).getD k 0 = t.registers.core.regs n := by
  rw [List.getD_eq_getElem?_getD, readFile_get t hk hn]
  rfl

theorem readFile_length : 20 ≤ (readFile t).length := by
  rw [readFile, List.length_map]
  exact first_le_regCount t.registers

/-- It unwinds if and only if there is a fault and the frame can be read. -/
theorem cortexmFaultUnwind_true : (cortexmFaultUnwind t).1 = true ↔ Faulted t := by
  unfold cortexmFaultUnwind Faulted
  dsimp only
  by_cases hfault : t.hfsr &&& hfsrForced ≠ 0 ∨ t.cfsr ≠ 0
  · rw [if_pos hfault]
    cases t.stackFault with
    | true => simp
    | false => simp [hfault]
  · rw [if_neg hfault]
    simp [hfault]

/-- A register that it writes back. -/
theorem cortexmFaultUnwind_reg (h : Faulted t) {k : Nat} {n v : UInt32} (hk : k < 20)
    (hn : regnumCortexM[k]? = some n) (hv : (unwindRegs (readFile t) (readStack t))[k]? = some v) :
    (cortexmFaultUnwind t).2.registers.core.regs n = v := by
  have hvalues := cortexmRegsRead_values t.registers
  have hlr : (readFile t).getD regLr 0 = t.registers.core.regs 14 := readFile_getD t (by decide) rfl
  have hpsp : (readFile t).getD regPsp 0 = t.registers.core.regs 0x12 :=
    readFile_getD t (by decide) rfl
  have hmsp : (readFile t).getD regMsp 0 = t.registers.core.regs 0x11 :=
    readFile_getD t (by decide) rfl
  have hsp : (if (readFile t).getD regLr 0 &&& 4 ≠ 0 then (readFile t).getD regPsp 0
      else (readFile t).getD regMsp 0) = t.registers.core.regs (selected t.registers.core.regs) := by
    rw [hlr, hpsp, hmsp, selected]
    by_cases hprocess : ProcessStack t.registers.core.regs
    · rw [if_pos hprocess]
      exact if_pos hprocess
    · rw [if_neg hprocess]
      exact if_neg hprocess
  have hwritten : (cortexmFaultUnwind t).2.registers =
      cortexmRegsWrite (cortexmRegsRead t.registers).2 (unwindRegs (readFile t) (readStack t)) := by
    unfold cortexmFaultUnwind
    dsimp only
    rw [if_pos h.1, hvalues, h.2]
    show cortexmRegsWrite _ (unwindRegs (readFile t) fun k => wordAt t.mem ((if
      (readFile t).getD regLr 0 &&& 4 ≠ 0 then (readFile t).getD regPsp 0
        else (readFile t).getD regMsp 0) + UInt32.ofNat (4 * k))) = _
    rw [hsp]
    rfl
  rw [hwritten]
  exact writeRegs_get (regnums_nodup _) (fun n hn => ⟨(regnums_field _ hn).2.2.1,
    (regnums_field _ hn).2.2.2⟩) _ _ ((regnums_low _ hk).trans hn) hv

/-- The registers after an unwind but for the special one are those of an exception return. -/
theorem cortexmFaultUnwind_return (h : Faulted t) :
    let before := t.registers.core.regs
    let after := (cortexmFaultUnwind t).2.registers.core.regs
    after 14 = stacked t.mem before 5 ∧ after 15 = stacked t.mem before 6 ∧
      (∀ k : UInt32, k < 13 → after k = before k) ∧
      after (selected before) = before (selected before) + frameSize t.mem before ∧
      after 13 = after (selected before) ∧
      after 0x14 =
        unwoundSpecial (decide (ProcessStack before)) (decide (Extended before)) (before 0x14) := by
  intro before after
  have hlr : (readFile t).getD regLr 0 = before 14 := readFile_getD t (by decide) rfl
  obtain ⟨hlow, hlr', hpc', hstack', hsp', hspecial'⟩ :=
    @unwindRegs_get (readFile t) (readStack t) (readFile_length t) (decide (ProcessStack before))
      (decide (Extended before)) (by rw [hlr]; rfl) (by rw [hlr]; rfl)
  have hspecial : (readFile t).getD regSpecial 0 = before 0x14 := readFile_getD t (by decide) rfl
  rw [hspecial] at hspecial'
  -- The selected stack pointer in the file.
  have hindex : ∃ k, k = (if decide (ProcessStack before) = true then regPsp else regMsp) ∧
      k < 20 ∧ regnumCortexM[k]? = some (selected before) := by
    refine ⟨_, rfl, ?_⟩
    unfold selected
    by_cases hprocess : ProcessStack before
    · rw [if_pos (decide_eq_true hprocess), if_pos hprocess]
      exact ⟨by decide, rfl⟩
    · rw [if_neg (by simpa using hprocess), if_neg hprocess]
      exact ⟨by decide, rfl⟩
  obtain ⟨index, hindex, hlt, hnum⟩ := hindex
  have hsize : ((if decide (Extended before) = true then 0x68 else 0x20) +
      if readStack t 7 &&& 0x200 ≠ 0 then 4 else 0) = frameSize t.mem before := by
    simp only [decide_eq_true_eq]
    rfl
  rw [← hindex, readFile_getD t hlt hnum, hsize] at hstack' hsp'
  have hstack := cortexmFaultUnwind_reg t h hlt hnum hstack'
  refine ⟨cortexmFaultUnwind_reg t h (by decide) rfl hlr',
    cortexmFaultUnwind_reg t h (by decide) rfl hpc', ?_, hstack,
    (cortexmFaultUnwind_reg t h (by decide) rfl hsp').trans hstack.symm,
    cortexmFaultUnwind_reg t h (by decide) rfl hspecial'⟩
  intro k hk
  have hk : k.toNat < 13 := UInt32.lt_iff_toNat_lt.mp hk
  have hnum : regnumCortexM[k.toNat]? = some k := by
    have hall : ∀ j < 13, regnumCortexM[j]? = some (UInt32.ofNat j) := by decide
    have hat := hall k.toNat hk
    rw [UInt32.ofNat_toNat] at hat
    exact hat
  have hlt : k.toNat < 20 := by omega
  exact cortexmFaultUnwind_reg t h hlt hnum ((hlow k.toNat hk).trans (readFile_get t hlt hnum))

end

/-- What the function writes back is an exception return if and only if it does not unwind, or the
return code and the special register are of the two kinds. -/
theorem unwinds_iff (t : FaultTarget) :
    Unwinds t ↔ (Faulted t → Returnable t.registers.core.regs) := by
  unfold Unwinds
  rw [cortexmFaultUnwind_true]
  apply imp_congr_right
  intro hfaulted
  obtain ⟨hlr, hpc, hlow, hstack, hsp, hspecial⟩ := cortexmFaultUnwind_return t hfaulted
  have hiff := unwoundSpecial_iff (t.registers.core.regs 0x14)
    (decide (ProcessStack t.registers.core.regs)) (decide (Extended t.registers.core.regs))
  simp only [decide_eq_true_eq, decide_eq_false_iff_not] at hiff
  rw [Returnable, ← hiff, ← hspecial]
  constructor
  · intro h
    exact ⟨h.spsel, h.fpca⟩
  · rintro ⟨hspsel, hfpca⟩
    refine ⟨hlr, hpc, hlow, hstack, hsp, hspsel, hfpca, ?_⟩
    rw [hspecial]
    exact unwoundSpecial_rest ..

/-- A fault in a handler that runs on the main stack, with a basic frame. -/
def mainFault : FaultTarget where
  registers := ⟨false, ⟨fun n => if n = 14 then 0xFFFFFFF9 else 0, 0, []⟩⟩
  hfsr := 0x40000000
  cfsr := 0x100
  aircr := 0
  mem := fun _ => 0
  stackFault := false

/-- A fault in a thread that runs on the process stack, with a basic frame. -/
def threadFault : FaultTarget :=
  { mainFault with registers := ⟨false, ⟨fun n => if n = 14 then 0xFFFFFFFD else 0, 0, []⟩⟩ }

theorem unwinds_main : Unwinds mainFault :=
  (unwinds_iff mainFault).mpr fun _ => Or.inr ⟨by decide, by decide, by decide⟩

/-- `FPCA` is set for the process stack, and `SPSEL` is not. -/
theorem thread_not_unwound : ¬∀ t, Unwinds t := by
  intro h
  have hreturn := h threadFault (by decide)
  have hfpca : ¬Extended threadFault.registers.core.regs := by decide
  apply hfpca
  apply hreturn.fpca.mp
  decide

end MiyakoLink.CortexM
