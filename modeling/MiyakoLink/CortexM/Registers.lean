import MiyakoLink.Lib.Lanes

/-!
# The registers of a Cortex-M

`cortexm_regs_read`, `cortexm_regs_write`, `cortexm_reg_read` and `cortexm_reg_write`. A register
is transferred over `DCRDR` when its number is written to `DCRSR`, the selector register. The core
keeps a value for each number of the selector; that `sp` is one of the two stack pointers is left
out. `touches` are the accesses to the two debug registers.

`none` is an access outside of the tables of numbers.
-/

namespace MiyakoLink.CortexM

open Lib

/-- `regnum_cortex_m`. -/
def regnumCortexM : List UInt32 :=
  [0, 1, 2, 3, 4, 5, 6, 7, 8, 9, 10, 11, 12, 13, 14, 15, 0x10, 0x11, 0x12, 0x14]

/-- `regnum_cortex_mf`. -/
def regnumCortexMf : List UInt32 :=
  [0x21,
    0x40, 0x41, 0x42, 0x43, 0x44, 0x45, 0x46, 0x47,
    0x48, 0x49, 0x4a, 0x4b, 0x4c, 0x4d, 0x4e, 0x4f,
    0x50, 0x51, 0x52, 0x53, 0x54, 0x55, 0x56, 0x57,
    0x58, 0x59, 0x5a, 0x5b, 0x5c, 0x5d, 0x5e, 0x5f]

/-- `CORTEXM_DCRSR_REGWnR`. -/
abbrev dcrsrRegWnR : UInt32 := 0x10000

/-- An access to a debug register. -/
inductive Touch where
  | dcrsr (value : UInt32)
  | dcrdrRead
  | dcrdrWrite (value : UInt32)
  deriving DecidableEq

structure RegisterCore where
  regs : UInt32 → UInt32
  dcrdr : UInt32
  touches : List Touch

namespace RegisterCore

variable (c : RegisterCore)

/-- A write of `DCRSR` transfers the register of its low seven bits. -/
def writeDcrsr (value : UInt32) : RegisterCore :=
  let c := { c with touches := c.touches ++ [Touch.dcrsr value] }
  if value &&& dcrsrRegWnR ≠ 0 then
    { c with regs := Function.update c.regs (value &&& 0x7F) c.dcrdr }
  else { c with dcrdr := c.regs (value &&& 0x7F) }

def writeDcrdr (value : UInt32) : RegisterCore :=
  { c with dcrdr := value, touches := c.touches ++ [.dcrdrWrite value] }

def readDcrdr : UInt32 × RegisterCore := (c.dcrdr, { c with touches := c.touches ++ [.dcrdrRead] })

end RegisterCore

/-- The target; `fp` is its option `TOPT_FLAVOUR_V7MF`. -/
structure RegisterTarget where
  fp : Bool
  core : RegisterCore

/-- The numbers that `cortexm_regs_read` and `cortexm_regs_write` go through. -/
def RegisterTarget.regnums (t : RegisterTarget) : List UInt32 :=
  regnumCortexM ++ if t.fp then regnumCortexMf else []

/-- The loop of `cortexm_regs_read`. -/
def readRegs : List UInt32 → RegisterCore → List UInt32 × RegisterCore
  | [], c => ([], c)
  | regnum :: regnums, c =>
    let (value, c) := (c.writeDcrsr regnum).readDcrdr
    let (values, c) := readRegs regnums c
    (value :: values, c)

/-- The loop of `cortexm_regs_write`. -/
def writeRegs : List UInt32 → List UInt32 → RegisterCore → RegisterCore
  | regnum :: regnums, value :: regs, c =>
    writeRegs regnums regs ((c.writeDcrdr value).writeDcrsr (dcrsrRegWnR ||| regnum))
  | _, _, c => c

/-- `cortexm_regs_read`. -/
def cortexmRegsRead (t : RegisterTarget) : List UInt32 × RegisterTarget :=
  let (regs, core) := readRegs t.regnums t.core
  (regs, { t with core := core })

/-- `cortexm_regs_write`. -/
def cortexmRegsWrite (t : RegisterTarget) (regs : List UInt32) : RegisterTarget :=
  { t with core := writeRegs t.regnums regs t.core }

/-- `dcrsr_regnum`, as it is written to the register. The tables have 20 and 33 entries, of four
bytes each. -/
def dcrsrRegnum (t : RegisterTarget) (reg : UInt32) : Option UInt32 :=
  if reg < 80 / 4 then regnumCortexM[reg.toNat]?
  else if t.fp ∧ reg < 80 + 132 / 4 then regnumCortexMf[(reg - 80 / 4).toNat]?
  else some 0xFFFFFFFF

/-- The result of a register access (`ssize_t`), what it has copied to `data`, and the target. -/
abbrev RegResult (σ : Type) := Int × List UInt8 × σ

/-- The bytes of a word in memory. -/
def wordBytes (v : UInt32) : List UInt8 := [lane v 0, lane v 1, lane v 2, lane v 3]

/-- The word that is at the begin of some bytes. -/
def wordOf (bytes : List UInt8) : UInt32 := ofLanes fun k => bytes.getD k 0

/-- `cortexm_reg_read`. -/
def cortexmRegRead (t : RegisterTarget) (reg : UInt32) (max : Nat) :
    Option (RegResult RegisterTarget) := do
  if max < 4 then return (-1, [], t)
  let core := t.core.writeDcrsr (← dcrsrRegnum t reg)
  let (r, core) := core.readDcrdr
  return (4, wordBytes r, { t with core := core })

/-- `cortexm_reg_write`. -/
def cortexmRegWrite (t : RegisterTarget) (reg : UInt32) (data : List UInt8) :
    Option (Int × RegisterTarget) := do
  if data.length < 4 then return (-1, t)
  let core := t.core.writeDcrdr (wordOf data)
  let core := core.writeDcrsr (dcrsrRegWnR ||| (← dcrsrRegnum t reg))
  return (4, { t with core := core })

/-! ## The numbers -/

/-- The registers of the target, by their index in the tables. -/
def RegisterTarget.regCount (t : RegisterTarget) : Nat := t.regnums.length

theorem regCount_eq (t : RegisterTarget) : t.regCount = if t.fp then 53 else 20 := by
  cases hfp : t.fp <;> simp [RegisterTarget.regCount, RegisterTarget.regnums, hfp, regnumCortexM,
    regnumCortexMf]

theorem first_le_regCount (t : RegisterTarget) : 20 ≤ t.regCount := by
  rw [regCount_eq]
  split
  · decide
  · exact Nat.le_refl 20

/-- All numbers fit in the field of the selector register. -/
theorem regnums_field (t : RegisterTarget) {n : UInt32} (h : n ∈ t.regnums) :
    n &&& 0x7F = n ∧ n &&& dcrsrRegWnR = 0 ∧ (dcrsrRegWnR ||| n) &&& 0x7F = n ∧
      (dcrsrRegWnR ||| n) &&& dcrsrRegWnR ≠ 0 := by
  have hall : (regnumCortexM ++ regnumCortexMf).all fun n =>
      n &&& 0x7F = n ∧ n &&& dcrsrRegWnR = 0 ∧ (dcrsrRegWnR ||| n) &&& 0x7F = n ∧
        (dcrsrRegWnR ||| n) &&& dcrsrRegWnR ≠ 0 := by decide
  apply of_decide_eq_true ∘ List.all_eq_true.mp hall n
  unfold RegisterTarget.regnums at h
  cases hfp : t.fp with
  | true =>
    rw [hfp] at h
    exact h
  | false =>
    rw [hfp] at h
    exact List.mem_append_left _ ((List.append_nil regnumCortexM) ▸ h)

theorem regnums_nodup (t : RegisterTarget) : t.regnums.Nodup := by
  unfold RegisterTarget.regnums
  cases t.fp <;> decide

/-- The register of the number, without one outside of the tables. -/
theorem dcrsrRegnum_inside (t : RegisterTarget) {reg : UInt32} (h : reg.toNat < t.regCount) :
    dcrsrRegnum t reg = t.regnums[reg.toNat]? := by
  have hcount := regCount_eq t
  have hlength : regnumCortexM.length = 20 := rfl
  unfold dcrsrRegnum RegisterTarget.regnums
  by_cases hlow : reg.toNat < 20
  · rw [if_pos (UInt32.lt_iff_toNat_lt.mpr hlow), List.getElem?_append_left (by omega)]
  · have hnot : ¬reg < 80 / 4 := fun hlt => hlow (UInt32.lt_iff_toNat_lt.mp hlt)
    rw [if_neg hnot, List.getElem?_append_right (by omega), hlength]
    cases hfp : t.fp with
    | false =>
      rw [hfp] at hcount
      exact absurd h (by simp [hcount]; omega)
    | true =>
      rw [hfp] at hcount
      have hsmall : reg.toNat < 53 := by simp [hcount] at h; omega
      have hlt : reg < 80 + 132 / 4 := by
        apply UInt32.lt_iff_toNat_lt.mpr
        show reg.toNat < 113
        omega
      have hsub : (reg - 80 / 4).toNat = reg.toNat - 20 := by
        apply UInt32.toNat_sub_of_le
        apply UInt32.le_iff_toNat_le.mpr
        show 20 ≤ reg.toNat
        omega
      rw [if_pos ⟨rfl, hlt⟩, hsub, if_pos rfl]

/-- Outside, the index is out of the table, or the number is that of no register. -/
theorem dcrsrRegnum_outside (t : RegisterTarget) {reg : UInt32} (h : t.regCount ≤ reg.toNat) :
    dcrsrRegnum t reg = none ∨ dcrsrRegnum t reg = some 0xFFFFFFFF := by
  have hcount := regCount_eq t
  have hnot : ¬reg < 80 / 4 := by
    intro hlt
    have hlow : reg.toNat < 20 := UInt32.lt_iff_toNat_lt.mp hlt
    cases hfp : t.fp <;> simp [hfp] at hcount <;> omega
  unfold dcrsrRegnum
  rw [if_neg hnot]
  split
  · rename_i hfp
    have hsub : (reg - 80 / 4).toNat = reg.toNat - 20 := by
      apply UInt32.toNat_sub_of_le
      exact UInt32.not_lt.mp hnot
    rw [if_pos hfp.1] at hcount
    refine Or.inl (List.getElem?_eq_none ?_)
    show 33 ≤ _
    omega
  · exact Or.inr rfl

/-! ## Words and bytes -/

@[simp] theorem wordBytes_length (v : UInt32) : (wordBytes v).length = 4 := rfl

theorem wordBytes_wordOf {bytes : List UInt8} (h : 4 ≤ bytes.length) :
    wordBytes (wordOf bytes) = bytes.take 4 := by
  obtain ⟨a, b, d, e, rest, rfl⟩ : ∃ a b d e rest, bytes = a :: b :: d :: e :: rest := by
    match bytes, h with
    | a :: b :: d :: e :: rest, _ => exact ⟨a, b, d, e, rest, rfl⟩
  unfold wordBytes wordOf
  rw [lane_ofLanes _ (by decide), lane_ofLanes _ (by decide), lane_ofLanes _ (by decide),
    lane_ofLanes _ (by decide)]
  rfl

/-! ## Transfers -/

section
variable {c : RegisterCore} {n : UInt32}

/-- The register is read. -/
theorem read_transfer (hfield : n &&& 0x7F = n) (hread : n &&& dcrsrRegWnR = 0) :
    (c.writeDcrsr n).readDcrdr =
      (c.regs n, ⟨c.regs, c.regs n, c.touches ++ [.dcrsr n, .dcrdrRead]⟩) := by
  unfold RegisterCore.writeDcrsr RegisterCore.readDcrdr
  dsimp only
  rw [if_neg (not_not.mpr hread), hfield, List.append_assoc]
  rfl

/-- The register is written. -/
theorem write_transfer (v : UInt32) (hfield : (dcrsrRegWnR ||| n) &&& 0x7F = n)
    (hwrite : (dcrsrRegWnR ||| n) &&& dcrsrRegWnR ≠ 0) :
    (c.writeDcrdr v).writeDcrsr (dcrsrRegWnR ||| n) = ⟨Function.update c.regs n v, v,
      c.touches ++ [.dcrdrWrite v, .dcrsr (dcrsrRegWnR ||| n)]⟩ := by
  unfold RegisterCore.writeDcrsr RegisterCore.writeDcrdr
  dsimp only
  rw [if_pos hwrite, hfield, List.append_assoc]
  rfl

end

/-! ## The loops -/

/-- The loop of the read gives the registers, and changes none. -/
theorem readRegs_eq {nums : List UInt32}
    (hfield : ∀ n ∈ nums, n &&& 0x7F = n ∧ n &&& dcrsrRegWnR = 0) (c : RegisterCore) :
    (readRegs nums c).1 = nums.map c.regs ∧ (readRegs nums c).2.regs = c.regs := by
  induction nums generalizing c with
  | nil => exact ⟨rfl, rfl⟩
  | cons n nums ih =>
    obtain ⟨hn, hread⟩ := hfield n (List.mem_cons_self ..)
    obtain ⟨hvalues, hregs⟩ := ih (fun n' hn' => hfield n' (List.mem_cons_of_mem _ hn'))
      ⟨c.regs, c.regs n, c.touches ++ [.dcrsr n, .dcrdrRead]⟩
    unfold readRegs
    rw [read_transfer hn hread]
    dsimp only
    rw [hvalues, hregs, List.map_cons]
    exact ⟨rfl, rfl⟩

theorem cortexmRegsRead_values (t : RegisterTarget) :
    (cortexmRegsRead t).1 = t.regnums.map t.core.regs :=
  (readRegs_eq (fun _ hn => ⟨(regnums_field t hn).1, (regnums_field t hn).2.1⟩) t.core).1

/-- The loop of the write leaves the registers that are none of its numbers. -/
theorem writeRegs_other {nums : List UInt32}
    (hfield : ∀ n ∈ nums, (dcrsrRegWnR ||| n) &&& 0x7F = n ∧
      (dcrsrRegWnR ||| n) &&& dcrsrRegWnR ≠ 0) (words : List UInt32) (c : RegisterCore)
    {k : UInt32} (hk : k ∉ nums) : (writeRegs nums words c).regs k = c.regs k := by
  induction nums generalizing words c with
  | nil => cases words <;> rfl
  | cons n nums ih =>
    cases words with
    | nil => rfl
    | cons w words =>
      obtain ⟨hn, hwrite⟩ := hfield n (List.mem_cons_self ..)
      unfold writeRegs
      rw [write_transfer w hn hwrite, ih (fun n' hn' => hfield n' (List.mem_cons_of_mem _ hn'))
        words _ (fun hmem => hk (List.mem_cons_of_mem _ hmem))]
      have hne : k ≠ n := by
        rintro rfl
        exact hk (List.mem_cons_self ..)
      exact Function.update_of_ne hne ..

/-- It writes each of them. -/
theorem writeRegs_get {nums : List UInt32} (hnodup : nums.Nodup)
    (hfield : ∀ n ∈ nums, (dcrsrRegWnR ||| n) &&& 0x7F = n ∧
      (dcrsrRegWnR ||| n) &&& dcrsrRegWnR ≠ 0) (words : List UInt32) (c : RegisterCore)
    {k : Nat} {n w : UInt32} (hn : nums[k]? = some n) (hw : words[k]? = some w) :
    (writeRegs nums words c).regs n = w := by
  induction nums generalizing words c k with
  | nil => simp at hn
  | cons m nums ih =>
    obtain ⟨hmem, hnodup⟩ := List.nodup_cons.mp hnodup
    have htail := fun n' hn' => hfield n' (List.mem_cons_of_mem m hn')
    cases words with
    | nil => simp at hw
    | cons v words =>
      obtain ⟨hm, hwrite⟩ := hfield m (List.mem_cons_self ..)
      unfold writeRegs
      rw [write_transfer v hm hwrite]
      cases k with
      | zero =>
        obtain rfl : m = n := Option.some.inj hn
        obtain rfl : v = w := Option.some.inj hw
        rw [writeRegs_other htail words _ hmem]
        exact Function.update_self ..
      | succ k => exact ih hnodup htail words _ hn hw

/-! ## Single registers -/

section
variable {t : RegisterTarget} {reg num : UInt32} {max : Nat} {data : List UInt8}

theorem cortexmRegRead_eq (hmax : 4 ≤ max) (hnum : dcrsrRegnum t reg = some num) :
    cortexmRegRead t reg max = some (4, wordBytes (t.core.writeDcrsr num).readDcrdr.1,
      { t with core := (t.core.writeDcrsr num).readDcrdr.2 }) := by
  unfold cortexmRegRead
  rw [if_neg (by omega), hnum]
  rfl

theorem cortexmRegRead_none (hmax : 4 ≤ max) (hnum : dcrsrRegnum t reg = none) :
    cortexmRegRead t reg max = none := by
  unfold cortexmRegRead
  rw [if_neg (by omega), hnum]
  rfl

theorem cortexmRegWrite_short (hdata : data.length < 4) :
    cortexmRegWrite t reg data = some (-1, t) := by
  unfold cortexmRegWrite
  rw [if_pos hdata]
  rfl

theorem cortexmRegWrite_eq (hdata : 4 ≤ data.length) (hnum : dcrsrRegnum t reg = some num) :
    cortexmRegWrite t reg data = some (4, { t with
      core := (t.core.writeDcrdr (wordOf data)).writeDcrsr (dcrsrRegWnR ||| num) }) := by
  unfold cortexmRegWrite
  rw [if_neg (by omega), hnum]
  rfl

theorem cortexmRegWrite_none (hdata : 4 ≤ data.length) (hnum : dcrsrRegnum t reg = none) :
    cortexmRegWrite t reg data = none := by
  unfold cortexmRegWrite
  rw [if_neg (by omega), hnum]
  rfl

end

end MiyakoLink.CortexM
