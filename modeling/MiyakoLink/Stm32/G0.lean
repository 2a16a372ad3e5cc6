import MiyakoLink.Stm32.PageErase

/-!
# The page erase of the STM32G0 parts

The banks of the dual-bank parts are one region. `stm32g0_flash_erase` counts the pages up, and
goes on with the first number of the second bank when it leaves the first one, which it also takes
for the first page of a range of the second bank.

* `erasesOnce_iff`: when the commands are those for the pages of the range.
-/

namespace MiyakoLink.Stm32

open Flash Lib Erase

/-! ## The regions -/

/-- `enum STM32G0_DEV_ID`. -/
inductive G0Id where
  | g03_4 | g05_6 | g07_8 | g0B_C
  deriving DecidableEq

structure G0Flash where
  idcode : G0Id
  start : UInt32
  length : UInt32
  blocksize : UInt32

abbrev g0FlashStart : UInt32 := 0x08000000

abbrev flashPageSize : UInt32 := 0x800

abbrev flashOtpStart : UInt32 := 0x1FFF7000

/-- The size of the flash, by the flash size in KiB that is read from the part. -/
def g0FlashSize (idcode : G0Id) (size : UInt16) : UInt32 :=
  match idcode with
  | .g03_4 => 64 * 1024
  | .g05_6 => 64 * 1024
  | .g07_8 => 128 * 1024
  | .g0B_C => size.toUInt32 * 1024

def mainFlash (idcode : G0Id) (size : UInt16) : G0Flash :=
  ⟨idcode, g0FlashStart, g0FlashSize idcode size, flashPageSize⟩

/-- The regions that `stm32g0_probe` adds: the flash with its banks, and the OTP area. -/
def stm32g0Probe (idcode : G0Id) (size : UInt16) : List G0Flash :=
  [mainFlash idcode size, ⟨idcode, flashOtpStart, 0x400, 8⟩]

/-! ## The erase function -/

/-- What the flash controller answers: `FLASH_SR` and `target_check_error` in the `i`th turn of
the first poll, `FLASH_SR` when it is cleared, the same in the `i`th turn behind the `k`th page,
`FLASH_SR` and `FLASH_CR` at the end. -/
structure G0Controller where
  firstSr : Nat → UInt32
  firstFault : Nat → Bool
  clearedSr : UInt32
  sr : Nat → Nat → UInt32
  fault : Nat → Nat → Bool
  lastSr : UInt32
  lastCr : UInt32

abbrev g0Bker : UInt32 := 0x2000

/-- `FLASH_SR_BSY_MASK`. -/
abbrev srBsyMask : UInt32 := 0x30000

/-- `FLASH_SR_ERROR_MASK`. -/
abbrev srErrorMask : UInt32 := 0xC3FA

abbrev srEop : UInt32 := 1

/-- `FLASH_BANK2_START_PAGE_NB`. -/
abbrev bank2StartPageNb : UInt16 := 256

/-- The loop: the number of the command, `page_nb` and `on_bank2`. -/
structure G0State where
  command : Nat
  pageNb : UInt16
  onBank2 : Bool

/-- `bank1_end_page_nb`. -/
def G0Flash.bank1EndPageNb (f : G0Flash) : UInt16 :=
  if f.idcode = .g0B_C then ((f.length / 2 - 1) / f.blocksize).toUInt16 else bank2StartPageNb - 1

namespace G0Controller

variable (C : G0Controller) (f : G0Flash)

/-- The jump on bank 2. -/
def jump (s : G0State) : G0State :=
  if !s.onBank2 && s.pageNb > f.bank1EndPageNb then ⟨s.command, bank2StartPageNb, true⟩ else s

def flashCr (s : G0State) : UInt32 :=
  s.pageNb.toUInt32 <<< 3 ||| crPer ||| if s.onBank2 then g0Bker else 0

/-- The body of the loop. -/
def erasePage (fuel : Nat) (s : G0State) : List FlashWrite × Option Bool :=
  ([.cr (flashCr (jump f s)), .cr (flashCr (jump f s) ||| crStrt)],
    poll (busyTurn srBsyMask (C.sr s.command) (C.fault s.command)) fuel)

def nextPage (s : G0State) : G0State :=
  ⟨(jump f s).command + 1, (jump f s).pageNb + 1, (jump f s).onBank2⟩

/-- `exit_cleanup`. -/
def cleanup : List FlashWrite := [.sr srEop, .cr (C.lastCr ||| crLock)]

/-- `stm32g0_flash_erase`: the writes, and the result if it has come back. -/
def flashErase (fuel : Nat) (addr len : UInt32) : List FlashWrite × Option Ret :=
  if addr + len - 1 > f.start + f.length - 1 then (C.cleanup, some (-1))
  else if len = 0 then (C.cleanup, some 0)
  else
    match poll (busyTurn srBsyMask C.firstSr C.firstFault) fuel with
    | none => ([], none)
    | some false => (C.cleanup, some (-1))
    | some true =>
      if addr ≥ flashOtpStart then (.sr C.clearedSr :: C.cleanup, some 0)
      else
        let nbPagesToErase := ((len - 1) / f.blocksize).toUInt16 + 1
        let pageNb := ((addr - f.start) / f.blocksize).toUInt16
        let s := sweepDo counting (nextPage f) (C.erasePage f fuel) fuel nbPagesToErase.toUInt32
          ⟨0, pageNb, false⟩
        ([.sr C.clearedSr, .keyr 0x45670123, .keyr 0xCDEF89AB] ++ s.1 ++
            if s.2.isSome then C.cleanup else [],
          s.2.map fun (ok : Bool) => if ok ∧ C.lastSr &&& srErrorMask = 0 then 0 else -1)

/-- The commands that are started. -/
def commands (fuel : Nat) (addr len : UInt32) : List UInt32 :=
  (C.flashErase f fuel addr len).1.filterMap FlashWrite.started

end G0Controller

/-! ## What is to be erased -/

namespace G0Flash

variable (f : G0Flash)

/-- The pages that begin in the first bank. -/
def bank1Pages : Nat :=
  if f.idcode = .g0B_C then (f.length.toNat / 2 + f.blocksize.toNat - 1) / f.blocksize.toNat
  else f.length.toNat / f.blocksize.toNat

/-- The bank and the number of the `k`th page: those of the second bank begin with 256. -/
def page (k : Nat) : Bool × Nat :=
  if k < f.bank1Pages then (false, k) else (true, 256 + (k - f.bank1Pages))

end G0Flash

/-- The erase function ends if the controller does not stay busy, and a result of 0 says that there
has been the one command for each page of the range, and no other one. -/
structure ErasesOnce (f : G0Flash) (C : G0Controller) (r : Span f.start f.length f.blocksize) :
    Prop where
  ends : (∃ ok, Leaves (busyTurn srBsyMask C.firstSr C.firstFault) ok) →
    (∀ k < r.count, ∃ ok, Leaves (busyTurn srBsyMask (C.sr k) (C.fault k)) ok) →
    ∃ fuel, (C.flashErase f fuel r.addr r.len).2 ≠ none
  once : ∀ fuel ret, (C.flashErase f fuel r.addr r.len).2 = some ret → ret ≠ 0 ∨
    (C.commands f fuel r.addr r.len).map PageField.bits10.target =
      (List.range r.count).map fun j => some (f.page (r.first + j))

/-! ## The pages of a range -/

/-- The parts with one bank. -/
theorem g0FlashSize_single {idcode : G0Id} (size : UInt16) (h : idcode ≠ .g0B_C) :
    (g0FlashSize idcode size).toNat ≤ 128 * 1024 := by
  cases idcode with
  | g03_4 => exact of_decide_eq_true rfl
  | g05_6 => exact of_decide_eq_true rfl
  | g07_8 => exact of_decide_eq_true rfl
  | g0B_C => exact absurd rfl h

theorem g0FlashSize_lt (idcode : G0Id) (size : UInt16) :
    (g0FlashSize idcode size).toNat < 2 ^ 26 := by
  by_cases h : idcode = .g0B_C
  · have hsize := size.toNat_lt
    rw [h]
    show (size.toUInt32 * 1024).toNat < 2 ^ 26
    rw [UInt32.toNat_mul, UInt16.toNat_toUInt32]
    show size.toNat * 1024 % 2 ^ 32 < 2 ^ 26
    omega
  · exact Nat.lt_of_le_of_lt (g0FlashSize_single size h) (by decide)

/-- What is known about a range of the flash. -/
structure WithinBanks (f : G0Flash) (r : Span f.start f.length f.blocksize) : Prop where
  size : f.blocksize.toNat = 0x800
  start : f.start.toNat = 0x08000000
  length : f.length.toNat < 2 ^ 26
  len : r.count * 0x800 = r.len.toNat
  few : r.first + r.count ≤ 2 ^ 15
  /-- The last page of the first bank, or there is but one bank. -/
  banks : f.bank1EndPageNb.toNat + 1 = f.bank1Pages ∨
    r.first + r.count ≤ f.bank1Pages ∧ r.first + r.count ≤ f.bank1EndPageNb.toNat + 1

theorem withinBanks (idcode : G0Id) (size : UInt16)
    (r : Span (mainFlash idcode size).start (mainFlash idcode size).length
      (mainFlash idcode size).blocksize)
    (hlen : (mainFlash idcode size).blocksize.toNat ∣ r.len.toNat) :
    WithinBanks (mainFlash idcode size) r := by
  have hsize : (mainFlash idcode size).blocksize.toNat = 0x800 := rfl
  have hstart : (mainFlash idcode size).start.toNat = 0x08000000 := rfl
  have hlength : (mainFlash idcode size).length.toNat < 2 ^ 26 := g0FlashSize_lt idcode size
  have hcount := r.count_mul_of_dvd (show 0 < 0x800 by decide) hlen
  have haddr := r.addr_eq
  have hhigh := r.high
  have hpos := r.pos
  rw [hsize] at hcount haddr
  refine ⟨hsize, hstart, hlength, hcount, by omega, ?_⟩
  by_cases hdual : idcode = .g0B_C
  · -- Two banks.
    have hend : (mainFlash idcode size).bank1EndPageNb =
        (((mainFlash idcode size).length / 2 - 1) / (mainFlash idcode size).blocksize).toUInt16 :=
      if_pos hdual
    have hpages : (mainFlash idcode size).bank1Pages =
        ((mainFlash idcode size).length.toNat / 2 + 0x800 - 1) / 0x800 := if_pos hdual
    have hhalf : ((mainFlash idcode size).length / 2).toNat =
        (mainFlash idcode size).length.toNat / 2 := UInt32.toNat_div _ _
    have hone : ((mainFlash idcode size).length / 2 - 1).toNat =
        (mainFlash idcode size).length.toNat / 2 - 1 := by
      rw [sub_toNat_of_le (by rw [hhalf]; show 1 ≤ _; omega), hhalf]
      rfl
    refine Or.inl ?_
    rw [hend, hpages, UInt32.toNat_toUInt16, UInt32.toNat_div, hone, hsize]
    omega
  · refine Or.inr ?_
    have hend : (mainFlash idcode size).bank1EndPageNb = bank2StartPageNb - 1 := if_neg hdual
    have hpages : (mainFlash idcode size).bank1Pages =
        (mainFlash idcode size).length.toNat / 0x800 := if_neg hdual
    have hsmall : (mainFlash idcode size).length.toNat ≤ 128 * 1024 :=
      g0FlashSize_single size hdual
    have hlast : (bank2StartPageNb - 1).toNat = 255 := rfl
    rw [hend, hpages, hlast]
    omega

section

variable {C : G0Controller} {f : G0Flash} {r : Span f.start f.length f.blocksize} {fuel : Nat}

/-- The bank and the number that the loop has for the `j`th page of a range. -/
def issued (r : Span f.start f.length f.blocksize) (j : Nat) : Bool × Nat :=
  if r.first + j < f.bank1Pages then (false, r.first + j)
  else (true, 256 + (j - (f.bank1Pages - r.first)))

/-- The begin of the loop. -/
def loopStart (r : Span f.start f.length f.blocksize) : G0State :=
  ⟨0, UInt16.ofNat r.first, false⟩

theorem jump_bank1 (hw : WithinBanks f r) {c k : Nat} (hk : k < r.first + r.count) :
    G0Controller.jump f ⟨c, UInt16.ofNat k, false⟩ =
      if k < f.bank1Pages then ⟨c, UInt16.ofNat k, false⟩ else ⟨c, 256, true⟩ := by
  have hfew := hw.few
  have hnat : (UInt16.ofNat k).toNat = k :=
    UInt16.toNat_ofNat_of_lt' (show k < 2 ^ 16 by omega)
  have hiff : UInt16.ofNat k > f.bank1EndPageNb ↔ ¬ k < f.bank1Pages := by
    rw [gt_iff_lt, UInt16.lt_iff_toNat_lt, hnat]
    rcases hw.banks with heq | ⟨hpages, hend⟩
    · omega
    · omega
  unfold G0Controller.jump
  by_cases h : k < f.bank1Pages
  · rw [if_pos h]
    apply if_neg
    intro hand
    rw [Bool.and_eq_true, decide_eq_true_eq] at hand
    exact hiff.mp hand.2 h
  · rw [if_neg h]
    apply if_pos
    rw [Bool.and_eq_true, decide_eq_true_eq]
    exact ⟨rfl, hiff.mpr h⟩

/-- The state behind the jump, in front of the `j`th page. -/
theorem jump_iterate (hw : WithinBanks f r) {j : Nat} (hj : j < r.count) :
    G0Controller.jump f ((G0Controller.nextPage f)^[j] (loopStart r)) =
      ⟨j, UInt16.ofNat (issued r j).2, (issued r j).1⟩ := by
  unfold issued
  induction j with
  | zero =>
    show G0Controller.jump f ⟨0, UInt16.ofNat r.first, false⟩ = _
    rw [jump_bank1 hw (by omega), Nat.add_zero, Nat.zero_sub]
    split
    · rfl
    · rfl
  | succ j ih =>
    rw [Function.iterate_succ_apply', G0Controller.nextPage, ih (by omega)]
    by_cases hlow : r.first + j < f.bank1Pages
    · rw [if_pos hlow]
      show G0Controller.jump f ⟨j + 1, UInt16.ofNat (r.first + j) + 1, false⟩ = _
      rw [show UInt16.ofNat (r.first + j) + 1 = UInt16.ofNat (r.first + j + 1) from
        (UInt16.ofNat_add _ _).symm, jump_bank1 hw (by omega), Nat.add_assoc]
      split
      · rfl
      · next hhigh =>
        have hzero : j + 1 - (f.bank1Pages - r.first) = 0 := by omega
        rw [hzero]
        rfl
    · rw [if_neg hlow, if_neg (by omega)]
      show (⟨j + 1, UInt16.ofNat (256 + (j - (f.bank1Pages - r.first))) + 1, true⟩ : G0State) = _
      have hsucc : 256 + (j + 1 - (f.bank1Pages - r.first)) =
          256 + (j - (f.bank1Pages - r.first)) + 1 := by
        omega
      rw [hsucc, UInt16.ofNat_add (_ + _) 1]
      rfl

theorem issued_lt (hw : WithinBanks f r) {j : Nat} (hj : j < r.count) :
    (issued r j).2 < 2 ^ 16 := by
  have hfew := hw.few
  unfold issued
  split
  · show r.first + j < 2 ^ 16
    omega
  · show 256 + (j - (f.bank1Pages - r.first)) < 2 ^ 16
    omega

theorem erasePage_issued (hw : WithinBanks f r) {j : Nat} (hj : j < r.count) :
    (C.erasePage f fuel ((G0Controller.nextPage f)^[j] (loopStart r))).1.filterMap
      FlashWrite.started = startedBy .bits10 (issued r j).1 (issued r j).2 := by
  have hcr : G0Controller.flashCr (G0Controller.jump f
      ((G0Controller.nextPage f)^[j] (loopStart r))) =
      PageField.bits10.pageFields (issued r j).1 (UInt32.ofNat (issued r j).2) := by
    have hpage : (UInt16.ofNat (issued r j).2).toUInt32 = UInt32.ofNat (issued r j).2 := by
      have hlt := issued_lt hw hj
      rw [← UInt32.toNat_inj, UInt16.toNat_toUInt32, UInt16.toNat_ofNat_of_lt' hlt,
        UInt32.toNat_ofNat_of_lt' (show (issued r j).2 < 2 ^ 32 by omega)]
    rw [jump_iterate hw hj, G0Controller.flashCr, PageField.pageFields, hpage]
    dsimp only
    rw [UInt32.or_comm (UInt32.ofNat (issued r j).2 <<< 3) crPer]
    rfl
  unfold G0Controller.erasePage startedBy PageField.pageCommand
  dsimp only
  rw [hcr]

theorem logs_issued (hw : WithinBanks f r) {n : Nat} (hn : n ≤ r.count) :
    (logs (G0Controller.nextPage f) (C.erasePage f fuel) (loopStart r) n).filterMap
      FlashWrite.started =
        (List.range n).flatMap fun j => startedBy .bits10 (issued r j).1 (issued r j).2 := by
  unfold logs
  induction n with
  | zero => rfl
  | succ n ih =>
    rw [List.range_succ, List.flatMap_append, List.flatMap_append, List.filterMap_append,
      ih (Nat.le_of_succ_le hn), List.flatMap_singleton, List.flatMap_singleton,
      erasePage_issued hw hn]

/-- A page gets the one command that it should if its number fits into the field and the loop has
the same number for it. -/
theorem issued_iff (hw : WithinBanks f r) {j : Nat} (hj : j < r.count) :
    (startedBy .bits10 (issued r j).1 (issued r j).2).map PageField.bits10.target =
        [some (f.page (r.first + j))] ↔
      issued r j = f.page (r.first + j) ∧ (f.page (r.first + j)).2 < 1024 := by
  have hlt := issued_lt hw hj
  have hbank : (issued r j).1 = (f.page (r.first + j)).1 := by
    unfold issued G0Flash.page
    split
    · rfl
    · rfl
  have hle : (issued r j).2 ≤ (f.page (r.first + j)).2 := by
    unfold issued G0Flash.page
    split
    · exact Nat.le_refl _
    · dsimp only
      omega
  by_cases hfits : (issued r j).2 < 1024
  · rw [startedBy_fits .bits10 hfits, List.singleton_inj, Option.some_inj]
    constructor
    · intro h
      rw [← h]
      exact ⟨rfl, hfits⟩
    · rintro ⟨h, -⟩
      exact h
  · refine iff_of_false (fun h => ?_) fun h => ?_
    · by_cases hspills : (issued r j).2 < 2048
      · rw [startedBy_spills .bits10 (Nat.not_lt.mp hfits) hspills, List.singleton_inj,
          Option.some_inj] at h
        have hnumber := congrArg Prod.snd h
        have hwidth : (2 : Nat) ^ PageField.bits10.width = 1024 := rfl
        dsimp only at hnumber
        omega
      · exact startedBy_large .bits10 (Nat.not_lt.mp hspills) hlt _ h
    · omega

theorem targets_iff (hw : WithinBanks f r) :
    ((List.range r.count).flatMap fun j =>
        startedBy .bits10 (issued r j).1 (issued r j).2).map PageField.bits10.target =
        (List.range r.count).map (fun j => some (f.page (r.first + j))) ↔
      r.first ≤ f.bank1Pages ∧ ∀ j < r.count, (f.page (r.first + j)).2 < 1024 := by
  have hne : ∀ j < r.count, (startedBy .bits10 (issued r j).1 (issued r j).2).map
      PageField.bits10.target ≠ [] := fun j hj h =>
    startedBy_ne_nil (issued_lt hw hj) (List.map_eq_nil_iff.mp h)
  have hcount := r.count_pos (by rw [hw.size]; decide)
  rw [List.map_flatMap, flatMap_eq_map_iff hne]
  constructor
  · intro h
    refine ⟨?_, fun j hj => ((issued_iff hw hj).mp (h j hj)).2⟩
    -- The first page tells whether the loop jumps to the right number.
    have hzero := ((issued_iff hw hcount).mp (h 0 hcount)).1
    unfold issued G0Flash.page at hzero
    rw [Nat.add_zero] at hzero
    by_contra hlt
    rw [if_neg (by omega), if_neg (by omega)] at hzero
    have hnumber := congrArg Prod.snd hzero
    dsimp only at hnumber
    omega
  · rintro ⟨hfirst, hfits⟩ j hj
    refine (issued_iff hw hj).mpr ⟨?_, hfits j hj⟩
    unfold issued G0Flash.page
    split
    · rfl
    · have hjump : j - (f.bank1Pages - r.first) = r.first + j - f.bank1Pages := by omega
      rw [hjump]

/-! ## Runs -/

/-- The sweep of a run. -/
abbrev g0Swept (C : G0Controller) (f : G0Flash) (r : Span f.start f.length f.blocksize)
    (fuel : Nat) : List FlashWrite × Option Bool :=
  sweep counting (G0Controller.nextPage f) (C.erasePage f fuel) (fuel + 1) (UInt32.ofNat r.count)
    (loopStart r)

theorem count_toNat (hw : WithinBanks f r) : (UInt32.ofNat r.count).toNat = r.count := by
  have hfew := hw.few
  exact UInt32.toNat_ofNat_of_lt' (show r.count < 2 ^ 32 by omega)

theorem counting_live (hw : WithinBanks f r) {j : Nat} (hj : j ≤ r.count) :
    counting^[j] (UInt32.ofNat r.count) ≠ 0 ↔ j < r.count := by
  have hfew := hw.few
  have hnat := count_toNat hw
  rw [← UInt32.toNat_inj.ne, counting_iterate (by omega) (by omega), hnat, UInt32.toNat_zero]
  omega

/-- The run, by what its first poll and its sweep come to. -/
theorem flashErase_eq (hw : WithinBanks f r) : C.flashErase f fuel r.addr r.len =
    match poll (busyTurn srBsyMask C.firstSr C.firstFault) fuel with
    | none => ([], none)
    | some false => (C.cleanup, some (-1))
    | some true =>
      ([.sr C.clearedSr, .keyr 0x45670123, .keyr 0xCDEF89AB] ++ (g0Swept C f r fuel).1 ++
          if (g0Swept C f r fuel).2.isSome then C.cleanup else [],
        (g0Swept C f r fuel).2.map fun (ok : Bool) =>
          if ok ∧ C.lastSr &&& srErrorMask = 0 then 0 else -1) := by
  have hfew := hw.few
  have hhigh := r.high
  have hpos := r.pos
  have hlow := r.low
  have hstart := hw.start
  have hlength := hw.length
  have hlen := hw.len
  have haddr := r.addr_eq
  rw [hw.size] at haddr
  have hend : ¬ r.addr + r.len - 1 > f.start + f.length - 1 := by
    have hsum : (r.addr + r.len - 1).toNat = r.addr.toNat + r.len.toNat - 1 := by
      rw [sub_toNat_of_le (by rw [UInt32.toNat_add]; show 1 ≤ _; omega), UInt32.toNat_add]
      show (r.addr.toNat + r.len.toNat) % 2 ^ 32 - 1 = _
      omega
    have hlast : (f.start + f.length - 1).toNat = f.start.toNat + f.length.toNat - 1 := by
      rw [sub_toNat_of_le (by rw [UInt32.toNat_add]; show 1 ≤ _; omega), UInt32.toNat_add]
      show (f.start.toNat + f.length.toNat) % 2 ^ 32 - 1 = _
      omega
    rw [gt_iff_lt, UInt32.lt_iff_toNat_lt, hsum, hlast]
    omega
  have hne : r.len ≠ 0 := ne_zero_of_toNat (by omega)
  have hotp : ¬ r.addr ≥ flashOtpStart := by
    rw [ge_iff_le, UInt32.le_iff_toNat_le]
    show ¬ 0x1FFF7000 ≤ r.addr.toNat
    omega
  have hpage : ((r.addr - f.start) / f.blocksize).toUInt16 = UInt16.ofNat r.first := by
    rw [← UInt16.toNat_inj, UInt32.toNat_toUInt16, UInt32.toNat_div, sub_toNat_of_le r.low,
      UInt16.toNat_ofNat']
    rfl
  have hcount : (((r.len - 1) / f.blocksize).toUInt16 + 1).toUInt32 = UInt32.ofNat r.count := by
    rw [← UInt32.toNat_inj, count_toNat hw, UInt16.toNat_toUInt32, UInt16.toNat_add,
      UInt32.toNat_toUInt16, UInt32.toNat_div, sub_toNat_of_le (show (1 : UInt32).toNat ≤ _ by
        show 1 ≤ r.len.toNat; omega), hw.size, ← hlen]
    show ((r.count * 0x800 - 1) / 0x800 % 2 ^ 16 + 1) % 2 ^ 16 = r.count
    omega
  have hlive : UInt32.ofNat r.count ≠ 0 := (counting_live hw (Nat.zero_le _)).mpr
    (r.count_pos (by rw [hw.size]; decide))
  unfold G0Controller.flashErase
  rw [if_neg hend, if_neg hne]
  cases poll (busyTurn srBsyMask C.firstSr C.firstFault) fuel with
  | none => rfl
  | some ok =>
    cases ok with
    | false => rfl
    | true =>
      dsimp only
      rw [if_neg hotp, hpage, hcount, sweepDo_eq hlive]
      rfl

theorem cleanup_started (C : G0Controller) : C.cleanup.filterMap FlashWrite.started = [] := by
  have hlock : (C.lastCr ||| crLock) &&& crLock ≠ 0 := by
    intro hzero
    have hbit := congrArg (fun x => x.toNat.testBit 31) hzero
    simp only [UInt32.toNat_and, UInt32.toNat_or, Nat.testBit_and, Nat.testBit_or] at hbit
    exact absurd hbit (by rw [show crLock.toNat.testBit 31 = true by decide]; simp)
  have hnone : FlashWrite.started (.cr (C.lastCr ||| crLock)) = none :=
    if_neg fun h => hlock h.2
  unfold G0Controller.cleanup
  rw [List.filterMap_cons_none rfl, List.filterMap_cons_none hnone, List.filterMap_nil]

/-- A result of 0 says that the sweep has come to its end. -/
theorem commands_of_zero (hw : WithinBanks f r)
    (hzero : (C.flashErase f fuel r.addr r.len).2 = some 0) :
    C.commands f fuel r.addr r.len =
      (List.range r.count).flatMap fun j => startedBy .bits10 (issued r j).1 (issued r j).2 := by
  unfold G0Controller.commands
  rw [flashErase_eq hw] at hzero ⊢
  cases hpoll : poll (busyTurn srBsyMask C.firstSr C.firstFault) fuel with
  | none =>
    rw [hpoll] at hzero
    contradiction
  | some ok =>
    rw [hpoll] at hzero
    cases ok with
    | false => exact absurd (Option.some.inj hzero) (by decide)
    | true =>
      dsimp only at hzero ⊢
      obtain ⟨ok, hok, hret⟩ := Option.map_eq_some_iff.mp hzero
      cases ok with
      | false =>
        rw [if_neg fun h => Bool.false_ne_true h.1] at hret
        exact absurd hret (by decide)
      | true =>
        obtain ⟨n, hp, hend, hlog⟩ := sweep_done hok
        have hn : n = r.count := by
          by_contra hne
          by_cases hlt : n < r.count
          · exact (counting_live hw (Nat.le_of_lt hlt)).mpr hlt hend
          · have hlive := hp.live r.count (by omega)
            exact Nat.lt_irrefl _ ((counting_live hw (Nat.le_refl _)).mp hlive)
        rw [hok, hlog, hn, Option.isSome_some, if_pos rfl, List.filterMap_append,
          List.filterMap_append, cleanup_started, logs_issued hw (Nat.le_refl _), List.append_nil]
        rfl

theorem g0FlashErase_ends (hw : WithinBanks f r)
    (hfirst : ∃ ok, Leaves (busyTurn srBsyMask C.firstSr C.firstFault) ok)
    (hall : ∀ k < r.count, ∃ ok, Leaves (busyTurn srBsyMask (C.sr k) (C.fault k)) ok) :
    ∃ fuel, (C.flashErase f fuel r.addr r.len).2 ≠ none := by
  obtain ⟨ok, hok⟩ := hfirst
  obtain ⟨m, hm⟩ := hok.poll
  obtain ⟨m', hm'⟩ := polls_leave hall
  obtain ⟨fuel, hfuel⟩ : ∃ fuel, fuel = max (max m m') r.count := ⟨_, rfl⟩
  refine ⟨fuel, ?_⟩
  rw [flashErase_eq hw, hm fuel (by omega)]
  cases ok with
  | false => exact Option.some_ne_none _
  | true =>
    have hsweep : (g0Swept C f r fuel).2 ≠ none := by
      rcases sweep_cases counting (G0Controller.nextPage f) (C.erasePage f fuel) (fuel + 1)
        (UInt32.ofNat r.count) (loopStart r) with
        ⟨n, hn, hp, hlive, hend⟩ | ⟨n, hn, hp, hzero⟩ | hp
      · have hlt : n < r.count := by
          by_contra hge
          rcases Nat.lt_or_eq_of_le (Nat.not_lt.mp hge) with hgt | heq
          · exact Nat.lt_irrefl _ ((counting_live hw (Nat.le_refl _)).mp (hp.live r.count hgt))
          · rw [← heq] at hlive
            exact Nat.lt_irrefl _ ((counting_live hw (Nat.le_refl _)).mp hlive)
        have hcommand : ((G0Controller.nextPage f)^[n] (loopStart r)).command = n := by
          have hjump := congrArg G0State.command (jump_iterate hw hlt)
          rw [G0Controller.jump] at hjump
          split at hjump
          · exact hjump
          · exact hjump
        rw [g0Swept, sweep_stop hp hlive hend hn]
        show poll (busyTurn srBsyMask (C.sr _) (C.fault _)) fuel ≠ none
        rw [hcommand]
        exact hm' fuel (by omega) n hlt
      · rw [g0Swept, sweep_finish hp hzero hn]
        exact Option.some_ne_none _
      · have hlive := hp.live r.count (by omega)
        exact absurd ((counting_live hw (Nat.le_refl _)).mp hlive) (Nat.lt_irrefl _)
    dsimp only
    intro hnone
    exact hsweep (Option.map_eq_none_iff.mp hnone)

end

/-- A controller that is never busy. -/
def idleG0 : G0Controller where
  firstSr _ := 0
  firstFault _ := false
  clearedSr := 0
  sr _ _ := 0
  fault _ _ := false
  lastSr := 0
  lastCr := 0

theorem idleG0_zero {f : G0Flash} {r : Span f.start f.length f.blocksize} (hw : WithinBanks f r)
    {fuel : Nat} {ret : Ret} (h : (idleG0.flashErase f fuel r.addr r.len).2 = some ret) :
    ret = 0 := by
  rw [flashErase_eq hw] at h
  cases hpoll : poll (busyTurn srBsyMask idleG0.firstSr idleG0.firstFault) fuel with
  | none =>
    rw [hpoll] at h
    contradiction
  | some ok =>
    cases ok with
    | false => exact absurd hpoll (busyTurn_not_false _ _ (fun _ => rfl) fuel)
    | true =>
      rw [hpoll] at h
      obtain ⟨ok, hok, hret⟩ := Option.map_eq_some_iff.mp h
      cases ok with
      | false =>
        have hnot : (g0Swept idleG0 f r fuel).2 ≠ some false :=
          sweep_ne_false fun s => busyTurn_not_false _ _ (fun _ => rfl) fuel
        exact absurd hok hnot
      | true =>
        rw [← hret]
        rfl

theorem banks_of_erasesOnce {f : G0Flash} {r : Span f.start f.length f.blocksize}
    (hw : WithinBanks f r) (h : ErasesOnce f idleG0 r) :
    r.first ≤ f.bank1Pages ∧ ∀ j < r.count, (f.page (r.first + j)).2 < 1024 := by
  obtain ⟨fuel, hback⟩ := h.ends ⟨true, busyTurn_idle _ _⟩ fun _ _ => ⟨true, busyTurn_idle _ _⟩
  obtain ⟨ret, hret⟩ := Option.ne_none_iff_exists'.mp hback
  have hzero := idleG0_zero hw hret
  rw [hzero] at hret
  have honce := (h.once fuel 0 hret).resolve_left fun hne => hne rfl
  rw [commands_of_zero hw hret] at honce
  exact (targets_iff hw).mp honce

/-! ## The right pages -/

/-- The commands are right for every answer of the controller just when the range does not begin
behind the first page of the second bank, and all page numbers fit into the field. -/
theorem erasesOnce_iff (idcode : G0Id) (size : UInt16)
    (r : Span (mainFlash idcode size).start (mainFlash idcode size).length
      (mainFlash idcode size).blocksize)
    (hlen : (mainFlash idcode size).blocksize.toNat ∣ r.len.toNat) :
    (∀ C, ErasesOnce (mainFlash idcode size) C r) ↔
      r.first ≤ (mainFlash idcode size).bank1Pages ∧
        ∀ j < r.count, ((mainFlash idcode size).page (r.first + j)).2 < 1024 := by
  have hw := withinBanks idcode size r hlen
  constructor
  · intro h
    exact banks_of_erasesOnce hw (h idleG0)
  · intro h C
    constructor
    case ends => exact g0FlashErase_ends hw
    case once =>
      intro fuel ret hret
      by_cases hzero : ret = 0
      · rw [hzero] at hret
        refine Or.inr ?_
        rw [commands_of_zero hw hret]
        exact (targets_iff hw).mpr h
      · exact Or.inl hzero

/-- A page of the flash of a part with two banks of 256 KiB. -/
def g0Page (k : Nat) (hk : k < 256) :
    Span (mainFlash .g0B_C 512).start (mainFlash .g0B_C 512).length
      (mainFlash .g0B_C 512).blocksize where
  addr := UInt32.ofNat (0x08000000 + k * 2048)
  len := 2048
  pos := by decide
  low := by
    rw [UInt32.toNat_ofNat_of_lt' (show 0x08000000 + k * 2048 < 2 ^ 32 by omega)]
    exact Nat.le_add_right _ _
  high := by
    rw [UInt32.toNat_ofNat_of_lt' (show 0x08000000 + k * 2048 < 2 ^ 32 by omega)]
    show 0x08000000 + k * 2048 + 2048 ≤ 0x08000000 + 512 * 1024
    omega
  aligned := by
    rw [UInt32.toNat_ofNat_of_lt' (show 0x08000000 + k * 2048 < 2 ^ 32 by omega)]
    show (0x08000000 + k * 2048 - 0x08000000) % 2048 = 0
    omega

theorem erasesOnce_iff_first :
    (∀ C, ErasesOnce (mainFlash .g0B_C 512) C (g0Page 0 (by decide))) ↔
      (g0Page 0 (by decide)).first ≤ (mainFlash .g0B_C 512).bank1Pages ∧
        ∀ j < (g0Page 0 (by decide)).count,
          ((mainFlash .g0B_C 512).page ((g0Page 0 (by decide)).first + j)).2 < 1024 :=
  erasesOnce_iff .g0B_C 512 (g0Page 0 (by decide)) ⟨1, rfl⟩

/-- The second page of the second bank is asked for, and the first one is erased. -/
theorem bank2_page_not_erased :
    ¬ ErasesOnce (mainFlash .g0B_C 512) idleG0 (g0Page 129 (by decide)) := by
  intro h
  have hw := withinBanks .g0B_C 512 (g0Page 129 (by decide)) ⟨1, rfl⟩
  exact absurd (banks_of_erasesOnce hw h).1 (by decide)

end MiyakoLink.Stm32
