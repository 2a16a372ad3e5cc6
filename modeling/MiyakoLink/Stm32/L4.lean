import MiyakoLink.Stm32.PageErase

/-!
# The page erase of the STM32L4, G4, L5, WB and WL parts

`stm32l4_attach` registers one region for each bank, or one for the whole flash, and
`stm32l4_flash_erase` puts the number of a page to `FLASH_CR`, counted from the start of the
flash, with the bank bit for addresses of the second bank. The number has 8 bits there, and the
bank bit is the one behind them.

* `erasesPages_iff`: when the commands are those for the pages of the range.
-/

namespace MiyakoLink.Stm32

open Flash Lib Erase

/-! ## The regions -/

inductive L4Family where
  | l4xx | l4Rx | wbxx | g4xx | l55x | wlxx
  deriving DecidableEq

/-- `struct stm32l4_info`: what `stm32l4_attach` looks at for the flash. -/
structure L4Info where
  idcode : UInt32
  family : L4Family
  dualBank : Bool
  deriving DecidableEq

abbrev idStm32g43 : UInt32 := 0x468

abbrev idStm32g49 : UInt32 := 0x479

/-- `L4info`. -/
def l4Info : List L4Info :=
  [⟨0x464, .l4xx, false⟩, ⟨0x435, .l4xx, false⟩, ⟨0x462, .l4xx, false⟩, ⟨0x415, .l4xx, true⟩,
    ⟨0x461, .l4xx, true⟩, ⟨0x470, .l4Rx, true⟩, ⟨0x468, .g4xx, false⟩, ⟨0x469, .g4xx, false⟩,
    ⟨0x479, .g4xx, false⟩, ⟨0x472, .l55x, false⟩, ⟨0x497, .wlxx, false⟩, ⟨0x495, .wbxx, false⟩]

/-- `struct stm32l4_flash`. -/
structure L4Flash where
  start : UInt32
  length : UInt32
  blocksize : UInt32
  bank1Start : UInt32
  deriving DecidableEq

abbrev flashStart : UInt32 := 0x08000000

/-- `bank1_start` of a flash with a single bank. -/
abbrev noBank : UInt32 := 0xFFFFFFFF

def singleBank (length blocksize : UInt32) : List L4Flash :=
  [⟨flashStart, length, blocksize, noBank⟩]

def twoBanks (banksize blocksize : UInt32) : List L4Flash :=
  [⟨flashStart, banksize, blocksize, flashStart + banksize⟩,
    ⟨flashStart + banksize, banksize, blocksize, flashStart + banksize⟩]

abbrev orDualbank : UInt32 := 0x00200000

abbrev orDbank : UInt32 := 0x00400000

/-- The regions that `stm32l4_attach` adds, by the flash size in KiB and the option bytes. -/
def stm32l4Attach (chip : L4Info) (size : UInt16) (options : UInt32) : List L4Flash :=
  match chip.family with
  | .wbxx => singleBank (size.toUInt32 <<< 10) 0x1000
  | .l4Rx =>
    if options &&& orDbank ≠ 0 then twoBanks 0x00100000 0x1000 else singleBank 0x00200000 0x2000
  | .l55x =>
    if options &&& orDbank ≠ 0 then twoBanks 0x00040000 0x0800 else singleBank 0x00080000 0x0800
  | .g4xx =>
    if chip.idcode = idStm32g43 then singleBank (size.toUInt32 <<< 10) 0x0800
    else if chip.idcode = idStm32g49 then singleBank (512 * 1024) 0x0800
    else if options &&& orDbank ≠ 0 then twoBanks (size.toUInt32 <<< 9) 0x0800
    else singleBank (size.toUInt32 <<< 10) 0x1000
  | _ =>
    if chip.dualBank then
      if options &&& orDualbank ≠ 0 then twoBanks (size.toUInt32 <<< 9) 0x0800
      else singleBank (size.toUInt32 <<< 10) 0x0800
    else singleBank (size.toUInt32 <<< 10) 0x0800

/-- A region that `stm32l4_attach` can add. -/
def Registered (f : L4Flash) : Prop :=
  ∃ chip ∈ l4Info, ∃ size options, f ∈ stm32l4Attach chip size options

/-! ## The erase function -/

/-- What the flash controller answers: `FLASH_CR` in front of the unlock, `FLASH_SR` and
`target_check_error` in the `i`th turn of the first poll, `FLASH_SR` when it is cleared, the
same in the `i`th turn behind the `k`th page, and `FLASH_SR` at the end. -/
structure L4Controller where
  cr : UInt32
  firstSr : Nat → UInt32
  firstFault : Nat → Bool
  clearedSr : UInt32
  sr : Nat → Nat → UInt32
  fault : Nat → Nat → Bool
  lastSr : UInt32

abbrev crBker : UInt32 := 0x800

abbrev srBsy : UInt32 := 0x10000

/-- `FLASH_SR_ERROR_MASK`. -/
abbrev srErrors : UInt16 := 0xC3FA

/-- A page: the number of the command, the address, the page number. -/
structure PageState where
  command : Nat
  addr : UInt32
  page : UInt32

namespace L4Controller

variable (C : L4Controller) (f : L4Flash)

/-- `stm32l4_flash_unlock`. -/
def flashUnlock : List FlashWrite :=
  if C.cr &&& crLock ≠ 0 then [.keyr 0x45670123, .keyr 0xCDEF89AB] else []

def pageCr (s : PageState) : UInt32 :=
  crPer ||| s.page <<< 3 ||| if s.addr ≥ f.bank1Start then crBker else 0

/-- The body of the loop. -/
def erasePage (fuel : Nat) (s : PageState) : List FlashWrite × Option Bool :=
  ([.cr (pageCr f s), .cr (pageCr f s ||| crStrt)],
    poll (busyTurn srBsy (C.sr s.command) (C.fault s.command)) fuel)

def nextPage (s : PageState) : PageState := ⟨s.command + 1, s.addr + f.blocksize, s.page + 1⟩

/-- `stm32l4_flash_erase`: the writes, and the result if it has come back. -/
def flashErase (fuel : Nat) (addr len : UInt32) : List FlashWrite × Option Ret :=
  match poll (busyTurn srBsy C.firstSr C.firstFault) fuel with
  | none => (C.flashUnlock, none)
  | some false => (C.flashUnlock, some (-1))
  | some true =>
    let s := sweep (saturating f.blocksize) (nextPage f) (C.erasePage f fuel) fuel len
      ⟨0, addr, (addr - flashStart) / f.blocksize⟩
    (C.flashUnlock ++ [.sr C.clearedSr] ++ s.1,
      s.2.map fun (ok : Bool) => if ok ∧ C.lastSr.toUInt16 &&& srErrors = 0 then 0 else -1)

/-- The commands that are started. -/
def commands (fuel : Nat) (addr len : UInt32) : List UInt32 :=
  (C.flashErase f fuel addr len).1.filterMap FlashWrite.started

end L4Controller

/-! ## What is to be erased -/

namespace L4Flash

variable (f : L4Flash)

/-- The pages of a bank. -/
def pages : Nat :=
  if f.bank1Start = noBank then f.length.toNat / f.blocksize.toNat
  else (f.bank1Start.toNat - flashStart.toNat) / f.blocksize.toNat

/-- The bank and the page of an address. -/
def page (a : UInt32) : Bool × Nat :=
  if f.bank1Start ≤ a then (true, (a.toNat - f.bank1Start.toNat) / f.blocksize.toNat)
  else (false, (a.toNat - flashStart.toNat) / f.blocksize.toNat)

/-- The bank and the page that a command erases. -/
def erased (cr : UInt32) : Option (Bool × Nat) :=
  (PageField.bits8.target cr).map fun (bank, pnb) => (bank, pnb % f.pages)

end L4Flash

/-- The erase function ends if the controller does not stay busy, the commands of a run are those
for the first pages of the range, for all of them if no communication error ends it, and the
result is 0 only if `FLASH_SR` shows no error behind them. -/
structure ErasesPages (f : L4Flash) (C : L4Controller) (r : Span f.start f.length f.blocksize) :
    Prop where
  ends : (∃ ok, Leaves (busyTurn srBsy C.firstSr C.firstFault) ok) →
    (∀ k < r.count, ∃ ok, Leaves (busyTurn srBsy (C.sr k) (C.fault k)) ok) →
    ∃ fuel, (C.flashErase f fuel r.addr r.len).2 ≠ none
  only : ∀ fuel, ∃ m ≤ r.count, (C.commands f fuel r.addr r.len).map f.erased =
    (List.range m).map fun j => some (f.page (r.sector j))
  all : ∀ fuel, (C.flashErase f fuel r.addr r.len).2 ≠ none →
    (∀ i, C.firstFault i = false) → (∀ k i, C.fault k i = false) →
    (C.commands f fuel r.addr r.len).map f.erased =
      (List.range r.count).map fun j => some (f.page (r.sector j))
  honest : ∀ fuel, (C.flashErase f fuel r.addr r.len).2 = some 0 →
    (C.commands f fuel r.addr r.len).map f.erased =
      (List.range r.count).map (fun j => some (f.page (r.sector j))) ∧
    C.lastSr.toUInt16 &&& srErrors = 0

/-! ## The shape of a region -/

/-- What the regions have in common. -/
structure Shape (f : L4Flash) : Prop where
  blocksize : f.blocksize = 0x800 ∨ f.blocksize = 0x1000 ∨ f.blocksize = 0x2000
  length : f.length.toNat < 0x04000000
  bank : (f.bank1Start = noBank ∧ f.start = flashStart) ∨
    (f.bank1Start.toNat = 0x08000000 + f.length.toNat ∧
      (f.start = flashStart ∨ f.start = f.bank1Start))

theorem shape_singleBank {length blocksize : UInt32} {f : L4Flash}
    (hblock : blocksize = 0x800 ∨ blocksize = 0x1000 ∨ blocksize = 0x2000)
    (hlength : length.toNat < 0x04000000) (hf : f ∈ singleBank length blocksize) : Shape f := by
  rw [List.mem_singleton.mp hf]
  exact ⟨hblock, hlength, Or.inl ⟨rfl, rfl⟩⟩

theorem shape_twoBanks {banksize blocksize : UInt32} {f : L4Flash}
    (hblock : blocksize = 0x800 ∨ blocksize = 0x1000 ∨ blocksize = 0x2000)
    (hlength : banksize.toNat < 0x04000000) (hf : f ∈ twoBanks banksize blocksize) : Shape f := by
  have hbank : (flashStart + banksize).toNat = 0x08000000 + banksize.toNat := by
    rw [UInt32.toNat_add]
    show (0x08000000 + banksize.toNat) % 2 ^ 32 = _
    omega
  rcases List.mem_pair.mp hf with rfl | rfl
  · exact ⟨hblock, hlength, Or.inr ⟨hbank, Or.inl rfl⟩⟩
  · exact ⟨hblock, hlength, Or.inr ⟨hbank, Or.inr rfl⟩⟩

theorem kib_toNat (size : UInt16) {k : UInt32} (hk : k.toNat % 32 ≤ 10) :
    (size.toUInt32 <<< k).toNat < 0x04000000 := by
  have hsize := size.toNat_lt
  have hpow : 2 ^ (k.toNat % 32) ≤ 2 ^ 10 := Nat.pow_le_pow_right (by decide) hk
  have hmul : size.toNat * 2 ^ (k.toNat % 32) ≤ 65535 * 2 ^ 10 :=
    Nat.mul_le_mul (by omega) hpow
  rw [UInt32.toNat_shiftLeft, UInt16.toNat_toUInt32, Nat.shiftLeft_eq]
  exact Nat.lt_of_le_of_lt (Nat.mod_le _ _) (by omega)

theorem Registered.shape {f : L4Flash} (h : Registered f) : Shape f := by
  obtain ⟨chip, -, size, options, hf⟩ := h
  have hten := kib_toNat size (k := 10) (by decide)
  have hnine := kib_toNat size (k := 9) (by decide)
  unfold stm32l4Attach at hf
  split at hf
  · exact shape_singleBank (by decide) hten hf
  · split at hf
    · exact shape_twoBanks (by decide) (by decide) hf
    · exact shape_singleBank (by decide) (by decide) hf
  · split at hf
    · exact shape_twoBanks (by decide) (by decide) hf
    · exact shape_singleBank (by decide) (by decide) hf
  · split at hf
    · exact shape_singleBank (by decide) hten hf
    · split at hf
      · exact shape_singleBank (by decide) (by decide) hf
      · split at hf
        · exact shape_twoBanks (by decide) hnine hf
        · exact shape_singleBank (by decide) hten hf
  · split at hf
    · split at hf
      · exact shape_twoBanks (by decide) hnine hf
      · exact shape_singleBank (by decide) hten hf
    · exact shape_singleBank (by decide) hten hf

/-! ## Commands -/

/-- A page number gets the one command that it should if it fits into the field, or the bank bit
that it spills into is the right one. -/
theorem startedBy_iff {f : L4Flash} {upper : Bool} {p k : Nat} (hk : k < f.pages)
    (hp : p = (if upper then f.pages else 0) + k) (hlt : p < 2 ^ 16) :
    (startedBy .bits8 upper p).map f.erased = [some (upper, k)] ↔ p < 256 ∨ f.pages = 256 := by
  have hwidth : (2 : Nat) ^ PageField.bits8.width = 256 := rfl
  have herased : f.erased = (Option.map fun (x : Bool × Nat) => (x.1, x.2 % f.pages)) ∘
      PageField.bits8.target := rfl
  rw [herased, ← List.map_map]
  by_cases hfits : p < 256
  · rw [startedBy_fits .bits8 hfits]
    refine iff_of_true ?_ (Or.inl hfits)
    rw [List.map_singleton, Option.map_some]
    cases upper with
    | false =>
      rw [if_neg Bool.false_ne_true, Nat.zero_add] at hp
      rw [hp, Nat.mod_eq_of_lt hk]
    | true =>
      rw [if_pos rfl] at hp
      rw [hp, Nat.add_mod_left, Nat.mod_eq_of_lt hk]
  · by_cases hsmall : p < 512
    · rw [startedBy_spills .bits8 (by omega) hsmall, List.map_singleton, Option.map_some,
        List.singleton_inj, Option.some_inj, Prod.mk.injEq, hwidth]
      cases upper with
      | false =>
        rw [if_neg Bool.false_ne_true, Nat.zero_add] at hp
        exact iff_of_false (fun h => Bool.false_ne_true h.1.symm) (by omega)
      | true =>
        rw [if_pos rfl] at hp
        constructor
        · rintro ⟨-, h⟩
          refine Or.inr ?_
          by_contra hne
          by_cases hless : p - 256 < f.pages
          · rw [Nat.mod_eq_of_lt hless] at h
            omega
          · rw [Nat.mod_eq_sub_mod (by omega), Nat.mod_eq_of_lt (by omega)] at h
            omega
        · intro h
          have heq : p - 256 = k := by omega
          rw [heq, Nat.mod_eq_of_lt hk]
          exact ⟨rfl, rfl⟩
    · refine iff_of_false (fun h => ?_) ?_
      · obtain ⟨x, hx, hone⟩ := List.map_eq_singleton_iff.mp h
        obtain ⟨y, rfl, -⟩ := Option.map_eq_some_iff.mp hone
        exact startedBy_large .bits8 (by omega) hlt y hx
      · split at hp
        · omega
        · omega

/-! ## Runs -/

section

variable {C : L4Controller} {f : L4Flash} {fuel : Nat}

theorem nextPage_iterate (s : PageState) (j : Nat) :
    (L4Controller.nextPage f)^[j] s =
      ⟨s.command + j, s.addr + UInt32.ofNat j * f.blocksize, s.page + UInt32.ofNat j⟩ := by
  induction j with
  | zero =>
    show s = ⟨s.command + 0, s.addr + 0 * f.blocksize, s.page + 0⟩
    rw [UInt32.zero_mul, UInt32.add_zero, UInt32.add_zero]
    rfl
  | succ j ih =>
    rw [Function.iterate_succ_apply', ih, L4Controller.nextPage, UInt32.ofNat_add, UInt32.add_mul]
    show (⟨s.command + j + 1, _, _⟩ : PageState) =
      ⟨s.command + (j + 1), _ + (_ + 1 * f.blocksize), _ + (_ + 1)⟩
    rw [UInt32.one_mul, Nat.add_assoc, UInt32.add_assoc, UInt32.add_assoc]

/-- The region is the one of the second bank. -/
def L4Flash.upper (f : L4Flash) : Bool := decide (f.bank1Start ≤ f.start)

/-- The number of the first page of a range, counted from the start of the flash. -/
def pageNb (r : Span f.start f.length f.blocksize) : Nat :=
  (r.addr.toNat - flashStart.toNat) / f.blocksize.toNat

/-- What is known about a range of a region. -/
structure Within (f : L4Flash) (r : Span f.start f.length f.blocksize) : Prop where
  size : 0 < f.blocksize.toNat
  low : flashStart.toNat ≤ r.addr.toNat
  /-- The pages of the range are pages of the bank. -/
  inside : r.first + r.count ≤ f.pages
  /-- The second bank begins behind the pages of the first one. -/
  number : pageNb r = (if f.upper then f.pages else 0) + r.first
  small : pageNb r + r.count ≤ 2 ^ 16
  /-- All addresses belong to the same bank. -/
  side : ∀ j < r.count, f.bank1Start ≤ r.sector j ↔ f.upper = true
  page : ∀ j < r.count, f.page (r.sector j) = (f.upper, r.first + j)

theorem Shape.pages (hf : Shape f) : f.pages = f.length.toNat / f.blocksize.toNat := by
  unfold L4Flash.pages
  split
  · rfl
  · next hbank =>
    obtain ⟨hbank', -⟩ := hf.bank.resolve_left fun h => hbank h.1
    rw [hbank', show flashStart.toNat = 0x08000000 from rfl, Nat.add_sub_cancel_left]

theorem Shape.start (hf : Shape f) :
    (f.upper = false ∧ f.start.toNat = flashStart.toNat ∧
      0x08000000 + f.length.toNat ≤ f.bank1Start.toNat) ∨
    (f.upper = true ∧ f.bank1Start = f.start ∧ f.start.toNat = 0x08000000 + f.length.toNat) := by
  have hlength := hf.length
  have hflash : flashStart.toNat = 0x08000000 := rfl
  unfold L4Flash.upper
  rcases hf.bank with ⟨hbank, hstart⟩ | ⟨hbank, hstart | hstart⟩
  · refine Or.inl ⟨?_, congrArg UInt32.toNat hstart, ?_⟩
    · rw [hbank, hstart]
      rfl
    · rw [hbank]
      show 0x08000000 + f.length.toNat ≤ 0xFFFFFFFF
      omega
  · by_cases hzero : f.length.toNat = 0
    · have heq : f.bank1Start = f.start := by
        rw [hstart, ← UInt32.toNat_inj]
        omega
      refine Or.inr ⟨?_, heq, ?_⟩
      · rw [heq]
        exact decide_eq_true (UInt32.le_refl _)
      · rw [hstart]
        omega
    · refine Or.inl ⟨?_, congrArg UInt32.toNat hstart, Nat.le_of_eq hbank.symm⟩
      apply decide_eq_false
      rw [hstart, UInt32.le_iff_toNat_le]
      omega
  · refine Or.inr ⟨?_, hstart.symm, by rw [hstart]; exact hbank⟩
    rw [hstart]
    exact decide_eq_true (UInt32.le_refl _)

theorem Shape.within (hf : Shape f) (r : Span f.start f.length f.blocksize)
    (hlen : f.blocksize.toNat ∣ r.len.toNat) : Within f r := by
  have hlength := hf.length
  have hlarge : 0x800 ≤ f.blocksize.toNat := by
    rcases hf.blocksize with h | h | h
    · rw [h]; decide
    · rw [h]; decide
    · rw [h]; decide
  have hsize : 0 < f.blocksize.toNat := by omega
  have haddr := r.addr_eq
  have hhigh := r.high
  have hcount := r.count_mul_of_dvd hsize hlen
  have hflash : flashStart.toNat = 0x08000000 := rfl
  have hpages := hf.pages
  have hinside : r.first + r.count ≤ f.pages := by
    rw [hpages, Nat.le_div_iff_mul_le hsize, Nat.add_mul]
    omega
  have hpages_le : f.pages ≤ 2 ^ 15 := by
    rw [hpages]
    exact Nat.le_trans (Nat.div_le_div_left hlarge (by decide)) (by omega)
  have hnumber : pageNb r = (if f.upper then f.pages else 0) + r.first := by
    unfold pageNb
    rcases hf.start with ⟨hupper, hstart, -⟩ | ⟨hupper, -, hstart⟩
    · rw [hupper, if_neg Bool.false_ne_true, Nat.zero_add, Span.first, hstart]
    · have hsub : r.addr.toNat - flashStart.toNat =
          f.length.toNat + r.first * f.blocksize.toNat := by
        omega
      rw [hupper, if_pos rfl, hsub, Nat.add_mul_div_right _ _ hsize, hpages]
  have hnat {j : Nat} (hj : j < r.count) :
      (r.sector j).toNat = f.start.toNat + (r.first + j) * f.blocksize.toNat ∧
      (r.sector j).toNat < f.start.toNat + f.length.toNat := by
    have hlt := (Span.lt_count_iff (r := r) hsize).mp hj
    have hstart : f.start.toNat ≤ 0x0C000000 := by
      rcases hf.start with ⟨-, h, -⟩ | ⟨-, -, h⟩
      · omega
      · omega
    rw [Span.sector_toNat (by omega), Nat.add_mul]
    omega
  have hside : ∀ j < r.count, f.bank1Start ≤ r.sector j ↔ f.upper = true := by
    intro j hj
    obtain ⟨heq, hlt⟩ := hnat hj
    rw [UInt32.le_iff_toNat_le]
    rcases hf.start with ⟨hupper, hstart, hbank⟩ | ⟨hupper, hbank, hstart⟩
    · rw [hupper]
      exact ⟨fun h => absurd h (by omega), fun h => absurd h Bool.false_ne_true⟩
    · rw [hupper, hbank]
      exact ⟨fun _ => rfl, fun _ => by omega⟩
  have hlow : flashStart.toNat ≤ r.addr.toNat := by
    rcases hf.start with ⟨-, h, -⟩ | ⟨-, -, h⟩
    · omega
    · omega
  refine ⟨hsize, hlow, hinside, hnumber, ?_, hside, fun j hj => ?_⟩
  · rw [hnumber]
    split
    · omega
    · omega
  · obtain ⟨heq, -⟩ := hnat hj
    have hfloor : ((r.sector j).toNat - f.start.toNat) / f.blocksize.toNat = r.first + j := by
      rw [heq, Nat.add_sub_cancel_left, Nat.mul_div_cancel _ hsize]
    unfold L4Flash.page
    rcases hf.start with ⟨hupper, hstart, -⟩ | ⟨hupper, hbank, -⟩
    · rw [if_neg (by rw [hside j hj, hupper]; exact Bool.false_ne_true), ← hstart, hfloor, hupper]
    · rw [if_pos ((hside j hj).mpr hupper), hbank, hfloor, hupper]

end

section

variable {C : L4Controller} {f : L4Flash} {r : Span f.start f.length f.blocksize} {fuel : Nat}

/-- The first page of a range. -/
def firstPage (r : Span f.start f.length f.blocksize) : PageState :=
  ⟨0, r.addr, (r.addr - flashStart) / f.blocksize⟩

theorem erasePage_started (hw : Within f r) {j : Nat} (hj : j < r.count) :
    (C.erasePage f fuel ((L4Controller.nextPage f)^[j] (firstPage r))).1.filterMap
      FlashWrite.started = startedBy .bits8 f.upper (pageNb r + j) := by
  have hpage : (r.addr - flashStart) / f.blocksize = UInt32.ofNat (pageNb r) := by
    have hlt : pageNb r < 2 ^ 32 := Nat.lt_of_le_of_lt (Nat.div_le_self _ _)
      (Nat.lt_of_le_of_lt (Nat.sub_le _ _) r.addr.toNat_lt)
    rw [← UInt32.toNat_inj, UInt32.toNat_div, sub_toNat_of_le hw.low,
      UInt32.toNat_ofNat_of_lt' hlt]
    rfl
  have hcr : L4Controller.pageCr f ((L4Controller.nextPage f)^[j] (firstPage r)) =
      PageField.bits8.pageFields f.upper (UInt32.ofNat (pageNb r + j)) := by
    have hside := hw.side j hj
    rw [nextPage_iterate, firstPage, L4Controller.pageCr, PageField.pageFields, UInt32.ofNat_add,
      hpage]
    congr 1
    exact if_congr hside rfl rfl
  unfold L4Controller.erasePage startedBy PageField.pageCommand
  dsimp only
  rw [hcr]

theorem logs_started (hw : Within f r) {n : Nat} (hn : n ≤ r.count) :
    (logs (L4Controller.nextPage f) (C.erasePage f fuel) (firstPage r) n).filterMap
      FlashWrite.started = (List.range n).flatMap fun j => startedBy .bits8 f.upper (pageNb r + j) := by
  unfold logs
  induction n with
  | zero => rfl
  | succ n ih =>
    rw [List.range_succ, List.flatMap_append, List.flatMap_append, List.filterMap_append,
      ih (Nat.le_of_succ_le hn), List.flatMap_singleton, List.flatMap_singleton,
      erasePage_started hw hn]

/-- The pages that the first commands erase are those of the range if all page numbers are right. -/
theorem erased_iff (hw : Within f r) {n : Nat} (hn : n ≤ r.count) :
    ((List.range n).flatMap fun j => startedBy .bits8 f.upper (pageNb r + j)).map f.erased =
        (List.range n).map (fun j => some (f.page (r.sector j))) ↔
      ∀ j < n, pageNb r + j < 256 ∨ f.pages = 256 := by
  have hinside := hw.inside
  have hsmall := hw.small
  have hne : ∀ j < n, (startedBy .bits8 f.upper (pageNb r + j)).map f.erased ≠ [] := fun j hj h =>
    startedBy_ne_nil (by omega) (List.map_eq_nil_iff.mp h)
  rw [List.map_flatMap, flatMap_eq_map_iff hne]
  apply forall₂_congr
  intro j hj
  rw [hw.page j (Nat.lt_of_lt_of_le hj hn)]
  exact startedBy_iff (by omega) (by rw [hw.number, Nat.add_assoc]) (by omega)

/-- The commands of a run, by what its first poll and its sweep have come to. -/
theorem commands_eq : C.commands f fuel r.addr r.len =
    if poll (busyTurn srBsy C.firstSr C.firstFault) fuel = some true then
      (sweep (saturating f.blocksize) (L4Controller.nextPage f) (C.erasePage f fuel) fuel r.len
        (firstPage r)).1.filterMap FlashWrite.started
    else [] := by
  have hunlock : C.flashUnlock.filterMap FlashWrite.started = [] := by
    unfold L4Controller.flashUnlock
    split
    · rfl
    · rfl
  unfold L4Controller.commands L4Controller.flashErase
  cases hpoll : poll (busyTurn srBsy C.firstSr C.firstFault) fuel with
  | none => rw [if_neg nofun]; exact hunlock
  | some ok =>
    cases ok with
    | false => rw [if_neg nofun]; exact hunlock
    | true =>
      rw [if_pos rfl]
      dsimp only
      rw [List.filterMap_append, List.filterMap_append, hunlock]
      rfl

theorem live_iff (hw : Within f r) {j : Nat} : (saturating f.blocksize)^[j] r.len ≠ 0 ↔ j < r.count := by
  rw [Span.lt_count_iff hw.size, ← UInt32.toNat_inj.ne, saturating_iterate, UInt32.toNat_zero]
  omega

/-- The sweep of a run. -/
abbrev swept (C : L4Controller) (f : L4Flash) (r : Span f.start f.length f.blocksize)
    (fuel : Nat) : List FlashWrite × Option Bool :=
  sweep (saturating f.blocksize) (L4Controller.nextPage f) (C.erasePage f fuel) fuel r.len
    (firstPage r)

theorem commands_log (C : L4Controller) (fuel : Nat) (hw : Within f r) : ∃ n ≤ r.count, C.commands f fuel r.addr r.len =
    (List.range n).flatMap fun j => startedBy .bits8 f.upper (pageNb r + j) := by
  rw [commands_eq]
  split
  · obtain ⟨n, hlog, hlive⟩ := sweep_log (saturating f.blocksize) (L4Controller.nextPage f)
      (C.erasePage f fuel) fuel r.len (firstPage r)
    have hn : n ≤ r.count := by
      by_contra hgt
      exact absurd ((live_iff hw).mp (hlive r.count (by omega))) (Nat.lt_irrefl _)
    exact ⟨n, hn, by rw [hlog, logs_started hw hn]⟩
  · exact ⟨0, Nat.zero_le _, rfl⟩

theorem commands_done (hw : Within f r) (hpoll : poll (busyTurn srBsy C.firstSr C.firstFault) fuel = some true)
    (hdone : (swept C f r fuel).2 = some true) : C.commands f fuel r.addr r.len =
    (List.range r.count).flatMap fun j => startedBy .bits8 f.upper (pageNb r + j) := by
  obtain ⟨n, hp, hzero, hlog⟩ := sweep_done hdone
  have hlow : ¬ n < r.count := fun hlt => (live_iff hw).mpr hlt hzero
  have hhigh : ¬ r.count < n := fun hlt =>
    Nat.lt_irrefl _ ((live_iff hw).mp (hp.live r.count hlt))
  have hn : n = r.count := by omega
  rw [commands_eq, if_pos hpoll, hlog, hn, logs_started hw (Nat.le_refl _)]

/-- A run that comes back without a communication error. -/
theorem swept_of_back (hback : (C.flashErase f fuel r.addr r.len).2 ≠ none)
    (hfirst : ∀ i, C.firstFault i = false) (hfault : ∀ k i, C.fault k i = false) :
    poll (busyTurn srBsy C.firstSr C.firstFault) fuel = some true ∧ (swept C f r fuel).2 = some true := by
  have hnot := busyTurn_not_false srBsy C.firstSr hfirst fuel
  unfold L4Controller.flashErase at hback
  cases hpoll : poll (busyTurn srBsy C.firstSr C.firstFault) fuel with
  | none =>
    rw [hpoll] at hback
    exact absurd rfl hback
  | some ok =>
    cases ok with
    | false => exact absurd hpoll hnot
    | true =>
      refine ⟨rfl, ?_⟩
      rw [hpoll] at hback
      have hsweep : (swept C f r fuel).2 ≠ none := fun hnone => hback (by
        dsimp only
        exact congrArg _ hnone)
      have hnot : (swept C f r fuel).2 ≠ some false :=
        sweep_ne_false fun s => busyTurn_not_false _ _ (hfault _) fuel
      obtain ⟨ok, hok⟩ := Option.ne_none_iff_exists'.mp hsweep
      cases ok with
      | true => exact hok
      | false => exact absurd hok hnot

/-- A result of 0. -/
theorem swept_of_zero (hzero : (C.flashErase f fuel r.addr r.len).2 = some 0) :
    poll (busyTurn srBsy C.firstSr C.firstFault) fuel = some true ∧ (swept C f r fuel).2 = some true ∧
      C.lastSr.toUInt16 &&& srErrors = 0 := by
  unfold L4Controller.flashErase at hzero
  cases hpoll : poll (busyTurn srBsy C.firstSr C.firstFault) fuel with
  | none =>
    rw [hpoll] at hzero
    contradiction
  | some ok =>
    rw [hpoll] at hzero
    cases ok with
    | false => exact absurd (Option.some.inj hzero) (by decide)
    | true =>
      dsimp only at hzero
      obtain ⟨ok, hok, hret⟩ := Option.map_eq_some_iff.mp hzero
      by_cases h : ok = true ∧ C.lastSr.toUInt16 &&& srErrors = 0
      · rw [h.1] at hok
        exact ⟨rfl, hok, h.2⟩
      · rw [if_neg h] at hret
        exact absurd hret (by decide)

theorem flashErase_ends (hw : Within f r) (hfirst : ∃ ok, Leaves (busyTurn srBsy C.firstSr C.firstFault) ok)
    (hall : ∀ k < r.count, ∃ ok, Leaves (busyTurn srBsy (C.sr k) (C.fault k)) ok) :
    ∃ fuel, (C.flashErase f fuel r.addr r.len).2 ≠ none := by
  obtain ⟨ok, hok⟩ := hfirst
  obtain ⟨m, hm⟩ := hok.poll
  obtain ⟨m', hm'⟩ := polls_leave hall
  obtain ⟨fuel, hfuel⟩ : ∃ fuel, fuel = max (max m m') (r.count + 1) := ⟨_, rfl⟩
  refine ⟨fuel, ?_⟩
  unfold L4Controller.flashErase
  rw [hm fuel (by omega)]
  cases ok with
  | false => exact Option.some_ne_none _
  | true =>
    have hsweep : (swept C f r fuel).2 ≠ none := by
      rcases sweep_cases (saturating f.blocksize) (L4Controller.nextPage f) (C.erasePage f fuel) fuel
        r.len (firstPage r) with ⟨n, hn, hp, hlive, hend⟩ | ⟨n, hn, hp, hzero⟩ | hp
      · rw [swept, sweep_stop hp hlive hend hn, nextPage_iterate]
        have hk := (live_iff hw).mp hlive
        show poll (busyTurn srBsy (C.sr (0 + n)) (C.fault (0 + n))) fuel ≠ none
        rw [Nat.zero_add]
        exact hm' fuel (by omega) n hk
      · rw [swept, sweep_finish hp hzero hn]
        exact Option.some_ne_none _
      · exact absurd ((live_iff hw).mp (hp.live r.count (by omega))) (Nat.lt_irrefl _)
    dsimp only
    intro hnone
    exact hsweep (Option.map_eq_none_iff.mp hnone)

theorem erasesPages_of (hw : Within f r)
    (hgood : ∀ j < r.count, pageNb r + j < 256 ∨ f.pages = 256) (C : L4Controller) :
    ErasesPages f C r := by
  constructor
  case ends => exact flashErase_ends hw
  case only =>
    intro fuel
    obtain ⟨n, hn, hlog⟩ := commands_log C fuel hw
    refine ⟨n, hn, ?_⟩
    rw [hlog]
    exact (erased_iff hw hn).mpr fun j hj => hgood j (Nat.lt_of_lt_of_le hj hn)
  case all =>
    intro fuel hback hfirst hfault
    obtain ⟨hpoll, hdone⟩ := swept_of_back hback hfirst hfault
    rw [commands_done hw hpoll hdone]
    exact (erased_iff hw (Nat.le_refl _)).mpr hgood
  case honest =>
    intro fuel hzero
    obtain ⟨hpoll, hdone, hsr⟩ := swept_of_zero hzero
    rw [commands_done hw hpoll hdone]
    exact ⟨(erased_iff hw (Nat.le_refl _)).mpr hgood, hsr⟩

end

/-- A controller that is never busy. -/
def idleL4 : L4Controller where
  cr := crLock
  firstSr _ := 0
  firstFault _ := false
  clearedSr := 0
  sr _ _ := 0
  fault _ _ := false
  lastSr := 0

theorem good_of_erasesPages {f : L4Flash} {r : Span f.start f.length f.blocksize} (hw : Within f r)
    (h : ErasesPages f idleL4 r) : ∀ j < r.count, pageNb r + j < 256 ∨ f.pages = 256 := by
  obtain ⟨fuel, hback⟩ := h.ends ⟨true, busyTurn_idle _ _⟩ fun _ _ => ⟨true, busyTurn_idle _ _⟩
  obtain ⟨hpoll, hdone⟩ := swept_of_back hback (fun _ => rfl) fun _ _ => rfl
  have hall := h.all fuel hback (fun _ => rfl) fun _ _ => rfl
  rw [commands_done hw hpoll hdone] at hall
  exact (erased_iff hw (Nat.le_refl _)).mp hall

/-! ## The right pages -/

/-- The commands are right for every answer of the controller just when the numbers of the pages,
counted from the start of the flash, fit into the field, or a bank has as many pages as the field
can tell apart, so that the carry is the bank bit. -/
theorem erasesPages_iff (f : L4Flash) (hf : Registered f)
    (r : Span f.start f.length f.blocksize) (hlen : f.blocksize.toNat ∣ r.len.toNat) :
    (∀ C, ErasesPages f C r) ↔
      (r.addr.toNat + r.len.toNat - flashStart.toNat) / f.blocksize.toNat ≤ 256 ∨
        f.pages = 256 := by
  have hw := hf.shape.within r hlen
  have hcount := r.count_mul_of_dvd hw.size hlen
  have hpos := r.count_pos hw.size
  have hlow := hw.low
  have hend : (r.addr.toNat + r.len.toNat - flashStart.toNat) / f.blocksize.toNat =
      pageNb r + r.count := by
    have hsplit : r.addr.toNat + r.len.toNat - flashStart.toNat =
        r.addr.toNat - flashStart.toNat + r.count * f.blocksize.toNat := by
      omega
    rw [hsplit, Nat.add_mul_div_right _ _ hw.size]
    rfl
  rw [hend]
  constructor
  · intro h
    rcases good_of_erasesPages hw (h idleL4) (r.count - 1) (by omega) with hlast | hpages
    · exact Or.inl (by omega)
    · exact Or.inr hpages
  · intro h
    exact erasesPages_of hw fun j hj => h.imp (fun _ => by omega) id

/-- The flash of a part of 1 MiB whose option bytes ask for a single bank. -/
def wholeFlash : L4Flash := ⟨0x08000000, 0x00100000, 0x0800, 0xFFFFFFFF⟩

theorem wholeFlash_registered : Registered wholeFlash :=
  ⟨⟨0x415, .l4xx, true⟩, by decide, 1024, 0, by decide⟩

theorem wholeFlash_blocksize_pos : 0 < wholeFlash.blocksize.toNat := by decide

/-- A page of it. -/
def onePage (k : Nat) (hk : k < 512) : Span wholeFlash.start wholeFlash.length wholeFlash.blocksize
    where
  addr := UInt32.ofNat (0x08000000 + k * 2048)
  len := 2048
  pos := wholeFlash_blocksize_pos
  low := by
    rw [UInt32.toNat_ofNat_of_lt' (show 0x08000000 + k * 2048 < 2 ^ 32 by omega)]
    exact Nat.le_add_right _ _
  high := by
    rw [UInt32.toNat_ofNat_of_lt' (show 0x08000000 + k * 2048 < 2 ^ 32 by omega)]
    show 0x08000000 + k * 2048 + 2048 ≤ 0x08000000 + 0x00100000
    omega
  aligned := by
    rw [UInt32.toNat_ofNat_of_lt' (show 0x08000000 + k * 2048 < 2 ^ 32 by omega)]
    show (0x08000000 + k * 2048 - 0x08000000) % 2048 = 0
    omega

theorem erasesPages_iff_first :
    (∀ C, ErasesPages wholeFlash C (onePage 0 (by decide))) ↔
      ((onePage 0 (by decide)).addr.toNat + (onePage 0 (by decide)).len.toNat - flashStart.toNat) /
        wholeFlash.blocksize.toNat ≤ 256 ∨ wholeFlash.pages = 256 :=
  erasesPages_iff wholeFlash wholeFlash_registered (onePage 0 (by decide)) ⟨1, rfl⟩

/-- The page number 256 becomes the bank bit: the command is for page 0. -/
theorem page256_not_erased : ¬ ErasesPages wholeFlash idleL4 (onePage 256 (by decide)) := by
  intro h
  have hw := wholeFlash_registered.shape.within (onePage 256 (by decide)) ⟨1, rfl⟩
  rcases good_of_erasesPages hw h 0 (by decide) with hlt | hpages
  · exact absurd hlt (by decide)
  · exact absurd hpages (by decide)

end MiyakoLink.Stm32
