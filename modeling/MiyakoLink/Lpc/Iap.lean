import Mathlib.Data.UInt
import MiyakoLink.Flash.Region

/-!
# The flash of the LPC parts

`lpc_flash_erase` and `lpc_flash_write` call the IAP of the ROM. The LPC802 and LPC804 have reserved
pages at the end of their flash, which both functions leave out by a cut-off of their own.

A call of either function is a list of steps here, which `perform` takes until an IAP call fails.
-/

namespace MiyakoLink.Lpc

open Flash

/-- `struct lpc_flash`, as far as the two functions use it. -/
structure LpcFlash where
  start : UInt32
  length : UInt32
  blocksize : UInt32
  bufSize : UInt32
  baseSector : UInt8
  reservedPages : UInt8
  iapRam : UInt32
  deriving DecidableEq

/-- `lpc11xx_add_flash`. -/
def lpc11xxAddFlash (addr len erasesize : UInt32) (reservedPages : UInt8) : LpcFlash :=
  ⟨addr, len, erasesize, 512, 0, reservedPages, 0x10000000⟩

/-- The parts by `LPC11XX_DEVICE_ID`, and the flash of each. -/
def lpc11xxTable : List (List UInt32 × LpcFlash) :=
  [([0x0A07102B, 0x1A07102B, 0x0A16D02B, 0x1A16D02B, 0x041E502B, 0x2516D02B, 0x0416502B,
     0x2516902B, 0x0A23902B, 0x1A23902B, 0x042D502B, 0x2524D02B, 0x0425502B, 0x2524902B,
     0x0434502B, 0x2532902B, 0x0434102B, 0x2532102B, 0x0A40902B, 0x1A40902B, 0x0444502B,
     0x2540902B, 0x0444102B, 0x2540102B, 0x00050080, 0x1421102B, 0x1440102B, 0x1431102B,
     0x1430102B, 0x095C802B, 0x295C802B, 0x097A802B, 0x297A802B, 0x0998802B, 0x2998802B,
     0x2954402B, 0x2972402B, 0x2988402B, 0x2980002B],
      lpc11xxAddFlash 0 0x20000 0x1000 0),
    ([0x0A24902B, 0x1A24902B],
      lpc11xxAddFlash 0 0x10000 0x1000 0),
    ([0x1000002B],
      lpc11xxAddFlash 0 0x40000 0x1000 0),
    ([0x3000002B, 0x3D00002B],
      lpc11xxAddFlash 0 0x8000 0x1000 0),
    ([0x00008A04],
      lpc11xxAddFlash 0 0x7800 0x400 0)]

/-- The parts by `LPC8XX_DEVICE_ID`. -/
def lpc8xxTable : List (List UInt32 × LpcFlash) :=
  [([0x00008021, 0x00008022, 0x00008023, 0x00008024],
      lpc11xxAddFlash 0 0x4000 0x400 2),
    ([0x00008040, 0x00008041, 0x00008042, 0x00008043, 0x00008044],
      lpc11xxAddFlash 0 0x8000 0x400 2),
    ([0x00008100, 0x00008110, 0x00008120, 0x00008121, 0x00008122],
      lpc11xxAddFlash 0 0x4000 0x400 0),
    ([0x00008221, 0x00008222, 0x00008241, 0x00008242],
      lpc11xxAddFlash 0 0x8000 0x400 0),
    ([0x00008322],
      lpc11xxAddFlash 0 0x4000 0x400 0),
    ([0x00008341],
      lpc11xxAddFlash 0 0x8000 0x400 0),
    ([0x00008441, 0x00008442, 0x00008443, 0x00008444],
      lpc11xxAddFlash 0 0x10000 0x400 0),
    ([0x00008451, 0x00008452, 0x00008453, 0x00008454],
      lpc11xxAddFlash 0 0x10000 0x400 0),
    ([0x0003D440, 0x0001CC40, 0x0001BC40, 0x0000BC40, 0x00019C40, 0x00017C40, 0x00007C44,
     0x00007C40],
      lpc11xxAddFlash 0 0x20000 0x1000 0),
    ([0x00010013, 0x00010012, 0x00020023, 0x00020022, 0x00030030, 0x00030032, 0x00040040,
     0x00040042, 0x00040060, 0x00040070, 0x00050080],
      lpc11xxAddFlash 0 0x20000 0x1000 0)]

/-- `lpc11xx_probe`: the flash that it adds. -/
def lpc11xxProbe (idcode idcode8xx : UInt32) : Option LpcFlash :=
  ((lpc11xxTable.find? fun e => decide (idcode ∈ e.1)).or
    (lpc8xxTable.find? fun e => decide (idcode8xx ∈ e.1))).map Prod.snd

/-! ## IAP calls -/

inductive IapCall where
  | prepare (first last : UInt32)
  | program (dest buf len : UInt32)
  | erase (first last : UInt32)
  | blankcheck (first last : UInt32)
  | erasePage (first last : UInt32)
  deriving DecidableEq

/-- An IAP call with the result of the function if it fails, or a write to the RAM. -/
inductive LpcStep where
  | call (cmd : IapCall) (error : Ret)
  | ram (addr : UInt32) (data : List UInt8)

/-- The steps that are taken, and the result. `status k` is the status of the `k`th IAP call. -/
def perform (status : Nat → UInt32) : Nat → List LpcStep → List LpcStep × Ret
  | _, [] => ([], 0)
  | k, .ram addr data :: steps =>
    let rest := perform status k steps
    (.ram addr data :: rest.1, rest.2)
  | k, .call cmd error :: steps =>
    if status k ≠ 0 then ([.call cmd error], error)
    else
      let rest := perform status (k + 1) steps
      (.call cmd error :: rest.1, rest.2)

/-- No failure is reported as success. -/
def Reporting (steps : List LpcStep) : Prop := ∀ cmd, LpcStep.call cmd 0 ∉ steps

section

variable {status : Nat → UInt32} {k : Nat} {steps : List LpcStep}

theorem perform_subset : ∀ s ∈ (perform status k steps).1, s ∈ steps := by
  induction steps generalizing k with
  | nil => exact fun s hs => absurd hs List.not_mem_nil
  | cons step steps ih =>
    intro s hs
    cases step with
    | ram addr data =>
      rcases List.mem_cons.mp hs with rfl | hs
      · exact List.mem_cons_self
      · exact List.mem_cons_of_mem _ (ih s hs)
    | call cmd error =>
      rw [perform] at hs
      split at hs
      · rw [List.mem_singleton.mp hs]
        exact List.mem_cons_self
      · rcases List.mem_cons.mp hs with rfl | hs
        · exact List.mem_cons_self
        · exact List.mem_cons_of_mem _ (ih s hs)

theorem perform_zero (hsteps : Reporting steps) (h : (perform status k steps).2 = 0) :
    (perform status k steps).1 = steps := by
  induction steps generalizing k with
  | nil => rfl
  | cons step steps ih =>
    have hrest : Reporting steps := fun cmd hmem => hsteps cmd (List.mem_cons_of_mem _ hmem)
    cases step with
    | ram addr data => exact congrArg _ (ih hrest h)
    | call cmd error =>
      rw [perform] at h ⊢
      split at h
      · have herror : error = 0 := h
        rw [herror] at hsteps
        exact absurd List.mem_cons_self (hsteps cmd)
      · next hgood =>
        rw [if_neg hgood]
        exact congrArg _ (ih hrest h)

/-- All calls succeed. -/
theorem perform_success (k : Nat) (steps : List LpcStep) :
    perform (fun _ => 0) k steps = (steps, 0) := by
  induction steps generalizing k with
  | nil => rfl
  | cons step steps ih =>
    cases step with
    | ram addr data => rw [perform, ih]
    | call cmd error =>
      rw [perform, if_neg (not_not_intro rfl), ih]

end

/-! ## The functions -/

abbrev lpx80xSectorSize : UInt32 := 0x400

abbrev lpx80xPageSize : UInt32 := 0x40

/-- `lpc_sector_for_addr`. -/
def lpcSectorForAddr (f : LpcFlash) (addr : UInt32) : UInt8 :=
  (f.baseSector.toUInt32 + (addr - f.start) / f.blocksize).toUInt8

/-- `lpc_flash_erase`. -/
def lpcFlashErase (f : LpcFlash) (addr len : UInt32) : List LpcStep :=
  let first := (lpcSectorForAddr f addr).toUInt32
  let last := (lpcSectorForAddr f (addr + len - 1)).toUInt32
  let lastFullSector :=
    if f.reservedPages ≠ 0 ∧ addr + len ≥ f.length - 0x400 then last - 1 else last
  [.call (.prepare first last) (-1)] ++
    (if first ≤ lastFullSector then
      [.call (.erase first lastFullSector) (-2), .call (.blankcheck first lastFullSector) (-3)]
    else []) ++
    if lastFullSector ≠ last then
      let pageStart := (addr + len - lpx80xSectorSize) / lpx80xPageSize
      let pageEnd := pageStart + lpx80xSectorSize / lpx80xPageSize - 1 - f.reservedPages.toUInt32
      [.call (.prepare last last) (-1), .call (.erasePage pageStart pageEnd) (-2)]
    else []

/-- `bufaddr`: the place behind `struct flash_param`. -/
def bufaddr (f : LpcFlash) : UInt32 := (f.iapRam + 44 + 3) &&& ~~~3

/-- The loop that writes pages, if it ends. -/
def writePages (sector : UInt32) : Nat → UInt32 → UInt32 → UInt32 → Option (List LpcStep)
  | 0, _, _, _ => none
  | fuel + 1, dest, buf, len =>
    if len = 0 then some []
    else
      (writePages sector fuel (dest + lpx80xPageSize) (buf + lpx80xPageSize)
        (len - lpx80xPageSize)).map fun steps =>
          [.call (.prepare sector sector) (-1), .call (.program dest buf lpx80xPageSize) (-2)] ++ steps

/-- `lpc_flash_write`. -/
def lpcFlashWrite (f : LpcFlash) (fuel : Nat) (dest : UInt32) (src : List UInt8) :
    Option (List LpcStep) :=
  let len := UInt32.ofNat src.length
  let sector := (lpcSectorForAddr f dest).toUInt32
  let steps := [.call (.prepare sector sector) (-1), .ram (bufaddr f) src]
  if f.reservedPages = 0 ∨ dest + len ≤ f.length - len then
    some (steps ++ [.call (.program dest (bufaddr f) len) (-2)])
  else
    -- On LPC80x, write top sector in pages.
    (writePages sector fuel dest (bufaddr f) (len - 0x40 * f.reservedPages.toUInt32)).map (steps ++ ·)

/-- A word of the source. -/
def wordOf (src : List UInt8) (i : Nat) : UInt32 :=
  ((src.drop (4 * i)).take 4).foldr (fun b w => w <<< 8 ||| b.toUInt32) 0

/-- The sum of the first seven vectors, complemented, as the eighth. -/
def magicVector (src : List UInt8) : List UInt8 :=
  let sum := ((List.range 7).map (wordOf src)).sum
  let w := ~~~sum + 1
  src.take 28 ++ [w.toUInt8, (w >>> 8).toUInt8, (w >>> 16).toUInt8, (w >>> 24).toUInt8] ++
    src.drop 32

/-- `lpc_flash_write_magic_vect`. -/
def lpcFlashWriteMagicVect (f : LpcFlash) (fuel : Nat) (dest : UInt32) (src : List UInt8) :
    Option (List LpcStep) :=
  lpcFlashWrite f fuel dest (if dest = 0 then magicVector src else src)

end MiyakoLink.Lpc
