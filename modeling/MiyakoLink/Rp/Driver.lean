import MiyakoLink.Flash.Packets
import MiyakoLink.Lib.Lanes

/-!
# The flash driver of the RP2040

`rp_flash_erase` and `rp_flash_write` call functions of the boot ROM on the target. What they do
to the flash is known if they come back: a range is erased, and a range is programmed with what
has been loaded into the RAM. The flash is held by offsets, and read from 0x10000000 on.
-/

namespace MiyakoLink.Rp

open Flash Lib

abbrev xipFlashStart : UInt32 := 0x10000000

abbrev maxFlash : UInt32 := 0x200000

/-- The calls of functions of the boot ROM, with what is in the registers. -/
inductive RomCall where
  | connectInternalFlash
  | flashExitXip
  | flashRangeErase (addr count blockSize cmd : UInt32)
  | flashRangeProgram (addr count : UInt32)
  | flashFlushCache
  | flashEnterCmdXip

/-- `FLASHCMD_SECTOR_ERASE`, `FLASHCMD_BLOCK32K_ERASE`, `FLASHCMD_BLOCK64K_ERASE` and
`FLASHCMD_CHIP_ERASE`. -/
abbrev sectorErase : UInt32 := 0x20
abbrev block32kErase : UInt32 := 0x52
abbrev block64kErase : UInt32 := 0xD8
abbrev chipErase : UInt32 := 0x72

/-- The target and the heap, which are not part of the program. -/
structure Rom where
  /-- The call that follows so many others does not come back. -/
  fails : Nat → Bool
  /-- The flash behind such a call. -/
  broken : Nat → (UInt32 → UInt8) → UInt32 → UInt8
  /-- There is a block for an allocation that follows so many others. -/
  room : Nat → Bool

/-- The flash, what is in the RAM at `SRAM_START`, the calls so far, `is_prepared` and the
allocations so far. -/
structure Env where
  flash : UInt32 → UInt8
  sram : List UInt8
  calls : List RomCall
  isPrepared : Bool
  allocs : Nat

/-- What a call makes of the flash. Programming clears bits. -/
def RomCall.run (sram : List UInt8) (flash : UInt32 → UInt8) : RomCall → UInt32 → UInt8
  | flashRangeErase addr count _ _ => fun a => if a - addr < count then 0xFF else flash a
  | flashRangeProgram addr count => fun a =>
      if a - addr < count then flash a &&& sram.getD (a - addr).toNat 0xFF else flash a
  | _ => flash

/-- The call changes the flash. -/
def RomCall.writes : RomCall → Bool
  | flashRangeErase .. | flashRangeProgram .. => true
  | _ => false

section

variable (R : Rom)

/-- `rp_rom_call`. With no time to wait it does not look at the end of the call. -/
def rpRomCall (c : RomCall) (timeout : UInt32) (s : Env) : Bool × Env :=
  let fails := R.fails s.calls.length
  let flash := if fails && c.writes then R.broken s.calls.length s.flash else c.run s.sram s.flash
  (timeout ≠ 0 && fails, { s with flash, calls := s.calls ++ [c] })

def rpFlashPrepare (s : Env) : Env :=
  if s.isPrepared then s
  else
    let s := (rpRomCall R .connectInternalFlash 100 s).2
    let s := (rpRomCall R .flashExitXip 100 s).2
    { s with isPrepared := true }

def rpFlashResume (s : Env) : Env :=
  if s.isPrepared then
    let s := (rpRomCall R .flashFlushCache 100 s).2
    let s := (rpRomCall R .flashEnterCmdXip 100 s).2
    { s with isPrepared := false }
  else s

/-- A length rounded to sectors. -/
def sectorLength (len : UInt32) : UInt32 :=
  if len &&& 0xFFF ≠ 0 then (len + 0xFFF) &&& ~~~0xFFF else len

/-- The number of bytes that `rp_flash_erase` erases. -/
def eraseLength (len : UInt32) : UInt32 :=
  if maxFlash < sectorLength len then maxFlash else sectorLength len

theorem chunk_bounds {len : UInt32} {k m : Nat} {mask : UInt32}
    (hmask : (~~~mask).toNat = 2 ^ k * (2 ^ m - 1)) (hm : k + m = 32) (hlen : 2 ^ k ≤ len.toNat) :
    0 < (len &&& ~~~mask).toNat ∧ (len &&& ~~~mask).toNat ≤ len.toNat := by
  rw [and_not_toNat len hmask hm]
  have hpow := Nat.two_pow_pos k
  exact ⟨Nat.mul_pos hpow (Nat.div_pos hlen hpow), Nat.mul_div_le _ _⟩

theorem block64k_bounds {len : UInt32} (h : 0x10000 ≤ len) :
    0 < (len &&& ~~~0xFFFF).toNat ∧ (len &&& ~~~0xFFFF).toNat ≤ len.toNat :=
  chunk_bounds (k := 16) (m := 16) rfl rfl (UInt32.le_iff_toNat_le.mp h)

theorem block32k_bounds {len : UInt32} (h : 0x8000 ≤ len) :
    0 < (len &&& ~~~0x7FFF).toNat ∧ (len &&& ~~~0x7FFF).toNat ≤ len.toNat :=
  chunk_bounds (k := 15) (m := 17) rfl rfl (UInt32.le_iff_toNat_le.mp h)

/-- The loop of `rp_flash_erase`. -/
def eraseLoop (addr len : UInt32) (s : Env) : Bool × Env :=
  if len = 0 then (false, s)
  else if maxFlash ≤ len then
    rpRomCall R (.flashRangeErase addr maxFlash 0xFFFFFFFF chipErase) 25100 s
  else if _ : 0x10000 ≤ len then
    let chunk := len &&& ~~~0xFFFF
    let r := rpRomCall R (.flashRangeErase addr chunk 0xFFFFFFFF block64kErase) 2100 s
    if r.1 then r else eraseLoop (addr + chunk) (len - chunk) r.2
  else if _ : 0x8000 ≤ len then
    let chunk := len &&& ~~~0x7FFF
    let r := rpRomCall R (.flashRangeErase addr chunk 0xFFFFFFFF block32kErase) 1700 s
    if r.1 then r else eraseLoop (addr + chunk) (len - chunk) r.2
  else rpRomCall R (.flashRangeErase addr len maxFlash sectorErase) 410 s
termination_by len.toNat
decreasing_by
  · exact sub_toNat_lt (block64k_bounds ‹_›).1 (block64k_bounds ‹_›).2
  · exact sub_toNat_lt (block32k_bounds ‹_›).1 (block32k_bounds ‹_›).2

/-- The most that is programmed by a call. -/
def chunkSize (len : UInt32) : UInt32 := if len ≤ 0x1000 then len else 0x1000

theorem chunkSize_bounds {len : UInt32} (h : ¬ len = 0) :
    0 < (chunkSize len).toNat ∧ (chunkSize len).toNat ≤ len.toNat := by
  have hpos := mt UInt32.toNat_inj.mp h
  rw [UInt32.toNat_zero] at hpos
  unfold chunkSize
  split
  · omega
  · rename_i hle
    have hle := mt UInt32.le_iff_toNat_le.mpr hle
    have hmax : (0x1000 : UInt32).toNat = 0x1000 := rfl
    omega

def rpFlashErase (addr len : UInt32) (s : Env) : Ret × Env :=
  if addr &&& 0xFFF ≠ 0 then (-1, s)
  else
    let r := eraseLoop R (addr - xipFlashStart) (eraseLength len) (rpFlashPrepare R s)
    (if r.1 then 1 else 0, rpFlashResume R r.2)

/-- The loop of `rp_flash_write`. What is written to the RAM is taken to arrive there. -/
def writeLoop (dest : UInt32) (src : List UInt8) (len : UInt32) (s : Env) : Bool × Env :=
  if _ : len = 0 then (false, s)
  else
    let chunksize := chunkSize len
    let s := { s with sram := src.take chunksize.toNat }
    let r := rpRomCall R (.flashRangeProgram dest chunksize) ((3 * chunksize * 10) >>> 8) s
    if r.1 then r
    else writeLoop (dest + chunksize) (src.drop chunksize.toNat) (len - chunksize) r.2
termination_by len.toNat
decreasing_by exact sub_toNat_lt (chunkSize_bounds ‹_›).1 (chunkSize_bounds ‹_›).2

def rpFlashWrite (dest : UInt32) (src : List UInt8) (len : UInt32) (s : Env) : Ret × Env :=
  if dest &&& 0xFF ≠ 0 ∨ len &&& 0xFF ≠ 0 then (-1, s)
  else
    let r := writeLoop R (dest - xipFlashStart) src len (rpFlashPrepare R s)
    (if r.1 then 1 else 0, rpFlashResume R r.2)

theorem rpBufSize_ne_zero : (2048 : UInt32) ≠ 0 := by decide

/-- `rp_add_flash`. A block of the heap is full of zeros, and `erased` and `done` stay so. -/
def rpAddFlash (addr length : UInt32) : FlashRegion Env Tagged where
  start := addr
  length
  blocksize := 0x1000
  erase := rpFlashErase R
  write dest src len s := rpFlashWrite R dest (src.map Prod.fst) len s
  done := none
  erased := (0, none)
  bufSize := 2048
  bufSize_ne_zero := rpBufSize_ne_zero

end

/-! ## The size of the flash -/

/-- The loop of `rp_probe` that looks for the first sector behind the flash. -/
def mirrorLoop (words : UInt32 → List UInt32) (size : UInt32) : UInt32 :=
  if _ : size = 0 then 0
  else if words xipFlashStart ≠ words (xipFlashStart + size) then size
  else mirrorLoop words (size >>> 1)
termination_by size.toNat
decreasing_by
  have hpos := mt UInt32.toNat_inj.mp ‹¬ size = 0›
  rw [UInt32.toNat_zero] at hpos
  rw [UInt32.toNat_shiftRight]
  show size.toNat >>> 1 < size.toNat
  rw [Nat.shiftRight_eq_div_pow]
  omega

/-- The size of the region that `rp_probe` adds; `words` are the 16 words that are read from an
address. -/
def rpProbeLength (words : UInt32 → List UInt32) : UInt32 :=
  let size := if (words xipFlashStart).all (· == 0) then 0x800000 else mirrorLoop words 0x800000
  size <<< 1

end MiyakoLink.Rp
