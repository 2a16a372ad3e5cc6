import MiyakoLink.Flash.Packets

/-!
# The flash driver of the Kinetis parts

`kinetis_probe` registers the regions, and `kl_gen_flash_erase`, `kl_gen_flash_write` and
`kl_gen_flash_done` work on them through commands of the flash controller, which
`kl_gen_command` puts into FCCOB. The controller is a `Chip`: it says which commands are refused,
and what the others do to the flash.
-/

namespace MiyakoLink.Kinetis

open Flash

/-! ## The commands -/

inductive Cmd where
  | eraseSector
  | programLongword
  | programPhrase
  deriving DecidableEq

/-- `FTFA_CMD_ERASE_SECTOR`, `FTFA_CMD_PROGRAM_LONGWORD` and `FTFE_CMD_PROGRAM_PHRASE`. -/
def Cmd.code : Cmd → UInt8
  | eraseSector => 0x09
  | programLongword => 0x06
  | programPhrase => 0x07

/-- How many bytes a command programs. -/
def Cmd.size : Cmd → Nat
  | eraseSector => 0
  | programLongword => 4
  | programPhrase => 8

/-- What FCCOB holds when a command starts: the 24 bits of the address behind the command, and
the data if there is any. -/
structure Command where
  cmd : Cmd
  addr : UInt32
  data : Option (List UInt8)

/-- The parts that are not in the program: the flash controller, the heap, and the memory behind
the buffers. -/
structure Chip where
  /-- The command that follows so many others is refused: `ACCERR` or `FPVIOL`. -/
  refuses : Nat → Bool
  /-- There is a block for an allocation that follows so many others. -/
  room : Nat → Bool
  /-- The address at which a location of the flash is read. -/
  location : UInt32 → UInt32
  /-- The program flash is read where it is programmed. -/
  program_flash : ∀ a < 0x800000, location a = a
  /-- The bytes of the sector that is erased. -/
  sector : UInt32 → UInt32 → Bool
  behind : Nat → UInt8

/-- The commands so far, the allocations so far, the memory and `unsafe_enabled`. -/
structure Env where
  commands : List Command
  allocs : Nat
  mem : UInt32 → UInt8
  unsafeEnabled : Bool

namespace Chip

variable (C : Chip)

/-- What a command that is accepted makes of the memory. Programming clears bits. -/
def execute (c : Command) (mem : UInt32 → UInt8) : UInt32 → UInt8 :=
  match c.cmd with
  | .eraseSector => fun a => if C.sector c.addr a then 0xFF else mem a
  | cmd => fun a =>
    (List.range cmd.size).foldl (fun v k =>
      if C.location (c.addr + UInt32.ofNat k) = a then v &&& (c.data.getD []).getD k 0xFF else v)
      (mem a)

/-- `kl_gen_command`. `CCIF` is awaited before and behind. -/
def klGenCommand (cmd : Cmd) (addr : UInt32) (data : Option (List UInt8)) (s : Env) :
    Bool × Env :=
  let c : Command := ⟨cmd, addr &&& 0xFFFFFF, data⟩
  let s' := { s with commands := s.commands ++ [c] }
  if C.refuses s.commands.length then (false, s')
  else (true, { s' with mem := C.execute c s.mem })

end Chip

/-! ## The callbacks -/

/-- What `kl_gen_add_flash` is told about a region. -/
structure Layout where
  start : UInt32
  length : UInt32
  erasesize : UInt32
  writeLen : UInt32
  erasesize_ne_zero : erasesize ≠ 0 := by decide
  writeLen_ne_zero : writeLen ≠ 0 := by decide

abbrev klWriteLen : UInt32 := 4

abbrev k64WriteLen : UInt32 := 8

abbrev flashSecurityByteAddress : UInt32 := 0x40C

abbrev flashSecurityByteUnsecured : UInt8 := 0xFE

section

variable (C : Chip) (L : Layout)

/-- What a loop has left when it has taken `n`. -/
def left (len n : UInt32) : UInt32 := if n < len then len - n else 0

theorem left_toNat_lt {len n : UInt32} (hlen : len ≠ 0) (hn : n ≠ 0) :
    (left len n).toNat < len.toNat := by
  have hlen := mt UInt32.toNat_inj.mp hlen
  have hn := mt UInt32.toNat_inj.mp hn
  rw [UInt32.toNat_zero] at hlen hn
  unfold left
  split
  · rename_i hlt
    rw [UInt32.toNat_sub_of_le _ _ (UInt32.le_of_lt hlt)]
    omega
  · rw [UInt32.toNat_zero]
    omega

/-- The loop of `kl_gen_flash_erase`. -/
def klGenFlashErase (addr len : UInt32) (s : Env) : Ret × Env :=
  if _ : len = 0 then (0, s)
  else
    let r := C.klGenCommand .eraseSector addr none s
    if r.1 then klGenFlashErase (addr + L.erasesize) (left len L.erasesize) r.2 else (1, r.2)
termination_by len.toNat
decreasing_by exact left_toNat_lt ‹_› L.erasesize_ne_zero

/-- The eight bytes that `kl_gen_command` reads from a pointer into the buffer. -/
def dataAt (src : List UInt8) : List UInt8 :=
  (List.range 8).map fun k => src.getD k (C.behind k)

def Layout.writeCmd : Cmd := if L.writeLen = k64WriteLen then .programPhrase else .programLongword

/-- The loop of `kl_gen_flash_write`. -/
def writeLoop (dest : UInt32) (src : List UInt8) (len : UInt32) (s : Env) : Ret × Env :=
  if _ : len = 0 then (0, s)
  else
    let r := C.klGenCommand L.writeCmd dest (some (dataAt C src)) s
    if r.1 then
      writeLoop (dest + L.writeLen) (src.drop L.writeLen.toNat) (left len L.writeLen) r.2
    else (1, r.2)
termination_by len.toNat
decreasing_by exact left_toNat_lt ‹_› L.writeLen_ne_zero

/-- What is written over the security byte is replaced. -/
def guardSecurityByte (unsafeEnabled : Bool) (dest : UInt32) (src : List UInt8) (len : UInt32) :
    List UInt8 :=
  if !unsafeEnabled ∧ dest ≤ flashSecurityByteAddress ∧ flashSecurityByteAddress < dest + len then
    src.set (flashSecurityByteAddress - dest).toNat flashSecurityByteUnsecured
  else src

def klGenFlashWrite (dest : UInt32) (src : List UInt8) (len : UInt32) (s : Env) : Ret × Env :=
  writeLoop C L dest (guardSecurityByte s.unsafeEnabled dest src len) len s

/-- The data of the command that programs the security byte. -/
def securityData (mem : UInt32 → UInt8) (fromPhrase : Bool) : List UInt8 :=
  let word := [flashSecurityByteUnsecured, mem 0x40D, mem 0x40E, mem 0x40F]
  if fromPhrase then [mem 0x408, mem 0x409, mem 0x40A, mem 0x40B] ++ word else word ++ [0, 0, 0, 0]

/-- `kl_gen_flash_done`. Whether its command is refused is not looked at. -/
def klGenFlashDone (s : Env) : Ret × Env :=
  if s.unsafeEnabled then (0, s)
  else if s.mem flashSecurityByteAddress = flashSecurityByteUnsecured then (0, s)
  else if L.writeLen = 8 then
    (0, (C.klGenCommand .programPhrase (flashSecurityByteAddress - 4)
      (some (securityData s.mem true)) s).2)
  else
    (0, (C.klGenCommand .programLongword flashSecurityByteAddress
      (some (securityData s.mem false)) s).2)

/-- `kl_gen_add_flash`; `target_add_flash` chooses the size of the buffer. -/
def Layout.region : FlashRegion Env Tagged where
  start := L.start
  length := L.length
  blocksize := L.erasesize
  erase := klGenFlashErase C L
  write dest src len s := klGenFlashWrite C L dest (src.map Prod.fst) len s
  done := some (klGenFlashDone C L)
  erased := (0xFF, none)
  bufSize := min32 L.erasesize 0x400
  bufSize_ne_zero := min32_ne_zero L.erasesize_ne_zero (by decide)

end

/-! ## The regions -/

/-- The regions of the parts with two banks or with a FlexNVM; `target_add_flash` puts a region
to the front. -/
def klGenAddFlashes (regions : List Layout) : Option (List Layout) := some regions.reverse

def klRegion (start length erasesize : UInt32)
    (h : erasesize ≠ 0 := by decide) : Layout := ⟨start, length, erasesize, klWriteLen, h, by decide⟩

def k64Region (start length erasesize : UInt32)
    (h : erasesize ≠ 0 := by decide) : Layout := ⟨start, length, erasesize, k64WriteLen, h, by decide⟩

/-- The regions that `kinetis_probe` adds, in the order of `t->flash`, if it knows the part. -/
def kinetisProbe (sdid fcfg1 : UInt32) : Option (List Layout) :=
  let ram := (sdid >>> 16 &&& 0x0F).toNat
  let flash := (fcfg1 >>> 24 &&& 0x0F).toNat
  match (sdid >>> 20).toNat with
  | 0x161 =>
    if ram ∉ [0x03, 0x04, 0x05, 0x06] then none
    else match flash with
      | 0x03 => klGenAddFlashes [klRegion 0 0x08000 0x400]
      | 0x05 => klGenAddFlashes [klRegion 0 0x10000 0x400]
      | 0x07 => klGenAddFlashes [klRegion 0 0x20000 0x400]
      | 0x09 => klGenAddFlashes [klRegion 0 0x40000 0x400]
      | _ => none
  | 0x251 => klGenAddFlashes [klRegion 0 0x20000 0x400]
  | 0x231 => klGenAddFlashes [klRegion 0 0x40000 0x400]
  | 0x271 =>
    match ram with
    | 4 => klGenAddFlashes [klRegion 0 0x8000 0x400]
    | 5 => klGenAddFlashes [klRegion 0 0x10000 0x400]
    | _ => none
  | 0x021 =>
    match ram with
    | 3 => klGenAddFlashes [klRegion 0 0x7FFF 0x400]
    | 2 => klGenAddFlashes [klRegion 0 0x3FFF 0x400]
    | 1 => klGenAddFlashes [klRegion 0 0x1FFF 0x400]
    | _ => none
  | 0x031 => klGenAddFlashes [klRegion 0 0x8000 0x400]
  | 0x220 => klGenAddFlashes [klRegion 0 0x40000 0x800, klRegion 0x40000 0x40000 0x800]
  | 0x620 => klGenAddFlashes [k64Region 0 0x80000 0x1000, k64Region 0x80000 0x80000 0x1000]
  | 0x000 =>
    if sdid &&& 0xFF0 = 0x200 then
      match flash with
      | 0x7 => klGenAddFlashes [klRegion 0 0x20000 0x800, klRegion 0x10000000 0x10000 0x800]
      | 0x9 => klGenAddFlashes [klRegion 0 0x40000 0x800, klRegion 0x10000000 0x10000 0x800]
      | 0xB => klGenAddFlashes [klRegion 0 0x40000 0x800, klRegion 0x40000 0x40000 0x800]
      | _ => none
    else none
  | 0x118 => klGenAddFlashes [k64Region 0 0x40000 0x800, k64Region 0x10000000 0x8000 0x800]
  | 0x142 | 0x143 =>
    klGenAddFlashes [k64Region 0 0x40000 0x1000, k64Region 0x10000000 0x10000 0x1000]
  | 0x144 | 0x145 =>
    klGenAddFlashes [k64Region 0 0x80000 0x1000, k64Region 0x10000000 0x10000 0x1000]
  | 0x146 => klGenAddFlashes [k64Region 0 0x100000 0x1000, k64Region 0x10000000 0x10000 0x1000]
  | 0x148 => klGenAddFlashes [k64Region 0 0x180000 0x1000, k64Region 0x10000000 0x80000 0x1000]
  | _ => none

end MiyakoLink.Kinetis
