import Mathlib.Algebra.Ring.Nat
import MiyakoLink.Erase.Sectors

/-!
# The flash of the STM32F1, F3, F0 and GD32 parts

`stm32f1_flash_erase` and `stm32f1_flash_write` work with two register banks, the second one for
the memory from `FLASH_BANK_SPLIT` on. The address decides the bank for a command and its poll; the
part decides whether the second bank is unlocked, written and checked for errors at all.

Next to what is read the controller has the locks of the banks as its state: `Locks`.
-/

namespace MiyakoLink.Stm32

open Flash Lib Erase

/-! ## The parts -/

structure F1Region where
  idcode : UInt16
  start : UInt32
  length : UInt32
  blocksize : UInt32
  deriving DecidableEq

abbrev f1Start : UInt32 := 0x08000000

/-- `FLASH_BANK_SPLIT`. -/
abbrev bankSplit : UInt32 := 0x08080000

/-- The part with two banks. -/
abbrev xlDensity : UInt16 := 0x430

/-- The regions that `stm32f1_probe` adds. -/
def stm32f1Probe (idcode : UInt16) : List F1Region :=
  if idcode ∈ [0x29b, 0x410, 0x412, 0x420] then [⟨idcode, f1Start, 0x20000, 0x400⟩]
  else if idcode ∈ [0x414, 0x418, 0x428] then [⟨idcode, f1Start, 0x80000, 0x800⟩]
  else if idcode = xlDensity then
    [⟨idcode, f1Start, 0x80000, 0x800⟩, ⟨idcode, bankSplit, 0x80000, 0x800⟩]
  else if idcode ∈ [0x438, 0x422, 0x446, 0x432, 0x439] then [⟨idcode, f1Start, 0x80000, 0x800⟩]
  else if idcode ∈ [0x444, 0x445] then [⟨idcode, f1Start, 0x8000, 0x400⟩]
  else if idcode = 0x440 then [⟨idcode, f1Start, 0x10000, 0x400⟩]
  else if idcode = 0x448 then [⟨idcode, f1Start, 0x20000, 0x800⟩]
  else if idcode = 0x442 then [⟨idcode, f1Start, 0x40000, 0x800⟩]
  else []

/-- The regions that `gd32f1_probe` adds, by the flash size in KiB that is read from the part. -/
def gd32f1Probe (idcode : UInt16) (flashSize : UInt16) : List F1Region :=
  if idcode ∈ [0x414, 0x410] then [⟨idcode, f1Start, flashSize.toUInt32 * 1024, 0x400⟩] else []

/-- The regions of a part that one of the probes accepts. -/
def Accepted (rs : List F1Region) : Prop :=
  (∃ idcode, rs = stm32f1Probe idcode) ∨ ∃ idcode flashSize, rs = gd32f1Probe idcode flashSize

/-- The flash of a part: its regions follow one another. -/
def flashSize (rs : List F1Region) : Nat := (rs.map fun f => f.length.toNat).sum

/-! ## The controller -/

inductive Bank where
  | one | two
  deriving DecidableEq

/-- The bank that holds an address. -/
def bankOf (a : UInt32) : Bank := if a ≥ bankSplit then .two else .one

/-- The accesses to the controller and to the flash: writes to `FLASH_KEYR`, `FLASH_CR` and
`FLASH_AR` of a bank, the last read of a poll or the only read of `FLASH_SR`, and a halfword that
is written to the flash, with its place in the source. -/
inductive F1Event where
  | keyr (b : Bank) (val : UInt32)
  | cr (b : Bank) (val : UInt32)
  | ar (b : Bank) (val : UInt32)
  | sr (b : Bank) (val : UInt32)
  | halfword (dest : UInt32) (src : Nat)
  deriving DecidableEq

/-- Which banks are locked, and which of them the two keys unlock. -/
structure Locks where
  locked : Bank → Bool
  opens : Bank → Bool

/-- The keys are written to `FLASH_KEYR` of a bank. -/
def Locks.unlock (L : Locks) (b : Bank) : Locks :=
  { L with locked := fun x => L.locked x && !(decide (x = b) && L.opens b) }

/-- What is read from the controller: `FLASH_SR` and `target_check_error` in the `i`th turn behind
the `k`th page, `FLASH_SR` of a bank at the end, and the first two for the turns behind the write
to a bank. -/
structure F1Answers where
  sr : Nat → Nat → UInt32
  fault : Nat → Nat → Bool
  lastSr : Bank → UInt32
  writeSr : Bank → Nat → UInt32
  writeFault : Bank → Nat → Bool

abbrev f1CrPg : UInt32 := 0x01

abbrev f1CrPer : UInt32 := 0x02

abbrev f1CrStrt : UInt32 := 0x40

abbrev f1SrBsy : UInt32 := 0x01

/-- `SR_ERROR_MASK`. -/
abbrev f1SrErrors : UInt32 := 0x14

/-- `SR_EOP`. -/
abbrev f1SrEop : UInt32 := 0x20

/-- A run of one of the functions: the accesses, the locks behind the last key, and the result if
it has come back. -/
structure F1Run where
  log : List F1Event
  locks : Locks
  ret : Option Ret

/-! ## The erase function -/

section

variable (L : Locks) (A : F1Answers) (f : F1Region)

/-- The calls of `stm32f1_flash_unlock` for the banks of a list, until one of them fails: each
writes the keys to the bank, and looks at `FLASH_CR` of the first bank. -/
def flashUnlock : Locks → List Bank → List F1Event × Locks × Bool
  | L, [] => ([], L, true)
  | L, b :: bs =>
    let log := [.keyr b 0x45670123, .keyr b 0xCDEF89AB]
    if (L.unlock b).locked .one then (log, L.unlock b, false)
    else
      let rest := flashUnlock (L.unlock b) bs
      (log ++ rest.1, rest.2)

/-- The second bank is taken into account. -/
def secondBank (addr len : UInt32) : Bool :=
  decide (f.idcode = xlDensity ∧ addr + len - 1 ≥ bankSplit)

/-- The banks to unlock, in this order. -/
def toUnlock (addr len : UInt32) : List Bank :=
  (if secondBank f addr len then [.two] else []) ++ if addr < bankSplit then [.one] else []

/-- A turn of the poll behind the `k`th page. -/
def eraseTurn (k i : Nat) : Option (Bool × UInt32) :=
  if A.sr k i &&& f1SrBsy = 0 then some (true, A.sr k i)
  else if A.fault k i then some (false, A.sr k i) else none

/-- What a poll leaves. -/
def polled (b : Bank) (p : Option (Bool × UInt32)) : List F1Event × Option Bool :=
  match p with
  | none => ([], none)
  | some (ok, val) => ([.sr b val], some ok)

/-- The body of the loop. -/
def f1ErasePage (fuel : Nat) (s : Nat × UInt32) : List F1Event × Option Bool :=
  let b := bankOf s.2
  let p := polled b (poll (eraseTurn A s.1) fuel)
  ([.cr b f1CrPer, .ar b s.2, .cr b (f1CrStrt ||| f1CrPer)] ++ p.1, p.2)

/-- The banks to check for errors, in this order. -/
def toCheck (addr len : UInt32) : List Bank :=
  (if addr < bankSplit then [.one] else []) ++ if secondBank f addr len then [.two] else []

/-- The checks for errors of the banks of a list, until one of them fails. -/
def checkErrors : List Bank → List F1Event × Ret
  | [] => ([], 0)
  | b :: bs =>
    let sr := A.lastSr b
    if sr &&& f1SrErrors ≠ 0 ∨ sr &&& f1SrEop = 0 then ([.sr b sr], -1)
    else
      let rest := checkErrors bs
      (.sr b sr :: rest.1, rest.2)

/-- `stm32f1_flash_erase`. -/
def f1FlashErase (fuel : Nat) (addr len : UInt32) : F1Run :=
  let u := flashUnlock L (toUnlock f addr len)
  if !u.2.2 then ⟨u.1, u.2.1, some (-1)⟩
  else
    let s := sweep (saturating f.blocksize) (advance f.blocksize) (f1ErasePage A fuel) fuel len
      (0, addr)
    match s.2 with
    | none => ⟨u.1 ++ s.1, u.2.1, none⟩
    | some false => ⟨u.1 ++ s.1, u.2.1, some (-1)⟩
    | some true =>
      let c := checkErrors A (toCheck f addr len)
      ⟨u.1 ++ s.1 ++ c.1, u.2.1, some c.2⟩

/-! ## The write function -/

/-- The transfers of `cortexm_mem_write_sized` with `ALIGN_HALFWORD`. -/
def halfwords (dest len : UInt32) (src : Nat) : List F1Event :=
  (List.range (len >>> 1).toNat).map fun k => .halfword (dest + 2 * UInt32.ofNat k) (src + 2 * k)

/-- A turn of the poll behind the write to a bank. -/
def writeTurn (b : Bank) (i : Nat) : Option (Bool × UInt32) :=
  if A.writeFault b i then some (false, A.writeSr b i)
  else if A.writeSr b i &&& f1SrBsy = 0 then some (true, A.writeSr b i) else none

/-- The write to a bank, with its poll and its check for errors. -/
def writeBank (b : Bank) (fuel : Nat) (dest len : UInt32) (src : Nat) :
    List F1Event × Option Bool :=
  let p := poll (writeTurn A b) fuel
  ([.cr b f1CrPg] ++ halfwords dest len src ++ (polled b p).1,
    p.map fun (ok, val) => ok && val &&& f1SrErrors == 0)

/-- `stm32f1_flash_write`. -/
def f1FlashWrite (fuel : Nat) (dest len : UInt32) : F1Run :=
  let length := if dest + len - 1 ≥ bankSplit then bankSplit - dest else len
  let first := if dest < bankSplit then writeBank A .one fuel dest length 0 else ([], some true)
  match first.2 with
  | none => ⟨first.1, L, none⟩
  | some false => ⟨first.1, L, some (-1)⟩
  | some true =>
    let length := if dest < bankSplit then length else 0
    let dest := dest + length
    let rest := len - length
    if f.idcode = xlDensity ∧ rest ≠ 0 then
      let second := writeBank A .two fuel dest rest length.toNat
      ⟨first.1 ++ second.1, L, second.2.map fun ok => if ok then 0 else -1⟩
    else ⟨first.1, L, some 0⟩

end

/-! ## What a result of 0 is to say -/

/-- A range of the flash of a part. -/
structure F1Range (rs : List F1Region) where
  addr : UInt32
  len : UInt32
  pos : 0 < len.toNat
  low : 0x08000000 ≤ addr.toNat
  high : addr.toNat + len.toNat ≤ 0x08000000 + flashSize rs

/-- A read of `FLASH_SR` of a bank. -/
def srOf (b : Bank) : F1Event → Option UInt32
  | .sr x val => if x = b then some val else none
  | _ => none

/-- A write to `FLASH_CR` of a bank. -/
def crOf (b : Bank) : F1Event → Option UInt32
  | .cr x val => if x = b then some val else none
  | _ => none

/-- BSY has been seen clear, and the last read of `FLASH_SR` has shown no error. -/
structure StatusGood (b : Bank) (log : List F1Event) : Prop where
  idle : ∃ val ∈ log.filterMap (srOf b), val &&& f1SrBsy = 0
  last : ∃ val, (log.filterMap (srOf b)).getLast? = some val ∧ val &&& f1SrErrors = 0

/-- The `k`th page has been erased: a page erase of the bank that holds it has been started for one
of its addresses, the bank was not locked, and its status was good afterwards. -/
def PageErased (f : F1Region) (run : F1Run) (k : Nat) : Prop :=
  ∃ b a before behind, b = bankOf (f1Start + UInt32.ofNat (k * f.blocksize.toNat)) ∧
    (a.toNat - 0x08000000) / f.blocksize.toNat = k ∧
    run.log = before ++ [.cr b f1CrPer, .ar b a, .cr b (f1CrStrt ||| f1CrPer)] ++ behind ∧
    run.locks.locked b = false ∧ StatusGood b behind

/-- The byte at `x` has been programmed with the byte `i` of the source: a halfword on an even
address has been written that holds it, with PG set in `FLASH_CR` of the bank that holds it, the
bank was not locked, and its status was good afterwards. -/
def BytePut (run : F1Run) (x : UInt32) (i : Nat) : Prop :=
  ∃ b a j before behind, b = bankOf x ∧ a.toNat % 2 = 0 ∧ a.toNat ≤ x.toNat ∧
    x.toNat < a.toNat + 2 ∧ j + (x.toNat - a.toNat) = i ∧
    run.log = before ++ .halfword a j :: behind ∧
    (before.filterMap (crOf b)).getLast? = some f1CrPg ∧
    run.locks.locked b = false ∧ StatusGood b behind

namespace F1Range

variable {rs : List F1Region} (r : F1Range rs) (f : F1Region)

/-- The first page of a range. -/
def first : Nat := (r.addr.toNat - 0x08000000) / f.blocksize.toNat

/-- The last page of a range. -/
def last : Nat := (r.addr.toNat - 0x08000000 + r.len.toNat - 1) / f.blocksize.toNat

end F1Range

/-- The erase function returns 0 only if every page that the range intersects has been erased. -/
def EraseHonest {rs : List F1Region} (f : F1Region) (L : Locks) (r : F1Range rs) : Prop :=
  ∀ A fuel, (f1FlashErase L A f fuel r.addr r.len).ret = some 0 →
    ∀ k, r.first f ≤ k → k ≤ r.last f → PageErased f (f1FlashErase L A f fuel r.addr r.len) k

/-- The write function returns 0 only if every byte of the range has been programmed. -/
def WriteHonest {rs : List F1Region} (f : F1Region) (L : Locks) (r : F1Range rs) : Prop :=
  ∀ A fuel, (f1FlashWrite L A f fuel r.addr r.len).ret = some 0 →
    ∀ i < r.len.toNat, BytePut (f1FlashWrite L A f fuel r.addr r.len) (r.addr + UInt32.ofNat i) i

end MiyakoLink.Stm32
