import MiyakoLink.Erase.Sectors

/-!
# The erase function of the SAM D5x/E5x parts

`samx5x_flash_erase` looks at the boot protection and at the lock of the first region, and then
erases blocks until the length is used up, which `len -= f->blocksize` only does if it is a
multiple of the block size.
-/

namespace MiyakoLink.Erase

open Flash Lib

/-- What the NVM controller answers: `INTFLAG`, `STATUS`, `RUNLOCK` and `PARAM` at the begin, and
behind the `k`th erase command, in the `i`th turn, `STATUS`, `target_check_error` and `INTFLAG`. -/
structure Samx5x where
  intflag : UInt16
  status : UInt16
  runlock : UInt32
  param : UInt32
  ready : Nat → Nat → UInt16
  fault : Nat → Nat → Bool
  flags : Nat → Nat → UInt16
  /-- The flash has pages. -/
  pages : param &&& 0xFFFF ≠ 0

/-- A write to a register of the controller; a command with the contents of `ADDRESS`. -/
inductive NvmcWrite where
  | intflag (val : UInt16)
  | address (val : UInt32)
  | ctrlb (cmd address : UInt32)
  deriving DecidableEq

abbrev samx5xPageSize : UInt32 := 512

abbrev samx5xBlockSize : UInt32 := 8192

abbrev ctrlbCmdKey : UInt32 := 0xA500

abbrev ctrlbCmdEraseblock : UInt32 := 0x0001

abbrev ctrlbCmdLock : UInt32 := 0x0011

abbrev ctrlbCmdUnlock : UInt32 := 0x0012

/-- `ADDRE`, `PROGE`, `LOCKE` and `NVME`. -/
abbrev nvmErrors : UInt16 := 0x4E

/-- The block that a write erases. -/
def NvmcWrite.erased : NvmcWrite → Option UInt32
  | ctrlb cmd a => if cmd = ctrlbCmdKey ||| ctrlbCmdEraseblock then some a else none
  | _ => none

namespace Samx5x

variable (C : Samx5x)

/-- `target_check_error(t) || samx5x_check_nvm_error(t)`. -/
def failed (k i : Nat) : Bool := C.fault k i || C.flags k i &&& nvmErrors != 0

/-- A turn of the loop that polls for NVM ready, with the check behind it. -/
def turn (k i : Nat) : Option Bool :=
  if C.ready k i &&& 1 = 0 then (if C.failed k i then some false else none)
  else some !C.failed k i

/-- The boot protection or the lock of a region is going to prevent it. -/
def locked (addr : UInt32) : Bool :=
  let bootprot := (C.status >>> 8 &&& 0xF).toUInt32
  let flashSize := (C.param &&& 0xFFFF) * samx5xPageSize
  let region := addr / (flashSize >>> 5)
  addr < (15 - bootprot) * 8192 ||
    ~~~C.runlock &&& (if region < 32 then 1 <<< region else 0) != 0

/-- The body of the loop. -/
def eraseBlock (fuel : Nat) (s : Nat × UInt32) : List NvmcWrite × Option Bool :=
  let log := [.address s.2, .ctrlb (ctrlbCmdKey ||| ctrlbCmdUnlock) s.2,
    .ctrlb (ctrlbCmdKey ||| ctrlbCmdEraseblock) s.2]
  match poll (C.turn s.1) fuel with
  | some true => (log ++ [.ctrlb (ctrlbCmdKey ||| ctrlbCmdLock) s.2], some true)
  | e => (log, e)

/-- `samx5x_flash_erase`: the writes, and the result if it has come back. -/
def flashErase (fuel : Nat) (addr len : UInt32) : List NvmcWrite × Option Ret :=
  let clear := if C.intflag &&& nvmErrors ≠ 0 then [.intflag nvmErrors] else []
  if C.locked addr then (clear, some (-1))
  else
    let s := sweep (wrapping samx5xBlockSize) (advance samx5xBlockSize) (C.eraseBlock fuel) fuel
      len (0, addr)
    (clear ++ s.1, s.2.map fun ok => if ok then 0 else -1)

/-- The blocks it erases, and its result. -/
def run (addr len : UInt32) (fuel : Nat) : List Nat × Option Ret :=
  (((C.flashErase fuel addr len).1.filterMap NvmcWrite.erased).map (sectorOf 0 samx5xBlockSize),
    (C.flashErase fuel addr len).2)

/-- How the `k`th command ends. -/
abbrev Outcome (k : Nat) (ok : Bool) : Prop := Leaves (C.turn k) ok

end Samx5x

variable {C : Samx5x}

theorem Samx5x.eraseBlock_erased (fuel : Nat) (s : Nat × UInt32) :
    (C.eraseBlock fuel s).1.filterMap NvmcWrite.erased = [s.2] := by
  unfold eraseBlock
  split
  · rfl
  · rfl

theorem Samx5x.eraseBlock_snd (fuel : Nat) (s : Nat × UInt32) :
    (C.eraseBlock fuel s).2 = poll (C.turn s.1) fuel := by
  unfold eraseBlock
  split
  · next h => exact h.symm
  · rfl

theorem Samx5x.commands : Commands (2 ^ 32) NvmcWrite.erased C.eraseBlock C.Outcome where
  only fuel k a _ x hx := by
    rw [eraseBlock_erased] at hx
    exact List.mem_singleton.mp hx
  once fuel k a b _ _ := eraseBlock_erased fuel (k, a)
  sound fuel k a b h := by
    rw [eraseBlock_snd] at h
    exact Leaves.of_poll h
  enough k b h := by
    obtain ⟨n, hn⟩ := h.poll
    refine ⟨n, fun fuel hfuel a => ?_⟩
    rw [eraseBlock_snd]
    exact hn fuel hfuel

theorem Samx5x.run_locked {addr : UInt32} (h : C.locked addr = true) (len : UInt32) (fuel : Nat) :
    C.run addr len fuel = ([], some (-1)) := by
  unfold run flashErase
  rw [if_pos h]
  dsimp only
  split
  · rfl
  · rfl

theorem Samx5x.run_unlocked {length : UInt32} {r : Span 0 length samx5xBlockSize}
    (h : ¬ C.locked r.addr = true) :
    C.run r.addr r.len =
      runOf NvmcWrite.erased (-1) (wrapping samx5xBlockSize) C.eraseBlock r := by
  funext fuel
  have hclear : (if C.intflag &&& nvmErrors ≠ 0 then [NvmcWrite.intflag nvmErrors] else []).filterMap
      NvmcWrite.erased = [] := by
    split
    · rfl
    · rfl
  unfold run flashErase
  rw [if_neg h]
  dsimp only
  rw [List.filterMap_append, hclear, List.nil_append]
  rfl

/-- The function returns early, or a block of the range is refused, or all blocks are taken and
the length is a multiple of the block size. -/
theorem Samx5x.erasesWell_iff {length : UInt32} (r : Span 0 length samx5xBlockSize)
    (hlength : length.toNat ≤ 0x100000) :
    ErasesWell r (C.run r.addr r.len) ↔
      C.locked r.addr = true ∨
      (∃ k < r.count, (∀ j < k, C.Outcome j true) ∧ C.Outcome k false) ∨
      8192 ∣ r.len.toNat ∧ ∀ j < r.count, C.Outcome j true := by
  by_cases hlocked : C.locked r.addr = true
  · constructor
    · intro _
      exact Or.inl hlocked
    · intro _
      have hrun := run_locked hlocked r.len
      constructor
      case ends => exact ⟨0, by rw [hrun]; exact Option.some_ne_none _⟩
      case complete =>
        intro fuel hzero
        rw [hrun] at hzero
        exact absurd (Option.some.inj hzero) (by decide)
      case inside =>
        intro fuel k hk
        rw [hrun] at hk
        exact absurd hk List.not_mem_nil
  · have hbelow : Below (2 ^ 32) 0 length samx5xBlockSize := by
      have hsize : samx5xBlockSize.toNat = 8192 := rfl
      refine ⟨by decide, ?_, Nat.le_refl _⟩
      rw [hsize, UInt32.toNat_zero]
      omega
    have hiff := wrapping_iff (r := r) (e := -1) C.commands (by decide) hbelow
      ⟨2 ^ 19, rfl⟩
    rw [run_unlocked hlocked]
    constructor
    · intro h
      exact Or.inr (hiff.mp h)
    · intro h
      exact hiff.mpr (h.resolve_left hlocked)

end MiyakoLink.Erase
