import Mathlib.Algebra.Group.Nat.Defs
import Mathlib.Tactic.Common
import MiyakoLink.Lib.Patch

/-!
# Flash regions of a target and the calls made on their drivers

`FlashRegion` is what a driver registers with `target_add_flash`: the range, the block
buffer size and the driver's callbacks, which act on an environment `σ` (the target, its
controller, the probe's transports). `TargetFlash` adds the one-block write cache that
`target.c` keeps in front of the driver. The bytes are of any type `β`: the code moves them
and never looks at them.

Every call that leaves `target.c` (driver callbacks and the buffer allocation) goes through
`World.call`, which records it; no function of the model reads the record.
-/

namespace MiyakoLink.Flash

open Lib

/-- The `int` results of the flash functions. -/
abbrev Ret := BitVec 32

/-- `buf_addr` of a region without a valid block: `(uint32_t)-1`. -/
abbrev invalidAddr : UInt32 := 0xFFFFFFFF

/-- The part of `struct target_flash` that the driver fills in. `target_add_flash` sets
`buf_size` from the block size when it is zero, so it divides every address below. -/
structure FlashRegion (σ β : Type) where
  start : UInt32
  length : UInt32
  blocksize : UInt32
  erase : UInt32 → UInt32 → σ → Ret × σ
  write : UInt32 → List β → UInt32 → σ → Ret × σ
  done : Option (σ → Ret × σ)
  erased : β
  bufSize : UInt32
  bufSize_ne_zero : bufSize ≠ 0

/-- `struct target_flash`: a region and its write cache. -/
structure TargetFlash (σ β : Type) extends FlashRegion σ β where
  bufAddr : UInt32
  buf : Option (List β)

/-- `MemManager_Alloc` and `MemManager_Free` as the flash code uses them: an allocation
may fail, and a block starts out with every byte `zero`. -/
structure Heap (σ β : Type) where
  zero : β
  alloc : UInt32 → σ → Bool × σ
  free : σ → σ

/-- A call made by `target.c` on the code below it. -/
inductive FlashCall (β : Type) where
  | alloc (size : UInt32)
  | erase (addr len : UInt32)
  | write (addr : UInt32) (data : List β) (len : UInt32)
  | done
  deriving DecidableEq, Repr

/-- A recorded call: the region it was issued on, the flash session it fell in, and its
result (for `alloc`, nonzero when it returned `NULL`). -/
structure DriverCall (β : Type) where
  region : Nat
  session : Nat
  call : FlashCall β
  ret : Ret
  deriving DecidableEq, Repr

/-- The environment, the calls made on it so far, and the number of the flash session. -/
structure World (σ β : Type) where
  env : σ
  log : List (DriverCall β)
  session : Nat

variable {σ β : Type}

/-- Make a call and record it. -/
def World.call (w : World σ β) (i : Nat) (c : FlashCall β) (r : Ret × σ) :
    Ret × World σ β :=
  (r.1, { w with env := r.2, log := w.log ++ [⟨i, w.session, c, r.1⟩] })

@[simp] theorem World.call_ret (w : World σ β) (i : Nat) (c : FlashCall β) (r : Ret × σ) :
    (w.call i c r).1 = r.1 := rfl

@[simp] theorem World.call_env (w : World σ β) (i : Nat) (c : FlashCall β) (r : Ret × σ) :
    (w.call i c r).2.env = r.2 := rfl

@[simp] theorem World.call_log (w : World σ β) (i : Nat) (c : FlashCall β) (r : Ret × σ) :
    (w.call i c r).2.log = w.log ++ [⟨i, w.session, c, r.1⟩] := rfl

@[simp] theorem World.call_session (w : World σ β) (i : Nat) (c : FlashCall β) (r : Ret × σ) :
    (w.call i c r).2.session = w.session := rfl

theorem forall_mem_call_log {w : World σ β} {P : DriverCall β → Prop}
    (hlog : ∀ c ∈ w.log, P c) {i : Nat} {c : FlashCall β} {r : Ret × σ} (h : P ⟨i, w.session, c, r.1⟩) :
    ∀ c' ∈ (w.call i c r).2.log, P c' := by
  intro c' hc'
  rw [World.call_log] at hc'
  rcases List.mem_append.mp hc' with hc' | hc'
  · exact hlog c' hc'
  · rw [List.mem_singleton.mp hc']
    exact h

/-- The macro `MIN`. -/
def min32 (x y : UInt32) : UInt32 := if x < y then x else y

theorem min32_toNat (x y : UInt32) : (min32 x y).toNat = min x.toNat y.toNat := by
  unfold min32
  split
  · rename_i h
    have := UInt32.lt_iff_toNat_lt.mp h
    omega
  · rename_i h
    have := mt UInt32.lt_iff_toNat_lt.mpr h
    omega

/-- Results accumulate with `|=`: the accumulated one is zero when all of them are. -/
theorem or_eq_zero {a b : Ret} : a ||| b = 0 ↔ a = 0 ∧ b = 0 := BitVec.or_eq_zero_iff

namespace TargetFlash

/-- The test of `target_flash_done_buffered`: the region holds data not yet written. -/
def Pending (f : TargetFlash σ β) : Prop := f.buf ≠ none ∧ f.bufAddr ≠ invalidAddr

instance (f : TargetFlash σ β) : Decidable f.Pending :=
  match h : f.buf with
  | none => isFalse fun hp => hp.1 h
  | some _ => decidable_of_iff (f.bufAddr ≠ invalidAddr) (by simp [Pending, h])

/-- `f->write(f, f->buf_addr, f->buf, f->buf_size)`. -/
def writeBlock (f : TargetFlash σ β) (i : Nat) (w : World σ β) : Ret × World σ β :=
  w.call i (.write f.bufAddr (f.buf.getD []) f.bufSize)
    (f.write f.bufAddr (f.buf.getD []) f.bufSize w.env)

end TargetFlash

/-- The test of `flash_for_addr`, with its wrapping sum. -/
def FlashRegion.covers (f : FlashRegion σ β) (addr : UInt32) : Bool :=
  f.start ≤ addr && addr < f.start + f.length

/-- `flash_for_addr`: the first region of the list that covers the address. -/
def flashForAddr (flash : List (TargetFlash σ β)) (addr : UInt32) : Option (Fin flash.length) :=
  flash.findFinIdx? fun f => f.covers addr

end MiyakoLink.Flash
