import MiyakoLink.Lib.Effect

/-!
# Programs against a device on a bus

A host reads and writes the words of a device, asks the bus for errors and prints texts. The device
is any state machine. The programs are those of `EStateM`: the exception is for a loop whose turns
are used up, so that what a program keeps however it ends holds at every turn of its loops.

* `Emits`: what a program does, whatever the device, with a rule for each construct.
* `keeps_poll`: a loop that waits for a device keeps what reads and checks keep.
-/

namespace MiyakoLink.Lib

/-- A device: how it answers, and what becomes of it. -/
structure BusDevice (δ : Type) where
  read : UInt32 → δ → UInt32 × δ
  write32 : UInt32 → UInt32 → δ → δ
  write16 : UInt32 → UInt16 → δ → δ
  fault : δ → Bool × δ

/-- What a host does that others see. -/
inductive BusEvent where
  | write32 (addr val : UInt32)
  | write16 (addr : UInt32) (val : UInt16)
  | text (t : List UInt8)
  deriving DecidableEq

/-- A device and its host, which keeps `priv`. -/
structure BusHost (δ ρ : Type) where
  device : δ
  priv : ρ
  log : List BusEvent

/-- The turns of a loop are used up. -/
inductive TurnsUsed where
  | turnsUsed

abbrev BusM (δ ρ : Type) := EStateM TurnsUsed (BusHost δ ρ)

namespace BusDevice

variable {δ ρ : Type} (B : BusDevice δ)

def readWord (addr : UInt32) : BusM δ ρ UInt32 := do
  let s ← get
  set { s with device := (B.read addr s.device).2 }
  return (B.read addr s.device).1

def checkError : BusM δ ρ Bool := do
  let s ← get
  set { s with device := (B.fault s.device).2 }
  return (B.fault s.device).1

def writeWord (addr val : UInt32) : BusM δ ρ Unit :=
  modify fun s =>
    { s with device := B.write32 addr val s.device, log := s.log ++ [.write32 addr val] }

def writeHalf (addr : UInt32) (val : UInt16) : BusM δ ρ Unit :=
  modify fun s =>
    { s with device := B.write16 addr val s.device, log := s.log ++ [.write16 addr val] }

/-- `while (read(addr) & mask) if (error) return false; return true`. -/
def poll (addr mask : UInt32) : Nat → BusM δ ρ Bool
  | 0 => throw .turnsUsed
  | fuel + 1 => do
    if (← B.readWord addr) &&& mask = 0 then
      return true
    else if ← B.checkError then
      return false
    else
      poll addr mask fuel

end BusDevice

/-- The device is ready at one of the next `n` readings, and faultless until then. -/
inductive BusDevice.Settles {δ : Type} (B : BusDevice δ) (addr mask : UInt32) : Nat → δ → Prop
  | ready {n : Nat} {d : δ} (h : (B.read addr d).1 &&& mask = 0) : Settles B addr mask (n + 1) d
  | busy {n : Nat} {d : δ} (h : (B.read addr d).1 &&& mask ≠ 0)
    (hfault : (B.fault (B.read addr d).2).1 = false)
    (hrest : Settles B addr mask n (B.fault (B.read addr d).2).2) : Settles B addr mask (n + 1) d

def printText {δ ρ : Type} (t : List UInt8) : BusM δ ρ Unit :=
  modify fun s => { s with log := s.log ++ [.text t] }

/-! ## What programs do -/

section

variable {δ ρ α β : Type} {B : BusDevice δ} {priv : ρ}

/-- With any device the program ends with `a` and has done `new`. -/
def Emits (priv : ρ) (m : BusM δ ρ α) (a : α) (new : List BusEvent) : Prop :=
  ∀ d log, ∃ d', m ⟨d, priv, log⟩ = .ok a ⟨d', priv, log ++ new⟩

namespace Emits

theorem pure (a : α) : Emits priv (Pure.pure a : BusM δ ρ α) a [] :=
  fun d log => ⟨d, by rw [List.append_nil]; rfl⟩

theorem bind {m : BusM δ ρ α} {f : α → BusM δ ρ β} {a : α} {b : β} {new more : List BusEvent}
    (hm : Emits priv m a new) (hf : Emits priv (f a) b more) :
    Emits priv (m >>= f) b (new ++ more) := by
  intro d log
  obtain ⟨d₁, hfirst⟩ := hm d log
  obtain ⟨d₂, hsecond⟩ := hf d₁ (log ++ new)
  rw [List.append_assoc] at hsecond
  exact ⟨d₂, (bind_ok hfirst).trans hsecond⟩

theorem pure_bind {f : α → BusM δ ρ β} {a : α} {b : β} {new : List BusEvent}
    (h : Emits priv (f a) b new) : Emits priv (Pure.pure a >>= f) b new := h

theorem writeWord (addr val : UInt32) : Emits priv (B.writeWord addr val) () [.write32 addr val] :=
  fun d _ => ⟨B.write32 addr val d, rfl⟩

theorem printText (t : List UInt8) : Emits priv (printText t : BusM δ ρ Unit) () [.text t] :=
  fun d _ => ⟨d, rfl⟩

theorem ite_pos {c : Prop} [Decidable c] {m m' : BusM δ ρ α} {a : α} {new : List BusEvent} (hc : c)
    (h : Emits priv m a new) : Emits priv (if c then m else m') a new := by
  simpa only [hc, if_true] using h

theorem ite_neg {c : Prop} [Decidable c] {m m' : BusM δ ρ α} {a : α} {new : List BusEvent}
    (hc : ¬ c) (h : Emits priv m' a new) : Emits priv (if c then m else m') a new := by
  simpa only [hc, if_false] using h

end Emits

theorem BusDevice.Settles.poll_eq {addr mask : UInt32} {fuel : Nat} {d : δ}
    (h : B.Settles addr mask fuel d) (priv : ρ) (log : List BusEvent) :
    ∃ d', B.poll addr mask fuel ⟨d, priv, log⟩ = .ok true ⟨d', priv, log⟩ := by
  induction h with
  | @ready n d h =>
    refine ⟨(B.read addr d).2, ?_⟩
    show (if (B.read addr d).1 &&& mask = 0 then _ else _ : BusM δ ρ Bool) _ = _
    rw [if_pos h]
    rfl
  | @busy n d h hfault hrest ih =>
    obtain ⟨d', hpoll⟩ := ih
    refine ⟨d', ?_⟩
    show (if (B.read addr d).1 &&& mask = 0 then _ else _ : BusM δ ρ Bool) _ = _
    rw [if_neg h]
    show (if (B.fault (B.read addr d).2).1 = true then _ else _ : BusM δ ρ Bool) _ = _
    rw [hfault, if_neg Bool.false_ne_true]
    exact hpoll

/-- A loop that waits for a device that gets ready does nothing that others see. -/
theorem Emits.poll {addr mask : UInt32} {fuel : Nat} (h : ∀ d, B.Settles addr mask fuel d) :
    Emits priv (B.poll addr mask fuel) true [] := by
  intro d log
  rw [List.append_nil]
  exact (h d).poll_eq priv log

end

/-! ## What programs keep -/

section

variable {δ ρ : Type} {B : BusDevice δ} {I : BusHost δ ρ → Prop}

/-- `I` is not about the device. -/
def DeviceFree (I : BusHost δ ρ → Prop) : Prop := ∀ s d, I s → I { s with device := d }

theorem DeviceFree.keeps_readWord (h : DeviceFree I) (addr : UInt32) : Keeps I (B.readWord addr) :=
  fun s hs => h s _ hs

theorem DeviceFree.keeps_checkError (h : DeviceFree I) : Keeps I (B.checkError (ρ := ρ)) :=
  fun s hs => h s _ hs

theorem keeps_poll {addr : UInt32} (hread : Keeps I (B.readWord addr)) (hcheck : Keeps I B.checkError)
    (mask : UInt32) (fuel : Nat) : Keeps I (B.poll addr mask fuel) := by
  induction fuel with
  | zero => exact Keeps.throw _
  | succ fuel ih =>
    refine hread.bind fun w => Keeps.ite (Keeps.pure _) (hcheck.bind fun faulty => ?_)
    exact Keeps.ite (Keeps.pure _) ih

theorem keeps_forM {ε σ α : Type} {I : σ → Prop} {f : α → EStateM ε σ PUnit} {l : List α}
    (h : ∀ a ∈ l, Keeps I (f a)) : Keeps I (l.forM f) := by
  induction l with
  | nil => exact Keeps.pure _
  | cons a l ih =>
    exact (h a List.mem_cons_self).bind fun _ => ih fun b hb => h b (List.mem_cons_of_mem a hb)

theorem DeviceFree.keeps_poll (h : DeviceFree I) (addr mask : UInt32) (fuel : Nat) :
    Keeps I (B.poll addr mask fuel) :=
  Lib.keeps_poll (h.keeps_readWord addr) h.keeps_checkError mask fuel

end

end MiyakoLink.Lib
