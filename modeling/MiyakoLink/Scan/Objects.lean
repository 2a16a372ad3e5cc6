import Mathlib.Logic.Function.Basic
import MiyakoLink.Lib.Effect

/-!
# Targets, access ports and debug ports

The blocks that a scan takes from the pool. A debug port counts the access ports on it, an access
port the targets that hold it (`adiv5_ap_ref`, `adiv5_ap_unref`, `adiv5_dp_unref`); the other
blocks hang on a target and `target_list_free` gives them back with it.

What the devices, the pool and the clock answer is a script. A program that wants another answer
than the script has is `stuck`: there is no such run. The answers that have been used are kept.
-/

namespace MiyakoLink.Scan

open Lib

abbrev Ptr := Nat

/-- `EXCEPTION_ERROR` and `EXCEPTION_TIMEOUT`. -/
inductive Exception where
  | error
  | timeout
  deriving DecidableEq

/-- What a block is for. -/
inductive Use where
  | dp
  | ap
  | target
  | priv
  | commands
  | ram
  | flash
  | storage
  | scratch
  | rescueAp
  | rescueTarget
  | cortexaTarget
  | cortexaPriv
  | aapStorage
  deriving DecidableEq

/-- The access ports that are targets of their own, by `idr`. -/
inductive Idr where
  | kinetisMdm
  | nrf51Mdm
  | efm32Aap
  | other
  deriving DecidableEq

/-- What `adiv5_component_probe` makes of the registers of a component. -/
inductive Component where
  /-- Nothing that is probed further. -/
  | nothing
  | romTable
  /-- The ROM table of a protected SAMx5x. -/
  | protectedSamx5x
  | cortexm
  | cortexa
  deriving DecidableEq

/-- An entry of a ROM table. -/
inductive Entry where
  | last
  | notPresent
  | present
  deriving DecidableEq

/-- What the probe functions of the devices do. -/
inductive ProbeStep where
  | access
  | addCommands
  | addRam
  | addFlash
  /-- `target_mem_map_free`. -/
  | mapFree
  /-- A block for `target_storage`. The drivers take it once. -/
  | storage
  /-- A block that the function gives back itself. -/
  | scratch
  | done
  deriving DecidableEq

inductive Answer where
  /-- An access before there is a debug port, and the exception it raises if it does. -/
  | line (e : Option Exception)
  /-- The first read of `CTRLSTAT`. -/
  | ctrlstat (e : Option Exception)
  /-- Another access while a debug port is initialised. -/
  | access (e : Option Exception)
  | block (u : Use) (given : Bool)
  | acknowledged (b : Bool)
  | expired (b : Bool)
  /-- `ADIV5_AP_BASE` and `ADIV5_AP_IDR` of an access port, if it is usable. -/
  | accessPort (r : Option (UInt32 × Idr))
  | component (c : Component)
  | entry (e : Entry)
  | step (s : ProbeStep)
  /-- Is there a debug port, and does it have drops? -/
  | dpFound (multidrop : Option Bool)
  /-- The `IDCODE` that is read, if it can be. -/
  | idcode (r : Option UInt32)
  /-- How many of the devices of the chain have a JTAG-DP. -/
  | devices (n : Nat)
  deriving DecidableEq

/-- A block of the pool. -/
inductive Block where
  | plain
  | ap (refcnt : Int) (dp : Ptr)
  | dp (refcnt : Int)
  deriving DecidableEq

/-- `priv` with its `priv_free`. -/
inductive Priv where
  /-- `cortexm_priv_free`. -/
  | cortexm (block ap : Ptr)
  /-- `free`. -/
  | cortexa (block ap : Ptr)
  /-- `adiv5_ap_unref`. -/
  | ap (ap : Ptr)
  deriving DecidableEq

/-- A target: its own block, and those that hang on it. -/
structure Target where
  block : Ptr
  priv : Option Priv := none
  commands : List Ptr := []
  storage : Option Ptr := none
  ram : List Ptr := []
  /-- With the sector buffers. -/
  flash : List (Ptr × Option Ptr) := []
  bwList : List Ptr := []
  deriving DecidableEq

structure World where
  blocks : Ptr → Option Block
  /-- The pointers from here on have not been given out. -/
  next : Ptr
  targets : List Target
  script : List Answer
  answered : List Answer

inductive Abort where
  | exception (e : Exception)
  | nullDeref
  | useAfterFree
  | doubleFree
  | stuck
  deriving DecidableEq

abbrev M := EStateM Abort World

/-- The next answer. -/
def ask : M Answer := do
  let w ← get
  match w.script with
  | [] => throw .stuck
  | a :: rest =>
    set { w with script := rest, answered := w.answered ++ [a] }
    pure a

theorem ask_nil {w : World} (h : w.script = []) : ask w = .error .stuck w := by
  show (match w.script with | [] => throw .stuck | a :: rest => _ : M Answer) w = _
  rw [h]
  rfl

theorem ask_cons {w : World} {a : Answer} {rest : List Answer} (h : w.script = a :: rest) :
    ask w = .ok a { w with script := rest, answered := w.answered ++ [a] } := by
  show (match w.script with | [] => throw .stuck | a :: rest => _ : M Answer) w = _
  rw [h]
  rfl

/-- Runs `TRY_CATCH (e, mask)`. -/
def catching {α : Type} (mask : Exception → Bool) (m : M α) (h : Exception → M α) : M α :=
  tryCatch m fun
    | .exception e => if mask e then h e else throw (.exception e)
    | a => throw a

/-! ## The pool -/

def World.setBlock (w : World) (p : Ptr) (b : Block) : World :=
  { w with blocks := Function.update w.blocks p (some b) }

def World.freeBlock (w : World) (p : Ptr) : World :=
  { w with blocks := Function.update w.blocks p none }

/-- `MemManager_Alloc`. -/
def alloc (u : Use) (b : Block) : M (Option Ptr) := do
  match ← ask with
  | .block u' given =>
    if u' = u then
      if given then
        let w ← get
        set { w.setBlock w.next b with next := w.next + 1 }
        pure (some w.next)
      else
        pure none
    else
      throw .stuck
  | _ => throw .stuck

/-- `MemManager_Free`. -/
def free (p : Ptr) : M Unit := do
  let w ← get
  match w.blocks p with
  | some _ => set (w.freeBlock p)
  | none => throw .doubleFree

theorem free_ok {w : World} {p : Ptr} {b : Block} (h : w.blocks p = some b) :
    free p w = .ok () (w.freeBlock p) := by
  show (match w.blocks p with | some _ => set (w.freeBlock p) | none => throw .doubleFree : M Unit)
    w = _
  rw [h]
  rfl

theorem free_gone {w : World} {p : Ptr} (h : w.blocks p = none) :
    free p w = .error .doubleFree w := by
  show (match w.blocks p with | some _ => set (w.freeBlock p) | none => throw .doubleFree : M Unit)
    w = _
  rw [h]
  rfl

/-- `MemManager_Free`, which takes a null pointer. -/
def freeOpt : Option Ptr → M Unit
  | some p => free p
  | none => pure ()

/-! ## Reference counts -/

def getAp (a : Ptr) : M (Int × Ptr) := do
  match (← get).blocks a with
  | some (.ap refcnt dp) => pure (refcnt, dp)
  | _ => throw .useAfterFree

def getDp (d : Ptr) : M Int := do
  match (← get).blocks d with
  | some (.dp refcnt) => pure refcnt
  | _ => throw .useAfterFree

theorem getAp_ok {w : World} {a d : Ptr} {n : Int} (h : w.blocks a = some (.ap n d)) :
    getAp a w = .ok (n, d) w := by
  show (match w.blocks a with | some (.ap refcnt dp) => _ | _ => _ : M (Int × Ptr)) w = _
  rw [h]
  rfl

theorem getDp_ok {w : World} {d : Ptr} {n : Int} (h : w.blocks d = some (.dp n)) :
    getDp d w = .ok n w := by
  show (match w.blocks d with | some (.dp refcnt) => _ | _ => _ : M Int) w = _
  rw [h]
  rfl

theorem getAp_cases (a : Ptr) (w : World) :
    (∃ ap, getAp a w = .ok ap w) ∨ getAp a w = .error .useAfterFree w := by
  have heq : getAp a w = (match w.blocks a with
      | some (.ap refcnt dp) => pure (refcnt, dp)
      | _ => throw .useAfterFree : M (Int × Ptr)) w := rfl
  rw [heq]
  rcases w.blocks a with _ | _ | ⟨n, d⟩ | _
  · exact .inr rfl
  · exact .inr rfl
  · exact .inl ⟨(n, d), rfl⟩
  · exact .inr rfl

theorem getDp_cases (d : Ptr) (w : World) :
    (∃ n, getDp d w = .ok n w) ∨ getDp d w = .error .useAfterFree w := by
  have heq : getDp d w = (match w.blocks d with
      | some (.dp refcnt) => pure refcnt
      | _ => throw .useAfterFree : M Int) w := rfl
  rw [heq]
  rcases w.blocks d with _ | _ | _ | n
  · exact .inr rfl
  · exact .inr rfl
  · exact .inr rfl
  · exact .inl ⟨n, rfl⟩

def setBlock (p : Ptr) (b : Block) : M Unit := modify fun w => w.setBlock p b

/-- `adiv5_ap_ref`. -/
def apRef (a : Ptr) : M Unit := do
  let ap ← getAp a
  if ap.1 = 0 then do
    let refcnt ← getDp ap.2
    setBlock ap.2 (.dp (refcnt + 1))
  setBlock a (.ap (ap.1 + 1) ap.2)

/-- `dp->refcnt++`. -/
def dpRef (d : Ptr) : M Unit := do
  let refcnt ← getDp d
  setBlock d (.dp (refcnt + 1))

/-- `adiv5_dp_unref`. -/
def dpUnref (d : Ptr) : M Unit := do
  let refcnt ← getDp d
  setBlock d (.dp (refcnt - 1))
  if refcnt - 1 = 0 then
    free d

/-- `adiv5_ap_unref`. -/
def apUnref (a : Ptr) : M Unit := do
  let ap ← getAp a
  setBlock a (.ap (ap.1 - 1) ap.2)
  if ap.1 - 1 = 0 then do
    dpUnref ap.2
    free a

/-! ## Targets -/

/-- `target_new`. -/
def targetNew (u : Use) : M (Option Ptr) := do
  match ← alloc u .plain with
  | none => pure none
  | some t =>
    modify fun w => { w with targets := w.targets ++ [{ block := t }] }
    pure (some t)

def World.modifyTarget (w : World) (t : Ptr) (f : Target → Target) : World :=
  { w with targets := w.targets.map fun u => if u.block = t then f u else u }

def modifyTarget (t : Ptr) (f : Target → Target) : M Unit := modify fun w => w.modifyTarget t f

/-- `target_add_commands`. -/
def targetAddCommands (t : Ptr) : M Unit := do
  match ← alloc .commands .plain with
  | none => pure ()
  | some p => modifyTarget t fun u => { u with commands := u.commands ++ [p] }

/-- `target_add_ram`. -/
def targetAddRam (t : Ptr) : M Unit := do
  match ← alloc .ram .plain with
  | none => pure ()
  | some p => modifyTarget t fun u => { u with ram := p :: u.ram }

/-- The `add_flash` of a driver. -/
def addFlash (t : Ptr) : M Unit := do
  match ← alloc .flash .plain with
  | none => pure ()
  | some p => modifyTarget t fun u => { u with flash := (p, none) :: u.flash }

/-- The regions of flash go with their buffers. -/
def freeFlash : List (Ptr × Option Ptr) → M Unit
  | [] => pure ()
  | f :: rest => do
    freeOpt f.2
    free f.1
    freeFlash rest

def freeAll : List Ptr → M Unit
  | [] => pure ()
  | p :: rest => do
    free p
    freeAll rest

/-- The blocks of `target_mem_map_free`. -/
def freeMap (u : Target) : M Unit := do
  freeAll u.ram
  freeFlash u.flash

/-- `target_mem_map_free`. -/
def targetMemMapFree (t : Ptr) : M Unit := do
  match (← get).targets.find? fun u => u.block = t with
  | none => throw .useAfterFree
  | some u =>
    freeMap u
    modifyTarget t fun u => { u with ram := [], flash := [] }

theorem targetMemMapFree_ok {w : World} {t : Ptr} {u : Target}
    (h : w.targets.find? (fun u => u.block = t) = some u) : targetMemMapFree t w =
      (freeMap u >>= fun _ => modifyTarget t fun u => { u with ram := [], flash := [] }) w := by
  show (match w.targets.find? (fun u => u.block = t) with
    | none => throw .useAfterFree
    | some u => _ : M Unit) w = _
  rw [h]

/-- `priv_free`. The `free` of the C library gives nothing back to the pool. -/
def privFree : Priv → M Unit
  | .cortexm block ap => do
    apUnref ap
    free block
  | .cortexa _ _ => pure ()
  | .ap ap => apUnref ap

/-- What `target_list_free` does with a target. -/
def targetFree (u : Target) : M Unit := do
  match u.priv with
  | some priv => privFree priv
  | none => pure ()
  freeAll u.commands
  freeOpt u.storage
  freeMap u
  freeAll u.bwList
  free u.block

def freeTargets : List Target → M Unit
  | [] => pure ()
  | u :: rest => do
    targetFree u
    freeTargets rest

/-- `target_list_free`. -/
def targetListFree : M Unit := do
  freeTargets (← get).targets
  modify fun w => { w with targets := [] }

end MiyakoLink.Scan
