import Mathlib.Logic.Function.Basic
import MiyakoLink.Gdb.Access
import MiyakoLink.Lib.Effect
import MiyakoLink.Monitor.Packets

/-!
# Controllers and targets of the packet loops

A controller owns a list of targets and points to the one that is debugged (`cur_target`) and to
the one that was (`last_target`). A target points back to a controller (`tc`), whose pointers are
cleared when the target is freed.

What comes from outside is a script: packets, characters, and what the functions of the drivers do
on the way to their end. They may lose the connection, which frees the list of the target's
controller, and they may serve packets during a system call. A program that wants another answer
than the script has is `stuck`, so the state in which a script ends is one that a run reaches. The
trace says what has happened.
-/

namespace MiyakoLink.Session

open Lib

abbrev Text := List UInt8

abbrev Ptr := Nat

/-- The controllers: the `gdb_controller` of `gdb_main.c`, which is static, and those that
`gdb_main_init_target_controller` sets up. -/
inductive Ctl where
  | gdbController
  | initialised (n : Nat)
  deriving DecidableEq

/-- `struct target_controller`, as far as the packet loops use it. -/
structure Controller where
  targetList : List Ptr := []
  curTarget : Option Ptr := none
  lastTarget : Option Ptr := none
  flashMode : Bool := false
  deriving DecidableEq

/-- A target. The numbers stand for the handlers of its commands. -/
structure Target where
  tc : Option Ctl := none
  attached : Bool := false
  commands : List (List (Monitor.Command Nat)) := []

/-- `EXCEPTION_ERROR` and `EXCEPTION_TIMEOUT`. -/
inductive Exception where
  | error
  | timeout
  deriving DecidableEq

inductive Answer where
  /-- What `gdb_getpacket` returns. -/
  | packet (p : Text)
  /-- What `gdb_if_getchar_to` returns. -/
  | key (c : UInt8)
  /-- A function of a driver waits for the answer to a system call. -/
  | syscall
  /-- It gets an error from the connection while it polls the target. -/
  | lost
  | returned (v : Int)
  | raised (e : Exception)
  /-- The scan makes a target. -/
  | found (commands : List (List (Monitor.Command Nat)))
  /-- The probe function gives the target its controller. -/
  | probed
  | scanned (devs : Int)
  /-- Has the pool a block? -/
  | block (given : Bool)
  /-- What a packet for the memory or the registers asks of the target, and the answer. -/
  | access (h : Gdb.Handled)

/-- The functions of a target. -/
inductive Operation where
  | attach
  | detach
  | reset
  | haltResume (step : Bool)
  | haltPoll
  | haltRequest
  | regsRead
  | access (o : Gdb.Operation)
  | crc
  | setCmdline
  | flashErase
  | flashWrite
  | flashDone
  | command
  deriving DecidableEq

inductive Reply where
  | text (s : Text)
  /-- What is read from the target. -/
  | data
  deriving DecidableEq

inductive Event where
  | packet (p : Text)
  | operation (o : Operation) (t : Ptr)
  | reply (r : Reply)

structure World where
  controllers : Ctl → Controller
  /-- The targets that are allocated. -/
  targets : Ptr → Option Target
  /-- The pointers from here on have not been given out. -/
  next : Ptr
  script : List Answer
  trace : List Event

inductive Fault where
  | nullDeref
  | useAfterFree
  | stuck
  deriving DecidableEq

/-- How a program is left. `nested` is a fault in the loop that serves packets during a system
call. -/
inductive Abort where
  | exception (e : Exception)
  | fault (f : Fault)
  | nested (f : Fault)
  deriving DecidableEq

abbrev M := EStateM Abort World

def ask : M Answer := do
  let w ← get
  match w.script with
  | [] => throw (.fault .stuck)
  | a :: rest =>
    set { w with script := rest }
    pure a

theorem ask_nil {w : World} (h : w.script = []) : ask w = .error (.fault .stuck) w := by
  show (match w.script with | [] => throw (.fault .stuck) | a :: rest => _ : M Answer) w = _
  rw [h]
  rfl

theorem ask_cons {w : World} {a : Answer} {rest : List Answer} (h : w.script = a :: rest) :
    ask w = .ok a { w with script := rest } := by
  show (match w.script with | [] => throw (.fault .stuck) | a :: rest => _ : M Answer) w = _
  rw [h]
  rfl

def record (e : Event) : M Unit := modify fun w => { w with trace := w.trace ++ [e] }

/-- `gdb_putpacket` and its kin. -/
def put (r : Reply) : M Unit := record (.reply r)

def putText (s : String) : M Unit := put (.text (ascii s))

/-- `TRY_CATCH (e, EXCEPTION_ALL)`. -/
def catching {α : Type} (m : M α) (h : Exception → M α) : M α :=
  tryCatch m fun
    | .exception e => h e
    | a => throw a

/-- A fault in a loop inside of a call is one of the packets there. -/
def inner {α : Type} (m : M α) : M α :=
  tryCatch m fun
    | .fault f => throw (.nested f)
    | a => throw a

/-! ## Controllers -/

def World.modifyController (w : World) (c : Ctl) (f : Controller → Controller) : World :=
  { w with controllers := Function.update w.controllers c (f (w.controllers c)) }

@[simp] theorem World.modifyController_self (w : World) (c : Ctl) (f : Controller → Controller) :
    (w.modifyController c f).controllers c = f (w.controllers c) := Function.update_self ..

theorem World.modifyController_of_ne (w : World) {c c' : Ctl} (h : c' ≠ c)
    (f : Controller → Controller) :
    (w.modifyController c f).controllers c' = w.controllers c' := Function.update_of_ne h ..

def controller (c : Ctl) : M Controller := do
  let w ← get
  pure (w.controllers c)

def modifyController (c : Ctl) (f : Controller → Controller) : M Unit :=
  modify fun w => w.modifyController c f

def curTarget (c : Ctl) : M (Option Ptr) := do
  let C ← controller c
  pure C.curTarget

def setCurTarget (c : Ctl) (t : Option Ptr) : M Unit :=
  modifyController c fun C => { C with curTarget := t }

def setLastTarget (c : Ctl) (t : Option Ptr) : M Unit :=
  modifyController c fun C => { C with lastTarget := t }

def setFlashMode (c : Ctl) (b : Bool) : M Unit :=
  modifyController c fun C => { C with flashMode := b }

/-- `gdb_target_destroy_callback`. -/
def Controller.destroyCallback (t : Ptr) (C : Controller) : Controller :=
  { C with
    curTarget := if C.curTarget = some t then none else C.curTarget
    lastTarget := if C.lastTarget = some t then none else C.lastTarget }

def destroyCallback (c : Ctl) (t : Ptr) : M Unit := modifyController c (·.destroyCallback t)

/-! ## Targets -/

/-- A pointer is followed. -/
def deref : Option Ptr → M Ptr
  | some t => pure t
  | none => throw (.fault .nullDeref)

def getTarget (t : Ptr) : M Target := do
  let w ← get
  match w.targets t with
  | some T => pure T
  | none => throw (.fault .useAfterFree)

theorem getTarget_ok {w : World} {t : Ptr} {T : Target} (h : w.targets t = some T) :
    getTarget t w = .ok T w := by
  show (match w.targets t with | some T => pure T | none => throw (.fault .useAfterFree) : M Target)
    w = _
  rw [h]
  rfl

theorem getTarget_gone {w : World} {t : Ptr} (h : w.targets t = none) :
    getTarget t w = .error (.fault .useAfterFree) w := by
  show (match w.targets t with | some T => pure T | none => throw (.fault .useAfterFree) : M Target)
    w = _
  rw [h]
  rfl

def World.setTarget (w : World) (t : Ptr) (T : Option Target) : World :=
  { w with targets := Function.update w.targets t T }

@[simp] theorem World.setTarget_self (w : World) (t : Ptr) (T : Option Target) :
    (w.setTarget t T).targets t = T := Function.update_self ..

theorem World.setTarget_of_ne (w : World) {t u : Ptr} (h : u ≠ t) (T : Option Target) :
    (w.setTarget t T).targets u = w.targets u := Function.update_of_ne h ..

def setTarget (t : Ptr) (T : Option Target) : M Unit := modify fun w => w.setTarget t T

/-- `t->tc`, where it is followed. -/
def getTc (t : Ptr) : M Ctl := do
  let T ← getTarget t
  match T.tc with
  | some c => pure c
  | none => throw (.fault .nullDeref)

/-- `target_new`. -/
def targetNew (c : Ctl) (commands : List (List (Monitor.Command Nat))) : M Unit := do
  let w ← get
  set { w with next := w.next + 1 }
  setTarget w.next (some { commands := commands })
  modifyController c fun C => { C with targetList := C.targetList ++ [w.next] }

/-- The controller of a target, if it has one, forgets it. -/
def forget (t : Ptr) (T : Target) : M Unit :=
  match T.tc with
  | some c => destroyCallback c t
  | none => pure ()

/-- What `target_list_free` does with a target. -/
def targetFree (t : Ptr) : M Unit := do
  let T ← getTarget t
  forget t T
  setTarget t none

def freeTargets : List Ptr → M Unit
  | [] => pure ()
  | t :: rest => do
    targetFree t
    freeTargets rest

/-- `target_list_free`. -/
def targetListFree (c : Ctl) : M Unit := do
  let C ← controller c
  freeTargets C.targetList
  modifyController c fun C => { C with targetList := [] }

/-! ## Functions of a target -/

section

-- The loop that serves packets during a system call, and how many turns a loop may take.
variable (nested : Ctl → M Unit) (fuel : Nat)

/-- What a function of a driver does until its end. -/
def driver (t : Ptr) : Nat → M Int
  | 0 => throw (.fault .stuck)
  | fuel + 1 => do
    match ← ask with
    | .returned v => pure v
    | .raised e => throw (.exception e)
    | .lost => do
      targetListFree (← getTc t)
      driver t fuel
    | .syscall => do
      inner (nested (← getTc t))
      driver t fuel
    | _ => throw (.fault .stuck)

/-- A call through the target. -/
def call (o : Operation) (t : Option Ptr) : M Int := do
  let t ← deref t
  discard (getTarget t)
  record (.operation o t)
  driver nested t fuel

/-- A call is its driver. -/
theorem call_eq {w : World} {t : Ptr} {T : Target} (o : Operation) (hT : w.targets t = some T) :
    call nested fuel o (some t) w =
      driver nested t fuel { w with trace := w.trace ++ [.operation o t] } := by
  have hget : (discard (getTarget t) : M Unit) w = .ok () w := by
    show EStateM.map (Function.const Target PUnit.unit) (getTarget t) w = _
    rw [EStateM.map, getTarget_ok hT]
  have hderef : deref (some t) w = .ok t w := rfl
  have hrecord : record (.operation o t) w =
      .ok () { w with trace := w.trace ++ [.operation o t] } := rfl
  unfold call
  rw [bind_ok hderef, bind_ok hget, bind_ok hrecord]

theorem call_gone {w : World} {t : Ptr} (o : Operation) (hT : w.targets t = none) :
    call nested fuel o (some t) w = .error (.fault .useAfterFree) w := by
  have hget : (discard (getTarget t) : M Unit) w = .error (.fault .useAfterFree) w := by
    show EStateM.map (Function.const Target PUnit.unit) (getTarget t) w = _
    rw [EStateM.map, getTarget_gone hT]
  have hderef : deref (some t) w = .ok t w := rfl
  unfold call
  rw [bind_ok hderef]
  exact bind_error hget

/-- `target_attach`: the target, or NULL. -/
def targetAttach (t : Ptr) (c : Ctl) : M (Option Ptr) := do
  let T ← getTarget t
  forget t T
  setTarget t (some { T with tc := some c })
  let ok ← call nested fuel .attach (some t)
  if ok = 0 then pure none
  else do
    let T ← getTarget t
    setTarget t (some { T with attached := true })
    pure (some t)

/-- The loop of `target_attach_n`, which counts from `i`. -/
def nthTarget (n : Int) : Int → List Ptr → Option Ptr
  | _, [] => none
  | i, t :: rest => if i = n then some t else nthTarget n (i + 1) rest

/-- `target_attach_n`. -/
def targetAttachN (n : Int) (c : Ctl) : M (Option Ptr) := do
  let C ← controller c
  match nthTarget n 1 C.targetList with
  | some t => targetAttach nested fuel t c
  | none => pure none

theorem targetAttachN_some {n : Int} {c : Ctl} {t : Ptr} {w : World}
    (h : nthTarget n 1 (w.controllers c).targetList = some t) :
    targetAttachN nested fuel n c w = targetAttach nested fuel t c w := by
  show (match nthTarget n 1 (w.controllers c).targetList with
    | some t => targetAttach nested fuel t c
    | none => pure none : M (Option Ptr)) w = _
  rw [h]

theorem targetAttachN_none {n : Int} {c : Ctl} {w : World}
    (h : nthTarget n 1 (w.controllers c).targetList = none) :
    targetAttachN nested fuel n c w = .ok none w := by
  show (match nthTarget n 1 (w.controllers c).targetList with
    | some t => targetAttach nested fuel t c
    | none => pure none : M (Option Ptr)) w = _
  rw [h]
  rfl

/-- `target_detach`. -/
def targetDetach (t : Option Ptr) : M Unit := do
  discard (call nested fuel .detach t)
  let t ← deref t
  let T ← getTarget t
  setTarget t (some { T with attached := false })

end

end MiyakoLink.Session
