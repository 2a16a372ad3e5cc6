import MiyakoLink.Session.World

/-!
# The packet loop

`gdb_main_loop` with `handle_q_packet`, `handle_v_packet` and `command_process`, as far as they
choose a controller and a target, and the loop of `gdb_main_1` around it. What packets for the
memory and the registers ask of the target is in `Gdb.Access`, which handler a command has in
`Monitor.Command`.

`vAttach`, `R`, `vRun` and the two requests for documents name `gdb_controller` when they attach a
target, in every loop.
-/

namespace MiyakoLink.Session

open Lib

section

-- The loop that serves packets during a system call, how many turns a loop may take, and the
-- controller of the loop that handles the packet.
variable (nested : Ctl → M Unit) (fuel : Nat) (c : Ctl)

/-! ## Monitor commands -/

/-- The probe functions of a scan. -/
def probe : Nat → M Int
  | 0 => throw (.fault .stuck)
  | fuel + 1 => do
    match ← ask with
    | .found commands => do
      targetNew c commands
      probe fuel
    | .probed => do
      let t ← deref (← controller c).targetList.getLast?
      let T ← getTarget t
      setTarget t (some { T with tc := some c })
      probe fuel
    | .scanned devs => pure devs
    | .raised e => throw (.exception e)
    | _ => throw (.fault .stuck)

/-- `cmd_targets`. -/
def cmdTargets : M Bool := do
  let C ← controller c
  C.targetList.forM fun t => discard (getTarget t)
  pure true

/-- `cmd_swdp_scan` and `cmd_jtag_scan`. -/
def cmdScan : M Bool := do
  let devs ← catching (do
    targetListFree c
    probe c fuel) fun _ => pure (-1)
  if devs ≤ 0 then pure false
  else cmdTargets c

/-- A handler of the general table, for the current target. -/
def general (t : Option Ptr) : Monitor.General → Monitor.Action → M Bool
  | .jtagScan, _ | .swdpScan, _ => cmdScan fuel c
  | .targets, _ => cmdTargets c
  | .hardSrst, _ => do
    targetListFree c
    pure true
  | .haltTimeout, _ => do
    discard (getTc (← deref t))
    pure true
  | .help, _ => do
    match t with
    | none => pure true
    | some t => do
      discard (getTc t)
      pure true
  | .heapinfo, .heapinfo _ _ _ _ => do
    discard (getTarget (← deref t))
    pure true
  | _, _ => pure true

/-- The tables of a target. -/
def World.tables (w : World) (t : Ptr) : Monitor.Target Nat :=
  ⟨((w.targets t).map Target.commands).getD []⟩

/-- Is there a block? -/
def allocated : M Bool := do
  match ← ask with
  | .block given => pure given
  | _ => throw (.fault .stuck)

/-- `command_process`. -/
def commandProcess (controllerText : Text) (B : Monitor.Build) (cmd : Text) : M Int := do
  let given ← allocated
  let w ← get
  let t := (w.controllers c).curTarget
  match Monitor.commandProcess controllerText B given (t.map w.tables) cmd with
  | .undefined => throw (.fault .nullDeref)
  | .general h a => do
    let ok ← general fuel c t h a
    pure (if ok then 0 else 1)
  | .specific _ _ _ => do
    let ok ← call nested fuel .command t
    pure (if ok = 0 then 1 else 0)
  | .unsupported _ => do
    match t with
    | none => pure (-1)
    | some t => do
      discard (getTarget t)
      pure (-1)

/-! ## Query packets -/

/-- A target that was detached is attached again. -/
def reattach : M Unit := do
  let C ← controller c
  match C.curTarget, C.lastTarget with
  | none, some t => setCurTarget c (← targetAttach nested fuel t .gdbController)
  | _, _ => pure ()

/-- The last target is attached, and `k` goes on with what comes of it. -/
def attachLast {α : Type} (t : Ptr) (k : Option Ptr → M α) : M α := do
  let r ← targetAttach nested fuel t .gdbController
  setCurTarget c r
  k r

section Cases

variable {nested fuel c} {w : World} {t : Ptr}

theorem reattach_attached (hcur : (w.controllers c).curTarget = some t) :
    reattach nested fuel c w = .ok () w := by
  show (match (w.controllers c).curTarget, (w.controllers c).lastTarget with
    | none, some t => do setCurTarget c (← targetAttach nested fuel t .gdbController)
    | _, _ => pure () : M Unit) w = _
  rw [hcur]
  rfl

theorem reattach_none (hcur : (w.controllers c).curTarget = none)
    (hlast : (w.controllers c).lastTarget = none) : reattach nested fuel c w = .ok () w := by
  show (match (w.controllers c).curTarget, (w.controllers c).lastTarget with
    | none, some t => do setCurTarget c (← targetAttach nested fuel t .gdbController)
    | _, _ => pure () : M Unit) w = _
  rw [hcur, hlast]
  rfl

theorem reattach_last (hcur : (w.controllers c).curTarget = none)
    (hlast : (w.controllers c).lastTarget = some t) :
    reattach nested fuel c w = attachLast nested fuel c t (fun _ => pure ()) w := by
  show (match (w.controllers c).curTarget, (w.controllers c).lastTarget with
    | none, some t => do setCurTarget c (← targetAttach nested fuel t .gdbController)
    | _, _ => pure () : M Unit) w = _
  rw [hcur, hlast]
  rfl

end Cases

/-- The requests for a document of the target, which `handle_q_string_reply` answers. -/
def readDocument : M Unit := do
  reattach nested fuel c
  match ← curTarget c with
  | none => putText "E01"
  | some t => do
    discard (getTarget t)
    put .data

/-- `qCRC:%x,%x`. -/
def isCrc (s : Text) : Bool :=
  ((s.dropPrefix? (ascii "qCRC:")).bind fun s => (scanHex none s).bind fun n =>
    (n.2.dropPrefix? (ascii ",")).bind (scanHex none)).isSome

/-- `handle_q_packet`. -/
def handleQPacket (controllerText : Text) (B : Monitor.Build) (p : Text) : M Unit := do
  let s := cstr p
  if (ascii "qRcmd,").isPrefixOf s then do
    if ← allocated then do
      let r ← commandProcess nested fuel c controllerText B (Monitor.rcmdText (p.drop 6))
      put (.text (Monitor.rcmdAnswer r))
    else throw (.fault .nullDeref)
  else if (ascii "qSupported").isPrefixOf s then
    putText "PacketSize=400;qXfer:memory-map:read+;qXfer:features:read+"
  else if (ascii "qXfer:memory-map:read::").isPrefixOf s then readDocument nested fuel c
  else if (ascii "qXfer:features:read:target.xml:").isPrefixOf s then readDocument nested fuel c
  else if isCrc s then do
    match ← curTarget c with
    | none => putText "E01"
    | some t => do
      let res ← call nested fuel .crc (some t)
      if res = 0 then put .data else putText "E03"
  else putText ""

/-! ## The packets of `handle_v_packet` -/

/-- `vAttach;%08lx`. -/
def vAttachNumber (s : Text) : Option Int :=
  ((s.dropPrefix? (ascii "vAttach;")).bind (scanHex (some 8))).map fun n => n.1.toInt32.toInt

/-- `vFlashErase:%08lx,%08lx`. -/
def isFlashErase (s : Text) : Bool :=
  ((s.dropPrefix? (ascii "vFlashErase:")).bind fun s => (scanHex (some 8) s).bind fun n =>
    (n.2.dropPrefix? (ascii ",")).bind (scanHex (some 8))).isSome

/-- `vFlashWrite:%08lx:`. -/
def isFlashWrite (s : Text) : Bool :=
  ((s.dropPrefix? (ascii "vFlashWrite:")).bind (scanHex (some 8))).isSome

def vAttach (n : Int) : M Unit := do
  let t ← targetAttachN nested fuel n .gdbController
  setCurTarget c t
  if t.isSome then putText "T05" else putText "E01"

/-- The command line is stored, and the target runs from the start. -/
def runTarget : M Unit := do
  discard (getTarget (← deref (← curTarget c)))
  discard (call nested fuel .reset (← curTarget c))
  putText "T05"

def vRun : M Unit := do
  let C ← controller c
  match C.curTarget, C.lastTarget with
  | some _, _ => runTarget nested fuel c
  | none, some t => do
    let t ← targetAttach nested fuel t .gdbController
    setCurTarget c t
    if t.isSome then runTarget nested fuel c else putText "E01"
  | none, none => putText "E01"

section Cases

variable {nested fuel c} {w : World} {t : Ptr}

theorem vRun_attached (hcur : (w.controllers c).curTarget = some t) :
    vRun nested fuel c w = runTarget nested fuel c w := by
  show (match (w.controllers c).curTarget, (w.controllers c).lastTarget with
    | some _, _ => runTarget nested fuel c
    | none, some t => do
      let t ← targetAttach nested fuel t .gdbController
      setCurTarget c t
      if t.isSome then runTarget nested fuel c else putText "E01"
    | none, none => putText "E01" : M Unit) w = _
  rw [hcur]

theorem vRun_none (hcur : (w.controllers c).curTarget = none)
    (hlast : (w.controllers c).lastTarget = none) : vRun nested fuel c w = putText "E01" w := by
  show (match (w.controllers c).curTarget, (w.controllers c).lastTarget with
    | some _, _ => runTarget nested fuel c
    | none, some t => do
      let t ← targetAttach nested fuel t .gdbController
      setCurTarget c t
      if t.isSome then runTarget nested fuel c else putText "E01"
    | none, none => putText "E01" : M Unit) w = _
  rw [hcur, hlast]

theorem vRun_last (hcur : (w.controllers c).curTarget = none)
    (hlast : (w.controllers c).lastTarget = some t) :
    vRun nested fuel c w = attachLast nested fuel c t (fun r =>
      if r.isSome then runTarget nested fuel c else putText "E01") w := by
  show (match (w.controllers c).curTarget, (w.controllers c).lastTarget with
    | some _, _ => runTarget nested fuel c
    | none, some t => do
      let t ← targetAttach nested fuel t .gdbController
      setCurTarget c t
      if t.isSome then runTarget nested fuel c else putText "E01"
    | none, none => putText "E01" : M Unit) w = _
  rw [hcur, hlast]
  rfl

end Cases

/-- The first flash command resets the target. -/
def enterFlashMode (t : Ptr) : M Unit := do
  let C ← controller c
  if C.flashMode then pure ()
  else do
    discard (call nested fuel .reset (some t))
    setFlashMode c true

def vFlashErase : M Unit := do
  match ← curTarget c with
  | none => putText "EFF"
  | some t => do
    enterFlashMode nested fuel c t
    let ret ← call nested fuel .flashErase (← curTarget c)
    if ret = 0 then putText "OK"
    else do
      setFlashMode c false
      putText "EFF"

def vFlashWrite : M Unit := do
  match ← curTarget c with
  | none => do
    setFlashMode c false
    putText "EFF"
  | some t => do
    let ret ← call nested fuel .flashWrite (some t)
    if ret = 0 then putText "OK"
    else do
      setFlashMode c false
      putText "EFF"

def vFlashDone : M Unit := do
  let ret ← call nested fuel .flashDone (← curTarget c)
  putText (if ret = 0 then "OK" else "EFF")
  setFlashMode c false

/-- `handle_v_packet`. -/
def handleVPacket (p : Text) : M Unit := do
  let s := cstr p
  match vAttachNumber s with
  | some n => vAttach nested fuel c n
  | none =>
    if (ascii "vRun").isPrefixOf s then vRun nested fuel c
    else if isFlashErase s then vFlashErase nested fuel c
    else if isFlashWrite s then vFlashWrite nested fuel c
    else if s = ascii "vFlashDone" then vFlashDone nested fuel c
    else putText ""

/-! ## The other packets -/

/-- `g`. -/
def readRegisters : M Unit := do
  match ← curTarget c with
  | none => putText "EFF"
  | some t => do
    discard (call nested fuel .regsRead (some t))
    put .data

/-- `m`, `M`, `X`, `p`, `P`, `G`, `Z` and `z`. -/
def accessPacket : M Unit := do
  match ← curTarget c with
  | none => putText "EFF"
  | some t => do
    match ← ask with
    | .access h => do
      h.operations.forM fun o => discard (call nested fuel (.access o) (some t))
      put (.text h.reply)
    | _ => throw (.fault .stuck)

/-- Ctrl-C and end of transmission ask the current target to halt. -/
def interrupt (k : UInt8) : M Unit := do
  if k = 3 ∨ k = 4 then discard (call nested fuel .haltRequest (← curTarget c))
  else pure ()

/-- The loop that polls the current target, up to the reason why it has halted. -/
def waitForHalt : Nat → M Int
  | 0 => throw (.fault .stuck)
  | turns + 1 => do
    let reason ← call nested fuel .haltPoll (← curTarget c)
    if reason ≠ 0 then pure reason
    else do
      match ← ask with
      | .key k => do
        interrupt nested fuel c k
        waitForHalt turns
      | _ => throw (.fault .stuck)

/-- The reply for a value of `enum target_halt_reason`. -/
def haltReply (reason : Int) : Reply :=
  if reason = 1 then .text (ascii "X1D")
  else if reason = 2 then .text (ascii "T02")
  else if reason = 5 then .data
  else if reason = 6 then .text (ascii "T0B")
  else .text (ascii "T05")

/-- `?`. -/
def haltReason : M Unit := do
  match ← curTarget c with
  | none => putText "W00"
  | some _ => do
    let reason ← waitForHalt nested fuel c fuel
    put (haltReply reason)

/-- `s` and `c`: what `single_step` is behind them. -/
def resume (singleStep : Bool) : M Bool := do
  match ← curTarget c with
  | none => do
    putText "X1D"
    pure singleStep
  | some t => do
    discard (call nested fuel (.haltResume singleStep) (some t))
    haltReason nested fuel c
    pure false

def detachCurrent : M Unit := do
  match ← curTarget c with
  | none => pure ()
  | some t => targetDetach nested fuel (some t)

/-- `D`. -/
def detach : M Unit := do
  detachCurrent nested fuel c
  setLastTarget c (← curTarget c)
  setCurTarget c none
  putText "OK"

/-- `k`. -/
def kill : M Unit := do
  match ← curTarget c with
  | none => pure ()
  | some t => do
    discard (call nested fuel .reset (some t))
    targetDetach nested fuel (← curTarget c)
    setLastTarget c (← curTarget c)
    setCurTarget c none

/-- `r` and `R`. -/
def restart : M Unit := do
  let C ← controller c
  match C.curTarget, C.lastTarget with
  | some t, _ => discard (call nested fuel .reset (some t))
  | none, some t => do
    setCurTarget c (← targetAttach nested fuel t .gdbController)
    discard (call nested fuel .reset (← curTarget c))
  | none, none => pure ()

section Cases

variable {nested fuel c} {w : World} {t : Ptr}

theorem restart_attached (hcur : (w.controllers c).curTarget = some t) :
    restart nested fuel c w = (discard (call nested fuel .reset (some t)) : M Unit) w := by
  show (match (w.controllers c).curTarget, (w.controllers c).lastTarget with
    | some t, _ => discard (call nested fuel .reset (some t))
    | none, some t => do
      setCurTarget c (← targetAttach nested fuel t .gdbController)
      discard (call nested fuel .reset (← curTarget c))
    | none, none => pure () : M Unit) w = _
  rw [hcur]

theorem restart_none (hcur : (w.controllers c).curTarget = none)
    (hlast : (w.controllers c).lastTarget = none) : restart nested fuel c w = .ok () w := by
  show (match (w.controllers c).curTarget, (w.controllers c).lastTarget with
    | some t, _ => discard (call nested fuel .reset (some t))
    | none, some t => do
      setCurTarget c (← targetAttach nested fuel t .gdbController)
      discard (call nested fuel .reset (← curTarget c))
    | none, none => pure () : M Unit) w = _
  rw [hcur, hlast]
  rfl

theorem restart_last (hcur : (w.controllers c).curTarget = none)
    (hlast : (w.controllers c).lastTarget = some t) :
    restart nested fuel c w = attachLast nested fuel c t (fun _ => do
      discard (call nested fuel .reset (← curTarget c))) w := by
  show (match (w.controllers c).curTarget, (w.controllers c).lastTarget with
    | some t, _ => discard (call nested fuel .reset (some t))
    | none, some t => do
      setCurTarget c (← targetAttach nested fuel t .gdbController)
      discard (call nested fuel .reset (← curTarget c))
    | none, none => pure () : M Unit) w = _
  rw [hcur, hlast]
  rfl

end Cases

/-! ## The loop -/

/-- What comes behind a packet: the next one, with `single_step`, or the end of the loop. -/
inductive Turn where
  | next (singleStep : Bool)
  | leave
  deriving DecidableEq

section
variable (controllerText : Text) (B : Monitor.Build)

/-- The packets that leave the loop and `single_step` as they are. -/
def handleOther (letter : UInt8) (p : Text) : M Unit :=
  if letter = 0x67 then readRegisters nested fuel c
  else if letter ∈ [0x6D, 0x4D, 0x58, 0x70, 0x50, 0x47, 0x5A, 0x7A] then
    accessPacket nested fuel c
  else if letter = 0x3F then haltReason nested fuel c
  else if letter = 0x21 then putText "OK"
  else if letter = 0x04 ∨ letter = 0x44 then detach nested fuel c
  else if letter = 0x6B then kill nested fuel c
  else if letter = 0x72 ∨ letter = 0x52 then restart nested fuel c
  else if letter = 0x71 then handleQPacket nested fuel c controllerText B p
  else if letter = 0x76 then handleVPacket nested fuel c p
  else putText ""

/-- The switch of `gdb_main_loop`. -/
def handlePacket (inSyscall singleStep : Bool) (p : Text) : M Turn := do
  let letter := p.head?.getD 0
  if letter = 0x73 then do
    let singleStep ← resume nested fuel c true
    pure (.next singleStep)
  else if letter = 0x63 then do
    let singleStep ← resume nested fuel c singleStep
    pure (.next singleStep)
  else if letter = 0x46 ∧ inSyscall then pure .leave
  else do
    handleOther nested fuel c controllerText B letter p
    pure (.next singleStep)

end

end

variable (controllerText : Text) (B : Monitor.Build)

/-- `gdb_getpacket`. -/
def getpacket : M Text := do
  match ← ask with
  | .packet p => do
    record (.packet p)
    pure p
  | _ => throw (.fault .stuck)

/-- `gdb_main_loop`. -/
def gdbMainLoop : Nat → Ctl → Bool → Bool → M Unit
  | 0, _, _, _ => throw (.fault .stuck)
  | fuel + 1, c, inSyscall, singleStep => do
    let p ← getpacket
    let turn ← handlePacket (fun c' => gdbMainLoop fuel c' true false) fuel c controllerText B
      inSyscall singleStep p
    match turn with
    | .next singleStep => gdbMainLoop fuel c inSyscall singleStep
    | .leave => pure ()

/-- The loop goes on with the next packet. -/
theorem gdbMainLoop_next {fuel : Nat} {c : Ctl} {inSyscall singleStep ss : Bool} {w w₁ w₂ : World}
    {p : Text} (hpacket : getpacket w = .ok p w₁)
    (hturn : handlePacket (fun c' => gdbMainLoop controllerText B fuel c' true false) fuel c
      controllerText B inSyscall singleStep p w₁ = .ok (.next ss) w₂) :
    gdbMainLoop controllerText B (fuel + 1) c inSyscall singleStep w =
      gdbMainLoop controllerText B fuel c inSyscall ss w₂ := by
  rw [gdbMainLoop, bind_ok hpacket, bind_ok hturn]

/-- The loop of `gdb_main_1`. -/
def gdbMain : Nat → Ctl → M Unit
  | 0, _ => throw (.fault .stuck)
  | fuel + 1, c => do
    catching (gdbMainLoop controllerText B fuel c false false) fun _ => do
      putText "EFF"
      targetListFree c
    gdbMain fuel c

/-- All controllers as they are set up, without targets. -/
def start (script : List Answer) : World := ⟨fun _ => {}, fun _ => none, 0, script, []⟩

end MiyakoLink.Session
