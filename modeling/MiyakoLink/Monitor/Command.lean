import MiyakoLink.Lib.Strtol

/-!
# `command.c`: the monitor commands

A command line is cut into words. The words go behind the pointer to the controller in `argv`,
and `command_process` and `target_command` compare `argv[1]` and `argv[0]` with the tables. Of a
handler the model has what it takes from its arguments (`Action`), which is all that dispatch
decides. What the bytes of the controller are as text is a parameter.
-/

namespace MiyakoLink.Monitor

open Lib

abbrev Text := List UInt8

/-- An entry of `argv`: the controller, or a word. -/
inductive Arg where
  | controller
  | word (w : Text)
  deriving DecidableEq

/-- `struct command_s`. -/
structure Command (H : Type) where
  cmd : Text
  handler : H

/-- The switches of the build, and the baud rate of the trace if none is given. -/
structure Build where
  powerSwitch : Bool
  traceswo : Bool
  traceswoNrz : Bool
  swoDefaultBaud : UInt32
  debug : Bool

/-- The handlers of the general table. -/
inductive General where
  | version
  | help
  | jtagScan
  | swdpScan
  | frequency
  | targets
  | morse
  | haltTimeout
  | connectSrst
  | hardSrst
  | targetPower
  | traceswo
  | heapinfo
  | debugBmp
  deriving DecidableEq

/-- `cmd_list`. -/
def cmdList (B : Build) : List (Command General) :=
  [⟨ascii "version", .version⟩, ⟨ascii "help", .help⟩, ⟨ascii "jtag_scan", .jtagScan⟩,
    ⟨ascii "swdp_scan", .swdpScan⟩, ⟨ascii "frequency", .frequency⟩, ⟨ascii "targets", .targets⟩,
    ⟨ascii "morse", .morse⟩, ⟨ascii "halt_timeout", .haltTimeout⟩,
    ⟨ascii "connect_srst", .connectSrst⟩, ⟨ascii "hard_srst", .hardSrst⟩] ++
  (if B.powerSwitch then [⟨ascii "tpwr", .targetPower⟩] else []) ++
  (if B.traceswo then [⟨ascii "traceswo", .traceswo⟩] else []) ++
  [⟨ascii "heapinfo", .heapinfo⟩] ++
  (if B.debug then [⟨ascii "debug_bmp", .debugBmp⟩] else [])

/-- What `parse_enable_or_disable` and the commands that use it make of their arguments. -/
inductive Toggle where
  | status
  | set (b : Bool)
  | notProvided
  | notRecognized (s : Text)
  | unrecognizedFormat
  deriving DecidableEq

/-- What a handler takes from its arguments. -/
inductive Action where
  | none
  | jtagScan (irlens : Option (List UInt8))
  | swdpScan (targetid : UInt32)
  | frequency (set : Option UInt32)
  | haltTimeout (set : Option UInt32)
  | toggle (t : Toggle)
  | traceswo (baudrate : UInt32) (channelmask : UInt32)
  | heapinfo (heapBase heapLimit stackBase stackLimit : UInt32)
  | heapinfoUsage
  | heapinfoNotAttached
  deriving DecidableEq

section

variable (controller : Text)

/-- An argument as text. -/
def Arg.text : Arg → Text
  | .controller => controller
  | .word w => w

/-- `argv[i]` as text. -/
def argText (argv : List Arg) (i : Nat) : Text := (argv.getD i .controller).text controller

/-- `parse_enable_or_disable`. -/
def parseEnableOrDisable (s : Text) : Toggle :=
  if s = [] then .notProvided
  else if s.isPrefixOf (ascii "enable") then .set true
  else if s.isPrefixOf (ascii "disable") then .set false
  else .notRecognized s

/-- The commands that take nothing, `enable` or `disable`. -/
def toggleArgs (argv : List Arg) : Toggle :=
  if argv.length = 1 then .status
  else if argv.length = 2 then parseEnableOrDisable (argText controller argv 1)
  else .unrecognizedFormat

/-- The numbers for `irlens`, ended by a zero. -/
def jtagScanArgs (argv : List Arg) : Option (List UInt8) :=
  if 1 < argv.length then
    some ((argv.drop 1).map (fun a => UInt8.ofInt (atol (a.text controller))) ++ [0])
  else none

def swdpScanArgs (argv : List Arg) : UInt32 :=
  if 1 < argv.length then UInt32.ofInt (strtol 0 (argText controller argv 1)).1 else 0

def frequencyArgs (argv : List Arg) : Option UInt32 :=
  if argv.length = 2 then
    let n := strtol 10 (argText controller argv 1)
    let frequency := UInt32.ofInt n.1
    some (if n.2.head? = some 0x6B then frequency * 1000
      else if n.2.head? = some 0x4D then frequency * (1000 * 1000)
      else frequency)
  else none

def haltTimeoutArgs (argv : List Arg) : Option UInt32 :=
  if 1 < argv.length then some (UInt32.ofInt (atol (argText controller argv 1))) else none

/-- The mask of the channels to decode. -/
def channelMask (argv : List Arg) : UInt32 :=
  argv.foldl (fun mask a =>
    let channel := atol (a.text controller)
    if 0 ≤ channel ∧ channel ≤ 31 then mask ||| 1 <<< UInt32.ofInt channel else mask) 0

/-- The baud rate and the mask of `cmd_traceswo`. The Manchester decoder has no baud rate. -/
def traceswoArgs (B : Build) (argv : List Arg) : UInt32 × UInt32 :=
  let digit := ((argText controller argv 1).head?).any fun c => 0x30 ≤ c ∧ c ≤ 0x39
  let hasBaud := B.traceswoNrz ∧ 1 < argv.length ∧ digit
  let baudrate := if hasBaud then UInt32.ofInt (atol (argText controller argv 1)) else 0
  let decodeArg := if hasBaud then 2 else 1
  let mask :=
    if decodeArg < argv.length ∧ (argText controller argv decodeArg).isPrefixOf (ascii "decode") then
      if decodeArg + 1 < argv.length then channelMask controller (argv.drop (decodeArg + 1))
      else 0xFFFFFFFF
    else 0
  (if baudrate = 0 then B.swoDefaultBaud else baudrate, mask)

/-- `cmd_heapinfo`; `attached` tells whether there is a target. -/
def heapinfoArgs (attached : Bool) (argv : List Arg) : Action :=
  if !attached then .heapinfoNotAttached
  else if argv.length = 5 then
    .heapinfo (strtoul 16 (argText controller argv 1)) (strtoul 16 (argText controller argv 2))
      (strtoul 16 (argText controller argv 3)) (strtoul 16 (argText controller argv 4))
  else .heapinfoUsage

/-- What a handler does with a vector that begins with the name of the command. -/
def General.take (B : Build) (attached : Bool) (argv : List Arg) : General → Action
  | .version | .help | .targets | .morse | .hardSrst => .none
  | .jtagScan => .jtagScan (jtagScanArgs controller argv)
  | .swdpScan => .swdpScan (swdpScanArgs controller argv)
  | .frequency => .frequency (frequencyArgs controller argv)
  | .haltTimeout => .haltTimeout (haltTimeoutArgs controller argv)
  | .connectSrst | .targetPower | .debugBmp => .toggle (toggleArgs controller argv)
  | .traceswo =>
    .traceswo (traceswoArgs controller B argv).1 (traceswoArgs controller B argv).2
  | .heapinfo => heapinfoArgs controller attached argv

/-- Which handlers skip the controller: `argc--; argv++`. -/
def General.skips : General → Bool
  | .jtagScan | .swdpScan | .frequency | .connectSrst | .targetPower => true
  | _ => false

/-- A handler as it is called. -/
def General.call (B : Build) (attached : Bool) (argv : List Arg) (h : General) : Action :=
  h.take controller B attached (if h.skips then argv.tail else argv)

/-- `strncmp(s, c->cmd, strlen(s))` finds the entry. -/
def findCommand {H : Type} (s : Text) (cmds : List (Command H)) : Option (Command H) :=
  cmds.find? fun c => s.isPrefixOf c.cmd

/-- What comes of a command line. -/
inductive Outcome (H : Type) where
  /-- A pointer that is not set is used. -/
  | undefined
  /-- Nothing runs and the answer is the empty one; `misread` if the controller was read as text
  before. -/
  | unsupported (misread : Bool)
  | general (h : General) (a : Action)
  | specific (h : H) (argv : List Arg) (misread : Bool)
  deriving DecidableEq

/-- The target: its tables of commands, in order. -/
structure Target (H : Type) where
  commands : List (List (Command H))

/-- `target_command`. -/
def targetCommand {H : Type} (t : Target H) (argv : List Arg) : Outcome H :=
  let cmds := t.commands.flatten
  let misread := cmds ≠ [] ∧ argv.head? = some .controller
  match findCommand (argText controller argv 0) cmds with
  | some c => .specific c.handler argv misread
  | none => .unsupported misread

/-- The separators of words. -/
def isBlank (c : UInt8) : Bool := c == 0x20 || c == 0x09

/-- The words of a line. -/
def words (cmd : Text) : List Text := strtok isBlank [] (cstr cmd)

/-- `argc` at first: for how many entries `argv` has room. -/
def argvRoom (cmd : Text) : Nat := 2 + (cstr cmd).countP isBlank

/-- `command_process`, with `room` telling whether there is a block for `argv`. -/
def commandProcess {H : Type} (B : Build) (room : Bool) (t : Option (Target H)) (cmd : Text) :
    Outcome H :=
  if !room then .undefined
  else
    let argv := .controller :: (words cmd).map Arg.word
    match argv[1]? with
    | none => .undefined
    | some w =>
      match findCommand (w.text controller) (cmdList B) with
      | some c => .general c.handler (c.handler.call controller B t.isSome argv)
      | none =>
        match t with
        | none => .unsupported false
        | some t => targetCommand controller t argv

end

end MiyakoLink.Monitor
