import MiyakoLink.HexUtils
import MiyakoLink.Mem.Custody
import MiyakoLink.Monitor.Command

/-!
# The packets with monitor commands

The `qRcmd` branch of `handle_q_packet`, the blocks that `command_process` takes and frees, and
the loop of `gdb_main_1` around them, which catches every exception. `Rest` is what the other
functions do with the pools: the handlers, `target_list_free` and the other packets. What is in
the two blocks, the text and the vector, is kept as values.
-/

namespace MiyakoLink.Monitor

open Lib Mem

/-- How a handler ends. -/
inductive End where
  | returned (ok : Bool)
  | raised
  deriving DecidableEq

/-- The functions around the monitor commands. `σ` is what they have besides the pools and `O`
the packets that are not monitor commands. -/
structure Rest (H O σ : Type) where
  /-- `tc->cur_target`. -/
  curTarget : σ → Option (Target H)
  general : General → Action → σ → System → End × σ × System
  specific : H → List Arg → Bool → σ → System → End × σ × System
  targetListFree : σ → System → σ × System
  other : O → σ → System → σ × System

structure State (σ : Type) where
  user : σ
  heap : System

/-- `MemManager_Alloc`, or `none` if it returns NULL. -/
def take (size : Nat) (h : System) : Option (Nat × System) :=
  (memManagerAlloc false size h.manager).1.map fun p => (p, alloc size h)

/-- `sizeof(const char *)`. -/
abbrev pointerSize : Nat := 4

/-- `datalen`, for the text behind `qRcmd,`. -/
def datalen (hex : Text) : Nat := hex.length / 2

/-- The decoded command. -/
def rcmdText (hex : Text) : Text := unhexBytes hex (datalen hex)

/-- The answer to `c`, the result of `command_process`. -/
def rcmdAnswer : Int → Text
  | .negSucc _ => []
  | .ofNat 0 => ascii "OK"
  | .ofNat (_ + 1) => hexify (ascii "Failed\n")

section

variable {H O σ : Type} (controller : Text) (B : Build) (R : Rest H O σ)

/-- Where a handler comes back to: `argv` is freed if it returns. -/
def finish (argv : Nat) : End × σ × System → Option Int × State σ
  | (.returned ok, user, heap) => (some (if ok then 0 else 1), ⟨user, free argv heap⟩)
  | (.raised, user, heap) => (none, ⟨user, heap⟩)

/-- `command_process` with its blocks: the result if it returns, `none` if an exception leaves it.
Without a target it returns before `argv` is freed. -/
def processCommand (cmd : Text) (s : State σ) : Option (Option Int × State σ) := do
  let (argv, heap) ← take (pointerSize * argvRoom cmd) s.heap
  match commandProcess controller B true (R.curTarget s.user) cmd with
  | .undefined => none
  | .general h a => some (finish argv (R.general h a s.user heap))
  | .specific h words misread => some (finish argv (R.specific h words misread s.user heap))
  | .unsupported _ =>
    match R.curTarget s.user with
    | none => some (some (-1), ⟨s.user, heap⟩)
    | some _ => some (some (-1), ⟨s.user, free argv heap⟩)

/-- The `qRcmd` branch of `handle_q_packet`: the answer, unless an exception leaves it. -/
def handleRcmd (hex : Text) (s : State σ) : Option (Option Text × State σ) := do
  let (data, heap) ← take (datalen hex + 1) s.heap
  match ← processCommand controller B R (rcmdText hex) ⟨s.user, heap⟩ with
  | (none, s) => return (none, s)
  | (some c, s) => return (some (rcmdAnswer c), { s with heap := free data s.heap })

/-- A packet. -/
inductive Packet (O : Type) where
  /-- What is behind `qRcmd,`. -/
  | rcmd (hex : Text)
  | other (o : O)

/-- A turn of the loop in `gdb_main_1`, up to where it waits for the next packet. -/
def serve (p : Packet O) (s : State σ) : Option (State σ) :=
  match p with
  | .other o =>
    let (user, heap) := R.other o s.user s.heap
    some ⟨user, heap⟩
  | .rcmd hex => do
    match ← handleRcmd controller B R hex s with
    | (some _, s) => return s
    | (none, s) =>
      -- The exception is caught, the answer is `EFF`.
      let (user, heap) := R.targetListFree s.user s.heap
      return ⟨user, heap⟩

/-- The loop over a list of packets. -/
def serveAll : List (Packet O) → State σ → Option (State σ)
  | [], s => some s
  | p :: ps, s => (serve controller B R p s).bind (serveAll ps)

end

end MiyakoLink.Monitor
