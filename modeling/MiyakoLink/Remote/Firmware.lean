import MiyakoLink.Lib.Scanf
import MiyakoLink.Remote.Process

/-!
# What the remote handlers call

`remote_dp` as the program sets it up and as the packets change it: a static record with four
functions in it. `SS` and `JS` put in the functions of a transport. The sequences come from
`remote_dp.tc`, which no code sets. The `jtag_proc_t` of the JTAG handlers is a local variable
that is never filled in.

`firmware` is the port of the probe. It notes in a log which functions are called and which are
put in. What they do is a parameter, also for those that are not set.
-/

namespace MiyakoLink.Remote

open Lib

/-- The functions that are called through `remote_dp` and `jtag_proc`. -/
inductive Callback where
  | seqInParity
  | seqIn
  | seqOut
  | seqOutParity
  | dpRead
  | lowAccess
  | abort
  | jtagtapReset
  | jtagtapTmsSeq
  | jtagtapTdiTdoSeq
  | jtagtapNext
  deriving DecidableEq

/-- A use of `remote_dp`. -/
inductive Event where
  | set (c : Callback)
  | called (c : Callback)
  /-- What `tc` points to is read or written. -/
  | tc
  deriving DecidableEq

/-- What is below the handlers: `remote_dp.fault`, the log, the last event first, and the rest. -/
structure Env (τ : Type) where
  fault : Bool
  log : List Event
  lower : τ

/-- Before the first packet. -/
def Env.start {τ : Type} (lower : τ) : Env τ := ⟨false, [], lower⟩

variable {τ α : Type}

/-- An operation with its events, the last one first. -/
def logged (events : List Event) (op : Op (Bool × τ) α) : Op (Env τ) α := fun e =>
  let (a, fault, lower) := op (e.fault, e.lower)
  (a, ⟨fault, events ++ e.log, lower⟩)

/-- `firmware_mem_read`, which does nothing when there is nothing to read. -/
def firmwareMemRead (P : Port (Bool × τ)) (ap : Ap) (address count : UInt32) (e : Env τ) :
    List UInt8 × Option Bool × Env τ :=
  if count = 0 then ([], some e.fault, e)
  else
    let (data, done, fault, lower) := P.adiv5MemRead ap address count (e.fault, e.lower)
    (data, done.map fun _ => fault, ⟨fault, .called .lowAccess :: e.log, lower⟩)

/-- The port of the probe. `firmware_ap_read` calls `dp_read` after `low_access`; the same packets
set both. -/
def firmware (P : Port (Bool × τ)) : Port (Env τ) where
  packetAddr := P.packetAddr
  ident := P.ident
  swdptapInit := logged
    [.set .seqOutParity, .set .seqOut, .set .seqInParity, .set .seqIn, .tc, .set .abort,
      .set .lowAccess, .set .dpRead] P.swdptapInit
  seqInParity ticks := logged [.called .seqInParity] (P.seqInParity ticks)
  seqIn ticks := logged [.called .seqIn] (P.seqIn ticks)
  seqOut param ticks := logged [.called .seqOut] (P.seqOut param ticks)
  seqOutParity param ticks := logged [.called .seqOutParity] (P.seqOutParity param ticks)
  jtagtapInit := logged [.tc, .set .abort, .set .lowAccess, .set .dpRead] P.jtagtapInit
  jtagtapReset := logged [.called .jtagtapReset] P.jtagtapReset
  jtagtapTmsSeq ms ticks := logged [.called .jtagtapTmsSeq] (P.jtagtapTmsSeq ms ticks)
  jtagtapTdiTdoSeq finalTms di ticks :=
    logged [.called .jtagtapTdiTdoSeq] (P.jtagtapTdiTdoSeq finalTms di ticks)
  jtagtapNext tms tdi := logged [.called .jtagtapNext] (P.jtagtapNext tms tdi)
  -- The body of `jtag_add_device` is a comment.
  jtagAddDevice _ _ := fun e => (some (), e)
  platformTargetVoltage := fun e => (some (ascii "not supported"), e)
  adiv5DpRead ap addr := logged [.called .dpRead] (P.adiv5DpRead ap addr)
  lowAccess ap addr value := logged [.called .lowAccess] (P.lowAccess ap addr value)
  adiv5ApRead ap addr := logged [.called .lowAccess] (P.adiv5ApRead ap addr)
  adiv5ApWrite ap addr value := logged [.called .lowAccess] (P.adiv5ApWrite ap addr value)
  adiv5MemRead := firmwareMemRead P
  adiv5MemWriteSized ap dest data align := fun e =>
    let (done, fault, lower) := P.adiv5MemWriteSized ap dest data align (e.fault, e.lower)
    (done.map fun _ => fault, ⟨fault, .called .lowAccess :: e.log, lower⟩)
  clearFault e := { e with fault := false }

end MiyakoLink.Remote
