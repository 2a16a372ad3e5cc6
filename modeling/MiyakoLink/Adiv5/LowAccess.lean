import MiyakoLink.Adiv5.MemAp

/-!
# Low-level access to a debug port

The three implementations of `low_access`, the two of `error` and of `abort`, and what
`cortexm_attach` and the remote commands do to `dp->fault`. The target answers every request
once. Answers are given as a list, and it complies with the requests after its end.

What the architecture says of the sticky flags is in `swdReply` and in the two `perform`: over
SWD a target with a flag set answers FAULT to all but three requests, over JTAG it takes no
access to an access port, and the flags are those in CTRL/STAT. The register at address 4 is
CTRL/STAT, as it is while bank 0 is selected.
-/

namespace MiyakoLink.Adiv5

abbrev dpIdcode : UInt16 := 0x0

abbrev dpAbort : UInt16 := 0x0

abbrev dpCtrlstat : UInt16 := 0x4

abbrev dpTargetsel : UInt16 := 0xC

/-- `ADIV5_APnDP`. -/
abbrev apndp : UInt16 := 0x100

abbrev daPabort : UInt32 := 0x1

/-- The sticky flags. -/
structure Sticky where
  orun : Bool
  cmp : Bool
  err : Bool
  wdataerr : Bool
  deriving DecidableEq

namespace Sticky

abbrev none : Sticky := ⟨false, false, false, false⟩

/-- The flags where they are in CTRL/STAT. -/
def bits (f : Sticky) : UInt32 :=
  (if f.orun then 0x2 else 0) ||| (if f.cmp then 0x10 else 0) ||| (if f.err then 0x20 else 0) |||
    (if f.wdataerr then 0x80 else 0)

def join (f g : Sticky) : Sticky :=
  ⟨f.orun || g.orun, f.cmp || g.cmp, f.err || g.err, f.wdataerr || g.wdataerr⟩

/-- A write of ABORT. -/
def abort (f : Sticky) (v : UInt32) : Sticky :=
  ⟨f.orun && v &&& 0x10 == 0, f.cmp && v &&& 0x2 == 0, f.err && v &&& 0x4 == 0,
    f.wdataerr && v &&& 0x8 == 0⟩

/-- A write of CTRL/STAT over JTAG. -/
def writeOne (f : Sticky) (v : UInt32) : Sticky :=
  ⟨f.orun && v &&& 0x2 == 0, f.cmp && v &&& 0x10 == 0, f.err && v &&& 0x20 == 0, f.wdataerr⟩

end Sticky

inductive Transport where
  | swd
  | pio
  | jtag
  deriving DecidableEq

structure Request where
  rnw : Bool
  addr : UInt16
  value : UInt32
  deriving DecidableEq

/-- Is the request one to an access port? -/
def Request.ap (r : Request) : Bool := r.addr &&& apndp != 0

/-- What a target does with a request: it complies, raising flags if the request is one to an
access port, or it lets the host wait. `expired` tells whether the time of the host is over
then. The last two are a FAULT whatever the flags are, and an acknowledge that is none. -/
inductive Answer where
  | comply (raised : Sticky) (data : UInt32) (parityOk : Bool)
  | wait (expired : Bool)
  | fault
  | noise
  deriving DecidableEq

/-- The texts of the exceptions. -/
inductive DpException where
  | swdpInvalidAck
  | swdpParityError
  | jtagdpInvalidAck
  deriving DecidableEq

/-- What of `ADIv5_DP_t` the functions use. -/
structure Dp where
  fault : Bool
  idcode : UInt32
  targetid : UInt32
  dpLowWrite : Bool

/-- The debug port on the side of the host and on that of the target, the requests on the wire,
the last one first, and the answers to come. `refused` is set when a request is not put on the
wire, is not complied with or raises a flag. -/
structure Link where
  dp : Dp
  sticky : Sticky
  /-- What the next scan over JTAG returns. -/
  posted : UInt32
  wire : List Request
  answers : List Answer
  refused : Bool

abbrev Access := EStateM DpException Link

/-- How an access ends. -/
abbrev Ended := EStateM.Result DpException Link

def Link.send (r : Request) (s : Link) : Link := { s with wire := r :: s.wire }

def Link.setFault (s : Link) : Link := { s with dp := { s.dp with fault := true } }

def Link.clearFault (s : Link) : Link := { s with dp := { s.dp with fault := false } }

def Link.refuse (s : Link) : Link := { s with refused := true }

def Link.give (rest : List Answer) (s : Link) : Link := { s with answers := rest }

/-! ## SWD -/

/-- The requests that a target takes while a flag is set. -/
def Request.exempt (r : Request) : Bool :=
  !r.ap && (if r.rnw then r.addr == dpIdcode || r.addr == dpCtrlstat else r.addr == dpAbort)

/-- The answer on the wire. -/
def swdReply (f : Sticky) (r : Request) : Answer → Answer
  | .comply raised data parityOk =>
    if f ≠ .none ∧ r.exempt = false then .fault else .comply raised data parityOk
  | a => a

/-- A request that the target complies with: the data it sends, and the flags after it. -/
def swdPerform (r : Request) (raised : Sticky) (data : UInt32) (s : Link) : UInt32 × Link :=
  if r.ap then
    (data, { s with sticky := s.sticky.join raised, refused := s.refused || raised ≠ .none })
  else if r.rnw then
    if r.addr = dpCtrlstat then (data &&& ~~~0xB2 ||| s.sticky.bits, s) else (data, s)
  else if r.addr = dpAbort then (data, { s with sticky := s.sticky.abort r.value })
  else (data, s)

/-- The request and the answer to it, if it is not to wait. -/
def swdAnswer (r : Request) (raised : Sticky) (data : UInt32) (parityOk : Bool) (s : Link) :
    Ended UInt32 :=
  let (data, s) := swdPerform r raised data s
  if r.rnw then
    if parityOk then .ok data s else .error .swdpParityError s.setFault
  else .ok 0 s

def abortRequest (value : UInt32) : Request := ⟨false, dpAbort, value⟩

/-- The loop of a low-level access. The abort at its end is such an access again. -/
def swdTransfer : List Answer → Request → Link → Ended UInt32
  | [], r, s =>
    match swdReply s.sticky r (.comply .none 0 true) with
    | .comply raised data parityOk => swdAnswer r raised data parityOk ((s.send r).give [])
    | _ => .ok 0 ((s.send r).give []).setFault.refuse
  | a :: rest, r, s =>
    match swdReply s.sticky r a with
    | .fault => .ok 0 ((s.send r).give rest).setFault.refuse
    | .wait true =>
      match swdTransfer rest (abortRequest daPabort) ((s.send r).give rest) with
      | .ok _ s => .ok 0 s.setFault.refuse
      | .error e s => .error e s
    | .wait false => swdTransfer rest r ((s.send r).give rest)
    | .comply raised data parityOk => swdAnswer r raised data parityOk ((s.send r).give rest)
    | .noise => .error .swdpInvalidAck ((s.send r).give rest)

/-- `firmware_swdp_low_access`. -/
def firmwareSwdpLowAccess (r : Request) (s : Link) : Ended UInt32 :=
  if r.ap && s.dp.fault then .ok 0 s.refuse else swdTransfer s.answers r s

/-- `platform_target_interface_non_iso_swd_low_access`. It sends the data of a write with the
request. -/
def platformSwdLowAccess (r : Request) (s : Link) : Ended UInt32 :=
  if r.ap && s.dp.fault then .ok 0 s.refuse else swdTransfer s.answers r s

/-! ## JTAG -/

/-- A request that the target takes: what the scan returns, and the state after it. -/
def jtagPerform (r : Request) (raised : Sticky) (data : UInt32) (s : Link) : UInt32 × Link :=
  (s.posted,
    if r.ap then
      if s.sticky = .none then
        let raised := { raised with wdataerr := false }
        { s with sticky := raised, posted := data, refused := s.refused || raised ≠ .none }
      else { s with posted := data }.refuse
    else if r.addr = dpCtrlstat then
      if r.rnw then { s with posted := data &&& ~~~0x32 ||| s.sticky.bits }
      else { s with sticky := s.sticky.writeOne r.value, posted := data }
    else { s with posted := data })

/-- `adiv5_jtagdp_abort`: a scan through the ABORT register, without an acknowledge. -/
def adiv5JtagdpAbort (value : UInt32) (s : Link) : Link := s.send (abortRequest value)

def jtagTransfer : List Answer → Request → Link → Ended UInt32
  | [], r, s =>
    let (response, s) := jtagPerform r .none 0 ((s.send r).give [])
    .ok response s
  | .wait true :: rest, r, s =>
    .ok 0 (adiv5JtagdpAbort daPabort ((s.send r).give rest)).setFault.refuse
  | .wait false :: rest, r, s => jtagTransfer rest r ((s.send r).give rest)
  | .comply raised data _ :: rest, r, s =>
    let (response, s) := jtagPerform r raised data ((s.send r).give rest)
    .ok response s
  | _ :: rest, r, s => .error .jtagdpInvalidAck ((s.send r).give rest)

/-- `fw_adiv5_jtagdp_low_access`. -/
def fwAdiv5JtagdpLowAccess (r : Request) (s : Link) : Ended UInt32 := jtagTransfer s.answers r s

/-! ## The debug port -/

/-- `dp->low_access`. -/
def lowAccess (T : Transport) (r : Request) : Access UInt32 :=
  match T with
  | .swd => firmwareSwdpLowAccess r
  | .pio => platformSwdLowAccess r
  | .jtag => fwAdiv5JtagdpLowAccess r

/-- `adiv5_dp_write`. -/
def adiv5DpWrite (T : Transport) (addr : UInt16) (value : UInt32) : Access PUnit := do
  discard (lowAccess T ⟨false, addr, value⟩)

/-- `firmware_swdp_read`. -/
def firmwareSwdpRead (T : Transport) (addr : UInt16) : Access UInt32 := do
  if addr &&& apndp ≠ 0 then
    discard (lowAccess T ⟨true, addr, 0⟩)
    lowAccess T ⟨true, dpRdbuff, 0⟩
  else lowAccess T ⟨true, addr, 0⟩

/-- `dp_line_reset` and `dp_low_write` of TARGETSEL, to which there is no answer. -/
def reselect : Access PUnit := modify fun s => s.send ⟨false, dpTargetsel, s.dp.targetid⟩

/-- The bits of ABORT for the flags found. -/
def abortBits (err : UInt32) : UInt32 :=
  (if err &&& 0x2 ≠ 0 then 0x10 else 0) ||| (if err &&& 0x10 ≠ 0 then 0x2 else 0) |||
    (if err &&& 0x20 ≠ 0 then 0x4 else 0) ||| (if err &&& 0x80 ≠ 0 then 0x8 else 0)

/-- On a protocol error the target gets deselected: reselect with the right one. -/
def reselectFaulted (T : Transport) : Access PUnit := do
  let s ← get
  if s.dp.fault ∧ s.dp.idcode &&& 0xF000 = 0x2000 ∧ s.dp.dpLowWrite then
    reselect
    discard (firmwareSwdpRead T dpIdcode)

/-- `firmware_swdp_error`. -/
def firmwareSwdpError (T : Transport) : Access UInt32 := do
  reselectFaulted T
  let err := (← firmwareSwdpRead T dpCtrlstat) &&& 0xB2
  adiv5DpWrite T dpAbort (abortBits err)
  modify Link.clearFault
  return err

/-- `adiv5_jtagdp_error`. -/
def adiv5JtagdpError : Access UInt32 := do
  discard (lowAccess .jtag ⟨true, dpCtrlstat, 0⟩)
  return (← lowAccess .jtag ⟨false, dpCtrlstat, 0xF0000032⟩) &&& 0x32

/-- `dp->error`. -/
def dpError : Transport → Access UInt32
  | .jtag => adiv5JtagdpError
  | T => firmwareSwdpError T

/-- `cortexm_check_error`. -/
def cortexmCheckError (T : Transport) : Access Bool := do return (← dpError T) ≠ 0

/-- `dp->abort`. -/
def dpAbortAccess : Transport → UInt32 → Access PUnit
  | .jtag, value => modify (adiv5JtagdpAbort value)
  | T, value => adiv5DpWrite T dpAbort value

/-- The begin of `cortexm_attach`. -/
def cortexmAttach (T : Transport) : Access PUnit := do
  -- Force switch to this multi-drop device
  modify Link.setFault
  discard (cortexmCheckError T)
  -- Clear any pending fault condition
  discard (cortexmCheckError T)

end MiyakoLink.Adiv5
