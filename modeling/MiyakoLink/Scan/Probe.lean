import MiyakoLink.Scan.Objects

/-!
# `adiv5_swdp_scan`, `jtag_scan` and what they call

From `adiv5_dp_init` on the model has every allocation, every reference that is taken or dropped
and every place where an access can raise an exception. What the registers of the devices hold is
answered by the script as what the code makes of it.
-/

namespace MiyakoLink.Scan

open Lib

/-- An access before there is a debug port. -/
def line : M Unit := do
  match ← ask with
  | .line none => pure ()
  | .line (some e) => throw (.exception e)
  | _ => throw .stuck

/-- Accesses, none or several. -/
def access : M Unit := do
  match ← ask with
  | .access none => pure ()
  | .access (some e) => throw (.exception e)
  | _ => throw .stuck

def ctrlstat : M Unit := do
  match ← ask with
  | .ctrlstat none => pure ()
  | .ctrlstat (some e) => throw (.exception e)
  | _ => throw .stuck

/-- `platform_timeout_is_expired`. -/
def expired : M Bool := do
  match ← ask with
  | .expired b => pure b
  | _ => throw .stuck

def acknowledged : M Bool := do
  match ← ask with
  | .acknowledged b => pure b
  | _ => throw .stuck

/-! ## Probing an access port -/

/-- The probe functions of the devices; `stored` tells whether `target_storage` is set. -/
def driverProbe (t : Ptr) : Nat → Bool → M Unit
  | 0, _ => throw .stuck
  | n + 1, stored => do
    match ← ask with
    | .step .access => do
      access
      driverProbe t n stored
    | .step .addCommands => do
      targetAddCommands t
      driverProbe t n stored
    | .step .addRam => do
      targetAddRam t
      driverProbe t n stored
    | .step .addFlash => do
      addFlash t
      driverProbe t n stored
    | .step .mapFree => do
      targetMemMapFree t
      driverProbe t n stored
    | .step .storage =>
      if stored then
        throw .stuck
      else do
        match ← alloc .storage .plain with
        | none => throw .nullDeref
        | some p =>
          access
          modifyTarget t fun u => { u with storage := some p }
          driverProbe t n true
    | .step .scratch => do
      match ← alloc .scratch .plain with
      | none => driverProbe t n stored
      | some p =>
        access
        free p
        driverProbe t n stored
    | .step .done => pure ()
    | _ => throw .stuck

/-- Enough for every run: each turn takes an answer. -/
def fuel : M Nat := do
  pure ((← get).script.length + 1)

/-- `cortexm_probe`. -/
def cortexmProbe (ap : Ptr) : M Unit := do
  match ← targetNew .target with
  | none => pure ()
  | some t =>
    apRef ap
    match ← alloc .priv .plain with
    | none => pure ()
    | some priv =>
      modifyTarget t fun u => { u with priv := some (.cortexm priv ap) }
      access
      targetAddCommands t
      access
      driverProbe t (← fuel) false
      access

/-- `cortexa_probe`. -/
def cortexaProbe (apb : Ptr) : M Unit := do
  match ← targetNew .cortexaTarget with
  | none => pure ()
  | some t =>
    apRef apb
    match ← alloc .cortexaPriv .plain with
    | none => pure ()
    | some priv =>
      modifyTarget t fun u => { u with priv := some (.cortexa priv apb) }
      access

/-- `kinetis_mdm_probe`. -/
def kinetisMdmProbe (ap : Ptr) : M Unit := do
  match ← targetNew .target with
  | none => pure ()
  | some t =>
    apRef ap
    modifyTarget t fun u => { u with priv := some (.ap ap) }
    targetAddCommands t

/-- `nrf51_mdm_probe`. -/
def nrf51MdmProbe (ap : Ptr) : M Unit := do
  match ← targetNew .target with
  | none => pure ()
  | some t =>
    apRef ap
    modifyTarget t fun u => { u with priv := some (.ap ap) }
    access
    targetAddCommands t

/-- `efm32_aap_probe`. The name of the driver is a block that nothing points to but `driver`. -/
def efm32AapProbe (ap : Ptr) : M Unit := do
  match ← targetNew .target with
  | none => throw .nullDeref
  | some t =>
    apRef ap
    modifyTarget t fun u => { u with priv := some (.ap ap) }
    access
    match ← alloc .aapStorage .plain with
    | none => throw .nullDeref
    | some _ => targetAddCommands t

/-- The probe functions that go by `idr`. -/
def idrProbe (ap : Ptr) : Idr → M Unit
  | .kinetisMdm => kinetisMdmProbe ap
  | .nrf51Mdm => nrf51MdmProbe ap
  | .efm32Aap => efm32AapProbe ap
  | .other => pure ()

/-- The loop over the entries of a ROM table, which probes what is present. -/
def romTable (probe : M Unit) : Nat → M Unit
  | 0 => pure ()
  | n + 1 => do
    access
    match ← ask with
    | .entry .last => pure ()
    | .entry .notPresent => romTable probe n
    | .entry .present => do
      probe
      romTable probe n
    | _ => throw .stuck

/-- `adiv5_component_probe`. -/
def componentProbe (ap : Ptr) : Nat → M Unit
  | 0 => throw .stuck
  | n + 1 => do
    access
    match ← ask with
    | .component .nothing => pure ()
    | .component .romTable => romTable (componentProbe ap n) 960
    | .component .protectedSamx5x => cortexmProbe ap
    | .component .cortexm => cortexmProbe ap
    | .component .cortexa => cortexaProbe ap
    | _ => throw .stuck

/-! ## Initialising a debug port -/

/-- `adiv5_new_ap`, with `base` and `idr`. -/
def newAp (dp : Ptr) : M (Option (Ptr × UInt32 × Idr)) := do
  access
  match ← ask with
  | .accessPort none => pure none
  | .accessPort (some r) =>
    match ← alloc .ap (.ap 0 dp) with
    | none => pure none
    | some ap =>
      apRef ap
      pure (some (ap, r))
  | _ => throw .stuck

/-- `rp_rescue_setup` and `rp_rescue_probe`. -/
def rescueSetup (dp : Ptr) : M Unit := do
  match ← alloc .rescueAp (.ap 0 dp) with
  | none => pure ()
  | some ap =>
    match ← targetNew .rescueTarget with
    | none => pure ()
    | some t =>
      apRef ap
      modifyTarget t fun u => { u with priv := some (.ap ap) }

/-- Waits for an acknowledge: does it come before the time is over? -/
def waitAck : Nat → M Bool
  | 0 => throw .stuck
  | n + 1 => do
    access
    if ← acknowledged then
      pure true
    else if ← expired then
      pure false
    else
      waitAck n

/-- What is done with an access port that has been made. -/
def apProbe (ap : Ptr) (idr : Idr) : M Unit := do
  idrProbe ap idr
  access
  componentProbe ap (← fuel)
  apUnref ap

/-- The loop over the access ports. `true` means that it has run to its end, `false` that the
function returns in it. -/
def probeAps (dp : Ptr) : Nat → Nat → Nat → UInt32 → M Bool
  | 0, _, _, _ => pure true
  | n + 1, i, voidAps, lastBase =>
    if voidAps < 8 then do
      match ← newAp dp with
      | none =>
        if i = 0 then do
          dpUnref dp
          pure false
        else
          probeAps dp n (i + 1) (voidAps + 1) lastBase
      | some (ap, base, idr) =>
        if base = lastBase then do
          apUnref ap
          dpUnref dp
          pure false
        else do
          apProbe ap idr
          probeAps dp n (i + 1) voidAps base
    else
      pure true

/-- `target_halt_resume` of the targets. -/
def resumeAll : List Target → M Unit
  | [] => pure ()
  | _ :: rest => do
    access
    resumeAll rest

/-- `adiv5_dp_init` after the power-up. -/
def dpProbe (dp : Ptr) : M Unit := do
  access
  let _ ← waitAck (← fuel)
  dpRef dp
  if ← probeAps dp 256 0 0 0 then do
    resumeAll (← get).targets
    dpUnref dp

/-- `adiv5_dp_init`. -/
def dpInit (dp : Ptr) (idcode : UInt32) : M Unit := do
  if idcode &&& 0xFFF = 0 ∨ idcode &&& 0x0FF00000 = 0x0FF00000 then
    free dp
  else if idcode = 0x10212927 then
    rescueSetup dp
  else do
    catching (· = .timeout) ctrlstat fun _ => access
    access
    if ← waitAck (← fuel) then
      dpProbe dp
    else
      free dp

/-! ## The scans -/

/-- A debug port is made, if there is a block for it. -/
def dpNew (idcode : UInt32) : M Unit := do
  match ← alloc .dp (.dp 0) with
  | none => pure ()
  | some dp => dpInit dp idcode

/-- The drops of a debug port, or the one it is. -/
def scanDps : Nat → M Unit
  | 0 => pure ()
  | n + 1 => do
    line
    match ← ask with
    | .idcode none => scanDps n
    | .idcode (some idcode) => do
      dpNew idcode
      scanDps n
    | _ => throw .stuck

/-- `adiv5_swdp_scan`. -/
def swdpScan : M Unit := do
  targetListFree
  line
  match ← ask with
  | .dpFound none => pure ()
  | .dpFound (some multidrop) => scanDps (if multidrop then 16 else 1)
  | _ => throw .stuck

/-- The handlers of the devices that have a JTAG-DP. -/
def scanDevices : Nat → M Unit
  | 0 => pure ()
  | n + 1 => do
    match ← ask with
    | .idcode (some idcode) => do
      dpNew idcode
      scanDevices n
    | _ => throw .stuck

/-- `jtag_scan`. -/
def jtagScan : M Unit := do
  targetListFree
  match ← ask with
  | .devices n => scanDevices n
  | _ => throw .stuck

inductive Wire where
  | swd
  | jtag
  deriving DecidableEq

/-- `cmd_swdp_scan` and `cmd_jtag_scan` catch every exception. -/
def cmdScan : Wire → M Unit
  | .swd => catching (fun _ => true) swdpScan fun _ => pure ()
  | .jtag => catching (fun _ => true) jtagScan fun _ => pure ()

/-- Scans one after the other. -/
def scans : List Wire → M Unit
  | [] => pure ()
  | wire :: rest => do
    cmdScan wire
    scans rest

end MiyakoLink.Scan
