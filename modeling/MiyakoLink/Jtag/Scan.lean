import Mathlib.Logic.Function.Basic
import MiyakoLink.Lib.Lanes
import MiyakoLink.Lib.TapChain

/-!
# `jtag_scan.c`

The table of the devices on the scan chain, its two passes, and the operations that use it.
The `jtagtap` primitives clock the bits they are given. A filler that is longer than the array
`ones` goes on with what lies behind it in memory, and so do an instruction of more than 32
bits and a guess past the end of `ir_chain` (`Behind`).

The freeing of the old targets and the handlers that `jtag_scan` calls for known devices at
its end are not part of the model. The latter go through the operations below.
-/

namespace MiyakoLink.Jtag

open Lib

/-- The bits behind three objects in the memory of the probe. -/
structure Behind where
  ones : Nat → Bool
  ir : Nat → Bool
  irChain : Nat → Bool

/-- `jtag_dev_t`. `dr_prescan` shares its place with `jd_dev`. -/
structure JtagDev where
  drPrescan : UInt8
  drPostscan : UInt8
  irLen : UInt8
  irPrescan : UInt8
  irPostscan : UInt8
  jdIdcode : UInt32
  currentIr : UInt32

/-- The table and the number of its entries in use. -/
structure JtagProc where
  jtagDevs : Nat → JtagDev
  jtagDevCount : Nat

/-- `current_ir` of a device whose instruction is not known: `-1`. -/
abbrev unknownIr : UInt32 := 0xFFFFFFFF

/-! ## Sequences -/

/-- `jtagtap_tms_seq`. -/
def tmsSeq (ms ticks : Nat) (c : Chain) : Chain :=
  (c.clocks ((List.range ticks).map fun k => (ms.testBit k, true))).2

/-- `jtagtap_tdi_tdo_seq`. -/
def tdiTdoSeq (finalTms : Bool) (di : List Bool) (c : Chain) : List Bool × Chain :=
  c.clocks (withMode finalTms di)

/-- `jtagtap_tdi_seq`. -/
def tdiSeq (finalTms : Bool) (di : List Bool) (c : Chain) : Chain := (tdiTdoSeq finalTms di c).2

/-- `jtagtap_soft_reset`: 1, 1, 1, 1, 1, 0. -/
def softReset (c : Chain) : Chain := tmsSeq 0x1F 6 c

/-- `jtagtap_shift_ir`: 1, 1, 0, 0. -/
def shiftIr (c : Chain) : Chain := tmsSeq 0x03 4 c

/-- `jtagtap_shift_dr`: 1, 0, 0. -/
def shiftDr (c : Chain) : Chain := tmsSeq 0x01 3 c

/-- `jtagtap_return_idle`: 1, 0. -/
def returnIdle (c : Chain) : Chain := tmsSeq 0x01 2 c

/-- `jtagtap_init`: out of SWD, and a reset. -/
def jtagtapInit (c : Chain) : Chain :=
  let c := (c.clocks (List.replicate 51 (true, false))).2
  softReset (tmsSeq 0xE73C 16 c)

/-- The first bits of `ones`. -/
def onesBits (W : Behind) (n : Nat) : List Bool :=
  (List.range n).map fun k => if k < 32 then true else W.ones k

/-- The first bits of the variable `ir`. -/
def irBits (W : Behind) (ir : UInt32) (n : Nat) : List Bool :=
  (List.range n).map fun k => if k < 32 then ir.toNat.testBit k else W.ir k

/-! ## `jtag_scan` -/

abbrev loops : Nat := 16

/-- The bits of `ir_chain`, read with ones shifted in. -/
def readIrChain : Nat → Chain → List Bool × Chain
  | 0, c => ([], c)
  | i + 1, c =>
    let (bits, c) := tdiTdoSeq (i == 0) (List.replicate 32 true) c
    let (rest, c) := readIrChain i c
    (bits ++ rest, c)

def shiftZeros : Nat → Chain → Chain
  | 0, c => c
  | i + 1, c => shiftZeros i (tdiSeq false (List.replicate 32 false) c)

/-- Count the zeros before the first one, which ends the loop, as does the eighth zero. -/
def countDevices : Nat → Chain → Nat × Chain
  | i, c =>
    let (bit, c) := c.clock false true
    if bit then (0, c)
    else
      match i with
      | 0 => (0, c)
      | i + 1 =>
        let (n, c) := countDevices i c
        (n + 1, c)

/-- The number with the given bits, the least significant one first. -/
def ofBits (bits : List Bool) : UInt32 :=
  UInt32.ofNat (bits.foldr (fun b n => b.toNat + 2 * n) 0)

/-- The bytes `id[k]` of an identification code. -/
def idByte (idcode : UInt32) (k : Nat) : Nat := (lane idcode k).toNat

def designer (idcode : UInt32) : Nat :=
  ((idByte idcode 1 &&& 0xF) <<< 8) ||| (idByte idcode 0 >>> 1)

def product (idcode : UInt32) : Nat :=
  idByte idcode 2 ||| ((idByte idcode 3 &&& 0xF) <<< 8)

abbrev designerXilinx : Nat := 0x049

/-- `expected_irlen` by the designer and the product, or zero. -/
def knownIrlen (idcode : UInt32) : Nat :=
  if designer idcode = 0x43B then
    if product idcode = 0xBA0 then 4 else 0
  else if designer idcode = 0x020 then 5
  else if designer idcode = 0x01F then
    if 0x940 ≤ product idcode ∧ product idcode < 0x990 then 4 else 0
  else if designer idcode = 0x61E then 5
  else if designer idcode = 0x751 then 5
  else 0

/-- A bit of `ir_chain`, which has 512 of them. -/
def chainBit (W : Behind) (irChain : List Bool) (k : Nat) : Bool :=
  if k < 512 then irChain.getD k false else W.irChain k

/-- Guess IR length from the IR scan after JTAG Reset. -/
def guessIrlen (W : Behind) (irChain : List Bool) : Nat → Nat → Nat
  | 0, _ => 0
  | fuel + 1, advance =>
    if chainBit W irChain advance ∨ 512 ≤ advance + 1 then 1
    else guessIrlen W irChain fuel (advance + 1) + 1

/-- `expected_irlen` for device `i`, whose capture begins before bit `irbit` of `ir_chain`. -/
def expectedIrlen (W : Behind) (irChain : List Bool) (irlens : Option (Nat → UInt8))
    (i irbit : Nat) (idcode : UInt32) : Nat :=
  -- Allow to overwrite from the command line!
  let expected := match irlens with
    | some irlens => (irlens i).toNat
    | none => knownIrlen idcode
  if expected = 0 then guessIrlen W irChain 512 irbit else expected

/-- The loop over the devices, from device `i` on with `n` to go. It leaves at a device without
identification, and at one of Xilinx if no lengths are given. -/
def scanDevs (W : Behind) (irChain : List Bool) (irlens : Option (Nat → UInt8))
    (numDevices : Nat) :
    Nat → Nat → Nat → Nat → (Nat → JtagDev) → Chain → Bool × (Nat → JtagDev) × Chain
  | 0, _, _, _, devs, c => (true, devs, c)
  | n + 1, i, irbit, j, devs, c =>
    let (id, c) := tdiTdoSeq false (List.replicate 32 true) c
    let idcode := ofBits id
    if id.headD false = false then (false, devs, c)
    else if designer idcode = designerXilinx ∧ irlens.isNone then (false, devs, c)
    else
      let expected := expectedIrlen W irChain irlens i irbit idcode
      let devs := Function.update devs i { devs i with
        irLen := UInt8.ofNat expected
        irPrescan := UInt8.ofNat j
        drPrescan := UInt8.ofNat i
        jdIdcode := idcode
        drPostscan := UInt8.ofNat (numDevices - i - 1)
        currentIr := unknownIr }
      scanDevs W irChain irlens numDevices n (i + 1) (irbit + expected) (j + expected) devs c

/-- Fill in the ir_postscan fields, below entry `i`. That of the last device is not set. -/
def fillPostscan : Nat → (Nat → JtagDev) → Nat → JtagDev
  | 0, devs => devs
  | i + 1, devs =>
    fillPostscan i (Function.update devs i { devs i with
      irPostscan := (devs (i + 1)).irPostscan + (devs (i + 1)).irLen })

/-- `jtag_scan`: the number it returns, the table and the chain. -/
def jtagScan (W : Behind) (irlens : Option (Nat → UInt8)) (p : JtagProc) (c : Chain) :
    Nat × JtagProc × Chain :=
  let c := softReset (jtagtapInit c)
  let (irChain, c) := readIrChain loops (shiftIr c)
  if irChain.headD false = false then (0, p, c)
  else
    let c := shiftDr (returnIdle c)
    let c := shiftZeros loops c
    let (numDevices, c) := countDevices 7 c
    let c := shiftDr (softReset c)
    let p := { p with jtagDevCount := numDevices }
    if numDevices = 0 then (0, p, c)
    else
      match scanDevs W irChain irlens numDevices numDevices 0 1 0 p.jtagDevs c with
      | (false, devs, c) => (0, { p with jtagDevs := devs }, c)
      | (true, devs, c) =>
        (numDevices, { p with jtagDevs := fillPostscan (numDevices - 1) devs }, softReset c)

/-! ## Operations on a device -/

/-- `jtag_dev_write_ir`. -/
def jtagDevWriteIr (W : Behind) (p : JtagProc) (jdIndex : Nat) (ir : UInt32) (c : Chain) :
    JtagProc × Chain :=
  let d := p.jtagDevs jdIndex
  if ir = d.currentIr then (p, c)
  else
    let devs := fun i =>
      if i < p.jtagDevCount then { p.jtagDevs i with currentIr := unknownIr } else p.jtagDevs i
    let devs := Function.update devs jdIndex { devs jdIndex with currentIr := ir }
    let c := shiftIr c
    let c := tdiSeq false (onesBits W d.irPrescan.toNat) c
    let c := tdiSeq (d.irPostscan == 0) (irBits W ir d.irLen.toNat) c
    let c := tdiSeq true (onesBits W d.irPostscan.toNat) c
    ({ p with jtagDevs := devs }, returnIdle c)

/-- `jtag_dev_shift_dr`: the bits for `dout`, and the chain. -/
def jtagDevShiftDr (W : Behind) (p : JtagProc) (jdIndex : Nat) (din : List Bool) (c : Chain) :
    List Bool × Chain :=
  let d := p.jtagDevs jdIndex
  let c := shiftDr c
  let c := tdiSeq false (onesBits W d.drPrescan.toNat) c
  let (dout, c) := tdiTdoSeq (d.drPostscan == 0) din c
  let c := tdiSeq true (onesBits W d.drPostscan.toNat) c
  (dout, returnIdle c)

end MiyakoLink.Jtag
