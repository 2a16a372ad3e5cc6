import Mathlib.Logic.Function.Iterate
import MiyakoLink.Adiv5.MemAp

/-!
# `firmware_mem_read` and `firmware_mem_write_sized`

The loops of `adiv5.c` over a memory access port. The buffers they copy from and to are in the
memory of the probe, `ram`.
-/

namespace MiyakoLink.Adiv5

open Lib

inductive Align where
  | byte
  | halfword
  | word
  | dword
  deriving DecidableEq, Repr

/-- The value of the enumerator. -/
def Align.code : Align → UInt32
  | .byte => 0
  | .halfword => 1
  | .word => 2
  | .dword => 3

/-- `1 << align`. -/
def Align.step (align : Align) : UInt32 := 1 <<< align.code

/-- `ALIGNOF`. -/
def alignof (x : UInt32) : Align :=
  if x &&& 3 = 0 then .word else if x &&& 1 = 0 then .halfword else .byte

/-- `MIN` of two alignments. -/
def minAlign (a b : Align) : Align := if a.code < b.code then a else b

/-- The access port, with the `csw` that `adiv5_new_ap` has stored: without the bits for the
size and the increment. -/
structure Ap where
  apsel : UInt8
  csw : UInt32
  csw_clear : csw &&& 0x37 = 0

variable (H : Hw) (ap : Ap)

/-- `firmware_ap_write`. -/
def apWrite (addr : UInt16) (value : UInt32) (m : MemAp) : MemAp :=
  let m := m.lowWrite H ap.apsel dpSelect
    (ap.apsel.toUInt32 <<< 24 ||| (addr &&& 0xF0).toUInt32)
  m.lowWrite H ap.apsel addr value

/-- Program the CSW and TAR for sequencial access at a given width. -/
def apMemAccessSetup (addr : UInt32) (align : Align) (m : MemAp) : MemAp :=
  let csw := ap.csw ||| 0x10
  let csw :=
    match align with
    | .byte => csw ||| 0
    | .halfword => csw ||| 1
    | .dword | .word => csw ||| 2
  let m := apWrite H ap apCsw csw m
  m.lowWrite H ap.apsel apTar addr

/-- Extract read data from data lane based on align and src address: the memory of the probe,
and the pointer behind what was stored. -/
def extract (ram : Mem32) (dest src val : UInt32) (align : Align) : Mem32 × UInt32 :=
  let ram :=
    match align with
    | .byte => overlay ram dest [((val >>> ((src &&& 3) <<< 3)) &&& 0xFF).toUInt8]
    | .halfword =>
      let v := (val >>> ((src &&& 2) <<< 3)) &&& 0xFFFF
      overlay ram dest [lane v 0, lane v 1]
    | .dword | .word => overlay ram dest [lane val 0, lane val 1, lane val 2, lane val 3]
  (ram, dest + align.step)

/-- The state of the loop of `firmware_mem_read`. -/
structure ReadState where
  ram : Mem32
  dest : UInt32
  src : UInt32
  osrc : UInt32
  ap : MemAp

/-- The body of the loop. -/
def readTurn (align : Align) (s : ReadState) : ReadState :=
  let (tmp, m) := s.ap.lowRead H ap.apsel apDrw
  let (ram, dest) := extract s.ram s.dest s.src tmp align
  let src := s.src + align.step
  -- Check for 10 bit address overflow
  if (src ^^^ s.osrc) &&& pageMask ≠ 0 then
    let m := m.lowWrite H ap.apsel apTar src
    let (_, m) := m.lowRead H ap.apsel apDrw
    ⟨ram, dest, src, src, m⟩
  else
    ⟨ram, dest, src, s.osrc, m⟩

/-- `firmware_mem_read`: the memory of the probe, and the access port. -/
def memRead (dest src len : UInt32) (ram : Mem32) (m : MemAp) : Mem32 × MemAp :=
  let align := minAlign (alignof src) (alignof len)
  if len = 0 then (ram, m)
  else
    let len := len >>> align.code
    let m := apMemAccessSetup H ap src align m
    let (_, m) := m.lowRead H ap.apsel apDrw
    -- `while (--len)`
    let s := (readTurn H ap align)^[(len - 1).toNat] ⟨ram, dest, src, src, m⟩
    let (tmp, m) := s.ap.lowRead H ap.apsel dpRdbuff
    ((extract s.ram s.dest s.src tmp align).1, m)

/-- Pack data into correct data lane. -/
def pack (ram : Mem32) (src dest : UInt32) : Align → UInt32
  | .byte => (ram src).toUInt32 <<< ((dest &&& 3) <<< 3)
  | .halfword =>
    ((ram src).toUInt32 ||| (ram (src + 1)).toUInt32 <<< 8) <<< ((dest &&& 2) <<< 3)
  | .dword | .word => ofLanes fun k => ram (src + UInt32.ofNat k)

/-- The state of the loop of `firmware_mem_write_sized`. -/
structure WriteState where
  src : UInt32
  dest : UInt32
  odest : UInt32
  ap : MemAp

/-- The body of the loop. -/
def writeTurn (ram : Mem32) (align : Align) (s : WriteState) : WriteState :=
  let tmp := pack ram s.src s.dest align
  let src := s.src + align.step
  let dest := s.dest + align.step
  let m := s.ap.lowWrite H ap.apsel apDrw tmp
  -- Check for 10 bit address overflow
  if (dest ^^^ s.odest) &&& pageMask ≠ 0 then
    ⟨src, dest, dest, m.lowWrite H ap.apsel apTar dest⟩
  else
    ⟨src, dest, s.odest, m⟩

/-- `firmware_mem_write_sized`. -/
def memWriteSized (dest src len : UInt32) (align : Align) (ram : Mem32) (m : MemAp) : MemAp :=
  let len := len >>> align.code
  let m := apMemAccessSetup H ap dest align m
  ((writeTurn H ap ram align)^[len.toNat] ⟨src, dest, dest, m⟩).ap

/-- `adiv5_mem_write`. -/
def memWrite (dest src len : UInt32) (ram : Mem32) (m : MemAp) : MemAp :=
  memWriteSized H ap dest src len (minAlign (alignof dest) (alignof len)) ram m

end MiyakoLink.Adiv5
