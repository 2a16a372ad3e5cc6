import MiyakoLink.HexUtils
import MiyakoLink.Lib.Sscanf

/-!
# The packets that access memory, registers and breakpoints

The branches of `gdb_main_loop` for `m`, `M`, `X`, `p`, `P` and `G`, and `handle_z_packet`. They
parse `pbuf`, which is static: behind the NUL of a packet are the bytes of earlier ones. The
locals that `sscanf` should assign are not initialised, so what they hold otherwise is a
parameter (`Locals`), as is what lies around `pbuf`.
-/

namespace MiyakoLink.Gdb

open Lib

inductive Letter where
  | m
  | M
  | X
  | p
  | P
  | G
  | Z
  | z
  deriving DecidableEq

def Letter.char : Letter → UInt8
  | m => 0x6D
  | M => 0x4D
  | X => 0x58
  | p => 0x70
  | P => 0x50
  | G => 0x47
  | Z => 0x5A
  | z => 0x7A

abbrev bufSize : Nat := 1024

/-- A packet in `pbuf`, the rest of `pbuf` behind its NUL, and the memory around. -/
structure Received where
  letter : Letter
  body : List UInt8
  fits : body.length < bufSize
  behind : List UInt8
  elsewhere : Int → UInt8
  /-- `strlen` in that memory. -/
  elsewhereLength : Int → Nat

/-- The locals before `sscanf`: `offset` is `hex`, `bin` or `n`, and `kind` the length of a
breakpoint. -/
structure Locals where
  addr : UInt32
  len : UInt32
  reg : UInt32
  offset : Int32
  kind : Int32

/-- What is asked of the target. -/
inductive Operation where
  | memRead (addr len : UInt32)
  | memWrite (addr : UInt32) (bytes : List UInt8)
  | regRead (reg : UInt32)
  | regWrite (reg : UInt32) (bytes : List UInt8)
  | regsWrite (bytes : List UInt8)
  | breakwatchSet (type : Int) (addr : UInt32) (len : Int)
  | breakwatchClear (type : Int) (addr : UInt32) (len : Int)
  deriving DecidableEq

/-- The answers of the target. A read of memory may fail; a write tells whether it has. -/
structure Target where
  regsSize : Nat
  memRead : UInt32 → UInt32 → Option (List UInt8)
  memWrite : UInt32 → List UInt8 → Bool
  regRead : UInt32 → List UInt8
  regWrite : UInt32 → List UInt8 → Int
  breakwatchSet : Int → UInt32 → Int → Int
  breakwatchClear : Int → UInt32 → Int → Int

/-- What a handler has asked of the target, and its reply. -/
structure Handled where
  operations : List Operation
  reply : List UInt8
  deriving DecidableEq

namespace Received

variable (r : Received)

def packet : List UInt8 := r.letter.char :: r.body

def size : Nat := r.packet.length

def pbuf : List UInt8 := r.packet ++ 0 :: r.behind

/-- `pbuf[k]`. -/
def byteAt (k : Int) : UInt8 :=
  if 0 ≤ k ∧ k < r.pbuf.length then r.pbuf.getD k.toNat 0 else r.elsewhere k

/-- `strlen(&pbuf[n])`. -/
def strlen (n : Int) : Nat :=
  if 0 ≤ n ∧ n ≤ r.size then (cstr (r.pbuf.drop n.toNat)).length else r.elsewhereLength n

/-- `unhexify(buf, pbuf + hex, size)`. -/
def unhexify (hex : Int) (size : Nat) : List UInt8 :=
  (List.range size).map fun (k : Nat) =>
    unhexDigit (r.byteAt (hex + 2 * k)) <<< 4 ||| unhexDigit (r.byteAt (hex + 2 * k + 1))

end Received

/-- The `k`-th value that `sscanf` has assigned, if it has. -/
def numberAt (assigned : List Assigned) (k : Nat) (uninitialised : UInt32) : UInt32 :=
  match assigned[k]? with
  | some (.number v) => v
  | _ => uninitialised

def intAt (assigned : List Assigned) (k : Nat) (uninitialised : Int32) : Int :=
  match assigned[k]? with
  | some (.int v) => v
  | _ => uninitialised.toInt

/-- `addr,len` behind the letter. -/
def addrLen (letter : UInt8) : List Directive := [.char letter, .hex, .char 0x2C, .hex]

/-- `addr,len:` behind the letter, and where the data begins. -/
def addrLenData (letter : UInt8) : List Directive := addrLen letter ++ [.char 0x3A, .count]

section

variable (t : Target) (r : Received) (v : Locals)

/-- `m addr,len`. -/
def readMemory : Handled :=
  let assigned := sscanf (addrLen Letter.m.char) 0 (cstr r.pbuf)
  let addr := numberAt assigned 0 v.addr
  let len := numberAt assigned 1 v.len
  -- `sizeof(pbuf) / 2`
  if len > 512 then ⟨[], ascii "E02"⟩
  else
    ⟨[.memRead addr len],
      match t.memRead addr len with
      | none => ascii "E01"
      | some mem => hexify mem⟩

/-- `G XX`. -/
def writeRegisters : Handled :=
  let armRegs := r.unhexify 1 t.regsSize
  ⟨[.regsWrite armRegs], ascii "OK"⟩

/-- The end of `M` and `X`. -/
def writeTo (addr : UInt32) (bytes : List UInt8) : Handled :=
  ⟨[.memWrite addr bytes], if t.memWrite addr bytes then ascii "E01" else ascii "OK"⟩

/-- `M addr,len:XX`. -/
def writeMemory : Handled :=
  let assigned := sscanf (addrLenData Letter.M.char) 0 (cstr r.pbuf)
  let addr := numberAt assigned 0 v.addr
  let len := numberAt assigned 1 v.len
  let hex := intAt assigned 2 v.offset
  if len > UInt32.ofInt (r.size - hex) / 2 then ⟨[], ascii "E02"⟩
  else writeTo t addr (r.unhexify hex len.toNat)

/-- `X addr,len:XX`. -/
def writeBinary : Handled :=
  let assigned := sscanf (addrLenData Letter.X.char) 0 (cstr r.pbuf)
  let addr := numberAt assigned 0 v.addr
  let len := numberAt assigned 1 v.len
  let bin := intAt assigned 2 v.offset
  if len > UInt32.ofInt (r.size - bin) then ⟨[], ascii "E02"⟩
  else writeTo t addr ((List.range len.toNat).map fun (k : Nat) => r.byteAt (bin + k))

/-- `p reg`. -/
def readRegister : Handled :=
  let assigned := sscanf [.char Letter.p.char, .hex] 0 (cstr r.pbuf)
  let reg := numberAt assigned 0 v.reg
  let val := t.regRead reg
  ⟨[.regRead reg], if val = [] then ascii "EFF" else hexify val⟩

/-- `P reg=XX`. -/
def writeRegister : Handled :=
  let assigned := sscanf [.char Letter.P.char, .hex, .char 0x3D, .count] 0 (cstr r.pbuf)
  let reg := numberAt assigned 0 v.reg
  let n := intAt assigned 1 v.offset
  let val := r.unhexify n (r.strlen n / 2)
  ⟨[.regWrite reg val], if 0 < t.regWrite reg val then ascii "OK" else ascii "EFF"⟩

/-- `handle_z_packet`. -/
def handleZPacket : Handled :=
  let type : Int := (r.byteAt 1).toNat - 0x30
  let assigned := sscanf [.char 0x2C, .hex, .char 0x2C, .dec] 0 (cstr (r.pbuf.drop 2))
  let addr := numberAt assigned 0 v.addr
  let len := intAt assigned 1 v.kind
  let set := r.byteAt 0 = 0x5A
  let ret := if set then t.breakwatchSet type addr len else t.breakwatchClear type addr len
  ⟨[if set then .breakwatchSet type addr len else .breakwatchClear type addr len],
    if ret < 0 then ascii "E01" else if 0 < ret then [] else ascii "OK"⟩

/-- The branch of `gdb_main_loop`. -/
def handleAccess (t : Option Target) : Handled :=
  match t with
  -- `ERROR_IF_NO_TARGET`
  | none => ⟨[], ascii "EFF"⟩
  | some t =>
    match r.letter with
    | .m => readMemory t r v
    | .M => writeMemory t r v
    | .X => writeBinary t r v
    | .p => readRegister t r v
    | .P => writeRegister t r v
    | .G => writeRegisters t r
    | .Z | .z => handleZPacket t r v

end

end MiyakoLink.Gdb
