import Mathlib.Logic.Function.Basic

/-!
# `TRY_CATCH` and `raise_exception`

A block keeps a `struct exception` on the stack, and the records of the active blocks are linked
by `outer` from `innermost_exception`. The programs are those the macro allows: a block is left at
its end or by an exception. What they do besides is on a state `σ`, and messages are of a type `μ`.

`eval` says what such programs mean: an exception goes to the innermost block around it that
catches it.
-/

namespace MiyakoLink.Exceptions

variable {σ μ : Type}

/-- A program. Behind a block it is looked whether `e.type` is zero, and if it is not, also at
`e.msg`. -/
inductive Program (σ μ : Type) where
  | act (f : σ → σ)
  | seq (p q : Program σ μ)
  | branch (c : σ → Bool) (p q : Program σ μ)
  | raise (type : σ → UInt32) (msg : σ → μ)
  | tryCatch (mask : UInt32) (body completed : Program σ μ) (caught : UInt32 → μ → Program σ μ)

/-! ## What programs mean -/

inductive Result (σ μ : Type) where
  | normal (s : σ)
  | raised (type : UInt32) (msg : μ) (s : σ)

def eval : Program σ μ → σ → Result σ μ
  | .act f, s => .normal (f s)
  | .seq p q, s =>
    match eval p s with
    | .normal s' => eval q s'
    | .raised x msg s' => .raised x msg s'
  | .branch c p q, s => if c s then eval p s else eval q s
  | .raise type msg, s => .raised (type s) (msg s) s
  | .tryCatch mask body completed caught, s =>
    match eval body s with
    | .normal s' => eval completed s'
    | .raised x msg s' => if mask &&& x ≠ 0 then eval (caught x msg) s' else .raised x msg s'

/-! ## The machine -/

abbrev Addr := Nat

/-- `struct exception`. Of `jmpbuf` the stack pointer matters. -/
structure Record (μ : Type) where
  type : UInt32
  msg : μ
  mask : UInt32
  jmpbuf : Addr
  outer : Option Addr

/-- What the program works on, the stack pointer, `innermost_exception` and the memory. -/
structure Machine (σ μ : Type) where
  user : σ
  sp : Addr
  innermost : Option Addr
  record : Addr → Record μ

/-- How a piece of code is left. -/
inductive Outcome (σ μ : Type) where
  | done (m : Machine σ μ)
  /-- `longjmp` to what `setjmp` has saved in the record at `e`. -/
  | jump (e : Addr) (m : Machine σ μ)
  | abort
  /-- The code does not end. -/
  | hang

def Outcome.andThen (o : Outcome σ μ) (k : Machine σ μ → Outcome σ μ) : Outcome σ μ :=
  match o with
  | .done m => k m
  | .jump e m => .jump e m
  | .abort => .abort
  | .hang => .hang

namespace Machine

def setRecord (m : Machine σ μ) (e : Addr) (r : Record μ) : Machine σ μ :=
  { m with record := Function.update m.record e r }

/-- The record of a block is filled in and becomes the innermost one. -/
def enter (m : Machine σ μ) (mask : UInt32) : Machine σ μ :=
  let r := { m.record m.sp with
    type := 0, mask := mask, outer := m.innermost, jmpbuf := m.sp + 1 }
  { m.setRecord m.sp r with innermost := some m.sp, sp := m.sp + 1 }

/-- The loop of `raise_exception`, from the record `e` on. -/
def throwFrom (m : Machine σ μ) (x : UInt32) (msg : μ) : Nat → Option Addr → Outcome σ μ
  | _, none => .abort
  | 0, some _ => .hang
  | n + 1, some e =>
    let r := m.record e
    if r.mask &&& x ≠ 0 then
      .jump e { m.setRecord e { r with type := x, msg := msg } with innermost := r.outer }
    else m.throwFrom x msg n r.outer

/-- `raise_exception`. The records lie below the stack pointer, so a chain that is longer has no
end. -/
def raiseException (m : Machine σ μ) (x : UInt32) (msg : μ) : Outcome σ μ :=
  m.throwFrom x msg m.sp m.innermost

/-- `TRY_CATCH` with its block, when `body` has been run on what `enter` leaves. -/
def leave (e : Addr) : Outcome σ μ → Outcome σ μ
  | .done m =>
    let m' := { m with innermost := (m.record e).outer }
    -- the condition of the loop once more
    if m'.innermost = some e then .hang else .done m'
  | .jump e' m => if e' = e then .done { m with sp := (m.record e).jmpbuf } else .jump e' m
  | .abort => .abort
  | .hang => .hang

/-- The scope of a record ends. -/
def release (e : Addr) (o : Outcome σ μ) : Outcome σ μ :=
  o.andThen fun m => .done { m with sp := e }

end Machine

open Machine

def run : Program σ μ → Machine σ μ → Outcome σ μ
  | .act f, m => .done { m with user := f m.user }
  | .seq p q, m => (run p m).andThen fun m' => run q m'
  | .branch c p q, m => if c m.user then run p m else run q m
  | .raise type msg, m => m.raiseException (type m.user) (msg m.user)
  | .tryCatch mask body completed caught, m =>
    (leave m.sp (run body (m.enter mask))).andThen fun m' =>
      let r := m'.record m.sp
      release m.sp (if r.type = 0 then run completed m' else run (caught r.type r.msg) m')

/-- A block up to its end. -/
def block (mask : UInt32) (body : Program σ μ) (m : Machine σ μ) : Outcome σ μ :=
  leave m.sp (run body (m.enter mask))

end MiyakoLink.Exceptions
