import MiyakoLink.Remote.Firmware

/-!
# What a remote packet may do

`Served` says of a packet that its handler reads the packet only, writes to the buffer only, calls
only what has been set, and sends one answer. Nothing sets `remote_dp.tc` or the functions of the
JTAG handlers, so no packet that needs the target is served. `Harmless` names the others.
-/

namespace MiyakoLink.Remote

open Lib
open Packet (Buffer)

/-- A packet as it is handed to the handlers: `i` characters of the buffer and a NUL. -/
structure Body (size : Nat) where
  packet : Buffer
  i : Nat
  fits : i ≤ size
  ended : packet i = 0

/-- Reads are in the packet or of what the handler has written, and writes in the buffer, which
has room for `size` characters and the NUL. -/
def Within (size i : Nat) : List Access → Prop
  | [] => True
  | .read k :: trace => (k ≤ i ∨ .write k ∈ trace) ∧ Within size i trace
  | .write k :: trace => k ≤ size ∧ Within size i trace

/-- What is called has been set before. -/
def CalledSet : List Event → Prop
  | [] => True
  | .set _ :: log => CalledSet log
  | .called c :: log => .set c ∈ log ∧ CalledSet log
  | .tc :: _ => False

variable {size : Nat} {τ α β : Type}

/-- How many bytes a packet asks for that reads a block of memory. -/
def Body.blockLength (b : Body size) : Option UInt32 :=
  if b.packet 0 ≠ 0x48 then none
  else if b.packet 1 = 0x68 then some (remotehston 8 b.packet 14).toUInt32
  else if b.packet 1 = 0x4D then some (remotehston 8 b.packet 22).toUInt32
  else none

/-- One answer has been sent, with two digits for each byte of a block. -/
def Answered (b : Body size) (out : List UInt8) : Prop :=
  ∃ code data, out = 0x26 :: code :: (data ++ [0x23]) ∧ 0x23 ∉ data ∧
    ∀ n, b.blockLength = some n → code = respOk →
      data.length = 2 * n.toNat ∧ ∀ c ∈ data, isHex c = true

/-- How a handler should end. -/
structure Good (b : Body size) (s : State (Env τ)) : Prop where
  within : Within size b.i s.trace
  called : CalledSet s.env.log
  answered : Answered b s.out

/-- The run ends with `Q`, also by an exception. -/
def Leads (Q : State (Env τ) → Prop) (m : Handler (Env τ) Unit) (s : State (Env τ)) : Prop :=
  Ends (fun _ => Q) (fun _ => Q) (m s)

/-- The handler of a packet does what it should. -/
def Served (P : Port (Bool × τ)) (e : Env τ) (b : Body size) : Prop :=
  Leads (Good b) (remotePacketProcess (firmware P) b.i) ⟨b.packet, [], e, []⟩

/-- The environment after a packet. -/
def after (P : Port (Bool × τ)) (e : Env τ) (b : Body size) : Env τ :=
  match remotePacketProcess (firmware P) b.i ⟨b.packet, [], e, []⟩ with
  | .ok _ s => s.env
  | .error _ s => s.env

/-- All packets of a run are served. -/
def AllServed (P : Port (Bool × τ)) : Env τ → List (Body size) → Prop
  | _, [] => True
  | e, b :: bs => Served P e b ∧ AllServed P (after P e b) bs

/-- The length of a write to memory, from `pos` on, does not fit its alignment. -/
def Body.Misaligned (b : Body size) (pos : Nat) : Prop :=
  (remotehston 8 b.packet (pos + 10)).toUInt32 &&& alignMask (remotehston 2 b.packet pos).toUInt8 ≠ 0

/-- The packets whose handlers neither read past their ends nor need the target, and answer. -/
def Harmless (b : Body size) : Prop :=
  match b.packet 0 with
  | 0x53 =>
    if b.packet 1 = 0x53 then b.i ≠ 2 else b.packet 1 ∉ [0x49, 0x69, 0x6F, 0x4F]
  | 0x4A =>
    if b.packet 1 = 0x44 ∨ b.packet 1 = 0x64 then b.i < 5
    else if b.packet 1 = 0x4E then b.i ≠ 4
    else b.packet 1 ∉ [0x53, 0x52, 0x54]
  | 0x47 => b.packet 1 ∉ [0x7A, 0x46, 0x66, 0x50, 0x70]
  | 0x48 =>
    if b.packet 1 = 0x43 then True
    else if b.packet 1 = 0x48 then 16 ≤ b.i ∧ b.Misaligned 6
    else if b.packet 1 = 0x6D then 24 ≤ b.i ∧ b.Misaligned 14
    else b.packet 1 ∉ [0x64, 0x4C, 0x61, 0x41, 0x4D, 0x68] ∧ 4 ≤ b.i
  | _ => True

/-! ## The accesses of a number -/

/-- A number ends in the packet if it begins there: the NUL is no digit. -/
theorem hstonLength_le {packet : Buffer} {i : Nat} (hended : packet i = 0) (limit : Nat) {pos : Nat}
    (hpos : pos ≤ i) : pos + hstonLength packet limit pos ≤ i + 1 := by
  induction limit generalizing pos with
  | zero =>
    rw [hstonLength]
    omega
  | succ limit ih =>
    rw [hstonLength]
    split
    case h_1 => omega
    case h_2 d hdigit =>
      have hne : pos ≠ i := by
        rintro rfl
        rw [hended] at hdigit
        have hnone : hexDigit? 0 = none := by decide
        rw [hnone] at hdigit
        contradiction
      have := ih (show pos + 1 ≤ i by omega)
      omega

theorem hstonLength_pos (packet : Buffer) {limit : Nat} (hlimit : 0 < limit) (pos : Nat) :
    0 < hstonLength packet limit pos := by
  cases limit with
  | zero => contradiction
  | succ limit =>
    rw [hstonLength]
    split
    · exact Nat.one_pos
    · exact Nat.succ_pos _

variable {i pos n : Nat} {trace : List Access}

theorem within_of_cons {a : Access} (h : Within size i (a :: trace)) : Within size i trace := by
  cases a with
  | read k => exact h.2
  | write k => exact h.2

theorem within_of_touched {access : Nat → Access} (h : Within size i (touched access pos n trace)) :
    Within size i trace := by
  induction n generalizing pos trace with
  | zero => exact h
  | succ n ih => exact within_of_cons (ih h)

theorem within_of_unhexify {hex : Nat} (h : Within size i (unhexifyTrace pos hex n trace)) :
    Within size i trace := by
  induction n generalizing pos hex trace with
  | zero => exact h
  | succ n ih =>
    have := ih h
    exact within_of_cons (within_of_cons (within_of_cons (within_of_cons (within_of_cons this))))

/-- Reads in the packet. -/
theorem within_reads (h : Within size i trace) (hpos : pos + n ≤ i + 1) :
    Within size i (touched .read pos n trace) := by
  induction n generalizing pos trace with
  | zero => exact h
  | succ n ih =>
    apply ih
    · exact ⟨Or.inl (by omega), h⟩
    · omega

/-- A read behind the packet, before anything has been written. -/
theorem not_within_read (hreads : ∀ k, Access.write k ∉ trace) (hpos : i < pos) (hn : 0 < n) :
    ¬ Within size i (touched .read pos n trace) := by
  cases n with
  | zero => contradiction
  | succ n =>
    intro h
    have hread : Within size i (.read pos :: trace) := within_of_touched h
    rcases hread.1 with hle | hwritten
    · omega
    · exact hreads pos hwritten

theorem touched_read_writes (hreads : ∀ k, Access.write k ∉ trace) :
    ∀ k, Access.write k ∉ touched .read pos n trace := by
  induction n generalizing pos trace with
  | zero => exact hreads
  | succ n ih =>
    apply ih
    intro k hk
    cases hk with
    | tail _ hk => exact hreads k hk

theorem calledSet_of_append {events log : List Event} (h : CalledSet (events ++ log)) :
    CalledSet log := by
  induction events with
  | nil => exact h
  | cons event events ih =>
    cases event with
    | set c => exact ih h
    | called c => exact ih h.2
    | tc => exact h.elim

/-! ## Handlers that have gone wrong -/

/-- An access or a call was wrong. -/
def Spoilt (b : Body size) (s : State (Env τ)) : Prop :=
  ¬ (Within size b.i s.trace ∧ CalledSet s.env.log)

theorem Spoilt.not_good {b : Body size} {s : State (Env τ)} (h : Spoilt b s) : ¬ Good b s :=
  fun hgood => h ⟨hgood.within, hgood.called⟩

/-- The operation adds to the log. -/
def Adds (op : Op (Env τ) α) : Prop := ∀ e, ∃ events, (op e).2.log = events ++ e.log

theorem adds_logged (events : List Event) (op : Op (Bool × τ) α) : Adds (logged events op) :=
  fun _ => ⟨events, rfl⟩

theorem adds_memWriteSized (P : Port (Bool × τ)) (ap : Ap) (dest : UInt32) (data : List UInt8)
    (align : UInt8) : Adds ((firmware P).adiv5MemWriteSized ap dest data align) :=
  fun _ => ⟨[.called .lowAccess], rfl⟩

theorem adds_memRead (P : Port (Bool × τ)) (ap : Ap) (address count : UInt32) (e : Env τ) :
    ∃ events, (firmwareMemRead P ap address count e).2.2.log = events ++ e.log := by
  unfold firmwareMemRead
  split
  · exact ⟨[], rfl⟩
  · exact ⟨[.called .lowAccess], rfl⟩

/-- What is wrong stays wrong. -/
def Stays (b : Body size) (m : Handler (Env τ) α) : Prop := Keeps (Spoilt b) m

namespace Stays

variable {b : Body size} {m : Handler (Env τ) α} {f : α → Handler (Env τ) β}

theorem bind (hm : Stays b m) (hf : ∀ a, Stays b (f a)) : Stays b (m >>= f) := Keeps.bind hm hf

theorem ite {c : Prop} [Decidable c] {m' : Handler (Env τ) α} (h : Stays b m) (h' : Stays b m') :
    Stays b (if c then m else m') := Keeps.ite h h'

theorem putchars (cs : List UInt8) : Stays b (putchars cs : Handler (Env τ) Unit) := fun _ h => h

theorem respond (code : UInt8) (param : UInt64) :
    Stays b (respond code param : Handler (Env τ) Unit) := putchars _

theorem respondBuf (code : UInt8) (bs : List UInt8) :
    Stays b (respondBuf code bs : Handler (Env τ) Unit) := putchars _

theorem number (limit pos : Nat) : Stays b (number limit pos : Handler (Env τ) UInt64) :=
  fun _ h hgood => h ⟨within_of_touched hgood.1, hgood.2⟩

theorem srcBytes (P : Port (Env τ)) (n : Nat) : Stays b (srcBytes P n) :=
  fun _ h hgood => h ⟨within_of_touched hgood.1, hgood.2⟩

theorem clearFault (P : Port (Bool × τ)) : Stays b (clearFault (firmware P)) := fun _ h => h

theorem call {op : Op (Env τ) α} (hop : Adds op) : Stays b (call op) := by
  intro s h
  obtain ⟨events, hlog⟩ := hop s.env
  have hspoilt : ¬ (Within size b.i s.trace ∧ CalledSet (op s.env).2.log) := by
    intro hgood
    rw [hlog] at hgood
    exact h ⟨hgood.1, calledSet_of_append hgood.2⟩
  unfold Remote.call
  cases hrun : op s.env with
  | mk a e =>
    rw [hrun] at hspoilt
    cases a with
    | some a => exact hspoilt
    | none => exact hspoilt

theorem memRead (P : Port (Bool × τ)) (ap : Ap) (address count : UInt32) :
    Stays b (memRead (firmware P) ap address count) := by
  intro s h
  obtain ⟨events, hlog⟩ := adds_memRead P ap address count s.env
  unfold Remote.memRead
  cases hread : (firmware P).adiv5MemRead ap address count s.env with
  | mk data rest =>
    obtain ⟨fault, e⟩ := rest
    have hspoilt : ¬ (Within size b.i (touched .write (firmware P).src data.length s.trace) ∧
        CalledSet e.log) := by
      intro hgood
      have he : e.log = events ++ s.env.log := by
        rw [← hlog]
        exact (congrArg (·.2.2.log) hread).symm
      rw [he] at hgood
      exact h ⟨within_of_touched hgood.1, calledSet_of_append hgood.2⟩
    cases fault with
    | some fault => exact hspoilt
    | none => exact hspoilt

theorem hlMemRead (P : Port (Bool × τ)) (ap : Ap) (pos : Nat) :
    Stays b (hlMemRead (firmware P) ap pos) := by
  refine .bind (.number 8 pos) fun address => .bind (.number 8 (pos + 8)) fun count => ?_
  refine .bind (.memRead P ap _ _) fun fault => .ite ?_ ?_
  · exact .bind (.respond _ _) fun _ => .clearFault P
  · exact .bind (.srcBytes _ _) fun bs => .respondBuf _ bs

theorem unhexify (buf hex size' : Nat) : Stays b (modify fun s => { s with
    packet := Remote.unhexify s.packet buf hex size'
    trace := unhexifyTrace buf hex size' s.trace } : Handler (Env τ) PUnit) :=
  fun _ h hgood => h ⟨within_of_unhexify hgood.1, hgood.2⟩

theorem hlMemWriteSized (P : Port (Bool × τ)) (ap : Ap) (pos : Nat) :
    Stays b (hlMemWriteSized (firmware P) ap pos) := by
  refine .bind (.number 2 pos) fun align => .bind (.number 8 (pos + 2)) fun dest => ?_
  refine .bind (.number 8 (pos + 10)) fun len => .ite (.respond _ _) ?_
  refine .bind (.unhexify _ _ _) fun _ => .bind (.srcBytes _ _) fun data => ?_
  refine .bind (.call (adds_memWriteSized P _ _ _ _)) fun fault => .ite ?_ (.respond _ _)
  exact .bind (.respond _ _) fun _ => .clearFault P

end Stays

end MiyakoLink.Remote
