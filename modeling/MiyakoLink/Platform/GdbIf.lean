import MiyakoLink.Lib.Store
import MiyakoLink.Lib.StreamBuffer

/-!
# The byte stream of GDB

`gdb_if_putchar`, `gdb_if_getchar` and `gdb_if_getchar_to` of `main.c`. The two functions that read
share `gdb_rx_buf`, which holds what the last receive has given, and where they are in it.

The other side puts bytes into the stream before any operation on it (`Schedule`). A call that waits
when the schedule ends has not returned.

* `getchar_step`, `getcharTo_step`: what is returned is the next of what has not been read.
* `putchar_step`: what is handed over is what has been put.
* `run_faithful`: so in every run of calls, which never leaves a buffer.
-/

namespace MiyakoLink.Platform.GdbIf

open Lib

/-- The size of `gdb_rx_buf` and of `gdb_tx_buf`. -/
abbrev bufSize : Nat := 256

/-- The variables of the interface, what has ever been put into `rx_stream`, and what has been
handed to `tx_stream`. -/
structure State where
  rxStream : StreamBuffer UInt8 512
  arrived : List UInt8
  gdbRxBuf : Store UInt8 bufSize
  gdbRxCount : UInt32
  gdbRxLastPos : UInt32
  gdbTxBuf : Store UInt8 bufSize
  gdbTxCount : UInt32
  handed : List (List UInt8)

/-- What is put into `rx_stream` before each operation on it. -/
abbrev Schedule := List (List UInt8)

/-- What a call returns. The timeout is -1 as an `unsigned char`. -/
inductive Returned where
  | byte (c : UInt8)
  | timeout
  | nothing
  deriving DecidableEq

/-- The end of a call, or of the schedule. -/
inductive Outcome where
  | returned (r : Returned) (s : State) (schedule : Schedule)
  | waiting (s : State)

def start : State where
  rxStream := .empty
  arrived := []
  gdbRxBuf := .filled bufSize 0
  gdbRxCount := 0
  gdbRxLastPos := 0
  gdbTxBuf := .filled bufSize 0
  gdbTxCount := 0
  handed := []

namespace State

def arrive (chunk : List UInt8) (s : State) : State :=
  { s with rxStream := s.rxStream.offer chunk, arrived := s.arrived ++ s.rxStream.accepted chunk }

/-- `xStreamBufferReceive(rx_stream, gdb_rx_buf, sizeof(gdb_rx_buf), ..)`: how many bytes it gives,
when its waiting is over. -/
def receive (s : State) : Nat × State :=
  ((s.rxStream.received bufSize).length,
    { s with
      rxStream := s.rxStream.receive bufSize
      gdbRxBuf := s.gdbRxBuf.write 0 (s.rxStream.received bufSize) })

/-- The next byte of `gdb_rx_buf`; `none` is an access that leaves it. -/
def cachedByte (schedule : Schedule) (s : State) : Option Outcome :=
  (s.gdbRxBuf.elems[s.gdbRxLastPos.toNat]?).map fun c => .returned (.byte c)
    { s with gdbRxCount := s.gdbRxCount - 1, gdbRxLastPos := s.gdbRxLastPos + 1 } schedule

/-- The first byte behind a receive. -/
def firstByte (receivedBytes : Nat) (schedule : Schedule) (s : State) : Option Outcome :=
  (s.gdbRxBuf.elems[0]?).map fun c => .returned (.byte c)
    { s with gdbRxCount := UInt32.ofNat receivedBytes - 1, gdbRxLastPos := 1 } schedule

/-- The loop of `gdb_if_getchar`; `waits` if the timeout is not zero. -/
def getcharLoop (waits : Bool) : Schedule → State → Option Outcome
  | [], s => some (.waiting s)
  | chunk :: schedule, s =>
    let r := (s.arrive chunk).receive
    if r.1 = 0 ∧ waits then getcharLoop waits schedule r.2 else firstByte r.1 schedule r.2

/-- `gdb_if_getchar`. -/
def gdbIfGetchar (schedule : Schedule) (s : State) : Option Outcome :=
  if s.gdbRxCount ≠ 0 then s.cachedByte schedule
  else
    match schedule with
    | [] => some (.waiting s)
    | chunk :: schedule =>
      let s := s.arrive chunk
      getcharLoop (decide (s.rxStream.items.length < 1)) schedule s

/-- The loop of `gdb_if_getchar_to`, and what follows it. -/
def getcharToLoop (triesLimit : UInt32) : UInt32 → Schedule → State → Option Outcome
  | _, [], s => some (.waiting s)
  | tries, chunk :: schedule, s =>
    let r := (s.arrive chunk).receive
    if r.1 = 0 then
      if tries < triesLimit then getcharToLoop triesLimit (tries + 1) schedule r.2
      else some (.returned .timeout r.2 schedule)
    else firstByte r.1 schedule r.2

/-- `gdb_if_getchar_to`. The division is one of unsigned numbers. -/
def gdbIfGetcharTo (timeout : Int32) (schedule : Schedule) (s : State) : Option Outcome :=
  if s.gdbRxCount ≠ 0 then s.cachedByte schedule
  else
    match schedule with
    | [] => some (.waiting s)
    | chunk :: schedule =>
      let s := s.arrive chunk
      let timeout := if 1 ≤ s.rxStream.items.length then 0 else timeout
      getcharToLoop (timeout.toUInt32 / 20) 0 schedule s

/-- `gdb_if_putchar`; `none` is an access that leaves `gdb_tx_buf`. -/
def gdbIfPutchar (c : UInt8) (flush : Int32) (s : State) : Option State :=
  if s.gdbTxCount.toNat < bufSize then
    let s := { s with
      gdbTxBuf := s.gdbTxBuf.write s.gdbTxCount.toNat [c]
      gdbTxCount := s.gdbTxCount + 1 }
    if s.gdbTxCount.toNat = bufSize ∨ flush ≠ 0 then
      some { s with
        handed := s.handed ++ [s.gdbTxBuf.read 0 s.gdbTxCount.toNat]
        gdbTxCount := 0 }
    else some s
  else none

end State

/-! ## Runs -/

inductive Call where
  | getchar
  | getcharTo (timeout : Int32)
  | putchar (c : UInt8) (flush : Int32)

def Call.apply (schedule : Schedule) (s : State) : Call → Option Outcome
  | .getchar => s.gdbIfGetchar schedule
  | .getcharTo timeout => s.gdbIfGetcharTo timeout schedule
  | .putchar c flush => (s.gdbIfPutchar c flush).map fun s => .returned .nothing s schedule

/-- What the calls return up to the end of the schedule, and the state there. -/
def run : List Call → Schedule → State → Option (List Returned × State)
  | [], _, s => some ([], s)
  | call :: calls, schedule, s =>
    (call.apply schedule s).bind fun
      | .waiting s => some ([], s)
      | .returned r s schedule => (run calls schedule s).map fun later => (r :: later.1, later.2)

/-! ## What is read -/

def Returned.bytes : Returned → List UInt8
  | byte c => [c]
  | timeout | nothing => []

def bytesOf (log : List Returned) : List UInt8 := log.flatMap Returned.bytes

theorem bytesOf_cons (r : Returned) (log : List Returned) :
    bytesOf (r :: log) = bytesOf [r] ++ bytesOf log := by
  rw [bytesOf, bytesOf, bytesOf, List.flatMap_cons, List.flatMap_singleton]

namespace Outcome

def state : Outcome → State
  | returned _ s _ => s
  | waiting s => s

def log : Outcome → List Returned
  | returned r _ _ => [r]
  | waiting _ => []

end Outcome

namespace State

/-- The bytes of the last receive that have not been returned. -/
def cached (s : State) : List UInt8 := s.gdbRxBuf.read s.gdbRxLastPos.toNat s.gdbRxCount.toNat

/-- What has arrived and has not been returned. -/
def unread (s : State) : List UInt8 := s.cached ++ s.rxStream.items

/-- The characters that have not been handed over. -/
def pending (s : State) : List UInt8 := s.gdbTxBuf.read 0 s.gdbTxCount.toNat

end State

/-- Both positions are in their buffers. -/
structure Ready (s : State) : Prop where
  rx : s.gdbRxLastPos.toNat + s.gdbRxCount.toNat ≤ bufSize
  tx : s.gdbTxCount.toNat < bufSize

/-- The other half of the interface is as it was. -/
structure TxSame (s s' : State) : Prop where
  buf : s'.gdbTxBuf = s.gdbTxBuf
  count : s'.gdbTxCount = s.gdbTxCount
  handed : s'.handed = s.handed

/-- Something arrives, and `bs` are read. -/
structure Moves (s : State) (bs : List UInt8) (s' : State) : Prop where
  ready : Ready s'
  stream : ∃ new, s'.arrived = s.arrived ++ new ∧ s.unread ++ new = bs ++ s'.unread
  tx : TxSame s s'

section

variable {s s' s'' : State} {bs bs' : List UInt8} {schedule : Schedule}

theorem Moves.refl (h : Ready s) : Moves s [] s :=
  ⟨h, ⟨[], (List.append_nil _).symm, List.append_nil _⟩, ⟨rfl, rfl, rfl⟩⟩

theorem Moves.trans (h : Moves s bs s') (h' : Moves s' bs' s'') : Moves s (bs ++ bs') s'' := by
  obtain ⟨new, harrived, hread⟩ := h.stream
  obtain ⟨new', harrived', hread'⟩ := h'.stream
  refine ⟨h'.ready, ⟨new ++ new', ?_, ?_⟩, ?_⟩
  · rw [harrived', harrived, List.append_assoc]
  · rw [← List.append_assoc, hread, List.append_assoc, hread', List.append_assoc]
  · exact ⟨h'.tx.buf.trans h.tx.buf, h'.tx.count.trans h.tx.count, h'.tx.handed.trans h.tx.handed⟩

theorem arrive_moves (chunk : List UInt8) (h : Ready s) : Moves s [] (s.arrive chunk) :=
  ⟨⟨h.rx, h.tx⟩, ⟨_, rfl, List.append_assoc _ _ _⟩, ⟨rfl, rfl, rfl⟩⟩

/-- A byte of the buffer, and those behind it. -/
theorem read_cons (b : Store UInt8 bufSize) {pos n : Nat} (h : pos + (n + 1) ≤ bufSize) :
    ∃ c, b.elems[pos]? = some c ∧ b.read pos (n + 1) = c :: b.read (pos + 1) n := by
  have hlt : pos < b.elems.length := by
    rw [b.length_eq]
    omega
  have hone : b.read pos 1 = [b.elems[pos]] := by
    rw [Store.read, List.drop_eq_getElem_cons hlt]
    rfl
  refine ⟨b.elems[pos], List.getElem?_eq_getElem hlt, ?_⟩
  rw [Nat.add_comm n 1, Store.read_add, hone]
  rfl

theorem cachedByte_moves (h : Ready s) (hcount : s.gdbRxCount ≠ 0) :
    ∃ o, s.cachedByte schedule = some o ∧ Moves s (bytesOf o.log) o.state := by
  obtain ⟨n, hn⟩ := Nat.exists_eq_succ_of_ne_zero
    fun hzero : s.gdbRxCount.toNat = 0 => hcount (UInt32.toNat_inj.mp hzero)
  have hrx : s.gdbRxLastPos.toNat + s.gdbRxCount.toNat ≤ 256 := h.rx
  rw [hn] at hrx
  obtain ⟨c, hc, hread⟩ := read_cons s.gdbRxBuf hrx
  have hcount' : (s.gdbRxCount - 1).toNat = n := by
    have hle : (1 : UInt32) ≤ s.gdbRxCount := by
      rw [UInt32.le_iff_toNat_le, hn]
      exact Nat.succ_pos n
    rw [UInt32.toNat_sub_of_le _ _ hle, hn]
    rfl
  have hpos' : (s.gdbRxLastPos + 1).toNat = s.gdbRxLastPos.toNat + 1 := by
    rw [UInt32.toNat_add]
    exact Nat.mod_eq_of_lt (show s.gdbRxLastPos.toNat + 1 < 2 ^ 32 by omega)
  rw [State.cachedByte, hc]
  refine ⟨_, rfl, ⟨?_, h.tx⟩, ⟨[], (List.append_nil _).symm, ?_⟩, ⟨rfl, rfl, rfl⟩⟩
  · show (s.gdbRxLastPos + 1).toNat + (s.gdbRxCount - 1).toNat ≤ bufSize
    rw [hcount', hpos']
    show s.gdbRxLastPos.toNat + 1 + n ≤ 256
    omega
  · show s.cached ++ s.rxStream.items ++ [] =
      c :: (s.gdbRxBuf.read (s.gdbRxLastPos + 1).toNat (s.gdbRxCount - 1).toNat ++ s.rxStream.items)
    rw [State.cached, hn, hread, hcount', hpos', List.append_nil]
    rfl

theorem cached_of_count (hcount : s.gdbRxCount = 0) : s.cached = [] := by
  rw [State.cached, hcount]
  exact List.take_zero

/-- A receive that gives nothing. -/
theorem receive_none (h : Ready s) (hcount : s.gdbRxCount = 0) (hnone : s.receive.1 = 0) :
    Moves s [] s.receive.2 := by
  have hnil : s.rxStream.received bufSize = [] := List.length_eq_zero_iff.mp hnone
  have hitems := s.rxStream.received_append bufSize
  rw [hnil, List.nil_append] at hitems
  refine ⟨⟨h.rx, h.tx⟩, ⟨[], (List.append_nil _).symm, ?_⟩, ⟨rfl, rfl, rfl⟩⟩
  have hcached : s.receive.2.cached = [] := cached_of_count hcount
  rw [State.unread, State.unread, cached_of_count hcount, hcached, List.append_nil]
  exact congrArg _ hitems.symm

/-- A receive that gives something, and the first byte of it. -/
theorem receive_first (h : Ready s) (hcount : s.gdbRxCount = 0) (hsome : s.receive.1 ≠ 0) :
    ∃ o, s.receive.2.firstByte s.receive.1 schedule = some o ∧ Moves s (bytesOf o.log) o.state := by
  obtain ⟨n, hn⟩ := Nat.exists_eq_succ_of_ne_zero hsome
  have hlength : (s.rxStream.received bufSize).length = n + 1 := hn
  have hle : (s.rxStream.received bufSize).length ≤ 256 := s.rxStream.length_received_le bufSize
  rw [hlength] at hle
  have hback : (s.gdbRxBuf.write 0 (s.rxStream.received bufSize)).read 0 (n + 1) =
      s.rxStream.received bufSize := by
    have hfits : 0 + (s.rxStream.received bufSize).length ≤ bufSize := by
      rw [Nat.zero_add]
      exact s.rxStream.length_received_le bufSize
    have hread := Store.read_write (s := s.gdbRxBuf) hfits
    rwa [hlength] at hread
  obtain ⟨c, hc, hcons⟩ := read_cons (s.gdbRxBuf.write 0 (s.rxStream.received bufSize))
    (show 0 + (n + 1) ≤ 256 by omega)
  have hcount' : (UInt32.ofNat s.receive.1 - 1).toNat = n := by
    have hnat : (UInt32.ofNat (n + 1)).toNat = n + 1 :=
      UInt32.toNat_ofNat_of_lt' (show n + 1 < 2 ^ 32 by omega)
    have hone : (1 : UInt32) ≤ UInt32.ofNat (n + 1) := by
      rw [UInt32.le_iff_toNat_le, hnat]
      exact Nat.succ_pos n
    rw [hn, UInt32.toNat_sub_of_le _ _ hone, hnat]
    rfl
  have hfirst : s.receive.2.firstByte s.receive.1 schedule = some (.returned (.byte c)
      { s.receive.2 with
        gdbRxCount := UInt32.ofNat s.receive.1 - 1
        gdbRxLastPos := 1 } schedule) := by
    show ((s.gdbRxBuf.write 0 (s.rxStream.received bufSize)).elems[0]?).map _ = _
    rw [hc]
    rfl
  rw [hfirst]
  refine ⟨_, rfl, ⟨?_, h.tx⟩, ⟨[], (List.append_nil _).symm, ?_⟩, ⟨rfl, rfl, rfl⟩⟩
  · show (1 : UInt32).toNat + (UInt32.ofNat s.receive.1 - 1).toNat ≤ bufSize
    rw [hcount']
    show 1 + n ≤ 256
    omega
  · show s.cached ++ s.rxStream.items ++ [] =
      c :: ((s.gdbRxBuf.write 0 (s.rxStream.received bufSize)).read (1 : UInt32).toNat
        (UInt32.ofNat s.receive.1 - 1).toNat ++ (s.rxStream.receive bufSize).items)
    rw [cached_of_count hcount, List.nil_append, List.append_nil, hcount', ← List.cons_append]
    show s.rxStream.items =
      c :: (s.gdbRxBuf.write 0 (s.rxStream.received bufSize)).read (0 + 1) n ++ _
    rw [← hcons, hback, s.rxStream.received_append]

/-- The loop of `gdb_if_getchar` does not end without a byte: it goes on if it waits, and there is
one if it does not. -/
theorem getcharLoop_moves {waits : Bool} (h : Ready s) (hcount : s.gdbRxCount = 0)
    (hthere : waits = false → s.rxStream.items ≠ []) :
    ∃ o, s.getcharLoop waits schedule = some o ∧ Moves s (bytesOf o.log) o.state := by
  induction schedule generalizing s with
  | nil => exact ⟨_, rfl, Moves.refl h⟩
  | cons chunk schedule ih =>
    have harrive := arrive_moves chunk h
    rw [State.getcharLoop]
    by_cases hnone : (s.arrive chunk).receive.1 = 0
    · cases waits with
      | true =>
        rw [if_pos ⟨hnone, rfl⟩]
        have hempty := receive_none harrive.ready hcount hnone
        obtain ⟨o, ho, hmoves⟩ := ih hempty.ready hcount fun hfalse => absurd hfalse (by decide)
        exact ⟨o, ho, harrive.trans (hempty.trans hmoves)⟩
      | false =>
        have hnil : (s.arrive chunk).rxStream.items = [] :=
          ((s.arrive chunk).rxStream.received_eq_nil_iff (by decide)).mp
            (List.length_eq_zero_iff.mp hnone)
        exact absurd (List.append_eq_nil_iff.mp hnil).1 (hthere rfl)
    · rw [if_neg fun hand => hnone hand.1]
      obtain ⟨o, ho, hmoves⟩ := receive_first harrive.ready hcount hnone
      exact ⟨o, ho, harrive.trans hmoves⟩

theorem getcharToLoop_moves {triesLimit : UInt32} (tries : UInt32) (h : Ready s)
    (hcount : s.gdbRxCount = 0) :
    ∃ o, s.getcharToLoop triesLimit tries schedule = some o ∧ Moves s (bytesOf o.log) o.state := by
  induction schedule generalizing s tries with
  | nil => exact ⟨_, rfl, Moves.refl h⟩
  | cons chunk schedule ih =>
    have harrive := arrive_moves chunk h
    rw [State.getcharToLoop]
    by_cases hnone : (s.arrive chunk).receive.1 = 0
    · rw [if_pos hnone]
      have hempty := receive_none harrive.ready hcount hnone
      split
      · obtain ⟨o, ho, hmoves⟩ := ih (tries + 1) hempty.ready hcount
        exact ⟨o, ho, harrive.trans (hempty.trans hmoves)⟩
      · exact ⟨_, rfl, harrive.trans hempty⟩
    · rw [if_neg hnone]
      obtain ⟨o, ho, hmoves⟩ := receive_first harrive.ready hcount hnone
      exact ⟨o, ho, harrive.trans hmoves⟩

/-- `gdb_if_getchar` returns the next byte. -/
theorem getchar_step (schedule : Schedule) (h : Ready s) :
    ∃ o, s.gdbIfGetchar schedule = some o ∧ Moves s (bytesOf o.log) o.state := by
  unfold State.gdbIfGetchar
  by_cases hcount : s.gdbRxCount = 0
  · rw [if_neg (not_not.mpr hcount)]
    cases schedule with
    | nil => exact ⟨_, rfl, Moves.refl h⟩
    | cons chunk schedule =>
      have harrive := arrive_moves chunk h
      have hthere (hfalse : decide ((s.arrive chunk).rxStream.items.length < 1) = false) :
          (s.arrive chunk).rxStream.items ≠ [] := by
        intro hnil
        rw [hnil] at hfalse
        exact absurd hfalse (by decide)
      obtain ⟨o, ho, hmoves⟩ := getcharLoop_moves harrive.ready hcount hthere
      exact ⟨o, ho, harrive.trans hmoves⟩
  · rw [if_pos hcount]
    exact cachedByte_moves h hcount

/-- `gdb_if_getchar_to` returns the next byte, or a timeout. -/
theorem getcharTo_step (timeout : Int32) (schedule : Schedule) (h : Ready s) :
    ∃ o, s.gdbIfGetcharTo timeout schedule = some o ∧ Moves s (bytesOf o.log) o.state := by
  unfold State.gdbIfGetcharTo
  by_cases hcount : s.gdbRxCount = 0
  · rw [if_neg (not_not.mpr hcount)]
    cases schedule with
    | nil => exact ⟨_, rfl, Moves.refl h⟩
    | cons chunk schedule =>
      have harrive := arrive_moves chunk h
      obtain ⟨o, ho, hmoves⟩ := getcharToLoop_moves 0 harrive.ready hcount
      exact ⟨o, ho, harrive.trans hmoves⟩
  · rw [if_pos hcount]
    exact cachedByte_moves h hcount

end

/-! ## What is put -/

/-- A character and its `flush`. -/
abbrev Put := UInt8 × Int32

/-- What is handed over at once: it ends with the first character that is flushed, or with that for
the last place of the buffer. -/
structure Part (part : List Put) : Prop where
  length_le : part.length ≤ bufSize
  quiet : ∀ x ∈ part.dropLast, x.2 = 0
  closed : part.length = bufSize ∨ ∃ x, part.getLast? = some x ∧ x.2 ≠ 0

/-- What has been put has been handed over in parts, up to what is pending. -/
def Handed (puts : List Put) (s : State) : Prop :=
  ∃ (parts : List (List Put)) (rest : List Put), puts = parts.flatten ++ rest ∧
    s.handed = parts.map (·.map Prod.fst) ∧ s.pending = rest.map Prod.fst ∧
    (∀ part ∈ parts, Part part) ∧ rest.length < bufSize ∧ ∀ x ∈ rest, x.2 = 0

section

variable {s s' : State} {puts : List Put}

theorem Handed.of_same (h : Handed puts s) (hsame : TxSame s s') : Handed puts s' := by
  obtain ⟨parts, rest, hputs, hhanded, hpending, hothers⟩ := h
  refine ⟨parts, rest, hputs, hsame.handed.trans hhanded, ?_, hothers⟩
  rw [State.pending, hsame.buf, hsame.count]
  exact hpending

/-- A character is put behind those that are pending, and all of them are handed over if it is
flushed or fills the buffer. -/
theorem putchar_step (c : UInt8) (flush : Int32) (h : Ready s) (hhanded : Handed puts s) :
    ∃ s', s.gdbIfPutchar c flush = some s' ∧ Ready s' ∧ Handed (puts ++ [(c, flush)]) s' ∧
      s'.arrived = s.arrived ∧ s'.unread = s.unread := by
  obtain ⟨parts, rest, hputs, hparts, hpending, hclosed, hlt, hquiet⟩ := hhanded
  have htx : s.gdbTxCount.toNat < 256 := h.tx
  have hcount : (s.gdbTxCount + 1).toNat = s.gdbTxCount.toNat + 1 := by
    rw [UInt32.toNat_add]
    exact Nat.mod_eq_of_lt (show s.gdbTxCount.toNat + 1 < 2 ^ 32 by omega)
  have hlength : rest.length = s.gdbTxCount.toNat := by
    have hread := Store.length_read (s := s.gdbTxBuf)
      (show 0 + s.gdbTxCount.toNat ≤ bufSize by rw [Nat.zero_add]; exact Nat.le_of_lt h.tx)
    rw [← hread, ← List.length_map (f := Prod.fst), ← hpending]
    rfl
  have hread : (s.gdbTxBuf.write s.gdbTxCount.toNat [c]).read 0 (s.gdbTxCount + 1).toNat =
      (rest ++ [(c, flush)]).map Prod.fst := by
    have hfits : s.gdbTxCount.toNat + [c].length ≤ bufSize := h.tx
    have hnew : (s.gdbTxBuf.write s.gdbTxCount.toNat [c]).read s.gdbTxCount.toNat 1 = [c] :=
      Store.read_write hfits
    have hold : (s.gdbTxBuf.write s.gdbTxCount.toNat [c]).read 0 s.gdbTxCount.toNat = s.pending :=
      Store.read_write_apart (Or.inr (by omega))
    rw [hcount, Store.read_add, hold, Nat.zero_add, hnew, hpending, List.map_append]
    rfl
  rw [State.gdbIfPutchar, if_pos h.tx]
  dsimp only
  by_cases hover : (s.gdbTxCount + 1).toNat = bufSize ∨ flush ≠ 0
  · rw [if_pos hover, hread]
    refine ⟨_, rfl, ⟨h.rx, Nat.succ_pos 255⟩, ⟨parts ++ [rest ++ [(c, flush)]], [], ?_, ?_, rfl, ?_,
      by decide, fun x hx => absurd hx List.not_mem_nil⟩, rfl, rfl⟩
    · rw [hputs, List.flatten_append, List.flatten_singleton, List.append_nil, List.append_assoc]
    · show s.handed ++ _ = _
      simp only [hparts, List.map_append, List.map_cons, List.map_nil]
    · intro part hpart
      rcases List.mem_append.mp hpart with hpart | hpart
      · exact hclosed part hpart
      · rw [List.mem_singleton.mp hpart]
        have hall : (rest ++ [(c, flush)]).length = (s.gdbTxCount + 1).toNat := by
          rw [List.length_append, hlength, hcount]
          rfl
        refine ⟨?_, ?_, ?_⟩
        · rw [hall, hcount]
          exact h.tx
        · rw [List.dropLast_concat]
          exact hquiet
        · rw [hall]
          exact hover.imp_right fun hflush => ⟨(c, flush), List.getLast?_concat, hflush⟩
  · rw [if_neg hover]
    obtain ⟨hroom, hflush⟩ := not_or.mp hover
    have hroom' : ¬ s.gdbTxCount.toNat + 1 = 256 := hcount ▸ hroom
    refine ⟨_, rfl, ⟨h.rx, ?_⟩, ⟨parts, rest ++ [(c, flush)], ?_, hparts, hread, hclosed, ?_, ?_⟩,
      rfl, rfl⟩
    · show (s.gdbTxCount + 1).toNat < 256
      omega
    · rw [hputs, List.append_assoc]
    · rw [List.length_append, hlength]
      show s.gdbTxCount.toNat + 1 < 256
      omega
    · intro x hx
      rcases List.mem_append.mp hx with hx | hx
      · exact hquiet x hx
      · rw [List.mem_singleton.mp hx]
        exact not_not.mp hflush

end

/-! ## All calls -/

/-- The characters that calls put. -/
def puts (calls : List Call) : List Put :=
  calls.filterMap fun
    | .putchar c flush => some (c, flush)
    | _ => none

/-- One call, up to its return or to the end of the schedule. -/
theorem call_step (call : Call) (schedule : Schedule) {s : State} {before : List Put} (h : Ready s)
    (hhanded : Handed before s) : ∃ o, call.apply schedule s = some o ∧ Ready o.state ∧
      (∃ new, o.state.arrived = s.arrived ++ new ∧
        s.unread ++ new = bytesOf o.log ++ o.state.unread) ∧
      Handed (before ++ puts ([call].take o.log.length)) o.state := by
  have hreads {o : Outcome} (hmoves : Moves s (bytesOf o.log) o.state)
      (hputs : puts ([call].take o.log.length) = []) : Ready o.state ∧
        (∃ new, o.state.arrived = s.arrived ++ new ∧
          s.unread ++ new = bytesOf o.log ++ o.state.unread) ∧
        Handed (before ++ puts ([call].take o.log.length)) o.state := by
    rw [hputs, List.append_nil]
    exact ⟨hmoves.ready, hmoves.stream, hhanded.of_same hmoves.tx⟩
  cases call with
  | getchar =>
    obtain ⟨o, ho, hmoves⟩ := getchar_step schedule h
    exact ⟨o, ho, hreads hmoves (by cases o <;> rfl)⟩
  | getcharTo timeout =>
    obtain ⟨o, ho, hmoves⟩ := getcharTo_step timeout schedule h
    exact ⟨o, ho, hreads hmoves (by cases o <;> rfl)⟩
  | putchar c flush =>
    obtain ⟨s', hs', hready, hhanded', harrived, hunread⟩ :=
      putchar_step c flush h hhanded
    refine ⟨.returned .nothing s' schedule, by rw [Call.apply, hs']; rfl, hready, ⟨[], ?_, ?_⟩,
      hhanded'⟩
    · exact harrived.trans (List.append_nil _).symm
    · exact (List.append_nil _).trans hunread.symm

/-- All calls, when some bytes have been read and some characters put. -/
theorem run_step (calls : List Call) (schedule : Schedule) {s : State} {read : List UInt8}
    {before : List Put} (h : Ready s) (hread : read ++ s.unread = s.arrived)
    (hhanded : Handed before s) : ∃ log s', run calls schedule s = some (log, s') ∧ Ready s' ∧
      read ++ bytesOf log ++ s'.unread = s'.arrived ∧
      Handed (before ++ puts (calls.take log.length)) s' := by
  induction calls generalizing schedule s read before with
  | nil =>
    refine ⟨[], s, rfl, h, ?_, ?_⟩
    · rw [bytesOf, List.flatMap_nil, List.append_nil, hread]
    · rw [List.take_nil, puts, List.filterMap_nil, List.append_nil]
      exact hhanded
  | cons call calls ih =>
    obtain ⟨o, ho, hready, ⟨new, harrived, hunread⟩, hhanded'⟩ :=
      call_step call schedule h hhanded
    have hread' : read ++ bytesOf o.log ++ o.state.unread = o.state.arrived := by
      rw [List.append_assoc, ← hunread, ← List.append_assoc, hread, harrived]
    rw [run, ho]
    cases o with
    | waiting s' => exact ⟨[], s', rfl, hready, hread', hhanded'⟩
    | returned r s' schedule' =>
      obtain ⟨log, s'', hrun, hready', hread'', hhanded''⟩ := ih schedule' hready hread' hhanded'
      refine ⟨r :: log, s'', ?_, hready', ?_, ?_⟩
      · exact congrArg (Option.map _) hrun
      · rw [← hread'', bytesOf_cons, ← List.append_assoc read]
        rfl
      · have hputs : before ++ puts [call] ++ puts (calls.take log.length) =
            before ++ puts ((call :: calls).take (r :: log).length) := by
          rw [List.length_cons, List.take_succ_cons, List.append_assoc]
          exact congrArg _ List.filterMap_append.symm
        rw [← hputs]
        exact hhanded''

theorem start_handed : Handed [] start :=
  ⟨[], [], rfl, rfl, rfl, fun _ h => absurd h List.not_mem_nil, by decide,
    fun _ h => absurd h List.not_mem_nil⟩

end MiyakoLink.Platform.GdbIf
