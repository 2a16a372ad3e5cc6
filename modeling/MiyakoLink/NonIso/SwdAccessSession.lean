import MiyakoLink.Adiv5.LowAccess
import MiyakoLink.NonIso.SeqInSession
import MiyakoLink.NonIso.SwdAccess

/-!
# `low_access` with the state machine

`platform_target_interface_non_iso_swd_low_access`, down to the levels on the wire. `Adiv5.LowAccess`
has the same function on top of a list of answers; an answer is here what the target sends after the
request has been clocked out.

* `call_refines`: a call comes to the end that it has with answers.
* `access_refines`: so do accesses one behind the other.
-/

namespace MiyakoLink.SwdAccess

open Lib.Pio
open Adiv5 (Answer DpException Link Request Sticky abortRequest daPabort swdAnswer swdPerform swdReply
  swdTransfer)
open SwdSeq (State popcount)

/-! ## The function -/

/-- The levels of SWDIO during an attempt, and whether the time of the host is over after it. -/
structure Attempt where
  input : Nat → Bool
  expired : Bool

/-- The state machine, `dp->fault`, and the edges of each attempt, the last one first. -/
structure Probe where
  pio : State
  fault : Bool
  log : List (List (Bool × Bool))

abbrev Ended := EStateM.Result DpException Probe

/-- The acknowledgement that a program goes on with. -/
abbrev expected : Word := 0x20000000

abbrev swdpAckOk : Word := 0x01

abbrev swdpAckWait : Word := 0x02

abbrev swdpAckFault : Word := 0x04

/-- `make_packet_request` with the direction behind the request. -/
def requestWord (r : Request) : Word :=
  BitVec.ofNat 32 (NonIso.makePacketRequest r.rnw r.addr.toNat ||| 1 <<< 9)

def paritySent (value : UInt32) : Word := BitVec.ofNat 32 (popcount value.toBitVec % 2)

def words (r : Request) : List Word :=
  if r.rnw then [expected, requestWord r]
  else [expected, requestWord r, r.value.toBitVec, paritySent r.value]

def programOf (rnw : Bool) : NonIso.PioProgram :=
  if rnw then .swdDpLowAccessRead else .swdDpLowAccessWrite

def setupOf (rnw : Bool) (input : Nat → Bool) : WideSetup :=
  if rnw then readSetup input else writeSetup input

/-- Up to the loop: the program is loaded, and the line is taken. -/
def prepare (rnw : Bool) (s : State) : State :=
  let m := s.load (programOf rnw)
  ⟨programOf rnw, .dirOut,
    if s.tmsDirection = .dirOut then m else { m with setLevel := true, pindir := true }⟩

def Probe.withMachine (p : Probe) (m : Machine) : Probe := { p with pio := { p.pio with machine := m } }

def Probe.setFault (p : Probe) : Probe := { p with fault := true }

def Probe.clocked (p : Probe) : Probe := { p with log := p.pio.machine.edges :: p.log }

/-- The data of a read and its parity. -/
def takeData (fuel : Nat) (input : Nat → Bool) (p : Probe) : Option (Ended UInt32) := do
  let (response, m) ← getBy (wideStep (readSetup input)) fuel p.pio.machine
  let (parity, m) ← getBy (wideStep (readSetup input)) fuel m
  let p := (p.withMachine m).clocked
  if (popcount response + if parity ≠ 0 then 1 else 0) % 2 = 1 then
    some (.error .swdpParityError p.setFault)
  else some (.ok (UInt32.ofBitVec response) p)

/-- The loop and what is behind it. The abort is a call of the same function. -/
def transfer (fuel : Nat) : List Attempt → Request → Probe → Option (Ended UInt32)
  | [], _, _ => none
  | a :: rest, r, p =>
    (getBy (wideStep (setupOf r.rnw a.input)) fuel
      { p.pio.machine with tx := words r, rx := [], edges := [] }).bind fun (w, m) =>
        let ack := w >>> 29
        let p := p.withMachine m
        if ack = swdpAckFault then some (.ok 0 p.clocked.setFault)
        else if ack = swdpAckWait then
          let p := p.clocked
          if a.expired then
            match transfer fuel rest (abortRequest daPabort)
                { p with pio := prepare false p.pio } with
            | none => none
            | some (.ok _ p) => some (.ok 0 p.setFault)
            | some (.error e p) => some (.error e p)
          else transfer fuel rest r p
        else if ack ≠ swdpAckOk then some (.error .swdpInvalidAck p.clocked)
        else if r.rnw then takeData fuel a.input p
        else some (.ok 0 p.clocked)

/-- `platform_target_interface_non_iso_swd_low_access`. -/
def swdLowAccess (fuel : Nat) (attempts : List Attempt) (r : Request) (p : Probe) :
    Option (Ended UInt32) :=
  if r.ap && p.fault then some (.ok 0 p)
  else transfer fuel attempts r { p with pio := prepare r.rnw p.pio }

/-! ## Answers on the wire -/

/-- The three bits of an acknowledgement. -/
def Acks (input : Nat → Bool) (b₀ b₁ b₂ : Bool) : Prop := input 9 = b₀ ∧ input 10 = b₁ ∧ input 11 = b₂

/-- A word, and a parity bit that is right or not. -/
structure Sends (input : Nat → Bool) (data : UInt32) (parityOk : Bool) : Prop where
  bits : ∀ k < 32, input (12 + k) = data.toBitVec.getLsbD k
  parity : (parityOk = true ↔ (popcount data.toBitVec + (input 44).toNat) % 2 = 0)

/-- The levels of an attempt carry a reply of the target in the state `s`. -/
def Carries (r : Request) (s : Link) (a : Attempt) : Answer → Prop
  | .comply raised data parityOk => Acks a.input true false false ∧
      (r.rnw = true → Sends a.input (swdPerform r raised data s).1 parityOk)
  | .wait expired => Acks a.input false true false ∧ a.expired = expired
  | .fault => Acks a.input false false true
  | .noise => ¬ Acks a.input true false false ∧ ¬ Acks a.input false true false ∧
      ¬ Acks a.input false false true

/-- The attempts carry what the target answers to a request, and to the abort behind it. -/
def Wired : List Answer → Request → Link → List Attempt → Prop
  | _, _, _, [] => False
  | [], r, s, a :: _ => Carries r s a (swdReply s.sticky r (.comply .none 0 true))
  | b :: rest, r, s, a :: as => Carries r s a (swdReply s.sticky r b) ∧
      match swdReply s.sticky r b with
      | .wait true => Wired rest (abortRequest daPabort) ((s.send r).give rest) as
      | .wait false => Wired rest r ((s.send r).give rest) as
      | _ => True

/-! ## Decoding -/

section
variable {input : Nat → Bool}

theorem ackWord_eq (input : Nat → Bool) : ackWord input = shifted [input 9, input 10, input 11] :=
  rfl

theorem ackWord_expected : ackWord input = expected ↔ Acks input true false false := by
  rw [ackWord_eq, Acks]
  cases input 9 <;> cases input 10 <;> cases input 11 <;> decide

theorem ack_ok : ackWord input >>> 29 = swdpAckOk ↔ Acks input true false false := by
  rw [ackWord_eq, Acks]
  cases input 9 <;> cases input 10 <;> cases input 11 <;> decide

theorem ack_wait : ackWord input >>> 29 = swdpAckWait ↔ Acks input false true false := by
  rw [ackWord_eq, Acks]
  cases input 9 <;> cases input 10 <;> cases input 11 <;> decide

theorem ack_fault : ackWord input >>> 29 = swdpAckFault ↔ Acks input false false true := by
  rw [ackWord_eq, Acks]
  cases input 9 <;> cases input 10 <;> cases input 11 <;> decide

theorem dataWord_eq {data : UInt32} (h : ∀ k < 32, input (12 + k) = data.toBitVec.getLsbD k) :
    dataWord input = data.toBitVec := by
  apply BitVec.eq_of_getLsbD_eq
  intro k hk
  have hlength := levels_length input 12 32
  rw [dataWord, shifted_getLsbD (Nat.le_of_eq hlength) hk, hlength, if_pos (Nat.le_add_left 32 k),
    Nat.add_sub_cancel, levels, List.getD_eq_getElem?_getD, List.getElem?_map,
    List.getElem?_range hk, ← h k hk]
  rfl

theorem parityWord_ne_zero : parityWord input ≠ 0 ↔ input 44 = true := by
  rw [parityWord]
  cases input 44 <;> decide

end

/-! ## Attempts -/

/-- A machine that waits for an attempt, and drives the line. -/
structure Prepared (m : Machine) : Prop where
  pc : m.pc = 0
  isr : m.isr = 0
  isrCount : m.isrCount = 0
  clock : m.clock = false
  set : m.setLevel = true
  dir : m.pindir = true

/-- The edges are those of a request: its eight bits, and the data if there is any. -/
structure Shows (edges : List (Bool × Bool)) (r : Request) : Prop where
  request : edges.take 8 = driven true 8 (requestWord r)
  data : r.rnw = false → 13 < edges.length →
    edges.drop 13 = driven true 32 r.value.toBitVec ++ driven true 8 (paritySent r.value)

section
variable {r : Request} {a : Attempt} {m : Machine} {fuel : Nat}

theorem requestWord_turn (r : Request) : (requestWord r).getLsbD 9 = true := by
  rw [requestWord, BitVec.getLsbD_ofNat, Nat.testBit_or, decide_eq_true (by decide), Bool.true_and]
  exact Bool.or_true _

theorem requested_take (q : Word) (rest : List (Bool × Bool)) :
    (requested true q ++ rest).take 8 = driven true 8 q := by
  have hlength : (requested true q).length = 8 := driven_length true 8 q
  rw [← hlength, List.take_left]
  rfl

theorem turned_length (set : Bool) (q : Word) : (turned set q).length = 13 := by
  rw [turned, List.length_append, clocked_length]
  rfl

/-- The beginning of an attempt, for the lemmas about the programs. -/
theorem Prepared.eq (h : Prepared m) (tx : List Word) :
    { m with tx := tx, rx := [], edges := [] } = waiting m.x m.y m.osr tx true m.outLevel true := by
  obtain ⟨pc, x, y, osr, isr, n, tx', rx, set, out, dir, clock, edges⟩ := m
  obtain ⟨rfl, rfl, rfl, rfl, rfl, rfl⟩ := h
  rfl

/-- A request that is not complied with. -/
theorem attempt_refused (hm : Prepared m) (r : Request) {input : Nat → Bool}
    (hack : ¬ Acks input true false false) (hfuel : 200 < fuel) :
    ∃ m', getBy (wideStep (setupOf r.rnw input)) fuel
        { m with tx := words r, rx := [], edges := [] } = some (ackWord input, m') ∧
      Prepared m' ∧ Shows m'.edges r := by
  have hne : ackWord input ≠ expected := mt ackWord_expected.mp hack
  rw [hm.eq]
  cases hrnw : r.rnw with
  | true =>
    obtain ⟨n, x', osr', hn, hruns⟩ := runs_readRefused input m.x m.y m.osr expected (requestWord r)
      true m.outLevel true hne
    have hget := getBy_of_runs hruns rfl (Nat.lt_of_le_of_lt hn hfuel)
    rw [words, hrnw, if_pos rfl]
    exact ⟨_, hget, ⟨rfl, rfl, rfl, rfl, rfl, requestWord_turn r⟩, requested_take _ _,
      fun h => absurd (hrnw.symm.trans h) (by decide)⟩
  | false =>
    obtain ⟨n, x', osr', hn, hruns⟩ := runs_writeRefused input m.x m.y m.osr expected (requestWord r)
      r.value.toBitVec (paritySent r.value) true m.outLevel true hne
    have hget := getBy_of_runs hruns rfl (Nat.lt_of_le_of_lt hn hfuel)
    rw [words, hrnw, if_neg Bool.false_ne_true]
    refine ⟨_, hget, ⟨rfl, rfl, rfl, rfl, rfl, requestWord_turn r⟩, ?_, fun _ hlong => ?_⟩
    · show (turned true _).take 8 = _
      rw [turned, List.append_assoc, requested_take]
    · exact absurd hlong (by rw [turned_length]; exact Nat.lt_irrefl 13)

/-- A write that is complied with. -/
theorem attempt_write (hm : Prepared m) (hrnw : r.rnw = false) {input : Nat → Bool}
    (hack : Acks input true false false) (hfuel : 200 < fuel) :
    ∃ m', getBy (wideStep (setupOf r.rnw input)) fuel
        { m with tx := words r, rx := [], edges := [] } = some (expected, m') ∧
      Prepared m' ∧ Shows m'.edges r := by
  obtain ⟨n, x', osr', hn, hruns⟩ := runs_writeOk input m.x m.y m.osr expected (requestWord r)
    r.value.toBitVec (paritySent r.value) true m.outLevel true (ackWord_expected.mpr hack)
  have hget := getBy_of_runs hruns rfl (Nat.lt_of_le_of_lt hn hfuel)
  rw [hm.eq, words, hrnw, if_neg Bool.false_ne_true]
  refine ⟨_, hget, ⟨rfl, rfl, rfl, rfl, rfl, requestWord_turn r⟩, ?_, fun _ _ => ?_⟩
  · show (turned true _ ++ _ ++ _).take 8 = _
    rw [turned, List.append_assoc, List.append_assoc, List.append_assoc, requested_take]
  · show (turned true _ ++ _ ++ _).drop 13 = _
    rw [List.append_assoc, ← turned_length true (requestWord r), List.drop_left]

/-- A read that is complied with: the data and its parity follow. -/
theorem attempt_read (hm : Prepared m) (hrnw : r.rnw = true) {input : Nat → Bool}
    (hack : Acks input true false false) (hfuel : 200 < fuel) :
    ∃ m₁ m₂ m', getBy (wideStep (setupOf r.rnw input)) fuel
        { m with tx := words r, rx := [], edges := [] } = some (expected, m₁) ∧
      getBy (wideStep (readSetup input)) fuel m₁ = some (dataWord input, m₂) ∧
      getBy (wideStep (readSetup input)) fuel m₂ = some (parityWord input, m') ∧
      Prepared m' ∧ Shows m'.edges r := by
  have hfirst := getBy_of_runs (runs_readOk input m.x m.y m.osr expected (requestWord r) true
    m.outLevel true (ackWord_expected.mpr hack)) rfl (show 32 < fuel by omega)
  have hsecond := getBy_of_runs (runs_readData input expected (requestWord r) true) rfl
    (show 64 < fuel by omega)
  obtain ⟨x', osr', hruns⟩ := runs_readParity input expected (requestWord r) true
  have hthird := getBy_of_runs hruns rfl (show 8 < fuel by omega)
  rw [hm.eq, words, hrnw, if_pos rfl]
  exact ⟨_, _, _, hfirst, hsecond, hthird, ⟨rfl, rfl, rfl, rfl, rfl, requestWord_turn r⟩,
    requested_take _ _, fun h => absurd (hrnw.symm.trans h) (by decide)⟩

end

/-! ## Refinement -/

/-- Between two calls. -/
structure Ready (s : State) : Prop where
  clock : s.tmsDirection ≠ .notInitialized → s.machine.clock = false
  waits : s.currentProgram = .swdDpLowAccessRead ∨ s.currentProgram = .swdDpLowAccessWrite →
    s.machine.pc = 0 ∧ s.machine.isr = 0 ∧ s.machine.isrCount = 0 ∧ s.machine.clock = false
  driven : s.tmsDirection = .dirOut → s.machine.setLevel = true ∧ s.machine.pindir = true

/-- The same sticky fault, and on the wire the requests that were sent. -/
structure Follows (p : Probe) (s : Link) : Prop where
  fault : p.fault = s.dp.fault
  wire : List.Forall₂ Shows p.log s.wire

/-- With the line taken, and the program of a request. -/
structure Taken (p : Probe) : Prop where
  direction : p.pio.tmsDirection = .dirOut
  prepared : Prepared p.pio.machine

/-- Two ends of a call. -/
inductive Ends : Option (Ended UInt32) → Adiv5.Ended UInt32 → Prop
  | ok {p : Probe} {s : Link} (v : UInt32) (hp : Ready p.pio) (hs : Follows p s) :
    Ends (some (.ok v p)) (.ok v s)
  | error {p : Probe} {s : Link} (e : DpException) (hp : Ready p.pio) (hs : Follows p s) :
    Ends (some (.error e p)) (.error e s)

section
variable {p : Probe} {s : Link} {r : Request} {a : Attempt} {fuel : Nat}

theorem Taken.ready (h : Taken p) : Ready p.pio where
  clock _ := h.prepared.clock
  waits _ := ⟨h.prepared.pc, h.prepared.isr, h.prepared.isrCount, h.prepared.clock⟩
  driven _ := ⟨h.prepared.set, h.prepared.dir⟩

/-- A machine with a program waits with a low clock. -/
theorem Ready.load {t : State} (h : Ready t) (rnw : Bool) :
    (t.load (programOf rnw)).pc = 0 ∧ (t.load (programOf rnw)).isr = 0 ∧
      (t.load (programOf rnw)).isrCount = 0 ∧ (t.load (programOf rnw)).clock = false := by
  unfold State.load
  split
  · rename_i hprogram
    exact h.waits (by rw [hprogram]; cases rnw <;> decide)
  · refine ⟨rfl, rfl, rfl, ?_⟩
    split
    · rfl
    · rename_i hdir
      exact h.clock hdir

theorem Ready.load_driven {t : State} (h : Ready t) (rnw : Bool) (hdir : t.tmsDirection = .dirOut) :
    (t.load (programOf rnw)).setLevel = true ∧ (t.load (programOf rnw)).pindir = true := by
  unfold State.load
  split
  · exact h.driven hdir
  · rw [if_neg (by rw [hdir]; decide)]
    exact h.driven hdir

theorem Ready.prepared {t : State} (h : Ready t) (rnw : Bool) :
    Prepared (prepare rnw t).machine := by
  obtain ⟨hpc, hisr, hcount, hclock⟩ := h.load rnw
  unfold prepare
  by_cases hdir : t.tmsDirection = .dirOut
  · obtain ⟨hset, hpindir⟩ := h.load_driven rnw hdir
    simp only [if_pos hdir]
    exact ⟨hpc, hisr, hcount, hclock, hset, hpindir⟩
  · simp only [if_neg hdir]
    exact ⟨hpc, hisr, hcount, hclock, rfl, rfl⟩

/-- The edges of an attempt are those of the request that is sent. -/
theorem Follows.clocked {m : Machine} (h : Follows p s) (hshows : Shows m.edges r)
    (rest : List Answer) : Follows (p.withMachine m).clocked ((s.send r).give rest) :=
  ⟨h.fault, .cons hshows h.wire⟩

theorem Follows.setFault (h : Follows p s) : Follows p.setFault s.setFault.refuse := ⟨rfl, h.wire⟩

/-- What the function does with a result of an attempt. -/
theorem transfer_cons {w : Word} {m' : Machine} {rest : List Attempt}
    (hget : getBy (wideStep (setupOf r.rnw a.input)) fuel
      { p.pio.machine with tx := words r, rx := [], edges := [] } = some (w, m')) :
    transfer fuel (a :: rest) r p =
      if w >>> 29 = swdpAckFault then some (.ok 0 (p.withMachine m').clocked.setFault)
      else if w >>> 29 = swdpAckWait then
        if a.expired then
          match transfer fuel rest (abortRequest daPabort)
              { (p.withMachine m').clocked with
                pio := prepare false (p.withMachine m').clocked.pio } with
          | none => none
          | some (.ok _ p) => some (.ok 0 p.setFault)
          | some (.error e p) => some (.error e p)
        else transfer fuel rest r (p.withMachine m').clocked
      else if w >>> 29 ≠ swdpAckOk then some (.error .swdpInvalidAck (p.withMachine m').clocked)
      else if r.rnw then takeData fuel a.input (p.withMachine m')
      else some (.ok 0 (p.withMachine m').clocked) := by
  rw [transfer, hget]
  rfl

theorem Taken.withMachine {m' : Machine} (h : Taken p) (hm : Prepared m') :
    Taken (p.withMachine m').clocked := ⟨h.direction, hm⟩

/-- The abort is prepared as any call. -/
theorem Taken.prepare (h : Taken p) : Taken { p with pio := prepare false p.pio } :=
  ⟨rfl, h.ready.prepared false⟩

theorem Ends.setFault {x : Option (Ended UInt32)} {y : Adiv5.Ended UInt32} : Ends x y →
    Ends (match x with
        | none => none
        | some (.ok _ p) => some (.ok 0 p.setFault)
        | some (.error e p) => some (.error e p))
      (match y with
        | .ok _ s => .ok 0 s.setFault.refuse
        | .error e s => .error e s) := by
  rintro (⟨v, hp, hs⟩ | ⟨e, hp, hs⟩)
  · exact .ok 0 hp hs.setFault
  · exact .error e hp hs

/-- What a target sends depends on its flags alone. -/
theorem swdPerform_data (r : Request) (raised : Sticky) (data : UInt32) (s : Link)
    (rest : List Answer) :
    (swdPerform r raised data ((s.send r).give rest)).1 = (swdPerform r raised data s).1 := by
  unfold swdPerform
  split
  · rfl
  · split
    · split <;> rfl
    · split <;> rfl

theorem Follows.perform (h : Follows p s) (r : Request) (raised : Sticky) (data : UInt32) :
    Follows p (swdPerform r raised data s).2 := by
  unfold swdPerform
  split
  · exact ⟨h.fault, h.wire⟩
  · split
    · split
      · exact h
      · exact h
    · split
      · exact ⟨h.fault, h.wire⟩
      · exact h

/-- The parity of what arrived. -/
theorem parity_odd {input : Nat → Bool} {data : UInt32} {parityOk : Bool}
    (h : Sends input data parityOk) :
    (popcount (dataWord input) + if parityWord input ≠ 0 then 1 else 0) % 2 = 1 ↔
      parityOk = false := by
  have hbit : (if parityWord input ≠ 0 then 1 else 0) = (input 44).toNat := by
    simp only [parityWord_ne_zero]
    cases input 44 <;> rfl
  have hparity := h.parity
  rw [dataWord_eq h.bits, hbit, ← Bool.not_eq_true, hparity]
  omega

/-- A read that the target complies with. -/
theorem takeData_eq {input : Nat → Bool} {data : UInt32} {parityOk : Bool} {m₂ m' : Machine}
    (hsends : Sends input data parityOk)
    (hdata : getBy (wideStep (readSetup input)) fuel p.pio.machine = some (dataWord input, m₂))
    (hparity : getBy (wideStep (readSetup input)) fuel m₂ = some (parityWord input, m')) :
    takeData fuel input p = some (if parityOk then .ok data (p.withMachine m').clocked
      else .error .swdpParityError (p.withMachine m').clocked.setFault) := by
  have hodd := parity_odd hsends
  show (getBy _ _ _).bind _ = _
  rw [hdata]
  show (getBy _ _ _).bind _ = _
  rw [hparity]
  show (if (popcount (dataWord input) + if parityWord input ≠ 0 then 1 else 0) % 2 = 1 then _
    else _) = _
  simp only [hodd]
  rw [dataWord_eq hsends.bits]
  cases parityOk <;> rfl

/-- A request that the target complies with. -/
theorem transfer_comply {raised : Sticky} {data : UInt32} {parityOk : Bool} (hp : Taken p)
    (hs : Follows p s) (hcarries : Carries r s a (.comply raised data parityOk))
    (hfuel : 200 < fuel) (rest : List Attempt) (answers : List Answer) :
    Ends (transfer fuel (a :: rest) r p)
      (swdAnswer r raised data parityOk ((s.send r).give answers)) := by
  obtain ⟨hack, hsends⟩ := hcarries
  have hdecoded : expected >>> 29 = swdpAckOk := by decide
  have hok : ¬ swdpAckOk = swdpAckFault ∧ ¬ swdpAckOk = swdpAckWait := by decide
  cases hrnw : r.rnw with
  | true =>
    obtain ⟨m₁, m₂, m', hfirst, hsecond, hthird, hm', hshows⟩ :=
      attempt_read hp.prepared hrnw hack hfuel
    have hsends := hsends hrnw
    have hfollows := (hs.clocked (m := m') hshows answers).perform r raised data
    rw [transfer_cons hfirst, hdecoded, if_neg hok.1, if_neg hok.2, if_neg (not_not.mpr rfl), hrnw,
      if_pos rfl, takeData_eq (p := p.withMachine m₁) hsends hsecond hthird, swdAnswer,
      ← swdPerform_data r raised data s answers]
    simp only [hrnw, if_pos]
    cases parityOk with
    | true => exact .ok _ (hp.withMachine hm').ready hfollows
    | false => exact .error _ (hp.withMachine hm').ready ⟨rfl, hfollows.wire⟩
  | false =>
    obtain ⟨m', hget, hm', hshows⟩ := attempt_write hp.prepared hrnw hack hfuel
    have hfollows := (hs.clocked (m := m') hshows answers).perform r raised data
    rw [transfer_cons hget, hdecoded, if_neg hok.1, if_neg hok.2, if_neg (not_not.mpr rfl), hrnw,
      if_neg Bool.false_ne_true, swdAnswer]
    simp only [hrnw, if_neg Bool.false_ne_true]
    exact .ok 0 (hp.withMachine hm').ready hfollows

theorem transfer_fault (hp : Taken p) (hs : Follows p s) (hack : Acks a.input false false true)
    (hfuel : 200 < fuel) (rest : List Attempt) (answers : List Answer) :
    Ends (transfer fuel (a :: rest) r p) (.ok 0 ((s.send r).give answers).setFault.refuse) := by
  have hother : ¬ Acks a.input true false false := fun h => absurd (h.1.symm.trans hack.1) (by decide)
  obtain ⟨m', hget, hm', hshows⟩ := attempt_refused hp.prepared r hother hfuel
  rw [transfer_cons hget, ack_fault.mpr hack, if_pos rfl]
  exact .ok 0 (hp.withMachine hm').ready (hs.clocked hshows answers).setFault

theorem transfer_noise (hp : Taken p) (hs : Follows p s) (hcarries : Carries r s a .noise)
    (hfuel : 200 < fuel) (rest : List Attempt) (answers : List Answer) :
    Ends (transfer fuel (a :: rest) r p) (.error .swdpInvalidAck ((s.send r).give answers)) := by
  obtain ⟨hok, hwait, hfault⟩ := hcarries
  obtain ⟨m', hget, hm', hshows⟩ := attempt_refused hp.prepared r hok hfuel
  rw [transfer_cons hget, if_neg (mt ack_fault.mp hfault), if_neg (mt ack_wait.mp hwait),
    if_pos (mt ack_ok.mp hok)]
  exact .error _ (hp.withMachine hm').ready (hs.clocked hshows answers)

/-- The machine is as it was, and the target lets the host wait. -/
theorem transfer_wait (hp : Taken p) (hs : Follows p s) (hack : Acks a.input false true false)
    (r : Request) (hfuel : 200 < fuel) (rest : List Attempt) (answers : List Answer) :
    ∃ p', Taken p' ∧ Follows p' ((s.send r).give answers) ∧ transfer fuel (a :: rest) r p =
      if a.expired then
        match transfer fuel rest (abortRequest daPabort) { p' with pio := prepare false p'.pio } with
        | none => none
        | some (.ok _ p) => some (.ok 0 p.setFault)
        | some (.error e p) => some (.error e p)
      else transfer fuel rest r p' := by
  have hother : ¬ Acks a.input true false false := fun h => absurd (h.1.symm.trans hack.1) (by decide)
  have hdecoded : ¬ swdpAckWait = swdpAckFault := by decide
  obtain ⟨m', hget, hm', hshows⟩ := attempt_refused hp.prepared r hother hfuel
  refine ⟨_, hp.withMachine hm', hs.clocked hshows answers, ?_⟩
  rw [transfer_cons hget, ack_wait.mpr hack, if_neg hdecoded, if_pos rfl]

/-- The function comes to the end that it has with answers. -/
theorem transfer_refines {answers : List Answer} {attempts : List Attempt} (hp : Taken p)
    (hs : Follows p s) (hwired : Wired answers r s attempts) (hfuel : 200 < fuel) :
    Ends (transfer fuel attempts r p) (swdTransfer answers r s) := by
  induction answers generalizing r s p attempts with
  | nil =>
    obtain _ | ⟨a, rest⟩ := attempts
    · exact hwired.elim
    · have hwired : Carries r s a (swdReply s.sticky r (.comply .none 0 true)) := hwired
      rw [swdTransfer]
      cases hreply : swdReply s.sticky r (.comply .none 0 true) with
      | comply raised data parityOk => exact transfer_comply hp hs (hreply ▸ hwired) hfuel rest []
      | fault => exact transfer_fault hp hs (hreply ▸ hwired : Carries r s a .fault) hfuel rest []
      | wait expired =>
        rw [swdReply] at hreply
        split at hreply <;> cases hreply
      | noise =>
        rw [swdReply] at hreply
        split at hreply <;> cases hreply
  | cons b answers ih =>
    obtain _ | ⟨a, rest⟩ := attempts
    · exact hwired.elim
    · obtain ⟨hcarries, hrest⟩ := hwired
      rw [swdTransfer]
      cases hreply : swdReply s.sticky r b with
      | comply raised data parityOk =>
        exact transfer_comply hp hs (hreply ▸ hcarries) hfuel rest answers
      | fault => exact transfer_fault hp hs (hreply ▸ hcarries : Carries r s a .fault) hfuel rest _
      | noise => exact transfer_noise hp hs (hreply ▸ hcarries) hfuel rest answers
      | wait expired =>
        rw [hreply] at hcarries hrest
        obtain ⟨p', hp', hs', htransfer⟩ := transfer_wait hp hs hcarries.1 r hfuel rest answers
        rw [htransfer, hcarries.2]
        cases expired with
        | true => exact (ih hp'.prepare ⟨hs'.fault, hs'.wire⟩ hrest).setFault
        | false => exact ih hp' hs' hrest

/-- A call comes to the end that it has with answers. -/
theorem call_refines {attempts : List Attempt} (hready : Ready p.pio) (hs : Follows p s)
    (hwired : (r.ap && s.dp.fault) = false → Wired s.answers r s attempts) (hfuel : 200 < fuel) :
    Ends (swdLowAccess fuel attempts r p) (Adiv5.platformSwdLowAccess r s) := by
  unfold swdLowAccess Adiv5.platformSwdLowAccess
  rw [hs.fault]
  split
  · exact .ok 0 hready ⟨hs.fault, hs.wire⟩
  · rename_i hsent
    exact transfer_refines ⟨rfl, hready.prepared r.rnw⟩ ⟨rfl, hs.wire⟩
      (hwired (Bool.eq_false_iff.mpr hsent)) hfuel

end

/-! ## Sessions -/

/-- A result or an exception, and the state. -/
def ended {ε σ α : Type} : EStateM.Result ε σ α → Except ε α × σ
  | .ok a s => (.ok a, s)
  | .error e s => (.error e, s)

/-- Accesses one behind the other, with the attempts of each. Their callers catch the exceptions. -/
def accesses (fuel : Nat) : List (Request × List Attempt) → Probe →
    Option (List (Except DpException UInt32) × Probe)
  | [], p => some ([], p)
  | (r, attempts) :: calls, p =>
    (swdLowAccess fuel attempts r p).bind fun result =>
      (accesses fuel calls (ended result).2).map fun (vs, p) => ((ended result).1 :: vs, p)

/-- The same with answers. -/
def answered : List Request → Link → List (Except DpException UInt32) × Link
  | [], s => ([], s)
  | r :: rs, s =>
    let result := ended (Adiv5.platformSwdLowAccess r s)
    let (vs, s) := answered rs result.2
    (result.1 :: vs, s)

/-- What the target answers is on the wire in each attempt that is made. -/
def AllWired : List (Request × List Attempt) → Link → Prop
  | [], _ => True
  | (r, attempts) :: calls, s =>
    ((r.ap && s.dp.fault) = false → Wired s.answers r s attempts) ∧
      AllWired calls (ended (Adiv5.platformSwdLowAccess r s)).2

/-- The levels for the ID of a debug port: it complies, and sends a word. -/
def idLevels (k : Nat) : Bool :=
  if k < 12 then k = 9 else if k < 44 then (0x2BA01477 : Word).getLsbD (k - 12) else k ≠ 44

/-- A debug port before its first access. -/
def idLink : Link where
  dp := ⟨false, 0, 0, false⟩
  sticky := .none
  posted := 0
  wire := []
  answers := [.wait false, .comply .none 0x2BA01477 true]
  refused := false

end MiyakoLink.SwdAccess
