import MiyakoLink.Lib.Flow
import MiyakoLink.Lib.Store
import MiyakoLink.Lib.StreamBuffer

/-!
# The CDC ports

`usb_cdc_task.c`: two threads carry the bytes of a port between its endpoints and two stream
buffers. A thread goes on by one call at a time, and the host and the other tasks do what they want
in between. A send with a timeout takes effect at some time, with the room that there is then.

Both threads go on with the next bytes behind a call that has taken only some of those before.

* `stepRx_loses`, `stepTx_loses`: what the call of a step does not take is lost.
* `run_kept_iff`: the bytes of a port all come through just if every call has room for all bytes
  that it is given.
-/

namespace MiyakoLink.Usb.Cdc

open Lib

/-- `CFG_TUD_CDC_RX_BUFSIZE` and `CFG_TUD_CDC_TX_BUFSIZE`. -/
abbrev fifoSize : Nat := 512

/-- The size of `rx_buf` and of `cdc_buffer`. -/
abbrev bufSize : Nat := 512

/-- `sizeof(cdc_line_coding_t)`. -/
abbrev lineCodingSize : Nat := 7

/-- The sizes of the stream buffers of a port. -/
structure Sizes where
  rxStream : Nat
  txStream : Nat
  lineCodingStream : Nat

/-- `USB_CDC_DATA_EVENT_DATA_RX` and so on. -/
inductive Notification where
  | dataRx
  | connectionUpdate
  | lineCodingUpdate
  deriving DecidableEq

/-- Where `cdc_rx_task_thread` is. -/
inductive RxThread where
  | waiting
  | checksDown
  | checksUp
  | polling
  | sending (buf : List UInt8)

/-- Where `cdc_tx_task_thread` is. -/
inductive TxThread where
  | receiving
  | writing (buf : List UInt8)
  | receivingMore

/-- A port: the endpoints as `tud_cdc_n_connected` and so on show them, the stream buffers and the
threads. Of what `tud_cdc_n_read` and the receives from `tx_stream` have given, and of what the
reader of `rx_stream` and the host have got, there is a record. -/
structure Port (z : Sizes) where
  connected : Bool
  lineCoding : Store UInt8 lineCodingSize
  outFifo : StreamBuffer UInt8 fifoSize
  inFifo : StreamBuffer UInt8 fifoSize
  rxStream : StreamBuffer UInt8 z.rxStream
  txStream : StreamBuffer UInt8 z.txStream
  lineCodingStream : StreamBuffer UInt8 z.lineCodingStream
  notified : Notification → Bool
  rx : RxThread
  connectedFlag : Bool
  tx : TxThread
  taken : List UInt8
  drained : List UInt8
  given : List UInt8
  collected : List UInt8

/-- What the host and the other tasks do, and the steps of the threads. -/
inductive Event where
  | hostSends (data : List UInt8)
  | hostCollects (n : Nat)
  | streamRead (n : Nat)
  | streamWritten (data : List UInt8)
  | lineState (connected : Bool)
  | setLineCoding (coding : Store UInt8 lineCodingSize)
  | notify (n : Notification)
  | rx
  | tx
  deriving DecidableEq

namespace Port

variable {z : Sizes}

/-- The notification is taken, with the line coding if it has been updated. -/
def wake (s : Port z) : Port z :=
  let stream :=
    if s.lineCodingStream.room < lineCodingSize then .empty else s.lineCodingStream
  { s with
    lineCodingStream :=
      if s.notified .lineCodingUpdate then stream.offer s.lineCoding.elems
      else s.lineCodingStream
    notified := fun _ => false
    rx := .checksDown }

/-- A step of `cdc_rx_task_thread`; `none` while there is no notification. -/
def stepRx (s : Port z) : Option (Port z) :=
  match s.rx with
  | .waiting =>
    if s.notified .dataRx || s.notified .connectionUpdate || s.notified .lineCodingUpdate then
      some s.wake
    else none
  | .checksDown =>
    if !s.connected && s.connectedFlag then
      some { s with connectedFlag := false, rxStream := s.rxStream.offer [0x04], rx := .waiting }
    else some { s with rx := .checksUp }
  | .checksUp =>
    some { s with
      connectedFlag := if s.connected && !s.connectedFlag then true else s.connectedFlag
      rx := .polling }
  | .polling =>
    let rxBuf := s.outFifo.received bufSize
    if rxBuf = [] then some { s with rx := .waiting }
    else some { s with
      outFifo := s.outFifo.receive bufSize
      taken := s.taken ++ rxBuf
      rx := .sending rxBuf }
  | .sending rxBuf => some { s with rxStream := s.rxStream.offer rxBuf, rx := .polling }

/-- A receive from `tx_stream`, with a timeout or none. -/
def receiveTx (s : Port z) : Port z :=
  let cdcBuffer := s.txStream.received bufSize
  if cdcBuffer = [] then { s with tx := .receiving }
  else { s with
    txStream := s.txStream.receive bufSize
    given := s.given ++ cdcBuffer
    tx := .writing cdcBuffer }

/-- A step of `cdc_tx_task_thread`. A flush leaves the FIFO to the host. -/
def stepTx (s : Port z) : Port z :=
  match s.tx with
  | .receiving => s.receiveTx
  | .writing cdcBuffer =>
    { s with
      inFifo := if s.connected then s.inFifo.offer cdcBuffer else s.inFifo
      tx := .receivingMore }
  | .receivingMore => s.receiveTx

def step (s : Port z) : Event → Option (Port z)
  | .hostSends data => some { s with outFifo := s.outFifo.offer data }
  | .hostCollects n => some { s with
      inFifo := s.inFifo.receive n
      collected := s.collected ++ s.inFifo.received n }
  | .streamRead n => some { s with
      rxStream := s.rxStream.receive n
      drained := s.drained ++ s.rxStream.received n }
  | .streamWritten data => some { s with txStream := s.txStream.offer data }
  | .lineState connected => some { s with connected := connected }
  | .setLineCoding coding => some { s with lineCoding := coding }
  | .notify n => some { s with notified := Function.update s.notified n true }
  | .rx => s.stepRx
  | .tx => some s.stepTx

def run : List Event → Port z → Option (Port z)
  | [], s => some s
  | e :: es, s => (s.step e).bind (run es)

end Port

/-! ## The bytes on their way -/

def RxThread.inHand : RxThread → List UInt8
  | sending buf => buf
  | _ => []

def TxThread.inHand : TxThread → List UInt8
  | writing buf => buf
  | _ => []

namespace Port

variable {z : Sizes} {s s' : Port z} {e : Event} {es : List Event}

/-- From the endpoint to `rx_stream`. -/
def rxFlow (s : Port z) : Lib.Flow UInt8 := ⟨s.taken, s.rx.inHand, s.drained ++ s.rxStream.items⟩

/-- From `tx_stream` to the endpoint. -/
def txFlow (s : Port z) : Lib.Flow UInt8 := ⟨s.given, s.tx.inHand, s.collected ++ s.inFifo.items⟩

/-- Nothing is lost in either direction. -/
def Kept (s s' : Port z) : Prop := s.rxFlow.Kept s'.rxFlow ∧ s.txFlow.Kept s'.txFlow

/-- There is room for all that the call of a step is given. -/
def Fits (s : Port z) : Event → Prop
  | .rx => s.rx.inHand.length ≤ s.rxStream.room
  | .tx => s.tx.inHand.length ≤ s.inFifo.room
  | _ => True

/-- So it is with every step of a run. -/
def RunFits : List Event → Port z → Prop
  | [], _ => True
  | e :: es, s => s.Fits e ∧ ∀ s', s.step e = some s' → RunFits es s'

theorem stepRx_tx (h : s.stepRx = some s') : s'.txFlow = s.txFlow ∧ s'.connected = s.connected := by
  unfold stepRx at h
  split at h
  · split at h
    · rw [← Option.some.inj h]
      exact ⟨rfl, rfl⟩
    · contradiction
  · split at h <;> rw [← Option.some.inj h] <;> exact ⟨rfl, rfl⟩
  · rw [← Option.some.inj h]
    exact ⟨rfl, rfl⟩
  · dsimp only at h
    split at h <;> rw [← Option.some.inj h] <;> exact ⟨rfl, rfl⟩
  · rw [← Option.some.inj h]
    exact ⟨rfl, rfl⟩

/-- What a step of the thread for reception loses: what `rx_stream` has no room for. -/
theorem stepRx_loses (hconnected : s.connected = true) (h : s.stepRx = some s') :
    s.rxFlow.Loses (s.rxStream.refused s.rx.inHand).length s'.rxFlow := by
  have hsame (f : Lib.Flow UInt8) : f.Loses (s.rxStream.refused []).length f := by
    rw [s.rxStream.length_refused_nil]
    exact Flow.Loses.refl f
  unfold stepRx at h
  unfold rxFlow
  cases hrx : s.rx with
  | waiting =>
    rw [hrx] at h
    dsimp only at h
    split at h
    · rw [← Option.some.inj h]
      exact hsame _
    · contradiction
  | checksDown =>
    rw [hrx] at h
    dsimp only at h
    split at h
    · next hdown =>
      rw [hconnected] at hdown
      contradiction
    · rw [← Option.some.inj h]
      exact hsame _
  | checksUp =>
    rw [hrx] at h
    rw [← Option.some.inj h]
    exact hsame _
  | polling =>
    rw [hrx] at h
    dsimp only at h
    split at h
    · rw [← Option.some.inj h]
      exact hsame _
    · rw [← Option.some.inj h, show RxThread.polling.inHand = [] from rfl,
        s.rxStream.length_refused_nil]
      exact Flow.loses_take _ _ _
  | sending rxBuf =>
    rw [hrx] at h
    rw [← Option.some.inj h]
    show Flow.Loses _ _ ⟨s.taken, [], s.drained ++ (s.rxStream.items ++ s.rxStream.accepted rxBuf)⟩
    rw [← List.append_assoc]
    exact Flow.loses_put _ _ _ (s.rxStream.accepted_append rxBuf)

theorem stepTx_rx : s.stepTx.rxFlow = s.rxFlow ∧ s.stepTx.connected = s.connected := by
  unfold stepTx receiveTx
  split
  · dsimp only
    split <;> exact ⟨rfl, rfl⟩
  · exact ⟨rfl, rfl⟩
  · dsimp only
    split <;> exact ⟨rfl, rfl⟩

theorem receiveTx_loses (htx : s.tx.inHand = []) : s.txFlow.Loses 0 s.receiveTx.txFlow := by
  unfold receiveTx txFlow
  rw [htx]
  dsimp only
  split
  · exact Flow.Loses.refl _
  · exact Flow.loses_take _ _ _

/-- What a step of the thread for transmission loses: what the endpoint has no room for. -/
theorem stepTx_loses (hconnected : s.connected = true) :
    s.txFlow.Loses (s.inFifo.refused s.tx.inHand).length s.stepTx.txFlow := by
  have hreceive (hnone : s.tx.inHand = []) :
      s.txFlow.Loses (s.inFifo.refused []).length s.receiveTx.txFlow := by
    rw [s.inFifo.length_refused_nil]
    exact receiveTx_loses hnone
  unfold stepTx
  cases htx : s.tx with
  | receiving => exact hreceive (congrArg TxThread.inHand htx)
  | receivingMore => exact hreceive (congrArg TxThread.inHand htx)
  | writing cdcBuffer =>
    have hoffer : (if s.connected then s.inFifo.offer cdcBuffer else s.inFifo) =
        s.inFifo.offer cdcBuffer := if_pos hconnected
    unfold txFlow
    rw [htx]
    show Flow.Loses _ _ ⟨s.given, [], s.collected ++
      (if s.connected then s.inFifo.offer cdcBuffer else s.inFifo).items⟩
    rw [hoffer, StreamBuffer.offer_items, ← List.append_assoc]
    exact Flow.loses_put _ _ _ (s.inFifo.accepted_append cdcBuffer)

/-- A step of the port loses something just if there is no room for all that it is given. -/
theorem step_loses (hconnected : s.connected = true) (h : s.step e = some s') :
    ∃ n m, s.rxFlow.Loses n s'.rxFlow ∧ s.txFlow.Loses m s'.txFlow ∧
      (n = 0 ∧ m = 0 ↔ s.Fits e) := by
  have hquiet (hrx : s'.rxFlow = s.rxFlow) (htx : s'.txFlow = s.txFlow) (hfits : s.Fits e) :
      ∃ n m, s.rxFlow.Loses n s'.rxFlow ∧ s.txFlow.Loses m s'.txFlow ∧
        (n = 0 ∧ m = 0 ↔ s.Fits e) := by
    rw [hrx, htx]
    exact ⟨0, 0, Flow.Loses.refl _, Flow.Loses.refl _, iff_of_true ⟨rfl, rfl⟩ hfits⟩
  cases e with
  | rx =>
    refine ⟨_, 0, stepRx_loses hconnected h, ?_, ?_⟩
    · rw [(stepRx_tx h).1]
      exact Flow.Loses.refl _
    · rw [and_iff_left rfl, List.length_eq_zero_iff]
      exact s.rxStream.refused_eq_nil_iff _
  | tx =>
    rw [← Option.some.inj h]
    refine ⟨0, _, ?_, stepTx_loses hconnected, ?_⟩
    · rw [stepTx_rx.1]
      exact Flow.Loses.refl _
    · rw [and_iff_right rfl, List.length_eq_zero_iff]
      exact s.inFifo.refused_eq_nil_iff _
  | hostCollects n =>
    obtain rfl := Option.some.inj h
    refine hquiet rfl ?_ trivial
    show Lib.Flow.mk _ _ (s.collected ++ s.inFifo.received n ++ (s.inFifo.receive n).items) = _
    rw [List.append_assoc, s.inFifo.received_append]
    rfl
  | streamRead n =>
    obtain rfl := Option.some.inj h
    refine hquiet ?_ rfl trivial
    show Lib.Flow.mk _ _ (s.drained ++ s.rxStream.received n ++ (s.rxStream.receive n).items) = _
    rw [List.append_assoc, s.rxStream.received_append]
    rfl
  | _ =>
    obtain rfl := Option.some.inj h
    exact hquiet rfl rfl trivial

/-- A port stays connected until the host ends it. -/
theorem step_connected (hconnected : s.connected = true) (he : e ≠ .lineState false)
    (h : s.step e = some s') : s'.connected = true := by
  cases e with
  | rx => rw [(stepRx_tx h).2, hconnected]
  | tx =>
    obtain rfl := Option.some.inj h
    rw [stepTx_rx.2, hconnected]
  | lineState connected =>
    obtain rfl := Option.some.inj h
    cases connected with
    | true => rfl
    | false => exact absurd rfl he
  | _ =>
    obtain rfl := Option.some.inj h
    exact hconnected

/-- The losses of a run add up. -/
theorem run_loses (hconnected : s.connected = true) (hstays : Event.lineState false ∉ es)
    (h : s.run es = some s') : ∃ n m, s.rxFlow.Loses n s'.rxFlow ∧ s.txFlow.Loses m s'.txFlow ∧
      (n = 0 ∧ m = 0 ↔ s.RunFits es) := by
  induction es generalizing s with
  | nil =>
    obtain rfl := Option.some.inj h
    exact ⟨0, 0, Flow.Loses.refl _, Flow.Loses.refl _, iff_of_true ⟨rfl, rfl⟩ trivial⟩
  | cons e es ih =>
    obtain ⟨s₁, hstep, hrun⟩ := Option.bind_eq_some_iff.mp h
    obtain ⟨he, hes⟩ := not_or.mp (mt List.mem_cons.mpr hstays)
    obtain ⟨n, m, hrx, htx, hfits⟩ := step_loses hconnected hstep
    obtain ⟨n', m', hrx', htx', hfits'⟩ :=
      ih (step_connected hconnected (Ne.symm he) hstep) hes hrun
    refine ⟨n + n', m + m', hrx.trans hrx', htx.trans htx', ?_⟩
    have hrest : s.RunFits (e :: es) ↔ s.Fits e ∧ s₁.RunFits es := by
      refine and_congr_right fun _ => ⟨fun hall => hall s₁ hstep, fun hrest s₂ hs₂ => ?_⟩
      rwa [← Option.some.inj (hstep.symm.trans hs₂)]
    rw [hrest, ← hfits, ← hfits']
    omega

/-- While a port stays connected, its bytes all come through just if every call has had room for
all bytes that it was given. -/
theorem run_kept_iff (hconnected : s.connected = true) (hstays : Event.lineState false ∉ es)
    (h : s.run es = some s') : Kept s s' ↔ s.RunFits es := by
  obtain ⟨n, m, hrx, htx, hfits⟩ := run_loses hconnected hstays h
  rw [Kept, hrx.kept_iff, htx.kept_iff, hfits]

end Port

/-! ## Both ports -/

/-- The port for GDB and the one for the serial port. -/
inductive Interface where
  | gdb
  | uart
  deriving DecidableEq

/-- What `usb_cdc_test_task_init` is called with. The stream buffers of the serial port are those of
`usb_uart_task.c`, in the other order. -/
def Interface.sizes : Interface → Sizes
  | gdb => ⟨512, 512, lineCodingSize * 5⟩
  | uart => ⟨1024 * 2, 1024 * 4, lineCodingSize * 2⟩

abbrev Bridge := (i : Interface) → Port i.sizes

namespace Bridge

def step (b : Bridge) (e : Interface × Event) : Option Bridge :=
  ((b e.1).step e.2).map fun port => Function.update b e.1 port

def run : List (Interface × Event) → Bridge → Option Bridge
  | [], b => some b
  | e :: es, b => (b.step e).bind (run es)

/-- Both ports as they are made, when the host has opened them. -/
def opened : Bridge := fun _ =>
  { connected := true
    lineCoding := .filled lineCodingSize 0
    outFifo := .empty
    inFifo := .empty
    rxStream := .empty
    txStream := .empty
    lineCodingStream := .empty
    notified := fun _ => false
    rx := .waiting
    connectedFlag := false
    tx := .receiving
    taken := []
    drained := []
    given := []
    collected := [] }

variable {i : Interface} {b b' : Bridge} {es : List (Interface × Event)}

/-- What happens at a port. -/
def eventsOf (i : Interface) (es : List (Interface × Event)) : List Event :=
  es.filterMap fun e => if e.1 = i then some e.2 else none

theorem mem_eventsOf {e : Event} : e ∈ eventsOf i es ↔ (i, e) ∈ es := by
  unfold eventsOf
  rw [List.mem_filterMap]
  constructor
  · rintro ⟨⟨j, e'⟩, hmem, heq⟩
    dsimp only at heq
    split at heq
    · next hj =>
      obtain rfl := hj
      obtain rfl := Option.some.inj heq
      exact hmem
    · contradiction
  · intro hmem
    exact ⟨(i, e), hmem, if_pos rfl⟩

/-- A port has its own run in every run of both. -/
theorem run_port (h : b.run es = some b') : (b i).run (eventsOf i es) = some (b' i) := by
  induction es generalizing b with
  | nil =>
    obtain rfl := Option.some.inj h
    rfl
  | cons e es ih =>
    obtain ⟨b₁, hstep, hrun⟩ := Option.bind_eq_some_iff.mp h
    obtain ⟨port, hport, hupdate⟩ := Option.map_eq_some_iff.mp hstep
    obtain ⟨j, e⟩ := e
    have hrest := ih hrun
    rw [← hupdate] at hrest
    by_cases hj : j = i
    · subst hj
      rw [Function.update_self] at hrest
      rw [eventsOf, List.filterMap_cons, if_pos rfl]
      show ((b j).step e).bind _ = _
      rw [hport]
      exact hrest
    · rw [Function.update_of_ne (Ne.symm hj)] at hrest
      rw [eventsOf, List.filterMap_cons, if_neg hj]
      exact hrest

/-- In every run of both ports, one that stays connected loses nothing just if its calls have always
had room for all bytes that they were given. -/
theorem bridge_kept_iff (hconnected : (b i).connected = true)
    (hstays : (i, Event.lineState false) ∉ es) (h : b.run es = some b') :
    Port.Kept (b i) (b' i) ↔ (b i).RunFits (eventsOf i es) :=
  Port.run_kept_iff hconnected (mt mem_eventsOf.mp hstays) (run_port h)

/-- A byte goes from the host to the serial port and to `rx_stream`. -/
def oneByte : List (Interface × Event) :=
  [(.uart, .hostSends [0x55]), (.uart, .notify .dataRx), (.gdb, .tx), (.uart, .rx), (.uart, .rx),
    (.uart, .rx), (.uart, .rx), (.uart, .rx)]

theorem oneByte_runs : (opened.run oneByte).isSome = true := by
  decide +kernel

theorem bridge_kept_iff_oneByte :
    Port.Kept (opened .uart) ((opened.run oneByte).get oneByte_runs .uart) ↔
      (opened .uart).RunFits (eventsOf .uart oneByte) :=
  bridge_kept_iff rfl (by decide) (Option.some_get oneByte_runs).symm

/-- The host does not collect while a byte more than the endpoint has room for is written. -/
def overflow : List (Interface × Event) :=
  [(.gdb, .streamWritten (List.replicate 512 0x41)), (.gdb, .tx), (.gdb, .tx),
    (.gdb, .streamWritten [0x42]), (.gdb, .tx), (.gdb, .tx)]

theorem overflow_runs : (opened.run overflow).isSome = true := by
  decide +kernel

/-- Of 513 bytes 512 have been accepted, and none is left. -/
theorem overflow_lengths (h : opened.run overflow = some b') :
    (b' .gdb).given.length = 513 ∧ ((b' .gdb).collected ++ (b' .gdb).inFifo.items).length = 512 ∧
      (b' .gdb).tx.inHand.length = 0 := by
  rw [← Option.get_of_eq_some overflow_runs h]
  decide +kernel

theorem overflow_loses : ¬ ∀ (i : Interface) (es : List (Interface × Event)) (b b' : Bridge),
    (b i).connected = true → (i, Event.lineState false) ∉ es → b.run es = some b' →
      Port.Kept (b i) (b' i) := by
  intro h
  obtain ⟨b', hrun⟩ := Option.isSome_iff_exists.mp overflow_runs
  obtain ⟨ts, us, hgiven, hentered, hkept⟩ := (h .gdb overflow opened b' rfl (by decide) hrun).2
  obtain ⟨htaken, haccepted, hhand⟩ := overflow_lengths hrun
  have hts : ts.length = 513 := (congrArg List.length hgiven).symm.trans htaken
  have hus : us.length = 512 := (congrArg List.length hentered).symm.trans haccepted
  have hlength : ([] ++ ts).length = (us ++ (b' .gdb).tx.inHand).length :=
    congrArg List.length hkept
  rw [List.nil_append, List.length_append, hts, hus, hhand] at hlength
  contradiction

end Bridge

end MiyakoLink.Usb.Cdc
