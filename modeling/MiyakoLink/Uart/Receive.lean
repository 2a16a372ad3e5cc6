import MiyakoLink.Lib.Store

/-!
# The receive path of the serial port

`usb_uart_rx_callback` starts a burst on two DMA channels, of which the first one chains to the
second. `usb_uart_dma_handler` sends full buffers to `rx_stream` and starts over behind the second
one. `usb_uart_timeout_callback` ends the burst when no buffer has been filled since it last ran,
and sends what is in a buffer that is not full.

The handlers run one at a time, and the DMA moves on between their steps. What cannot meet it is
one step: `usb_uart_rx_callback` requests transfers at its end, and behind its second write to
`ctrl_trig` the timeout callback has stopped both channels.
-/

namespace MiyakoLink.Uart

open Lib

abbrev uartRxBufSize : Nat := 1024

/-- A receive channel with its buffer in `rx_buffer`. -/
structure Channel where
  /-- `BUSY`. -/
  active : Bool
  /-- `EN` of the control register. -/
  enabled : Bool
  /-- The transfers that are left, which is what `transfer_count` reads. -/
  transferCount : Nat
  /-- The transfers of the next run, which is what a write to `transfer_count` sets. -/
  reload : Nat
  /-- The write address, from the start of the buffer. -/
  addr : Nat
  /-- The channel has completed and has not been acknowledged. -/
  pending : Bool
  irq0Enabled : Bool
  rxBuffer : Store UInt8 uartRxBufSize
  deriving DecidableEq

namespace Channel

/-- The start of a channel. One that is not enabled, or is under way, is not started. -/
def trigger (c : Channel) : Channel :=
  if c.enabled && !c.active then { c with active := true, transferCount := c.reload } else c

/-- `dma_channel_configure`, with the buffer, `UART_RX_BUF_SIZE` and `trigger` as its last
arguments. -/
def configure (start : Bool) (c : Channel) : Channel :=
  let c := { c with enabled := true, reload := uartRxBufSize, addr := 0 }
  if start then c.trigger else c

/-- `dma_channel_acknowledge_irq0`. -/
def acknowledge (c : Channel) : Channel := { c with pending := false }

/-- `dma_channel_set_irq0_enabled`. -/
def setIrq0Enabled (enabled : Bool) (c : Channel) : Channel := { c with irq0Enabled := enabled }

/-- `dma_channel_get_irq0_status`. -/
def irq0Status (c : Channel) : Bool := c.pending && c.irq0Enabled

/-- The write of zero to `EN`. -/
def stop (c : Channel) : Channel := { c with enabled := false }

/-- `dma_channel_abort`. It clears the transfer count. -/
def abort (c : Channel) : Channel := { c with active := false, transferCount := 0 }

/-- The channel moves a byte. A byte behind the buffer is in no buffer. -/
def transfer (b : UInt8) (c : Channel) : Channel :=
  { c with
    rxBuffer := c.rxBuffer.write c.addr [b]
    addr := c.addr + 1
    transferCount := c.transferCount - 1
    active := c.transferCount ≠ 1
    pending := c.pending || c.transferCount = 1 }

/-- The buffer when it is full. -/
def full (c : Channel) : List UInt8 := c.rxBuffer.read 0 uartRxBufSize

/-- What the timeout callback sends of a buffer. -/
def partialBytes (c : Channel) : List UInt8 :=
  let countToWrite := uartRxBufSize - c.transferCount
  if 0 < countToWrite ∧ countToWrite < uartRxBufSize then c.rxBuffer.read 0 countToWrite else []

@[simp]
theorem trigger_enabled (c : Channel) : c.trigger.enabled = c.enabled := by
  unfold trigger
  split
  · rfl
  · rfl

@[simp]
theorem trigger_reload (c : Channel) : c.trigger.reload = c.reload := by
  unfold trigger
  split
  · rfl
  · rfl

@[simp]
theorem trigger_irq0Enabled (c : Channel) : c.trigger.irq0Enabled = c.irq0Enabled := by
  unfold trigger
  split
  · rfl
  · rfl

@[simp]
theorem configure_irq0Enabled (start : Bool) (c : Channel) :
    (c.configure start).irq0Enabled = c.irq0Enabled := by
  cases start with
  | false => rfl
  | true => simp [configure]

end Channel

/-- Where the running handler is. -/
inductive Control where
  | idle
  /-- `usb_uart_dma_handler`, before it reads the status of a channel. -/
  | dmaTest0 | dmaTest1
  /-- Its first branch, before it acknowledges and before it sends. -/
  | dma0Acknowledge | dma0Send
  /-- Its second branch, before it acknowledges, configures each of the channels, and sends. -/
  | dma1Acknowledge | dma1Configure0 | dma1Configure1 | dma1Send
  /-- `usb_uart_timeout_callback`, before it reads `dma_occured`, stops each of the channels, and
  goes over their buffers. -/
  | timeoutTest | timeoutStop0 | timeoutStop1 | timeoutFinish
  deriving DecidableEq

structure State where
  control : Control
  rx0 : Channel
  rx1 : Channel
  /-- `RXDMAE`, with which the port requests transfers. -/
  rxDmaEnabled : Bool
  /-- The receive interrupt of the port. -/
  rxIrqEnabled : Bool
  /-- `rx_timeout_timer` is set. -/
  timer : Bool
  dmaOccured : Bool
  /-- What has been sent to `rx_stream`. -/
  sent : List UInt8
  /-- What the DMA has moved. -/
  written : List UInt8

inductive Event where
  /-- A channel moves a byte that has been received. -/
  | byte0 (b : UInt8)
  | byte1 (b : UInt8)
  /-- The next step of the handler that is running. -/
  | tick
  /-- A handler is called. -/
  | rxInterrupt
  | dmaInterrupt
  | timeoutInterrupt

namespace State

/-- The channel has a byte to move, and the port requests it. -/
def moves (s : State) (c : Channel) : Bool := s.rxDmaEnabled && c.active && c.enabled

/-- The first channel chains to the second one. -/
def byte0 (b : UInt8) (s : State) : State :=
  if s.moves s.rx0 then
    { s with
      rx0 := s.rx0.transfer b
      rx1 := if s.rx0.transferCount = 1 then s.rx1.trigger else s.rx1
      written := s.written ++ [b] }
  else s

def byte1 (b : UInt8) (s : State) : State :=
  if s.moves s.rx1 then { s with rx1 := s.rx1.transfer b, written := s.written ++ [b] } else s

/-- `usb_uart_rx_callback`. -/
def rxCallback (s : State) : State :=
  { s with
    rxIrqEnabled := false
    rx0 := ((s.rx0.configure true).acknowledge).setIrq0Enabled true
    rx1 := ((s.rx1.configure false).acknowledge).setIrq0Enabled true
    rxDmaEnabled := true
    timer := true }

/-- `usb_uart_timeout_callback` from the write to `dmacr` on. -/
def finish (s : State) : State :=
  { s with
    control := .idle
    rxDmaEnabled := false
    sent := s.sent ++ s.rx0.partialBytes ++ s.rx1.partialBytes
    rx0 := ((s.rx0.acknowledge).setIrq0Enabled false).abort
    rx1 := ((s.rx1.acknowledge).setIrq0Enabled false).abort
    rxIrqEnabled := true
    timer := false }

/-- The next step of a handler. -/
def tick (s : State) : State :=
  match s.control with
  | .idle => s
  | .dmaTest0 =>
      if s.rx0.irq0Status then { s with control := .dma0Acknowledge, dmaOccured := true }
      else { s with control := .dmaTest1 }
  | .dma0Acknowledge => { s with control := .dma0Send, rx0 := s.rx0.acknowledge }
  | .dma0Send => { s with control := .idle, sent := s.sent ++ s.rx0.full }
  | .dmaTest1 =>
      if s.rx1.irq0Status then { s with control := .dma1Acknowledge, dmaOccured := true }
      else { s with control := .idle }
  | .dma1Acknowledge => { s with control := .dma1Configure0, rx1 := s.rx1.acknowledge }
  | .dma1Configure0 => { s with control := .dma1Configure1, rx0 := s.rx0.configure true }
  | .dma1Configure1 => { s with control := .dma1Send, rx1 := s.rx1.configure false }
  | .dma1Send => { s with control := .idle, sent := s.sent ++ s.rx1.full }
  | .timeoutTest =>
      if s.dmaOccured then { s with control := .idle, dmaOccured := false }
      else { s with control := .timeoutStop0 }
  | .timeoutStop0 => { s with control := .timeoutStop1, rx0 := s.rx0.stop }
  | .timeoutStop1 => { s with control := .timeoutFinish, rx1 := s.rx1.stop }
  | .timeoutFinish => s.finish

/-- What is not possible leaves the state as it is. -/
def step (s : State) : Event → State
  | .byte0 b => s.byte0 b
  | .byte1 b => s.byte1 b
  | .tick => s.tick
  | .rxInterrupt => if s.control = .idle ∧ s.rxIrqEnabled then s.rxCallback else s
  | .dmaInterrupt => if s.control = .idle then { s with control := .dmaTest0 } else s
  | .timeoutInterrupt =>
      if s.control = .idle ∧ s.timer then { s with control := .timeoutTest } else s

def run (s : State) (es : List Event) : State := es.foldl step s

theorem run_cons (s : State) (e : Event) (es : List Event) :
    s.run (e :: es) = (s.step e).run es := rfl

theorem run_append (s : State) (es es' : List Event) :
    s.run (es ++ es') = (s.run es).run es' := List.foldl_append

end State

/-- No burst is under way, and everything has been sent. -/
structure AtRest (s : State) : Prop where
  active0 : s.rx0.active = false
  active1 : s.rx1.active = false
  count1 : s.rx1.transferCount = 0
  irq0 : s.rx0.irq0Enabled = false
  irq1 : s.rx1.irq0Enabled = false
  rxDma : s.rxDmaEnabled = false
  timer : s.timer = false
  sent : s.sent = s.written

/-- The step is not one of these: the timeout callback goes over the buffers while a completed
channel waits for the handler, the handler takes the second channel for the first one to have
completed, or the second channel moves bytes while its full buffer is still to be sent. -/
def Timely (s : State) : Event → Prop
  | .tick =>
      (s.control = .timeoutFinish → s.rx0.pending = false ∧ s.rx1.pending = false) ∧
        (s.control = .dmaTest1 → ¬(s.rx0.irq0Status = true ∧ s.rx1.irq0Status = true))
  | .byte1 _ => ¬(s.control = .dma1Configure1 ∨ s.control = .dma1Send) ∨ s.moves s.rx1 = false
  | _ => True

/-- A run all of whose steps are timely. -/
def TimelyRun (s : State) : List Event → Prop
  | [] => True
  | e :: es => Timely s e ∧ TimelyRun (s.step e) es

end MiyakoLink.Uart
