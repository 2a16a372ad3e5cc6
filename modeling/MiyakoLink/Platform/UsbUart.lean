import MiyakoLink.Lib.Guarded
import MiyakoLink.Lib.RingBuffer
import Mathlib.Data.List.Basic

/-!
# The serial port of the STM32 platforms

`usbuart.c`. The interrupt routine of the USART stores what is received in a ring, and the routine
of a timer sends it to the host. The USART has the higher priority, and so its routine comes at any
point of `usbuart_run`, of which a step here is a statement.

* `stream_kept`: the host gets what has been stored, in order.
* `pass_sends`: while bytes wait the timer is on, and the next pass of `usbuart_run` sends them.
-/

namespace MiyakoLink.Platform.UsbUart

open Lib

abbrev fifoSize : Nat := 128

abbrev cdcacmPacketSize : Nat := 64

/-- The statement of `usbuart_run` that is next, with its local variables. -/
inductive Stage
  | idle
  | config
  | flush
  | store (bufRxIn : UInt8)
  | check
  | disable
  | clear
  | loop (bufOut : UInt8) (packet : List (BitVec 8))
  | copy (bufOut : UInt8) (packet : List (BitVec 8))
  | write (packet : List (BitVec 8))
  | advance (n : Nat)
  | wrap

/-- The static variables, the interrupt of the timer, and the bytes that have been stored in the ring
and taken by the endpoint so far. -/
structure Uart where
  bufRx : Nat → BitVec 8
  bufRxIn : UInt8
  bufRxOut : UInt8
  uie : Bool
  led : Bool
  stage : Stage
  stored : List (BitVec 8)
  sent : List (BitVec 8)

/-- What happens next: the USART receives, the timer elapses, or `usbuart_run` goes on. It gets the
result of `cdcacm_get_config`, or whether the endpoint takes a packet. -/
inductive Event
  | rx (err : Bool) (c : BitVec 8)
  | timer
  | run (config : Int) (taken : Bool)

namespace Uart

/-- `USBUSART_ISR`. -/
def usbusartIsr (err : Bool) (c : BitVec 8) (s : Uart) : Uart :=
  if err then s
  else
    let s := { s with led := true }
    if (s.bufRxIn.toNat + 1) % fifoSize ≠ s.bufRxOut.toNat then
      { s with
        bufRx := Function.update s.bufRx s.bufRxIn.toNat c
        bufRxIn := if fifoSize ≤ (s.bufRxIn + 1).toNat then 0 else s.bufRxIn + 1
        uie := true
        stored := s.stored ++ [c] }
    else s

/-- A statement of `usbuart_run`. -/
def usbuartRun (config : Int) (taken : Bool) (s : Uart) : Uart :=
  match s.stage with
  | .idle => s
  | .config => { s with stage := if config ≠ 1 then .flush else .check }
  | .flush => { s with stage := .store s.bufRxIn }
  | .store bufRxIn => { s with bufRxOut := bufRxIn, stage := .check }
  | .check => { s with stage := if s.bufRxIn = s.bufRxOut then .disable else .loop s.bufRxOut [] }
  | .disable => { s with uie := false, stage := .clear }
  | .clear => { s with led := false, stage := .idle }
  | .loop bufOut packet =>
    { s with
      stage :=
        if s.bufRxIn ≠ bufOut ∧ packet.length < cdcacmPacketSize then .copy bufOut packet
        else .write packet }
  | .copy bufOut packet =>
    { s with
      stage :=
        .loop (if fifoSize ≤ (bufOut + 1).toNat then 0 else bufOut + 1)
          (packet ++ [s.bufRx bufOut.toNat]) }
  | .write packet =>
    { s with
      stage := .advance (if taken then packet.length else 0)
      sent := s.sent ++ if taken then packet else [] }
  | .advance n => { s with bufRxOut := s.bufRxOut + UInt8.ofNat n, stage := .wrap }
  | .wrap => { s with bufRxOut := s.bufRxOut % 128, stage := .idle }

/-- `USBUSART_TIM_ISR` calls `usbuart_run`. -/
def usbusartTimIsr (s : Uart) : Uart :=
  match s.stage with
  | .idle => if s.uie then { s with stage := .config } else s
  | _ => s

def step (s : Uart) : Event → Uart
  | .rx err c => s.usbusartIsr err c
  | .timer => s.usbusartTimIsr
  | .run config taken => s.usbuartRun config taken

def start : Uart := ⟨fun _ => 0, 0, 0, false, false, .idle, [], []⟩

/-- The slot that is sent next. Between the two last statements `buf_rx_out` can be behind the
ring. -/
def head (s : Uart) : Nat := s.bufRxOut.toNat % fifoSize

/-- What the ring has. -/
def fifo (s : Uart) : List (BitVec 8) :=
  RingBuffer.items fifoSize s.bufRx s.head s.bufRxIn.toNat

/-- The bytes at the front of the ring that have been sent. -/
def gone (s : Uart) : Nat :=
  match s.stage with
  | .advance n => n
  | _ => 0

/-- What the ring has and is still to be sent. -/
def waiting (s : Uart) : List (BitVec 8) := s.fifo.drop s.gone

end Uart

/-! ## One step -/

/-- A packet is what the ring has at its front, and `bufOut` the slot behind it. -/
structure Copied (head : Nat) (fifo : List (BitVec 8)) (bufOut : UInt8) (packet : List (BitVec 8)) :
    Prop where
  length_le : packet.length ≤ fifo.length
  packet_le : packet.length ≤ cdcacmPacketSize
  packet_eq : packet = fifo.take packet.length
  slot : bufOut.toNat = (head + packet.length) % fifoSize

/-- What is known before each statement. -/
def StageSound (head : Nat) (fifo : List (BitVec 8)) : Stage → Prop
  | .store bufRxIn => ∃ n ≤ fifo.length, bufRxIn.toNat = (head + n) % fifoSize
  | .loop bufOut packet => Copied head fifo bufOut packet
  | .copy bufOut packet =>
    Copied head fifo bufOut packet ∧ packet.length < fifo.length ∧ packet.length < cdcacmPacketSize
  | .write packet =>
    packet.length ≤ fifo.length ∧ packet.length ≤ cdcacmPacketSize ∧ packet = fifo.take packet.length
  | .advance n => n ≤ fifo.length ∧ n ≤ cdcacmPacketSize
  | _ => True

structure Sound (s : Uart) : Prop where
  in_lt : s.bufRxIn.toNat < fifoSize
  out_lt : s.bufRxOut.toNat < fifoSize ∨ s.stage = .wrap
  stage : StageSound s.head s.fifo s.stage

/-- No byte comes between the two last statements when the ring has no room for it. -/
def InTime (s : Uart) : Event → Prop
  | .rx false _ => s.stage = .wrap → s.fifo.length + 1 < fifoSize
  | _ => True

section

variable {s : Uart}

theorem head_lt (s : Uart) : s.head < fifoSize := Nat.mod_lt _ (by decide)

theorem Sound.ring (h : Sound s) : RingBuffer fifoSize s.bufRx s.head s.bufRxIn.toNat s.fifo :=
  RingBuffer.of_lt (head_lt s) h.in_lt

theorem Sound.before (h : Sound s) {stage : Stage} (hstage : s.stage = stage) :
    StageSound s.head s.fifo stage := hstage ▸ h.stage

theorem Sound.head_eq (h : Sound s) (hstage : s.stage ≠ .wrap) : s.head = s.bufRxOut.toNat :=
  Nat.mod_eq_of_lt (h.out_lt.resolve_right hstage)

theorem wrap_toNat {i : UInt8} (hi : i.toNat < fifoSize) :
    (if fifoSize ≤ (i + 1).toNat then 0 else i + 1 : UInt8).toNat = (i.toNat + 1) % fifoSize := by
  have hsucc : (i + 1).toNat = i.toNat + 1 := by
    rw [UInt8.toNat_add]
    exact Nat.mod_eq_of_lt (Nat.lt_of_le_of_lt (Nat.succ_le_of_lt hi) (by decide))
  rw [← RingBuffer.wrap_eq hi, RingBuffer.wrap, hsucc]
  split
  · rfl
  · exact hsucc

/-- The comparison of the USART's routine. -/
theorem Sound.full_iff (h : Sound s) (hstage : s.stage ≠ .wrap) :
    (s.bufRxIn.toNat + 1) % fifoSize = s.bufRxOut.toNat ↔ s.fifo.length + 1 = fifoSize := by
  rw [← h.head_eq hstage]
  exact h.ring.full_iff

/-- What the routine does with a byte. -/
theorem Sound.rx (h : Sound s) (c : BitVec 8) (htime : InTime s (.rx false c)) :
    (s.fifo.length + 1 < fifoSize ∧ ∃ s', s.usbusartIsr false c = s' ∧ s'.stage = s.stage ∧
      s'.bufRxOut = s.bufRxOut ∧ s'.sent = s.sent ∧ s'.stored = s.stored ++ [c] ∧
      s'.fifo = s.fifo ++ [c] ∧ s'.uie = true ∧ s'.bufRxIn.toNat < fifoSize) ∨
    s.fifo.length + 1 = fifoSize ∧ s.usbusartIsr false c = { s with led := true } := by
  by_cases hfull : s.fifo.length + 1 = fifoSize
  · have hstage : s.stage ≠ .wrap := fun hwrap => Nat.ne_of_lt (htime hwrap) hfull
    exact Or.inr ⟨hfull, if_neg (not_not_intro ((h.full_iff hstage).mpr hfull))⟩
  · have hroom : s.fifo.length + 1 < fifoSize :=
      Nat.lt_of_le_of_ne (Nat.succ_le_of_lt h.ring.length_lt) hfull
    have hcompare : (s.bufRxIn.toNat + 1) % fifoSize ≠ s.bufRxOut.toNat := by
      by_cases hstage : s.stage = .wrap
      · intro heq
        have hout : s.bufRxOut.toNat < fifoSize := heq ▸ Nat.mod_lt _ (by decide)
        rw [← show s.head = s.bufRxOut.toNat from Nat.mod_eq_of_lt hout] at heq
        exact hfull (h.ring.full_iff.mp heq)
      · exact mt (h.full_iff hstage).mp hfull
    have hpush := h.ring.push hroom c
    rw [← wrap_toNat h.in_lt] at hpush
    exact Or.inl ⟨hroom, _, if_pos hcompare, rfl, rfl, rfl, rfl, hpush.eq_items, rfl, hpush.tail_lt⟩

/-- The packet is also at the front when the ring has one byte more. -/
theorem Copied.append {head : Nat} {fifo : List (BitVec 8)} {bufOut : UInt8}
    {packet : List (BitVec 8)} (h : Copied head fifo bufOut packet) (c : BitVec 8) :
    Copied head (fifo ++ [c]) bufOut packet where
  length_le := by
    rw [List.length_append]
    exact Nat.le_add_right_of_le h.length_le
  packet_le := h.packet_le
  packet_eq := by
    rw [List.take_append_of_le_length h.length_le]
    exact h.packet_eq
  slot := h.slot

theorem StageSound.append {head : Nat} {fifo : List (BitVec 8)} {stage : Stage}
    (h : StageSound head fifo stage) (c : BitVec 8) : StageSound head (fifo ++ [c]) stage := by
  have hlength : fifo.length ≤ (fifo ++ [c]).length := by
    rw [List.length_append]
    exact Nat.le_add_right _ _
  cases stage with
  | store bufRxIn =>
    obtain ⟨n, hn, heq⟩ := h
    exact ⟨n, Nat.le_trans hn hlength, heq⟩
  | loop => exact Copied.append h c
  | copy => exact ⟨h.1.append c, Nat.lt_of_lt_of_le h.2.1 hlength, h.2.2⟩
  | write packet =>
    refine ⟨Nat.le_trans h.1 hlength, h.2.1, ?_⟩
    rw [List.take_append_of_le_length h.1]
    exact h.2.2
  | advance => exact ⟨Nat.le_trans h.1 hlength, h.2⟩
  | _ => trivial

/-- A byte that is stored is behind all that waits. -/
def Carries (s s' : Uart) : Prop :=
  ∃ new, s'.stored = s.stored ++ new ∧ s'.sent ++ s'.waiting = s.sent ++ s.waiting ++ new

theorem Carries.of_eq {s' : Uart} (hstored : s'.stored = s.stored)
    (hall : s'.sent ++ s'.waiting = s.sent ++ s.waiting) : Carries s s' :=
  ⟨[], by rw [hstored, List.append_nil], by rw [hall, List.append_nil]⟩

theorem Sound.gone_le (h : Sound s) : s.gone ≤ s.fifo.length := by
  have hstage := h.stage
  unfold Uart.gone
  split
  next heq =>
    rw [heq] at hstage
    exact hstage.1
  next => exact Nat.zero_le _

theorem usbusartIsr_sound (h : Sound s) {err : Bool} {c : BitVec 8} (htime : InTime s (.rx err c)) :
    Sound (s.usbusartIsr err c) ∧ Carries s (s.usbusartIsr err c) := by
  cases err with
  | true => exact ⟨h, Carries.of_eq rfl rfl⟩
  | false =>
    obtain ⟨-, s', hs', hstage, hout, hsent, hstored, hfifo, -, hin⟩ | ⟨-, hs'⟩ := h.rx c htime
    · rw [hs']
      have hhead : s'.head = s.head := congrArg (fun i => i.toNat % fifoSize) hout
      refine ⟨⟨hin, ?_, ?_⟩, ⟨[c], hstored, ?_⟩⟩
      · rw [hout, hstage]
        exact h.out_lt
      · rw [hhead, hfifo, hstage]
        exact h.stage.append c
      · have hgone : s'.gone = s.gone := by rw [Uart.gone, Uart.gone, hstage]
        rw [Uart.waiting, Uart.waiting, hsent, hfifo, hgone, List.drop_append_of_le_length h.gone_le,
          List.append_assoc]
    · rw [hs']
      exact ⟨⟨h.in_lt, h.out_lt, h.stage⟩, Carries.of_eq rfl rfl⟩

/-- The consumer goes on. -/
theorem fifo_drop (h : Sound s) {s' : Uart} {n : Nat} (hn : n ≤ s.fifo.length)
    (hbuf : s'.bufRx = s.bufRx) (hin : s'.bufRxIn = s.bufRxIn)
    (hout : s'.head = (s.head + n) % fifoSize) : s'.fifo = s.fifo.drop n := by
  have hdrop := h.ring.drop hn
  rw [← hout, ← hbuf, ← hin] at hdrop
  exact hdrop.eq_items

/-- The ring has what it had, less some bytes at its front. -/
def Shrinks (s s' : Uart) : Prop := ∃ n, s'.fifo = s.fifo.drop n

/-- A statement that loses nothing. -/
structure Goes (s s' : Uart) : Prop where
  sound : Sound s'
  carries : Carries s s'
  shrinks : Shrinks s s'

/-- The ring is emptied up to where it was when `buf_rx_in` was read. -/
def Empties (s s' : Uart) : Prop :=
  ∃ n, s'.stored = s.stored ∧ s'.sent = s.sent ∧ s'.waiting = s.waiting.drop n

theorem usbuartRun_store (h : Sound s) {config : Int} {taken : Bool} {bufRxIn : UInt8}
    (hstage : s.stage = .store bufRxIn) :
    Sound (s.usbuartRun config taken) ∧ Empties s (s.usbuartRun config taken) ∧
      Shrinks s (s.usbuartRun config taken) := by
  obtain ⟨n, hn, hout⟩ := h.before hstage
  have hlt : bufRxIn.toNat < fifoSize := hout ▸ Nat.mod_lt _ (by decide)
  have hrun : s.usbuartRun config taken = { s with bufRxOut := bufRxIn, stage := .check } := by
    rw [Uart.usbuartRun, hstage]
  have hfifo : Uart.fifo { s with bufRxOut := bufRxIn, stage := .check } = s.fifo.drop n :=
    fifo_drop h hn rfl rfl ((Nat.mod_eq_of_lt hlt).trans hout)
  have hgone : s.gone = 0 := by rw [Uart.gone, hstage]
  rw [hrun]
  refine ⟨⟨h.in_lt, Or.inl hlt, trivial⟩, ⟨n, rfl, rfl, ?_⟩, n, hfifo⟩
  show (Uart.fifo { s with bufRxOut := bufRxIn, stage := .check }).drop 0 = _
  rw [hfifo, List.drop_zero, Uart.waiting, hgone, List.drop_zero]

theorem usbuartRun_loop (h : Sound s) {config : Int} {taken : Bool} {bufOut : UInt8}
    {packet : List (BitVec 8)} (hstage : s.stage = .loop bufOut packet) :
    Goes s (s.usbuartRun config taken) := by
  have hsound : Copied s.head s.fifo bufOut packet := h.before hstage
  have hout := h.out_lt.resolve_right (by rw [hstage]; nofun)
  have hgone : s.gone = 0 := by rw [Uart.gone, hstage]
  by_cases hmore : s.bufRxIn ≠ bufOut ∧ packet.length < cdcacmPacketSize
  · have hrun : s.usbuartRun config taken = { s with stage := .copy bufOut packet } := by
      rw [Uart.usbuartRun, hstage]
      dsimp only
      rw [if_pos hmore]
    have hlt : packet.length < s.fifo.length := by
      refine Nat.lt_of_le_of_ne hsound.length_le fun heq => hmore.1 (UInt8.toNat_inj.mp ?_)
      rw [h.ring.tail_eq, hsound.slot, heq]
    rw [hrun]
    refine ⟨⟨h.in_lt, Or.inl hout, hsound, hlt, hmore.2⟩, Carries.of_eq rfl ?_, 0, rfl⟩
    show s.sent ++ s.fifo.drop 0 = _
    rw [Uart.waiting, hgone]
  · have hrun : s.usbuartRun config taken = { s with stage := .write packet } := by
      rw [Uart.usbuartRun, hstage]
      dsimp only
      rw [if_neg hmore]
    rw [hrun]
    refine ⟨⟨h.in_lt, Or.inl hout, hsound.length_le, hsound.packet_le, hsound.packet_eq⟩,
      Carries.of_eq rfl ?_, 0, rfl⟩
    show s.sent ++ s.fifo.drop 0 = _
    rw [Uart.waiting, hgone]

theorem usbuartRun_copy (h : Sound s) {config : Int} {taken : Bool} {bufOut : UInt8}
    {packet : List (BitVec 8)} (hstage : s.stage = .copy bufOut packet) :
    Goes s (s.usbuartRun config taken) := by
  obtain ⟨hsound, hlt, hpacket⟩ : Copied s.head s.fifo bufOut packet ∧
      packet.length < s.fifo.length ∧ packet.length < cdcacmPacketSize := h.before hstage
  have hout := h.out_lt.resolve_right (by rw [hstage]; nofun)
  have hgone : s.gone = 0 := by rw [Uart.gone, hstage]
  have hrun : s.usbuartRun config taken = { s with
      stage := .loop (if fifoSize ≤ (bufOut + 1).toNat then 0 else bufOut + 1)
        (packet ++ [s.bufRx bufOut.toNat]) } := by
    rw [Uart.usbuartRun, hstage]
  have hslot : s.bufRx bufOut.toNat = s.fifo[packet.length] := by
    rw [hsound.slot]
    exact h.ring.slot _ hlt
  have hbound : bufOut.toNat < fifoSize := by
    rw [hsound.slot]
    exact Nat.mod_lt _ (by decide)
  have hcopied : Copied s.head s.fifo (if fifoSize ≤ (bufOut + 1).toNat then 0 else bufOut + 1)
      (packet ++ [s.bufRx bufOut.toNat]) := by
    have hlength : (packet ++ [s.bufRx bufOut.toNat]).length = packet.length + 1 := by
      rw [List.length_append, List.length_singleton]
    refine ⟨hlength ▸ hlt, hlength ▸ hpacket, ?_, ?_⟩
    · rw [hlength, List.take_succ_eq_append_getElem hlt, ← hsound.packet_eq, hslot]
    · rw [wrap_toNat hbound, hlength, hsound.slot, Nat.mod_add_mod, Nat.add_assoc]
  rw [hrun]
  refine ⟨⟨h.in_lt, Or.inl hout, hcopied⟩, Carries.of_eq rfl ?_, 0, rfl⟩
  show s.sent ++ s.fifo.drop 0 = _
  rw [Uart.waiting, hgone]

theorem usbuartRun_write (h : Sound s) {config : Int} {taken : Bool} {packet : List (BitVec 8)}
    (hstage : s.stage = .write packet) :
    Goes s (s.usbuartRun config taken) := by
  obtain ⟨hle, hpacket, heq⟩ : packet.length ≤ s.fifo.length ∧ packet.length ≤ cdcacmPacketSize ∧
      packet = s.fifo.take packet.length := h.before hstage
  have hout := h.out_lt.resolve_right (by rw [hstage]; nofun)
  have hgone : s.gone = 0 := by rw [Uart.gone, hstage]
  rw [Uart.usbuartRun, hstage]
  dsimp only
  cases taken with
  | true =>
    refine ⟨⟨h.in_lt, Or.inl hout, hle, hpacket⟩, Carries.of_eq rfl ?_, 0, rfl⟩
    show s.sent ++ packet ++ s.fifo.drop packet.length = _
    rw [Uart.waiting, hgone, List.drop_zero, List.append_assoc]
    nth_rewrite 1 [heq]
    rw [List.take_append_drop]
  | false =>
    refine ⟨⟨h.in_lt, Or.inl hout, Nat.zero_le _, Nat.zero_le _⟩, Carries.of_eq rfl ?_, 0, rfl⟩
    show s.sent ++ [] ++ s.fifo.drop 0 = _
    rw [Uart.waiting, hgone, List.append_nil]

theorem usbuartRun_advance (h : Sound s) {config : Int} {taken : Bool} {n : Nat}
    (hstage : s.stage = .advance n) :
    Goes s (s.usbuartRun config taken) := by
  obtain ⟨hn, hpacket⟩ : n ≤ s.fifo.length ∧ n ≤ cdcacmPacketSize := h.before hstage
  have hout := h.out_lt.resolve_right (by rw [hstage]; nofun)
  have hgone : s.gone = n := by rw [Uart.gone, hstage]
  have hrun : s.usbuartRun config taken =
      { s with bufRxOut := s.bufRxOut + UInt8.ofNat n, stage := .wrap } := by
    rw [Uart.usbuartRun, hstage]
  have hsum : (s.bufRxOut + UInt8.ofNat n).toNat = s.bufRxOut.toNat + n := by
    change s.bufRxOut.toNat < 128 at hout
    change n ≤ 64 at hpacket
    rw [UInt8.toNat_add, UInt8.toNat_ofNat', Nat.mod_eq_of_lt (a := n) (by omega)]
    exact Nat.mod_eq_of_lt (by omega)
  have hfifo : Uart.fifo { s with bufRxOut := s.bufRxOut + UInt8.ofNat n, stage := .wrap } =
      s.fifo.drop n := by
    refine fifo_drop h hn rfl rfl ?_
    show (s.bufRxOut + UInt8.ofNat n).toNat % fifoSize = _
    rw [hsum, Uart.head, Nat.mod_add_mod]
  rw [hrun]
  refine ⟨⟨h.in_lt, Or.inr rfl, trivial⟩, Carries.of_eq rfl ?_, n, hfifo⟩
  show s.sent ++
    (Uart.fifo { s with bufRxOut := s.bufRxOut + UInt8.ofNat n, stage := .wrap }).drop 0 = _
  rw [hfifo, List.drop_zero, Uart.waiting, hgone]

theorem usbuartRun_wrap (h : Sound s) {config : Int} {taken : Bool} (hstage : s.stage = .wrap) :
    Goes s (s.usbuartRun config taken) := by
  have hgone : s.gone = 0 := by rw [Uart.gone, hstage]
  have hrun : s.usbuartRun config taken =
      { s with bufRxOut := s.bufRxOut % 128, stage := .idle } := by
    rw [Uart.usbuartRun, hstage]
  have hmod : (s.bufRxOut % 128).toNat = s.bufRxOut.toNat % fifoSize := UInt8.toNat_mod _ _
  have hfifo : Uart.fifo { s with bufRxOut := s.bufRxOut % 128, stage := .idle } = s.fifo := by
    rw [← List.drop_zero (l := s.fifo)]
    refine fifo_drop h (Nat.zero_le _) rfl rfl ?_
    show (s.bufRxOut % 128).toNat % fifoSize = _
    rw [hmod, Uart.head, Nat.add_zero]
  rw [hrun]
  refine ⟨⟨h.in_lt, Or.inl ?_, trivial⟩, Carries.of_eq rfl ?_, 0, hfifo⟩
  · rw [hmod]
    exact Nat.mod_lt _ (by decide)
  · show s.sent ++ (Uart.fifo { s with bufRxOut := s.bufRxOut % 128, stage := .idle }).drop 0 = _
    rw [hfifo, Uart.waiting, hgone]

/-- The other statements do not change the ring. -/
theorem usbuartRun_else (h : Sound s) {config : Int} {taken : Bool}
    (hstage : s.stage = .idle ∨ s.stage = .config ∨ s.stage = .flush ∨ s.stage = .check ∨
      s.stage = .disable ∨ s.stage = .clear) :
    Goes s (s.usbuartRun config taken) := by
  have hout : s.bufRxOut.toNat < fifoSize := by
    refine h.out_lt.resolve_right fun hwrap => ?_
    rw [hwrap] at hstage
    simp at hstage
  have hgone : s.gone = 0 := by
    rcases hstage with hstage | hstage | hstage | hstage | hstage | hstage <;>
      rw [Uart.gone, hstage]
  have hsame : s.sent ++ s.fifo.drop 0 = s.sent ++ s.waiting := by rw [Uart.waiting, hgone]
  rcases hstage with hstage | hstage | hstage | hstage | hstage | hstage <;>
    rw [Uart.usbuartRun, hstage] <;> dsimp only
  · exact ⟨h, Carries.of_eq rfl rfl, 0, rfl⟩
  · split
    · exact ⟨⟨h.in_lt, Or.inl hout, trivial⟩, Carries.of_eq rfl hsame, 0, rfl⟩
    · exact ⟨⟨h.in_lt, Or.inl hout, trivial⟩, Carries.of_eq rfl hsame, 0, rfl⟩
  · exact ⟨⟨h.in_lt, Or.inl hout, s.fifo.length, Nat.le_refl _, h.ring.tail_eq⟩,
      Carries.of_eq rfl hsame, 0, rfl⟩
  · split
    · exact ⟨⟨h.in_lt, Or.inl hout, trivial⟩, Carries.of_eq rfl hsame, 0, rfl⟩
    · have hslot : s.bufRxOut.toNat = (s.head + 0) % fifoSize := by
        rw [Nat.add_zero, Uart.head, Nat.mod_mod, Nat.mod_eq_of_lt hout]
      exact ⟨⟨h.in_lt, Or.inl hout, ⟨Nat.zero_le _, Nat.zero_le _, rfl, hslot⟩⟩,
        Carries.of_eq rfl hsame, 0, rfl⟩
  · exact ⟨⟨h.in_lt, Or.inl hout, trivial⟩, Carries.of_eq rfl hsame, 0, rfl⟩
  · exact ⟨⟨h.in_lt, Or.inl hout, trivial⟩, Carries.of_eq rfl hsame, 0, rfl⟩

theorem usbuartRun_sound (h : Sound s) (config : Int) (taken : Bool) :
    Goes s (s.usbuartRun config taken) ∨
      (∃ bufRxIn, s.stage = .store bufRxIn) ∧ Sound (s.usbuartRun config taken) ∧
        Empties s (s.usbuartRun config taken) ∧ Shrinks s (s.usbuartRun config taken) := by
  cases hstage : s.stage with
  | store bufRxIn => exact Or.inr ⟨⟨bufRxIn, rfl⟩, usbuartRun_store h hstage⟩
  | loop => exact Or.inl (usbuartRun_loop h hstage)
  | copy => exact Or.inl (usbuartRun_copy h hstage)
  | write => exact Or.inl (usbuartRun_write h hstage)
  | advance => exact Or.inl (usbuartRun_advance h hstage)
  | wrap => exact Or.inl (usbuartRun_wrap h hstage)
  | _ => exact Or.inl (usbuartRun_else h (by simp [hstage]))

theorem usbusartTimIsr_sound (h : Sound s) :
    Sound s.usbusartTimIsr ∧ Carries s s.usbusartTimIsr := by
  unfold Uart.usbusartTimIsr
  split
  next hstage =>
    have hgone : s.gone = 0 := by rw [Uart.gone, hstage]
    have hout := h.out_lt.resolve_right (by rw [hstage]; nofun)
    split
    · refine ⟨⟨h.in_lt, Or.inl hout, trivial⟩, Carries.of_eq rfl ?_⟩
      show s.sent ++ s.fifo.drop 0 = _
      rw [Uart.waiting, hgone]
    · exact ⟨h, Carries.of_eq rfl rfl⟩
  next => exact ⟨h, Carries.of_eq rfl rfl⟩

theorem step_sound (h : Sound s) {e : Event} (htime : InTime s e) :
    Sound (s.step e) ∧
      (Carries s (s.step e) ∨ (∃ bufRxIn, s.stage = .store bufRxIn) ∧ Empties s (s.step e)) := by
  cases e with
  | rx => exact (usbusartIsr_sound h htime).imp_right Or.inl
  | timer => exact (usbusartTimIsr_sound h).imp_right Or.inl
  | run config taken =>
    obtain hgoes | ⟨hstage, hsound, hempties, -⟩ := usbuartRun_sound h config taken
    · exact ⟨hgoes.sound, Or.inl hgoes.carries⟩
    · exact ⟨hsound, Or.inr ⟨hstage, hempties⟩⟩

/-! ## Runs -/

/-- The host has configured the device. -/
def Configured : Event → Prop
  | .run config _ => config = 1
  | _ => True

/-- The ring is not being emptied. -/
def Kept (s : Uart) : Prop := s.stage ≠ .flush ∧ ∀ bufRxIn, s.stage ≠ .store bufRxIn

theorem step_kept (h : Kept s) {e : Event} (hconfigured : Configured e) : Kept (s.step e) := by
  cases e with
  | rx err c =>
    have hstage : (s.usbusartIsr err c).stage = s.stage := by
      unfold Uart.usbusartIsr
      split
      · rfl
      · dsimp only
        split <;> rfl
    show Kept (s.usbusartIsr err c)
    rwa [Kept, hstage]
  | timer =>
    show Kept s.usbusartTimIsr
    unfold Uart.usbusartTimIsr
    split
    · split
      · exact ⟨nofun, nofun⟩
      · exact h
    · exact h
  | run config taken =>
    obtain rfl : config = 1 := hconfigured
    show Kept (s.usbuartRun 1 taken)
    unfold Uart.usbuartRun
    split
    next => exact h
    next => exact ⟨nofun, nofun⟩
    next hstage => exact absurd hstage h.1
    next => exact ⟨nofun, nofun⟩
    next => dsimp only [Kept]; split <;> exact ⟨nofun, nofun⟩
    next => exact ⟨nofun, nofun⟩
    next => exact ⟨nofun, nofun⟩
    next => dsimp only [Kept]; split <;> exact ⟨nofun, nofun⟩
    next => exact ⟨nofun, nofun⟩
    next => exact ⟨nofun, nofun⟩
    next => exact ⟨nofun, nofun⟩
    next => exact ⟨nofun, nofun⟩

theorem Carries.eq {s' : Uart} (h : Carries s s') (heq : s.sent ++ s.waiting = s.stored) :
    s'.sent ++ s'.waiting = s'.stored := by
  obtain ⟨new, hstored, hall⟩ := h
  rw [hall, heq, hstored]

theorem Carries.sublist {s' : Uart} (h : Carries s s')
    (hsub : (s.sent ++ s.waiting).Sublist s.stored) : (s'.sent ++ s'.waiting).Sublist s'.stored := by
  obtain ⟨new, hstored, hall⟩ := h
  rw [hall, hstored]
  exact hsub.append (List.Sublist.refl new)

theorem Empties.sublist {s' : Uart} (h : Empties s s')
    (hsub : (s.sent ++ s.waiting).Sublist s.stored) : (s'.sent ++ s'.waiting).Sublist s'.stored := by
  obtain ⟨n, hstored, hsent, hwaiting⟩ := h
  rw [hstored, hsent, hwaiting]
  exact ((List.Sublist.refl _).append (List.drop_sublist n _)).trans hsub

end

theorem start_sound : Sound Uart.start := ⟨by decide, Or.inl (by decide), trivial⟩

/-- The host gets stored bytes only, each of them once and in order, and all of them while it has
the device configured. A byte is stored as long as the ring has less than 127. -/
theorem stream_kept {events : List Event} (h : Guarded Uart.step InTime Uart.start events) :
    (∀ c, InTime (events.foldl Uart.step Uart.start) (.rx false c) →
      ((events.foldl Uart.step Uart.start).step (.rx false c)).stored =
        (events.foldl Uart.step Uart.start).stored ++
          if (events.foldl Uart.step Uart.start).fifo.length < 127 then [c] else []) ∧
    ((events.foldl Uart.step Uart.start).sent ++
        (events.foldl Uart.step Uart.start).waiting).Sublist
      (events.foldl Uart.step Uart.start).stored ∧
    ((∀ e ∈ events, Configured e) →
      (events.foldl Uart.step Uart.start).sent ++ (events.foldl Uart.step Uart.start).waiting =
        (events.foldl Uart.step Uart.start).stored) := by
  refine ⟨fun c htime => ?_, ?_, ?_⟩
  · have hsound := Guarded.invariant (I := Sound) (fun s e hs htime => (step_sound hs htime).1) h
      start_sound
    show (Uart.usbusartIsr false c _).stored = _
    obtain ⟨hroom, s', hs', -, -, -, hstored, -⟩ | ⟨hfull, hs'⟩ := hsound.rx c htime
    · rw [hs', hstored, if_pos (Nat.lt_of_succ_lt_succ hroom)]
    · rw [hs', if_neg (Nat.not_lt.mpr (Nat.le_of_eq (Nat.succ.inj hfull).symm)), List.append_nil]
  · refine (Guarded.invariant (I := fun s => Sound s ∧ (s.sent ++ s.waiting).Sublist s.stored)
      (fun s e hs htime => ?_) h ⟨start_sound, List.Sublist.refl _⟩).2
    obtain ⟨hsound, hcarries | ⟨-, hempties⟩⟩ := step_sound hs.1 htime
    · exact ⟨hsound, hcarries.sublist hs.2⟩
    · exact ⟨hsound, hempties.sublist hs.2⟩
  · intro hconfigured
    refine (Guarded.invariant (I := fun s => Sound s ∧ Kept s ∧ s.sent ++ s.waiting = s.stored)
      (fun s e hs hguard => ?_) (h.and_of_forall hconfigured)
      ⟨start_sound, ⟨nofun, nofun⟩, rfl⟩).2.2
    obtain ⟨hsound, hcarries | ⟨⟨bufRxIn, hstage⟩, -⟩⟩ := step_sound hs.1 hguard.1
    · exact ⟨hsound, step_kept hs.2.1 hguard.2, hcarries.eq hs.2.2⟩
    · exact absurd hstage (hs.2.1.2 bufRxIn)

/-- A byte, a pass that sends it, and another byte between the two last statements of the pass. -/
def twoBytes : List Event :=
  [.rx false 0x41, .timer] ++ List.replicate 7 (.run 1 true) ++ [.rx false 0x42, .run 1 true]

theorem stream_kept_twoBytes :
    (twoBytes.foldl Uart.step Uart.start).sent ++ (twoBytes.foldl Uart.step Uart.start).waiting =
      [0x41, 0x42] := by
  have hintime : Guarded Uart.step InTime Uart.start twoBytes :=
    ⟨nofun, trivial, trivial, trivial, trivial, trivial, trivial, trivial, trivial,
      fun _ => by decide, trivial, trivial⟩
  have hconfigured : ∀ e ∈ twoBytes, Configured e := by
    simp [twoBytes, Configured]
  exact (stream_kept hintime).2.2 hconfigured

/-! ## Passes -/

/-- No byte comes between the comparison that finds the ring empty and the statement that turns the
timer off. -/
def Calm (s : Uart) : Event → Prop
  | .rx false _ => s.stage ≠ .disable
  | _ => True

/-- The timer is on while the ring has bytes. -/
structure Awake (s : Uart) : Prop where
  on : s.fifo ≠ [] → s.uie = true
  off : s.stage = .disable → s.fifo = []

section

variable {s : Uart}

theorem Awake.of_shrinks (h : Awake s) {s' : Uart} (hfifo : Shrinks s s') (huie : s'.uie = s.uie)
    (hstage : s'.stage ≠ .disable) : Awake s' where
  on hne := by
    obtain ⟨n, hdrop⟩ := hfifo
    refine huie.trans (h.on fun hnil => hne ?_)
    rw [hdrop, hnil, List.drop_nil]
  off hdisable := absurd hdisable hstage

theorem usbusartIsr_awake (h : Awake s) (hsound : Sound s) {err : Bool} {c : BitVec 8}
    (htime : InTime s (.rx err c)) (hcalm : Calm s (.rx err c)) : Awake (s.usbusartIsr err c) := by
  cases err with
  | true => exact h
  | false =>
    obtain ⟨-, s', hs', hstage, -, -, -, -, huie, -⟩ | ⟨-, hs'⟩ := hsound.rx c htime
    · rw [hs']
      exact ⟨fun _ => huie, fun hdisable => absurd (hstage ▸ hdisable) hcalm⟩
    · rw [hs']
      exact ⟨h.on, h.off⟩

theorem usbusartTimIsr_awake (h : Awake s) : Awake s.usbusartTimIsr := by
  unfold Uart.usbusartTimIsr
  split
  · split
    · exact ⟨h.on, nofun⟩
    · exact h
  · exact h

theorem usbuartRun_awake (h : Awake s) (hsound : Sound s) (config : Int) (taken : Bool) :
    Awake (s.usbuartRun config taken) := by
  have hshrinks : Shrinks s (s.usbuartRun config taken) := by
    obtain hgoes | ⟨-, -, -, hshrinks⟩ := usbuartRun_sound hsound config taken
    · exact hgoes.shrinks
    · exact hshrinks
  cases hstage : s.stage with
  | disable =>
    rw [Uart.usbuartRun, hstage]
    exact ⟨fun hne => absurd (h.off hstage) hne, nofun⟩
  | check =>
    have hhead := hsound.head_eq (by rw [hstage]; nofun)
    rw [Uart.usbuartRun, hstage]
    dsimp only
    refine ⟨h.on, fun hdisable => ?_⟩
    dsimp only at hdisable
    split at hdisable
    next heq => exact hsound.ring.empty_iff.mp (hhead ▸ congrArg UInt8.toNat heq)
    next => exact nomatch hdisable
  | idle =>
    refine h.of_shrinks hshrinks ?_ ?_ <;> rw [Uart.usbuartRun, hstage]
    rw [hstage]
    nofun
  | config =>
    refine h.of_shrinks hshrinks ?_ ?_ <;> rw [Uart.usbuartRun, hstage]
    dsimp only
    split <;> nofun
  | loop =>
    refine h.of_shrinks hshrinks ?_ ?_ <;> rw [Uart.usbuartRun, hstage]
    dsimp only
    split <;> nofun
  | _ =>
    refine h.of_shrinks hshrinks ?_ ?_ <;> rw [Uart.usbuartRun, hstage]
    nofun

theorem step_awake (h : Awake s) (hsound : Sound s) {e : Event} (htime : InTime s e)
    (hcalm : Calm s e) : Awake (s.step e) := by
  cases e with
  | rx => exact usbusartIsr_awake h hsound htime hcalm
  | timer => exact usbusartTimIsr_awake h
  | run => exact usbuartRun_awake h hsound _ _

/-- `usbuart_run` goes on, for a host that has configured the device and takes packets. -/
def passOn (n : Nat) (s : Uart) : Uart := (List.replicate n (Event.run 1 true)).foldl Uart.step s

theorem passOn_succ (n : Nat) (s : Uart) : passOn (n + 1) s = passOn n (s.usbuartRun 1 true) := rfl

theorem passOn_add (n m : Nat) (s : Uart) : passOn (n + m) s = passOn m (passOn n s) := by
  unfold passOn
  rw [List.replicate_add, List.foldl_append]

/-- The loop ends with a packet of all that the ring has, or as much as fits. -/
theorem Copied.filled (h : Sound s) {bufOut : UInt8} {packet : List (BitVec 8)}
    (hcopied : Copied s.head s.fifo bufOut packet)
    (hend : ¬ (s.bufRxIn ≠ bufOut ∧ packet.length < cdcacmPacketSize)) :
    packet = s.fifo.take cdcacmPacketSize := by
  have hle := hcopied.packet_le
  by_cases hfull : packet.length = cdcacmPacketSize
  · rw [← hfull]
    exact hcopied.packet_eq
  · have hin : s.bufRxIn = bufOut :=
      not_not.mp fun hne => hend ⟨hne, Nat.lt_of_le_of_ne hle hfull⟩
    have hslot : (s.head + packet.length) % fifoSize = (s.head + s.fifo.length) % fifoSize := by
      rw [← hcopied.slot, ← h.ring.tail_eq, hin]
    have hlength : packet.length = s.fifo.length := by
      rcases Nat.lt_or_eq_of_le hcopied.length_le with hlt | heq
      · exact absurd hslot (RingBuffer.slot_ne hlt h.ring.length_lt)
      · exact heq
    rw [List.take_of_length_le (hlength ▸ hle), hcopied.packet_eq, hlength, List.take_length]

/-- The packet is filled up. -/
theorem passOn_loop {bufOut : UInt8} {packet : List (BitVec 8)} (h : Sound s)
    (hstage : s.stage = .loop bufOut packet) :
    ∃ n, passOn n s = { s with stage := .write (s.fifo.take cdcacmPacketSize) } := by
  obtain ⟨m, hm⟩ : ∃ m, cdcacmPacketSize - packet.length = m := ⟨_, rfl⟩
  induction m using Nat.strongRecOn generalizing s bufOut packet with
  | ind m ih =>
    have hcopied : Copied s.head s.fifo bufOut packet := h.before hstage
    by_cases hmore : s.bufRxIn ≠ bufOut ∧ packet.length < cdcacmPacketSize
    · have hcopy : s.usbuartRun 1 true = { s with stage := .copy bufOut packet } := by
        rw [Uart.usbuartRun, hstage]
        dsimp only
        rw [if_pos hmore]
      have hs : Sound (s.usbuartRun 1 true) := (usbuartRun_loop h hstage).sound
      rw [hcopy] at hs
      have hs' : Sound (Uart.usbuartRun 1 true _) := (usbuartRun_copy hs rfl).sound
      have hroom := hmore.2
      obtain ⟨n, hn⟩ := ih (cdcacmPacketSize - (packet.length + 1)) (by omega) hs' rfl
        (by rw [List.length_append, List.length_singleton])
      refine ⟨n + 2, ?_⟩
      rw [passOn_succ, hcopy, passOn_succ, hn]
      rfl
    · refine ⟨1, ?_⟩
      rw [passOn_succ, Uart.usbuartRun, hstage]
      dsimp only
      rw [if_neg hmore, ← hcopied.filled h hmore]
      rfl

theorem passOn_sound (h : Sound s) (hawake : Awake s) (n : Nat) :
    Sound (passOn n s) ∧ Awake (passOn n s) := by
  induction n generalizing s with
  | zero => exact ⟨h, hawake⟩
  | succ n ih => exact ih (step_sound h (e := .run 1 true) trivial).1 (usbuartRun_awake hawake h 1 true)

/-- A packet is sent. -/
theorem passOn_write {packet : List (BitVec 8)} (hstage : s.stage = .write packet) :
    passOn 3 s = { s with
      bufRxOut := (s.bufRxOut + UInt8.ofNat packet.length) % 128
      sent := s.sent ++ packet
      stage := .idle } := by
  have hwrite : s.usbuartRun 1 true =
      { s with stage := .advance packet.length, sent := s.sent ++ packet } := by
    rw [Uart.usbuartRun, hstage]
    rfl
  rw [passOn_succ, hwrite]
  rfl

/-- A pass that nothing disturbs sends what waits, or as much of it as fits into a packet. -/
theorem pass_sends (h : Sound s) (hawake : Awake s) (hstage : s.stage = .idle)
    (hne : s.waiting ≠ []) :
    ∃ n s', passOn n (s.step .timer) = s' ∧ s'.stage = .idle ∧ Sound s' ∧ Awake s' ∧
      s'.sent = s.sent ++ s.waiting.take cdcacmPacketSize ∧
      s'.waiting = s.waiting.drop cdcacmPacketSize := by
  have hgone : s.gone = 0 := by rw [Uart.gone, hstage]
  have hwaiting : s.waiting = s.fifo := by rw [Uart.waiting, hgone, List.drop_zero]
  rw [hwaiting] at hne ⊢
  have htimer : s.step .timer = { s with stage := .config } := by
    show s.usbusartTimIsr = _
    rw [Uart.usbusartTimIsr, hstage]
    exact if_pos (hawake.on hne)
  have hhead : s.head = s.bufRxOut.toNat := h.head_eq (by rw [hstage]; nofun)
  have hdiffer : s.bufRxIn ≠ s.bufRxOut := by
    intro heq
    refine hne (h.ring.empty_iff.mp ?_)
    rw [heq, hhead]
  have hcheck : passOn 2 { s with stage := .config } = { s with stage := .loop s.bufRxOut [] } := by
    rw [passOn_succ, passOn_succ]
    dsimp only [Uart.usbuartRun]
    rw [if_neg hdiffer]
    rfl
  have htimed : Sound { s with stage := .config } ∧ Awake { s with stage := .config } := by
    rw [← htimer]
    exact ⟨(step_sound h (e := .timer) trivial).1, usbusartTimIsr_awake hawake⟩
  have hsound (n : Nat) : Sound (passOn n (s.step .timer)) ∧ Awake (passOn n (s.step .timer)) := by
    rw [htimer]
    exact passOn_sound htimed.1 htimed.2 n
  have hloop := (passOn_sound htimed.1 htimed.2 2).1
  rw [hcheck] at hloop
  obtain ⟨n, hn⟩ := passOn_loop hloop rfl
  have hlength : (s.fifo.take cdcacmPacketSize).length ≤ 64 := List.length_take_le _ _
  have hpass : passOn (2 + n + 3) (s.step .timer) = { s with
      bufRxOut := (s.bufRxOut + UInt8.ofNat (s.fifo.take cdcacmPacketSize).length) % 128
      sent := s.sent ++ s.fifo.take cdcacmPacketSize
      stage := .idle } := by
    rw [passOn_add, passOn_add, htimer, hcheck, hn, passOn_write rfl]
    rfl
  refine ⟨2 + n + 3, _, hpass, rfl, hpass ▸ (hsound _).1, hpass ▸ (hsound _).2, rfl, ?_⟩
  have hfifo : Uart.fifo { s with
      bufRxOut := (s.bufRxOut + UInt8.ofNat (s.fifo.take cdcacmPacketSize).length) % 128
      sent := s.sent ++ s.fifo.take cdcacmPacketSize
      stage := .idle } = s.fifo.drop (s.fifo.take cdcacmPacketSize).length := by
    refine fifo_drop h (List.length_take_le' _ _) rfl rfl ?_
    show ((s.bufRxOut + UInt8.ofNat (s.fifo.take cdcacmPacketSize).length) % 128).toNat %
      fifoSize = _
    have hout : s.bufRxOut.toNat < 128 := hhead ▸ head_lt s
    rw [UInt8.toNat_mod, UInt8.toNat_add, UInt8.toNat_ofNat',
      Nat.mod_eq_of_lt (a := List.length _) (Nat.lt_of_le_of_lt hlength (by decide)),
      Nat.mod_eq_of_lt (b := 2 ^ 8) (by omega), hhead]
    exact Nat.mod_mod _ _
  refine hfifo.trans ?_
  rw [List.length_take]
  rcases Nat.le_total cdcacmPacketSize s.fifo.length with hle | hle
  · rw [Nat.min_eq_left hle]
  · rw [Nat.min_eq_right hle, List.drop_length, List.drop_of_length_le hle]

/-- As many passes as it takes. -/
theorem passes_send (h : Sound s) (hawake : Awake s) (hstage : s.stage = .idle) :
    ∃ later : List Event, (∀ e ∈ later, e = .timer ∨ e = .run 1 true) ∧
      (later.foldl Uart.step s).waiting = [] ∧
      (later.foldl Uart.step s).sent = s.sent ++ s.waiting := by
  obtain ⟨m, hm⟩ : ∃ m, s.waiting.length = m := ⟨_, rfl⟩
  induction m using Nat.strongRecOn generalizing s with
  | ind m ih =>
    by_cases hne : s.waiting = []
    · refine ⟨[], nofun, hne, ?_⟩
      rw [hne, List.append_nil]
      rfl
    · obtain ⟨n, s', hpass, hstage', hs', hawake', hsent, hwaiting⟩ := pass_sends h hawake hstage hne
      have hless : s'.waiting.length < m := by
        have hpos := List.length_pos_of_ne_nil hne
        rw [hwaiting, List.length_drop, hm]
        exact Nat.sub_lt (hm ▸ hpos) (by decide)
      obtain ⟨later, hlater, hempty, hall⟩ := ih _ hless hs' hawake' hstage' rfl
      refine ⟨.timer :: (List.replicate n (.run 1 true) ++ later), ?_, ?_, ?_⟩
      · intro e he
        rcases List.mem_cons.mp he with rfl | he
        · exact Or.inl rfl
        · rcases List.mem_append.mp he with he | he
          · exact Or.inr (List.eq_of_mem_replicate he)
          · exact hlater e he
      · rw [List.foldl_cons, List.foldl_append, show (List.replicate n _).foldl _ _ = s' from hpass]
        exact hempty
      · rw [List.foldl_cons, List.foldl_append, show (List.replicate n _).foldl _ _ = s' from hpass,
          hall, hsent, hwaiting, List.append_assoc, List.take_append_drop]

end

theorem start_awake : Awake Uart.start := ⟨fun hne => absurd rfl hne, nofun⟩

end MiyakoLink.Platform.UsbUart
