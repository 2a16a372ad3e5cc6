import MiyakoLink.Uart.Receive
import Mathlib.Tactic.Common

/-!
# Bursts of received bytes

The two buffers hold what has been written and is still to be sent, in the order in which it is
sent (`Phase`). A burst goes from one phase to the next, round and round, until the timeout
callback sends the last of them.

* `received_sent`: in a timely run, what has been sent is the first part of what has been written,
  and all of it behind a burst.
* `Phase.finish_loses`: a burst that ends over a completed channel has lost its buffer.
-/

namespace MiyakoLink.Uart

open Lib

variable {c c0 c1 : Channel} {n : Nat} {b : UInt8}

/-- The channel has moved `n` bytes, and more are to come. -/
structure Filling (c : Channel) (n : Nat) : Prop where
  active : c.active = true
  count : c.transferCount = uartRxBufSize - n
  addr : c.addr = n
  lt : n < uartRxBufSize
  pending : c.pending = false

structure Halted (c : Channel) : Prop where
  active : c.active = false
  count : c.transferCount = 0

/-- The channel waits to be started. -/
structure Armed (c : Channel) : Prop extends Halted c where
  addr : c.addr = 0
  pending : c.pending = false

theorem Filling.read_transfer (h : Filling c n) :
    (c.transfer b).rxBuffer.read 0 (n + 1) = c.rxBuffer.read 0 n ++ [b] := by
  have hfit : n + [b].length ≤ uartRxBufSize := h.lt
  have hnew : (c.rxBuffer.write n [b]).read n 1 = [b] := Store.read_write hfit
  have hold : (c.rxBuffer.write n [b]).read 0 n = c.rxBuffer.read 0 n :=
    Store.read_write_apart (Or.inr (by omega))
  simp only [Channel.transfer, h.addr]
  rw [Store.read_add, hold, Nat.zero_add, hnew]

theorem Filling.count_eq_one (h : Filling c n) :
    c.transferCount = 1 ↔ n + 1 = uartRxBufSize := by
  have hlt := h.lt
  rw [h.count]
  omega

theorem Filling.transfer (h : Filling c n) (hn : n + 1 < uartRxBufSize) :
    Filling (c.transfer b) (n + 1) := by
  have hone : c.transferCount ≠ 1 := fun heq => by
    have := h.count_eq_one.mp heq
    omega
  constructor
  · simp [Channel.transfer, hone]
  · simp only [Channel.transfer, h.count]
    omega
  · simp [Channel.transfer, h.addr]
  · exact hn
  · simp [Channel.transfer, h.pending, hone]

theorem Filling.completes (h : Filling c n) (hn : n + 1 = uartRxBufSize) :
    Halted (c.transfer b) ∧ (c.transfer b).pending = true ∧
      (c.transfer b).full = c.rxBuffer.read 0 n ++ [b] := by
  have hone := h.count_eq_one.mpr hn
  refine ⟨⟨by simp [Channel.transfer, hone], by simp [Channel.transfer, hone]⟩,
    by simp [Channel.transfer, hone], ?_⟩
  have hread := h.read_transfer (b := b)
  rwa [hn] at hread

theorem Armed.trigger (h : Armed c) (henabled : c.enabled = true)
    (hreload : c.reload = uartRxBufSize) : Filling c.trigger 0 := by
  rw [Channel.trigger, henabled, h.active]
  exact ⟨rfl, hreload, h.addr, by decide, h.pending⟩

theorem Halted.configure_start (h : Halted c) (hpending : c.pending = false) :
    Filling (c.configure true) 0 := by
  simp only [Channel.configure, Channel.trigger, h.active]
  exact ⟨rfl, rfl, rfl, by decide, hpending⟩

theorem Halted.partialBytes (h : Halted c) : c.partialBytes = [] := by
  simp [Channel.partialBytes, h.count]

theorem Filling.partialBytes (h : Filling c n) : c.partialBytes = c.rxBuffer.read 0 n := by
  have hlt := h.lt
  simp only [Channel.partialBytes, h.count]
  rw [Nat.sub_sub_self (Nat.le_of_lt hlt)]
  by_cases hzero : n = 0
  · simp [hzero, Store.read]
  · rw [if_pos ⟨Nat.pos_of_ne_zero hzero, hlt⟩]

theorem length_full (c : Channel) : c.full.length = uartRxBufSize :=
  Store.length_read (Nat.le_of_eq (Nat.zero_add _))

/-! ## Phases -/

/-- A branch of `usb_uart_dma_handler`. -/
def Control.inBranch : Control → Bool
  | .dma0Acknowledge | .dma0Send => true
  | .dma1Acknowledge | .dma1Configure0 | .dma1Configure1 | .dma1Send => true
  | _ => false

/-- Outside of the branches, or in the first one. -/
def Before (k : Control) (c0 : Channel) : Prop :=
  k.inBranch = false ∨ (k = .dma0Acknowledge ∧ c0.pending = true) ∨
    (k = .dma0Send ∧ c0.pending = false)

/-- The first buffer, if it is full and has not been sent. -/
def owed (k : Control) (c0 : Channel) : List UInt8 :=
  if c0.pending = true ∨ k = .dma0Send then c0.full else []

/-- In the second branch, the first channel has been started again. -/
def Restarted (k : Control) (c1 : Channel) : Prop :=
  c1.pending = false ∧ (k = .dma1Configure1 ∨ (k = .dma1Send ∧ c1.addr = 0))

/-- What the buffers hold that is still to be sent. -/
inductive Phase (k : Control) (c0 c1 : Channel) : List UInt8 → Prop where
  | first {n : Nat} (hk : k.inBranch = false) (h0 : Filling c0 n) (h1 : Armed c1) :
      Phase k c0 c1 (c0.rxBuffer.read 0 n)
  | second {n : Nat} (hk : Before k c0) (h0 : Halted c0) (h1 : Filling c1 n) :
      Phase k c0 c1 (owed k c0 ++ c1.rxBuffer.read 0 n)
  | both (hk : Before k c0) (h0 : Halted c0) (h1 : Halted c1) (hp1 : c1.pending = true) :
      Phase k c0 c1 (owed k c0 ++ c1.full)
  | handled (hk : k = .dma1Acknowledge ∨ (k = .dma1Configure0 ∧ c1.pending = false))
      (h0 : Halted c0) (hp0 : c0.pending = false) (h1 : Halted c1) : Phase k c0 c1 c1.full
  | restarted {n : Nat} (hk : Restarted k c1) (h0 : Filling c0 n) (h1 : Halted c1) :
      Phase k c0 c1 (c1.full ++ c0.rxBuffer.read 0 n)
  | refilled (hk : Restarted k c1) (h0 : Halted c0) (hp0 : c0.pending = true)
      (h1 : c1.active = true) (hc1 : c1.transferCount = uartRxBufSize) :
      Phase k c0 c1 (c1.full ++ c0.full)

namespace Phase

variable {k k' : Control} {out : List UInt8}

theorem owed_congr (h : k ≠ .dma0Send) (h' : k' ≠ .dma0Send) : owed k c0 = owed k' c0 := by
  simp [owed, h, h']

theorem ne_dma0Send (h : k.inBranch = false) : k ≠ .dma0Send := by
  rintro rfl
  contradiction

/-- Outside of the branches of the handler nothing has been restarted. -/
theorem outside_cases (h : Phase k c0 c1 out) (hk : k.inBranch = false) :
    (∃ n, Filling c0 n ∧ Armed c1 ∧ out = c0.rxBuffer.read 0 n) ∨
      (∃ n, Halted c0 ∧ Filling c1 n ∧ out = owed k c0 ++ c1.rxBuffer.read 0 n) ∨
      (Halted c0 ∧ Halted c1 ∧ c1.pending = true ∧ out = owed k c0 ++ c1.full) := by
  cases h with
  | first _ h0 h1 => exact .inl ⟨_, h0, h1, rfl⟩
  | second _ h0 h1 => exact .inr (.inl ⟨_, h0, h1, rfl⟩)
  | both _ h0 h1 hp1 => exact .inr (.inr ⟨h0, h1, hp1, rfl⟩)
  | handled hb =>
    rcases hb with rfl | ⟨rfl, -⟩
    · contradiction
    · contradiction
  | restarted hb =>
    rcases hb.2 with rfl | ⟨rfl, -⟩
    · contradiction
    · contradiction
  | refilled hb =>
    rcases hb.2 with rfl | ⟨rfl, -⟩
    · contradiction
    · contradiction

/-- There, the phase does not depend on where the handler is. -/
theorem outside (h : Phase k c0 c1 out) (hk : k.inBranch = false) (hk' : k'.inBranch = false) :
    Phase k' c0 c1 out := by
  have howed : owed k c0 = owed k' c0 := owed_congr (ne_dma0Send hk) (ne_dma0Send hk')
  rcases h.outside_cases hk with ⟨n, h0, h1, rfl⟩ | ⟨n, h0, h1, rfl⟩ | ⟨h0, h1, hp1, rfl⟩
  · exact .first hk' h0 h1
  · rw [howed]
    exact .second (Or.inl hk') h0 h1
  · rw [howed]
    exact .both (Or.inl hk') h0 h1 hp1

/-- The steps of the second branch are not `Before` it. -/
theorem not_before (hk : k.inBranch = true) (hack : k ≠ .dma0Acknowledge) (hsend : k ≠ .dma0Send) :
    ¬Before k c0 := by
  rintro (hout | ⟨rfl, -⟩ | ⟨rfl, -⟩)
  · rw [hk] at hout
    contradiction
  · exact hack rfl
  · exact hsend rfl

/-- In the second branch its buffer is full, and comes before what the first channel has moved. -/
theorem inside_cases (h : Phase k c0 c1 out) (hk : ¬Before k c0) :
    ((k = .dma1Acknowledge ∨ (k = .dma1Configure0 ∧ c1.pending = false)) ∧ Halted c0 ∧
        c0.pending = false ∧ Halted c1 ∧ out = c1.full) ∨
      (∃ n, Restarted k c1 ∧ Filling c0 n ∧ Halted c1 ∧ out = c1.full ++ c0.rxBuffer.read 0 n) ∨
      (Restarted k c1 ∧ Halted c0 ∧ c0.pending = true ∧ c1.active = true ∧
        c1.transferCount = uartRxBufSize ∧ out = c1.full ++ c0.full) := by
  cases h with
  | first hout => exact absurd (Or.inl hout) hk
  | second hbefore => exact absurd hbefore hk
  | both hbefore => exact absurd hbefore hk
  | handled hb h0 hp0 h1 => exact .inl ⟨hb, h0, hp0, h1, rfl⟩
  | restarted hb h0 h1 => exact .inr (.inl ⟨_, hb, h0, h1, rfl⟩)
  | refilled hb h0 hp0 h1 hc1 => exact .inr (.inr ⟨hb, h0, hp0, h1, hc1, rfl⟩)

/-- The first channel moves a byte, and starts the second one when it completes. -/
theorem byte0 (h : Phase k c0 c1 out) (hactive : c0.active = true) (henabled : c1.enabled = true)
    (hreload : c1.reload = uartRxBufSize) :
    Phase k (c0.transfer b) (if c0.transferCount = 1 then c1.trigger else c1) (out ++ [b]) := by
  cases h with
  | @first n hk h0 h1 =>
    rcases Nat.lt_or_eq_of_le (Nat.succ_le_of_lt h0.lt) with hn | hn
    · rw [if_neg fun hone => Nat.ne_of_lt hn (h0.count_eq_one.mp hone), ← h0.read_transfer]
      exact .first hk (h0.transfer hn) h1
    · obtain ⟨hhalted, hpending, hfull⟩ := h0.completes (b := b) hn
      have hsecond : Phase k (c0.transfer b) c1.trigger
          (owed k (c0.transfer b) ++ c1.trigger.rxBuffer.read 0 0) :=
        .second (Or.inl hk) hhalted (h1.trigger henabled hreload)
      rw [if_pos (h0.count_eq_one.mpr hn), ← hfull]
      simpa [owed, hpending, Store.read] using hsecond
  | second _ h0 => simp [h0.active] at hactive
  | both _ h0 => simp [h0.active] at hactive
  | handled _ h0 => simp [h0.active] at hactive
  | @restarted n hk h0 h1 =>
    rw [List.append_assoc]
    rcases Nat.lt_or_eq_of_le (Nat.succ_le_of_lt h0.lt) with hn | hn
    · rw [if_neg fun hone => Nat.ne_of_lt hn (h0.count_eq_one.mp hone), ← h0.read_transfer]
      exact .restarted hk (h0.transfer hn) h1
    · obtain ⟨hhalted, hpending, hfull⟩ := h0.completes (b := b) hn
      have htrigger : c1.trigger = { c1 with active := true, transferCount := c1.reload } := by
        simp [Channel.trigger, henabled, h1.active]
      rw [if_pos (h0.count_eq_one.mpr hn), ← hfull, htrigger]
      exact .refilled hk hhalted hpending rfl hreload
  | refilled _ h0 => simp [h0.active] at hactive

/-- The second channel moves a byte. -/
theorem byte1 (h : Phase k c0 c1 out) (hactive : c1.active = true)
    (htimely : ¬(k = .dma1Configure1 ∨ k = .dma1Send)) :
    Phase k c0 (c1.transfer b) (out ++ [b]) := by
  cases h with
  | first _ _ h1 => simp [h1.active] at hactive
  | @second n hk h0 h1 =>
    rw [List.append_assoc]
    rcases Nat.lt_or_eq_of_le (Nat.succ_le_of_lt h1.lt) with hn | hn
    · rw [← h1.read_transfer]
      exact .second hk h0 (h1.transfer hn)
    · obtain ⟨hhalted, hpending, hfull⟩ := h1.completes (b := b) hn
      rw [← hfull]
      exact .both hk h0 hhalted hpending
  | both _ _ h1 => simp [h1.active] at hactive
  | handled _ _ _ h1 => simp [h1.active] at hactive
  | restarted _ _ h1 => simp [h1.active] at hactive
  | refilled hk => exact absurd (hk.2.imp_right And.left) htimely

/-! ## The branches of the handler -/

/-- The handler finds that the first channel has completed. -/
theorem enter0 (h : Phase .dmaTest0 c0 c1 out) (hpending : c0.pending = true) :
    Phase .dma0Acknowledge c0 c1 out := by
  have howed : owed .dmaTest0 c0 = owed .dma0Acknowledge c0 := by simp [owed]
  rcases h.outside_cases rfl with ⟨n, h0, h1, rfl⟩ | ⟨n, h0, h1, rfl⟩ | ⟨h0, h1, hp1, rfl⟩
  · simp [h0.pending] at hpending
  · rw [howed]
    exact .second (Or.inr (Or.inl ⟨rfl, hpending⟩)) h0 h1
  · rw [howed]
    exact .both (Or.inr (Or.inl ⟨rfl, hpending⟩)) h0 h1 hp1

theorem acknowledge0 (h : Phase .dma0Acknowledge c0 c1 out) :
    Phase .dma0Send c0.acknowledge c1 out := by
  have hpending : Before .dma0Acknowledge c0 → c0.pending = true := by
    rintro (hk | ⟨-, hp⟩ | ⟨hk, -⟩)
    · contradiction
    · exact hp
    · contradiction
  have howed (hp : c0.pending = true) :
      owed .dma0Acknowledge c0 = owed .dma0Send c0.acknowledge := by
    simp [owed, hp, Channel.acknowledge, Channel.full]
  cases h with
  | first hk => contradiction
  | second hk h0 h1 =>
    rw [howed (hpending hk)]
    exact .second (Or.inr (Or.inr ⟨rfl, rfl⟩)) ⟨h0.active, h0.count⟩ h1
  | both hk h0 h1 hp1 =>
    rw [howed (hpending hk)]
    exact .both (Or.inr (Or.inr ⟨rfl, rfl⟩)) ⟨h0.active, h0.count⟩ h1 hp1
  | handled hb => simp at hb
  | restarted hb => simp [Restarted] at hb
  | refilled hb => simp [Restarted] at hb

theorem send0 (h : Phase .dma0Send c0 c1 out) :
    ∃ rest, out = c0.full ++ rest ∧ Phase .idle c0 c1 rest := by
  have hpending : Before .dma0Send c0 → c0.pending = false := by
    rintro (hk | ⟨hk, -⟩ | ⟨-, hp⟩)
    · contradiction
    · contradiction
    · exact hp
  have howed : owed .dma0Send c0 = c0.full := by simp [owed]
  have hnone (hp : c0.pending = false) : owed .idle c0 = [] := by simp [owed, hp]
  cases h with
  | first hk => contradiction
  | second hk h0 h1 =>
    have hphase := Phase.second (k := .idle) (Or.inl rfl) h0 h1
    rw [hnone (hpending hk)] at hphase
    exact ⟨_, by rw [howed, List.nil_append], hphase⟩
  | both hk h0 h1 hp1 =>
    have hphase := Phase.both (k := .idle) (Or.inl rfl) h0 h1 hp1
    rw [hnone (hpending hk)] at hphase
    exact ⟨_, by rw [howed, List.nil_append], hphase⟩
  | handled hb => simp at hb
  | restarted hb => simp [Restarted] at hb
  | refilled hb => simp [Restarted] at hb

/-- The handler finds that the second channel has completed, and not the first one. -/
theorem enter1 (h : Phase .dmaTest1 c0 c1 out) (hpending0 : c0.pending = false)
    (hpending : c1.pending = true) : Phase .dma1Acknowledge c0 c1 out := by
  rcases h.outside_cases rfl with ⟨n, -, h1, -⟩ | ⟨n, -, h1, -⟩ | ⟨h0, h1, -, rfl⟩
  · simp [h1.pending] at hpending
  · simp [h1.pending] at hpending
  · have hnone : owed .dmaTest1 c0 = [] := by simp [owed, hpending0]
    rw [hnone, List.nil_append]
    exact .handled (Or.inl rfl) h0 hpending0 h1

theorem acknowledge1 (h : Phase .dma1Acknowledge c0 c1 out) :
    Phase .dma1Configure0 c0 c1.acknowledge out := by
  rcases h.inside_cases (not_before rfl nofun nofun) with
    ⟨-, h0, hp0, h1, rfl⟩ | ⟨n, hk, -⟩ | ⟨hk, -⟩
  · exact .handled (Or.inr ⟨rfl, rfl⟩) h0 hp0 ⟨h1.active, h1.count⟩
  · simp [Restarted] at hk
  · simp [Restarted] at hk

theorem configure0 (h : Phase .dma1Configure0 c0 c1 out) :
    Phase .dma1Configure1 (c0.configure true) c1 out := by
  rcases h.inside_cases (not_before rfl nofun nofun) with
    ⟨hk, h0, hp0, h1, rfl⟩ | ⟨n, hk, -⟩ | ⟨hk, -⟩
  · have hp1 : c1.pending = false := by simpa using hk
    have hphase := Phase.restarted ⟨hp1, Or.inl rfl⟩ (h0.configure_start hp0) h1
    simpa [Store.read] using hphase
  · simp [Restarted] at hk
  · simp [Restarted] at hk

theorem configure1 (h : Phase .dma1Configure1 c0 c1 out) :
    Phase .dma1Send c0 (c1.configure false) out := by
  rcases h.inside_cases (not_before rfl nofun nofun) with
    ⟨hk, -⟩ | ⟨n, hk, h0, h1, rfl⟩ | ⟨hk, h0, hp0, h1, hc1, rfl⟩
  · simp at hk
  · exact .restarted ⟨hk.1, Or.inr ⟨rfl, rfl⟩⟩ h0 ⟨h1.active, h1.count⟩
  · exact .refilled ⟨hk.1, Or.inr ⟨rfl, rfl⟩⟩ h0 hp0 h1 hc1

theorem send1 (h : Phase .dma1Send c0 c1 out) :
    ∃ rest, out = c1.full ++ rest ∧ Phase .idle c0 c1 rest := by
  rcases h.inside_cases (not_before rfl nofun nofun) with
    ⟨hk, -⟩ | ⟨n, hk, h0, h1, rfl⟩ | ⟨hk, h0, hp0, h1, hc1, rfl⟩
  · simp at hk
  · have haddr : c1.addr = 0 := by simpa using hk.2
    exact ⟨_, rfl, .first rfl h0 ⟨h1, haddr, hk.1⟩⟩
  · have haddr : c1.addr = 0 := by simpa using hk.2
    have hphase := Phase.second (k := .idle) (Or.inl rfl) h0
      ⟨h1, hc1, haddr, by decide, hk.1⟩
    exact ⟨_, rfl, by simpa [owed, hp0, Store.read] using hphase⟩

/-! ## The end of a burst -/

theorem stop0 (h : Phase k c0 c1 out) : Phase k c0.stop c1 out := by
  cases h with
  | first hk h0 h1 => exact .first hk ⟨h0.active, h0.count, h0.addr, h0.lt, h0.pending⟩ h1
  | second hk h0 h1 =>
    show Phase k c0.stop c1 (owed k c0.stop ++ _)
    exact .second hk ⟨h0.active, h0.count⟩ h1
  | both hk h0 h1 hp1 =>
    show Phase k c0.stop c1 (owed k c0.stop ++ _)
    exact .both hk ⟨h0.active, h0.count⟩ h1 hp1
  | handled hk h0 hp0 h1 => exact .handled hk ⟨h0.active, h0.count⟩ hp0 h1
  | restarted hk h0 h1 => exact .restarted hk ⟨h0.active, h0.count, h0.addr, h0.lt, h0.pending⟩ h1
  | refilled hk h0 hp0 h1 hc1 =>
    show Phase k c0.stop c1 (_ ++ c0.stop.full)
    exact .refilled hk ⟨h0.active, h0.count⟩ hp0 h1 hc1

theorem stop1 (h : Phase k c0 c1 out) : Phase k c0 c1.stop out := by
  cases h with
  | first hk h0 h1 => exact .first hk h0 ⟨⟨h1.active, h1.count⟩, h1.addr, h1.pending⟩
  | second hk h0 h1 => exact .second hk h0 ⟨h1.active, h1.count, h1.addr, h1.lt, h1.pending⟩
  | both hk h0 h1 hp1 =>
    show Phase k c0 c1.stop (_ ++ c1.stop.full)
    exact .both hk h0 ⟨h1.active, h1.count⟩ hp1
  | handled hk h0 hp0 h1 =>
    show Phase k c0 c1.stop c1.stop.full
    exact .handled hk h0 hp0 ⟨h1.active, h1.count⟩
  | restarted hk h0 h1 =>
    show Phase k c0 c1.stop (c1.stop.full ++ _)
    exact .restarted hk h0 ⟨h1.active, h1.count⟩
  | refilled hk h0 hp0 h1 hc1 =>
    show Phase k c0 c1.stop (c1.stop.full ++ _)
    exact .refilled hk h0 hp0 h1 hc1

theorem finish (h : Phase .timeoutFinish c0 c1 out) (hpending0 : c0.pending = false)
    (hpending1 : c1.pending = false) : c0.partialBytes ++ c1.partialBytes = out := by
  have hnone : owed .timeoutFinish c0 = [] := by simp [owed, hpending0]
  rcases h.outside_cases rfl with ⟨n, h0, h1, rfl⟩ | ⟨n, h0, h1, rfl⟩ | ⟨-, -, hp1, -⟩
  · rw [h0.partialBytes, h1.toHalted.partialBytes, List.append_nil]
  · rw [h0.partialBytes, h1.partialBytes, hnone]
  · simp [hp1] at hpending1

/-- The buffer of a completed channel is not sent. -/
theorem finish_loses (h : Phase .timeoutFinish c0 c1 out)
    (hpending : c0.pending = true ∨ c1.pending = true) :
    (c0.partialBytes ++ c1.partialBytes).length < out.length := by
  have hfull (hp : c0.pending = true) : owed .timeoutFinish c0 = c0.full := by simp [owed, hp]
  rcases h.outside_cases rfl with ⟨n, h0, h1, rfl⟩ | ⟨n, h0, h1, rfl⟩ | ⟨h0, h1, -, rfl⟩
  · simp [h0.pending, h1.pending] at hpending
  · have hp0 : c0.pending = true := by simpa [h1.pending] using hpending
    rw [h0.partialBytes, h1.partialBytes, hfull hp0, List.nil_append, List.length_append,
      length_full]
    exact Nat.lt_add_of_pos_left (by decide)
  · rw [h0.partialBytes, h1.partialBytes, List.append_nil, List.length_append, length_full]
    exact Nat.lt_of_lt_of_le (by decide) (Nat.le_add_left _ _)

end Phase

/-! ## Runs -/

/-- What the interrupts and the channels are set to during a burst. -/
structure Burst (s : State) : Prop where
  irq0 : s.rx0.irq0Enabled = true
  irq1 : s.rx1.irq0Enabled = true
  rxDma : s.rxDmaEnabled = true
  rxIrq : s.rxIrqEnabled = false
  timer : s.timer = true
  reload : s.rx1.reload = uartRxBufSize
  enabled1 : s.control ≠ .timeoutFinish → s.rx1.enabled = true
  stopped0 : s.control = .timeoutStop1 ∨ s.control = .timeoutFinish → s.rx0.enabled = false
  stopped1 : s.control = .timeoutFinish → s.rx1.enabled = false

/-- Nothing is in the buffers, or they hold what has not been sent. -/
inductive Inv (s : State) : Prop where
  | atRest (h : AtRest s) (hk : s.control = .idle ∨ s.control = .dmaTest0 ∨ s.control = .dmaTest1)
  | burst {out : List UInt8} (h : Burst s) (hphase : Phase s.control s.rx0 s.rx1 out)
      (hwritten : s.written = s.sent ++ out)

theorem Inv.sent_prefix {s : State} (h : Inv s) : s.sent <+: s.written := by
  cases h with
  | atRest h => exact h.sent ▸ List.prefix_refl _
  | burst _ _ hwritten => exact ⟨_, hwritten.symm⟩

theorem Inv.sent_all {s : State} (h : Inv s) (htimer : s.timer = false) : s.sent = s.written := by
  cases h with
  | atRest h => exact h.sent
  | burst h => simp [h.timer] at htimer

variable {s s' : State}

/-- What a burst sets, and its handlers leave. -/
def State.setup (s : State) : Bool × Bool × Bool × Bool × Bool × Nat × Bool :=
  (s.rx0.irq0Enabled, s.rx1.irq0Enabled, s.rxDmaEnabled, s.rxIrqEnabled, s.timer, s.rx1.reload,
    s.rx1.enabled)

/-- A step that leaves the setup, and does not go to the stopped channels. -/
theorem Burst.next (h : Burst s) (hsetup : s'.setup = s.setup)
    (hk : s.control ≠ .timeoutFinish) (hk1 : s'.control ≠ .timeoutStop1)
    (hk2 : s'.control ≠ .timeoutFinish) : Burst s' := by
  simp only [State.setup, Prod.mk.injEq] at hsetup
  obtain ⟨hirq0, hirq1, hrxDma, hrxIrq, htimer, hreload, henabled⟩ := hsetup
  exact {
    irq0 := hirq0.trans h.irq0
    irq1 := hirq1.trans h.irq1
    rxDma := hrxDma.trans h.rxDma
    rxIrq := hrxIrq.trans h.rxIrq
    timer := htimer.trans h.timer
    reload := hreload.trans h.reload
    enabled1 := fun _ => henabled.trans (h.enabled1 hk)
    stopped0 := fun hk' => by simp [hk1, hk2] at hk'
    stopped1 := fun hk' => absurd hk' hk2 }

theorem AtRest.not_moves (h : AtRest s) (c : Channel) : s.moves c = false := by
  simp [State.moves, h.rxDma]

theorem AtRest.rxCallback (h : AtRest s) (hk : s.control = .idle) : Inv s.rxCallback := by
  have hburst : Burst s.rxCallback := by
    constructor
    · simp [State.rxCallback, Channel.setIrq0Enabled]
    · simp [State.rxCallback, Channel.setIrq0Enabled]
    · rfl
    · rfl
    · rfl
    · rfl
    · exact fun _ => rfl
    · simp [State.rxCallback, hk]
    · simp [State.rxCallback, hk]
  have hfilling : Filling s.rxCallback.rx0 0 := by
    simp only [State.rxCallback, Channel.configure, Channel.trigger, h.active0]
    exact ⟨rfl, rfl, rfl, by decide, rfl⟩
  have harmed : Armed s.rxCallback.rx1 := ⟨⟨h.active1, h.count1⟩, rfl, rfl⟩
  have hidle : s.rxCallback.control.inBranch = false := by
    rw [show s.rxCallback.control = .idle from hk]
    rfl
  refine .burst hburst (.first hidle hfilling harmed) ?_
  simp [State.rxCallback, h.sent, Store.read]

theorem Burst.byte0 {out : List UInt8} (h : Burst s) (hphase : Phase s.control s.rx0 s.rx1 out)
    (hwritten : s.written = s.sent ++ out) (b : UInt8) : Inv (s.byte0 b) := by
  unfold State.byte0
  split
  · rename_i hmoves
    obtain ⟨⟨-, hactive⟩, henabled0⟩ : (s.rxDmaEnabled = true ∧ s.rx0.active = true) ∧
        s.rx0.enabled = true := by simpa [State.moves] using hmoves
    have hk : s.control ≠ .timeoutStop1 ∧ s.control ≠ .timeoutFinish := by
      constructor
      · intro hk
        simp [h.stopped0 (Or.inl hk)] at henabled0
      · intro hk
        simp [h.stopped0 (Or.inr hk)] at henabled0
    refine .burst (h.next ?_ hk.2 hk.1 hk.2)
      (hphase.byte0 hactive (h.enabled1 hk.2) h.reload) (by simp [hwritten])
    by_cases hone : s.rx0.transferCount = 1
    · simp [State.setup, hone, Channel.transfer]
    · simp [State.setup, hone, Channel.transfer]
  · exact .burst h hphase hwritten

theorem Burst.byte1 {out : List UInt8} (h : Burst s) (hphase : Phase s.control s.rx0 s.rx1 out)
    (hwritten : s.written = s.sent ++ out) {b : UInt8} (htimely : Timely s (.byte1 b)) :
    Inv (s.byte1 b) := by
  unfold State.byte1
  split
  · rename_i hmoves
    obtain ⟨⟨-, hactive⟩, henabled1⟩ : (s.rxDmaEnabled = true ∧ s.rx1.active = true) ∧
        s.rx1.enabled = true := by simpa [State.moves] using hmoves
    have hk : ¬(s.control = .dma1Configure1 ∨ s.control = .dma1Send) := by
      simpa [Timely, hmoves] using htimely
    have hburst : Burst { s with rx1 := s.rx1.transfer b, written := s.written ++ [b] } :=
      ⟨h.irq0, h.irq1, h.rxDma, h.rxIrq, h.timer, h.reload, h.enabled1, h.stopped0, h.stopped1⟩
    exact .burst hburst (hphase.byte1 hactive hk) (by simp [hwritten])
  · exact .burst h hphase hwritten

/-- The state at the end of a burst. -/
theorem finish_atRest (h : s.sent ++ s.rx0.partialBytes ++ s.rx1.partialBytes = s.written) :
    AtRest s.finish :=
  ⟨rfl, rfl, rfl, rfl, rfl, rfl, rfl, h⟩

theorem AtRest.tick (h : AtRest s)
    (hk : s.control = .idle ∨ s.control = .dmaTest0 ∨ s.control = .dmaTest1) : Inv s.tick := by
  rcases hk with hk | hk | hk
  · simp only [State.tick, hk]
    exact .atRest h (Or.inl hk)
  · simp only [State.tick, hk, Channel.irq0Status, h.irq0, Bool.and_false]
    exact .atRest ⟨h.active0, h.active1, h.count1, h.irq0, h.irq1, h.rxDma, h.timer, h.sent⟩
      (Or.inr (Or.inr rfl))
  · simp only [State.tick, hk, Channel.irq0Status, h.irq1, Bool.and_false]
    exact .atRest ⟨h.active0, h.active1, h.count1, h.irq0, h.irq1, h.rxDma, h.timer, h.sent⟩
      (Or.inl rfl)

theorem Burst.tick {out : List UInt8} (h : Burst s) (hphase : Phase s.control s.rx0 s.rx1 out)
    (hwritten : s.written = s.sent ++ out) (htimely : Timely s .tick) : Inv s.tick := by
  have hstatus0 : s.rx0.irq0Status = s.rx0.pending := by simp [Channel.irq0Status, h.irq0]
  have hstatus1 : s.rx1.irq0Status = s.rx1.pending := by simp [Channel.irq0Status, h.irq1]
  cases hk : s.control with
  | idle =>
    simp only [State.tick, hk]
    exact .burst h hphase hwritten
  | dmaTest0 =>
    rw [hk] at hphase
    simp only [State.tick, hk, hstatus0]
    split
    · rename_i hpending
      exact .burst (h.next rfl (by simp [hk]) (by simp) (by simp)) (hphase.enter0 hpending) hwritten
    · exact .burst (h.next rfl (by simp [hk]) (by simp) (by simp)) (hphase.outside rfl rfl) hwritten
  | dma0Acknowledge =>
    rw [hk] at hphase
    simp only [State.tick, hk]
    exact .burst (h.next rfl (by simp [hk]) (by simp) (by simp)) hphase.acknowledge0 hwritten
  | dma0Send =>
    rw [hk] at hphase
    obtain ⟨rest, rfl, hrest⟩ := hphase.send0
    simp only [State.tick, hk]
    exact .burst (h.next rfl (by simp [hk]) (by simp) (by simp)) hrest (by simp [hwritten])
  | dmaTest1 =>
    rw [hk] at hphase
    simp only [State.tick, hk, hstatus1]
    split
    · rename_i hpending1
      have hpending0 : s.rx0.pending = false := by
        simpa [hstatus0, hstatus1, hpending1] using htimely.2 hk
      exact .burst (h.next rfl (by simp [hk]) (by simp) (by simp))
        (hphase.enter1 hpending0 hpending1) hwritten
    · exact .burst (h.next rfl (by simp [hk]) (by simp) (by simp)) (hphase.outside rfl rfl) hwritten
  | dma1Acknowledge =>
    rw [hk] at hphase
    simp only [State.tick, hk]
    exact .burst (h.next rfl (by simp [hk]) (by simp) (by simp)) hphase.acknowledge1 hwritten
  | dma1Configure0 =>
    rw [hk] at hphase
    simp only [State.tick, hk]
    exact .burst (h.next (by simp [State.setup]) (by simp [hk]) (by simp) (by simp))
      hphase.configure0 hwritten
  | dma1Configure1 =>
    rw [hk] at hphase
    have henabled := h.enabled1 (by simp [hk])
    simp only [State.tick, hk]
    exact .burst (h.next (by simp [State.setup, Channel.configure, h.reload, henabled])
      (by simp [hk]) (by simp) (by simp)) hphase.configure1 hwritten
  | dma1Send =>
    rw [hk] at hphase
    obtain ⟨rest, rfl, hrest⟩ := hphase.send1
    simp only [State.tick, hk]
    exact .burst (h.next rfl (by simp [hk]) (by simp) (by simp)) hrest (by simp [hwritten])
  | timeoutTest =>
    rw [hk] at hphase
    simp only [State.tick, hk]
    split
    · exact .burst (h.next rfl (by simp [hk]) (by simp) (by simp)) (hphase.outside rfl rfl) hwritten
    · exact .burst (h.next rfl (by simp [hk]) (by simp) (by simp)) (hphase.outside rfl rfl) hwritten
  | timeoutStop0 =>
    rw [hk] at hphase
    have henabled := h.enabled1 (by simp [hk])
    simp only [State.tick, hk]
    exact .burst ⟨h.irq0, h.irq1, h.rxDma, h.rxIrq, h.timer, h.reload, fun _ => henabled,
      fun _ => rfl, by simp⟩ (hphase.outside rfl rfl).stop0 hwritten
  | timeoutStop1 =>
    rw [hk] at hphase
    have hstopped := h.stopped0 (Or.inl hk)
    simp only [State.tick, hk]
    exact .burst ⟨h.irq0, h.irq1, h.rxDma, h.rxIrq, h.timer, h.reload, by simp,
      fun _ => hstopped, fun _ => rfl⟩ (hphase.outside rfl rfl).stop1 hwritten
  | timeoutFinish =>
    rw [hk] at hphase
    obtain ⟨hpending0, hpending1⟩ := htimely.1 hk
    simp only [State.tick, hk]
    refine .atRest (finish_atRest ?_) (Or.inl rfl)
    rw [List.append_assoc, hphase.finish hpending0 hpending1, hwritten]

/-- What one step preserves. -/
theorem Inv.step (h : Inv s) {e : Event} (htimely : Timely s e) : Inv (s.step e) := by
  cases h with
  | atRest h hk =>
    cases e with
    | byte0 b =>
      simp only [State.step, State.byte0, h.not_moves]
      exact .atRest h hk
    | byte1 b =>
      simp only [State.step, State.byte1, h.not_moves]
      exact .atRest h hk
    | tick => exact h.tick hk
    | rxInterrupt =>
      simp only [State.step]
      split
      · rename_i hidle
        exact h.rxCallback hidle.1
      · exact .atRest h hk
    | dmaInterrupt =>
      simp only [State.step]
      split
      · exact .atRest ⟨h.active0, h.active1, h.count1, h.irq0, h.irq1, h.rxDma, h.timer, h.sent⟩
          (Or.inr (Or.inl rfl))
      · exact .atRest h hk
    | timeoutInterrupt =>
      rw [State.step, if_neg (by simp [h.timer])]
      exact .atRest h hk
  | burst h hphase hwritten =>
    cases e with
    | byte0 b => exact h.byte0 hphase hwritten b
    | byte1 b => exact h.byte1 hphase hwritten htimely
    | tick => exact h.tick hphase hwritten htimely
    | rxInterrupt =>
      rw [State.step, if_neg (by simp [h.rxIrq])]
      exact .burst h hphase hwritten
    | dmaInterrupt =>
      simp only [State.step]
      split
      · rename_i hidle
        rw [hidle] at hphase
        exact .burst (h.next rfl (by simp [hidle]) (by simp) (by simp)) (hphase.outside rfl rfl)
          hwritten
      · exact .burst h hphase hwritten
    | timeoutInterrupt =>
      simp only [State.step]
      split
      · rename_i hidle
        rw [hidle.1] at hphase
        exact .burst (h.next rfl (by simp [hidle.1]) (by simp) (by simp)) (hphase.outside rfl rfl)
          hwritten
      · exact .burst h hphase hwritten

theorem Inv.run {es : List Event} (h : Inv s) (htimely : TimelyRun s es) : Inv (s.run es) := by
  induction es generalizing s with
  | nil => exact h
  | cons e es ih => exact ih (h.step htimely.1) htimely.2

/-- In a timely run, what has been sent is at each time the first part of what the DMA has moved,
and when no burst is under way it is all of it. -/
theorem received_sent (hrest : AtRest s) (hidle : s.control = .idle) {es : List Event}
    (htimely : TimelyRun s es) :
    (s.run es).sent <+: (s.run es).written ∧
      ((s.run es).timer = false → (s.run es).sent = (s.run es).written) :=
  have hinv := (Inv.atRest hrest (Or.inl hidle)).run htimely
  ⟨hinv.sent_prefix, hinv.sent_all⟩

/-- The port behind `usb_uart_add_interface`. -/
def State.initial : State :=
  let c : Channel := ⟨false, false, 0, 0, 0, false, false, Store.filled _ 0⟩
  ⟨.idle, c, c, false, true, false, false, [], []⟩

theorem atRest_initial : AtRest State.initial := ⟨rfl, rfl, rfl, rfl, rfl, rfl, rfl, rfl⟩

/-- A byte, and then 50 ms without one. -/
theorem received_sent_byte :
    let s := State.initial.run
      [.rxInterrupt, .byte0 65, .timeoutInterrupt, .tick, .tick, .tick, .tick]
    s.sent = s.written := by
  refine (received_sent atRest_initial rfl ?_).2 rfl
  refine ⟨trivial, trivial, trivial, ?_, ?_, ?_, ?_, trivial⟩
  · exact ⟨nofun, nofun⟩
  · exact ⟨nofun, nofun⟩
  · exact ⟨nofun, nofun⟩
  · exact ⟨fun _ => ⟨rfl, rfl⟩, nofun⟩

/-! ## A full buffer that is lost -/

/-- The first channel moves the rest of its bytes. -/
theorem run_byte0_fills (bs : List UInt8) (hrxDma : s.rxDmaEnabled = true)
    (henabled : s.rx0.enabled = true) (h : Filling s.rx0 n)
    (hlen : n + bs.length = uartRxBufSize) :
    (s.run (bs.map .byte0)).rx0.pending = true ∧
      (s.run (bs.map .byte0)).rxDmaEnabled = true ∧
      (s.run (bs.map .byte0)).control = s.control ∧
      (s.run (bs.map .byte0)).dmaOccured = s.dmaOccured := by
  induction bs generalizing s n with
  | nil => exact absurd hlen (Nat.ne_of_lt h.lt)
  | cons b bs ih =>
    have hmoves : s.moves s.rx0 = true := by simp [State.moves, hrxDma, h.active, henabled]
    have hbyte : s.step (.byte0 b) = { s with
        rx0 := s.rx0.transfer b
        rx1 := if s.rx0.transferCount = 1 then s.rx1.trigger else s.rx1
        written := s.written ++ [b] } := if_pos hmoves
    rw [List.length_cons] at hlen
    rw [List.map_cons, State.run_cons, hbyte]
    rcases Nat.lt_or_eq_of_le (Nat.succ_le_of_lt h.lt) with hn | hn
    · exact ih hrxDma henabled (h.transfer hn) (by omega)
    · have hnil : bs = [] := List.length_eq_zero_iff.mp (by omega)
      rw [hnil]
      exact ⟨(h.completes hn).2.1, hrxDma, rfl, rfl⟩

theorem timelyRun_byte0 (s : State) (bs : List UInt8) : TimelyRun s (bs.map .byte0) := by
  induction bs generalizing s with
  | nil => trivial
  | cons b bs ih => exact ⟨trivial, ih _⟩

/-- The timeout callback runs before the handler of a completed channel. -/
theorem Inv.timeout_loses (h : Inv s) (hrxDma : s.rxDmaEnabled = true) (hidle : s.control = .idle)
    (hoccured : s.dmaOccured = false) (hpending : s.rx0.pending = true ∨ s.rx1.pending = true) :
    (s.run [.timeoutInterrupt, .tick, .tick, .tick, .tick]).timer = false ∧
      (s.run [.timeoutInterrupt, .tick, .tick, .tick, .tick]).sent ≠
        (s.run [.timeoutInterrupt, .tick, .tick, .tick, .tick]).written := by
  cases h with
  | atRest h => simp [h.rxDma] at hrxDma
  | @burst out h hphase hwritten =>
    have hrun : s.run [.timeoutInterrupt, .tick, .tick, .tick, .tick] =
        State.finish { s with
          control := .timeoutFinish
          rx0 := s.rx0.stop
          rx1 := s.rx1.stop } := by
      simp [State.run, State.step, State.tick, hidle, hoccured, h.timer]
    rw [hidle] at hphase
    have hfinish : Phase .timeoutFinish s.rx0 s.rx1 out := hphase.outside rfl rfl
    have hlost := hfinish.stop0.stop1.finish_loses hpending
    rw [hrun]
    refine ⟨rfl, fun hsent => ?_⟩
    simp only [State.finish, hwritten, List.append_assoc, List.append_cancel_left_eq] at hsent
    rw [hsent] at hlost
    exact Nat.lt_irrefl _ hlost

/-- A burst of one buffer, which completes just before 50 ms have passed. -/
theorem full_buffer_lost :
    let s := State.initial.run (.rxInterrupt :: ((List.replicate uartRxBufSize 65).map .byte0 ++
      [.timeoutInterrupt, .tick, .tick, .tick, .tick]))
    AtRest State.initial ∧ State.initial.control = .idle ∧ s.timer = false ∧
      s.sent ≠ s.written := by
  have hstart : State.initial.step .rxInterrupt = State.initial.rxCallback := rfl
  have hinv : Inv State.initial.rxCallback := atRest_initial.rxCallback rfl
  obtain ⟨hpending, hrxDma, hcontrol, hoccured⟩ :=
    run_byte0_fills (s := State.initial.rxCallback) (n := 0) (List.replicate uartRxBufSize 65)
      rfl rfl ⟨rfl, rfl, rfl, by decide, rfl⟩ (by simp)
  have hfull := hinv.run (timelyRun_byte0 _ (List.replicate uartRxBufSize 65))
  rw [State.run_cons, hstart, State.run_append]
  exact ⟨atRest_initial, rfl,
    hfull.timeout_loses hrxDma (hcontrol.trans rfl) (hoccured.trans rfl) (Or.inl hpending)⟩

end MiyakoLink.Uart
