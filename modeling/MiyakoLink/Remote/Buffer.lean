import MiyakoLink.Remote.Process

/-!
# What the remote handlers leave in the receive buffer

The receiver looks at `packet[0]` again when `remotePacketProcess` is over. All handlers but
two leave the buffer as it is (`KeepsPacket`); the two that access target memory write to it
from `src` on, and `src` is `packet` itself when the buffer begins at an address divisible by
eight. `LeavesDollar` says for which packets a `$` is in `packet[0]` afterwards.
-/

namespace MiyakoLink.Remote

open Lib
open Packet (Buffer dollar)

variable {σ α β : Type}

/-- The handler leaves the buffer as it is. -/
def KeepsPacket (m : Handler σ α) : Prop := ∀ packet, Keeps (fun s => s.packet = packet) m

namespace KeepsPacket

variable {m : Handler σ α} {f : α → Handler σ β}

theorem bind (hm : KeepsPacket m) (hf : ∀ a, KeepsPacket (f a)) : KeepsPacket (m >>= f) :=
  fun packet => (hm packet).bind fun a => hf a packet

theorem pure (a : α) : KeepsPacket (Pure.pure a : Handler σ α) := fun _ => Keeps.pure a

theorem ite {c : Prop} [Decidable c] {m' : Handler σ α} (h : KeepsPacket m)
    (h' : KeepsPacket m') : KeepsPacket (if c then m else m') :=
  fun packet => Keeps.ite (h packet) (h' packet)

theorem putchars (cs : List UInt8) : KeepsPacket (putchars cs : Handler σ Unit) :=
  fun _ _ h => h

theorem respond (code : UInt8) (param : UInt64) :
    KeepsPacket (respond code param : Handler σ Unit) := putchars _

theorem respondBuf (code : UInt8) (bs : List UInt8) :
    KeepsPacket (respondBuf code bs : Handler σ Unit) := putchars _

theorem respondS (code : UInt8) (s : List UInt8) :
    KeepsPacket (respondS code s : Handler σ Unit) := putchars _

theorem number (limit pos : Nat) : KeepsPacket (number limit pos : Handler σ UInt64) :=
  fun _ _ h => h

theorem packetAt (pos : Nat) : KeepsPacket (packetAt pos : Handler σ UInt8) := fun _ _ h => h

theorem call (op : Op σ α) : KeepsPacket (call op) := by
  intro packet s h
  unfold Remote.call
  cases op s.env with
  | mk a env =>
    cases a with
    | some a => exact h
    | none => exact h

/-- An operation, and an answer that needs nothing else. -/
theorem callRespond (op : Op σ α) (code : α → UInt8) (param : α → UInt64) :
    KeepsPacket (Remote.call op >>= fun a => Remote.respond (code a) (param a)) :=
  (call op).bind fun a => respond (code a) (param a)

theorem callWord (op : Op σ UInt32) :
    KeepsPacket (Remote.call op >>= fun data => Remote.respondBuf respOk (wordBytes data)) :=
  (call op).bind fun _ => respondBuf _ _

end KeepsPacket

theorem remotePacketProcessSWD_keepsPacket (P : Port σ) (i : Nat) :
    KeepsPacket (remotePacketProcessSWD P i) := by
  apply KeepsPacket.bind (.packetAt 1)
  intro cmd
  split
  · exact .ite (.callRespond P.swdptapInit (fun _ => respOk) fun _ => 0) (.respond _ _)
  · exact .bind (.number 2 2) fun n => .callRespond (P.seqInParity n.toUInt8)
      (fun a => if a.1 then respParerr else respOk) fun a => a.2.toUInt64
  · exact .bind (.number 2 2) fun n => .callRespond (P.seqIn n.toUInt8) (fun _ => respOk) _
  · exact .bind (.number 2 2) fun n => .bind (.number _ 4) fun param =>
      .callRespond (P.seqOut param.toUInt32 n.toUInt8) (fun _ => respOk) fun _ => 0
  · exact .bind (.number 2 2) fun n => .bind (.number _ 4) fun param =>
      .callRespond (P.seqOutParity param.toUInt32 n.toUInt8) (fun _ => respOk) fun _ => 0
  · exact .respond _ _

theorem remotePacketProcessJTAG_keepsPacket (P : Port σ) (i : Nat) :
    KeepsPacket (remotePacketProcessJTAG P i) := by
  apply KeepsPacket.bind (.packetAt 1)
  intro cmd
  split
  · exact .callRespond P.jtagtapInit (fun _ => respOk) fun _ => 0
  · exact .callRespond P.jtagtapReset (fun _ => respOk) fun _ => 0
  · exact .bind (.number 2 2) fun n => .bind (.number 2 4) fun ms => .ite (.respond _ _)
      (.callRespond (P.jtagtapTmsSeq ms.toUInt32 n.toUInt8) (fun _ => respOk) fun _ => 0)
  · exact .ite (.respond _ _) (.bind (.packetAt 2) fun _ => .bind (.packetAt 3) fun _ =>
      .callRespond _ (fun _ => respOk) _)
  · refine .ite (.respond _ _) (.bind (.number 2 2) fun index => ?_)
    refine .bind (.number 2 4) fun _ => .bind (.number 2 6) fun _ => .bind (.number 2 8) fun _ => ?_
    refine .bind (.number 2 10) fun _ => .bind (.number 2 12) fun _ => .bind (.number 8 14) fun _ => ?_
    exact .callRespond (P.jtagAddDevice index.toUInt8 _) (fun _ => respOk) fun _ => 0
  · refine .ite (.ite (.respond _ _) (.bind (.number 2 2) fun ticks => ?_)) (.respond _ _)
    exact .bind (.number _ 4) fun di => .callRespond _ (fun _ => respOk)
      fun dout => if ticks.toUInt8 < 64 then dout &&& (1 <<< ticks.toUInt8.toUInt64 - 1) else dout

theorem remotePacketProcessGEN_keepsPacket (P : Port σ) :
    KeepsPacket (remotePacketProcessGEN P) := by
  apply KeepsPacket.bind (.packetAt 1)
  intro cmd
  split
  · exact .bind (.call _) fun _ => .respondS _ _
  · exact .respond _ _
  · exact .pure _
  · exact .pure _
  · exact .pure _
  · exact .pure _
  · exact .pure _
  · exact .respondS _ _
  · exact .respond _ _

/-! ## The part of the buffer in front of what is written -/

theorem store_of_lt {k pos : Nat} (h : k < pos) (packet : Buffer) (bs : List UInt8) :
    store packet pos bs k = packet k := by
  induction bs generalizing packet pos with
  | nil => rfl
  | cons b bs ih =>
    rw [store, ih (by omega), Function.update_of_ne (by omega)]

theorem unhexify_of_lt {k buf : Nat} (h : k < buf) (packet : Buffer) (hex size : Nat) :
    unhexify packet buf hex size k = packet k := by
  induction size generalizing packet buf hex with
  | zero => rfl
  | succ size ih =>
    rw [unhexify, ih (by omega), Function.update_of_ne (by omega),
      Function.update_of_ne (by omega)]

/-- The first byte that `unhexify` decodes. -/
theorem unhexify_first (packet : Buffer) {hex size : Nat} (hhex : 0 < hex) (hsize : 0 < size) :
    unhexify packet 0 hex size 0 =
      unhexDigit (packet hex) <<< 4 ||| unhexDigit (packet (hex + 1)) := by
  cases size with
  | zero => omega
  | succ size =>
    rw [unhexify, unhexify_of_lt (by omega), Function.update_self, Function.update_self,
      Function.update_of_ne (by omega)]

/-! ## The packets that leave `$` in the first byte -/

/-- The access port named in a high level packet. -/
def packetAp (packet : Buffer) : Ap :=
  ⟨(remotehston 2 packet 2).toUInt8, (remotehston 2 packet 4).toUInt8, none⟩

/-- The access port with the CSW of the packet. -/
def packetApCsw (packet : Buffer) : Ap :=
  { packetAp packet with csw := some (remotehston 8 packet 6).toUInt32 }

/-- The memory that a packet reads begins with `$`. -/
def ReadsDollar (P : Port σ) (ap : Ap) (pos : Nat) (packet : Buffer) (env : σ) : Prop :=
  let read := P.adiv5MemRead ap (remotehston 8 packet pos).toUInt32
    (remotehston 8 packet (pos + 8)).toUInt32 env
  read.2.1.isSome ∧ read.1.head? = some dollar

/-- The data that a packet writes to memory begins with `$`. -/
def WritesDollar (P : Port σ) (ap : Ap) (pos : Nat) (packet : Buffer) (env : σ) : Prop :=
  let align := (remotehston 2 packet pos).toUInt8
  let dest := (remotehston 8 packet (pos + 2)).toUInt32
  let len := (remotehston 8 packet (pos + 10)).toUInt32
  let data := (List.range len.toNat).map fun k =>
    unhexify packet P.src (pos + 18) len.toNat (P.src + k)
  len &&& alignMask align = 0 ∧ 0 < len.toNat ∧
    unhexDigit (packet (pos + 18)) <<< 4 ||| unhexDigit (packet (pos + 19)) = dollar ∧
    (P.adiv5MemWriteSized ap dest data align env).1.isSome

/-- The packet accesses target memory, its data is put to the very start of the buffer and
begins with `$`. -/
def LeavesDollar (P : Port σ) (packet : Buffer) (env : σ) : Prop :=
  P.src = 0 ∧ packet 0 = 0x48 ∧
    (packet 1 = 0x4D ∧ ReadsDollar P (packetApCsw packet) 14 packet env ∨
      packet 1 = 0x68 ∧ ReadsDollar P (packetAp packet) 6 packet env ∨
      packet 1 = 0x6D ∧ WritesDollar P (packetApCsw packet) 14 packet env ∨
      packet 1 = 0x48 ∧ WritesDollar P (packetAp packet) 6 packet env)

instance (P : Port σ) (ap : Ap) (pos : Nat) (packet : Buffer) (env : σ) :
    Decidable (ReadsDollar P ap pos packet env) := inferInstanceAs (Decidable (_ ∧ _))

instance (P : Port σ) (ap : Ap) (pos : Nat) (packet : Buffer) (env : σ) :
    Decidable (WritesDollar P ap pos packet env) := inferInstanceAs (Decidable (_ ∧ _))

instance (P : Port σ) (packet : Buffer) (env : σ) : Decidable (LeavesDollar P packet env) :=
  inferInstanceAs (Decidable (_ ∧ _))

/-- A call of `m` leaves `$` in the first byte when `L` holds, and only then; a call that ends
by an exception is none of these. -/
def Leaves (L : Prop) (m : Handler σ Unit) (s : State σ) : Prop :=
  Ends (fun _ s' => s'.packet 0 = dollar ↔ L) (fun _ _ => ¬ L) (m s)

variable {m : Handler σ Unit} {s : State σ} {L : Prop}

theorem KeepsPacket.leaves (h : KeepsPacket m) (hne : s.packet 0 ≠ dollar) (hL : ¬ L) :
    Leaves L m s := by
  refine Triple.conseq (h s.packet) (fun _ => id) ?_ (fun _ _ _ => hL) s rfl
  intro _ s' hs'
  rw [hs']
  exact iff_of_false hne hL

/-- The handler only sends an answer, or clears `fault`. -/
def Answers (m : Handler σ Unit) : Prop :=
  ∀ s, ∃ s', m s = .ok () s' ∧ s'.packet = s.packet

theorem Answers.respond (code : UInt8) (param : UInt64) :
    Answers (respond code param : Handler σ Unit) := fun _ => ⟨_, rfl, rfl⟩

theorem Answers.respondClear (P : Port σ) (code : UInt8) (param : UInt64) :
    Answers (Remote.respond code param >>= fun _ => clearFault P) := fun _ => ⟨_, rfl, rfl⟩

theorem Answers.respondSrc (P : Port σ) (code : UInt8) (n : Nat) :
    Answers (srcBytes P n >>= fun bs => Remote.respondBuf code bs) := fun _ => ⟨_, rfl, rfl⟩

theorem Answers.leaves (h : Answers m) (hL : s.packet 0 = dollar ↔ L) : Leaves L m s := by
  obtain ⟨s', hrun, hpacket⟩ := h s
  rw [Leaves, hrun]
  show s'.packet 0 = dollar ↔ L
  rw [hpacket]
  exact hL

theorem number_leaves {limit pos : Nat} {f : UInt64 → Handler σ Unit}
    (hf : ∀ trace, Leaves L (f (remotehston limit s.packet pos)) { s with trace := trace }) :
    Leaves L (number limit pos >>= f) s := hf _

theorem packetAt_leaves {pos : Nat} {f : UInt8 → Handler σ Unit}
    (hf : ∀ trace, Leaves L (f (s.packet pos)) { s with trace := trace }) :
    Leaves L (packetAt pos >>= f) s := hf _

theorem modify_leaves {g : State σ → State σ} {f : PUnit → Handler σ Unit}
    (hf : Leaves L (f ⟨⟩) (g s)) : Leaves L (modify g >>= f) s := hf

theorem srcBytes_leaves {P : Port σ} {n : Nat} {f : List UInt8 → Handler σ Unit}
    (hf : ∀ trace, Leaves L (f ((List.range n).map fun k => s.packet (P.src + k)))
      { s with trace := trace }) :
    Leaves L (srcBytes P n >>= f) s := hf _

theorem call_leaves {op : Op σ α} {f : α → Handler σ Unit}
    (hf : ∀ a env, op s.env = (some a, env) → Leaves L (f a) { s with env := env })
    (hraised : ¬ (op s.env).1.isSome → ¬ L) : Leaves L (call op >>= f) s := by
  show Ends _ _ (EStateM.bind (call op) f s)
  unfold EStateM.bind call
  cases hop : op s.env with
  | mk a env =>
    cases a with
    | none =>
      rw [hop] at hraised
      exact hraised Bool.noConfusion
    | some a => exact hf a env hop

/-- The first byte of the buffer when `data` has been put to `pos`. -/
theorem store_first {packet : Buffer} (hne : packet 0 ≠ dollar) (pos : Nat)
    (data : List UInt8) :
    store packet pos data 0 = dollar ↔ pos = 0 ∧ data.head? = some dollar := by
  cases pos with
  | zero =>
    cases data with
    | nil => simp [store, hne]
    | cons b bs => simp [store, store_of_lt]
  | succ pos => simp [store_of_lt, hne]

/-- The first byte of the buffer when `size` bytes have been decoded to `buf`. -/
theorem unhexify_eq_dollar {packet : Buffer} (hne : packet 0 ≠ dollar) (buf : Nat)
    {hex : Nat} (hhex : 0 < hex) (size : Nat) :
    unhexify packet buf hex size 0 = dollar ↔ buf = 0 ∧ 0 < size ∧
      unhexDigit (packet hex) <<< 4 ||| unhexDigit (packet (hex + 1)) = dollar := by
  cases buf with
  | succ buf => simp [unhexify_of_lt, hne]
  | zero =>
    cases size with
    | zero => simp [unhexify, hne]
    | succ size => simp [unhexify_first packet hhex (Nat.succ_pos size)]

theorem hlMemRead_leaves (P : Port σ) (ap : Ap) (pos : Nat) (hne : s.packet 0 ≠ dollar) :
    Leaves (P.src = 0 ∧ ReadsDollar P ap pos s.packet s.env) (hlMemRead P ap pos) s := by
  unfold hlMemRead ReadsDollar
  apply number_leaves
  intro trace
  apply number_leaves
  intro trace'
  dsimp only
  generalize (remotehston 8 s.packet pos).toUInt32 = address
  generalize (remotehston 8 s.packet (pos + 8)).toUInt32 = count
  show Ends _ _ (EStateM.bind (memRead P ap address count) _ _)
  unfold EStateM.bind memRead
  cases hread : P.adiv5MemRead ap address count s.env with
  | mk data rest =>
    obtain ⟨fault, env⟩ := rest
    have hfirst := store_first hne P.src data
    cases fault with
    | none =>
      intro h
      exact Bool.noConfusion h.2.1
    | some fault =>
      have hL : store s.packet P.src data 0 = dollar ↔
          P.src = 0 ∧ (some fault).isSome = true ∧ data.head? = some dollar := by
        rw [hfirst]
        exact and_congr_right fun _ => (and_iff_right rfl).symm
      cases fault with
      | true => exact (Answers.respondClear P _ _).leaves hL
      | false => exact (Answers.respondSrc P _ _).leaves hL

theorem hlMemWriteSized_leaves (P : Port σ) (ap : Ap) (pos : Nat) (hne : s.packet 0 ≠ dollar) :
    Leaves (P.src = 0 ∧ WritesDollar P ap pos s.packet s.env) (hlMemWriteSized P ap pos) s := by
  unfold hlMemWriteSized WritesDollar
  apply number_leaves
  intro trace
  apply number_leaves
  intro trace'
  apply number_leaves
  intro trace''
  dsimp only
  generalize (remotehston 8 s.packet (pos + 10)).toUInt32 = len
  generalize (remotehston 2 s.packet pos).toUInt8 = align
  generalize (remotehston 8 s.packet (pos + 2)).toUInt32 = dest
  split
  case isTrue hmask =>
    apply (Answers.respond _ _).leaves
    exact iff_of_false hne fun h => hmask h.2.1
  case isFalse hmask =>
    have hwritten := unhexify_eq_dollar hne P.src (Nat.succ_pos (pos + 17)) len.toNat
    apply modify_leaves
    apply srcBytes_leaves
    intro trace
    apply call_leaves
    · intro fault env hcall
      have hsome : (P.adiv5MemWriteSized ap dest _ align s.env).1.isSome = true :=
        congrArg (·.1.isSome) hcall
      have hanswered : unhexify s.packet P.src (pos + 18) len.toNat 0 = dollar ↔ _ :=
        hwritten.trans (and_congr_right' (Iff.trans (and_congr_right'
          (and_iff_left hsome).symm) (and_iff_right (not_not.mp hmask)).symm))
      cases fault with
      | true => exact (Answers.respondClear P _ _).leaves hanswered
      | false => exact (Answers.respond _ _).leaves hanswered
    · intro hraised h
      exact hraised h.2.2.2.2

theorem Leaves.congr {L' : Prop} (h : Leaves L m s) (hL : L ↔ L') : Leaves L' m s := by
  rw [← propext hL]
  exact h

/-- The high level packets. Those that access memory leave what the data begins with. -/
theorem remotePacketProcessHL_leaves (P : Port σ) (hne : s.packet 0 ≠ dollar)
    (hpacket : s.packet 0 = 0x48) :
    Leaves (LeavesDollar P s.packet s.env) (remotePacketProcessHL P) s := by
  have hL : LeavesDollar P s.packet s.env ↔ P.src = 0 ∧
      (s.packet 1 = 0x4D ∧ ReadsDollar P (packetApCsw s.packet) 14 s.packet s.env ∨
        s.packet 1 = 0x68 ∧ ReadsDollar P (packetAp s.packet) 6 s.packet s.env ∨
        s.packet 1 = 0x6D ∧ WritesDollar P (packetApCsw s.packet) 14 s.packet s.env ∨
        s.packet 1 = 0x48 ∧ WritesDollar P (packetAp s.packet) 6 s.packet s.env) :=
    and_congr_right' (and_iff_right hpacket)
  refine Leaves.congr ?_ hL.symm
  apply packetAt_leaves
  intro trace
  split
  case isTrue hcheck =>
    exact (Answers.respond _ _).leaves (by simp [hcheck, hne])
  case isFalse =>
    apply number_leaves
    intro trace'
    apply number_leaves
    intro trace
    split
    case h_1 h =>
      exact (KeepsPacket.bind (.number 4 6) fun _ => .callWord _).leaves hne (by simp [h])
    case h_2 h =>
      exact (KeepsPacket.bind (.number 4 6) fun _ => .bind (.number 8 10) fun _ =>
        .callWord _).leaves hne (by simp [h])
    case h_3 h =>
      exact (KeepsPacket.bind (.number 4 6) fun _ => .callWord _).leaves hne (by simp [h])
    case h_4 h =>
      exact (KeepsPacket.bind (.number 4 6) fun _ => .bind (.number 8 10) fun _ =>
        .callRespond _ (fun _ => respOk) fun _ => 0).leaves hne (by simp [h])
    case h_5 h =>
      apply number_leaves
      intro trace'
      have hread := hlMemRead_leaves P (packetApCsw s.packet) 14 (s := ⟨_, s.out, s.env, trace'⟩) hne
      exact hread.congr (by simp [h])
    case h_6 h =>
      have hread := hlMemRead_leaves P (packetAp s.packet) 6 (s := ⟨_, s.out, s.env, trace⟩) hne
      exact hread.congr (by simp [h])
    case h_7 h =>
      apply number_leaves
      intro trace'
      have hwrite :=
        hlMemWriteSized_leaves P (packetApCsw s.packet) 14 (s := ⟨_, s.out, s.env, trace'⟩) hne
      exact hwrite.congr (by simp [h])
    case h_8 h =>
      have hwrite := hlMemWriteSized_leaves P (packetAp s.packet) 6 (s := ⟨_, s.out, s.env, trace⟩) hne
      exact hwrite.congr (by simp [h])
    case h_9 hM hh hm hH =>
      exact (KeepsPacket.respond _ _).leaves hne (by simp_all)

theorem remotePacketProcess_leaves (P : Port σ) (i : Nat) (hne : s.packet 0 ≠ dollar) :
    Leaves (LeavesDollar P s.packet s.env) (remotePacketProcess P i) s := by
  have hother : s.packet 0 ≠ 0x48 → ¬ LeavesDollar P s.packet s.env := fun h hL => h hL.2.1
  apply packetAt_leaves
  intro trace
  split
  case h_1 h => exact (remotePacketProcessSWD_keepsPacket P i).leaves hne (hother (by simp [h]))
  case h_2 h => exact (remotePacketProcessJTAG_keepsPacket P i).leaves hne (hother (by simp [h]))
  case h_3 h => exact (remotePacketProcessGEN_keepsPacket P).leaves hne (hother (by simp [h]))
  case h_4 h => exact remotePacketProcessHL_leaves P hne h
  case h_5 h => exact (KeepsPacket.respond _ _).leaves hne (hother h)

end MiyakoLink.Remote
