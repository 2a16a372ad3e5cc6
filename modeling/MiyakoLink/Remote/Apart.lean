import MiyakoLink.Packet.Capture
import MiyakoLink.Remote.Buffer

/-!
# Remote packets and GDB packets in one stream

`Scan` says how a stream is read when remote packets and GDB packets are kept apart: a remote
packet begins with `!`, is complete at `#` and then over; `$` begins a GDB packet. A run of the
receiver with the handlers of `remote.c` reads its stream so exactly if no remote packet leaves
`$` in the first byte of the buffer, which the receiver takes for the start of a packet.
-/

namespace MiyakoLink.Remote

open Lib
open Packet

/-- What is being read: nothing yet, a remote packet, or a GDB packet. -/
inductive Reading where
  | hunting
  | remote (body : List UInt8)
  | gdb (stored : List UInt8) (csum : UInt8)

/-- One character of the stream, with the remote packet that it completes. -/
inductive Scan (size : Nat) : Reading → UInt8 → Option (List UInt8) → Reading → Prop where
  | noise {c : UInt8} (hdollar : c ≠ dollar) (hsom : c ≠ remoteSom) :
      Scan size .hunting c none .hunting
  | gdbStart : Scan size .hunting dollar none (.gdb [] 0)
  | remoteStart : Scan size .hunting remoteSom none (.remote [])
  | remoteRestart (body : List UInt8) : Scan size (.remote body) remoteSom none (.remote [])
  | remoteComplete (body : List UInt8) : Scan size (.remote body) hash (some body) .hunting
  | remoteAborted (body : List UInt8) : Scan size (.remote body) dollar none (.gdb [] 0)
  | remoteChar {body : List UInt8} {c : UInt8} (hroom : body.length < size)
      (hsom : c ≠ remoteSom) (hhash : c ≠ hash) (hdollar : c ≠ dollar) :
      Scan size (.remote body) c none (.remote (body ++ [c]))
  | remoteOverlong {body : List UInt8} {c : UInt8} (hfull : size ≤ body.length)
      (hsom : c ≠ remoteSom) (hhash : c ≠ hash) (hdollar : c ≠ dollar) :
      Scan size (.remote body) c none .hunting
  | gdbRestart (stored : List UInt8) (csum : UInt8) :
      Scan size (.gdb stored csum) dollar none (.gdb [] 0)
  | gdbStore {stored : List UInt8} {csum c d : UInt8} (csum' : UInt8)
      (hchar : d = c ∨ d = c ^^^ 0x20) :
      Scan size (.gdb stored csum) c none (.gdb (stored ++ [d]) csum')
  | gdbMark (stored : List UInt8) (csum c : UInt8) :
      Scan size (.gdb stored csum) c none (.gdb stored csum)
  | gdbRejected (stored : List UInt8) (csum c : UInt8) :
      Scan size (.gdb stored csum) c none .hunting

/-- What the receiver is reading. -/
def reading {σ : Type} (r : Receiver σ) : Reading :=
  match r.wait with
  | .start => .hunting
  | .remote i => .remote (bytes r.packet i)
  | .body i csum | .escaped i csum | .csum0 i csum | .csum1 i csum _ =>
    .gdb (bytes r.packet i) csum

/-- What a step does besides reading. A complete remote packet is handed to
`remotePacketProcess` once, which sends what it answers; otherwise nothing happens, but for the
`+` or `-` at the end of a GDB packet. -/
def Effect {σ : Type} (r r' : Receiver σ) : Option (List UInt8) → Prop
  | some body => ∃ answer : List UInt8,
      r'.trace = r.trace ++ .remoteCall body :: answer.map .putchar
  | none => r'.env = r.env ∧ (r'.trace = r.trace ∨
      ∃ stored csum ack, reading r = .gdb stored csum ∧ r'.trace = r.trace ++ [.putchar ack])

/-- The step on `c` reads the character as the stream has it. The call ends at `0x04` or with a
GDB packet, or by an exception that a remote packet raises. -/
def Follows {σ : Type} (size : Nat) (remote : Packet.Remote σ) (r : Receiver σ)
    (c : UInt8) : Prop :=
  match getcharStep size remote r c with
  | .next r' => ∃ call, Scan size (reading r) c call (reading r') ∧ Effect r r' call
  | .raised r' => ∃ body, Scan size (reading r) c (some body) .hunting ∧ Effect r r' (some body)
  | .ret _ r' => Effect r r' none ∧
      (reading r = .hunting ∧ c = 0x04 ∨ ∃ stored csum, reading r = .gdb stored csum)

/-- Remote packets and GDB packets are kept apart in the whole run on the stream `s`. -/
def KeptApart {σ : Type} (size : Nat) (remote : Packet.Remote σ) (r : Receiver σ)
    (s : List UInt8) : Prop :=
  ∀ p c t r', s = p ++ c :: t → feed size remote r p = some r' → Follows size remote r' c

/-- The handlers, as the receiver calls them. -/
def Port.remote {σ : Type} (P : Port σ) : Packet.Remote σ := fun i packet env =>
  match remotePacketProcess P i ⟨packet, [], env, []⟩ with
  | .ok _ s => ⟨false, s.packet, s.out, s.env⟩
  | .error _ s => ⟨true, s.packet, s.out, s.env⟩

section
variable {σ : Type} {size : Nat} {remote : Packet.Remote σ} {r r' : Receiver σ} {c : UInt8}
  {i : Nat}

/-- While a remote packet is read, no `$` is in the first byte. -/
def NoDollar (r : Receiver σ) : Prop := ∀ i, r.wait = .remote i → r.packet 0 ≠ dollar

theorem NoDollar.feed {p : List UInt8} (h : NoDollar r) (hfeed : feed size remote r p = some r') :
    NoDollar r' :=
  feed_keeps (fun _ _ _ hr hstep _ hwait => next_remote hstep hwait hr) h hfeed

/-- The answer to a complete remote packet leaves `$` in the first byte. -/
def Relapses (remote : Packet.Remote σ) (r : Receiver σ) (i : Nat) : Prop :=
  ¬ (r.remoteResult remote i).raised ∧ (r.remoteResult remote i).packet 0 = dollar

theorem reading_hunted (hne : r.packet 0 ≠ dollar) : reading r.hunted = .hunting := by
  rw [Receiver.hunted, if_neg hne]
  rfl

theorem reading_captured (h : r.packet 0 = dollar) : reading r.hunted = .gdb [] 0 := by
  rw [Receiver.hunted, if_pos h]
  rfl

/-- Reading for the start of a packet. -/
theorem follows_start (hwait : r.wait = .start) : Follows size remote r c := by
  have hreading : reading r = .hunting := by
    rw [reading, hwait]
  unfold Follows getcharStep
  simp only [hwait]
  rw [hreading]
  by_cases hend : c = 0x04
  · rw [if_pos hend]
    exact ⟨⟨rfl, .inl rfl⟩, .inl ⟨rfl, hend⟩⟩
  rw [if_neg hend]
  by_cases hsom : c = remoteSom
  · rw [if_pos hsom, hsom]
    exact ⟨none, .remoteStart, rfl, .inl rfl⟩
  rw [if_neg hsom]
  refine ⟨none, ?_, rfl, .inl rfl⟩
  by_cases hdollar : c = dollar
  · rw [reading_captured (by simp [hdollar]), hdollar]
    exact .gdbStart
  · rw [reading_hunted (by simp [hdollar])]
    exact .noise hdollar hsom

/-- The answer to a complete remote packet. -/
theorem follows_complete (hwait : r.wait = .remote i) :
    Follows size remote r hash ↔ ¬ Relapses remote r i := by
  have hreading : reading r = .remote (bytes r.packet i) := by
    rw [reading, hwait]
  have hstep : getcharStep size remote r hash = r.callRemote remote i := by
    have hne : hash ≠ remoteSom := by decide
    simp only [getcharStep, hwait, if_neg hne, if_true]
  have heffect : Effect r (r.afterRemote remote i) (some (bytes r.packet i)) := by
    refine ⟨(r.remoteResult remote i).out, ?_⟩
    rw [Receiver.afterRemote, bytes_update]
  unfold Follows Relapses
  rw [hstep, hreading, Receiver.callRemote]
  by_cases hraised : (r.remoteResult remote i).raised
  · rw [if_pos hraised]
    exact iff_of_true ⟨_, .remoteComplete _, heffect⟩ fun h => h.1 hraised
  rw [if_neg hraised]
  by_cases hdollar : (r.remoteResult remote i).packet 0 = dollar
  · refine iff_of_false ?_ (not_not.mpr ⟨hraised, hdollar⟩)
    rintro ⟨call, hscan, -⟩
    rw [reading_captured hdollar] at hscan
    cases hscan
  · refine iff_of_true ⟨some (bytes r.packet i), ?_, heffect⟩ fun h => hdollar h.2
    rw [reading_hunted hdollar]
    exact .remoteComplete _

/-- The other characters of a remote packet. -/
theorem follows_remote (hwait : r.wait = .remote i) (hne : r.packet 0 ≠ dollar)
    (hhash : c ≠ hash) : Follows size remote r c := by
  have hreading : reading r = .remote (bytes r.packet i) := by
    rw [reading, hwait]
  unfold Follows getcharStep
  simp only [hwait]
  rw [hreading]
  by_cases hsom : c = remoteSom
  · rw [if_pos hsom, hsom]
    exact ⟨none, .remoteRestart _, rfl, .inl rfl⟩
  rw [if_neg hsom, if_neg hhash]
  by_cases hdollar : c = dollar
  · rw [if_pos hdollar, hdollar]
    exact ⟨none, .remoteAborted _, rfl, .inl rfl⟩
  rw [if_neg hdollar]
  by_cases hroom : i < size
  · rw [if_pos hroom]
    refine ⟨none, ?_, rfl, .inl rfl⟩
    show Scan size _ c none (.remote (bytes (Function.update r.packet i c) (i + 1)))
    rw [bytes_update_succ]
    exact .remoteChar (by rw [bytes_length]; exact hroom) hsom hhash hdollar
  · rw [if_neg hroom]
    refine ⟨none, ?_, rfl, .inl rfl⟩
    rw [reading_hunted hne]
    exact .remoteOverlong (by rw [bytes_length]; omega) hsom hhash hdollar

/-- Within a GDB packet. -/
theorem follows_gdb (hstart : r.wait ≠ .start) (hremote : ∀ i, r.wait ≠ .remote i) :
    Follows size remote r c := by
  unfold Follows getcharStep
  cases hwait : r.wait with
  | start => exact absurd hwait hstart
  | remote i => exact absurd hwait (hremote i)
  | body i csum =>
    have hreading : reading r = .gdb (bytes r.packet i) csum := by
      rw [reading, hwait]
    dsimp only
    rw [hreading]
    by_cases hend : c = hash ∨ i = size
    · rw [← ite_or, if_pos hend]
      exact ⟨none, .gdbMark _ _ _, rfl, .inl rfl⟩
    rw [← ite_or, if_neg hend]
    by_cases hdollar : c = dollar
    · rw [if_pos hdollar, hdollar]
      exact ⟨none, .gdbRestart _ _, rfl, .inl rfl⟩
    rw [if_neg hdollar]
    by_cases hesc : c = rbrace
    · rw [if_pos hesc]
      exact ⟨none, .gdbMark _ _ _, rfl, .inl rfl⟩
    rw [if_neg hesc]
    refine ⟨none, ?_, rfl, .inl rfl⟩
    show Scan size _ c none (.gdb (bytes (Function.update r.packet i c) (i + 1)) (csum + c))
    rw [bytes_update_succ]
    exact .gdbStore _ (.inl rfl)
  | escaped i csum =>
    have hreading : reading r = .gdb (bytes r.packet i) csum := by
      rw [reading, hwait]
    dsimp only
    rw [hreading]
    refine ⟨none, ?_, rfl, .inl rfl⟩
    show Scan size _ c none
      (.gdb (bytes (Function.update r.packet i (c ^^^ 0x20)) (i + 1)) (csum + (c + rbrace)))
    rw [bytes_update_succ]
    exact .gdbStore _ (.inr rfl)
  | csum0 i csum =>
    have hreading : reading r = .gdb (bytes r.packet i) csum := by
      rw [reading, hwait]
    dsimp only
    rw [hreading]
    exact ⟨none, .gdbMark _ _ _, rfl, .inl rfl⟩
  | csum1 i csum recvCsum0 =>
    have hreading : reading r = .gdb (bytes r.packet i) csum := by
      rw [reading, hwait]
    dsimp only
    rw [hreading]
    by_cases hvalue : (csum.toNat : Int) = strtol16 [recvCsum0, c]
    · rw [if_pos hvalue]
      exact ⟨⟨rfl, .inr ⟨_, _, plus, hreading, rfl⟩⟩, .inr ⟨_, _, rfl⟩⟩
    · rw [if_neg hvalue]
      exact ⟨none, .gdbRejected _ _ _, rfl, .inr ⟨_, _, minus, hreading, rfl⟩⟩

/-- A step reads on as the stream has it, except at the end of a remote packet whose answer
leaves `$` in the first byte. -/
theorem follows_iff (hinv : NoDollar r) : Follows size remote r c ↔
    ¬ ∃ i, r.wait = .remote i ∧ c = hash ∧ Relapses remote r i := by
  cases hwait : r.wait with
  | start => simpa using follows_start hwait
  | remote i =>
    by_cases hhash : c = hash
    · subst hhash
      simpa using follows_complete hwait
    · simpa [hhash] using follows_remote hwait (hinv i hwait) hhash
  | body i csum => simpa using follows_gdb (by simp [hwait]) (by simp [hwait])
  | escaped i csum => simpa using follows_gdb (by simp [hwait]) (by simp [hwait])
  | csum0 i csum => simpa using follows_gdb (by simp [hwait]) (by simp [hwait])
  | csum1 i csum recvCsum0 => simpa using follows_gdb (by simp [hwait]) (by simp [hwait])

/-- The remote packets that are complete after the stream. -/
inductive Scanned (size : Nat) : Reading → List UInt8 → List (List UInt8) → Reading → Prop where
  | nil (m : Reading) : Scanned size m [] [] m
  | cons {m m₁ m₂ : Reading} {c : UInt8} {s : List UInt8} {call : Option (List UInt8)}
      {calls : List (List UInt8)} (hscan : Scan size m c call m₁)
      (hscanned : Scanned size m₁ s calls m₂) : Scanned size m (c :: s) (call.toList ++ calls) m₂

/-- The bodies handed to `remotePacketProcess`. -/
def remoteCalls : List Event → List (List UInt8)
  | [] => []
  | .remoteCall body :: trace => body :: remoteCalls trace
  | .putchar _ :: trace => remoteCalls trace

theorem remoteCalls_append (t u : List Event) :
    remoteCalls (t ++ u) = remoteCalls t ++ remoteCalls u := by
  induction t with
  | nil => rfl
  | cons e t ih =>
    cases e with
    | putchar c => exact ih
    | remoteCall body => exact congrArg (body :: ·) ih

theorem remoteCalls_putchars (cs : List UInt8) : remoteCalls (cs.map .putchar) = [] := by
  induction cs with
  | nil => rfl
  | cons c cs ih => exact ih

theorem Effect.remoteCalls {call : Option (List UInt8)} (h : Effect r r' call) :
    remoteCalls r'.trace = remoteCalls r.trace ++ call.toList := by
  cases call with
  | none =>
    obtain ⟨-, htrace | ⟨_, _, ack, -, htrace⟩⟩ := h
    · rw [htrace, Option.toList_none, List.append_nil]
    · rw [htrace, remoteCalls_append]
      rfl
  | some body =>
    obtain ⟨answer, htrace⟩ := h
    rw [htrace, remoteCalls_append, Remote.remoteCalls, remoteCalls_putchars]
    rfl

/-- In a run that keeps them apart, exactly the complete remote packets of the stream have
been handed over, each once and in their order. -/
theorem KeptApart.scanned {s : List UInt8} (h : KeptApart size remote r s)
    (hfeed : feed size remote r s = some r') :
    ∃ calls, Scanned size (reading r) s calls (reading r') ∧
      remoteCalls r'.trace = remoteCalls r.trace ++ calls := by
  induction s generalizing r with
  | nil =>
    cases hfeed
    exact ⟨[], .nil _, (List.append_nil _).symm⟩
  | cons c s ih =>
    have hfollows : Follows size remote r c := h [] c s r rfl rfl
    rw [Packet.feed] at hfeed
    unfold Follows at hfollows
    cases hstep : getcharStep size remote r c with
    | next r₁ =>
      rw [hstep] at hfeed hfollows
      obtain ⟨call, hscan, heffect⟩ := hfollows
      have hrest : KeptApart size remote r₁ s := by
        intro p d t r₂ hs hp
        refine h (c :: p) d t r₂ (by rw [hs]; rfl) ?_
        rw [Packet.feed, hstep]
        exact hp
      obtain ⟨calls, hscanned, hcalls⟩ := ih hrest hfeed
      refine ⟨call.toList ++ calls, .cons hscan hscanned, ?_⟩
      rw [hcalls, heffect.remoteCalls, List.append_assoc]
    | ret n r₁ =>
      rw [hstep] at hfeed
      contradiction
    | raised r₁ =>
      rw [hstep] at hfeed
      contradiction

/-- The packets whose answer leaves `$` in the first byte, for the handlers of `remote.c`. -/
theorem relapses_iff (P : Port σ) (hwait : r.wait = .remote i) (hinv : NoDollar r) :
    Relapses P.remote r i ↔ LeavesDollar P (Function.update r.packet i 0) r.env := by
  have hne : Function.update r.packet i 0 0 ≠ dollar := by
    cases i with
    | zero =>
      rw [Function.update_self]
      decide
    | succ i =>
      rw [Function.update_of_ne (Nat.succ_ne_zero i).symm]
      exact hinv _ hwait
  have hleaves := remotePacketProcess_leaves P i
    (s := ⟨Function.update r.packet i 0, [], r.env, []⟩) hne
  unfold Leaves at hleaves
  unfold Relapses Receiver.remoteResult Port.remote
  cases hrun : remotePacketProcess P i ⟨Function.update r.packet i 0, [], r.env, []⟩ with
  | ok _ s' =>
    rw [hrun] at hleaves
    exact (and_iff_right Bool.noConfusion).trans hleaves
  | error _ s' =>
    rw [hrun] at hleaves
    exact iff_of_false (fun h => h.1 rfl) hleaves

end

variable {σ : Type}

/-- A port whose memory holds `$` everywhere, with the buffer at an address divisible by
eight. -/
def dollarPort : Port Unit where
  packetAddr := 0x20001000
  ident := []
  swdptapInit := fun _ => (some (), ())
  seqInParity := fun _ _ => (some (false, 0), ())
  seqIn := fun _ _ => (some 0, ())
  seqOut := fun _ _ _ => (some (), ())
  seqOutParity := fun _ _ _ => (some (), ())
  jtagtapInit := fun _ => (some (), ())
  jtagtapReset := fun _ => (some (), ())
  jtagtapTmsSeq := fun _ _ _ => (some (), ())
  jtagtapTdiTdoSeq := fun _ _ _ _ => (some 0, ())
  jtagtapNext := fun _ _ _ => (some 0, ())
  jtagAddDevice := fun _ _ _ => (some (), ())
  platformTargetVoltage := fun _ => (some [], ())
  adiv5DpRead := fun _ _ _ => (some 0, ())
  lowAccess := fun _ _ _ _ => (some 0, ())
  adiv5ApRead := fun _ _ _ => (some 0, ())
  adiv5ApWrite := fun _ _ _ _ => (some (), ())
  adiv5MemRead := fun _ _ count _ => (List.replicate count.toNat dollar, some false, ())
  adiv5MemWriteSized := fun _ _ _ _ _ => (some false, ())
  clearFault := id

/-- `!Hh00000000000000000001#`: read one byte of memory. -/
def readByte : List UInt8 := remoteSom :: 0x48 :: 0x68 :: List.replicate 19 0x30 ++ [0x31]

end MiyakoLink.Remote
