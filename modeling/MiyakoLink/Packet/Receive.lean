import Mathlib.Logic.Function.Basic
import Mathlib.Tactic.Common
import MiyakoLink.Lib.CString

/-!
# `gdb_getpacket`

The receiver is written as a machine that is given one character at a time: `Wait` has one
constructor for each call of `gdb_if_getchar` in the source, with the locals that are alive
there, and `getcharStep` is what the code does from that call to the next one. The buffer is
a function, so that what the remote handlers write to it behind its end stays visible.

`remotePacketProcess` is a parameter here: `Remote` says what one call of it leaves behind.

* `gdbGetpacket_feed`: characters after which the receiver still waits can be taken off the
  front of a stream.
* `unescape`: the contents of a packet body, and the facts about it that the receiver's
  invariant is built from.
-/

namespace MiyakoLink.Packet

open Lib

/-- `'$'`, the start of a packet. -/
abbrev dollar : UInt8 := 0x24

/-- `'#'`, the end of a packet body. It is `REMOTE_EOM` as well. -/
abbrev hash : UInt8 := 0x23

/-- `'}'`, which escapes the character behind it. -/
abbrev rbrace : UInt8 := 0x7D

/-- `REMOTE_SOM`, which is `'!'`. -/
abbrev remoteSom : UInt8 := 0x21

abbrev plus : UInt8 := 0x2B

abbrev minus : UInt8 := 0x2D

/-- The contents of the packet buffer. -/
abbrev Buffer := Nat → UInt8

/-- What a call of `remotePacketProcess` leaves behind: whether it was left by an exception,
the buffer, the characters sent, and the environment. -/
structure RemoteResult (σ : Type) where
  raised : Bool
  packet : Buffer
  out : List UInt8
  env : σ

/-- `remotePacketProcess(i, packet)`. -/
abbrev Remote (σ : Type) := Nat → Buffer → σ → RemoteResult σ

/-- The call of `gdb_if_getchar` that the receiver is in, with the locals alive there. -/
inductive Wait where
  | start
  | remote (i : Nat)
  | body (i : Nat) (csum : UInt8)
  | escaped (i : Nat) (csum : UInt8)
  | csum0 (i : Nat) (csum : UInt8)
  | csum1 (i : Nat) (csum : UInt8) (recvCsum0 : UInt8)
  deriving DecidableEq, Repr

/-- What the receiver does apart from reading: sending a character, and handing the first
`i` characters of the buffer to `remotePacketProcess`. -/
inductive Event where
  | putchar (c : UInt8)
  | remoteCall (body : List UInt8)
  deriving DecidableEq, Repr

structure Receiver (σ : Type) where
  wait : Wait
  packet : Buffer
  env : σ
  trace : List Event

/-- The state at the next `gdb_if_getchar`, or the end of the call. -/
inductive Step (σ : Type) where
  | next (r : Receiver σ)
  | ret (n : Nat) (r : Receiver σ)
  | raised (r : Receiver σ)

/-- The first `n` characters of the buffer. -/
def bytes (packet : Buffer) (n : Nat) : List UInt8 := (List.range n).map packet

variable {σ : Type}

/-- The end of the outer hunting loop, `while (packet[0] != '$')`. -/
def Receiver.hunted (r : Receiver σ) : Receiver σ :=
  { r with wait := if r.packet 0 = dollar then .body 0 0 else .start }

/-- The call in `packet[i]=0; remotePacketProcess(i,packet)`. -/
def Receiver.remoteResult (r : Receiver σ) (remote : Remote σ) (i : Nat) : RemoteResult σ :=
  remote i (Function.update r.packet i 0) r.env

/-- The receiver when the call is over. -/
def Receiver.afterRemote (r : Receiver σ) (remote : Remote σ) (i : Nat) : Receiver σ :=
  let res := r.remoteResult remote i
  { r with
    packet := res.packet
    env := res.env
    trace := r.trace ++ .remoteCall (bytes (Function.update r.packet i 0) i) ::
      res.out.map .putchar }

def Receiver.callRemote (r : Receiver σ) (remote : Remote σ) (i : Nat) : Step σ :=
  if (r.remoteResult remote i).raised then .raised (r.afterRemote remote i)
  else .next (r.afterRemote remote i).hunted

/-- The code from one call of `gdb_if_getchar` to the next one, given the character `c`. -/
def getcharStep (size : Nat) (remote : Remote σ) (r : Receiver σ) (c : UInt8) : Step σ :=
  match r.wait with
  | .start =>
    let r := { r with packet := Function.update r.packet 0 c }
    if c = 0x04 then .ret 1 r
    else if c = remoteSom then .next { r with wait := .remote 0 }
    else .next r.hunted
  | .remote i =>
    if c = remoteSom then
      .next { r with wait := .remote 0 }
    else if c = hash then
      r.callRemote remote i
    else if c = dollar then
      .next { r with packet := Function.update r.packet 0 dollar, wait := .body 0 0 }
    else if i < size then
      .next { r with packet := Function.update r.packet i c, wait := .remote (i + 1) }
    else
      .next r.hunted
  | .body i csum =>
    if c = hash then
      .next { r with wait := .csum0 i csum }
    else if i = size then
      -- The character is dropped, and the next two are taken for the checksum.
      .next { r with wait := .csum0 i csum }
    else if c = dollar then
      .next { r with wait := .body 0 0 }
    else if c = rbrace then
      .next { r with wait := .escaped i csum }
    else
      .next { r with packet := Function.update r.packet i c, wait := .body (i + 1) (csum + c) }
  | .escaped i csum =>
    .next { r with
      packet := Function.update r.packet i (c ^^^ 0x20)
      wait := .body (i + 1) (csum + (c + rbrace)) }
  | .csum0 i csum => .next { r with wait := .csum1 i csum c }
  | .csum1 i csum recvCsum0 =>
    if (csum.toNat : Int) = strtol16 [recvCsum0, c] then
      .ret i { r with
        packet := Function.update r.packet i 0
        trace := r.trace ++ [.putchar plus] }
    else
      .next { r with wait := .start, trace := r.trace ++ [.putchar minus] }

section
variable (size : Nat) (remote : Remote σ) {r : Receiver σ} {c : UInt8} {i : Nat} {csum : UInt8}

/-! The turns of the capture loop. -/

theorem getcharStep_hash (h : r.wait = .body i csum) :
    getcharStep size remote r hash = .next { r with wait := .csum0 i csum } := by
  simp only [getcharStep, h, if_true]

theorem getcharStep_dollar (h : r.wait = .body i csum) (hroom : i ≠ size) :
    getcharStep size remote r dollar = .next { r with wait := .body 0 0 } := by
  have hne : dollar ≠ hash := by decide
  simp only [getcharStep, h, if_neg hne, if_neg hroom, if_true]

theorem getcharStep_rbrace (h : r.wait = .body i csum) (hroom : i ≠ size) :
    getcharStep size remote r rbrace = .next { r with wait := .escaped i csum } := by
  have hhash : rbrace ≠ hash := by decide
  have hdollar : rbrace ≠ dollar := by decide
  simp only [getcharStep, h, if_neg hhash, if_neg hdollar, if_neg hroom, if_true]

theorem getcharStep_store (h : r.wait = .body i csum) (hroom : i ≠ size) (hhash : c ≠ hash)
    (hdollar : c ≠ dollar) (hesc : c ≠ rbrace) :
    getcharStep size remote r c = .next { r with
      packet := Function.update r.packet i c, wait := .body (i + 1) (csum + c) } := by
  simp only [getcharStep, h, if_neg hhash, if_neg hroom, if_neg hdollar, if_neg hesc]

theorem getcharStep_escaped (h : r.wait = .escaped i csum) :
    getcharStep size remote r c = .next { r with
      packet := Function.update r.packet i (c ^^^ 0x20)
      wait := .body (i + 1) (csum + (c + rbrace)) } := by
  simp only [getcharStep, h]

end

/-- How a call on a stream of characters ends: with a packet, by an exception, or still
waiting when the stream is used up; with the rest of the stream. -/
inductive Received (σ : Type) where
  | returned (n : Nat) (r : Receiver σ) (rest : List UInt8)
  | raised (r : Receiver σ) (rest : List UInt8)
  | waiting (r : Receiver σ)

def gdbGetpacket (size : Nat) (remote : Remote σ) : Receiver σ → List UInt8 → Received σ
  | r, [] => .waiting r
  | r, c :: cs =>
    match getcharStep size remote r c with
    | .next r' => gdbGetpacket size remote r' cs
    | .ret n r' => .returned n r' cs
    | .raised r' => .raised r' cs

/-- The receiver after characters that do not end the call. -/
def feed (size : Nat) (remote : Remote σ) (r : Receiver σ) : List UInt8 → Option (Receiver σ)
  | [] => some r
  | c :: cs =>
    match getcharStep size remote r c with
    | .next r' => feed size remote r' cs
    | _ => none

variable {size : Nat} {remote : Remote σ} {r r' : Receiver σ}

theorem feed_append {s t : List UInt8} (h : feed size remote r s = some r') :
    feed size remote r (s ++ t) = feed size remote r' t := by
  induction s generalizing r with
  | nil =>
    cases h
    rfl
  | cons c s ih =>
    rw [List.cons_append, feed]
    rw [feed] at h
    cases hstep : getcharStep size remote r c with
    | next r₁ =>
      rw [hstep] at h
      exact ih h
    | ret n r₁ =>
      rw [hstep] at h
      contradiction
    | raised r₁ =>
      rw [hstep] at h
      contradiction

/-- What one turn keeps, characters that do not end the call keep. -/
theorem feed_keeps {I : Receiver σ → Prop}
    (hkeeps : ∀ r c r', I r → getcharStep size remote r c = .next r' → I r') {s : List UInt8}
    (hr : I r) (h : feed size remote r s = some r') : I r' := by
  induction s generalizing r with
  | nil =>
    cases h
    exact hr
  | cons c s ih =>
    rw [feed] at h
    cases hstep : getcharStep size remote r c with
    | next r₁ =>
      rw [hstep] at h
      exact ih (hkeeps r c r₁ hr hstep) h
    | ret n r₁ =>
      rw [hstep] at h
      contradiction
    | raised r₁ =>
      rw [hstep] at h
      contradiction

theorem gdbGetpacket_feed {s t : List UInt8} (h : feed size remote r s = some r') :
    gdbGetpacket size remote r (s ++ t) = gdbGetpacket size remote r' t := by
  induction s generalizing r with
  | nil =>
    cases h
    rfl
  | cons c s ih =>
    rw [List.cons_append, gdbGetpacket]
    rw [feed] at h
    cases hstep : getcharStep size remote r c with
    | next r₁ =>
      rw [hstep] at h
      exact ih h
    | ret n r₁ =>
      rw [hstep] at h
      contradiction
    | raised r₁ =>
      rw [hstep] at h
      contradiction

/-- A call that returns was still waiting before the last character it read. -/
theorem gdbGetpacket_returned {n : Nat} {s rest : List UInt8}
    (h : gdbGetpacket size remote r s = .returned n r' rest) :
    ∃ q c r₀, s = q ++ c :: rest ∧ feed size remote r q = some r₀ ∧
      getcharStep size remote r₀ c = .ret n r' := by
  induction s generalizing r with
  | nil => contradiction
  | cons c s ih =>
    rw [gdbGetpacket] at h
    cases hstep : getcharStep size remote r c with
    | next r₁ =>
      rw [hstep] at h
      obtain ⟨q, d, r₀, rfl, hfeed, hret⟩ := ih h
      refine ⟨c :: q, d, r₀, rfl, ?_, hret⟩
      rw [feed, hstep]
      exact hfeed
    | ret m r₁ =>
      rw [hstep] at h
      cases h
      exact ⟨[], c, r, rfl, rfl, hstep⟩
    | raised r₁ =>
      rw [hstep] at h
      contradiction

/-! ## The contents of a packet body -/

/-- The contents of a packet body, when it has no bare `$` or `#` and does not end within
an escape. -/
def unescape : List UInt8 → Option (List UInt8)
  | [] => some []
  | c :: cs =>
    if c = rbrace then
      match cs with
      | [] => none
      | d :: ds => (unescape ds).map ((d ^^^ 0x20) :: ·)
    else if c = dollar ∨ c = hash then none
    else (unescape cs).map (c :: ·)

/-- The sum of the raw bytes, modulo 256. -/
def byteSum (s : List UInt8) : UInt8 := s.foldr (· + ·) 0

theorem byteSum_nil : byteSum [] = 0 := rfl

theorem byteSum_cons (c : UInt8) (s : List UInt8) : byteSum (c :: s) = c + byteSum s := rfl

theorem byteSum_append (s t : List UInt8) : byteSum (s ++ t) = byteSum s + byteSum t := by
  induction s with
  | nil => exact (UInt8.zero_add _).symm
  | cons c s ih =>
    rw [List.cons_append, byteSum_cons, byteSum_cons, ih, UInt8.add_assoc]

theorem byteSum_concat (s : List UInt8) (c : UInt8) : byteSum (s ++ [c]) = byteSum s + c := by
  rw [byteSum_append]
  congr 1
  exact UInt8.add_zero c

theorem unescape_rbrace (d : UInt8) (ds : List UInt8) :
    unescape (rbrace :: d :: ds) = (unescape ds).map ((d ^^^ 0x20) :: ·) := by
  rw [unescape.eq_def]
  simp

theorem unescape_cons {c : UInt8} (hesc : c ≠ rbrace) (hbare : ¬ (c = dollar ∨ c = hash))
    (cs : List UInt8) : unescape (c :: cs) = (unescape cs).map (c :: ·) := by
  rw [unescape.eq_def]
  simp [hesc, hbare]

theorem unescape_append {s u : List UInt8} (h : unescape s = some u) (t : List UInt8) :
    unescape (s ++ t) = (unescape t).map (u ++ ·) := by
  fun_induction unescape s generalizing u with
  | case1 =>
    cases h
    simp
  | case2 => contradiction
  | case3 d ds ih =>
    obtain ⟨v, hv, rfl⟩ := Option.map_eq_some_iff.mp h
    rw [List.cons_append, List.cons_append, unescape_rbrace, ih hv, Option.map_map]
    rfl
  | case4 => contradiction
  | case5 c cs hesc hbare ih =>
    obtain ⟨v, hv, rfl⟩ := Option.map_eq_some_iff.mp h
    rw [List.cons_append, unescape_cons hesc hbare, ih hv, Option.map_map]
    rfl

/-- A body goes on with a character that is not special. -/
theorem unescape_concat {s u : List UInt8} (h : unescape s = some u) {c : UInt8}
    (hhash : c ≠ hash) (hdollar : c ≠ dollar) (hesc : c ≠ rbrace) :
    unescape (s ++ [c]) = some (u ++ [c]) := by
  rw [unescape_append h, unescape_cons hesc (by simp [hhash, hdollar])]
  rfl

/-- A body goes on with an escaped character. -/
theorem unescape_concat_escaped {s u : List UInt8} (h : unescape s = some u) (c : UInt8) :
    unescape (s ++ [rbrace, c]) = some (u ++ [c ^^^ 0x20]) := by
  rw [unescape_append h, unescape_rbrace]
  rfl

theorem bytes_length (packet : Buffer) (n : Nat) : (bytes packet n).length = n := by
  rw [bytes, List.length_map, List.length_range]

/-- Storing a character behind the first `i` ones. -/
theorem bytes_update_succ (packet : Buffer) (i : Nat) (c : UInt8) :
    bytes (Function.update packet i c) (i + 1) = bytes packet i ++ [c] := by
  rw [bytes, List.range_succ, List.map_append, List.map_singleton, Function.update_self]
  congr 1
  apply List.map_congr_left
  intro k hk
  rw [Function.update_of_ne]
  have := List.mem_range.mp hk
  omega

theorem bytes_update (packet : Buffer) (i : Nat) (c : UInt8) :
    bytes (Function.update packet i c) i = bytes packet i := by
  apply List.map_congr_left
  intro k hk
  rw [Function.update_of_ne]
  have := List.mem_range.mp hk
  omega

end MiyakoLink.Packet
