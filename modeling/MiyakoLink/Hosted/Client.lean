import Mathlib.Algebra.Group.Nat.Defs
import Mathlib.Data.List.GetD
import MiyakoLink.Remote.Apart
import MiyakoLink.Remote.HexCoding

/-!
# The hosted side of the remote protocol

`platforms/pc-hosted`: the functions of `swdptap.c`, and `jtagtap_init`, send a request to the probe
and read its answer. What is sent goes through the receive loop of the probe, which calls
`remotePacketProcess`; what the probe sends waits until it is read. A function that gives up leaves
the program, which is `none`. The other functions of `jtagtap.c` are left out: the probe answers them
through a `jtag_proc_t` that it never fills in.

* `readAnswer_answer`: an answer is found, and nothing behind it is taken.
* `padded_foldl`: a number with leading zeros is the number.
-/

namespace MiyakoLink.Hosted

open Lib
open Packet (Buffer Event Receiver feed remoteSom)
open Remote (Op Port digits remotehston respErr respOk)

/-! ## The line -/

/-- `REMOTE_RESP`. -/
abbrev remoteResp : UInt8 := 0x26

abbrev platformMaxMsgSize : Nat := 256

/-- `BUF_SIZE`, of the packet buffer in the probe. -/
abbrev bufSize : Nat := 1024

/-- The probe, and what it has sent that is not read yet. -/
structure Link (σ : Type) where
  probe : Receiver σ
  unread : List UInt8

abbrev Client (σ : Type) := StateT (Link σ) Option

/-- The characters among the events. -/
def sent (events : List Event) : List UInt8 :=
  events.filterMap fun
    | .putchar c => some c
    | .remoteCall _ => none

variable {σ α β : Type}

/-- `platform_buffer_write`. The probe takes the characters as they come. -/
def platformBufferWrite (P : Port σ) (data : List UInt8) : Client σ Unit := fun link =>
  (feed bufSize P.remote link.probe data).map fun probe =>
    ((), ⟨probe, link.unread ++ sent (probe.trace.drop link.probe.trace.length)⟩)

/-- The loops of `platform_buffer_read`: up to the start of an answer, and then to its end. -/
def readAnswer (maxsize : Nat) (stream : List UInt8) : Option (List UInt8 × List UInt8) :=
  match stream.dropWhile (· ≠ remoteResp) with
  | [] => none
  | _ :: stream =>
    let data := stream.takeWhile (· ≠ Packet.hash)
    match stream.dropWhile (· ≠ Packet.hash) with
    | [] => none
    | _ :: rest => if data.length < maxsize then some (data, rest) else none

def platformBufferRead (maxsize : Nat) : Client σ (List UInt8) := fun link =>
  (readAnswer maxsize link.unread).map fun (data, unread) => (data, { link with unread := unread })

/-! ## Requests -/

/-- `%x` with a width, filled up with zeros. -/
def padded (width : Nat) (n : UInt64) : List UInt8 :=
  List.replicate (width - (digits n).length) 0x30 ++ digits n

/-- A text between `REMOTE_SOM` and `REMOTE_EOM`. -/
def request (text : List UInt8) : List UInt8 := remoteSom :: text ++ [Packet.hash]

/-- The answer in its buffer, with a NUL behind it. -/
def construct (answer : List UInt8) : Buffer := fun k => answer.getD k 0

/-- The request is sent, and an answer is read. One that is shorter than `least` or has
`REMOTE_RESP_ERR` at `checked` ends the program. -/
def ask (P : Port σ) (message : List UInt8) (least checked : Nat) : Client σ (List UInt8) := do
  platformBufferWrite P message
  let answer ← platformBufferRead platformMaxMsgSize
  if answer.length < least ∨ construct answer checked = respErr then failure else pure answer

/-- The number behind the code of an answer. -/
def answerNumber (answer : List UInt8) : UInt64 := remotehston 0xFFFFFFFF (construct answer) 1

/-! ## `swdptap.c` -/

def swdptapInit (P : Port σ) : Client σ Unit := do
  let _ ← ask P (request (ascii "SS")) 1 0

def swdptapSeqInParity (P : Port σ) (ticks : UInt32) : Client σ (Bool × UInt32) := do
  let answer ← ask P (request (ascii "SI" ++ padded 2 ticks.toUInt64)) 2 0
  return (construct answer 0 != respOk, (answerNumber answer).toUInt32)

def swdptapSeqIn (P : Port σ) (ticks : UInt32) : Client σ UInt32 := do
  let answer ← ask P (request (ascii "Si" ++ padded 2 ticks.toUInt64)) 2 0
  return (answerNumber answer).toUInt32

def swdptapSeqOut (P : Port σ) (MS ticks : UInt32) : Client σ Unit := do
  let _ ← ask P (request (ascii "So" ++ (padded 2 ticks.toUInt64 ++ digits MS.toUInt64))) 1 0

/-- The error is looked for one character behind the code. -/
def swdptapSeqOutParity (P : Port σ) (MS ticks : UInt32) : Client σ Unit := do
  let _ ← ask P (request (ascii "SO" ++ (padded 2 ticks.toUInt64 ++ digits MS.toUInt64))) 1 1

/-! ## `jtagtap.c` -/

def jtagtapInit (P : Port σ) : Client σ Unit := do
  let _ ← ask P (ascii "+#" ++ request (ascii "JS")) 1 0

/-! ## Numbers -/

open Remote (hstonStep respondDigits)

theorem digits_foldl (n : UInt64) : (digits n).foldl hstonStep 0 = n := by
  rw [Remote.digits_eq, Remote.foldl_hstonStep]

theorem isHex_of_mem_digits {n : UInt64} {c : UInt8} (h : c ∈ digits n) : isHex c = true := by
  rw [Remote.digits_eq, List.mem_reverse] at h
  exact Remote.isHex_digits h

theorem digits_ne_nil (n : UInt64) : digits n ≠ [] := by
  rw [Remote.digits_eq, respondDigits]
  exact List.reverse_ne_nil_iff.mpr (List.cons_ne_nil _ _)

theorem digits_length_le {n : UInt64} {k : Nat} (hk : 0 < k) (h : n.toNat < 16 ^ k) :
    (digits n).length ≤ k := by
  rw [digits, List.length_map]
  exact (Nat.length_toDigits_le_iff (by decide) hk).mpr h

theorem isHex_of_mem_padded {width : Nat} {n : UInt64} {c : UInt8} (h : c ∈ padded width n) :
    isHex c = true := by
  rcases List.mem_append.mp h with hzero | hdigit
  · rw [List.eq_of_mem_replicate hzero]
    rfl
  · exact isHex_of_mem_digits hdigit

theorem padded_foldl (width : Nat) (n : UInt64) : (padded width n).foldl hstonStep 0 = n := by
  have hzeros (k : Nat) : (List.replicate k 0x30).foldl hstonStep 0 = 0 := by
    induction k with
    | zero => rfl
    | succ k ih =>
      rw [List.replicate_succ, List.foldl_cons]
      exact ih
  rw [padded, List.foldl_append, hzeros, digits_foldl]

theorem padded_length {width : Nat} {n : UInt64} (hpos : 0 < width) (h : n.toNat < 16 ^ width) :
    (padded width n).length = width := by
  have hle := digits_length_le hpos h
  rw [padded, List.length_append, List.length_replicate]
  omega

/-! ## Answers -/

/-- A digit is not one of the characters that the protocol uses itself. -/
theorem isHex_plain {c : UInt8} (h : isHex c = true) :
    c ≠ Packet.hash ∧ c ≠ remoteSom ∧ c ≠ 0x24 := by
  refine ⟨?_, ?_, ?_⟩ <;>
  · rintro rfl
    exact absurd h (by decide)

/-- An answer of a code and a number is found and read to its end. -/
theorem readAnswer_answer {maxsize : Nat} {code : UInt8} {n : UInt64} (hcode : code ≠ Packet.hash)
    (hsize : 17 < maxsize) (rest : List UInt8) :
    readAnswer maxsize (remoteResp :: code :: digits n ++ Packet.hash :: rest) =
      some (code :: digits n, rest) := by
  have hplain : ∀ c ∈ code :: digits n, (decide (c ≠ Packet.hash)) = true := by
    intro c hc
    rcases List.mem_cons.mp hc with rfl | hdigit
    · exact decide_eq_true hcode
    · exact decide_eq_true (isHex_plain (isHex_of_mem_digits hdigit)).1
  have hlength : (code :: digits n).length ≤ 17 :=
    Nat.succ_le_succ (digits_length_le (by decide) n.toNat_lt)
  have hstart : (remoteResp :: code :: digits n ++ Packet.hash :: rest).dropWhile (· ≠ remoteResp) =
      remoteResp :: (code :: digits n ++ Packet.hash :: rest) := rfl
  have hdata : (code :: digits n ++ Packet.hash :: rest).takeWhile (· ≠ Packet.hash) =
      code :: digits n := by
    rw [List.takeWhile_append_of_pos hplain]
    exact List.append_nil _
  have hrest : (code :: digits n ++ Packet.hash :: rest).dropWhile (· ≠ Packet.hash) =
      Packet.hash :: rest := by
    rw [List.dropWhile_append_of_pos hplain]
    rfl
  rw [readAnswer, hstart]
  simp only [hdata, hrest]
  rw [if_pos (Nat.lt_of_le_of_lt hlength hsize)]

/-- The number of an answer is read as it was. -/
theorem answerNumber_digits (code : UInt8) (n : UInt64) : answerNumber (code :: digits n) = n := by
  have hlength := digits_length_le (n := n) (k := 16) (by decide) n.toNat_lt
  refine Remote.remotehston_digits ?_ (by omega) (.inl ?_)
  · intro i _
    rw [Nat.add_comm]
    rfl
  · show hexDigit? ((code :: digits n).getD (1 + (digits n).length) 0) = none
    rw [List.getD_eq_default _ _ (Nat.le_of_eq (Nat.add_comm _ 1))]
    rfl

end MiyakoLink.Hosted
