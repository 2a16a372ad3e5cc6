import Mathlib.Algebra.Group.Int.Defs
import Mathlib.Algebra.Group.Nat.Defs
import MiyakoLink.Gdb.Access

/-!
# The replies to calls of the host

`hostio_reply` reads an `F` packet with one `sscanf`, and does not look at how many of its numbers
have been read. Its locals have no initial value.

* `sscanf_text`: what is read of a reply of the form of the protocol.
* `sscanf_reading`: all that may be read of any text.
* `hostioReply_right_iff`: replies with an errno are taken for what they say. Without one the errno
  is whatever has been in the memory.
-/

namespace MiyakoLink.Semihosting.HostioReply

open Lib Gdb

/-- The locals of `hostio_reply` when it begins. -/
structure ReplyLocals where
  retcode : UInt32
  errno : UInt32
  c : UInt8

/-- What `hostio_reply` returns, and `errno_` and `interrupted` of the controller behind it. -/
structure HostioResult where
  retcode : Int32
  errno : Nat
  interrupted : Bool
  deriving DecidableEq

/-- One more than the largest value of an `enum target_errno`. Its numbers need two bytes, and it
has no more of them if enumerations are as short as they can be. -/
def errnoSpan (shortEnums : Bool) : Nat := if shortEnums then 2 ^ 16 else 2 ^ 32

/-- `"%x,%x,%c"`. -/
def reading : List Directive := [.hex, .char 0x2C, .hex, .char 0x2C, .chr]

/-- Is there a minus behind the `F`? -/
def minus (pbuf : List UInt8) : Bool := (cstr pbuf)[1]? == some 0x2D

/-- What `sscanf` assigns. -/
def items (pbuf : List UInt8) : List Assigned :=
  sscanf reading 0 ((cstr pbuf).drop (if minus pbuf then 2 else 1))

/-- `retcode`, when `sscanf` has read it. The negation wraps. -/
def signedRetcode (pbuf : List UInt8) (retcode : UInt32) : Int32 :=
  if minus pbuf then -retcode.toInt32 else retcode.toInt32

/-- `hostio_reply`. -/
def hostioReply (shortEnums : Bool) (v : ReplyLocals) (pbuf : List UInt8) : HostioResult where
  retcode := signedRetcode pbuf (numberAt (items pbuf) 0 v.retcode)
  errno := (numberAt (items pbuf) 1 v.errno).toNat % errnoSpan shortEnums
  interrupted := (items pbuf).length == 3 && (items pbuf)[2]? == some (.chr 0x43)

/-! ## The form of a reply -/

/-- `,errno` or `,errno,C`. -/
structure ReplyErrno where
  digits : List UInt8
  isNumber : Digits digits
  interrupted : Bool

/-- `retcode[,errno[,C]][;attachment]`. -/
structure HostReply where
  negative : Bool
  digits : List UInt8
  isNumber : Digits digits
  errno : Option ReplyErrno
  attachment : Option (List UInt8)

def ReplyErrno.text (e : ReplyErrno) : List UInt8 :=
  0x2C :: (e.digits ++ if e.interrupted then [0x2C, 0x43] else [])

namespace HostReply

variable (r : HostReply)

def sign : List UInt8 := if r.negative then [0x2D] else []

def errnoText : List UInt8 :=
  match r.errno with
  | some e => e.text
  | none => []

def attachmentText : List UInt8 :=
  match r.attachment with
  | some a => 0x3B :: a
  | none => []

/-- The text behind the `F`. -/
def text : List UInt8 := r.sign ++ (r.digits ++ (r.errnoText ++ r.attachmentText))

def retcode : Int := if r.negative then -(hexValue r.digits : Int) else hexValue r.digits

/-- The errno that is given, or 0. -/
def errnoValue : Nat :=
  match r.errno with
  | some e => hexValue e.digits
  | none => 0

def interrupted : Bool :=
  match r.errno with
  | some e => e.interrupted
  | none => false

/-- The numbers are ones of the variables that they go to. -/
def Fits (shortEnums : Bool) : Prop :=
  -2 ^ 31 ≤ r.retcode ∧ r.retcode < 2 ^ 31 ∧ r.errnoValue < errnoSpan shortEnums

end HostReply

/-- The packet with a text behind its `F`. -/
def packet (text : List UInt8) : List UInt8 := 0x46 :: text

/-- A reply is taken for what it says, and a text that is none for a failure, whatever has been in
the locals. -/
def Right (shortEnums : Bool) (text : List UInt8) : Prop :=
  (∀ r : HostReply, r.text = text → ∀ v,
    (hostioReply shortEnums v (packet text)).retcode.toInt = r.retcode ∧
      (hostioReply shortEnums v (packet text)).errno = r.errnoValue ∧
      (hostioReply shortEnums v (packet text)).interrupted = r.interrupted) ∧
  ((∀ r : HostReply, r.text ≠ text) → ∃ result : HostioResult, result.retcode < 0 ∧
    ∀ v, hostioReply shortEnums v (packet text) = result)

/-- What `sscanf` reads as two numbers of which the first, negated behind a minus, is negative. -/
def ReadsFailure (text : List UInt8) : Prop :=
  ∃ v w rest, items (packet text) = .number v :: .number w :: rest ∧
    signedRetcode (packet text) v < 0

/-! ## What is read of a reply -/

section

variable {ds rest : List UInt8} {directives : List Directive} {n : Nat}

theorem sscanf_hex (h : Digits ds) (hrest : Ends16 rest) :
    sscanf (.hex :: directives) n (ds ++ rest) =
      .number (UInt32.ofNat (min (hexValue ds) 0xFFFFFFFF)) ::
        sscanf directives (n + ((ds ++ rest).length - rest.length)) rest := by
  rw [sscanf, scanHex_digits h hrest]

theorem digits_ne_nul (h : Digits ds) : ∀ c ∈ ds, c ≠ 0 := fun c hc => (isHex_cases (h.hex c hc)).1

end

/-- What is left behind the numbers: nothing, or what begins with a semicolon. -/
def IsAttachment (rest : List UInt8) : Prop := rest = [] ∨ ∃ a, rest = 0x3B :: a

theorem ReplyErrno.text_ne_nul (e : ReplyErrno) : ∀ c ∈ e.text, c ≠ 0 := by
  intro c hc
  rw [ReplyErrno.text] at hc
  rcases List.mem_cons.mp hc with rfl | hc
  · decide
  · rcases List.mem_append.mp hc with hc | hc
    · exact digits_ne_nul e.isNumber c hc
    · split at hc
      · simp only [List.mem_cons, List.not_mem_nil, or_false] at hc
        rcases hc with rfl | rfl <;> decide
      · exact absurd hc List.not_mem_nil

/-- Both numbers end where they should. -/
theorem ends16_attachment {rest : List UInt8} (h : IsAttachment rest) : Ends16 rest := by
  rcases h with rfl | ⟨a, rfl⟩
  · exact ends16_nil
  · exact ends16_cons (by decide) (by decide) (by decide)

theorem ends16_comma (rest : List UInt8) : Ends16 (0x2C :: rest) :=
  ends16_cons (by decide) (by decide) (by decide)

/-- Behind the numbers the format asks for another comma. -/
theorem sscanf_comma_attachment {rest : List UInt8} (h : IsAttachment rest)
    (directives : List Directive) (n : Nat) : sscanf (.char 0x2C :: directives) n rest = [] := by
  rcases h with rfl | ⟨a, rfl⟩
  · rfl
  · rw [sscanf, if_neg (by decide)]

/-- What is read of the part with the errno. -/
theorem sscanf_errno (e : ReplyErrno) {rest : List UInt8} (h : IsAttachment rest) (n : Nat) :
    sscanf [.char 0x2C, .hex, .char 0x2C, .chr] n (e.text ++ rest) =
      .number (UInt32.ofNat (min (hexValue e.digits) 0xFFFFFFFF)) ::
        if e.interrupted then [.chr 0x43] else [] := by
  rw [ReplyErrno.text, List.cons_append, List.append_assoc, sscanf, if_pos rfl]
  cases e.interrupted with
  | false => rw [if_neg Bool.false_ne_true, if_neg Bool.false_ne_true, List.nil_append,
      sscanf_hex e.isNumber (ends16_attachment h), sscanf_comma_attachment h]
  | true => rw [if_pos rfl, if_pos rfl, List.cons_append, sscanf_hex e.isNumber (ends16_comma _),
      sscanf, if_pos rfl]; rfl

namespace HostReply

variable (r : HostReply)

theorem attachment_cstr : IsAttachment (cstr r.attachmentText) := by
  rw [attachmentText]
  cases r.attachment with
  | none => exact Or.inl rfl
  | some a => exact Or.inr ⟨cstr a, cstr_cons (by decide) a⟩

theorem errnoText_ne_nul : ∀ c ∈ r.errnoText, c ≠ 0 := by
  rw [errnoText]
  cases r.errno with
  | none => exact fun c hc => absurd hc List.not_mem_nil
  | some e => exact e.text_ne_nul

theorem sign_ne_nul : ∀ c ∈ r.sign, c ≠ 0 := by
  rw [sign]
  cases r.negative with
  | false => exact fun c hc => absurd hc List.not_mem_nil
  | true => exact List.forall_mem_singleton.mpr (by decide)

theorem packet_cstr : cstr (packet r.text) =
    0x46 :: (r.sign ++ (r.digits ++ (r.errnoText ++ cstr r.attachmentText))) := by
  rw [packet, cstr_cons (by decide), text, cstr_append r.sign_ne_nul,
    cstr_append (digits_ne_nul r.isNumber), cstr_append r.errnoText_ne_nul]

theorem packet_minus : minus (packet r.text) = r.negative := by
  obtain ⟨c, tail, hdigits, hc⟩ := r.isNumber.first
  rw [minus, r.packet_cstr, sign]
  cases r.negative with
  | true => rfl
  | false =>
    rw [hdigits]
    exact beq_false_of_ne fun h => (isHex_cases hc).2.2.1 (Option.some.inj h)

/-- The retcode is read, and what there is of the errno. -/
theorem sscanf_text : items (packet r.text) =
    .number (UInt32.ofNat (min (hexValue r.digits) 0xFFFFFFFF)) ::
      match r.errno with
      | some e => .number (UInt32.ofNat (min (hexValue e.digits) 0xFFFFFFFF)) ::
          if e.interrupted then [.chr 0x43] else []
      | none => [] := by
  have hdrop : (cstr (packet r.text)).drop (if r.negative then 2 else 1) =
      r.digits ++ (r.errnoText ++ cstr r.attachmentText) := by
    rw [r.packet_cstr, sign]
    cases r.negative <;> rfl
  rw [items, r.packet_minus, hdrop, reading, errnoText]
  cases r.errno with
  | none =>
    rw [List.nil_append, sscanf_hex r.isNumber (ends16_attachment r.attachment_cstr),
      sscanf_comma_attachment r.attachment_cstr]
  | some e =>
    have hends : Ends16 (e.text ++ cstr r.attachmentText) := ends16_comma _
    show sscanf _ 0 (r.digits ++ (e.text ++ cstr r.attachmentText)) = _
    rw [sscanf_hex r.isNumber hends]
    exact congrArg _ (sscanf_errno e r.attachment_cstr _)

end HostReply

/-- What may be read of a text at all. -/
theorem sscanf_reading (n : Nat) (s : List UInt8) :
    (∀ w, (sscanf reading n s)[1]? ≠ some (.number w)) ∨
      ∃ v w rest, sscanf reading n s = .number v :: .number w :: rest := by
  rw [reading, sscanf]
  cases scanHex none s with
  | none => exact Or.inl fun w h => by simp at h
  | some first =>
    obtain ⟨v, s⟩ := first
    dsimp only
    cases s with
    | nil => exact Or.inl fun w h => by simp [sscanf] at h
    | cons c s =>
      rw [sscanf]
      by_cases hcomma : c = 0x2C
      · rw [if_pos hcomma, sscanf]
        cases scanHex none s with
        | none => exact Or.inl fun w h => by simp at h
        | some second => exact Or.inr ⟨v, second.1, _, rfl⟩
      · rw [if_neg hcomma]
        exact Or.inl fun w h => by simp at h

/-! ## The numbers -/

theorem toInt_eq (v : UInt32) : v.toInt32.toInt =
    if 2 * v.toNat < 2 ^ 32 then (v.toNat : Int) else (v.toNat : Int) - (2 ^ 32 : Nat) := by
  show v.toBitVec.toInt = _
  rw [BitVec.toInt_eq_toNat_cond]
  rfl

/-- A number as it is read. -/
def readAs (n : Nat) : UInt32 := UInt32.ofNat (min n 0xFFFFFFFF)

theorem readAs_toNat (n : Nat) : (readAs n).toNat = min n 0xFFFFFFFF :=
  UInt32.toNat_ofNat_of_lt' (show min n 0xFFFFFFFF < 2 ^ 32 by omega)

theorem readAs_toInt_iff (n : Nat) : (readAs n).toInt32.toInt = n ↔ (n : Int) < 2 ^ 31 := by
  rw [toInt_eq, readAs_toNat]
  split <;> omega

theorem readAs_neg_toInt_iff (n : Nat) :
    (-(readAs n).toInt32).toInt = -(n : Int) ↔ -2 ^ 31 ≤ -(n : Int) := by
  rw [Int32.toInt_neg, toInt_eq, readAs_toNat, Int.bmod_def]
  split <;> split <;> omega

theorem readAs_errno_iff (shortEnums : Bool) (n : Nat) :
    (readAs n).toNat % errnoSpan shortEnums = n ↔ n < errnoSpan shortEnums := by
  rw [readAs_toNat, errnoSpan]
  cases shortEnums with
  | false =>
    show min n 0xFFFFFFFF % 2 ^ 32 = n ↔ n < 2 ^ 32
    omega
  | true =>
    show min n 0xFFFFFFFF % 2 ^ 16 = n ↔ n < 2 ^ 16
    omega

/-- An errno that has not been read may be any. -/
theorem exists_errno_ne (shortEnums : Bool) (n : Nat) :
    ∃ v : UInt32, v.toNat % errnoSpan shortEnums ≠ n := by
  by_cases hzero : n = 0
  · refine ⟨1, fun h => ?_⟩
    rw [hzero] at h
    cases shortEnums <;> contradiction
  · refine ⟨0, fun h => hzero ?_⟩
    rw [← h]
    exact Nat.zero_mod _

/-! ## The replies -/

section

variable {shortEnums : Bool}

/-- The retcode of a reply is returned just if it is an `int`. -/
theorem retcode_iff (r : HostReply) (v : ReplyLocals) :
    (hostioReply shortEnums v (packet r.text)).retcode.toInt = r.retcode ↔
      -2 ^ 31 ≤ r.retcode ∧ r.retcode < 2 ^ 31 := by
  have hread : (hostioReply shortEnums v (packet r.text)).retcode =
      if r.negative then -(readAs (hexValue r.digits)).toInt32
      else (readAs (hexValue r.digits)).toInt32 := by
    rw [hostioReply, signedRetcode, r.packet_minus, r.sscanf_text]
    rfl
  rw [hread, HostReply.retcode]
  cases r.negative with
  | true =>
    rw [if_pos rfl, if_pos rfl, readAs_neg_toInt_iff]
    omega
  | false =>
    rw [if_neg Bool.false_ne_true, if_neg Bool.false_ne_true, readAs_toInt_iff]
    omega

/-- An errno is stored just if the controller has room for it. -/
theorem errno_iff {r : HostReply} {e : ReplyErrno} (h : r.errno = some e) (v : ReplyLocals) :
    (hostioReply shortEnums v (packet r.text)).errno = r.errnoValue ↔
      r.errnoValue < errnoSpan shortEnums := by
  have hread : (hostioReply shortEnums v (packet r.text)).errno =
      (readAs (hexValue e.digits)).toNat % errnoSpan shortEnums := by
    rw [hostioReply, r.sscanf_text, h]
    rfl
  rw [hread, HostReply.errnoValue, h, readAs_errno_iff]

/-- Without one it is what has been in the local. -/
theorem errno_of_none {r : HostReply} (h : r.errno = none) (v : ReplyLocals) :
    (hostioReply shortEnums v (packet r.text)).errno = v.errno.toNat % errnoSpan shortEnums := by
  rw [hostioReply, r.sscanf_text, h]
  rfl

theorem interrupted_eq (r : HostReply) (v : ReplyLocals) :
    (hostioReply shortEnums v (packet r.text)).interrupted = r.interrupted := by
  rw [hostioReply, r.sscanf_text, HostReply.interrupted]
  cases r.errno with
  | none => rfl
  | some e =>
    obtain ⟨digits, isNumber, interrupted⟩ := e
    cases interrupted <;> rfl

/-- A text is taken for a failure, whatever has been in the locals, just if it reads as one. -/
theorem failure_iff (text : List UInt8) :
    (∃ result : HostioResult, result.retcode < 0 ∧
      ∀ v, hostioReply shortEnums v (packet text) = result) ↔ ReadsFailure text := by
  constructor
  · rintro ⟨result, hnegative, hall⟩
    rcases sscanf_reading 0 ((cstr (packet text)).drop (if minus (packet text) then 2 else 1)) with
      hnone | ⟨v, w, rest, hread⟩
    · obtain ⟨errno, hne⟩ := exists_errno_ne shortEnums result.errno
      refine absurd (congrArg HostioResult.errno (hall ⟨0, errno, 0⟩)) ?_
      have hlocal : numberAt (items (packet text)) 1 errno = errno := by
        unfold numberAt
        split
        · next w hw => exact absurd hw (hnone w)
        · rfl
      rw [hostioReply, hlocal]
      exact hne
    · refine ⟨v, w, rest, hread, ?_⟩
      rw [← hall ⟨0, 0, 0⟩, hostioReply, show items (packet text) = _ from hread] at hnegative
      exact hnegative
  · rintro ⟨v, w, rest, hread, hnegative⟩
    refine ⟨hostioReply shortEnums ⟨0, 0, 0⟩ (packet text), ?_, fun locals => ?_⟩
    · rw [hostioReply, hread]
      exact hnegative
    · rw [hostioReply, hostioReply, hread]
      rfl

/-- Replies are taken for what they say just if they have an errno and their numbers fit, and what
is no reply is taken for a failure just if it begins with two numbers of which the first is
negative. -/
theorem hostioReply_right_iff (text : List UInt8) : Right shortEnums text ↔
    (∀ r : HostReply, r.text = text → r.errno ≠ none ∧ r.Fits shortEnums) ∧
      ((∀ r : HostReply, r.text ≠ text) → ReadsFailure text) := by
  refine and_congr (forall_congr' fun r => forall_congr' fun htext => ?_)
    (forall_congr' fun _ => failure_iff text)
  subst htext
  constructor
  · intro h
    cases herrno : r.errno with
    | none =>
      obtain ⟨errno, hne⟩ := exists_errno_ne shortEnums r.errnoValue
      exact absurd ((errno_of_none herrno _).symm.trans (h ⟨0, errno, 0⟩).2.1) hne
    | some e =>
      obtain ⟨hretcode, hvalue, -⟩ := h ⟨0, 0, 0⟩
      obtain ⟨hlow, hhigh⟩ := (retcode_iff r _).mp hretcode
      exact ⟨Option.some_ne_none e, hlow, hhigh, (errno_iff herrno _).mp hvalue⟩
  · rintro ⟨hsome, hlow, hhigh, hvalue⟩ v
    obtain ⟨e, herrno⟩ := Option.ne_none_iff_exists'.mp hsome
    exact ⟨(retcode_iff r v).mpr ⟨hlow, hhigh⟩, (errno_iff herrno v).mpr hvalue,
      interrupted_eq r v⟩

end

/-- A reply with the retcode 0 alone leaves 1 in `errno_` if that is what the local has been. -/
theorem retcode_alone_not_right : ¬ ∀ shortEnums text, Right shortEnums text := by
  intro h
  have hzero : Digits [0x30] := ⟨List.cons_ne_nil _ _, List.forall_mem_singleton.mpr rfl⟩
  have herrno := ((h true [0x30]).1 ⟨false, [0x30], hzero, none, none⟩ rfl ⟨0, 1, 0⟩).2.1
  exact absurd herrno (show (hostioReply true ⟨0, 1, 0⟩ (packet [0x30])).errno ≠ 0 by decide)

end MiyakoLink.Semihosting.HostioReply
