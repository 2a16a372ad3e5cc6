import Mathlib.Data.List.Basic
import MiyakoLink.HexUtils
import MiyakoLink.Lib.CString

/-!
# The command line of a target

`vRun` decodes its arguments into a buffer of its own (`handle_v_packet`), and
`target_set_cmdline` copies the string to the target. A write behind the decoder's buffer is
`none`.

* `decodeArgs_spec`: in terms of the arguments, the decoder puts one item after the other behind
  what it has, and stops when the *string* in the buffer is long.
* `Cmdline.set_string`: at most 79 characters are copied.
-/

namespace MiyakoLink.Semihosting

open Lib

/-- `MAX_CMDLINE`. -/
abbrev maxCmdline : Nat := 81

/-- `sizeof(cmdline)` in `handle_v_packet`. -/
abbrev decoderSize : Nat := 83

abbrev blank : UInt8 := 0x20

abbrev backslash : UInt8 := 0x5C

abbrev semicolon : UInt8 := 0x3B

/-! ## The target's storage -/

/-- `cmdline` of `struct target_s`: its last two bytes stay zero. -/
structure Cmdline where
  bytes : List UInt8
  length_eq : bytes.length = maxCmdline
  last : bytes.drop 79 = [0, 0]

/-- `strncpy`: the bytes at `dst` after it. -/
def strncpy (dst src : List UInt8) (n : Nat) : List UInt8 :=
  (cstr src ++ List.replicate n 0).take n ++ dst.drop n

theorem strncpy_length {dst src : List UInt8} {n : Nat} (h : n ≤ dst.length) :
    (strncpy dst src n).length = dst.length := by
  unfold strncpy
  simp only [List.length_append, List.length_take, List.length_replicate, List.length_drop]
  omega

theorem strncpy_drop {dst src : List UInt8} {n : Nat} :
    (strncpy dst src n).drop n = dst.drop n := by
  unfold strncpy
  apply List.drop_left'
  simp

/-- The terminator behind a string that has one. -/
theorem set_cstr_length {s : List UInt8} (h : (0 : UInt8) ∈ s) : s.set (cstr s).length 0 = s := by
  induction s with
  | nil => contradiction
  | cons c s ih =>
    by_cases hc : c = 0
    · subst hc
      rfl
    · rw [cstr_cons hc, List.length_cons, List.set_cons_succ,
        ih ((List.mem_cons.mp h).resolve_left fun h => hc h.symm)]

theorem mem_of_drop {s : List UInt8} {n : Nat} (h : s.drop n = [0, 0]) : (0 : UInt8) ∈ s :=
  List.mem_of_mem_drop (i := n) (by rw [h]; exact List.mem_cons_self)

/-- What `strncpy` and the store behind it leave in the storage. -/
def Cmdline.copied (c : Cmdline) (src : List UInt8) : List UInt8 :=
  let lenDst := maxCmdline - 1
  let bytes := strncpy c.bytes src (lenDst - 1)
  bytes.set (cstr bytes).length 0

theorem Cmdline.copied_eq (c : Cmdline) (src : List UInt8) :
    c.copied src = strncpy c.bytes src 79 :=
  set_cstr_length (mem_of_drop (strncpy_drop.trans c.last))

theorem Cmdline.copied_length (c : Cmdline) (src : List UInt8) :
    (c.copied src).length = maxCmdline := by
  rw [c.copied_eq, strncpy_length (by rw [c.length_eq]; decide), c.length_eq]

theorem Cmdline.copied_last (c : Cmdline) (src : List UInt8) :
    (c.copied src).drop 79 = [0, 0] := by
  rw [c.copied_eq, strncpy_drop, c.last]

/-- `target_set_cmdline`. -/
def Cmdline.set (c : Cmdline) (src : List UInt8) : Cmdline :=
  ⟨c.copied src, c.copied_length src, c.copied_last src⟩

/-- The command line of a new target. -/
def Cmdline.empty : Cmdline := ⟨List.replicate maxCmdline 0, rfl, rfl⟩

/-- `strlen` of what is stored sees the string. -/
def Cmdline.string (c : Cmdline) : List UInt8 := cstr c.bytes

theorem cstr_ne_zero {s : List UInt8} : ∀ c ∈ cstr s, c ≠ 0 := by
  intro c hc
  exact of_decide_eq_true (List.all_eq_true.mp List.all_takeWhile c hc)

theorem cstr_zeros (n : Nat) : cstr (List.replicate n 0) = [] := by
  cases n with
  | zero => rfl
  | succ n => rfl

theorem Cmdline.string_eq (c : Cmdline) : c.string = cstr (c.bytes.take 79) := by
  have hsplit := List.take_append_drop 79 c.bytes
  rw [c.last] at hsplit
  unfold string
  rw [← cstr_append_nul (c.bytes.take 79) [0], hsplit]

theorem Cmdline.string_length (c : Cmdline) : c.string.length ≤ 79 := by
  have hprefix : cstr (c.bytes.take 79) <+: c.bytes.take 79 := List.takeWhile_prefix _
  rw [c.string_eq]
  exact Nat.le_trans hprefix.length_le (List.length_take_le _ _)

theorem Cmdline.set_string (c : Cmdline) (src : List UInt8) :
    (c.set src).string = (cstr src).take 79 := by
  have hfit : ((cstr src ++ List.replicate 79 0).take 79).length = 79 := by simp
  have hzero : ∀ b ∈ (cstr src).take 79, b ≠ 0 := fun b hb =>
    cstr_ne_zero b (List.mem_of_mem_take hb)
  rw [string_eq]
  show cstr ((c.copied src).take 79) = _
  rw [c.copied_eq, strncpy, List.take_left' hfit, List.take_append, List.take_replicate,
    cstr_append hzero, cstr_zeros, List.append_nil]

/-! ## The decoder -/

/-- `cmdline` and `pcmdline` of `handle_v_packet`. -/
structure Decoder where
  cmdline : List UInt8
  pcmdline : Nat

namespace Decoder

/-- `pcmdline[k] = b`. -/
def poke (s : Decoder) (k : Nat) (b : UInt8) : Option Decoder :=
  if s.pcmdline + k < s.cmdline.length then
    some { s with cmdline := s.cmdline.set (s.pcmdline + k) b }
  else none

/-- `pcmdline++`. -/
def advance (s : Decoder) : Decoder := { s with pcmdline := s.pcmdline + 1 }

/-- `*pcmdline++ = ' '; *pcmdline = '\0'`. -/
def separate (s : Decoder) : Option Decoder := do
  let s ← s.poke 0 blank
  s.advance.poke 0 0

/-- The branch for a pair of digits. `unhexify` decodes two bytes; the second one is overwritten. -/
def pair (s : Decoder) (tok : List UInt8) : Option Decoder := do
  let b := (unhexBytes tok 2).getD 0 0
  let s ← s.poke 0 b
  let s ← s.poke 1 ((unhexBytes tok 2).getD 1 0)
  if b = blank ∨ b = backslash then
    let s ← s.poke 1 b
    let s ← s.poke 0 backslash
    s.advance.advance.poke 0 0
  else s.advance.poke 0 0

end Decoder

/-- The loop over `tok`, a text that ends at its first NUL. -/
def decodeArgs : List UInt8 → Decoder → Option Decoder
  | [], s => some s
  | c :: tok, s =>
    if c = 0 then some s
    else if (cstr s.cmdline).length + 3 ≥ decoderSize then some s
    else if c = semicolon then s.separate.bind (decodeArgs tok)
    else
      match tok with
      | [] => some s
      | d :: rest =>
        if isHex c && isHex d then (s.pair (c :: d :: rest)).bind (decodeArgs rest)
        else some s

/-- `vRun`: what is in the decoder's buffer in the end, after `*cmdline = '\0'`; `cmdline` holds
what was on the stack before. -/
def vRun (cmdline args : List UInt8) : Option Decoder :=
  decodeArgs (if args.head? = some semicolon then args.tail else args)
    ⟨cmdline.set 0 0, 0⟩

/-! ## What the arguments stand for -/

/-- A piece of the arguments: what is between two of them, or a byte of one. -/
inductive Item where
  | separator
  | byte (b : UInt8)
  deriving DecidableEq, Repr

/-- Arguments are joined by a blank; blanks and backslashes in them are escaped. -/
def Item.text : Item → List UInt8
  | .separator => [blank]
  | .byte b => if b = blank ∨ b = backslash then [backslash, b] else [b]

/-- The items at the front of a text. -/
def items : List UInt8 → List Item
  | [] => []
  | c :: tok =>
    if c = 0 then []
    else if c = semicolon then .separator :: items tok
    else
      match tok with
      | [] => []
      | d :: rest =>
        if isHex c && isHex d then
          .byte (unhexDigit c <<< 4 ||| unhexDigit d) :: items rest
        else []

def text (l : List Item) : List UInt8 := l.flatMap Item.text

def escape (argument : List UInt8) : List UInt8 := text (argument.map .byte)

theorem hexLower_digit : ∀ n < 16, hexLower n ≠ 0 ∧ hexLower n ≠ semicolon ∧
    isHex (hexLower n) = true ∧ unhexDigit (hexLower n) = UInt8.ofNat n := by
  decide

theorem nibbles (b : UInt8) :
    UInt8.ofNat (b.toNat / 16) <<< 4 ||| UInt8.ofNat (b.toNat % 16) = b := by
  rw [shiftLeft_or_digit _ (Nat.mod_lt _ (by decide)), Nat.div_add_mod', UInt8.ofNat_toNat]

theorem items_hexify (argument more : List UInt8) :
    items (hexify argument ++ more) = argument.map .byte ++ items more := by
  induction argument with
  | nil => rfl
  | cons b argument ih =>
    obtain ⟨hnul, hsep, hhigh, hhigh'⟩ := hexLower_digit (b.toNat / 16) (by
      have := b.toNat_lt
      omega)
    obtain ⟨_, _, hlow, hlow'⟩ := hexLower_digit (b.toNat % 16) (Nat.mod_lt _ (by decide))
    show items (hexLower (b.toNat / 16) :: hexLower (b.toNat % 16) :: (hexify argument ++ more)) = _
    rw [items.eq_def]
    simp only [if_neg hnul, if_neg hsep, hhigh, hlow, Bool.and_self, if_true, hhigh', hlow', ih,
      nibbles]
    rfl

theorem items_separator (more : List UInt8) :
    items (semicolon :: more) = .separator :: items more := by
  rw [items.eq_def]
  rfl

/-- The arguments that a debugger sends are joined by single blanks. -/
theorem text_items_arguments (arguments : List (List UInt8)) :
    text (items ([semicolon].intercalate (arguments.map hexify))) =
      [blank].intercalate (arguments.map escape) := by
  induction arguments with
  | nil => rfl
  | cons a arguments ih =>
    cases arguments with
    | nil =>
      have h := items_hexify a []
      rw [List.append_nil] at h
      rw [List.map_singleton, List.map_singleton, List.intercalate_singleton,
        List.intercalate_singleton, h, escape]
      exact congrArg text (List.append_nil _)
    | cons b arguments =>
      have hleft : text (items ([semicolon].intercalate ((a :: b :: arguments).map hexify))) =
          escape a ++ ([blank] ++
            text (items ([semicolon].intercalate ((b :: arguments).map hexify)))) := by
        rw [List.map_cons, List.map_cons, List.intercalate_cons_cons, List.append_assoc,
          items_hexify, List.singleton_append, items_separator, text, List.flatMap_append,
          List.flatMap_cons]
        rfl
      rw [hleft, ih]
      simp only [List.map_cons, List.intercalate_cons_cons, List.append_assoc]

/-- The decoder in terms of items: `t` is what it has, and `none` is a write behind the buffer. -/
def consume : List Item → List UInt8 → Option (List UInt8)
  | [], t => some t
  | i :: l, t =>
    if (cstr t).length + 3 ≥ decoderSize then some t
    else if (t ++ i.text).length < decoderSize then consume l (t ++ i.text)
    else none

/-- The buffer holds `t` and the terminator behind it. -/
def Decoder.Holds (s : Decoder) (t : List UInt8) : Prop :=
  s.cmdline.length = decoderSize ∧ ∃ rest, s = ⟨t ++ 0 :: rest, t.length⟩

section
variable {t u : List UInt8} {j k : Nat} {b : UInt8}

/-- A write `j + k` bytes behind what the buffer has. -/
theorem poke_behind :
    Decoder.poke ⟨t ++ u, t.length + j⟩ k b =
      if j + k < u.length then some ⟨t ++ u.set (j + k) b, t.length + j⟩ else none := by
  have hset : (t ++ u).set (t.length + j + k) b = t ++ u.set (j + k) b := by
    rw [List.set_append_right _ _ (by omega), Nat.add_assoc, Nat.add_sub_cancel_left]
  unfold Decoder.poke
  simp only [List.length_append, Nat.add_assoc, Nat.add_lt_add_iff_left]
  rw [← Nat.add_assoc, hset]

theorem poke_front :
    Decoder.poke ⟨t ++ u, t.length⟩ k b =
      if k < u.length then some ⟨t ++ u.set k b, t.length⟩ else none := by
  have h := poke_behind (t := t) (u := u) (j := 0) (k := k) (b := b)
  rwa [Nat.zero_add] at h

end

theorem cstr_holds {s : Decoder} {t : List UInt8} (h : s.Holds t) : cstr s.cmdline = cstr t := by
  obtain ⟨_, rest, rfl⟩ := h
  exact cstr_append_nul t rest

/-- What one branch of the loop does for the item it reads. -/
def Puts (f : Decoder → Option Decoder) (i : Item) : Prop :=
  ∀ s t, s.Holds t →
    if (t ++ i.text).length < decoderSize then ∃ s', f s = some s' ∧ s'.Holds (t ++ i.text)
    else f s = none

section
variable {t rest tok : List UInt8} {x y c d : UInt8}

theorem separate_full : Decoder.separate ⟨t ++ [0], t.length⟩ = none := by
  simp [Decoder.separate, Decoder.advance, poke_front, poke_behind]

theorem separate_room :
    Decoder.separate ⟨t ++ 0 :: x :: rest, t.length⟩ =
      some ⟨t ++ ([blank] ++ 0 :: rest), t.length + 1⟩ := by
  simp [Decoder.separate, Decoder.advance, poke_front, poke_behind]

theorem pair_full : Decoder.pair ⟨t ++ [0], t.length⟩ tok = none := by
  simp [Decoder.pair, poke_front]

theorem pair_plain (hplain : ¬((unhexBytes tok 2).getD 0 0 = blank ∨
    (unhexBytes tok 2).getD 0 0 = backslash)) :
    Decoder.pair ⟨t ++ 0 :: x :: rest, t.length⟩ tok =
      some ⟨t ++ ([(unhexBytes tok 2).getD 0 0] ++ 0 :: rest), t.length + 1⟩ := by
  unfold Decoder.pair Decoder.advance
  dsimp only
  generalize (unhexBytes tok 2).getD 0 0 = b at *
  generalize (unhexBytes tok 2).getD 1 0 = b'
  simp [poke_front, poke_behind, hplain]

theorem pair_escape_full (hescape : (unhexBytes tok 2).getD 0 0 = blank ∨
    (unhexBytes tok 2).getD 0 0 = backslash) :
    Decoder.pair ⟨t ++ [0, x], t.length⟩ tok = none := by
  unfold Decoder.pair Decoder.advance
  dsimp only
  generalize (unhexBytes tok 2).getD 0 0 = b at *
  generalize (unhexBytes tok 2).getD 1 0 = b'
  simp [poke_front, poke_behind, hescape, Nat.add_assoc]

theorem pair_escape (hescape : (unhexBytes tok 2).getD 0 0 = blank ∨
    (unhexBytes tok 2).getD 0 0 = backslash) :
    Decoder.pair ⟨t ++ 0 :: x :: y :: rest, t.length⟩ tok =
      some ⟨t ++ ([backslash, (unhexBytes tok 2).getD 0 0] ++ 0 :: rest), t.length + 2⟩ := by
  unfold Decoder.pair Decoder.advance
  dsimp only
  generalize (unhexBytes tok 2).getD 0 0 = b at *
  generalize (unhexBytes tok 2).getD 1 0 = b'
  simp [poke_front, poke_behind, hescape, Nat.add_assoc]

end

/-- What one branch of the loop does for an item: its text goes behind what the buffer has. -/
theorem puts_of {f : Decoder → Option Decoder} {i : Item}
    (hroom : ∀ t pad rest, pad.length = i.text.length →
      f ⟨t ++ 0 :: (pad ++ rest), t.length⟩ =
        some ⟨t ++ (i.text ++ 0 :: rest), t.length + i.text.length⟩)
    (hfull : ∀ t rest, rest.length < i.text.length → f ⟨t ++ 0 :: rest, t.length⟩ = none) :
    Puts f i := by
  rintro s t ⟨hlength, rest, rfl⟩
  simp only [List.length_append, List.length_cons] at hlength ⊢
  split
  · have hpad : (rest.take i.text.length).length = i.text.length := by
      rw [List.length_take]
      omega
    have h := hroom t (rest.take i.text.length) (rest.drop i.text.length) hpad
    rw [List.take_append_drop] at h
    refine ⟨_, h, ?_, rest.drop i.text.length, ?_⟩
    · simp only [List.length_append, List.length_cons, List.length_drop]
      omega
    · rw [List.append_assoc, List.length_append]
  · exact hfull t rest (by omega)

theorem separate_puts : Puts Decoder.separate .separator := by
  apply puts_of
  · intro t pad rest hpad
    obtain ⟨x, rfl⟩ := List.length_eq_one_iff.mp hpad
    exact separate_room
  · intro t rest hrest
    rw [List.eq_nil_of_length_eq_zero (Nat.lt_one_iff.mp hrest)]
    exact separate_full

theorem pair_puts {c d : UInt8} (tok : List UInt8) :
    Puts (Decoder.pair · (c :: d :: tok)) (.byte (unhexDigit c <<< 4 ||| unhexDigit d)) := by
  have hb : unhexDigit c <<< 4 ||| unhexDigit d = (unhexBytes (c :: d :: tok) 2).getD 0 0 := rfl
  rw [hb]
  by_cases hescape : (unhexBytes (c :: d :: tok) 2).getD 0 0 = blank ∨
      (unhexBytes (c :: d :: tok) 2).getD 0 0 = backslash
  · have htext : (Item.byte ((unhexBytes (c :: d :: tok) 2).getD 0 0)).text =
        [backslash, (unhexBytes (c :: d :: tok) 2).getD 0 0] := if_pos hescape
    apply puts_of
    · intro t pad rest hpad
      rw [htext] at hpad ⊢
      obtain ⟨x, y, rfl⟩ := List.length_eq_two.mp hpad
      exact pair_escape hescape
    · intro t rest hrest
      rw [htext] at hrest
      cases rest with
      | nil => exact pair_full
      | cons x rest =>
        simp only [List.length_cons, List.length_nil] at hrest
        obtain rfl := List.eq_nil_of_length_eq_zero (l := rest) (by omega)
        exact pair_escape_full hescape
  · have htext : (Item.byte ((unhexBytes (c :: d :: tok) 2).getD 0 0)).text =
        [(unhexBytes (c :: d :: tok) 2).getD 0 0] := if_neg hescape
    apply puts_of
    · intro t pad rest hpad
      rw [htext] at hpad ⊢
      obtain ⟨x, rfl⟩ := List.length_eq_one_iff.mp hpad
      exact pair_plain hescape
    · intro t rest hrest
      rw [htext] at hrest
      rw [List.eq_nil_of_length_eq_zero (Nat.lt_one_iff.mp hrest)]
      exact pair_full

theorem decodeArgs_cons {c : UInt8} {tok : List UInt8} {s : Decoder} {t : List UInt8}
    {i : Item} {l : List Item} {f : Decoder → Option Decoder} (more : List UInt8)
    (h : s.Holds t) (hputs : Puts f i)
    (hdecode : decodeArgs (c :: tok) s =
      if (cstr s.cmdline).length + 3 ≥ decoderSize then some s else (f s).bind (decodeArgs more))
    (ih : ∀ s t, Decoder.Holds s t → match consume l t with
      | some t' => ∃ s', decodeArgs more s = some s' ∧ s'.Holds t'
      | none => decodeArgs more s = none) :
    match consume (i :: l) t with
    | some t' => ∃ s', decodeArgs (c :: tok) s = some s' ∧ s'.Holds t'
    | none => decodeArgs (c :: tok) s = none := by
  rw [hdecode, cstr_holds h, consume]
  have hput := hputs s t h
  by_cases hlong : (cstr t).length + 3 ≥ decoderSize
  · rw [if_pos hlong, if_pos hlong]
    exact ⟨s, rfl, h⟩
  · rw [if_neg hlong, if_neg hlong]
    split at hput
    · obtain ⟨s', hs', hholds⟩ := hput
      rw [if_pos ‹_›, hs']
      exact ih s' _ hholds
    · rw [if_neg ‹_›, hput]
      rfl

/-- The loop ends at a character that begins no item. -/
theorem decodeArgs_end {tok : List UInt8} {s : Decoder} {t : List UInt8} (h : s.Holds t)
    (hdecode : decodeArgs tok s = some s) :
    ∃ s', decodeArgs tok s = some s' ∧ s'.Holds t :=
  ⟨s, hdecode, h⟩

/-- What the decoder leaves, in terms of items. -/
theorem decodeArgs_spec {tok : List UInt8} {s : Decoder} {t : List UInt8} (h : s.Holds t) :
    match consume (items tok) t with
    | some t' => ∃ s', decodeArgs tok s = some s' ∧ s'.Holds t'
    | none => decodeArgs tok s = none := by
  fun_induction items tok generalizing s t with
  | case1 => exact decodeArgs_end h rfl
  | case2 tok =>
    apply decodeArgs_end h
    rw [decodeArgs.eq_def]
    rfl
  | case3 tok hnul ih =>
    apply decodeArgs_cons tok h separate_puts ?_ fun s t h => ih h
    rw [decodeArgs.eq_def]
    rfl
  | case4 c hnul hsep =>
    apply decodeArgs_end h
    rw [decodeArgs.eq_def]
    simp only [if_neg hnul, if_neg hsep, ite_self]
  | case5 c hnul hsep d rest hdigits ih =>
    apply decodeArgs_cons rest h (pair_puts rest) ?_ fun s t h => ih h
    rw [decodeArgs.eq_def]
    simp only [if_neg hnul, if_neg hsep, if_pos hdigits]
  | case6 c hnul hsep d rest hdigits =>
    apply decodeArgs_end h
    rw [decodeArgs.eq_def]
    simp only [if_neg hnul, if_neg hsep, if_neg hdigits, ite_self]

end MiyakoLink.Semihosting
