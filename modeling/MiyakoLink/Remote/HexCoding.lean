import MiyakoLink.Lib.Scanf
import MiyakoLink.Remote.Buffer

/-!
# Hexadecimal coding there and back

`hexify` and `unhexify` on memory, and the two coders of `remote.c`: the loops of `_respond`, which
emit the digits of a number, and `remotehston`, which reads them.

* `unhexify_apply`: what `unhexify` decodes, also in place.
* `digits_eq`, `remotehston_digits`: the digits of `_respond` are those of the number, and are read
  as that number.
-/

namespace MiyakoLink.Remote

open Lib
open Packet (Buffer)

/-- `hexdigits`. -/
def hexdigits : List UInt8 := ascii "0123456789abcdef"

/-- `hexify(&mem[hex], &mem[buf], size)`. -/
def hexifyAt (mem : Buffer) (hex buf : Nat) : Nat → Buffer
  | 0 => Function.update mem hex 0
  | size + 1 =>
    let mem := Function.update mem hex (hexdigits.getD (mem buf >>> 4).toNat 0)
    let mem := Function.update mem (hex + 1) (hexdigits.getD (mem buf &&& 0xF).toNat 0)
    hexifyAt mem (hex + 2) (buf + 1) size

/-- `NTOH`, the digit for a number below 16. -/
def ntoh (x : UInt64) : UInt8 := if x ≤ 9 then x.toUInt8 + 0x30 else 0x61 + x.toUInt8 - 10

/-- The first loop of `_respond`: the digits it puts to `buf`, the last one of the number first. -/
def respondDigits (param : UInt64) : List UInt8 :=
  ntoh (param &&& 0x0F) :: if _h : param >>> 4 = 0 then [] else respondDigits (param >>> 4)
termination_by param.toNat
decreasing_by
  have hshift : (param >>> 4).toNat = param.toNat / 16 := by
    rw [UInt64.toNat_shiftRight]
    exact Nat.shiftRight_eq_div_pow param.toNat 4
  have hne : (param >>> 4).toNat ≠ 0 := fun hzero => _h (UInt64.toNat_inj.mp hzero)
  omega

/-- A digit of a number as the other case has it too. -/
def toLower (c : UInt8) : UInt8 := if 0x41 ≤ c ∧ c ≤ 0x46 then c + 0x20 else c

/-! ## Digits of a byte -/

theorem unhexDigit_hexdigits : ∀ n < 16, unhexDigit (hexdigits.getD n 0) = UInt8.ofNat n := by
  decide

theorem unhex_hexdigits (b : UInt8) :
    unhexDigit (hexdigits.getD (b >>> 4).toNat 0) <<< 4 |||
      unhexDigit (hexdigits.getD (b &&& 0xF).toNat 0) = b := by
  have hb := b.toNat_lt
  have hhigh : (b >>> 4).toNat = b.toNat / 16 := by
    rw [UInt8.toNat_shiftRight]
    exact Nat.shiftRight_eq_div_pow b.toNat 4
  have hlow : (b &&& 0xF).toNat = b.toNat % 16 := by
    rw [UInt8.toNat_and]
    exact Nat.and_two_pow_sub_one_eq_mod b.toNat 4
  have hmod : b.toNat % 16 < 16 := Nat.mod_lt _ (by decide)
  rw [hhigh, hlow, unhexDigit_hexdigits _ (by omega), unhexDigit_hexdigits _ hmod,
    shiftLeft_or_digit _ hmod, Nat.div_add_mod', UInt8.ofNat_toNat]

/-- Digits of both cases are decoded alike. -/
theorem unhexDigit_toLower (c : UInt8) (h : isHex c = true) :
    unhexDigit (toLower c) = unhexDigit c := by
  have hall : ∀ n < 256, isHex (UInt8.ofNat n) = true →
      unhexDigit (toLower (UInt8.ofNat n)) = unhexDigit (UInt8.ofNat n) := by
    decide +kernel
  have hc := hall c.toNat c.toNat_lt
  rw [UInt8.ofNat_toNat] at hc
  exact hc h

/-! ## Memory -/

section

variable {mem : Buffer} {hex buf size k : Nat}

/-- The byte that two digits stand for. -/
def pairAt (mem : Buffer) (hex : Nat) : UInt8 :=
  unhexDigit (mem hex) <<< 4 ||| unhexDigit (mem (hex + 1))

/-- A turn of `unhexify` that does not overwrite its second digit with the first one. -/
theorem unhexify_succ (h : buf ≠ hex + 1) : unhexify mem buf hex (size + 1) =
    unhexify (Function.update mem buf (pairAt mem hex)) (buf + 1) (hex + 2) size := by
  rw [unhexify, Function.update_self, Function.update_of_ne (Ne.symm h), Function.update_idem]
  rfl

/-- What `unhexify` decodes when the destination does not begin behind the source, or begins behind
its end. -/
theorem unhexify_apply (h : buf ≤ hex ∨ hex + 2 * size ≤ buf) (hk : k < size) :
    unhexify mem buf hex size (buf + k) = pairAt mem (hex + 2 * k) := by
  induction size generalizing mem hex buf k with
  | zero => exact absurd hk (Nat.not_lt_zero k)
  | succ size ih =>
    rw [unhexify_succ (by omega)]
    cases k with
    | zero =>
      show unhexify _ _ _ _ buf = pairAt mem hex
      rw [unhexify_of_lt (Nat.lt_succ_self buf), Function.update_self]
    | succ k =>
      have haddr : buf + (k + 1) = buf + 1 + k := by omega
      have hnext : hex + 2 + 2 * k = hex + 2 * (k + 1) := by omega
      rw [haddr, ih (by omega) (by omega), hnext, pairAt, Function.update_of_ne (by omega),
        Function.update_of_ne (by omega)]
      rfl

theorem hexifyAt_of_lt {a : Nat} (h : a < hex) : hexifyAt mem hex buf size a = mem a := by
  induction size generalizing mem hex buf with
  | zero => rw [hexifyAt, Function.update_of_ne (by omega)]
  | succ size ih =>
    rw [hexifyAt, ih (by omega), Function.update_of_ne (by omega), Function.update_of_ne (by omega)]

/-- A turn of `hexify` that does not overwrite its byte. -/
theorem hexifyAt_succ (h : buf ≠ hex) : hexifyAt mem hex buf (size + 1) =
    hexifyAt (Function.update (Function.update mem hex (hexdigits.getD (mem buf >>> 4).toNat 0))
      (hex + 1) (hexdigits.getD (mem buf &&& 0xF).toNat 0)) (hex + 2) (buf + 1) size := by
  rw [hexifyAt, Function.update_of_ne h]

/-- The two digits of a byte, if the text lies apart from the bytes. -/
theorem hexifyAt_digits (h : hex + 2 * size ≤ buf ∨ buf + size ≤ hex) (hk : k < size) :
    hexifyAt mem hex buf size (hex + 2 * k) = hexdigits.getD (mem (buf + k) >>> 4).toNat 0 ∧
      hexifyAt mem hex buf size (hex + 2 * k + 1) =
        hexdigits.getD (mem (buf + k) &&& 0xF).toNat 0 := by
  induction size generalizing mem hex buf k with
  | zero => exact absurd hk (Nat.not_lt_zero k)
  | succ size ih =>
    rw [hexifyAt_succ (by omega)]
    cases k with
    | zero =>
      show hexifyAt _ _ _ _ hex = hexdigits.getD (mem buf >>> 4).toNat 0 ∧
        hexifyAt _ _ _ _ (hex + 1) = hexdigits.getD (mem buf &&& 0xF).toNat 0
      rw [hexifyAt_of_lt (by omega), hexifyAt_of_lt (by omega), Function.update_of_ne (by omega),
        Function.update_self, Function.update_self]
      exact ⟨rfl, rfl⟩
    | succ k =>
      have haddr : buf + (k + 1) = buf + 1 + k := by omega
      have hnext : hex + 2 * (k + 1) = hex + 2 + 2 * k := by omega
      have hbyte (x y : UInt8) : Function.update (Function.update mem hex x) (hex + 1) y
          (buf + 1 + k) = mem (buf + 1 + k) := by
        rw [Function.update_of_ne (by omega), Function.update_of_ne (by omega)]
      generalize hexdigits.getD (mem buf >>> 4).toNat 0 = high
      generalize hexdigits.getD (mem buf &&& 0xF).toNat 0 = low
      rw [haddr, hnext, ← hbyte high low]
      exact ih (by omega) (by omega)

/-- The bytes that are coded are decoded. -/
theorem unhexify_hexifyAt {out : Nat} (htext : hex + 2 * size ≤ buf ∨ buf + size ≤ hex)
    (hout : out ≤ hex ∨ hex + 2 * size ≤ out) (hk : k < size) :
    unhexify (hexifyAt mem hex buf size) out hex size (out + k) = mem (buf + k) := by
  rw [unhexify_apply hout hk, pairAt, (hexifyAt_digits htext hk).1, (hexifyAt_digits htext hk).2,
    unhex_hexdigits]

end

/-! ## Numbers -/

theorem shiftRight_toNat (param : UInt64) : (param >>> 4).toNat = param.toNat / 16 := by
  rw [UInt64.toNat_shiftRight]
  exact Nat.shiftRight_eq_div_pow param.toNat 4

theorem nibble_toNat (param : UInt64) : (param &&& 0x0F).toNat = param.toNat % 16 := by
  rw [UInt64.toNat_and]
  exact Nat.and_two_pow_sub_one_eq_mod param.toNat 4

theorem ntoh_ofNat : ∀ n < 16, ntoh (UInt64.ofNat n) = UInt8.ofNat (Nat.digitChar n).toNat ∧
    hexDigit? (ntoh (UInt64.ofNat n)) = some n := by
  decide

/-- `NTOH` and its inverse in `remotehston`. -/
theorem ntoh_nibble (param : UInt64) :
    ntoh (param &&& 0x0F) = UInt8.ofNat (Nat.digitChar (param.toNat % 16)).toNat ∧
      hexDigit? (ntoh (param &&& 0x0F)) = some (param.toNat % 16) := by
  have hdigit := ntoh_ofNat (param.toNat % 16) (Nat.mod_lt _ (by decide))
  rw [← nibble_toNat] at hdigit ⊢
  rwa [UInt64.ofNat_toNat] at hdigit

/-- Nothing is left behind the first digit just if the number has no other. -/
theorem shiftRight_eq_zero_iff (param : UInt64) : param >>> 4 = 0 ↔ param.toNat < 16 := by
  rw [← UInt64.toNat_inj, shiftRight_toNat]
  show param.toNat / 16 = 0 ↔ _
  omega

/-- The digits of `_respond` in the order in which they are sent. -/
theorem digits_eq (param : UInt64) : digits param = (respondDigits param).reverse := by
  induction param using respondDigits.induct with
  | case1 param ih =>
    rw [digits, respondDigits, List.reverse_cons, Nat.toDigits_eq_if (by decide),
      (ntoh_nibble param).1]
    by_cases hlast : param >>> 4 = 0
    · have hsmall := (shiftRight_eq_zero_iff param).mp hlast
      rw [if_pos hsmall, dif_pos hlast, Nat.mod_eq_of_lt hsmall]
      rfl
    · have hlarge := mt (shiftRight_eq_zero_iff param).mpr hlast
      rw [if_neg hlarge, dif_neg hlast, List.map_append, ← ih hlast, digits, shiftRight_toNat]
      rfl

/-- They fit into the buffer of `_respond`. -/
theorem respondDigits_length (param : UInt64) : (respondDigits param).length ≤ 16 := by
  have hlength := (Nat.length_toDigits_le_iff (b := 16) (n := param.toNat) (k := 16) (by decide)
    (by decide)).mpr param.toNat_lt
  have heq := congrArg List.length (digits_eq param)
  rw [digits, List.length_map, List.length_reverse] at heq
  omega

/-- The number that `remotehston` has behind a digit. -/
def hstonStep (ret : UInt64) (c : UInt8) : UInt64 :=
  ret <<< 4 ||| UInt64.ofNat ((hexDigit? c).getD 0)

theorem hstonStep_ntoh (param : UInt64) :
    hstonStep (param >>> 4) (ntoh (param &&& 0x0F)) = param := by
  have hparam := param.toNat_lt
  have hlow : param.toNat % 16 < 2 ^ 4 := Nat.mod_lt _ (by decide)
  have hsum := Nat.two_pow_add_eq_or_of_lt hlow (param.toNat / 16)
  rw [hstonStep, (ntoh_nibble param).2, Option.getD_some]
  apply UInt64.toNat_inj.mp
  rw [UInt64.toNat_or, UInt64.toNat_shiftLeft, shiftRight_toNat,
    UInt64.toNat_ofNat_of_lt' (show param.toNat % 16 < 2 ^ 64 by omega)]
  show (param.toNat / 16) <<< 4 % 2 ^ 64 ||| _ = _
  rw [Nat.shiftLeft_eq, Nat.mod_eq_of_lt (by omega), Nat.mul_comm, ← hsum]
  omega

theorem foldl_hstonStep (param : UInt64) :
    (respondDigits param).reverse.foldl hstonStep 0 = param := by
  induction param using respondDigits.induct with
  | case1 param ih =>
    rw [respondDigits, List.reverse_cons, List.foldl_append]
    by_cases hlast : param >>> 4 = 0
    · rw [dif_pos hlast]
      show hstonStep 0 _ = param
      rw [← hlast, hstonStep_ntoh]
    · rw [dif_neg hlast, ih hlast]
      exact hstonStep_ntoh param

theorem isHex_digits {param : UInt64} {c : UInt8} (h : c ∈ respondDigits param) :
    isHex c = true := by
  induction param using respondDigits.induct with
  | case1 param ih =>
    rw [respondDigits] at h
    rcases List.mem_cons.mp h with rfl | hrest
    · rw [isHex, (ntoh_nibble param).2]
      rfl
    · by_cases hlast : param >>> 4 = 0
      · rw [dif_pos hlast] at hrest
        contradiction
      · rw [dif_neg hlast] at hrest
        exact ih hlast hrest

/-- A text of digits is read to its end. -/
theorem go_digits {packet : Buffer} {cs : List UInt8} (hcs : ∀ c ∈ cs, isHex c = true)
    {limit pos : Nat} (hpacket : ∀ i < cs.length, packet (pos + i) = cs.getD i 0)
    (hlimit : cs.length ≤ limit)
    (hend : hexDigit? (packet (pos + cs.length)) = none ∨ limit = cs.length) (ret : UInt64) :
    remotehston.go packet limit pos ret = cs.foldl hstonStep ret := by
  induction cs generalizing limit pos ret with
  | nil =>
    cases limit with
    | zero => rfl
    | succ limit =>
      have hstop : hexDigit? (packet pos) = none := hend.resolve_right (Nat.succ_ne_zero limit)
      rw [remotehston.go, hstop]
      rfl
  | cons c cs ih =>
    obtain ⟨limit, rfl⟩ := Nat.exists_eq_succ_of_ne_zero
      (Nat.ne_of_gt (Nat.lt_of_lt_of_le (Nat.succ_pos cs.length) hlimit))
    have hc : packet pos = c := hpacket 0 (Nat.succ_pos cs.length)
    obtain ⟨d, hd⟩ := Option.isSome_iff_exists.mp (hcs c List.mem_cons_self)
    have hstep : hstonStep ret c = ret <<< 4 ||| UInt64.ofNat d := by
      rw [hstonStep, hd, Option.getD_some]
    rw [remotehston.go, hc, hd, List.foldl_cons, hstep]
    refine ih (fun c hmem => hcs c (List.mem_cons_of_mem _ hmem)) (fun i hi => ?_)
      (Nat.le_of_succ_le_succ hlimit) ?_ _
    · rw [Nat.add_assoc, Nat.add_comm 1]
      exact hpacket (i + 1) (Nat.succ_lt_succ hi)
    · rw [Nat.add_assoc, Nat.add_comm 1]
      exact hend.imp_right Nat.succ.inj

/-- The digits of `_respond` are read as the number they were made of. -/
theorem remotehston_digits {packet : Buffer} {param : UInt64} {limit pos : Nat}
    (hpacket : ∀ i < (digits param).length, packet (pos + i) = (digits param).getD i 0)
    (hlimit : (digits param).length ≤ limit)
    (hend : hexDigit? (packet (pos + (digits param).length)) = none ∨
      limit = (digits param).length) :
    remotehston limit packet pos = param := by
  have hhex : ∀ c ∈ digits param, isHex c = true := by
    intro c hc
    rw [digits_eq, List.mem_reverse] at hc
    exact isHex_digits hc
  rw [remotehston, go_digits hhex hpacket hlimit hend, digits_eq, foldl_hstonStep]

/-! ## The round trips -/

/-- The destination does not begin behind the source, or begins behind its end. -/
abbrev InFront (out hex size : Nat) : Prop := out ≤ hex ∨ hex + 2 * size ≤ out

/-- Two parts of the memory have no byte in common. -/
abbrev ApartFrom (a n b m : Nat) : Prop := a + n ≤ b ∨ b + m ≤ a

/-- What is coded is decoded, digits of both cases alike, in place as elsewhere, and the number of
an answer is read from its digits. -/
theorem hex_round_trip :
    (∀ (mem : Buffer) (hex buf out size : Nat), ApartFrom hex (2 * size + 1) buf size →
      InFront out hex size → ∀ k < size,
        unhexify (hexifyAt mem hex buf size) out hex size (out + k) = mem (buf + k)) ∧
    (∀ (mem mem' : Buffer) (hex out size : Nat), InFront out hex size →
      (∀ k < 2 * size, isHex (mem (hex + k)) = true ∧ isHex (mem' (hex + k)) = true ∧
        toLower (mem (hex + k)) = toLower (mem' (hex + k))) → ∀ k < size,
        unhexify mem out hex size (out + k) = unhexify mem' out hex size (out + k)) ∧
    (∀ (mem : Buffer) (hex buf out size : Nat), buf ≤ hex → ApartFrom out size hex (2 * size) →
      ∀ k < size,
        unhexify mem buf hex size (buf + k) = unhexify mem out hex size (out + k)) ∧
    (∀ (packet : Buffer) (param : UInt64) (limit pos : Nat),
      (∀ i < (respondDigits param).length,
        packet (pos + i) = (respondDigits param).reverse.getD i 0) →
      (respondDigits param).length ≤ limit →
      hexDigit? (packet (pos + (respondDigits param).length)) = none ∨
        limit = (respondDigits param).length →
      remotehston limit packet pos = param) := by
  refine ⟨?_, ?_, ?_, ?_⟩
  · intro mem hex buf out size htext hout k hk
    exact unhexify_hexifyAt (htext.imp_left fun h => by omega) hout hk
  · intro mem mem' hex out size hout hcase k hk
    have hdigit (k : Nat) (hk : k < 2 * size) :
        unhexDigit (mem (hex + k)) = unhexDigit (mem' (hex + k)) := by
      obtain ⟨hleft, hright, hsame⟩ := hcase k hk
      rw [← unhexDigit_toLower _ hleft, hsame, unhexDigit_toLower _ hright]
    rw [unhexify_apply hout hk, unhexify_apply hout hk, pairAt, pairAt, hdigit (2 * k) (by omega),
      Nat.add_assoc, hdigit (2 * k + 1) (by omega)]
  · intro mem hex buf out size hbuf hout k hk
    rw [unhexify_apply (Or.inl hbuf) hk, unhexify_apply (by omega) hk]
  · intro packet param limit pos hpacket hlimit hend
    rw [← List.length_reverse, ← digits_eq] at hpacket hlimit hend
    exact remotehston_digits hpacket hlimit hend

end MiyakoLink.Remote
