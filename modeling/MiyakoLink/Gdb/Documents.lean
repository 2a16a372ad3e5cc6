import MiyakoLink.Lib.Sscanf

/-!
# Documents in parts

GDB reads a document with requests for an offset and a length, which `handle_q_string_reply`
answers: `m` with the next part, `l` at the end and an error behind it.

* `handleQStringReply_reads`: the parts of a transfer are the document.
-/

namespace MiyakoLink.Gdb

open Lib

/-- `strncpy`, of which the last bytes are zeros if the string is short. -/
def strncpy (s : List UInt8) (n : Nat) : List UInt8 :=
  (cstr s).take n ++ List.replicate (n - (cstr s).length) 0

/-- `sscanf(param, "%08lx,%08lx", &addr, &len)`, if both are assigned. -/
def scanRequest (param : List UInt8) : Option (UInt32 × UInt32) :=
  (scanHex (some 8) (cstr param)).bind fun addr =>
    (addr.2.dropPrefix? (ascii ",")).bind fun rest =>
      (scanHex (some 8) rest).map fun len => (addr.1, len.1)

/-- `handle_q_string_reply`. -/
def handleQStringReply (str param : List UInt8) : List UInt8 :=
  match scanRequest param with
  | none => ascii "E01"
  | some (addr, len) =>
    if addr.toNat < (cstr str).length then
      let reply := 0x6D :: strncpy (str.drop addr.toNat) len.toNat
      let rest := (cstr (str.drop addr.toNat)).length
      reply.take ((if len.toNat > rest then rest else len.toNat) + 1)
    else if addr.toNat = (cstr str).length then ascii "l"
    else ascii "E01"

section

variable {str param : List UInt8} {addr len : UInt32}

/-- The part of the document that is asked for. -/
theorem handleQStringReply_part (h : scanRequest param = some (addr, len))
    (hlt : addr.toNat < (cstr str).length) :
    handleQStringReply str param = 0x6D :: ((cstr str).drop addr.toNat).take len.toNat := by
  unfold handleQStringReply strncpy
  rw [h]
  dsimp only
  rw [if_pos hlt, cstr_drop (Nat.le_of_lt hlt), List.take_succ_cons]
  generalize (cstr str).drop addr.toNat = rest
  congr 1
  split
  · next hgt =>
    rw [List.take_of_length_le (Nat.le_of_lt hgt), List.take_left]
  · next hle =>
    rw [List.take_append_of_le_length, List.take_take, Nat.min_self]
    rw [List.length_take]
    omega

theorem handleQStringReply_last (h : scanRequest param = some (addr, len))
    (heq : addr.toNat = (cstr str).length) : handleQStringReply str param = ascii "l" := by
  unfold handleQStringReply
  rw [h]
  dsimp only
  rw [if_neg (by omega), if_pos heq]

theorem handleQStringReply_past (h : scanRequest param = some (addr, len))
    (hgt : (cstr str).length < addr.toNat) : handleQStringReply str param = ascii "E01" := by
  unfold handleQStringReply
  rw [h]
  dsimp only
  rw [if_neg (by omega), if_neg (by omega)]

end

/-! ## Transfers -/

section

variable (str : List UInt8) (params : Nat → List UInt8)

def reply (k : Nat) : List UInt8 := handleQStringReply str (params k)

/-- How much of the document has come before a request. -/
def offset : Nat → Nat
  | 0 => 0
  | k + 1 => offset k + (reply str params k).tail.length

/-- The requests start at the front, go on where the replies have come to, ask for at least one
byte and at most half a packet each time, and stop at the last reply. -/
structure Transfer (lens : Nat → UInt32) : Prop where
  asks : ∀ k, (∀ j < k, reply str params j ≠ ascii "l") → ∃ addr,
    scanRequest (params k) = some (addr, lens k) ∧ addr.toNat = offset str params k
  pos : ∀ k, 1 ≤ (lens k).toNat
  le : ∀ k, (lens k).toNat ≤ 512

/-- What has been read so far. -/
def received (n : Nat) : List UInt8 := (List.range n).flatMap fun k => (reply str params k).tail

end

section

variable {str : List UInt8} {params : Nat → List UInt8} {lens : Nat → UInt32} {n : Nat}

/-- The replies so far are parts of the document, one behind the other. -/
structure Reading (str : List UInt8) (params : Nat → List UInt8) (lens : Nat → UInt32) (n : Nat) :
    Prop where
  parts : ∀ k < n, ∃ data, reply str params k = 0x6D :: data ∧ 1 ≤ data.length ∧
    data.length ≤ (lens k).toNat
  received : received str params n = (cstr str).take (offset str params n)
  le : offset str params n ≤ (cstr str).length
  count : n ≤ offset str params n

theorem Reading.start : Reading str params lens 0 where
  parts _ h := absurd h (Nat.not_lt_zero _)
  received := rfl
  le := Nat.zero_le _
  count := Nat.le_refl _

theorem Reading.not_last (h : Reading str params lens n) : ∀ k < n, reply str params k ≠ ascii "l" := by
  intro k hk hlast
  obtain ⟨data, hreply, -⟩ := h.parts k hk
  rw [hreply] at hlast
  exact absurd (List.cons.inj hlast).1 (by decide)

theorem Reading.next (h : Reading str params lens n) (ht : Transfer str params lens)
    (hlt : offset str params n < (cstr str).length) : Reading str params lens (n + 1) := by
  obtain ⟨addr, hscan, haddr⟩ := ht.asks n h.not_last
  have hpos := ht.pos n
  have hreply : reply str params n =
      0x6D :: ((cstr str).drop (offset str params n)).take (lens n).toNat := by
    rw [← haddr]
    exact handleQStringReply_part hscan (haddr ▸ hlt)
  have hlength : (((cstr str).drop (offset str params n)).take (lens n).toNat).length =
      min (lens n).toNat ((cstr str).length - offset str params n) := by
    rw [List.length_take, List.length_drop]
  have hoffset : offset str params (n + 1) = offset str params n +
      min (lens n).toNat ((cstr str).length - offset str params n) := by
    rw [offset, hreply, List.tail_cons, hlength]
  have hcount := h.count
  constructor
  case parts =>
    intro k hk
    rcases Nat.lt_succ_iff_lt_or_eq.mp hk with hk | rfl
    · exact h.parts k hk
    · exact ⟨_, hreply, by omega, by omega⟩
  case received =>
    unfold Gdb.received
    rw [List.range_succ, List.flatMap_append, List.flatMap_singleton, hreply, List.tail_cons]
    have hbefore := h.received
    unfold Gdb.received at hbefore
    rw [hbefore, hoffset, List.take_add]
    congr 1
    rw [← List.length_drop, List.take_eq_take_min]
  case le => omega
  case count => omega

/-- The replies to the requests of a transfer are the document in parts and a last one, and an
offset behind the document is an error. -/
theorem handleQStringReply_reads (ht : Transfer str params lens) :
    (∃ n ≤ (cstr str).length,
      (∀ k < n, ∃ data, reply str params k = 0x6D :: data ∧ 1 ≤ data.length ∧
        data.length ≤ (lens k).toNat) ∧
      reply str params n = ascii "l" ∧ received str params n = cstr str) ∧
    ∀ param addr len, scanRequest param = some (addr, len) → (cstr str).length < addr.toNat →
      handleQStringReply str param = ascii "E01" := by
  refine ⟨?_, fun param addr len hscan hgt => handleQStringReply_past hscan hgt⟩
  have hruns (m : Nat) : ∃ n, Reading str params lens n ∧
      (offset str params n = (cstr str).length ∨ m ≤ n) := by
    induction m with
    | zero => exact ⟨0, Reading.start, Or.inr (Nat.le_refl 0)⟩
    | succ m ih =>
      obtain ⟨n, hn, hend | hm⟩ := ih
      · exact ⟨n, hn, Or.inl hend⟩
      · by_cases hlt : offset str params n < (cstr str).length
        · exact ⟨n + 1, hn.next ht hlt, Or.inr (Nat.succ_le_succ hm)⟩
        · exact ⟨n, hn, Or.inl (Nat.le_antisymm hn.le (Nat.le_of_not_lt hlt))⟩
  obtain ⟨n, hn, hend⟩ := hruns ((cstr str).length + 1)
  have hcount := hn.count
  have hle := hn.le
  have hend : offset str params n = (cstr str).length := hend.resolve_right (by omega)
  obtain ⟨addr, hscan, haddr⟩ := ht.asks n hn.not_last
  refine ⟨n, by omega, hn.parts, handleQStringReply_last hscan (haddr.trans hend), ?_⟩
  rw [hn.received, hend, List.take_length]

end

/-- The requests for two bytes, one at a time. -/
def shortRequests : Nat → List UInt8
  | 0 => ascii "0,1"
  | 1 => ascii "1,1"
  | _ => ascii "2,1"

theorem shortRequests_transfer : Transfer (ascii "ab") shortRequests fun _ => 1 where
  asks k h := by
    match k with
    | 0 => exact ⟨0, by decide, by decide⟩
    | 1 => exact ⟨1, by decide, by decide⟩
    | 2 => exact ⟨2, by decide, by decide⟩
    | k + 3 => exact absurd (by decide) (h 2 (by omega))
  pos _ := by decide
  le _ := by decide

theorem handleQStringReply_reads_short :
    (∃ n ≤ (cstr (ascii "ab")).length,
      (∀ k < n, ∃ data, reply (ascii "ab") shortRequests k = 0x6D :: data ∧ 1 ≤ data.length ∧
        data.length ≤ (1 : UInt32).toNat) ∧
      reply (ascii "ab") shortRequests n = ascii "l" ∧
      received (ascii "ab") shortRequests n = cstr (ascii "ab")) ∧
    ∀ param addr len, scanRequest param = some (addr, len) →
      (cstr (ascii "ab")).length < addr.toNat →
      handleQStringReply (ascii "ab") param = ascii "E01" :=
  handleQStringReply_reads shortRequests_transfer

end MiyakoLink.Gdb
