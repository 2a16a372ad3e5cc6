import Mathlib.Data.List.Induction
import MiyakoLink.Lib.CString
import MiyakoLink.Lib.Image

/-!
# Texts printed one behind the other

`snprintf(buf, len, …)` writes as much of a text as fits before a NUL and returns the length of
the whole text. `printPieces` is the usual way to build a document in a buffer of `len` bytes,
`i += snprintf(&tmp[i], len - i, …)` for one text after the other. Lengths are `size_t` of 32
bits, so `len - i` wraps once a text has not fit.

* `printPieces_inside`, `printPieces_outside`: it writes behind the buffer when a text begins
  behind it, and only then.
* `printPieces_reads`: the buffer holds the front of the document and a NUL.
-/

namespace MiyakoLink.Lib

abbrev Writes := List (UInt32 × UInt8)

/-- The returned length and the bytes that are written. -/
def snprintf (buf len : UInt32) (text : List UInt8) : UInt32 × Writes :=
  (UInt32.ofNat text.length,
    if len = 0 then [] else placed buf (text.take (len.toNat - 1) ++ [0]))

/-- `i += print(&tmp[i], len - i)`. -/
def appendTo (tmp len : UInt32) (print : UInt32 → UInt32 → UInt32 × Writes)
    (s : UInt32 × Writes) : UInt32 × Writes :=
  let r := print (tmp + s.1) (len - s.1)
  (s.1 + r.1, s.2 ++ r.2)

def printPieces (tmp len : UInt32) (pieces : List (List UInt8)) (s : UInt32 × Writes) :
    UInt32 × Writes :=
  pieces.foldl (fun s text => appendTo tmp len (snprintf · · text) s) s

/-- What is in memory after some writes. -/
def written (mem : UInt32 → UInt8) (ws : Writes) : UInt32 → UInt8 :=
  ws.foldl (fun m w => Function.update m w.1 w.2) mem

/-- Only the `len` bytes from an address on are written. -/
def Inside (tmp : UInt32) (len : Nat) (ws : Writes) : Prop := ∀ w ∈ ws, (w.1 - tmp).toNat < len

variable {tmp len : UInt32} {pieces : List (List UInt8)} {text : List UInt8} {s : UInt32 × Writes}

theorem ofNat_toNat {n : Nat} (h : n < 2 ^ 32) : (UInt32.ofNat n).toNat = n :=
  UInt32.toNat_ofNat_of_lt' h

theorem sub_sub_room (len a b : UInt32) : len - a - b = len - (a + b) := by
  grind

/-! ## Composition -/

theorem appendTo_snprintf_fst :
    (appendTo tmp len (snprintf · · text) s).1 = s.1 + UInt32.ofNat text.length :=
  rfl

theorem printPieces_one :
    printPieces tmp len [text] s = appendTo tmp len (snprintf · · text) s :=
  rfl

theorem printPieces_append (more : List (List UInt8)) :
    printPieces tmp len (pieces ++ more) s =
      printPieces tmp len more (printPieces tmp len pieces s) :=
  List.foldl_append

theorem printPieces_fst :
    (printPieces tmp len pieces s).1 = s.1 + UInt32.ofNat pieces.flatten.length := by
  induction pieces generalizing s with
  | nil => exact (UInt32.add_zero s.1).symm
  | cons text pieces ih =>
    show (printPieces tmp len pieces _).1 = _
    rw [ih, appendTo_snprintf_fst, List.flatten_cons, List.length_append, UInt32.ofNat_add,
      UInt32.add_assoc]

/-- A printer of some pieces at a place of its own prints them at the end of the buffer. -/
theorem appendTo_printPieces :
    appendTo tmp len (fun buf room => printPieces buf room pieces (0, [])) s =
      printPieces tmp len pieces s := by
  have hgen (done : UInt32 × Writes) :
      (s.1 + (printPieces (tmp + s.1) (len - s.1) pieces done).1,
        s.2 ++ (printPieces (tmp + s.1) (len - s.1) pieces done).2) =
      printPieces tmp len pieces (s.1 + done.1, s.2 ++ done.2) := by
    induction pieces generalizing done with
    | nil => rfl
    | cons text pieces ih =>
      have hstep : (s.1 + (appendTo (tmp + s.1) (len - s.1) (snprintf · · text) done).1,
            s.2 ++ (appendTo (tmp + s.1) (len - s.1) (snprintf · · text) done).2) =
          appendTo tmp len (snprintf · · text) (s.1 + done.1, s.2 ++ done.2) := by
        simp only [appendTo, snprintf, UInt32.add_assoc, List.append_assoc, sub_sub_room]
      have hrest := ih (appendTo (tmp + s.1) (len - s.1) (snprintf · · text) done)
      rw [hstep] at hrest
      exact hrest
  have hstart := hgen (0, [])
  rw [UInt32.add_zero, List.append_nil] at hstart
  exact hstart

theorem printPieces_concat (last : List UInt8) :
    (printPieces tmp len (pieces ++ [last]) (0, [])).2 =
      (printPieces tmp len pieces (0, [])).2 ++
        (snprintf (tmp + UInt32.ofNat pieces.flatten.length)
          (len - UInt32.ofNat pieces.flatten.length) last).2 := by
  rw [printPieces_append]
  show _ ++ (snprintf _ _ last).2 = _
  rw [printPieces_fst, UInt32.zero_add]

theorem written_append (mem : UInt32 → UInt8) (ws more : Writes) :
    written mem (ws ++ more) = written (written mem ws) more :=
  List.foldl_append

/-! ## What is written -/

theorem snprintf_written (mem : UInt32 → UInt8) {buf room : UInt32} (h : room ≠ 0) :
    written mem (snprintf buf room text).2 =
      overlay mem buf (text.take (room.toNat - 1) ++ [0]) := by
  have hroom := room.toNat_lt
  unfold snprintf written
  dsimp only
  rw [if_neg h]
  apply foldl_placed
  rw [List.length_append, List.length_take, List.length_singleton]
  omega

/-- The room that is left in front of the end. -/
theorem room_toNat {n : Nat} (h : n ≤ len.toNat) :
    (len - UInt32.ofNat n).toNat = len.toNat - n := by
  have hlen := len.toNat_lt
  have hn : (UInt32.ofNat n).toNat = n := ofNat_toNat (by omega)
  rw [UInt32.toNat_sub, hn]
  omega

theorem snprintf_inside {n : Nat} (h : n ≤ len.toNat) :
    Inside tmp len.toNat
      (snprintf (tmp + UInt32.ofNat n) (len - UInt32.ofNat n) text).2 := by
  intro w hw
  have hlen := len.toNat_lt
  have hroom := room_toNat h
  unfold snprintf at hw
  dsimp only at hw
  split at hw
  · exact absurd hw List.not_mem_nil
  · next hne =>
    obtain ⟨k, hk, haddr⟩ := mem_placed hw
    have hpos : (len - UInt32.ofNat n).toNat ≠ 0 := fun h0 => hne (UInt32.toNat_inj.mp h0)
    rw [List.length_append, List.length_take, List.length_singleton, hroom] at hk
    have hsum : w.1 - tmp = UInt32.ofNat (n + k) := by
      rw [haddr, UInt32.add_assoc, ← UInt32.ofNat_add, UInt32.add_comm, UInt32.add_sub_cancel]
    rw [hsum, ofNat_toNat (by omega)]
    omega

/-- The texts stay in the buffer if the last one begins in it. -/
theorem printPieces_inside {last : List UInt8} (h : pieces.flatten.length ≤ len.toNat) :
    Inside tmp len.toNat (printPieces tmp len (pieces ++ [last]) (0, [])).2 := by
  induction pieces using List.reverseRecOn generalizing last with
  | nil =>
    rw [printPieces_concat]
    intro w hw
    rcases List.mem_append.mp hw with hw | hw
    · exact absurd hw List.not_mem_nil
    · exact snprintf_inside (Nat.zero_le _) w hw
  | append_singleton front text ih =>
    rw [printPieces_concat]
    intro w hw
    have hfront : front.flatten.length ≤ len.toNat := by
      rw [List.flatten_append, List.length_append] at h
      omega
    rcases List.mem_append.mp hw with hw | hw
    · exact ih hfront w hw
    · exact snprintf_inside h w hw

/-- A text that begins behind the buffer is written there. -/
theorem printPieces_outside {last : List UInt8} {bound : Nat} (hlen : len.toNat + bound < 2 ^ 32)
    (htexts : ∀ text ∈ pieces, text.length ≤ bound) (h : len.toNat < pieces.flatten.length) :
    ¬ Inside tmp len.toNat (printPieces tmp len (pieces ++ [last]) (0, [])).2 := by
  induction pieces using List.reverseRecOn generalizing last with
  | nil => exact absurd h (Nat.not_lt_zero _)
  | append_singleton front text ih =>
    rw [printPieces_concat]
    intro hin
    by_cases hfront : len.toNat < front.flatten.length
    · exact ih (fun t ht => htexts t (List.mem_append_left _ ht)) hfront
        fun w hw => hin w (List.mem_append_left _ hw)
    · have htext := htexts text (List.mem_append_right _ List.mem_cons_self)
      have htotal : (front ++ [text]).flatten.length = front.flatten.length + text.length := by
        rw [List.flatten_append, List.length_append, List.flatten_singleton]
      have hoff : (UInt32.ofNat (front ++ [text]).flatten.length).toNat =
          (front ++ [text]).flatten.length := ofNat_toNat (by omega)
      have hroom : len - UInt32.ofNat (front ++ [text]).flatten.length ≠ 0 := by
        intro hzero
        have heq := UInt32.sub_add_cancel len (UInt32.ofNat (front ++ [text]).flatten.length)
        rw [hzero, UInt32.zero_add] at heq
        rw [← heq, hoff] at h
        exact Nat.lt_irrefl _ h
      generalize hn : (front ++ [text]).flatten.length = n at hin hoff hroom h
      have hfirst : ∃ b, (tmp + UInt32.ofNat n, b) ∈
          (snprintf (tmp + UInt32.ofNat n) (len - UInt32.ofNat n) last).2 := by
        unfold snprintf
        dsimp only
        rw [if_neg hroom]
        cases last.take ((len - UInt32.ofNat n).toNat - 1) with
        | nil => exact ⟨0, List.mem_cons_self⟩
        | cons b rest => exact ⟨b, List.mem_cons_self⟩
      obtain ⟨b, hb⟩ := hfirst
      have hlt := hin _ (List.mem_append_right _ hb)
      rw [add_sub_toNat (by omega)] at hlt
      omega

/-! ## What is read -/

/-- As much of a text as fits, and a NUL. -/
def truncated (len : Nat) (text : List UInt8) : List UInt8 := text.take (len - 1) ++ [0]

/-- Another text over the end of a placed one. -/
theorem overlay_over_end {c d e : List UInt8} {n : Nat} (mem : UInt32 → UInt8)
    (hn : n = c.length) (he : e.length ≤ d.length) (h : c.length + d.length ≤ 2 ^ 32) (hd : d ≠ []) :
    overlay (overlay mem tmp (c ++ e)) (tmp + UInt32.ofNat n) d = overlay mem tmp (c ++ d) := by
  have hpos := List.length_pos_iff.mpr hd
  have hoff : (UInt32.ofNat n).toNat = c.length := by
    rw [ofNat_toNat (by omega), hn]
  rw [← overlay_append hoff (by omega) mem, ← overlay_append hoff (by omega) mem]
  funext a
  unfold overlay
  cases hget : bytesAt (tmp + UInt32.ofNat n) d a with
  | some b => rfl
  | none =>
    have hnone : bytesAt (tmp + UInt32.ofNat n) e a = none := by
      unfold bytesAt at hget ⊢
      rw [List.getElem?_eq_none_iff] at hget ⊢
      omega
    rw [hnone]
    rfl

/-- The buffer holds the front of the document and a NUL, if the last text begins in it. -/
theorem printPieces_reads {last : List UInt8} (mem : UInt32 → UInt8) (hpos : 0 < len.toNat)
    (h : pieces.flatten.length ≤ len.toNat) :
    written mem (printPieces tmp len (pieces ++ [last]) (0, [])).2 =
      overlay mem tmp (truncated len.toNat (pieces ++ [last]).flatten) := by
  induction pieces using List.reverseRecOn generalizing last with
  | nil =>
    have hne : len - UInt32.ofNat 0 ≠ 0 := by
      intro hzero
      have hroom : (len - UInt32.ofNat 0).toNat = _ := room_toNat (Nat.zero_le _)
      rw [hzero, UInt32.toNat_zero] at hroom
      omega
    rw [printPieces_concat, written_append]
    show written mem (snprintf (tmp + UInt32.ofNat 0) (len - UInt32.ofNat 0) last).2 = _
    rw [snprintf_written mem hne, room_toNat (Nat.zero_le _)]
    show overlay mem (tmp + 0) (last.take (len.toNat - 0 - 1) ++ [0]) = _
    rw [UInt32.add_zero, Nat.sub_zero, List.nil_append, List.flatten_singleton]
    rfl
  | append_singleton front text ih =>
    have hlen := len.toNat_lt
    have hfront : front.flatten.length ≤ len.toNat := by
      rw [List.flatten_append, List.length_append] at h
      omega
    rw [printPieces_concat, written_append, ih hfront]
    have hroom := room_toNat h
    have hdoc : (front ++ [text] ++ [last]).flatten = (front ++ [text]).flatten ++ last := by
      rw [List.flatten_append, List.flatten_singleton]
    rw [hdoc]
    generalize hd : (front ++ [text]).flatten = doc at h hroom ⊢
    unfold truncated
    by_cases hfull : doc.length = len.toNat
    · have hzero : len - UInt32.ofNat doc.length = 0 := by
        apply UInt32.toNat_inj.mp
        rw [hroom, hfull, Nat.sub_self]
        rfl
      unfold snprintf
      dsimp only
      rw [if_pos hzero, List.take_append_of_le_length (by omega)]
      rfl
    · have hne : len - UInt32.ofNat doc.length ≠ 0 := by
        intro hzero
        rw [hzero, UInt32.toNat_zero] at hroom
        omega
      rw [snprintf_written _ hne, hroom, List.take_of_length_le (i := len.toNat - 1) (by omega),
        List.take_append, List.take_of_length_le (i := len.toNat - 1) (by omega),
        List.append_assoc]
      have heq : len.toNat - doc.length - 1 = len.toNat - 1 - doc.length := by omega
      rw [heq]
      apply overlay_over_end mem rfl
      · rw [List.length_append, List.length_singleton]
        omega
      · rw [List.length_append, List.length_singleton, List.length_take]
        omega
      · exact List.append_ne_nil_of_right_ne_nil _ (List.cons_ne_nil _ _)

theorem truncated_length {n : Nat} (hpos : 0 < n) (text : List UInt8) :
    (truncated n text).length = min n (text.length + 1) := by
  rw [truncated, List.length_append, List.length_take, List.length_singleton]
  omega

/-- A buffer begins with what was placed there. -/
theorem readBytes_front {data : List UInt8} {n : Nat} (mem : UInt32 → UInt8)
    (h : data.length ≤ n) (hsize : data.length ≤ 2 ^ 32) :
    ∃ rest, readBytes (overlay mem tmp data) tmp n = data ++ rest := by
  obtain ⟨k, rfl⟩ := Nat.exists_eq_add_of_le h
  exact ⟨_, by rw [readBytes_add, readBytes_overlay mem tmp hsize]⟩

/-- The string in a buffer with a truncated text. -/
theorem cstr_truncated {n : Nat} {text : List UInt8} (mem : UInt32 → UInt8) (hpos : 0 < n)
    (hn : n ≤ 2 ^ 32) (htext : ∀ c ∈ text, c ≠ 0) :
    cstr (readBytes (overlay mem tmp (truncated n text)) tmp n) = text.take (n - 1) := by
  have hlength := truncated_length hpos text
  obtain ⟨rest, hread⟩ : ∃ rest, readBytes (overlay mem tmp (truncated n text)) tmp n =
      truncated n text ++ rest := readBytes_front mem (by omega) (by omega)
  have hall := cstr_append (s := text.take (n - 1))
    (fun c hc => htext c (List.mem_of_mem_take hc)) []
  rw [List.append_nil] at hall
  rw [hread, truncated, List.append_assoc, List.singleton_append, cstr_append_nul]
  exact hall.trans (List.append_nil _)

/-- There is a NUL in a buffer with a truncated text. -/
theorem truncated_nul {n : Nat} (mem : UInt32 → UInt8) (hpos : 0 < n) (hn : n ≤ 2 ^ 32)
    (text : List UInt8) :
    ∃ k < n, overlay mem tmp (truncated n text) (tmp + UInt32.ofNat k) = 0 := by
  have hlength := truncated_length hpos text
  refine ⟨(text.take (n - 1)).length, ?_, ?_⟩
  · rw [List.length_take]
    omega
  · rw [overlay_inside mem (by rw [hlength, List.length_take]; omega) (by omega)]
    exact List.getElem_concat_length rfl _

end MiyakoLink.Lib
