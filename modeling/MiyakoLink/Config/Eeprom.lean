import Mathlib.Logic.Function.Basic
import Mathlib.Tactic.Common

/-!
# Writing to the EEPROM

`eeprom_write` against a part with pages of 8 bytes, which wraps inside of a page and may refuse a
transfer. The copies into the staging buffer are recorded, with the byte they copy too much.

* `eepromWrite_iff`: which of the things a write is for it achieves, and for which ranges.
-/

namespace MiyakoLink.Eeprom

/-! ## The part -/

/-- The address behind another one, in its page. -/
def nextInPage (a : UInt8) : UInt8 := UInt8.ofNat (a.toNat / 8 * 8 + (a.toNat + 1) % 8)

/-- The contents behind a transfer that is acknowledged. -/
def store (mem : UInt8 → UInt8) (a : UInt8) : List UInt8 → UInt8 → UInt8
  | [] => mem
  | b :: data => store (Function.update mem a b) (nextInPage a) data

/-! ## The function -/

/-- `EEPROM_MAX_WRITE_SIZE`. -/
abbrev maxWriteSize : Nat := 8

/-- `EEPROM_LAST_ADDR`. -/
abbrev lastAddr : Nat := 0xFA

/-- `EEPROM_WR_ATTEMPTS`. -/
abbrev wrAttempts : Nat := 100

/-- A `memcpy` from the caller's bytes to the staging buffer. -/
structure Copy where
  src : Nat
  dst : Nat
  size : Nat

/-- What has been copied and sent, and the contents of the part. -/
structure Trace where
  copies : List Copy
  transfers : List (UInt8 × List UInt8)
  mem : UInt8 → UInt8

/-- The inner loop from the `i`th transfer of a page on, with `left` of the attempts to go. It
ends with what is left of them, the number of transfers and the acknowledgement of the last. -/
def sendLoop (refuses : Nat → Bool) : Nat → Nat → Nat × Nat × Bool
  | 0, i => (0, i + 1, !refuses i)
  | left + 1, i => if refuses i then sendLoop refuses left (i + 1) else (left + 1, i + 1, true)

/-- The page that is sent in the `j`th turn. -/
def page (address : UInt8) (data : List UInt8) (j : Nat) : UInt8 × List UInt8 :=
  (address + UInt8.ofNat (maxWriteSize * j), (data.drop (maxWriteSize * j)).take maxWriteSize)

/-- A turn of the loop over the pages, and whether it goes on. -/
def sendPage (refuses : Nat → Bool) (address : UInt8) (data : List UInt8) (j : Nat) (t : Trace) :
    Bool × Trace :=
  let p := page address data j
  let sent := sendLoop refuses wrAttempts 0
  (sent.1 ≠ 0,
    { copies := t.copies ++ [⟨maxWriteSize * j, 1, p.2.length + 1⟩]
      transfers := t.transfers ++ List.replicate sent.2.1 p
      mem := if sent.2.2 then store t.mem p.1 p.2 else t.mem })

/-- The loop over the pages. `refuses j i` says if the `i`th transfer of the `j`th page is not
acknowledged. -/
def writeLoop (refuses : Nat → Nat → Bool) (address : UInt8) (data : List UInt8) (j : Nat)
    (t : Trace) : Bool × Trace :=
  if maxWriteSize * j < data.length then
    let s := sendPage (refuses j) address data j t
    if s.1 then writeLoop refuses address data (j + 1) s.2 else (false, s.2)
  else (true, t)
termination_by data.length - maxWriteSize * j
decreasing_by
  have hj : 8 * j < data.length := ‹_›
  show data.length - 8 * (j + 1) < data.length - 8 * j
  omega

/-- The test at the begin of `eeprom_write`. -/
def InRange (address : UInt8) (length : Nat) : Prop :=
  length ≤ lastAddr ∧ address.toNat + length ≤ lastAddr

instance (address : UInt8) (length : Nat) : Decidable (InRange address length) :=
  inferInstanceAs (Decidable (_ ∧ _))

/-- `eeprom_write`: its result and what it has done. -/
def eepromWrite (refuses : Nat → Nat → Bool) (address : UInt8) (data : List UInt8)
    (mem : UInt8 → UInt8) : Int × Trace :=
  if InRange address data.length then
    let r := writeLoop refuses address data 0 ⟨[], [], mem⟩
    (if r.1 then data.length else -1, r.2)
  else (-1, ⟨[], [], mem⟩)

/-! ## What a write is for -/

/-- The contents with `data` from `start` on. -/
def placedAt (mem : UInt8 → UInt8) (start : Nat) (data : List UInt8) (a : UInt8) : UInt8 :=
  if start ≤ a.toNat then data.getD (a.toNat - start) (mem a) else mem a

/-- All copies read the caller's bytes. -/
def Trace.ReadsInside (t : Trace) (length : Nat) : Prop := ∀ c ∈ t.copies, c.src + c.size ≤ length

/-- All copies fit into the staging buffer. -/
def Trace.StagesInside (t : Trace) : Prop := ∀ c ∈ t.copies, c.dst + c.size ≤ maxWriteSize + 1

/-- All transfers stay in a page. -/
def Trace.InPages (t : Trace) : Prop := ∀ p ∈ t.transfers, p.1.toNat % 8 + p.2.length ≤ 8

/-- Every page is acknowledged in time. -/
def Acked (refuses : Nat → Nat → Bool) (length : Nat) : Prop :=
  ∀ j, maxWriteSize * j < length → ∃ i < wrAttempts, refuses j i = false

/-- The write is inside of the buffers and of the pages, and it says if it has been done. -/
structure Lands (refuses : Nat → Nat → Bool) (address : UInt8) (data : List UInt8)
    (mem : UInt8 → UInt8) : Prop where
  reads : (eepromWrite refuses address data mem).2.ReadsInside data.length
  stages : (eepromWrite refuses address data mem).2.StagesInside
  pages : (eepromWrite refuses address data mem).2.InPages
  success : 0 ≤ (eepromWrite refuses address data mem).1 ↔ Acked refuses data.length
  contents : 0 ≤ (eepromWrite refuses address data mem).1 →
    (eepromWrite refuses address data mem).2.mem = placedAt mem address.toNat data

variable {refuses : Nat → Nat → Bool} {address : UInt8} {data : List UInt8} {mem : UInt8 → UInt8}

/-! ## Attempts -/

theorem sendLoop_refused {f : Nat → Bool} {i : Nat} (h : f i = true) (left : Nat) :
    sendLoop f (left + 1) i = sendLoop f left (i + 1) :=
  if_pos h

theorem sendLoop_acknowledged {f : Nat → Bool} {i : Nat} (h : f i = false) (left : Nat) :
    sendLoop f (left + 1) i = (left + 1, i + 1, true) :=
  if_neg (Bool.eq_false_iff.mp h)

theorem sendLoop_left (f : Nat → Bool) (left i : Nat) :
    (sendLoop f left i).1 ≠ 0 ↔ ∃ k < left, f (i + k) = false := by
  induction left generalizing i with
  | zero =>
    refine ⟨fun h => absurd rfl h, ?_⟩
    rintro ⟨k, hk, -⟩
    exact absurd hk (Nat.not_lt_zero k)
  | succ left ih =>
    cases hf : f i with
    | false =>
      rw [sendLoop_acknowledged hf]
      exact ⟨fun _ => ⟨0, Nat.succ_pos left, hf⟩, fun _ => Nat.succ_ne_zero left⟩
    | true =>
      rw [sendLoop_refused hf, ih]
      constructor
      · rintro ⟨k, hk, hfree⟩
        exact ⟨k + 1, by omega, by rwa [Nat.add_assoc, Nat.add_comm 1] at hfree⟩
      · rintro ⟨k, hk, hfree⟩
        cases k with
        | zero => rw [Nat.add_zero, hf] at hfree; contradiction
        | succ k => exact ⟨k, by omega, by rwa [Nat.add_assoc, Nat.add_comm 1]⟩

/-- A page with attempts left has been acknowledged. -/
theorem sendLoop_acked {f : Nat → Bool} {left i : Nat} (h : (sendLoop f left i).1 ≠ 0) :
    (sendLoop f left i).2.2 = true := by
  induction left generalizing i with
  | zero => exact absurd rfl h
  | succ left ih =>
    cases hf : f i with
    | false => rw [sendLoop_acknowledged hf]
    | true =>
      rw [sendLoop_refused hf] at h ⊢
      exact ih h

theorem sendLoop_count (f : Nat → Bool) (left i : Nat) : i < (sendLoop f left i).2.1 := by
  induction left generalizing i with
  | zero => exact Nat.lt_succ_self i
  | succ left ih =>
    cases hf : f i with
    | false =>
      rw [sendLoop_acknowledged hf]
      exact Nat.lt_succ_self i
    | true =>
      rw [sendLoop_refused hf]
      exact Nat.lt_trans (Nat.lt_succ_self i) (ih (i + 1))

/-! ## The loop over the pages -/

theorem sendPage_fst (f : Nat → Bool) (address : UInt8) (data : List UInt8) (j : Nat) (t : Trace) :
    (sendPage f address data j t).1 = true ↔ ∃ i < wrAttempts, f i = false := by
  have hleft := sendLoop_left f wrAttempts 0
  simp only [Nat.zero_add] at hleft
  rw [← hleft]
  exact decide_eq_true_iff

theorem page_length (address : UInt8) (data : List UInt8) (j : Nat) :
    (page address data j).2.length = min maxWriteSize (data.length - maxWriteSize * j) := by
  rw [page, List.length_take, List.length_drop]

/-- What every page that is sent keeps, the loop keeps. -/
theorem writeLoop_keeps {P : Trace → Prop}
    (hstep : ∀ j t, maxWriteSize * j < data.length → P t →
      P (sendPage (refuses j) address data j t).2) {j : Nat} {t : Trace} (h : P t) :
    P (writeLoop refuses address data j t).2 := by
  fun_induction writeLoop refuses address data j t with
  | case1 j t hj s hs ih => exact ih (hstep j t hj h)
  | case2 j t hj s hs => exact hstep j t hj h
  | case3 => exact h

theorem writeLoop_fst (j : Nat) (t : Trace) :
    (writeLoop refuses address data j t).1 = true ↔
      ∀ k, j ≤ k → maxWriteSize * k < data.length → ∃ i < wrAttempts, refuses k i = false := by
  fun_induction writeLoop refuses address data j t with
  | case1 j t hj s hs ih =>
    rw [ih]
    constructor
    · intro h k hjk hk
      rcases Nat.eq_or_lt_of_le hjk with rfl | hlt
      · exact (sendPage_fst _ _ _ _ _).mp hs
      · exact h k hlt hk
    · intro h k hjk hk
      exact h k (Nat.le_of_succ_le hjk) hk
  | case2 j t hj s hs =>
    constructor
    · intro h
      contradiction
    · intro h
      exact absurd ((sendPage_fst _ _ _ _ _).mpr (h j (Nat.le_refl j) hj)) hs
  | case3 j t hj =>
    constructor
    · intro _ k hjk hk
      have hle := Nat.mul_le_mul_left maxWriteSize hjk
      omega
    · intro _
      rfl

/-! ## Contents -/

theorem nextInPage_toNat {a : UInt8} (h : a.toNat % 8 < 7) : (nextInPage a).toNat = a.toNat + 1 := by
  have ha := a.toNat_lt
  rw [nextInPage, UInt8.toNat_ofNat']
  omega

theorem placedAt_nil (mem : UInt8 → UInt8) (start : Nat) : placedAt mem start [] = mem := by
  funext x
  unfold placedAt
  split
  · rfl
  · rfl

theorem placedAt_cons (mem : UInt8 → UInt8) (a b : UInt8) (data : List UInt8) :
    placedAt (Function.update mem a b) (a.toNat + 1) data = placedAt mem a.toNat (b :: data) := by
  funext x
  unfold placedAt
  by_cases hx : x = a
  · subst hx
    rw [if_neg (by omega), if_pos (Nat.le_refl _), Nat.sub_self, Function.update_self]
    rfl
  · have hne : x.toNat ≠ a.toNat := fun h => hx (UInt8.toNat_inj.mp h)
    rw [Function.update_of_ne hx]
    by_cases hle : a.toNat + 1 ≤ x.toNat
    · rw [if_pos hle, if_pos (by omega), show x.toNat - a.toNat = x.toNat - (a.toNat + 1) + 1 by omega,
        List.getD_cons_succ]
    · rw [if_neg hle, if_neg (by omega)]

theorem placedAt_append (mem : UInt8 → UInt8) (start : Nat) (c d : List UInt8) :
    placedAt (placedAt mem start c) (start + c.length) d = placedAt mem start (c ++ d) := by
  funext x
  unfold placedAt
  simp only [List.getD_eq_getElem?_getD, List.getElem?_append]
  by_cases hlow : start ≤ x.toNat
  · by_cases hhigh : start + c.length ≤ x.toNat
    · rw [if_pos hhigh, if_pos hlow, if_pos hlow, if_neg (by omega),
        List.getElem?_eq_none (show c.length ≤ x.toNat - start by omega), Nat.sub_add_eq]
      rfl
    · rw [if_neg hhigh, if_pos hlow, if_pos hlow, if_pos (by omega)]
  · rw [if_neg (by omega), if_neg hlow, if_neg hlow]

/-- A transfer that stays in its page. -/
theorem store_inPage {a : UInt8} (h : a.toNat % 8 + data.length ≤ 8) :
    store mem a data = placedAt mem a.toNat data := by
  induction data generalizing a mem with
  | nil => exact (placedAt_nil mem a.toNat).symm
  | cons b data ih =>
    rw [List.length_cons] at h
    rw [store, ← placedAt_cons]
    by_cases hnil : data = []
    · rw [hnil, placedAt_nil]
      rfl
    · have hpos := List.length_pos_iff.mpr hnil
      have hnext := nextInPage_toNat (a := a) (by omega)
      rw [ih (by omega), hnext]

theorem page_toNat {j : Nat} (hrange : address.toNat + data.length ≤ lastAddr)
    (hj : maxWriteSize * j < data.length) :
    (page address data j).1.toNat = address.toNat + maxWriteSize * j := by
  have hrange : address.toNat + data.length ≤ 250 := hrange
  have hj : 8 * j < data.length := hj
  show (address + UInt8.ofNat (8 * j)).toNat = address.toNat + 8 * j
  rw [UInt8.toNat_add, UInt8.toNat_ofNat']
  omega

theorem page_inPage {j : Nat} (hrange : address.toNat + data.length ≤ lastAddr)
    (hpages : address.toNat % 8 + min maxWriteSize data.length ≤ 8)
    (hj : maxWriteSize * j < data.length) :
    (page address data j).1.toNat % 8 + (page address data j).2.length ≤ 8 := by
  have hnat : (page address data j).1.toNat = address.toNat + 8 * j := page_toNat hrange hj
  have hlen : (page address data j).2.length = min 8 (data.length - 8 * j) := page_length _ _ _
  have hpages : address.toNat % 8 + min 8 data.length ≤ 8 := hpages
  omega

/-- The loop has placed what is left of the data. -/
theorem writeLoop_contents {j : Nat} {t : Trace}
    (hpages : address.toNat % 8 + min maxWriteSize data.length ≤ 8)
    (hrange : address.toNat + data.length ≤ lastAddr)
    (h : (writeLoop refuses address data j t).1 = true) :
    (writeLoop refuses address data j t).2.mem =
      placedAt t.mem (address.toNat + maxWriteSize * j) (data.drop (maxWriteSize * j)) := by
  fun_induction writeLoop refuses address data j t with
  | case1 j t hj s hs ih =>
    have hacked := sendLoop_acked (f := refuses j) (of_decide_eq_true hs)
    have hmem : s.2.mem = placedAt t.mem (address.toNat + maxWriteSize * j)
        ((data.drop (maxWriteSize * j)).take maxWriteSize) := by
      rw [← page_toNat hrange hj]
      exact (if_pos hacked).trans (store_inPage (page_inPage hrange hpages hj))
    rw [ih h, hmem]
    by_cases hlast : data.length ≤ maxWriteSize * (j + 1)
    · rw [List.drop_of_length_le hlast, placedAt_nil, List.take_of_length_le]
      rw [List.length_drop]
      rw [Nat.mul_succ] at hlast
      omega
    · have hfull : ((data.drop (maxWriteSize * j)).take maxWriteSize).length = maxWriteSize := by
        rw [List.length_take, List.length_drop]
        rw [Nat.mul_succ] at hlast
        omega
      have happend := placedAt_append t.mem (address.toNat + maxWriteSize * j)
        ((data.drop (maxWriteSize * j)).take maxWriteSize)
        ((data.drop (maxWriteSize * j)).drop maxWriteSize)
      rw [hfull, List.take_append_drop, List.drop_drop, Nat.add_assoc, ← Nat.mul_succ] at happend
      exact happend
  | case2 => contradiction
  | case3 j t hj =>
    rw [List.drop_of_length_le (Nat.le_of_not_lt hj), placedAt_nil]

/-! ## Copies and transfers -/

/-- What has been copied and sent stays in the trace. -/
theorem writeLoop_grows {c : Copy} {p : UInt8 × List UInt8} {j : Nat} {t : Trace}
    (h : c ∈ t.copies ∧ p ∈ t.transfers) :
    c ∈ (writeLoop refuses address data j t).2.copies ∧
      p ∈ (writeLoop refuses address data j t).2.transfers :=
  writeLoop_keeps (P := fun t => c ∈ t.copies ∧ p ∈ t.transfers)
    (fun _ _ _ h => ⟨List.mem_append_left _ h.1, List.mem_append_left _ h.2⟩) h

theorem sendPage_mem (f : Nat → Bool) (address : UInt8) (data : List UInt8) (j : Nat) (t : Trace) :
    ⟨maxWriteSize * j, 1, (page address data j).2.length + 1⟩ ∈
        (sendPage f address data j t).2.copies ∧
      page address data j ∈ (sendPage f address data j t).2.transfers := by
  have hcount := sendLoop_count f wrAttempts 0
  exact ⟨List.mem_append_right _ (List.mem_singleton_self _),
    List.mem_append_right _ (List.mem_replicate.mpr ⟨Nat.ne_of_gt hcount, rfl⟩)⟩

/-- A page that the loop gets to is copied and sent. -/
theorem writeLoop_mem (refuses : Nat → Nat → Bool) (address : UInt8) (t : Trace) {j : Nat}
    (hj : maxWriteSize * j < data.length) :
    ⟨maxWriteSize * j, 1, (page address data j).2.length + 1⟩ ∈
        (writeLoop refuses address data j t).2.copies ∧
      page address data j ∈ (writeLoop refuses address data j t).2.transfers := by
  have hsent := sendPage_mem (refuses j) address data j t
  rw [writeLoop, if_pos hj]
  dsimp only
  split
  · exact writeLoop_grows hsent
  · exact hsent

/-- A write that succeeds copies the byte behind the data. -/
theorem writeLoop_behind {j : Nat} {t : Trace} (hj : maxWriteSize * j < data.length)
    (h : (writeLoop refuses address data j t).1 = true) :
    ∃ c ∈ (writeLoop refuses address data j t).2.copies, c.src + c.size = data.length + 1 := by
  fun_induction writeLoop refuses address data j t with
  | case1 j t hlt s hs ih =>
    by_cases hlast : maxWriteSize * (j + 1) < data.length
    · exact ih hlast h
    · refine ⟨_, (writeLoop_grows (sendPage_mem (refuses j) address data j t)).1, ?_⟩
      have hlen : (page address data j).2.length = min 8 (data.length - 8 * j) := page_length _ _ _
      have hlast : ¬ 8 * (j + 1) < data.length := hlast
      have hj : 8 * j < data.length := hj
      show 8 * j + ((page address data j).2.length + 1) = data.length + 1
      omega
  | case2 => contradiction
  | case3 j t hout => exact absurd hj hout

theorem writeLoop_copies (j : Nat) {t : Trace}
    (h : ∀ c ∈ t.copies, c.dst + c.size ≤ min maxWriteSize data.length + 2) :
    ∀ c ∈ (writeLoop refuses address data j t).2.copies,
      c.dst + c.size ≤ min maxWriteSize data.length + 2 := by
  refine writeLoop_keeps (P := fun t => ∀ c ∈ t.copies,
    c.dst + c.size ≤ min maxWriteSize data.length + 2) (fun j t _ h c hc => ?_) h
  rcases List.mem_append.mp hc with hc | hc
  · exact h c hc
  · rw [List.mem_singleton.mp hc]
    have hlen := page_length address data j
    show 1 + ((page address data j).2.length + 1) ≤ _
    omega

theorem writeLoop_transfers (j : Nat) {t : Trace}
    (hrange : address.toNat + data.length ≤ lastAddr)
    (hpages : address.toNat % 8 + min maxWriteSize data.length ≤ 8) (h : t.InPages) :
    (writeLoop refuses address data j t).2.InPages := by
  refine writeLoop_keeps (P := Trace.InPages) (fun j t hj h p hp => ?_) h
  rcases List.mem_append.mp hp with hp | hp
  · exact h p hp
  · rw [List.eq_of_mem_replicate hp]
    exact page_inPage hrange hpages hj

/-! ## What a write achieves -/

theorem eepromWrite_accepted (h : InRange address data.length) :
    eepromWrite refuses address data mem =
      (if (writeLoop refuses address data 0 ⟨[], [], mem⟩).1 then (data.length : Int) else -1,
        (writeLoop refuses address data 0 ⟨[], [], mem⟩).2) := if_pos h

theorem eepromWrite_succeeds (h : InRange address data.length) :
    0 ≤ (eepromWrite refuses address data mem).1 ↔
      (writeLoop refuses address data 0 ⟨[], [], mem⟩).1 = true := by
  rw [eepromWrite_accepted h]
  dsimp only
  split
  · rename_i htrue
    exact ⟨fun _ => htrue, fun _ => Int.natCast_nonneg _⟩
  · rename_i hfalse
    exact ⟨fun hneg => absurd hneg (by decide), fun htrue => absurd htrue hfalse⟩

theorem success_iff (h : InRange address data.length) :
    0 ≤ (eepromWrite refuses address data mem).1 ↔ Acked refuses data.length := by
  rw [eepromWrite_succeeds h, writeLoop_fst]
  exact ⟨fun h j hj => h j (Nat.zero_le j) hj, fun h j _ hj => h j hj⟩

theorem stagesInside_iff (h : InRange address data.length) :
    (eepromWrite refuses address data mem).2.StagesInside ↔ data.length < maxWriteSize := by
  rw [eepromWrite_accepted h]
  constructor
  · intro hstages
    by_contra hlong
    have hlong : ¬ data.length < 8 := hlong
    have hfirst := (writeLoop_mem refuses address ⟨[], [], mem⟩
      (show 8 * 0 < data.length by omega)).1
    have hlen : (page address data 0).2.length = min 8 (data.length - 8 * 0) := page_length _ _ _
    have hbound : 1 + ((page address data 0).2.length + 1) ≤ 9 := hstages _ hfirst
    omega
  · intro hshort c hc
    have hbound := writeLoop_copies 0 (fun c hc => absurd hc List.not_mem_nil) c hc
    have hshort : data.length < 8 := hshort
    have hbound : c.dst + c.size ≤ min 8 data.length + 2 := hbound
    show c.dst + c.size ≤ 9
    omega

theorem inPages_iff (h : InRange address data.length) (hne : data ≠ []) :
    (eepromWrite refuses address data mem).2.InPages ↔
      address.toNat % 8 + min maxWriteSize data.length ≤ 8 := by
  rw [eepromWrite_accepted h]
  constructor
  · intro hpages
    have hpos := List.length_pos_iff.mpr hne
    have hfirst := (writeLoop_mem refuses address ⟨[], [], mem⟩
      (show 8 * 0 < data.length by omega)).2
    have hbound := hpages _ hfirst
    have hnat := page_toNat h.2 (show maxWriteSize * 0 < data.length by omega)
    rw [hnat, page_length, Nat.mul_zero, Nat.add_zero, Nat.sub_zero] at hbound
    exact hbound
  · intro hpages
    exact writeLoop_transfers 0 h.2 hpages fun p hp => absurd hp List.not_mem_nil

theorem writeLoop_empty (t : Trace) : writeLoop refuses address [] 0 t = (true, t) := by
  rw [writeLoop, if_neg (by decide)]

theorem readsInside_iff (h : InRange address data.length)
    (hsuccess : 0 ≤ (eepromWrite refuses address data mem).1) :
    (eepromWrite refuses address data mem).2.ReadsInside data.length ↔ data = [] := by
  have hdone := (eepromWrite_succeeds h).mp hsuccess
  rw [eepromWrite_accepted h]
  constructor
  · intro hreads
    by_contra hne
    have hpos := List.length_pos_iff.mpr hne
    obtain ⟨c, hc, hsize⟩ := writeLoop_behind (show maxWriteSize * 0 < data.length by omega) hdone
    have hbound := hreads c hc
    omega
  · rintro rfl
    rw [writeLoop_empty]
    exact fun c hc => absurd hc List.not_mem_nil

theorem contents_of_pages (h : InRange address data.length)
    (hpages : address.toNat % 8 + min maxWriteSize data.length ≤ 8)
    (hsuccess : 0 ≤ (eepromWrite refuses address data mem).1) :
    (eepromWrite refuses address data mem).2.mem = placedAt mem address.toNat data := by
  have hdone := (eepromWrite_succeeds h).mp hsuccess
  rw [eepromWrite_accepted h]
  exact writeLoop_contents hpages h.2 hdone

/-- Only an empty write keeps to the caller's bytes and to the staging buffer: the last copy of a
write that succeeds reads a byte too much, and that of a whole page overruns the buffer. The
transfers stay in their pages if the range starts at a page or fits into one, and then the bytes
land where they should when the write succeeds, which it says correctly. -/
theorem eepromWrite_iff (refuses : Nat → Nat → Bool) (address : UInt8) (data : List UInt8)
    (mem : UInt8 → UInt8) (h : InRange address data.length) :
    (Lands refuses address data mem ↔ data = []) ∧
    (0 ≤ (eepromWrite refuses address data mem).1 ↔ Acked refuses data.length) ∧
    ((eepromWrite refuses address data mem).2.StagesInside ↔ data.length < maxWriteSize) ∧
    (data ≠ [] → ((eepromWrite refuses address data mem).2.InPages ↔
      address.toNat % 8 + min maxWriteSize data.length ≤ 8)) ∧
    (0 ≤ (eepromWrite refuses address data mem).1 →
      ((eepromWrite refuses address data mem).2.ReadsInside data.length ↔ data = []) ∧
      (address.toNat % 8 + min maxWriteSize data.length ≤ 8 →
        (eepromWrite refuses address data mem).2.mem = placedAt mem address.toNat data)) := by
  refine ⟨?_, success_iff h, stagesInside_iff h, inPages_iff h, fun hsuccess =>
    ⟨readsInside_iff h hsuccess, fun hpages => contents_of_pages h hpages hsuccess⟩⟩
  constructor
  · intro hlands
    have hshort : data.length < 8 := (stagesInside_iff h).mp hlands.stages
    by_contra hne
    have hpos := List.length_pos_iff.mpr hne
    -- The only page is the last one.
    have hreads := hlands.reads
    rw [eepromWrite_accepted h] at hreads
    have hfirst := (writeLoop_mem refuses address ⟨[], [], mem⟩
      (show 8 * 0 < data.length by omega)).1
    have hlen : (page address data 0).2.length = min 8 (data.length - 8 * 0) := page_length _ _ _
    have hbound : 8 * 0 + ((page address data 0).2.length + 1) ≤ data.length := hreads _ hfirst
    omega
  · rintro rfl
    constructor
    case reads =>
      rw [eepromWrite_accepted h, writeLoop_empty]
      exact fun c hc => absurd hc List.not_mem_nil
    case stages => exact (stagesInside_iff h).mpr (by decide)
    case pages =>
      rw [eepromWrite_accepted h, writeLoop_empty]
      exact fun p hp => absurd hp List.not_mem_nil
    case success => exact success_iff h
    case contents =>
      rw [eepromWrite_accepted h, writeLoop_empty, placedAt_nil]
      exact fun _ => rfl

theorem eepromWrite_iff_settings :
    Lands (fun _ _ => false) 0 (List.replicate 33 0) (fun _ => 0xFF) ↔
      List.replicate 33 (0 : UInt8) = [] :=
  (eepromWrite_iff (fun _ _ => false) 0 (List.replicate 33 0) (fun _ => 0xFF) (by decide)).1

/-- Two bytes over the end of a page are sent in one transfer, which wraps. -/
theorem overPage_not_lands : ¬ ∀ (refuses : Nat → Nat → Bool) (address : UInt8)
    (data : List UInt8) (mem : UInt8 → UInt8), InRange address data.length →
    Lands refuses address data mem := by
  intro h
  have hrange : InRange 7 [(1 : UInt8), 2].length := by decide
  have hlands := h (fun _ _ => false) 7 [1, 2] (fun _ => 0xFF) hrange
  have hpages := (inPages_iff hrange (List.cons_ne_nil _ _)).mp hlands.pages
  exact absurd hpages (by decide)

end MiyakoLink.Eeprom
