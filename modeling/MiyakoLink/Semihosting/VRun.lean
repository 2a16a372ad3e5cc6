import MiyakoLink.Semihosting.Request

/-!
# From `vRun` to `SYS_GET_CMDLINE`

The decoder of `vRun` measures the string in its buffer and not what it has written, and
`target_set_cmdline` copies one character less than there is room for.

* `vRun_rightly_iff`: the target sees the longest front of the arguments that fits exactly if
  they have at most 79 characters and no NUL.
-/

namespace MiyakoLink.Semihosting

open Lib

/-- The items of the arguments of `vRun`. -/
def argItems (args : List UInt8) : List Item :=
  items (if args.head? = some semicolon then args.tail else args)

/-- The longest front whose text fits in `room` bytes with its terminator. -/
def LongestFit (room : Nat) (l front : List Item) : Prop :=
  front <+: l ∧ (text front).length < room ∧
    ∀ longer, longer <+: l → (text longer).length < room → longer.length ≤ front.length

/-- `SYS_GET_CMDLINE` gives this string and its size to every target whose buffer has room. -/
def Sees (c : Cmdline) (string : List UInt8) : Prop :=
  ∀ t : Target, t.cmdline = c → string.length < (t.param 1).toNat →
    (∀ a n, t.writeFails a n = false) →
      sysGetCmdline t = .returns ⟨0, t, placed (t.param 0) (string ++ [0]) ++
        placed t.r1 (wordBytes (t.param 0) ++ wordBytes (UInt32.ofNat (string.length + 1))), false⟩

/-- The decoder writes inside its buffer, its string is the longest front of the arguments that
fits, and the target sees that string. -/
def Rightly (room : Nat) (stack args : List UInt8) (c : Cmdline) : Prop :=
  ∃ s front, vRun stack args = some s ∧ LongestFit room (argItems args) front ∧
    cstr s.cmdline = text front ∧ Sees (c.set s.cmdline) (text front)

/-! ## What the target sees -/

theorem placed_snd {a : UInt32} {data : List UInt8} : (placed a data).map Prod.snd = data := by
  induction data generalizing a with
  | nil => rfl
  | cons b data ih => exact congrArg (b :: ·) ih

theorem sees_string (c : Cmdline) : Sees c c.string := by
  rintro t rfl hroom hfine
  have hstring := t.cmdline.string_length
  have hsize : UInt32.ofNat t.cmdline.string.length + 1 =
      UInt32.ofNat (t.cmdline.string.length + 1) := (UInt32.ofNat_add _ _).symm
  unfold sysGetCmdline
  dsimp only
  rw [if_neg, if_neg, if_neg, hsize]
  · rw [hfine]
    decide
  · rw [hfine]
    decide
  · rw [hsize, gt_iff_lt, UInt32.lt_iff_toNat_lt,
      UInt32.toNat_ofNat_of_lt' (show _ < 2 ^ 32 by omega)]
    omega

/-- A target with this command line and the largest buffer. -/
def reader (c : Cmdline) : Target :=
  ⟨0x15, 0, fun _ => 0xFF, fun _ => false, fun _ _ => false, fun _ => 0, c, 0, false, 0⟩

theorem sees_iff {c : Cmdline} {string : List UInt8} (h : string.length ≤ 82) :
    Sees c string ↔ c.string = string := by
  constructor
  · intro hsees
    have hlength := c.string_length
    have hlarge : ((reader c).param 1).toNat = 0xFFFFFFFF :=
      show (ofLanes fun _ => 0xFF).toNat = 0xFFFFFFFF by decide
    have hone := hsees (reader c) rfl (by omega) fun _ _ => rfl
    have htwo := sees_string c (reader c) rfl (by omega) fun _ _ => rfl
    have hwrites := congrArg Handled.writes (Outcome.returns.inj (htwo.symm.trans hone))
    have hdata := congrArg (List.map Prod.snd) hwrites
    simp only [List.map_append, placed_snd, List.append_assoc] at hdata
    have hsame : c.string.length = string.length := by
      have := congrArg List.length hdata
      simp only [List.length_append, wordBytes_length] at this
      omega
    exact List.append_inj_left hdata hsame
  · rintro rfl
    exact sees_string c

/-! ## What the decoder leaves -/

theorem text_append (l l' : List Item) : text (l ++ l') = text l ++ text l' := List.flatMap_append

theorem byte_text (b : UInt8) :
    (Item.byte b).text = if b = blank ∨ b = backslash then [backslash, b] else [b] :=
  rfl

theorem item_text_ne_nil (i : Item) : i.text ≠ [] := by
  cases i with
  | separator => exact List.cons_ne_nil _ _
  | byte b =>
    rw [byte_text]
    split <;> exact List.cons_ne_nil _ _

/-- Only a decoded NUL puts a NUL in the text. -/
theorem zero_mem_text {l : List Item} : 0 ∈ text l ↔ .byte 0 ∈ l := by
  have hitem (i : Item) : 0 ∈ i.text ↔ i = .byte 0 := by
    cases i with
    | separator => decide
    | byte b =>
      rw [byte_text]
      split
      · rename_i hescape
        rcases hescape with rfl | rfl <;> decide
      · simp [eq_comm]
  unfold text
  simp [hitem]

/-- Short arguments are decoded to the end. -/
theorem consume_short {l : List Item} (t : List UInt8) (h : (t ++ text l).length < 80) :
    consume l t = some (t ++ text l) := by
  induction l generalizing t with
  | nil => exact congrArg some (List.append_nil t).symm
  | cons i l ih =>
    have htext : text (i :: l) = i.text ++ text l := List.flatMap_cons
    have hprefix : cstr t <+: t := List.takeWhile_prefix _
    have hle := hprefix.length_le
    rw [htext, ← List.append_assoc] at h ⊢
    rw [consume, if_neg, if_pos, ih _ h]
    · rw [List.length_append] at h
      show _ < 83
      omega
    · rw [List.length_append, List.length_append] at h
      show ¬ _ ≥ 83
      omega

/-- The decoder takes a front of the items, and all of them if its string is short in the end. -/
theorem consume_front {l : List Item} {t t' : List UInt8} (h : consume l t = some t') :
    ∃ front, front <+: l ∧ t' = t ++ text front ∧ (front = l ∨ 80 ≤ (cstr t').length) := by
  induction l generalizing t with
  | nil =>
    cases h
    exact ⟨[], List.prefix_rfl, (List.append_nil t').symm, .inl rfl⟩
  | cons i l ih =>
    rw [consume] at h
    split at h
    · rename_i hlong
      cases h
      refine ⟨[], List.nil_prefix, (List.append_nil t').symm, .inr ?_⟩
      have hlong : (cstr t').length + 3 ≥ 83 := hlong
      omega
    · split at h
      · obtain ⟨front, hfront, htext, hend⟩ := ih h
        refine ⟨i :: front, List.cons_prefix_cons.mpr ⟨rfl, hfront⟩, ?_, ?_⟩
        · rw [htext, List.append_assoc]
          rfl
        · exact hend.imp_left (congrArg (i :: ·))
      · cases h

theorem vRun_spec {stack : List UInt8} (hstack : stack.length = decoderSize) (args : List UInt8) :
    match consume (argItems args) [] with
    | some t => ∃ s, vRun stack args = some s ∧ s.Holds t
    | none => vRun stack args = none := by
  apply decodeArgs_spec
  obtain ⟨b, rest, rfl⟩ := List.exists_cons_of_length_pos (l := stack) (by rw [hstack]; decide)
  exact ⟨hstack, rest, rfl⟩

theorem longestFit_all {room : Nat} {l : List Item} (h : (text l).length < room) :
    LongestFit room l l :=
  ⟨List.prefix_rfl, h, fun _ hlonger _ => hlonger.length_le⟩

/-- A longest front that is not all ends where the next item does not fit. -/
theorem LongestFit.next {room : Nat} {l front : List Item} (h : LongestFit room l front)
    (hne : front ≠ l) :
    ∃ i rest, l = front ++ i :: rest ∧ room ≤ (text front).length + i.text.length := by
  obtain ⟨⟨more, rfl⟩, hfit, hlongest⟩ := h
  cases more with
  | nil => exact absurd (List.append_nil front).symm hne
  | cons i rest =>
    refine ⟨i, rest, rfl, ?_⟩
    by_contra hroom
    have hlonger := hlongest (front ++ [i]) ⟨rest, by simp⟩ (by
      rw [text_append, List.length_append]
      show _ + ([i].flatMap Item.text).length < room
      rw [List.flatMap_singleton]
      omega)
    simp only [List.length_append, List.length_singleton] at hlonger
    omega

theorem cstr_text {l : List Item} (h : .byte 0 ∉ l) (more : List UInt8) :
    cstr (text l ++ more) = text l ++ cstr more :=
  cstr_append (fun _ hc hzero => h (zero_mem_text.mp (hzero ▸ hc))) more

/-- A front that is seen whole is followed by a NUL or by nothing. -/
theorem next_of_cstr {front rest : List Item} {i : Item}
    (h : cstr (text (front ++ i :: rest)) = text front) : i = .byte 0 := by
  have hfront : .byte 0 ∉ front := fun hmem =>
    cstr_ne_zero 0 (h ▸ zero_mem_text.mpr hmem) rfl
  rw [text_append, cstr_text hfront, List.append_right_eq_self] at h
  by_contra hne
  have hitem : .byte 0 ∉ [i] := fun hmem => hne (List.mem_singleton.mp hmem).symm
  have hsplit : text (i :: rest) = text [i] ++ text rest := text_append [i] rest
  rw [hsplit, cstr_text hitem] at h
  have htext : text [i] = i.text := List.flatMap_singleton ..
  exact item_text_ne_nil i (htext ▸ (List.append_eq_nil_iff.mp h).1)

/-- Whether "fits" is for the buffer of the decoder or for the storage of the target. -/
theorem vRun_rightly_iff {room : Nat} (hroom : maxCmdline ≤ room ∧ room ≤ decoderSize)
    {stack : List UInt8} (hstack : stack.length = decoderSize) (args : List UInt8) (c : Cmdline) :
    Rightly room stack args c ↔
      (text (argItems args)).length < 80 ∧ .byte 0 ∉ argItems args := by
  have hlow : 81 ≤ room := hroom.1
  have hhigh : room ≤ 83 := hroom.2
  have hspec := vRun_spec hstack args
  constructor
  · rintro ⟨s, front, hrun, hfit, hstring, hsees⟩
    cases hconsume : consume (argItems args) [] with
    | none =>
      rw [hconsume] at hspec
      rw [hrun] at hspec
      cases hspec
    | some t =>
      rw [hconsume] at hspec
      obtain ⟨s', hs', hholds⟩ := hspec
      obtain rfl := Option.some.inj (hrun.symm.trans hs')
      obtain ⟨taken, htaken, rfl, hend⟩ := consume_front hconsume
      rw [List.nil_append] at hholds hend
      rw [cstr_holds hholds] at hstring
      have hsmall := hfit.2.1
      have hseen : (cstr (text taken)).take 79 = text front := by
        rw [sees_iff (by omega), Cmdline.set_string, cstr_holds hholds] at hsees
        exact hsees
      have hlength : (text front).length ≤ 79 := hseen ▸ List.length_take_le 79 _
      have hall : taken = argItems args := hend.resolve_right (by rw [hstring]; omega)
      rw [hall] at hstring
      by_cases hfront : front = argItems args
      · rw [← hfront] at hstring ⊢
        exact ⟨by omega, fun hmem => cstr_ne_zero 0 (hstring.symm ▸ zero_mem_text.mpr hmem) rfl⟩
      · -- the next item does not fit, so it is an escaped character
        obtain ⟨i, rest, hsplit, hnext⟩ := hfit.next hfront
        rw [hsplit] at hstring
        rw [next_of_cstr hstring] at hnext
        have hone : (Item.byte 0).text.length = 1 := rfl
        omega
  · rintro ⟨hshort, hnul⟩
    rw [consume_short [] hshort] at hspec
    obtain ⟨s, hs, hholds⟩ := hspec
    have hcstr : cstr s.cmdline = text (argItems args) := by
      have hself := cstr_text hnul []
      rw [List.append_nil] at hself
      rw [cstr_holds hholds, List.nil_append, hself]
      exact List.append_nil _
    refine ⟨s, argItems args, hs, longestFit_all (by omega), hcstr, ?_⟩
    rw [sees_iff (by omega), Cmdline.set_string, hcstr, List.take_of_length_le (by omega)]

/-- `vRun;6120`: the argument is `a` and a blank. -/
theorem vRun_rightly_blank :
    Rightly maxCmdline (List.replicate decoderSize 0xA5) [semicolon, 0x36, 0x31, 0x32, 0x30]
      .empty :=
  (vRun_rightly_iff ⟨Nat.le_refl _, by decide⟩ List.length_replicate _ _).mpr (by decide)

/-- A NUL and 83 other characters are written behind the buffer. -/
theorem nul_not_rightly :
    ¬ ∀ room stack args c, maxCmdline ≤ room → room ≤ decoderSize →
      stack.length = decoderSize → Rightly room stack args c := by
  intro h
  obtain ⟨s, _, hrun, _⟩ := h decoderSize (List.replicate decoderSize 0)
    (semicolon :: hexify (0 :: List.replicate 83 0x61)) .empty (by decide) (Nat.le_refl _)
    List.length_replicate
  have hnone : (vRun (List.replicate decoderSize 0)
      (semicolon :: hexify (0 :: List.replicate 83 0x61))).isNone = true := by
    decide +kernel
  rw [hrun] at hnone
  cases hnone

end MiyakoLink.Semihosting
