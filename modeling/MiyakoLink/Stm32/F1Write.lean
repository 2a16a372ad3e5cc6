import MiyakoLink.Stm32.F1Erase

/-!
# When the write function of the STM32F1 driver is honest

* `writeHonest_iff`: just when the range is one of halfwords, its banks are not locked when the
  function is called, and a range in the second bank is one of the part with two banks.
* `returnsHonestly_iff`: both functions.
-/

namespace MiyakoLink.Stm32

open Flash Lib Erase

section

variable {rs : List F1Region} {f : F1Region} {r : F1Range rs} {L : Locks} {A : F1Answers}
  {fuel : Nat}

/-! ## The two parts of a range -/

/-- The part of a range that is in front of the boundary. -/
def firstLength (r : F1Range rs) : UInt32 :=
  if r.addr < bankSplit then
    if r.addr + r.len - 1 ≥ bankSplit then bankSplit - r.addr else r.len
  else 0

theorem firstLength_toNat (hrs : Accepted rs) (r : F1Range rs) :
    (firstLength r).toNat = min r.len.toNat (0x08080000 - r.addr.toNat) := by
  have hend := range_end hrs r
  have hpos := r.pos
  have hge := end_iff hrs r
  have hsplit : bankSplit.toNat = 0x08080000 := rfl
  unfold firstLength
  split
  · next hbelow =>
    rw [below_iff] at hbelow
    split
    · next hhigh =>
      rw [sub_toNat_of_le (by omega), hsplit]
      have := hge.mp hhigh
      omega
    · next hlow =>
      rw [hge, not_not] at hlow
      omega
  · next habove =>
    rw [below_iff] at habove
    rw [UInt32.toNat_zero]
    omega

theorem rest_toNat (hrs : Accepted rs) (r : F1Range rs) :
    (r.len - firstLength r).toNat = r.len.toNat - (0x08080000 - r.addr.toNat) := by
  have hfirst := firstLength_toNat hrs r
  rw [sub_toNat_of_le (by omega), hfirst]
  omega

theorem second_toNat (hrs : Accepted rs) (r : F1Range rs) :
    (r.addr + firstLength r).toNat = r.addr.toNat + (firstLength r).toNat := by
  have hend := range_end hrs r
  have hfirst := firstLength_toNat hrs r
  rw [UInt32.toNat_add]
  exact Nat.mod_eq_of_lt (by omega)

/-- The write to the first bank. -/
abbrev firstWrite (A : F1Answers) (fuel : Nat) (r : F1Range rs) : List F1Event × Option Bool :=
  if r.addr < bankSplit then writeBank A .one fuel r.addr (firstLength r) 0 else ([], some true)

/-- The write to the second bank. -/
abbrev secondWrite (A : F1Answers) (fuel : Nat) (r : F1Range rs) : List F1Event × Option Bool :=
  writeBank A .two fuel (r.addr + firstLength r) (r.len - firstLength r) (firstLength r).toNat

theorem f1FlashWrite_eq : f1FlashWrite L A f fuel r.addr r.len =
    match (firstWrite A fuel r).2 with
    | none => ⟨(firstWrite A fuel r).1, L, none⟩
    | some false => ⟨(firstWrite A fuel r).1, L, some (-1)⟩
    | some true =>
      if f.idcode = xlDensity ∧ r.len - firstLength r ≠ 0 then
        ⟨(firstWrite A fuel r).1 ++ (secondWrite A fuel r).1, L,
          (secondWrite A fuel r).2.map fun ok => if ok then 0 else -1⟩
      else ⟨(firstWrite A fuel r).1, L, some 0⟩ := by
  unfold f1FlashWrite firstWrite secondWrite firstLength
  cases UInt32.decLt r.addr bankSplit with
  | isTrue h => rfl
  | isFalse h => rfl

/-! ## A write to a bank -/

/-- The log of a write that has gone well. -/
def bankLog (b : Bank) (dest len : UInt32) (src : Nat) (val : UInt32) : List F1Event :=
  [.cr b f1CrPg] ++ halfwords dest len src ++ [.sr b val]

theorem writeBank_true {b : Bank} {dest len : UInt32} {src : Nat}
    (h : (writeBank A b fuel dest len src).2 = some true) :
    ∃ val, (writeBank A b fuel dest len src).1 = bankLog b dest len src val ∧
      val &&& f1SrBsy = 0 ∧ val &&& f1SrErrors = 0 := by
  unfold writeBank at h ⊢
  dsimp only at h ⊢
  obtain ⟨⟨ok, val⟩, hpoll, hgood⟩ := Option.map_eq_some_iff.mp h
  obtain ⟨hok, herrors⟩ := Bool.and_eq_true_iff.mp hgood
  obtain ⟨i, -, hturn, -⟩ := poll_iff.mp hpoll
  rw [hpoll]
  refine ⟨val, rfl, ?_, beq_iff_eq.mp herrors⟩
  unfold writeTurn at hturn
  split at hturn
  · have hfalse := congrArg Prod.fst (Option.some.inj hturn)
    rw [← hfalse] at hok
    contradiction
  · obtain ⟨hidle, hval⟩ := Option.ite_none_right_eq_some.mp hturn
    have hval := congrArg Prod.snd (Option.some.inj hval)
    dsimp only at hval
    rw [← hval]
    exact hidle

/-- The halfword that holds a byte of the range. -/
theorem bankLog_byte (b : Bank) {dest len : UInt32} (src : Nat) {val : UInt32}
    (hbusy : val &&& f1SrBsy = 0) (herrors : val &&& f1SrErrors = 0)
    (hdest : dest.toNat % 2 = 0) (hlen : len.toNat % 2 = 0)
    (hwrap : dest.toNat + len.toNat < 2 ^ 32) {m : Nat} (hm : m < len.toNat) :
    ∃ a j before behind, a.toNat % 2 = 0 ∧ a.toNat ≤ dest.toNat + m ∧ dest.toNat + m < a.toNat + 2 ∧
      j + (dest.toNat + m - a.toNat) = src + m ∧
      bankLog b dest len src val = before ++ .halfword a j :: behind ∧
      (before.filterMap (crOf b)).getLast? = some f1CrPg ∧ StatusGood b behind := by
  have hhalf : (len >>> 1).toNat = len.toNat / 2 := by
    rw [UInt32.toNat_shiftRight]
    exact Nat.shiftRight_eq_div_pow _ 1
  obtain ⟨k, hk⟩ : ∃ k, k = m / 2 := ⟨_, rfl⟩
  have haddr : (dest + 2 * UInt32.ofNat k).toNat = dest.toNat + 2 * k := by
    have hmul : (2 * UInt32.ofNat k).toNat = 2 * k := by
      rw [UInt32.toNat_mul, UInt32.toNat_ofNat_of_lt' (show k < 2 ^ 32 by omega)]
      exact Nat.mod_eq_of_lt (show 2 * k < 2 ^ 32 by omega)
    rw [UInt32.toNat_add, hmul]
    exact Nat.mod_eq_of_lt (by omega)
  obtain ⟨n, hn⟩ := Nat.exists_eq_add_of_lt (show k < (len >>> 1).toNat by omega)
  have hsplit : halfwords dest len src =
      (List.range k).map (fun i => F1Event.halfword (dest + 2 * UInt32.ofNat i) (src + 2 * i)) ++
        .halfword (dest + 2 * UInt32.ofNat k) (src + 2 * k) ::
          (List.range n).map fun i => F1Event.halfword (dest + 2 * UInt32.ofNat (k + 1 + i))
            (src + 2 * (k + 1 + i)) := by
    unfold halfwords
    rw [hn, Nat.add_right_comm, List.range_add, List.map_append, List.range_succ, List.map_append,
      List.append_assoc, List.map_map]
    rfl
  refine ⟨dest + 2 * UInt32.ofNat k, src + 2 * k, [.cr b f1CrPg] ++ (List.range k).map
      (fun i => .halfword (dest + 2 * UInt32.ofNat i) (src + 2 * i)),
    (List.range n).map (fun i => .halfword (dest + 2 * UInt32.ofNat (k + 1 + i))
      (src + 2 * (k + 1 + i))) ++ [.sr b val], by omega, by omega, by omega, by omega, ?_, ?_, ?_⟩
  · rw [bankLog, hsplit]
    simp only [List.append_assoc, List.cons_append]
  · have hnone : ((List.range k).map fun i => F1Event.halfword (dest + 2 * UInt32.ofNat i)
        (src + 2 * i)).filterMap (crOf b) = [] := by
      rw [List.filterMap_eq_nil_iff]
      intro e he
      obtain ⟨i, -, rfl⟩ := List.mem_map.mp he
      rfl
    rw [List.filterMap_append, hnone]
    simp [crOf]
  · constructor
    · exact ⟨val, srOf_mem.mpr (List.mem_append_right _ (List.mem_singleton_self _)), hbusy⟩
    · refine ⟨val, ?_, herrors⟩
      rw [List.filterMap_append]
      simp [srOf]

theorem StatusGood.append {b : Bank} {log rest : List F1Event} (h : StatusGood b log)
    (hrest : rest.filterMap (srOf b) = []) : StatusGood b (log ++ rest) := by
  have heq : (log ++ rest).filterMap (srOf b) = log.filterMap (srOf b) := by
    rw [List.filterMap_append, hrest, List.append_nil]
  constructor
  · rw [heq]
    exact h.idle
  · rw [heq]
    exact h.last

/-- A byte of the range that is written to a bank is put. -/
theorem bytePut_of {run : F1Run} {b : Bank} {dest len : UInt32} {src : Nat} {val : UInt32}
    {before behind : List F1Event} (hbusy : val &&& f1SrBsy = 0) (herrors : val &&& f1SrErrors = 0)
    (hdest : dest.toNat % 2 = 0) (hlen : len.toNat % 2 = 0)
    (hwrap : dest.toNat + len.toNat < 2 ^ 32)
    (hlog : run.log = before ++ bankLog b dest len src val ++ behind)
    (hbehind : behind.filterMap (srOf b) = []) (hlocked : run.locks.locked b = false)
    {x : UInt32} {m : Nat} (hm : m < len.toNat) (hx : x.toNat = dest.toNat + m)
    (hb : b = bankOf x) : BytePut run x (src + m) := by
  obtain ⟨a, j, pre, post, heven, hlow, hhigh, hsrc, hsplit, hcr, hstatus⟩ :=
    bankLog_byte b src hbusy herrors hdest hlen hwrap hm
  refine ⟨b, a, j, before ++ pre, post ++ behind, hb, heven, by omega, by omega, by omega, ?_, ?_,
    hlocked, hstatus.append hbehind⟩
  · rw [hlog, hsplit]
    simp only [List.append_assoc, List.cons_append]
  · rw [List.filterMap_append, List.getLast?_append, hcr]
    rfl

theorem bankLog_sr {b c : Bank} (h : b ≠ c) (dest len : UInt32) (src : Nat) (val : UInt32) :
    (bankLog b dest len src val).filterMap (srOf c) = [] := by
  rw [List.filterMap_eq_nil_iff]
  intro e he
  unfold bankLog at he
  rcases List.mem_append.mp he with he | he
  · rcases List.mem_append.mp he with he | he
    · rw [List.mem_singleton.mp he]
      rfl
    · obtain ⟨k, -, rfl⟩ := List.mem_map.mp he
      rfl
  · rw [List.mem_singleton.mp he]
    exact if_neg h

/-! ## A run that returns 0 -/

/-- The two parts of the log. -/
structure WrittenAll (L : Locks) (A : F1Answers) (f : F1Region) (fuel : Nat) (r : F1Range rs) :
    Prop where
  locks : (f1FlashWrite L A f fuel r.addr r.len).locks = L
  first : r.addr < bankSplit → ∃ val, (firstWrite A fuel r).1 =
    bankLog .one r.addr (firstLength r) 0 val ∧ val &&& f1SrBsy = 0 ∧ val &&& f1SrErrors = 0
  second : f.idcode = xlDensity ∧ r.len - firstLength r ≠ 0 → ∃ val,
    (f1FlashWrite L A f fuel r.addr r.len).log = (firstWrite A fuel r).1 ++
        bankLog .two (r.addr + firstLength r) (r.len - firstLength r) (firstLength r).toNat val ∧
      val &&& f1SrBsy = 0 ∧ val &&& f1SrErrors = 0
  only : ¬ (f.idcode = xlDensity ∧ r.len - firstLength r ≠ 0) →
    (f1FlashWrite L A f fuel r.addr r.len).log = (firstWrite A fuel r).1

theorem writtenAll_of_zero (h : (f1FlashWrite L A f fuel r.addr r.len).ret = some 0) :
    WrittenAll L A f fuel r := by
  have hfirst : (firstWrite A fuel r).2 = some true := by
    rw [f1FlashWrite_eq] at h
    cases hfirst : (firstWrite A fuel r).2 with
    | none =>
      rw [hfirst] at h
      contradiction
    | some ok =>
      cases ok with
      | true => rfl
      | false =>
        rw [hfirst] at h
        exact absurd (Option.some.inj h) (show (-1 : Ret) ≠ 0 by decide)
  have hrun : f1FlashWrite L A f fuel r.addr r.len =
      if f.idcode = xlDensity ∧ r.len - firstLength r ≠ 0 then
        ⟨(firstWrite A fuel r).1 ++ (secondWrite A fuel r).1, L,
          (secondWrite A fuel r).2.map fun ok => if ok then 0 else -1⟩
      else ⟨(firstWrite A fuel r).1, L, some 0⟩ := by
    rw [f1FlashWrite_eq, hfirst]
  constructor
  case locks =>
    rw [hrun]
    split
    · rfl
    · rfl
  case first =>
    intro hbelow
    unfold firstWrite at hfirst ⊢
    rw [if_pos hbelow] at hfirst ⊢
    exact writeBank_true hfirst
  case second =>
    intro hsecond
    rw [hrun, if_pos hsecond] at h
    obtain ⟨ok, hok, hret⟩ := Option.map_eq_some_iff.mp h
    cases ok with
    | false => exact absurd hret (show (-1 : Ret) ≠ 0 by decide)
    | true =>
      obtain ⟨val, hlog, hgood⟩ := writeBank_true hok
      refine ⟨val, ?_, hgood⟩
      rw [hrun, if_pos hsecond, hlog]
  case only =>
    intro hsecond
    rw [hrun, if_neg hsecond]

theorem writeHonest_of (hrs : Accepted rs) (haddr : r.addr.toNat % 2 = 0)
    (hlen : r.len.toNat % 2 = 0) (hone : r.addr.toNat < 0x08080000 → L.locked .one = false)
    (htwo : r.addr.toNat + r.len.toNat ≤ 0x08080000 ∨
      f.idcode = xlDensity ∧ L.locked .two = false) : WriteHonest f L r := by
  intro A fuel hret i hi
  have hw := writtenAll_of_zero hret
  have hend := range_end hrs r
  have hfirst := firstLength_toNat hrs r
  have hrest := rest_toNat hrs r
  have hdest := second_toNat hrs r
  have hx : (r.addr + UInt32.ofNat i).toNat = r.addr.toNat + i := by
    rw [UInt32.toNat_add, UInt32.toNat_ofNat_of_lt' (show i < 2 ^ 32 by omega)]
    exact Nat.mod_eq_of_lt (by omega)
  by_cases hside : r.addr.toNat + i < 0x08080000
  · -- The byte is in front of the boundary.
    obtain ⟨val, hlog, hbusy, herrors⟩ := hw.first (below_iff.mpr (by omega))
    have hlocked : (f1FlashWrite L A f fuel r.addr r.len).locks.locked .one = false := by
      rw [hw.locks]
      exact hone (by omega)
    have hput {behind : List F1Event} (hrun : (f1FlashWrite L A f fuel r.addr r.len).log =
        (firstWrite A fuel r).1 ++ behind) (hbehind : behind.filterMap (srOf .one) = []) :
        BytePut (f1FlashWrite L A f fuel r.addr r.len) (r.addr + UInt32.ofNat i) (0 + i) :=
      have hlog : (f1FlashWrite L A f fuel r.addr r.len).log =
          [] ++ bankLog .one r.addr (firstLength r) 0 val ++ behind := by
        rw [hrun, hlog, List.nil_append]
      bytePut_of hbusy herrors haddr (by omega) (by omega) hlog hbehind hlocked (by omega) hx
        (by rw [bankOf_eq, hx, if_neg (by omega)])
    rw [Nat.zero_add] at hput
    by_cases hsecond : f.idcode = xlDensity ∧ r.len - firstLength r ≠ 0
    · obtain ⟨val', hlog', -⟩ := hw.second hsecond
      exact hput hlog' (bankLog_sr (by decide) _ _ _ _)
    · have hrun := hw.only hsecond
      rw [← List.append_nil (firstWrite A fuel r).1] at hrun
      exact hput hrun rfl
  · have hcross := htwo.resolve_left (by omega)
    obtain ⟨val, hlog, hbusy, herrors⟩ := hw.second ⟨hcross.1, ne_zero_of_toNat (by omega)⟩
    have hlocked : (f1FlashWrite L A f fuel r.addr r.len).locks.locked .two = false := by
      rw [hw.locks]
      exact hcross.2
    rw [← List.append_nil (_ ++ _)] at hlog
    have hput := bytePut_of (x := r.addr + UInt32.ofNat i) (m := i - (firstLength r).toNat) hbusy
      herrors (by omega) (by omega) (by omega) hlog rfl hlocked (by omega) (by omega)
      (by rw [bankOf_eq, hx, if_pos (by omega)])
    rw [show (firstLength r).toNat + (i - (firstLength r).toNat) = i by omega] at hput
    exact hput

/-! ## A controller that takes all writes -/

theorem forgetfulF1_write (b : Bank) (dest len : UInt32) (src : Nat) :
    (writeBank forgetfulF1 b 1 dest len src).2 = some true := by
  have hpoll : poll (writeTurn forgetfulF1 b) 1 = some (true, 0) := by
    refine poll_iff.mpr ⟨0, Nat.one_pos, ?_, fun j hj => absurd hj (Nat.not_lt_zero j)⟩
    exact if_pos (UInt32.zero_and)
  unfold writeBank
  rw [hpoll]
  exact congrArg some (by decide)

theorem forgetfulF1_written : (f1FlashWrite L forgetfulF1 f 1 r.addr r.len).ret = some 0 := by
  have hfirst : (firstWrite forgetfulF1 1 r).2 = some true := by
    unfold firstWrite
    split
    · exact forgetfulF1_write _ _ _ _
    · rfl
  rw [f1FlashWrite_eq, hfirst]
  dsimp only
  split
  · unfold secondWrite
    rw [forgetfulF1_write]
    rfl
  · rfl

/-- The halfwords that are written are from the range, and those for the second bank are only
written for the part with two banks. -/
theorem halfword_mem (hrs : Accepted rs) (hw : WrittenAll L A f fuel r) {a : UInt32} {j : Nat}
    (h : F1Event.halfword a j ∈ (f1FlashWrite L A f fuel r.addr r.len).log) :
    j + 2 ≤ r.len.toNat ∧ (f.idcode ≠ xlDensity → a.toNat < 0x08080000) := by
  have hend := range_end hrs r
  have hfirst := firstLength_toNat hrs r
  have hrest := rest_toNat hrs r
  have hmem {b : Bank} {dest len : UInt32} {src : Nat} {val : UInt32}
      (he : F1Event.halfword a j ∈ bankLog b dest len src val) :
      ∃ k, 2 * k + 2 ≤ len.toNat ∧ a = dest + 2 * UInt32.ofNat k ∧ j = src + 2 * k := by
    have he : F1Event.halfword a j ∈ halfwords dest len src := by
      simpa [bankLog] using he
    obtain ⟨k, hk, heq⟩ := List.mem_map.mp he
    have hk := List.mem_range.mp hk
    have hhalf : (len >>> 1).toNat = len.toNat / 2 := by
      rw [UInt32.toNat_shiftRight]
      exact Nat.shiftRight_eq_div_pow _ 1
    obtain ⟨rfl, rfl⟩ := F1Event.halfword.inj heq
    exact ⟨k, by omega, rfl, rfl⟩
  have hpart (he : F1Event.halfword a j ∈ (firstWrite A fuel r).1) :
      j + 2 ≤ r.len.toNat ∧ a.toNat < 0x08080000 := by
    by_cases hbelow : r.addr < bankSplit
    · obtain ⟨val, hlog, -⟩ := hw.first hbelow
      rw [hlog] at he
      obtain ⟨k, hk, rfl, rfl⟩ := hmem he
      rw [below_iff] at hbelow
      have haddr : (r.addr + 2 * UInt32.ofNat k).toNat = r.addr.toNat + 2 * k := by
        have hmul : (2 * UInt32.ofNat k).toNat = 2 * k := by
          rw [UInt32.toNat_mul, UInt32.toNat_ofNat_of_lt' (show k < 2 ^ 32 by omega)]
          exact Nat.mod_eq_of_lt (show 2 * k < 2 ^ 32 by omega)
        rw [UInt32.toNat_add, hmul]
        exact Nat.mod_eq_of_lt (by omega)
      omega
    · unfold firstWrite at he
      rw [if_neg hbelow] at he
      exact absurd he List.not_mem_nil
  by_cases hsecond : f.idcode = xlDensity ∧ r.len - firstLength r ≠ 0
  · obtain ⟨val, hlog, -⟩ := hw.second hsecond
    rw [hlog] at h
    refine ⟨?_, fun hne => absurd hsecond.1 hne⟩
    rcases List.mem_append.mp h with h | h
    · exact (hpart h).1
    · obtain ⟨k, hk, -, rfl⟩ := hmem h
      omega
  · rw [hw.only hsecond] at h
    exact ⟨(hpart h).1, fun _ => (hpart h).2⟩

theorem of_writeHonest (hrs : Accepted rs) (h : WriteHonest f L r) :
    r.addr.toNat % 2 = 0 ∧ r.len.toNat % 2 = 0 ∧
      (r.addr.toNat < 0x08080000 → L.locked .one = false) ∧
      (r.addr.toNat + r.len.toNat ≤ 0x08080000 ∨
        f.idcode = xlDensity ∧ L.locked .two = false) := by
  have hret : (f1FlashWrite L forgetfulF1 f 1 r.addr r.len).ret = some 0 := forgetfulF1_written
  have hw := writtenAll_of_zero hret
  have hend := range_end hrs r
  have hpos := r.pos
  have hx {i : Nat} (hi : i < r.len.toNat) :
      (r.addr + UInt32.ofNat i).toNat = r.addr.toNat + i := by
    rw [UInt32.toNat_add, UInt32.toNat_ofNat_of_lt' (show i < 2 ^ 32 by omega)]
    exact Nat.mod_eq_of_lt (by omega)
  obtain ⟨b, a, j, -, -, hb, heven, hlow, hhigh, hsrc, -, -, hlocked, -⟩ :=
    h forgetfulF1 1 hret 0 hpos
  obtain ⟨b', a', j', before, behind, hb', heven', hlow', hhigh', hsrc', hlog, -, hlocked', -⟩ :=
    h forgetfulF1 1 hret (r.len.toNat - 1) (by omega)
  rw [hx hpos] at hlow hhigh hsrc
  rw [hx (by omega)] at hlow' hhigh' hsrc'
  have hmem := halfword_mem hrs hw (a := a') (j := j') (by rw [hlog]; simp)
  have haddr : r.addr.toNat % 2 = 0 := by omega
  have hlen : r.len.toNat % 2 = 0 := by omega
  refine ⟨haddr, hlen, fun hbelow => ?_, ?_⟩
  · rw [bankOf_eq, hx hpos, if_neg (by omega)] at hb
    rw [hw.locks, hb] at hlocked
    exact hlocked
  · by_cases hcross : r.addr.toNat + r.len.toNat ≤ 0x08080000
    · exact Or.inl hcross
    · rw [bankOf_eq, hx (by omega), if_pos (by omega)] at hb'
      rw [hw.locks, hb'] at hlocked'
      refine Or.inr ⟨?_, hlocked'⟩
      by_contra hne
      have hbelow := hmem.2 hne
      omega

/-- The write function returns 0 only for programmed bytes just when it gets whole halfwords, the
banks of the range are not locked, and a range that gets to the second bank is one of the part with
two banks. -/
theorem writeHonest_iff (hrs : Accepted rs) : WriteHonest f L r ↔
    r.addr.toNat % 2 = 0 ∧ r.len.toNat % 2 = 0 ∧
      (r.addr.toNat < 0x08080000 → L.locked .one = false) ∧
      (r.addr.toNat + r.len.toNat ≤ 0x08080000 ∨
        f.idcode = xlDensity ∧ L.locked .two = false) := by
  constructor
  · exact of_writeHonest hrs
  · rintro ⟨haddr, hlen, hone, htwo⟩
    exact writeHonest_of hrs haddr hlen hone htwo

end

/-! ## Both functions -/

/-- When a result of 0 of the two functions says what it is to say. -/
theorem returnsHonestly_iff (rs : List F1Region) (hrs : Accepted rs) (f : F1Region) (hf : f ∈ rs)
    (L : Locks) (r : F1Range rs) :
    (EraseHonest f L r ↔ StaysLocked f L r.addr r.len ∨
      r.last f ≤ r.first f + (r.len.toNat - 1) / f.blocksize.toNat ∧
        (r.addr.toNat + r.len.toNat ≤ 0x08080000 ∨
          f.idcode = xlDensity ∧ (L.locked .two = false ∨ L.opens .two = true))) ∧
    (WriteHonest f L r ↔ r.addr.toNat % 2 = 0 ∧ r.len.toNat % 2 = 0 ∧
      (r.addr.toNat < 0x08080000 → L.locked .one = false) ∧
      (r.addr.toNat + r.len.toNat ≤ 0x08080000 ∨
        f.idcode = xlDensity ∧ L.locked .two = false)) :=
  ⟨eraseHonest_iff hrs hf, writeHonest_iff hrs⟩

/-- Both banks are unlocked. -/
def openLocks : Locks := ⟨fun _ => false, fun _ => true⟩

/-- The regions of a part with 1 MiB of flash in one region. -/
def gd32Regions : List F1Region := [⟨0x414, f1Start, 0x00100000, 0x400⟩]

theorem gd32Regions_accepted : Accepted gd32Regions := Or.inr ⟨0x414, 1024, rfl⟩

/-- The first page behind the boundary. -/
def behindSplit : F1Range gd32Regions where
  addr := bankSplit
  len := 0x400
  pos := by decide
  low := by decide
  high := by
    show 0x08080000 + 0x400 ≤ 0x08000000 + (0x00100000 + 0)
    decide

theorem returnsHonestly_iff_behind :
    (EraseHonest ⟨0x414, f1Start, 0x00100000, 0x400⟩ openLocks behindSplit ↔
      StaysLocked ⟨0x414, f1Start, 0x00100000, 0x400⟩ openLocks bankSplit 0x400 ∨
      behindSplit.last ⟨0x414, f1Start, 0x00100000, 0x400⟩ ≤
          behindSplit.first ⟨0x414, f1Start, 0x00100000, 0x400⟩ +
            ((0x400 : UInt32).toNat - 1) / (0x400 : UInt32).toNat ∧
        (bankSplit.toNat + (0x400 : UInt32).toNat ≤ 0x08080000 ∨
          (0x414 : UInt16) = xlDensity ∧
            (openLocks.locked .two = false ∨ openLocks.opens .two = true))) ∧
    (WriteHonest ⟨0x414, f1Start, 0x00100000, 0x400⟩ openLocks behindSplit ↔
      bankSplit.toNat % 2 = 0 ∧ (0x400 : UInt32).toNat % 2 = 0 ∧
      (bankSplit.toNat < 0x08080000 → openLocks.locked .one = false) ∧
      (bankSplit.toNat + (0x400 : UInt32).toNat ≤ 0x08080000 ∨
        (0x414 : UInt16) = xlDensity ∧ openLocks.locked .two = false)) :=
  returnsHonestly_iff gd32Regions gd32Regions_accepted ⟨0x414, f1Start, 0x00100000, 0x400⟩
    (List.mem_singleton_self _) openLocks behindSplit

/-- Behind the boundary nothing is checked and nothing is written, and the results are 0. -/
theorem behindSplit_not_honest :
    ¬ EraseHonest ⟨0x414, f1Start, 0x00100000, 0x400⟩ openLocks behindSplit ∧
      ¬ WriteHonest ⟨0x414, f1Start, 0x00100000, 0x400⟩ openLocks behindSplit := by
  have hf : (⟨0x414, f1Start, 0x00100000, 0x400⟩ : F1Region) ∈ gd32Regions :=
    List.mem_singleton_self _
  have hcross : ¬ behindSplit.addr.toNat + behindSplit.len.toNat ≤ 0x08080000 := by decide
  have hidcode : (0x414 : UInt16) ≠ xlDensity := by decide
  constructor
  · intro h
    rcases (eraseHonest_iff gd32Regions_accepted hf).mp h with hstays | ⟨-, hbank⟩
    · have hsecond : secondBank ⟨0x414, f1Start, 0x00100000, 0x400⟩ bankSplit 0x400 = false := by
        decide
      unfold StaysLocked at hstays
      rw [show behindSplit.addr = bankSplit from rfl, show behindSplit.len = 0x400 from rfl,
        hsecond, if_neg Bool.false_ne_true] at hstays
      exact UInt32.lt_irrefl _ hstays.1
    · exact hidcode (hbank.resolve_left hcross).1
  · intro h
    obtain ⟨-, -, -, hbank⟩ := (writeHonest_iff gd32Regions_accepted).mp h
    exact hidcode (hbank.resolve_left hcross).1

end MiyakoLink.Stm32
