import MiyakoLink.Stm32.F1

/-!
# When the erase function of the STM32F1 driver is honest

* `eraseHonest_iff`: just when the keys do not unlock the first bank, which the function reports,
  or the last page is reached, and a range in the second bank is one of the part with two banks and
  the keys unlock that bank.
-/

namespace MiyakoLink.Stm32

open Flash Lib Erase

/-! ## The parts -/

/-- What the regions of a part have in common. -/
structure F1Shape (rs : List F1Region) : Prop where
  blocksize : ∀ f ∈ rs, f.blocksize = 0x400 ∨ f.blocksize = 0x800
  size : flashSize rs < 2 ^ 26

theorem F1Shape.single {idcode : UInt16} {start length blocksize : UInt32}
    (hblock : blocksize = 0x400 ∨ blocksize = 0x800) (hsize : length.toNat < 2 ^ 26) :
    F1Shape [⟨idcode, start, length, blocksize⟩] where
  blocksize g hg := by
    rw [List.mem_singleton.mp hg]
    exact hblock
  size := by
    simpa only [flashSize, List.map_cons, List.map_nil, List.sum_cons, List.sum_nil, Nat.add_zero]
      using hsize

theorem stm32f1Probe_shape (idcode : UInt16) : F1Shape (stm32f1Probe idcode) := by
  unfold stm32f1Probe
  split
  · exact .single (Or.inl rfl) (by decide)
  split
  · exact .single (Or.inr rfl) (by decide)
  split
  · constructor
    · intro g hg
      rcases List.mem_pair.mp hg with rfl | rfl
      · exact Or.inr rfl
      · exact Or.inr rfl
    · simp [flashSize]
  split
  · exact .single (Or.inr rfl) (by decide)
  split
  · exact .single (Or.inl rfl) (by decide)
  split
  · exact .single (Or.inl rfl) (by decide)
  split
  · exact .single (Or.inr rfl) (by decide)
  split
  · exact .single (Or.inr rfl) (by decide)
  · exact ⟨fun g hg => absurd hg List.not_mem_nil, by simp [flashSize]⟩

theorem gd32f1Probe_shape (idcode size : UInt16) : F1Shape (gd32f1Probe idcode size) := by
  have hlt := size.toNat_lt
  unfold gd32f1Probe
  split
  · refine .single (Or.inl rfl) ?_
    show (size.toUInt32 * 1024).toNat < 2 ^ 26
    rw [UInt32.toNat_mul, UInt16.toNat_toUInt32]
    show size.toNat * 1024 % 2 ^ 32 < 2 ^ 26
    omega
  · exact ⟨fun g hg => absurd hg List.not_mem_nil, by simp [flashSize]⟩

theorem Accepted.shape {rs : List F1Region} (h : Accepted rs) : F1Shape rs := by
  rcases h with ⟨idcode, rfl⟩ | ⟨idcode, size, rfl⟩
  · exact stm32f1Probe_shape idcode
  · exact gd32f1Probe_shape idcode size

/-! ## The locks -/

section

variable {L : Locks} {f : F1Region} {addr len : UInt32}

/-- The unlock fails: the first bank is locked when the second one is to be unlocked, or the keys do
not unlock it. -/
def StaysLocked (f : F1Region) (L : Locks) (addr len : UInt32) : Prop :=
  if secondBank f addr len then L.locked .one = true
  else addr < bankSplit ∧ L.locked .one = true ∧ L.opens .one = false

theorem flashUnlock_locked {bs : List Bank} (h : (flashUnlock L bs).2.2 = true) (x : Bank) :
    (flashUnlock L bs).2.1.locked x = (L.locked x && !(decide (x ∈ bs) && L.opens x)) := by
  induction bs generalizing L with
  | nil => simp [flashUnlock]
  | cons b bs ih =>
    rw [flashUnlock] at h ⊢
    by_cases hone : (L.unlock b).locked .one = true
    · rw [if_pos hone] at h
      contradiction
    · rw [if_neg hone] at h ⊢
      rw [ih h]
      simp only [Locks.unlock, List.mem_cons]
      by_cases hx : x = b
      · subst hx
        cases L.locked x <;> cases L.opens x <;> simp
      · simp [hx]

theorem flashUnlock_fails :
    (flashUnlock L (toUnlock f addr len)).2.2 = false ↔ StaysLocked f L addr len := by
  unfold StaysLocked toUnlock
  by_cases hsecond : secondBank f addr len = true
  · rw [if_pos hsecond, if_pos hsecond]
    by_cases haddr : addr < bankSplit
    · rw [if_pos haddr]
      cases h : L.locked .one <;> simp [flashUnlock, Locks.unlock, h]
    · rw [if_neg haddr]
      cases h : L.locked .one <;> simp [flashUnlock, Locks.unlock, h]
  · rw [if_neg hsecond, if_neg hsecond]
    by_cases haddr : addr < bankSplit
    · rw [if_pos haddr]
      cases h : L.locked .one <;> cases h' : L.opens .one <;>
        simp [flashUnlock, Locks.unlock, h, h', haddr]
    · rw [if_neg haddr]
      simp [flashUnlock, haddr]

/-- Only keys are written. -/
theorem flashUnlock_log {bs : List Bank} : ∀ e ∈ (flashUnlock L bs).1, ∃ b val, e = .keyr b val := by
  induction bs generalizing L with
  | nil => exact fun e he => absurd he List.not_mem_nil
  | cons b bs ih =>
    have hkeys : ∀ e ∈ [F1Event.keyr b 0x45670123, .keyr b 0xCDEF89AB], ∃ b val, e = .keyr b val := by
      intro e he
      rcases List.mem_pair.mp he with rfl | rfl
      · exact ⟨b, _, rfl⟩
      · exact ⟨b, _, rfl⟩
    intro e he
    rw [flashUnlock] at he
    split at he
    · exact hkeys e he
    · rcases List.mem_append.mp he with he | he
      · exact hkeys e he
      · exact ih e he

/-! ## The log of a run -/

variable {A : F1Answers} {fuel : Nat}

/-- What the body of the loop does when it goes well. -/
theorem f1ErasePage_true {s : Nat × UInt32} (h : (f1ErasePage A fuel s).2 = some true) :
    ∃ val, (f1ErasePage A fuel s).1 = [.cr (bankOf s.2) f1CrPer, .ar (bankOf s.2) s.2,
      .cr (bankOf s.2) (f1CrStrt ||| f1CrPer)] ++ [.sr (bankOf s.2) val] ∧ val &&& f1SrBsy = 0 := by
  unfold f1ErasePage at h ⊢
  dsimp only at h ⊢
  cases hpoll : poll (eraseTurn A s.1) fuel with
  | none =>
    rw [hpoll] at h
    contradiction
  | some p =>
    obtain ⟨ok, val⟩ := p
    rw [hpoll] at h
    obtain ⟨i, -, hturn, -⟩ := poll_iff.mp hpoll
    refine ⟨val, rfl, ?_⟩
    unfold eraseTurn at hturn
    split at hturn
    · next hidle =>
      have hval := congrArg Prod.snd (Option.some.inj hturn)
      dsimp only at hval
      rw [← hval]
      exact hidle
    · split at hturn
      · have hok := congrArg Prod.fst (Option.some.inj hturn)
        have htrue : ok = true := Option.some.inj h
        rw [htrue] at hok
        contradiction
      · contradiction

/-- The checks for errors when none of them fails. -/
theorem checkErrors_zero {bs : List Bank} (h : (checkErrors A bs).2 = 0) :
    (checkErrors A bs).1 = bs.map (fun b => .sr b (A.lastSr b)) ∧
      ∀ b ∈ bs, A.lastSr b &&& f1SrErrors = 0 := by
  induction bs with
  | nil => exact ⟨rfl, fun b hb => absurd hb List.not_mem_nil⟩
  | cons b bs ih =>
    rw [checkErrors] at h ⊢
    dsimp only at h ⊢
    split at h
    · exact absurd h (show (-1 : Ret) ≠ 0 by decide)
    · next hgood =>
      obtain ⟨herrors, -⟩ := not_or.mp hgood
      obtain ⟨hlog, hrest⟩ := ih h
      rw [if_neg hgood, hlog]
      refine ⟨rfl, fun x hx => ?_⟩
      rcases List.mem_cons.mp hx with rfl | hx
      · exact not_not.mp herrors
      · exact hrest x hx

/-- What is known about a run that returns 0. -/
structure ErasedAll (L : Locks) (A : F1Answers) (f : F1Region) (fuel : Nat) (addr len : UInt32)
    (n : Nat) : Prop where
  unlocked : (flashUnlock L (toUnlock f addr len)).2.2 = true
  passed : Passed (saturating f.blocksize) (advance f.blocksize) (f1ErasePage A fuel) len (0, addr) n
  zero : (saturating f.blocksize)^[n] len = 0
  good : (checkErrors A (toCheck f addr len)).2 = 0
  log : (f1FlashErase L A f fuel addr len).log = (flashUnlock L (toUnlock f addr len)).1 ++
    logs (advance f.blocksize) (f1ErasePage A fuel) (0, addr) n ++
    (toCheck f addr len).map fun b => .sr b (A.lastSr b)
  locks : (f1FlashErase L A f fuel addr len).locks = (flashUnlock L (toUnlock f addr len)).2.1

theorem erasedAll_of_zero (h : (f1FlashErase L A f fuel addr len).ret = some 0) :
    ∃ n, ErasedAll L A f fuel addr len n := by
  unfold f1FlashErase at h
  dsimp only at h
  cases hunlocked : (flashUnlock L (toUnlock f addr len)).2.2 with
  | false =>
    rw [hunlocked] at h
    exact absurd (Option.some.inj h) (show (-1 : Ret) ≠ 0 by decide)
  | true =>
    rw [hunlocked] at h
    cases hsweep : (sweep (saturating f.blocksize) (advance f.blocksize) (f1ErasePage A fuel) fuel
        len (0, addr)).2 with
    | none =>
      rw [hsweep] at h
      contradiction
    | some ok =>
      rw [hsweep] at h
      cases ok with
      | false => exact absurd (Option.some.inj h) (show (-1 : Ret) ≠ 0 by decide)
      | true =>
        have hgood : (checkErrors A (toCheck f addr len)).2 = 0 := Option.some.inj h
        obtain ⟨n, hpassed, hzero, hlog⟩ := sweep_done hsweep
        have hrun : f1FlashErase L A f fuel addr len =
            ⟨(flashUnlock L (toUnlock f addr len)).1 ++
                logs (advance f.blocksize) (f1ErasePage A fuel) (0, addr) n ++
                (checkErrors A (toCheck f addr len)).1,
              (flashUnlock L (toUnlock f addr len)).2.1,
              some (checkErrors A (toCheck f addr len)).2⟩ := by
          unfold f1FlashErase
          dsimp only
          rw [hunlocked, hsweep, hlog]
          rfl
        refine ⟨n, hunlocked, hpassed, hzero, hgood, ?_, ?_⟩
        · rw [hrun, (checkErrors_zero hgood).1]
        · rw [hrun]

theorem logs_split {σ ω : Type*} (advance : σ → σ) (body : σ → List ω × Option Bool) (s : σ)
    {n j : Nat} (hj : j < n) : ∃ behind, logs advance body s n =
      logs advance body s j ++ (body (advance^[j] s)).1 ++ behind := by
  obtain ⟨k, rfl⟩ := Nat.exists_eq_add_of_lt hj
  refine ⟨(List.range k).flatMap fun i => (body (advance^[j + 1 + i] s)).1, ?_⟩
  unfold logs
  rw [Nat.add_right_comm, List.range_add, List.flatMap_append, List.range_succ, List.flatMap_append,
    List.flatMap_singleton, List.flatMap_map]

end

/-! ## The pages of a range -/

section

variable {rs : List F1Region} {f : F1Region} {r : F1Range rs} {L : Locks} {A : F1Answers}
  {fuel n : Nat}

theorem blocksize_cases (hrs : Accepted rs) (hf : f ∈ rs) :
    f.blocksize.toNat = 0x400 ∨ f.blocksize.toNat = 0x800 := by
  rcases hrs.shape.blocksize f hf with h | h
  · rw [h]
    exact Or.inl rfl
  · rw [h]
    exact Or.inr rfl

theorem range_end (hrs : Accepted rs) (r : F1Range rs) :
    r.addr.toNat + r.len.toNat < 0x0C000000 := by
  have hsize := hrs.shape.size
  have hhigh := r.high
  omega

/-- The address of the `j`th command. -/
theorem command_addr (hrs : Accepted rs) {j : Nat} (hj : j * f.blocksize.toNat < r.len.toNat) :
    (r.addr + UInt32.ofNat j * f.blocksize).toNat = r.addr.toNat + j * f.blocksize.toNat := by
  have hend := range_end hrs r
  have hmul : (UInt32.ofNat j * f.blocksize).toNat = j * f.blocksize.toNat := by
    rw [UInt32.toNat_mul, UInt32.toNat_ofNat', Nat.mod_mul_mod]
    exact Nat.mod_eq_of_lt (by omega)
  rw [UInt32.toNat_add, hmul]
  exact Nat.mod_eq_of_lt (by omega)

theorem bankOf_eq (a : UInt32) : bankOf a = if 0x08080000 ≤ a.toNat then .two else .one := by
  unfold bankOf
  simp only [ge_iff_le, UInt32.le_iff_toNat_le]
  rfl

/-- A page does not go over the boundary. -/
theorem bankOf_page (hrs : Accepted rs) (hf : f ∈ rs) {a : UInt32} {k : Nat}
    (hlow : 0x08000000 ≤ a.toNat) (hhigh : a.toNat < 0x0C000000)
    (hk : (a.toNat - 0x08000000) / f.blocksize.toNat = k) :
    bankOf (f1Start + UInt32.ofNat (k * f.blocksize.toNat)) = bankOf a := by
  have hpage : k * f.blocksize.toNat ≤ a.toNat - 0x08000000 := by
    rw [← hk]
    exact Nat.div_mul_le_self _ _
  have hnat : (f1Start + UInt32.ofNat (k * f.blocksize.toNat)).toNat =
      0x08000000 + k * f.blocksize.toNat := by
    rw [UInt32.toNat_add, UInt32.toNat_ofNat_of_lt' (show _ < 2 ^ 32 by omega)]
    show (0x08000000 + k * f.blocksize.toNat) % 2 ^ 32 = _
    omega
  have hiff : 0x08080000 ≤ 0x08000000 + k * f.blocksize.toNat ↔ 0x08080000 ≤ a.toNat := by
    rcases blocksize_cases hrs hf with h | h
    · rw [h] at hk ⊢
      omega
    · rw [h] at hk ⊢
      omega
  rw [bankOf_eq, bankOf_eq, hnat]
  exact if_congr hiff rfl rfl

theorem end_iff (hrs : Accepted rs) (r : F1Range rs) :
    r.addr + r.len - 1 ≥ bankSplit ↔ ¬ r.addr.toNat + r.len.toNat ≤ 0x08080000 := by
  have hend := range_end hrs r
  have hpos := r.pos
  have hlast : (r.addr + r.len - 1).toNat = r.addr.toNat + r.len.toNat - 1 := by
    rw [sub_toNat_of_le (by rw [UInt32.toNat_add]; show 1 ≤ _; omega), UInt32.toNat_add]
    show (r.addr.toNat + r.len.toNat) % 2 ^ 32 - 1 = _
    omega
  rw [ge_iff_le, UInt32.le_iff_toNat_le, hlast]
  show 0x08080000 ≤ _ ↔ _
  omega

theorem secondBank_iff (hrs : Accepted rs) (r : F1Range rs) : secondBank f r.addr r.len = true ↔
    f.idcode = xlDensity ∧ ¬ r.addr.toNat + r.len.toNat ≤ 0x08080000 := by
  unfold secondBank
  rw [decide_eq_true_iff, end_iff hrs r]

theorem below_iff {a : UInt32} : a < bankSplit ↔ a.toNat < 0x08080000 := UInt32.lt_iff_toNat_lt

/-- The commands of a run. -/
theorem command_iff {addr len : UInt32} (hn : ErasedAll L A f fuel addr len n) {j : Nat} :
    j < n ↔ j * f.blocksize.toNat < len.toNat := by
  have hzero := congrArg UInt32.toNat hn.zero
  rw [saturating_iterate, UInt32.toNat_zero] at hzero
  constructor
  · intro hj
    by_contra hle
    have hlive := hn.passed.live j hj
    rw [← UInt32.toNat_inj.ne, saturating_iterate, UInt32.toNat_zero] at hlive
    omega
  · intro hj
    by_contra hle
    have hmul := Nat.mul_le_mul_right f.blocksize.toNat (Nat.not_lt.mp hle)
    omega

/-- The `j`th page of the range. -/
theorem page_of_command (hrs : Accepted rs) (hf : f ∈ rs) {j : Nat}
    (hj : j * f.blocksize.toNat < r.len.toNat) :
    ((r.addr + UInt32.ofNat j * f.blocksize).toNat - 0x08000000) / f.blocksize.toNat =
      r.first f + j := by
  have hlow := r.low
  rw [command_addr hrs hj, F1Range.first]
  rcases blocksize_cases hrs hf with h | h
  · rw [h]
    omega
  · rw [h]
    omega

theorem srOf_mem {b : Bank} {val : UInt32} {log : List F1Event} :
    val ∈ log.filterMap (srOf b) ↔ .sr b val ∈ log := by
  rw [List.mem_filterMap]
  constructor
  · rintro ⟨e, he, hread⟩
    cases e with
    | sr x v =>
      obtain ⟨hx, hv⟩ := Option.ite_none_right_eq_some.mp hread
      rw [← hx, ← Option.some.inj hv]
      exact he
    | _ => nomatch hread
  · intro he
    exact ⟨_, he, if_pos rfl⟩

/-- What the error checks leave of a bank that is checked. -/
theorem checks_last {addr len : UInt32} {b : Bank} (hb : b ∈ toCheck f addr len) :
    ((toCheck f addr len).map fun b => F1Event.sr b (A.lastSr b)).filterMap (srOf b) =
      [A.lastSr b] := by
  unfold toCheck at hb ⊢
  split at hb <;> split at hb <;> cases b <;> simp_all [srOf]

theorem eraseHonest_of (hrs : Accepted rs) (hf : f ∈ rs)
    (hlast : r.last f ≤ r.first f + (r.len.toNat - 1) / f.blocksize.toNat)
    (hbank : r.addr.toNat + r.len.toNat ≤ 0x08080000 ∨
      f.idcode = xlDensity ∧ (L.locked .two = false ∨ L.opens .two = true)) :
    EraseHonest f L r := by
  intro A fuel hret k hfirst hk
  obtain ⟨n, hn⟩ := erasedAll_of_zero hret
  have hpos := r.pos
  have hend := range_end hrs r
  have hlow := r.low
  obtain ⟨j, rfl⟩ := Nat.exists_eq_add_of_le hfirst
  have hj : j * f.blocksize.toNat < r.len.toNat := by
    rcases blocksize_cases hrs hf with h | h
    · rw [h] at hlast ⊢
      omega
    · rw [h] at hlast ⊢
      omega
  have hjn := (command_iff hn).mpr hj
  have haddr := command_addr (f := f) hrs hj
  have hpage := page_of_command hrs hf hj
  obtain ⟨val, hbody, hidle⟩ := f1ErasePage_true (hn.passed.well j hjn)
  obtain ⟨rest, hsplit⟩ := logs_split (advance f.blocksize) (f1ErasePage A fuel)
    (0, r.addr) hjn
  rw [hbody, advance_iterate] at hsplit
  dsimp only at hsplit
  refine ⟨bankOf (r.addr + UInt32.ofNat j * f.blocksize), r.addr + UInt32.ofNat j * f.blocksize,
    (flashUnlock L (toUnlock f r.addr r.len)).1 ++
      logs (advance f.blocksize) (f1ErasePage A fuel) (0, r.addr) j,
    [.sr (bankOf (r.addr + UInt32.ofNat j * f.blocksize)) val] ++ rest ++
      (toCheck f r.addr r.len).map fun b => .sr b (A.lastSr b), ?_, hpage, ?_, ?_, ?_⟩
  · exact (bankOf_page hrs hf (by omega) (by omega) hpage).symm
  · rw [hn.log, hsplit]
    simp only [List.append_assoc]
  · -- The bank of the command has been unlocked.
    have hlocked := flashUnlock_locked hn.unlocked
    have hstays : ¬ StaysLocked f L r.addr r.len := by
      rw [← flashUnlock_fails, hn.unlocked]
      exact nofun
    rw [hn.locks, hlocked, bankOf_eq, haddr]
    unfold StaysLocked at hstays
    split
    · have hsecond : secondBank f r.addr r.len = true :=
        (secondBank_iff hrs r).mpr ⟨(hbank.resolve_left (by omega)).1, by omega⟩
      have hmem : Bank.two ∈ toUnlock f r.addr r.len := by simp [toUnlock, hsecond]
      rcases (hbank.resolve_left (by omega)).2 with h | h
      · rw [h, Bool.false_and]
      · simp [hmem, h]
    · have hbelow : r.addr < bankSplit := below_iff.mpr (by omega)
      have hmem : Bank.one ∈ toUnlock f r.addr r.len := by simp [toUnlock, hbelow]
      split at hstays
      · rw [Bool.eq_false_iff.mpr hstays, Bool.false_and]
      · cases h : L.locked .one with
        | false => rw [Bool.false_and]
        | true =>
          cases h' : L.opens .one with
          | false => exact absurd ⟨hbelow, h, h'⟩ hstays
          | true => simp [hmem]
  · -- Its status is checked at the end.
    have hmem : bankOf (r.addr + UInt32.ofNat j * f.blocksize) ∈ toCheck f r.addr r.len := by
      rw [bankOf_eq, haddr]
      split
      · have hsecond : secondBank f r.addr r.len = true :=
          (secondBank_iff hrs r).mpr ⟨(hbank.resolve_left (by omega)).1, by omega⟩
        simp [toCheck, hsecond]
      · have hbelow : r.addr < bankSplit := below_iff.mpr (by omega)
        simp [toCheck, hbelow]
    constructor
    · refine ⟨val, ?_, hidle⟩
      exact srOf_mem.mpr (List.mem_append_left _ (List.mem_append_left _ (List.mem_singleton_self _)))
    · refine ⟨A.lastSr _, ?_, (checkErrors_zero hn.good).2 _ hmem⟩
      rw [List.filterMap_append, checks_last hmem, List.getLast?_concat]

end

/-! ## A controller that shows errors behind each page, and none at the end -/

def forgetfulF1 : F1Answers where
  sr _ _ := 0x14
  fault _ _ := false
  lastSr _ := 0x20
  writeSr _ _ := 0
  writeFault _ _ := false

theorem forgetfulF1_page {fuel : Nat} (hfuel : 0 < fuel) (s : Nat × UInt32) :
    f1ErasePage forgetfulF1 fuel s = ([.cr (bankOf s.2) f1CrPer, .ar (bankOf s.2) s.2,
      .cr (bankOf s.2) (f1CrStrt ||| f1CrPer), .sr (bankOf s.2) 0x14], some true) := by
  have hpoll : poll (eraseTurn forgetfulF1 s.1) fuel = some (true, 0x14) :=
    poll_iff.mpr ⟨0, hfuel, if_pos (show (0x14 : UInt32) &&& f1SrBsy = 0 by decide),
      fun j hj => absurd hj (Nat.not_lt_zero j)⟩
  unfold f1ErasePage
  rw [hpoll]
  rfl

theorem forgetfulF1_checks (bs : List Bank) : (checkErrors forgetfulF1 bs).2 = 0 := by
  induction bs with
  | nil => rfl
  | cons b bs ih =>
    have hgood : ¬ (forgetfulF1.lastSr b &&& f1SrErrors ≠ 0 ∨
        forgetfulF1.lastSr b &&& f1SrEop = 0) :=
      show ¬ ((0x20 : UInt32) &&& f1SrErrors ≠ 0 ∨ (0x20 : UInt32) &&& f1SrEop = 0) by decide
    rw [checkErrors]
    dsimp only
    rw [if_neg hgood]
    exact ih

section

variable {rs : List F1Region} {f : F1Region} {r : F1Range rs} {L : Locks}

theorem forgetfulF1_zero (hrs : Accepted rs) (hf : f ∈ rs)
    (hstays : ¬ StaysLocked f L r.addr r.len) :
    ∃ fuel > 0, (f1FlashErase L forgetfulF1 f fuel r.addr r.len).ret = some 0 := by
  have hunlocked : (flashUnlock L (toUnlock f r.addr r.len)).2.2 = true := by
    rw [← flashUnlock_fails] at hstays
    exact eq_true_of_ne_false hstays
  have hpos := r.pos
  refine ⟨r.len.toNat + 1, Nat.succ_pos _, ?_⟩
  have hsweep : (sweep (saturating f.blocksize) (advance f.blocksize)
      (f1ErasePage forgetfulF1 (r.len.toNat + 1)) (r.len.toNat + 1) r.len (0, r.addr)).2 =
      some true := by
    rcases sweep_cases (saturating f.blocksize) (advance f.blocksize)
      (f1ErasePage forgetfulF1 (r.len.toNat + 1)) (r.len.toNat + 1) r.len (0, r.addr) with
      ⟨n, hn, hp, hlive, hend⟩ | ⟨n, hn, hp, hzero⟩ | hp
    · rw [forgetfulF1_page (Nat.succ_pos _)] at hend
      exact absurd rfl hend
    · rw [sweep_finish hp hzero hn]
    · have hlive := hp.live r.len.toNat (Nat.lt_succ_self _)
      rw [← UInt32.toNat_inj.ne, saturating_iterate, UInt32.toNat_zero] at hlive
      have hmul : r.len.toNat * 1 ≤ r.len.toNat * f.blocksize.toNat := by
        apply Nat.mul_le_mul_left
        rcases blocksize_cases hrs hf with h | h
        · omega
        · omega
      omega
  unfold f1FlashErase
  dsimp only
  rw [hunlocked, hsweep]
  exact congrArg some (forgetfulF1_checks _)

/-- The accesses of a run with that controller: keys, pages and checks. -/
theorem forgetfulF1_mem {fuel n : Nat}
    (hn : ErasedAll L forgetfulF1 f fuel r.addr r.len n) {e : F1Event}
    (he : e ∈ (f1FlashErase L forgetfulF1 f fuel r.addr r.len).log) :
    (∃ b val, e = .keyr b val) ∨
    (∃ j < n, e ∈ (f1ErasePage forgetfulF1 fuel (j, r.addr + UInt32.ofNat j * f.blocksize)).1) ∨
    ∃ b ∈ toCheck f r.addr r.len, e = .sr b 0x20 := by
  rw [hn.log] at he
  rcases List.mem_append.mp he with he | he
  · rcases List.mem_append.mp he with he | he
    · exact Or.inl (flashUnlock_log e he)
    · obtain ⟨j, hj, he⟩ := List.mem_flatMap.mp he
      rw [advance_iterate, Nat.zero_add] at he
      exact Or.inr (Or.inl ⟨j, List.mem_range.mp hj, he⟩)
  · obtain ⟨b, hb, rfl⟩ := List.mem_map.mp he
    exact Or.inr (Or.inr ⟨b, hb, rfl⟩)

theorem of_eraseHonest (hrs : Accepted rs) (hf : f ∈ rs) (h : EraseHonest f L r)
    (hstays : ¬ StaysLocked f L r.addr r.len) :
    r.last f ≤ r.first f + (r.len.toNat - 1) / f.blocksize.toNat ∧
      (r.addr.toNat + r.len.toNat ≤ 0x08080000 ∨
        f.idcode = xlDensity ∧ (L.locked .two = false ∨ L.opens .two = true)) := by
  have hpos := r.pos
  have hlow := r.low
  have hend := range_end hrs r
  obtain ⟨fuel, hfuel, hzero⟩ := forgetfulF1_zero hrs hf hstays
  obtain ⟨n, hn⟩ := erasedAll_of_zero hzero
  have hle : r.first f ≤ r.last f := Nat.div_le_div_right (by omega)
  obtain ⟨b, a, before, behind, hb, ha, hlog, hlocked, hstatus⟩ :=
    h forgetfulF1 fuel hzero (r.last f) hle (Nat.le_refl _)
  constructor
  · -- The address of the last page is that of a command.
    have hmem : F1Event.ar b a ∈ (f1FlashErase L forgetfulF1 f fuel r.addr r.len).log := by
      rw [hlog]
      simp
    rcases forgetfulF1_mem hn hmem with ⟨x, val, hkey⟩ | ⟨j, hj, hpage⟩ | ⟨x, -, hsr⟩
    · nomatch hkey
    · rw [forgetfulF1_page hfuel] at hpage
      have heq : a = r.addr + UInt32.ofNat j * f.blocksize := by
        simp at hpage
        exact hpage.2
      have hj := (command_iff hn).mp hj
      rw [heq, page_of_command hrs hf hj] at ha
      rw [← ha]
      apply Nat.add_le_add_left
      rcases blocksize_cases hrs hf with hsize | hsize
      · rw [hsize] at hj ⊢
        omega
      · rw [hsize] at hj ⊢
        omega
    · nomatch hsr
  · by_cases hhigh : r.addr.toNat + r.len.toNat ≤ 0x08080000
    · exact Or.inl hhigh
    · refine Or.inr ?_
      -- The last page is one of the second bank, and its last status has to be that of a check.
      have htwo : b = .two := by
        have hlast : (r.addr + (r.len - 1)).toNat = r.addr.toNat + r.len.toNat - 1 := by
          rw [UInt32.toNat_add, sub_toNat_of_le (show (1 : UInt32).toNat ≤ _ by
            show 1 ≤ r.len.toNat; omega)]
          show (r.addr.toNat + (r.len.toNat - 1)) % 2 ^ 32 = _
          omega
        have hpage : ((r.addr + (r.len - 1)).toNat - 0x08000000) / f.blocksize.toNat =
            r.last f := by
          have hoff : r.addr.toNat + r.len.toNat - 1 - 0x08000000 =
              r.addr.toNat - 0x08000000 + r.len.toNat - 1 := by
            omega
          rw [hlast, hoff]
          rfl
        rw [hb, bankOf_page hrs hf (by omega) (by omega) hpage, bankOf_eq, hlast, if_pos (by omega)]
      obtain ⟨val, hval, hgood⟩ := hstatus.last
      have hmem : F1Event.sr b val ∈ (f1FlashErase L forgetfulF1 f fuel r.addr r.len).log := by
        rw [hlog]
        exact List.mem_append_right _ (srOf_mem.mp (List.mem_of_getLast? hval))
      have hsecond : secondBank f r.addr r.len = true := by
        rcases forgetfulF1_mem hn hmem with ⟨x, v, hkey⟩ | ⟨j, hj, hpage⟩ | ⟨x, hx, hsr⟩
        · nomatch hkey
        · rw [forgetfulF1_page hfuel] at hpage
          have hval' : val = 0x14 := by
            simp only [List.mem_cons, reduceCtorEq, F1Event.sr.injEq, List.not_mem_nil, or_false,
              false_or] at hpage
            exact hpage.2
          rw [hval'] at hgood
          exact absurd hgood (by decide)
        · have hx' : b = x := (F1Event.sr.inj hsr).1
          rw [← hx', htwo] at hx
          unfold toCheck at hx
          by_contra hnot
          split at hx <;> simp_all
      refine ⟨((secondBank_iff hrs r).mp hsecond).1, ?_⟩
      have hunlock : Bank.two ∈ toUnlock f r.addr r.len := by simp [toUnlock, hsecond]
      rw [htwo, hn.locks, flashUnlock_locked hn.unlocked, decide_eq_true hunlock, Bool.true_and] at hlocked
      cases hlocked' : L.locked .two with
      | false => exact Or.inl rfl
      | true =>
        rw [hlocked', Bool.true_and] at hlocked
        exact Or.inr (Bool.not_eq_eq_eq_not.mp hlocked)

/-- The erase function returns 0 only for erased pages just when the unlock fails, or the last page
is reached and a range that gets to the second bank is one of the part with two banks whose second
bank the keys unlock. -/
theorem eraseHonest_iff (hrs : Accepted rs) (hf : f ∈ rs) : EraseHonest f L r ↔
    StaysLocked f L r.addr r.len ∨
    r.last f ≤ r.first f + (r.len.toNat - 1) / f.blocksize.toNat ∧
      (r.addr.toNat + r.len.toNat ≤ 0x08080000 ∨
        f.idcode = xlDensity ∧ (L.locked .two = false ∨ L.opens .two = true)) := by
  constructor
  · intro h
    by_cases hstays : StaysLocked f L r.addr r.len
    · exact Or.inl hstays
    · exact Or.inr (of_eraseHonest hrs hf h hstays)
  · rintro (hstays | ⟨hlast, hbank⟩)
    · intro A fuel hret
      obtain ⟨n, hn⟩ := erasedAll_of_zero hret
      rw [← flashUnlock_fails, hn.unlocked] at hstays
      contradiction
    · exact eraseHonest_of hrs hf hlast hbank

end

end MiyakoLink.Stm32
