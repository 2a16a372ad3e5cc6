import MiyakoLink.Pages.Probes

/-!
# What the calls do to the flash

* `PageFlash.erase_flash`: what an erase of a range that has come back with 0 makes of the flash.
* `PageFlash.write_flash`: the same for the write of a page.
-/

namespace MiyakoLink.Pages

open Flash Lib Erase

variable {T : Target}

theorem retOf_eq_zero {ok : Option Bool} (h : retOf ok = some 0) : ok = some true := by
  cases ok with
  | none => contradiction
  | some b =>
    cases b with
    | true => rfl
    | false => exact absurd (Option.some.inj h) (show (-1 : Ret) ≠ 0 by decide)

theorem settle_eq_zero {s : Env} {r : List Effect × Option Ret} (h : (T.settle s r).1 = 0) :
    r.2 = some 0 := by
  unfold Target.settle at h
  cases hr : r.2 with
  | none =>
    rw [hr] at h
    exact absurd h (show (-1 : Ret) ≠ 0 by decide)
  | some ret =>
    rw [hr] at h
    exact congrArg some h

theorem settle_flash {s : Env} {r : List Effect × Option Ret} (h : (T.settle s r).1 = 0) :
    (T.settle s r).2.flash = r.1.foldl Effect.run s.flash := if_pos (settle_eq_zero h)

/-! ## Sweeps -/

/-- Units that are erased one after the other. -/
theorem foldl_erase (start : UInt32) (size n : Nat) (number : Nat → Nat) (flash : UInt32 → UInt8)
    (a : UInt32) :
    ((List.range n).map fun j => Effect.erase start size (number j)).foldl Effect.run flash a =
      if ∃ j < n, (a - start).toNat / size = number j then 0xFF else flash a := by
  induction n with
  | zero => simp
  | succ n ih =>
    rw [List.range_succ, List.map_append, List.foldl_append]
    show (if (a - start).toNat / size = number n then 0xFF else _) = _
    rw [ih, ← ite_or]
    refine if_congr ⟨?_, ?_⟩ rfl rfl
    · rintro (h | ⟨j, hj, h⟩)
      · exact ⟨n, Nat.lt_succ_self n, h⟩
      · exact ⟨j, Nat.lt_succ_of_lt hj, h⟩
    · rintro ⟨j, hj, h⟩
      rcases Nat.lt_succ_iff_lt_or_eq.mp hj with hj | rfl
      · exact Or.inr ⟨j, hj, h⟩
      · exact Or.inl h

/-- The effects of a sweep that has come to its end, one for each body. -/
theorem sweep_effects {σ ω : Type*} {next : UInt32 → UInt32} {advance : σ → σ}
    {body : σ → List ω × Option Bool} {fuel : Nat} {len : UInt32} {s : σ}
    {effect : ω → Option Effect} {e : Nat → Effect}
    (hbody : ∀ j, (body (advance^[j] s)).2 = some true →
      (body (advance^[j] s)).1.filterMap effect = [e j])
    (h : (sweep next advance body fuel len s).2 = some true) :
    ∃ n, (∀ j < n, next^[j] len ≠ 0) ∧ next^[n] len = 0 ∧
      (sweep next advance body fuel len s).1.filterMap effect = (List.range n).map e := by
  obtain ⟨n, hpassed, hzero, hlog⟩ := sweep_done h
  refine ⟨n, hpassed.live, hzero, ?_⟩
  have hwell := hpassed.well
  rw [hlog, logs]
  clear hpassed hzero hlog
  induction n with
  | zero => rfl
  | succ n ih =>
    rw [List.range_succ, List.flatMap_append, List.filterMap_append, List.map_append,
      List.flatMap_singleton, hbody n (hwell n (Nat.lt_succ_self n)),
      ih fun j hj => hwell j (Nat.lt_succ_of_lt hj)]
    rfl

section

variable {size len : UInt32} {n j : Nat}

theorem saturating_lt_iff (hlive : ∀ j < n, (saturating size)^[j] len ≠ 0)
    (hzero : (saturating size)^[n] len = 0) : j < n ↔ j * size.toNat < len.toNat := by
  constructor
  · intro hj
    have hne := mt UInt32.toNat_inj.mp (hlive j hj)
    rw [saturating_iterate, UInt32.toNat_zero] at hne
    omega
  · intro hj
    by_contra hn
    have hall := congrArg UInt32.toNat hzero
    have hmono := Nat.mul_le_mul_right size.toNat (Nat.le_of_not_lt hn)
    rw [saturating_iterate, UInt32.toNat_zero] at hall
    omega

theorem wrapping_lt_iff (hsize : 0 < size.toNat) (hdvd : size.toNat ∣ 2 ^ 32)
    (hlive : ∀ j < n, (wrapping size)^[j] len ≠ 0) (hzero : (wrapping size)^[n] len = 0) :
    j < n ↔ j * size.toNat < len.toNat := by
  have hmultiple : size.toNat ∣ len.toNat := by
    by_contra hnot
    exact wrapping_ne_zero hdvd hnot n hzero
  obtain ⟨m, hm⟩ := hmultiple
  rw [Nat.mul_comm] at hm
  have hn : n ≤ m := by
    by_contra hlt
    apply hlive m (Nat.lt_of_not_le hlt)
    apply UInt32.toNat_inj.mp
    rw [wrapping_iterate (Nat.le_of_eq hm.symm), hm, Nat.sub_self]
    rfl
  have hall := congrArg UInt32.toNat hzero
  have hmono := Nat.mul_le_mul_right size.toNat hn
  rw [wrapping_iterate (by omega), UInt32.toNat_zero] at hall
  have hlen : n * size.toNat = len.toNat := by omega
  rw [← hlen]
  exact (Nat.mul_lt_mul_right hsize).symm

end

/-- The address of a turn. -/
theorem advance_toNat {addr size : UInt32} {j : Nat}
    (h : addr.toNat + j * size.toNat < 2 ^ 32) (hsize : 0 < size.toNat) :
    (addr + UInt32.ofNat j * size).toNat = addr.toNat + j * size.toNat := by
  have hj : j < 2 ^ 32 := by
    have hle := Nat.le_mul_of_pos_right j hsize
    omega
  rw [UInt32.toNat_add, UInt32.toNat_mul, UInt32.toNat_ofNat_of_lt' hj,
    Nat.mod_eq_of_lt (show j * size.toNat < 2 ^ 32 by omega), Nat.mod_eq_of_lt h]

/-- What has been erased when units that follow each other have been. -/
theorem foldl_erase_units {start : UInt32} {unit size n y : Nat} {len : UInt32}
    {number : Nat → Nat} (hn : ∀ j, j < n ↔ j * size < len.toNat)
    (hnumber : ∀ j, j * size < len.toNat → number j = y + j) (flash : UInt32 → UInt8) (a : UInt32) :
    ((List.range n).map fun j => Effect.erase start unit (number j)).foldl Effect.run flash a =
      if y ≤ (a - start).toNat / unit ∧ ((a - start).toNat / unit - y) * size < len.toNat then 0xFF
      else flash a := by
  rw [foldl_erase]
  refine if_congr ⟨?_, ?_⟩ rfl rfl
  · rintro ⟨j, hj, heq⟩
    have hj := (hn j).mp hj
    rw [heq, hnumber j hj, Nat.add_sub_cancel_left]
    exact ⟨Nat.le_add_right y j, hj⟩
  · rintro ⟨hle, hlt⟩
    refine ⟨_, (hn _).mpr hlt, ?_⟩
    rw [hnumber _ hlt, Nat.add_sub_cancel' hle]

/-! ## Erasing -/

/-- What an erase of a range that succeeds has erased: the units of `blocksize` bytes from that of
the first address on. The erase function of a SAM3 does nothing. -/
def PageFlash.erases (F : PageFlash) (e : UInt32 × UInt32) (a : UInt32) : Bool :=
  match F.driver with
  | .sam3 _ => false
  | _ =>
    let size := F.blocksize.toNat
    decide (e.1.toNat / size ≤ a.toNat / size ∧
      (a.toNat / size - e.1.toNat / size) * size < e.2.toNat)

theorem samdCommand_log {call k fuel : Nat} {cmd address : UInt32}
    (h : (samdCommand T call k fuel cmd address).2 = some true) :
    (samdCommand T call k fuel cmd address).1 =
      [⟨samdNvmcCtrla, samdCmdKey ||| samdCmdUnlock, address⟩,
        ⟨samdNvmcCtrla, samdCmdKey ||| cmd, address⟩,
        ⟨samdNvmcCtrla, samdCmdKey ||| samdCmdLock, address⟩] := by
  unfold samdCommand at h ⊢
  dsimp only at h ⊢
  split at h
  · rfl
  · next hne => exact absurd h hne

/-- The address register of a SAM D holds half of the address. -/
theorem half_double (a : UInt32) : (a >>> 1 <<< 1).toNat = a.toNat / 2 * 2 := by
  have ha := a.toNat_lt
  rw [UInt32.toNat_shiftLeft, UInt32.toNat_shiftRight]
  show (a.toNat >>> 1) <<< 1 % 2 ^ 32 = _
  rw [Nat.shiftRight_eq_div_pow, Nat.shiftLeft_eq]
  omega

theorem sub_zero_toNat (a : UInt32) : (a - 0).toNat = a.toNat := congrArg UInt32.toNat a.sub_zero

variable {F : PageFlash} {call fuel : Nat} {addr len : UInt32}

theorem samdEraseRow_effects {s : Nat × UInt32}
    (h : (samdEraseRow T call fuel s).2 = some true) :
    (samdEraseRow T call fuel s).1.filterMap (samdEffect 0 []) =
      [.erase 0 256 (s.2.toNat / 256)] := by
  have hnumber : (s.2 >>> 1 <<< 1).toNat / 256 = s.2.toNat / 256 := by
    rw [half_double]
    omega
  rw [samdEraseRow, samdCommand_log h, ← hnumber]
  rfl

theorem samdFlashErase_flash (hrange : addr.toNat + len.toNat ≤ 2 ^ 32)
    (h : (samdFlashErase T call fuel addr len).2 = some 0) (flash : UInt32 → UInt8) (a : UInt32) :
    (samdFlashErase T call fuel addr len).1.foldl Effect.run flash a =
      if addr.toNat / 256 ≤ a.toNat / 256 ∧
          (a.toNat / 256 - addr.toNat / 256) * 256 < len.toNat then 0xFF
      else flash a := by
  obtain ⟨n, hlive, hzero, heffects⟩ := sweep_effects (fun j hj => by
    rw [advance_iterate] at hj ⊢
    exact samdEraseRow_effects hj) (retOf_eq_zero h)
  have hcount (j : Nat) : j < n ↔ j * 256 < len.toNat := saturating_lt_iff hlive hzero
  show (List.filterMap _ _).foldl Effect.run flash a = _
  rw [heffects, foldl_erase_units (y := addr.toNat / 256) hcount ?_]
  · rw [sub_zero_toNat]
  · intro j hj
    show (addr + UInt32.ofNat j * samdRowSize).toNat / 256 = _
    rw [advance_toNat (show addr.toNat + j * 256 < 2 ^ 32 by omega) (by decide)]
    exact Nat.add_mul_div_right _ _ (by decide)

theorem samx5xEraseBlock_effects {C : Samx5x} {s : Nat × UInt32}
    (h : (C.eraseBlock fuel s).2 = some true) :
    (C.eraseBlock fuel s).1.filterMap (samx5xEffect 0 []) =
      [.erase 0 8192 (s.2.toNat / 8192)] := by
  unfold Samx5x.eraseBlock at h ⊢
  dsimp only at h ⊢
  split at h
  · rfl
  · next hne => exact absurd h hne

theorem samx5xFlashErase_flash (hrange : addr.toNat + len.toNat ≤ 2 ^ 32)
    (h : (samx5xFlashErase T call fuel addr len).2 = some 0) (flash : UInt32 → UInt8)
    (a : UInt32) :
    (samx5xFlashErase T call fuel addr len).1.foldl Effect.run flash a =
      if addr.toNat / 8192 ≤ a.toNat / 8192 ∧
          (a.toNat / 8192 - addr.toNat / 8192) * 8192 < len.toNat then 0xFF
      else flash a := by
  unfold samx5xFlashErase Samx5x.flashErase at h ⊢
  dsimp only at h ⊢
  by_cases hlocked : (T.nvmc call).locked addr = true
  · rw [if_pos hlocked] at h
    exact absurd (Option.some.inj h) (show (-1 : Ret) ≠ 0 by decide)
  · rw [if_neg hlocked] at h ⊢
    obtain ⟨n, hlive, hzero, heffects⟩ := sweep_effects (fun j hj => by
      rw [advance_iterate] at hj ⊢
      exact samx5xEraseBlock_effects hj) (retOf_eq_zero h)
    have hcount (j : Nat) : j < n ↔ j * 8192 < len.toNat :=
      wrapping_lt_iff (by decide) ⟨2 ^ 19, rfl⟩ hlive hzero
    have hclear : (if (T.nvmc call).intflag &&& nvmErrors ≠ 0 then [NvmcWrite.intflag nvmErrors]
        else []).filterMap (samx5xEffect 0 []) = [] := by
      split
      · rfl
      · rfl
    rw [List.filterMap_append, hclear, List.nil_append, heffects,
      foldl_erase_units (y := addr.toNat / 8192) hcount ?_]
    · rw [sub_zero_toNat]
    · intro j hj
      show (addr + UInt32.ofNat j * samx5xBlockSize).toNat / 8192 = _
      rw [advance_toNat (show addr.toNat + j * 8192 < 2 ^ 32 by omega) (by decide)]
      exact Nat.add_mul_div_right _ _ (by decide)

theorem efm32ErasePage_effects (msc blocksize : UInt32) (s : Nat × UInt32) :
    (efm32ErasePage T msc call fuel s).1.filterMap (efm32Effect msc blocksize) =
      [.erase 0 blocksize.toNat (s.2.toNat / blocksize.toNat)] := by
  have haddrb : mscAddrb msc ≠ mscWritecmd msc := by
    intro h
    exact absurd ((UInt32.add_right_inj msc).mp h) (by decide)
  have hladdrim : mscWritecmdLaddrim ≠ mscWritecmdErasepage := by decide
  simp only [efm32ErasePage, efm32Effect, List.filterMap_cons, List.filterMap_nil, haddrb,
    hladdrim, false_and, and_false, and_self, if_false, if_true]

theorem efm32FlashErase_flash {msc blocksize : UInt32} (hsize : 0 < blocksize.toNat)
    (hrange : addr.toNat + len.toNat ≤ 2 ^ 32)
    (h : (efm32FlashErase T msc blocksize call fuel addr len).2 = some 0)
    (flash : UInt32 → UInt8) (a : UInt32) :
    (efm32FlashErase T msc blocksize call fuel addr len).1.foldl Effect.run flash a =
      if addr.toNat / blocksize.toNat ≤ a.toNat / blocksize.toNat ∧
          (a.toNat / blocksize.toNat - addr.toNat / blocksize.toNat) * blocksize.toNat <
            len.toNat then 0xFF
      else flash a := by
  obtain ⟨n, hlive, hzero, heffects⟩ := sweep_effects
    (fun j _ => efm32ErasePage_effects msc blocksize ((advance blocksize)^[j] (0, addr)))
    (retOf_eq_zero h)
  have hcount (j : Nat) : j < n ↔ j * blocksize.toNat < len.toNat := saturating_lt_iff hlive hzero
  have hunlock : ([⟨mscLock msc, mscLockLockkey, 0⟩, ⟨mscWritectrl msc, 1, 0⟩] :
      List RegWrite).filterMap (efm32Effect msc blocksize) = [] := by
    have hkey : mscLockLockkey ≠ mscWritecmdErasepage := by decide
    have hone : (1 : UInt32) ≠ mscWritecmdErasepage := by decide
    simp only [efm32Effect, List.filterMap_cons, List.filterMap_nil, hkey, hone, and_false,
      if_false]
  show (List.filterMap _ (_ ++ _)).foldl Effect.run flash a = _
  rw [List.filterMap_append, hunlock, List.nil_append, heffects,
    foldl_erase_units (y := addr.toNat / blocksize.toNat) hcount ?_]
  · rw [sub_zero_toNat]
  · intro j hj
    rw [advance_iterate]
    show (addr + UInt32.ofNat j * blocksize).toNat / blocksize.toNat = _
    rw [advance_toNat (by omega) hsize]
    exact Nat.add_mul_div_right _ _ hsize

/-! ### SAM3X/4 -/

theorem fcr_arg (cmd : UInt8) (arg : UInt16) :
    ((eefcFcrFkey ||| cmd.toUInt32 ||| arg.toUInt32 <<< 8) >>> 8).toUInt16 = arg := by
  have hkey : ∀ i : Fin 16, (0x5A000000#32)[8 + i.1] = false := by decide
  refine UInt16.toBitVec_inj.mp (BitVec.eq_of_getLsbD_eq fun i hi => ?_)
  have hlow : ¬ 8 + i < 8 := by omega
  have hhigh : 8 + i < 32 := by omega
  simp [hkey ⟨i, hi⟩, hlow, hhigh, hi, Nat.lt_trans hi (show 16 < 32 by decide)]

theorem fcr_cmd (cmd : UInt8) (arg : UInt16) :
    (eefcFcrFkey ||| cmd.toUInt32 ||| arg.toUInt32 <<< 8).toUInt8 = cmd := by
  exact UInt8.toBitVec_inj.mp (by simp)

/-- The controller takes the command and its argument apart. -/
theorem samEffect_fcr (base start pageSize dest : UInt32) (src : List UInt8) (cmd : UInt8)
    (arg : UInt16) :
    samEffect base start pageSize dest src
        ⟨eefcFcr base, eefcFcrFkey ||| cmd.toUInt32 ||| arg.toUInt32 <<< 8, 0⟩ =
      if cmd = eefcFcrFcmdWp then some (.program start pageSize.toNat arg.toNat dest src)
      else if cmd = eefcFcrFcmdEwp then some (.replace start pageSize.toNat arg.toNat dest src)
      else if cmd = eefcFcrFcmdEpa then some (.erase start (8 * pageSize.toNat) (arg.toNat / 8))
      else none := by
  unfold samEffect
  simp only [fcr_arg, fcr_cmd, ne_eq, not_true_eq_false, if_false]

theorem sam4EraseChunk_effects (base start : UInt32) (s : Nat × UInt32) :
    (sam4EraseChunk T base call fuel s).1.filterMap (samEffect base start sam4PageSize 0 []) =
      [.erase start 4096 ((s.2 ||| 1).toUInt16.toNat / 8)] := by
  show [_].filterMap _ = _
  rw [List.filterMap_cons, samEffect_fcr]
  rfl

/-- Counted from the begin of the bank or from 0, the pages that are reached are the same. -/
theorem bank_units {start addr a : UInt32} (hstart : 0x1000 ∣ start.toNat)
    (hlow : start.toNat ≤ addr.toNat) (hrange : addr.toNat + len.toNat ≤ 2 ^ 32) :
    ((addr - start).toNat / 4096 ≤ (a - start).toNat / 4096 ∧
        ((a - start).toNat / 4096 - (addr - start).toNat / 4096) * 4096 < len.toNat) ↔
      addr.toNat / 4096 ≤ a.toNat / 4096 ∧
        (a.toNat / 4096 - addr.toNat / 4096) * 4096 < len.toNat := by
  obtain ⟨m, hm⟩ := hstart
  have ha := a.toNat_lt
  have haddr := addr.toNat_lt
  rw [UInt32.toNat_sub, UInt32.toNat_sub, hm]
  omega

theorem sam4FlashErase_flash {base start : UInt32} (hstart : 0x1000 ∣ start.toNat)
    (hlow : start.toNat ≤ addr.toNat)
    (hhigh : addr.toNat + len.toNat ≤ start.toNat + 0x200000)
    (hrange : addr.toNat + len.toNat ≤ 2 ^ 32)
    (h : (sam4FlashErase T base start (sam4PageSize * 8) call fuel addr len).2 = some 0)
    (flash : UInt32 → UInt8) (a : UInt32) :
    (sam4FlashErase T base start (sam4PageSize * 8) call fuel addr len).1.foldl Effect.run flash a =
      if addr.toNat / 4096 ≤ a.toNat / 4096 ∧
          (a.toNat / 4096 - addr.toNat / 4096) * 4096 < len.toNat then 0xFF
      else flash a := by
  obtain ⟨n, hlive, hzero, heffects⟩ := sweep_effects
    (fun j _ => sam4EraseChunk_effects base start
      ((advance 8)^[j] (0, (addr - start) / sam4PageSize))) (retOf_eq_zero h)
  have hcount (j : Nat) : j < n ↔ j * 4096 < len.toNat := saturating_lt_iff hlive hzero
  have hoffset : (addr - start).toNat = addr.toNat - start.toNat := sub_toNat_of_le hlow
  show (List.filterMap _ _).foldl Effect.run flash a = _
  rw [heffects, foldl_erase_units (y := (addr - start).toNat / 4096) hcount ?_]
  · exact if_congr (bank_units hstart hlow hrange) rfl rfl
  · intro j hj
    rw [advance_iterate]
    have hchunk : ((addr - start) / sam4PageSize).toNat = (addr - start).toNat / 512 :=
      UInt32.toNat_div _ _
    have hpage : ((addr - start) / sam4PageSize + UInt32.ofNat j * 8).toNat =
        (addr - start).toNat / 512 + j * 8 := by
      rw [← hchunk]
      exact advance_toNat (show _ + j * 8 < 2 ^ 32 by omega) (by decide)
    show (((addr - start) / sam4PageSize + UInt32.ofNat j * 8) ||| 1).toUInt16.toNat / 8 = _
    have hdist : j * 4096 + (addr - start).toNat < 0x200000 := by
      rw [hoffset]
      refine Nat.lt_of_lt_of_le (Nat.add_lt_add_right hj _) ?_
      omega
    have hlt : ((addr - start).toNat / 512 + j * 8 ||| 1) < 2 ^ 16 :=
      Nat.or_lt_two_pow (by omega) (Nat.one_lt_two_pow (by decide))
    rw [UInt32.toNat_toUInt16, UInt32.toNat_or, hpage]
    show ((addr - start).toNat / 512 + j * 8 ||| 1) % 2 ^ 16 / 2 ^ 3 = _
    rw [Nat.mod_eq_of_lt hlt, Nat.or_div_two_pow]
    show ((addr - start).toNat / 512 + j * 8) / 8 ||| 0 = _
    rw [Nat.or_zero]
    omega

theorem bufSize_facts {F : PageFlash} (hF : F.Fits) :
    1 < F.bufSize.toNat ∧ F.bufSize.toNat ∣ 2 ^ 32 ∧ 4 ∣ F.bufSize.toNat := by
  have hlist : ∀ b ∈ ([64, 256, 512, 1024, 2048, 4096] : List UInt32),
      1 < b.toNat ∧ b.toNat ∣ 4294967296 ∧ 4 ∣ b.toNat := by
    simp only [List.forall_mem_cons, List.not_mem_nil, false_implies, implies_true, and_true]
    decide
  have hsized := hF.sized
  obtain ⟨driver, start, length, blocksize, bufSize⟩ := F
  have hsize : ∀ b ∈ ([64, 256, 512, 1024, 2048, 4096] : List UInt32), bufSize = b →
      1 < bufSize.toNat ∧ bufSize.toNat ∣ 4294967296 ∧ 4 ∣ bufSize.toNat := by
    rintro b hb rfl
    exact hlist bufSize hb
  cases driver with
  | samd => exact hsize 64 (by decide) hsized.2
  | samx5x => exact hsize 512 (by decide) hsized.2
  | efm32 msc =>
    exact hlist bufSize (List.mem_cons_of_mem _ (List.mem_cons_of_mem _ hsized.2))
  | sam3 base => exact hsize 256 (by decide) hsized.1
  | sam4 base => exact hsize 512 (by decide) hsized.2.1

/-- An erase of a range inside of a region that has come back with 0. -/
theorem PageFlash.erase_flash {F : PageFlash} (hF : F.Fits)
    (hlow : F.start.toNat ≤ addr.toNat)
    (hhigh : addr.toNat + len.toNat ≤ F.start.toNat + F.length.toNat)
    (h : (F.erase T call fuel addr len).2 = some 0) (flash : UInt32 → UInt8) (a : UInt32) :
    (F.erase T call fuel addr len).1.foldl Effect.run flash a =
      if F.erases (addr, len) a then 0xFF else flash a := by
  have hrange := Nat.le_trans hhigh hF.top
  have hsized := hF.sized
  obtain ⟨driver, start, length, blocksize, bufSize⟩ := F
  unfold PageFlash.erases
  cases driver with
  | samd =>
    obtain ⟨rfl, -⟩ := hsized
    exact (samdFlashErase_flash hrange h flash a).trans
      (if_congr decide_eq_true_iff.symm rfl rfl)
  | samx5x =>
    obtain ⟨rfl, -⟩ := hsized
    exact (samx5xFlashErase_flash hrange h flash a).trans
      (if_congr decide_eq_true_iff.symm rfl rfl)
  | efm32 msc =>
    have hpos : 0 < blocksize.toNat := by
      rw [show blocksize = bufSize from hsized.1]
      exact Nat.lt_of_succ_lt (bufSize_facts hF).1
    exact (efm32FlashErase_flash hpos hrange h flash a).trans
      (if_congr decide_eq_true_iff.symm rfl rfl)
  | sam3 base => rfl
  | sam4 base =>
    obtain ⟨rfl, -, hstart, hlength⟩ := hsized
    exact (sam4FlashErase_flash hstart hlow (Nat.le_trans hhigh (Nat.add_le_add_left hlength _))
      hrange h flash a).trans (if_congr decide_eq_true_iff.symm rfl rfl)

/-! ## Writing -/

/-- What programming a page makes of a byte. A SAM3 erases the page first. -/
def PageFlash.prog (F : PageFlash) (old new : UInt8) : UInt8 :=
  match F.driver with
  | .sam3 _ => new
  | _ => old &&& new

section

variable {dest : UInt32} {src : List UInt8}

theorem samdFlashWrite_effects (h : (samdFlashWrite T call fuel dest src).2 = some 0) :
    (samdFlashWrite T call fuel dest src).1 = [.program 0 64 (dest.toNat / 64) dest src] := by
  have hnumber : (dest >>> 1 <<< 1).toNat / 64 = dest.toNat / 64 := by
    rw [half_double]
    omega
  unfold samdFlashWrite at h ⊢
  dsimp only at h ⊢
  rw [samdCommand_log (retOf_eq_zero h), ← hnumber]
  rfl

theorem samx5xFlashWrite_effects (h : (samx5xFlashWrite T call fuel dest src).2 = some 0) :
    (samx5xFlashWrite T call fuel dest src).1 = [.program 0 512 (dest.toNat / 512) dest src] := by
  have hclear : (if (T.nvmc call).intflag &&& nvmErrors ≠ 0 then [NvmcWrite.intflag nvmErrors]
      else []).filterMap (samx5xEffect dest src) = [] := by
    split
    · rfl
    · rfl
  unfold samx5xFlashWrite at h ⊢
  dsimp only at h ⊢
  split at h
  · rw [List.filterMap_append, List.filterMap_append, hclear]
    rfl
  · next hne => exact absurd (retOf_eq_zero h) hne

/-- Words that are programmed one after the other. -/
theorem foldl_program (m n : Nat) (flash : UInt32 → UInt8) (a : UInt32) :
    ((List.range n).map fun i => Effect.program 0 4 (m + i) dest src).foldl Effect.run flash a =
      if m ≤ a.toNat / 4 ∧ a.toNat / 4 < m + n then flash a &&& (bytesAt dest src a).getD 0xFF
      else flash a := by
  induction n with
  | zero =>
    rw [if_neg (by omega)]
    rfl
  | succ n ih =>
    rw [List.range_succ, List.map_append, List.foldl_append]
    show (if (a - 0).toNat / 4 = m + n then _ &&& _ else _) = _
    rw [ih, sub_zero_toNat]
    by_cases hlast : a.toNat / 4 = m + n
    · rw [if_pos hlast, if_neg (by omega), if_pos (by omega)]
    · rw [if_neg hlast]
      exact if_congr (by omega) rfl rfl

theorem efm32FlashWriteStub_flash {size : UInt32} (hpos : 0 < size.toNat) (h4 : 4 ∣ size.toNat)
    (hdest : size.toNat ∣ dest.toNat) (flash : UInt32 → UInt8) (a : UInt32) :
    (efm32FlashWriteStub dest src size).foldl Effect.run flash a =
      if a.toNat / size.toNat = dest.toNat / size.toNat then
        flash a &&& (bytesAt dest src a).getD 0xFF
      else flash a := by
  obtain ⟨q, hq⟩ := h4
  obtain ⟨p, hp⟩ := hdest
  have hwords : efm32FlashWriteStub dest src size =
      (List.range q).map fun i => Effect.program 0 4 (dest.toNat / 4 + i) dest src := by
    unfold efm32FlashWriteStub
    rw [hq, Nat.mul_div_cancel_left q (show 0 < 4 by decide)]
    refine List.map_congr_left fun i _ => ?_
    rw [Nat.add_mul_div_left _ _ (show 0 < 4 by decide)]
  have hfirst : dest.toNat / 4 = q * p := by
    rw [hp, hq, Nat.mul_assoc, Nat.mul_div_cancel_left _ (show 0 < 4 by decide)]
  rw [hwords, foldl_program, hfirst]
  refine if_congr ?_ rfl rfl
  have hqpos : 0 < q := by omega
  have hdiv : a.toNat / size.toNat = a.toNat / 4 / q := by rw [hq, Nat.div_div_eq_div_mul]
  rw [hdiv, hp, Nat.mul_div_cancel_left p hpos, Nat.div_eq_iff hqpos, Nat.mul_comm p q]
  omega

section

variable {base start bufSize : UInt32} (hpage : (dest - start).toNat / bufSize.toNat < 2 ^ 16)
include hpage

/-- The number of a page has 16 bits. -/
theorem page_arg :
    ((dest - start) / bufSize).toUInt16.toNat = (dest - start).toNat / bufSize.toNat := by
  rw [UInt32.toNat_toUInt16, UInt32.toNat_div, Nat.mod_eq_of_lt hpage]

theorem sam3xFlashWrite_wp :
    (sam3xFlashWrite T base start eefcFcrFcmdWp bufSize call fuel dest src).1 =
      [.program start bufSize.toNat ((dest - start).toNat / bufSize.toNat) dest src] := by
  show [_].filterMap _ = _
  rw [List.filterMap_cons, samEffect_fcr, page_arg hpage]
  rfl

theorem sam3xFlashWrite_ewp :
    (sam3xFlashWrite T base start eefcFcrFcmdEwp bufSize call fuel dest src).1 =
      [.replace start bufSize.toNat ((dest - start).toNat / bufSize.toNat) dest src] := by
  show [_].filterMap _ = _
  rw [List.filterMap_cons, samEffect_fcr, page_arg hpage]
  rfl

end

/-- The pages of a bank have numbers of 16 bits, and they are those of the address space but for
the pages in front of the bank. -/
theorem bank_page {size : Nat} (hsize : size = 256 ∨ size = 512) {start x : UInt32}
    (hstart : 0x1000 ∣ start.toNat) (hdest : size ∣ dest.toNat) (hlow : start.toNat ≤ x.toNat)
    (hhigh : x.toNat < start.toNat + 0x200000)
    (hx : x.toNat / size = dest.toNat / size) :
    (dest - start).toNat / size < 2 ^ 16 ∧ ∀ a : UInt32,
      (a - start).toNat / size = (dest - start).toNat / size ↔ a.toNat / size = dest.toNat / size := by
  obtain ⟨m, hm⟩ := hstart
  obtain ⟨p, hp⟩ := hdest
  have hle : start.toNat ≤ dest.toNat := by
    rcases hsize with rfl | rfl
    · omega
    · omega
  rw [sub_toNat_of_le hle]
  constructor
  · rcases hsize with rfl | rfl
    · omega
    · omega
  · intro a
    have htop := dest.toNat_lt
    by_cases ha : start.toNat ≤ a.toNat
    · rw [sub_toNat_of_le ha]
      rcases hsize with rfl | rfl
      · omega
      · omega
    · have hbehind : (a - start).toNat = 2 ^ 32 - start.toNat + a.toNat := by
        rw [UInt32.toNat_sub]
        omega
      rw [hbehind]
      rcases hsize with rfl | rfl
      · omega
      · omega

/-- The byte of a page that has been loaded. -/
theorem loaded {size : Nat} (hpos : 0 < size) (hdest : size ∣ dest.toNat) (hsrc : src.length = size)
    {a : UInt32} (ha : a.toNat / size = dest.toNat / size) :
    (bytesAt dest src a).getD 0xFF = src.getD (a - dest).toNat 0 := by
  obtain ⟨p, hp⟩ := hdest
  have hmod := Nat.div_add_mod a.toNat size
  have hlt := Nat.mod_lt a.toNat hpos
  rw [ha, hp, Nat.mul_div_cancel_left p hpos] at hmod
  have hoffset : (a - dest).toNat < src.length := by
    rw [sub_toNat_of_le (by omega)]
    omega
  rw [bytesAt, List.getD_eq_getElem?_getD, List.getElem?_eq_getElem hoffset]
  rfl

/-- The write of a page of a region that has come back with 0. -/
theorem PageFlash.write_flash {F : PageFlash} (hF : F.Fits) (hdest : F.bufSize.toNat ∣ dest.toNat)
    {x : UInt32} (hlow : F.start.toNat ≤ x.toNat) (hhigh : x.toNat < F.start.toNat + F.length.toNat)
    (hx : x.toNat / F.bufSize.toNat = dest.toNat / F.bufSize.toNat)
    (hsrc : src.length = F.bufSize.toNat)
    (h : (F.write T call fuel dest src F.bufSize).2 = some 0) (flash : UInt32 → UInt8)
    (a : UInt32) :
    (F.write T call fuel dest src F.bufSize).1.foldl Effect.run flash a =
      if a.toNat / F.bufSize.toNat = dest.toNat / F.bufSize.toNat then
        F.prog (flash a) (src.getD (a - dest).toNat 0)
      else flash a := by
  obtain ⟨hone, -, h4⟩ := bufSize_facts hF
  have hpos := Nat.lt_of_succ_lt hone
  have hsized := hF.sized
  have htake : src.take F.bufSize.toNat = src := List.take_of_length_le (Nat.le_of_eq hsrc)
  have hload (ha : a.toNat / F.bufSize.toNat = dest.toNat / F.bufSize.toNat) :=
    loaded hpos hdest hsrc ha
  unfold PageFlash.write at h ⊢
  dsimp only at h ⊢
  rw [htake] at h ⊢
  unfold PageFlash.prog
  obtain ⟨driver, start, length, blocksize, bufSize⟩ := F
  cases driver with
  | samd =>
    obtain ⟨-, rfl⟩ := hsized
    dsimp only at h ⊢
    rw [samdFlashWrite_effects h]
    show (if (a - 0).toNat / 64 = dest.toNat / 64 then _ else _) = _
    rw [sub_zero_toNat]
    exact ite_congr rfl (fun ha => congrArg _ (hload ha)) fun _ => rfl
  | samx5x =>
    obtain ⟨-, rfl⟩ := hsized
    dsimp only at h ⊢
    rw [samx5xFlashWrite_effects h]
    show (if (a - 0).toNat / 512 = dest.toNat / 512 then _ else _) = _
    rw [sub_zero_toNat]
    exact ite_congr rfl (fun ha => congrArg _ (hload ha)) fun _ => rfl
  | efm32 msc =>
    show (efm32FlashWriteStub dest src bufSize).foldl Effect.run flash a = _
    rw [efm32FlashWriteStub_flash hpos h4 hdest]
    exact ite_congr rfl (fun ha => congrArg _ (hload ha)) fun _ => rfl
  | sam3 base =>
    obtain ⟨rfl, hstart, hlength⟩ := hsized
    obtain ⟨hpage, hunit⟩ := bank_page (Or.inl rfl) hstart hdest hlow
      (Nat.lt_of_lt_of_le hhigh (Nat.add_le_add_left hlength _)) hx
    dsimp only
    rw [sam3xFlashWrite_ewp hpage]
    show (if (a - start).toNat / 256 = (dest - start).toNat / 256 then _ else _) = _
    rw [if_congr (hunit a) rfl rfl]
    exact ite_congr rfl hload fun _ => rfl
  | sam4 base =>
    obtain ⟨-, rfl, hstart, hlength⟩ := hsized
    obtain ⟨hpage, hunit⟩ := bank_page (Or.inr rfl) hstart hdest hlow
      (Nat.lt_of_lt_of_le hhigh (Nat.add_le_add_left hlength _)) hx
    dsimp only
    rw [sam3xFlashWrite_wp hpage]
    show (if (a - start).toNat / 512 = (dest - start).toNat / 512 then _ else _) = _
    rw [if_congr (hunit a) rfl rfl]
    exact ite_congr rfl (fun ha => congrArg _ (hload ha)) fun _ => rfl

end

end MiyakoLink.Pages
