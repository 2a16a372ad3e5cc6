import MiyakoLink.Lib.Lanes

/-!
# Cache maintenance

`cortexm_cache_clean` writes the address of every cache line that a range shares with the RAM to a
register of the cache. The loop over the lines of a region goes up to the end of the address space
and beyond, so it has fuel.

* `cacheClean_lines`: the lines that are cleaned are those that intersect the range and a region.
-/

namespace MiyakoLink.CortexM

open Lib

/-- `struct target_ram`. -/
structure TargetRam where
  start : UInt32
  length : UInt32

/-- `has_cache` and `dcache_minline`. -/
structure CachePriv where
  hasCache : Bool
  dcacheMinline : UInt32

abbrev dccmvac : UInt32 := 0xE000EF68

abbrev dccimvac : UInt32 := 0xE000EF70

/-- The loop over the lines below `ramEnd`. -/
def cleanLoop (minline ramEnd : UInt32) : Nat → UInt32 → Option (List UInt32)
  | 0, _ => none
  | fuel + 1, ram =>
    if ram < ramEnd then (cleanLoop minline ramEnd fuel (ram + minline)).map (ram :: ·) else some []

/-- The lines of one region. -/
def cleanRegion (minline addr memEnd : UInt32) (fuel : Nat) (r : TargetRam) :
    Option (List UInt32) :=
  let ram := if addr > r.start then addr else r.start
  let ramEnd := if memEnd < r.start + r.length then memEnd else r.start + r.length
  cleanLoop minline ramEnd fuel (ram &&& ~~~(minline - 1))

/-- The loop over the regions. -/
def cleanRegions (minline addr memEnd : UInt32) (fuel : Nat) : List TargetRam → Option (List UInt32)
  | [] => some []
  | r :: ram =>
    match cleanRegion minline addr memEnd fuel r with
    | none => none
    | some lines => (cleanRegions minline addr memEnd fuel ram).map (lines ++ ·)

/-- `cortexm_cache_clean`: the registers that are written and what is written to them. -/
def cacheClean (priv : CachePriv) (ram : List TargetRam) (addr len : UInt32) (invalidate : Bool)
    (fuel : Nat) : Option (List (UInt32 × UInt32)) :=
  if !priv.hasCache || priv.dcacheMinline == 0 then some []
  else
    let cacheReg := if invalidate then dccimvac else dccmvac
    (cleanRegions priv.dcacheMinline addr (addr + len) fuel ram).map fun lines =>
      lines.map fun line => (cacheReg, line)

/-! ## Lines -/

/-- A line of `size` bytes intersects the addresses from `a` up to `e`. -/
def LineMeets (size line a e : Nat) : Prop := ∃ x, line ≤ x ∧ x < line + size ∧ a ≤ x ∧ x < e

variable {minline : UInt32} {k : Nat}

theorem alignDown_toNat (hminline : minline.toNat = 2 ^ k) (hk : k < 32) (a : UInt32) :
    (a &&& ~~~(minline - 1)).toNat = minline.toNat * (a.toNat / minline.toNat) := by
  have hpos : 0 < 2 ^ k := Nat.two_pow_pos k
  have hsub : (minline - 1).toNat = 2 ^ k - 1 := by
    rw [UInt32.toNat_sub_of_le _ _ (UInt32.le_iff_toNat_le.mpr (by rw [hminline]; exact hpos)),
      hminline]
    rfl
  have hmask : (~~~(minline - 1)).toNat = 2 ^ k * (2 ^ (32 - k) - 1) := by
    have hsplit : 2 ^ k * 2 ^ (32 - k) = 2 ^ 32 := by
      rw [← Nat.pow_add, Nat.add_sub_cancel' (Nat.le_of_lt hk)]
    rw [UInt32.toNat_not, hsub, Nat.mul_sub_one, hsplit]
    show 2 ^ 32 - 1 - (2 ^ k - 1) = _
    omega
  rw [and_not_toNat a hmask (Nat.add_sub_cancel' (Nat.le_of_lt hk)), hminline]

/-- The loop ends, with all lines from `ram` on that begin below the end. -/
theorem cleanLoop_lines (ramEnd : UInt32) (hpos : 0 < minline.toNat)
    (hend : ramEnd.toNat + minline.toNat ≤ 2 ^ 32) (ram : UInt32) :
    ∃ n lines, (∀ fuel, n ≤ fuel → cleanLoop minline ramEnd fuel ram = some lines) ∧
      ∀ line, line ∈ lines ↔
        ∃ j, line.toNat = ram.toNat + j * minline.toNat ∧ line.toNat < ramEnd.toNat := by
  induction hd : ramEnd.toNat - ram.toNat using Nat.strongRecOn generalizing ram with
  | ind d ih =>
    by_cases hlt : ram < ramEnd
    · have hlt' := UInt32.lt_iff_toNat_lt.mp hlt
      have hnext : (ram + minline).toNat = ram.toNat + minline.toNat := by
        rw [UInt32.toNat_add]
        exact Nat.mod_eq_of_lt (by omega)
      obtain ⟨n, lines, hrun, hlines⟩ := ih _ (by omega) (ram + minline) rfl
      refine ⟨n + 1, ram :: lines, fun fuel hfuel => ?_, fun line => ?_⟩
      · obtain ⟨fuel, rfl⟩ := Nat.exists_eq_add_of_le' hfuel
        rw [← Nat.add_assoc, cleanLoop, if_pos hlt, hrun _ (by omega)]
        rfl
      · rw [List.mem_cons, hlines, hnext]
        constructor
        · rintro (rfl | ⟨j, hj, hline⟩)
          · exact ⟨0, by rw [Nat.zero_mul, Nat.add_zero], hlt'⟩
          · exact ⟨j + 1, by rw [hj, Nat.succ_mul]; omega, hline⟩
        · rintro ⟨j, hj, hline⟩
          cases j with
          | zero =>
            rw [Nat.zero_mul, Nat.add_zero] at hj
            exact Or.inl (UInt32.toNat_inj.mp hj)
          | succ j =>
            rw [Nat.succ_mul] at hj
            exact Or.inr ⟨j, by omega, hline⟩
    · have hge := mt UInt32.lt_iff_toNat_lt.mpr hlt
      refine ⟨1, [], fun fuel hfuel => ?_, fun line => ?_⟩
      · obtain ⟨fuel, rfl⟩ := Nat.exists_eq_add_of_le' hfuel
        rw [cleanLoop, if_neg hlt]
      · constructor
        · intro h
          exact absurd h List.not_mem_nil
        · rintro ⟨j, hj, hline⟩
          omega

/-- A region below the last line. -/
def TargetRam.Below (size : Nat) (r : TargetRam) : Prop :=
  r.start.toNat + r.length.toNat + size ≤ 2 ^ 32

variable {addr memEnd : UInt32} {r : TargetRam} {ram : List TargetRam}

/-- The lines of a region: those of its intersection with the range, or the line that both end and
begin in. -/
theorem cleanRegion_lines (hminline : minline.toNat = 2 ^ k) (hk : k < 32)
    (hbelow : r.Below minline.toNat) (hrange : addr.toNat < memEnd.toNat) :
    ∃ n lines, (∀ fuel, n ≤ fuel → cleanRegion minline addr memEnd fuel r = some lines) ∧
      (∀ line : UInt32, minline.toNat ∣ line.toNat →
        LineMeets minline.toNat line.toNat addr.toNat memEnd.toNat →
        LineMeets minline.toNat line.toNat r.start.toNat (r.start.toNat + r.length.toNat) →
        line ∈ lines) ∧
      ∀ line ∈ lines, minline.toNat ∣ line.toNat ∧
        LineMeets minline.toNat line.toNat addr.toNat memEnd.toNat := by
  have hpos : 0 < minline.toNat := by
    rw [hminline]
    exact Nat.two_pow_pos k
  have hsum : (r.start + r.length).toNat = r.start.toNat + r.length.toNat := by
    rw [UInt32.toNat_add]
    exact Nat.mod_eq_of_lt (by unfold TargetRam.Below at hbelow; omega)
  have hfirst : (if addr > r.start then addr else r.start).toNat =
      max addr.toNat r.start.toNat := by
    split
    · rename_i hgt
      have hgt := UInt32.lt_iff_toNat_lt.mp hgt
      omega
    · rename_i hle
      have hle := mt UInt32.lt_iff_toNat_lt.mpr hle
      omega
  have hlast : (if memEnd < r.start + r.length then memEnd else r.start + r.length).toNat =
      min memEnd.toNat (r.start.toNat + r.length.toNat) := by
    split
    · rename_i hlt
      have hlt := UInt32.lt_iff_toNat_lt.mp hlt
      omega
    · rename_i hge
      have hge := mt UInt32.lt_iff_toNat_lt.mpr hge
      omega
  unfold TargetRam.Below at hbelow
  unfold cleanRegion
  dsimp only
  generalize (if addr > r.start then addr else r.start) = first at *
  generalize (if memEnd < r.start + r.length then memEnd else r.start + r.length) = last at *
  have halign := alignDown_toNat hminline hk first
  have hdiv := Nat.div_add_mod first.toNat minline.toNat
  have hmod := Nat.mod_lt first.toNat hpos
  obtain ⟨n, lines, hrun, hlines⟩ := cleanLoop_lines last hpos (by omega)
    (first &&& ~~~(minline - 1))
  refine ⟨n, lines, hrun, ?_, ?_⟩
  · rintro line ⟨q, hq⟩ ⟨x, hx⟩ ⟨y, hy⟩
    have hle : first.toNat / minline.toNat ≤ q := by
      refine Nat.le_of_lt_succ (Nat.div_lt_of_lt_mul ?_)
      rw [Nat.mul_succ]
      omega
    obtain ⟨j, rfl⟩ := Nat.exists_eq_add_of_le hle
    refine (hlines line).mpr ⟨j, ?_, by omega⟩
    rw [hq, halign, Nat.mul_add, Nat.mul_comm j]
  · intro line hline
    obtain ⟨j, hj, hlt⟩ := (hlines line).mp hline
    rw [halign] at hj
    refine ⟨⟨first.toNat / minline.toNat + j, by rw [hj, Nat.mul_add, Nat.mul_comm j]⟩,
      max line.toNat addr.toNat, ?_⟩
    omega

/-- The lines of all regions. -/
theorem cleanRegions_lines (addr memEnd : UInt32) (hminline : minline.toNat = 2 ^ k) (hk : k < 32)
    (hbelow : ∀ r ∈ ram, r.Below minline.toNat) (hrange : addr.toNat < memEnd.toNat) :
    ∃ n lines, (∀ fuel, n ≤ fuel → cleanRegions minline addr memEnd fuel ram = some lines) ∧
      (∀ line : UInt32, minline.toNat ∣ line.toNat →
        LineMeets minline.toNat line.toNat addr.toNat memEnd.toNat →
        (∃ r ∈ ram, LineMeets minline.toNat line.toNat r.start.toNat
          (r.start.toNat + r.length.toNat)) → line ∈ lines) ∧
      ∀ line ∈ lines, minline.toNat ∣ line.toNat ∧
        LineMeets minline.toNat line.toNat addr.toNat memEnd.toNat := by
  induction ram with
  | nil =>
    refine ⟨0, [], fun _ _ => rfl, ?_, fun line h => absurd h List.not_mem_nil⟩
    rintro line - - ⟨r, hr, -⟩
    exact absurd hr List.not_mem_nil
  | cons r ram ih =>
    obtain ⟨n, lines, hrun, hcover, hhull⟩ :=
      cleanRegion_lines hminline hk (hbelow r List.mem_cons_self) hrange
    obtain ⟨n', lines', hrun', hcover', hhull'⟩ :=
      ih fun r' hr' => hbelow r' (List.mem_cons_of_mem r hr')
    refine ⟨max n n', lines ++ lines', fun fuel hfuel => ?_, ?_, ?_⟩
    · rw [cleanRegions, hrun fuel (by omega)]
      dsimp only
      rw [hrun' fuel (by omega)]
      rfl
    · rintro line haligned hmeets ⟨r', hr', hmeets'⟩
      rcases List.mem_cons.mp hr' with rfl | hr'
      · exact List.mem_append_left _ (hcover line haligned hmeets hmeets')
      · exact List.mem_append_right _ (hcover' line haligned hmeets ⟨r', hr', hmeets'⟩)
    · intro line hline
      rcases List.mem_append.mp hline with hline | hline
      · exact hhull line hline
      · exact hhull' line hline

/-- `cortexm_cache_clean` ends. It cleans every line that intersects the range and a region, and no
line that the range does not intersect. -/
theorem cacheClean_lines (priv : CachePriv) (ram : List TargetRam) (addr len : UInt32)
    (invalidate : Bool) (k : Nat) (hcache : priv.hasCache = true) (hk : k < 32)
    (hminline : priv.dcacheMinline.toNat = 2 ^ k)
    (hbelow : ∀ r ∈ ram, r.Below priv.dcacheMinline.toNat)
    (hlen : 0 < len.toNat) (hend : addr.toNat + len.toNat < 2 ^ 32) :
    ∃ n writes, (∀ fuel, n ≤ fuel → cacheClean priv ram addr len invalidate fuel = some writes) ∧
      (∀ line : UInt32, priv.dcacheMinline.toNat ∣ line.toNat →
        LineMeets priv.dcacheMinline.toNat line.toNat addr.toNat (addr.toNat + len.toNat) →
        (∃ r ∈ ram, LineMeets priv.dcacheMinline.toNat line.toNat r.start.toNat
          (r.start.toNat + r.length.toNat)) →
        (if invalidate then dccimvac else dccmvac, line) ∈ writes) ∧
      ∀ w ∈ writes, w.1 = (if invalidate then dccimvac else dccmvac) ∧
        priv.dcacheMinline.toNat ∣ w.2.toNat ∧
        LineMeets priv.dcacheMinline.toNat w.2.toNat addr.toNat (addr.toNat + len.toNat) := by
  have hsum : (addr + len).toNat = addr.toNat + len.toNat := by
    rw [UInt32.toNat_add]
    exact Nat.mod_eq_of_lt hend
  have hzero : priv.dcacheMinline ≠ 0 := by
    intro hzero
    have hpos := Nat.two_pow_pos k
    rw [← hminline, hzero] at hpos
    exact absurd hpos (by decide)
  obtain ⟨n, lines, hrun, hcover, hhull⟩ := cleanRegions_lines addr (addr + len)
    hminline hk hbelow (by omega)
  rw [hsum] at hcover hhull
  refine ⟨n, lines.map fun line => (if invalidate then dccimvac else dccmvac, line),
    fun fuel hfuel => ?_, ?_, ?_⟩
  · rw [cacheClean, hcache, if_neg (by simpa using hzero), hrun fuel hfuel]
    rfl
  · intro line haligned hmeets hregion
    exact List.mem_map_of_mem (hcover line haligned hmeets hregion)
  · intro w hw
    obtain ⟨line, hline, rfl⟩ := List.mem_map.mp hw
    exact ⟨rfl, hhull line hline⟩

/-- Two regions, and a range over the end of the first one. -/
theorem cacheClean_lines_two :
    ∃ n writes, (∀ fuel, n ≤ fuel → cacheClean ⟨true, 32⟩
        [⟨0x20000000, 0x20010⟩, ⟨0x24000000, 0x80000⟩] 0x2001FFF8 0x40 true fuel = some writes) ∧
      (∀ line : UInt32, (32 : UInt32).toNat ∣ line.toNat →
        LineMeets (32 : UInt32).toNat line.toNat (0x2001FFF8 : UInt32).toNat
          ((0x2001FFF8 : UInt32).toNat + (0x40 : UInt32).toNat) →
        (∃ r ∈ [(⟨0x20000000, 0x20010⟩ : TargetRam), ⟨0x24000000, 0x80000⟩],
          LineMeets (32 : UInt32).toNat line.toNat r.start.toNat
            (r.start.toNat + r.length.toNat)) →
        (if true then dccimvac else dccmvac, line) ∈ writes) ∧
      ∀ w ∈ writes, w.1 = (if true then dccimvac else dccmvac) ∧
        (32 : UInt32).toNat ∣ w.2.toNat ∧
        LineMeets (32 : UInt32).toNat w.2.toNat (0x2001FFF8 : UInt32).toNat
          ((0x2001FFF8 : UInt32).toNat + (0x40 : UInt32).toNat) :=
  cacheClean_lines ⟨true, 32⟩ [⟨0x20000000, 0x20010⟩, ⟨0x24000000, 0x80000⟩] 0x2001FFF8 0x40 true 5
    rfl (by decide) rfl (by unfold TargetRam.Below; decide) (by decide) (by decide)

end MiyakoLink.CortexM
