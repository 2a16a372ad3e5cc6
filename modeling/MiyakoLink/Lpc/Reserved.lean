import MiyakoLink.Lib.Sweep
import MiyakoLink.Lpc.Iap

/-!
# The reserved pages of the LPC802 and LPC804

* `reservedPages_iff`: the erase function asks for the pages of a range that are not reserved, just
  when they make up whole sectors and the range does not end in the last sector, nor at its begin,
  unless it ends with the flash. The writes of whole blocks always leave the reserved pages out.
-/

namespace MiyakoLink.Lpc

open Flash Lib

/-- A flash with reserved pages that the probe adds. -/
def Registered (f : LpcFlash) : Prop :=
  (∃ idcode idcode8xx, lpc11xxProbe idcode idcode8xx = some f) ∧ f.reservedPages ≠ 0

/-- The reserved pages are the last ones. -/
def Reserved (f : LpcFlash) (page : Nat) : Prop :=
  f.length.toNat / 0x40 - f.reservedPages.toNat ≤ page

/-- A range of a flash. -/
structure LpcRange (f : LpcFlash) where
  addr : UInt32
  len : UInt32
  low : f.start.toNat ≤ addr.toNat
  high : addr.toNat + len.toNat ≤ f.start.toNat + f.length.toNat

/-- A page that the range intersects, and that is not reserved. -/
def LpcRange.Wants {f : LpcFlash} (r : LpcRange f) (page : Nat) : Prop :=
  0 < r.len.toNat ∧ r.addr.toNat < (page + 1) * 0x40 ∧
    page * 0x40 < r.addr.toNat + r.len.toNat ∧ ¬ Reserved f page

/-- A step asks the IAP to erase a page; a sector has 16 of them. -/
def LpcStep.Asks (page : Nat) : LpcStep → Prop
  | .call (.erase first last) _ => 16 * first.toNat ≤ page ∧ page < 16 * (last.toNat + 1)
  | .call (.erasePage first last) _ => first.toNat ≤ page ∧ page ≤ last.toNat
  | _ => False

def Asked (steps : List LpcStep) (page : Nat) : Prop := ∃ s ∈ steps, s.Asks page

/-- Whatever the IAP answers, no other page is erased, and with the result 0 none is left out. -/
structure ErasesUnreserved (f : LpcFlash) (r : LpcRange f) : Prop where
  only : ∀ status page, Asked (perform status 0 (lpcFlashErase f r.addr r.len)).1 page →
    r.Wants page
  all : ∀ status, (perform status 0 (lpcFlashErase f r.addr r.len)).2 = 0 → ∀ page, r.Wants page →
    Asked (perform status 0 (lpcFlashErase f r.addr r.len)).1 page

/-! ## Sessions -/

/-- The calls of a write function for consecutive chunks, with the steps that each takes, and
whether all of them have returned 0. -/
def session (f : LpcFlash) (write : UInt32 → List UInt8 → Option (List LpcStep))
    (status : Nat → Nat → UInt32) :
    Nat → UInt32 → List (List UInt8) → Option (List (UInt32 × List LpcStep) × Bool)
  | _, _, [] => some ([], true)
  | k, dest, chunk :: chunks =>
    (write dest chunk).bind fun steps =>
      let r := perform (status k) 0 steps
      (session f write status (k + 1) (dest + f.bufSize) chunks).map fun rest =>
        ((dest, r.1) :: rest.1, decide (r.2 = 0) && rest.2)

/-- One of the steps programs the byte at an address. -/
def Puts (steps : List LpcStep) (a : Nat) : Prop :=
  ∃ dest buf len error, .call (.program dest buf len) error ∈ steps ∧
    dest.toNat ≤ a ∧ a < dest.toNat + len.toNat

/-- The programmed bytes of a chunk belong to it and to no reserved page, and they are taken from
their places in the RAM. -/
def PutsOwn (f : LpcFlash) (chunk : UInt32 × List LpcStep) : Prop :=
  ∀ dest buf len error, .call (.program dest buf len) error ∈ chunk.2 →
    chunk.1.toNat ≤ dest.toNat ∧ dest.toNat + len.toNat ≤ chunk.1.toNat + f.bufSize.toNat ∧
      buf.toNat + chunk.1.toNat = (bufaddr f).toNat + dest.toNat ∧
      ∀ a, dest.toNat ≤ a → a < dest.toNat + len.toNat → ¬ Reserved f (a / 0x40)

/-- A session over consecutive blocks inside of the flash ends, whatever the IAP answers, and
programs no reserved page; if all calls return 0 it leaves no other byte out. -/
def WritesUnreserved (f : LpcFlash)
    (write : Nat → UInt32 → List UInt8 → Option (List LpcStep)) : Prop :=
  ∀ (first : Nat) (chunks : List (List UInt8)), (∀ c ∈ chunks, c.length = f.bufSize.toNat) →
    (first + chunks.length) * f.bufSize.toNat ≤ f.length.toNat →
    ∃ n, ∀ fuel, n ≤ fuel → ∀ status, ∃ log ok,
      session f (write fuel) status 0 (f.start + UInt32.ofNat (first * f.bufSize.toNat)) chunks =
        some (log, ok) ∧
      (∀ chunk ∈ log, PutsOwn f chunk) ∧
      (ok = true → ∀ a, first * f.bufSize.toNat ≤ a →
        a < (first + chunks.length) * f.bufSize.toNat → ¬ Reserved f (a / 0x40) →
        ∃ chunk ∈ log, Puts chunk.2 a)

/-! ## The parts -/

theorem table_reserved : ∀ e ∈ lpc11xxTable ++ lpc8xxTable, e.2.reservedPages ≠ 0 →
    e.2 = lpc11xxAddFlash 0 0x4000 0x400 2 ∨ e.2 = lpc11xxAddFlash 0 0x8000 0x400 2 := by
  decide +kernel

/-- The LPC802 and the LPC804. -/
theorem Registered.cases {f : LpcFlash} (h : Registered f) :
    f = lpc11xxAddFlash 0 0x4000 0x400 2 ∨ f = lpc11xxAddFlash 0 0x8000 0x400 2 := by
  obtain ⟨⟨idcode, idcode8xx, hprobe⟩, hreserved⟩ := h
  obtain ⟨e, he, rfl⟩ := Option.map_eq_some_iff.mp hprobe
  refine table_reserved e (List.mem_append.mpr ?_) hreserved
  rcases Option.or_eq_some_iff.mp he with he | ⟨-, he⟩
  · exact Or.inl (List.mem_of_find?_eq_some he)
  · exact Or.inr (List.mem_of_find?_eq_some he)

/-- What the two flashes have in common. -/
structure Lpc80x (f : LpcFlash) : Prop where
  start : f.start = 0
  length : f.length.toNat = 0x4000 ∨ f.length.toNat = 0x8000
  blocksize : f.blocksize = 0x400
  bufSize : f.bufSize = 512
  baseSector : f.baseSector = 0
  reservedPages : f.reservedPages = 2
  iapRam : f.iapRam = 0x10000000

theorem Registered.lpc80x {f : LpcFlash} (h : Registered f) : Lpc80x f := by
  rcases h.cases with rfl | rfl
  · exact ⟨rfl, Or.inl rfl, rfl, rfl, rfl, rfl, rfl⟩
  · exact ⟨rfl, Or.inr rfl, rfl, rfl, rfl, rfl, rfl⟩

/-- Sectors, and then the pages of the last one, are the pages of a range just if the range begins
in the first page of a sector and ends with the flash. -/
theorem tail_exact_iff {a n e L : Nat} (he : e = a + n) (hpos : 0 < e) (hL : L % 0x400 = 0)
    (hlarge : 0x800 ≤ L) (hend : e ≤ L) (hcut : L - 0x400 ≤ e) :
    (∀ page, 16 * (a / 0x400) ≤ page ∧ page < 16 * ((e - 1) / 0x400) ∨
        (e - 0x400) / 0x40 ≤ page ∧ page ≤ (e - 0x400) / 0x40 + 13 ↔
      0 < n ∧ a < (page + 1) * 0x40 ∧ page * 0x40 < e ∧ ¬ L / 0x40 - 2 ≤ page) ↔
    a % 0x400 < 0x40 ∧ 0 < n ∧ e = L := by
  constructor
  · intro h
    obtain ⟨hn, hbegin, -, -⟩ :=
      (h ((e - 0x400) / 0x40)).mp (Or.inr ⟨Nat.le_refl _, Nat.le_add_right _ _⟩)
    have hall : e = L := by
      by_contra hne
      have hlast := (h (min ((e - 1) / 0x40) (L / 0x40 - 3))).mpr
        ⟨hn, by omega, by omega, by omega⟩
      omega
    refine ⟨?_, hn, hall⟩
    by_cases hsectors : a / 0x400 < (e - 1) / 0x400
    · have hfirst := ((h (16 * (a / 0x400))).mp (Or.inl ⟨Nat.le_refl _, by omega⟩)).2.1
      omega
    · omega
  · rintro ⟨hbegin, hn, hall⟩ page
    subst hall
    have hsector : (e - 1) / 0x400 = e / 0x400 - 1 := by omega
    have hpage : (e - 0x400) / 0x40 = 16 * (e / 0x400 - 1) := by omega
    have hfirst : a < (page + 1) * 0x40 ↔ 16 * (a / 0x400) ≤ page := by omega
    have hreserved : e / 0x40 = 16 * (e / 0x400) := by omega
    rw [hsector, hpage, hfirst, hreserved]
    omega

/-- Sectors are the pages of a range just if it begins in the first page of a sector and ends in the
last page of one. -/
theorem sectors_exact_iff {a n e L : Nat} (he : e = a + n) (hpos : 0 < e) (hL : L % 0x400 = 0)
    (hcut : e < L - 0x400) :
    (∀ page, 16 * (a / 0x400) ≤ page ∧ page < 16 * ((e - 1) / 0x400 + 1) ↔
      0 < n ∧ a < (page + 1) * 0x40 ∧ page * 0x40 < e ∧ ¬ L / 0x40 - 2 ≤ page) ↔
    a % 0x400 < 0x40 ∧ 0x3C0 ≤ (e - 1) % 0x400 := by
  constructor
  · intro h
    by_cases hsectors : a / 0x400 ≤ (e - 1) / 0x400
    · have hfirst := ((h (16 * (a / 0x400))).mp ⟨Nat.le_refl _, by omega⟩).2.1
      have hlast := ((h (16 * ((e - 1) / 0x400) + 15)).mp ⟨by omega, by omega⟩).2.2.1
      exact ⟨by omega, by omega⟩
    · -- nothing is erased, and the range is empty
      exact ⟨by omega, by omega⟩
  · rintro ⟨hbegin, hlast⟩ page
    have hfirst : a < (page + 1) * 0x40 ↔ 16 * (a / 0x400) ≤ page := by omega
    have hend : page * 0x40 < e ↔ page < 16 * ((e - 1) / 0x400 + 1) := by omega
    rw [hfirst, hend]
    omega
section

variable {f : LpcFlash} {r : LpcRange f}

theorem sector_toNat (hf : Lpc80x f) {a : UInt32} (ha : a.toNat < 0x40000) :
    (lpcSectorForAddr f a).toUInt32.toNat = a.toNat / 0x400 := by
  have hdiv : (0 + (a - 0) / 0x400 : UInt32).toNat = a.toNat / 0x400 := by
    rw [UInt32.zero_add, UInt32.sub_zero, UInt32.toNat_div]
    rfl
  unfold lpcSectorForAddr
  rw [hf.start, hf.blocksize, hf.baseSector, UInt8.toNat_toUInt32, UInt32.toNat_toUInt8]
  show (0 + (a - 0) / 0x400 : UInt32).toNat % 2 ^ 8 = _
  rw [hdiv]
  omega

theorem reserved_iff (hf : Lpc80x f) {page : Nat} :
    Reserved f page ↔ f.length.toNat / 0x40 - 2 ≤ page := by
  unfold Reserved
  rw [hf.reservedPages]
  rfl

/-- The addresses of a range are numbers of the flash. -/
theorem range_bounds (hf : Lpc80x f) (r : LpcRange f) :
    r.addr.toNat + r.len.toNat ≤ f.length.toNat ∧ f.length.toNat ≤ 0x8000 := by
  have hhigh := r.high
  rw [hf.start, UInt32.toNat_zero, Nat.zero_add] at hhigh
  refine ⟨hhigh, ?_⟩
  rcases hf.length with h | h
  · omega
  · omega

/-- The pages that the erase function asks for when all calls succeed: the sectors of the range, or
all but the last one and pages instead of it. -/
theorem asked_iff (hf : Lpc80x f) (hpos : 0 < r.addr.toNat + r.len.toNat) (page : Nat) :
    Asked (lpcFlashErase f r.addr r.len) page ↔
      if f.length.toNat - 0x400 ≤ r.addr.toNat + r.len.toNat then
        16 * (r.addr.toNat / 0x400) ≤ page ∧
            page < 16 * ((r.addr.toNat + r.len.toNat - 1) / 0x400) ∨
          (r.addr.toNat + r.len.toNat - 0x400) / 0x40 ≤ page ∧
            page ≤ (r.addr.toNat + r.len.toNat - 0x400) / 0x40 + 13
      else
        16 * (r.addr.toNat / 0x400) ≤ page ∧
          page < 16 * ((r.addr.toNat + r.len.toNat - 1) / 0x400 + 1) := by
  obtain ⟨hend, htop⟩ := range_bounds hf r
  have hsum : (r.addr + r.len).toNat = r.addr.toNat + r.len.toNat := by
    rw [UInt32.toNat_add]
    exact Nat.mod_eq_of_lt (by omega)
  have hlast : (r.addr + r.len - 1).toNat = r.addr.toNat + r.len.toNat - 1 := by
    rw [sub_toNat_of_le (by rw [hsum]; show 1 ≤ _; omega), hsum]
    rfl
  have hfirst' := sector_toNat hf (a := r.addr) (by omega)
  have hlast' := sector_toNat hf (a := r.addr + r.len - 1) (by omega)
  rw [hlast] at hlast'
  have hcut : r.addr + r.len ≥ f.length - 0x400 ↔
      f.length.toNat - 0x400 ≤ r.addr.toNat + r.len.toNat := by
    have hlength : (0x400 : UInt32).toNat ≤ f.length.toNat := by
      show 0x400 ≤ _
      rcases hf.length with h | h
      · omega
      · omega
    rw [ge_iff_le, UInt32.le_iff_toNat_le, hsum, sub_toNat_of_le hlength]
    rfl
  have hreserved : f.reservedPages ≠ 0 := by
    rw [hf.reservedPages]
    decide
  unfold lpcFlashErase
  dsimp only
  generalize (lpcSectorForAddr f r.addr).toUInt32 = first at hfirst' ⊢
  generalize (lpcSectorForAddr f (r.addr + r.len - 1)).toUInt32 = last at hlast' ⊢
  by_cases h : f.length.toNat - 0x400 ≤ r.addr.toNat + r.len.toNat
  · -- The last sector is erased by pages.
    have hlarge : 0x3C00 ≤ r.addr.toNat + r.len.toNat := by
      rcases hf.length with hlength | hlength
      · omega
      · omega
    have hpred : (last - 1).toNat = last.toNat - 1 := sub_toNat_of_le (by
      show 1 ≤ last.toNat
      omega)
    have hne : last - 1 ≠ last := by
      rw [Ne, ← UInt32.toNat_inj, hpred]
      omega
    have hstart : ((r.addr + r.len - lpx80xSectorSize) / lpx80xPageSize).toNat =
        (r.addr.toNat + r.len.toNat - 0x400) / 0x40 := by
      rw [UInt32.toNat_div, sub_toNat_of_le (by rw [hsum]; show 0x400 ≤ _; omega), hsum]
      rfl
    generalize (r.addr + r.len - lpx80xSectorSize) / lpx80xPageSize = pageStart at hstart ⊢
    have hpageEnd : (pageStart + lpx80xSectorSize / lpx80xPageSize - 1 -
        f.reservedPages.toUInt32).toNat = pageStart.toNat + 13 := by
      have hconst : pageStart + lpx80xSectorSize / lpx80xPageSize - 1 - f.reservedPages.toUInt32 =
          pageStart + 13 := by
        rw [hf.reservedPages, UInt32.sub_eq_add_neg, UInt32.sub_eq_add_neg, UInt32.add_assoc,
          UInt32.add_assoc]
        rfl
      rw [hconst, UInt32.toNat_add]
      exact Nat.mod_eq_of_lt (show pageStart.toNat + 13 < 2 ^ 32 by omega)
    have hfull : (if f.reservedPages ≠ 0 ∧ r.addr + r.len ≥ f.length - 0x400 then last - 1
        else last) = last - 1 := if_pos ⟨hreserved, hcut.mpr h⟩
    rw [hfull, if_pos hne, if_pos h]
    by_cases hsectors : first ≤ last - 1
    · rw [if_pos hsectors]
      simp [Asked, LpcStep.Asks, hpageEnd, hpred, hfirst', hlast', hstart]
      omega
    · rw [if_neg hsectors]
      rw [UInt32.le_iff_toNat_le, hpred] at hsectors
      simp [Asked, LpcStep.Asks, hpageEnd, hstart]
      omega
  · have hfull : (if f.reservedPages ≠ 0 ∧ r.addr + r.len ≥ f.length - 0x400 then last - 1
        else last) = last := if_neg fun hand => h (hcut.mp hand.2)
    rw [hfull, if_neg (not_not_intro rfl), if_neg h]
    by_cases hle : first ≤ last
    · rw [if_pos hle]
      simp [Asked, LpcStep.Asks, hfirst', hlast']
    · rw [if_neg hle]
      rw [UInt32.le_iff_toNat_le] at hle
      simp [Asked, LpcStep.Asks]
      omega

theorem erase_reporting (f : LpcFlash) (addr len : UInt32) :
    Reporting (lpcFlashErase f addr len) := by
  intro cmd hmem
  unfold lpcFlashErase at hmem
  dsimp only at hmem
  rcases List.mem_append.mp hmem with hmem | hmem
  · rcases List.mem_append.mp hmem with hmem | hmem
    · simp at hmem
    · obtain ⟨-, hmem⟩ := List.mem_ite_nil_right.mp hmem
      simp at hmem
  · obtain ⟨-, hmem⟩ := List.mem_ite_nil_right.mp hmem
    simp at hmem

/-- The errors of the IAP do not matter for what is right. -/
theorem erasesUnreserved_iff_asked : ErasesUnreserved f r ↔
    ∀ page, Asked (lpcFlashErase f r.addr r.len) page ↔ r.Wants page := by
  constructor
  · intro h page
    have honly := h.only (fun _ => 0) page
    have hall := h.all (fun _ => 0)
    rw [perform_success] at honly hall
    exact ⟨honly, hall rfl page⟩
  · intro h
    constructor
    case only =>
      rintro status page ⟨s, hs, hasks⟩
      exact (h page).mp ⟨s, perform_subset s hs, hasks⟩
    case all =>
      intro status hzero page hwants
      rw [perform_zero (erase_reporting f r.addr r.len) hzero]
      exact (h page).mpr hwants

/-- An empty range at the begin has all sectors erased. -/
theorem asked_empty (hf : Lpc80x f) (haddr : r.addr = 0) (hlen : r.len = 0) :
    Asked (lpcFlashErase f r.addr r.len) 0 := by
  have hfirst := sector_toNat hf (a := 0) (by decide)
  have hcut : ¬ (f.reservedPages ≠ 0 ∧ (0 : UInt32) + 0 ≥ f.length - 0x400) := by
    rintro ⟨-, hge⟩
    have hlength : (0x400 : UInt32).toNat < f.length.toNat := by
      show 0x400 < _
      rcases hf.length with h | h
      · omega
      · omega
    rw [ge_iff_le, UInt32.le_iff_toNat_le, sub_toNat_of_le (Nat.le_of_lt hlength)] at hge
    have hge : f.length.toNat - 0x400 ≤ 0 := hge
    have hlength : 0x400 < f.length.toNat := hlength
    omega
  unfold lpcFlashErase
  rw [haddr, hlen]
  dsimp only
  generalize (lpcSectorForAddr f 0).toUInt32 = first at hfirst ⊢
  generalize (lpcSectorForAddr f (0 + 0 - 1)).toUInt32 = last
  have hfull : (if f.reservedPages ≠ 0 ∧ (0 : UInt32) + 0 ≥ f.length - 0x400 then last - 1
      else last) = last := if_neg hcut
  have hzero : first.toNat = 0 := hfirst
  have hle : first ≤ last := by
    rw [UInt32.le_iff_toNat_le, hzero]
    exact Nat.zero_le _
  rw [hfull, if_pos hle]
  refine ⟨.call (.erase first last) (-2), by simp, ?_, Nat.mul_pos (by decide) (Nat.succ_pos _)⟩
  exact Nat.le_of_eq (by rw [hzero, Nat.mul_zero])

theorem erasesUnreserved_iff (hf : Lpc80x f) : ErasesUnreserved f r ↔
    r.addr.toNat % 0x400 < 0x40 ∧
      (r.addr.toNat + r.len.toNat < f.length.toNat - 0x400 ∧
          0x3C0 ≤ (r.addr.toNat + r.len.toNat - 1) % 0x400 ∨
        0 < r.len.toNat ∧ r.addr.toNat + r.len.toNat = f.length.toNat) := by
  obtain ⟨hend, -⟩ := range_bounds hf r
  rw [erasesUnreserved_iff_asked]
  have hlength : f.length.toNat % 0x400 = 0 ∧ 0x800 ≤ f.length.toNat := by
    rcases hf.length with h | h
    · omega
    · omega
  by_cases hpos : 0 < r.addr.toNat + r.len.toNat
  · simp only [asked_iff hf hpos, LpcRange.Wants, reserved_iff hf]
    by_cases hcut : f.length.toNat - 0x400 ≤ r.addr.toNat + r.len.toNat
    · simp only [if_pos hcut]
      rw [tail_exact_iff rfl hpos hlength.1 hlength.2 hend hcut]
      omega
    · simp only [if_neg hcut]
      rw [sectors_exact_iff rfl hpos hlength.1 (Nat.not_le.mp hcut)]
      omega
  · have haddr : r.addr = 0 := UInt32.toNat_inj.mp (show r.addr.toNat = 0 by omega)
    have hlen : r.len = 0 := UInt32.toNat_inj.mp (show r.len.toNat = 0 by omega)
    refine iff_of_false (fun h => ?_) (by rcases hf.length with hlength | hlength <;> omega)
    have hwants := ((h 0).mp (asked_empty hf haddr hlen)).1
    omega

end

/-! ## A chunk -/

/-- The steps of a write are right for a chunk. -/
structure WritesChunk (f : LpcFlash) (dest : UInt32) (steps : List LpcStep) : Prop where
  reporting : Reporting steps
  own : PutsOwn f (dest, steps)
  all : ∀ a, dest.toNat ≤ a → a < dest.toNat + 512 → ¬ Reserved f (a / 0x40) → Puts steps a

theorem writePages_eq {sector : UInt32} {m fuel : Nat} {dest buf : UInt32} (hfuel : m < fuel)
    (hm : 0x40 * m < 2 ^ 32) : writePages sector fuel dest buf (UInt32.ofNat (0x40 * m)) =
      some ((List.range m).flatMap fun i => [.call (.prepare sector sector) (-1),
        .call (.program (dest + UInt32.ofNat (0x40 * i)) (buf + UInt32.ofNat (0x40 * i))
          lpx80xPageSize) (-2)]) := by
  induction m generalizing fuel dest buf with
  | zero =>
    obtain ⟨k, rfl⟩ := Nat.exists_eq_add_of_lt hfuel
    rfl
  | succ m ih =>
    obtain ⟨k, rfl⟩ := Nat.exists_eq_succ_of_ne_zero (Nat.ne_zero_of_lt hfuel)
    have hnat : (UInt32.ofNat (0x40 * (m + 1))).toNat = 0x40 * (m + 1) :=
      UInt32.toNat_ofNat_of_lt' hm
    have hne : UInt32.ofNat (0x40 * (m + 1)) ≠ 0 := ne_zero_of_toNat (by omega)
    have hsub : UInt32.ofNat (0x40 * (m + 1)) - lpx80xPageSize = UInt32.ofNat (0x40 * m) := by
      rw [Nat.mul_succ, UInt32.ofNat_add]
      exact UInt32.add_sub_cancel _ _
    have hstep (x : UInt32) (i : Nat) :
        x + lpx80xPageSize + UInt32.ofNat (0x40 * i) = x + UInt32.ofNat (0x40 * (i + 1)) := by
      rw [Nat.mul_succ, UInt32.ofNat_add, UInt32.add_assoc, UInt32.add_comm lpx80xPageSize]
      rfl
    rw [writePages, if_neg hne, hsub, ih (by omega) (by omega), Option.map_some,
      List.range_succ_eq_map, List.flatMap_cons, List.flatMap_map]
    simp only [hstep]
    rw [Nat.mul_zero, show UInt32.ofNat 0 = 0 from rfl, UInt32.add_zero, UInt32.add_zero]

section

variable {f : LpcFlash}

theorem bufaddr_eq (hf : Lpc80x f) : bufaddr f = 0x1000002C := by
  unfold bufaddr
  rw [hf.iapRam]
  decide

theorem lpcFlashWrite_chunk (hf : Lpc80x f) {fuel c : Nat} (hfuel : 7 ≤ fuel)
    (hc : (c + 1) * 512 ≤ f.length.toNat) {src : List UInt8} (hsrc : src.length = 512) :
    ∃ steps, lpcFlashWrite f fuel (UInt32.ofNat (512 * c)) src = some steps ∧
      WritesChunk f (UInt32.ofNat (512 * c)) steps := by
  have hlength : f.length.toNat ≤ 0x8000 := by
    rcases hf.length with h | h
    · omega
    · omega
  have hdest : (UInt32.ofNat (512 * c)).toNat = 512 * c :=
    UInt32.toNat_ofNat_of_lt' (show 512 * c < 2 ^ 32 by omega)
  have hbuf := bufaddr_eq hf
  have hreserved : f.reservedPages ≠ 0 := by
    rw [hf.reservedPages]
    decide
  have hsum : (UInt32.ofNat (512 * c) + 512).toNat = 512 * c + 512 := by
    rw [UInt32.toNat_add, hdest]
    exact Nat.mod_eq_of_lt (show 512 * c + 512 < 2 ^ 32 by omega)
  have hcut : UInt32.ofNat (512 * c) + 512 ≤ f.length - 512 ↔
      512 * c + 512 ≤ f.length.toNat - 512 := by
    rw [UInt32.le_iff_toNat_le, hsum, sub_toNat_of_le (show (512 : UInt32).toNat ≤ _ by
      show 512 ≤ f.length.toNat; omega)]
    rfl
  unfold lpcFlashWrite
  dsimp only
  rw [hsrc, show UInt32.ofNat 512 = 512 from rfl]
  generalize (lpcSectorForAddr f (UInt32.ofNat (512 * c))).toUInt32 = sector
  by_cases hlow : 512 * c + 512 ≤ f.length.toNat - 512
  · -- The whole chunk at once.
    rw [if_pos (Or.inr (hcut.mpr hlow))]
    refine ⟨_, rfl, ?_, ?_, ?_⟩
    · intro cmd hmem
      simp at hmem
    · intro dest buf len error hmem
      have hmem := (List.mem_append.mp hmem).resolve_left (by simp)
      obtain ⟨rfl, rfl, rfl⟩ := IapCall.program.inj (LpcStep.call.inj (List.mem_singleton.mp hmem)).1
      rw [hf.bufSize]
      refine ⟨Nat.le_refl _, Nat.le_refl _, rfl, fun a hlow' hhigh => ?_⟩
      have hhigh : a < (UInt32.ofNat (512 * c)).toNat + 512 := hhigh
      rw [reserved_iff hf]
      omega
    · intro a hlow' hhigh _
      exact ⟨UInt32.ofNat (512 * c), bufaddr f, 512, -2, by simp, hlow', hhigh⟩
  · -- The last chunk, in pages.
    have hlast : 512 * c + 512 = f.length.toNat := by
      rcases hf.length with h | h
      · omega
      · omega
    have hpages : (512 : UInt32) - 0x40 * f.reservedPages.toUInt32 = UInt32.ofNat (0x40 * 6) := by
      rw [hf.reservedPages]
      rfl
    have hpage (x : UInt32) {i : Nat} (hi : i < 6) (hx : x.toNat < 2 ^ 31) :
        (x + UInt32.ofNat (0x40 * i)).toNat = x.toNat + 0x40 * i := by
      rw [UInt32.toNat_add, UInt32.toNat_ofNat_of_lt' (show 0x40 * i < 2 ^ 32 by omega)]
      exact Nat.mod_eq_of_lt (by omega)
    have hbuf31 : (bufaddr f).toNat < 2 ^ 31 := by
      rw [hbuf]
      decide
    rw [if_neg (fun h => hlow (hcut.mp (h.resolve_left hreserved))), hpages,
      writePages_eq (by omega) (by decide), Option.map_some]
    refine ⟨_, rfl, ?_, ?_, ?_⟩
    · intro cmd hmem
      simp at hmem
    · intro dest buf len error hmem
      obtain ⟨i, hi, rfl, rfl, rfl⟩ : ∃ i < 6, dest = UInt32.ofNat (512 * c) + UInt32.ofNat (0x40 * i) ∧
          buf = bufaddr f + UInt32.ofNat (0x40 * i) ∧ len = lpx80xPageSize := by
        have hmem := (List.mem_append.mp hmem).resolve_left (by simp)
        obtain ⟨i, hi, hmem⟩ := List.mem_flatMap.mp hmem
        rcases List.mem_pair.mp hmem with heq | heq
        · nomatch (LpcStep.call.inj heq).1
        · exact ⟨i, List.mem_range.mp hi, IapCall.program.inj (LpcStep.call.inj heq).1⟩
      have hpagesize : lpx80xPageSize.toNat = 0x40 := rfl
      rw [hf.bufSize, hpage _ hi (by omega), hpage _ hi hbuf31, hdest, hpagesize]
      show _ ∧ 512 * c + 0x40 * i + 0x40 ≤ 512 * c + 512 ∧ _
      refine ⟨by omega, by omega, by omega, fun a hlow' hhigh => ?_⟩
      rw [reserved_iff hf]
      omega
    · intro a hlow' hhigh hkept
      rw [reserved_iff hf] at hkept
      rw [hdest] at hlow' hhigh
      obtain ⟨i, hi⟩ : ∃ i, i = (a - 512 * c) / 0x40 := ⟨_, rfl⟩
      have hi6 : i < 6 := by omega
      refine ⟨UInt32.ofNat (512 * c) + UInt32.ofNat (0x40 * i), bufaddr f + UInt32.ofNat (0x40 * i),
        lpx80xPageSize, -2, ?_, ?_, ?_⟩
      · apply List.mem_append_right
        apply List.mem_flatMap.mpr
        exact ⟨i, List.mem_range.mpr hi6, by simp⟩
      · rw [hpage _ hi6 (by omega), hdest]
        omega
      · rw [hpage _ hi6 (by omega), hdest]
        show a < 512 * c + 0x40 * i + 0x40
        omega

theorem magicVector_length {src : List UInt8} (h : src.length = 512) :
    (magicVector src).length = 512 := by
  unfold magicVector
  simp [h]

theorem lpcFlashWriteMagicVect_chunk (hf : Lpc80x f) {fuel c : Nat} (hfuel : 7 ≤ fuel)
    (hc : (c + 1) * 512 ≤ f.length.toNat) {src : List UInt8} (hsrc : src.length = 512) :
    ∃ steps, lpcFlashWriteMagicVect f fuel (UInt32.ofNat (512 * c)) src = some steps ∧
      WritesChunk f (UInt32.ofNat (512 * c)) steps := by
  unfold lpcFlashWriteMagicVect
  split
  · exact lpcFlashWrite_chunk hf hfuel hc (magicVector_length hsrc)
  · exact lpcFlashWrite_chunk hf hfuel hc hsrc

/-! ## Sessions of both functions -/

theorem session_unreserved (hf : Lpc80x f) {write : UInt32 → List UInt8 → Option (List LpcStep)}
    (hwrite : ∀ c src, (c + 1) * 512 ≤ f.length.toNat → src.length = 512 →
      ∃ steps, write (UInt32.ofNat (512 * c)) src = some steps ∧
        WritesChunk f (UInt32.ofNat (512 * c)) steps)
    (status : Nat → Nat → UInt32) (chunks : List (List UInt8)) (k c : Nat)
    (hchunks : ∀ ch ∈ chunks, ch.length = 512) (hin : (c + chunks.length) * 512 ≤ f.length.toNat) :
    ∃ log ok, session f write status k (UInt32.ofNat (512 * c)) chunks = some (log, ok) ∧
      (∀ chunk ∈ log, PutsOwn f chunk) ∧
      (ok = true → ∀ a, 512 * c ≤ a → a < (c + chunks.length) * 512 → ¬ Reserved f (a / 0x40) →
        ∃ chunk ∈ log, Puts chunk.2 a) := by
  induction chunks generalizing k c with
  | nil =>
    refine ⟨[], true, rfl, fun chunk h => absurd h List.not_mem_nil, fun _ a hlow hhigh => ?_⟩
    rw [List.length_nil] at hhigh
    omega
  | cons src chunks ih =>
    rw [List.length_cons] at hin ⊢
    have hlength : f.length.toNat ≤ 0x8000 := by
      rcases hf.length with h | h
      · omega
      · omega
    have hnow : (c + 1) * 512 ≤ f.length.toNat :=
      Nat.le_trans (Nat.mul_le_mul_right 512 (by omega)) hin
    have hlater : c + 1 + chunks.length = c + (chunks.length + 1) := by omega
    obtain ⟨steps, hsteps, hchunk⟩ := hwrite c src hnow (hchunks src List.mem_cons_self)
    obtain ⟨log, ok, hrest, hown, hall⟩ := ih (k + 1) (c + 1)
      (fun ch hch => hchunks ch (List.mem_cons_of_mem _ hch)) (hlater ▸ hin)
    rw [hlater] at hall
    have hnext : UInt32.ofNat (512 * c) + f.bufSize = UInt32.ofNat (512 * (c + 1)) := by
      rw [hf.bufSize, Nat.mul_succ, UInt32.ofNat_add]
      rfl
    have hdest : (UInt32.ofNat (512 * c)).toNat = 512 * c :=
      UInt32.toNat_ofNat_of_lt' (show 512 * c < 2 ^ 32 by omega)
    refine ⟨(UInt32.ofNat (512 * c), (perform (status k) 0 steps).1) :: log,
      decide ((perform (status k) 0 steps).2 = 0) && ok, ?_, ?_, ?_⟩
    · rw [session, hsteps, Option.bind_some]
      dsimp only
      rw [hnext, hrest, Option.map_some]
    · intro chunk hmem
      rcases List.mem_cons.mp hmem with rfl | hmem
      · exact fun dest buf len error h => hchunk.own dest buf len error (perform_subset _ h)
      · exact hown chunk hmem
    · intro hok a hlow hhigh hkept
      obtain ⟨hzero, hok⟩ := Bool.and_eq_true_iff.mp hok
      by_cases hside : a < 512 * c + 512
      · refine ⟨_, List.mem_cons_self, ?_⟩
        rw [perform_zero hchunk.reporting (of_decide_eq_true hzero)]
        exact hchunk.all a (by omega) (by omega) hkept
      · obtain ⟨chunk, hmem, hputs⟩ := hall hok a (by omega) hhigh hkept
        exact ⟨chunk, List.mem_cons_of_mem _ hmem, hputs⟩

theorem writesUnreserved (hf : Lpc80x f)
    {write : Nat → UInt32 → List UInt8 → Option (List LpcStep)}
    (hwrite : ∀ fuel c src, 7 ≤ fuel → (c + 1) * 512 ≤ f.length.toNat → src.length = 512 →
      ∃ steps, write fuel (UInt32.ofNat (512 * c)) src = some steps ∧
        WritesChunk f (UInt32.ofNat (512 * c)) steps) : WritesUnreserved f write := by
  intro first chunks hchunks hin
  have hbuf : f.bufSize.toNat = 512 := by
    rw [hf.bufSize]
    rfl
  rw [hbuf] at hchunks hin ⊢
  refine ⟨7, fun fuel hfuel status => ?_⟩
  obtain ⟨log, ok, hrun, hown, hall⟩ := session_unreserved hf
    (fun c src hc hsrc => hwrite fuel c src hfuel hc hsrc) status chunks 0 first hchunks hin
  refine ⟨log, ok, ?_, hown, fun hok a hlow hhigh hkept => ?_⟩
  · rw [hf.start, UInt32.zero_add, Nat.mul_comm]
    exact hrun
  · exact hall hok a (by omega) hhigh hkept

end

/-- For both parts: a range is erased as it should be just when its pages make up whole sectors, and
it ends in front of the last sector or with the flash; and the writes of blocks are always right. -/
theorem reservedPages_iff (f : LpcFlash) (h : Registered f) :
    (∀ r : LpcRange f, ErasesUnreserved f r ↔
      r.addr.toNat % 0x400 < 0x40 ∧
        (r.addr.toNat + r.len.toNat < f.length.toNat - 0x400 ∧
            0x3C0 ≤ (r.addr.toNat + r.len.toNat - 1) % 0x400 ∨
          0 < r.len.toNat ∧ r.addr.toNat + r.len.toNat = f.length.toNat)) ∧
    WritesUnreserved f (lpcFlashWrite f) ∧ WritesUnreserved f (lpcFlashWriteMagicVect f) :=
  ⟨fun _ => erasesUnreserved_iff h.lpc80x,
    writesUnreserved h.lpc80x fun _ _ _ hfuel hc hsrc =>
      lpcFlashWrite_chunk h.lpc80x hfuel hc hsrc,
    writesUnreserved h.lpc80x fun _ _ _ hfuel hc hsrc =>
      lpcFlashWriteMagicVect_chunk h.lpc80x hfuel hc hsrc⟩

/-- The LPC802. -/
def lpc802 : LpcFlash := lpc11xxAddFlash 0 0x4000 0x400 2

theorem lpc802_registered : Registered lpc802 :=
  ⟨⟨0, 0x8021, by decide +kernel⟩, by decide⟩

theorem reservedPages_iff_lpc802 :
    (∀ r : LpcRange lpc802, ErasesUnreserved lpc802 r ↔
      r.addr.toNat % 0x400 < 0x40 ∧
        (r.addr.toNat + r.len.toNat < lpc802.length.toNat - 0x400 ∧
            0x3C0 ≤ (r.addr.toNat + r.len.toNat - 1) % 0x400 ∨
          0 < r.len.toNat ∧ r.addr.toNat + r.len.toNat = lpc802.length.toNat)) ∧
    WritesUnreserved lpc802 (lpcFlashWrite lpc802) ∧
    WritesUnreserved lpc802 (lpcFlashWriteMagicVect lpc802) :=
  reservedPages_iff lpc802 lpc802_registered

/-- All sectors but the last one. -/
def frontSectors : LpcRange lpc802 where
  addr := 0
  len := 0x3C00
  low := by decide
  high := by decide

/-- The last two pages of the range are left out, and the result is 0. -/
theorem frontSectors_not_erased : ¬ ErasesUnreserved lpc802 frontSectors := by
  rw [erasesUnreserved_iff lpc802_registered.lpc80x]
  decide

end MiyakoLink.Lpc
