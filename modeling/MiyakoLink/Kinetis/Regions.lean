import MiyakoLink.Kinetis.Driver

/-!
# The locations that the commands designate

A command carries 24 bits of an address. These are the address itself in the program flash, and
an address of the program flash for the FlexNVM at 0x10000000 (`confined_iff`).
-/

namespace MiyakoLink.Kinetis

open Flash

deriving instance DecidableEq for Layout

inductive Operation where
  | erase (addr len : UInt32)
  | write (dest : UInt32) (src : List UInt8) (len : UInt32)

namespace Operation

def addr : Operation → UInt32
  | erase addr _ => addr
  | write dest _ _ => dest

def len : Operation → UInt32
  | erase _ len => len
  | write _ _ len => len

def run (C : Chip) (L : Layout) : Operation → Env → Ret × Env
  | erase addr len => klGenFlashErase C L addr len
  | write dest src len => klGenFlashWrite C L dest src len

end Operation

namespace Layout

/-- The address is one of the region. -/
def Holds (L : Layout) (a : UInt32) : Prop :=
  L.start.toNat ≤ a.toNat ∧ a.toNat < L.start.toNat + L.length.toNat

/-- The bytes that a command works on: a sector, or a phrase or longword. -/
def unit (L : Layout) : Cmd → Nat
  | .eraseSector => L.erasesize.toNat
  | _ => L.writeLen.toNat

/-- Address and length are inside the region. -/
def Inside (L : Layout) (op : Operation) : Prop :=
  L.start.toNat ≤ op.addr.toNat ∧
    op.addr.toNat + op.len.toNat ≤ L.start.toNat + L.length.toNat

end Layout

/-- The commands of an operation designate locations of its region, and what they work on is
apart from the other regions. -/
structure Confined (C : Chip) (regions : List Layout) (L : Layout) (op : Operation) (s : Env) :
    Prop where
  own : ∀ c ∈ (op.run C L s).2.commands.drop s.commands.length, L.Holds (C.location c.addr)
  others : ∀ c ∈ (op.run C L s).2.commands.drop s.commands.length, ∀ L' ∈ regions, L' ≠ L →
    ∀ a, L'.Holds a → a.toNat / L.unit c.cmd ≠ (C.location c.addr).toNat / L.unit c.cmd

/-! ## The commands of the loops -/

/-- The commands that a loop over a range has added: the first one is for its begin, and the
others are for addresses of the range. -/
structure Issues (s s' : Env) (addr len : UInt32) : Prop where
  commands : ∃ new, s'.commands = s.commands ++ new ∧
    (∀ c ∈ new, ∃ x : UInt32, c.addr = x &&& 0xFFFFFF ∧ addr.toNat ≤ x.toNat ∧
      x.toNat < addr.toNat + len.toNat) ∧
    (len ≠ 0 → ∃ c ∈ new, c.addr = addr &&& 0xFFFFFF)

variable {C : Chip} {L : Layout}

theorem klGenCommand_commands (cmd : Cmd) (addr : UInt32) (data : Option (List UInt8)) (s : Env) :
    (C.klGenCommand cmd addr data s).2.commands =
      s.commands ++ [⟨cmd, addr &&& 0xFFFFFF, data⟩] := by
  unfold Chip.klGenCommand
  dsimp only
  split
  · rfl
  · rfl

theorem issues_nil (s : Env) (addr : UInt32) : Issues s s addr 0 :=
  ⟨[], (List.append_nil _).symm, fun _ hc => absurd hc List.not_mem_nil, fun h => absurd rfl h⟩

theorem toNat_pos {len : UInt32} (h : len ≠ 0) : 0 < len.toNat := by
  have := mt UInt32.toNat_inj.mp h
  rw [UInt32.toNat_zero] at this
  omega

/-- A loop that ends with its first command. -/
theorem issues_first {s : Env} {addr len : UInt32} (hlen : len ≠ 0) (cmd : Cmd)
    (data : Option (List UInt8)) : Issues s (C.klGenCommand cmd addr data s).2 addr len := by
  refine ⟨_, klGenCommand_commands cmd addr data s, ?_, fun _ => ⟨_, List.mem_singleton_self _, rfl⟩⟩
  intro c hc
  rw [List.mem_singleton.mp hc]
  have := toNat_pos hlen
  exact ⟨addr, rfl, Nat.le_refl _, by omega⟩

theorem left_toNat (len n : UInt32) : (left len n).toNat = len.toNat - n.toNat := by
  unfold left
  split
  · rename_i h
    exact UInt32.toNat_sub_of_le _ _ (UInt32.le_of_lt h)
  · rename_i h
    have := mt UInt32.lt_iff_toNat_lt.mpr h
    rw [UInt32.toNat_zero]
    omega

/-- A loop that goes on with what is left. -/
theorem issues_step {s s' : Env} {addr len n : UInt32} (hlen : len ≠ 0)
    (htop : addr.toNat + len.toNat ≤ 2 ^ 32) (cmd : Cmd) (data : Option (List UInt8))
    (hrest : n.toNat < len.toNat →
      Issues (C.klGenCommand cmd addr data s).2 s' (addr + n) (left len n))
    (hend : ¬ n.toNat < len.toNat → s' = (C.klGenCommand cmd addr data s).2) :
    Issues s s' addr len := by
  by_cases hn : n.toNat < len.toNat
  · obtain ⟨new, hnew, hin, -⟩ := hrest hn
    rw [klGenCommand_commands, List.append_assoc] at hnew
    refine ⟨_, hnew, ?_, fun _ => ⟨_, List.mem_cons_self, rfl⟩⟩
    intro c hc
    rcases List.mem_cons.mp hc with rfl | hc
    · have := toNat_pos hlen
      exact ⟨addr, rfl, Nat.le_refl _, by omega⟩
    · obtain ⟨x, hx, hlow, hhigh⟩ := hin c hc
      have hadd : (addr + n).toNat = addr.toNat + n.toNat := by
        rw [UInt32.toNat_add]
        omega
      rw [hadd] at hlow hhigh
      rw [left_toNat] at hhigh
      exact ⟨x, hx, by omega, by omega⟩
  · rw [hend hn]
    exact issues_first hlen cmd data

theorem left_eq_zero {len n : UInt32} (h : ¬ n.toNat < len.toNat) : left len n = 0 :=
  if_neg (mt UInt32.lt_iff_toNat_lt.mp h)

theorem erase_issues {addr len : UInt32} {s : Env} (htop : addr.toNat + len.toNat ≤ 2 ^ 32) :
    Issues s (klGenFlashErase C L addr len s).2 addr len := by
  fun_induction klGenFlashErase C L addr len s with
  | case1 addr s => exact issues_nil s addr
  | case2 addr len s hlen r hr ih =>
    refine issues_step hlen htop .eraseSector none (fun hn => ih ?_) fun hn => ?_
    · rw [left_toNat, UInt32.toNat_add]
      omega
    · rw [left_eq_zero hn, klGenFlashErase, dif_pos rfl]
  | case3 addr len s hlen r hr => exact issues_first hlen .eraseSector none

theorem write_issues {dest len : UInt32} {src : List UInt8} {s : Env}
    (htop : dest.toNat + len.toNat ≤ 2 ^ 32) :
    Issues s (writeLoop C L dest src len s).2 dest len := by
  fun_induction writeLoop C L dest src len s with
  | case1 dest src s => exact issues_nil s dest
  | case2 dest src len s hlen r hr ih =>
    refine issues_step hlen htop L.writeCmd (some (dataAt C src)) (fun hn => ih ?_) fun hn => ?_
    · rw [left_toNat, UInt32.toNat_add]
      omega
    · rw [left_eq_zero hn, writeLoop, dif_pos rfl]
  | case3 dest src len s hlen r hr => exact issues_first hlen L.writeCmd (some (dataAt C src))

theorem run_issues {op : Operation} {s : Env} (htop : op.addr.toNat + op.len.toNat ≤ 2 ^ 32) :
    Issues s (op.run C L s).2 op.addr op.len := by
  cases op with
  | erase addr len => exact erase_issues htop
  | write dest src len => exact write_issues htop

/-! ## The regions of the parts -/

/-- A region is in the low 8 MiB, or is the FlexNVM, which is shorter. -/
def Layout.Placed (L : Layout) : Prop :=
  L.start.toNat + L.length.toNat ≤ 0x800000 ∨
    L.start.toNat = 0x10000000 ∧ L.length.toNat ≤ 0x80000

/-- Two regions share no sector. -/
def Layout.ApartFrom (L L' : Layout) : Prop :=
  (L.start.toNat + L.length.toNat ≤ L'.start.toNat ∨
    L'.start.toNat + L'.length.toNat ≤ L.start.toNat) ∧
  L.start.toNat % L.erasesize.toNat = 0 ∧
  (L.start.toNat + L.length.toNat) % L.erasesize.toNat = 0 ∧
  L.start.toNat % L.writeLen.toNat = 0 ∧
  (L.start.toNat + L.length.toNat) % L.writeLen.toNat = 0

def WellPlaced (regions : List Layout) : Prop :=
  ∀ L ∈ regions, L.Placed ∧ ∀ L' ∈ regions, L' = L ∨ L.ApartFrom L'

instance (regions : List Layout) : Decidable (WellPlaced regions) :=
  inferInstanceAs (Decidable (∀ L ∈ regions, (_ ∨ _) ∧ ∀ L' ∈ regions, L' = L ∨ (_ ∧ _)))

theorem kinetisProbe_wellPlaced {sdid fcfg1 : UInt32} {regions : List Layout}
    (h : kinetisProbe sdid fcfg1 = some regions) : WellPlaced regions := by
  unfold kinetisProbe klGenAddFlashes at h
  dsimp only at h
  repeat' split at h
  all_goals first
    | contradiction
    | (rw [← Option.some.inj h]; decide)

theorem Layout.ApartFrom.div_ne {L L' : Layout} (h : L.ApartFrom L') (cmd : Cmd) {a x : UInt32}
    (hx : L.Holds x) (ha : L'.Holds a) : a.toNat / L.unit cmd ≠ x.toNat / L.unit cmd := by
  obtain ⟨hapart, hsector, hsector', hphrase, hphrase'⟩ := h
  have hunit : 0 < L.unit cmd ∧ L.start.toNat % L.unit cmd = 0 ∧
      (L.start.toNat + L.length.toNat) % L.unit cmd = 0 := by
    cases cmd with
    | eraseSector => exact ⟨toNat_pos L.erasesize_ne_zero, hsector, hsector'⟩
    | programLongword => exact ⟨toNat_pos L.writeLen_ne_zero, hphrase, hphrase'⟩
    | programPhrase => exact ⟨toNat_pos L.writeLen_ne_zero, hphrase, hphrase'⟩
  obtain ⟨hpos, hstart, hend⟩ := hunit
  obtain ⟨k, hk⟩ := Nat.dvd_of_mod_eq_zero hstart
  obtain ⟨m, hm⟩ := Nat.dvd_of_mod_eq_zero hend
  obtain ⟨hxlow, hxhigh⟩ := hx
  obtain ⟨halow, hahigh⟩ := ha
  rcases hapart with hbelow | habove
  · have hdiv : x.toNat / L.unit cmd < m := by
      rw [Nat.div_lt_iff_lt_mul hpos, Nat.mul_comm]
      omega
    have hdiv' : m ≤ a.toNat / L.unit cmd := by
      rw [Nat.le_div_iff_mul_le hpos, Nat.mul_comm]
      omega
    omega
  · have hdiv : a.toNat / L.unit cmd < k := by
      rw [Nat.div_lt_iff_lt_mul hpos, Nat.mul_comm]
      omega
    have hdiv' : k ≤ x.toNat / L.unit cmd := by
      rw [Nat.le_div_iff_mul_le hpos, Nat.mul_comm]
      omega
    omega

theorem and_mask_toNat (x : UInt32) : (x &&& 0xFFFFFF).toNat = x.toNat % 0x1000000 := by
  rw [UInt32.toNat_and]
  exact Nat.and_two_pow_sub_one_eq_mod x.toNat 24

/-- The location for an address of the low 8 MiB is the address. -/
theorem location_low {x : UInt32} (h : x.toNat < 0x800000) :
    C.location (x &&& 0xFFFFFF) = x := by
  have hsame : x &&& 0xFFFFFF = x := by
    apply UInt32.toNat_inj.mp
    rw [and_mask_toNat]
    omega
  rw [hsame]
  exact C.program_flash x (UInt32.lt_iff_toNat_lt.mpr h)

/-- The location for an address of the FlexNVM is one of the program flash. -/
theorem location_flex {x : UInt32} (hlow : 0x10000000 ≤ x.toNat)
    (hhigh : x.toNat < 0x10000000 + 0x80000) :
    (C.location (x &&& 0xFFFFFF)).toNat < 0x80000 := by
  have hmask := and_mask_toNat x
  rw [C.program_flash _ (UInt32.lt_iff_toNat_lt.mpr (by rw [hmask]; show _ < 0x800000; omega))]
  omega

/-- An operation inside of a region of a Kinetis part stays in the region if and only if it does
nothing or the region is below 16 MiB. -/
theorem confined_iff (C : Chip) {sdid fcfg1 : UInt32} {regions : List Layout}
    (hprobe : kinetisProbe sdid fcfg1 = some regions) {L : Layout} (hL : L ∈ regions)
    (op : Operation) (hin : L.Inside op) (s : Env) :
    Confined C regions L op s ↔ op.len = 0 ∨ L.start < 0x1000000 := by
  obtain ⟨hplaced, hapart⟩ := kinetisProbe_wellPlaced hprobe L hL
  obtain ⟨hlow, hhigh⟩ := hin
  have htop : op.addr.toNat + op.len.toNat ≤ 2 ^ 32 := by
    rcases hplaced with h | ⟨h, h'⟩
    · omega
    · omega
  obtain ⟨new, hnew, hrange, hfirst⟩ := run_issues (C := C) (L := L) (s := s) htop
  have hdrop : (op.run C L s).2.commands.drop s.commands.length = new := by
    rw [hnew, List.drop_left]
  constructor
  · rintro ⟨hown, -⟩
    by_contra hor
    obtain ⟨hlen, hstart⟩ := not_or.mp hor
    obtain ⟨c, hc, haddr⟩ := hfirst hlen
    have hlocation := hown c (hdrop ▸ hc)
    have hpos := toNat_pos hlen
    rcases hplaced with h | ⟨h, h'⟩
    · exact hstart (UInt32.lt_iff_toNat_lt.mpr (show _ < 0x1000000 by omega))
    · rw [haddr] at hlocation
      have hflex := location_flex (C := C) (x := op.addr) (by omega) (by omega)
      have hbegin := hlocation.1
      omega
  · intro hor
    have hown : ∀ c ∈ new, L.Holds (C.location c.addr) := by
      intro c hc
      obtain ⟨x, hx, hxlow, hxhigh⟩ := hrange c hc
      have hlocation : x.toNat < 0x800000 := by
        rcases hor with hzero | hstart
        · rw [hzero, UInt32.toNat_zero] at hxhigh
          omega
        · have hstart : L.start.toNat < 0x1000000 := UInt32.lt_iff_toNat_lt.mp hstart
          rcases hplaced with h | ⟨h, h'⟩
          · omega
          · omega
      rw [hx, location_low hlocation]
      exact ⟨by omega, by omega⟩
    constructor
    · rw [hdrop]
      exact hown
    · rw [hdrop]
      intro c hc L' hL' hne a ha
      exact ((hapart L' hL').resolve_left hne).div_ne c.cmd (hown c hc) ha

/-! ## A part with FlexNVM -/

/-- Program flash at 0, and data flash from 0x800000 on that is read at 0x10000000. -/
def flexChip : Chip where
  refuses _ := false
  room _ := true
  location a := if a < 0x800000 then a else a - 0x800000 + 0x10000000
  program_flash _ ha := if_pos ha
  sector a x := a.toNat / 0x800 = x.toNat / 0x800
  behind _ := 0

def blankEnv : Env := ⟨[], 0, fun _ => 0xFF, false⟩

theorem mk12_erase_confined : Confined flexChip
    [klRegion 0x10000000 0x10000 0x800, klRegion 0 0x20000 0x800] (klRegion 0 0x20000 0x800)
    (.erase 0x800 0x1000) blankEnv :=
  (confined_iff flexChip (show kinetisProbe 0x200 0x07000000 = _ from rfl) (by decide) _
    ⟨by decide, by decide⟩ blankEnv).mpr (Or.inr (by decide))

/-- Erasing the first sector of the FlexNVM erases the first sector of the program flash. -/
theorem mk12_flexNvm_not_confined : ¬ Confined flexChip
    [klRegion 0x10000000 0x10000 0x800, klRegion 0 0x20000 0x800]
    (klRegion 0x10000000 0x10000 0x800) (.erase 0x10000000 0x800) blankEnv := by
  intro h
  let op : Operation := .erase 0x10000000 0x800
  have hissues : Issues blankEnv _ 0x10000000 0x800 := run_issues (C := flexChip)
    (L := klRegion 0x10000000 0x10000 0x800)
    (show op.addr.toNat + op.len.toNat ≤ 2 ^ 32 by decide)
  obtain ⟨new, hnew, -, hfirst⟩ := hissues
  obtain ⟨c, hc, haddr⟩ := hfirst (by decide)
  have hown := h.own c (by
    rw [hnew]
    exact hc)
  rw [haddr] at hown
  exact absurd hown.1 (by decide)

end MiyakoLink.Kinetis
