import Mathlib.Data.Fintype.Card
import Mathlib.Data.Nat.Find
import MiyakoLink.CortexM.Resume
import MiyakoLink.CortexM.Unwind
import MiyakoLink.Rp.Driver

/-!
# The function table of the boot ROM

`rp_probe` fetches 0x80 bytes from where a pointer in the boot ROM says, and `rp2040_fill_table`
looks in them for the functions that the driver calls. The table is one of halfwords, a code and a
pointer in turn, and ends with a code of zero. The limit that is passed is one of bytes, and a turn
of the loop takes two from it for four that it reads.

* `fill_state`: the loop stops behind the turns in front of the end of the table, or after 64.
* `right_iff`: when what it reads lies in the bytes that were fetched, and a table that it takes has
  all the functions.
* `Target.flashLength_of_period`: the size that `rp_probe` finds out from the mirrors of the flash.
-/

namespace MiyakoLink.Rp.RomTable

open CortexM (wordAt halfAt)

/-- The members of `struct rp_priv_s` that come from the table. All of them are called. -/
inductive Entry where
  | debugTrampoline
  | debugTrampolineEnd
  | connectInternalFlash
  | flashExitXip
  | flashRangeErase
  | flashRangeProgram
  | flashFlushCache
  | flashEnterCmdXip
  | resetUsbBoot
  deriving DecidableEq

/-- Two characters as a halfword. -/
def tagOf (first second : Char) : UInt16 :=
  UInt16.ofNat first.toNat ||| UInt16.ofNat second.toNat <<< 8

def Entry.code : Entry → UInt16
  | debugTrampoline => tagOf 'D' 'T'
  | debugTrampolineEnd => tagOf 'D' 'E'
  | connectInternalFlash => tagOf 'I' 'F'
  | flashExitXip => tagOf 'E' 'X'
  | flashRangeErase => tagOf 'R' 'E'
  | flashRangeProgram => tagOf 'R' 'P'
  | flashFlushCache => tagOf 'F' 'C'
  | flashEnterCmdXip => tagOf 'C' 'X'
  | resetUsbBoot => tagOf 'U' 'B'

/-- The cases of the `switch`, in their order. -/
def Entry.all : List Entry :=
  [debugTrampoline, debugTrampolineEnd, connectInternalFlash, flashExitXip, flashRangeErase,
    flashRangeProgram, flashFlushCache, flashEnterCmdXip, resetUsbBoot]

instance : Fintype Entry := ⟨⟨Entry.all, by decide⟩, fun e => by cases e <;> decide⟩

/-- The case of a code. -/
def entry? (tag : UInt16) : Option Entry := Entry.all.find? fun e => e.code == tag

/-- What has been stored. The memory of an allocation is not cleared. -/
abbrev Priv := Entry → Option UInt16

/-- The locals of `rp2040_fill_table`, and its `table` as the halfwords that have been read. -/
structure Fill where
  pos : Nat
  tag : UInt16
  max : Int
  check : Nat
  priv : Priv

/-- `rp2040_fill_table`, up to the loop. -/
def start (table : Nat → UInt16) (max : Int) : Fill := ⟨1, table 0, max, 0, fun _ => none⟩

/-- A turn of the loop. The `default` takes back what has been added to `check`. -/
def turn (table : Nat → UInt16) (s : Fill) : Fill where
  pos := s.pos + 2
  tag := table (s.pos + 1)
  max := s.max - 2
  check :=
    match entry? s.tag with
    | some _ => s.check + 1
    | none => s.check
  priv :=
    match entry? s.tag with
    | some e => Function.update s.priv e (some (table s.pos))
    | none => s.priv

def loop (table : Nat → UInt16) : Nat → Fill → Option Fill
  | 0, _ => none
  | fuel + 1, s => if s.tag ≠ 0 ∧ s.max ≠ 0 then loop table fuel (turn table s) else some s

/-- `rp2040_fill_table`: what it returns, and where it has got to. -/
def rp2040FillTable (table : Nat → UInt16) (max : Nat) : Option (Bool × Fill) :=
  (loop table (max / 2 + 1) (start table max)).map fun s => (decide (s.check ≠ 9), s)

/-- `RP_MAX_TABLE_SIZE`. -/
abbrev rpMaxTableSize : Nat := 0x80

/-! ## The probe -/

/-- What `rp_probe` meets: what reads of the target deliver, whether that of the table fails, the
memory behind the block of the table, and whether there are blocks. -/
structure Target where
  mem : UInt32 → UInt8
  fetchFails : Bool
  heap : Nat → UInt16
  tableRoom : Bool
  privRoom : Bool

/-- `BOOTROM_MAGIC` and `BOOTROM_MAGIC_ADDR`. -/
abbrev bootromMagic : UInt32 := 0x01754D
abbrev bootromMagicAddr : UInt32 := 0x00000010

namespace Target

variable (t : Target)

/-- `table_offset`. -/
def tableOffset : UInt16 := (wordAt t.mem (bootromMagicAddr + 4)).toUInt16

/-- The halfwords of the table and of what lies behind it. -/
def table (i : Nat) : UInt16 :=
  if i < rpMaxTableSize / 2 then halfAt t.mem (t.tableOffset.toUInt32 + UInt32.ofNat (2 * i))
  else t.heap i

/-- The first 64 bytes at `addr`. -/
def sector (addr : UInt32) : List UInt8 :=
  (List.range 64).map fun i => t.mem (addr + UInt32.ofNat i)

/-- The loop over the mirrors of the flash. -/
def mirrors (size : Nat) : Nat :=
  if h : size = 0 then 0
  else if t.sector xipFlashStart ≠ t.sector (xipFlashStart + UInt32.ofNat size) then size
  else mirrors (size / 2)
termination_by size
decreasing_by exact Nat.div_lt_self (Nat.pos_of_ne_zero h) (by decide)

/-- The length that is added. -/
def flashLength : Nat :=
  if t.sector xipFlashStart = List.replicate 64 0 then 2 ^ 24 else 2 * t.mirrors (2 ^ 23)

/-- `rp_probe`: the pointers and the length of the flash of a target that is one. -/
def rpProbe : Option (Priv × Nat) :=
  if wordAt t.mem bootromMagicAddr &&& 0x00FFFFFF ≠ bootromMagic then none
  else if !t.tableRoom || t.fetchFails || !t.privRoom then none
  else
    match rp2040FillTable t.table rpMaxTableSize with
    | some (false, s) => some (s.priv, t.flashLength)
    | _ => none

end Target

/-! ## The turns of the loop -/

section

variable {table : Nat → UInt16}

theorem entry?_eq_some_iff {tag : UInt16} {e : Entry} : entry? tag = some e ↔ e.code = tag := by
  constructor
  · intro h
    have hcode := List.find?_some (p := fun e : Entry => e.code == tag) h
    exact eq_of_beq hcode
  · rintro rfl
    cases e <;> decide

/-- The entries among the first `n` codes. -/
def foundIn (table : Nat → UInt16) (n : Nat) : List Entry :=
  (List.range n).filterMap fun k => entry? (table (2 * k))

theorem foundIn_succ (table : Nat → UInt16) (n : Nat) : foundIn table (n + 1) =
    match entry? (table (2 * n)) with
    | some e => foundIn table n ++ [e]
    | none => foundIn table n := by
  rw [foundIn, List.range_succ, List.filterMap_append]
  cases h : entry? (table (2 * n)) with
  | some e => simp [foundIn, h]
  | none => simp [foundIn, h]

/-- What holds behind `n` turns. -/
structure Behind (table : Nat → UInt16) (max : Int) (n : Nat) (s : Fill) : Prop where
  pos : s.pos = 2 * n + 1
  tag : s.tag = table (2 * n)
  max : s.max = max - 2 * n
  check : s.check = (foundIn table n).length
  stored : ∀ e p, s.priv e = some p → ∃ k < n, table (2 * k) = e.code ∧ table (2 * k + 1) = p
  found : ∀ e, (∃ p, s.priv e = some p) ↔ e ∈ foundIn table n

theorem behind_start (table : Nat → UInt16) (max : Int) : Behind table max 0 (start table max) where
  pos := rfl
  tag := rfl
  max := by simp [start]
  check := rfl
  stored := fun e p h => absurd h (by simp [start])
  found := fun e => by simp [start, foundIn]

theorem turn_of_some {s : Fill} {e : Entry} (h : entry? s.tag = some e) : turn table s =
    ⟨s.pos + 2, table (s.pos + 1), s.max - 2, s.check + 1,
      Function.update s.priv e (some (table s.pos))⟩ := by
  rw [turn, h]

theorem turn_of_none {s : Fill} (h : entry? s.tag = none) :
    turn table s = ⟨s.pos + 2, table (s.pos + 1), s.max - 2, s.check, s.priv⟩ := by
  rw [turn, h]

theorem Behind.turn {max : Int} {n : Nat} {s : Fill} (h : Behind table max n s) :
    Behind table max (n + 1) (turn table s) := by
  have hpos : s.pos + 2 = 2 * (n + 1) + 1 := by
    rw [h.pos]
    omega
  have htag : table (s.pos + 1) = table (2 * (n + 1)) := by
    rw [h.pos]
    rfl
  have hmax : s.max - 2 = max - 2 * (n + 1 : Nat) := by
    rw [h.max]
    omega
  have hstored (e : Entry) (p : UInt16) (hpriv : s.priv e = some p) :
      ∃ k < n + 1, table (2 * k) = e.code ∧ table (2 * k + 1) = p := by
    obtain ⟨k, hk, hat⟩ := h.stored e p hpriv
    exact ⟨k, Nat.lt_succ_of_lt hk, hat⟩
  have hsucc := foundIn_succ table n
  rw [← h.tag] at hsucc
  cases hcase : entry? s.tag with
  | none =>
    rw [hcase] at hsucc
    rw [turn_of_none hcase]
    refine ⟨hpos, htag, hmax, ?_, hstored, ?_⟩
    · rw [hsucc]
      exact h.check
    · rw [hsucc]
      exact h.found
  | some e =>
    rw [hcase] at hsucc
    rw [turn_of_some hcase]
    refine ⟨hpos, htag, hmax, ?_, fun e' p hpriv => ?_, fun e' => ?_⟩
    · rw [hsucc, List.length_append, ← h.check]
      rfl
    · change Function.update s.priv e (some (table s.pos)) e' = some p at hpriv
      by_cases he : e' = e
      · subst he
        rw [Function.update_self, h.pos] at hpriv
        have hcode := entry?_eq_some_iff.mp hcase
        rw [h.tag] at hcode
        exact ⟨n, Nat.lt_succ_self n, hcode.symm, Option.some.inj hpriv⟩
      · rw [Function.update_of_ne he] at hpriv
        exact hstored e' p hpriv
    · show (∃ p, Function.update s.priv e (some (table s.pos)) e' = some p) ↔ _
      rw [hsucc, List.mem_append, List.mem_singleton]
      by_cases he : e' = e
      · subst he
        rw [Function.update_self]
        exact ⟨fun _ => Or.inr rfl, fun _ => ⟨_, rfl⟩⟩
      · rw [Function.update_of_ne he, h.found e', or_iff_left he]

/-- The loop goes on to its end. -/
theorem loop_of_behind {max n m fuel : Nat} {s : Fill} (hs : Behind table max n s) (hn : n ≤ m)
    (hgo : ∀ k < m, table (2 * k) ≠ 0 ∧ 2 * k ≠ max) (hend : table (2 * m) = 0 ∨ 2 * m = max)
    (hfuel : m - n < fuel) : ∃ s', loop table fuel s = some s' ∧ Behind table max m s' := by
  induction fuel generalizing n s with
  | zero => exact absurd hfuel (Nat.not_lt_zero _)
  | succ fuel ih =>
    rw [loop, hs.tag, hs.max]
    by_cases hlast : n = m
    · subst hlast
      have hstop : ¬ (table (2 * n) ≠ 0 ∧ (max : Int) - 2 * n ≠ 0) := by
        rintro ⟨hcode, hmax⟩
        rcases hend with hzero | hlimit
        · exact hcode hzero
        · omega
      rw [if_neg hstop]
      exact ⟨s, rfl, hs⟩
    · have hlt : n < m := Nat.lt_of_le_of_ne hn hlast
      obtain ⟨hcode, hmax⟩ := hgo n hlt
      rw [if_pos ⟨hcode, by omega⟩]
      exact ih hs.turn hlt (by omega)

/-- The turns of the loop: those in front of the first code of zero, or as many as the limit
allows. -/
def turns (table : Nat → UInt16) : Nat :=
  Nat.find (⟨rpMaxTableSize / 2, Or.inr rfl⟩ : ∃ m, table (2 * m) = 0 ∨ 2 * m = rpMaxTableSize)

theorem turns_end (table : Nat → UInt16) :
    table (2 * turns table) = 0 ∨ 2 * turns table = rpMaxTableSize :=
  Nat.find_spec (p := fun m => table (2 * m) = 0 ∨ 2 * m = rpMaxTableSize) _

theorem turns_le (table : Nat → UInt16) : turns table ≤ rpMaxTableSize / 2 :=
  Nat.find_min' _ (Or.inr rfl)

theorem before_turns {k : Nat} (h : k < turns table) :
    table (2 * k) ≠ 0 ∧ 2 * k ≠ rpMaxTableSize :=
  not_or.mp (Nat.find_min _ h)

/-- The function comes to its end. -/
theorem fill_state (table : Nat → UInt16) : ∃ s,
    rp2040FillTable table rpMaxTableSize = some (decide (s.check ≠ 9), s) ∧
      Behind table rpMaxTableSize (turns table) s := by
  have hle := turns_le table
  obtain ⟨s, hloop, hs⟩ := loop_of_behind (behind_start table rpMaxTableSize)
    (Nat.zero_le _) (fun k hk => before_turns hk) (turns_end table)
    (show turns table - 0 < rpMaxTableSize / 2 + 1 by omega)
  exact ⟨s, by rw [rp2040FillTable, hloop]; rfl, hs⟩

end

/-! ## What it reads and finds -/

/-- One of the codes that were fetched is zero. -/
def Terminated (table : Nat → UInt16) : Prop := ∃ k < rpMaxTableSize / 4, table (2 * k) = 0

instance (table : Nat → UInt16) : Decidable (Terminated table) :=
  inferInstanceAs (Decidable (∃ k < _, _))

/-- The function returns, has read nothing but the bytes that were fetched and stored nothing but
the halfwords next to the codes, and if it says so it has found all entries. -/
def Right (table : Nat → UInt16) : Prop :=
  ∃ ret s, rp2040FillTable table rpMaxTableSize = some (ret, s) ∧ s.pos ≤ rpMaxTableSize / 2 ∧
    (∀ e p, s.priv e = some p → ∃ k, 2 * k + 1 < rpMaxTableSize / 2 ∧
      table (2 * k) = e.code ∧ table (2 * k + 1) = p) ∧
    (ret = false → ∀ e, ∃ p, s.priv e = some p)

section

variable {table : Nat → UInt16}

theorem terminated_iff : Terminated table ↔ turns table < rpMaxTableSize / 4 := by
  constructor
  · rintro ⟨k, hk, hzero⟩
    exact Nat.lt_of_le_of_lt (Nat.find_min' _ (Or.inl hzero)) hk
  · intro hlt
    rcases turns_end table with hzero | hlimit
    · exact ⟨turns table, hlt, hzero⟩
    · omega

/-- Nine entries are all of them just if none is there twice. -/
theorem nodup_iff_all {l : List Entry} (h : l.length = 9) : l.Nodup ↔ ∀ e, e ∈ l := by
  have hcard : Fintype.card Entry = 9 := rfl
  constructor
  · intro hnodup e
    have huniv := Finset.eq_univ_of_card l.toFinset
      (by rw [List.toFinset_card_of_nodup hnodup, h, hcard])
    rw [← List.mem_toFinset, huniv]
    exact Finset.mem_univ e
  · intro hall
    have huniv : l.toFinset = Finset.univ :=
      Finset.eq_univ_of_forall fun e => List.mem_toFinset.mpr (hall e)
    have hdedup : l.dedup.length = l.length := by
      rw [← List.card_toFinset, huniv, h]
      exact hcard
    rw [← List.dedup_eq_self]
    exact (List.dedup_sublist l).eq_of_length hdedup

/-- Only the fetched bytes are read, and a table that is said to be complete is, just if there is a
terminator in these bytes and no entry occurs twice among nine in front of it. -/
theorem right_iff : Right table ↔ Terminated table ∧
    ((foundIn table (turns table)).length = 9 → (foundIn table (turns table)).Nodup) := by
  obtain ⟨s, hfill, hs⟩ := fill_state table
  have hpos := hs.pos
  constructor
  · rintro ⟨ret, s', hfill', hbound, -, hall⟩
    obtain ⟨rfl, rfl⟩ := Prod.mk.inj (Option.some.inj (hfill.symm.trans hfill'))
    have hturns : 2 * turns table + 1 ≤ 64 := hpos ▸ hbound
    refine ⟨terminated_iff.mpr (show turns table < 32 by omega), fun hnine =>
      (nodup_iff_all hnine).mpr fun e => ?_⟩
    rw [← hs.found e]
    exact hall (decide_eq_false (not_not.mpr (hs.check.trans hnine))) e
  · rintro ⟨hend, hnodup⟩
    have hlt := terminated_iff.mp hend
    refine ⟨_, s, hfill, by omega, fun e p hpriv => ?_, fun hret e => ?_⟩
    · obtain ⟨k, hk, hat⟩ := hs.stored e p hpriv
      exact ⟨k, by omega, hat⟩
    · have hnine := hs.check.symm.trans (not_not.mp (of_decide_eq_false hret))
      rw [hs.found e]
      exact (nodup_iff_all hnine).mp (hnodup hnine) e

end

namespace Target

variable {t : Target}

/-- The table of a target is read in bounds and found complete only if it is, just if the 0x80 bytes
hold a terminator and no code the driver knows occurs twice among nine in front of it. -/
theorem fill_right_iff (t : Target) : Right t.table ↔ Terminated t.table ∧
    ((foundIn t.table (turns t.table)).length = 9 → (foundIn t.table (turns t.table)).Nodup) :=
  right_iff

/-- A boot ROM whose pointer leads to bytes that all are 1. -/
def unterminated : Target where
  mem a := if a = 0x10 then 0x4D else if a = 0x11 then 0x75 else 1
  fetchFails := false
  heap _ := 1
  tableRoom := true
  privRoom := true

/-- There the loop goes on behind the bytes that were fetched. -/
theorem unterminated_not_right : ¬ ∀ t : Target, Right t.table := by
  intro h
  have hend := (right_iff.mp (h unterminated)).1
  exact absurd hend (by decide +kernel)

/-- All functions of a target that is found have a pointer, next to their code. -/
theorem rpProbe_pointers {priv : Priv} {length : Nat} (h : t.rpProbe = some (priv, length))
    (hright : Right t.table) (e : Entry) :
    ∃ p, priv e = some p ∧ ∃ k, t.table (2 * k) = e.code ∧ t.table (2 * k + 1) = p := by
  obtain ⟨ret, s, hfill, -, hstored, hall⟩ := hright
  rw [rpProbe, hfill] at h
  split at h
  · contradiction
  · split at h
    · contradiction
    · cases ret with
      | true => contradiction
      | false =>
        obtain ⟨rfl, -⟩ := Prod.mk.inj (Option.some.inj h)
        obtain ⟨p, hp⟩ := hall rfl e
        obtain ⟨k, -, hcode, hdata⟩ := hstored e p hp
        exact ⟨p, hp, k, hcode, hdata⟩

/-- The largest power of two at which the flash is not a mirror of its begin. -/
theorem mirrors_eq {k n : Nat} (hn : k ≤ n)
    (hdiffer : t.sector xipFlashStart ≠ t.sector (xipFlashStart + UInt32.ofNat (2 ^ k)))
    (hmirror : ∀ j, k < j → t.sector (xipFlashStart + UInt32.ofNat (2 ^ j)) =
      t.sector xipFlashStart) : t.mirrors (2 ^ n) = 2 ^ k := by
  induction n, hn using Nat.le_induction with
  | base => rw [mirrors, dif_neg (Nat.two_pow_pos k).ne', if_pos hdiffer]
  | succ n hn ih =>
    have hhalf : 2 ^ (n + 1) / 2 = 2 ^ n := by omega
    have hsame : ¬ t.sector xipFlashStart ≠
        t.sector (xipFlashStart + UInt32.ofNat (2 ^ (n + 1))) :=
      not_not.mpr (hmirror (n + 1) (Nat.lt_succ_of_le hn)).symm
    rw [mirrors, dif_neg (Nat.two_pow_pos (n + 1)).ne', if_neg hsame, hhalf, ih]

/-- A flash of up to 16 MiB that is mirrored behind its end is found with its size. -/
theorem flashLength_of_period {k : Nat} (hk : k < 24)
    (hblank : t.sector xipFlashStart ≠ List.replicate 64 0)
    (hdiffer : t.sector xipFlashStart ≠ t.sector (xipFlashStart + UInt32.ofNat (2 ^ k)))
    (hperiod : ∀ m, t.sector (xipFlashStart + UInt32.ofNat (2 ^ (k + 1) * m)) =
      t.sector xipFlashStart) : t.flashLength = 2 ^ (k + 1) := by
  have hmirror (j : Nat) (hj : k < j) :
      t.sector (xipFlashStart + UInt32.ofNat (2 ^ j)) = t.sector xipFlashStart := by
    have hsplit : 2 ^ (k + 1) * 2 ^ (j - (k + 1)) = 2 ^ j := by
      rw [← Nat.pow_add, Nat.add_sub_cancel' hj]
    rw [← hsplit]
    exact hperiod _
  rw [flashLength, if_neg hblank, mirrors_eq (Nat.lt_succ_iff.mp hk) hdiffer hmirror, Nat.pow_succ,
    Nat.mul_comm]

end Target

end MiyakoLink.Rp.RomTable
