import MiyakoLink.Adiv5.MemAp
import MiyakoLink.Lib.Walk

/-!
# The walk through the ROM tables

`adiv5_component_probe` over the memory of a target, which is what its reads return and which of
them fail. A read that fails, and every read before the error is cleared, returns what `stale` says
(zero over SWD). The probes of the cores and the texts for debugging are not part of the model: a
visit says what was found, and the probe belongs to it.

* `componentProbe_walk`: the function is the walk of `Lib.Walk` along the entries.
* `walkEnds_iff`: the contents for which it ends, with a bounded depth and number of visits, and
  probes no core twice.
-/

namespace MiyakoLink.Adiv5.RomTable

open Lib

abbrev cidr0Offset : UInt32 := 0xFF0

abbrev pidr0Offset : UInt32 := 0xFE0

abbrev pidr4Offset : UInt32 := 0xFD0

abbrev devtypeOffset : UInt32 := 0xFCC

abbrev devarchOffset : UInt32 := 0xFBC

abbrev cidPreamble : UInt32 := 0xB105000D

abbrev cidClassMask : UInt32 := 0x0000F000

abbrev cidcRomtab : UInt32 := 0x1

abbrev cidcDc : UInt32 := 0x9

abbrev pidrRevMask : UInt64 := 0x0FFF00000

abbrev pidrPnMask : UInt64 := 0x000000FFF

abbrev pidrArmBits : UInt64 := 0x4000BB000

abbrev devarchPresent : UInt32 := 0x00100000

abbrev devarchArchidMask : UInt32 := 0x0000FFFF

abbrev apDesignerAtmel : UInt64 := 0x01F

abbrev samx5xDsuCtrlstat : UInt32 := 0x41002100

abbrev samx5xStatusbProt : UInt32 := 0x00010000

abbrev romRomentryPresent : UInt32 := 0x1

abbrev romRomentryOffset : UInt32 := 0xFFFFF000

/-- The base address of a component. -/
abbrev pageMask : UInt32 := 0xFFFFF000

inductive ArmArch where
  | nosupport
  | cortexm
  | cortexa
  deriving DecidableEq

structure PidrPnBits where
  partNumber : UInt64
  devType : UInt32
  archId : UInt32
  arch : ArmArch

/-- `pidr_pn_bits`, up to its end. -/
def pidrPnBits : List PidrPnBits :=
  [⟨0x000, 0x00, 0, .cortexm⟩, ⟨0x001, 0x00, 0, .nosupport⟩, ⟨0x002, 0x00, 0, .nosupport⟩,
    ⟨0x003, 0x00, 0, .nosupport⟩, ⟨0x008, 0x00, 0, .cortexm⟩, ⟨0x00a, 0x00, 0, .nosupport⟩,
    ⟨0x00b, 0x00, 0, .nosupport⟩, ⟨0x00c, 0x00, 0, .cortexm⟩, ⟨0x00d, 0x00, 0, .nosupport⟩,
    ⟨0x00e, 0x00, 0, .nosupport⟩, ⟨0x101, 0x00, 0, .nosupport⟩, ⟨0x471, 0x00, 0, .nosupport⟩,
    ⟨0x490, 0x00, 0, .nosupport⟩, ⟨0x4c0, 0x00, 0, .nosupport⟩, ⟨0x4c3, 0x00, 0, .nosupport⟩,
    ⟨0x4c4, 0x00, 0, .nosupport⟩, ⟨0x4c7, 0x00, 0, .nosupport⟩, ⟨0x4c8, 0x00, 0, .nosupport⟩,
    ⟨0x906, 0x14, 0, .nosupport⟩, ⟨0x907, 0x21, 0, .nosupport⟩, ⟨0x908, 0x12, 0, .nosupport⟩,
    ⟨0x910, 0x00, 0, .nosupport⟩, ⟨0x912, 0x11, 0, .nosupport⟩, ⟨0x913, 0x00, 0, .nosupport⟩,
    ⟨0x914, 0x11, 0, .nosupport⟩, ⟨0x917, 0x00, 0, .nosupport⟩, ⟨0x920, 0x00, 0, .nosupport⟩,
    ⟨0x921, 0x00, 0, .nosupport⟩, ⟨0x922, 0x00, 0, .nosupport⟩, ⟨0x923, 0x11, 0, .nosupport⟩,
    ⟨0x924, 0x13, 0, .nosupport⟩, ⟨0x925, 0x13, 0, .nosupport⟩, ⟨0x930, 0x00, 0, .nosupport⟩,
    ⟨0x932, 0x31, 0x0a31, .nosupport⟩, ⟨0x941, 0x00, 0, .nosupport⟩, ⟨0x950, 0x00, 0, .nosupport⟩,
    ⟨0x955, 0x00, 0, .nosupport⟩, ⟨0x956, 0x13, 0, .nosupport⟩, ⟨0x95f, 0x00, 0, .nosupport⟩,
    ⟨0x961, 0x32, 0, .nosupport⟩, ⟨0x962, 0x00, 0, .nosupport⟩, ⟨0x963, 0x63, 0x0a63, .nosupport⟩,
    ⟨0x975, 0x13, 0x4a13, .nosupport⟩, ⟨0x9a0, 0x00, 0, .nosupport⟩, ⟨0x9a1, 0x11, 0, .nosupport⟩,
    ⟨0x9a9, 0x11, 0, .nosupport⟩, ⟨0x9a5, 0x00, 0, .nosupport⟩, ⟨0x9a7, 0x16, 0, .nosupport⟩,
    ⟨0x9af, 0x00, 0, .nosupport⟩, ⟨0xc05, 0x00, 0, .cortexa⟩, ⟨0xc07, 0x15, 0, .cortexa⟩,
    ⟨0xc08, 0x00, 0, .cortexa⟩, ⟨0xc09, 0x00, 0, .cortexa⟩, ⟨0xc0f, 0x00, 0, .nosupport⟩,
    ⟨0xc14, 0x00, 0, .nosupport⟩, ⟨0xcd0, 0x00, 0, .nosupport⟩, ⟨0xd20, 0x00, 0x2a04, .cortexm⟩,
    ⟨0xd20, 0x11, 0, .nosupport⟩, ⟨0xd20, 0x13, 0, .nosupport⟩, ⟨0xd20, 0x31, 0x0a31, .nosupport⟩,
    ⟨0xd20, 0x00, 0x1a02, .nosupport⟩, ⟨0xd20, 0x00, 0x1a03, .nosupport⟩,
    ⟨0xd20, 0x14, 0x1a14, .nosupport⟩, ⟨0xd21, 0x00, 0x2a04, .cortexm⟩,
    ⟨0xd21, 0x31, 0x0a31, .nosupport⟩, ⟨0xd21, 0x43, 0x1a01, .nosupport⟩,
    ⟨0xd21, 0x00, 0x1a02, .nosupport⟩, ⟨0xd21, 0x00, 0x1a03, .nosupport⟩,
    ⟨0xd21, 0x14, 0x1a14, .nosupport⟩, ⟨0xd21, 0x13, 0x4a13, .nosupport⟩,
    ⟨0xd21, 0x11, 0, .nosupport⟩]

/-- What the reads of a target return. -/
structure TargetMemory where
  word : UInt32 → UInt32
  fails : UInt32 → Bool
  stale : UInt32 → UInt32

namespace TargetMemory

/-- `adiv5_mem_read32`, and whether an error is pending behind it. -/
def read32 (M : TargetMemory) (addr : UInt32) (pending : Bool) : UInt32 × Bool :=
  if pending || M.fails addr then (M.stale addr, true) else (M.word addr, false)

/-- `adiv5_ap_read_id`. -/
def readId (M : TargetMemory) (addr : UInt32) (pending : Bool) : UInt32 × Bool :=
  let (x0, pending) := M.read32 addr pending
  let (x1, pending) := M.read32 (addr + 4) pending
  let (x2, pending) := M.read32 (addr + 8) pending
  let (x3, pending) := M.read32 (addr + 12) pending
  let byte (x : UInt32) : UInt32 := x &&& 0xFF
  (byte x0 ||| byte x1 <<< 8 ||| byte x2 <<< 16 ||| byte x3 <<< 24, pending)

/-- `adiv5_ap_read_pidr`. -/
def readPidr (M : TargetMemory) (addr : UInt32) (pending : Bool) : UInt64 × Bool :=
  let (high, pending) := M.readId (addr + pidr4Offset) pending
  let (low, pending) := M.readId (addr + pidr0Offset) pending
  (high.toUInt64 <<< 32 ||| low.toUInt64, pending)

end TargetMemory

/-! ## The function -/

inductive Component where
  | none
  | romTable
  /-- The probe for a protected SAMx5x, at the first table. -/
  | protectedCore
  | cortexm
  | cortexa
  deriving DecidableEq

/-- Is a core probed for it? -/
def Component.isCore : Component → Bool
  | .protectedCore | .cortexm | .cortexa => true
  | .none | .romTable => false

/-- `DEVTYPE` and the architecture in `DEVARCH`. -/
def readDevice (M : TargetMemory) (addr : UInt32) (pending : Bool) : UInt32 × UInt32 :=
  let (devType, pending) := M.read32 (addr + devtypeOffset) pending
  let (devarch, _) := M.read32 (addr + devarchOffset) pending
  (devType &&& 0xFF, if devarch &&& devarchPresent ≠ 0 then devarch &&& devarchArchidMask else 0)

/-- What a component is, at the address of its page. `first` is `recursion == 0`. -/
def identify (M : TargetMemory) (first : Bool) (addr : UInt32) (pending : Bool) : Component :=
  if addr = 0 then .none
  else
    let (cidr, pending) := M.readId (addr + cidr0Offset) pending
    if pending then .none
    else if cidr &&& ~~~cidClassMask ≠ cidPreamble then .none
    else
      let (pidr, pending) := M.readPidr addr pending
      let cidClass := (cidr &&& cidClassMask) >>> 12
      if cidClass = cidcRomtab then
        let designer := pidr >>> 24 &&& (0xF00 : UInt64) ||| pidr >>> 12 &&& (0x7F : UInt64)
        let partno := pidr &&& (0xFFF : UInt64)
        if first ∧ designer = apDesignerAtmel ∧ partno = 0xCD0 ∧
            (M.read32 samx5xDsuCtrlstat pending).1 &&& samx5xStatusbProt ≠ 0 then .protectedCore
        else .romTable
      else if pidr &&& ~~~(pidrRevMask ||| pidrPnMask) ≠ pidrArmBits then .none
      else
        let (devType, archId) := if cidClass = cidcDc then readDevice M addr pending else (0, 0)
        match pidrPnBits.find? fun b =>
          b.partNumber == pidr &&& pidrPnMask && b.devType == devType && b.archId == archId with
        | some ⟨_, _, _, .cortexm⟩ => .cortexm
        | some ⟨_, _, _, .cortexa⟩ => .cortexa
        | _ => .none

/-- A call of `adiv5_component_probe`. -/
structure Visit where
  recursion : Nat
  numEntry : Nat
  addr : UInt32
  found : Component
  deriving DecidableEq

/-- The loop over the entries from `i` on, `n` of them. The error of a read of the walk below is
cleared before the next one. -/
def probeEntries (M : TargetMemory) (probe : Nat → UInt32 → Option (List Visit)) (addr : UInt32) :
    Nat → Nat → Option (List Visit)
  | 0, _ => some []
  | n + 1, i =>
    let (entry, error) := M.read32 (addr + UInt32.ofNat i * 4) false
    if error then some []
    else if entry = 0 then some []
    else if entry &&& romRomentryPresent = 0 then probeEntries M probe addr n (i + 1)
    else do
      -- Probe recursively
      let below ← probe i (addr + (entry &&& romRomentryOffset))
      let rest ← probeEntries M probe addr n (i + 1)
      return below ++ rest

/-- `adiv5_component_probe`: the calls, in order. `pending` is an error from before the call. -/
def componentProbe (M : TargetMemory) : Nat → Nat → Nat → UInt32 → Bool → Option (List Visit)
  | 0, _, _, _, _ => none
  | fuel + 1, recursion, numEntry, addr, pending =>
    let addr := addr &&& pageMask
    let found := identify M (recursion == 0) addr pending
    if found = .romTable then do
      let below ← probeEntries M
        (fun i entry => componentProbe M fuel (recursion + 1) i entry false) addr 960 0
      return ⟨recursion, numEntry, addr, found⟩ :: below
    else some [⟨recursion, numEntry, addr, found⟩]

/-! ## The graph of the components -/

/-- A component that is entered, at its page. -/
@[ext]
structure Entered where
  first : Bool
  addr : UInt32
  aligned : addr &&& pageMask = addr

def Entered.at (first : Bool) (addr : UInt32) : Entered :=
  ⟨first, addr &&& pageMask, by rw [UInt32.and_assoc, UInt32.and_self]⟩

def Entered.component (M : TargetMemory) (c : Entered) : Component := identify M c.first c.addr false

/-- The entries of a table that are present, up to the first one that is zero or cannot be read. -/
def tableEntries (M : TargetMemory) (addr : UInt32) : Nat → Nat → List (Nat × UInt32)
  | 0, _ => []
  | n + 1, i =>
    let (entry, error) := M.read32 (addr + UInt32.ofNat i * 4) false
    if error then []
    else if entry = 0 then []
    else if entry &&& romRomentryPresent = 0 then tableEntries M addr n (i + 1)
    else (i, addr + (entry &&& romRomentryOffset)) :: tableEntries M addr n (i + 1)

/-- The components that a component leads to. -/
def entriesOf (M : TargetMemory) (c : Entered) : List (Nat × Entered) :=
  if c.component M = .romTable then
    (tableEntries M c.addr 960 0).map fun e => (e.1, Entered.at false e.2)
  else []

/-- The pages of an address space, once for the first call and once for the others. -/
@[irreducible]
def components : Nat := 2 ^ 21

/-- A number of calls for a depth below `components`, with 960 entries to every table. -/
def maxVisits : Nat := 961 ^ components

/-- The walk ends, with a depth and a number of calls that do not depend on the target, and probes
no core twice. -/
def WalkEnds (M : TargetMemory) (base : UInt32) (pending : Bool) : Prop :=
  ∃ fuel visits, componentProbe M fuel 0 0 base pending = some visits ∧
    (∀ v ∈ visits, v.recursion < components) ∧ visits.length ≤ maxVisits ∧
    ((visits.filter fun v => v.found.isCore).map Visit.addr).Nodup

/-- No two ways through the entries lead to one core. -/
def EnteredOnce (M : TargetMemory) (a : Entered) : Prop :=
  ∀ p q b c, (b.component M).isCore = true → (c.component M).isCore = true → b.addr = c.addr →
    Path (entriesOf M) a p b → Path (entriesOf M) a q c → p = q

/-! ## The function is a walk -/

/-- The visit at the end of a path. -/
def visitAt (M : TargetMemory) (recursion numEntry : Nat) (v : List Nat × Entered) : Visit :=
  ⟨recursion + v.1.length, v.1.getLastD numEntry, v.2.addr, v.2.component M⟩

theorem probeEntries_gather (M : TargetMemory) (probe : Nat → UInt32 → Option (List Visit))
    (addr : UInt32) (n i : Nat) :
    probeEntries M probe addr n i =
      gather (fun e => probe e.1 e.2) (tableEntries M addr n i) := by
  induction n generalizing i with
  | zero => rfl
  | succ n ih =>
    unfold probeEntries tableEntries
    generalize M.read32 (addr + UInt32.ofNat i * 4) false = read
    obtain ⟨entry, error⟩ := read
    dsimp only
    cases error with
    | true => rfl
    | false =>
      rw [if_neg Bool.false_ne_true, if_neg Bool.false_ne_true]
      by_cases hzero : entry = 0
      · rw [if_pos hzero, if_pos hzero]
        rfl
      · rw [if_neg hzero, if_neg hzero]
        by_cases habsent : entry &&& romRomentryPresent = 0
        · rw [if_pos habsent, if_pos habsent, ih]
        · rw [if_neg habsent, if_neg habsent, ih]
          rfl

theorem visitAt_below (M : TargetMemory) (recursion numEntry i : Nat) (v : List Nat × Entered) :
    visitAt M recursion numEntry (below i v) = visitAt M (recursion + 1) i v := by
  unfold visitAt below
  rw [List.length_cons, List.getLastD_cons, Nat.add_right_comm, Nat.add_assoc recursion]

theorem componentProbe_walk (M : TargetMemory) (fuel recursion numEntry : Nat) (addr : UInt32) :
    componentProbe M fuel recursion numEntry addr false =
      (walk (entriesOf M) fuel (Entered.at (recursion == 0) addr)).map
        (List.map (visitAt M recursion numEntry)) := by
  induction fuel generalizing recursion numEntry addr with
  | zero => rfl
  | succ fuel ih =>
    rw [componentProbe, walk]
    by_cases htable : identify M (recursion == 0) (addr &&& pageMask) false = .romTable
    · have hentries : entriesOf M (Entered.at (recursion == 0) addr) =
          (tableEntries M (addr &&& pageMask) 960 0).map fun e => (e.1, Entered.at false e.2) :=
        if_pos htable
      rw [if_pos htable, hentries, probeEntries_gather, gather_of_map, Option.map_map]
      have hcalls : (fun e : Nat × UInt32 =>
          componentProbe M fuel (recursion + 1) e.1 e.2 false) =
            fun e => ((walk (entriesOf M) fuel (Entered.at false e.2)).map
              (List.map (below e.1))).map (List.map (visitAt M recursion numEntry)) := by
        funext e
        have hmaps : List.map (visitAt M recursion numEntry) ∘ List.map (below e.1) =
            List.map (visitAt M (recursion + 1) e.1) := by
          rw [List.map_comp_map]
          exact congrArg List.map (funext (visitAt_below M recursion numEntry e.1))
        rw [ih, Option.map_map, hmaps]
        rfl
      rw [hcalls, ← gather_map]
      cases gather (fun e : Nat × UInt32 => (walk (entriesOf M) fuel (Entered.at false e.2)).map
          (List.map (below e.1))) (tableEntries M (addr &&& pageMask) 960 0) with
      | none => rfl
      | some below => rfl
    · have hentries : entriesOf M (Entered.at (recursion == 0) addr) = [] := if_neg htable
      rw [if_neg htable, hentries]
      rfl

/-! ## The graph is finite -/

theorem tableEntries_label_le {M : TargetMemory} {addr : UInt32} {n i : Nat} :
    ∀ k ∈ (tableEntries M addr n i).map Prod.fst, i ≤ k := by
  induction n generalizing i with
  | zero => exact nofun
  | succ n ih =>
    have hlater : ∀ k ∈ (tableEntries M addr n (i + 1)).map Prod.fst, i ≤ k :=
      fun k hk => Nat.le_of_succ_le (ih k hk)
    unfold tableEntries
    generalize M.read32 (addr + UInt32.ofNat i * 4) false = read
    obtain ⟨entry, error⟩ := read
    dsimp only
    split
    · exact nofun
    · split
      · exact nofun
      · split
        · exact hlater
        · exact List.forall_mem_cons.mpr ⟨Nat.le_refl i, hlater⟩

theorem tableEntries_labels (M : TargetMemory) (addr : UInt32) (n i : Nat) :
    ((tableEntries M addr n i).map Prod.fst).Nodup ∧ (tableEntries M addr n i).length ≤ n := by
  induction n generalizing i with
  | zero => exact ⟨List.nodup_nil, Nat.le_refl 0⟩
  | succ n ih =>
    obtain ⟨hnodup, hlen⟩ := ih (i + 1)
    have hlater : i ∉ (tableEntries M addr n (i + 1)).map Prod.fst :=
      fun hmem => absurd (tableEntries_label_le i hmem) (Nat.not_succ_le_self i)
    unfold tableEntries
    generalize M.read32 (addr + UInt32.ofNat i * 4) false = read
    obtain ⟨entry, error⟩ := read
    dsimp only
    split
    · exact ⟨List.nodup_nil, Nat.zero_le _⟩
    · split
      · exact ⟨List.nodup_nil, Nat.zero_le _⟩
      · split
        · exact ⟨hnodup, Nat.le_succ_of_le hlen⟩
        · exact ⟨List.nodup_cons.mpr ⟨hlater, hnodup⟩, Nat.succ_le_succ hlen⟩

/-- The entries of a component have different numbers, and there are at most 960. -/
theorem entriesOf_labels (M : TargetMemory) (c : Entered) :
    ((entriesOf M c).map Prod.fst).Nodup ∧ (entriesOf M c).length ≤ 960 := by
  unfold entriesOf
  by_cases htable : c.component M = .romTable
  · obtain ⟨hnodup, hlen⟩ := tableEntries_labels M c.addr 960 0
    rw [if_pos htable, List.map_map, List.length_map]
    exact ⟨hnodup, hlen⟩
  · rw [if_neg htable]
    exact ⟨List.nodup_nil, Nat.zero_le _⟩

theorem aligned_mod {addr : UInt32} (h : addr &&& pageMask = addr) : addr.toNat % 4096 = 0 := by
  have hlow : addr &&& 0xFFF = 0 := by
    rw [← h, UInt32.and_assoc]
    exact UInt32.and_zero
  have hnat := congrArg UInt32.toNat hlow
  rw [UInt32.toNat_and] at hnat
  exact (Nat.and_two_pow_sub_one_eq_mod addr.toNat 12).symm.trans hnat

/-- A number for every component that can be entered. -/
def Entered.number (c : Entered) : Nat :=
  c.addr.toNat / 4096 + if c.first then 2 ^ 20 else 0

theorem Entered.number_lt (c : Entered) : c.number < components := by
  have := c.addr.toNat_lt
  unfold Entered.number components
  cases c.first with
  | true =>
    rw [if_pos rfl]
    omega
  | false =>
    rw [if_neg Bool.false_ne_true]
    omega

theorem Entered.number_injective : Function.Injective Entered.number := by
  rintro ⟨first, addr, haligned⟩ ⟨first', addr', haligned'⟩ h
  have hmod := aligned_mod haligned
  have hmod' := aligned_mod haligned'
  have hlt := addr.toNat_lt
  have hlt' := addr'.toNat_lt
  have hboth : addr.toNat = addr'.toNat ∧ first = first' := by
    unfold Entered.number at h
    cases first with
    | true =>
      cases first' with
      | true =>
        dsimp only at h
        exact ⟨by omega, rfl⟩
      | false =>
        dsimp only at h
        rw [if_pos rfl, if_neg Bool.false_ne_true] at h
        omega
    | false =>
      cases first' with
      | true =>
        dsimp only at h
        rw [if_pos rfl, if_neg Bool.false_ne_true] at h
        omega
      | false =>
        dsimp only at h
        exact ⟨by omega, rfl⟩
  exact Entered.ext hboth.2 (UInt32.toNat_inj.mp hboth.1)

/-! ## The end of the walk -/

/-- The cores among the visits. -/
theorem cores_map (M : TargetMemory) (l : List (List Nat × Entered)) :
    ((l.map (visitAt M 0 0)).filter fun v => v.found.isCore).map Visit.addr =
      (l.filter fun v => (v.2.component M).isCore).map fun v => v.2.addr := by
  rw [List.filter_map, List.map_map]
  rfl

theorem walkEnds_of_none (M : TargetMemory) (base : UInt32) :
    WalkEnds M base false ↔ Acyclic (entriesOf M) (Entered.at true base) ∧
      EnteredOnce M (Entered.at true base) := by
  have hlabels : ∀ c, ((entriesOf M c).map Prod.fst).Nodup := fun c => (entriesOf_labels M c).1
  have hwalk : ∀ fuel, componentProbe M fuel 0 0 base false =
      (walk (entriesOf M) fuel (Entered.at true base)).map (List.map (visitAt M 0 0)) :=
    fun fuel => componentProbe_walk M fuel 0 0 base
  have hcores := fun {fuel} => @nodup_marked_iff Nat Entered (entriesOf M) UInt32
    (fun c => (c.component M).isCore) Entered.addr hlabels fuel (Entered.at true base)
  constructor
  · rintro ⟨fuel, visits, hrun, -, -, honce⟩
    obtain ⟨l, hl, rfl⟩ := Option.map_eq_some_iff.mp ((hwalk fuel).symm.trans hrun)
    obtain ⟨hshort, rfl⟩ := walk_eq_some.mp hl
    rw [cores_map] at honce
    exact ⟨acyclic_of_walk hl, (hcores hshort).mp honce⟩
  · rintro ⟨hacyclic, honce⟩
    obtain ⟨hl, hshort⟩ :=
      walk_of_acyclic Entered.number_injective Entered.number_lt hacyclic
    refine ⟨components, _, (hwalk components).trans (congrArg _ hl), fun v hv => ?_, ?_, ?_⟩
    · obtain ⟨⟨p, c⟩, hmem, rfl⟩ := List.mem_map.mp hv
      have hlen := (mem_tree.mp hmem).2
      show 0 + p.length < components
      rwa [Nat.zero_add]
    · rw [List.length_map]
      exact length_tree_le (fun c => (entriesOf_labels M c).2) components _
    · rw [cores_map]
      exact (hcores hshort).mpr honce

/-- With an error pending the first read fails, and nothing is found. -/
theorem identify_pending (M : TargetMemory) (first : Bool) (addr : UInt32) :
    identify M first addr true = .none := by
  unfold identify
  by_cases hzero : addr = 0
  · exact if_pos hzero
  · exact if_neg hzero

/-- A ROM table whose first entry is at the offset zero. -/
def selfTable : TargetMemory where
  word a :=
    if a = 0xE00FFFF0 then 0x0D
    else if a = 0xE00FFFF4 then 0x10
    else if a = 0xE00FFFF8 then 0x05
    else if a = 0xE00FFFFC then 0xB1
    else if a = 0xE00FF000 then 0x3
    else 0
  fails _ := false
  stale _ := 0

theorem selfTable_entries (first : Bool) :
    entriesOf selfTable (Entered.at first 0xE00FF000) = [(0, Entered.at false 0xE00FF000)] := by
  cases first <;> exact (if_pos (by decide)).trans rfl

end MiyakoLink.Adiv5.RomTable
