import MiyakoLink.CortexA.Accesses
import MiyakoLink.Lib.Guarded
import MiyakoLink.Lib.UndoStack

/-!
# Software breakpoints restore memory

`Intact` is what the breakpoints promise: the bytes of each are its instruction, and when none is
left memory is what it was. The operations keep it under `Safe`: a breakpoint that is set has,
for each that is active, either the same place and size or no byte in common with it, and what a
failed operation has stored was there before.
-/

namespace MiyakoLink.CortexA

open Lib Change
open CortexM (BreakwatchType)

/-- The bytes of the instruction of a software breakpoint. -/
def instruction (size : UInt32) : List UInt8 :=
  leBytes (if size = 2 then 0xBE00 else 0xE1200070) size.toNat

structure Intact (orig : UInt32 → UInt8) (t : BreakTarget) : Prop where
  active : ∀ bw ∈ t.bwList, bw.type = .breakSoft →
    readBytes t.mem bw.addr bw.size.toNat = instruction bw.size
  restored : (∀ bw ∈ t.bwList, bw.type ≠ .breakSoft) → t.mem = orig

inductive Op where
  | set (type : BreakwatchType) (addr size : UInt32) (heap : Bool)
  | clear (type : BreakwatchType) (addr size : UInt32)

/-- The target after an operation. -/
def step (t : BreakTarget) : Op × Bus → BreakTarget
  | (.set type addr size heap, bus) => (targetBreakwatchSet bus t type addr size heap).2
  | (.clear type addr size, bus) => (targetBreakwatchClear bus t type addr size).2

/-- The same place and size, or no byte in common. -/
def Breakwatch.Fits (bw : Breakwatch) (addr size : UInt32) : Prop :=
  bw.addr = addr ∧ bw.size = size ∨ bw.size ≤ addr - bw.addr ∧ size ≤ bw.addr - addr

instance (bw : Breakwatch) (addr size : UInt32) : Decidable (bw.Fits addr size) :=
  inferInstanceAs (Decidable (_ ∨ _))

/-- Storing some of these bytes changes nothing. -/
def Kept (bus : Bus) (t : BreakTarget) (addr : UInt32) (bytes : List UInt8) : Prop :=
  readBytes t.mem addr (stored bus addr bytes.length) =
    bytes.take (stored bus addr bytes.length)

/-- A new software breakpoint: the accesses to memory and the allocation of its entry succeed. -/
def Succeeds (bus : Bus) (t : BreakTarget) (addr size : UInt32) (heap : Bool) : Prop :=
  t.mmuFault = false ∧ loadAborts bus addr size.toNat = false ∧
    stored bus addr size.toNat = size.toNat ∧ heap = true

instance (bus : Bus) (t : BreakTarget) (addr size : UInt32) (heap : Bool) :
    Decidable (Succeeds bus t addr size heap) := inferInstanceAs (Decidable (_ ∧ _))

/-- The condition on an operation and the state before it. -/
def Safe (t : BreakTarget) : Op × Bus → Prop
  | (.set .breakSoft addr size heap, bus) => size = 2 ∨ size = 4 →
    (Succeeds bus t addr size heap →
      ∀ bw ∈ t.bwList, bw.type = .breakSoft → bw.Fits addr size) ∧
    (¬Succeeds bus t addr size heap → Kept bus t addr (instruction size))
  | (.clear .breakSoft addr size, bus) => ∀ bw,
    t.bwList.find? (Breakwatch.isFor .breakSoft addr size) = some bw →
      t.mmuFault = false ∧ stored bus addr size.toNat = size.toNat ∨
      Kept bus t addr (leBytes bw.reserved size.toNat)
  | _ => True

variable {bus : Bus} {t : BreakTarget} {orig : UInt32 → UInt8} {addr size : UInt32}

@[simp] theorem instruction_length (size : UInt32) : (instruction size).length = size.toNat :=
  leBytes_length _ _

/-! ## The invariant -/

/-- What a breakpoint has changed of memory. -/
def change (bw : Breakwatch) : Change UInt32 UInt8 where
  new := if bw.type = .breakSoft then bytesAt bw.addr (instruction bw.size) else fun _ => none
  old := if bw.type = .breakSoft then bytesAt bw.addr (leBytes bw.reserved bw.size.toNat)
    else fun _ => none
  same := by
    intro a
    split
    · simp [bytesAt]
    · rfl

/-- Undoing the breakpoints, the newest one first, restores memory; two of them are the same or
have no byte in common. -/
structure Inv (orig : UInt32 → UInt8) (t : BreakTarget) : Prop where
  stacked : Stacked orig (t.bwList.map change) t.mem
  fits : t.bwList.Pairwise fun bw bw' =>
    bw.type = .breakSoft → bw'.type = .breakSoft → bw'.Fits bw.addr bw.size

variable {bw bw' : Breakwatch}

theorem change_new (h : bw.type = .breakSoft) :
    (change bw).new = bytesAt bw.addr (instruction bw.size) := if_pos h

theorem change_old (h : bw.type = .breakSoft) :
    (change bw).old = bytesAt bw.addr (leBytes bw.reserved bw.size.toNat) := if_pos h

theorem change_new_of_ne (h : bw.type ≠ .breakSoft) (a : UInt32) : (change bw).new a = none := by
  have hnew : (change bw).new = fun _ => none := if_neg h
  rw [hnew]

/-- Ranges of which neither begins inside of the other have no address in common. -/
theorem outside_of_separate {a b x s r : UInt32} (hab : s ≤ b - a) (hba : r ≤ a - b) :
    s.toNat ≤ (x - a).toNat ∨ r.toNat ≤ (x - b).toNat := by
  rw [UInt32.le_iff_toNat_le, UInt32.toNat_sub] at hab hba
  rw [UInt32.toNat_sub, UInt32.toNat_sub]
  have ha := a.toNat_lt
  have hb := b.toNat_lt
  have hx := x.toNat_lt
  omega

theorem change_apart (hsep : bw.size ≤ bw'.addr - bw.addr ∧ bw'.size ≤ bw.addr - bw'.addr) :
    (change bw).Apart (change bw') := by
  intro a
  by_cases hsoft : bw.type = .breakSoft
  · by_cases hsoft' : bw'.type = .breakSoft
    · rw [change_new hsoft, change_new hsoft']
      rcases outside_of_separate (x := a) hsep.1 hsep.2 with h | h
      · exact Or.inl (List.getElem?_eq_none (by rw [instruction_length]; exact h))
      · exact Or.inr (List.getElem?_eq_none (by rw [instruction_length]; exact h))
    · exact Or.inr (change_new_of_ne hsoft' a)
  · exact Or.inl (change_new_of_ne hsoft a)

/-- Breakpoints that fit are apart or alike. -/
theorem change_fits (h : bw.type = .breakSoft → bw'.type = .breakSoft → bw'.Fits bw.addr bw.size) :
    (change bw').Apart (change bw) ∨ (change bw').new = (change bw).new := by
  by_cases hsoft : bw.type = .breakSoft
  · by_cases hsoft' : bw'.type = .breakSoft
    · rcases h hsoft hsoft' with ⟨haddr, hsize⟩ | hsep
      · right
        rw [change_new hsoft, change_new hsoft', haddr, hsize]
      · exact Or.inl (change_apart hsep)
    · exact Or.inl fun a => Or.inl (change_new_of_ne hsoft' a)
  · exact Or.inl fun a => Or.inr (change_new_of_ne hsoft a)

theorem readBytes_of_holds {mem : UInt32 → UInt8} (hsoft : bw.type = .breakSoft)
    (h : (change bw).Holds mem) : readBytes mem bw.addr bw.size.toNat = instruction bw.size := by
  apply List.ext_getElem
  · rw [readBytes_length, instruction_length]
  · intro k hk hk'
    rw [readBytes_length] at hk
    have hsize := bw.size.toNat_lt
    simp only [readBytes, List.getElem_map, List.getElem_range]
    apply h
    rw [change_new hsoft, bytesAt, add_sub_toNat (by omega), List.getElem?_eq_getElem hk']

theorem Inv.intact (h : Inv orig t) : Intact orig t := by
  have hpair : (t.bwList.map change).Pairwise fun c d => d.Apart c ∨ d.new = c.new := by
    rw [List.pairwise_map]
    exact h.fits.imp change_fits
  refine ⟨fun bw hbw hsoft => ?_, fun hnone => ?_⟩
  · exact readBytes_of_holds hsoft (h.stacked.holds hpair _ (List.mem_map_of_mem hbw))
  · apply h.stacked.eq_orig
    intro c hc a
    obtain ⟨bw, hbw, rfl⟩ := List.mem_map.mp hc
    exact change_new_of_ne (hnone bw hbw) a

/-- A target without a software breakpoint. -/
theorem Inv.of_none (h : ∀ bw ∈ t.bwList, bw.type ≠ .breakSoft) : Inv t.mem t := by
  refine ⟨Stacked.of_unchanged ?_, ?_⟩
  · intro c hc a
    obtain ⟨bw, hbw, rfl⟩ := List.mem_map.mp hc
    exact change_new_of_ne (h bw hbw) a
  · exact List.pairwise_of_forall_mem_list fun bw hbw _ _ hsoft => absurd hsoft (h bw hbw)

/-- The invariant is about memory and the list only. -/
theorem Inv.congr {t' : BreakTarget} (h : Inv orig t) (hmem : t'.mem = t.mem)
    (hlist : t'.bwList = t.bwList) : Inv orig t' := by
  constructor
  · rw [hmem, hlist]
    exact h.stacked
  · rw [hlist]
    exact h.fits

/-- What a failed operation has stored was there before. -/
theorem overlay_kept {bytes : List UInt8} (h : Kept bus t addr bytes) :
    overlay t.mem addr (bytes.take (stored bus addr bytes.length)) = t.mem := by
  rw [← h]
  exact overlay_readBytes_self _ _ _

/-! ## Setting -/

/-- A new breakpoint whose instruction was stored, with the bytes it was stored over. -/
theorem Inv.push (h : Inv orig t) (bw : Breakwatch) (hsoft : bw.type = .breakSoft)
    (hkept : leBytes bw.reserved bw.size.toNat = readBytes t.mem bw.addr bw.size.toNat)
    (hfits : ∀ bw' ∈ t.bwList, bw'.type = .breakSoft → bw'.Fits bw.addr bw.size) :
    Inv orig { t with
      mem := overlay t.mem bw.addr (instruction bw.size)
      mmuFault := false
      bwList := bw :: t.bwList } := by
  constructor
  · show Stacked orig (change bw :: t.bwList.map change) (put (bytesAt bw.addr _) t.mem)
    rw [← change_new hsoft]
    apply h.stacked.push
    intro a ha
    rw [change_new hsoft, bytesAt, Ne, List.getElem?_eq_none_iff, instruction_length] at ha
    rw [change_old hsoft, hkept]
    exact bytesAt_readBytes _ (by omega)
  · exact List.pairwise_cons.mpr ⟨fun bw' hbw' _ hsoft' => hfits bw' hbw' hsoft', h.fits⟩

/-- The driver's function for a software breakpoint. -/
theorem cortexaBreakwatchSet_soft (hsoft : bw.type = .breakSoft)
    (hsize : bw.size = 2 ∨ bw.size = 4) : cortexaBreakwatchSet bus t bw =
      setSoft bus t bw bw.size.toNat (if bw.size = 2 then 0xBE00 else 0xE1200070) := by
  unfold cortexaBreakwatchSet
  rw [hsoft]
  rcases hsize with hsize | hsize
  · rw [hsize]
    rfl
  · rw [hsize]
    rfl

theorem size_le {size : UInt32} (h : size = 2 ∨ size = 4) : size.toNat ≤ 4 := by
  rcases h with rfl | rfl
  · decide
  · decide

theorem vaToPa_frame (bus : Bus) (t : BreakTarget) (va : UInt32) :
    (vaToPa bus t va).2.mem = t.mem ∧ (vaToPa bus t va).2.bwList = t.bwList := by
  unfold vaToPa
  dsimp only
  split
  · exact ⟨rfl, rfl⟩
  · exact ⟨rfl, rfl⟩

/-- Anything else that is set does not touch memory, and is refused if it is a software
breakpoint. -/
theorem cortexaBreakwatchSet_other (bus : Bus) (t : BreakTarget) (bw : Breakwatch)
    (h : bw.type = .breakSoft → ¬(bw.size = 2 ∨ bw.size = 4)) :
    (cortexaBreakwatchSet bus t bw).2.1.mem = t.mem ∧
      (cortexaBreakwatchSet bus t bw).2.1.bwList = t.bwList ∧
      ((cortexaBreakwatchSet bus t bw).1 = 0 →
        (cortexaBreakwatchSet bus t bw).2.2.type ≠ .breakSoft) := by
  unfold cortexaBreakwatchSet
  cases htype : bw.type with
  | breakSoft =>
    have hsize := h htype
    dsimp only
    rw [if_neg fun h2 => hsize (Or.inl h2), if_neg fun h4 => hsize (Or.inr h4)]
    exact ⟨rfl, rfl, nofun⟩
  | breakHard =>
    dsimp only
    split
    · exact ⟨rfl, rfl, nofun⟩
    · split
      · exact ⟨rfl, rfl, nofun⟩
      · rename_i i _
        obtain ⟨hmem, hlist⟩ := vaToPa_frame bus
          { t with hwBreakpointMask := t.hwBreakpointMask ||| UInt16.ofNat (1 <<< i) } bw.addr
        refine ⟨?_, ?_, fun _ => nofun⟩
        · split
          · exact hmem
          · exact hmem
        · split
          · exact hlist
          · exact hlist
  | watchWrite => exact ⟨rfl, rfl, nofun⟩
  | watchRead => exact ⟨rfl, rfl, nofun⟩
  | watchAccess => exact ⟨rfl, rfl, nofun⟩

/-- An entry that is not a software breakpoint. -/
theorem Inv.push_other (h : Inv orig t) (hsoft : bw.type ≠ .breakSoft) :
    Inv orig { t with bwList := bw :: t.bwList } := by
  have hnone := change_new_of_ne hsoft
  refine ⟨⟨fun a v hv => ?_, ?_⟩, ?_⟩
  · rw [hnone a] at hv
    contradiction
  · rw [put_old_of_nothing hnone]
    exact h.stacked
  · exact List.pairwise_cons.mpr ⟨fun _ _ hsoft' => absurd hsoft' hsoft, h.fits⟩

theorem Inv.setOther (h : Inv orig t) {type : BreakwatchType} {heap : Bool}
    (hother : type = .breakSoft → ¬(size = 2 ∨ size = 4)) :
    Inv orig (targetBreakwatchSet bus t type addr size heap).2 := by
  obtain ⟨hmem, hlist, htype⟩ :=
    cortexaBreakwatchSet_other bus t ⟨type, addr, size, 0⟩ hother
  have hinv := h.congr hmem hlist
  unfold targetBreakwatchSet
  dsimp only
  split
  · rename_i hret
    split
    · exact hinv.push_other (htype hret)
    · exact hinv
  · exact hinv

/-- A software breakpoint that is set, with the bytes it keeps. -/
theorem targetBreakwatchSet_ok {heap : Bool} (hsize : size = 2 ∨ size = 4)
    (hok : Succeeds bus t addr size heap) :
    ∃ v, targetBreakwatchSet bus t .breakSoft addr size heap = (0, { t with
        mem := overlay t.mem addr (instruction size)
        mmuFault := false
        bwList := ⟨.breakSoft, addr, size, v⟩ :: t.bwList }) ∧
      leBytes v size.toNat = readBytes t.mem addr size.toNat := by
  obtain ⟨hfault, hload, hstored, hheap⟩ := hok
  obtain ⟨v, hset, hv⟩ := setSoft_eq bus t (size_le hsize)
    ⟨.breakSoft, addr, size, 0⟩ (if size = 2 then 0xBE00 else 0xE1200070)
  refine ⟨v, ?_, hv hload⟩
  have hdriver : t.mmuFault = false ∧ loadAborts bus addr size.toNat = false ∧
      stored bus addr size.toNat = size.toNat := ⟨hfault, hload, hstored⟩
  unfold targetBreakwatchSet
  rw [cortexaBreakwatchSet_soft rfl hsize, hset]
  dsimp only
  rw [if_pos hdriver, if_pos rfl, if_pos hheap, hstored,
    List.take_of_length_le (Nat.le_of_eq (leBytes_length _ _))]
  rfl

/-- A failed one leaves memory as it was, if it is what was stored. -/
theorem targetBreakwatchSet_fails {heap : Bool} (hsize : size = 2 ∨ size = 4)
    (hok : ¬Succeeds bus t addr size heap) (hkept : Kept bus t addr (instruction size)) :
    (targetBreakwatchSet bus t .breakSoft addr size heap).2 = { t with mmuFault := false } := by
  obtain ⟨v, hset, -⟩ := setSoft_eq bus t (size_le hsize)
    ⟨.breakSoft, addr, size, 0⟩ (if size = 2 then 0xBE00 else 0xE1200070)
  have hmem := overlay_kept hkept
  rw [instruction_length] at hmem
  unfold targetBreakwatchSet
  rw [cortexaBreakwatchSet_soft rfl hsize, hset]
  dsimp only
  rw [show leBytes (if size = 2 then 0xBE00 else 0xE1200070) size.toNat = instruction size from rfl,
    hmem]
  split
  · rename_i hret
    have hheap : ¬heap = true := by
      intro hheap
      have hdriver : t.mmuFault = false ∧ loadAborts bus addr size.toNat = false ∧
          stored bus addr size.toNat = size.toNat := by simpa using hret
      exact hok ⟨hdriver.1, hdriver.2.1, hdriver.2.2, hheap⟩
    rw [if_pos rfl, if_neg hheap]
  · rfl

theorem Inv.setSoft (h : Inv orig t) {heap : Bool} (hsize : size = 2 ∨ size = 4)
    (hsafe : Safe t (.set .breakSoft addr size heap, bus)) :
    Inv orig (targetBreakwatchSet bus t .breakSoft addr size heap).2 := by
  obtain ⟨hfits, hfail⟩ := hsafe hsize
  by_cases hok : Succeeds bus t addr size heap
  · obtain ⟨v, hset, hv⟩ := targetBreakwatchSet_ok hsize hok
    rw [hset]
    exact h.push ⟨.breakSoft, addr, size, v⟩ rfl hv (hfits hok)
  · rw [targetBreakwatchSet_fails hsize hok (hfail hok)]
    exact h.congr rfl rfl

/-- Two instructions of which one begins inside of the other differ in a byte. -/
theorem instruction_clash {s r : UInt32} (hs : s = 2 ∨ s = 4) (hr : r = 2 ∨ r = 4) {d : Nat}
    (hd : d < s.toNat) (h : ∀ k < 4, k < r.toNat → d + k < s.toNat →
      (instruction s)[d + k]? = (instruction r)[k]?) : d = 0 ∧ s = r := by
  have hbytes : ∀ d : Fin 4, d.val < s.toNat → (∀ k : Fin 4, k.val < r.toNat →
      d.val + k.val < s.toNat → (instruction s)[d.val + k.val]? = (instruction r)[k.val]?) →
        d.val = 0 ∧ s = r := by
    rcases hs with rfl | rfl <;> rcases hr with rfl | rfl <;> decide
  exact hbytes ⟨d, Nat.lt_of_lt_of_le hd (size_le hs)⟩ hd fun k => h k k.isLt

theorem same_of_inside {mem : UInt32 → UInt8} {a b s r : UInt32} (hs : s = 2 ∨ s = 4)
    (hr : r = 2 ∨ r = 4) (ha : readBytes mem a s.toNat = instruction s)
    (hb : readBytes mem b r.toNat = instruction r) (hinside : b - a < s) : a = b ∧ s = r := by
  have hd := UInt32.lt_iff_toNat_lt.mp hinside
  have hb' : b = a + UInt32.ofNat (b - a).toNat := by
    rw [UInt32.ofNat_toNat, UInt32.add_comm, UInt32.sub_add_cancel]
  have hclash := instruction_clash hs hr hd (by
    intro k _ hk hdk
    rw [← ha, ← hb, readBytes, readBytes, List.getElem?_map, List.getElem?_map,
      List.getElem?_range hk, List.getElem?_range hdk, Option.map_some, Option.map_some,
      UInt32.ofNat_add, ← UInt32.add_assoc, ← hb'])
  refine ⟨?_, hclash.2⟩
  rw [hb', hclash.1]
  exact (UInt32.add_zero a).symm

/-- A breakpoint that is set over part of another one destroys an instruction. -/
theorem overlap_not_intact {heap : Bool} (hbw : bw ∈ t.bwList) (hsoft : bw.type = .breakSoft)
    (hvalid : bw.size = 2 ∨ bw.size = 4) (hsize : size = 2 ∨ size = 4)
    (hok : Succeeds bus t addr size heap) (hover : ¬ bw.Fits addr size) :
    ¬ Intact orig (targetBreakwatchSet bus t .breakSoft addr size heap).2 := by
  obtain ⟨v, hset, -⟩ := targetBreakwatchSet_ok hsize hok
  rw [hset]
  intro hintact
  have hnew := hintact.active _ List.mem_cons_self rfl
  have hold := hintact.active bw (List.mem_cons_of_mem _ hbw) hsoft
  apply hover
  by_cases hinside : addr - bw.addr < bw.size
  · exact Or.inl (same_of_inside hvalid hsize hold hnew hinside)
  · by_cases hinside' : bw.addr - addr < size
    · obtain ⟨haddr, hsize'⟩ := same_of_inside hsize hvalid hnew hold hinside'
      exact Or.inl ⟨haddr.symm, hsize'.symm⟩
    · exact Or.inr ⟨UInt32.not_lt.mp hinside, UInt32.not_lt.mp hinside'⟩

/-! ## Clearing -/

theorem isFor_iff {type : BreakwatchType} :
    Breakwatch.isFor type addr size bw = true ↔
      bw.type = type ∧ bw.addr = addr ∧ bw.size = size := decide_eq_true_iff

/-- An entry that fits with another one is the same or apart from it. -/
theorem change_apart_of_fits
    (h : bw.type = .breakSoft → bw'.type = .breakSoft → bw'.Fits bw.addr bw.size)
    (hne : ¬ Breakwatch.isFor bw'.type bw'.addr bw'.size bw = true) :
    (change bw).Apart (change bw') := by
  by_cases hsoft : bw.type = .breakSoft
  · by_cases hsoft' : bw'.type = .breakSoft
    · rcases h hsoft hsoft' with ⟨haddr, hsize⟩ | hsep
      · exact absurd (isFor_iff.mpr ⟨hsoft.trans hsoft'.symm, haddr.symm, hsize.symm⟩) hne
      · exact change_apart hsep.symm
    · exact fun a => Or.inr (change_new_of_ne hsoft' a)
  · exact fun a => Or.inl (change_new_of_ne hsoft a)

/-- An entry is taken out that is the first for its place, and its bytes are restored. -/
theorem Inv.remove (h : Inv orig t) {type : BreakwatchType}
    (hfind : t.bwList.find? (Breakwatch.isFor type addr size) = some bw) (t' : BreakTarget)
    (hmem : t'.mem = put (change bw).old t.mem) (hsame : t'.bwList = t.bwList) :
    Inv orig { t' with bwList := t'.bwList.eraseP (Breakwatch.isFor type addr size) } := by
  obtain ⟨hbw, l₁, l₂, hlist, hl₁⟩ := List.find?_eq_some_iff_append.mp hfind
  have hnot : ∀ d ∈ l₁, ¬ Breakwatch.isFor type addr size d = true := by simpa using hl₁
  obtain ⟨rfl, rfl, rfl⟩ := isFor_iff.mp hbw
  have hfits := h.fits
  have hstacked := h.stacked
  rw [hlist] at hfits hstacked
  constructor
  · show Stacked orig ((t'.bwList.eraseP _).map change) t'.mem
    rw [hmem, hsame, hlist, List.eraseP_append_right _ hnot, List.eraseP_cons_of_pos hbw, List.map_append]
    rw [List.map_append, List.map_cons] at hstacked
    apply hstacked.remove
    intro c hc
    obtain ⟨d, hd, rfl⟩ := List.mem_map.mp hc
    have hpair := (List.pairwise_append.mp hfits).2.2 d hd bw List.mem_cons_self
    exact change_apart_of_fits hpair (hnot d hd)
  · show (t'.bwList.eraseP _).Pairwise _
    rw [hsame]
    exact h.fits.sublist List.eraseP_sublist

theorem cortexaBreakwatchClear_soft (hsoft : bw.type = .breakSoft) :
    cortexaBreakwatchClear bus t bw = if bw.size = 2 ∨ bw.size = 4
      then clearSoft bus t bw bw.size.toNat else (-1, t) := by
  unfold cortexaBreakwatchClear
  rw [hsoft]
  dsimp only
  by_cases h2 : bw.size = 2
  · rw [if_pos h2, if_pos (Or.inl h2), h2]
    rfl
  · by_cases h4 : bw.size = 4
    · rw [if_neg h2, if_pos h4, if_pos (Or.inr h4), h4]
      rfl
    · rw [if_neg h2, if_neg h4, if_neg (not_or.mpr ⟨h2, h4⟩)]

/-- Clearing anything else does not touch memory. -/
theorem cortexaBreakwatchClear_other (bus : Bus) (t : BreakTarget) (h : bw.type ≠ .breakSoft) :
    (cortexaBreakwatchClear bus t bw).2.mem = t.mem ∧
      (cortexaBreakwatchClear bus t bw).2.bwList = t.bwList := by
  unfold cortexaBreakwatchClear
  cases htype : bw.type with
  | breakSoft => exact absurd htype h
  | breakHard =>
    dsimp only
    split
    · exact ⟨rfl, rfl⟩
    · exact ⟨rfl, rfl⟩
  | watchWrite => exact ⟨rfl, rfl⟩
  | watchRead => exact ⟨rfl, rfl⟩
  | watchAccess => exact ⟨rfl, rfl⟩

theorem Inv.clear (h : Inv orig t) {type : BreakwatchType}
    (hsafe : Safe t (.clear type addr size, bus)) :
    Inv orig (targetBreakwatchClear bus t type addr size).2 := by
  unfold targetBreakwatchClear
  cases hfind : t.bwList.find? (Breakwatch.isFor type addr size) with
  | none => exact h
  | some bw =>
    obtain ⟨rfl, rfl, rfl⟩ := isFor_iff.mp (List.find?_some hfind)
    dsimp only
    by_cases hsoft : bw.type = .breakSoft
    · rw [cortexaBreakwatchClear_soft hsoft]
      by_cases hvalid : bw.size = 2 ∨ bw.size = 4
      · rw [if_pos hvalid, clearSoft_eq (size_le hvalid)]
        dsimp only
        by_cases hok : t.mmuFault = false ∧ stored bus bw.addr bw.size.toNat = bw.size.toNat
        · rw [if_pos hok, if_pos rfl, hok.2,
            List.take_of_length_le (Nat.le_of_eq (leBytes_length _ _))]
          refine h.remove hfind { t with
            mem := overlay t.mem bw.addr (leBytes bw.reserved bw.size.toNat)
            mmuFault := false } ?_ rfl
          rw [change_old hsoft]
          rfl
        · rw [if_neg hok, if_neg (by decide)]
          rw [hsoft] at hsafe hfind
          have hkept := overlay_kept ((hsafe bw hfind).resolve_left hok)
          rw [leBytes_length] at hkept
          exact h.congr hkept rfl
      · rw [if_neg hvalid]
        exact h
    · obtain ⟨hmem, hlist⟩ := cortexaBreakwatchClear_other bus t hsoft
      split
      · refine h.remove hfind _ ?_ hlist
        rw [hmem, put_old_of_nothing (change_new_of_ne hsoft)]
      · exact h.congr hmem hlist

/-! ## Runs -/

theorem Inv.step (h : Inv orig t) {op : Op × Bus} (hsafe : Safe t op) :
    Inv orig (step t op) := by
  match op, hsafe with
  | (.set type addr size heap, bus), hsafe =>
    by_cases hother : type = .breakSoft → ¬(size = 2 ∨ size = 4)
    · exact h.setOther hother
    · rw [Classical.not_imp, not_not] at hother
      obtain ⟨rfl, hsize⟩ := hother
      exact h.setSoft hsize hsafe
  | (.clear type addr size, bus), hsafe => exact h.clear hsafe

/-- In a run whose operations are safe, the bytes of every breakpoint that is active are its
instruction, and memory is restored when none is left. -/
theorem breakpoints_intact {t : BreakTarget} {ops : List (Op × Bus)}
    (hnone : ∀ bw ∈ t.bwList, bw.type ≠ .breakSoft) (hsafe : Guarded step Safe t ops) :
    Intact t.mem (ops.foldl step t) :=
  (hsafe.invariant (fun _ _ h hsafe => h.step hsafe) (Inv.of_none hnone)).intact

/-- A memory system without aborts. -/
def quiet : Bus := ⟨fun _ _ => false, fun _ => false, fun _ => 0, id⟩

def blank : BreakTarget := ⟨fun _ => 0, fun _ => 0, fun _ => 0, 6, 0, 0, 0, false, []⟩

/-- Two breakpoints side by side, the first one set twice. -/
theorem breakpoints_intact_beside : Intact blank.mem
    (List.foldl step blank [(.set .breakSoft 0x1000 4 true, quiet),
      (.set .breakSoft 0x1000 4 true, quiet), (.set .breakSoft 0x1004 2 true, quiet),
      (.clear .breakSoft 0x1000 4, quiet)]) := by
  apply breakpoints_intact fun _ hbw => absurd hbw List.not_mem_nil
  refine ⟨fun _ => ⟨fun _ _ hbw => absurd hbw List.not_mem_nil, fun h => absurd (by decide) h⟩,
    fun _ => ⟨fun _ bw hbw _ => ?_, fun h => absurd (by decide) h⟩,
    fun _ => ⟨fun _ bw hbw _ => ?_, fun h => absurd (by decide) h⟩,
    fun _ _ => Or.inl (by decide), trivial⟩
  · revert bw
    decide +kernel
  · revert bw
    decide +kernel

/-- A breakpoint of four bytes, one of two bytes inside of it, and both cleared, the first one
first. -/
theorem nested_not_restored : ¬ ∀ (t : BreakTarget) (ops : List (Op × Bus)),
    (∀ bw ∈ t.bwList, bw.type ≠ .breakSoft) → Intact t.mem (ops.foldl step t) := by
  intro h
  have hintact := h blank [(.set .breakSoft 0x1000 4 true, quiet),
    (.set .breakSoft 0x1000 2 true, quiet), (.clear .breakSoft 0x1000 4, quiet),
    (.clear .breakSoft 0x1000 2, quiet)] fun _ hbw => absurd hbw List.not_mem_nil
  have hempty : (List.foldl step blank [(.set .breakSoft 0x1000 4 true, quiet),
      (.set .breakSoft 0x1000 2 true, quiet), (.clear .breakSoft 0x1000 4, quiet),
      (.clear .breakSoft 0x1000 2, quiet)]).bwList = [] := by decide +kernel
  have hmem := congrFun (hintact.restored fun bw hbw => by
    rw [hempty] at hbw
    contradiction) 0x1000
  exact absurd hmem (by decide +kernel)

end MiyakoLink.CortexA
