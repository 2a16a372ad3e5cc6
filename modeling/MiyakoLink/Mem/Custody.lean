import Mathlib.Data.List.Nodup
import Mathlib.Data.List.Perm.Basic
import MiyakoLink.Mem.Manager

/-!
# Where the items are

A system is the allocator together with the blocks that are handed out. Its steps are the calls
of `MemManager_Alloc` and `MemManager_Free` and the writes of the owners to their blocks.
`Custody` is what every step keeps: the items of a pool are those in its queue and those handed
out, in some order, and their headers hold the buffer size of the pool.
-/

namespace MiyakoLink.Mem

open Lib
open scoped List

/-- A block that is handed out: its item and the requested size. -/
structure Block where
  item : Nat
  size : Nat
  deriving DecidableEq

/-- The pointer that `MemManager_Alloc` returned. -/
def Block.ptr (b : Block) : Nat := b.item + dataOffset

structure System where
  manager : Manager
  live : List Block

/-- Allocate, free a block once (or NULL), write a byte of a block. -/
inductive Op where
  | alloc (size : Nat)
  | free (pBuffer : Nat)
  | write (pBuffer offset : Nat) (value : UInt8)

/-- `MemManager_Alloc` in a task. -/
def alloc (size : Nat) (s : System) : System :=
  match memManagerAlloc false size s.manager with
  | (none, m) => { s with manager := m }
  | (some data, m) => ⟨m, ⟨data - dataOffset, size⟩ :: s.live⟩

/-- `MemManager_Free` in a task. -/
def free (pBuffer : Nat) (s : System) : System :=
  ⟨memManagerFree false pBuffer s.manager, s.live.eraseP (·.ptr == pBuffer)⟩

/-- A step, or `none` when the block is not one that is handed out. -/
def step (s : System) : Op → Option System
  | .alloc size => some (alloc size s)
  | .free pBuffer =>
    if pBuffer = 0 ∨ ∃ b ∈ s.live, b.ptr = pBuffer then some (free pBuffer s) else none
  | .write pBuffer offset value =>
    if ∃ b ∈ s.live, b.ptr = pBuffer ∧ offset < b.size then
      some { s with manager.mem := s.manager.mem.writeByte (pBuffer + offset) value }
    else none

def run (s : System) : List Op → Option System
  | [] => some s
  | op :: ops => (step s op).bind fun s => run s ops

/-- The areas that `pvPortMalloc` returned do not overlap. -/
def DisjointAreas (area : Nat → Nat → Nat) : Prop :=
  ∀ i j c i' j' c', poolConfig[i]? = some c → poolConfig[i']? = some c' → j < c.2 → j' < c'.2 →
    (i, j) ≠ (i', j') →
      area i j + itemSize c.1 ≤ area i' j' ∨ area i' j' + itemSize c'.1 ≤ area i j

/-- The items that `MemManager_Init` allocates for a pool. -/
def items (area : Nat → Nat → Nat) (i : Nat) (p : Pool) : List Nat :=
  (List.range p.bufCount).map (area i)

/-- The items among `all` that are handed out. -/
def handedOut (live : List Block) (all : List Nat) : List Nat :=
  (live.map Block.item).filter (· ∈ all)

structure Custody (area : Nat → Nat → Nat) (s : System) : Prop where
  config : s.manager.pools.map (fun p => (p.bufSize, p.bufCount)) = poolConfig
  capacity : ∀ p ∈ s.manager.pools, p.queue.capacity = p.bufCount
  custody : ∀ i p, s.manager.pools[i]? = some p →
    p.queue.items ++ handedOut s.live (items area i p) ~ items area i p
  header : ∀ i p, s.manager.pools[i]? = some p →
    ∀ a ∈ items area i p, s.manager.mem.readWord a = p.bufSize
  live : ∀ b ∈ s.live, ∃ i p, s.manager.pools[i]? = some p ∧ b.item ∈ items area i p ∧
    b.size ≤ p.bufSize

variable {area : Nat → Nat → Nat} {s s' : System}

/-! ## The items are apart -/

theorem Custody.poolConfig_getElem (h : Custody area s) {i : Nat} {p : Pool}
    (hp : s.manager.pools[i]? = some p) : poolConfig[i]? = some (p.bufSize, p.bufCount) := by
  rw [← h.config, List.getElem?_map, hp]
  rfl

/-- The buffer sizes are different, so they identify the pool. -/
theorem Custody.index_unique (h : Custody area s) {i i' : Nat} {p p' : Pool}
    (hp : s.manager.pools[i]? = some p) (hp' : s.manager.pools[i']? = some p')
    (hsize : p.bufSize = p'.bufSize) : i = i' := by
  have hnodup : (poolConfig.map Prod.fst).Nodup := by decide
  have hc : (poolConfig.map Prod.fst)[i]? = some p.bufSize := by
    rw [List.getElem?_map, h.poolConfig_getElem hp]
    rfl
  have hc' : (poolConfig.map Prod.fst)[i']? = some p.bufSize := by
    rw [List.getElem?_map, h.poolConfig_getElem hp', hsize]
    rfl
  exact (List.getElem?_inj (List.getElem?_eq_some_iff.mp hc).1 hnodup).mp (hc.trans hc'.symm)

theorem Custody.bufSize_pos (h : Custody area s) {i : Nat} {p : Pool}
    (hp : s.manager.pools[i]? = some p) : 0 < p.bufSize := by
  have hpos : ∀ c ∈ poolConfig, 0 < c.1 := by decide
  exact hpos _ (List.mem_of_getElem? (h.poolConfig_getElem hp))

/-- Different items do not overlap, whatever pools they are of. -/
theorem Custody.apart (h : Custody area s) (harea : DisjointAreas area) {i i' a a' : Nat}
    {p p' : Pool} (hp : s.manager.pools[i]? = some p) (hp' : s.manager.pools[i']? = some p')
    (ha : a ∈ items area i p) (ha' : a' ∈ items area i' p') (hne : a ≠ a') :
    a + itemSize p.bufSize ≤ a' ∨ a' + itemSize p'.bufSize ≤ a := by
  obtain ⟨j, hj, rfl⟩ := List.mem_map.mp ha
  obtain ⟨j', hj', rfl⟩ := List.mem_map.mp ha'
  refine harea i j _ i' j' _ (h.poolConfig_getElem hp) (h.poolConfig_getElem hp')
    (List.mem_range.mp hj) (List.mem_range.mp hj') ?_
  rintro ⟨⟩
  exact hne rfl

/-- An item belongs to one pool. -/
theorem Custody.pool_unique (h : Custody area s) (harea : DisjointAreas area) {i i' a : Nat}
    {p p' : Pool} (hp : s.manager.pools[i]? = some p) (hp' : s.manager.pools[i']? = some p')
    (ha : a ∈ items area i p) (ha' : a ∈ items area i' p') : i = i' := by
  obtain ⟨j, hj, hja⟩ := List.mem_map.mp ha
  obtain ⟨j', hj', hja'⟩ := List.mem_map.mp ha'
  by_contra hne
  have hapart := harea i j _ i' j' _ (h.poolConfig_getElem hp) (h.poolConfig_getElem hp')
    (List.mem_range.mp hj) (List.mem_range.mp hj') (by rintro ⟨⟩; exact hne rfl)
  unfold itemSize at hapart
  omega

theorem Custody.items_nodup (h : Custody area s) (harea : DisjointAreas area) {i : Nat}
    {p : Pool} (hp : s.manager.pools[i]? = some p) : (items area i p).Nodup := by
  apply List.Nodup.map_on _ List.nodup_range
  intro j hj j' hj' heq
  by_contra hne
  have hapart := harea i j _ i j' _ (h.poolConfig_getElem hp) (h.poolConfig_getElem hp)
    (List.mem_range.mp hj) (List.mem_range.mp hj') (by rintro ⟨⟩; exact hne rfl)
  unfold itemSize at hapart
  omega

/-! ## One queue changes -/

theorem receiveFrom_some {size pItem : Nat} {pools pools' : List Pool}
    (h : receiveFrom size pools = some (pItem, pools')) :
    ∃ i p queue, pools[i]? = some p ∧ size ≤ p.bufSize ∧ p.queue.receive = some (pItem, queue) ∧
      pools' = pools.set i { p with queue := queue } := by
  induction pools generalizing pools' with
  | nil => contradiction
  | cons p pools ih =>
    rw [receiveFrom] at h
    split at h
    case isTrue hsize =>
      obtain ⟨⟨a, queue⟩, hreceive, heq⟩ := Option.map_eq_some_iff.mp h
      cases heq
      exact ⟨0, p, queue, rfl, hsize, hreceive, rfl⟩
    case isFalse =>
      obtain ⟨⟨a, pools₁⟩, hrest, heq⟩ := Option.map_eq_some_iff.mp h
      cases heq
      obtain ⟨i, p', queue, hp', hsize, hreceive, rfl⟩ := ih hrest
      exact ⟨i + 1, p', queue, hp', hsize, hreceive, rfl⟩

theorem sendTo_eq {pItem i : Nat} {p : Pool} {pools : List Pool} (hp : pools[i]? = some p)
    (hunique : ∀ i' p', pools[i']? = some p' → p.bufSize = p'.bufSize → i = i') :
    sendTo p.bufSize pItem pools =
      pools.set i { p with queue := (p.queue.sendToFront pItem).2 } := by
  induction pools generalizing i with
  | nil => contradiction
  | cons p₀ pools ih =>
    rw [sendTo]
    split
    case isTrue hsize =>
      obtain rfl := hunique 0 p₀ rfl hsize
      cases hp
      rfl
    case isFalse hsize =>
      cases i with
      | zero =>
        cases hp
        exact absurd rfl hsize
      | succ i =>
        rw [ih hp fun i' p' hp' heq => Nat.succ_inj.mp (hunique (i' + 1) p' hp' heq)]
        rfl

/-- The allocator with another queue for pool `i`, and other blocks handed out. What is left to
show is where the items of the pools are now. -/
theorem Custody.setQueue (h : Custody area s) {i : Nat} {p : Pool} {queue : Deque Nat}
    {mem : Memory} {live : List Block} (hp : s.manager.pools[i]? = some p)
    (hcapacity : queue.capacity = p.queue.capacity)
    (hmem : ∀ i p, s.manager.pools[i]? = some p → ∀ a ∈ items area i p,
      mem.readWord a = s.manager.mem.readWord a)
    (hqueue : queue.items ++ handedOut live (items area i p) ~ items area i p)
    (hother : ∀ i' p', s.manager.pools[i']? = some p' → i' ≠ i →
      handedOut live (items area i' p') = handedOut s.live (items area i' p'))
    (hlive : ∀ b ∈ live, ∃ i p, s.manager.pools[i]? = some p ∧ b.item ∈ items area i p ∧
      b.size ≤ p.bufSize) :
    Custody area ⟨⟨s.manager.pools.set i { p with queue := queue }, mem⟩, live⟩ := by
  have hlt : i < s.manager.pools.length := (List.getElem?_eq_some_iff.mp hp).1
  -- A pool of the new list has the sizes of the pool that was there.
  have hget : ∀ i' p', (s.manager.pools.set i { p with queue := queue })[i']? = some p' →
      (i' = i ∧ p' = { p with queue := queue }) ∨ (i' ≠ i ∧ s.manager.pools[i']? = some p') := by
    intro i' p' hp'
    by_cases heq : i' = i
    · subst heq
      rw [List.getElem?_set_self hlt] at hp'
      exact .inl ⟨rfl, (Option.some.inj hp').symm⟩
    · rw [List.getElem?_set_ne (Ne.symm heq)] at hp'
      exact .inr ⟨heq, hp'⟩
  constructor
  case config =>
    rw [← h.config]
    apply List.ext_getElem?
    intro i'
    rw [List.getElem?_map, List.getElem?_map]
    by_cases heq : i' = i
    · rw [heq, List.getElem?_set_self hlt, hp]
      rfl
    · rw [List.getElem?_set_ne (Ne.symm heq)]
  case capacity =>
    intro p' hp'
    rcases List.mem_or_eq_of_mem_set hp' with hmem' | rfl
    · exact h.capacity p' hmem'
    · exact hcapacity.trans (h.capacity p (List.mem_of_getElem? hp))
  case custody =>
    intro i' p' hp'
    rcases hget i' p' hp' with ⟨rfl, rfl⟩ | ⟨hne, hp'⟩
    · exact hqueue
    · show p'.queue.items ++ handedOut live (items area i' p') ~ items area i' p'
      rw [hother i' p' hp' hne]
      exact h.custody i' p' hp'
  case header =>
    intro i' p' hp' a ha
    rcases hget i' p' hp' with ⟨rfl, rfl⟩ | ⟨hne, hp'⟩
    · exact (hmem _ p hp a ha).trans (h.header _ p hp a ha)
    · exact (hmem i' p' hp' a ha).trans (h.header i' p' hp' a ha)
  case live =>
    intro b hb
    obtain ⟨i', p', hp', hitem, hsize⟩ := hlive b hb
    by_cases heq : i' = i
    · subst heq
      obtain rfl := Option.some.inj (hp.symm.trans hp')
      exact ⟨i', _, List.getElem?_set_self hlt, hitem, hsize⟩
    · exact ⟨i', p', (List.getElem?_set_ne (Ne.symm heq)).trans hp', hitem, hsize⟩

/-! ## What the calls do -/

theorem handedOut_cons_of_mem {b : Block} {live : List Block} {all : List Nat}
    (h : b.item ∈ all) : handedOut (b :: live) all = b.item :: handedOut live all :=
  List.filter_cons_of_pos (decide_eq_true h)

theorem handedOut_cons_of_notMem {b : Block} {live : List Block} {all : List Nat}
    (h : b.item ∉ all) : handedOut (b :: live) all = handedOut live all :=
  List.filter_cons_of_neg (by simpa using h)

theorem handedOut_perm {live live' : List Block} (h : live ~ live') (all : List Nat) :
    handedOut live all ~ handedOut live' all := (h.map Block.item).filter _

/-- A call of `MemManager_Alloc` in a task: nothing, or the front item of a pool whose buffers
are large enough, with its payload zeroed. -/
theorem Custody.alloc_cases (h : Custody area s) (size : Nat) :
    memManagerAlloc false size s.manager = (none, s.manager) ∨
    ∃ i p queue pItem, s.manager.pools[i]? = some p ∧ size ≤ p.bufSize ∧
      p.queue.items = pItem :: queue.items ∧ queue.capacity = p.queue.capacity ∧
      pItem ∈ items area i p ∧
      memManagerAlloc false size s.manager = (some (pItem + dataOffset),
        ⟨s.manager.pools.set i { p with queue := queue },
          s.manager.mem.fill (pItem + dataOffset) 0 p.bufSize⟩) := by
  unfold memManagerAlloc
  rw [if_neg Bool.false_ne_true]
  cases hreceive : receiveFrom size s.manager.pools with
  | none => exact .inl rfl
  | some r =>
    obtain ⟨pItem, pools⟩ := r
    obtain ⟨i, p, queue, hp, hsize, hfront, rfl⟩ := receiveFrom_some hreceive
    obtain ⟨hitems, hcapacity⟩ := Deque.receive_some hfront
    have hitem : pItem ∈ items area i p := by
      apply (h.custody i p hp).mem_iff.mp
      rw [hitems]
      exact List.mem_cons_self
    refine .inr ⟨i, p, queue, pItem, hp, hsize, hitems, hcapacity, hitem, ?_⟩
    dsimp only
    rw [h.header i p hp pItem hitem]

/-- The payload of an item is behind its header and in front of the next item. -/
theorem Custody.header_apart (h : Custody area s) (harea : DisjointAreas area) {i i' a a' : Nat}
    {p p' : Pool} (hp : s.manager.pools[i]? = some p) (hp' : s.manager.pools[i']? = some p')
    (ha : a ∈ items area i p) (ha' : a' ∈ items area i' p') :
    a' + 4 ≤ a + dataOffset ∨ a + dataOffset + p.bufSize ≤ a' := by
  by_cases heq : a = a'
  · subst heq
    exact .inl (Nat.le_refl _)
  have hapart := h.apart harea hp hp' ha ha' heq
  have hpos := h.bufSize_pos hp
  unfold itemSize at hapart
  simp only [dataOffset]
  omega

theorem Custody.alloc (h : Custody area s) (harea : DisjointAreas area) (size : Nat) :
    Custody area (alloc size s) := by
  unfold Mem.alloc
  rcases h.alloc_cases size with hnone | ⟨i, p, queue, pItem, hp, hsize, hfront, hcapacity,
    hitem, hsome⟩
  · rw [hnone]
    exact h
  rw [hsome]
  dsimp only
  rw [Nat.add_sub_cancel]
  apply h.setQueue hp hcapacity
  · intro i' p' hp' a ha
    have hapart := h.header_apart harea hp hp' hitem ha
    apply Memory.readWord_congr
    intro x hx hx'
    exact Memory.fill_of_disjoint (by omega)
  · rw [handedOut_cons_of_mem hitem]
    refine List.perm_middle.trans ?_
    have hcustody := h.custody i p hp
    rw [hfront] at hcustody
    exact hcustody
  · intro i' p' hp' hne
    apply handedOut_cons_of_notMem
    intro ha
    exact hne (h.pool_unique harea hp' hp ha hitem)
  · intro b hb
    rcases List.mem_cons.mp hb with rfl | hb
    · exact ⟨i, p, hp, hitem, hsize⟩
    · exact h.live b hb

/-- A call of `MemManager_Free` in a task, for a block that is handed out: its item goes to the
front of the queue of its pool, which has room for it. -/
theorem Custody.free_eq (h : Custody area s) {b : Block} (hb : b ∈ s.live) :
    ∃ i p, s.manager.pools[i]? = some p ∧ b.item ∈ items area i p ∧
      p.queue.items.length < p.queue.capacity ∧
      memManagerFree false b.ptr s.manager = ⟨s.manager.pools.set i
        { p with queue := (p.queue.sendToFront b.item).2 }, s.manager.mem⟩ := by
  obtain ⟨i, p, hp, hitem, -⟩ := h.live b hb
  refine ⟨i, p, hp, hitem, ?_, ?_⟩
  · have hlength := (h.custody i p hp).length_eq
    have hhanded : b.item ∈ handedOut s.live (items area i p) :=
      List.mem_filter.mpr ⟨List.mem_map_of_mem hb, decide_eq_true hitem⟩
    have hpos := List.length_pos_of_mem hhanded
    rw [List.length_append, items, List.length_map, List.length_range] at hlength
    rw [h.capacity p (List.mem_of_getElem? hp)]
    unfold items at hpos
    omega
  · have hne : ¬ (false = true ∨ b.ptr = 0) := by
      simp [Block.ptr]
    unfold memManagerFree
    rw [if_neg hne]
    have hptr : b.ptr - dataOffset = b.item := Nat.add_sub_cancel _ _
    dsimp only
    rw [hptr, h.header i p hp b.item hitem,
      sendTo_eq hp fun i' p' hp' hsize => h.index_unique hp hp' hsize]

theorem Custody.free (h : Custody area s) (harea : DisjointAreas area) {b : Block}
    (hb : b ∈ s.live) : Custody area (free b.ptr s) := by
  -- The block that is taken off the list is the first one with this pointer.
  obtain ⟨b', l₁, l₂, -, hptr, hsplit, herase⟩ :=
    List.exists_of_eraseP (p := fun x : Block => x.ptr == b.ptr) hb (beq_self_eq_true b.ptr)
  have hptr' : b'.ptr = b.ptr := beq_iff_eq.mp hptr
  have hperm : s.live ~ b' :: (l₁ ++ l₂) := by
    rw [hsplit]
    exact List.perm_middle
  have hb' : b' ∈ s.live := hperm.mem_iff.mpr List.mem_cons_self
  obtain ⟨i, p, hp, hitem, hroom, hfree⟩ := h.free_eq hb'
  unfold Mem.free
  rw [← hptr', hfree, hptr', herase]
  apply h.setQueue hp (Deque.sendToFront_capacity _ _)
  · intro i' p' hp' a ha
    rfl
  · rw [Deque.sendToFront_room hroom]
    have hhanded := (handedOut_perm hperm (items area i p)).trans
      (List.Perm.of_eq (handedOut_cons_of_mem hitem))
    calc b'.item :: p.queue.items ++ handedOut (l₁ ++ l₂) (items area i p)
      _ ~ p.queue.items ++ b'.item :: handedOut (l₁ ++ l₂) (items area i p) :=
        List.perm_middle.symm
      _ ~ p.queue.items ++ handedOut s.live (items area i p) := hhanded.symm.append_left _
      _ ~ items area i p := h.custody i p hp
  · intro i' p' hp' hne
    have hnot : b'.item ∉ items area i' p' := fun ha => hne (h.pool_unique harea hp' hp ha hitem)
    rw [hsplit]
    unfold handedOut
    rw [List.map_append, List.map_append, List.map_cons, List.filter_append, List.filter_append,
      List.filter_cons_of_neg (by simpa using hnot)]
  · intro c hc
    apply h.live c
    rw [hsplit]
    rcases List.mem_append.mp hc with hc | hc
    · exact List.mem_append_left _ hc
    · exact List.mem_append_right _ (List.mem_cons_of_mem _ hc)

/-- Freeing NULL does nothing. -/
theorem free_null (s : System) : free 0 s = s := by
  unfold Mem.free memManagerFree
  rw [if_pos (.inr rfl), List.eraseP_of_forall_not]
  intro b _
  simp [Block.ptr]

/-- A byte written to a block that is handed out is behind the headers of all items. -/
theorem Custody.write (h : Custody area s) (harea : DisjointAreas area) {b : Block}
    (hb : b ∈ s.live) {offset : Nat} (hoffset : offset < b.size) (value : UInt8) :
    Custody area { s with manager.mem := s.manager.mem.writeByte (b.ptr + offset) value } := by
  obtain ⟨i, p, hp, hitem, hsize⟩ := h.live b hb
  refine ⟨h.config, h.capacity, h.custody, ?_, h.live⟩
  intro i' p' hp' a ha
  refine (Memory.readWord_congr ?_).trans (h.header i' p' hp' a ha)
  intro x hx hx'
  have hapart := h.header_apart harea hp hp' hitem ha
  apply if_neg
  unfold Block.ptr
  omega

theorem Custody.step (h : Custody area s) (harea : DisjointAreas area) {op : Op}
    (hstep : step s op = some s') : Custody area s' := by
  cases op with
  | alloc size =>
    cases hstep
    exact h.alloc harea size
  | free pBuffer =>
    rw [Mem.step] at hstep
    split at hstep
    case isTrue hlive =>
      cases hstep
      rcases hlive with rfl | ⟨b, hb, rfl⟩
      · rw [free_null]
        exact h
      · exact h.free harea hb
    case isFalse => contradiction
  | write pBuffer offset value =>
    rw [Mem.step] at hstep
    split at hstep
    case isTrue hlive =>
      cases hstep
      obtain ⟨b, hb, rfl, hoffset⟩ := hlive
      exact h.write harea hb hoffset value
    case isFalse => contradiction

theorem Custody.run (h : Custody area s) (harea : DisjointAreas area) {ops : List Op}
    (hrun : run s ops = some s') : Custody area s' := by
  induction ops generalizing s with
  | nil =>
    cases hrun
    exact h
  | cons op ops ih =>
    obtain ⟨s₁, hstep, hrest⟩ := Option.bind_eq_some_iff.mp hrun
    exact ih (h.step harea hstep) hrest

end MiyakoLink.Mem
