import MiyakoLink.Mem.Custody

/-!
# Runs of the pool allocator

`memManagerInit` puts all items to their queues, so that `Custody` holds from then on. `Sound`
spells out what it means for a state: every item is in one place, the blocks that are handed
out lie inside of their items and do not overlap, and a state with no block handed out has the
free items that `MemManager_Init` made.
-/

namespace MiyakoLink.Mem

open Lib
open scoped List

/-! ## `MemManager_Init` -/

section
variable (area : Nat → Nat) (bufSize bufCount : Nat) (mem : Memory)

/-- The inner loop after `n` turns. -/
def initTurns (n : Nat) : Memory × Deque Nat :=
  (List.range n).foldl
    (fun s j => (s.1.writeWord (area j) bufSize, (s.2.sendToFront (area j)).2))
    (mem, Deque.create bufCount)

theorem initTurns_succ (n : Nat) : initTurns area bufSize bufCount mem (n + 1) =
    ((initTurns area bufSize bufCount mem n).1.writeWord (area n) bufSize,
      ((initTurns area bufSize bufCount mem n).2.sendToFront (area n)).2) := by
  unfold initTurns
  rw [List.range_succ, List.foldl_append]
  rfl

theorem initTurns_queue {n : Nat} (h : n ≤ bufCount) :
    (initTurns area bufSize bufCount mem n).2.items = ((List.range n).map area).reverse ∧
      (initTurns area bufSize bufCount mem n).2.capacity = bufCount := by
  induction n with
  | zero => exact ⟨rfl, rfl⟩
  | succ n ih =>
    obtain ⟨hitems, hcapacity⟩ := ih (by omega)
    have hroom : (initTurns area bufSize bufCount mem n).2.items.length <
        (initTurns area bufSize bufCount mem n).2.capacity := by
      rw [hitems, hcapacity, List.length_reverse, List.length_map, List.length_range]
      omega
    rw [initTurns_succ]
    constructor
    · rw [Deque.sendToFront_room hroom, hitems, List.range_succ, List.map_append,
        List.reverse_append]
      rfl
    · rw [Deque.sendToFront_capacity, hcapacity]

/-- Only the headers of the items are written. -/
theorem initTurns_frame (n : Nat) {a : Nat}
    (h : ∀ j < n, a + 4 ≤ area j ∨ area j + 4 ≤ a) :
    (initTurns area bufSize bufCount mem n).1.readWord a = mem.readWord a := by
  induction n with
  | zero => rfl
  | succ n ih =>
    rw [initTurns_succ, ← ih fun j hj => h j (by omega)]
    apply Memory.readWord_congr
    intro x hx hx'
    have hapart := h n (by omega)
    exact Memory.writeWord_of_disjoint (by omega)

theorem initTurns_header (hsize : bufSize < 2 ^ 32) {n : Nat}
    (h : ∀ j < n, ∀ j' < n, j ≠ j' → area j + 4 ≤ area j' ∨ area j' + 4 ≤ area j) :
    ∀ j < n, (initTurns area bufSize bufCount mem n).1.readWord (area j) = bufSize := by
  induction n with
  | zero =>
    intro j hj
    omega
  | succ n ih =>
    intro j hj
    rw [initTurns_succ]
    by_cases heq : j = n
    · subst heq
      exact Memory.readWord_writeWord hsize
    · have hapart := h j hj n (by omega) heq
      refine Eq.trans ?_ (ih (fun k hk k' hk' => h k (by omega) k' (by omega)) j (by omega))
      apply Memory.readWord_congr
      intro x hx hx'
      exact Memory.writeWord_of_disjoint (by omega)

end

/-- The headers of the items of the pools `config`, numbered from `i` on, do not overlap. -/
def HeadersApart (area : Nat → Nat → Nat) (i : Nat) (config : List (Nat × Nat)) : Prop :=
  ∀ k c j k' c' j', config[k]? = some c → config[k']? = some c' → j < c.2 → j' < c'.2 →
    (k, j) ≠ (k', j') →
      area (i + k) j + 4 ≤ area (i + k') j' ∨ area (i + k') j' + 4 ≤ area (i + k) j

theorem HeadersApart.tail {area : Nat → Nat → Nat} {i : Nat} {c : Nat × Nat}
    {config : List (Nat × Nat)} (h : HeadersApart area i (c :: config)) :
    HeadersApart area (i + 1) config := by
  intro k c j k' c' j' hc hc' hj hj' hne
  have hapart := h (k + 1) c j (k' + 1) c' j' hc hc' hj hj' (by simpa using hne)
  rw [Nat.add_right_comm i 1 k, Nat.add_right_comm i 1 k']
  exact hapart

/-- The pools of `config`, numbered from `i` on, as `MemManager_Init` leaves them. -/
structure Initialised (area : Nat → Nat → Nat) (i : Nat) (config : List (Nat × Nat))
    (mem : Memory) (r : Memory × List Pool) : Prop where
  table : (r.2.map fun p => (p.bufSize, p.bufCount)) = config
  capacity : ∀ p ∈ r.2, p.queue.capacity = p.bufCount
  queue : ∀ k p, r.2[k]? = some p → p.queue.items = (items area (i + k) p).reverse
  header : ∀ k p, r.2[k]? = some p → ∀ a ∈ items area (i + k) p, r.1.readWord a = p.bufSize
  frame : ∀ a, (∀ k c, config[k]? = some c → ∀ j < c.2,
    a + 4 ≤ area (i + k) j ∨ area (i + k) j + 4 ≤ a) → r.1.readWord a = mem.readWord a

theorem initPools_initialised {area : Nat → Nat → Nat} {i : Nat} {config : List (Nat × Nat)}
    (mem : Memory) (hapart : HeadersApart area i config) (hsize : ∀ c ∈ config, c.1 < 2 ^ 32) :
    Initialised area i config mem (initPools area i config mem) := by
  induction config generalizing i mem with
  | nil => exact ⟨rfl, by simp [initPools], by simp [initPools], by simp [initPools], fun _ _ => rfl⟩
  | cons c config ih =>
    obtain ⟨bufSize, bufCount⟩ := c
    let turns := initTurns (area i) bufSize bufCount mem bufCount
    let p₀ : Pool := ⟨bufSize, bufCount, turns.2⟩
    have heq : initPools area i ((bufSize, bufCount) :: config) mem =
        ((initPools area (i + 1) config turns.1).1,
          p₀ :: (initPools area (i + 1) config turns.1).2) := rfl
    obtain ⟨hqueue, hcapacity⟩ :=
      initTurns_queue (area i) bufSize bufCount mem (Nat.le_refl bufCount)
    have hrest := ih (i := i + 1) turns.1 hapart.tail fun c hc => hsize c (List.mem_cons_of_mem _ hc)
    have hadd : ∀ k, i + 1 + k = i + (k + 1) := fun k => by omega
    rw [heq]
    constructor
    case table => exact congrArg _ hrest.table
    case capacity =>
      intro p hp
      rcases List.mem_cons.mp hp with rfl | hp
      · exact hcapacity
      · exact hrest.capacity p hp
    case queue =>
      intro k p hp
      cases k with
      | zero =>
        cases hp
        exact hqueue
      | succ k =>
        rw [← hadd]
        exact hrest.queue k p hp
    case header =>
      intro k p hp a ha
      cases k with
      | zero =>
        cases hp
        obtain ⟨j, hj, rfl⟩ := List.mem_map.mp ha
        -- The loops for the other pools do not touch this header.
        rw [hrest.frame]
        · refine initTurns_header (area i) bufSize bufCount mem
            (hsize (bufSize, bufCount) List.mem_cons_self) ?_ j (List.mem_range.mp hj)
          intro j hj j' hj' hne
          exact hapart 0 _ j 0 _ j' rfl rfl hj hj' (by simpa using hne)
        · intro k c hc j' hj'
          rw [hadd]
          exact hapart 0 _ j (k + 1) c j' rfl hc (List.mem_range.mp hj) hj' (by simp)
      | succ k =>
        rw [← hadd] at ha
        exact hrest.header k p hp a ha
    case frame =>
      intro a ha
      rw [hrest.frame]
      · exact initTurns_frame (area i) bufSize bufCount mem bufCount fun j hj => ha 0 _ rfl j hj
      · intro k c hc j hj
        rw [hadd]
        exact ha (k + 1) c hc j hj

variable {area : Nat → Nat → Nat} {s : System}

theorem DisjointAreas.headersApart (h : DisjointAreas area) :
    HeadersApart area 0 poolConfig := by
  intro k c j k' c' j' hc hc' hj hj' hne
  have hapart := h k j c k' j' c' hc hc' hj hj' hne
  unfold itemSize at hapart
  rw [Nat.zero_add, Nat.zero_add]
  omega

theorem memManagerInit_initialised (harea : DisjointAreas area) (mem : Memory) :
    Initialised area 0 poolConfig mem
      ((memManagerInit area mem).mem, (memManagerInit area mem).pools) :=
  initPools_initialised mem harea.headersApart (by decide)

theorem Custody.init (harea : DisjointAreas area) (mem : Memory) :
    Custody area ⟨memManagerInit area mem, []⟩ := by
  have hinit := memManagerInit_initialised harea mem
  refine ⟨hinit.table, hinit.capacity, ?_, ?_, ?_⟩
  · intro i p hp
    have hqueue := hinit.queue i p hp
    rw [Nat.zero_add] at hqueue
    show p.queue.items ++ [] ~ _
    rw [List.append_nil, hqueue]
    exact List.reverse_perm _
  · intro i p hp a ha
    rw [← Nat.zero_add i] at ha
    exact hinit.header i p hp a ha
  · intro b hb
    contradiction

/-! ## What holds in a state -/

/-- The block lies inside an item. -/
def Inside (area : Nat → Nat → Nat) (b : Block) : Prop :=
  ∃ i c j, poolConfig[i]? = some c ∧ j < c.2 ∧ b.item = area i j ∧
    b.ptr + b.size ≤ area i j + itemSize c.1

/-- The ranges of two blocks do not overlap. -/
def Block.Apart (b b' : Block) : Prop := b.ptr + b.size ≤ b'.ptr ∨ b'.ptr + b'.size ≤ b.ptr

structure Sound (area : Nat → Nat → Nat) (mem₀ : Memory) (s : System) : Prop where
  /-- An item is in the queue of its own pool or handed out. -/
  onePlace : ∀ i c j, poolConfig[i]? = some c → j < c.2 → ∃ p, s.manager.pools[i]? = some p ∧
    p.queue.items.count (area i j) + (s.live.map Block.item).count (area i j) = 1 ∧
    ∀ i' p', s.manager.pools[i']? = some p' → i' ≠ i → area i j ∉ p'.queue.items
  /-- Nothing else is in a queue. -/
  own : ∀ i p, s.manager.pools[i]? = some p → ∀ a ∈ p.queue.items, ∃ j < p.bufCount, a = area i j
  inside : ∀ b ∈ s.live, Inside area b
  apart : s.live.Pairwise Block.Apart
  /-- With no block handed out, the free items are those that `MemManager_Init` made. -/
  restored : s.live = [] → ∀ (i : Nat) (p p₀ : Pool), s.manager.pools[i]? = some p →
    (memManagerInit area mem₀).pools[i]? = some p₀ → p.queue.items ~ p₀.queue.items

/-- What a call of `MemManager_Alloc` returns: NULL, or a block inside of an item, all zero, that
overlaps no block that is handed out; what these hold is left as it is. -/
def AllocSound (area : Nat → Nat → Nat) (s : System) (size : Nat) : Prop :=
  match memManagerAlloc false size s.manager with
  | (none, m) => m = s.manager
  | (some data, m) => data ≠ 0 ∧ (∀ k < size, m.mem (data + k) = 0) ∧
    Inside area ⟨data - dataOffset, size⟩ ∧
    ∀ b ∈ s.live, b.Apart ⟨data - dataOffset, size⟩ ∧
      ∀ k < b.size, m.mem (b.ptr + k) = s.manager.mem (b.ptr + k)

/-- What a call of `MemManager_Free` does: the queue of the pool of the item has room, and the
item is put to its front. -/
def FreeSound (area : Nat → Nat → Nat) (s : System) (b : Block) : Prop :=
  ∃ i p p', s.manager.pools[i]? = some p ∧ b.item ∈ items area i p ∧
    p.queue.items.length < p.queue.capacity ∧ p'.queue.items = b.item :: p.queue.items ∧
    (memManagerFree false b.ptr s.manager).pools = s.manager.pools.set i p'

theorem Custody.inside (h : Custody area s) {i a size : Nat} {p : Pool}
    (hp : s.manager.pools[i]? = some p) (ha : a ∈ items area i p) (hsize : size ≤ p.bufSize) :
    Inside area ⟨a, size⟩ := by
  obtain ⟨j, hj, rfl⟩ := List.mem_map.mp ha
  refine ⟨i, _, j, h.poolConfig_getElem hp, List.mem_range.mp hj, rfl, ?_⟩
  have hpos := h.bufSize_pos hp
  simp only [Block.ptr, dataOffset, itemSize]
  omega

/-- Blocks in different items do not overlap. -/
theorem Custody.blocks_apart (h : Custody area s) (harea : DisjointAreas area) {i i' : Nat}
    {b b' : Block} {p p' : Pool} (hp : s.manager.pools[i]? = some p)
    (hp' : s.manager.pools[i']? = some p') (hitem : b.item ∈ items area i p)
    (hitem' : b'.item ∈ items area i' p') (hsize : b.size ≤ p.bufSize)
    (hsize' : b'.size ≤ p'.bufSize) (hne : b.item ≠ b'.item) : b.Apart b' := by
  have hapart := h.apart harea hp hp' hitem hitem' hne
  have hpos := h.bufSize_pos hp
  have hpos' := h.bufSize_pos hp'
  unfold itemSize at hapart
  simp only [Block.Apart, Block.ptr, dataOffset]
  omega

theorem Custody.count_eq (h : Custody area s) (harea : DisjointAreas area) {i a : Nat} {p : Pool}
    (hp : s.manager.pools[i]? = some p) (ha : a ∈ items area i p) :
    p.queue.items.count a + (s.live.map Block.item).count a = 1 := by
  have hcount := (h.custody i p hp).count_eq a
  rw [List.count_append, List.count_eq_one_of_mem (h.items_nodup harea hp) ha] at hcount
  unfold handedOut at hcount
  rw [List.count_filter (by simpa using ha)] at hcount
  exact hcount

theorem Custody.live_nodup (h : Custody area s) (harea : DisjointAreas area) :
    (s.live.map Block.item).Nodup := by
  apply List.nodup_iff_count_le_one.mpr
  intro a
  by_cases ha : a ∈ s.live.map Block.item
  · obtain ⟨b, hb, rfl⟩ := List.mem_map.mp ha
    obtain ⟨i, p, hp, hitem, -⟩ := h.live b hb
    have hcount := h.count_eq harea hp hitem
    omega
  · rw [List.count_eq_zero_of_not_mem ha]
    exact Nat.zero_le 1

theorem Custody.sound (h : Custody area s) (harea : DisjointAreas area) (mem : Memory) :
    Sound area mem s := by
  constructor
  case onePlace =>
    intro i c j hc hj
    have hentry := hc
    rw [← h.config, List.getElem?_map] at hentry
    obtain ⟨p, hp, rfl⟩ := Option.map_eq_some_iff.mp hentry
    have ha : area i j ∈ items area i p := List.mem_map_of_mem (List.mem_range.mpr hj)
    refine ⟨p, hp, h.count_eq harea hp ha, ?_⟩
    intro i' p' hp' hne hqueue
    have ha' := (h.custody i' p' hp').mem_iff.mp (List.mem_append_left _ hqueue)
    exact hne (h.pool_unique harea hp' hp ha' ha)
  case own =>
    intro i p hp a hqueue
    have ha := (h.custody i p hp).mem_iff.mp (List.mem_append_left _ hqueue)
    obtain ⟨j, hj, rfl⟩ := List.mem_map.mp ha
    exact ⟨j, List.mem_range.mp hj, rfl⟩
  case inside =>
    intro b hb
    obtain ⟨i, p, hp, hitem, hsize⟩ := h.live b hb
    exact h.inside hp hitem hsize
  case apart =>
    refine List.Pairwise.imp_of_mem ?_ (List.pairwise_map.mp (h.live_nodup harea))
    intro b b' hb hb' hne
    obtain ⟨i, p, hp, hitem, hsize⟩ := h.live b hb
    obtain ⟨i', p', hp', hitem', hsize'⟩ := h.live b' hb'
    exact h.blocks_apart harea hp hp' hitem hitem' hsize hsize' hne
  case restored =>
    intro hlive i p p₀ hp hp₀
    have hcustody := h.custody i p hp
    have hinit := (memManagerInit_initialised harea mem).queue i p₀ hp₀
    have hcount : p.bufCount = p₀.bufCount := by
      have htable := h.config.trans (memManagerInit_initialised harea mem).table.symm
      have hentry := congrArg (·[i]?) htable
      dsimp only at hentry
      rw [List.getElem?_map, List.getElem?_map, hp, hp₀] at hentry
      exact (Prod.ext_iff.mp (Option.some.inj hentry)).2
    have hitems : items area i p = items area i p₀ := by
      rw [items, items, hcount]
    rw [hlive, hitems] at hcustody
    rw [hinit, Nat.zero_add]
    exact (List.append_nil _ ▸ hcustody).trans (List.reverse_perm _).symm

theorem Custody.allocSound (h : Custody area s) (harea : DisjointAreas area) (size : Nat) :
    AllocSound area s size := by
  unfold AllocSound
  rcases h.alloc_cases size with hnone | ⟨i, p, queue, pItem, hp, hsize, hfront, -, hitem, hsome⟩
  · rw [hnone]
  rw [hsome]
  dsimp only
  rw [Nat.add_sub_cancel]
  refine ⟨by simp, ?_, h.inside hp hitem hsize, ?_⟩
  · intro k hk
    exact Memory.fill_of_mem (by omega) (by omega)
  · intro b hb
    obtain ⟨i', p', hp', hitem', hsize'⟩ := h.live b hb
    have hne : b.item ≠ pItem := by
      -- The item at the front of the queue is in one place.
      intro heq
      have hcount := h.count_eq harea hp hitem
      have hqueue : 0 < p.queue.items.count pItem := by
        rw [hfront]
        exact List.count_pos_iff.mpr List.mem_cons_self
      have hlive : 0 < (s.live.map Block.item).count pItem :=
        List.count_pos_iff.mpr (heq ▸ List.mem_map_of_mem hb)
      omega
    refine ⟨h.blocks_apart harea hp' hp hitem' hitem hsize' hsize hne, ?_⟩
    intro k hk
    have hapart : b.Apart ⟨pItem, p.bufSize⟩ :=
      h.blocks_apart harea hp' hp hitem' hitem hsize' (Nat.le_refl _) hne
    simp only [Block.Apart, Block.ptr] at hapart
    apply Memory.fill_of_disjoint
    simp only [Block.ptr]
    omega

theorem Custody.freeSound (h : Custody area s) {b : Block} (hb : b ∈ s.live) :
    FreeSound area s b := by
  obtain ⟨i, p, hp, hitem, hroom, hfree⟩ := h.free_eq hb
  exact ⟨i, p, { p with queue := (p.queue.sendToFront b.item).2 }, hp, hitem, hroom,
    Deque.sendToFront_room hroom b.item, congrArg Manager.pools hfree⟩

/-- In every state that a run of calls and writes reaches after `MemManager_Init`, every item
is in one place, the blocks handed out are apart and inside of their items, and a state with
none of them has the free items of the start; and the next call of `MemManager_Alloc` or
`MemManager_Free` does what it should. -/
theorem run_sound (harea : DisjointAreas area) (mem : Memory) (ops : List Op)
    (hrun : run ⟨memManagerInit area mem, []⟩ ops = some s) :
    Sound area mem s ∧ (∀ size, AllocSound area s size) ∧ ∀ b ∈ s.live, FreeSound area s b := by
  have hcustody := (Custody.init harea mem).run harea hrun
  exact ⟨hcustody.sound harea mem, fun size => hcustody.allocSound harea size,
    fun b hb => hcustody.freeSound hb⟩

/-- Areas of 8 KiB each, one behind the other. -/
def strideArea (i j : Nat) : Nat := 0x20000000 + 8192 * (200 * i + j)

theorem strideArea_disjoint : DisjointAreas strideArea := by
  intro i j c i' j' c' hc hc' hj hj' hne
  have hbound : ∀ c ∈ poolConfig, itemSize c.1 ≤ 8192 ∧ c.2 ≤ 200 := by decide
  obtain ⟨hsize, hcount⟩ := hbound c (List.mem_of_getElem? hc)
  obtain ⟨hsize', hcount'⟩ := hbound c' (List.mem_of_getElem? hc')
  have hindex : i ≠ i' ∨ j ≠ j' := by
    by_contra hsame
    push Not at hsame
    exact hne (Prod.ext hsame.1 hsame.2)
  unfold strideArea
  omega

/-- Two blocks of different pools, one of them written to, freed and allocated again. -/
def mixedOps : List Op :=
  [.alloc 10, .alloc 2000, .write (strideArea 0 199 + 4) 9 0xFF, .free (strideArea 0 199 + 4),
    .alloc 12, .alloc 5000, .free 0, .free (strideArea 6 2 + 4)]

theorem run_sound_mixed : ∃ s, run ⟨memManagerInit strideArea fun _ => 0xA5, []⟩ mixedOps = some s ∧
    Sound strideArea (fun _ => 0xA5) s ∧ s.live = [⟨strideArea 0 199, 12⟩] := by
  have hlive : (run ⟨memManagerInit strideArea fun _ => 0xA5, []⟩ mixedOps).map System.live =
      some [⟨strideArea 0 199, 12⟩] := by
    decide +kernel
  obtain ⟨s, hrun, hs⟩ := Option.map_eq_some_iff.mp hlive
  exact ⟨s, hrun, (run_sound strideArea_disjoint _ mixedOps hrun).1, hs⟩

end MiyakoLink.Mem
