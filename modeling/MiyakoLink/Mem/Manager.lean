import Mathlib.Algebra.Group.Nat.Defs
import MiyakoLink.Lib.Deque
import MiyakoLink.Lib.Memory

/-!
# The pool allocator

`MemManager_Init`, `MemManager_Alloc` and `MemManager_Free`, `mem_manager.c`. An item is a
header word with the buffer size of its pool, and the payload behind it. The FreeRTOS queues
are bounded deques, and `area i j` is what `pvPortMalloc` returned for item `j` of pool `i`.

`MemManager_Alloc` gives a mutex that nobody has taken. Such a mutex is a full queue, so this
fails without a change, and the mutex is left out.
-/

namespace MiyakoLink.Mem

open Lib

/-- `MEM_MANAGER_POOL_CONFIG`: `bufSize` and `bufCount`. -/
def poolConfig : List (Nat × Nat) :=
  [(16, 200), (64, 100), (128, 50), (256, 10), (512, 10), (1024, 10), (2048, 3), (4096, 3)]

/-- `sizeof(MemManager_Item_t) + (bufSize - 1)`. -/
def itemSize (bufSize : Nat) : Nat := 8 + (bufSize - 1)

/-- The offset of `data` in an item. -/
abbrev dataOffset : Nat := 4

structure Pool where
  bufSize : Nat
  bufCount : Nat
  queue : Deque Nat

structure Manager where
  pools : List Pool
  mem : Memory

/-- The inner loop of `MemManager_Init`. -/
def initItems (area : Nat → Nat) (bufSize bufCount : Nat) (mem : Memory) : Memory × Deque Nat :=
  (List.range bufCount).foldl
    (fun s j => (s.1.writeWord (area j) bufSize, (s.2.sendToFront (area j)).2))
    (mem, Deque.create bufCount)

def initPools (area : Nat → Nat → Nat) : Nat → List (Nat × Nat) → Memory → Memory × List Pool
  | _, [], mem => (mem, [])
  | i, (bufSize, bufCount) :: config, mem =>
    let (mem, queue) := initItems (area i) bufSize bufCount mem
    let (mem, pools) := initPools area (i + 1) config mem
    (mem, ⟨bufSize, bufCount, queue⟩ :: pools)

def memManagerInit (area : Nat → Nat → Nat) (mem : Memory) : Manager :=
  let (mem, pools) := initPools area 0 poolConfig mem
  ⟨pools, mem⟩

/-- The item from the first pool whose buffers are large enough, if it has one. -/
def receiveFrom (size : Nat) : List Pool → Option (Nat × List Pool)
  | [] => none
  | p :: pools =>
    if size ≤ p.bufSize then
      p.queue.receive.map fun (pItem, queue) => (pItem, { p with queue := queue } :: pools)
    else
      (receiveFrom size pools).map fun (pItem, pools) => (pItem, p :: pools)

/-- `MemManager_Alloc`. -/
def memManagerAlloc (inInterrupt : Bool) (size : Nat) (m : Manager) : Option Nat × Manager :=
  if inInterrupt then (none, m)
  else
    match receiveFrom size m.pools with
    | none => (none, m)
    | some (pItem, pools) =>
      let data := pItem + dataOffset
      (some data, ⟨pools, m.mem.fill data 0 (m.mem.readWord pItem)⟩)

/-- Send the item to the pool whose buffers have the size `size`. -/
def sendTo (size pItem : Nat) : List Pool → List Pool
  | [] => []
  | p :: pools =>
    if size = p.bufSize then { p with queue := (p.queue.sendToFront pItem).2 } :: pools
    else p :: sendTo size pItem pools

/-- `MemManager_Free`. A NULL pointer is 0. -/
def memManagerFree (inInterrupt : Bool) (pBuffer : Nat) (m : Manager) : Manager :=
  if inInterrupt ∨ pBuffer = 0 then m
  else
    let pItem := pBuffer - dataOffset
    { m with pools := sendTo (m.mem.readWord pItem) pItem m.pools }

end MiyakoLink.Mem
