import PjProject.MemoryPool
import Mathlib.Algebra.BigOperators.Fin

/-! The caching pool factory (`pool_caching.c`): released pools of the standard sizes are kept in one
free list a size, and handed out again. A pool is known by its address, the address of its first block;
the lists hold addresses. `pj_size_t` has 32 bits, as in the memory pool. -/

namespace PjProject.CachingPool

open MemoryPool (Pool Block Result wordSize)

/-- `PJ_CACHING_POOL_ARRAY_SIZE`. -/
def arraySize : Nat := 16

def poolSizeTable : List Nat :=
  [256, 512, 1024, 2048, 4096, 8192, 12288, 16384, 20480, 24576, 28672, 32768, 40960, 49152, 57344, 65536]

/-- `pool_sizes[i]`. -/
def poolSizes (i : Nat) : Nat := poolSizeTable.getD i 0

/-- `START_SIZE`. -/
def startSize : Nat := 5

/-- The search from `START_SIZE - 1` downwards, with the increment behind it: `n` entries are left. -/
def searchDown (size : Nat) : Nat → Nat
  | 0 => 0
  | n + 1 => if size ≤ poolSizes n then searchDown size n else n + 1

/-- The search upwards; `n` entries are left. -/
def searchUp (size : Nat) : Nat → Nat
  | 0 => arraySize
  | n + 1 => if poolSizes (arraySize - (n + 1)) < size then searchUp size n else arraySize - (n + 1)

/-- The index of the smallest standard size that is enough, `arraySize` when there is none. -/
def poolIndex (size : Nat) : Nat :=
  if size ≤ poolSizes startSize then searchDown size startSize
  else searchUp size (arraySize - (startSize + 1))

/-- A pool in memory with the `factory_data` the factory keeps in it. -/
structure Node where
  pool : Pool
  factoryData : Nat
  deriving DecidableEq

/-- `pj_caching_pool`; the head of a list is its `next`. -/
structure Cpool where
  usedList : List Nat
  freeList : Fin arraySize → List Nat
  capacity : Nat
  maxCapacity : Nat
  usedCount : Nat

/-- The factory and the memory of its pools: `live` are the pools created and not destroyed, `held` those
the application has got and not released. -/
structure State where
  cp : Cpool
  heap : Nat → Node
  live : List Nat
  held : List Nat

/-- `pj_caching_pool_init`. -/
def start (maxCapacity : Nat) : State :=
  { cp := ⟨[], fun _ => [], 0, maxCapacity, 0⟩
    heap := fun _ => ⟨⟨0, 0, 0, []⟩, 0⟩
    live := []
    held := [] }

/-- The pool at the front of the free list for the index, if any. -/
def cached (cp : Cpool) (idx : Nat) : Option Nat :=
  if h : idx < arraySize then (cp.freeList ⟨idx, h⟩).head? else none

/-- `pj_pool_init_int`, of the fields the pool uses. -/
def poolInitInt (pool : Pool) (incrementSize alignment : Nat) : Pool :=
  { pool with
    incrementSize := incrementSize
    alignment := if alignment = 0 then MemoryPool.poolAlignment else alignment }

/-- The pool goes to the end of the used list, marked with its index. -/
def putUsed (s : State) (addr : Nat) (pool : Pool) (idx : Nat) : State :=
  { s with
    cp := { s.cp with usedList := s.cp.usedList ++ [addr], usedCount := (s.cp.usedCount + 1) % wordSize }
    heap := Function.update s.heap addr ⟨pool, idx⟩
    held := s.held ++ [addr] }

/-- The pool at the front of a free list is taken from it. -/
def reuse (s : State) (addr idx incrementSize alignment : Nat) : State :=
  let pool := poolInitInt (s.heap addr).pool incrementSize alignment
  let cp :=
    { s.cp with
      freeList := fun i => if i.val = idx then (s.cp.freeList i).erase addr else s.cp.freeList i
      capacity := if pool.capacity < s.cp.capacity then s.cp.capacity - pool.capacity else 0 }
  putUsed { s with cp := cp } addr pool idx

def newSize (initialSize idx : Nat) : Nat := if idx < arraySize then poolSizes idx else initialSize

/-- `cpool_create_pool`, with what `block_alloc` answers if a new pool is needed; the result is the pool
or `NULL`. -/
def cpoolCreatePool (s : State) (initialSize incrementSize alignment : Nat) (answer : Option Nat) :
    Option Nat × State :=
  let idx := poolIndex initialSize
  match cached s.cp idx with
  | some addr => (some addr, reuse s addr idx incrementSize alignment)
  | none =>
    match answer, MemoryPool.poolCreateInt (newSize initialSize idx) incrementSize alignment answer with
    | some addr, some pool => (some addr, putUsed { s with live := addr :: s.live } addr pool idx)
    | _, _ => (none, s)

/-- The tests in front of the recycling: the pool is too large, or the cache would get too large. -/
def mustDestroy (cp : Cpool) (poolCapacity : Nat) : Bool :=
  decide (poolSizes (arraySize - 1) < poolCapacity) ||
    decide (cp.maxCapacity < (cp.capacity + poolCapacity) % wordSize)

/-- The pool leaves the used list. -/
def takeUsed (s : State) (addr : Nat) : State :=
  { s with
    cp := { s.cp with
      usedList := s.cp.usedList.erase addr
      usedCount := (s.cp.usedCount + (wordSize - 1)) % wordSize }
    held := s.held.erase addr }

/-- `pj_pool_destroy_int`: the memory of the pool goes back to the system. -/
def destroy (s : State) (addr : Nat) : State := { s with live := s.live.erase addr }

/-- The reset pool goes to the front of its free list. -/
def recycle (s : State) (addr : Nat) : State :=
  let node := s.heap addr
  let pool := MemoryPool.resetPool node.pool
  let s := { s with heap := Function.update s.heap addr ⟨pool, node.factoryData⟩ }
  if h : node.factoryData < arraySize then
    { s with cp := { s.cp with
        freeList := Function.update s.cp.freeList ⟨node.factoryData, h⟩
          (addr :: s.cp.freeList ⟨node.factoryData, h⟩)
        capacity := (s.cp.capacity + pool.capacity) % wordSize } }
  else destroy s addr

/-- `cpool_release_pool`. -/
def cpoolReleasePool (s : State) (addr : Nat) : State :=
  let s := takeUsed s addr
  if mustDestroy s.cp (s.heap addr).pool.capacity then destroy s addr else recycle s addr

/-- A pool is created; memory is taken from a pool (alignment 0 stands for the pool's own) or the pool is
reset by the application that holds it; a pool is released. The answers are what `block_alloc` gives when
it is asked. -/
inductive Action
  | create (initialSize incrementSize alignment : Nat) (answer : Option Nat)
  | alloc (addr alignment size : Nat) (answer : Option Nat)
  | reset (addr : Nat)
  | release (addr : Nat)
  deriving DecidableEq

/-- What the system's allocator promises: memory that is not `NULL`, ends inside the address space and
meets no memory of a live pool. -/
def Grants (s : State) (size mem : Nat) : Prop :=
  0 < mem ∧ mem + size < wordSize ∧
    ∀ a ∈ s.live, ∀ b ∈ (s.heap a).pool.blockList, Interval.Apart ⟨mem, mem + size⟩ b.region

instance (s : State) (size mem : Nat) : Decidable (Grants s size mem) :=
  inferInstanceAs (Decidable (_ ∧ _ ∧ _))

def growSize (pool : Pool) (alignment size : Nat) : Nat :=
  MemoryPool.expandSize pool (MemoryPool.effectiveAlignment pool alignment) size

/-- Arguments are 32-bit values, the allocator keeps its promise and the application uses only pools it
holds. -/
def step (s : State) : Action → Option State
  | .create initialSize incrementSize alignment answer =>
    if initialSize < wordSize ∧
        (∀ mem ∈ answer, Grants s (newSize initialSize (poolIndex initialSize)) mem) then
      some (cpoolCreatePool s initialSize incrementSize alignment answer).2
    else none
  | .alloc addr alignment size answer =>
    if addr ∈ s.held ∧ (∀ mem ∈ answer, Grants s (growSize (s.heap addr).pool alignment size) mem) then
      let r := MemoryPool.poolAlignedAlloc (s.heap addr).pool alignment size answer
      some { s with heap := Function.update s.heap addr ⟨r.pool, (s.heap addr).factoryData⟩ }
    else none
  | .reset addr =>
    if addr ∈ s.held then
      let node := s.heap addr
      some { s with heap := Function.update s.heap addr ⟨MemoryPool.resetPool node.pool, node.factoryData⟩ }
    else none
  | .release addr => if addr ∈ s.held then some (cpoolReleasePool s addr) else none

/-- How often the pool is in the lists of the factory. -/
def occurrences (cp : Cpool) (addr : Nat) : Nat :=
  cp.usedList.count addr + ∑ i, (cp.freeList i).count addr

/-- The capacities of the pools in the free lists. -/
def cachedCapacity (s : State) : Nat :=
  ∑ i, ((s.cp.freeList i).map fun a => (s.heap a).pool.capacity).sum

end PjProject.CachingPool
