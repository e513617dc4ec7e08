import PjProject.Runs
import PjProject.Intervals
import Mathlib.Data.Nat.Bitwise

/-! The memory pool (`pool.c`, `pool_i.h`) on a 32-bit target: block sizing, pointer alignment and
the search for space, with `pj_size_t` and pointer arithmetic modulo `2^32`. What the factory's
`block_alloc` answers is part of each request; the pool's callback on failure only reports, so it is
recorded in the result. -/

namespace PjProject.MemoryPool

/-- `pj_size_t` and pointers have 32 bits. -/
def wordSize : Nat := 2 ^ 32

/-- Five pointers on a 32-bit target. -/
def sizeofPoolBlock : Nat := 20

/-- List links, `obj_name[32]`, four words, the embedded block list head, callback, alignment. -/
def sizeofPool : Nat := 84

/-- `PJ_POOL_ALIGNMENT` of the port. -/
def poolAlignment : Nat := 8

/-- `PJ_POOL_MAX_SEARCH_BLOCK_COUNT`. -/
def poolMaxSearchBlockCount : Nat := 5

/-- `pj_pool_block`. `mem` is where the memory obtained for the block starts: the block itself, or
the pool for the first block, which occupies the same memory as the pool. `stop` is the source's
`end`. -/
structure Block where
  mem : Nat
  buf : Nat
  cur : Nat
  stop : Nat
  deriving DecidableEq

def Block.region (b : Block) : Interval := ⟨b.mem, b.stop⟩

/-- `pj_pool_t`; the front of `blockList` is `block_list.next`. -/
structure Pool where
  capacity : Nat
  incrementSize : Nat
  alignment : Nat
  blockList : List Block
  deriving DecidableEq

/-- `PJ_IS_POWER_OF_TWO`. -/
def isPowerOfTwo (val : Nat) : Bool := decide (0 < val) && (val &&& (val - 1) == 0)

/-- `PJ_POOL_ALIGN_PTR`: the gap is `-ptr & (alignment - 1)` in 32-bit arithmetic. -/
def poolAlignPtr (ptr alignment : Nat) : Nat :=
  (ptr + ((wordSize - ptr) % wordSize &&& (alignment - 1))) % wordSize

def poolAllocFromBlock (block : Block) (alignment size : Nat) : Option (Nat × Block) :=
  let ptr := poolAlignPtr block.cur alignment
  if block.cur ≤ ptr ∧ ptr ≤ block.stop ∧ size ≤ block.stop - ptr then
    some (ptr, { block with cur := (ptr + size) % wordSize })
  else none

/-- The loop of `pj_pool_allocate_find` over the existing blocks; `i` counts the blocks passed. -/
def searchBlocks (alignment size : Nat) : Nat → List Block → Option (Nat × List Block)
  | _, [] => none
  | i, block :: rest =>
    match poolAllocFromBlock block alignment size with
    | some (p, block') => some (p, block' :: rest)
    | none =>
      if poolMaxSearchBlockCount ≤ i then none
      else (searchBlocks alignment size (i + 1) rest).map fun r => (r.1, block :: r.2)

/-- The size of the block to create: the increment, or a multiple of it that counts the header and
the alignment gap. Every sum and product is taken in `pj_size_t`. -/
def expandSize (pool : Pool) (alignment size : Nat) : Nat :=
  if pool.incrementSize < (sizeofPoolBlock + (alignment - 1) + size) % wordSize then
    let count := (pool.incrementSize + sizeofPoolBlock + (alignment - 1) + size) % wordSize /
      pool.incrementSize
    count * pool.incrementSize % wordSize
  else pool.incrementSize

/-- What an allocation leaves: the pool, the chunk or `NULL`, the size the failure callback was
called with, and whether the assertion `p != NULL` on a fresh block failed. -/
structure Result where
  pool : Pool
  ptr : Option Nat
  callback : Option Nat
  assertFailed : Bool

/-- `pj_pool_create_block`, given what `block_alloc` answered. -/
def poolCreateBlock (pool : Pool) (size : Nat) (answer : Option Nat) : Option Pool :=
  answer.map fun mem =>
    { pool with
      capacity := (pool.capacity + size) % wordSize
      blockList :=
        { mem := mem
          buf := (mem + sizeofPoolBlock) % wordSize
          cur := (mem + sizeofPoolBlock) % wordSize
          stop := (mem + size) % wordSize } :: pool.blockList }

/-- The allocation from the block just created, with the assertion that it succeeds. -/
def allocFresh (pool : Pool) (alignment size : Nat) : Result :=
  match pool.blockList with
  | [] => ⟨pool, none, none, true⟩
  | block :: rest =>
    match poolAllocFromBlock block alignment size with
    | some (p, block') => ⟨{ pool with blockList := block' :: rest }, some p, none, false⟩
    | none => ⟨pool, none, none, true⟩

def poolAllocateFind (pool : Pool) (alignment size : Nat) (answer : Option Nat) : Result :=
  match searchBlocks alignment size 0 pool.blockList with
  | some (p, blocks) => ⟨{ pool with blockList := blocks }, some p, none, false⟩
  | none =>
    if pool.incrementSize = 0 then ⟨pool, none, some size, false⟩
    else match poolCreateBlock pool (expandSize pool alignment size) answer with
      | none => ⟨pool, none, some (expandSize pool alignment size), false⟩
      | some grown => allocFresh grown alignment size

/-- The alignment a request is served with: 0 stands for the pool's own. -/
def effectiveAlignment (pool : Pool) (alignment : Nat) : Nat :=
  if alignment = 0 then pool.alignment else alignment

def poolAlignedAlloc (pool : Pool) (alignment size : Nat) (answer : Option Nat) : Result :=
  if alignment ≠ 0 ∧ isPowerOfTwo alignment = false then ⟨pool, none, none, false⟩
  else
    let alignment := effectiveAlignment pool alignment
    match pool.blockList with
    | [] => poolAllocateFind pool alignment size answer
    | block :: rest =>
      match poolAllocFromBlock block alignment size with
      | some (p, block') => ⟨{ pool with blockList := block' :: rest }, some p, none, false⟩
      | none => poolAllocateFind pool alignment size answer

def poolAlloc (pool : Pool) (size : Nat) (answer : Option Nat) : Result :=
  poolAlignedAlloc pool 0 size answer

/-- `pj_pool_create_int` with the memory `block_alloc` answered for the initial block. -/
def poolCreateInt (initialSize incrementSize alignment : Nat) (answer : Option Nat) : Option Pool :=
  if initialSize < sizeofPool + sizeofPoolBlock then none
  else if alignment ≠ 0 ∧ isPowerOfTwo alignment = false then none
  else answer.map fun buffer =>
    { capacity := initialSize
      incrementSize := incrementSize
      alignment := if alignment = 0 then poolAlignment else alignment
      blockList :=
        [{ mem := buffer
           buf := (buffer + sizeofPool + sizeofPoolBlock) % wordSize
           cur := (buffer + sizeofPool + sizeofPoolBlock) % wordSize
           stop := (buffer + initialSize) % wordSize }] }

/-- `reset_pool`: every block but the first (the last of the list) goes back to the factory. -/
def resetPool (pool : Pool) : Pool :=
  match pool.blockList.getLast? with
  | none => pool
  | some block =>
    { pool with
      blockList := [{ block with cur := block.buf }]
      capacity := (wordSize + block.stop - block.mem) % wordSize }

def poolGetUsedSize (pool : Pool) : Nat :=
  (pool.blockList.foldl (fun used b => (used + (b.cur - b.buf + sizeofPoolBlock)) % wordSize)
    sizeofPool)

structure Chunk where
  ptr : Nat
  size : Nat
  alignment : Nat
  deriving DecidableEq

def Chunk.span (c : Chunk) : Interval := ⟨c.ptr, c.ptr + c.size⟩

/-- A pool in use, with the chunks returned since it was created or reset. -/
structure State where
  pool : Pool
  chunks : List Chunk
  assertFailed : Bool

def start (pool : Pool) : State := ⟨pool, [], false⟩

/-- A request for `size` bytes (`alignment` 0 is `pj_pool_alloc`), with the answer `block_alloc` gives
if the pool asks it for memory; or a reset. -/
inductive Action
  | alloc (alignment size : Nat) (answer : Option Nat)
  | reset

/-- What the factory's allocator promises of memory for `size` bytes at `mem`: it is not `NULL`, ends
inside the address space and meets no memory the pool already has. -/
def Grants (pool : Pool) (size mem : Nat) : Prop :=
  0 < mem ∧ mem + size < wordSize ∧ ∀ b ∈ pool.blockList, Interval.Apart ⟨mem, mem + size⟩ b.region

instance (pool : Pool) (size mem : Nat) : Decidable (Grants pool size mem) :=
  inferInstanceAs (Decidable (_ ∧ _ ∧ _))

/-- Arguments are 32-bit values and the allocator keeps its promise. -/
def step (s : State) : Action → Option State
  | .reset => some ⟨resetPool s.pool, [], s.assertFailed⟩
  | .alloc alignment size answer =>
    let eff := effectiveAlignment s.pool alignment
    if alignment < wordSize ∧ size < wordSize ∧
        (∀ mem ∈ answer, Grants s.pool (expandSize s.pool eff size) mem) then
      let r := poolAlignedAlloc s.pool alignment size answer
      some
        { pool := r.pool
          chunks := match r.ptr with
            | some p => ⟨p, size, eff⟩ :: s.chunks
            | none => s.chunks
          assertFailed := s.assertFailed || r.assertFailed }
    else none

end PjProject.MemoryPool
