import PjProject.CachingPool

/-! The accounts of the caching pool factory. The memory of the live pools is disjoint, so that sums of
their capacities do not wrap; the lists of the factory together hold every live pool once; and the first
block of a pool, which a reset keeps, has the size its index stands for. Every request keeps these facts,
and the accounts follow. -/

namespace PjProject.CachingPool

open MemoryPool (Pool Block Result wordSize)
open PjProject.Interval

section Index

/-- The downward search ends at an index whose size is enough, if the one above it is. -/
theorem le_searchDown {size : Nat} : ∀ n, size ≤ poolSizes n → size ≤ poolSizes (searchDown size n)
  | 0, h => h
  | n + 1, h => by
    rw [searchDown]
    split
    · rename_i hle
      exact le_searchDown n hle
    · exact h

theorem searchDown_le (size : Nat) : ∀ n, searchDown size n ≤ n
  | 0 => le_rfl
  | n + 1 => by
    rw [searchDown]
    split
    · exact (searchDown_le size n).trans (Nat.le_succ n)
    · exact le_rfl

theorem searchUp_spec {size : Nat} : ∀ n, n < arraySize → poolSizes (arraySize - (n + 1)) < size →
    searchUp size n < arraySize ∧ size ≤ poolSizes (searchUp size n) ∨
      searchUp size n = arraySize ∧ poolSizes (arraySize - 1) < size
  | 0, _, h => .inr ⟨rfl, h⟩
  | n + 1, hn, _ => by
    rw [searchUp]
    split
    · rename_i hlt
      exact searchUp_spec n (by omega) hlt
    · rename_i hge
      exact .inl ⟨by omega, not_lt.mp hge⟩

/-- The index found stands for a size that is enough, or every standard size is too small. -/
theorem poolIndex_spec (size : Nat) :
    poolIndex size < arraySize ∧ size ≤ poolSizes (poolIndex size) ∨
      poolIndex size = arraySize ∧ poolSizes (arraySize - 1) < size := by
  rw [poolIndex]
  split
  · rename_i hle
    exact .inl ⟨(searchDown_le size startSize).trans_lt (by decide), le_searchDown startSize hle⟩
  · rename_i hgt
    exact searchUp_spec _ (by decide) (not_le.mp hgt)

theorem poolSizes_bounds {i : Nat} (h : i < arraySize) :
    0 < poolSizes i ∧ poolSizes i ≤ poolSizes (arraySize - 1) := by
  have hall : ∀ i : Fin arraySize, 0 < poolSizes i ∧ poolSizes i ≤ poolSizes (arraySize - 1) := by decide
  exact hall ⟨i, h⟩

end Index

/-- The memory of the pool's blocks, the first block last. -/
def regions (pool : Pool) : List Interval := pool.blockList.map Block.region

section Alloc

variable {pool : Pool} {alignment size : Nat}

theorem poolAllocFromBlock_region {b b' : Block} {p : Nat}
    (h : MemoryPool.poolAllocFromBlock b alignment size = some (p, b')) : b'.region = b.region := by
  simp only [MemoryPool.poolAllocFromBlock, Option.ite_none_right_eq_some, Option.some.injEq,
    Prod.mk.injEq] at h
  obtain ⟨_, _, rfl⟩ := h
  rfl

theorem searchBlocks_regions {i p : Nat} {blocks blocks' : List Block}
    (h : MemoryPool.searchBlocks alignment size i blocks = some (p, blocks')) :
    blocks'.map Block.region = blocks.map Block.region := by
  induction blocks generalizing i blocks' with
  | nil => simp [MemoryPool.searchBlocks] at h
  | cons b rest ih =>
    rw [MemoryPool.searchBlocks] at h
    cases halloc : MemoryPool.poolAllocFromBlock b alignment size with
    | some r =>
      simp only [halloc, Option.some.injEq, Prod.mk.injEq] at h
      obtain ⟨rfl, rfl⟩ := h
      simp only [List.map_cons, poolAllocFromBlock_region halloc]
    | none =>
      simp only [halloc, Option.ite_none_left_eq_some, Option.map_eq_some_iff, Prod.mk.injEq] at h
      obtain ⟨_, r, hr, rfl, rfl⟩ := h
      simp only [List.map_cons, ih hr]

/-- The pool has the memory it had, or one block more, counted in its capacity. -/
def Grown (pool grown : Pool) (size : Nat) (answer : Option Nat) : Prop :=
  regions grown = regions pool ∧ grown.capacity = pool.capacity ∨
    ∃ mem, answer = some mem ∧ regions grown = ⟨mem, (mem + size) % wordSize⟩ :: regions pool ∧
      grown.capacity = (pool.capacity + size) % wordSize

theorem regions_allocFresh (pool : Pool) (alignment size : Nat) :
    regions (MemoryPool.allocFresh pool alignment size).pool = regions pool ∧
      (MemoryPool.allocFresh pool alignment size).pool.capacity = pool.capacity := by
  rw [MemoryPool.allocFresh]
  split
  · exact ⟨rfl, rfl⟩
  · rename_i b rest hlist
    split
    · rename_i p b' halloc
      refine ⟨?_, rfl⟩
      simp only [regions, hlist, List.map_cons, poolAllocFromBlock_region halloc]
    · exact ⟨rfl, rfl⟩

theorem grown_allocateFind (pool : Pool) (alignment size : Nat) (answer : Option Nat) :
    Grown pool (MemoryPool.poolAllocateFind pool alignment size answer).pool
      (MemoryPool.expandSize pool alignment size) answer := by
  rw [MemoryPool.poolAllocateFind]
  split
  · rename_i p blocks hsearch
    exact .inl ⟨searchBlocks_regions hsearch, rfl⟩
  · split
    · exact .inl ⟨rfl, rfl⟩
    · cases answer with
      | none => exact .inl ⟨rfl, rfl⟩
      | some mem =>
        refine .inr ⟨mem, rfl, ?_⟩
        simp only [MemoryPool.poolCreateBlock, Option.map_some]
        rw [(regions_allocFresh _ _ _).1, (regions_allocFresh _ _ _).2]
        exact ⟨rfl, rfl⟩

theorem grown_alignedAlloc (pool : Pool) (alignment size : Nat) (answer : Option Nat) :
    Grown pool (MemoryPool.poolAlignedAlloc pool alignment size answer).pool (growSize pool alignment size)
      answer := by
  rw [MemoryPool.poolAlignedAlloc]
  split
  · exact .inl ⟨rfl, rfl⟩
  · simp only
    split
    · exact grown_allocateFind pool _ size answer
    · rename_i b rest hlist
      split
      · rename_i p b' halloc
        refine .inl ⟨?_, rfl⟩
        simp only [regions, hlist, List.map_cons, poolAllocFromBlock_region halloc]
      · exact grown_allocateFind pool _ size answer

end Alloc

/-- A live pool at its address: blocks that do not meet, a capacity that counts them, and a first block of
the size the index stands for (above every standard size when the index is past the table). -/
structure PoolOk (addr : Nat) (node : Node) : Prop where
  apart : (regions node.pool).Pairwise Apart
  lt : ∀ r ∈ regions node.pool, r.hi < wordSize
  capacity : node.pool.capacity = ((regions node.pool).map length).sum
  first : ∃ front r, regions node.pool = front ++ [r] ∧ r.lo = addr ∧ r.lo < r.hi ∧
    (node.factoryData < arraySize → r.length = poolSizes node.factoryData) ∧
    (arraySize ≤ node.factoryData → poolSizes (arraySize - 1) < r.length)

namespace PoolOk

variable {addr : Nat} {node : Node}

theorem le_capacity (h : PoolOk addr node) :
    (node.factoryData < arraySize → poolSizes node.factoryData ≤ node.pool.capacity) ∧
      (arraySize ≤ node.factoryData → poolSizes (arraySize - 1) < node.pool.capacity) := by
  obtain ⟨front, r, hregions, _, _, hsmall, hlarge⟩ := h.first
  have hle : r.length ≤ node.pool.capacity := by
    rw [h.capacity, hregions, List.map_append, List.sum_append]
    simp
  exact ⟨fun hi => hsmall hi ▸ hle, fun hi => (hlarge hi).trans_le hle⟩

theorem capacity_pos (h : PoolOk addr node) : 0 < node.pool.capacity := by
  rcases Nat.lt_or_ge node.factoryData arraySize with hi | hi
  · exact (poolSizes_bounds hi).1.trans_le (h.le_capacity.1 hi)
  · exact (Nat.zero_le _).trans_lt (h.le_capacity.2 hi)

theorem reset (h : PoolOk addr node) :
    PoolOk addr ⟨MemoryPool.resetPool node.pool, node.factoryData⟩ ∧
      (∀ r ∈ regions (MemoryPool.resetPool node.pool), r ∈ regions node.pool) ∧
      (MemoryPool.resetPool node.pool).capacity ≤ node.pool.capacity ∧
      (node.factoryData < arraySize →
        (MemoryPool.resetPool node.pool).capacity = poolSizes node.factoryData) := by
  obtain ⟨front, r, hregions, haddr, hlt, hsmall, hlarge⟩ := h.first
  obtain ⟨blocks, b, hblocks, hmap⟩ : ∃ blocks b, node.pool.blockList = blocks ++ [b] ∧ b.region = r := by
    obtain ⟨blocks, bs, hblocks, _, hb⟩ := List.map_eq_append_iff.mp hregions
    obtain ⟨b, rfl, hr⟩ := List.map_eq_singleton_iff.mp hb
    exact ⟨blocks, b, hblocks, hr⟩
  have hlast : r.hi < wordSize := h.lt r (by simp [hregions])
  have hpool : (MemoryPool.resetPool node.pool) =
      { node.pool with blockList := [{ b with cur := b.buf }], capacity := r.length } := by
    have hcap : (wordSize + b.stop - b.mem) % wordSize = r.length := by
      have hlo : b.mem = r.lo := congrArg Interval.lo hmap
      have hhi : b.stop = r.hi := congrArg Interval.hi hmap
      rw [hlo, hhi, Nat.add_sub_assoc hlt.le, Nat.add_mod_left, Nat.mod_eq_of_lt (by omega)]
      rfl
    simp only [MemoryPool.resetPool, hblocks, List.getLast?_append, List.getLast?_singleton, Option.some_or,
      hcap]
  have hone : regions (MemoryPool.resetPool node.pool) = [r] := by
    rw [hpool, ← hmap]
    rfl
  have hcapacity : (MemoryPool.resetPool node.pool).capacity = r.length := by rw [hpool]
  refine ⟨⟨?_, ?_, ?_, ?_⟩, ?_, ?_, ?_⟩
  · rw [hone]
    exact List.pairwise_singleton _ _
  · rw [hone]
    simpa using hlast
  · rw [hone, hcapacity]
    simp
  · exact ⟨[], r, hone, haddr, hlt, hsmall, hlarge⟩
  · simp [hone, hregions]
  · rw [hcapacity, h.capacity, hregions, List.map_append, List.sum_append]
    simp
  · intro hi
    rw [hcapacity, hsmall hi]

theorem grow (h : PoolOk addr node) {grown : Pool} {size : Nat} {answer : Option Nat}
    (hgrown : Grown node.pool grown size answer) (hgrants : ∀ mem ∈ answer, mem + size < wordSize ∧
      ∀ r ∈ regions node.pool, Apart ⟨mem, mem + size⟩ r) : PoolOk addr ⟨grown, node.factoryData⟩ := by
  obtain ⟨front, r, hregions, hfirst⟩ := h.first
  rcases hgrown with ⟨hsame, hcapacity⟩ | ⟨mem, rfl, hmore, hcapacity⟩
  · refine ⟨?_, ?_, ?_, front, r, hsame.trans hregions, hfirst⟩
    · rw [hsame]
      exact h.apart
    · rw [hsame]
      exact h.lt
    · rw [hsame, hcapacity]
      exact h.capacity
  · obtain ⟨hlt, hapart⟩ := hgrants mem rfl
    rw [Nat.mod_eq_of_lt hlt] at hmore
    have hpair : (regions grown).Pairwise Apart := by
      rw [hmore]
      exact List.pairwise_cons.mpr ⟨hapart, h.apart⟩
    have hbound : ∀ i ∈ regions grown, i.hi < wordSize := by
      rw [hmore]
      exact List.forall_mem_cons.mpr ⟨hlt, h.lt⟩
    have hsum : ((regions grown).map length).sum = node.pool.capacity + size := by
      rw [hmore, List.map_cons, List.sum_cons, ← h.capacity, length_mk_add, Nat.add_comm]
    have htotal := sum_length_le (wordSize - 1) hpair fun i hi => Nat.le_sub_one_of_lt (hbound i hi)
    refine ⟨hpair, hbound, ?_, ⟨mem, mem + size⟩ :: front, r, by rw [hmore, hregions]; rfl, hfirst⟩
    rw [hcapacity, hsum, Nat.mod_eq_of_lt (by omega)]

/-- A pool as `pj_pool_create_int` makes it in memory the allocator granted. -/
theorem create {initialSize incrementSize alignment idx : Nat} {pool : Pool}
    (hpool : MemoryPool.poolCreateInt initialSize incrementSize alignment (some addr) = some pool)
    (hlt : addr + initialSize < wordSize) (hsmall : idx < arraySize → initialSize = poolSizes idx)
    (hlarge : arraySize ≤ idx → poolSizes (arraySize - 1) < initialSize) :
    PoolOk addr ⟨pool, idx⟩ ∧ regions pool = [⟨addr, addr + initialSize⟩] := by
  simp only [MemoryPool.poolCreateInt, Option.map_some, Option.ite_none_left_eq_some,
    Option.some.injEq] at hpool
  obtain ⟨hsize, _, rfl⟩ := hpool
  have hpos : 0 < initialSize := by
    have : 0 < MemoryPool.sizeofPool := by decide
    omega
  rw [Nat.mod_eq_of_lt hlt]
  have hlength : (⟨addr, addr + initialSize⟩ : Interval).length = initialSize := length_mk_add _ _
  refine ⟨⟨List.pairwise_singleton _ _, ?_, ?_, [], ⟨addr, addr + initialSize⟩, rfl, rfl, ?_, ?_, ?_⟩, rfl⟩
  · simpa [regions, Block.region] using hlt
  · simp [regions, Block.region, Interval.length]
  · simpa using hpos
  · exact fun hi => hlength.trans (hsmall hi)
  · exact fun hi => hlength.symm ▸ hlarge hi

end PoolOk

def listed (cp : Cpool) : List Nat := cp.usedList ++ (List.finRange arraySize).flatMap cp.freeList

theorem count_listed (cp : Cpool) (a : Nat) : (listed cp).count a = occurrences cp a := by
  rw [listed, List.count_append, List.count_flatMap, occurrences, Fin.sum_univ_def]
  rfl

theorem sum_map_flatMap {α β : Type*} (g : β → Nat) (f : α → List β) (l : List α) :
    ((l.flatMap f).map g).sum = (l.map fun a => ((f a).map g).sum).sum := by
  induction l with
  | nil => rfl
  | cons a l ih => rw [List.flatMap_cons, List.map_append, List.sum_append, ih, List.map_cons, List.sum_cons]

/-- The live pools lie apart in memory, and the lists of the factory hold each of them once. -/
structure Placed (s : State) : Prop where
  pools : ∀ a ∈ s.live, PoolOk a (s.heap a)
  apart : ∀ a ∈ s.live, ∀ b ∈ s.live, a ≠ b →
    ∀ r ∈ regions (s.heap a).pool, ∀ q ∈ regions (s.heap b).pool, Apart r q
  nodup : s.live.Nodup
  once : ∀ a, occurrences s.cp a = s.live.count a

namespace Placed

variable {s : State}

theorem perm_live (h : Placed s) : (listed s.cp).Perm s.live :=
  List.perm_iff_count.mpr fun a => (count_listed s.cp a).trans (h.once a)

theorem sum_capacity_lt (h : Placed s) : (s.live.map fun a => (s.heap a).pool.capacity).sum < wordSize := by
  have hpair : (s.live.flatMap fun a => regions (s.heap a).pool).Pairwise Apart := by
    rw [List.pairwise_flatMap]
    refine ⟨fun a ha => (h.pools a ha).apart, ?_⟩
    exact h.nodup.imp_of_mem fun {a b} ha hb hne => h.apart a ha b hb hne
  have hle := sum_length_le (wordSize - 1) hpair (by
    intro i hi
    obtain ⟨a, ha, hi⟩ := List.mem_flatMap.mp hi
    exact Nat.le_sub_one_of_lt ((h.pools a ha).lt i hi))
  rw [sum_map_flatMap] at hle
  have hsum : (s.live.map fun a => (s.heap a).pool.capacity) =
      s.live.map fun a => ((regions (s.heap a).pool).map length).sum :=
    List.map_congr_left fun a ha => (h.pools a ha).capacity
  have hpos : 0 < wordSize := by decide
  rw [hsum]
  omega

theorem cachedCapacity_eq (s : State) : cachedCapacity s =
    (((List.finRange arraySize).flatMap s.cp.freeList).map fun a => (s.heap a).pool.capacity).sum := by
  rw [cachedCapacity, Fin.sum_univ_def, sum_map_flatMap]

theorem used_add_cached_lt (h : Placed s) :
    (s.cp.usedList.map fun a => (s.heap a).pool.capacity).sum + cachedCapacity s < wordSize := by
  have hperm := (h.perm_live.map fun a => (s.heap a).pool.capacity).sum_eq
  rw [listed, List.map_append, List.sum_append, ← cachedCapacity_eq] at hperm
  exact hperm ▸ h.sum_capacity_lt

theorem mem_live_of_used (h : Placed s) {a : Nat} (ha : a ∈ s.cp.usedList) : a ∈ s.live :=
  h.perm_live.mem_iff.mp (List.mem_append_left _ ha)

theorem mem_live_of_free (h : Placed s) {a : Nat} {i : Fin arraySize} (ha : a ∈ s.cp.freeList i) : a ∈ s.live :=
  h.perm_live.mem_iff.mp (List.mem_append_right _ (List.mem_flatMap.mpr ⟨i, List.mem_finRange i, ha⟩))

theorem used_length_lt (h : Placed s) : s.cp.usedList.length < wordSize := by
  have hle : s.cp.usedList.length ≤ (s.cp.usedList.map fun a => (s.heap a).pool.capacity).sum := by
    rw [← List.length_map]
    refine List.length_le_sum_of_one_le _ fun n hn => ?_
    obtain ⟨a, ha, rfl⟩ := List.mem_map.mp hn
    exact (h.pools a (h.mem_live_of_used ha)).capacity_pos
  have := h.used_add_cached_lt
  omega

theorem nodup_listed (h : Placed s) : (listed s.cp).Nodup := h.perm_live.nodup_iff.mpr h.nodup

theorem not_free_of_used (h : Placed s) {a : Nat} (ha : a ∈ s.cp.usedList) (i : Fin arraySize) :
    a ∉ s.cp.freeList i := by
  intro hfree
  have hdisjoint := (List.nodup_append.mp h.nodup_listed).2.2
  exact hdisjoint a ha a (List.mem_flatMap.mpr ⟨i, List.mem_finRange i, hfree⟩) rfl

/-- A pool changes in memory: what it has was its own or is granted. -/
theorem setPool (h : Placed s) {a : Nat} {node : Node} (hok : PoolOk a node)
    (hregions : ∀ r ∈ regions node.pool, r ∈ regions (s.heap a).pool ∨
      ∀ b ∈ s.live, ∀ q ∈ regions (s.heap b).pool, Apart r q) (ha : a ∈ s.live) :
    Placed { s with heap := Function.update s.heap a node } := by
  have hside : ∀ b ∈ s.live, b ≠ a → ∀ r ∈ regions node.pool, ∀ q ∈ regions (s.heap b).pool, Apart r q := by
    intro b hb hne r hr q hq
    rcases hregions r hr with hold | hnew
    · exact h.apart a ha b hb hne.symm r hold q hq
    · exact hnew b hb q hq
  refine ⟨fun b hb => ?_, fun b hb c hc hne r hr q hq => ?_, h.nodup, h.once⟩
  · by_cases hba : b = a
    · subst hba
      simpa using hok
    · simpa [Function.update_of_ne hba] using h.pools b hb
  · simp only at hr hq
    by_cases hba : b = a
    · subst hba
      rw [Function.update_self] at hr
      rw [Function.update_of_ne hne.symm] at hq
      exact hside c hc hne.symm r hr q hq
    · rw [Function.update_of_ne hba] at hr
      by_cases hca : c = a
      · subst hca
        rw [Function.update_self] at hq
        exact (hside b hb hba q hq r hr).symm
      · rw [Function.update_of_ne hca] at hq
        exact h.apart b hb c hc hne r hr q hq

/-- The lists of the factory change and still hold every pool as often. -/
theorem relist (h : Placed s) (cp : Cpool) (hcp : ∀ a, occurrences cp a = occurrences s.cp a) :
    Placed { s with cp := cp } :=
  ⟨h.pools, h.apart, h.nodup, fun a => (hcp a).trans (h.once a)⟩

/-- A pool keeps its memory and moves to another list. -/
theorem transfer (h : Placed s) {t : State} {a : Nat} {node : Node} (hok : PoolOk a node)
    (hregions : ∀ r ∈ regions node.pool, r ∈ regions (s.heap a).pool) (ha : a ∈ s.live)
    (hcp : ∀ b, occurrences t.cp b = occurrences s.cp b) (hheap : t.heap = Function.update s.heap a node)
    (hlive : t.live = s.live) : Placed t := by
  have hmove := (h.setPool hok (fun r hr => .inl (hregions r hr)) ha).relist t.cp hcp
  obtain ⟨cp, heap, live, held⟩ := t
  obtain rfl := hheap
  obtain rfl := hlive
  exact ⟨hmove.pools, hmove.apart, hmove.nodup, hmove.once⟩

theorem add (h : Placed s) {a : Nat} {node : Node} (hok : PoolOk a node)
    (hgrants : ∀ r ∈ regions node.pool, ∀ b ∈ s.live, ∀ q ∈ regions (s.heap b).pool, Apart r q)
    (cp : Cpool) (hcp : ∀ b, occurrences cp b = occurrences s.cp b + if a == b then 1 else 0) :
    Placed { s with cp := cp, live := a :: s.live, heap := Function.update s.heap a node } := by
  have hfresh : a ∉ s.live := by
    intro ha
    obtain ⟨front, r, hr, hlo, hlt, _⟩ := hok.first
    obtain ⟨front', q, hq, hlo', hlt', _⟩ := (h.pools a ha).first
    have hapart := hgrants r (by simp [hr]) a ha q (by simp [hq])
    rcases hapart with hsep | hsep <;> omega
  have hne : ∀ b ∈ s.live, b ≠ a := fun b hb hba => hfresh (hba ▸ hb)
  refine ⟨fun b hb => ?_, fun b hb c hc hbc r hr q hq => ?_, List.nodup_cons.mpr ⟨hfresh, h.nodup⟩, ?_⟩
  · rcases List.mem_cons.mp hb with rfl | hb
    · simpa using hok
    · simpa [Function.update_of_ne (hne b hb)] using h.pools b hb
  · simp only at hr hq
    rcases List.mem_cons.mp hb with rfl | hb'
    · rcases List.mem_cons.mp hc with rfl | hc'
      · exact absurd rfl hbc
      · rw [Function.update_self] at hr
        rw [Function.update_of_ne (hne c hc')] at hq
        exact hgrants r hr c hc' q hq
    · rw [Function.update_of_ne (hne b hb')] at hr
      rcases List.mem_cons.mp hc with rfl | hc'
      · rw [Function.update_self] at hq
        exact (hgrants q hq b hb' r hr).symm
      · rw [Function.update_of_ne (hne c hc')] at hq
        exact h.apart b hb' c hc' hbc r hr q hq
  · intro b
    rw [hcp b, h.once b, List.count_cons]

theorem remove (h : Placed s) (a : Nat) (cp : Cpool)
    (hcp : ∀ b, occurrences cp b = occurrences s.cp b - if a == b then 1 else 0) :
    Placed { s with cp := cp, live := s.live.erase a } := by
  refine ⟨fun b hb => h.pools b (List.mem_of_mem_erase hb), ?_, h.nodup.erase a, fun b => ?_⟩
  · exact fun b hb c hc => h.apart b (List.mem_of_mem_erase hb) c (List.mem_of_mem_erase hc)
  · rw [hcp b, h.once b, List.count_erase]

end Placed

/-- The accounts of the factory. -/
structure Inv (s : State) : Prop where
  placed : Placed s
  held : s.held = s.cp.usedList
  count : s.cp.usedCount = s.cp.usedList.length
  free : ∀ i, ∀ a ∈ s.cp.freeList i,
    (s.heap a).factoryData = i.val ∧ (s.heap a).pool.capacity = poolSizes i
  capacity : s.cp.capacity = cachedCapacity s
  le_max : s.cp.capacity ≤ s.cp.maxCapacity

theorem cachedCapacity_congr {s t : State} (hfree : t.cp.freeList = s.cp.freeList)
    (hheap : ∀ i, ∀ a ∈ s.cp.freeList i, t.heap a = s.heap a) : cachedCapacity t = cachedCapacity s := by
  rw [cachedCapacity, cachedCapacity, hfree]
  refine Finset.sum_congr rfl fun i _ => ?_
  rw [List.map_congr_left fun a ha => by rw [hheap i a ha]]

namespace Inv

variable {s : State}

theorem start (maxCapacity : Nat) : Inv (start maxCapacity) := by
  refine ⟨⟨nofun, nofun, List.nodup_nil, fun a => ?_⟩, rfl, rfl, nofun, ?_, Nat.zero_le _⟩
  · simp [occurrences, CachingPool.start]
  · simp [cachedCapacity, CachingPool.start]

/-- A pool in use changes in memory: the accounts stay. -/
theorem setPool (h : Inv s) {a : Nat} (ha : a ∈ s.held) {node : Node}
    (hplaced : Placed { s with heap := Function.update s.heap a node }) :
    Inv { s with heap := Function.update s.heap a node } := by
  have hheap : ∀ i, ∀ b ∈ s.cp.freeList i, Function.update s.heap a node b = s.heap b := by
    intro i b hb
    refine Function.update_of_ne (fun hba => ?_) _ _
    exact h.placed.not_free_of_used (h.held ▸ ha) i (hba ▸ hb)
  refine ⟨hplaced, h.held, h.count, fun i b hb => ?_, ?_, h.le_max⟩
  · simp only [hheap i b hb]
    exact h.free i b hb
  · have hsame : cachedCapacity { s with heap := Function.update s.heap a node } = cachedCapacity s :=
      cachedCapacity_congr rfl hheap
    exact h.capacity.trans hsame.symm

theorem alloc (h : Inv s) {a alignment size : Nat} {answer : Option Nat} (ha : a ∈ s.held)
    (hgrants : ∀ mem ∈ answer, Grants s (growSize (s.heap a).pool alignment size) mem) :
    Inv
      { s with
        heap := Function.update s.heap a
          ⟨(MemoryPool.poolAlignedAlloc (s.heap a).pool alignment size answer).pool,
            (s.heap a).factoryData⟩ } := by
  have hlive := h.placed.mem_live_of_used (h.held ▸ ha)
  have hgrown := grown_alignedAlloc (s.heap a).pool alignment size answer
  have hapart : ∀ mem ∈ answer, ∀ b ∈ s.live, ∀ q ∈ regions (s.heap b).pool,
      Apart ⟨mem, mem + growSize (s.heap a).pool alignment size⟩ q := by
    intro mem hmem b hb q hq
    obtain ⟨c, hc, rfl⟩ := List.mem_map.mp hq
    exact (hgrants mem hmem).2.2 b hb c hc
  refine h.setPool ha (h.placed.setPool ?_ ?_ hlive)
  · exact (h.placed.pools a hlive).grow hgrown fun mem hmem =>
      ⟨(hgrants mem hmem).2.1, fun r hr => hapart mem hmem a hlive r hr⟩
  · intro r hr
    rcases hgrown with ⟨hsame, _⟩ | ⟨mem, rfl, hmore, _⟩
    · exact .inl (hsame ▸ hr)
    · rw [Nat.mod_eq_of_lt (hgrants mem rfl).2.1] at hmore
      rw [hmore] at hr
      rcases List.mem_cons.mp hr with rfl | hr
      · exact .inr (hapart mem rfl)
      · exact .inl hr

theorem reset (h : Inv s) {a : Nat} (ha : a ∈ s.held) :
    Inv
      { s with
        heap := Function.update s.heap a
          ⟨MemoryPool.resetPool (s.heap a).pool, (s.heap a).factoryData⟩ } := by
  have hlive := h.placed.mem_live_of_used (h.held ▸ ha)
  obtain ⟨hok, hregions, _⟩ := (h.placed.pools a hlive).reset
  exact h.setPool ha (h.placed.setPool hok (fun r hr => .inl (hregions r hr)) hlive)

/-- What one list of the factory counts for when it changes. -/
theorem occurrences_update (cp : Cpool) (i : Fin arraySize) (l : List Nat) (a : Nat) :
    occurrences { cp with freeList := Function.update cp.freeList i l } a + (cp.freeList i).count a =
      occurrences cp a + l.count a := by
  have hsum := sum_update_add (List.count a) cp.freeList i l
  simp only [occurrences]
  omega

theorem cachedCapacity_update (s : State) (i : Fin arraySize) (l : List Nat) :
    cachedCapacity { s with cp := { s.cp with freeList := Function.update s.cp.freeList i l } } +
        ((s.cp.freeList i).map fun a => (s.heap a).pool.capacity).sum =
      cachedCapacity s + (l.map fun a => (s.heap a).pool.capacity).sum :=
  sum_update_add (fun l : List Nat => (l.map fun a => (s.heap a).pool.capacity).sum) s.cp.freeList i l

theorem create (h : Inv s) {a idx : Nat} {pool : Pool} (hok : PoolOk a ⟨pool, idx⟩)
    (hgrants : ∀ r ∈ regions pool, ∀ b ∈ s.live, ∀ q ∈ regions (s.heap b).pool, Apart r q) :
    Inv (putUsed { s with live := a :: s.live } a pool idx) := by
  have hplaced : Placed (putUsed { s with live := a :: s.live } a pool idx) := by
    have hadd := h.placed.add hok hgrants
      (putUsed { s with live := a :: s.live } a pool idx).cp (by
        intro b
        simp only [occurrences, putUsed, List.count_append, List.count_singleton]
        omega)
    exact ⟨hadd.pools, hadd.apart, hadd.nodup, hadd.once⟩
  have hfresh : ∀ i, a ∉ s.cp.freeList i := by
    intro i hi
    exact hplaced.not_free_of_used (List.mem_append_right _ (List.mem_singleton.mpr rfl)) i hi
  have hheap : ∀ i, ∀ b ∈ s.cp.freeList i, Function.update s.heap a ⟨pool, idx⟩ b = s.heap b := by
    intro i b hb
    exact Function.update_of_ne (fun (hba : b = a) => hfresh i (hba ▸ hb)) _ _
  refine ⟨hplaced, ?_, ?_, fun i b hb => ?_, ?_, h.le_max⟩
  · simp only [putUsed, h.held]
  · have hlt := hplaced.used_length_lt
    simp only [putUsed, List.length_append, List.length_singleton] at hlt ⊢
    rw [h.count, Nat.mod_eq_of_lt hlt]
  · simp only [putUsed, hheap i b hb]
    exact h.free i b hb
  · have hsame : cachedCapacity (putUsed { s with live := a :: s.live } a pool idx) = cachedCapacity s :=
      cachedCapacity_congr rfl hheap
    exact h.capacity.trans hsame.symm

/-- What a reuse changes; the clamped difference of capacities is a truncated one. -/
structure Reused (s t : State) (a : Nat) (i : Fin arraySize) (rest : List Nat) (pool : Pool) : Prop where
  freeList : t.cp.freeList = Function.update s.cp.freeList i rest
  usedList : t.cp.usedList = s.cp.usedList ++ [a]
  usedCount : t.cp.usedCount = (s.cp.usedCount + 1) % wordSize
  capacity : t.cp.capacity = s.cp.capacity - (s.heap a).pool.capacity
  maxCapacity : t.cp.maxCapacity = s.cp.maxCapacity
  heap : t.heap = Function.update s.heap a ⟨pool, i⟩
  live : t.live = s.live
  held : t.held = s.held ++ [a]

theorem reused {a : Nat} {i : Fin arraySize} {rest : List Nat} (hlist : s.cp.freeList i = a :: rest)
    (incrementSize alignment : Nat) :
    Reused s (CachingPool.reuse s a i incrementSize alignment) a i rest
      (poolInitInt (s.heap a).pool incrementSize alignment) := by
  refine ⟨?_, rfl, rfl, ?_, rfl, rfl, rfl, rfl⟩
  · funext j
    simp only [CachingPool.reuse, putUsed]
    by_cases hj : j = i
    · subst hj
      simp [hlist]
    · rw [if_neg (fun hval => hj (Fin.ext hval)), Function.update_of_ne hj]
  · have hcap : (poolInitInt (s.heap a).pool incrementSize alignment).capacity = (s.heap a).pool.capacity := rfl
    simp only [CachingPool.reuse, putUsed]
    split <;> omega

theorem reused_placed (h : Inv s) {t : State} {a : Nat} {i : Fin arraySize} {rest : List Nat} {pool : Pool}
    (hlist : s.cp.freeList i = a :: rest) (ht : Reused s t a i rest pool)
    (hregions : regions pool = regions (s.heap a).pool) (hcap : pool.capacity = (s.heap a).pool.capacity) :
    Placed t := by
  have hmem : a ∈ s.cp.freeList i := hlist ▸ List.mem_cons_self
  have hlive := h.placed.mem_live_of_free hmem
  obtain ⟨hdata, _⟩ := h.free i a hmem
  have hok : PoolOk a ⟨pool, i⟩ := by
    have hold := h.placed.pools a hlive
    refine ⟨?_, ?_, ?_, ?_⟩
    · exact hregions.symm ▸ hold.apart
    · exact hregions.symm ▸ hold.lt
    · exact hcap.trans (hregions.symm ▸ hold.capacity)
    · simpa only [hdata, hregions] using hold.first
  refine h.placed.transfer hok (fun r hr => hregions ▸ hr) hlive (fun b => ?_) ht.heap ht.live
  have hcount := occurrences_update s.cp i rest b
  rw [hlist, List.count_cons] at hcount
  simp only [occurrences, ht.freeList, ht.usedList, List.count_append, List.count_singleton] at hcount ⊢
  omega

/-- The cached pools that stay are not touched. -/
theorem Reused.heap_of_free {t : State} {a : Nat} {i : Fin arraySize} {rest : List Nat} {pool : Pool}
    (ht : Reused s t a i rest pool) (hplaced : Placed t) (j : Fin arraySize) (b : Nat)
    (hb : b ∈ t.cp.freeList j) : t.heap b = s.heap b := by
  have hnot : a ∉ t.cp.freeList j :=
    hplaced.not_free_of_used (ht.usedList ▸ List.mem_append_right _ (List.mem_singleton.mpr rfl)) j
  rw [ht.heap]
  exact Function.update_of_ne (fun (hba : b = a) => hnot (hba ▸ hb)) _ _

theorem Reused.cachedCapacity {t : State} {a : Nat} {i : Fin arraySize} {rest : List Nat} {pool : Pool}
    (ht : Reused s t a i rest pool) (hlist : s.cp.freeList i = a :: rest) (hplaced : Placed t) :
    cachedCapacity t + (s.heap a).pool.capacity = cachedCapacity s := by
  have hupdate := cachedCapacity_update s i rest
  have hsame : CachingPool.cachedCapacity t = CachingPool.cachedCapacity
      { s with cp := { s.cp with freeList := Function.update s.cp.freeList i rest } } :=
    cachedCapacity_congr ht.freeList (ht.freeList ▸ ht.heap_of_free hplaced)
  rw [hlist, List.map_cons, List.sum_cons] at hupdate
  omega

theorem reuse (h : Inv s) {t : State} {a : Nat} {i : Fin arraySize} {rest : List Nat} {pool : Pool}
    (hlist : s.cp.freeList i = a :: rest) (ht : Reused s t a i rest pool)
    (hregions : regions pool = regions (s.heap a).pool) (hcap : pool.capacity = (s.heap a).pool.capacity) :
    Inv t := by
  have hplaced := h.reused_placed hlist ht hregions hcap
  have hcached := ht.cachedCapacity hlist hplaced
  have hcapacity := h.capacity
  refine ⟨hplaced, ?_, ?_, fun j b hb => ?_, ?_, ?_⟩
  · rw [ht.held, ht.usedList, h.held]
  · have hlt := hplaced.used_length_lt
    rw [ht.usedList, List.length_append, List.length_singleton] at hlt ⊢
    rw [ht.usedCount, h.count, Nat.mod_eq_of_lt hlt]
  · rw [ht.heap_of_free hplaced j b hb]
    refine h.free j b ?_
    rw [ht.freeList] at hb
    by_cases hj : j = i
    · subst hj
      rw [Function.update_self] at hb
      exact hlist ▸ List.mem_cons_of_mem a hb
    · rwa [Function.update_of_ne hj] at hb
  · rw [ht.capacity]
    omega
  · have hmax := h.le_max
    rw [ht.capacity, ht.maxCapacity]
    omega

theorem count_takeUsed (h : Inv s) {a : Nat} (ha : a ∈ s.cp.usedList) :
    (takeUsed s a).cp.usedCount = (takeUsed s a).cp.usedList.length := by
  have hlt := h.placed.used_length_lt
  have hpos := List.length_pos_of_mem ha
  simp only [takeUsed, List.length_erase_of_mem ha, h.count]
  rw [← Nat.add_sub_assoc (by decide), Nat.sub_add_comm hpos, Nat.add_mod_right, Nat.mod_eq_of_lt (by omega)]

theorem count_le_of_used {cp : Cpool} {a : Nat} (ha : a ∈ cp.usedList) (b : Nat) :
    (if a == b then 1 else 0) ≤ cp.usedList.count b := by
  split
  · rename_i hab
    exact List.count_pos_iff.mpr (eq_of_beq hab ▸ ha)
  · exact Nat.zero_le _

theorem destroy (h : Inv s) {a : Nat} (ha : a ∈ s.cp.usedList) : Inv (CachingPool.destroy (takeUsed s a) a) := by
  have hplaced : Placed (CachingPool.destroy (takeUsed s a) a) := by
    have hremove := h.placed.remove a (takeUsed s a).cp (by
      intro b
      have hcount := count_le_of_used ha b
      simp only [occurrences, takeUsed, List.count_erase]
      omega)
    exact ⟨hremove.pools, hremove.apart, hremove.nodup, hremove.once⟩
  have hsame : cachedCapacity (CachingPool.destroy (takeUsed s a) a) = cachedCapacity s :=
    cachedCapacity_congr rfl fun _ _ _ => rfl
  refine ⟨hplaced, ?_, h.count_takeUsed ha, h.free, h.capacity.trans hsame.symm, h.le_max⟩
  simp only [CachingPool.destroy, takeUsed, h.held]

/-- What a recycling changes, when the index is in the table and the sum does not wrap. -/
structure Recycled (s t : State) (a : Nat) (i : Fin arraySize) (pool : Pool) : Prop where
  freeList : t.cp.freeList = Function.update s.cp.freeList i (a :: s.cp.freeList i)
  usedList : t.cp.usedList = s.cp.usedList.erase a
  usedCount : t.cp.usedCount = t.cp.usedList.length
  capacity : t.cp.capacity = s.cp.capacity + pool.capacity
  maxCapacity : t.cp.maxCapacity = s.cp.maxCapacity
  heap : t.heap = Function.update s.heap a ⟨pool, i⟩
  live : t.live = s.live
  held : t.held = s.held.erase a

/-- The pool in use fits the address space together with the cached ones. -/
theorem capacity_add_lt (h : Inv s) {a : Nat} (ha : a ∈ s.cp.usedList) :
    s.cp.capacity + (s.heap a).pool.capacity < wordSize := by
  have htotal := h.placed.used_add_cached_lt
  have hmem := List.single_le_sum (fun _ _ => Nat.zero_le _) _
    (List.mem_map_of_mem (f := fun a => (s.heap a).pool.capacity) ha)
  rw [h.capacity]
  omega

theorem recycled (h : Inv s) {a : Nat} (ha : a ∈ s.cp.usedList)
    (hkeep : mustDestroy s.cp (s.heap a).pool.capacity = false) :
    ∃ i : Fin arraySize, (s.heap a).factoryData = i ∧
      Recycled s (CachingPool.recycle (takeUsed s a) a) a i (MemoryPool.resetPool (s.heap a).pool) := by
  have hok := h.placed.pools a (h.placed.mem_live_of_used ha)
  have hindex : (s.heap a).factoryData < arraySize := by
    by_contra hge
    simp only [mustDestroy, Bool.or_eq_false_iff, decide_eq_false_iff_not, not_lt] at hkeep
    exact absurd hkeep.1 (not_le.mpr (hok.le_capacity.2 (not_lt.mp hge)))
  have hsum := h.capacity_add_lt ha
  have hle := hok.reset.2.2.1
  have hcount := h.count_takeUsed ha
  have htaken : ((takeUsed s a).heap a).factoryData < arraySize := hindex
  refine ⟨⟨_, hindex⟩, rfl, ?_⟩
  rw [CachingPool.recycle]
  simp only
  rw [dif_pos htaken]
  refine ⟨rfl, rfl, hcount, ?_, rfl, rfl, rfl, rfl⟩
  exact Nat.mod_eq_of_lt ((Nat.add_le_add_left hle _).trans_lt hsum)

theorem recycled_placed (h : Inv s) {t : State} {a : Nat} {i : Fin arraySize} (ha : a ∈ s.cp.usedList)
    (hdata : (s.heap a).factoryData = i) (ht : Recycled s t a i (MemoryPool.resetPool (s.heap a).pool)) :
    Placed t := by
  have hlive := h.placed.mem_live_of_used ha
  obtain ⟨hok, hregions, -, -⟩ := (h.placed.pools a hlive).reset
  rw [hdata] at hok
  refine h.placed.transfer hok hregions hlive (fun b => ?_) ht.heap ht.live
  have hcount := occurrences_update s.cp i (a :: s.cp.freeList i) b
  have hused := count_le_of_used ha b
  rw [List.count_cons] at hcount
  simp only [occurrences, ht.freeList, ht.usedList, List.count_erase] at hcount ⊢
  omega

theorem recycled_heap (h : Inv s) {t : State} {a : Nat} {i : Fin arraySize} {pool : Pool}
    (ha : a ∈ s.cp.usedList) (ht : Recycled s t a i pool) (j : Fin arraySize) (b : Nat)
    (hb : b ∈ s.cp.freeList j) : t.heap b = s.heap b := by
  have hnot := h.placed.not_free_of_used ha j
  rw [ht.heap]
  exact Function.update_of_ne (fun (hba : b = a) => hnot (hba ▸ hb)) _ _

theorem recycled_cachedCapacity (h : Inv s) {t : State} {a : Nat} {i : Fin arraySize} {pool : Pool}
    (ha : a ∈ s.cp.usedList) (ht : Recycled s t a i pool) : cachedCapacity t = cachedCapacity s + pool.capacity := by
  have hupdate := cachedCapacity_update { s with heap := t.heap } i (a :: s.cp.freeList i)
  have hsame : cachedCapacity { s with heap := t.heap } = cachedCapacity s :=
    cachedCapacity_congr rfl fun j b hb => h.recycled_heap ha ht j b hb
  have hself : (t.heap a).pool = pool := by
    rw [ht.heap, Function.update_self]
  simp only [hsame, List.map_cons, List.sum_cons, hself] at hupdate
  rw [cachedCapacity, ht.freeList]
  simp only [cachedCapacity] at hupdate ⊢
  omega

theorem recycled_mem {t : State} {a : Nat} {i : Fin arraySize} {pool : Pool}
    (ht : Recycled s t a i pool) {j : Fin arraySize} {b : Nat}
    (hb : b ∈ t.cp.freeList j) : (b = a ∧ j = i) ∨ b ∈ s.cp.freeList j := by
  rw [ht.freeList] at hb
  by_cases hj : j = i
  · subst hj
    rw [Function.update_self] at hb
    exact (List.mem_cons.mp hb).imp_left fun hba => ⟨hba, rfl⟩
  · rw [Function.update_of_ne hj] at hb
    exact .inr hb

theorem recycle (h : Inv s) {t : State} {a : Nat} {i : Fin arraySize} (ha : a ∈ s.cp.usedList)
    (hdata : (s.heap a).factoryData = i) (ht : Recycled s t a i (MemoryPool.resetPool (s.heap a).pool))
    (hkeep : mustDestroy s.cp (s.heap a).pool.capacity = false) : Inv t := by
  obtain ⟨-, -, hle, hsize⟩ := (h.placed.pools a (h.placed.mem_live_of_used ha)).reset
  have hsum := h.capacity_add_lt ha
  simp only [mustDestroy, Nat.mod_eq_of_lt hsum, Bool.or_eq_false_iff, decide_eq_false_iff_not,
    not_lt] at hkeep
  refine ⟨h.recycled_placed ha hdata ht, ?_, ht.usedCount, fun j b hb => ?_, ?_, ?_⟩
  · rw [ht.held, ht.usedList, h.held]
  · rcases recycled_mem ht hb with ⟨rfl, rfl⟩ | hb
    · rw [ht.heap, Function.update_self]
      exact ⟨rfl, hdata ▸ hsize (hdata ▸ j.isLt)⟩
    · rw [h.recycled_heap ha ht j b hb]
      exact h.free j b hb
  · rw [ht.capacity, h.recycled_cachedCapacity ha ht, h.capacity]
  · rw [ht.capacity, ht.maxCapacity]
    omega

theorem cached_eq_some {cp : Cpool} {idx a : Nat} (h : cached cp idx = some a) :
    ∃ (i : Fin arraySize) (rest : List Nat), i.val = idx ∧ cp.freeList i = a :: rest := by
  simp only [cached, Option.dite_none_right_eq_some] at h
  obtain ⟨hlt, hhead⟩ := h
  obtain ⟨rest, hlist⟩ := List.head?_eq_some_iff.mp hhead
  exact ⟨⟨idx, hlt⟩, rest, rfl, hlist⟩

theorem newSize_spec (initialSize : Nat) :
    (poolIndex initialSize < arraySize →
      newSize initialSize (poolIndex initialSize) = poolSizes (poolIndex initialSize)) ∧
    (arraySize ≤ poolIndex initialSize →
      poolSizes (arraySize - 1) < newSize initialSize (poolIndex initialSize)) := by
  rw [newSize]
  refine ⟨fun hlt => if_pos hlt, fun hge => ?_⟩
  rw [if_neg (not_lt.mpr hge)]
  rcases poolIndex_spec initialSize with ⟨hlt, _⟩ | ⟨_, hlarge⟩
  · exact absurd hlt (not_lt.mpr hge)
  · exact hlarge

theorem createPool (h : Inv s) {initialSize incrementSize alignment : Nat} {answer : Option Nat}
    (hgrants : ∀ mem ∈ answer, Grants s (newSize initialSize (poolIndex initialSize)) mem) :
    Inv (cpoolCreatePool s initialSize incrementSize alignment answer).2 := by
  cases hcached : cached s.cp (poolIndex initialSize) with
  | some a =>
    obtain ⟨i, rest, hi, hlist⟩ := cached_eq_some hcached
    simp only [cpoolCreatePool, hcached]
    rw [← hi]
    exact h.reuse hlist (reused hlist incrementSize alignment) rfl rfl
  | none =>
    simp only [cpoolCreatePool, hcached]
    split
    · rename_i a pool hpool
      obtain ⟨_, hlt, hapart⟩ := hgrants a rfl
      obtain ⟨hok, hregions⟩ :=
        PoolOk.create hpool hlt (newSize_spec initialSize).1 (newSize_spec initialSize).2
      refine h.create hok fun r hr b hb q hq => ?_
      obtain ⟨c, hc, rfl⟩ := List.mem_map.mp hq
      rw [hregions, List.mem_singleton] at hr
      exact hr ▸ hapart b hb c hc
    · exact h

theorem releasePool (h : Inv s) {a : Nat} (ha : a ∈ s.held) : Inv (cpoolReleasePool s a) := by
  have hused : a ∈ s.cp.usedList := h.held ▸ ha
  have hmust : mustDestroy (takeUsed s a).cp ((takeUsed s a).heap a).pool.capacity =
      mustDestroy s.cp (s.heap a).pool.capacity := rfl
  rw [cpoolReleasePool, hmust]
  split
  · exact h.destroy hused
  · rename_i hkeep
    rw [Bool.not_eq_true] at hkeep
    obtain ⟨i, hdata, ht⟩ := h.recycled hused hkeep
    exact h.recycle hused hdata ht hkeep

theorem step {t : State} {a : Action} (h : Inv s) (hs : step s a = some t) : Inv t := by
  cases a with
  | create initialSize incrementSize alignment answer =>
    simp only [CachingPool.step, Option.ite_none_right_eq_some, Option.some.injEq] at hs
    obtain ⟨⟨_, hgrants⟩, rfl⟩ := hs
    exact h.createPool hgrants
  | alloc a alignment size answer =>
    simp only [CachingPool.step, Option.ite_none_right_eq_some, Option.some.injEq] at hs
    obtain ⟨⟨ha, hgrants⟩, rfl⟩ := hs
    exact h.alloc ha hgrants
  | reset a =>
    simp only [CachingPool.step, Option.ite_none_right_eq_some, Option.some.injEq] at hs
    obtain ⟨ha, rfl⟩ := hs
    exact h.reset ha
  | release a =>
    simp only [CachingPool.step, Option.ite_none_right_eq_some, Option.some.injEq] at hs
    obtain ⟨ha, rfl⟩ := hs
    exact h.releasePool ha

end Inv

/-- The accounts of the factory: every live pool is once in one list and the lists hold no other, the
counters are those of the lists, a free list holds pools of its size, and a pool that is reused is large
enough for the request. -/
structure Safe (s : State) : Prop where
  once : ∀ a ∈ s.live, occurrences s.cp a = 1
  only : ∀ a, a ∉ s.live → occurrences s.cp a = 0
  used_count : s.cp.usedCount = s.cp.usedList.length
  capacity : s.cp.capacity = cachedCapacity s
  le_max : s.cp.capacity ≤ s.cp.maxCapacity
  free : ∀ i, ∀ a ∈ s.cp.freeList i, (s.heap a).pool.capacity = poolSizes i
  reuse : ∀ initialSize incrementSize alignment answer a, cached s.cp (poolIndex initialSize) = some a →
    (cpoolCreatePool s initialSize incrementSize alignment answer).1 = some a ∧
    initialSize ≤
      ((cpoolCreatePool s initialSize incrementSize alignment answer).2.heap a).pool.capacity

theorem Inv.safe {s : State} (h : Inv s) : Safe s where
  once a ha := (h.placed.once a).trans (List.count_eq_one_of_mem h.placed.nodup ha)
  only a ha := (h.placed.once a).trans (List.count_eq_zero.mpr ha)
  used_count := h.count
  capacity := h.capacity
  le_max := h.le_max
  free i a ha := (h.free i a ha).2
  reuse initialSize incrementSize alignment answer a hcached := by
    obtain ⟨i, rest, hi, hlist⟩ := Inv.cached_eq_some hcached
    have hcap := (h.free i a (hlist ▸ List.mem_cons_self)).2
    have hsize : initialSize ≤ poolSizes i := by
      rcases poolIndex_spec initialSize with ⟨_, hle⟩ | ⟨hlarge, _⟩
      · exact hi ▸ hle
      · exact absurd (hi.trans hlarge) i.isLt.ne
    simp only [cpoolCreatePool, hcached]
    refine ⟨trivial, hsize.trans_eq ?_⟩
    simp only [CachingPool.reuse, putUsed, Function.update_self, poolInitInt]
    exact hcap.symm

/-- The accounts hold after every run of creations, allocations, resets and releases. -/
theorem accounts_of_run {maxCapacity : Nat} {acts : List Action} {s : State}
    (hrun : exec step (start maxCapacity) acts = some s) : Safe s :=
  (exec_invariant (fun _ _ _ h hs => h.step hs) (Inv.start maxCapacity) hrun).safe

/-- A pool grows while it is used, is cached with its first block, and is handed out again. -/
theorem accounts_of_run_reused : ∃ s, exec step (start 20000)
      [.create 1000 1000 0 (some 4096), .alloc 4096 0 3000 (some 8192), .release 4096,
        .create 600 500 0 none] = some s ∧
    s.cp.usedList = [4096] ∧ s.cp.capacity = 0 ∧ Safe s := by
  have hsome := Option.some_get (x := exec step (start 20000)
    [.create 1000 1000 0 (some 4096), .alloc 4096 0 3000 (some 8192), .release 4096,
      .create 600 500 0 none]) (by decide)
  exact ⟨_, hsome.symm, by decide, by decide, accounts_of_run hsome.symm⟩

end PjProject.CachingPool
