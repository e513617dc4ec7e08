import PjProject.MemoryPool

/-! Allocation safety of the memory pool. The blocks do not meet and the chunks of a block end below
its `cur`, so a new chunk meets none returned earlier. The sizing of a new block is right as long as
its sums do not wrap; a request for which they wrap makes the assertion on the fresh block fail. -/

namespace PjProject.MemoryPool

theorem exists_of_isPowerOfTwo {val : Nat} (h : isPowerOfTwo val = true) : ∃ k, val = 2 ^ k := by
  simp only [isPowerOfTwo, Bool.and_eq_true, decide_eq_true_eq, beq_iff_eq] at h
  exact (Nat.and_sub_one_eq_zero_iff_isPowerOfTwo h.1.ne').mp h.2

section AlignPtr

variable {ptr alignment : Nat}

def alignGap (ptr alignment : Nat) : Nat := (wordSize - ptr) % wordSize % alignment

theorem poolAlignPtr_eq (halign : isPowerOfTwo alignment = true) :
    poolAlignPtr ptr alignment = (ptr + alignGap ptr alignment) % wordSize := by
  obtain ⟨k, rfl⟩ := exists_of_isPowerOfTwo halign
  rw [poolAlignPtr, Nat.and_two_pow_sub_one_eq_mod, alignGap]

theorem alignGap_lt (halign : isPowerOfTwo alignment = true) : alignGap ptr alignment < alignment := by
  obtain ⟨k, rfl⟩ := exists_of_isPowerOfTwo halign
  exact Nat.mod_lt _ (Nat.two_pow_pos k)

theorem dvd_wordSize (halign : isPowerOfTwo alignment = true) (hlt : alignment < wordSize) :
    alignment ∣ wordSize := by
  obtain ⟨k, rfl⟩ := exists_of_isPowerOfTwo halign
  have hk : k < 32 := (Nat.pow_lt_pow_iff_right (by omega)).mp hlt
  exact pow_dvd_pow 2 hk.le

theorem dvd_add_alignGap (halign : isPowerOfTwo alignment = true) (hlt : alignment < wordSize)
    (hptr : ptr < wordSize) : alignment ∣ ptr + alignGap ptr alignment := by
  have hdvd := dvd_wordSize halign hlt
  rw [alignGap, Nat.mod_mod_of_dvd _ hdvd, Nat.dvd_iff_mod_eq_zero, Nat.add_mod_mod,
    Nat.add_sub_of_le hptr.le]
  exact Nat.mod_eq_zero_of_dvd hdvd

/-- The aligned pointer is aligned, and unless the addition wrapped (which the source detects by
comparing with `cur`) it is the pointer plus the gap. -/
theorem poolAlignPtr_spec (halign : isPowerOfTwo alignment = true) (hlt : alignment < wordSize)
    (hptr : ptr < wordSize) (hle : ptr ≤ poolAlignPtr ptr alignment) :
    poolAlignPtr ptr alignment = ptr + alignGap ptr alignment ∧
      alignment ∣ poolAlignPtr ptr alignment := by
  have hgap : alignGap ptr alignment < wordSize := (alignGap_lt halign).trans hlt
  have heq : poolAlignPtr ptr alignment = ptr + alignGap ptr alignment := by
    rw [poolAlignPtr_eq halign] at hle ⊢
    by_cases hsum : ptr + alignGap ptr alignment < wordSize
    · exact Nat.mod_eq_of_lt hsum
    · rw [Nat.mod_eq_sub_mod (by omega), Nat.mod_eq_of_lt (by omega)] at hle
      omega
  exact ⟨heq, heq ▸ dvd_add_alignGap halign hlt hptr⟩

end AlignPtr

structure Block.Valid (b : Block) : Prop where
  pos : 0 < b.mem
  header : b.mem + sizeofPoolBlock ≤ b.buf
  buf_le : b.buf ≤ b.cur
  cur_le : b.cur ≤ b.stop
  lt : b.stop < wordSize

section FromBlock

variable {b : Block} {alignment size : Nat}

theorem poolAllocFromBlock_spec (hb : b.Valid) (halign : isPowerOfTwo alignment = true)
    (hlt : alignment < wordSize) {p : Nat} {b' : Block} (h : poolAllocFromBlock b alignment size = some (p, b')) :
    b.cur ≤ p ∧ p + size ≤ b.stop ∧ alignment ∣ p ∧ b' = { b with cur := p + size } := by
  simp only [poolAllocFromBlock, Option.ite_none_right_eq_some, Option.some.injEq, Prod.mk.injEq] at h
  obtain ⟨⟨hcur, hstop, hsize⟩, rfl, rfl⟩ := h
  have hbound := hb.lt
  have hspec := poolAlignPtr_spec halign hlt (hb.cur_le.trans_lt hb.lt) hcur
  refine ⟨hcur, by omega, hspec.2, ?_⟩
  rw [Nat.mod_eq_of_lt (by omega)]

theorem poolAllocFromBlock_of_room (hb : b.Valid) (halign : isPowerOfTwo alignment = true)
    (hroom : b.cur + (alignment - 1) + size ≤ b.stop) : ∃ r, poolAllocFromBlock b alignment size = some r := by
  have hgap : alignGap b.cur alignment < alignment := alignGap_lt halign
  have hlt := hb.lt
  have heq : poolAlignPtr b.cur alignment = b.cur + alignGap b.cur alignment := by
    rw [poolAlignPtr_eq halign]
    exact Nat.mod_eq_of_lt (by omega)
  refine ⟨_, if_pos ⟨?_, ?_, ?_⟩⟩ <;> omega

end FromBlock

/-- A search that finds room bumps one block and leaves the others. -/
theorem searchBlocks_eq_some {alignment size i : Nat} {blocks blocks' : List Block} {p : Nat}
    (h : searchBlocks alignment size i blocks = some (p, blocks')) :
    ∃ front b b' back, blocks = front ++ b :: back ∧ blocks' = front ++ b' :: back ∧
      poolAllocFromBlock b alignment size = some (p, b') := by
  induction blocks generalizing i blocks' with
  | nil => simp [searchBlocks] at h
  | cons b rest ih =>
    rw [searchBlocks] at h
    cases halloc : poolAllocFromBlock b alignment size with
    | some r =>
      simp only [halloc, Option.some.injEq, Prod.mk.injEq] at h
      obtain ⟨rfl, rfl⟩ := h
      exact ⟨[], b, r.2, rest, rfl, rfl, halloc⟩
    | none =>
      simp only [halloc, Option.ite_none_left_eq_some, Option.map_eq_some_iff, Prod.mk.injEq] at h
      obtain ⟨_, r, hr, rfl, rfl⟩ := h
      obtain ⟨front, c, c', back, rfl, hback, hc⟩ := ih hr
      exact ⟨b :: front, c, c', back, rfl, by rw [hback]; rfl, hc⟩

/-- What every pool satisfies: valid blocks that do not meet, a capacity that is the memory they take,
the pool's own header before the first block, and an alignment of 32 bits. -/
structure Pool.Valid (pool : Pool) : Prop where
  block : ∀ b ∈ pool.blockList, b.Valid
  apart : (pool.blockList.map Block.region).Pairwise Interval.Apart
  capacity : pool.capacity = ((pool.blockList.map Block.region).map Interval.length).sum
  first : ∃ rest b, pool.blockList = rest ++ [b] ∧ b.buf = b.mem + sizeofPool + sizeofPoolBlock ∧
    ∀ c ∈ rest, c.buf = c.mem + sizeofPoolBlock
  align : isPowerOfTwo pool.alignment = true
  align_lt : pool.alignment < wordSize

/-- The chunks handed out: aligned, below `cur` in one block, pairwise apart. -/
structure ChunksValid (pool : Pool) (chunks : List Chunk) : Prop where
  aligned : ∀ c ∈ chunks, c.alignment ∣ c.ptr
  inside : ∀ c ∈ chunks, ∃ b ∈ pool.blockList, b.buf ≤ c.ptr ∧ c.ptr + c.size ≤ b.cur
  apart : chunks.Pairwise fun c d => Interval.Apart c.span d.span

section Bump

variable {pool : Pool} {front back : List Block} {b : Block} {p size : Nat}

theorem Pool.Valid.bump (h : pool.Valid) (hlist : pool.blockList = front ++ b :: back)
    (hcur : b.cur ≤ p) (hstop : p + size ≤ b.stop) :
    Pool.Valid { pool with blockList := front ++ { b with cur := p + size } :: back } := by
  have hregion : (front ++ { b with cur := p + size } :: back).map Block.region =
      pool.blockList.map Block.region := by
    rw [hlist]
    simp [Block.region]
  refine ⟨fun c hc => ?_, hregion ▸ h.apart, hregion ▸ h.capacity, ?_, h.align, h.align_lt⟩
  · simp only [List.mem_append, List.mem_cons] at hc
    have hb := h.block b (by simp [hlist])
    rcases hc with hc | rfl | hc
    · exact h.block c (by simp [hlist, hc])
    · exact ⟨hb.pos, hb.header, hb.buf_le.trans (hcur.trans (Nat.le_add_right _ _)), hstop, hb.lt⟩
    · exact h.block c (by simp [hlist, hc])
  · obtain ⟨rest, last, hrest, hlast, hheads⟩ := h.first
    rcases List.eq_nil_or_concat back with rfl | ⟨back', last', rfl⟩
    · obtain ⟨rfl, hb⟩ := List.append_inj' (hlist.symm.trans hrest) rfl
      cases hb
      exact ⟨front, _, rfl, hlast, hheads⟩
    · rw [List.concat_eq_append] at hlist
      have hsplit : (front ++ b :: back') ++ [last'] = rest ++ [last] := by
        rw [← hrest, hlist]
        simp
      obtain ⟨rfl, hb⟩ := List.append_inj' hsplit rfl
      cases hb
      refine ⟨front ++ { b with cur := p + size } :: back', last, by simp, hlast, fun c hc => ?_⟩
      simp only [List.mem_append, List.mem_cons] at hc
      rcases hc with hc | rfl | hc
      · exact hheads c (by simp [hc])
      · exact hheads b (by simp)
      · exact hheads c (by simp [hc])

/-- A chunk of another block, or below `cur` of the same block, is apart from the new one. -/
theorem Pool.Valid.apart_bump (h : pool.Valid) (hlist : pool.blockList = front ++ b :: back)
    (hcur : b.cur ≤ p) (hstop : p + size ≤ b.stop) {c : Chunk} {d : Block} (hd : d ∈ pool.blockList)
    (hlo : d.buf ≤ c.ptr) (hhi : c.ptr + c.size ≤ d.cur) : (p + size ≤ c.ptr ∨ c.ptr + c.size ≤ p) := by
  have hb := h.block b (by simp [hlist])
  have hd' := h.block d hd
  have hmem := hb.header
  have hmem' := hd'.header
  have hcurd := hd'.cur_le
  have hapart : d = b ∨ Interval.Apart d.region b.region := by
    have hpair := h.apart
    rw [hlist, List.map_append, List.map_cons, List.pairwise_append, List.pairwise_cons] at hpair
    rw [hlist, List.mem_append, List.mem_cons] at hd
    rcases hd with hd | rfl | hd
    · exact .inr (hpair.2.2 _ (List.mem_map_of_mem hd) _ List.mem_cons_self)
    · exact .inl rfl
    · exact .inr (hpair.2.1.1 _ (List.mem_map_of_mem hd)).symm
  have hbufb := hb.buf_le
  rcases hapart with rfl | hapart | hapart
  · exact .inr (hhi.trans hcur)
  · simp only [Block.region] at hapart
    right
    omega
  · simp only [Block.region] at hapart
    left
    omega

theorem ChunksValid.bump {chunks : List Chunk} (hc : ChunksValid pool chunks) (h : pool.Valid)
    (hlist : pool.blockList = front ++ b :: back) (hcur : b.cur ≤ p) (hstop : p + size ≤ b.stop)
    {alignment : Nat} (haligned : alignment ∣ p) :
    ChunksValid { pool with blockList := front ++ { b with cur := p + size } :: back }
      (⟨p, size, alignment⟩ :: chunks) := by
  have hb := h.block b (by simp [hlist])
  refine ⟨?_, ?_, List.pairwise_cons.mpr ⟨fun c hmem => ?_, hc.apart⟩⟩
  · intro c hmem
    rcases List.mem_cons.mp hmem with rfl | hmem
    · exact haligned
    · exact hc.aligned c hmem
  · intro c hmem
    rcases List.mem_cons.mp hmem with rfl | hmem
    · exact ⟨{ b with cur := p + size }, by simp, hb.buf_le.trans hcur, le_rfl⟩
    · obtain ⟨d, hd, hlo, hhi⟩ := hc.inside c hmem
      rw [hlist, List.mem_append, List.mem_cons] at hd
      rcases hd with hd | rfl | hd
      · exact ⟨d, by simp [hd], hlo, hhi⟩
      · exact ⟨{ d with cur := p + size }, by simp, hlo, hhi.trans (hcur.trans (Nat.le_add_right _ _))⟩
      · exact ⟨d, by simp [hd], hlo, hhi⟩
  · obtain ⟨d, hd, hlo, hhi⟩ := hc.inside c hmem
    exact h.apart_bump hlist hcur hstop hd hlo hhi

end Bump

/-- Without wrap-around the new block has room for its header, the largest gap and the chunk. -/
theorem le_expandSize {pool : Pool} {alignment size : Nat} (hpos : 0 < pool.incrementSize)
    (hsum : pool.incrementSize + sizeofPoolBlock + (alignment - 1) + size < wordSize) :
    sizeofPoolBlock + (alignment - 1) + size ≤ expandSize pool alignment size := by
  rw [expandSize, Nat.mod_eq_of_lt (by omega), Nat.mod_eq_of_lt hsum]
  split
  · have hdiv := Nat.div_add_mod (pool.incrementSize + sizeofPoolBlock + (alignment - 1) + size)
      pool.incrementSize
    have hmod := Nat.mod_lt (pool.incrementSize + sizeofPoolBlock + (alignment - 1) + size) hpos
    rw [Nat.mul_comm] at hdiv
    rw [Nat.mod_eq_of_lt (by omega)]
    omega
  · omega

/-- The pool with a new empty block in front. The capacity does not wrap: all blocks lie apart below
`wordSize`. -/
theorem Pool.Valid.createBlock {pool grown : Pool} {size mem : Nat} (h : pool.Valid)
    (hgrants : Grants pool size mem) (hsize : sizeofPoolBlock ≤ size)
    (hgrown : poolCreateBlock pool size (some mem) = some grown) :
    grown.Valid ∧ grown.alignment = pool.alignment ∧ grown.blockList =
      ⟨mem, mem + sizeofPoolBlock, mem + sizeofPoolBlock, mem + size⟩ :: pool.blockList := by
  obtain ⟨hpos, hlt, hapart⟩ := hgrants
  have hpair : List.Pairwise Interval.Apart
      (⟨mem, mem + size⟩ :: pool.blockList.map Block.region) := by
    refine List.pairwise_cons.mpr ⟨fun i hi => ?_, h.apart⟩
    obtain ⟨b, hb, rfl⟩ := List.mem_map.mp hi
    exact hapart b hb
  have hsum := Interval.sum_length_le (wordSize - 1) hpair (by
    intro i hi
    rcases List.mem_cons.mp hi with rfl | hi
    · simp only
      omega
    · obtain ⟨b, hb, rfl⟩ := List.mem_map.mp hi
      have := (h.block b hb).lt
      simp only [Block.region]
      omega)
  have hlen : Interval.length ⟨mem, mem + size⟩ = size := by simp [Interval.length]
  rw [List.map_cons, List.sum_cons, ← h.capacity, hlen] at hsum
  have hhead : mem + sizeofPoolBlock < wordSize := by omega
  have hword : 0 < wordSize := by omega
  simp only [poolCreateBlock, Option.map_some, Option.some.injEq] at hgrown
  subst hgrown
  rw [Nat.mod_eq_of_lt hhead, Nat.mod_eq_of_lt hlt, Nat.mod_eq_of_lt (by omega)]
  refine ⟨⟨fun b hb => ?_, ?_, ?_, ?_, h.align, h.align_lt⟩, rfl, rfl⟩
  · rcases List.mem_cons.mp hb with rfl | hb
    · exact ⟨hpos, le_rfl, le_rfl, by simp only; omega, hlt⟩
    · exact h.block b hb
  · exact hpair
  · change pool.capacity + size = _
    rw [List.map_cons, List.map_cons, List.sum_cons, ← h.capacity, Nat.add_comm]
    exact congrArg (· + pool.capacity) hlen.symm
  · obtain ⟨rest, first, hrest, hfirst, hheads⟩ := h.first
    refine ⟨_ :: rest, first, by rw [hrest]; rfl, hfirst, fun c hc => ?_⟩
    rcases List.mem_cons.mp hc with rfl | hc
    · rfl
    · exact hheads c hc

theorem ChunksValid.createBlock {pool grown : Pool} {chunks : List Chunk} {b : Block}
    (hc : ChunksValid pool chunks) (hlist : grown.blockList = b :: pool.blockList) : ChunksValid grown chunks := by
  refine ⟨hc.aligned, fun c hmem => ?_, hc.apart⟩
  obtain ⟨d, hd, hlo, hhi⟩ := hc.inside c hmem
  exact ⟨d, hlist ▸ List.mem_cons_of_mem _ hd, hlo, hhi⟩

/-- The chunks after a request that returned `ptr`. -/
def addChunk (chunks : List Chunk) (size alignment : Nat) : Option Nat → List Chunk
  | some p => ⟨p, size, alignment⟩ :: chunks
  | none => chunks

def Result.Keeps (r : Result) (chunks : List Chunk) (size alignment : Nat) : Prop :=
  r.pool.Valid ∧ ChunksValid r.pool (addChunk chunks size alignment r.ptr) ∧ r.assertFailed = false

section Alloc

variable {pool : Pool} {chunks : List Chunk} {alignment size : Nat}

theorem keeps_of_bump (h : pool.Valid) (hc : ChunksValid pool chunks)
    (halign : isPowerOfTwo alignment = true) (hlt : alignment < wordSize)
    {front back : List Block} {b b' : Block} {p : Nat} (hlist : pool.blockList = front ++ b :: back)
    (halloc : poolAllocFromBlock b alignment size = some (p, b')) :
    Result.Keeps ⟨{ pool with blockList := front ++ b' :: back }, some p, none, false⟩
      chunks size alignment := by
  obtain ⟨hcur, hstop, hdvd, rfl⟩ :=
    poolAllocFromBlock_spec (h.block b (by simp [hlist])) halign hlt halloc
  exact ⟨h.bump hlist hcur hstop, hc.bump h hlist hcur hstop hdvd, rfl⟩

/-- The allocation from a block just created for the request succeeds. -/
theorem keeps_allocFresh (h : pool.Valid) (hc : ChunksValid pool chunks)
    (halign : isPowerOfTwo alignment = true) (hlt : alignment < wordSize)
    {b : Block} {rest : List Block} (hlist : pool.blockList = b :: rest)
    (hroom : b.cur + (alignment - 1) + size ≤ b.stop) :
    (allocFresh pool alignment size).Keeps chunks size alignment := by
  obtain ⟨⟨p, b'⟩, hr⟩ := poolAllocFromBlock_of_room (h.block b (by simp [hlist])) halign hroom
  have hkeeps := keeps_of_bump h hc halign hlt (hlist.trans (List.nil_append _).symm) hr
  simpa only [allocFresh, hlist, hr, List.nil_append] using hkeeps

theorem keeps_allocateFind (h : pool.Valid) (hc : ChunksValid pool chunks)
    (halign : isPowerOfTwo alignment = true) (hlt : alignment < wordSize) {answer : Option Nat}
    (hgrants : ∀ mem ∈ answer, Grants pool (expandSize pool alignment size) mem)
    (hwrap : searchBlocks alignment size 0 pool.blockList = none → pool.incrementSize ≠ 0 →
      answer ≠ none → pool.incrementSize + sizeofPoolBlock + (alignment - 1) + size < wordSize) :
    (poolAllocateFind pool alignment size answer).Keeps chunks size alignment := by
  unfold poolAllocateFind
  cases hsearch : searchBlocks alignment size 0 pool.blockList with
  | some r =>
    obtain ⟨front, b, b', back, hlist, hr, halloc⟩ := searchBlocks_eq_some hsearch
    have hkeeps := keeps_of_bump h hc halign hlt hlist halloc
    rw [← hr] at hkeeps
    exact hkeeps
  | none =>
    by_cases hincr : pool.incrementSize = 0
    · simp only [hincr, if_true]
      exact ⟨h, hc, rfl⟩
    simp only [hincr, if_false]
    cases answer with
    | none => exact ⟨h, hc, rfl⟩
    | some mem =>
      have hsum := hwrap hsearch hincr (by simp)
      have hroom := le_expandSize (Nat.pos_of_ne_zero hincr) hsum
      cases hgrown : poolCreateBlock pool (expandSize pool alignment size) (some mem) with
      | none => simp [poolCreateBlock] at hgrown
      | some grown =>
        obtain ⟨hvalid, _, hlist⟩ :=
          h.createBlock (hgrants mem rfl) (by omega) hgrown
        refine keeps_allocFresh hvalid (hc.createBlock hlist) halign hlt hlist ?_
        simp only
        omega

end Alloc

theorem Pool.Valid.effectiveAlignment {pool : Pool} (h : pool.Valid) {alignment : Nat}
    (hlt : alignment < wordSize) (halign : ¬(alignment ≠ 0 ∧ isPowerOfTwo alignment = false)) :
    isPowerOfTwo (effectiveAlignment pool alignment) = true ∧
      MemoryPool.effectiveAlignment pool alignment < wordSize := by
  unfold MemoryPool.effectiveAlignment
  split
  · exact ⟨h.align, h.align_lt⟩
  · rename_i hne
    exact ⟨by simpa [hne] using halign, hlt⟩

/-- The condition under which a request is sized right: it is served by a block that is searched, the
pool may not grow or gets no memory, or the sums that size the new block do not wrap. -/
def NoWrap (s : State) : Action → Prop
  | .reset => True
  | .alloc alignment size answer =>
    (searchBlocks (effectiveAlignment s.pool alignment) size 0 s.pool.blockList).isSome = true ∨
    s.pool.incrementSize = 0 ∨ answer = none ∨
    s.pool.incrementSize + sizeofPoolBlock + (effectiveAlignment s.pool alignment - 1) + size < wordSize

theorem keeps_alignedAlloc {pool : Pool} {chunks : List Chunk} {alignment size : Nat}
    (h : pool.Valid) (hc : ChunksValid pool chunks) (hlt : alignment < wordSize) {answer : Option Nat}
    (hgrants : ∀ mem ∈ answer,
      Grants pool (expandSize pool (effectiveAlignment pool alignment) size) mem)
    (hwrap : NoWrap ⟨pool, chunks, false⟩ (.alloc alignment size answer)) :
    (poolAlignedAlloc pool alignment size answer).Keeps chunks size
      (effectiveAlignment pool alignment) := by
  unfold poolAlignedAlloc
  split
  · exact ⟨h, hc, rfl⟩
  rename_i hpow
  obtain ⟨halign, hefflt⟩ := h.effectiveAlignment hlt hpow
  have hfind : (poolAllocateFind pool (effectiveAlignment pool alignment) size answer).Keeps chunks size
      (effectiveAlignment pool alignment) := by
    refine keeps_allocateFind h hc halign hefflt hgrants fun hnone hincr hanswer => ?_
    rcases hwrap with hserved | hzero | hno | hsum
    · rw [hnone] at hserved
      cases hserved
    · exact absurd hzero hincr
    · exact absurd hno hanswer
    · exact hsum
  split
  · exact hfind
  · rename_i b rest hlist
    cases halloc : poolAllocFromBlock b (effectiveAlignment pool alignment) size with
    | some r =>
      simp only [halloc]
      exact keeps_of_bump h hc halign hefflt (hlist.trans (List.nil_append _).symm) halloc
    | none =>
      simp only [halloc]
      exact hfind

theorem Pool.Valid.reset {pool : Pool} (h : pool.Valid) : (resetPool pool).Valid := by
  obtain ⟨rest, b, hlist, hbuf, _⟩ := h.first
  have hb := h.block b (by simp [hlist])
  have hlt := hb.lt
  have hle : b.mem ≤ b.stop := by
    have := hb.header
    have := hb.buf_le
    have := hb.cur_le
    omega
  have hcap : (wordSize + b.stop - b.mem) % wordSize = b.stop - b.mem := by
    rw [Nat.add_sub_assoc hle, Nat.add_mod_left, Nat.mod_eq_of_lt (by omega)]
  simp only [resetPool, hlist, List.getLast?_append, List.getLast?_singleton, Option.some_or, hcap]
  refine ⟨fun c hc => ?_, List.pairwise_singleton _ _, ?_, ⟨[], _, rfl, hbuf, by simp⟩, h.align,
    h.align_lt⟩
  · rw [List.mem_singleton.mp hc]
    exact ⟨hb.pos, hb.header, le_rfl, hb.buf_le.trans hb.cur_le, hb.lt⟩
  · simp [Block.region, Interval.length]

theorem poolGetUsedSize_eq {pool : Pool} {total : Nat}
    (hsum : sizeofPool + (pool.blockList.map fun b => b.cur - b.buf + sizeofPoolBlock).sum = total)
    (hlt : total < wordSize) : poolGetUsedSize pool = total := by
  have hfold : ∀ (l : List Block) (used : Nat),
      used + (l.map fun b => b.cur - b.buf + sizeofPoolBlock).sum < wordSize →
      l.foldl (fun used b => (used + (b.cur - b.buf + sizeofPoolBlock)) % wordSize) used =
        used + (l.map fun b => b.cur - b.buf + sizeofPoolBlock).sum := by
    intro l
    induction l with
    | nil => intro used _; rfl
    | cons b l ih =>
      intro used hused
      rw [List.map_cons, List.sum_cons] at hused ⊢
      rw [List.foldl_cons, Nat.mod_eq_of_lt (by omega), ih _ (by omega)]
      omega
  rw [poolGetUsedSize, hfold _ _ (by omega), hsum]

/-- The bytes in use are the headers and what lies below each `cur`. -/
theorem Pool.Valid.used_le {pool : Pool} (h : pool.Valid) : poolGetUsedSize pool ≤ pool.capacity := by
  have hlt : pool.capacity < wordSize := by
    have hsum := Interval.sum_length_le (wordSize - 1) h.apart (by
      intro i hi
      obtain ⟨b, hb, rfl⟩ := List.mem_map.mp hi
      have := (h.block b hb).lt
      simp only [Block.region]
      omega)
    rw [← h.capacity] at hsum
    have : 0 < wordSize := by decide
    omega
  have hle : sizeofPool + (pool.blockList.map fun b => b.cur - b.buf + sizeofPoolBlock).sum ≤
      pool.capacity := by
    obtain ⟨rest, first, hlist, hfirst, hheads⟩ := h.first
    have hb := h.block first (by simp [hlist])
    have hrest : (rest.map fun b => b.cur - b.buf + sizeofPoolBlock).sum ≤
        ((rest.map Block.region).map Interval.length).sum := by
      rw [List.map_map]
      refine List.sum_le_sum fun b hmem => ?_
      have hv := h.block b (by simp [hlist, hmem])
      have hbuf := hheads b hmem
      have := hv.buf_le
      have := hv.cur_le
      simp only [Function.comp, Interval.length, Block.region]
      omega
    have := hb.buf_le
    have := hb.cur_le
    rw [h.capacity, hlist]
    simp only [List.map_append, List.map_cons, List.map_nil, List.sum_append, List.sum_cons,
      List.sum_nil, Interval.length, Block.region] at hrest ⊢
    omega
  rw [poolGetUsedSize_eq rfl (by omega)]
  exact hle

/-- A pool that `pj_pool_create_int` returned, from 32-bit arguments and memory the factory granted. -/
structure Created (initialSize incrementSize alignment mem : Nat) (pool : Pool) : Prop where
  increment_lt : incrementSize < wordSize
  align_lt : alignment < wordSize
  pos : 0 < mem
  fits : mem + initialSize < wordSize
  eq : poolCreateInt initialSize incrementSize alignment (some mem) = some pool

theorem Created.valid {initialSize incrementSize alignment mem : Nat} {pool : Pool}
    (h : Created initialSize incrementSize alignment mem pool) : pool.Valid := by
  have heq := h.eq
  have hfits := h.fits
  simp only [poolCreateInt, Option.map_some, Option.ite_none_left_eq_some, Option.some.injEq] at heq
  obtain ⟨hsize, hpow, rfl⟩ := heq
  rw [Nat.mod_eq_of_lt (by omega), Nat.mod_eq_of_lt h.fits]
  refine ⟨fun c hc => ?_, List.pairwise_singleton _ _, ?_, ⟨[], _, rfl, rfl, by simp⟩, ?_, ?_⟩
  · rw [List.mem_singleton.mp hc]
    exact ⟨h.pos, by simp only; omega, le_rfl, by simp only; omega, h.fits⟩
  · simp [Block.region, Interval.length]
  · simp only
    split
    · decide
    · rename_i hne
      simpa [hne] using hpow
  · simp only
    split
    · decide
    · exact h.align_lt

/-- What the pool promises: every chunk is aligned as requested and inside the buffer of one block,
no two meet, the used size is within the capacity and no assertion on a fresh block failed. -/
structure Safe (s : State) : Prop where
  aligned : ∀ c ∈ s.chunks, c.ptr % c.alignment = 0
  inside : ∀ c ∈ s.chunks, ∃ b ∈ s.pool.blockList, b.buf ≤ c.ptr ∧ c.ptr + c.size ≤ b.stop
  apart : s.chunks.Pairwise fun c d => Interval.Apart c.span d.span
  used_le : poolGetUsedSize s.pool ≤ s.pool.capacity
  assert : s.assertFailed = false

structure Inv (s : State) : Prop where
  valid : s.pool.Valid
  chunks : ChunksValid s.pool s.chunks
  assert : s.assertFailed = false

theorem Inv.safe {s : State} (h : Inv s) : Safe s where
  aligned c hc := Nat.mod_eq_zero_of_dvd (h.chunks.aligned c hc)
  inside c hc := by
    obtain ⟨b, hb, hlo, hhi⟩ := h.chunks.inside c hc
    exact ⟨b, hb, hlo, hhi.trans (h.valid.block b hb).cur_le⟩
  apart := h.chunks.apart
  used_le := h.valid.used_le
  assert := h.assert

theorem Inv.step {s t : State} {a : Action} (h : Inv s) (hcond : NoWrap s a) (hs : step s a = some t) : Inv t := by
  cases a with
  | reset =>
    obtain rfl := Option.some.inj hs
    exact ⟨h.valid.reset, ⟨by simp, by simp, List.Pairwise.nil⟩, h.assert⟩
  | alloc alignment size answer =>
    simp only [MemoryPool.step, Option.ite_none_right_eq_some, Option.some.injEq] at hs
    obtain ⟨⟨halign, _, hgrants⟩, rfl⟩ := hs
    obtain ⟨hvalid, hchunks, hassert⟩ :=
      keeps_alignedAlloc h.valid h.chunks halign hgrants hcond
    refine ⟨hvalid, ?_, by simp [h.assert, hassert]⟩
    revert hchunks
    cases (poolAlignedAlloc s.pool alignment size answer).ptr <;> exact id

/-- Every run of requests, none of which wraps the sizing of a new block, is safe. -/
theorem safe_of_run {initialSize incrementSize alignment mem : Nat} {pool : Pool}
    (hcreated : Created initialSize incrementSize alignment mem pool) {acts : List Action} {s : State}
    (hmeets : Meets step NoWrap (start pool) acts) (hrun : exec step (start pool) acts = some s) :
    Safe s := by
  have hstart : Inv (start pool) := ⟨hcreated.valid, ⟨nofun, nofun, List.Pairwise.nil⟩, rfl⟩
  exact (exec_invariant_of_meets (fun _ _ _ h hcond hs => h.step hcond hs) hstart hmeets hrun).safe

/-- A pool of 256 bytes that grows by 1000: a run of a small and a large request. -/
theorem safe_of_run_growing : ∃ s, exec step
      (start ⟨256, 1000, 8, [⟨4096, 4200, 4200, 4352⟩]⟩)
      [.alloc 0 100 none, .alloc 64 3000 (some 8192)] = some s ∧
    s.chunks = [⟨8256, 3000, 64⟩, ⟨4200, 100, 8⟩] ∧ Safe s := by
  have hsome := Option.some_get (x := exec step (start ⟨256, 1000, 8, [⟨4096, 4200, 4200, 4352⟩]⟩)
    [.alloc 0 100 none, .alloc 64 3000 (some 8192)]) (by decide)
  refine ⟨_, hsome.symm, by decide, ?_⟩
  have hcreated : Created 256 1000 0 4096 ⟨256, 1000, 8, [⟨4096, 4200, 4200, 4352⟩]⟩ :=
    ⟨by decide, by decide, by decide, by decide, by decide⟩
  refine safe_of_run hcreated ?_ hsome.symm
  refine ⟨.inl (by decide), fun t ht => ⟨.inr (.inr (.inr ?_)), fun _ _ => trivial⟩⟩
  obtain rfl := Option.some.inj ht
  decide

/-- A request of `2^32 - 24` bytes wraps the size it is compared with, the new block has the size of
the increment, and the assertion on it fails. -/
theorem assert_fails_on_wrap : ∃ s, exec step
      (start ⟨256, 1000, 8, [⟨4096, 4200, 4200, 4352⟩]⟩)
      [.alloc 0 (2 ^ 32 - 24) (some 8192)] = some s ∧
    poolCreateInt 256 1000 0 (some 4096) = some ⟨256, 1000, 8, [⟨4096, 4200, 4200, 4352⟩]⟩ ∧
    s.assertFailed = true ∧ ¬Safe s := by
  have hsome := Option.some_get (x := exec step (start ⟨256, 1000, 8, [⟨4096, 4200, 4200, 4352⟩]⟩)
    [.alloc 0 (2 ^ 32 - 24) (some 8192)]) (by decide)
  have hfailed : ((exec step (start ⟨256, 1000, 8, [⟨4096, 4200, 4200, 4352⟩]⟩)
    [.alloc 0 (2 ^ 32 - 24) (some 8192)]).get (by decide)).assertFailed = true := by decide
  exact ⟨_, hsome.symm, by decide, hfailed, fun hsafe => by rw [hsafe.assert] at hfailed; cases hfailed⟩

end PjProject.MemoryPool
