import PjProject.TimerHeapReheap

/-! The three arrays of the timer heap agree: the heap is ordered, `timer_ids` finds each node, the ids
that are not in use form the free list, and an entry is running when and only when it is in the heap. -/

namespace PjProject.TimerHeap

open BinaryHeap

variable {E G A P : Type}

def InUse (ht : Heap E G A) (i : Int) : Prop := ∃ s, s < ht.curSize ∧ ht.heap s = i

structure Inv (ht : Heap E G A) : Prop where
  size : ht.curSize + 2 ≤ ht.maxSize
  ordered : Ordered ht.value ht.curSize
  index : ∀ s, s < ht.curSize → ht.timerIds (ht.heap s) = s
  range : ∀ i, InUse ht i → 1 ≤ i ∧ i < ht.maxSize
  dup : ∀ i, InUse ht i → (ht.timerDups i).dup.timerId = i
  entry : ∀ i, InUse ht i → (ht.entries (ht.timerDups i).entry).timerId = i
  running : ∀ e, 1 ≤ (ht.entries e).timerId → ∃ i, InUse ht i ∧ (ht.timerDups i).entry = e
  free : ∃ ids : List Int, Links (fun i => -ht.timerIds i) ht.timerIdsFreelist ids ht.maxSize ∧
    ids.Nodup ∧ ids.length + ht.curSize + 1 = ht.maxSize ∧
    ∀ i, i ∈ ids ↔ 1 ≤ i ∧ i < ht.maxSize ∧ ¬ InUse ht i

section Heap

variable {ht ht' : Heap E G A}

theorem Inv.inj (h : Inv ht) {s t : Nat} (hs : s < ht.curSize) (ht' : t < ht.curSize)
    (heq : ht.heap s = ht.heap t) : s = t := by
  have hindex := h.index s hs
  rw [heq, h.index t ht'] at hindex
  exact_mod_cast hindex.symm

/-- The free list is not empty, and its first id is the one that `pop_freelist` reads. -/
theorem Inv.first (h : Inv ht) : ∃ rest : List Int,
    Links (fun i => -ht.timerIds i) (-ht.timerIds ht.timerIdsFreelist) rest ht.maxSize ∧
    (ht.timerIdsFreelist :: rest).Nodup ∧ rest.length + ht.curSize + 2 = ht.maxSize ∧
    ∀ i, i ∈ ht.timerIdsFreelist :: rest ↔ 1 ≤ i ∧ i < ht.maxSize ∧ ¬ InUse ht i := by
  obtain ⟨ids, hlinks, hnodup, hlen, hmem⟩ := h.free
  have hsize := h.size
  cases ids with
  | nil =>
    simp only [List.length_nil] at hlen
    omega
  | cons i rest =>
    obtain ⟨rfl, hrest⟩ := hlinks
    simp only [List.length_cons] at hlen
    exact ⟨rest, hrest, hnodup, by omega, hmem⟩

/-- Only the data that no array depends on differs. -/
theorem Inv.congr (h : Inv ht) (hmax : ht'.maxSize = ht.maxSize) (hcur : ht'.curSize = ht.curSize)
    (hheap : ht'.heap = ht.heap) (hids : ht'.timerIds = ht.timerIds)
    (hfree : ht'.timerIdsFreelist = ht.timerIdsFreelist)
    (hdups : ∀ i, (ht'.timerDups i).dup.timerId = (ht.timerDups i).dup.timerId ∧
      (ht'.timerDups i).entry = (ht.timerDups i).entry ∧
      (ht'.timerDups i).timerValue = (ht.timerDups i).timerValue)
    (hentries : ∀ e, 1 ≤ (ht'.entries e).timerId ∨ 1 ≤ (ht.entries e).timerId →
      (ht'.entries e).timerId = (ht.entries e).timerId) : Inv ht' := by
  have huse : ∀ i, InUse ht' i ↔ InUse ht i := fun i => by rw [InUse, InUse, hcur, hheap]
  have hvalue : ht'.value = ht.value := by
    funext s
    rw [Heap.value, Heap.value, (hdups _).2.2, hheap]
  constructor
  · rw [hcur, hmax]
    exact h.size
  · rw [hvalue, hcur]
    exact h.ordered
  · rw [hcur, hheap, hids]
    exact h.index
  · intro i hi
    rw [hmax]
    exact h.range i ((huse i).mp hi)
  · intro i hi
    rw [(hdups i).1]
    exact h.dup i ((huse i).mp hi)
  · intro i hi
    have hi' := (huse i).mp hi
    have hid := h.entry i hi'
    have hrange := h.range i hi'
    rw [(hdups i).2.1, hentries _ (.inr (by omega)), hid]
  · intro e he
    obtain ⟨i, hi, hie⟩ := h.running e (hentries e (.inl he) ▸ he)
    exact ⟨i, (huse i).mpr hi, (hdups i).2.1.trans hie⟩
  · rw [hfree, hmax, hcur, hids]
    obtain ⟨ids, hlinks, hnodup, hlen, hmem⟩ := h.free
    exact ⟨ids, hlinks, hnodup, hlen, fun i => by rw [hmem, huse]⟩

section Grow

theorem growHeap_maxSize (ht : Heap E G A) :
    (growHeap ht ⟨true, true, true⟩).1.maxSize = ht.maxSize + ht.maxSize := Nat.mul_two ht.maxSize

theorem growHeap_heap (ht : Heap E G A) {s : Nat} (hs : s < ht.curSize) :
    (growHeap ht ⟨true, true, true⟩).1.heap s = ht.heap s := if_pos hs

theorem growHeap_inUse (ht : Heap E G A) (i : Int) : InUse (growHeap ht ⟨true, true, true⟩).1 i ↔ InUse ht i :=
  exists_congr fun s => and_congr_right fun hs => by rw [growHeap_heap ht hs]

theorem growHeap_timerIds {i : Int} (hi : i < ht.maxSize) :
    (growHeap ht ⟨true, true, true⟩).1.timerIds i = ht.timerIds i := if_neg fun hc => by omega

theorem grown_links (next : Int → Int) (start n : Nat)
    (hnext : ∀ i : Int, start ≤ i → i < start + n → next i = i + 1) :
    Links next start ((List.range' start n).map fun k : Nat => (k : Int)) (start + n : Nat) := by
  induction n generalizing start with
  | zero => rfl
  | succ n ih =>
    refine ⟨rfl, ?_⟩
    rw [hnext start le_rfl (by omega), ← Nat.add_assoc, Nat.add_right_comm start n 1]
    exact ih (start + 1) fun i hlo hhi => hnext i (by omega) (by push_cast at hhi ⊢; omega)

theorem Inv.grow_free (h : Inv ht) :
    ∃ ids : List Int, Links (fun i => -(growHeap ht ⟨true, true, true⟩).1.timerIds i) ht.timerIdsFreelist
        ids (growHeap ht ⟨true, true, true⟩).1.maxSize ∧
      ids.Nodup ∧ ids.length + ht.curSize + 1 = (growHeap ht ⟨true, true, true⟩).1.maxSize ∧
      ∀ i, i ∈ ids ↔ 1 ≤ i ∧ i < (growHeap ht ⟨true, true, true⟩).1.maxSize ∧
        ¬ InUse (growHeap ht ⟨true, true, true⟩).1 i := by
  have hsize := h.size
  obtain ⟨ids, hlinks, hnodup, hlen, hmem⟩ := h.free
  rw [growHeap_maxSize]
  refine ⟨ids ++ (List.range' ht.maxSize ht.maxSize).map fun k : Nat => (k : Int), ?_, ?_, ?_, ?_⟩
  · refine (hlinks.congr fun i hi => ?_).append (grown_links _ _ _ fun i hlo hhi => ?_)
    · rw [growHeap_timerIds ((hmem i).mp hi).2.1]
    · have hnew : (growHeap ht ⟨true, true, true⟩).1.timerIds i = -(i + 1) := if_pos (by omega)
      rw [hnew, neg_neg]
  · refine hnodup.append ?_ ?_
    · exact (List.nodup_range' 1).map fun _ _ => Int.ofNat.inj
    · intro i hi hi'
      have hlt := ((hmem i).mp hi).2.1
      obtain ⟨k, hk, rfl⟩ := List.mem_map.mp hi'
      rw [List.mem_range'_1] at hk
      omega
  · rw [List.length_append, List.length_map, List.length_range']
    omega
  · intro i
    rw [List.mem_append, hmem, growHeap_inUse, List.mem_map]
    push_cast
    constructor
    · rintro (⟨hlo, hhi, hnot⟩ | ⟨k, hk, rfl⟩)
      · exact ⟨hlo, by omega, hnot⟩
      · rw [List.mem_range'_1] at hk
        refine ⟨by omega, by omega, fun hk' => ?_⟩
        have hrange := h.range _ hk'
        omega
    · rintro ⟨hlo, hhi, hnot⟩
      by_cases hold : i < ht.maxSize
      · exact .inl ⟨hlo, hold, hnot⟩
      · refine .inr ⟨i.toNat, ?_, by omega⟩
        rw [List.mem_range'_1]
        omega

theorem Inv.grow (h : Inv ht) : Inv (growHeap ht ⟨true, true, true⟩).1 := by
  have hsize := h.size
  constructor
  · rw [growHeap_maxSize]
    exact hsize.trans (Nat.le_add_right _ _)
  · intro s hs hn
    have hp := parent_lt hs
    have hle := h.ordered s hs hn
    rw [Heap.value, Heap.value, growHeap_heap ht hn, growHeap_heap ht (hp.trans hn)]
    exact hle
  · intro s hs
    have hrange := h.range _ ⟨s, hs, rfl⟩
    rw [growHeap_heap ht hs, growHeap_timerIds hrange.2]
    exact h.index s hs
  · intro i hi
    have hrange := h.range i ((growHeap_inUse ht i).mp hi)
    rw [growHeap_maxSize]
    push_cast
    omega
  · exact fun i hi => h.dup i ((growHeap_inUse ht i).mp hi)
  · exact fun i hi => h.entry i ((growHeap_inUse ht i).mp hi)
  · intro e he
    obtain ⟨i, hi, hie⟩ := h.running e he
    exact ⟨i, (growHeap_inUse ht i).mpr hi, hie⟩
  · exact h.grow_free

end Grow

theorem Inv.of_settled {a : Nat → Int} {n : Nat} (hs : Settled ht ht' a n)
    (hsize : n + 2 ≤ ht.maxSize) (hrange : ∀ s, s < n → 1 ≤ a s ∧ a s < ht.maxSize)
    (hdup : ∀ s, s < n → (ht.timerDups (a s)).dup.timerId = a s)
    (hentry : ∀ s, s < n → (ht.entries (ht.timerDups (a s)).entry).timerId = a s)
    (hrunning : ∀ e, 1 ≤ (ht.entries e).timerId → ∃ s, s < n ∧ (ht.timerDups (a s)).entry = e)
    (hfree : ∃ ids : List Int, Links (fun i => -ht.timerIds i) ht.timerIdsFreelist ids ht.maxSize ∧
      ids.Nodup ∧ ids.length + n + 1 = ht.maxSize ∧
      ∀ i, i ∈ ids ↔ 1 ≤ i ∧ i < ht.maxSize ∧ ∀ s, s < n → a s ≠ i) : Inv { ht' with curSize := n } := by
  have hmax : ht'.maxSize = ht.maxSize := by rw [hs.frame]
  have hdups : ht'.timerDups = ht.timerDups := by rw [hs.frame]
  have hentries : ht'.entries = ht.entries := by rw [hs.frame]
  have hlist : ht'.timerIdsFreelist = ht.timerIdsFreelist := by rw [hs.frame]
  constructor
  · exact hmax ▸ hsize
  · exact hs.ordered
  · exact hs.index
  · intro i hi
    obtain ⟨s, hsn, rfl⟩ := (hs.mem i).mp hi
    exact hmax ▸ hrange s hsn
  · intro i hi
    obtain ⟨s, hsn, rfl⟩ := (hs.mem i).mp hi
    exact hdups ▸ hdup s hsn
  · intro i hi
    obtain ⟨s, hsn, rfl⟩ := (hs.mem i).mp hi
    exact hdups ▸ hentries ▸ hentry s hsn
  · intro e he
    obtain ⟨s, hsn, hse⟩ := hrunning e (hentries ▸ he)
    exact ⟨a s, (hs.mem _).mpr ⟨s, hsn, rfl⟩, hdups ▸ hse⟩
  · obtain ⟨ids, hlinks, hnodup, hlen, hmem⟩ := hfree
    refine ⟨ids, ?_, hnodup, hmax ▸ hlen, fun i => ?_⟩
    · simp only [hlist, hmax]
      refine hlinks.congr fun i hi => ?_
      rw [hs.other i ((hmem i).mp hi).2.2]
    · have hnot : (¬ InUse { ht' with curSize := n } i) ↔ ∀ s, s < n → a s ≠ i := by
        rw [InUse, hs.mem]
        exact ⟨fun hne s hsn heq => hne ⟨s, hsn, heq⟩, fun hall ⟨s, hsn, heq⟩ => hall s hsn heq⟩
      rw [hmem, hnot, hmax]

section Slots

variable {slot : Nat}

/-- The slots with the first free id behind the last node. -/
def slotsWithFree (ht : Heap E G A) : Nat → Int :=
  Function.update ht.heap ht.curSize ht.timerIdsFreelist

theorem slotsWithFree_last (ht : Heap E G A) : slotsWithFree ht ht.curSize = ht.timerIdsFreelist :=
  Function.update_self ..

theorem slotsWithFree_of_ne {s : Nat} (hs : s ≠ ht.curSize) : slotsWithFree ht s = ht.heap s :=
  Function.update_of_ne hs ..

theorem Inv.ne_free (h : Inv ht) {s : Nat} (hs : s < ht.curSize) : ht.heap s ≠ ht.timerIdsFreelist := by
  obtain ⟨rest, -, -, -, hmem⟩ := h.first
  intro heq
  exact ((hmem ht.timerIdsFreelist).mp List.mem_cons_self).2.2 ⟨s, hs, heq⟩

theorem Inv.slotsWithFree_range (h : Inv ht) (s : Nat) (hs : s < ht.curSize + 1) :
    1 ≤ slotsWithFree ht s ∧ slotsWithFree ht s < ht.maxSize := by
  by_cases hlast : s = ht.curSize
  · obtain ⟨rest, -, -, -, hmem⟩ := h.first
    have hfirst := (hmem ht.timerIdsFreelist).mp List.mem_cons_self
    rw [hlast, slotsWithFree_last]
    exact ⟨hfirst.1, hfirst.2.1⟩
  · rw [slotsWithFree_of_ne hlast]
    exact h.range _ ⟨s, by omega, rfl⟩

theorem Inv.slotsWithFree_rest (h : Inv ht) :
    ∃ ids : List Int, Links (fun i => -ht.timerIds i) (-ht.timerIds ht.timerIdsFreelist) ids ht.maxSize ∧
      ids.Nodup ∧ ids.length + (ht.curSize + 1) + 1 = ht.maxSize ∧
      ∀ i, i ∈ ids ↔ 1 ≤ i ∧ i < ht.maxSize ∧ ∀ s, s < ht.curSize + 1 → slotsWithFree ht s ≠ i := by
  obtain ⟨rest, hlinks, hnodup, hlen, hmem⟩ := h.first
  refine ⟨rest, hlinks, (List.nodup_cons.mp hnodup).2, by omega, fun i => ?_⟩
  have hi := hmem i
  rw [List.mem_cons] at hi
  constructor
  · intro hir
    obtain ⟨hlo, hhi, hnot⟩ := hi.mp (.inr hir)
    refine ⟨hlo, hhi, fun s hs heq => ?_⟩
    by_cases hlast : s = ht.curSize
    · rw [hlast, slotsWithFree_last] at heq
      exact (List.nodup_cons.mp hnodup).1 (heq ▸ hir)
    · exact hnot ⟨s, by omega, (slotsWithFree_of_ne hlast).symm.trans heq⟩
  · rintro ⟨hlo, hhi, hnot⟩
    refine (hi.mpr ⟨hlo, hhi, fun huse => ?_⟩).resolve_left fun heq => ?_
    · obtain ⟨s, hs, heq⟩ := huse
      exact hnot s (by omega) ((slotsWithFree_of_ne (by omega)).trans heq)
    · exact hnot ht.curSize (Nat.lt_succ_self _) ((slotsWithFree_last ht).trans heq.symm)

/-- The slots when the last node has taken the place of the removed one. -/
def slotsWithout (ht : Heap E G A) (slot : Nat) : Nat → Int :=
  Function.update ht.heap slot (ht.heap (ht.curSize - 1))

theorem slotsWithout_self (ht : Heap E G A) (slot : Nat) :
    slotsWithout ht slot slot = ht.heap (ht.curSize - 1) := Function.update_self ..

theorem slotsWithout_of_ne {s : Nat} (hs : s ≠ slot) : slotsWithout ht slot s = ht.heap s :=
  Function.update_of_ne hs ..

/-- The nodes that stay are those of the heap other than the removed one. -/
theorem exists_of_slotsWithout {s : Nat} (hs : s < ht.curSize - 1) :
    ∃ t, t < ht.curSize ∧ t ≠ slot ∧ slotsWithout ht slot s = ht.heap t := by
  by_cases hss : s = slot
  · exact ⟨ht.curSize - 1, by omega, by omega, hss ▸ slotsWithout_self ht slot⟩
  · exact ⟨s, by omega, hss, slotsWithout_of_ne hss⟩

theorem exists_slotsWithout (hslot : slot < ht.curSize) {t : Nat} (ht' : t < ht.curSize) (hne : t ≠ slot) :
    ∃ s, s < ht.curSize - 1 ∧ slotsWithout ht slot s = ht.heap t := by
  by_cases hlast : t = ht.curSize - 1
  · exact ⟨slot, by omega, by rw [slotsWithout_self, hlast]⟩
  · exact ⟨t, by omega, slotsWithout_of_ne hne⟩

theorem Inv.ne_removed (h : Inv ht) (hslot : slot < ht.curSize) {t : Nat} (ht' : t < ht.curSize)
    (hne : t ≠ slot) : ht.heap t ≠ ht.heap slot := fun heq => hne (h.inj ht' hslot heq)

theorem Inv.slotsWithout_inj (h : Inv ht) (hslot : slot < ht.curSize) (s t : Nat)
    (hs : s < ht.curSize - 1) (ht' : t < ht.curSize - 1)
    (heq : slotsWithout ht slot s = slotsWithout ht slot t) : s = t := by
  by_cases hss : s = slot <;> by_cases hts : t = slot
  · exact hss.trans hts.symm
  · rw [hss, slotsWithout_self, slotsWithout_of_ne hts] at heq
    have := h.inj (by omega) (by omega) heq
    omega
  · rw [hts, slotsWithout_self, slotsWithout_of_ne hss] at heq
    have := h.inj (by omega) (by omega) heq
    omega
  · rw [slotsWithout_of_ne hss, slotsWithout_of_ne hts] at heq
    exact h.inj (by omega) (by omega) heq

/-- An id is in no slot any more when it was in none or is the removed one. -/
theorem Inv.not_slotsWithout_iff (h : Inv ht) (hslot : slot < ht.curSize) (i : Int) :
    (∀ s, s < ht.curSize - 1 → slotsWithout ht slot s ≠ i) ↔ i = ht.heap slot ∨ ¬ InUse ht i := by
  constructor
  · intro hnot
    by_cases hi : i = ht.heap slot
    · exact .inl hi
    · refine .inr ?_
      rintro ⟨t, ht', rfl⟩
      obtain ⟨s, hs, hst⟩ := exists_slotsWithout hslot ht' fun hts => hi (by rw [hts])
      exact hnot s hs hst
  · intro hi s hs hsame
    obtain ⟨t, ht', hne, hat⟩ := exists_of_slotsWithout hs
    rcases hi with rfl | hnot
    · exact h.ne_removed hslot ht' hne (hat.symm.trans hsame)
    · exact hnot ⟨t, ht', hat.symm.trans hsame⟩

end Slots

variable [DecidableEq E]

section Attach

/-- The heap in which the first free id is given to the entry `e`, before its copy is put into a slot. -/
def withCopy (ht : Heap E G A) (e : E) (futureTime : TimeVal) : Heap E G A :=
  let node : Entry A := { ht.entries e with timerId := ht.timerIdsFreelist }
  { ht with
    timerIdsFreelist := -ht.timerIds ht.timerIdsFreelist
    entries := Function.update ht.entries e node
    timerDups := Function.update ht.timerDups ht.timerIdsFreelist ⟨node, e, futureTime, none⟩ }

variable {e : E} {futureTime : TimeVal}

theorem withCopy_free (ht : Heap E G A) (e : E) (futureTime : TimeVal) :
    (withCopy ht e futureTime).timerDups ht.timerIdsFreelist =
      ⟨{ ht.entries e with timerId := ht.timerIdsFreelist }, e, futureTime, none⟩ := Function.update_self ..

theorem withCopy_self (ht : Heap E G A) (e : E) (futureTime : TimeVal) :
    ((withCopy ht e futureTime).entries e).timerId = ht.timerIdsFreelist := by
  simp only [withCopy, Function.update_self]

theorem withCopy_of_ne {e' : E} (he : e' ≠ e) :
    (withCopy ht e futureTime).entries e' = ht.entries e' := Function.update_of_ne he ..

theorem attachNode_eq (ht : Heap E G A) (e : E) (futureTime : TimeVal) :
    attachNode ((popFreelist ht).setTimerId e ht.timerIdsFreelist) e futureTime =
      { reheapUp ht.curSize (withCopy ht e futureTime) (slotsWithFree ht ht.curSize) ht.curSize
          (heapParent ht.curSize) with
        curSize := (reheapUp ht.curSize (withCopy ht e futureTime) (slotsWithFree ht ht.curSize) ht.curSize
          (heapParent ht.curSize)).curSize + 1 } := by
  rw [slotsWithFree_last]
  simp only [attachNode, Heap.setTimerId, popFreelist, Function.update_self, withCopy]

theorem Inv.withCopy_dup (h : Inv ht) {s : Nat} (hs : s < ht.curSize) :
    (withCopy ht e futureTime).timerDups (ht.heap s) = ht.timerDups (ht.heap s) :=
  Function.update_of_ne (h.ne_free hs) ..

theorem Inv.withCopy_ids (h : Inv ht) (s : Nat) (hs : s < ht.curSize + 1) :
    ((withCopy ht e futureTime).timerDups (slotsWithFree ht s)).dup.timerId = slotsWithFree ht s := by
  by_cases hlast : s = ht.curSize
  · rw [hlast, slotsWithFree_last, withCopy_free]
  · rw [slotsWithFree_of_ne hlast, h.withCopy_dup (by omega)]
    exact h.dup _ ⟨s, by omega, rfl⟩

theorem Inv.withCopy_hole (h : Inv ht) :
    Hole (withCopy ht e futureTime) (slotsWithFree ht) (ht.curSize + 1) ht.curSize := by
  refine ⟨fun s hs => (slotsWithFree_of_ne hs).symm, h.withCopy_ids, fun s t hs ht' heq => ?_,
    fun s hs hne => ?_⟩
  · by_cases hsl : s = ht.curSize <;> by_cases htl : t = ht.curSize
    · exact hsl.trans htl.symm
    · rw [hsl, slotsWithFree_last, slotsWithFree_of_ne htl] at heq
      exact absurd heq.symm (h.ne_free (by omega))
    · rw [htl, slotsWithFree_last, slotsWithFree_of_ne hsl] at heq
      exact absurd heq (h.ne_free (by omega))
    · rw [slotsWithFree_of_ne hsl, slotsWithFree_of_ne htl] at heq
      exact h.inj (by omega) (by omega) heq
  · rw [slotsWithFree_of_ne hne]
    exact h.index s (by omega)

theorem Inv.withCopy_settled (h : Inv ht) :
    Settled (withCopy ht e futureTime)
      (reheapUp ht.curSize (withCopy ht e futureTime) (slotsWithFree ht ht.curSize) ht.curSize
        (heapParent ht.curSize)) (slotsWithFree ht) (ht.curSize + 1) := by
  refine reheapUp_settled ht.curSize h.withCopy_hole (Nat.lt_succ_self _) le_rfl ?_
  refine h.ordered.push fun s hs => ?_
  rw [slotsWithFree_of_ne (by omega), h.withCopy_dup hs, Heap.value]

theorem Inv.withCopy_entry (h : Inv ht) (hidle : (ht.entries e).timerId < 1) (s : Nat) (hs : s < ht.curSize + 1) :
    ((withCopy ht e futureTime).entries
      ((withCopy ht e futureTime).timerDups (slotsWithFree ht s)).entry).timerId = slotsWithFree ht s := by
  by_cases hlast : s = ht.curSize
  · rw [hlast, slotsWithFree_last, withCopy_free]
    exact withCopy_self ht e futureTime
  · have huse : InUse ht (ht.heap s) := ⟨s, by omega, rfl⟩
    have hid := h.entry _ huse
    have hrange := h.range _ huse
    rw [slotsWithFree_of_ne hlast, h.withCopy_dup (by omega), withCopy_of_ne, hid]
    rintro rfl
    omega

theorem Inv.withCopy_running (h : Inv ht) (e' : E) (he : 1 ≤ ((withCopy ht e futureTime).entries e').timerId) :
    ∃ s, s < ht.curSize + 1 ∧ ((withCopy ht e futureTime).timerDups (slotsWithFree ht s)).entry = e' := by
  by_cases heq : e' = e
  · refine ⟨ht.curSize, Nat.lt_succ_self _, ?_⟩
    rw [slotsWithFree_last, withCopy_free, heq]
  · rw [withCopy_of_ne heq] at he
    obtain ⟨i, ⟨s, hs, rfl⟩, hie⟩ := h.running e' he
    refine ⟨s, by omega, ?_⟩
    rw [slotsWithFree_of_ne (by omega), h.withCopy_dup hs, hie]

theorem Inv.attach (h : Inv ht) (hroom : ht.curSize + 3 ≤ ht.maxSize) {e : E}
    (hidle : (ht.entries e).timerId < 1) (futureTime : TimeVal) :
    Inv (attachNode ((popFreelist ht).setTimerId e ht.timerIdsFreelist) e futureTime) := by
  have hsettled : Settled (withCopy ht e futureTime) _ _ _ := h.withCopy_settled
  have hcur : (reheapUp ht.curSize (withCopy ht e futureTime) (slotsWithFree ht ht.curSize) ht.curSize
      (heapParent ht.curSize)).curSize = ht.curSize := by
    rw [hsettled.frame]
    rfl
  rw [attachNode_eq, hcur]
  exact Inv.of_settled hsettled hroom h.slotsWithFree_range h.withCopy_ids (h.withCopy_entry hidle)
    h.withCopy_running h.slotsWithFree_rest

end Attach

section Remove

variable {slot : Nat}

/-- What `remove_node` does to a node of a heap before the slot is filled again. -/
theorem Inv.detach_eq (h : Inv ht) (hslot : slot < ht.curSize) :
    detachNode ht (ht.heap slot) =
      { ht with
        timerIds := Function.update ht.timerIds (ht.heap slot) (-ht.timerIdsFreelist)
        timerIdsFreelist := ht.heap slot
        curSize := ht.curSize - 1
        entries := Function.update ht.entries (ht.timerDups (ht.heap slot)).entry
          { ht.entries (ht.timerDups (ht.heap slot)).entry with timerId := -1 }
        timerDups := Function.update ht.timerDups (ht.heap slot)
          { ht.timerDups (ht.heap slot) with
            dup := { (ht.timerDups (ht.heap slot)).dup with timerId := -1 } } } := by
  have huse : InUse ht (ht.heap slot) := ⟨slot, hslot, rfl⟩
  simp only [detachNode, pushFreelist, Heap.setTimerId, h.dup _ huse, h.entry _ huse, ne_eq,
    not_true_eq_false, if_false]

theorem Inv.detach_dup (h : Inv ht) (hslot : slot < ht.curSize) {s : Nat} (hs : s < ht.curSize - 1) :
    (detachNode ht (ht.heap slot)).timerDups (slotsWithout ht slot s) =
      ht.timerDups (slotsWithout ht slot s) := by
  obtain ⟨t, ht', hne, hat⟩ := exists_of_slotsWithout hs
  rw [h.detach_eq hslot, hat]
  exact Function.update_of_ne (h.ne_removed hslot ht' hne) ..

theorem Inv.detach_index (h : Inv ht) (hslot : slot < ht.curSize) {i : Int} (hi : i ≠ ht.heap slot) :
    (detachNode ht (ht.heap slot)).timerIds i = ht.timerIds i := by
  rw [h.detach_eq hslot]
  exact Function.update_of_ne hi ..

theorem Inv.detach_entries (h : Inv ht) (hslot : slot < ht.curSize) {e : E}
    (he : e ≠ (ht.timerDups (ht.heap slot)).entry) : (detachNode ht (ht.heap slot)).entries e = ht.entries e := by
  rw [h.detach_eq hslot]
  exact Function.update_of_ne he ..

theorem Inv.detach_maxSize (h : Inv ht) (hslot : slot < ht.curSize) :
    (detachNode ht (ht.heap slot)).maxSize = ht.maxSize := by
  rw [h.detach_eq hslot]

theorem Inv.detach_ids (h : Inv ht) (hslot : slot < ht.curSize) (s : Nat) (hs : s < ht.curSize - 1) :
    ((detachNode ht (ht.heap slot)).timerDups (slotsWithout ht slot s)).dup.timerId =
      slotsWithout ht slot s := by
  obtain ⟨t, ht', -, hat⟩ := exists_of_slotsWithout hs
  rw [h.detach_dup hslot hs]
  exact h.dup _ ⟨t, ht', hat.symm⟩

theorem Inv.detach_settled (h : Inv ht) (hslot : slot < ht.curSize) :
    Settled (detachNode ht (ht.heap slot)) (refillSlot (detachNode ht (ht.heap slot)) slot)
      (slotsWithout ht slot) (ht.curSize - 1) := by
  have hcur : (detachNode ht (ht.heap slot)).curSize = ht.curSize - 1 := by rw [h.detach_eq hslot]
  have hheap : (detachNode ht (ht.heap slot)).heap = ht.heap := by rw [h.detach_eq hslot]
  refine refillSlot_settled hcur (by omega) (by rw [hheap, slotsWithout]) (h.detach_ids hslot)
    (h.slotsWithout_inj hslot) ?_ ⟨ht.value, ?_, ?_⟩
  · intro s hs hne
    rw [slotsWithout_of_ne hne, h.detach_index hslot (h.ne_removed hslot (by omega) hne)]
    exact h.index s (by omega)
  · rw [Nat.sub_add_cancel (by omega)]
    exact h.ordered
  · intro s hs hne
    rw [h.detach_dup hslot hs, slotsWithout_of_ne hne, Heap.value]

theorem Inv.detach_entry (h : Inv ht) (hslot : slot < ht.curSize) (s : Nat) (hs : s < ht.curSize - 1) :
    ((detachNode ht (ht.heap slot)).entries
      ((detachNode ht (ht.heap slot)).timerDups (slotsWithout ht slot s)).entry).timerId =
      slotsWithout ht slot s := by
  obtain ⟨t, ht', hne, hat⟩ := exists_of_slotsWithout hs
  have hid := h.entry _ ⟨t, ht', rfl⟩
  have hother : (ht.timerDups (ht.heap t)).entry ≠ (ht.timerDups (ht.heap slot)).entry := fun hsame => by
    rw [hsame, h.entry _ ⟨slot, hslot, rfl⟩] at hid
    exact h.ne_removed hslot ht' hne hid.symm
  rw [h.detach_dup hslot hs, hat, h.detach_entries hslot hother, hid]

theorem Inv.detach_running (h : Inv ht) (hslot : slot < ht.curSize) (e : E)
    (he : 1 ≤ ((detachNode ht (ht.heap slot)).entries e).timerId) :
    ∃ s, s < ht.curSize - 1 ∧
      ((detachNode ht (ht.heap slot)).timerDups (slotsWithout ht slot s)).entry = e := by
  have hne : e ≠ (ht.timerDups (ht.heap slot)).entry := by
    rintro rfl
    rw [h.detach_eq hslot] at he
    simp only [Function.update_self] at he
    omega
  rw [h.detach_entries hslot hne] at he
  obtain ⟨i, ⟨t, ht', rfl⟩, hie⟩ := h.running e he
  obtain ⟨s, hs, hst⟩ := exists_slotsWithout hslot ht' fun hts => hne (hts ▸ hie.symm)
  exact ⟨s, hs, by rw [h.detach_dup hslot hs, hst, hie]⟩

theorem Inv.detach_free (h : Inv ht) (hslot : slot < ht.curSize) :
    ∃ ids : List Int, Links (fun i => -(detachNode ht (ht.heap slot)).timerIds i)
        (detachNode ht (ht.heap slot)).timerIdsFreelist ids ht.maxSize ∧
      ids.Nodup ∧ ids.length + (ht.curSize - 1) + 1 = ht.maxSize ∧
      ∀ i, i ∈ ids ↔ 1 ≤ i ∧ i < ht.maxSize ∧ ∀ s, s < ht.curSize - 1 → slotsWithout ht slot s ≠ i := by
  have huse : InUse ht (ht.heap slot) := ⟨slot, hslot, rfl⟩
  obtain ⟨ids, hlinks, hnodup, hlen, hfree⟩ := h.free
  have hnotin : ht.heap slot ∉ ids := fun hin => ((hfree _).mp hin).2.2 huse
  have hfirst : (detachNode ht (ht.heap slot)).timerIdsFreelist = ht.heap slot := by rw [h.detach_eq hslot]
  have hback : -(detachNode ht (ht.heap slot)).timerIds (ht.heap slot) = ht.timerIdsFreelist := by
    rw [h.detach_eq hslot]
    simp only [Function.update_self, neg_neg]
  refine ⟨ht.heap slot :: ids, ⟨hfirst, ?_⟩, List.nodup_cons.mpr ⟨hnotin, hnodup⟩, ?_, fun i => ?_⟩
  · simp only [hback]
    refine hlinks.congr fun i hi => ?_
    rw [h.detach_index hslot fun hsame => hnotin (hsame ▸ hi)]
  · rw [List.length_cons]
    omega
  · rw [List.mem_cons, hfree, h.not_slotsWithout_iff hslot]
    constructor
    · rintro (rfl | ⟨hlo, hhi, hnot⟩)
      · have hrange := h.range _ huse
        exact ⟨hrange.1, hrange.2, .inl rfl⟩
      · exact ⟨hlo, hhi, .inr hnot⟩
    · rintro ⟨hlo, hhi, rfl | hnot⟩
      · exact .inl rfl
      · exact .inr ⟨hlo, hhi, hnot⟩

/-- A node is taken out of the heap, and its id goes to the free list. -/
theorem Inv.remove (h : Inv ht) {slot : Nat} (hslot : slot < ht.curSize) : Inv (removeNode ht slot) := by
  have hsettled := h.detach_settled hslot
  have hcur : (removeNode ht slot).curSize = ht.curSize - 1 := by
    rw [removeNode, hsettled.frame, h.detach_eq hslot]
  have hfinal : removeNode ht slot =
      { refillSlot (detachNode ht (ht.heap slot)) slot with curSize := ht.curSize - 1 } := by
    rw [← hcur]
    rfl
  have hsize := h.size
  have hmax := h.detach_maxSize hslot
  rw [hfinal]
  refine Inv.of_settled hsettled (by omega) ?_ (h.detach_ids hslot) (h.detach_entry hslot)
    (h.detach_running hslot) (hmax ▸ h.detach_free hslot)
  intro s hs
  obtain ⟨t, ht', -, hat⟩ := exists_of_slotsWithout hs
  rw [hmax]
  exact h.range _ ⟨t, ht', hat.symm⟩

end Remove

/-- Growing and taking the first free id can be done in either order. -/
theorem Inv.growHeap_popped (h : Inv ht) (e : E) :
    growHeap ((popFreelist ht).setTimerId e ht.timerIdsFreelist) ⟨true, true, true⟩ =
      ((popFreelist (growHeap ht ⟨true, true, true⟩).1).setTimerId e
        (growHeap ht ⟨true, true, true⟩).1.timerIdsFreelist, .success) := by
  obtain ⟨rest, -, -, -, hmem⟩ := h.first
  have hfirst := (hmem ht.timerIdsFreelist).mp List.mem_cons_self
  have hsame : (growHeap ht ⟨true, true, true⟩).1.timerIds ht.timerIdsFreelist =
      ht.timerIds ht.timerIdsFreelist := if_neg fun hc => by omega
  simp only [growHeap, Bool.and_self, if_true] at hsame ⊢
  simp only [popFreelist, Heap.setTimerId, hsame]
  rfl

theorem Inv.scheduleEntry (h : Inv ht) {e : E} (hidle : (ht.entries e).timerId < 1)
    (futureTime : TimeVal) : ∃ ht', scheduleEntry ht e futureTime ⟨true, true, true⟩ = (ht', .success) ∧
      Inv ht' := by
  have hsize := h.size
  rw [TimerHeap.scheduleEntry, if_pos (by omega)]
  unfold insertNode
  by_cases hfull : ht.curSize + 2 ≥ ht.maxSize
  · have hgrown := h.grow.attach (e := e) (by simp only [growHeap, Bool.and_self, if_true]; omega)
      hidle futureTime
    refine ⟨_, ?_, hgrown⟩
    have hcond : ((popFreelist ht).setTimerId e ht.timerIdsFreelist).curSize + 2 ≥
      ((popFreelist ht).setTimerId e ht.timerIdsFreelist).maxSize := hfull
    simp only [if_pos hcond, h.growHeap_popped, if_true]
  · refine ⟨_, ?_, h.attach (by omega) hidle futureTime⟩
    have hcond : ¬ ((popFreelist ht).setTimerId e ht.timerIdsFreelist).curSize + 2 ≥
      ((popFreelist ht).setTimerId e ht.timerIdsFreelist).maxSize := hfull
    simp only [if_neg hcond, if_true]

/-- `cancel` finds the node of a running entry. -/
theorem Inv.cancel (h : Inv ht) {e : E} (hrunning : 1 ≤ (ht.entries e).timerId) :
    ∃ slot, slot < ht.curSize ∧ TimerHeap.cancel ht e = (removeNode ht slot, 1) := by
  obtain ⟨i, ⟨slot, hslot, rfl⟩, rfl⟩ := h.running e hrunning
  refine ⟨slot, hslot, ?_⟩
  have hid := h.entry _ ⟨slot, hslot, rfl⟩
  have hindex := h.index slot hslot
  simp only [TimerHeap.cancel, hid, hindex, Int.toNat_natCast, ne_eq, not_true_eq_false, if_false]
  rw [if_neg (by omega)]

end Heap

set_option linter.unusedSectionVars false

variable [DecidableEq E] [DecidableEq G] [DecidableEq A] [DecidableEq P]

theorem Inv.schedule {s : State E G A P} (h : Inv s.ht) (e : E) (delay now : TimeVal)
    (setId : Option Int) (grpLock : Option G) :
    Inv (scheduleWGrpLock s e delay now setId grpLock ⟨true, true, true⟩).1.ht := by
  unfold scheduleWGrpLock
  split
  · exact h
  · split
    · exact h
    · next hidle =>
        obtain ⟨ht', heq, hinv⟩ := h.scheduleEntry (e := e)
          (by simpa [entryRunning] using hidle) (now.add delay)
        simp only [heq]
        refine hinv.congr rfl rfl rfl rfl rfl (fun i => ?_) fun e' _ => ?_
        · by_cases hi : i = (ht'.entries e).timerId
          · subst hi
            simp only [Function.update_self, and_self]
          · simp only [Function.update_of_ne hi, and_self]
        · by_cases he : e' = e
          · subst he
            simp only [Function.update_self]
          · simp only [Function.update_of_ne he]

theorem Inv.cancelTimer {s : State E G A P} (h : Inv s.ht) (e : E) (setId : Option Int) :
    Inv (cancelTimer s e setId).1.ht := by
  unfold TimerHeap.cancelTimer
  simp only
  split
  · exact h
  · next hrange =>
      obtain ⟨slot, hslot, hcancel⟩ := h.cancel (e := e) (by omega)
      simp only [hcancel]
      refine (h.remove hslot).congr rfl rfl rfl rfl rfl (fun i => ⟨rfl, rfl, rfl⟩) fun e' _ => ?_
      by_cases he : e' = e
      · subst he
        simp only [Function.update_self]
      · simp only [Function.update_of_ne he]

theorem Inv.pollTurn {s : State E G A P} (h : Inv s.ht) (p : P) (count : Nat) (wantsDelay : Bool)
    (now last : TimeVal) : Inv (pollTurn s p count wantsDelay now last).ht := by
  unfold TimerHeap.pollTurn
  split
  · next hcond =>
      refine (h.remove hcond.1).congr rfl rfl rfl rfl rfl (fun i => ?_) fun _ _ => rfl
      by_cases hi : i = s.ht.heap 0
      · subst hi
        simp only [Function.update_self, and_self]
      · simp only [Function.update_of_ne hi, and_self]
  · exact h

theorem Inv.entryInit {ht : Heap E G A} (h : Inv ht) {e : E} (hidle : (ht.entries e).timerId < 1)
    (id : Int) (userData : A) (cb : Option A) : Inv (entryInit ht e id userData cb) := by
  refine h.congr rfl rfl rfl rfl rfl (fun i => ⟨rfl, rfl, rfl⟩) fun e' he' => ?_
  by_cases he : e' = e
  · subst he
    simp only [TimerHeap.entryInit, Function.update_self] at he' ⊢
    omega
  · simp only [TimerHeap.entryInit, Function.update_of_ne he]

def Action.allocates : Action E G A P → Prop
  | .schedule _ _ _ _ _ alloc => alloc.heap = true ∧ alloc.timerDups = true ∧ alloc.timerIds = true
  | _ => True

theorem inv_step (s : State E G A P) (a : Action E G A P) (s' : State E G A P) (h : Inv s.ht)
    (halloc : a.allocates) (hstep : step s a = some s') : Inv s'.ht := by
  cases a with
  | entryInit e id userData cb =>
    simp only [step, Option.ite_none_left_eq_some, Option.some.injEq] at hstep
    obtain ⟨hidle, rfl⟩ := hstep
    exact h.entryInit (by simpa [entryRunning] using hidle) id userData cb
  | setMaxTimedOutPerPoll count =>
    obtain rfl := Option.some.inj hstep
    exact h.congr rfl rfl rfl rfl rfl (fun i => ⟨rfl, rfl, rfl⟩) fun _ _ => rfl
  | schedule e delay now setId grpLock alloc =>
    obtain rfl := Option.some.inj hstep
    obtain ⟨heap, timerDups, timerIds⟩ := alloc
    obtain ⟨rfl, rfl, rfl⟩ := halloc
    exact h.schedule e delay now setId grpLock
  | cancel e setId =>
    obtain rfl := Option.some.inj hstep
    exact h.cancelTimer e setId
  | poll p wantsDelay now last =>
    simp only [step] at hstep
    split at hstep
    · cases hstep
    · obtain rfl := Option.some.inj hstep
      exact h.pollTurn p 0 wantsDelay now last
  | pollAgain p now last =>
    simp only [step] at hstep
    split at hstep
    · obtain rfl := Option.some.inj hstep
      exact Inv.pollTurn (by exact h) ..
    · cases hstep

theorem inv_create (size : Nat) (timerDups : Int → Dup E G A) (entries : E → Entry A)
    (hentries : ∀ e, (entries e).timerId = -1) : Inv (create size timerDups entries) := by
  have hempty : ∀ i, ¬ InUse (create size timerDups entries) i := fun i ⟨s, hs, _⟩ => by
    cases hs
  refine ⟨Nat.le_add_left .., nofun,
    nofun, fun i hi => absurd hi (hempty i),
    fun i hi => absurd hi (hempty i), fun i hi => absurd hi (hempty i), fun e he => ?_, ?_⟩
  · simp only [create, hentries] at he
    omega
  · refine ⟨(List.range' 1 (size + 1)).map fun k : Nat => (k : Int), ?_, ?_, ?_, fun i => ?_⟩
    · have hlinks := grown_links (fun i => -(create size timerDups entries).timerIds i) 1 (size + 1)
        fun i hlo hhi => by
          simp only [create]
          rw [if_pos (by push_cast at *; omega), neg_neg]
      rwa [Nat.add_comm 1] at hlinks
    · exact (List.nodup_range' 1).map fun _ _ => Int.ofNat.inj
    · simp [create]
    · rw [List.mem_map]
      constructor
      · rintro ⟨k, hk, rfl⟩
        rw [List.mem_range'_1] at hk
        exact ⟨by omega, by simp only [create]; omega, hempty _⟩
      · rintro ⟨hlo, hhi, -⟩
        simp only [create] at hhi
        refine ⟨i.toNat, ?_, by omega⟩
        rw [List.mem_range'_1]
        omega

/-- The timer heap is intact: the heap is ordered, each node is found by its id, the ids that are not
in use form one list without a cycle from `timer_ids_freelist` on, an entry is running when and only
when it is in the heap, and the place that `pop_freelist` reads is in the array. -/
structure Intact (ht : Heap E G A) : Prop where
  ordered : ∀ slot, 0 < slot → slot < ht.curSize →
    (ht.value slot).gte (ht.value (heapParent slot)) = true
  index : ∀ slot, slot < ht.curSize → ht.timerIds (ht.timerDups (ht.heap slot)).dup.timerId = slot
  inUse : ∀ slot, slot < ht.curSize → 1 ≤ (ht.timerDups (ht.heap slot)).dup.timerId ∧
    (ht.timerDups (ht.heap slot)).dup.timerId < ht.maxSize
  free : ∃ ids : List Int, Links (fun i => -ht.timerIds i) ht.timerIdsFreelist ids ht.maxSize ∧
    ids.Nodup ∧ ∀ i, i ∈ ids ↔ 1 ≤ i ∧ i < ht.maxSize ∧
      ∀ slot, slot < ht.curSize → (ht.timerDups (ht.heap slot)).dup.timerId ≠ i
  running : ∀ e, 1 ≤ (ht.entries e).timerId ↔
    ∃ slot, slot < ht.curSize ∧ (ht.timerDups (ht.heap slot)).entry = e
  pop : 1 ≤ ht.timerIdsFreelist ∧ ht.timerIdsFreelist < ht.maxSize

theorem Inv.intact {ht : Heap E G A} (h : Inv ht) : Intact ht := by
  have hdup : ∀ slot, slot < ht.curSize → (ht.timerDups (ht.heap slot)).dup.timerId = ht.heap slot :=
    fun slot hslot => h.dup _ ⟨slot, hslot, rfl⟩
  refine ⟨fun slot hpos hslot => ?_, fun slot hslot => ?_, fun slot hslot => ?_, ?_, fun e => ?_, ?_⟩
  · rw [heapParent_eq]
    exact h.ordered slot hpos hslot
  · rw [hdup slot hslot]
    exact h.index slot hslot
  · rw [hdup slot hslot]
    exact h.range _ ⟨slot, hslot, rfl⟩
  · obtain ⟨ids, hlinks, hnodup, -, hmem⟩ := h.free
    refine ⟨ids, hlinks, hnodup, fun i => ?_⟩
    rw [hmem]
    refine and_congr_right fun _ => and_congr_right fun _ => ?_
    constructor
    · exact fun hnot slot hslot heq => hnot ⟨slot, hslot, (hdup slot hslot).symm.trans heq⟩
    · rintro hall ⟨slot, hslot, heq⟩
      exact hall slot hslot ((hdup slot hslot).trans heq)
  · constructor
    · intro he
      obtain ⟨i, ⟨slot, hslot, rfl⟩, hie⟩ := h.running e he
      exact ⟨slot, hslot, hie⟩
    · rintro ⟨slot, hslot, rfl⟩
      rw [h.entry _ ⟨slot, hslot, rfl⟩]
      exact (h.range _ ⟨slot, hslot, rfl⟩).1
  · obtain ⟨rest, -, -, -, hmem⟩ := h.first
    have hfirst := (hmem ht.timerIdsFreelist).mp List.mem_cons_self
    exact ⟨hfirst.1, hfirst.2.1⟩

/-- After every run of schedules, cancels and polls whose allocations succeed the heap is intact. -/
theorem intact_of_run {size : Nat} {timerDups : Int → Dup E G A} {entries : E → Entry A}
    {acts : List (Action E G A P)} {s : State E G A P} (hentries : ∀ e, (entries e).timerId = -1)
    (halloc : ∀ a ∈ acts, a.allocates)
    (hrun : exec step (start (create size timerDups entries)) acts = some s) : Intact s.ht :=
  (exec_invariant_of_meets (P := fun s : State E G A P => Inv s.ht) inv_step
    (inv_create size timerDups entries hentries) (meets_of_forall halloc _) hrun).intact

/-- The smallest heap grows twice for three timers; one is cancelled and one is fired. -/
theorem intact_grown : ∃ s : State Nat Unit Unit Unit,
    exec step (start (create 0 (fun _ => ⟨⟨0, 0, (), none⟩, 0, ⟨0, 0⟩, none⟩) fun _ => ⟨-1, 0, (), some ()⟩))
        [.schedule 7 ⟨3, 0⟩ ⟨0, 0⟩ none none ⟨true, true, true⟩,
          .schedule 8 ⟨2, 0⟩ ⟨0, 0⟩ none none ⟨true, true, true⟩,
          .schedule 9 ⟨1, 0⟩ ⟨0, 0⟩ none none ⟨true, true, true⟩,
          .cancel 8 none, .poll () true ⟨2, 0⟩ ⟨2, 0⟩] = some s ∧
      s.ht.maxSize = 8 ∧ s.ht.curSize = 1 ∧ s.ht.timerIdsFreelist = 3 ∧ (s.ht.entries 7).timerId = 1 ∧
      Intact s.ht := by
  have hsome := Option.some_get (x := exec step
    (start (create 0 (fun _ => ⟨⟨0, 0, (), none⟩, 0, ⟨0, 0⟩, none⟩) fun _ => ⟨-1, 0, (), some ()⟩) :
      State Nat Unit Unit Unit)
    [Action.schedule 7 ⟨3, 0⟩ ⟨0, 0⟩ none none ⟨true, true, true⟩,
      .schedule 8 ⟨2, 0⟩ ⟨0, 0⟩ none none ⟨true, true, true⟩,
      .schedule 9 ⟨1, 0⟩ ⟨0, 0⟩ none none ⟨true, true, true⟩,
      .cancel 8 none, .poll () true ⟨2, 0⟩ ⟨2, 0⟩]) (by decide)
  refine ⟨_, hsome.symm, by decide, by decide, by decide, by decide, ?_⟩
  exact intact_of_run (fun _ => rfl) (by simp [Action.allocates]) hsome.symm

end PjProject.TimerHeap
