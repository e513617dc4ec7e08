import PjProject.TimerHeapFailure
import PjProject.TimerService

/-! The timers in the slots of the timer heap, and how the operations change them. -/

set_option linter.unusedSectionVars false

namespace PjProject.TimerHeap

open TimerService BinaryHeap

variable {E G A P : Type} [DecidableEq E] [DecidableEq A]

def timerOf (ht : Heap E G A) (node : Int) : Timer E TimeVal G :=
  ⟨(ht.timerDups node).entry, (ht.timerDups node).timerValue, (ht.timerDups node).grpLock⟩

def nodes (ht : Heap E G A) : List Int := (List.range ht.curSize).map ht.heap

def slotTimers (ht : Heap E G A) : List (Timer E TimeVal G) := (nodes ht).map (timerOf ht)

section Nodes

variable {ht ht' : Heap E G A}

theorem mem_nodes {i : Int} : i ∈ nodes ht ↔ InUse ht i := by
  rw [nodes, List.mem_map]
  simp only [List.mem_range]
  exact Iff.rfl

theorem nodup_of_inj {a : Nat → Int} {n : Nat} (hinj : ∀ s t, s < n → t < n → a s = a t → s = t) :
    ((List.range n).map a).Nodup := by
  refine List.Nodup.map_on (fun s hs t ht => ?_) List.nodup_range
  exact hinj s t (List.mem_range.mp hs) (List.mem_range.mp ht)

theorem Inv.nodup_nodes (h : Inv ht) : (nodes ht).Nodup := nodup_of_inj fun _ _ hs ht => h.inj hs ht

theorem Settled.perm {a : Nat → Int} {n : Nat} (hs : Settled ht ht' a n)
    (hinj : ∀ s t, s < n → t < n → a s = a t → s = t) : ((List.range n).map ht'.heap).Perm ((List.range n).map a) := by
  have hinj' : ∀ s t, s < n → t < n → ht'.heap s = ht'.heap t → s = t := by
    intro s t hsn htn heq
    have hindex := hs.index s hsn
    rw [heq, hs.index t htn] at hindex
    exact_mod_cast hindex.symm
  rw [List.perm_ext_iff_of_nodup (nodup_of_inj hinj') (nodup_of_inj hinj)]
  intro i
  simp only [List.mem_map, List.mem_range]
  exact hs.mem i

theorem map_timerOf_congr {l : List Int} (hsame : ∀ i ∈ l, ht'.timerDups i = ht.timerDups i) :
    l.map (timerOf ht') = l.map (timerOf ht) := by
  refine List.map_congr_left fun i hi => ?_
  rw [timerOf, timerOf, hsame i hi]

theorem Inv.remove_nodes (h : Inv ht) {slot : Nat} (hslot : slot < ht.curSize) :
    (nodes ht).Perm (ht.heap slot :: nodes (removeNode ht slot)) := by
  have hsettled := h.detach_settled hslot
  have hcur : (removeNode ht slot).curSize = ht.curSize - 1 := by
    rw [removeNode, hsettled.frame, h.detach_eq hslot]
  have hperm := hsettled.perm (h.slotsWithout_inj hslot)
  have hnodup : (ht.heap slot :: (List.range (ht.curSize - 1)).map (slotsWithout ht slot)).Nodup := by
    refine List.nodup_cons.mpr ⟨fun hmem => ?_, nodup_of_inj (h.slotsWithout_inj hslot)⟩
    obtain ⟨s, hs, heq⟩ := List.mem_map.mp hmem
    obtain ⟨t, ht', hne, hat⟩ := exists_of_slotsWithout (List.mem_range.mp hs)
    exact h.ne_removed hslot ht' hne (hat.symm.trans heq)
  have hall : (nodes ht).Perm (ht.heap slot :: (List.range (ht.curSize - 1)).map (slotsWithout ht slot)) := by
    rw [List.perm_ext_iff_of_nodup h.nodup_nodes hnodup]
    intro i
    rw [mem_nodes, List.mem_cons, List.mem_map]
    constructor
    · rintro ⟨t, ht', heq⟩
      by_cases hts : t = slot
      · rw [← heq, hts]
        exact Or.inl rfl
      · obtain ⟨s, hs, hst⟩ := exists_slotsWithout hslot ht' hts
        exact Or.inr ⟨s, List.mem_range.mpr hs, hst.trans heq⟩
    · rintro (heq | ⟨s, hs, heq⟩)
      · exact ⟨slot, hslot, heq.symm⟩
      · obtain ⟨t, ht', -, hat⟩ := exists_of_slotsWithout (List.mem_range.mp hs)
        exact ⟨t, ht', hat.symm.trans heq⟩
  refine hall.trans ?_
  rw [nodes, hcur]
  exact hperm.symm.cons _

theorem Inv.remove_dups (h : Inv ht) {slot : Nat} (hslot : slot < ht.curSize) {i : Int} (hi : i ≠ ht.heap slot) :
    (removeNode ht slot).timerDups i = ht.timerDups i := by
  rw [removeNode, (h.detach_settled hslot).frame, h.detach_eq hslot]
  exact Function.update_of_ne hi ..

theorem Inv.remove_removed (h : Inv ht) {slot : Nat} (hslot : slot < ht.curSize) :
    (removeNode ht slot).timerDups (ht.heap slot) = { ht.timerDups (ht.heap slot) with
      dup := { (ht.timerDups (ht.heap slot)).dup with timerId := -1 } } := by
  rw [removeNode, (h.detach_settled hslot).frame, h.detach_eq hslot]
  exact Function.update_self ..

theorem Inv.remove_entries (h : Inv ht) {slot : Nat} (hslot : slot < ht.curSize) :
    (removeNode ht slot).entries = Function.update ht.entries (ht.timerDups (ht.heap slot)).entry
      { ht.entries (ht.timerDups (ht.heap slot)).entry with timerId := -1 } := by
  rw [removeNode, (h.detach_settled hslot).frame, h.detach_eq hslot]

theorem Inv.remove_limit (h : Inv ht) {slot : Nat} (hslot : slot < ht.curSize) :
    (removeNode ht slot).maxEntriesPerPoll = ht.maxEntriesPerPoll := by
  rw [removeNode, (h.detach_settled hslot).frame, h.detach_eq hslot]

theorem Inv.remove_timers (h : Inv ht) {slot : Nat} (hslot : slot < ht.curSize) :
    (slotTimers ht).Perm (timerOf ht (ht.heap slot) :: slotTimers (removeNode ht slot)) := by
  have hperm := h.remove_nodes hslot
  have hnodup := hperm.nodup_iff.mp h.nodup_nodes
  rw [slotTimers, slotTimers, map_timerOf_congr fun i hi => h.remove_dups hslot fun he => ?_]
  · exact hperm.map (timerOf ht)
  · rw [← he] at hnodup
    exact (List.nodup_cons.mp hnodup).1 hi

theorem Inv.attach_nodes (h : Inv ht) (e : E) (futureTime : TimeVal) :
    (nodes (attachNode ((popFreelist ht).setTimerId e ht.timerIdsFreelist) e futureTime)).Perm
      (ht.timerIdsFreelist :: nodes ht) := by
  have hsettled : Settled (withCopy ht e futureTime) _ _ _ := h.withCopy_settled
  have hcur : (reheapUp ht.curSize (withCopy ht e futureTime) (slotsWithFree ht ht.curSize) ht.curSize
      (heapParent ht.curSize)).curSize = ht.curSize := by
    rw [hsettled.frame]
    rfl
  have hhole : Hole (withCopy ht e futureTime) _ _ _ := h.withCopy_hole
  have hperm := hsettled.perm hhole.inj
  have hmap : (List.range (ht.curSize + 1)).map (slotsWithFree ht) = nodes ht ++ [ht.timerIdsFreelist] := by
    rw [List.range_succ, List.map_append, List.map_singleton, slotsWithFree_last, nodes]
    congr 1
    refine List.map_congr_left fun s hs => ?_
    exact slotsWithFree_of_ne (Nat.ne_of_lt (List.mem_range.mp hs))
  rw [attachNode_eq, nodes, hcur]
  refine hperm.trans ?_
  rw [hmap]
  exact List.perm_append_singleton ..

theorem Inv.attach_dups (h : Inv ht) (e : E) (futureTime : TimeVal) :
    (attachNode ((popFreelist ht).setTimerId e ht.timerIdsFreelist) e futureTime).timerDups =
      (withCopy ht e futureTime).timerDups := by
  have hsettled : Settled (withCopy ht e futureTime) _ _ _ := h.withCopy_settled
  rw [attachNode_eq, hsettled.frame]

theorem Inv.attach_entries (h : Inv ht) (e : E) (futureTime : TimeVal) :
    (attachNode ((popFreelist ht).setTimerId e ht.timerIdsFreelist) e futureTime).entries =
      (withCopy ht e futureTime).entries := by
  have hsettled : Settled (withCopy ht e futureTime) _ _ _ := h.withCopy_settled
  rw [attachNode_eq, hsettled.frame]

theorem Inv.ne_free_of_mem (h : Inv ht) {i : Int} (hi : i ∈ nodes ht) : i ≠ ht.timerIdsFreelist := by
  obtain ⟨s, hs, heq⟩ := mem_nodes.mp hi
  rw [← heq]
  exact h.ne_free hs

/-- The heap after an entry is scheduled: its node is new, and the others are as they were. -/
structure Added (ht ht' : Heap E G A) (e : E) (futureTime : TimeVal) : Prop where
  nodes : (nodes ht').Perm (ht.timerIdsFreelist :: nodes ht)
  dup : ht'.timerDups ht.timerIdsFreelist = ⟨{ ht.entries e with timerId := ht.timerIdsFreelist }, e, futureTime, none⟩
  dups : ∀ i, i ≠ ht.timerIdsFreelist → ht'.timerDups i = ht.timerDups i
  entry : ht'.entries e = { ht.entries e with timerId := ht.timerIdsFreelist }
  entries : ∀ e', e' ≠ e → ht'.entries e' = ht.entries e'
  limit : ht'.maxEntriesPerPoll = ht.maxEntriesPerPoll

theorem Inv.attach_added (h : Inv ht) (e : E) (futureTime : TimeVal) :
    Added ht (attachNode ((popFreelist ht).setTimerId e ht.timerIdsFreelist) e futureTime) e futureTime where
  nodes := h.attach_nodes e futureTime
  dup := by
    rw [h.attach_dups]
    exact withCopy_free ht e futureTime
  dups i hi := by
    rw [h.attach_dups]
    exact Function.update_of_ne hi ..
  entry := by
    rw [h.attach_entries]
    exact Function.update_self ..
  entries e' he := by
    rw [h.attach_entries]
    exact withCopy_of_ne he
  limit := by
    have hsettled : Settled (withCopy ht e futureTime) _ _ _ := h.withCopy_settled
    rw [attachNode_eq, hsettled.frame]
    rfl

theorem growHeap_nodes (ht : Heap E G A) : nodes (growHeap ht ⟨true, true, true⟩).1 = nodes ht := by
  refine List.map_congr_left fun s hs => ?_
  exact growHeap_heap ht (List.mem_range.mp hs)

theorem Inv.schedule_added (h : Inv ht) {e : E} (hidle : (ht.entries e).timerId < 1) (futureTime : TimeVal) :
    ∃ ht', TimerHeap.scheduleEntry ht e futureTime ⟨true, true, true⟩ = (ht', .success) ∧ Inv ht' ∧ Added ht ht' e futureTime := by
  obtain ⟨ht', heq, hinv⟩ := h.scheduleEntry hidle futureTime
  refine ⟨ht', heq, hinv, ?_⟩
  have hsize := h.size
  rw [TimerHeap.scheduleEntry, if_pos (by omega)] at heq
  unfold insertNode at heq
  by_cases hfull : ht.curSize + 2 ≥ ht.maxSize
  · have hcond : ((popFreelist ht).setTimerId e ht.timerIdsFreelist).curSize + 2 ≥
      ((popFreelist ht).setTimerId e ht.timerIdsFreelist).maxSize := hfull
    simp only [if_pos hcond, h.growHeap_popped, if_true] at heq
    obtain ⟨hnodes, hdup, hdups, hentry, hentries, hlimit⟩ := h.grow.attach_added e futureTime
    rw [growHeap_nodes] at hnodes
    rw [← (Prod.mk.inj heq).1]
    exact ⟨hnodes, hdup, hdups, hentry, hentries, hlimit⟩
  · have hcond : ¬((popFreelist ht).setTimerId e ht.timerIdsFreelist).curSize + 2 ≥
      ((popFreelist ht).setTimerId e ht.timerIdsFreelist).maxSize := hfull
    simp only [if_neg hcond, if_true] at heq
    rw [← (Prod.mk.inj heq).1]
    exact h.attach_added e futureTime

end Nodes

end PjProject.TimerHeap
