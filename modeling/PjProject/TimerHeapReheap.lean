import PjProject.TimerHeap

/-! The loops that move a node of the timer heap to its place, and the refilling of a slot: the nodes stay
the same ones, the heap is ordered again, and `timer_ids` finds each node. -/

namespace PjProject.TimerHeap

open BinaryHeap

variable {E G A P : Type}

theorem heapParent_eq (x : Nat) : heapParent x = parent x := by
  unfold heapParent parent
  split <;> omega

theorem parent_eq_iff {s slot : Nat} (hs : 0 < s) : parent s = slot ↔ s = heapLeft slot ∨ s = heapLeft slot + 1 := by
  unfold parent heapLeft
  omega

/-- The slots below `n` hold the nodes of `a`, but `slot` is still to be written. -/
structure Hole (ht : Heap E G A) (a : Nat → Int) (n slot : Nat) : Prop where
  agree : ∀ s, s ≠ slot → ht.heap s = a s
  ids : ∀ s, s < n → (ht.timerDups (a s)).dup.timerId = a s
  inj : ∀ s t, s < n → t < n → a s = a t → s = t
  index : ∀ s, s < n → s ≠ slot → ht.timerIds (a s) = s

/-- The nodes of `a` are in the slots below `n`, in order and indexed, and nothing else has changed. -/
structure Settled (ht ht' : Heap E G A) (a : Nat → Int) (n : Nat) : Prop where
  ordered : Ordered ht'.value n
  mem : ∀ i, (∃ s, s < n ∧ ht'.heap s = i) ↔ ∃ s, s < n ∧ a s = i
  index : ∀ s, s < n → ht'.timerIds (ht'.heap s) = s
  other : ∀ i, (∀ s, s < n → a s ≠ i) → ht'.timerIds i = ht.timerIds i
  frame : ht' = { ht with heap := ht'.heap, timerIds := ht'.timerIds }

section Reheap

variable {ht ht' : Heap E G A} {a : Nat → Int} {n slot p : Nat}

theorem swap_lt (hslot : slot < n) (hp : p < n) {s : Nat} (hs : s < n) : Equiv.swap slot p s < n := by
  rw [Equiv.swap_apply_def]
  split
  · exact hp
  · split
    · exact hslot
    · exact hs

theorem Hole.move (h : Hole ht a n slot) (hslot : slot < n) (hp : p < n) (hne : p ≠ slot) :
    Hole (copyNode ht slot (ht.heap p)) (a ∘ Equiv.swap slot p) n p := by
  have hap : ht.heap p = a p := h.agree p hne
  have hid : (ht.timerDups (ht.heap p)).dup.timerId = a p := by rw [hap, h.ids p hp]
  refine ⟨?_, fun s hs => h.ids _ (swap_lt hslot hp hs), ?_, ?_⟩
  · intro s hs
    simp only [copyNode, Function.comp_apply]
    by_cases hss : s = slot
    · subst hss
      rw [Function.update_self, Equiv.swap_apply_left, hap]
    · rw [Function.update_of_ne hss, Equiv.swap_apply_of_ne_of_ne hss hs, h.agree s hss]
  · intro s t hs ht hst
    exact (Equiv.swap slot p).injective (h.inj _ _ (swap_lt hslot hp hs) (swap_lt hslot hp ht) hst)
  · intro s hs hsp
    simp only [copyNode, Function.comp_apply, hid]
    by_cases hss : s = slot
    · subst hss
      rw [Equiv.swap_apply_left, Function.update_self]
    · rw [Equiv.swap_apply_of_ne_of_ne hss hsp, Function.update_of_ne]
      · exact h.index s hs hss
      · exact fun heq => hsp (h.inj s p hs hp heq)

theorem Hole.fill (h : Hole ht a n slot) (hslot : slot < n)
    (hord : Ordered (fun s => (ht.timerDups (a s)).timerValue) n) : Settled ht (copyNode ht slot (a slot)) a n := by
  have hheap : (copyNode ht slot (a slot)).heap = a := by
    funext s
    by_cases hss : s = slot
    · subst hss
      exact Function.update_self ..
    · exact (Function.update_of_ne hss ..).trans (h.agree s hss)
  have hids : (copyNode ht slot (a slot)).timerIds = Function.update ht.timerIds (a slot) slot := by
    simp only [copyNode, h.ids slot hslot]
  refine ⟨?_, ?_, ?_, ?_, rfl⟩
  · intro s hs hn
    have hle := hord s hs hn
    rw [← hheap] at hle
    exact hle
  · intro i
    rw [hheap]
  · intro s hs
    rw [hheap, hids]
    by_cases hss : s = slot
    · subst hss
      exact Function.update_self ..
    · rw [Function.update_of_ne fun heq => hss (h.inj s slot hs hslot heq)]
      exact h.index s hs hss
  · intro i hi
    rw [hids, Function.update_of_ne (Ne.symm (hi slot hslot))]

theorem Settled.of_move (hole : Hole ht a n slot) (hslot : slot < n) (hp : p < n) (hne : p ≠ slot)
    (h : Settled (copyNode ht slot (ht.heap p)) ht' (a ∘ Equiv.swap slot p) n) : Settled ht ht' a n := by
  refine ⟨h.ordered, ?_, h.index, ?_, h.frame⟩
  · intro i
    rw [h.mem]
    constructor
    · rintro ⟨s, hs, rfl⟩
      exact ⟨_, swap_lt hslot hp hs, rfl⟩
    · rintro ⟨s, hs, rfl⟩
      refine ⟨Equiv.swap slot p s, swap_lt hslot hp hs, ?_⟩
      rw [Function.comp_apply, Equiv.swap_apply_self]
  · intro i hi
    rw [h.other i fun s hs => hi _ (swap_lt hslot hp hs)]
    have hid : (ht.timerDups (ht.heap p)).dup.timerId = a p := by rw [hole.agree p hne, hole.ids p hp]
    simp only [copyNode, hid]
    exact Function.update_of_ne (Ne.symm (hi p hp)) ..

theorem reheapUp_settled (turns : Nat) (hole : Hole ht a n slot) (hslot : slot < n)
    (hturns : slot ≤ turns) (hord : OrderedUp (fun s => (ht.timerDups (a s)).timerValue) n slot) :
    Settled ht (reheapUp turns ht (a slot) slot (heapParent slot)) a n := by
  induction turns generalizing ht a slot with
  | zero => exact hole.fill hslot (hord.ordered fun hpos => by omega)
  | succ turns ih =>
    rw [heapParent_eq]
    unfold reheapUp
    split
    · next hcond =>
        obtain ⟨hpos, hlt⟩ := hcond
        have hparent := parent_lt hpos
        have hvalue : ht.value (parent slot) = (ht.timerDups (a (parent slot))).timerValue := by
          rw [Heap.value, hole.agree _ (by omega)]
        have hswap : (a ∘ Equiv.swap slot (parent slot)) (parent slot) = a slot := by
          rw [Function.comp_apply, Equiv.swap_apply_right]
        rw [hvalue] at hlt
        have hp : parent slot < n := by omega
        refine Settled.of_move hole hslot hp (by omega) ?_
        have hnext := ih (hole.move hslot hp (by omega)) hp (by omega)
          (hord.swap hpos hslot (TimeVal.gte_of_lt hlt))
        rwa [hswap] at hnext
    · next hcond =>
        refine hole.fill hslot (hord.ordered fun hpos => ?_)
        have hvalue : ht.value (parent slot) = (ht.timerDups (a (parent slot))).timerValue := by
          rw [Heap.value, hole.agree _ (parent_lt hpos).ne]
        rw [hvalue] at hcond
        exact TimeVal.gte_of_not_lt (by simpa [hpos] using hcond)

/-- The child chosen by `reheap_down` is the smallest one. -/
theorem smallerChild_spec (hn : ht.curSize = n) (hchild : heapLeft slot < n) :
    0 < smallerChild ht (heapLeft slot) ∧ smallerChild ht (heapLeft slot) < n ∧
      parent (smallerChild ht (heapLeft slot)) = slot ∧
      heapLeft slot ≤ smallerChild ht (heapLeft slot) ∧
      ∀ s, 0 < s → s < n → parent s = slot → ht.value (smallerChild ht (heapLeft slot)) ≤ ht.value s := by
  have hleft : 0 < heapLeft slot := by
    unfold heapLeft
    omega
  have hparent : parent (heapLeft slot) = slot := (parent_eq_iff hleft).mpr (.inl rfl)
  have hparent' : parent (heapLeft slot + 1) = slot := (parent_eq_iff (by omega)).mpr (.inr rfl)
  unfold smallerChild
  split
  · next hcond =>
      refine ⟨by omega, by omega, hparent', by omega, fun s hs _ hps => ?_⟩
      rcases (parent_eq_iff hs).mp hps with rfl | rfl
      · exact TimeVal.gte_of_lt hcond.2
      · exact le_rfl
  · next hcond =>
      refine ⟨hleft, hchild, hparent, le_rfl, fun s hs hsn hps => ?_⟩
      rcases (parent_eq_iff hs).mp hps with rfl | rfl
      · exact le_rfl
      · exact TimeVal.gte_of_not_lt (by simpa [hn, hsn] using hcond)

theorem reheapDown_settled (turns : Nat) (hole : Hole ht a n slot) (hslot : slot < n)
    (hn : ht.curSize = n) (hturns : n ≤ heapLeft slot + turns)
    (hord : OrderedDown (fun s => (ht.timerDups (a s)).timerValue) n slot) :
    Settled ht (reheapDown turns ht (a slot) slot (heapLeft slot)) a n := by
  have hvalue : ∀ s, 0 < s → parent s = slot → ht.value s = (ht.timerDups (a s)).timerValue :=
    fun s hs hps => by
      have hlt := parent_lt hs
      rw [Heap.value, hole.agree s (by omega)]
  induction turns generalizing ht a slot with
  | zero =>
    refine hole.fill hslot (hord.ordered fun s hs hsn hps => ?_)
    have hchild := (parent_eq_iff hs).mp hps
    omega
  | succ turns ih =>
    unfold reheapDown
    split
    · next hcond =>
        obtain ⟨hchild, hlt⟩ := hcond
        obtain ⟨hpos, hcn, hpc, hge, hmin⟩ := smallerChild_spec hn (hn ▸ hchild)
        generalize smallerChild ht (heapLeft slot) = c at *
        have hltc := parent_lt hpos
        have hswap : (a ∘ Equiv.swap slot c) c = a slot := by
          rw [Function.comp_apply, Equiv.swap_apply_right]
        rw [hvalue c hpos hpc] at hlt
        refine Settled.of_move hole hslot hcn (by omega) ?_
        have hmove := hole.move hslot hcn (by omega)
        have hnext := ih hmove hcn hn (by unfold heapLeft at *; omega)
          (hord.swap hpos hcn hpc (TimeVal.gte_of_lt hlt) fun s hs hsn hps => by
            rw [← hvalue s hs hps, ← hvalue c hpos hpc]
            exact hmin s hs hsn hps)
          fun s hs hps => by
            have hlts := parent_lt hs
            rw [Heap.value, hmove.agree s (by omega)]
        rwa [hswap] at hnext
    · next hcond =>
        refine hole.fill hslot (hord.ordered fun s hs hsn hps => ?_)
        have hchild : heapLeft slot < n := by
          rcases (parent_eq_iff hs).mp hps with heq | heq <;> omega
        obtain ⟨hpos, hcn, hpc, -, hmin⟩ := smallerChild_spec hn hchild
        rw [hvalue _ hpos hpc] at hcond
        have hle : (ht.timerDups (a slot)).timerValue ≤
            (ht.timerDups (a (smallerChild ht (heapLeft slot)))).timerValue :=
          TimeVal.gte_of_not_lt (by simpa [hn, hchild] using hcond)
        refine le_trans hle ?_
        rw [← hvalue s hs hps, ← hvalue _ hpos hpc]
        exact hmin s hs hsn hps

/-- The slot is filled with the last node, which is then moved to its place. -/
theorem refillSlot_settled {a : Nat → Int} {n slot : Nat} (hn : ht.curSize = n) (hslot : slot ≤ n)
    (ha : a = Function.update ht.heap slot (ht.heap n)) (hids : ∀ s, s < n → (ht.timerDups (a s)).dup.timerId = a s)
    (hinj : ∀ s t, s < n → t < n → a s = a t → s = t) (hindex : ∀ s, s < n → s ≠ slot → ht.timerIds (a s) = s)
    (hord : ∃ v : Nat → TimeVal, Ordered v (n + 1) ∧
      ∀ s, s < n → s ≠ slot → (ht.timerDups (a s)).timerValue = v s) : Settled ht (refillSlot ht slot) a n := by
  obtain ⟨v, hv, hvalue⟩ := hord
  have hself : a slot = ht.heap n := ha ▸ Function.update_self ..
  have hrest : ∀ s, s ≠ slot → a s = ht.heap s := fun s hs => ha ▸ Function.update_of_ne hs ..
  by_cases hlt : slot < n
  · have hheap : (copyNode ht slot (a slot)).heap = a := by
      rw [hself, ha]
      rfl
    have hchanged : ∀ i, i ≠ a slot → (copyNode ht slot (a slot)).timerIds i = ht.timerIds i :=
      fun i hi => by
        simp only [copyNode, hids slot hlt]
        exact Function.update_of_ne hi ..
    have hole : Hole (copyNode ht slot (a slot)) a n slot := by
      refine ⟨fun s _ => congrFun hheap s, hids, hinj, fun s hs hne => ?_⟩
      rw [hchanged _ fun heq => hne (hinj s slot hs hlt heq)]
      exact hindex s hs hne
    have hparent : (copyNode ht slot (a slot)).value (heapParent slot) =
        (ht.timerDups (a (parent slot))).timerValue := by
      rw [Heap.value, hheap, heapParent_eq]
      rfl
    have hbefore := hv.mono (Nat.le_succ n)
    have hsettled : Settled (copyNode ht slot (a slot)) (refillSlot ht slot) a n := by
      rw [refillSlot, hn, if_pos hlt, ← hself]
      simp only [hparent]
      split
      · next hgte =>
          exact reheapDown_settled _ hole hlt hn (by simp only [copyNode]; omega)
            (hbefore.replaceDown hvalue hlt fun _ => hgte)
      · next hgte =>
          have hpos : 0 < slot := by
            rcases Nat.eq_zero_or_pos slot with rfl | hpos
            · exact absurd (TimeVal.gte_refl _) hgte
            · exact hpos
          have hle := TimeVal.gte_of_lt (by simpa [TimeVal.lt] using hgte)
          exact reheapUp_settled _ hole hlt le_rfl (hbefore.replaceUp hvalue hpos hlt hle)
    refine ⟨hsettled.ordered, hsettled.mem, hsettled.index, fun i hi => ?_, hsettled.frame⟩
    rw [hsettled.other i hi, hchanged i (Ne.symm (hi slot hlt))]
  · obtain rfl : slot = n := by omega
    have hheap : a = ht.heap := ha.trans (Function.update_eq_self ..)
    have hstop : refillSlot ht slot = ht := by rw [refillSlot, hn, if_neg hlt]
    rw [hstop]
    have hsame : ∀ s, s < slot → ht.value s = v s := fun s hs => by
      rw [← hvalue s hs (by omega), hheap, Heap.value]
    refine ⟨fun s hs hsn => ?_, fun i => by rw [hheap], fun s hs => ?_, fun _ _ => rfl, rfl⟩
    · have hlts := parent_lt hs
      rw [hsame s hsn, hsame _ (by omega)]
      exact hv s hs (by omega)
    · rw [← hheap]
      exact hindex s hs (by omega)

end Reheap

end PjProject.TimerHeap
