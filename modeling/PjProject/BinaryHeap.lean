import Mathlib.Order.Basic
import Mathlib.Logic.Equiv.Basic
import Mathlib.Logic.Function.Basic
import Mathlib.Data.List.Basic

/-! Binary heaps in an array. The order is broken at one slot, the hole, while a value is moved to its
place: it may be too small for its parent while it moves up, or too large for its children while it
moves down. One move swaps it with a neighbour. -/

namespace PjProject.BinaryHeap

variable {α : Type*} [Preorder α]

def parent (s : Nat) : Nat := (s - 1) / 2

theorem parent_lt {s : Nat} (hs : 0 < s) : parent s < s := by
  unfold parent
  omega

/-- No value of the first `n` slots is below its parent's. -/
def Ordered (v : Nat → α) (n : Nat) : Prop := ∀ s, 0 < s → s < n → v (parent s) ≤ v s

/-- Ordered, except that the value at the hole may be too small for its parent. -/
structure OrderedUp (v : Nat → α) (n hole : Nat) : Prop where
  rest : ∀ s, 0 < s → s < n → s ≠ hole → v (parent s) ≤ v s
  across : ∀ s, 0 < s → s < n → 0 < hole → parent s = hole → v (parent hole) ≤ v s

/-- Ordered, except that the value at the hole may be too large for its children. -/
structure OrderedDown (v : Nat → α) (n hole : Nat) : Prop where
  rest : ∀ s, 0 < s → s < n → parent s ≠ hole → v (parent s) ≤ v s
  across : ∀ s, 0 < s → s < n → 0 < hole → parent s = hole → v (parent hole) ≤ v s

variable {v w : Nat → α} {n hole : Nat}

/-- The first value is the least one. -/
theorem Ordered.root_le (h : Ordered v n) {s : Nat} (hs : s < n) : v 0 ≤ v s := by
  induction s using Nat.strongRecOn with
  | ind s ih =>
    by_cases hpos : 0 < s
    · have hlt := parent_lt hpos
      exact (ih (parent s) hlt (Nat.lt_trans hlt hs)).trans (h s hpos hs)
    · rw [Nat.eq_zero_of_not_pos hpos]

theorem OrderedUp.ordered (h : OrderedUp v n hole) (hstop : 0 < hole → v (parent hole) ≤ v hole) : Ordered v n := by
  intro s hs hn
  by_cases hhole : s = hole
  · subst hhole
    exact hstop hs
  · exact h.rest s hs hn hhole

theorem OrderedDown.ordered (h : OrderedDown v n hole)
    (hstop : ∀ s, 0 < s → s < n → parent s = hole → v hole ≤ v s) : Ordered v n := by
  intro s hs hn
  by_cases hhole : parent s = hole
  · rw [hhole]
    exact hstop s hs hn hhole
  · exact h.rest s hs hn hhole

theorem OrderedUp.swap (h : OrderedUp v n hole) (hpos : 0 < hole) (hhole : hole < n)
    (hle : v hole ≤ v (parent hole)) : OrderedUp (v ∘ Equiv.swap hole (parent hole)) n (parent hole) := by
  have hlt := parent_lt hpos
  constructor
  · intro s hs hn hne
    simp only [Function.comp_apply]
    by_cases hsh : s = hole
    · subst hsh
      rwa [Equiv.swap_apply_left, Equiv.swap_apply_right]
    · rw [Equiv.swap_apply_of_ne_of_ne hsh hne]
      by_cases hph : parent s = hole
      · rw [hph, Equiv.swap_apply_left]
        exact h.across s hs hn hpos hph
      · by_cases hpp : parent s = parent hole
        · rw [hpp, Equiv.swap_apply_right]
          exact hle.trans (hpp ▸ h.rest s hs hn hsh)
        · rw [Equiv.swap_apply_of_ne_of_ne hph hpp]
          exact h.rest s hs hn hsh
  · intro s hs hn hppos hps
    simp only [Function.comp_apply]
    have hpp := parent_lt hppos
    have hsp := parent_lt hs
    have hparent := h.rest (parent hole) hppos (by omega) (by omega)
    rw [Equiv.swap_apply_of_ne_of_ne (by omega) (by omega)]
    by_cases hsh : s = hole
    · subst hsh
      rwa [Equiv.swap_apply_left]
    · rw [Equiv.swap_apply_of_ne_of_ne hsh (by omega)]
      exact hparent.trans (hps ▸ h.rest s hs hn hsh)

/-- The value at the hole moves down, to the place of its smallest child. -/
theorem OrderedDown.swap (h : OrderedDown v n hole) {c : Nat} (hc : 0 < c) (hcn : c < n)
    (hpc : parent c = hole) (hle : v c ≤ v hole) (hmin : ∀ s, 0 < s → s < n → parent s = hole → v c ≤ v s) :
    OrderedDown (v ∘ Equiv.swap hole c) n c := by
  have hlt := parent_lt hc
  constructor
  · intro s hs hn hne
    simp only [Function.comp_apply]
    by_cases hsc : s = c
    · subst hsc
      rwa [hpc, Equiv.swap_apply_left, Equiv.swap_apply_right]
    · by_cases hsh : s = hole
      · have hsp := parent_lt hs
        rw [Equiv.swap_apply_of_ne_of_ne (by omega) hne, hsh, Equiv.swap_apply_left]
        exact h.across c hc hcn (hsh ▸ hs) hpc
      · rw [Equiv.swap_apply_of_ne_of_ne hsh hsc]
        by_cases hps : parent s = hole
        · rw [hps, Equiv.swap_apply_left]
          exact hmin s hs hn hps
        · rw [Equiv.swap_apply_of_ne_of_ne hps hne]
          exact h.rest s hs hn hps
  · intro s hs hn _ hps
    simp only [Function.comp_apply]
    have hsp := parent_lt hs
    rw [hpc, Equiv.swap_apply_left, Equiv.swap_apply_of_ne_of_ne (by omega) (by omega)]
    exact hps ▸ h.rest s hs hn (by omega)

/-- A value put after the last one. -/
theorem Ordered.push (h : Ordered v n) (hw : ∀ s, s < n → w s = v s) : OrderedUp w (n + 1) n := by
  constructor
  · intro s hs hn hne
    have hsp := parent_lt hs
    rw [hw s (by omega), hw (parent s) (by omega)]
    exact h s hs (by omega)
  · intro s hs hn _ hps
    have hsp := parent_lt hs
    omega

theorem Ordered.mono (h : Ordered v n) {m : Nat} (hm : m ≤ n) : Ordered v m :=
  fun s hs hn => h s hs (Nat.lt_of_lt_of_le hn hm)

theorem Ordered.replaceDown (h : Ordered v n) (hw : ∀ s, s < n → s ≠ hole → w s = v s)
    (hhole : hole < n) (hle : 0 < hole → w (parent hole) ≤ w hole) : OrderedDown w n hole := by
  constructor
  · intro s hs hn hne
    have hsp := parent_lt hs
    by_cases hsh : s = hole
    · subst hsh
      exact hle hs
    · rw [hw s hn hsh, hw _ (by omega) hne]
      exact h s hs hn
  · intro s hs hn hpos hps
    have hlt := parent_lt hpos
    have hsp := parent_lt hs
    rw [hw s hn (by omega), hw _ (by omega) (by omega)]
    exact (h hole hpos hhole).trans (hps ▸ h s hs hn)

theorem Ordered.replaceUp (h : Ordered v n) (hw : ∀ s, s < n → s ≠ hole → w s = v s) (hpos : 0 < hole)
    (hhole : hole < n) (hle : w hole ≤ w (parent hole)) : OrderedUp w n hole := by
  have hlt := parent_lt hpos
  rw [hw (parent hole) (by omega) (by omega)] at hle
  have hover : ∀ s, 0 < s → s < n → parent s = hole → v (parent hole) ≤ v s :=
    fun s hs hn hps => (h hole hpos hhole).trans (hps ▸ h s hs hn)
  constructor
  · intro s hs hn hne
    have hsp := parent_lt hs
    rw [hw s hn hne]
    by_cases hps : parent s = hole
    · rw [hps]
      exact hle.trans (hover s hs hn hps)
    · rw [hw _ (by omega) hps]
      exact h s hs hn
  · intro s hs hn _ hps
    have hsp := parent_lt hs
    rw [hw s hn (by omega), hw _ (by omega) (by omega)]
    exact hover s hs hn hps

end PjProject.BinaryHeap

/-! Lists threaded through an array: each cell holds the place of the next one, and the last cell holds
a place outside of the list. -/

namespace PjProject

variable {ι : Type*}

/-- The cells from `start` on are the ones of the list, in order, and the last leads to `stop`. -/
def Links (next : ι → ι) : ι → List ι → ι → Prop
  | start, [], stop => start = stop
  | start, i :: rest, stop => start = i ∧ Links next (next i) rest stop

namespace Links

variable {next next' : ι → ι} {start mid stop i : ι} {ids more : List ι}

theorem congr (h : Links next start ids stop) (hnext : ∀ j ∈ ids, next' j = next j) : Links next' start ids stop := by
  induction ids generalizing start with
  | nil => exact h
  | cons j rest ih =>
    refine ⟨h.1, ?_⟩
    rw [hnext j List.mem_cons_self]
    exact ih h.2 fun k hk => hnext k (List.mem_cons_of_mem j hk)

theorem append (h : Links next start ids mid) (hmore : Links next mid more stop) :
    Links next start (ids ++ more) stop := by
  induction ids generalizing start with
  | nil => exact (show start = mid from h) ▸ hmore
  | cons j rest ih => exact ⟨h.1, ih h.2⟩

end Links

end PjProject
