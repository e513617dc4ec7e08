import Mathlib

/-! Half-open intervals of addresses: intervals that do not meet and lie below a bound have lengths
that sum to at most the bound. -/

namespace PjProject

/-- The interval `[lo, hi)` of addresses. -/
structure Interval where
  lo : Nat
  hi : Nat
  deriving DecidableEq

namespace Interval

def length (i : Interval) : Nat := i.hi - i.lo

@[simp] theorem length_mk_add (lo n : Nat) : length ⟨lo, lo + n⟩ = n := Nat.add_sub_cancel_left lo n

/-- One of the intervals ends before the other starts. -/
def Apart (i j : Interval) : Prop := i.hi ≤ j.lo ∨ j.hi ≤ i.lo

instance (i j : Interval) : Decidable (Apart i j) := inferInstanceAs (Decidable (_ ∨ _))

theorem Apart.symm {i j : Interval} (h : Apart i j) : Apart j i := Or.symm h

instance : Std.Symm Apart := ⟨fun _ _ => Apart.symm⟩

def covered (l : List Interval) : Finset Nat := l.foldr (fun i s => Finset.Ico i.lo i.hi ∪ s) ∅

theorem mem_covered {l : List Interval} {x : Nat} : x ∈ covered l ↔ ∃ i ∈ l, i.lo ≤ x ∧ x < i.hi := by
  induction l with
  | nil => simp [covered]
  | cons i l ih =>
    have hcons : covered (i :: l) = Finset.Ico i.lo i.hi ∪ covered l := rfl
    simp [hcons, ih]

theorem card_covered {l : List Interval} (h : l.Pairwise Apart) : (covered l).card = (l.map length).sum := by
  induction l with
  | nil => rfl
  | cons i l ih =>
    obtain ⟨hi, hl⟩ := List.pairwise_cons.mp h
    have hcons : covered (i :: l) = Finset.Ico i.lo i.hi ∪ covered l := rfl
    have hdisjoint : Disjoint (Finset.Ico i.lo i.hi) (covered l) := by
      rw [Finset.disjoint_left]
      intro x hx hx'
      obtain ⟨j, hj, hlo, hhi⟩ := mem_covered.mp hx'
      rw [Finset.mem_Ico] at hx
      rcases hi j hj with hij | hij <;> omega
    rw [hcons, Finset.card_union_of_disjoint hdisjoint, ih hl, Nat.card_Ico, List.map_cons,
      List.sum_cons]
    rfl

/-- Intervals below `bound` that do not meet have lengths that sum to at most `bound`. -/
theorem sum_length_le {l : List Interval} (bound : Nat) (h : l.Pairwise Apart)
    (hbound : ∀ i ∈ l, i.hi ≤ bound) : (l.map length).sum ≤ bound := by
  rw [← card_covered h]
  have hsub : covered l ⊆ Finset.range bound := by
    intro x hx
    obtain ⟨i, hi, _, hlt⟩ := mem_covered.mp hx
    exact Finset.mem_range.mpr (hlt.trans_le (hbound i hi))
  exact (Finset.card_le_card hsub).trans_eq (Finset.card_range bound)

/-- The intervals lie end to end from `a` to `b`. -/
def Chain : Nat → List Interval → Nat → Prop
  | a, [], b => a = b
  | a, i :: l, b => i.lo = a ∧ i.lo < i.hi ∧ Chain i.hi l b

theorem Chain.le {l : List Interval} {a b : Nat} (h : Chain a l b) : a ≤ b := by
  induction l generalizing a with
  | nil => exact Nat.le_of_eq h
  | cons i l ih =>
    obtain ⟨rfl, hlt, hrest⟩ := h
    exact hlt.le.trans (ih hrest)

theorem Chain.lt_of_ne_nil {l : List Interval} {a b : Nat} (h : Chain a l b) (hne : l ≠ []) : a < b := by
  cases l with
  | nil => exact absurd rfl hne
  | cons i l =>
    obtain ⟨rfl, hlt, hrest⟩ := h
    exact hlt.trans_le hrest.le

theorem Chain.bounds {l : List Interval} {a b : Nat} (h : Chain a l b) {i : Interval} (hi : i ∈ l) :
    a ≤ i.lo ∧ i.hi ≤ b := by
  induction l generalizing a with
  | nil => cases hi
  | cons j l ih =>
    obtain ⟨rfl, hlt, hrest⟩ := h
    rcases List.mem_cons.mp hi with rfl | hi
    · exact ⟨le_rfl, hrest.le⟩
    · exact ⟨hlt.le.trans (ih hrest hi).1, (ih hrest hi).2⟩

theorem Chain.concat {l : List Interval} {a b c : Nat} (h : Chain a l b) (hlt : b < c) :
    Chain a (l ++ [⟨b, c⟩]) c := by
  induction l generalizing a with
  | nil => exact ⟨Eq.symm h, hlt, rfl⟩
  | cons i l ih =>
    obtain ⟨ha, hi, hrest⟩ := h
    exact ⟨ha, hi, ih hrest⟩

theorem Chain.apart {l : List Interval} {a b : Nat} (h : Chain a l b) : l.Pairwise Apart := by
  induction l generalizing a with
  | nil => exact List.Pairwise.nil
  | cons i l ih =>
    obtain ⟨_, _, hrest⟩ := h
    exact List.pairwise_cons.mpr ⟨fun j hj => .inl (hrest.bounds hj).1, ih hrest⟩

theorem Chain.covers {l : List Interval} {a b x : Nat} (h : Chain a l b) (hlo : a ≤ x) (hhi : x < b) :
    ∃ i ∈ l, i.lo ≤ x ∧ x < i.hi := by
  induction l generalizing a with
  | nil =>
    have hab : a = b := h
    omega
  | cons i l ih =>
    obtain ⟨rfl, _, hrest⟩ := h
    by_cases hx : x < i.hi
    · exact ⟨i, List.mem_cons_self, hlo, hx⟩
    · obtain ⟨j, hj, hin⟩ := ih hrest (not_lt.mp hx)
      exact ⟨j, List.mem_cons_of_mem i hj, hin⟩

end Interval

end PjProject
