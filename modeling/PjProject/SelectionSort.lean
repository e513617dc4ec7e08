import Mathlib

/-! Sorting by selection. In each round the highest of the elements that are left is found, the first of them if there
are several, and exchanged with the element it takes the place of. The list is sorted in the descending order of a key. -/

namespace PjProject.SelectionSort

section Defs

variable {α : Type*} (higher : α → α → Bool)

/-- The elements from the index `j` on are compared with the highest so far, which has the index `h`. -/
def highest : List α → Nat → Nat → α → Nat × α
  | [], _, h, best => (h, best)
  | y :: more, j, h, best => if higher y best then highest more (j + 1) j y else highest more (j + 1) h best

/-- One round: the highest of the elements, and the others when it was exchanged with the first. -/
def round (x : α) (more : List α) : α × List α :=
  let (h, best) := highest higher more 1 0 x
  (best, if h = 0 then more else more.set (h - 1) x)

def selectionSort : Nat → List α → List α
  | 0, l => l
  | _ + 1, [] => []
  | n + 1, x :: more => (round higher x more).1 :: selectionSort n (round higher x more).2

/-- The inner loop over an array: the index of the highest element, from `n` elements on from the index `j`. -/
def highestAt (a : Nat → α) : Nat → Nat → Nat → Nat
  | 0, _, h => h
  | n + 1, j, h => highestAt a n (j + 1) (if higher (a j) (a h) then j else h)

/-- Where a pointer to `p` points when the elements with the indices `i` and `h` were exchanged. -/
def exchange (i h p : Nat) : Nat := if p = h then i else if p = i then h else p

/-- `n` rounds over an array of `count` elements, the first one for the index `i`. The pointers follow the elements. -/
def sortInPlace (count : Nat) : Nat → Nat → (Nat → α) → List Nat → (Nat → α) × List Nat
  | 0, _, a, ptrs => (a, ptrs)
  | n + 1, i, a, ptrs =>
    let h := highestAt higher a (count - (i + 1)) (i + 1) i
    if h ≠ i then sortInPlace count n (i + 1) (a ∘ exchange i h) (ptrs.map (exchange i h))
    else sortInPlace count n (i + 1) a ptrs

end Defs

section Sorted

variable {α κ : Type*} [LinearOrder κ] {higher : α → α → Bool} {key : α → κ}
  (hkey : ∀ a b, higher a b = true ↔ key b < key a)

theorem perm_set {l : List α} {i : Nat} {b : α} (h : l[i]? = some b) (a : α) : (b :: l.set i a).Perm (a :: l) := by
  induction l generalizing i with
  | nil => cases h
  | cons c l ih =>
    cases i with
    | zero =>
      obtain rfl : c = b := Option.some.inj h
      exact List.Perm.swap a c l
    | succ i =>
      calc (b :: (c :: l).set (i + 1) a).Perm (c :: b :: l.set i a) := List.Perm.swap c b _
        _ |>.Perm (c :: a :: l) := (ih h).cons c
        _ |>.Perm (a :: c :: l) := List.Perm.swap a c l

/-- The element that is found, and where. -/
theorem highest_spec (more : List α) (j h : Nat) (best : α) :
    highest higher more j h best = (h, best) ∨
      ∃ i, (highest higher more j h best).1 = j + i ∧ more[i]? = some (highest higher more j h best).2 := by
  induction more generalizing j h best with
  | nil => exact .inl rfl
  | cons y more ih =>
    rw [highest]
    by_cases hy : higher y best = true
    · rw [if_pos hy]
      rcases ih (j + 1) j y with hsame | ⟨i, hi, hget⟩
      · rw [hsame]
        exact .inr ⟨0, rfl, rfl⟩
      · exact .inr ⟨i + 1, hi.trans (Nat.add_right_comm j 1 i), hget⟩
    · rw [if_neg hy]
      rcases ih (j + 1) h best with hsame | ⟨i, hi, hget⟩
      · exact .inl hsame
      · exact .inr ⟨i + 1, hi.trans (Nat.add_right_comm j 1 i), hget⟩

theorem round_perm (x : α) (more : List α) : ((round higher x more).1 :: (round higher x more).2).Perm (x :: more) := by
  unfold round
  rcases @highest_spec α higher more 1 0 x with hsame | ⟨i, hi, hget⟩
  · rw [hsame]
    exact .refl _
  · dsimp only
    rw [hi, if_neg (by omega), Nat.add_sub_cancel_left]
    exact perm_set hget x

theorem selectionSort_perm (n : Nat) (l : List α) : (selectionSort higher n l).Perm l := by
  induction n generalizing l with
  | zero => exact .refl _
  | succ n ih =>
    cases l with
    | nil => exact .refl _
    | cons x more => exact ((ih _).cons _).trans (round_perm x more)

include hkey

theorem highest_le (more : List α) (j h : Nat) (best : α) :
    key best ≤ key (highest higher more j h best).2 ∧ ∀ y ∈ more, key y ≤ key (highest higher more j h best).2 := by
  induction more generalizing j h best with
  | nil => exact ⟨le_refl _, nofun⟩
  | cons y more ih =>
    rw [highest]
    by_cases hy : higher y best = true
    · rw [if_pos hy]
      obtain ⟨hbest, hmore⟩ := ih (j + 1) j y
      refine ⟨((hkey y best).mp hy).le.trans hbest, fun z hz => ?_⟩
      rcases List.mem_cons.mp hz with rfl | hz
      · exact hbest
      · exact hmore z hz
    · rw [if_neg hy]
      obtain ⟨hbest, hmore⟩ := ih (j + 1) h best
      refine ⟨hbest, fun z hz => ?_⟩
      rcases List.mem_cons.mp hz with rfl | hz
      · exact (not_lt.mp fun hlt => hy ((hkey z best).mpr hlt)).trans hbest
      · exact hmore z hz

theorem round_le (x : α) (more : List α) : ∀ y ∈ x :: more, key y ≤ key (round higher x more).1 := by
  intro y hy
  obtain ⟨hbest, hmore⟩ := highest_le hkey more 1 0 x
  rcases List.mem_cons.mp hy with rfl | hy
  · exact hbest
  · exact hmore y hy

theorem selectionSort_sorted (n : Nat) (l : List α) (h : l.length ≤ n + 1) :
    (selectionSort higher n l).Pairwise fun a b => key b ≤ key a := by
  induction n generalizing l with
  | zero =>
    -- one element is left at most
    cases l with
    | nil => exact List.Pairwise.nil
    | cons a more =>
      rw [List.length_eq_zero_iff.mp (Nat.le_zero.mp (Nat.succ_le_succ_iff.mp h))]
      exact List.pairwise_singleton _ a
  | succ n ih =>
    cases l with
    | nil => exact List.Pairwise.nil
    | cons x more =>
      have hperm := @round_perm α higher x more
      refine List.pairwise_cons.mpr ⟨fun y hy => ?_, ih _ ?_⟩
      · exact round_le hkey x more y
          (hperm.subset (List.mem_cons_of_mem _ ((selectionSort_perm n _).subset hy)))
      · have hlength := hperm.length_eq
        simp only [List.length_cons] at hlength h
        omega

end Sorted

section InPlace

variable {α : Type*} {higher : α → α → Bool}

theorem exchange_exchange (i h p : Nat) : exchange i h (exchange i h p) = p := by
  unfold exchange
  split_ifs <;> omega

theorem exchange_of_lt {i h p : Nat} (hp : p < i ∨ h < p) (hle : i ≤ h) : exchange i h p = p := by
  unfold exchange
  rw [if_neg (by omega), if_neg (by omega)]

/-- The inner loop over an array finds what the loop over the list of its elements finds. -/
theorem highest_range' (a : Nat → α) (i n j h : Nat) :
    ∃ r, highestAt higher a n (i + j) (i + h) = i + r ∧ (r = h ∨ j ≤ r ∧ r < j + n) ∧
      highest higher ((List.range' (i + j) n).map a) j h (a (i + h)) = (r, a (i + r)) := by
  induction n generalizing j h with
  | zero => exact ⟨h, rfl, .inl rfl, rfl⟩
  | succ n ih =>
    rw [List.range'_succ, List.map_cons, highest, highestAt]
    by_cases hj : higher (a (i + j)) (a (i + h)) = true
    · obtain ⟨r, hat, hr, hfound⟩ := ih (j + 1) j
      rw [if_pos hj, if_pos hj]
      exact ⟨r, hat, .inr (by omega), hfound⟩
    · obtain ⟨r, hat, hr, hfound⟩ := ih (j + 1) h
      rw [if_neg hj, if_neg hj]
      exact ⟨r, hat, by omega, hfound⟩

theorem round_range' (a : Nat → α) (i n : Nat) :
    ∃ h, highestAt higher a n (i + 1) i = h ∧ i ≤ h ∧ h ≤ i + n ∧
      round higher (a i) ((List.range' (i + 1) n).map a) =
        ((a ∘ exchange i h) i, (List.range' (i + 1) n).map (a ∘ exchange i h)) := by
  obtain ⟨r, hat, hr, hfound⟩ := @highest_range' α higher a i n 1 0
  have hle : r ≤ n := by omega
  refine ⟨i + r, hat, by omega, by omega, ?_⟩
  have hi : exchange i (i + r) i = i + r := by
    unfold exchange
    split_ifs <;> omega
  unfold round
  rw [show a i = a (i + 0) from rfl, hfound]
  refine Prod.ext (congrArg a hi).symm ?_
  dsimp only
  refine List.ext_getElem (by split <;> simp) fun k hk _ => ?_
  have hk : k < n := by
    split at hk <;> simpa using hk
  by_cases hzero : r = 0
  · have hsame : exchange i (i + r) (i + 1 + k) = i + 1 + k := exchange_of_lt (by omega) (by omega)
    simp [hzero] at hsame ⊢
    rw [hsame]
  · simp only [hzero, if_false, List.getElem_set, List.getElem_map, List.getElem_range', Function.comp_apply, Nat.one_mul]
    by_cases hkr : r - 1 = k
    · rw [if_pos hkr, exchange, if_pos (by omega)]
      rfl
    · rw [if_neg hkr, exchange, if_neg (by omega), if_neg (by omega)]

theorem exchange_self (i : Nat) : exchange i i = id := by
  funext p
  unfold exchange
  split_ifs with h
  · exact h.symm
  · rfl

theorem sortInPlace_succ (count n i : Nat) (a : Nat → α) (ptrs : List Nat) :
    sortInPlace higher count (n + 1) i a ptrs =
      let h := highestAt higher a (count - (i + 1)) (i + 1) i
      sortInPlace higher count n (i + 1) (a ∘ exchange i h) (ptrs.map (exchange i h)) := by
  rw [sortInPlace]
  split
  · rfl
  · rename_i hsame
    dsimp only
    rw [not_not.mp hsame, exchange_self, List.map_id]
    rfl

/-- The sort of an array is the sort of the list of its elements, nothing else is written, and every pointer still
points to its element. -/
theorem sortInPlace_spec {n m : Nat} (hn : n ≤ m) (i : Nat) (a : Nat → α) (ptrs : List Nat) :
    let s := sortInPlace higher (i + m) n i a ptrs
    (List.range' i m).map s.1 = selectionSort higher n ((List.range' i m).map a) ∧
      (∀ k, k < i ∨ i + m ≤ k → s.1 k = a k) ∧ s.2.map s.1 = ptrs.map a := by
  induction n generalizing i m a ptrs with
  | zero => exact ⟨rfl, fun _ _ => rfl, rfl⟩
  | succ n ih =>
    obtain ⟨m, rfl⟩ := Nat.exists_eq_add_of_le' (Nat.le_of_add_left_le hn)
    obtain ⟨h, hat, hle, hlt, hround⟩ := @round_range' α higher a i m
    rw [sortInPlace_succ, show i + (m + 1) - (i + 1) = m by omega, hat]
    obtain ⟨hsorted, hframe, hptrs⟩ := ih (m := m) (by omega) (i + 1) (a ∘ exchange i h) (ptrs.map (exchange i h))
    rw [show i + 1 + m = i + (m + 1) by omega] at hsorted hframe hptrs
    refine ⟨?_, fun k hk => ?_, hptrs.trans ?_⟩
    · rw [List.range'_succ, List.map_cons, List.map_cons, selectionSort, hround]
      exact congrArg₂ List.cons (hframe i (by omega)) hsorted
    · exact (hframe k (by omega)).trans (congrArg a (exchange_of_lt (by omega) hle))
    · rw [List.map_map]
      exact List.map_congr_left fun p _ => congrArg a (exchange_exchange i h p)

end InPlace

end PjProject.SelectionSort
