import Mathlib.Data.Nat.ModEq
import Mathlib.Data.Nat.Count
import Mathlib.Logic.Function.Basic
import Mathlib.Data.List.Basic

/-! Circular buffers. The entries of an array of `m` positions are seen by their offset from a head; a write at an
offset changes that offset only, and when the head moves on, the offsets move with it. -/

namespace PjProject.Circular

variable {α : Type*}

def view (slots : Nat → α) (m head i : Nat) : α := slots ((head + i) % m)

/-- The positions of the first `c` offsets. -/
def positions (m head c : Nat) : List Nat := (List.range c).map fun j => (head + j) % m

section Offsets

variable {m head i j c : Nat}

theorem offset_injective (hi : i < m) (hj : j < m) (h : (head + i) % m = (head + j) % m) : i = j := by
  have hmod : i ≡ j [MOD m] := Nat.ModEq.add_left_cancel' head h
  exact Nat.ModEq.eq_of_lt_of_lt hmod hi hj

theorem mem_positions (hi : i < m) (hc : c ≤ m) : (head + i) % m ∈ positions m head c ↔ i < c := by
  rw [positions, List.mem_map]
  constructor
  · rintro ⟨j, hj, heq⟩
    rw [List.mem_range] at hj
    rw [← offset_injective (Nat.lt_of_lt_of_le hj hc) hi heq]
    exact hj
  · intro hlt
    exact ⟨i, List.mem_range.mpr hlt, rfl⟩

/-- The positions as one or two runs of the array. -/
theorem positions_eq (hhead : head < m) (hc : c ≤ m) :
    positions m head c =
      if m < head + c then List.range' head (m - head) ++ List.range' 0 (c - (m - head))
      else List.range' head c := by
  split
  · rename_i hwrap
    apply List.ext_getElem
    · simp only [positions, List.length_map, List.length_range, List.length_append, List.length_range']
      omega
    · intro k hk _
      simp only [positions, List.length_map, List.length_range] at hk
      simp only [positions, List.getElem_map, List.getElem_range, List.getElem_append, List.length_range',
        List.getElem_range', Nat.one_mul]
      split
      · rw [Nat.mod_eq_of_lt (by omega)]
      · rw [Nat.mod_eq_sub_mod (by omega), Nat.mod_eq_of_lt (by omega)]
        omega
  · apply List.ext_getElem
    · simp [positions]
    · intro k hk _
      simp only [positions, List.length_map, List.length_range] at hk
      simp only [positions, List.getElem_map, List.getElem_range, List.getElem_range', Nat.one_mul]
      rw [Nat.mod_eq_of_lt (by omega)]

end Offsets

section Views

variable {slots : Nat → α} {m head i c : Nat}

/-- A write at the offset `d`. -/
theorem view_update {d : Nat} (hi : i < m) (hd : d < m) (x : α) :
    view (Function.update slots ((head + d) % m) x) m head i = if i = d then x else view slots m head i := by
  rw [view]
  by_cases heq : i = d
  · rw [if_pos heq, heq, Function.update_self]
  · rw [if_neg heq, Function.update_of_ne fun h => heq (offset_injective hi hd h)]
    rfl

theorem view_advance : view slots m ((head + c) % m) i = view slots m head (c + i) := by
  rw [view, view, Nat.mod_add_mod, Nat.add_assoc]

theorem view_add_size : view slots m head (m + i) = view slots m head i := by
  rw [view, view, ← Nat.add_assoc, Nat.add_right_comm, Nat.add_mod_right]

/-- The first `c` offsets are changed by `f`. -/
theorem view_change (f : α → α) (hi : i < m) (hc : c ≤ m) :
    view (fun p => if p ∈ positions m head c then f (slots p) else slots p) m head i =
      if i < c then f (view slots m head i) else view slots m head i := by
  by_cases hlt : i < c
  · rw [view, if_pos ((mem_positions hi hc).mpr hlt), if_pos hlt]
    rfl
  · rw [view, if_neg fun hmem => hlt ((mem_positions hi hc).mp hmem), if_neg hlt]
    rfl

/-- The head moves over the first `c` offsets, which are changed by `f` and come last. -/
theorem view_change_advance (f : α → α) (hi : i < m) (hc : c ≤ m) :
    view (fun p => if p ∈ positions m head c then f (slots p) else slots p) m ((head + c) % m) i =
      if c + i < m then view slots m head (c + i) else f (view slots m head (c + i - m)) := by
  rw [view_advance]
  by_cases hlt : c + i < m
  · rw [if_pos hlt, view_change f hlt hc, if_neg (by omega)]
  · rw [if_neg hlt]
    obtain ⟨k, hk⟩ : ∃ k, c + i = m + k := ⟨c + i - m, by omega⟩
    rw [hk, view_add_size, view_change f (by omega) hc, if_pos (by omega), Nat.add_sub_cancel_left]

end Views

/-! The number of offsets with a property. -/

section Counts

variable {p q : Nat → Prop} [DecidablePred p] [DecidablePred q]

theorem count_congr {n : Nat} (h : ∀ i < n, p i ↔ q i) : Nat.count p n = Nat.count q n := by
  induction n with
  | zero => rw [Nat.count_zero, Nat.count_zero]
  | succ n ih =>
    rw [Nat.count_succ, Nat.count_succ, ih fun i hi => h i (Nat.lt_succ_of_lt hi)]
    by_cases hp : p n
    · rw [if_pos hp, if_pos ((h n (Nat.lt_succ_self n)).mp hp)]
    · rw [if_neg hp, if_neg fun hq => hp ((h n (Nat.lt_succ_self n)).mpr hq)]

theorem count_eq_zero {n : Nat} (h : ∀ i < n, ¬ p i) : Nat.count p n = 0 := by
  rw [count_congr (q := fun _ => False) fun i hi => iff_of_false (h i hi) not_false]
  exact Nat.count_false n

/-- One more offset has the property. -/
theorem count_insert {n d : Nat} (hd : d < n) (hpd : ¬ p d) (hq : ∀ i < n, q i ↔ i = d ∨ p i) :
    Nat.count q n = Nat.count p n + 1 := by
  induction n with
  | zero => cases hd
  | succ n ih =>
    rw [Nat.count_succ, Nat.count_succ]
    have hn := hq n (Nat.lt_succ_self n)
    by_cases hdn : d = n
    · have hsame : Nat.count q n = Nat.count p n := by
        apply count_congr
        intro i hi
        rw [hq i (Nat.lt_succ_of_lt hi), or_iff_right (by omega)]
      rw [hsame, if_pos (hn.mpr (Or.inl hdn.symm)), if_neg (hdn ▸ hpd)]
    · rw [ih (by omega) fun i hi => hq i (Nat.lt_succ_of_lt hi)]
      by_cases hp : p n
      · rw [if_pos hp, if_pos (hn.mpr (Or.inr hp))]
      · rw [if_neg hp, if_neg fun hqn => hp ((hn.mp hqn).resolve_left fun h => hdn h.symm)]

end Counts

end PjProject.Circular
