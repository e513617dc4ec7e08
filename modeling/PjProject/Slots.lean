import Mathlib.Data.List.Perm.Subperm
import Mathlib.Data.List.Nodup
import Mathlib.Logic.Function.Basic

/-! Items kept in slots, each in one slot at most. A slot is a list without repetitions; a function from the
items to their slots says that no item is in two. The rules are for an item that comes into a slot, leaves
one, or goes from one to another, whatever the order inside the lists. -/

namespace PjProject

variable {ι α : Type*}

structure Placed (slots : ι → List α) (place : α → Option ι) : Prop where
  nodup : ∀ i, (slots i).Nodup
  mem_iff : ∀ i a, a ∈ slots i ↔ place a = some i

namespace Placed

variable {slots slots' : ι → List α} {place : α → Option ι} {i j : ι} {a : α}

theorem empty (h : ∀ i, slots i = []) : Placed slots fun _ => none where
  nodup i := by
    rw [h i]
    exact List.nodup_nil
  mem_iff i a := by
    rw [h i]
    exact iff_of_false List.not_mem_nil nofun

theorem congr (h : Placed slots place) (hsame : ∀ i, (slots' i).Perm (slots i)) : Placed slots' place where
  nodup i := (hsame i).nodup_iff.mpr (h.nodup i)
  mem_iff i a := (hsame i).mem_iff.trans (h.mem_iff i a)

theorem shrink (h : Placed slots place) [∀ i a, Decidable (a ∈ slots' i)] (hsub : ∀ i, (slots' i).Sublist (slots i)) :
    Placed slots' fun a => (place a).filter fun i => decide (a ∈ slots' i) where
  nodup i := (h.nodup i).sublist (hsub i)
  mem_iff i a := by
    rw [Option.filter_eq_some_iff, decide_eq_true_iff]
    exact ⟨fun hmem => ⟨(h.mem_iff i a).mp ((hsub i).subset hmem), hmem⟩, And.right⟩

variable [DecidableEq α]

theorem insert (h : Placed slots place) (hfree : place a = none) (hj : (slots' j).Perm (a :: slots j))
    (hother : ∀ i, i ≠ j → (slots' i).Perm (slots i)) : Placed slots' (Function.update place a (some j)) where
  nodup i := by
    by_cases hi : i = j
    · rw [hi, hj.nodup_iff, List.nodup_cons]
      refine ⟨fun hmem => ?_, h.nodup j⟩
      rw [h.mem_iff, hfree] at hmem
      cases hmem
    · exact (hother i hi).nodup_iff.mpr (h.nodup i)
  mem_iff i b := by
    by_cases hb : b = a
    · rw [hb, Function.update_self]
      by_cases hi : i = j
      · rw [hi]
        exact iff_of_true (hj.mem_iff.mpr List.mem_cons_self) rfl
      · refine iff_of_false (fun hmem => ?_) fun he => hi (Option.some.inj he).symm
        rw [(hother i hi).mem_iff, h.mem_iff, hfree] at hmem
        cases hmem
    · rw [Function.update_of_ne hb]
      by_cases hi : i = j
      · rw [hi, hj.mem_iff, List.mem_cons, or_iff_right hb, h.mem_iff]
      · rw [(hother i hi).mem_iff, h.mem_iff]

theorem remove (h : Placed slots place) (hi : (slots i).Perm (a :: slots' i))
    (hother : ∀ j, j ≠ i → (slots' j).Perm (slots j)) :
    place a = some i ∧ Placed slots' (Function.update place a none) := by
  have hnodup := hi.nodup_iff.mp (h.nodup i)
  rw [List.nodup_cons] at hnodup
  have hplace : place a = some i := (h.mem_iff i a).mp (hi.mem_iff.mpr List.mem_cons_self)
  refine ⟨hplace, fun j => ?_, fun j b => ?_⟩
  · by_cases hj : j = i
    · rw [hj]
      exact hnodup.2
    · exact (hother j hj).nodup_iff.mpr (h.nodup j)
  · by_cases hb : b = a
    · rw [hb, Function.update_self]
      refine iff_of_false (fun hmem => ?_) nofun
      by_cases hj : j = i
      · rw [hj] at hmem
        exact hnodup.1 hmem
      · rw [(hother j hj).mem_iff, h.mem_iff, hplace] at hmem
        exact hj (Option.some.inj hmem).symm
    · rw [Function.update_of_ne hb]
      by_cases hj : j = i
      · rw [hj, ← h.mem_iff, hi.mem_iff, List.mem_cons, or_iff_right hb]
      · rw [(hother j hj).mem_iff, h.mem_iff]

theorem move [DecidableEq ι] (h : Placed slots place) (hne : j ≠ i) (hi : (slots i).Perm (a :: slots' i))
    (hj : (slots' j).Perm (a :: slots j)) (hother : ∀ k, k ≠ i → k ≠ j → (slots' k).Perm (slots k)) :
    place a = some i ∧ Placed slots' (Function.update place a (some j)) := by
  -- on the way the item is in no slot
  have hmid : (slots i).Perm (a :: Function.update slots i (slots' i) i) := by
    rw [Function.update_self]
    exact hi
  obtain ⟨hplace, hremoved⟩ := h.remove hmid fun k hk => by rw [Function.update_of_ne hk]
  refine ⟨hplace, ?_⟩
  have hadded : (slots' j).Perm (a :: Function.update slots i (slots' i) j) := by
    rw [Function.update_of_ne hne]
    exact hj
  have hrest : ∀ k, k ≠ j → (slots' k).Perm (Function.update slots i (slots' i) k) := by
    intro k hk
    by_cases hki : k = i
    · rw [hki, Function.update_self]
    · rw [Function.update_of_ne hki]
      exact hother k hki hk
  have hinserted := hremoved.insert (Function.update_self a none place) hadded hrest
  rw [Function.update_idem] at hinserted
  exact hinserted

end Placed

end PjProject
