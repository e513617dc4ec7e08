import Mathlib.Data.List.Nodup
import Mathlib.Data.List.Perm.Basic
import Mathlib.Data.Set.Card

/-! Lists of entries that represent a finite map: no two entries have the same key, and the map gives a
key the content of its entry. Insertion, removal and replacement of an entry are updates of the map at
one key. -/

namespace PjProject

/-- The entries of `l`, read through `key` and `val`, are the map `m`. -/
structure Represents {ε κ β : Type*} (key : ε → κ) (val : ε → β) (l : List ε) (m : κ → Option β) :
    Prop where
  nodup : (l.map key).Nodup
  mem : ∀ k b, m k = some b ↔ ∃ e ∈ l, key e = k ∧ val e = b

namespace Represents

variable {ε κ β : Type*} {key : ε → κ} {val : ε → β} {l l' front back : List ε} {m : κ → Option β}
  {e f : ε}

theorem nil : Represents key val [] fun _ => none := ⟨List.nodup_nil, by simp⟩

theorem perm (h : Represents key val l m) (hperm : l.Perm l') : Represents key val l' m := by
  refine ⟨(hperm.map key).nodup_iff.mp h.nodup, fun k b => ?_⟩
  rw [h.mem k b]
  exact exists_congr fun e => and_congr_left' hperm.mem_iff

theorem eq_none (h : Represents key val l m) {k : κ} (hk : ∀ e ∈ l, key e ≠ k) : m k = none := by
  by_contra hne
  obtain ⟨b, hb⟩ := Option.ne_none_iff_exists'.mp hne
  obtain ⟨e, he, hkey, _⟩ := (h.mem k b).mp hb
  exact hk e he hkey

theorem eq_some (h : Represents key val l m) (he : e ∈ l) : m (key e) = some (val e) :=
  (h.mem _ _).mpr ⟨e, he, rfl, rfl⟩

theorem isSome_iff (h : Represents key val l m) {k : κ} : (m k).isSome ↔ k ∈ l.map key := by
  rw [Option.isSome_iff_exists, List.mem_map]
  constructor
  · rintro ⟨b, hb⟩
    obtain ⟨e, he, hkey, _⟩ := (h.mem k b).mp hb
    exact ⟨e, he, hkey⟩
  · rintro ⟨e, he, rfl⟩
    exact ⟨val e, h.eq_some he⟩

/-- The entries are as many as the keys present. -/
theorem length_eq (h : Represents key val l m) : l.length = Set.ncard {k | (m k).isSome} := by
  classical
  have hset : {k | (m k).isSome} = ((l.map key).toFinset : Set κ) := by
    ext k
    simp only [Set.mem_ofPred_eq, h.isSome_iff, List.coe_toFinset]
  rw [hset, Set.ncard_coe_finset, List.toFinset_card_of_nodup h.nodup, List.length_map]

/-- Two lists of one map have the same entries in some order. -/
theorem perm_of_same (h : Represents key val l m) (h' : Represents key val l' m) :
    (l.map fun e => (key e, val e)).Perm (l'.map fun e => (key e, val e)) := by
  have hsnd : ∀ {l : List ε}, Represents key val l m → (l.map fun e => (key e, val e)).Nodup := by
    intro l hl
    refine List.Nodup.of_map Prod.fst ?_
    rw [List.map_map]
    exact hl.nodup
  have hmem : ∀ {l : List ε}, Represents key val l m →
      ∀ p, p ∈ (l.map fun e => (key e, val e)) ↔ m p.1 = some p.2 := by
    intro l hl p
    rw [List.mem_map, hl.mem]
    simp only [Prod.ext_iff]
  rw [List.perm_ext_iff_of_nodup (hsnd h) (hsnd h')]
  exact fun p => (hmem h p).trans (hmem h' p).symm

variable [DecidableEq κ]

theorem insert (h : Represents key val l m) (hnew : m (key e) = none) :
    Represents key val (l ++ [e]) (Function.update m (key e) (some (val e))) := by
  have hfresh : ∀ f ∈ l, key f ≠ key e := by
    intro f hf hkey
    rw [← hkey, h.eq_some hf] at hnew
    cases hnew
  refine ⟨?_, fun k b => ?_⟩
  · rw [List.map_append, List.nodup_append]
    refine ⟨h.nodup, List.nodup_singleton _, fun a ha b hb => ?_⟩
    obtain ⟨f, hf, rfl⟩ := List.mem_map.mp ha
    obtain rfl : b = key e := by simpa using hb
    exact hfresh f hf
  · by_cases hk : k = key e
    · subst hk
      rw [Function.update_self]
      constructor
      · intro hb
        exact ⟨e, by simp, rfl, Option.some.inj hb⟩
      · rintro ⟨f, hf, hkey, rfl⟩
        rcases List.mem_append.mp hf with hf | hf
        · exact absurd hkey (hfresh f hf)
        · rw [List.mem_singleton.mp hf]
    · rw [Function.update_of_ne hk, h.mem]
      constructor
      · rintro ⟨f, hf, hkey⟩
        exact ⟨f, List.mem_append_left _ hf, hkey⟩
      · rintro ⟨f, hf, hkey, hval⟩
        rcases List.mem_append.mp hf with hf | hf
        · exact ⟨f, hf, hkey, hval⟩
        · rw [List.mem_singleton.mp hf] at hkey
          exact absurd hkey.symm hk

theorem remove (h : Represents key val (front ++ e :: back) m) :
    Represents key val (front ++ back) (Function.update m (key e) none) := by
  have hperm : (front ++ e :: back).Perm (e :: (front ++ back)) := List.perm_middle
  obtain ⟨hnot, hnodup⟩ := List.nodup_cons.mp ((h.perm hperm).nodup)
  refine ⟨hnodup, fun k b => ?_⟩
  by_cases hk : k = key e
  · subst hk
    rw [Function.update_self]
    refine ⟨nofun, ?_⟩
    rintro ⟨f, hf, hkey, _⟩
    exact absurd (List.mem_map.mpr ⟨f, hf, hkey⟩) hnot
  · rw [Function.update_of_ne hk, (h.perm hperm).mem]
    constructor
    · rintro ⟨f, hf, hkey, hval⟩
      rcases List.mem_cons.mp hf with rfl | hf
      · exact absurd hkey.symm hk
      · exact ⟨f, hf, hkey, hval⟩
    · rintro ⟨f, hf, hkey⟩
      exact ⟨f, List.mem_cons_of_mem e hf, hkey⟩

theorem replace (h : Represents key val (front ++ e :: back) m) (hkey : key f = key e) :
    Represents key val (front ++ f :: back) (Function.update m (key e) (some (val f))) := by
  have hinsert := h.remove.insert (e := f) (by rw [hkey, Function.update_self])
  rw [hkey, Function.update_idem] at hinsert
  refine hinsert.perm ?_
  rw [List.append_assoc]
  exact (List.perm_append_comm).append_left front

end Represents

end PjProject
