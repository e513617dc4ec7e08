import Mathlib

/-! Lists that are sorted strictly by a key: where a new element goes, and the search by halves. Elements are compared
with a key that is looked for by a function that gives the order of the two keys. -/

namespace PjProject.SortedSearch

variable {α : Type*}

/-- The place of a new element, unless one that compares equal comes first. -/
def insertPos (compare : α → Ordering) : List α → Option Nat
  | [] => some 0
  | a :: rest =>
    match compare a with
    | .eq => none
    | .gt => some 0
    | .lt => (insertPos compare rest).map (· + 1)

def insertAt (l : List α) (pos : Nat) (a : α) : List α := l.take pos ++ a :: l.drop pos

/-- The search among the `n` elements from `first` on. -/
def search (compare : α → Ordering) (l : List α) : Nat → Nat → Nat → Option α
  | 0, _, _ => none
  | bound + 1, first, n =>
    if n = 0 then none
    else
      l[first + n / 2]?.bind fun mid =>
        match compare mid with
        | .lt => search compare l bound (first + n / 2 + 1) (n - (n / 2 + 1))
        | .eq => some mid
        | .gt => search compare l bound first (n / 2)

theorem length_insertAt {l : List α} {pos : Nat} (hpos : pos ≤ l.length) (a : α) :
    (insertAt l pos a).length = l.length + 1 := by
  rw [insertAt, List.length_append, List.length_cons, List.length_take, List.length_drop]
  omega

theorem mem_insertAt {l : List α} {pos : Nat} {a b : α} : b ∈ insertAt l pos a ↔ b = a ∨ b ∈ l := by
  rw [insertAt, List.mem_append, List.mem_cons, or_left_comm, ← List.mem_append, List.take_append_drop]

variable {κ : Type*} [LinearOrder κ]

def Sorted (key : α → κ) (l : List α) : Prop := l.Pairwise fun a b => key a < key b

variable {key : α → κ} {compare : α → Ordering} {k : κ}

theorem Sorted.unique {l : List α} (h : Sorted key l) {a b : α} (ha : a ∈ l) (hb : b ∈ l) (hkey : key a = key b) :
    a = b := by
  by_contra hne
  have hsymm : Std.Symm fun a b : α => key a < key b ∨ key b < key a := ⟨fun _ _ => Or.symm⟩
  have hlt := List.Pairwise.forall (R := fun a b => key a < key b ∨ key b < key a) (h.imp Or.inl) ha hb hne
  rcases hlt with hlt | hlt
  · exact absurd hkey hlt.ne
  · exact absurd hkey.symm hlt.ne

theorem insertPos_eq_none_iff (hcompare : ∀ a, compare a = cmp (key a) k) {l : List α} (h : Sorted key l) :
    insertPos compare l = none ↔ ∃ a ∈ l, key a = k := by
  induction l with
  | nil => exact ⟨nofun, fun ⟨a, ha, _⟩ => absurd ha List.not_mem_nil⟩
  | cons a rest ih =>
    obtain ⟨hfirst, hrest⟩ := List.pairwise_cons.mp h
    rw [insertPos, hcompare]
    cases hcmp : cmp (key a) k with
    | eq => exact ⟨fun _ => ⟨a, List.mem_cons_self, (cmp_eq_eq_iff _ _).mp hcmp⟩, fun _ => rfl⟩
    | gt =>
      have hgt := (cmp_eq_gt_iff _ _).mp hcmp
      refine ⟨nofun, ?_⟩
      rintro ⟨b, hb, rfl⟩
      rcases List.mem_cons.mp hb with rfl | hb
      · exact absurd hgt (lt_irrefl _)
      · exact absurd (hgt.trans (hfirst b hb)) (lt_irrefl _)
    | lt =>
      have hlt := (cmp_eq_lt_iff _ _).mp hcmp
      dsimp only
      rw [Option.map_eq_none_iff, ih hrest]
      refine ⟨fun ⟨b, hb, hkey⟩ => ⟨b, List.mem_cons_of_mem a hb, hkey⟩, ?_⟩
      rintro ⟨b, hb, rfl⟩
      rcases List.mem_cons.mp hb with rfl | hb
      · exact absurd hlt (lt_irrefl _)
      · exact ⟨b, hb, rfl⟩

theorem sorted_insertAt (hcompare : ∀ a, compare a = cmp (key a) k) {l : List α} (h : Sorted key l) {pos : Nat}
    (hpos : insertPos compare l = some pos) (new : α) (hnew : key new = k) :
    pos ≤ l.length ∧ Sorted key (insertAt l pos new) := by
  induction l generalizing pos with
  | nil =>
    obtain rfl := Option.some.inj hpos
    exact ⟨Nat.le_refl 0, List.pairwise_singleton _ _⟩
  | cons a rest ih =>
    obtain ⟨hfirst, hrest⟩ := List.pairwise_cons.mp h
    rw [insertPos, hcompare] at hpos
    cases hcmp : cmp (key a) k with
    | eq =>
      rw [hcmp] at hpos
      cases hpos
    | gt =>
      rw [hcmp] at hpos
      obtain rfl := Option.some.inj hpos
      have hgt := (cmp_eq_gt_iff _ _).mp hcmp
      refine ⟨Nat.zero_le _, List.pairwise_cons.mpr ⟨fun b hb => ?_, h⟩⟩
      rw [hnew]
      rcases List.mem_cons.mp hb with rfl | hb
      · exact hgt
      · exact hgt.trans (hfirst b hb)
    | lt =>
      rw [hcmp] at hpos
      obtain ⟨pos', hpos', rfl⟩ := Option.map_eq_some_iff.mp hpos
      obtain ⟨hle, hsorted⟩ := ih hrest hpos'
      have hlt := (cmp_eq_lt_iff _ _).mp hcmp
      refine ⟨Nat.succ_le_succ hle, List.pairwise_cons.mpr ⟨fun b hb => ?_, hsorted⟩⟩
      rcases mem_insertAt.mp hb with rfl | hb
      · rw [hnew]
        exact hlt
      · exact hfirst b hb

theorem search_sound {l : List α} {bound first n : Nat} {a : α} (h : search compare l bound first n = some a) :
    a ∈ l ∧ compare a = .eq := by
  induction bound generalizing first n with
  | zero => cases h
  | succ bound ih =>
    rw [search] at h
    split at h
    · cases h
    · obtain ⟨mid, hmid, h⟩ := Option.bind_eq_some_iff.mp h
      cases hcmp : compare mid with
      | lt =>
        rw [hcmp] at h
        exact ih h
      | eq =>
        rw [hcmp] at h
        obtain rfl := Option.some.inj h
        exact ⟨List.mem_of_getElem? hmid, hcmp⟩
      | gt =>
        rw [hcmp] at h
        exact ih h

theorem search_complete (hcompare : ∀ a, compare a = cmp (key a) k) {l : List α} (h : Sorted key l)
    {bound first n i : Nat} (hbound : n < bound) (hroom : first + n ≤ l.length) (hfirst : first ≤ i)
    (hi : i < first + n) {a : α} (ha : l[i]? = some a) (hkey : key a = k) :
    ∃ b, search compare l bound first n = some b := by
  induction bound generalizing first n with
  | zero => omega
  | succ bound ih =>
    obtain ⟨hlt, hget⟩ := List.getElem?_eq_some_iff.mp ha
    rw [search, if_neg (by omega)]
    have hhalf : n / 2 < n := by omega
    have hin : first + n / 2 < l.length := by omega
    rw [List.getElem?_eq_getElem hin, Option.bind_some, hcompare]
    have hsorted := List.pairwise_iff_getElem.mp h
    cases hcmp : cmp (key l[first + n / 2]) k with
    | lt =>
      have hlow := (cmp_eq_lt_iff _ _).mp hcmp
      refine ih (by omega) (by omega) ?_ (by omega)
      by_contra hle
      obtain hbefore | heq : i < first + n / 2 ∨ i = first + n / 2 := by omega
      · have hmore := hsorted i (first + n / 2) hlt hin hbefore
        rw [hget, hkey] at hmore
        exact absurd (hmore.trans hlow) (lt_irrefl _)
      · subst heq
        rw [hget, hkey] at hlow
        exact absurd hlow (lt_irrefl _)
    | eq => exact ⟨_, rfl⟩
    | gt =>
      have hhigh := (cmp_eq_gt_iff _ _).mp hcmp
      refine ih (by omega) (by omega) hfirst ?_
      by_contra hge
      obtain hbehind | heq : first + n / 2 < i ∨ first + n / 2 = i := by omega
      · have hmore := hsorted (first + n / 2) i hin hlt hbehind
        rw [hget, hkey] at hmore
        exact absurd (hmore.trans hhigh) (lt_irrefl _)
      · subst heq
        rw [hget, hkey] at hhigh
        exact absurd hhigh (lt_irrefl _)

theorem search_eq_some_iff (hcompare : ∀ a, compare a = cmp (key a) k) {l : List α} (h : Sorted key l) {a : α} :
    search compare l (l.length + 1) 0 l.length = some a ↔ a ∈ l ∧ key a = k := by
  have hsound {b : α} (hb : search compare l (l.length + 1) 0 l.length = some b) : b ∈ l ∧ key b = k := by
    obtain ⟨hmem, hcmp⟩ := search_sound hb
    rw [hcompare, cmp_eq_eq_iff] at hcmp
    exact ⟨hmem, hcmp⟩
  refine ⟨hsound, fun ⟨hmem, hkey⟩ => ?_⟩
  obtain ⟨i, hi, hget⟩ := List.getElem_of_mem hmem
  obtain ⟨b, hb⟩ := search_complete hcompare h (Nat.lt_succ_self l.length) (by omega) (Nat.zero_le i)
    (by omega)    (List.getElem?_eq_some_iff.mpr ⟨hi, hget⟩) hkey
  obtain ⟨hmem', hkey'⟩ := hsound hb
  rw [hb, h.unique hmem' hmem (hkey'.trans hkey.symm)]

end PjProject.SortedSearch
