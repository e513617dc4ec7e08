import PjProject.RbTreeShape
import PjProject.RedBlack

/-! Insertion into a red-black tree: the search finds the place of a key, the fix-up ends and keeps the
order of the nodes whatever their colours are, and it restores the balance of a balanced tree. -/

set_option linter.unusedSectionVars false

namespace PjProject.RbTree

open Shape

variable {P K : Type} [DecidableEq P]

/-- The comparator orders the keys; equal keys need not be the same. -/
structure IsOrder (comp : K → K → Int) : Prop where
  swap : ∀ a b, comp a b < 0 ↔ 0 < comp b a
  trans : ∀ a b c, comp a b ≤ 0 → comp b c ≤ 0 → comp a c ≤ 0

namespace IsOrder

variable {comp : K → K → Int} (h : IsOrder comp) {a b c : K}

include h

theorem refl (a : K) : comp a a = 0 := by
  have hswap := h.swap a a
  omega

theorem le_swap : comp a b ≤ 0 ↔ 0 ≤ comp b a := by
  have hswap := h.swap b a
  omega

theorem eq_swap : comp a b = 0 ↔ comp b a = 0 := by
  have hab := h.swap a b
  have hba := h.swap b a
  omega

theorem lt_of_lt_of_le (hab : comp a b < 0) (hbc : comp b c ≤ 0) : comp a c < 0 := by
  have hac := h.trans a b c hab.le hbc
  have hswap := h.swap a b
  by_contra hnot
  have hca : comp c a ≤ 0 := h.le_swap.mpr (by omega)
  have hba := h.trans b c a hbc hca
  omega

theorem lt_trans (hab : comp a b < 0) (hbc : comp b c < 0) : comp a c < 0 := h.lt_of_lt_of_le hab hbc.le

end IsOrder

variable {comp : K → K → Int} {t t' : Tree P K} {s : Shape P} {path : List (Frame P)}

def Ascending (comp : K → K → Int) (key : P → K) (ps : List P) : Prop :=
  ps.Pairwise fun p q => comp (key p) (key q) < 0

/-- The place of a key: everything before it is less, and everything after it is greater. -/
structure Between (comp : K → K → Int) (key : P → K) (k : K) (path : List (Frame P)) : Prop where
  before : ∀ p ∈ before path, comp (key p) k < 0
  after : ∀ p ∈ after path, comp k (key p) < 0

theorem ascending_plug {key : P → K} (h : Ascending comp key (plug s path).inorder) :
    Ascending comp key s.inorder := by
  rw [inorder_plug, List.append_assoc] at h
  exact ((List.pairwise_append.mp h).2.1 : Ascending comp key (s.inorder ++ after path)) |>
    List.pairwise_append.mp |>.1

theorem Between.descend (horder : IsOrder comp) {key : P → K} {k : K} {l r : Shape P} {p : P}
    (h : Between comp key k path) (hasc : Ascending comp key (node l p r).inorder) :
    (comp k (key p) < 0 → Between comp key k (⟨.left, p, r⟩ :: path)) ∧
      (0 < comp k (key p) → Between comp key k (⟨.right, p, l⟩ :: path)) := by
  simp only [Ascending, inorder, List.pairwise_append, List.pairwise_cons, List.mem_cons] at hasc
  obtain ⟨-, ⟨hpr, -⟩, hl⟩ := hasc
  refine ⟨fun hlt => ⟨h.before, fun q hq => ?_⟩, fun hgt => ⟨fun q hq => ?_, h.after⟩⟩
  · simp only [PjProject.after, List.mem_cons, List.mem_append] at hq
    rcases hq with rfl | hq | hq
    · exact hlt
    · exact horder.lt_trans hlt (hpr q hq)
    · exact h.after q hq
  · simp only [PjProject.before, List.mem_cons, List.mem_append, List.mem_reverse] at hq
    have hpk : comp (key p) k < 0 := (horder.swap _ _).mpr hgt
    rcases hq with rfl | hq | hq
    · exact hpk
    · exact horder.lt_trans (hl q hq p (.inl rfl)) hpk
    · exact h.before q hq

/-- The comparison at the last node leads to the side of it where the search went on. -/
def Points (rv : Int) : List (Frame P) → Prop
  | [] => True
  | f :: _ => if rv < 0 then f.side = .left else f.side = .right

structure Searching (comp : K → K → Int) (t : Tree P K) (sh : Shape P) (k : K) (sub : Shape P)
    (path : List (Frame P)) (at_ : Option P × Option P × Int) : Prop where
  whole : sh = plug sub path
  node : at_.1 = sub.top
  parent : at_.2.1 = above path
  points : Points at_.2.2 path
  between : Between comp t.key k path

theorem searchTurn_step (horder : IsOrder comp) {sh : Shape P} (hfocus : Focus t sh [])
    (hasc : Ascending comp t.key sh.inorder) {k : K} {sub : Shape P} {at₁ at₂ : Option P × Option P × Int}
    (h : Searching comp t sh k sub path at₁) (hturn : searchTurn comp t k at₁ = some at₂) :
    ∃ sub' path', sub'.inorder.length < sub.inorder.length ∧ Searching comp t sh k sub' path' at₂ := by
  obtain ⟨rfl, hnode, -, -, hbetween⟩ := h
  obtain ⟨node, parent, rv⟩ := at₁
  cases sub with
  | nil =>
    obtain rfl : node = none := hnode
    cases hturn
  | node l p r =>
    obtain rfl : node = some p := hnode
    obtain ⟨⟨-, hleft, hright, -, -⟩, -, -⟩ := focus_plug.mpr hfocus
    have hdescend := hbetween.descend horder (ascending_plug hasc)
    simp only [searchTurn, Option.ite_none_left_eq_some, Option.some.injEq] at hturn
    obtain ⟨hne, rfl⟩ := hturn
    by_cases hlt : comp k (t.key p) < 0
    · refine ⟨l, ⟨.left, p, r⟩ :: path, by simp [inorder], ⟨rfl, ?_, rfl, ?_, hdescend.1 hlt⟩⟩
      · simp only [hlt, if_true, hleft]
      · simp [Points, hlt]
    · refine ⟨r, ⟨.right, p, l⟩ :: path, by simp [inorder]; omega, ⟨rfl, ?_, rfl, ?_, hdescend.2 (by omega)⟩⟩
      · simp only [hlt, if_false, hright]
      · simp [Points, hlt]

/-- The search ends at a node with an equal key, or at the place of the key in the tree. -/
theorem search_spec (horder : IsOrder comp) {sh : Shape P} (hfocus : Focus t sh [])
    (hasc : Ascending comp t.key sh.inorder) (hsize : t.size = sh.inorder.length) (k : K) :
    (∃ p parent rv, search comp t k = some (some p, parent, rv) ∧ p ∈ sh.inorder ∧ comp k (t.key p) = 0) ∨
      ∃ rv path, search comp t k = some (none, above path, rv) ∧ sh = plug nil path ∧ Points rv path ∧
        Between comp t.key k path := by
  obtain ⟨⟨node, parent, rv⟩, m, hloop, ⟨sub, path, -, h⟩, hend⟩ :=
    loop_ends (fun m at₁ => ∃ sub path, sub.inorder.length = m ∧ Searching comp t sh k sub path at₁)
      (fun m at₁ at₂ ⟨sub, path, hm, h⟩ hturn => by
        obtain ⟨sub', path', hlt, h'⟩ := searchTurn_step horder hfocus hasc h hturn
        exact ⟨_, hm ▸ hlt, sub', path', rfl, h'⟩)
      (s := (t.root, none, 0)) ⟨sh, [], rfl, ⟨rfl, hfocus.root, rfl, trivial, ⟨by simp [PjProject.before], by simp [PjProject.after]⟩⟩⟩
      (show sh.inorder.length < t.size + 1 by omega)
  obtain ⟨rfl, hnode, hparent, hpoints, hbetween⟩ := h
  simp only at hnode hparent hpoints
  cases sub with
  | nil =>
    obtain rfl : node = none := hnode
    obtain rfl := hparent
    exact .inr ⟨rv, path, hloop, rfl, hpoints, hbetween⟩
  | node l p r =>
    obtain rfl : node = some p := hnode
    refine .inl ⟨p, parent, rv, hloop, ?_, ?_⟩
    · rw [(inorder_plug_perm _ _).mem_iff]
      exact List.mem_append_left _ (mem_inorder_of_top rfl)
    · by_contra hne
      simp [searchTurn, hne] at hend

/-- The side of its parent that a node is on is found by the code. -/
theorem Focus.sideOf {d : Side} {a b : Shape P} {x : P} {f : Frame P}
    (h : Focus t (branch d a x b) (f :: path)) : sideOf t (some x) = f.side := by
  have hpar := h.parent
  obtain ⟨-, ⟨-, hside, hopp, -, -⟩, hnodup⟩ := h
  rw [top_branch] at hside
  obtain ⟨side, p, sib⟩ := f
  simp only [RbTree.sideOf, hpar, above]
  cases side with
  | left => exact if_pos hside
  | right =>
    refine if_neg fun heq => ?_
    have hsib : x ∈ sib.inorder := mem_inorder_of_top (hopp.symm.trans heq)
    refine (List.nodup_append.mp hnodup).2.2 x (mem_inorder_of_top (top_branch ..)) x ?_ rfl
    simp [nodes, hsib]

/-- A new node is put into the place that the search has found. -/
theorem Focus.hang {f : Frame P} (h : Focus t nil (f :: path)) {e : P} (he : e ∉ nodes (f :: path)) :
    Focus (((((t.setColor (some e) .red).setLink .left (some e) none).setLink .right (some e)
      none).setParent (some e) (some f.p)).setLink f.side (some f.p) (some e)) (node nil e nil)
      (f :: path) := by
  obtain ⟨-, ⟨hpar, -, hopp, hsib, hpath⟩, hnodup⟩ := h
  simp only [inorder, List.nil_append, nodes, List.flatMap_cons, List.cons_append, List.nodup_cons,
    List.mem_append, not_or, List.mem_cons] at he hnodup
  obtain ⟨hef, hesib, hepath⟩ := he
  obtain ⟨⟨hfsib, hfpath⟩, hrest⟩ := hnodup
  have hparent : ∀ q, q ≠ e → (((((t.setColor (some e) .red).setLink .left (some e) none).setLink .right
      (some e) none).setParent (some e) (some f.p)).setLink f.side (some f.p) (some e)).parent (some q) =
      t.parent (some q) := fun q hq => by simp [Tree.setParent_parent, hq]
  have hlink : ∀ d q, q ≠ e → q ≠ f.p → (((((t.setColor (some e) .red).setLink .left (some e)
      none).setLink .right (some e) none).setParent (some e) (some f.p)).setLink f.side (some f.p)
      (some e)).link d (some q) = t.link d (some q) := fun d q hq hqf => by simp [Tree.setLink_link, hq, hqf]
  refine ⟨⟨?_, ?_, ?_, trivial, trivial⟩, ⟨?_, ?_, ?_, ?_, ?_⟩, ?_⟩
  · simp [Tree.setParent_parent, above]
  · simp [Tree.setLink_link, hef, top]
  · simp [Tree.setLink_link, hef, top]
  · rw [hparent f.p (Ne.symm hef), hpar]
  · simp [Tree.setLink_link, top]
  · rw [← hopp]
    simp [Tree.setLink_link, Ne.symm hef, Side.opp_ne]
  · exact hsib.congr (fun q hq => hparent q fun hc => hesib (hc ▸ hq)) fun d q hq =>
      hlink d q (fun hc => hesib (hc ▸ hq)) fun hc => hfsib (hc ▸ hq)
  · exact hpath.congr rfl (fun q hq => hparent q fun hc => hepath (hc ▸ hq)) fun d q hq =>
      hlink d q (fun hc => hepath (hc ▸ hq)) fun hc => hfpath (hc ▸ hq)
  · simp only [inorder, List.nil_append, nodes, List.flatMap_cons, List.cons_append, List.nodup_cons,
      List.mem_append, List.mem_cons, not_or]
    exact ⟨⟨hef, hesib, hepath⟩, ⟨hfsib, hfpath⟩, hrest⟩

section Turn

variable {a b : Shape P} {n : P} {d : Side} {f g : Frame P}

theorem insertTurn_recolor (h : Focus t (branch d a n b) (f :: g :: path))
    (hred : t.color (some f.p) = .red) (huncle : t.color g.sib.top = .red) :
    insertTurn (t, some n) = some (((t.setColor g.sib.top .black).setColor (some f.p) .black).setColor
      (some g.p) .red, some g.p) := by
  have hn : t.parent (some n) = some f.p := h.parent
  have hup := focus_cons.mp h
  have hp : t.parent (some f.p) = some g.p := hup.parent
  have huncle' : t.link g.side.opp (some g.p) = g.sib.top := (focus_cons.mp hup).link.2
  have hroot : some n ≠ t.root := Ne.symm (h.ne_root (mem_inorder_of_top (top_branch ..)))
  simp only [insertTurn, hn, hred, hroot, ne_eq, not_false_eq_true, and_self, if_true, hup.sideOf, hp,
    huncle', huncle, Tree.setColor_parent]

/-- The node and its parent are on the same side: one rotation. -/
theorem insertTurn_outer (h : Focus t (branch d a n b) (f :: g :: path))
    (hred : t.color (some f.p) = .red) (huncle : t.color g.sib.top ≠ .red) (hside : f.side = g.side) :
    ∃ t', insertTurn (t, some n) = some (t', some n) ∧
      Focus t' (branch g.side (branch d a n b) f.p (branch g.side f.sib g.p g.sib)) path ∧
      t'.color = ((t.setColor (some f.p) .black).setColor (some g.p) .red).color ∧
      t'.key = t.key ∧ t'.size = t.size := by
  have hn : t.parent (some n) = some f.p := h.parent
  have hup := focus_cons.mp h
  have hp : t.parent (some f.p) = some g.p := hup.parent
  have hsib : t.link g.side.opp (some f.p) = f.sib.top := hside ▸ hup.link.2
  have huncle' : t.link g.side.opp (some g.p) = g.sib.top := (focus_cons.mp hup).link.2
  have hn' : n ∈ (branch d a n b).inorder := mem_inorder_of_top (top_branch ..)
  have hroot : some n ≠ t.root := Ne.symm (h.ne_root hn')
  have houter : ¬ some n = f.sib.top := fun heq => by
    refine (List.nodup_append.mp h.nodup).2.2 n hn' n ?_ rfl
    simp [nodes, mem_inorder_of_top heq.symm]
  refine ⟨rotate g.side.opp ((t.setColor (some f.p) .black).setColor (some g.p) .red) (some g.p), ?_, ?_,
    ?_, ?_, ?_⟩
  · simp only [insertTurn, hn, hred, hroot, ne_eq, not_false_eq_true, and_self, if_true, hup.sideOf, hp,
      huncle', huncle, if_false, hsib, houter, Tree.setColor_parent]
  · have htop := ((focus_cons.mp hup).setColor (some f.p) .black).setColor (some g.p) .red
    rw [hside] at htop
    exact htop.rotated_opp
  · rw [rotate_color]
  · rw [rotate_key]
    rfl
  · rw [rotate_size]
    rfl

/-- The node and its parent are on different sides: two rotations. -/
theorem insertTurn_inner (h : Focus t (branch g.side a n b) (f :: g :: path))
    (hred : t.color (some f.p) = .red) (huncle : t.color g.sib.top ≠ .red) (hside : f.side = g.side.opp) :
    ∃ t', insertTurn (t, some n) = some (t', some f.p) ∧
      Focus t' (branch g.side (branch g.side f.sib f.p a) n (branch g.side b g.p g.sib)) path ∧
      t'.color = ((t.setColor (some n) .black).setColor (some g.p) .red).color ∧
      t'.key = t.key ∧ t'.size = t.size := by
  have hn : t.parent (some n) = some f.p := h.parent
  have hup := focus_cons.mp h
  have hp : t.parent (some f.p) = some g.p := hup.parent
  have hin : t.link g.side.opp (some f.p) = some n := by
    rw [← hside, hup.link.1, top_branch]
  have huncle' : t.link g.side.opp (some g.p) = g.sib.top := (focus_cons.mp hup).link.2
  have hroot : some n ≠ t.root := Ne.symm (h.ne_root (mem_inorder_of_top (top_branch ..)))
  have hside' := hup.sideOf
  rw [hside, branch_opp] at hup
  have hrot := hup.rotated
  have hp₁ : (rotate g.side t (some f.p)).parent (some f.p) = some n :=
    (focus_cons (f := ⟨g.side, n, b⟩)).mpr hrot |>.parent
  have hn₁ : (rotate g.side t (some f.p)).parent (some n) = some g.p := hrot.parent
  refine ⟨rotate g.side.opp (((rotate g.side t (some f.p)).setColor (some n) .black).setColor (some g.p)
    .red) (some g.p), ?_, ?_, ?_, ?_, ?_⟩
  · simp only [insertTurn, hn, hred, hroot, ne_eq, not_false_eq_true, and_self, if_true, hside', hp,
      huncle', huncle, if_false, hin, Tree.setColor_parent, hp₁, hn₁]
  · exact (((focus_cons.mp hrot).setColor (some n) .black).setColor (some g.p) .red).rotated_opp
  · rw [rotate_color]
    simp only [Tree.setColor, rotate_color]
  · rw [rotate_key, Tree.setColor_key, Tree.setColor_key, rotate_key]
  · rw [rotate_size, Tree.setColor_size, Tree.setColor_size, rotate_size]

end Turn

/-- The node is red, as the code says it. -/
def Tree.red (t : Tree P K) (p : Option P) : Prop := t.color p = .red

/-- What `insert_fixup` keeps at the red node it has come to: the order of the nodes, and for a tree that
was balanced before the insertion that only this node may be in the way. -/
structure Fixing (bal : Prop) (t₀ : Tree P K) (order : List P) (t : Tree P K) (n : P) (s : Shape P)
    (path : List (Frame P)) : Prop where
  top : s.top = some n
  focus : Focus t s path
  order : (plug s path).inorder = order
  red : t.color (some n) = .red
  null : t.color none = .black
  bare : Bare t
  root : path ≠ [] → t.color t.root = .black
  key : t.key = t₀.key
  size : t.size = t₀.size
  near : bal → NearBalanced t.red s path

theorem root_black {s' : Shape P} (h : Focus t s path) (h' : Focus t' s' path) (hne : path ≠ [])
    (hcolor : ∀ q ∈ nodes path, t'.color (some q) = t.color (some q)) : t'.color t'.root = t.color t.root := by
  cases path with
  | nil => exact absurd rfl hne
  | cons f path =>
    obtain ⟨q, hq, htop⟩ := top_plug_cons path s f
    rw [h'.root, h.root, top_plug_congr s' s, htop, hcolor q hq]

section Fixup

variable {bal : Prop} {t₀ : Tree P K} {order : List P} {n : P}

theorem insertTurn_isSome {node : Option P} :
    (insertTurn (t, node)).isSome ↔ node ≠ t.root ∧ t.color (t.parent node) = .red := by
  simp only [insertTurn]
  split
  · next hcond =>
      simp only [hcond, ne_eq, not_false_eq_true, and_self, iff_true]
      split <;> rfl
  · next hcond => simp [hcond]

theorem Tree.setColor_color (t : Tree P K) (p q : Option P) (c : Color) :
    (t.setColor p c).color q = if q = p then c else t.color q := Function.update_apply ..

theorem Fixing.recolor {f g : Frame P} (h : Fixing bal t₀ order t n s (f :: g :: path))
    (hred : t.color (some f.p) = .red) (huncle : t.color g.sib.top = .red) :
    Fixing bal t₀ order (((t.setColor g.sib.top .black).setColor (some f.p) .black).setColor (some g.p) .red)
      g.p (branch g.side (branch f.side s f.p f.sib) g.p g.sib) path := by
  obtain ⟨l, u, r, hsib⟩ : ∃ l u r, g.sib = node l u r := by
    cases hsib : g.sib with
    | nil =>
      rw [hsib] at huncle
      exact absurd (h.null.symm.trans huncle) (by decide)
    | node l u r => exact ⟨l, u, r, rfl⟩
  have hfocus := focus_cons.mp (focus_cons.mp h.focus)
  have hnodup := h.focus.nodup
  simp only [nodes, List.flatMap_cons, List.cons_append, hsib, inorder] at hnodup
  have hdistinct : f.p ≠ g.p ∧ u ≠ f.p ∧ u ≠ g.p := by grind
  have hfar : ∀ q, q ∈ s.inorder ∨ q ∈ f.sib.inorder ∨ q ∈ l.inorder ∨ q ∈ r.inorder ∨ q ∈ nodes path →
      q ≠ f.p ∧ q ≠ g.p ∧ q ≠ u := by
    simp only [nodes]
    grind
  rw [hsib] at huncle
  simp only [hsib, Shape.top] at huncle ⊢
  have hsame : ∀ q, q ≠ f.p ∧ q ≠ g.p ∧ q ≠ u →
      (((t.setColor (some u) .black).setColor (some f.p) .black).setColor (some g.p) .red).color (some q) =
        t.color (some q) := fun q hq => by simp [Tree.setColor_color, hq]
  rw [hsib] at hfocus
  have hfocus' := ((hfocus.setColor (some u) .black).setColor (some f.p) .black).setColor (some g.p) .red
  refine ⟨top_branch .., hfocus', ?_, ?_, ?_, h.bare, fun hne => ?_, h.key, h.size, fun hbal => ?_⟩
  · rw [← h.order, ← hsib]
    rfl
  · simp [Tree.setColor_color]
  · simpa [Tree.setColor_color] using h.null
  · rw [root_black hfocus hfocus' hne fun q hq => hsame q (hfar q (.inr (.inr (.inr (.inr hq)))))]
    exact h.root (List.cons_ne_nil _ _)
  · have hnear := (h.near hbal).recolor
      (((t.setColor (some u) .black).setColor (some f.p) .black).setColor (some g.p) .red).red hred hsib huncle (by simp [Tree.red, Tree.setColor_color, hdistinct])
      (by simp [Tree.red, Tree.setColor_color, hdistinct]) (by simp [Tree.red, Tree.setColor_color])
      (by simp [Tree.red, Tree.setColor_color])
      fun q hq => by rw [Tree.red, hsame q (hfar q hq), Tree.red]
    rwa [hsib] at hnear

/-- The two nodes above a subtree are none of the others. -/
theorem frames_ne {f g : Frame P} (h : (s.inorder ++ nodes (f :: g :: path)).Nodup) : f.p ≠ g.p ∧
    ∀ q, q ∈ s.inorder ∨ q ∈ f.sib.inorder ∨ q ∈ g.sib.inorder ∨ q ∈ nodes path → q ≠ f.p ∧ q ≠ g.p := by
  simp only [nodes, List.flatMap_cons, List.cons_append] at h ⊢
  grind

theorem Fixing.outer {f g : Frame P} (h : Fixing bal t₀ order t n s (f :: g :: path))
    (hred : t.color (some f.p) = .red) (huncle : t.color g.sib.top ≠ .red) (hside : f.side = g.side)
    (hfocus : Focus t' (branch g.side s f.p (branch g.side f.sib g.p g.sib)) path)
    (hcolor : t'.color = ((t.setColor (some f.p) .black).setColor (some g.p) .red).color)
    (hkey : t'.key = t.key) (hsize : t'.size = t.size) (hbare : Bare t') :
    Fixing bal t₀ order t' n s (⟨g.side, f.p, branch g.side f.sib g.p g.sib⟩ :: path) ∧
      t'.color (some f.p) = .black := by
  obtain ⟨hfg, hfar⟩ := frames_ne h.focus.nodup
  have hsame : ∀ q, q ≠ f.p ∧ q ≠ g.p → t'.color (some q) = t.color (some q) := fun q hq => by
    simp [hcolor, Tree.setColor_color, hq]
  have hf : t'.color (some f.p) = .black := by simp [hcolor, Tree.setColor_color, hfg]
  have hn : n ∈ s.inorder := mem_inorder_of_top h.top
  refine ⟨⟨h.top, focus_cons.mpr hfocus, ?_, ?_, ?_, hbare, fun _ => ?_, hkey.trans h.key,
    hsize.trans h.size, fun hbal => ?_⟩, hf⟩
  · rw [← h.order, plug, plug, plug, hside]
    exact (inorder_plug_congr (inorder_rotate ..) path).symm
  · rw [hsame n (hfar n (.inl hn))]
    exact h.red
  · simpa [hcolor, Tree.setColor_color] using h.null
  · by_cases hne : path = []
    · subst hne
      rw [hfocus.root, plug, top_branch]
      exact hf
    · rw [root_black (focus_cons.mp (focus_cons.mp h.focus)) hfocus hne
        fun q hq => hsame q (hfar q (.inr (.inr (.inr hq))))]
      exact h.root (List.cons_ne_nil _ _)
  · refine (h.near hbal).outer t'.red hred huncle ?_ ?_ ?_ (fun q hq => ?_) g.side
    · simp [Tree.red, hf]
    · simp [Tree.red, hcolor, Tree.setColor_color]
    · simp [Tree.red, hcolor, Tree.setColor_color]
    · rw [Tree.red, hsame q (hfar q hq), Tree.red]

theorem Fixing.inner {a b : Shape P} {f g : Frame P}
    (h : Fixing bal t₀ order t n (branch g.side a n b) (f :: g :: path))
    (hred : t.color (some f.p) = .red) (huncle : t.color g.sib.top ≠ .red) (hside : f.side = g.side.opp)
    (hfocus : Focus t' (branch g.side (branch g.side f.sib f.p a) n (branch g.side b g.p g.sib)) path)
    (hcolor : t'.color = ((t.setColor (some n) .black).setColor (some g.p) .red).color)
    (hkey : t'.key = t.key) (hsize : t'.size = t.size) (hbare : Bare t') :
    Fixing bal t₀ order t' f.p (branch g.side f.sib f.p a)
      (⟨g.side, n, branch g.side b g.p g.sib⟩ :: path) ∧ t'.color (some n) = .black := by
  obtain ⟨hfg, hfar⟩ := frames_ne h.focus.nodup
  have hnin : n ∈ (branch g.side a n b).inorder := mem_inorder_of_top h.top
  have hnf := hfar n (.inl hnin)
  have hdistinct := ((inorder_branch_perm g.side a n b).append_right _).nodup_iff.mp h.focus.nodup
  simp only [nodes, List.flatMap_cons, List.cons_append, List.append_assoc, List.nodup_cons, List.mem_append,
    List.mem_cons, not_or] at hdistinct
  obtain ⟨⟨hna, hnb, -, hnfs, -, hngs, hnp⟩, -⟩ := hdistinct
  have hsame : ∀ q, q ≠ n → q ≠ g.p → t'.color (some q) = t.color (some q) := fun q hq hqg => by
    simp [hcolor, Tree.setColor_color, hq, hqg]
  have hfar' : ∀ q, q ∈ a.inorder ∨ q ∈ b.inorder ∨ q ∈ f.sib.inorder ∨ q ∈ g.sib.inorder ∨
      q ∈ nodes path → t'.color (some q) = t.color (some q) := fun q hq => by
    refine hsame q ?_ (hfar q ?_).2
    · rintro rfl
      rcases hq with hq | hq | hq | hq | hq
      · exact hna hq
      · exact hnb hq
      · exact hnfs hq
      · exact hngs hq
      · exact hnp hq
    · rw [mem_inorder_branch]
      rcases hq with hq | hq | hq
      · exact .inl (.inr (.inl hq))
      · exact .inl (.inr (.inr hq))
      · exact .inr hq
  have hn : t'.color (some n) = .black := by simp [hcolor, Tree.setColor_color, hnf.2]
  have hf : t'.color (some f.p) = .red := (hsame f.p (Ne.symm hnf.1) hfg).trans hred
  refine ⟨⟨top_branch .., focus_cons.mpr hfocus, ?_, hf, ?_, hbare, fun _ => ?_, hkey.trans h.key,
    hsize.trans h.size, fun hbal => ?_⟩, hn⟩
  · rw [← h.order, plug, plug, plug, hside, branch_opp]
    refine inorder_plug_congr ?_ path
    rw [← inorder_rotate g.side _ _ _ n g.p]
    cases g.side <;> simp [branch, inorder]
  · simpa [hcolor, Tree.setColor_color] using h.null
  · by_cases hne : path = []
    · subst hne
      rw [hfocus.root, plug, top_branch]
      exact hn
    · rw [root_black (focus_cons.mp (focus_cons.mp h.focus)) hfocus hne
        fun q hq => hfar' q (.inr (.inr (.inr (.inr hq))))]
      exact h.root (List.cons_ne_nil _ _)
  · refine (h.near hbal).inner t'.red hred h.red huncle ?_ hf ?_ ?_ (fun q hq => ?_) g.side
    · simp [Tree.red, hn]
    · simp [Tree.red, hcolor, Tree.setColor_color]
    · simp [Tree.red, hcolor, Tree.setColor_color]
    · rw [Tree.red, hfar' q hq, Tree.red]

theorem insertTurn_bare (h : Bare t) {node node' : Option P}
    (hturn : insertTurn (t, node) = some (t', node')) : Bare t' := by
  simp only [insertTurn] at hturn
  split at hturn
  · split at hturn
    · obtain ⟨rfl, -⟩ := Prod.mk.inj (Option.some.inj hturn)
      exact h
    · obtain ⟨rfl, -⟩ := Prod.mk.inj (Option.some.inj hturn)
      refine Bare.rotate ?_ _ _
      split
      · exact h.rotate _ _
      · exact h
  · cases hturn

theorem insertTurn_step (h : Fixing bal t₀ order t n s path) {t' : Tree P K} {node' : Option P}
    (hturn : insertTurn (t, some n) = some (t', node')) :
    ∃ n' s' path', node' = some n' ∧ Fixing bal t₀ order t' n' s' path' ∧
      (t'.color (above path') = .red → path'.length < path.length) ∧ 0 < path.length := by
  obtain ⟨hnroot, hparent⟩ := insertTurn_isSome.mp (Option.isSome_of_mem hturn)
  obtain ⟨a, b, rfl⟩ := exists_node_of_top h.top
  have hup : t.parent (some n) = above path := h.focus.sub.1
  rw [hup] at hparent
  match path with
  | [] => exact absurd h.focus.root.symm hnroot
  | [f] =>
    have hroot : t.root = some f.p := by rw [h.focus.root, plug, plug, top_branch]
    have hblack := h.root (List.cons_ne_nil _ _)
    rw [hroot] at hblack
    exact absurd (hblack.symm.trans hparent) (by decide)
  | f :: g :: path =>
    have hred : t.color (some f.p) = .red := hparent
    have hbare := insertTurn_bare h.bare hturn
    by_cases huncle : t.color g.sib.top = .red
    · rw [insertTurn_recolor (d := .left) h.focus hred huncle] at hturn
      obtain ⟨rfl, rfl⟩ := Prod.mk.inj (Option.some.inj hturn)
      exact ⟨g.p, _, path, rfl, h.recolor hred huncle, fun _ => by simp only [List.length_cons]; omega, by simp⟩
    · rcases Side.eq_or_eq_opp f.side g.side with hside | hside
      · obtain ⟨t₁, heq, hfocus, hcolor, hkey, hsize⟩ :=
          insertTurn_outer (d := .left) h.focus hred huncle hside
        obtain ⟨rfl, rfl⟩ := Prod.mk.inj (Option.some.inj (heq.symm.trans hturn))
        obtain ⟨hfix, hblack⟩ := h.outer hred huncle hside hfocus hcolor hkey hsize hbare
        exact ⟨n, _, _, rfl, hfix, fun hc => absurd (hblack.symm.trans hc) (by decide), by simp⟩
      · obtain ⟨a', b', hnode⟩ := node_eq_branch g.side a n b
        rw [hnode] at h
        obtain ⟨t₁, heq, hfocus, hcolor, hkey, hsize⟩ := insertTurn_inner h.focus hred huncle hside
        obtain ⟨rfl, rfl⟩ := Prod.mk.inj (Option.some.inj (heq.symm.trans hturn))
        obtain ⟨hfix, hblack⟩ := h.inner hred huncle hside hfocus hcolor hkey hsize hbare
        exact ⟨f.p, _, _, rfl, hfix, fun hc => absurd (hblack.symm.trans hc) (by decide), by simp⟩

theorem Fixing.done (h : Fixing bal t₀ order t n s path) (hend : insertTurn (t, some n) = none) :
    Focus (t.setColor t.root .black) (plug s path) [] ∧ (t.setColor t.root .black).color none = .black ∧
      (bal → Balanced (t.setColor t.root .black).red (plug s path)) := by
  have hwhole := focus_plug.mp h.focus
  have hnot : ¬ (some n ≠ t.root ∧ t.color (t.parent (some n)) = .red) := by
    rw [← insertTurn_isSome, hend]
    simp
  have hnone : ¬ t.red none := fun hc => absurd (h.null.symm.trans hc) (by decide)
  refine ⟨hwhole.setColor _ _, ?_, fun hbal => ?_⟩
  · rw [Tree.setColor_color]
    split
    · rfl
    · exact h.null
  · obtain ⟨a, b, rfl⟩ := exists_node_of_top h.top
    have hnear := h.near hbal
    by_cases hne : path = []
    · subst hne
      have hroot : t.root = some n := h.focus.root
      obtain ⟨k, m, hk, -⟩ := hnear.height
      have hnodup := h.focus.nodup
      simp only [inorder, nodes, List.flatMap_nil, List.append_nil, List.nodup_append, List.nodup_cons,
        List.mem_cons] at hnodup
      have hfar : ∀ q, q ∈ a.inorder ∨ q ∈ b.inorder → q ≠ n := by
        rintro q (hq | hq) rfl
        · exact hnodup.2.2 q hq q (.inl rfl) rfl
        · exact hnodup.2.1.1 hq
      have hn : ¬ (t.setColor (some n) .black).red (some n) := by simp [Tree.red, Tree.setColor_color]
      have hsame : ∀ q, q ∈ a.inorder ∨ q ∈ b.inorder →
          ((t.setColor (some n) .black).red (some q) ↔ t.red (some q)) := fun q hq => by
        simp [Tree.red, Tree.setColor_color, hfar q hq]
      have hnull : (t.setColor (some n) .black).red none ↔ t.red none := by
        simp [Tree.red, Tree.setColor_color]
      rw [hroot]
      exact ⟨hnear.sub.blacken hn hsame hnull, _, hk.blacken h.red hn hsame⟩
    · have hroot := h.root hne
      have hcolor : (t.setColor t.root .black).color = t.color := by
        funext q
        rw [Tree.setColor_color]
        split
        · next hq => rw [hq, hroot]
        · rfl
      have hrootn : some n ≠ t.root := fun heq => by
        rw [← heq] at hroot
        exact absurd (hroot.symm.trans h.red) (by decide)
      have hup : t.parent (some n) = above path := h.focus.sub.1
      have hblack : ¬ t.red (above path) := fun hc => hnot ⟨hrootn, by rw [hup]; exact hc⟩
      have hred : (t.setColor t.root .black).red = t.red := by
        funext q
        simp only [Tree.red, hcolor]
      rw [hred]
      exact hnear.balanced hnone hblack

/-- `insert_fixup` ends, whatever the colours are; it keeps the order of the nodes, and it restores the
balance. -/
theorem insertFixup_spec (h : Fixing bal t order t n s path) {bound : Nat} (hbound : path.length < bound) :
    ∃ t' sh, insertFixup t (some n) bound = some t' ∧ Focus t' sh [] ∧ sh.inorder = order ∧ Bare t' ∧
      t'.color none = .black ∧ t'.color t'.root = .black ∧ t'.key = t.key ∧ t'.size = t.size ∧
      (bal → Balanced t'.red sh) := by
  obtain ⟨⟨t₁, node⟩, m, hloop, ⟨n₁, s₁, path₁, rfl, hfix, -⟩, hend⟩ :=
    loop_ends (fun m st => ∃ n₁ s₁ path₁, st.2 = some n₁ ∧ Fixing bal t order st.1 n₁ s₁ path₁ ∧
        (st.1.color (above path₁) = .red → path₁.length = m))
      (fun m st st' ⟨n₁, s₁, path₁, hnode, hfix, hm⟩ hturn => by
        obtain ⟨t₁, node₁⟩ := st
        obtain ⟨t₂, node₂⟩ := st'
        simp only at hnode hfix hm
        subst hnode
        obtain ⟨-, hred⟩ := insertTurn_isSome.mp (Option.isSome_of_mem hturn)
        obtain ⟨a, b, rfl⟩ := exists_node_of_top hfix.top
        rw [show t₁.parent (some n₁) = above path₁ from hfix.focus.sub.1] at hred
        obtain ⟨n₂, s₂, path₂, rfl, hfix', hless, hpos⟩ := insertTurn_step hfix hturn
        by_cases hred' : t₂.color (above path₂) = .red
        · exact ⟨path₂.length, hm hred ▸ hless hred', n₂, s₂, path₂, rfl, hfix', fun _ => rfl⟩
        · exact ⟨0, hm hred ▸ hpos, n₂, s₂, path₂, rfl, hfix', fun hc => absurd hc hred'⟩)
      (s := (t, some n)) ⟨n, s, path, rfl, h, fun _ => rfl⟩ hbound
  obtain ⟨hfocus, hnull, hbalanced⟩ := hfix.done hend
  refine ⟨t₁.setColor t₁.root .black, plug s₁ path₁, ?_, hfocus, hfix.order, hfix.bare, hnull, ?_, hfix.key,
    hfix.size, hbalanced⟩
  · simp only [insertFixup, hloop, Option.map_some]
  · rw [Tree.setColor_root, Tree.setColor_color, if_pos rfl]

end Fixup

/-- What holds of a tree between two operations. The nodes make up a tree with ascending keys; nothing
is said of the colours, but that the root and the sentinel are black, unless `bal` holds. -/
structure Inv (comp : K → K → Int) (bal : Prop) (t : Tree P K) (sh : Shape P) : Prop where
  focus : Focus t sh []
  ascending : Ascending comp t.key sh.inorder
  size : t.size = sh.inorder.length
  bare : Bare t
  null : t.color none = .black
  root : t.color t.root = .black
  balanced : bal → Balanced t.red sh

section Insert

variable {bal : Prop} {sh : Shape P} {e : P}

theorem Inv.not_red_none (h : Inv comp bal t sh) : ¬ t.red none := fun hc =>
  absurd (h.null.symm.trans hc) (by decide)

theorem Inv.insert_root (h : Inv comp bal t nil) (e : P) (hroot : t'.root = some e)
    (hlink : ∀ d, t'.link d (some e) = none) (hnone : ∀ d, t'.link d none = none)
    (hparent : t'.parent (some e) = none) (hcolor : t'.color (some e) = .black)
    (hnull : t'.color none = t.color none) (hsize : t'.size = t.size + 1) : Inv comp bal t' (node nil e nil) := by
  refine ⟨⟨⟨hparent, hlink _, hlink _, trivial, trivial⟩, hroot, by simp [inorder, nodes]⟩, ?_, ?_, hnone,
    hnull.trans h.null, by rw [hroot, hcolor], fun _ => ⟨⟨trivial, trivial, fun hc => ?_⟩, 1, ?_⟩⟩
  · simp [Ascending, inorder]
  · rw [hsize, h.size]
    rfl
  · exact absurd (hcolor.symm.trans hc) (by decide)
  · exact .inr ⟨fun hc => absurd (hcolor.symm.trans hc) (by decide), 0, rfl, rfl, rfl⟩

theorem Inv.near (h : Inv comp bal t (plug nil path)) (hbal : bal) (he : t'.color (some e) = .red)
    (hcolor : ∀ q, q ≠ some e → t'.color q = t.color q) (hmem : e ∉ nodes path) :
    NearBalanced t'.red (node nil e nil) path := by
  have hbalanced := h.balanced hbal
  obtain ⟨m, hm⟩ := hbalanced.height
  obtain ⟨k, hk, hcontext⟩ := blackHeight_plug.mp hm
  obtain rfl : k = 0 := hk
  obtain ⟨-, hnored, -⟩ := (noRedRed_plug h.not_red_none).mp hbalanced.noRed
  have hsame : ∀ q ∈ nodes path, t'.red (some q) ↔ t.red (some q) := fun q hq => by
    rw [Tree.red, hcolor (some q) fun hc => hmem (Option.some.inj hc ▸ hq), Tree.red]
  have hnull : t'.red none ↔ t.red none := by rw [Tree.red, hcolor none (by simp), Tree.red]
  have hnone : ¬ t'.red none := fun hc => h.not_red_none (hnull.mp hc)
  exact ⟨⟨trivial, trivial, fun _ => ⟨hnone, hnone⟩⟩, hnored.congr hsame hnull, 0, m, .inl ⟨he, rfl, rfl⟩,
    hcontext.congr hsame⟩

/-- The keys are still ascending with a new one in its place. -/
theorem Between.ascending {key : P → K} (h : Between comp key (key e) path)
    (hasc : Ascending comp key (plug nil path).inorder) :
    Ascending comp key (plug (node nil e nil) path).inorder := by
  rw [inorder_plug] at hasc ⊢
  simp only [Ascending, inorder, List.append_nil, List.nil_append, List.pairwise_append, List.mem_reverse,
    List.append_assoc, List.singleton_append, List.pairwise_cons, List.mem_cons] at hasc ⊢
  obtain ⟨hbefore, hafter, hcross⟩ := hasc
  refine ⟨hbefore, ⟨h.after, hafter⟩, fun p hp q hq => ?_⟩
  rcases hq with rfl | hq
  · exact h.before p hp
  · exact hcross p hp q hq

theorem Between.ne (h : Between comp t.key (t.key e) path) (horder : IsOrder comp) :
    ∀ q ∈ (plug nil path).inorder, comp (t.key e) (t.key q) ≠ 0 := by
  intro q hq
  rw [inorder_plug] at hq
  simp only [inorder, List.append_nil, List.mem_append, List.mem_reverse] at hq
  rcases hq with hq | hq
  · have hlt := h.before q hq
    have hswap := horder.swap (t.key q) (t.key e)
    omega
  · have hlt := h.after q hq
    omega

theorem Inv.insert_below {f : Frame P} (h : Inv comp bal t (plug nil (f :: path)))
    (hbetween : Between comp t.key (t.key e) (f :: path)) (he : e ∉ (plug nil (f :: path)).inorder)
    (ht' : t' = ((((t.setColor (some e) .red).setLink .left (some e) none).setLink .right (some e)
      none).setParent (some e) (some f.p)).setLink f.side (some f.p) (some e)) :
    ∃ t₁ sh', insertFixup t' (some e) (t'.size + 2) = some t₁ ∧
      Inv comp bal { t₁ with size := t₁.size + 1 } sh' ∧ t₁.key = t.key ∧
      sh'.inorder.Perm (e :: (plug nil (f :: path)).inorder) := by
  have hperm := inorder_plug_perm nil (f :: path)
  have hmem : e ∉ nodes (f :: path) := fun hc => he (hperm.mem_iff.mpr hc)
  have hfocus := (focus_plug.mpr h.focus).hang hmem
  rw [← ht'] at hfocus
  have hcolor : ∀ q, q ≠ some e → t'.color q = t.color q := fun q hq => by
    rw [ht']
    simp [Tree.setColor_color, hq]
  have hred : t'.color (some e) = .red := by
    rw [ht']
    simp [Tree.setColor_color]
  have hkey : t'.key = t.key := by rw [ht']; rfl
  have hsize : t'.size = t.size := by rw [ht']; rfl
  have hroot : t'.root = t.root := by rw [ht']; rfl
  have hbare : Bare t' := by
    rw [ht']
    have hleaf := ((h.bare.setColor (some e) .red).setLink .left (Option.some_ne_none e) none).setLink .right
      (Option.some_ne_none e) none
    exact (hleaf.setParent (some e) (some f.p)).setLink f.side (Option.some_ne_none f.p) (some e)
  have hfix : Fixing bal t' (plug (node nil e nil) (f :: path)).inorder t' e (node nil e nil)
      (f :: path) := by
    refine ⟨rfl, hfocus, rfl, hred, (hcolor none (by simp)).trans h.null, hbare, fun _ => ?_, rfl, rfl,
      fun hbal => h.near hbal hred hcolor hmem⟩
    rw [hroot, hcolor, h.root]
    rw [← hroot]
    exact hfocus.ne_root (mem_inorder_of_top rfl)
  have hlength := length_le_nodes (f :: path)
  have hcount := hperm.length_eq
  have hcount' := h.size
  simp only [inorder, List.nil_append] at hcount
  obtain ⟨t₁, sh', heq, hfocus₁, horder₁, hbare₁, hnull₁, hroot₁, hkey₁, hsize₁, hbal₁⟩ :=
    insertFixup_spec hfix (show (f :: path).length < t'.size + 2 by omega)
  have hperm' : sh'.inorder.Perm (e :: (plug nil (f :: path)).inorder) := by
    rw [horder₁]
    exact (inorder_plug_perm _ _).trans (hperm.symm.cons e)
  refine ⟨t₁, sh', heq, ⟨?_, ?_, ?_, hbare₁, hnull₁, hroot₁, hbal₁⟩, hkey₁.trans hkey, hperm'⟩
  · exact hfocus₁.congr rfl rfl rfl
  · simp only [hkey₁, hkey, horder₁]
    exact hbetween.ascending h.ascending
  · rw [hperm'.length_eq, List.length_cons, ← hcount', hsize₁, hsize]

/-- `pj_rbtree_insert` returns -1 and changes nothing when there is an equal key; otherwise the new node
is in the tree. -/
theorem Inv.insert (horder : IsOrder comp) (h : Inv comp bal t sh) (e : P) :
    (∃ q ∈ sh.inorder, comp (t.key e) (t.key q) = 0) ∧ insert comp t e = some (t, -1) ∨
      (∀ q ∈ sh.inorder, comp (t.key e) (t.key q) ≠ 0) ∧ ∃ t' sh', insert comp t e = some (t', 0) ∧
        Inv comp bal t' sh' ∧ t'.key = t.key ∧ sh'.inorder.Perm (e :: sh.inorder) := by
  rcases search_spec horder h.focus h.ascending h.size (t.key e) with
    ⟨p, parent, rv, hsearch, hp, heq⟩ | ⟨rv, path, hsearch, rfl, hpoints, hbetween⟩
  · refine .inl ⟨⟨p, hp, heq⟩, ?_⟩
    simp [RbTree.insert, hsearch]
  · refine .inr ⟨hbetween.ne horder, ?_⟩
    have he : e ∉ (plug nil path).inorder := fun hc => hbetween.ne horder e hc (horder.refl _)
    cases path with
    | nil =>
      obtain ⟨leaf, hleaf⟩ : ∃ leaf, leaf = ((t.setColor (some e) .red).setLink .left (some e)
        none).setLink .right (some e) none := ⟨_, rfl⟩
      have hinsert : RbTree.insert comp t e = some ({ ({ leaf with root := some e }.setParent (some e)
          none).setColor (some e) .black with size := leaf.size + 1 }, 0) := by
        simp only [RbTree.insert, hsearch, Option.bind_some, above, ne_eq, not_true_eq_false, if_false,
          Option.map_some, ← hleaf]
        rfl
      have hlink : ∀ d, leaf.link d (some e) = none ∧ leaf.link d none = none := fun d => by
        have hnone := h.bare d
        rw [hleaf]
        cases d <;> simp [Tree.setLink_link, hnone]
      refine ⟨_, _, hinsert, h.insert_root e rfl (fun d => (hlink d).1) (fun d => (hlink d).2) ?_ ?_ ?_ ?_,
        ?_, .refl _⟩
      · simp [Tree.setParent]
      · simp [Tree.setColor]
      · rw [hleaf]
        simp [Tree.setColor]
      · rw [hleaf]
        rfl
      · rw [hleaf]
        rfl
    | cons f path =>
      obtain ⟨t', ht'⟩ : ∃ t', t' = ((((t.setColor (some e) .red).setLink .left (some e) none).setLink
        .right (some e) none).setParent (some e) (some f.p)).setLink f.side (some f.p) (some e) := ⟨_, rfl⟩
      obtain ⟨t₁, sh', heq, hinv, hkey, hperm⟩ := h.insert_below hbetween he ht'
      refine ⟨_, sh', ?_, hinv, hkey, hperm⟩
      have hside : (if rv < 0 then ((((t.setColor (some e) .red).setLink .left (some e) none).setLink
          .right (some e) none).setParent (some e) (some f.p)).setLink .left (some f.p) (some e)
        else ((((t.setColor (some e) .red).setLink .left (some e) none).setLink .right (some e)
          none).setParent (some e) (some f.p)).setLink .right (some f.p) (some e)) = t' := by
        simp only [Points] at hpoints
        split at hpoints
        · next hlt => rw [if_pos hlt, ht', hpoints]
        · next hlt => rw [if_neg hlt, ht', hpoints]
      simp only [RbTree.insert, hsearch, Option.bind_some, above, ne_eq, not_true_eq_false, if_false,
        reduceCtorEq, not_false_eq_true, if_true, hside, heq, Option.map_some]

end Insert

end PjProject.RbTree
