import PjProject.RbTreeInsert

/-! Erasing from a red-black tree. Whatever the colours are, the erased node is taken out of the order,
the rest of the order stays, and the fix-up ends. The balance is kept when the place that is emptied is
the one of a red node, or of a black node whose child takes over its colour. -/

set_option linter.unusedSectionVars false

namespace PjProject.RbTree

open Shape

variable {P K : Type} [DecidableEq P]
variable {comp : K → K → Int} {t t' : Tree P K} {s : Shape P} {path : List (Frame P)}

/-- The descent on one side ends at a node without a child there. -/
theorem outermost_spec (h : Focus t s path) (hsize : s.inorder.length ≤ t.size) (hne : s ≠ nil)
    (d : Side) : ∃ y c spine, (∀ f ∈ spine, f.side = d) ∧ s = plug (branch d nil y c) spine ∧
      outermost t d s.top = some (some y) := by
  obtain ⟨node, m, hloop, ⟨a, y, c, spine, hspine, hwhole, rfl, -⟩, hend⟩ :=
    loop_ends (fun m node => ∃ a y c spine, (∀ f ∈ spine, f.side = d) ∧ s = plug (branch d a y c) spine ∧
        node = some y ∧ (branch d a y c).inorder.length = m)
      (fun m node node' ⟨a, y, c, spine, hspine, hwhole, hnode, hm⟩
          (hturn : descendTurn t d node = some node') => by
        have hfocus : Focus t (branch d a y c) (spine ++ path) := focus_append.mpr (hwhole ▸ h)
        have hlink := hfocus.link.1
        simp only [descendTurn, hnode, hlink, Option.ite_none_right_eq_some, Option.some.injEq] at hturn
        obtain ⟨htop, rfl⟩ := hturn
        obtain ⟨x, hx⟩ := Option.ne_none_iff_exists'.mp htop
        obtain ⟨l, r, hlr⟩ := exists_node_of_top hx
        obtain ⟨a', c', ha⟩ := node_eq_branch d l x r
        refine ⟨_, ?_, a', x, c', ⟨d, y, c⟩ :: spine, ?_, ?_, hx, rfl⟩
        · have hlen := (inorder_branch_perm d a y c).length_eq
          rw [← ha, ← hlr]
          simp only [List.length_cons, List.length_append] at hlen
          omega
        · simpa using hspine
        · rw [hwhole, plug, ← ha, ← hlr])
      (s := s.top) (by
        cases s with
        | nil => exact absurd rfl hne
        | node l p r =>
          obtain ⟨a, b, hab⟩ := node_eq_branch d l p r
          exact ⟨a, p, b, [], by simp, hab, rfl, by rw [← hab]⟩)
      (show s.inorder.length < t.size + 1 by omega)
  have hfocus : Focus t (branch d a y c) (spine ++ path) := focus_append.mpr (hwhole ▸ h)
  have hlink := hfocus.link.1
  have hnil : a = nil := by
    cases a with
    | nil => rfl
    | node l p r => simp [descendTurn, hlink, top] at hend
  subst hnil
  exact ⟨y, c, spine, hspine, hwhole, hloop⟩

section Fixup

variable {n : P} {f : Frame P}

theorem Focus.rotate_any {sh : Shape P} (h : Focus t sh []) (hbare : Bare t) (d : Side) {node : Option P}
    (hnode : ∀ x, node = some x → x ∈ sh.inorder) :
    ∃ sh', Focus (rotate d t node) sh' [] ∧ sh'.inorder = sh.inorder := by
  cases node with
  | none => exact ⟨sh, by rwa [rotate_of_none (hbare _)], rfl⟩
  | some x =>
    obtain ⟨l, r, path, rfl⟩ := exists_plug_of_mem (hnode x rfl)
    obtain ⟨a, b, hab⟩ := node_eq_branch d l x r
    rw [hab] at h ⊢
    have hfocus := focus_plug.mpr h
    cases b with
    | nil => exact ⟨_, by rwa [rotate_of_none hfocus.link.2], rfl⟩
    | node l' y r' =>
      obtain ⟨b', c', hbc⟩ := node_eq_branch d l' y r'
      rw [hbc] at hfocus ⊢
      exact ⟨_, focus_plug.mp hfocus.rotated, inorder_plug_congr (inorder_rotate ..) path⟩

theorem Focus.mem_of_pointer {sh : Shape P} (h : Focus t sh []) {x y : P} (hx : x ∈ sh.inorder) :
    (t.parent (some x) = some y → y ∈ sh.inorder) ∧ ∀ d, t.link d (some x) = some y → y ∈ sh.inorder := by
  obtain ⟨l, r, path, rfl⟩ := exists_plug_of_mem hx
  have hmem := (inorder_plug_perm (node l x r) path).mem_iff (a := y)
  refine ⟨fun hpar => hmem.mpr (List.mem_append_right _ (above_mem ?_)), fun d hlink => ?_⟩
  · rw [← hpar]
    exact (focus_plug.mpr h).sub.1.symm
  · obtain ⟨a, b, hab⟩ := node_eq_branch d l x r
    rw [hab] at hmem h
    have htop := (focus_plug.mpr h).link.1.symm.trans hlink
    refine hab ▸ hmem.mpr (List.mem_append_left _ ?_)
    exact mem_inorder_branch.mpr (.inr (.inl (mem_inorder_of_top htop)))

/-- The nodes make up a tree with the order of before, and with the keys of before. -/
structure Keeps (t₀ : Tree P K) (order : List P) (t : Tree P K) : Prop where
  tree : ∃ sh, Focus t sh [] ∧ sh.inorder = order
  bare : Bare t
  key : t.key = t₀.key
  size : t.size = t₀.size

namespace Keeps

variable {t₀ : Tree P K} {order : List P}

theorem setColor (h : Keeps t₀ order t) (p : Option P) (c : Color) : Keeps t₀ order (t.setColor p c) := by
  obtain ⟨sh, hfocus, horder⟩ := h.tree
  exact ⟨⟨sh, hfocus.setColor p c, horder⟩, h.bare, h.key, h.size⟩

theorem rotate (h : Keeps t₀ order t) (d : Side) {node : Option P}
    (hnode : ∀ x, node = some x → x ∈ order) : Keeps t₀ order (rotate d t node) := by
  obtain ⟨sh, hfocus, rfl⟩ := h.tree
  obtain ⟨sh', hfocus', horder'⟩ := hfocus.rotate_any h.bare d hnode
  exact ⟨⟨sh', hfocus', horder'⟩, h.bare.rotate d node, (rotate_key ..).trans h.key,
    (rotate_size ..).trans h.size⟩

theorem parent_mem (h : Keeps t₀ order t) {x : P} (hx : x ∈ order) : ∀ y, t.parent (some x) = some y → y ∈ order := by
  obtain ⟨sh, hfocus, rfl⟩ := h.tree
  exact fun y => (hfocus.mem_of_pointer hx).1

theorem sibling_mem (h : Keeps t₀ order t) {x : P} (hx : x ∈ order) (d : Side) :
    ∀ y, sibling t d (some x) = some y → y ∈ order := by
  intro y hy
  simp only [sibling] at hy
  cases hpar : t.parent (some x) with
  | none =>
    rw [hpar, h.bare] at hy
    cases hy
  | some p =>
    rw [hpar] at hy
    obtain ⟨sh, hfocus, rfl⟩ := h.tree
    exact (hfocus.mem_of_pointer ((hfocus.mem_of_pointer hx).1 hpar)).2 _ hy

theorem liftSibling (h : Keeps t₀ order t) (hn : n ∈ order) (d : Side) :
    Keeps t₀ order (liftSibling t d (some n)) := by
  simp only [RbTree.liftSibling]
  split
  · exact ((h.setColor _ _).setColor _ _).rotate d (h.parent_mem hn)
  · exact h

theorem lowerParent (h : Keeps t₀ order t) (hn : n ∈ order) (d : Side) :
    Keeps t₀ order (lowerParent t d (some n)) := by
  have hinner : Keeps t₀ order (if t.color (t.link d.opp (sibling t d (some n))) = .black then
      PjProject.RbTree.rotate d.opp ((t.setColor (t.link d (sibling t d (some n))) .black).setColor
        (sibling t d (some n)) .red) (sibling t d (some n))
      else t) := by
    split
    · exact ((h.setColor _ _).setColor _ _).rotate d.opp (h.sibling_mem hn d)
    · exact h
  simp only [RbTree.lowerParent]
  exact (((hinner.setColor _ _).setColor _ _).setColor _ _).rotate d (hinner.parent_mem hn)

end Keeps

theorem Focus.sibling {d : Side} {a b : Shape P} (h : Focus t (branch d a n b) (f :: path)) :
    sibling t f.side (some n) = f.sib.top := by
  rw [RbTree.sibling, h.parent]
  exact h.around.2.2.1

theorem Focus.liftSibling {d : Side} {a b : Shape P} (h : Focus t (branch d a n b) (f :: path))
    (hroot : t.color t.root = .black) : ∃ sib path',
      Focus (liftSibling t f.side (some n)) (branch d a n b) (⟨f.side, f.p, sib⟩ :: path') ∧
      (plug (branch d a n b) (⟨f.side, f.p, sib⟩ :: path')).inorder =
        (plug (branch d a n b) (f :: path)).inorder ∧
      (path' = path ∨ (liftSibling t f.side (some n)).color (some f.p) = .red) ∧
      (path' ≠ [] → (liftSibling t f.side (some n)).color (liftSibling t f.side (some n)).root = .black) := by
  have hpar : t.parent (some n) = some f.p := h.parent
  have hup := focus_cons.mp h
  simp only [RbTree.liftSibling, h.sibling, hpar, Tree.setColor_parent]
  split
  · next hred =>
      cases hsib : f.sib with
      | nil =>
        have hlink : t.link f.side.opp (some f.p) = none := by rw [hup.link.2, hsib]; rfl
        simp only [top]
        rw [rotate_of_none (by exact hlink)]
        have h' := (h.setColor none .black).setColor (some f.p) .red
        rw [show f = ⟨f.side, f.p, nil⟩ by rw [← hsib]] at h'
        refine ⟨nil, path, h', by rw [← hsib], .inr (by simp [Tree.setColor_color]), fun hne => ?_⟩
        rw [root_black hup (focus_cons.mp h') hne fun q hq => ?_, hroot]
        have hqf : q ≠ f.p := by
          rintro rfl
          have hnodup := h.nodup
          simp only [nodes, List.flatMap_cons, List.cons_append] at hnodup hq
          grind
        simp [Tree.setColor_color, hqf]
      | node l y r =>
        obtain ⟨b', c, hbc⟩ := node_eq_branch f.side l y r
        have hwhole := hup
        rw [hsib, hbc] at hwhole
        have h' := ((hwhole.setColor (some y) .black).setColor (some f.p) .red).rotated
        have hnodup := h.nodup
        simp only [nodes, List.flatMap_cons, List.cons_append, hsib, inorder] at hnodup
        have hfar : y ≠ f.p ∧ ∀ q ∈ nodes path, q ≠ f.p ∧ q ≠ y := by
          simp only [nodes]
          grind
        simp only [top]
        refine ⟨b', ⟨f.side, y, c⟩ :: path, ?_, ?_, .inr ?_, fun _ => ?_⟩
        · exact focus_cons.mpr (focus_cons.mpr h')
        · rw [plug, plug, plug, hsib, hbc]
          exact inorder_plug_congr (inorder_rotate ..) path
        · simp [Tree.setColor_color]
        · by_cases hne : path = []
          · subst hne
            rw [h'.root, plug, top_branch, rotate_color]
            simp [Tree.setColor_color, hfar.1]
          · rw [root_black hup h' hne fun q hq => ?_, hroot]
            simp [Tree.setColor_color, (hfar.2 q hq).1, (hfar.2 q hq).2]
  · exact ⟨f.sib, path, h, rfl, .inl rfl, fun _ => hroot⟩

/-- What `delete_fixup` keeps at the node it has come to. -/
structure Sinking (t₀ : Tree P K) (order : List P) (t : Tree P K) (n : P) (s : Shape P)
    (path : List (Frame P)) : Prop where
  top : s.top = some n
  focus : Focus t s path
  order : (plug s path).inorder = order
  bare : Bare t
  key : t.key = t₀.key
  size : t.size = t₀.size
  root : path ≠ [] → t.color t.root = .black

variable {t₀ : Tree P K} {order : List P}

theorem Sinking.keeps (h : Sinking t₀ order t n s path) : Keeps t₀ order t :=
  ⟨⟨_, focus_plug.mp h.focus, h.order⟩, h.bare, h.key, h.size⟩

theorem Sinking.mem (h : Sinking t₀ order t n s path) : n ∈ order := by
  rw [← h.order, (inorder_plug_perm s path).mem_iff]
  exact List.mem_append_left _ (mem_inorder_of_top h.top)

theorem deleteTurn_isSome {node : Option P} :
    (deleteTurn (t, node)).isSome ↔ node ≠ t.root ∧ t.color node = .black := by
  simp only [deleteTurn]
  split
  · next hcond =>
      simp only [hcond, ne_eq, not_false_eq_true, and_self, iff_true]
      split <;> rfl
  · next hcond => simp [hcond]

theorem deleteTurn_step (h : Sinking t₀ order t n s path) {node' : Option P}
    (hturn : deleteTurn (t, some n) = some (t', node')) :
    ∃ n' s' path', node' = some n' ∧ Sinking t₀ order t' n' s' path' ∧
      (some n' ≠ t'.root → t'.color (some n') = .black → path'.length < path.length) ∧ 0 < path.length := by
  obtain ⟨hnroot, hblack⟩ := deleteTurn_isSome.mp (Option.isSome_of_mem hturn)
  obtain ⟨a, b, rfl⟩ := exists_node_of_top h.top
  cases path with
  | nil => exact absurd h.focus.root.symm hnroot
  | cons f path =>
    have hfocus : Focus t (branch .left a n b) (f :: path) := h.focus
    have hkeeps := h.keeps.liftSibling h.mem f.side
    obtain ⟨sib, path', hfocus₁, horder₁, hpath', hroot₁⟩ := hfocus.liftSibling (h.root (List.cons_ne_nil _ _))
    simp only [deleteTurn, hfocus.sideOf, hnroot, hblack, ne_eq, not_false_eq_true, and_self,
      if_true] at hturn
    generalize liftSibling t f.side (some n) = t₁ at *
    have hpar : t₁.parent (some n) = some f.p := hfocus₁.parent
    have hsib : sibling t₁ f.side (some n) = sib.top := hfocus₁.sibling
    rw [hsib, hpar] at hturn
    split at hturn
    · obtain ⟨rfl, rfl⟩ := Prod.mk.inj (Option.some.inj hturn)
      have hup := focus_cons.mp hfocus₁
      have hdistinct := ((inorder_branch_perm f.side _ f.p sib).append_right _).nodup_iff.mp hup.nodup
      simp only [List.cons_append, List.append_assoc, List.nodup_cons, List.mem_append, not_or,
        List.nodup_append] at hdistinct
      obtain ⟨⟨-, hfsib, -⟩, -, ⟨-, -, hsibpath⟩, -⟩ := hdistinct
      have hne : some f.p ≠ sib.top := fun heq => hfsib (mem_inorder_of_top heq.symm)
      refine ⟨f.p, _, path', rfl, ⟨top_branch .., hup.setColor _ _, ?_, hkeeps.bare, hkeeps.key,
        hkeeps.size, fun hne' => ?_⟩, fun _ hc => ?_, by simp⟩
      · exact horder₁.trans h.order
      · rw [root_black hup (hup.setColor sib.top .red) hne' fun q hq => ?_, hroot₁ hne']
        have hq' : some q ≠ sib.top := fun heq => hsibpath q (mem_inorder_of_top heq.symm) q hq rfl
        rw [Tree.setColor_color, if_neg hq']
      · rw [Tree.setColor_color, if_neg hne] at hc
        rcases hpath' with rfl | hred
        · simp
        · exact absurd (hred.symm.trans hc) (by decide)
    · obtain ⟨rfl, rfl⟩ := Prod.mk.inj (Option.some.inj hturn)
      have hlower := hkeeps.lowerParent h.mem f.side
      obtain ⟨sh, hsh, horder⟩ := hlower.tree
      obtain ⟨x, hx⟩ : ∃ x, sh.top = some x := by
        cases sh with
        | nil =>
          have hmem := h.mem
          rw [← horder] at hmem
          cases hmem
        | node l x r => exact ⟨x, rfl⟩
      have hrootx : (lowerParent t₁ f.side (some n)).root = some x := hsh.root.trans hx
      exact ⟨x, sh, [], hrootx, ⟨hx, hsh, horder, hlower.bare, hlower.key, hlower.size, fun hc => absurd rfl hc⟩,
        fun hc => absurd hrootx.symm hc, by simp⟩

/-- `delete_fixup` ends, whatever the colours are, and keeps the order of the nodes. -/
theorem deleteFixup_spec (h : Sinking t order t n s path) {bound : Nat} (hbound : path.length < bound) :
    ∃ t', deleteFixup t (some n) bound = some t' ∧ Keeps t order t' ∧ t'.color t'.root = .black := by
  obtain ⟨⟨t₁, node⟩, m, hloop, ⟨n₁, s₁, path₁, rfl, hsink, -⟩, hend⟩ :=
    loop_ends (fun m st => ∃ n₁ s₁ path₁, st.2 = some n₁ ∧ Sinking t order st.1 n₁ s₁ path₁ ∧
        (some n₁ ≠ st.1.root → st.1.color (some n₁) = .black → path₁.length = m))
      (fun m st st' ⟨n₁, s₁, path₁, hnode, hsink, hm⟩ hturn => by
        obtain ⟨t₁, node₁⟩ := st
        obtain ⟨t₂, node₂⟩ := st'
        simp only at hnode hsink hm
        subst hnode
        obtain ⟨hroot, hblack⟩ := deleteTurn_isSome.mp (Option.isSome_of_mem hturn)
        have hlength := hm hroot hblack
        obtain ⟨n₂, s₂, path₂, rfl, hsink', hless, hpos⟩ := deleteTurn_step hsink hturn
        by_cases hgo : some n₂ ≠ t₂.root ∧ t₂.color (some n₂) = .black
        · exact ⟨path₂.length, hlength ▸ hless hgo.1 hgo.2, n₂, s₂, path₂, rfl, hsink', fun _ _ => rfl⟩
        · exact ⟨0, hlength ▸ hpos, n₂, s₂, path₂, rfl, hsink', fun hr hb => absurd ⟨hr, hb⟩ hgo⟩)
      (s := (t, some n)) ⟨n, s, path, rfl, h, fun _ _ => rfl⟩ hbound
  refine ⟨t₁.setColor (some n₁) .black, ?_, hsink.keeps.setColor _ _, ?_⟩
  · simp only [deleteFixup, hloop, Option.map_some]
  · rw [Tree.setColor_root, Tree.setColor_color]
    split
    · rfl
    · next hne =>
        refine hsink.root ?_
        rintro rfl
        exact hne (hsink.focus.root.trans hsink.top)

theorem deleteFixup_red {node : Option P} (hred : t.color node = .red) {bound : Nat} (hbound : 0 < bound) :
    deleteFixup t node bound = some (t.setColor node .black) := by
  have hend : deleteTurn (t, node) = none := by
    rw [← Option.not_isSome_iff_eq_none, deleteTurn_isSome, hred]
    simp
  simp only [deleteFixup, loop_of_none hend hbound, Option.map_some]

end Fixup

/-- Erasing the node keeps the balance: its place is the one of a red node, or it is the only node, or
the node that goes has a child that is made black in its stead. The last needs that the fix-up is called,
which the code decides by the colour of the erased node. -/
def keepsBalance (t : Tree P K) (node : P) : Bool :=
  match spliced t node with
  | none => false
  | some succ =>
    t.color succ = .red ∨ (t.root = some node ∧ succ = some node ∧ childOf t succ = none) ∨
      (childOf t succ ≠ none ∧ (succ = some node ∨ t.color (some node) = .black))

/-- The place of the node `succ` was emptied to erase the node `n`; `c` has moved up there. -/
structure Emptied (bal : Prop) (t : Tree P K) (sh : Shape P) (n : P) (succ : Option P) (t₂ : Tree P K)
    (c : Shape P) (cpath : List (Frame P)) : Prop where
  child : childOf t succ = c.top
  focus : Focus t₂ c cpath
  order : ∃ xs ys, sh.inorder = xs ++ n :: ys ∧ (plug c cpath).inorder = xs ++ ys
  bare : Bare t₂
  key : t₂.key = t.key
  size : t₂.size = t.size
  null : t₂.color none = .black
  root : cpath ≠ [] → t₂.color t₂.root = .black
  deep : t₂.color succ ≠ .black → cpath ≠ []
  balanced : bal → keepsBalance t n = true →
    c = nil ∧ Balanced t₂.red (plug c cpath) ∨
      ∃ z, c.top = some z ∧ t₂.color (some z) = .red ∧ t₂.color succ = .black ∧
        Balanced (t₂.setColor (some z) .black).red (plug c cpath)
  short : bal → keepsBalance t n ≠ true →
    (c = nil ∨ t₂.color succ ≠ .black) ∧ ¬ Balanced t₂.red (plug c cpath)

section Empty

variable {bal : Prop} {sh c : Shape P} {n y : P} {e : Side}

theorem Color.eq_black {c : Color} (h : c ≠ .red) : c = .black := by
  cases c
  · exact absurd rfl h
  · rfl

theorem Tree.red_congr (h : t'.color = t.color) : t'.red = t.red := by
  funext q
  simp only [Tree.red, h]

/-- The balance at the place of a node with one subtree, when it is one that may be emptied. -/
theorem splice_cases (hbal : Balanced t.red (plug (branch e c y nil) path)) (hnone : ¬ t.red none)
    (hnodup : ((branch e c y nil).inorder ++ nodes path).Nodup)
    (hkeeps : t.color (some y) = .red ∨ (c = nil ∧ path = []) ∨ c ≠ nil) :
    c = nil ∧ Balanced t.red (plug c path) ∨ ∃ z, c.top = some z ∧ t.color (some z) = .red ∧
      t.color (some y) = .black ∧ Balanced (t.setColor (some z) .black).red (plug c path) := by
  by_cases hy : t.color (some y) = .red
  · exact .inl (hbal.splice_red hnone hy)
  · have hdistinct := ((inorder_branch_perm e c y nil).append_right _).nodup_iff.mp hnodup
    cases c with
    | nil =>
      rcases hkeeps with hred | ⟨-, rfl⟩ | hne
      · exact absurd hred hy
      · exact .inl ⟨rfl, trivial, 0, rfl⟩
      · exact absurd rfl hne
    | node l z r =>
      obtain ⟨hz, hblacken⟩ := hbal.splice_black hnone hy rfl
      refine .inr ⟨z, rfl, hz, Color.eq_black hy, hblacken _ ?_ ?_ fun q hq => ?_⟩
      · simp [Tree.red, Tree.setColor_color]
      · simp [Tree.red, Tree.setColor_color]
      · have hqz : q ≠ z := by
          simp only [inorder, List.append_nil] at hdistinct
          grind
        simp [Tree.red, Tree.setColor_color, hqz]

/-- The erased node has at most one child. -/
theorem Inv.empty_self (h : Inv comp bal t (plug (branch e c n nil) path)) (hspliced : spliced t n = some (some n)) :
    Emptied bal t (plug (branch e c n nil) path) n (some n) (spliceOut t (some n)) c path := by
  have hfocus := focus_plug.mpr h.focus
  obtain ⟨hchild, hfocus'⟩ := hfocus.spliceOut
  obtain ⟨hcolor, hkey, hsize⟩ := spliceOut_eq t (some n)
  have hroot : path = [] → t.root = some n := by
    rintro rfl
    rw [hfocus.root, plug, top_branch]
  refine ⟨hchild, hfocus', ?_, h.bare.spliceOut _, hkey, hsize, by rw [hcolor, h.null], fun hne => ?_,
    fun hred hnil => ?_, fun hbal hkeeps => ?_, fun hbal hkeeps => ?_⟩
  · rw [inorder_plug, inorder_plug]
    cases e
    · exact ⟨(before path).reverse ++ c.inorder, after path, by simp [branch, inorder], by simp⟩
    · exact ⟨(before path).reverse, c.inorder ++ after path, by simp [branch, inorder], by simp⟩
  · rw [root_black hfocus hfocus' hne fun q _ => by rw [hcolor]]
    exact h.root
  · rw [hcolor] at hred
    have hblack := h.root
    rw [hroot hnil] at hblack
    exact hred hblack
  · simp only [keepsBalance, hspliced, hchild, decide_eq_true_eq] at hkeeps
    have hcases := splice_cases (h.balanced hbal) h.not_red_none hfocus.nodup (by
      rcases hkeeps with hred | ⟨hrootn, -, hnil⟩ | ⟨hne, -⟩
      · exact .inl hred
      · refine .inr (.inl ⟨?_, ?_⟩)
        · cases c with
          | nil => rfl
          | node l z r => cases hnil
        · cases path with
          | nil => rfl
          | cons f path => exact absurd hrootn (hfocus.ne_root (mem_inorder_of_top (top_branch ..)))
      · refine .inr (.inr ?_)
        rintro rfl
        exact hne rfl)
    have hred : ∀ z, ((spliceOut t (some n)).setColor z .black).red = (t.setColor z .black).red := fun z =>
      Tree.red_congr (by simp only [Tree.setColor, hcolor])
    simpa only [Tree.red_congr hcolor, hred, hcolor] using hcases
  · simp only [keepsBalance, hspliced, hchild, ne_eq, decide_eq_true_eq, true_or, and_true, not_or,
      not_not, true_and, not_and, top_eq_none] at hkeeps
    obtain ⟨hblack, hne, hnil⟩ := hkeeps
    refine ⟨.inl hnil, ?_⟩
    rw [Tree.red_congr hcolor]
    exact (h.balanced hbal).splice_short h.not_red_none hblack fun hpath => hne (hroot hpath) hnil

theorem balanced_substituted {t₂ : Tree P K} {l r : Shape P} (hnone : ¬ t.red none)
    (hself : t₂.color (some y) = t.color (some n)) (hnull : t₂.color none = t.color none)
    (hsame : ∀ q, q ∈ l.inorder ∨ q ∈ r.inorder ∨ q ∈ nodes path → t₂.color (some q) = t.color (some q)) :
    Balanced t₂.red (plug (node l y r) path) ↔ Balanced t.red (plug (node l n r) path) := by
  have hred : t₂.red (some y) ↔ t.red (some n) := by rw [Tree.red, hself, Tree.red]
  have hred' : t₂.red none ↔ t.red none := by rw [Tree.red, hnull, Tree.red]
  have hrest : ∀ q, q ∈ l.inorder ∨ q ∈ r.inorder ∨ q ∈ nodes path → (t₂.red (some q) ↔ t.red (some q)) :=
    fun q hq => by rw [Tree.red, hsame q hq, Tree.red]
  constructor
  · intro h
    exact h.rename (fun hc => hnone (hred'.mp hc)) hred.symm hred'.symm fun q hq => (hrest q hq).symm
  · intro h
    exact h.rename hnone hred hred' hrest

theorem balanced_substituted_black {t₂ : Tree P K} {l r : Shape P} {z : P} (hblack : t.color none = .black)
    (hself : t₂.color (some y) = t.color (some n)) (hnull : t₂.color none = t.color none)
    (hsame : ∀ q, q ∈ l.inorder ∨ q ∈ r.inorder ∨ q ∈ nodes path → t₂.color (some q) = t.color (some q))
    (hzy : z ≠ y) (hnz : n ≠ z) :
    Balanced (t₂.setColor (some z) .black).red (plug (node l y r) path) ↔
      Balanced (t.setColor (some z) .black).red (plug (node l n r) path) := by
  refine balanced_substituted ?_ ?_ ?_ fun q hq => ?_
  · simp [Tree.red, Tree.setColor_color, hblack]
  · simp [Tree.setColor_color, hself, hnz, Ne.symm hzy]
  · simp [Tree.setColor_color, hnull]
  · rw [Tree.setColor_color, hsame q hq, Tree.setColor_color]

theorem Focus.ne_of_mem_right {l r : Shape P} {z : P} (h : Focus t (node l n r) path) (hz : z ∈ r.inorder) :
    n ≠ z := by
  rintro rfl
  have hnodup := (List.nodup_append.mp h.nodup).1
  simp only [inorder, List.nodup_append, List.nodup_cons] at hnodup
  exact hnodup.2.1.1 hz

theorem Focus.spliceOut_succ {l : Shape P} {spine : List (Frame P)}
    (h : Focus t (node l n (plug (node nil y c) spine)) path) :
    childOf t (some y) = c.top ∧ Focus (RbTree.spliceOut t (some y)) (node l n (plug c spine)) path ∧
      y ∉ (node l n (plug c spine)).inorder ++ nodes path := by
  have hfocus : Focus t (branch .right c y nil) (spine ++ ⟨.right, n, l⟩ :: path) :=
    focus_append.mpr (focus_cons.mpr h)
  obtain ⟨hchild, hfocus'⟩ := hfocus.spliceOut
  refine ⟨hchild, focus_cons.mp (focus_append.mp hfocus'), fun hmem => ?_⟩
  have hperm : ((node l n (plug c spine)).inorder ++ nodes path).Perm
      (c.inorder ++ nodes (spine ++ ⟨.right, n, l⟩ :: path)) := by
    refine (inorder_plug_perm _ path).symm.trans (.trans ?_ (inorder_plug_perm c _))
    rw [plug_append]
    exact .refl _
  have hnodup := ((inorder_branch_perm .right c y nil).append_right _).nodup_iff.mp hfocus.nodup
  simp only [inorder, List.append_nil, List.cons_append, List.nodup_cons] at hnodup
  exact hnodup.1 (hperm.mem_iff.mp hmem)

/-- The erased node has two children, and its successor takes its place. -/
theorem Inv.empty_succ {l : Shape P} {spine : List (Frame P)}
    (h : Inv comp bal t (plug (node l n (plug (node nil y c) spine)) path))
    (hspine : ∀ f ∈ spine, f.side = .left) (hspliced : spliced t n = some (some y)) :
    Emptied bal t (plug (node l n (plug (node nil y c) spine)) path) n (some y)
      (substitute (spliceOut t (some y)) (some n) (some y)) c (spine ++ ⟨.right, y, l⟩ :: path) ∧ y ≠ n := by
  have hfocus := focus_plug.mpr h.focus
  obtain ⟨hchild, hfocus₁, hy⟩ := hfocus.spliceOut_succ
  obtain ⟨hcolor₁, hkey₁, hsize₁⟩ := spliceOut_eq t (some y)
  have hfocus₂ := hfocus₁.substitute hy
  obtain ⟨hcolor, hkey, hsize, hbare⟩ := hfocus₁.substitute_rest hy (h.bare.spliceOut _)
  rw [hkey₁] at hkey
  rw [hsize₁] at hsize
  generalize substitute (spliceOut t (some y)) (some n) (some y) = t₂ at *
  have hyn : y ≠ n := fun heq => hy (List.mem_append_left _ (heq ▸ mem_inorder_of_top rfl))
  have hcolor₂ : ∀ q, t₂.color q = if q = some y then t.color (some n) else t.color q := fun q => by
    rw [hcolor, Tree.setColor_color, hcolor₁]
  have hsame : ∀ q, q ∈ l.inorder ∨ q ∈ (plug c spine).inorder ∨ q ∈ nodes path →
      t₂.color (some q) = t.color (some q) := fun q hq => by
    rw [hcolor₂, if_neg]
    rintro heq
    refine hy (Option.some.inj heq ▸ ?_)
    simp only [inorder, List.mem_append, List.mem_cons]
    tauto
  have hnull : t₂.color none = t.color none := by simp [hcolor₂]
  have hself : t₂.color (some y) = t.color (some n) := by simp [hcolor₂]
  have hplug : ∀ x p, plug x (spine ++ ⟨.right, p, l⟩ :: path) = plug (node l p (plug x spine)) path :=
    fun x p => by rw [plug_append]; rfl
  have hbalanced : bal → Balanced t.red (plug (branch .right c y nil) (spine ++ ⟨.right, n, l⟩ :: path)) :=
    fun hbal => by
      rw [hplug]
      exact h.balanced hbal
  have hiff := balanced_substituted h.not_red_none hself hnull hsame
  refine ⟨⟨hchild, focus_append.mpr (focus_cons.mpr hfocus₂), ?_, hbare, hkey, hsize, hnull.trans h.null,
    fun _ => ?_, fun _ => by simp, fun hbal hkeeps => ?_, fun hbal hkeeps => ?_⟩, hyn⟩
  · refine ⟨(before path).reverse ++ l.inorder, y :: (c.inorder ++ after spine ++ after path), ?_, ?_⟩
    · simp [inorder_plug, inorder, before_eq_nil hspine]
    · rw [plug_append, plug, inorder_plug]
      simp [branch, inorder, inorder_plug, before_eq_nil hspine]
  · by_cases hne : path = []
    · subst hne
      have hroot : t.root = some n := hfocus.root
      have hblack := h.root
      rw [hroot] at hblack
      rw [hfocus₂.root]
      exact hself.trans hblack
    · rw [root_black hfocus hfocus₂ hne fun q hq => hsame q (.inr (.inr hq))]
      exact h.root
  · simp only [keepsBalance, hspliced, hchild, Option.some.injEq, hyn, false_and, and_false, false_or,
      decide_eq_true_eq] at hkeeps
    rw [hplug]
    have hdeep : Focus t (branch .right c y nil) (spine ++ ⟨.right, n, l⟩ :: path) :=
      focus_append.mpr (focus_cons.mpr hfocus)
    have hcases := splice_cases (hbalanced hbal) h.not_red_none hdeep.nodup (by
      refine hkeeps.imp id fun hc => .inr ?_
      rintro rfl
      exact hc.1 rfl)
    rw [hplug] at hcases
    rcases hcases with ⟨hnil, hcase⟩ | ⟨z, hz, hzred, hyblack, hcase⟩
    · exact .inl ⟨hnil, hiff.mpr hcase⟩
    · have hnblack : t.color (some n) = .black := by
        rcases hkeeps with hred | ⟨-, hblack⟩
        · exact absurd (hyblack.symm.trans hred) (by decide)
        · exact hblack
      have hzmem : z ∈ (plug c spine).inorder :=
        (inorder_plug_perm c spine).mem_iff.mpr (List.mem_append_left _ (mem_inorder_of_top hz))
      have hzy : z ≠ y := fun heq => hy (by simp [inorder, ← heq, hzmem])
      have hrecoloured := balanced_substituted_black h.null hself hnull hsame hzy (hfocus₁.ne_of_mem_right hzmem)
      exact .inr ⟨z, hz, (hsame z (.inr (.inl hzmem))).trans hzred, hself.trans hnblack, hrecoloured.mpr hcase⟩
  · simp only [keepsBalance, hspliced, hchild, Option.some.injEq, hyn, false_and, and_false, false_or,
      ne_eq, decide_eq_true_eq, not_or, not_and, top_eq_none] at hkeeps
    obtain ⟨hblack, hcase⟩ := hkeeps
    refine ⟨?_, fun hshort => ?_⟩
    · rw [hself]
      exact (em (c = nil)).imp id hcase
    · refine (hbalanced hbal).splice_short h.not_red_none hblack (by simp) ?_
      rw [hplug] at hshort ⊢
      exact hiff.mp hshort

/-- The colours are settled after the place was emptied, with the nodes in `order`. -/
structure Recoloured (bal : Prop) (t : Tree P K) (n : P) (t₂ : Tree P K) (order : List P) (t₃ : Tree P K)
    (sh₃ : Shape P) : Prop where
  focus : Focus t₃ sh₃ []
  order : sh₃.inorder = order
  bare : Bare t₃
  key : t₃.key = t₂.key
  size : t₃.size = t₂.size
  null : t₃.color none = .black
  root : t₃.color t₃.root = .black
  balanced : bal ∧ keepsBalance t n = true → Balanced t₃.red sh₃
  onlyIf : bal → Balanced t₃.red sh₃ → keepsBalance t n = true

theorem Tree.setColor_null (h : t.color none = .black) : (t.setColor none .black).color = t.color := by
  funext q
  rw [Tree.setColor_color]
  split
  · next hq => rw [hq, h]
  · rfl

section Finish

variable {succ : Option P} {t₂ : Tree P K} {cpath : List (Frame P)} {order : List P}

theorem Emptied.recoloured_of_red (hempty : Emptied bal t sh n succ t₂ c cpath)
    (horder : (plug c cpath).inorder = order) (hred : ¬ t₂.color succ = .black) :
    Recoloured bal t n t₂ order t₂ (plug c cpath) := by
  refine ⟨focus_plug.mp hempty.focus, horder, hempty.bare, rfl, rfl, hempty.null,
    hempty.root (hempty.deep hred), fun hboth => ?_, fun hbal hbalanced => ?_⟩
  · rcases hempty.balanced hboth.1 hboth.2 with ⟨-, hbalanced⟩ | ⟨z, -, -, hblack, -⟩
    · exact hbalanced
    · exact absurd hblack hred
  · exact not_not.mp fun hkeeps => (hempty.short hbal hkeeps).2 hbalanced

/-- Nothing moved up: there is no node to start `delete_fixup` at. -/
theorem Emptied.recoloured_of_nil (hempty : Emptied bal t sh n succ t₂ nil cpath)
    (horder : (plug nil cpath).inorder = order) :
    Recoloured bal t n t₂ order (t₂.setColor none .black) (plug nil cpath) := by
  have hcolor := Tree.setColor_null hempty.null
  refine ⟨(focus_plug.mp hempty.focus).setColor _ _, horder, hempty.bare, rfl, rfl,
    by rw [hcolor, hempty.null], ?_, fun hboth => ?_, fun hbal hbalanced => ?_⟩
  · rw [hcolor, Tree.setColor_root]
    by_cases hne : cpath = []
    · subst hne
      rw [hempty.focus.root]
      exact hempty.null
    · exact hempty.root hne
  · rw [Tree.red_congr hcolor]
    rcases hempty.balanced hboth.1 hboth.2 with ⟨-, hbalanced⟩ | ⟨z, hz, -⟩
    · exact hbalanced
    · cases hz
  · rw [Tree.red_congr hcolor] at hbalanced
    exact not_not.mp fun hkeeps => (hempty.short hbal hkeeps).2 hbalanced

/-- A red node moved up to the place of a black one: `delete_fixup` makes it black. -/
theorem Emptied.recoloured_of_top {z : P} (hempty : Emptied bal t sh n succ t₂ c cpath)
    (horder : (plug c cpath).inorder = order) (hz : c.top = some z)
    (hbalanced : Balanced (t₂.setColor (some z) .black).red (plug c cpath)) (hkeeps : keepsBalance t n = true) :
    Recoloured bal t n t₂ order ((t₂.setColor (some z) .black).setColor none .black) (plug c cpath) := by
  have hcolor : ((t₂.setColor (some z) .black).setColor none .black).color =
      (t₂.setColor (some z) .black).color := by
    refine Tree.setColor_null ?_
    rw [Tree.setColor_color, if_neg (by simp), hempty.null]
  refine ⟨((focus_plug.mp hempty.focus).setColor _ _).setColor _ _, horder, hempty.bare, rfl, rfl, ?_, ?_,
    fun _ => ?_, fun _ _ => hkeeps⟩
  · rw [Tree.setColor_color, if_pos rfl]
  · rw [hcolor, Tree.setColor_root, Tree.setColor_root, Tree.setColor_color]
    split
    · rfl
    · next hne =>
        refine hempty.root ?_
        rintro rfl
        exact hne (hempty.focus.root.trans hz)
  · rw [Tree.red_congr hcolor]
    exact hbalanced

/-- Otherwise `delete_fixup` ends with some tree of the same nodes. -/
theorem Emptied.recoloured_of_fixup {z : P} (hempty : Emptied bal t sh n succ t₂ c cpath)
    (horder : (plug c cpath).inorder = order) (hz : c.top = some z) (hblack : t₂.color succ = .black)
    (hbal : ¬(bal ∧ keepsBalance t n = true)) {turns : Nat} (hturns : cpath.length < turns) :
    ∃ t₄ sh₄, deleteFixup t₂ c.top turns = some t₄ ∧
      Recoloured bal t n t₂ order (t₄.setColor none .black) sh₄ := by
  obtain ⟨t₄, heq, hkeeps, hroot⟩ := deleteFixup_spec
    (⟨hz, hempty.focus, horder, hempty.bare, rfl, rfl, hempty.root⟩ : Sinking t₂ order t₂ z c cpath) hturns
  obtain ⟨sh₄, hfocus, horder⟩ := hkeeps.tree
  rw [hz]
  refine ⟨t₄, sh₄, heq, hfocus.setColor _ _, horder, hkeeps.bare, hkeeps.key, hkeeps.size, ?_, ?_,
    fun hc => absurd hc hbal, fun hb _ => not_not.mp fun hshort => ?_⟩
  · rw [Tree.setColor_color, if_pos rfl]
  · rw [Tree.setColor_root, Tree.setColor_color]
    split
    · rfl
    · exact hroot
  · rcases (hempty.short hb hshort).1 with hnil | hred
    · rw [hnil] at hz
      cases hz
    · exact hred hblack

theorem Emptied.recoloured (hempty : Emptied bal t sh n succ t₂ c cpath)
    (horder : (plug c cpath).inorder = order) (hdepth : cpath.length < t₂.size + 2) :
    ∃ t₃ sh₃, (if t₂.color succ = .black then
        (if c.top ≠ none then deleteFixup t₂ c.top (t₂.size + 2) else some t₂).map fun t =>
          t.setColor none .black
      else some t₂) = some t₃ ∧ Recoloured bal t n t₂ order t₃ sh₃ := by
  split
  · next hblack =>
      cases hc : c with
      | nil =>
        subst hc
        exact ⟨_, _, rfl, hempty.recoloured_of_nil horder⟩
      | node l z r =>
        have hz : c.top = some z := by rw [hc]; rfl
        rw [← hc, if_pos (by simp [hz])]
        by_cases hbal : bal ∧ keepsBalance t n = true
        · rcases hempty.balanced hbal.1 hbal.2 with ⟨hnil, -⟩ | ⟨z', hz', hzred, -, hbalanced⟩
          · rw [hnil] at hz
            cases hz
          · rw [hz', deleteFixup_red hzred (Nat.succ_pos _), Option.map_some]
            exact ⟨_, _, rfl, hempty.recoloured_of_top horder hz' hbalanced hbal.2⟩
        · obtain ⟨t₄, sh₄, heq, hrec⟩ := hempty.recoloured_of_fixup horder hz hblack hbal hdepth
          rw [heq, Option.map_some]
          exact ⟨_, sh₄, rfl, hrec⟩
  · next hred => exact ⟨t₂, _, rfl, hempty.recoloured_of_red horder hred⟩

/-- The end of `pj_rbtree_erase`, after the place was emptied. -/
theorem Emptied.finish (h : Inv comp bal t sh)
    (hempty : Emptied bal t sh n succ t₂ c cpath) : ∃ t' sh' xs ys,
      (if t₂.color succ = .black then
        (if c.top ≠ none then deleteFixup t₂ c.top (t₂.size + 2) else some t₂).map fun t =>
          t.setColor none .black
      else some t₂).map (fun t => { t with size := t.size - 1 }) = some t' ∧
      sh.inorder = xs ++ n :: ys ∧ sh'.inorder = xs ++ ys ∧ t'.key = t.key ∧
      Inv comp (bal ∧ keepsBalance t n = true) t' sh' ∧
      (bal → Balanced t'.red sh' → keepsBalance t n = true) := by
  obtain ⟨xs, ys, hxs, hys⟩ := hempty.order
  have hdepth : cpath.length < t₂.size + 2 := by
    have hlength := length_le_nodes cpath
    have hcount := (inorder_plug_perm c cpath).length_eq
    have htotal := h.size
    have hsize₂ := hempty.size
    simp only [hys, hxs, List.length_append, List.length_cons] at hcount htotal
    omega
  obtain ⟨t₃, sh₃, heq, hrec⟩ := hempty.recoloured hys hdepth
  refine ⟨{ t₃ with size := t₃.size - 1 }, sh₃, xs, ys, by rw [heq, Option.map_some], hxs, hrec.order,
    hrec.key.trans hempty.key,
    ⟨hrec.focus.congr rfl rfl rfl, ?_, ?_, hrec.bare, hrec.null, hrec.root, hrec.balanced⟩, hrec.onlyIf⟩
  · have hasc := h.ascending
    simp only [Ascending, hrec.key, hempty.key, hxs, hrec.order] at hasc ⊢
    exact hasc.sublist (List.Sublist.append_left (List.sublist_cons_self n ys) xs)
  · have hcount := h.size
    simp only [hrec.size, hempty.size, hrec.order, hxs, List.length_append, List.length_cons] at hcount ⊢
    omega

end Finish

/-- `pj_rbtree_erase` ends, whatever the colours are, and takes the node out of the order. It keeps the
balance when and only when the place that is emptied is one that may be. -/
theorem Inv.erase (h : Inv comp bal t sh) (hn : n ∈ sh.inorder) : ∃ t' sh' xs ys,
    erase t n = some t' ∧ sh.inorder = xs ++ n :: ys ∧ sh'.inorder = xs ++ ys ∧ t'.key = t.key ∧
      Inv comp (bal ∧ keepsBalance t n = true) t' sh' ∧
      (bal → Balanced t'.red sh' → keepsBalance t n = true) := by
  obtain ⟨l, r, path, rfl⟩ := exists_plug_of_mem hn
  have hfocus := focus_plug.mpr h.focus
  obtain ⟨-, hleft, hright, -, -⟩ := hfocus.sub
  by_cases hone : l = nil ∨ r = nil
  · have hspliced : spliced t n = some (some n) := by
      rw [spliced, if_pos]
      rcases hone with rfl | rfl
      · exact .inl hleft
      · exact .inr hright
    obtain ⟨e, c, hbranch⟩ : ∃ e c, node l n r = branch e c n nil := by
      rcases hone with rfl | rfl
      · exact ⟨.right, r, rfl⟩
      · exact ⟨.left, l, rfl⟩
    rw [hbranch] at h ⊢
    have hempty := h.empty_self hspliced
    have hchild := hempty.child
    simpa only [RbTree.erase, hspliced, Option.bind_some, ne_eq, not_true_eq_false, if_false,
      hchild] using hempty.finish h
  · rw [not_or] at hone
    have hrtop : r.top ≠ none := by
      cases r with
      | nil => exact absurd rfl hone.2
      | node l' p r' => simp [top]
    have hltop : l.top ≠ none := by
      cases l with
      | nil => exact absurd rfl hone.1
      | node l' p r' => simp [top]
    have hr : Focus t r (⟨.right, n, l⟩ :: path) := focus_cons.mpr hfocus
    have hlength : r.inorder.length ≤ t.size := by
      rw [h.size, (inorder_plug_perm _ path).length_eq]
      simp only [inorder, List.length_append, List.length_cons]
      omega
    obtain ⟨y, c, spine, hspine, rfl, hout⟩ := outermost_spec hr hlength hone.2 .left
    have hspliced : spliced t n = some (some y) := by
      rw [spliced, hleft, hright, if_neg (by simp [hltop, hrtop]), hout]
    obtain ⟨hempty, hyn⟩ := h.empty_succ hspine hspliced
    have hchild := hempty.child
    have hne : ¬ some y = some n := by simpa using hyn
    simpa only [RbTree.erase, hspliced, Option.bind_some, ne_eq, hne, not_false_eq_true, if_true,
      hchild] using hempty.finish h

end Empty

end PjProject.RbTree
