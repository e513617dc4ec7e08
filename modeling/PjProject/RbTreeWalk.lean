import PjProject.RbTreeErase

/-! Walks through a red-black tree: the first and the last node, the neighbours of a node, the nodes in
both orders, and the node with a key. -/

set_option linter.unusedSectionVars false

namespace PjProject.RbTree

open Shape

variable {P K : Type} [DecidableEq P]
variable {comp : K → K → Int} {bal : Prop} {t : Tree P K} {s sh : Shape P} {path : List (Frame P)}

/-- The descent to the other side ends at the first node of a walk. -/
theorem outermost_head (h : Focus t s path) (hsize : s.inorder.length ≤ t.size) (hbare : Bare t) (d : Side) :
    outermost t d.opp s.top = some (s.along d).head? := by
  by_cases hne : s = nil
  · subst hne
    have hend : descendTurn t d.opp none = none := by simp [descendTurn, hbare d.opp]
    rw [outermost, top, loop_of_none hend (Nat.succ_pos _)]
    cases d <;> rfl
  · obtain ⟨y, c, spine, hspine, rfl, hout⟩ := outermost_spec h hsize hne d.opp
    rw [hout, along_plug, beyond_eq_nil hspine, branch_opp, along_branch]
    cases d <;> rfl

/-- The climb ends at the first node that a walk to the side finds after the subtree. -/
theorem climb_head (h : Focus t s path) {x : P} (hx : s.top = some x) (d : Side) {bound : Nat}
    (hbound : path.length < bound) :
    ∃ y, loop (climbTurn t d) bound (some x, above path) = some (y, (beyond d path).head?) := by
  induction path generalizing s x bound with
  | nil =>
    have hend : climbTurn t d (some x, above []) = none := by simp [climbTurn, above]
    exact ⟨some x, by rw [loop_of_none hend hbound]; cases d <;> rfl⟩
  | cons f path ih =>
    obtain ⟨side, p, sib⟩ := f
    have hside : t.link side (some p) = some x := h.around.2.1.trans hx
    have hsib : t.link side.opp (some p) = sib.top := h.around.2.2.1
    rcases Side.eq_or_eq_opp side d with rfl | rfl
    · have hturn : climbTurn t side (some x, some p) = some (some p, above path) := by
        rw [climbTurn, if_pos ⟨Option.some_ne_none p, hside⟩, h.around.1]
      obtain ⟨bound, rfl⟩ : ∃ m, bound = m + 1 := ⟨bound - 1, by omega⟩
      rw [above, loop_of_some hturn, beyond_same]
      exact ih (focus_cons.mp h) (top_branch ..) (by simpa using hbound)
    · rw [Side.opp_opp] at hsib
      have hne : sib.top ≠ some x := by
        intro heq
        refine (List.nodup_append.mp h.nodup).2.2 x (mem_inorder_of_top hx) x ?_ rfl
        simp [nodes, mem_inorder_of_top heq]
      have hend : climbTurn t d (some x, some p) = none := by
        rw [climbTurn, if_neg fun hc => hne (hsib.symm.trans hc.2)]
      exact ⟨some x, by rw [above, loop_of_none hend (by omega), beyond_opp]; rfl⟩

/-- The neighbour of a node on a side is the node that comes next in a walk to that side. -/
theorem neighbour_focus {d : Side} {a b : Shape P} {n : P} (h : Focus t (branch d a n b) path)
    (hsize : (plug (branch d a n b) path).inorder.length = t.size) (hbare : Bare t) :
    neighbour t d (some n) = some (a.along d ++ beyond d path).head? := by
  have hlength := (inorder_plug_perm (branch d a n b) path).length_eq
  have hbranch := (inorder_branch_perm d a n b).length_eq
  simp only [List.length_append, List.length_cons] at hlength hbranch
  have hpath := length_le_nodes path
  rw [neighbour, h.link.1]
  split
  · next hne =>
      have hdown : Focus t a (⟨d, n, b⟩ :: path) := focus_cons.mpr h
      rw [outermost_head hdown (by omega) hbare]
      obtain ⟨x, hx⟩ := Option.ne_none_iff_exists'.mp hne
      have halong : a.along d ≠ [] := by
        have hmem := mem_inorder_of_top hx
        cases d <;> simpa [along] using List.ne_nil_of_mem hmem
      rw [List.head?_append_of_ne_nil _ halong]
  · next hnil =>
      have hempty : a.along d = [] := by
        cases a with
        | nil => cases d <;> rfl
        | node l p r => exact absurd (Option.some_ne_none p) hnil
      obtain ⟨y, hloop⟩ := climb_head h (top_branch ..) d (show path.length < t.size + 1 by omega)
      rw [h.parent, hloop, hempty]
      rfl

theorem Inv.nodup_along (h : Inv comp bal t sh) (d : Side) : (sh.along d).Nodup := by
  have hnodup : sh.inorder.Nodup := by simpa [nodes] using h.focus.nodup
  cases d
  · exact List.nodup_reverse.mpr hnodup
  · exact hnodup

theorem mem_along (d : Side) (s : Shape P) (p : P) : p ∈ s.along d ↔ p ∈ s.inorder := by
  cases d
  · exact List.mem_reverse
  · exact Iff.rfl

/-- Every node is the top of a subtree to which the pointers go. -/
theorem Inv.exists_focus (h : Inv comp bal t sh) {p : P} (hp : p ∈ sh.inorder) (d : Side) :
    ∃ a b path, sh = plug (branch d a p b) path ∧ Focus t (branch d a p b) path := by
  obtain ⟨l, r, path, hwhole⟩ := exists_plug_of_mem hp
  obtain ⟨a, b, hbranch⟩ := node_eq_branch d l p r
  rw [hbranch] at hwhole
  exact ⟨a, b, path, hwhole, focus_plug.mpr (hwhole ▸ h.focus)⟩

/-- From a node a walk goes on to the node behind it. -/
theorem Inv.neighbour (h : Inv comp bal t sh) {d : Side} {xs ys : List P} {p : P}
    (hsplit : sh.along d = xs ++ p :: ys) : neighbour t d (some p) = some ys.head? := by
  have hp : p ∈ sh.inorder := by
    rw [← mem_along d, hsplit]
    simp
  obtain ⟨a, b, path, hwhole, hfocus⟩ := h.exists_focus hp d
  have hplace : sh.along d = ((beyond d.opp path).reverse ++ b.along d) ++ p :: (a.along d ++ beyond d path) := by
    rw [hwhole, along_plug, along_branch]
    simp
  have hnodup := h.nodup_along d
  rw [hplace, List.nodup_append, List.nodup_cons] at hnodup
  rw [hplace, List.append_cons_inj_of_notMem (fun hmem => hnodup.2.2 p hmem p List.mem_cons_self rfl)
    hnodup.2.1.1] at hsplit
  rw [← hsplit.2.2]
  exact neighbour_focus hfocus (by rw [← hwhole, h.size]) h.bare

/-- A walk that goes on from each node to the one behind it finds them all. -/
theorem walk_eq {advance : P → Option (Option P)} {order : List P}
    (hnext : ∀ xs p ys, order = xs ++ p :: ys → advance p = some ys.head?) {xs ys : List P}
    (hsplit : order = xs ++ ys) : walk advance ys.length ys.head? = some ys := by
  induction ys generalizing xs with
  | nil => rfl
  | cons p ys ih =>
    have hrest := ih (show order = (xs ++ [p]) ++ ys by simpa using hsplit)
    simp only [List.length_cons, List.head?_cons, walk, hnext xs p ys hsplit, Option.bind_some, hrest,
      Option.map_some]

theorem Inv.walk_along (h : Inv comp bal t sh) (d : Side) :
    (outermost t d.opp t.root).bind (walk (fun p => RbTree.neighbour t d (some p)) t.size) =
      some (sh.along d) := by
  have hlength : (sh.along d).length = t.size := by
    rw [h.size]
    cases d
    · exact List.length_reverse
    · rfl
  rw [h.focus.root, plug, outermost_head h.focus (by rw [h.size]) h.bare, Option.bind_some, ← hlength]
  exact walk_eq (fun xs p ys => h.neighbour) (List.nil_append _).symm

theorem Inv.ascend (h : Inv comp bal t sh) : ascend t = some sh.inorder := h.walk_along .right

theorem Inv.descend (h : Inv comp bal t sh) : descend t = some sh.inorder.reverse := h.walk_along .left

/-- No two nodes have equal keys. -/
theorem Ascending.unique (horder : IsOrder comp) {key : P → K} {ps : List P} (h : Ascending comp key ps)
    {p q : P} (hp : p ∈ ps) (hq : q ∈ ps) {k : K} (hkp : comp k (key p) = 0) (hkq : comp k (key q) = 0) : p = q := by
  by_contra hne
  have hpq : comp (key p) (key q) = 0 := by
    have hle := horder.trans (key p) k (key q) (horder.eq_swap.mp hkp).le hkq.le
    have hge := horder.trans (key q) k (key p) (horder.eq_swap.mp hkq).le hkp.le
    exact le_antisymm hle (horder.le_swap.mp hge)
  have hqp := horder.eq_swap.mp hpq
  obtain ⟨xs, ys, rfl⟩ := List.append_of_mem hp
  simp only [Ascending, List.pairwise_append, List.pairwise_cons, List.mem_cons] at h
  rcases List.mem_append.mp hq with hq | hq
  · have hlt := h.2.2 q hq p (.inl rfl)
    omega
  · rcases List.mem_cons.mp hq with rfl | hq
    · exact hne rfl
    · have hlt := h.2.1.1 q hq
      omega

theorem Inv.find (h : Inv comp bal t sh) (horder : IsOrder comp) (k : K) :
    ∃ r, find comp t k = some r ∧ ∀ p, r = some p ↔ p ∈ sh.inorder ∧ comp k (t.key p) = 0 := by
  rcases search_spec horder h.focus h.ascending h.size k with
    ⟨q, parent, rv, hsearch, hq, hkq⟩ | ⟨rv, path, hsearch, rfl, -, hbetween⟩
  · refine ⟨some q, by rw [RbTree.find, hsearch]; rfl, fun p => ⟨?_, fun hp => ?_⟩⟩
    · rintro heq
      obtain rfl := Option.some.inj heq
      exact ⟨hq, hkq⟩
    · rw [h.ascending.unique horder hq hp.1 hkq hp.2]
  · refine ⟨none, by rw [RbTree.find, hsearch]; rfl, fun p => ⟨nofun, fun hp => ?_⟩⟩
    obtain ⟨hmem, hkp⟩ := hp
    simp only [inorder_plug, inorder, List.append_nil, List.mem_append, List.mem_reverse] at hmem
    rcases hmem with hmem | hmem
    · have hlt := (horder.swap _ _).mp (hbetween.before p hmem)
      omega
    · have hlt := hbetween.after p hmem
      omega

/-- The links down and up agree at the nodes, and the sentinel is above the root only. -/
structure Linked (t : Tree P K) (ps : List P) : Prop where
  root : ∀ p, t.root = some p ↔ p ∈ ps ∧ t.parent (some p) = none
  down : ∀ d p q, p ∈ ps → t.link d (some p) = some q → q ∈ ps ∧ t.parent (some q) = some p
  up : ∀ p q, p ∈ ps → t.parent (some p) = some q → q ∈ ps ∧ ∃ d, t.link d (some q) = some p

theorem Inv.linked (h : Inv comp bal t sh) : Linked t sh.inorder := by
  refine ⟨fun p => ⟨fun hroot => ?_, fun ⟨hp, hparent⟩ => ?_⟩, fun d p q hp hlink => ?_, fun p q hp hparent => ?_⟩
  · have htop : sh.top = some p := h.focus.root.symm.trans hroot
    obtain ⟨l, r, rfl⟩ := exists_node_of_top htop
    exact ⟨mem_inorder_of_top rfl, h.focus.sub.1⟩
  · obtain ⟨a, b, path, hwhole, hfocus⟩ := h.exists_focus hp .left
    cases path with
    | nil => exact hfocus.around
    | cons f path => exact absurd (hfocus.parent.symm.trans hparent) (Option.some_ne_none _)
  · obtain ⟨a, b, path, rfl, hfocus⟩ := h.exists_focus hp d
    obtain ⟨l, r, rfl⟩ := exists_node_of_top (hfocus.link.1.symm.trans hlink)
    refine ⟨?_, (sub_branch.mp hfocus.sub).2.2.2.1.1⟩
    rw [(inorder_plug_perm _ _).mem_iff, List.mem_append, mem_inorder_branch]
    exact .inl (.inr (.inl (mem_inorder_of_top rfl)))
  · obtain ⟨a, b, path, rfl, hfocus⟩ := h.exists_focus hp .left
    have habove := hfocus.parent.symm.trans hparent
    cases path with
    | nil => cases habove
    | cons f path =>
      obtain rfl := Option.some.inj habove
      refine ⟨?_, f.side, hfocus.around.2.1⟩
      rw [(inorder_plug_perm _ _).mem_iff]
      exact List.mem_append_right _ (by simp [nodes])

end PjProject.RbTree
