import PjProject.RbTree

/-! The pointers of a red-black tree make up a tree: a subtree is linked down from its top and back up
through the parents, a context is linked around its hole, and a rotation of the pointers is a rotation
of the tree. Nothing here depends on the colours. -/

set_option linter.unusedSectionVars false

namespace PjProject.RbTree

open Shape

variable {P K : Type} [DecidableEq P]

namespace Tree

variable (t : Tree P K)

@[simp] theorem setColor_link (p : Option P) (c : Color) : (t.setColor p c).link = t.link := rfl

@[simp] theorem setColor_parent (p : Option P) (c : Color) : (t.setColor p c).parent = t.parent := rfl

@[simp] theorem setColor_root (p : Option P) (c : Color) : (t.setColor p c).root = t.root := rfl

@[simp] theorem setColor_key (p : Option P) (c : Color) : (t.setColor p c).key = t.key := rfl

@[simp] theorem setColor_size (p : Option P) (c : Color) : (t.setColor p c).size = t.size := rfl

@[simp] theorem setParent_link (p q : Option P) : (t.setParent p q).link = t.link := rfl

@[simp] theorem setParent_color (p q : Option P) : (t.setParent p q).color = t.color := rfl

@[simp] theorem setParent_root (p q : Option P) : (t.setParent p q).root = t.root := rfl

@[simp] theorem setParent_key (p q : Option P) : (t.setParent p q).key = t.key := rfl

@[simp] theorem setParent_size (p q : Option P) : (t.setParent p q).size = t.size := rfl

@[simp] theorem setLink_parent (d : Side) (p q : Option P) : (t.setLink d p q).parent = t.parent := rfl

@[simp] theorem setLink_color (d : Side) (p q : Option P) : (t.setLink d p q).color = t.color := rfl

@[simp] theorem setLink_root (d : Side) (p q : Option P) : (t.setLink d p q).root = t.root := rfl

@[simp] theorem setLink_key (d : Side) (p q : Option P) : (t.setLink d p q).key = t.key := rfl

@[simp] theorem setLink_size (d : Side) (p q : Option P) : (t.setLink d p q).size = t.size := rfl

theorem setParent_parent (p q r : Option P) : (t.setParent p q).parent r = if r = p then q else t.parent r :=
  Function.update_apply ..

theorem setLink_link (d e : Side) (p q r : Option P) :
    (t.setLink d p q).link e r = if e = d ∧ r = p then q else t.link e r := by
  by_cases he : e = d
  · subst he
    by_cases hr : r = p <;> simp [setLink, hr]
  · simp [setLink, he]

theorem replaceChild_eq (par old new : Option P) :
    (t.replaceChild par old new).parent = t.parent ∧ (t.replaceChild par old new).color = t.color ∧
      (t.replaceChild par old new).key = t.key ∧ (t.replaceChild par old new).size = t.size := by
  unfold replaceChild
  split
  · split <;> exact ⟨rfl, rfl, rfl, rfl⟩
  · exact ⟨rfl, rfl, rfl, rfl⟩

@[simp] theorem replaceChild_parent (par old new : Option P) :
    (t.replaceChild par old new).parent = t.parent := (t.replaceChild_eq par old new).1

@[simp] theorem replaceChild_color (par old new : Option P) :
    (t.replaceChild par old new).color = t.color := (t.replaceChild_eq par old new).2.1

@[simp] theorem replaceChild_key (par old new : Option P) :
    (t.replaceChild par old new).key = t.key := (t.replaceChild_eq par old new).2.2.1

@[simp] theorem replaceChild_size (par old new : Option P) :
    (t.replaceChild par old new).size = t.size := (t.replaceChild_eq par old new).2.2.2

theorem replaceChild_link {par old new q : Option P} (hq : q = none ∨ q ≠ par) (d : Side) :
    (t.replaceChild par old new).link d q = t.link d q := by
  unfold replaceChild
  split
  · next hpar =>
      have hne : q ≠ par := by
        rcases hq with rfl | hq
        · exact Ne.symm hpar
        · exact hq
      split <;> simp [setLink_link, hne]
  · rfl

end Tree

/-- The subtree is linked below `par`. -/
def Sub (t : Tree P K) : Option P → Shape P → Prop
  | _, nil => True
  | par, node l p r => t.parent (some p) = par ∧ t.link .left (some p) = l.top ∧
    t.link .right (some p) = r.top ∧ Sub t (some p) l ∧ Sub t (some p) r

/-- The context is linked around a hole in which there is the pointer. -/
def Path (t : Tree P K) : Option P → List (Frame P) → Prop
  | x, [] => t.root = x
  | x, f :: path => t.parent (some f.p) = above path ∧ t.link f.side (some f.p) = x ∧
    t.link f.side.opp (some f.p) = f.sib.top ∧ Sub t (some f.p) f.sib ∧ Path t (some f.p) path

structure Focus (t : Tree P K) (s : Shape P) (path : List (Frame P)) : Prop where
  sub : Sub t (above path) s
  around : Path t s.top path
  nodup : (s.inorder ++ nodes path).Nodup

variable {t t' : Tree P K} {par : Option P} {sub : Shape P} {path : List (Frame P)}

theorem sub_branch {d : Side} {a b : Shape P} {p : P} :
    Sub t par (branch d a p b) ↔ t.parent (some p) = par ∧ t.link d (some p) = a.top ∧
      t.link d.opp (some p) = b.top ∧ Sub t (some p) a ∧ Sub t (some p) b := by
  cases d with
  | left => exact Iff.rfl
  | right =>
    simp only [branch, Sub, Side.opp]
    constructor
    · rintro ⟨hpar, hleft, hright, hb, ha⟩
      exact ⟨hpar, hright, hleft, ha, hb⟩
    · rintro ⟨hpar, hright, hleft, ha, hb⟩
      exact ⟨hpar, hleft, hright, hb, ha⟩

theorem Sub.congr (h : Sub t par sub) (hparent : ∀ p ∈ sub.inorder, t'.parent (some p) = t.parent (some p))
    (hlink : ∀ d, ∀ p ∈ sub.inorder, t'.link d (some p) = t.link d (some p)) : Sub t' par sub := by
  induction sub generalizing par with
  | nil => trivial
  | node l p r ihl ihr =>
    have hl : ∀ q ∈ l.inorder, q ∈ (node l p r).inorder := fun q hq => List.mem_append_left _ hq
    have hr : ∀ q ∈ r.inorder, q ∈ (node l p r).inorder := fun q hq =>
      List.mem_append_right _ (List.mem_cons_of_mem p hq)
    have hp : p ∈ (node l p r).inorder := mem_inorder_of_top rfl
    obtain ⟨hpar, hleft, hright, hsubl, hsubr⟩ := h
    exact ⟨(hparent p hp).trans hpar, (hlink _ p hp).trans hleft, (hlink _ p hp).trans hright,
      ihl hsubl (fun q hq => hparent q (hl q hq)) fun d q hq => hlink d q (hl q hq),
      ihr hsubr (fun q hq => hparent q (hr q hq)) fun d q hq => hlink d q (hr q hq)⟩

/-- The subtree is linked below another node. -/
theorem Sub.reparent (h : Sub t par sub) (hnodup : sub.inorder.Nodup) {new : Option P}
    (htop : ∀ p, sub.top = some p → t'.parent (some p) = new)
    (hparent : ∀ p ∈ sub.inorder, sub.top ≠ some p → t'.parent (some p) = t.parent (some p))
    (hlink : ∀ d, ∀ p ∈ sub.inorder, t'.link d (some p) = t.link d (some p)) : Sub t' new sub := by
  cases sub with
  | nil => trivial
  | node l p r =>
    have hp : p ∈ (node l p r).inorder := mem_inorder_of_top rfl
    obtain ⟨-, hleft, hright, hsubl, hsubr⟩ := h
    simp only [inorder, List.nodup_append, List.nodup_cons, List.mem_cons] at hnodup
    refine ⟨htop p rfl, (hlink _ p hp).trans hleft, (hlink _ p hp).trans hright, ?_, ?_⟩
    · refine hsubl.congr (fun q hq => hparent q (List.mem_append_left _ hq) ?_)
        fun d q hq => hlink d q (List.mem_append_left _ hq)
      intro heq
      exact hnodup.2.2 q hq p (.inl rfl) (Option.some.inj heq).symm
    · refine hsubr.congr (fun q hq => hparent q (List.mem_append_right _ (.tail p hq)) ?_)
        fun d q hq => hlink d q (List.mem_append_right _ (.tail p hq))
      intro heq
      exact hnodup.2.1.1 (Option.some.inj heq ▸ hq)

theorem Path.congr {x : Option P} (h : Path t x path) (hroot : t'.root = t.root)
    (hparent : ∀ p ∈ nodes path, t'.parent (some p) = t.parent (some p))
    (hlink : ∀ d, ∀ p ∈ nodes path, t'.link d (some p) = t.link d (some p)) : Path t' x path := by
  induction path generalizing x with
  | nil => exact hroot.trans h
  | cons f path ih =>
    simp only [nodes, List.flatMap_cons, List.cons_append, List.mem_cons, List.mem_append] at hparent hlink
    obtain ⟨hpar, hside, hopp, hsib, hpath⟩ := h
    exact ⟨(hparent f.p (.inl rfl)).trans hpar, (hlink _ f.p (.inl rfl)).trans hside,
      (hlink _ f.p (.inl rfl)).trans hopp,
      hsib.congr (fun q hq => hparent q (.inr (.inl hq))) fun d q hq => hlink d q (.inr (.inl hq)),
      ih hpath (fun q hq => hparent q (.inr (.inr hq))) fun d q hq => hlink d q (.inr (.inr hq))⟩

theorem above_mem {p : P} (h : above path = some p) : p ∈ nodes path := by
  cases path with
  | nil => cases h
  | cons f path =>
    obtain rfl := Option.some.inj h
    simp [nodes]

/-- Another pointer is put into the hole. -/
theorem Path.replaceChild {x : P} (h : Path t (some x) path) (hx : x ∉ nodes path)
    (hnodup : (nodes path).Nodup) (new : Option P) : Path (t.replaceChild (above path) (some x) new) new path := by
  cases path with
  | nil => exact rfl
  | cons f path =>
    simp only [nodes, List.flatMap_cons, List.cons_append, List.mem_cons, List.mem_append, not_or,
      List.nodup_cons] at hx hnodup
    obtain ⟨hpar, hside, hopp, hsib, hpath⟩ := h
    have hset : t.replaceChild (some f.p) (some x) new = t.setLink f.side (some f.p) new := by
      obtain ⟨side, p, sib⟩ := f
      cases side with
      | left => simp [Tree.replaceChild, hside]
      | right =>
        have hne : t.link .left (some p) ≠ some x := fun heq =>
          hx.2.1 (mem_inorder_of_top (hopp.symm.trans heq))
        simp [Tree.replaceChild, hne]
    have hother : ∀ d, ∀ q, q ≠ f.p → (t.setLink f.side (some f.p) new).link d (some q) =
        t.link d (some q) := fun d q hq => by simp [Tree.setLink_link, hq]
    rw [above, hset]
    refine ⟨hpar, by simp [Tree.setLink_link], ?_, ?_, ?_⟩
    · rw [Tree.setLink_link, if_neg fun hc => Side.opp_ne _ hc.1, hopp]
    · refine hsib.congr (fun q _ => rfl) fun d q hq => hother d q ?_
      rintro rfl
      exact hnodup.1.1 hq
    · refine hpath.congr rfl (fun q _ => rfl) fun d q hq => hother d q ?_
      rintro rfl
      exact hnodup.1.2 hq

section Rotate

variable {d : Side} {x y : P} {mid : Option P}

/-- A rotation puts the upper node below the lower one and gives it the inner subtree of that. -/
theorem rotate_steps (hparent : t.parent (some x) = par) (hlower : t.link d.opp (some x) = some y)
    (hinner : t.link d (some y) = mid) (hx : mid ≠ some x) : ∃ t₁ : Tree P K,
      rotate d t (some x) = ((t₁.replaceChild par (some x) (some y)).setLink d (some y)
        (some x)).setParent (some x) (some y) ∧ t₁.root = t.root ∧
      (∀ q, t₁.parent q = if q = some y then par else
        if mid ≠ none ∧ q = mid then some x else t.parent q) ∧
      ∀ e q, t₁.link e q = if e = d.opp ∧ q = some x then mid else t.link e q := by
  have hup : (if mid ≠ none then (t.setLink d.opp (some x) mid).setParent mid (some x)
      else t.setLink d.opp (some x) mid).parent (some x) = par := by
    split
    · rw [Tree.setParent_parent, if_neg (Ne.symm hx), Tree.setLink_parent, hparent]
    · exact hparent
  refine ⟨(if mid ≠ none then (t.setLink d.opp (some x) mid).setParent mid (some x)
    else t.setLink d.opp (some x) mid).setParent (some y) par, ?_, ?_, fun q => ?_, fun e q => ?_⟩
  · simp only [rotate, hlower, hinner, reduceCtorEq, if_false, hup]
  · split <;> rfl
  · rw [Tree.setParent_parent]
    by_cases hnil : mid = none <;> simp [hnil, Tree.setParent_parent]
  · split <;> exact Tree.setLink_link ..

/-- The pointers after a rotation: those of the two nodes, of the inner subtree and of the node above. -/
theorem rotate_pointers (hparent : t.parent (some x) = above path) (hlower : t.link d.opp (some x) = some y)
    (hinner : t.link d (some y) = mid) (hpath : Path t (some x) path) (hx : mid ≠ some x)
    (hmid : ∀ q ∈ nodes path, mid ≠ some q) (hxp : x ∉ nodes path) (hyp : y ∉ nodes path)
    (hnodup : (nodes path).Nodup) :
    Path (rotate d t (some x)) (some y) path ∧
      (∀ q, (rotate d t (some x)).parent q = if q = some x then some y else if q = some y then above path else
        if mid ≠ none ∧ q = mid then some x else t.parent q) ∧
      ∀ e q, q ∉ nodes path → (rotate d t (some x)).link e (some q) = if e = d ∧ q = y then some x else
        if e = d.opp ∧ q = x then mid else t.link e (some q) := by
  obtain ⟨t₁, hrotate, hroot, hparent₁, hlink₁⟩ := rotate_steps hparent hlower hinner hx
  have hpath₁ : Path t₁ (some x) path := by
    refine hpath.congr hroot (fun q hq => ?_) fun e q hq => ?_
    · have hqy : q ≠ y := fun heq => hyp (heq ▸ hq)
      rw [hparent₁, if_neg (by simpa using hqy), if_neg fun hc => hmid q hq hc.2.symm]
    · have hqx : q ≠ x := fun heq => hxp (heq ▸ hq)
      rw [hlink₁, if_neg fun hc => hqx (Option.some.inj hc.2)]
  rw [hrotate]
  refine ⟨?_, fun q => ?_, fun e q hq => ?_⟩
  · refine (hpath₁.replaceChild hxp hnodup (some y)).congr rfl (fun q hq => ?_) fun e q hq => ?_
    · have hqx : q ≠ x := fun heq => hxp (heq ▸ hq)
      rw [Tree.setParent_parent, if_neg (by simpa using hqx), Tree.setLink_parent]
    · have hqy : q ≠ y := fun heq => hyp (heq ▸ hq)
      rw [Tree.setParent_link, Tree.setLink_link, if_neg (by simp [hqy])]
  · rw [Tree.setParent_parent, Tree.setLink_parent, Tree.replaceChild_parent, hparent₁]
  · have habove : some q ≠ above path := fun heq => hq (above_mem heq.symm)
    rw [Tree.setParent_link, Tree.setLink_link, Tree.replaceChild_link _ (.inr habove), hlink₁]
    simp only [Option.some.injEq]

end Rotate

theorem Focus.rotated {d : Side} {a b c : Shape P} {x y : P} (h : Focus t (branch d a x (branch d b y c)) path) :
    Focus (rotate d t (some x)) (branch d (branch d a x b) y c) path := by
  obtain ⟨hsub, hpath, hnodup⟩ := h
  obtain ⟨hparx, hxa, hxy, hsuba, hsuby⟩ := sub_branch.mp hsub
  obtain ⟨hpary, hyb, hyc, hsubb, hsubc⟩ := sub_branch.mp hsuby
  rw [top_branch] at hxy hpath
  have hperm : (branch d a x (branch d b y c)).inorder.Perm
      (x :: (a.inorder ++ y :: (b.inorder ++ c.inorder))) :=
    (inorder_branch_perm ..).trans (((inorder_branch_perm ..).append_left _).cons x)
  have hdistinct := (hperm.append_right (nodes path)).nodup_iff.mp hnodup
  simp only [List.cons_append, List.append_assoc, List.nodup_cons, List.nodup_append, List.mem_cons,
    List.mem_append, not_or] at hdistinct
  obtain ⟨⟨hxa', hxy', hxb, hxc, hxp⟩, -, ⟨⟨hyb', hyc', hyp⟩, hbnodup, ⟨-, hpnodup, hcp⟩, hbcp⟩, hall⟩ :=
    hdistinct
  have hbx : b.top ≠ some x := fun heq => hxb (mem_inorder_of_top heq)
  have hby : b.top ≠ some y := fun heq => hyb' (mem_inorder_of_top heq)
  obtain ⟨hpath', hparent, hlink⟩ := rotate_pointers hparx hxy hyb hpath hbx
    (fun q hq heq => hbcp q (mem_inorder_of_top heq) q (.inr hq) rfl) hxp hyp hpnodup
  have hfar : ∀ q, q ≠ x → q ≠ y → b.top ≠ some q →
      (rotate d t (some x)).parent (some q) = t.parent (some q) := fun q hqx hqy hqb => by
    rw [hparent, if_neg (by simpa using hqx), if_neg (by simpa using hqy), if_neg fun hc => hqb hc.2.symm]
  have hfar' : ∀ q, q ≠ x → q ≠ y → q ∉ nodes path → ∀ e,
      (rotate d t (some x)).link e (some q) = t.link e (some q) := fun q hqx hqy hqp e => by
    rw [hlink e q hqp, if_neg fun hc => hqy hc.2, if_neg fun hc => hqx hc.2]
  refine ⟨sub_branch.mpr ⟨?_, ?_, ?_, sub_branch.mpr ⟨?_, ?_, ?_, ?_, ?_⟩, ?_⟩, ?_, ?_⟩
  · rw [hparent, if_neg (by simpa using Ne.symm hxy'), if_pos rfl]
  · rw [hlink d y hyp, if_pos ⟨rfl, rfl⟩, top_branch]
  · rw [hlink d.opp y hyp, if_neg fun hc => Side.opp_ne d hc.1, if_neg fun hc => hxy' hc.2.symm, hyc]
  · rw [hparent, if_pos rfl]
  · rw [hlink d x hxp, if_neg fun hc => hxy' hc.2, if_neg fun hc => Side.opp_ne d hc.1.symm, hxa]
  · rw [hlink d.opp x hxp, if_neg fun hc => hxy' hc.2, if_pos ⟨rfl, rfl⟩]
  · have hne : ∀ q ∈ a.inorder, q ≠ x ∧ q ≠ y := fun q hq =>
      ⟨fun heq => hxa' (heq ▸ hq), hall q hq y (.inl rfl)⟩
    refine hsuba.congr (fun q hq => hfar q (hne q hq).1 (hne q hq).2 fun heq => ?_)
      fun e q hq => hfar' q (hne q hq).1 (hne q hq).2 (fun hqp => ?_) e
    · exact hall q hq q (.inr (.inl (mem_inorder_of_top heq))) rfl
    · exact hall q hq q (.inr (.inr (.inr hqp))) rfl
  · have hne : ∀ q ∈ b.inorder, q ≠ x ∧ q ≠ y := fun q hq =>
      ⟨fun heq => hxb (heq ▸ hq), fun heq => hyb' (heq ▸ hq)⟩
    refine hsubb.reparent hbnodup (fun p hp => ?_) (fun q hq => hfar q (hne q hq).1 (hne q hq).2)
      fun e q hq => hfar' q (hne q hq).1 (hne q hq).2 (fun hqp => hbcp q hq q (.inr hqp) rfl) e
    have hpx : some p ≠ some x := fun heq => hbx (hp.trans heq)
    have hpy : some p ≠ some y := fun heq => hby (hp.trans heq)
    rw [hparent, if_neg hpx, if_neg hpy, if_pos ⟨by simp [hp], hp.symm⟩]
  · have hne : ∀ q ∈ c.inorder, q ≠ x ∧ q ≠ y := fun q hq =>
      ⟨fun heq => hxc (heq ▸ hq), fun heq => hyc' (heq ▸ hq)⟩
    refine hsubc.congr (fun q hq => hfar q (hne q hq).1 (hne q hq).2 fun heq => ?_)
      fun e q hq => hfar' q (hne q hq).1 (hne q hq).2 (hcp q hq q · rfl) e
    exact hbcp q (mem_inorder_of_top heq) q (.inl hq) rfl
  · rw [top_branch]
    exact hpath'
  · rw [inorder_rotate]
    exact hnodup

theorem Focus.rotated_opp {d : Side} {a b c : Shape P} {x y : P} (h : Focus t (branch d (branch d c y b) x a) path) :
    Focus (rotate d.opp t (some x)) (branch d c y (branch d b x a)) path := by
  rw [← branch_opp, ← branch_opp d b] at h
  have hrot := h.rotated
  rwa [branch_opp, branch_opp] at hrot

theorem rotate_eq (d : Side) (t : Tree P K) (node : Option P) :
    (rotate d t node).color = t.color ∧ (rotate d t node).key = t.key ∧ (rotate d t node).size = t.size := by
  simp only [rotate]
  split
  · exact ⟨rfl, rfl, rfl⟩
  · split <;> simp

@[simp] theorem rotate_color (d : Side) (t : Tree P K) (node : Option P) :
    (rotate d t node).color = t.color := (rotate_eq d t node).1

@[simp] theorem rotate_key (d : Side) (t : Tree P K) (node : Option P) :
    (rotate d t node).key = t.key := (rotate_eq d t node).2.1

@[simp] theorem rotate_size (d : Side) (t : Tree P K) (node : Option P) :
    (rotate d t node).size = t.size := (rotate_eq d t node).2.2

theorem rotate_of_none {d : Side} {node : Option P} (h : t.link d.opp node = none) : rotate d t node = t := by
  simp only [rotate, h, if_true]

/-- The sentinel has no children. -/
def Bare (t : Tree P K) : Prop := ∀ d, t.link d none = none

theorem Bare.setLink (h : Bare t) (d : Side) {p : Option P} (hp : p ≠ none) (q : Option P) :
    Bare (t.setLink d p q) := fun e => by
  rw [Tree.setLink_link, if_neg fun hc => hp hc.2.symm]
  exact h e

theorem Bare.setParent (h : Bare t) (p q : Option P) : Bare (t.setParent p q) := h

theorem Bare.setColor (h : Bare t) (p : Option P) (c : Color) : Bare (t.setColor p c) := h

theorem Bare.replaceChild (h : Bare t) (par old new : Option P) : Bare (t.replaceChild par old new) :=
  fun e => (t.replaceChild_link (.inl rfl) e).trans (h e)

theorem Bare.rotate (h : Bare t) (d : Side) (node : Option P) : Bare (rotate d t node) := by
  by_cases hnone : t.link d.opp node = none
  · rwa [rotate_of_none hnone]
  · have hnode : node ≠ none := by
      rintro rfl
      exact hnone (h _)
    simp only [RbTree.rotate, hnone, if_false]
    refine Bare.setParent (Bare.setLink (Bare.replaceChild (Bare.setParent ?_ _ _) _ _ _) d hnone _) _ _
    split
    · exact (h.setLink _ hnode _).setParent _ _
    · exact h.setLink _ hnode _

theorem focus_cons {s : Shape P} {f : Frame P} :
    Focus t s (f :: path) ↔ Focus t (branch f.side s f.p f.sib) path := by
  have hperm : (s.inorder ++ nodes (f :: path)).Perm
      ((branch f.side s f.p f.sib).inorder ++ nodes path) := by
    refine .trans ?_ ((inorder_branch_perm ..).symm.append_right _)
    simp only [nodes, List.flatMap_cons, List.cons_append, List.append_assoc]
    exact List.perm_middle
  constructor
  · rintro ⟨hsub, ⟨hpar, hside, hopp, hsib, hpath⟩, hnodup⟩
    exact ⟨sub_branch.mpr ⟨hpar, hside, hopp, hsub, hsib⟩, by rwa [top_branch], hperm.nodup_iff.mp hnodup⟩
  · rintro ⟨hsub, hpath, hnodup⟩
    obtain ⟨hpar, hside, hopp, hsubs, hsib⟩ := sub_branch.mp hsub
    rw [top_branch] at hpath
    exact ⟨hsubs, ⟨hpar, hside, hopp, hsib, hpath⟩, hperm.nodup_iff.mpr hnodup⟩

theorem focus_append {s : Shape P} {rest : List (Frame P)} :
    Focus t s (path ++ rest) ↔ Focus t (plug s path) rest := by
  induction path generalizing s with
  | nil => exact Iff.rfl
  | cons f path ih =>
    rw [List.cons_append, focus_cons, ih]
    exact Iff.rfl

theorem focus_plug {s : Shape P} : Focus t s path ↔ Focus t (plug s path) [] := by
  rw [← focus_append, List.append_nil]

theorem Focus.root {s : Shape P} (h : Focus t s path) : t.root = (plug s path).top :=
  (focus_plug.mp h).around

theorem top_plug_cons (path : List (Frame P)) (s : Shape P) (f : Frame P) :
    ∃ p ∈ nodes (f :: path), (plug s (f :: path)).top = some p := by
  induction path generalizing s f with
  | nil => exact ⟨f.p, by simp [nodes], by simp [plug]⟩
  | cons g path ih =>
    obtain ⟨p, hp, htop⟩ := ih (branch f.side s f.p f.sib) g
    refine ⟨p, ?_, htop⟩
    rw [nodes, List.flatMap_cons, List.mem_append]
    exact .inr hp

/-- The root is in the context, whatever is in the hole. -/
theorem top_plug_congr (s s' : Shape P) (f : Frame P) : (plug s (f :: path)).top = (plug s' (f :: path)).top := by
  induction path generalizing s s' f with
  | nil => simp [plug]
  | cons g path ih => exact ih _ _ g

/-- A node with one subtree is taken out of its place. -/
theorem Focus.spliceOut {d : Side} {s : Shape P} {x : P} (h : Focus t (branch d s x nil) path) :
    childOf t (some x) = s.top ∧ Focus (spliceOut t (some x)) s path := by
  obtain ⟨hsub, hpath, hnodup⟩ := h
  obtain ⟨hpar, hside, hopp, hsubs, -⟩ := sub_branch.mp hsub
  rw [top_branch] at hpath
  have hdistinct := ((inorder_branch_perm d s x nil).append_right (nodes path)).nodup_iff.mp hnodup
  simp only [inorder, List.append_nil, List.cons_append, List.nodup_cons, List.mem_append, not_or,
    List.nodup_append] at hdistinct
  obtain ⟨⟨hxs, hxp⟩, hsnodup, hpnodup, hsp⟩ := hdistinct
  have hchild : childOf t (some x) = s.top := by
    cases d with
    | left =>
      simp only [Side.opp, top] at hopp
      rw [childOf, hside, hopp]
      split
      · rfl
      · next hnone => exact (not_not.mp hnone).symm
    | right =>
      simp only [Side.opp, top] at hopp
      rw [childOf, hopp, hside]
      simp
  refine ⟨hchild, ?_⟩
  have hfar : ∀ q, s.top ≠ some q → (t.setParent s.top (above path)).parent (some q) = t.parent (some q) :=
    fun q hq => by rw [Tree.setParent_parent, if_neg (Ne.symm hq)]
  have hpath' : Path (t.setParent s.top (above path)) (some x) path :=
    hpath.congr rfl (fun q hq => hfar q fun heq => hsp q (mem_inorder_of_top heq) q hq rfl) fun _ _ _ => rfl
  simp only [RbTree.spliceOut, hchild, hpar]
  refine ⟨?_, hpath'.replaceChild hxp hpnodup s.top, List.nodup_append.mpr ⟨hsnodup, hpnodup, hsp⟩⟩
  refine hsubs.reparent hsnodup (fun q hq => ?_) (fun q hq hne => ?_) fun e q hq => ?_
  · rw [Tree.replaceChild_parent, Tree.setParent_parent, if_pos hq.symm]
  · rw [Tree.replaceChild_parent, hfar q hne]
  · refine Tree.replaceChild_link _ (.inr fun heq => ?_) e
    exact hsp q hq q (above_mem heq.symm) rfl

theorem Focus.congr {s : Shape P} (h : Focus t s path) (hlink : t'.link = t.link)
    (hparent : t'.parent = t.parent) (hroot : t'.root = t.root) : Focus t' s path :=
  ⟨h.sub.congr (fun _ _ => by rw [hparent]) fun _ _ _ => by rw [hlink],
    h.around.congr hroot (fun _ _ => by rw [hparent]) fun _ _ _ => by rw [hlink], h.nodup⟩

theorem Focus.setColor {s : Shape P} (h : Focus t s path) (p : Option P) (c : Color) :
    Focus (t.setColor p c) s path := h.congr rfl rfl rfl

theorem Focus.parent {d : Side} {a b : Shape P} {x : P} (h : Focus t (branch d a x b) path) :
    t.parent (some x) = above path := (sub_branch.mp h.sub).1

theorem Focus.link {d : Side} {a b : Shape P} {x : P} (h : Focus t (branch d a x b) path) :
    t.link d (some x) = a.top ∧ t.link d.opp (some x) = b.top :=
  ⟨(sub_branch.mp h.sub).2.1, (sub_branch.mp h.sub).2.2.1⟩

/-- The top of a subtree is the root when and only when there is nothing above it. -/
theorem Focus.ne_root {s : Shape P} {x : P} {f : Frame P} (h : Focus t s (f :: path))
    (hx : x ∈ s.inorder) : t.root ≠ some x := by
  obtain ⟨q, hq, htop⟩ := top_plug_cons path s f
  rw [h.root, htop]
  intro heq
  exact (List.nodup_append.mp h.nodup).2.2 x hx q hq (Option.some.inj heq).symm

/-- A pointer is set, unless it would be the one of the sentinel. -/
theorem setParent_of_ne_none (t : Tree P K) (p q r : Option P) :
    (if p ≠ none then t.setParent p q else t).parent r =
      if p ≠ none ∧ r = p then q else t.parent r := by
  by_cases hp : p = none <;> simp [hp, Tree.setParent_parent]

theorem setParent_of_ne_none_eq (t : Tree P K) (p q : Option P) :
    (if p ≠ none then t.setParent p q else t).link = t.link ∧
      (if p ≠ none then t.setParent p q else t).root = t.root ∧
      (if p ≠ none then t.setParent p q else t).color = t.color ∧
      (if p ≠ none then t.setParent p q else t).key = t.key ∧
      (if p ≠ none then t.setParent p q else t).size = t.size := by
  split <;> exact ⟨rfl, rfl, rfl, rfl, rfl⟩

/-- `substitute` with the parent of the erased node and its place in it. -/
theorem Focus.substitute_eq {l r : Shape P} {n s : P} (h : Focus t (node l n r) path)
    (hs : s ∉ (node l n r).inorder ++ nodes path) : ∃ t₁ t₂ : Tree P K,
      t₁ = (((t.setParent (some s) (above path)).setLink .left (some s) l.top).setLink .right (some s)
        r.top).setColor (some s) (t.color (some n)) ∧
      t₂ = (if l.top ≠ none then (t₁.replaceChild (above path) (some n) (some s)).setParent l.top (some s)
        else t₁.replaceChild (above path) (some n) (some s)) ∧
      substitute t (some n) (some s) =
        (if r.top ≠ none then t₂.setParent r.top (some s) else t₂) := by
  have hroot := h.root
  obtain ⟨⟨hpar, hleft, hright, -, -⟩, hpath, hnodup⟩ := h
  have hn : n ∈ (node l n r).inorder := mem_inorder_of_top rfl
  have hns : some n ≠ some s := fun heq => hs (List.mem_append_left _ (Option.some.inj heq ▸ hn))
  have hnp : n ∉ nodes path := fun hmem => (List.nodup_append.mp hnodup).2.2 n hn n hmem rfl
  obtain ⟨t₁, ht₁⟩ : ∃ t₁, t₁ = (((t.setParent (some s) (above path)).setLink .left (some s)
    l.top).setLink .right (some s) r.top).setColor (some s) (t.color (some n)) := ⟨_, rfl⟩
  refine ⟨t₁, _, ht₁, rfl, ?_⟩
  have hpar₁ : t₁.parent (some n) = above path := by
    rw [ht₁]
    simp [Tree.setParent_parent, hns, hpar]
  have hlink₁ : ∀ d, t₁.link d (some n) = t.link d (some n) := fun d => by
    rw [ht₁]
    simp [Tree.setLink_link, hns]
  have hstart : ((t.setParent (some s) (t.parent (some n))).setLink .left (some s)
      ((t.setParent (some s) (t.parent (some n))).link .left (some n))) =
      (t.setParent (some s) (above path)).setLink .left (some s) l.top := by
    rw [hpar, Tree.setParent_link, hleft]
  have hreplaced : ∀ d, (t₁.replaceChild (above path) (some n) (some s)).link d (some n) =
      t.link d (some n) := fun d => by
    rw [Tree.replaceChild_link _ (.inr fun heq => hnp (above_mem heq.symm)), hlink₁]
  have hright' : ((t.setParent (some s) (above path)).setLink .left (some s) l.top).link .right (some n) =
      r.top := by
    rw [Tree.setLink_link, if_neg (by simp), Tree.setParent_link, hright]
  simp only [substitute, hstart, hright', Tree.setLink_color, Tree.setParent_color, ← ht₁, hpar₁]
  have hroot₁ : t₁.root = t.root := by
    rw [ht₁]
    rfl
  cases path with
  | nil =>
    have hrootn : t₁.root = some n := hroot₁.trans hroot
    by_cases hl : l.top = none <;> by_cases hr : r.top = none <;>
      simp [above, Tree.replaceChild, Tree.setParent, hlink₁, hleft, hright, hl, hr, hrootn]
  | cons f path =>
    obtain ⟨q, hq, htop⟩ := top_plug_cons path (node l n r) f
    have hrootn : t₁.root ≠ some n := by
      rw [hroot₁, hroot, htop]
      rintro heq
      exact hnp (Option.some.inj heq ▸ hq)
    have hsame : ∀ old new, (t₁.replaceChild (above (f :: path)) old new).root = t₁.root := by
      intro old new
      by_cases hc : t₁.link .left (some f.p) = old <;> simp [Tree.replaceChild, above, hc]
    have hmid : (if above (f :: path) ≠ none then
        if t₁.link .left (above (f :: path)) = some n then
          t₁.setLink .left (above (f :: path)) (some s)
        else t₁.setLink .right (above (f :: path)) (some s)
      else t₁) = t₁.replaceChild (above (f :: path)) (some n) (some s) := by
      simp [Tree.replaceChild, above]
    rw [hmid]
    have hroot₂ := hsame (some n) (some s)
    generalize t₁.replaceChild (above (f :: path)) (some n) (some s) = t₂ at *
    by_cases hl : l.top = none <;> by_cases hr : r.top = none <;>
      simp [hreplaced, hleft, hright, hl, hr, hroot₂, hrootn]

theorem Focus.substitute {l r : Shape P} {n s : P} (h : Focus t (node l n r) path)
    (hs : s ∉ (node l n r).inorder ++ nodes path) : Focus (substitute t (some n) (some s)) (node l s r) path := by
  obtain ⟨t₁, t₂, ht₁, ht₂, heq⟩ := h.substitute_eq hs
  obtain ⟨⟨-, -, -, hsubl, hsubr⟩, hpath, hnodup⟩ := h
  simp only [inorder, List.mem_append, List.mem_cons, not_or] at hs
  obtain ⟨⟨hsl, hsn, hsr⟩, hsp⟩ := hs
  have hdistinct := hnodup
  simp only [inorder, List.append_assoc, List.cons_append, List.nodup_append, List.nodup_cons,
    List.mem_append, List.mem_cons, not_or] at hdistinct
  obtain ⟨hlnodup, ⟨⟨hnr, hnp⟩, hrnodup, hpnodup, hrp⟩, hlall⟩ := hdistinct
  have hfar₁ : ∀ q, q ≠ s → t₁.parent (some q) = t.parent (some q) ∧
      ∀ e, t₁.link e (some q) = t.link e (some q) := fun q hq => by
    rw [ht₁]
    simp [Tree.setParent_parent, Tree.setLink_link, hq]
  have hpath₁ : Path t₁ (some n) path :=
    hpath.congr (by rw [ht₁]; rfl) (fun q hq => (hfar₁ q fun hc => hsp (hc ▸ hq)).1)
      fun e q hq => (hfar₁ q fun hc => hsp (hc ▸ hq)).2 e
  have hpath₂ := hpath₁.replaceChild hnp hpnodup (some s)
  obtain ⟨hlink₂, hroot₂, -⟩ :=
    setParent_of_ne_none_eq (t₁.replaceChild (above path) (some n) (some s)) l.top (some s)
  obtain ⟨hlink₃, hroot₃, -⟩ := setParent_of_ne_none_eq t₂ r.top (some s)
  rw [← ht₂] at hlink₂ hroot₂
  rw [← heq] at hlink₃ hroot₃
  have hparent : ∀ q, (RbTree.substitute t (some n) (some s)).parent q =
      if r.top ≠ none ∧ q = r.top then some s else
      if l.top ≠ none ∧ q = l.top then some s else t₁.parent q := fun q => by
    rw [heq, setParent_of_ne_none, ht₂, setParent_of_ne_none, Tree.replaceChild_parent]
  have hlink : ∀ e q, q ∉ nodes path → (RbTree.substitute t (some n) (some s)).link e (some q) =
      t₁.link e (some q) := fun e q hq => by
    rw [hlink₃, hlink₂, Tree.replaceChild_link _ (.inr fun hc => hq (above_mem hc.symm))]
  have hstay : ∀ q, q ≠ s → l.top ≠ some q → r.top ≠ some q →
      (RbTree.substitute t (some n) (some s)).parent (some q) = t.parent (some q) := fun q hqs hql hqr => by
    rw [hparent, if_neg fun hc => hqr hc.2.symm, if_neg fun hc => hql hc.2.symm, (hfar₁ q hqs).1]
  refine ⟨⟨?_, ?_, ?_, ?_, ?_⟩, ?_, ?_⟩
  · rw [hparent, if_neg fun hc => hsr (mem_inorder_of_top hc.2.symm),
      if_neg fun hc => hsl (mem_inorder_of_top hc.2.symm), ht₁]
    simp [Tree.setParent_parent]
  · rw [hlink _ s hsp, ht₁]
    simp [Tree.setLink_link]
  · rw [hlink _ s hsp, ht₁]
    simp [Tree.setLink_link]
  · refine hsubl.reparent hlnodup (fun q hq => ?_) (fun q hq hne => ?_) fun e q hq => ?_
    · have hql := mem_inorder_of_top hq
      have hqr : r.top ≠ some q := fun hc => hlall q hql q (.inr (.inl (mem_inorder_of_top hc))) rfl
      rw [hparent, if_neg fun hc => hqr hc.2.symm, if_pos ⟨by simp [hq], hq.symm⟩]
    · exact hstay q (fun hc => hsl (hc ▸ hq)) hne fun hc =>
        hlall q hq q (.inr (.inl (mem_inorder_of_top hc))) rfl
    · rw [hlink e q fun hc => hlall q hq q (.inr (.inr hc)) rfl, (hfar₁ q fun hc => hsl (hc ▸ hq)).2]
  · refine hsubr.reparent hrnodup (fun q hq => ?_) (fun q hq hne => ?_) fun e q hq => ?_
    · rw [hparent, if_pos ⟨by simp [hq], hq.symm⟩]
    · exact hstay q (fun hc => hsr (hc ▸ hq))
        (fun hc => hlall q (mem_inorder_of_top hc) q (.inr (.inl hq)) rfl) hne
    · rw [hlink e q fun hc => hrp q hq q hc rfl, (hfar₁ q fun hc => hsr (hc ▸ hq)).2]
  · refine hpath₂.congr (hroot₃.trans hroot₂) (fun q hq => ?_) fun e q _ => by rw [hlink₃, hlink₂]
    rw [hparent, if_neg fun hc => hrp q (mem_inorder_of_top hc.2.symm) q hq rfl,
      if_neg fun hc => hlall q (mem_inorder_of_top hc.2.symm) q (.inr (.inr hq)) rfl,
      Tree.replaceChild_parent]
  · simp only [inorder, List.append_assoc, List.cons_append, List.nodup_append, List.nodup_cons,
      List.mem_append, List.mem_cons, not_or]
    refine ⟨hlnodup, ⟨⟨hsr, hsp⟩, hrnodup, hpnodup, hrp⟩, fun q hq p hp => ?_⟩
    rcases hp with rfl | hp
    · exact fun hc => hsl (hc ▸ hq)
    · exact hlall q hq p (.inr hp)

theorem Focus.substitute_rest {l r : Shape P} {n s : P} (h : Focus t (node l n r) path)
    (hs : s ∉ (node l n r).inorder ++ nodes path) (hbare : Bare t) :
    (RbTree.substitute t (some n) (some s)).color = (t.setColor (some s) (t.color (some n))).color ∧
      (RbTree.substitute t (some n) (some s)).key = t.key ∧ (RbTree.substitute t (some n) (some s)).size = t.size ∧
      Bare (RbTree.substitute t (some n) (some s)) := by
  obtain ⟨t₁, t₂, ht₁, ht₂, heq⟩ := h.substitute_eq hs
  obtain ⟨hlink₂, -, hcolor₂, hkey₂, hsize₂⟩ :=
    setParent_of_ne_none_eq (t₁.replaceChild (above path) (some n) (some s)) l.top (some s)
  obtain ⟨hlink₃, -, hcolor₃, hkey₃, hsize₃⟩ := setParent_of_ne_none_eq t₂ r.top (some s)
  rw [← ht₂] at hlink₂ hcolor₂ hkey₂ hsize₂
  rw [← heq] at hlink₃ hcolor₃ hkey₃ hsize₃
  have hbare₁ : Bare t₁ := by
    rw [ht₁]
    have hlinks := ((hbare.setParent (some s) (above path)).setLink .left (Option.some_ne_none s) l.top).setLink
      .right (Option.some_ne_none s) r.top
    exact hlinks.setColor _ _
  refine ⟨?_, ?_, ?_, fun d => ?_⟩
  · rw [hcolor₃, hcolor₂, Tree.replaceChild_color, ht₁]
    rfl
  · rw [hkey₃, hkey₂, Tree.replaceChild_key, ht₁]
    rfl
  · rw [hsize₃, hsize₂, Tree.replaceChild_size, ht₁]
    rfl
  · rw [hlink₃, hlink₂]
    exact hbare₁.replaceChild _ _ _ d

theorem spliceOut_eq (t : Tree P K) (succ : Option P) : (spliceOut t succ).color = t.color ∧
    (spliceOut t succ).key = t.key ∧ (spliceOut t succ).size = t.size := by
  simp [spliceOut]

theorem Bare.spliceOut (h : Bare t) (succ : Option P) : Bare (spliceOut t succ) :=
  (h.setParent _ _).replaceChild _ _ _

end PjProject.RbTree
