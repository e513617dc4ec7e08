import PjProject.RbTreeWalk

/-! What holds of a red-black tree after every run of insertions and erasures. The walks, the search, the
links and the size agree with the nodes that were inserted and not erased, whatever the colours are. -/

set_option linter.unusedSectionVars false

namespace PjProject.RbTree

open Shape

variable {P K : Type} [DecidableEq P]
variable {comp : K → K → Int} {bal bal' : Prop} {t : Tree P K} {s s' : State P K} {sh : Shape P} {a : Action P K}

/-- The step does not empty a place that must not be. -/
def StepKeeps (s : State P K) : Action P K → Prop
  | .erase n => keepsBalance s.tree n = true
  | _ => True

instance (s : State P K) : (a : Action P K) → Decidable (StepKeeps s a)
  | .erase n => inferInstanceAs (Decidable (keepsBalance s.tree n = true))
  | .insert _ => .isTrue trivial
  | .setKey _ _ => .isTrue trivial

theorem Inv.mono (h : Inv comp bal t sh) (himp : bal' → bal) : Inv comp bal' t sh :=
  ⟨h.focus, h.ascending, h.size, h.bare, h.null, h.root, fun hbal => h.balanced (himp hbal)⟩

theorem Inv.init (key : P → K) (color : P → Color) (link : Side → P → Option P) (parent : P → Option P) :
    Inv comp bal (init key color link parent) nil :=
  ⟨⟨trivial, rfl, List.nodup_nil⟩, .nil, rfl, fun _ => rfl, rfl, rfl, fun _ => ⟨trivial, 0, rfl⟩⟩

/-- A node that is not in the tree may get another key. -/
theorem Inv.setKey (h : Inv comp bal t sh) {p : P} (hp : p ∉ sh.inorder) (k : K) :
    Inv comp bal { t with key := Function.update t.key p k } sh := by
  refine ⟨h.focus.congr rfl rfl rfl, ?_, h.size, h.bare, h.null, h.root, h.balanced⟩
  refine h.ascending.imp_of_mem fun {q r} hq hr hlt => ?_
  simp only [Function.update_of_ne (fun hc : q = p => hp (hc ▸ hq)),
    Function.update_of_ne (fun hc : r = p => hp (hc ▸ hr))]
  exact hlt

/-- What one step keeps. The colours stay balanced unless it empties a place that must not be, and only
then. -/
theorem Inv.step (horder : IsOrder comp) (h : Inv comp bal s.tree sh) (hlive : sh.inorder.Perm s.live)
    (hstep : step comp s a = some s') :
    ∃ sh', Inv comp (bal ∧ StepKeeps s a) s'.tree sh' ∧ sh'.inorder.Perm s'.live ∧
      (bal → Balanced s'.tree.red sh' → StepKeeps s a) := by
  cases a with
  | insert e =>
    rcases h.insert horder e with ⟨-, hinsert⟩ | ⟨-, t', sh', hinsert, hinv, -, hperm⟩
    · simp only [RbTree.step, hinsert, Option.map_some, Option.some.injEq] at hstep
      subst hstep
      exact ⟨sh, h.mono And.left, hlive, fun _ _ => trivial⟩
    · simp only [RbTree.step, hinsert, Option.map_some, Option.some.injEq, if_true] at hstep
      subst hstep
      exact ⟨sh', hinv.mono And.left, hperm.trans (hlive.cons e), fun _ _ => trivial⟩
  | erase n =>
    simp only [RbTree.step, Option.ite_none_right_eq_some] at hstep
    obtain ⟨hn, hstep⟩ := hstep
    obtain ⟨t', sh', xs, ys, herase, hxs, hys, -, hinv, hexact⟩ := h.erase (hlive.mem_iff.mpr hn)
    simp only [herase, Option.map_some, Option.some.injEq] at hstep
    subst hstep
    refine ⟨sh', hinv, ?_, hexact⟩
    have hrest : (n :: sh'.inorder).Perm (n :: s.live.erase n) := by
      rw [hys]
      refine List.perm_middle.symm.trans ?_
      rw [← hxs]
      exact hlive.trans (List.perm_cons_erase hn)
    exact hrest.cons_inv
  | setKey p k =>
    simp only [RbTree.step, Option.ite_none_left_eq_some, Option.some.injEq] at hstep
    obtain ⟨hp, rfl⟩ := hstep
    exact ⟨sh, (h.setKey (fun hc => hp (hlive.mem_iff.mp hc)) k).mono And.left, hlive,
      fun _ _ => trivial⟩

/-- The tree is an ordered set of the live nodes, and no operation on it runs forever. -/
structure OrderedSet (comp : K → K → Int) (s : State P K) : Prop where
  order : ∃ order : List P, order.Perm s.live ∧ Ascending comp s.tree.key order ∧
    ascend s.tree = some order ∧ descend s.tree = some order.reverse
  find : ∀ k, ∃ r, find comp s.tree k = some r ∧
    ∀ p, r = some p ↔ p ∈ s.live ∧ comp k (s.tree.key p) = 0
  insert : ∀ p, ∃ t rv, insert comp s.tree p = some (t, rv) ∧ (rv = 0 ∨ rv = -1 ∧ t = s.tree) ∧
    (rv = -1 ↔ ∃ q ∈ s.live, comp (s.tree.key p) (s.tree.key q) = 0)
  erase : ∀ p ∈ s.live, ∃ t, erase s.tree p = some t
  size : s.tree.size = s.live.length
  linked : Linked s.tree s.live

theorem Linked.perm {ps qs : List P} (h : Linked t ps) (hperm : ps.Perm qs) : Linked t qs := by
  have hmem : ∀ p, p ∈ qs ↔ p ∈ ps := fun p => hperm.mem_iff.symm
  refine ⟨fun p => ?_, fun d p q hp hlink => ?_, fun p q hp hparent => ?_⟩
  · rw [hmem]
    exact h.root p
  · rw [hmem] at hp ⊢
    exact h.down d p q hp hlink
  · rw [hmem] at hp ⊢
    exact h.up p q hp hparent

theorem Inv.orderedSet (horder : IsOrder comp) (h : Inv comp bal s.tree sh)
    (hlive : sh.inorder.Perm s.live) : OrderedSet comp s := by
  refine ⟨⟨sh.inorder, hlive, h.ascending, h.ascend, h.descend⟩, fun k => ?_, fun p => ?_, fun p hp => ?_, ?_,
    h.linked.perm hlive⟩
  · obtain ⟨r, hfind, hr⟩ := h.find horder k
    exact ⟨r, hfind, fun p => (hr p).trans (and_congr_left fun _ => hlive.mem_iff)⟩
  · rcases h.insert horder p with ⟨⟨q, hq, heq⟩, hinsert⟩ | ⟨hne, t', sh', hinsert, -⟩
    · exact ⟨_, _, hinsert, .inr ⟨rfl, rfl⟩, fun _ => ⟨q, hlive.mem_iff.mp hq, heq⟩, fun _ => rfl⟩
    · refine ⟨t', 0, hinsert, .inl rfl, nofun, fun ⟨q, hq, heq⟩ => ?_⟩
      exact absurd heq (hne q (hlive.mem_iff.mpr hq))
  · obtain ⟨t', -, -, -, herase, -⟩ := h.erase (hlive.mem_iff.mpr hp)
    exact ⟨t', herase⟩
  · rw [h.size, hlive.length_eq]

/-- After every run the tree is an ordered set of the nodes that were inserted and not erased. -/
theorem orderedSet_of_run (horder : IsOrder comp) (key : P → K) (color : P → Color)
    (link : Side → P → Option P) (parent : P → Option P) {acts : List (Action P K)}
    (hrun : exec (step comp) (start (init key color link parent)) acts = some s) : OrderedSet comp s := by
  have hinv : ∃ sh, Inv comp False s.tree sh ∧ sh.inorder.Perm s.live := by
    refine exec_invariant (P := fun s => ∃ sh, Inv comp False s.tree sh ∧ sh.inorder.Perm s.live) ?_ ?_ hrun
    · rintro s a t ⟨sh, hs, hlive⟩ hstep
      obtain ⟨sh', hs', hlive', -⟩ := hs.step horder hlive hstep
      exact ⟨sh', hs'.mono False.elim, hlive'⟩
    · exact ⟨nil, Inv.init .., .refl _⟩
  obtain ⟨sh, hs, hlive⟩ := hinv
  exact hs.orderedSet horder hlive

theorem isOrder_sub : IsOrder (fun a b : Int => a - b) := ⟨fun _ _ => by omega, fun _ _ _ => by omega⟩

/-- Three keys in a tree, one of them inserted twice; a node with two children goes. -/
theorem orderedSet_erased :
    ∃ s, exec (step fun a b : Int => a - b)
        (start (init (fun p : Nat => (p : Int)) (fun _ => .red) (fun _ _ => none) fun _ => none))
        [.insert 5, .insert 3, .insert 8, .insert 3, .setKey 9 3, .insert 9, .erase 5, .insert 6] = some s ∧
      s.live = [6, 8, 3] ∧ ascend s.tree = some [3, 6, 8] ∧ OrderedSet (fun a b : Int => a - b) s := by
  have hsome := Option.some_get (x := exec (step fun a b : Int => a - b)
    (start (init (fun p : Nat => (p : Int)) (fun _ => .red) (fun _ _ => none) fun _ => none))
    [.insert 5, .insert 3, .insert 8, .insert 3, .setKey 9 3, .insert 9, .erase 5, .insert 6]) (by decide)
  exact ⟨_, hsome.symm, by decide, by decide, orderedSet_of_run isOrder_sub _ _ _ _ hsome.symm⟩

end PjProject.RbTree
