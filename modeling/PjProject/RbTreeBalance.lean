import PjProject.RbTreeSafety

/-! The balance of a red-black tree over its pointers, and the runs that keep it. `pj_rbtree_erase` tests
the colour of the node that takes the place of the erased one after it was overwritten, and it calls the
fix-up only for a child that is not the sentinel. A black node without children is then missed on the
paths through its place. -/

set_option linter.unusedSectionVars false

namespace PjProject.RbTree

open Shape

variable {P K : Type} [DecidableEq P]

/-- The nodes on the way down from a pointer to the sentinel that takes the given sides. -/
def wayDown (t : Tree P K) : Option P → List Side → Option (List P)
  | none, [] => some []
  | some p, d :: ds => (wayDown t (t.link d (some p)) ds).map (p :: ·)
  | _, _ => none

def blacks (t : Tree P K) (ps : List P) : Nat := ps.countP fun p => t.color (some p) = .black

structure RedBlack (t : Tree P K) : Prop where
  root : t.color t.root = .black
  noRed : ∀ ds ps, wayDown t t.root ds = some ps →
    ps.IsChain fun p q => t.color (some p) = .red → t.color (some q) = .black
  height : ∃ n, ∀ ds ps, wayDown t t.root ds = some ps → blacks t ps = n

variable {comp : K → K → Int} {bal : Prop} {t : Tree P K} {par : Option P} {s l r : Shape P} {p : P} {n : Nat}

theorem wayDown_head {x : Option P} {ds : List Side} {ps : List P} (h : wayDown t x ds = some ps) : ps.head? = x := by
  cases x with
  | none =>
    cases ds with
    | nil =>
      obtain rfl := Option.some.inj h
      rfl
    | cons d ds => cases h
  | some p =>
    cases ds with
    | nil => cases h
    | cons d ds =>
      obtain ⟨ps', -, rfl⟩ := Option.map_eq_some_iff.mp h
      rfl

theorem forall_wayDown_none {Q : List P → Prop} : (∀ ds ps, wayDown t none ds = some ps → Q ps) ↔ Q [] := by
  refine ⟨fun h => h [] [] rfl, fun hQ ds ps hps => ?_⟩
  have hhead := wayDown_head hps
  rw [List.head?_eq_none_iff] at hhead
  exact hhead ▸ hQ

theorem forall_wayDown_some {Q : List P → Prop} :
    (∀ ds ps, wayDown t (some p) ds = some ps → Q ps) ↔
      ∀ d ds ps, wayDown t (t.link d (some p)) ds = some ps → Q (p :: ps) := by
  constructor
  · intro h d ds ps hps
    exact h (d :: ds) (p :: ps) (by rw [wayDown, hps]; rfl)
  · intro h ds ps hps
    cases ds with
    | nil => cases hps
    | cons d ds =>
      obtain ⟨ps', hps', rfl⟩ := Option.map_eq_some_iff.mp hps
      exact h d ds ps' hps'

theorem forall_wayDown_node {Q : List P → Prop} (h : Sub t par (node l p r)) :
    (∀ ds ps, wayDown t (some p) ds = some ps → Q ps) ↔
      (∀ ds ps, wayDown t l.top ds = some ps → Q (p :: ps)) ∧
        ∀ ds ps, wayDown t r.top ds = some ps → Q (p :: ps) := by
  obtain ⟨-, hleft, hright, -, -⟩ := h
  rw [forall_wayDown_some, ← hleft, ← hright]
  exact ⟨fun hQ => ⟨hQ .left, hQ .right⟩, fun hQ d => by
    cases d
    · exact hQ.1
    · exact hQ.2⟩

theorem exists_wayDown (h : Sub t par s) : ∃ ds ps, wayDown t s.top ds = some ps := by
  induction s generalizing par with
  | nil => exact ⟨[], [], rfl⟩
  | node l p r ihl ihr =>
    obtain ⟨-, hleft, -, hl, -⟩ := h
    obtain ⟨ds, ps, hps⟩ := ihl hl
    exact ⟨.left :: ds, p :: ps, by rw [top, wayDown, hleft, hps]; rfl⟩

/-- One side of a node: what the paths through it say of its child. -/
theorem noRed_child (h : Sub t par s) (hnull : t.color none = .black) :
    (∀ ds ps, wayDown t s.top ds = some ps →
        (p :: ps).IsChain fun p q => t.color (some p) = .red → t.color (some q) = .black) ↔
      (∀ ds ps, wayDown t s.top ds = some ps →
        ps.IsChain fun p q => t.color (some p) = .red → t.color (some q) = .black) ∧
        (t.red (some p) → ¬ t.red s.top) := by
  simp only [List.isChain_cons]
  constructor
  · intro hall
    refine ⟨fun ds ps hps => (hall ds ps hps).2, fun hp hs => ?_⟩
    obtain ⟨ds, ps, hps⟩ := exists_wayDown h
    have hhead := wayDown_head hps
    cases htop : s.top with
    | none =>
      rw [htop] at hs
      exact absurd (hnull.symm.trans hs) (by decide)
    | some q =>
      rw [htop] at hs hhead
      exact absurd (((hall ds ps hps).1 q hhead hp).symm.trans hs) (by decide)
  · rintro ⟨hchain, hred⟩ ds ps hps
    refine ⟨fun q hq hp => Color.eq_black fun hqred => hred hp ?_, hchain ds ps hps⟩
    rw [← wayDown_head hps, Option.mem_def.mp hq]
    exact hqred

theorem forall_isChain_iff (h : Sub t par s) (hnull : t.color none = .black) :
    (∀ ds ps, wayDown t s.top ds = some ps →
      ps.IsChain fun p q => t.color (some p) = .red → t.color (some q) = .black) ↔ NoRedRed t.red s := by
  induction s generalizing par with
  | nil => simp [top, forall_wayDown_none, NoRedRed]
  | node l p r ihl ihr =>
    have hnode := h
    obtain ⟨-, -, -, hl, hr⟩ := h
    rw [top, forall_wayDown_node hnode, noRed_child hl hnull, noRed_child hr hnull, ihl hl, ihr hr, NoRedRed]
    tauto

theorem forall_blacks_iff (h : Sub t par s) :
    (∀ ds ps, wayDown t s.top ds = some ps → blacks t ps = n) ↔ BlackHeight t.red s n := by
  induction s generalizing par n with
  | nil =>
    rw [top, forall_wayDown_none, BlackHeight]
    exact eq_comm
  | node l p r ihl ihr =>
    have hnode := h
    obtain ⟨-, -, -, hl, hr⟩ := h
    rw [top, forall_wayDown_node hnode, BlackHeight]
    by_cases hp : t.color (some p) = .red
    · have hcons : ∀ ps, blacks t (p :: ps) = blacks t ps := fun ps => by simp [blacks, hp]
      simp only [hcons, Tree.red, hp, true_and, not_true_eq_false, false_and, or_false]
      rw [ihl hl, ihr hr]
    · have hcons : ∀ ps, blacks t (p :: ps) = blacks t ps + 1 := fun ps => by
        simp [blacks, Color.eq_black hp]
      simp only [hcons, Tree.red, hp, true_and, not_false_eq_true, false_and, false_or]
      constructor
      · rintro ⟨hleft, hright⟩
        obtain ⟨ds, ps, hps⟩ := exists_wayDown hl
        refine ⟨n - 1, by have := hleft ds ps hps; omega, (ihl hl).mp ?_, (ihr hr).mp ?_⟩
        · intro ds ps hps
          have := hleft ds ps hps
          omega
        · intro ds ps hps
          have := hright ds ps hps
          omega
      · rintro ⟨m, rfl, hleft, hright⟩
        exact ⟨fun ds ps hps => by rw [(ihl hl).mpr hleft ds ps hps],
          fun ds ps hps => by rw [(ihr hr).mpr hright ds ps hps]⟩

/-- The colours are balanced along the pointers when and only when they are in the tree that these make up. -/
theorem Inv.redBlack_iff (h : Inv comp bal t s) : RedBlack t ↔ Balanced t.red s := by
  have hroot : t.root = s.top := h.focus.root
  have hchain := forall_isChain_iff h.focus.sub h.null
  have hheight : ∀ n, _ := fun n => forall_blacks_iff h.focus.sub (n := n)
  rw [← hroot] at hchain hheight
  exact ⟨fun hrb => ⟨hchain.mp hrb.noRed, hrb.height.imp fun n => (hheight n).mp⟩,
    fun hbal => ⟨h.root, hchain.mpr hbal.noRed, hbal.height.imp fun n => (hheight n).mpr⟩⟩

theorem Inv.balance (h : Inv comp bal t s) (hrb : RedBlack t) : Inv comp True t s :=
  ⟨h.focus, h.ascending, h.size, h.bare, h.null, h.root, fun _ => h.redBlack_iff.mp hrb⟩

/-- The trees of a run are all balanced when and only when no erasure of it empties a place that must not
be. -/
theorem redBlack_run_iff (horder : IsOrder comp) (key : P → K) (color : P → Color)
    (link : Side → P → Option P) (parent : P → Option P) {acts : List (Action P K)} {u : State P K}
    (hrun : exec (step comp) (start (init key color link parent)) acts = some u) :
    (∀ n v, exec (step comp) (start (init key color link parent)) (acts.take n) = some v →
        RedBlack v.tree) ↔
      Meets (step comp) StepKeeps (start (init key color link parent)) acts := by
  have hinit : Inv comp True (init key color link parent) nil := Inv.init ..
  refine forall_take_iff_meets (P := fun s => ∃ sh, Inv comp False s.tree sh ∧ sh.inorder.Perm s.live) ?_
    ⟨nil, hinit.mono fun _ => trivial, .refl _⟩ (hinit.redBlack_iff.mpr (hinit.balanced trivial)) hrun
  rintro s a s' ⟨sh, hs, hlive⟩ hrb hstep
  obtain ⟨sh', hs', hlive', hexact⟩ := (hs.balance hrb).step horder hlive hstep
  refine ⟨⟨sh', hs'.mono False.elim, hlive'⟩, hs'.redBlack_iff.trans ⟨hexact trivial, fun hkeeps => ?_⟩⟩
  exact hs'.balanced ⟨trivial, hkeeps⟩

/-- A red node without children goes. -/
theorem redBlack_erase_red : ∃ u, exec (step fun a b : Int => a - b)
      (start (init (fun p : Nat => (p : Int)) (fun _ => .red) (fun _ _ => none) fun _ => none))
      [.insert 1, .insert 2, .insert 3, .insert 4, .erase 4] = some u ∧ RedBlack u.tree := by
  have hsome := Option.some_get (x := exec (step fun a b : Int => a - b)
    (start (init (fun p : Nat => (p : Int)) (fun _ => .red) (fun _ _ => none) fun _ => none))
    [.insert 1, .insert 2, .insert 3, .insert 4, .erase 4]) (by decide)
  exact ⟨_, hsome.symm, (redBlack_run_iff isOrder_sub _ _ _ _ hsome.symm).mpr (by decide) 5 _ hsome.symm⟩

/-- A black node without children goes, and the path to its place is one black node short. -/
theorem not_redBlack_erase_black : ¬ ∀ (acts : List (Action Nat Int)) u, exec (step fun a b : Int => a - b)
      (start (init (fun p : Nat => (p : Int)) (fun _ => .red) (fun _ _ => none) fun _ => none)) acts = some u →
      RedBlack u.tree := by
  intro hall
  have hsome := Option.some_get (x := exec (step fun a b : Int => a - b)
    (start (init (fun p : Nat => (p : Int)) (fun _ => .red) (fun _ _ => none) fun _ => none))
    [.insert 1, .insert 2, .insert 3, .insert 4, .erase 1]) (by decide)
  obtain ⟨n, hn⟩ := (hall _ _ hsome.symm).height
  have hshort := hn [.left] [2] (by decide)
  have hlong := hn [.right, .left] [2, 3] (by decide)
  exact absurd (hshort.trans hlong.symm) (by decide)

/-! The heights. -/

/-- The height of a node is that of the tree that it is the top of, without the node. -/
theorem height_eq {pick : Nat → Nat → Nat} {bound : Nat} (hzero : pick 0 0 = 0) (hbare : Bare t) (h : Sub t par s)
    (hbound : s.inorder.length < bound) : height pick t bound s.top = some (s.reach pick - 1) := by
  induction s generalizing par bound with
  | nil =>
    obtain ⟨bound, rfl⟩ := Nat.exists_eq_succ_of_ne_zero (Nat.ne_of_gt hbound)
    rw [top, height, hbare .left, hbare .right]
    exact congrArg some hzero
  | node l p r ihl ihr =>
    obtain ⟨bound, rfl⟩ := Nat.exists_eq_succ_of_ne_zero (Nat.ne_of_gt (Nat.zero_lt_of_lt hbound))
    obtain ⟨-, hleft, hright, hl, hr⟩ := h
    rw [inorder, List.length_append, List.length_cons] at hbound
    have hbelow (a : Shape P) (ha : height pick t bound a.top = some (a.reach pick - 1)) :
        (if a.top ≠ none then (height pick t bound a.top).map (· + 1) else some 0) = some (a.reach pick) := by
      cases a with
      | nil => rfl
      | node a q b =>
        rw [ha]
        rfl
    rw [top, height, hleft, hright]
    dsimp only
    rw [hbelow l (ihl hl (by omega)), hbelow r (ihr hr (by omega))]
    rfl

/-- In a run that keeps the balance the longest way down is at most twice the shortest one, and one more, and the tree
has all the nodes down to the shortest. -/
theorem heights_of_run (horder : IsOrder comp) (key : P → K) (color : P → Color) (link : Side → P → Option P)
    (parent : P → Option P) {acts : List (Action P K)} {u : State P K}
    (hrun : exec (step comp) (start (init key color link parent)) acts = some u)
    (hkeeps : Meets (step comp) StepKeeps (start (init key color link parent)) acts) :
    ∃ low high, minHeight u.tree = some low ∧ maxHeight u.tree = some high ∧ high ≤ 2 * low + 1 ∧
      (u.live ≠ [] → 2 ^ (low + 1) ≤ u.live.length + 1) := by
  have hinv : ∃ sh, Inv comp True u.tree sh ∧ sh.inorder.Perm u.live := by
    refine exec_invariant_of_meets (P := fun s => ∃ sh, Inv comp True s.tree sh ∧ sh.inorder.Perm s.live) ?_
      ⟨nil, Inv.init .., .refl _⟩ hkeeps hrun
    rintro s a s' ⟨sh, hs, hlive⟩ hstepKeeps hstep
    obtain ⟨sh', hs', hlive', -⟩ := hs.step horder hlive hstep
    exact ⟨sh', hs'.mono fun _ => ⟨trivial, hstepKeeps⟩, hlive'⟩
  obtain ⟨sh, hs, hlive⟩ := hinv
  have hroot : u.tree.root = sh.top := hs.focus.root
  have hbound : sh.inorder.length < u.tree.size + 1 := Nat.lt_succ_of_le (Nat.le_of_eq hs.size.symm)
  have hmin : (fun l r : Nat => if r < l then r else l) = min := by
    funext l r
    split <;> omega
  have hmax : (fun l r : Nat => if r < l then l else r) = max := by
    funext l r
    split <;> omega
  have htop : ¬ u.tree.red sh.top := fun hred => absurd ((hroot ▸ hs.root).symm.trans hred) (by decide)
  have hreach := (hs.balanced trivial).reach_le htop
  have hpow := two_pow_reach_le sh
  rw [minHeight, maxHeight, hroot, hmin, hmax]
  refine ⟨_, _, height_eq rfl hs.bare hs.focus.sub hbound, height_eq rfl hs.bare hs.focus.sub hbound, by omega, ?_⟩
  intro hne
  have hpos : 0 < sh.reach min := by
    cases sh with
    | nil => exact absurd hlive.nil_eq.symm hne
    | node l p r => exact Nat.succ_pos _
  rw [Nat.sub_add_cancel hpos, ← hlive.length_eq]
  exact hpow

theorem heights_erase_red : ∃ u low high, exec (step fun a b : Int => a - b)
      (start (init (fun p : Nat => (p : Int)) (fun _ => .red) (fun _ _ => none) fun _ => none))
      [.insert 1, .insert 2, .insert 3, .insert 4, .insert 5, .erase 4] = some u ∧
    minHeight u.tree = some low ∧ maxHeight u.tree = some high ∧ high ≤ 2 * low + 1 := by
  have hsome := Option.some_get (x := exec (step fun a b : Int => a - b)
    (start (init (fun p : Nat => (p : Int)) (fun _ => .red) (fun _ _ => none) fun _ => none))
    [.insert 1, .insert 2, .insert 3, .insert 4, .insert 5, .erase 4]) (by decide +kernel)
  obtain ⟨low, high, hlow, hhigh, hle, -⟩ := heights_of_run isOrder_sub _ _ _ _ hsome.symm (by decide +kernel)
  exact ⟨_, low, high, hsome.symm, hlow, hhigh, hle⟩

end PjProject.RbTree
