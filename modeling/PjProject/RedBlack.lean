import PjProject.BinaryTree

/-! Red and black trees. `red` says which nodes are red, and says it of a missing node too. The tree
around a subtree is described by the context alone: whether the subtree may have a red top, and how many
black nodes its paths must have. -/

namespace PjProject

open Shape

variable {P : Type}

def NoRedRed (red : Option P → Prop) : Shape P → Prop
  | nil => True
  | node l p r => NoRedRed red l ∧ NoRedRed red r ∧ (red (some p) → ¬ red l.top ∧ ¬ red r.top)

/-- Every path down to a missing node has `n` black nodes. -/
def BlackHeight (red : Option P → Prop) : Shape P → Nat → Prop
  | nil, n => n = 0
  | node l p r, n => (red (some p) ∧ BlackHeight red l n ∧ BlackHeight red r n) ∨
    (¬ red (some p) ∧ ∃ m, n = m + 1 ∧ BlackHeight red l m ∧ BlackHeight red r m)

def ContextNoRed (red : Option P → Prop) : List (Frame P) → Prop
  | [] => True
  | f :: path => NoRedRed red f.sib ∧ (red (some f.p) → ¬ red f.sib.top ∧ ¬ red (above path)) ∧
    ContextNoRed red path

/-- With `n` black nodes on every path from the hole on, there are `m` on every path. -/
def ContextHeight (red : Option P → Prop) : List (Frame P) → Nat → Nat → Prop
  | [], n, m => n = m
  | f :: path, n, m => BlackHeight red f.sib n ∧
    ((red (some f.p) ∧ ContextHeight red path n m) ∨ (¬ red (some f.p) ∧ ContextHeight red path (n + 1) m))

variable {red red' : Option P → Prop} {s : Shape P} {path : List (Frame P)} {n m : Nat}

theorem noRedRed_branch {d : Side} {a b : Shape P} {p : P} : NoRedRed red (branch d a p b) ↔
    NoRedRed red a ∧ NoRedRed red b ∧ (red (some p) → ¬ red a.top ∧ ¬ red b.top) := by
  cases d with
  | left => exact Iff.rfl
  | right =>
    simp only [branch, NoRedRed]
    constructor
    · rintro ⟨hb, ha, hred⟩
      exact ⟨ha, hb, fun hp => (hred hp).symm⟩
    · rintro ⟨ha, hb, hred⟩
      exact ⟨hb, ha, fun hp => (hred hp).symm⟩

theorem blackHeight_branch {d : Side} {a b : Shape P} {p : P} : BlackHeight red (branch d a p b) n ↔
    (red (some p) ∧ BlackHeight red a n ∧ BlackHeight red b n) ∨
      (¬ red (some p) ∧ ∃ m, n = m + 1 ∧ BlackHeight red a m ∧ BlackHeight red b m) := by
  cases d with
  | left => exact Iff.rfl
  | right =>
    simp only [branch, BlackHeight]
    rw [and_comm (a := BlackHeight red b n)]
    refine or_congr Iff.rfl (and_congr_right fun _ => exists_congr fun m => ?_)
    rw [and_comm (a := BlackHeight red b m)]

theorem noRedRed_plug (hnone : ¬ red none) : NoRedRed red (plug s path) ↔
    NoRedRed red s ∧ ContextNoRed red path ∧ (red s.top → ¬ red (above path)) := by
  induction path generalizing s with
  | nil => simp [plug, ContextNoRed, above, hnone]
  | cons f path ih =>
    rw [plug, ih, noRedRed_branch, top_branch, ContextNoRed, above]
    constructor
    · rintro ⟨⟨hs, hsib, hred⟩, hpath, hup⟩
      exact ⟨hs, ⟨hsib, fun hf => ⟨(hred hf).2, hup hf⟩, hpath⟩, fun htop hf => (hred hf).1 htop⟩
    · rintro ⟨hs, ⟨hsib, hred, hpath⟩, htop⟩
      exact ⟨⟨hs, hsib, fun hf => ⟨fun hst => htop hst hf, (hred hf).1⟩⟩, hpath, fun hf => (hred hf).2⟩

theorem blackHeight_plug : BlackHeight red (plug s path) m ↔
    ∃ n, BlackHeight red s n ∧ ContextHeight red path n m := by
  induction path generalizing s with
  | nil => simp [plug, ContextHeight]
  | cons f path ih =>
    rw [plug, ih]
    simp only [blackHeight_branch, ContextHeight]
    constructor
    · rintro ⟨n, ⟨hf, hs, hsib⟩ | ⟨hf, k, rfl, hs, hsib⟩, hpath⟩
      · exact ⟨n, hs, hsib, .inl ⟨hf, hpath⟩⟩
      · exact ⟨k, hs, hsib, .inr ⟨hf, hpath⟩⟩
    · rintro ⟨n, hs, hsib, ⟨hf, hpath⟩ | ⟨hf, hpath⟩⟩
      · exact ⟨n, .inl ⟨hf, hs, hsib⟩, hpath⟩
      · exact ⟨n + 1, .inr ⟨hf, n, rfl, hs, hsib⟩, hpath⟩

theorem BlackHeight.unique (hn : BlackHeight red s n) (hm : BlackHeight red s m) : n = m := by
  induction s generalizing n m with
  | nil => exact hn.trans hm.symm
  | node l p r ihl ihr =>
    rcases hn with ⟨hp, hn, -⟩ | ⟨hp, k, rfl, hn, -⟩ <;> rcases hm with ⟨hp', hm, -⟩ | ⟨hp', j, rfl, hm, -⟩
    · exact ihl hn hm
    · exact absurd hp hp'
    · exact absurd hp' hp
    · rw [ihl hn hm]

theorem top_congr (h : ∀ p ∈ s.inorder, red' (some p) ↔ red (some p)) (hnone : red' none ↔ red none) :
    red' s.top ↔ red s.top := by
  cases htop : s.top with
  | none => exact hnone
  | some p => exact h p (mem_inorder_of_top htop)

theorem NoRedRed.congr (hs : NoRedRed red s) (h : ∀ p ∈ s.inorder, red' (some p) ↔ red (some p))
    (hnone : red' none ↔ red none) : NoRedRed red' s := by
  induction s with
  | nil => trivial
  | node l p r ihl ihr =>
    have hl : ∀ q ∈ l.inorder, red' (some q) ↔ red (some q) := fun q hq =>
      h q (List.mem_append_left _ hq)
    have hr : ∀ q ∈ r.inorder, red' (some q) ↔ red (some q) := fun q hq =>
      h q (List.mem_append_right _ (List.mem_cons_of_mem p hq))
    obtain ⟨hnol, hnor, hred⟩ := hs
    refine ⟨ihl hnol hl, ihr hnor hr, fun hp => ?_⟩
    rw [top_congr hl hnone, top_congr hr hnone]
    exact hred ((h p (mem_inorder_of_top rfl)).mp hp)

theorem BlackHeight.congr (hs : BlackHeight red s n) (h : ∀ p ∈ s.inorder, red' (some p) ↔ red (some p)) :
    BlackHeight red' s n := by
  induction s generalizing n with
  | nil => exact hs
  | node l p r ihl ihr =>
    have hl : ∀ q ∈ l.inorder, red' (some q) ↔ red (some q) := fun q hq =>
      h q (List.mem_append_left _ hq)
    have hr : ∀ q ∈ r.inorder, red' (some q) ↔ red (some q) := fun q hq =>
      h q (List.mem_append_right _ (List.mem_cons_of_mem p hq))
    have hp := h p (mem_inorder_of_top rfl)
    rcases hs with ⟨hred, hsl, hsr⟩ | ⟨hblack, k, rfl, hsl, hsr⟩
    · exact .inl ⟨hp.mpr hred, ihl hsl hl, ihr hsr hr⟩
    · exact .inr ⟨fun hc => hblack (hp.mp hc), k, rfl, ihl hsl hl, ihr hsr hr⟩

theorem ContextNoRed.congr (hs : ContextNoRed red path)
    (h : ∀ p ∈ nodes path, red' (some p) ↔ red (some p)) (hnone : red' none ↔ red none) : ContextNoRed red' path := by
  induction path with
  | nil => trivial
  | cons f path ih =>
    simp only [nodes, List.flatMap_cons, List.cons_append, List.mem_cons, List.mem_append] at h
    obtain ⟨hsib, hred, hpath⟩ := hs
    have hpath' : ∀ p ∈ nodes path, red' (some p) ↔ red (some p) := fun p hp => h p (.inr (.inr hp))
    have hsib' : ∀ p ∈ f.sib.inorder, red' (some p) ↔ red (some p) := fun p hp => h p (.inr (.inl hp))
    refine ⟨hsib.congr hsib' hnone, fun hf => ?_, ih hpath hpath'⟩
    rw [top_congr hsib' hnone]
    refine ⟨(hred ((h f.p (.inl rfl)).mp hf)).1, fun hup => (hred ((h f.p (.inl rfl)).mp hf)).2 ?_⟩
    cases path with
    | nil => exact hnone.mp hup
    | cons g path => exact (hpath' g.p (by simp [nodes])).mp hup

theorem ContextHeight.congr (hs : ContextHeight red path n m)
    (h : ∀ p ∈ nodes path, red' (some p) ↔ red (some p)) : ContextHeight red' path n m := by
  induction path generalizing n with
  | nil => exact hs
  | cons f path ih =>
    simp only [nodes, List.flatMap_cons, List.cons_append, List.mem_cons, List.mem_append] at h
    have hf := h f.p (.inl rfl)
    have hpath' : ∀ p ∈ nodes path, red' (some p) ↔ red (some p) := fun p hp => h p (.inr (.inr hp))
    obtain ⟨hsib, hrest⟩ := hs
    refine ⟨hsib.congr fun p hp => h p (.inr (.inl hp)), ?_⟩
    rcases hrest with ⟨hred, hpath⟩ | ⟨hblack, hpath⟩
    · exact .inl ⟨hf.mpr hred, ih hpath hpath'⟩
    · exact .inr ⟨fun hc => hblack (hf.mp hc), ih hpath hpath'⟩

theorem NoRedRed.blacken {l r : Shape P} {p : P} (hs : NoRedRed red (node l p r))
    (hp : ¬ red' (some p)) (h : ∀ q, q ∈ l.inorder ∨ q ∈ r.inorder → (red' (some q) ↔ red (some q)))
    (hnone : red' none ↔ red none) : NoRedRed red' (node l p r) :=
  ⟨hs.1.congr (fun q hq => h q (.inl hq)) hnone, hs.2.1.congr (fun q hq => h q (.inr hq)) hnone,
    fun hc => absurd hc hp⟩

theorem BlackHeight.blacken {l r : Shape P} {p : P} (hs : BlackHeight red (node l p r) n)
    (hred : red (some p)) (hp : ¬ red' (some p))
    (h : ∀ q, q ∈ l.inorder ∨ q ∈ r.inorder → (red' (some q) ↔ red (some q))) :
    BlackHeight red' (node l p r) (n + 1) := by
  rcases hs with ⟨-, hl, hr⟩ | ⟨hblack, -⟩
  · exact .inr ⟨hp, n, rfl, hl.congr fun q hq => h q (.inl hq), hr.congr fun q hq => h q (.inr hq)⟩
  · exact absurd hred hblack

/-- The tree is balanced, except that the hole may have a red top below a red node. -/
structure NearBalanced (red : Option P → Prop) (s : Shape P) (path : List (Frame P)) : Prop where
  sub : NoRedRed red s
  context : ContextNoRed red path
  height : ∃ n m, BlackHeight red s n ∧ ContextHeight red path n m

structure Balanced (red : Option P → Prop) (s : Shape P) : Prop where
  noRed : NoRedRed red s
  height : ∃ n, BlackHeight red s n

/-- Every way down passes all the black nodes. -/
theorem BlackHeight.le_reach (hs : BlackHeight red s n) : n ≤ s.reach min := by
  induction s generalizing n with
  | nil => exact Nat.le_of_eq hs
  | node l p r ihl ihr =>
    rw [reach]
    rcases hs with ⟨-, hl, hr⟩ | ⟨-, m, rfl, hl, hr⟩
    · exact Nat.le_succ_of_le (Nat.le_min.mpr ⟨ihl hl, ihr hr⟩)
    · exact Nat.succ_le_succ (Nat.le_min.mpr ⟨ihl hl, ihr hr⟩)

/-- And at most one red node above each of them. -/
theorem NoRedRed.reach_le (hs : NoRedRed red s) (hn : BlackHeight red s n) :
    s.reach max ≤ 2 * n + 1 ∧ (¬ red s.top → s.reach max ≤ 2 * n) := by
  induction s generalizing n with
  | nil => exact ⟨Nat.zero_le _, fun _ => Nat.zero_le _⟩
  | node l p r ihl ihr =>
    obtain ⟨hl, hr, hred⟩ := hs
    rw [reach]
    rcases hn with ⟨hp, hnl, hnr⟩ | ⟨hp, m, rfl, hnl, hnr⟩
    · have hleft := (ihl hl hnl).2 (hred hp).1
      have hright := (ihr hr hnr).2 (hred hp).2
      exact ⟨Nat.succ_le_succ (Nat.max_le.mpr ⟨hleft, hright⟩), fun htop => absurd hp htop⟩
    · have hleft := (ihl hl hnl).1
      have hright := (ihr hr hnr).1
      omega

theorem Balanced.reach_le (h : Balanced red s) (htop : ¬ red s.top) : s.reach max ≤ 2 * s.reach min := by
  obtain ⟨n, hn⟩ := h.height
  have hlow := hn.le_reach
  have hhigh := (h.noRed.reach_le hn).2 htop
  omega

theorem NearBalanced.balanced (h : NearBalanced red s path) (hnone : ¬ red none)
    (hup : ¬ red (above path)) : Balanced red (plug s path) := by
  obtain ⟨n, m, hs, hpath⟩ := h.height
  exact ⟨(noRedRed_plug hnone).mpr ⟨h.sub, h.context, fun _ => hup⟩, m, blackHeight_plug.mpr ⟨n, hs, hpath⟩⟩

section Insert

variable {d : Side} {a b : Shape P} {x : P} {f g : Frame P}

theorem NearBalanced.grandparent (h : NearBalanced red s (f :: g :: path)) (hf : red (some f.p)) :
    ¬ red (some g.p) ∧ ¬ red f.sib.top ∧ NoRedRed red f.sib ∧ NoRedRed red g.sib ∧
      ContextNoRed red path ∧ ∃ n m, BlackHeight red s n ∧ BlackHeight red f.sib n ∧
        BlackHeight red g.sib n ∧ ContextHeight red path (n + 1) m := by
  obtain ⟨-, ⟨hfsib, hfred, hgsib, hgred, hpath⟩, n, m, hs, hf', hrest⟩ := h
  have hg := (hfred hf).2
  simp only [above] at hg
  refine ⟨hg, (hfred hf).1, hfsib, hgsib, hpath, n, m, hs, hf', ?_⟩
  rcases hrest with ⟨-, hg', hrest'⟩ | ⟨hc, -⟩
  · rcases hrest' with ⟨hc, -⟩ | ⟨-, hpath'⟩
    · exact absurd hc hg
    · exact ⟨hg', hpath'⟩
  · exact absurd hf hc

theorem NearBalanced.recolor (red' : Option P → Prop) (h : NearBalanced red s (f :: g :: path)) (hf : red (some f.p))
    {l r : Shape P} {u : P} (huncle : g.sib = node l u r) (hu : red (some u)) (hf' : ¬ red' (some f.p))
    (hu' : ¬ red' (some u)) (hg' : red' (some g.p)) (hnone : red' none ↔ red none)
    (hsame : ∀ q, q ∈ s.inorder ∨ q ∈ f.sib.inorder ∨ q ∈ l.inorder ∨ q ∈ r.inorder ∨ q ∈ nodes path →
      (red' (some q) ↔ red (some q))) :
    NearBalanced red' (branch g.side (branch f.side s f.p f.sib) g.p g.sib) path := by
  obtain ⟨-, -, hfsib, hgsib, hpath, n, m, hs, hfn, hgn, hcontext⟩ := h.grandparent hf
  rw [huncle] at hgsib hgn ⊢
  have hsib : ∀ q, q ∈ l.inorder ∨ q ∈ r.inorder → (red' (some q) ↔ red (some q)) := fun q hq =>
    hsame q (.inr (.inr (hq.elim .inl fun hr => .inr (.inl hr))))
  have hpath' : ∀ q ∈ nodes path, red' (some q) ↔ red (some q) := fun q hq =>
    hsame q (.inr (.inr (.inr (.inr hq))))
  refine ⟨?_, hpath.congr hpath' hnone, n + 1, m, ?_, hcontext.congr hpath'⟩
  · refine noRedRed_branch.mpr ⟨noRedRed_branch.mpr ⟨?_, ?_, fun hc => absurd hc hf'⟩, ?_, fun _ => ?_⟩
    · exact h.sub.congr (fun q hq => hsame q (.inl hq)) hnone
    · exact hfsib.congr (fun q hq => hsame q (.inr (.inl hq))) hnone
    · exact hgsib.blacken hu' hsib hnone
    · rw [top_branch]
      exact ⟨hf', hu'⟩
  · refine blackHeight_branch.mpr (.inl ⟨hg', blackHeight_branch.mpr (.inr ⟨hf', n, rfl, ?_, ?_⟩), ?_⟩)
    · exact hs.congr fun q hq => hsame q (.inl hq)
    · exact hfn.congr fun q hq => hsame q (.inr (.inl hq))
    · exact hgn.blacken hu hu' hsib

/-- One rotation: the parent turns black and the grandparent red. -/
theorem NearBalanced.outer (red' : Option P → Prop) (h : NearBalanced red s (f :: g :: path)) (hf : red (some f.p))
    (huncle : ¬ red g.sib.top) (hf' : ¬ red' (some f.p)) (hg' : red' (some g.p)) (hnone : red' none ↔ red none)
    (hsame : ∀ q, q ∈ s.inorder ∨ q ∈ f.sib.inorder ∨ q ∈ g.sib.inorder ∨ q ∈ nodes path →
      (red' (some q) ↔ red (some q))) (e : Side) :
    NearBalanced red' s (⟨d, f.p, branch e f.sib g.p g.sib⟩ :: path) := by
  obtain ⟨-, hftop, hfsib, hgsib, hpath, n, m, hs, hfn, hgn, hcontext⟩ := h.grandparent hf
  have hf₁ : ∀ q ∈ f.sib.inorder, red' (some q) ↔ red (some q) := fun q hq => hsame q (.inr (.inl hq))
  have hg₁ : ∀ q ∈ g.sib.inorder, red' (some q) ↔ red (some q) := fun q hq =>
    hsame q (.inr (.inr (.inl hq)))
  have hpath' : ∀ q ∈ nodes path, red' (some q) ↔ red (some q) := fun q hq =>
    hsame q (.inr (.inr (.inr hq)))
  refine ⟨h.sub.congr (fun q hq => hsame q (.inl hq)) hnone,
    ⟨noRedRed_branch.mpr ⟨hfsib.congr hf₁ hnone, hgsib.congr hg₁ hnone, fun _ => ?_⟩,
      fun hc => absurd hc hf', hpath.congr hpath' hnone⟩, n, m, hs.congr fun q hq => hsame q (.inl hq),
    blackHeight_branch.mpr (.inl ⟨hg', hfn.congr hf₁, hgn.congr hg₁⟩), .inr ⟨hf', hcontext.congr hpath'⟩⟩
  rw [top_congr hf₁ hnone, top_congr hg₁ hnone]
  exact ⟨hftop, huncle⟩

/-- Two rotations: the node turns black and the grandparent red. -/
theorem NearBalanced.inner (red' : Option P → Prop) (h : NearBalanced red (branch d a x b) (f :: g :: path))
    (hf : red (some f.p)) (hx : red (some x)) (huncle : ¬ red g.sib.top) (hx' : ¬ red' (some x))
    (hf' : red' (some f.p)) (hg' : red' (some g.p)) (hnone : red' none ↔ red none)
    (hsame : ∀ q, q ∈ a.inorder ∨ q ∈ b.inorder ∨ q ∈ f.sib.inorder ∨ q ∈ g.sib.inorder ∨
      q ∈ nodes path → (red' (some q) ↔ red (some q))) (e : Side) :
    NearBalanced red' (branch d f.sib f.p a) (⟨e, x, branch d b g.p g.sib⟩ :: path) := by
  obtain ⟨-, hftop, hfsib, hgsib, hpath, n, m, hs, hfn, hgn, hcontext⟩ := h.grandparent hf
  obtain ⟨hnoa, hnob, hxred⟩ := noRedRed_branch.mp h.sub
  have ha₁ : ∀ q ∈ a.inorder, red' (some q) ↔ red (some q) := fun q hq => hsame q (.inl hq)
  have hb₁ : ∀ q ∈ b.inorder, red' (some q) ↔ red (some q) := fun q hq => hsame q (.inr (.inl hq))
  have hf₁ : ∀ q ∈ f.sib.inorder, red' (some q) ↔ red (some q) := fun q hq =>
    hsame q (.inr (.inr (.inl hq)))
  have hg₁ : ∀ q ∈ g.sib.inorder, red' (some q) ↔ red (some q) := fun q hq =>
    hsame q (.inr (.inr (.inr (.inl hq))))
  have hpath' : ∀ q ∈ nodes path, red' (some q) ↔ red (some q) := fun q hq =>
    hsame q (.inr (.inr (.inr (.inr hq))))
  obtain ⟨han, hbn⟩ : BlackHeight red a n ∧ BlackHeight red b n := by
    rcases blackHeight_branch.mp hs with ⟨-, han, hbn⟩ | ⟨hc, -⟩
    · exact ⟨han, hbn⟩
    · exact absurd hx hc
  refine ⟨noRedRed_branch.mpr ⟨hfsib.congr hf₁ hnone, hnoa.congr ha₁ hnone, fun _ => ?_⟩,
    ⟨noRedRed_branch.mpr ⟨hnob.congr hb₁ hnone, hgsib.congr hg₁ hnone, fun _ => ?_⟩,
      fun hc => absurd hc hx', hpath.congr hpath' hnone⟩, n, m,
    blackHeight_branch.mpr (.inl ⟨hf', hfn.congr hf₁, han.congr ha₁⟩),
    blackHeight_branch.mpr (.inl ⟨hg', hbn.congr hb₁, hgn.congr hg₁⟩), .inr ⟨hx', hcontext.congr hpath'⟩⟩
  · rw [top_congr hf₁ hnone, top_congr ha₁ hnone]
    exact ⟨hftop, (hxred hx).1⟩
  · rw [top_congr hb₁ hnone, top_congr hg₁ hnone]
    exact ⟨(hxred hx).2, huncle⟩

end Insert

section Erase

variable {d : Side} {c : Shape P} {y : P}

theorem BlackHeight.nil_of_black (hs : BlackHeight red s 0) (htop : ¬ red s.top) : s = nil := by
  cases s with
  | nil => rfl
  | node l p r =>
    rcases hs with ⟨hp, -⟩ | ⟨-, m, hm, -⟩
    · exact absurd hp htop
    · omega

/-- What is known of a balanced tree at a node with one subtree: the subtree has no black node. -/
theorem Balanced.at_splice (h : Balanced red (plug (branch d c y nil) path)) (hnone : ¬ red none) :
    NoRedRed red c ∧ ContextNoRed red path ∧ (red (some y) → ¬ red c.top ∧ ¬ red (above path)) ∧
      BlackHeight red c 0 ∧
      ∃ m, (red (some y) ∧ ContextHeight red path 0 m) ∨ (¬ red (some y) ∧ ContextHeight red path 1 m) := by
  obtain ⟨hsub, hcontext, hup⟩ := (noRedRed_plug hnone).mp h.noRed
  obtain ⟨hc, -, hy⟩ := noRedRed_branch.mp hsub
  obtain ⟨m, hm⟩ := h.height
  obtain ⟨n, hn, hpath⟩ := blackHeight_plug.mp hm
  rw [top_branch] at hup
  refine ⟨hc, hcontext, fun hred => ⟨(hy hred).1, hup hred⟩, ?_⟩
  rcases blackHeight_branch.mp hn with ⟨hred, hcn, hnil⟩ | ⟨hblack, k, rfl, hck, hnil⟩
  · obtain rfl : n = 0 := hnil
    exact ⟨hcn, m, .inl ⟨hred, hpath⟩⟩
  · obtain rfl : k = 0 := hnil
    exact ⟨hck, m, .inr ⟨hblack, hpath⟩⟩

/-- A red node with one subtree has none, and it may go. -/
theorem Balanced.splice_red (h : Balanced red (plug (branch d c y nil) path)) (hnone : ¬ red none)
    (hy : red (some y)) : c = nil ∧ Balanced red (plug c path) := by
  obtain ⟨hc, hcontext, hred, hheight, m, hpath⟩ := h.at_splice hnone
  obtain rfl := hheight.nil_of_black (hred hy).1
  refine ⟨rfl, (noRedRed_plug hnone).mpr ⟨trivial, hcontext, fun hc => absurd hc hnone⟩, ?_⟩
  rcases hpath with ⟨-, hpath⟩ | ⟨hblack, -⟩
  · exact ⟨m, blackHeight_plug.mpr ⟨0, rfl, hpath⟩⟩
  · exact absurd hy hblack

/-- A black node with one subtree may go when the top of the subtree, which is red, turns black. -/
theorem Balanced.splice_black (h : Balanced red (plug (branch d c y nil) path)) (hnone : ¬ red none)
    (hy : ¬ red (some y)) {l r : Shape P} {z : P} (hc : c = node l z r) : red (some z) ∧
      ∀ red' : Option P → Prop, ¬ red' (some z) → (red' none ↔ red none) →
        (∀ q, q ∈ l.inorder ∨ q ∈ r.inorder ∨ q ∈ nodes path → (red' (some q) ↔ red (some q))) →
        Balanced red' (plug c path) := by
  subst hc
  obtain ⟨hnored, hcontext, -, hheight, m, hpath⟩ := h.at_splice hnone
  have hz : red (some z) := by
    rcases hheight with ⟨hz, -⟩ | ⟨-, k, hk, -⟩
    · exact hz
    · omega
  refine ⟨hz, fun red' hz' hnone' hsame => ?_⟩
  have hpath' : ContextHeight red path 1 m := by
    rcases hpath with ⟨hred, -⟩ | ⟨-, hpath⟩
    · exact absurd hred hy
    · exact hpath
  have hsub : ∀ q, q ∈ l.inorder ∨ q ∈ r.inorder → (red' (some q) ↔ red (some q)) := fun q hq =>
    hsame q (hq.elim .inl fun hr => .inr (.inl hr))
  have hrest : ∀ q ∈ nodes path, red' (some q) ↔ red (some q) := fun q hq => hsame q (.inr (.inr hq))
  refine ⟨(noRedRed_plug fun hc => hnone (hnone'.mp hc)).mpr
    ⟨hnored.blacken hz' hsub hnone', hcontext.congr hrest hnone', fun hc => absurd hc hz'⟩, m, ?_⟩
  exact blackHeight_plug.mpr ⟨1, hheight.blacken hz hz' hsub, hpath'.congr hrest⟩

/-- A black node with one subtree is missed when nothing else changes, unless it is at the top. -/
theorem Balanced.splice_short (h : Balanced red (plug (branch d c y nil) path)) (hnone : ¬ red none)
    (hy : ¬ red (some y)) (hpath : path ≠ []) : ¬ Balanced red (plug c path) := by
  obtain ⟨-, -, -, hheight, m, hcontext⟩ := h.at_splice hnone
  rintro ⟨-, k, hk⟩
  obtain ⟨n, hn, hcontext'⟩ := blackHeight_plug.mp hk
  obtain rfl := hn.unique hheight
  cases path with
  | nil => exact hpath rfl
  | cons f path =>
    rcases hcontext with ⟨hred, -⟩ | ⟨-, hsib, -⟩
    · exact hy hred
    · exact absurd (hsib.unique hcontext'.1) (by decide)

theorem Balanced.rename {l r : Shape P} {p q : P} (h : Balanced red (plug (node l p r) path))
    (hnone : ¬ red none) (hq : red' (some q) ↔ red (some p)) (hnone' : red' none ↔ red none)
    (hsame : ∀ x, x ∈ l.inorder ∨ x ∈ r.inorder ∨ x ∈ nodes path → (red' (some x) ↔ red (some x))) :
    Balanced red' (plug (node l q r) path) := by
  have hl : ∀ x ∈ l.inorder, red' (some x) ↔ red (some x) := fun x hx => hsame x (.inl hx)
  have hr : ∀ x ∈ r.inorder, red' (some x) ↔ red (some x) := fun x hx => hsame x (.inr (.inl hx))
  have hpath : ∀ x ∈ nodes path, red' (some x) ↔ red (some x) := fun x hx => hsame x (.inr (.inr hx))
  obtain ⟨⟨hnol, hnor, hred⟩, hcontext, hup⟩ := (noRedRed_plug hnone).mp h.noRed
  obtain ⟨m, hm⟩ := h.height
  obtain ⟨n, hn, hheight⟩ := blackHeight_plug.mp hm
  have habove : red' (above path) ↔ red (above path) := by
    cases path with
    | nil => exact hnone'
    | cons f path => exact hpath f.p (by simp [nodes])
  refine ⟨(noRedRed_plug fun hc => hnone (hnone'.mp hc)).mpr
    ⟨⟨hnol.congr hl hnone', hnor.congr hr hnone', fun hc => ?_⟩, hcontext.congr hpath hnone', fun hc => ?_⟩, m, ?_⟩
  · rw [top_congr hl hnone', top_congr hr hnone']
    exact hred (hq.mp hc)
  · rw [habove]
    exact hup (hq.mp hc)
  · refine blackHeight_plug.mpr ⟨n, ?_, hheight.congr hpath⟩
    rcases hn with ⟨hp, hln, hrn⟩ | ⟨hp, k, rfl, hlk, hrk⟩
    · exact .inl ⟨hq.mpr hp, hln.congr hl, hrn.congr hr⟩
    · exact .inr ⟨fun hc => hp (hq.mp hc), k, rfl, hlk.congr hl, hrk.congr hr⟩

end Erase

end PjProject
