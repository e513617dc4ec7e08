import Mathlib

/-! Binary trees of nodes, without keys or colours, and their contexts. A definition or a lemma about
one side of a node is written once, for a side. -/

namespace PjProject

inductive Side
  | left
  | right
  deriving DecidableEq

def Side.opp : Side → Side
  | left => right
  | right => left

@[simp] theorem Side.opp_opp (d : Side) : d.opp.opp = d := by cases d <;> rfl

theorem Side.opp_ne (d : Side) : d.opp ≠ d := by cases d <;> decide

theorem Side.eq_or_eq_opp (d e : Side) : d = e ∨ d = e.opp := by cases d <;> cases e <;> decide

inductive Shape (P : Type)
  | nil
  | node (l : Shape P) (p : P) (r : Shape P)

namespace Shape

variable {P : Type}

/-- A node with the subtree `a` on the side `d` and `b` on the other side. -/
def branch (d : Side) (a : Shape P) (p : P) (b : Shape P) : Shape P :=
  match d with
  | .left => node a p b
  | .right => node b p a

theorem branch_opp (d : Side) (a : Shape P) (p : P) (b : Shape P) : branch d.opp a p b = branch d b p a := by
  cases d <;> rfl

theorem node_eq_branch (d : Side) (l : Shape P) (p : P) (r : Shape P) : ∃ a b, node l p r = branch d a p b := by
  cases d
  · exact ⟨l, r, rfl⟩
  · exact ⟨r, l, rfl⟩

def top : Shape P → Option P
  | nil => none
  | node _ p _ => some p

@[simp] theorem top_branch (d : Side) (a : Shape P) (p : P) (b : Shape P) : (branch d a p b).top = some p := by
  cases d <;> rfl

theorem top_eq_none {t : Shape P} : t.top = none ↔ t = nil := by
  cases t <;> simp [top]

/-- The number of nodes on the way down to a missing node: the longest one or the shortest, as `pick` says. -/
def reach (pick : Nat → Nat → Nat) : Shape P → Nat
  | nil => 0
  | node l _ r => pick (l.reach pick) (r.reach pick) + 1

def inorder : Shape P → List P
  | nil => []
  | node l p r => l.inorder ++ p :: r.inorder

/-- Down to the shortest way all nodes are there. -/
theorem two_pow_reach_le (s : Shape P) : 2 ^ s.reach min ≤ s.inorder.length + 1 := by
  induction s with
  | nil => exact (Nat.le_refl _)
  | node l p r ihl ihr =>
    have hl : 2 ^ min (l.reach min) (r.reach min) ≤ 2 ^ l.reach min :=
      Nat.pow_le_pow_right Nat.two_pos (Nat.min_le_left _ _)
    have hr : 2 ^ min (l.reach min) (r.reach min) ≤ 2 ^ r.reach min :=
      Nat.pow_le_pow_right Nat.two_pos (Nat.min_le_right _ _)
    rw [reach, Nat.pow_succ, inorder, List.length_append, List.length_cons]
    omega

theorem mem_inorder_branch {d : Side} {a b : Shape P} {p q : P} :
    q ∈ (branch d a p b).inorder ↔ q = p ∨ q ∈ a.inorder ∨ q ∈ b.inorder := by
  cases d <;> simp only [branch, inorder, List.mem_append, List.mem_cons]
  · exact or_left_comm
  · rw [or_left_comm, or_comm (a := q ∈ b.inorder)]

theorem inorder_branch_perm (d : Side) (a : Shape P) (p : P) (b : Shape P) :
    (branch d a p b).inorder.Perm (p :: (a.inorder ++ b.inorder)) := by
  cases d
  · exact List.perm_middle
  · exact List.perm_middle.trans (List.perm_append_comm.cons p)

theorem mem_inorder_of_top {t : Shape P} {p : P} (h : t.top = some p) : p ∈ t.inorder := by
  cases t with
  | nil => cases h
  | node l q r =>
    obtain rfl := Option.some.inj h
    simp [inorder]

theorem exists_node_of_top {t : Shape P} {p : P} (h : t.top = some p) : ∃ l r, t = node l p r := by
  cases t with
  | nil => cases h
  | node l q r => exact ⟨l, r, by rw [Option.some.inj h]⟩

theorem inorder_rotate (d : Side) (a b c : Shape P) (x y : P) :
    (branch d (branch d a x b) y c).inorder = (branch d a x (branch d b y c)).inorder := by
  cases d <;> simp [branch, inorder]

end Shape

/-- A node above the hole of a context, which has the hole on one side and a subtree on the other. -/
structure Frame (P : Type) where
  side : Side
  p : P
  sib : Shape P

variable {P : Type}

open Shape

/-- The tree with a subtree in the hole; the first frame is the one next to the hole. -/
def plug : Shape P → List (Frame P) → Shape P
  | t, [] => t
  | t, f :: path => plug (branch f.side t f.p f.sib) path

def above : List (Frame P) → Option P
  | [] => none
  | f :: _ => some f.p

/-- What comes before the hole in the order, the last node first. -/
def before : List (Frame P) → List P
  | [] => []
  | ⟨.left, _, _⟩ :: path => before path
  | ⟨.right, p, sib⟩ :: path => p :: (sib.inorder.reverse ++ before path)

def after : List (Frame P) → List P
  | [] => []
  | ⟨.left, p, sib⟩ :: path => p :: (sib.inorder ++ after path)
  | ⟨.right, _, _⟩ :: path => after path

theorem before_eq_nil {path : List (Frame P)} (h : ∀ f ∈ path, f.side = .left) : before path = [] := by
  induction path with
  | nil => rfl
  | cons f path ih =>
    obtain ⟨side, p, sib⟩ := f
    obtain rfl : side = .left := h _ List.mem_cons_self
    exact ih fun g hg => h g (List.mem_cons_of_mem _ hg)

theorem after_eq_nil {path : List (Frame P)} (h : ∀ f ∈ path, f.side = .right) : after path = [] := by
  induction path with
  | nil => rfl
  | cons f path ih =>
    obtain ⟨side, p, sib⟩ := f
    obtain rfl : side = .right := h _ List.mem_cons_self
    exact ih fun g hg => h g (List.mem_cons_of_mem _ hg)

theorem inorder_plug (t : Shape P) (path : List (Frame P)) :
    (plug t path).inorder = (before path).reverse ++ t.inorder ++ after path := by
  induction path generalizing t with
  | nil => simp [plug, before, after]
  | cons f path ih =>
    obtain ⟨side, p, sib⟩ := f
    rw [plug, ih]
    cases side <;> simp [branch, inorder, before, after]

theorem inorder_plug_congr {s t : Shape P} (h : s.inorder = t.inorder) (path : List (Frame P)) :
    (plug s path).inorder = (plug t path).inorder := by
  rw [inorder_plug, inorder_plug, h]

def nodes (path : List (Frame P)) : List P := path.flatMap fun f => f.p :: f.sib.inorder

theorem before_after_perm (path : List (Frame P)) : (before path ++ after path).Perm (nodes path) := by
  induction path with
  | nil => exact .refl _
  | cons f path ih =>
    obtain ⟨side, p, sib⟩ := f
    simp only [nodes, List.flatMap_cons] at ih ⊢
    cases side with
    | left =>
      simp only [before, after, List.cons_append]
      refine List.perm_middle.trans (.cons p ?_)
      rw [← List.append_assoc]
      refine (List.perm_append_comm.append_right _).trans ?_
      rw [List.append_assoc]
      exact ih.append_left _
    | right =>
      simp only [before, after, List.cons_append, List.append_assoc]
      exact .cons p ((List.reverse_perm _).append ih)

theorem inorder_plug_perm (t : Shape P) (path : List (Frame P)) :
    (plug t path).inorder.Perm (t.inorder ++ nodes path) := by
  rw [inorder_plug, List.append_assoc]
  have hcomm : ((before path).reverse ++ (t.inorder ++ after path)).Perm
      (t.inorder ++ (before path ++ after path)) := by
    rw [← List.append_assoc, ← List.append_assoc]
    exact (((List.reverse_perm _).append_right _).trans List.perm_append_comm).append_right _
  exact hcomm.trans ((before_after_perm path).append_left _)

theorem plug_append (t : Shape P) (path rest : List (Frame P)) : plug t (path ++ rest) = plug (plug t path) rest := by
  induction path generalizing t with
  | nil => rfl
  | cons f path ih => exact ih _

/-- Every node of a tree is the top of a subtree in some context. -/
theorem exists_plug_of_mem {t : Shape P} {p : P} (h : p ∈ t.inorder) : ∃ l r path, t = plug (node l p r) path := by
  induction t with
  | nil => cases h
  | node l q r ihl ihr =>
    simp only [inorder, List.mem_append, List.mem_cons] at h
    rcases h with h | rfl | h
    · obtain ⟨l', r', path, rfl⟩ := ihl h
      exact ⟨l', r', path ++ [⟨.left, q, r⟩], by rw [plug_append]; rfl⟩
    · exact ⟨l, r, [], rfl⟩
    · obtain ⟨l', r', path, rfl⟩ := ihr h
      exact ⟨l', r', path ++ [⟨.right, q, l⟩], by rw [plug_append]; rfl⟩

theorem length_le_nodes (path : List (Frame P)) : path.length ≤ (nodes path).length := by
  induction path with
  | nil => exact (Nat.le_refl _)
  | cons f path ih =>
    simp only [nodes, List.flatMap_cons, List.length_append, List.length_cons] at ih ⊢
    omega

/-- The nodes in the order in which a walk to one side finds them. -/
def Shape.along (d : Side) (s : Shape P) : List P :=
  match d with
  | .left => s.inorder.reverse
  | .right => s.inorder

/-- The nodes that a walk to one side finds after the hole. -/
def beyond (d : Side) (path : List (Frame P)) : List P :=
  match d with
  | .left => before path
  | .right => after path

theorem along_branch (d : Side) (a : Shape P) (p : P) (b : Shape P) :
    (branch d a p b).along d = b.along d ++ p :: a.along d := by
  cases d <;> simp [branch, along, inorder]

theorem along_plug (d : Side) (s : Shape P) (path : List (Frame P)) :
    (plug s path).along d = (beyond d.opp path).reverse ++ (s.along d ++ beyond d path) := by
  cases d <;> simp [along, beyond, inorder_plug, Side.opp]

theorem beyond_same (d : Side) (p : P) (sib : Shape P) (path : List (Frame P)) :
    beyond d (⟨d, p, sib⟩ :: path) = beyond d path := by
  cases d <;> rfl

theorem beyond_opp (d : Side) (p : P) (sib : Shape P) (path : List (Frame P)) :
    beyond d (⟨d.opp, p, sib⟩ :: path) = p :: (sib.along d ++ beyond d path) := by
  cases d <;> rfl

theorem beyond_eq_nil {d : Side} {path : List (Frame P)} (h : ∀ f ∈ path, f.side = d) : beyond d path = [] := by
  cases d
  · exact before_eq_nil h
  · exact after_eq_nil h

end PjProject
