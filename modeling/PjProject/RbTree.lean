import PjProject.BinaryTree
import PjProject.Runs

/-! The red-black tree (`rbtree.c`). Nodes are addresses `P`, a pointer is an `Option P`, and `none` is
the sentinel `tree->null`, whose colour and parent the code reads and writes as those of any node. The
two branches of the fix-up loops and the two rotations mirror each other, so they are written once, for
a side. A loop that takes more turns than there are nodes, and one, gives `none`. -/

namespace PjProject.RbTree

inductive Color
  | red
  | black
  deriving DecidableEq

/-- `pj_rbtree` with the fields of its nodes: `link` are the fields `left` and `right`. -/
structure Tree (P K : Type) where
  key : P → K
  color : Option P → Color
  link : Side → Option P → Option P
  parent : Option P → Option P
  root : Option P
  size : Nat

variable {P K : Type} [DecidableEq P]

namespace Tree

def setColor (t : Tree P K) (p : Option P) (c : Color) : Tree P K :=
  { t with color := Function.update t.color p c }

def setParent (t : Tree P K) (p q : Option P) : Tree P K :=
  { t with parent := Function.update t.parent p q }

def setLink (t : Tree P K) (d : Side) (p q : Option P) : Tree P K :=
  { t with link := Function.update t.link d (Function.update (t.link d) p q) }

/-- The child of `parent` that is `old` becomes `new`; a node without a parent is the root. -/
def replaceChild (t : Tree P K) (parent old new : Option P) : Tree P K :=
  if parent ≠ none then
    if t.link .left parent = old then t.setLink .left parent new else t.setLink .right parent new
  else { t with root := new }

end Tree

/-- `left_rotate` and `right_rotate`, for the side to which the node goes down. -/
def rotate (d : Side) (t : Tree P K) (node : Option P) : Tree P K :=
  let rnode := t.link d.opp node
  if rnode = none then t
  else
    let inner := t.link d rnode
    let t := t.setLink d.opp node inner
    let t := if inner ≠ none then t.setParent inner node else t
    let parent := t.parent node
    let t := t.setParent rnode parent
    let t := t.replaceChild parent node rnode
    let t := t.setLink d rnode node
    t.setParent node rnode

def leftRotate (t : Tree P K) (node : Option P) : Tree P K := rotate .left t node

def rightRotate (t : Tree P K) (node : Option P) : Tree P K := rotate .right t node

/-- The side of its parent that the node is on, as the code finds it. -/
def sideOf (t : Tree P K) (node : Option P) : Side :=
  if t.link .left (t.parent node) = node then .left else .right

/-- One turn of the loop of `insert_fixup`. -/
def insertTurn (s : Tree P K × Option P) : Option (Tree P K × Option P) :=
  let (t, node) := s
  if node ≠ t.root ∧ t.color (t.parent node) = .red then
    let parent := t.parent node
    let d := sideOf t parent
    let temp := t.link d.opp (t.parent parent)
    if t.color temp = .red then
      let t := t.setColor temp .black
      let t := t.setColor parent .black
      let node := t.parent parent
      some (t.setColor node .red, node)
    else
      let (t, node) := if node = t.link d.opp parent then (rotate d t parent, parent) else (t, node)
      let temp := t.parent node
      let t := t.setColor temp .black
      let temp := t.parent temp
      let t := t.setColor temp .red
      some (rotate d.opp t temp, node)
  else none

/-- `insert_fixup`. -/
def insertFixup (t : Tree P K) (node : Option P) (bound : Nat) : Option (Tree P K) :=
  (loop insertTurn bound (t, node)).map fun s => s.1.setColor s.1.root .black

/-- The sibling of the node, which is on the side `d` of its parent. -/
def sibling (t : Tree P K) (d : Side) (node : Option P) : Option P := t.link d.opp (t.parent node)

/-- The first part of a turn of `delete_fixup`: a red sibling is rotated up. -/
def liftSibling (t : Tree P K) (d : Side) (node : Option P) : Tree P K :=
  let temp := sibling t d node
  if t.color temp = .red then
    let t := t.setColor temp .black
    let t := t.setColor (t.parent node) .red
    rotate d t (t.parent node)
  else t

/-- The last part of a turn of `delete_fixup`, when the sibling has a red child: the parent is rotated
down, after the sibling when the red child is the inner one. -/
def lowerParent (t : Tree P K) (d : Side) (node : Option P) : Tree P K :=
  let temp := sibling t d node
  let t :=
    if t.color (t.link d.opp temp) = .black then
      let t := t.setColor (t.link d temp) .black
      let t := t.setColor temp .red
      rotate d.opp t temp
    else t
  let temp := sibling t d node
  let t := t.setColor temp (t.color (t.parent node))
  let t := t.setColor (t.link d.opp temp) .black
  let t := t.setColor (t.parent node) .black
  rotate d t (t.parent node)

/-- One turn of the loop of `delete_fixup`. -/
def deleteTurn (s : Tree P K × Option P) : Option (Tree P K × Option P) :=
  let (t, node) := s
  if node ≠ t.root ∧ t.color node = .black then
    let d := sideOf t node
    let t := liftSibling t d node
    let temp := sibling t d node
    if t.color (t.link d temp) = .black ∧ t.color (t.link d.opp temp) = .black then
      some (t.setColor temp .red, t.parent node)
    else
      let t := lowerParent t d node
      some (t, t.root)
  else none

/-- `delete_fixup`. -/
def deleteFixup (t : Tree P K) (node : Option P) (bound : Nat) : Option (Tree P K) :=
  (loop deleteTurn bound (t, node)).map fun s => s.1.setColor s.2 .black

/-- `pj_rbtree_init`; what is in the nodes is of no concern. -/
def init (key : P → K) (color : P → Color) (link : Side → P → Option P) (parent : P → Option P) :
    Tree P K where
  key := key
  color := fun p => p.elim .black color
  link := fun d p => p.elim none (link d)
  parent := fun p => p.elim none parent
  root := none
  size := 0

def descendTurn (t : Tree P K) (d : Side) (node : Option P) : Option (Option P) :=
  if t.link d node ≠ none then some (t.link d node) else none

def outermost (t : Tree P K) (d : Side) (node : Option P) : Option (Option P) :=
  loop (descendTurn t d) (t.size + 1) node

/-- `pj_rbtree_first`. -/
def first (t : Tree P K) : Option (Option P) := outermost t .left t.root

/-- `pj_rbtree_last`. -/
def last (t : Tree P K) : Option (Option P) := outermost t .right t.root

def climbTurn (t : Tree P K) (d : Side) (s : Option P × Option P) : Option (Option P × Option P) :=
  if s.2 ≠ none ∧ t.link d s.2 = s.1 then some (s.2, t.parent s.2) else none

/-- `pj_rbtree_next` and `pj_rbtree_prev`: the next node on a side. -/
def neighbour (t : Tree P K) (d : Side) (node : Option P) : Option (Option P) :=
  if t.link d node ≠ none then outermost t d.opp (t.link d node)
  else (loop (climbTurn t d) (t.size + 1) (node, t.parent node)).map Prod.snd

/-- `pj_rbtree_next`. -/
def next (t : Tree P K) (node : P) : Option (Option P) := neighbour t .right (some node)

/-- `pj_rbtree_prev`. -/
def prev (t : Tree P K) (node : P) : Option (Option P) := neighbour t .left (some node)

variable (comp : K → K → Int)

/-- One turn of the loops of `pj_rbtree_insert` and `pj_rbtree_find`, which end at a node with an equal
key or at the sentinel. It keeps the last node and how the key compares there. -/
def searchTurn (t : Tree P K) (key : K) : Option P × Option P × Int → Option (Option P × Option P × Int)
  | (none, _, _) => none
  | (some n, _, _) =>
    let rv := comp key (t.key n)
    if rv = 0 then none
    else some (if rv < 0 then t.link .left (some n) else t.link .right (some n), some n, rv)

def search (t : Tree P K) (key : K) : Option (Option P × Option P × Int) :=
  loop (searchTurn comp t key) (t.size + 1) (t.root, none, 0)

/-- `pj_rbtree_find`. -/
def find (t : Tree P K) (key : K) : Option (Option P) := (search comp t key).map Prod.fst

/-- `pj_rbtree_insert`, with what it returns. -/
def insert (t : Tree P K) (element : P) : Option (Tree P K × Int) :=
  (search comp t (t.key element)).bind fun (node, parent, rv) =>
    if node ≠ none then some (t, -1)
    else
      let node := some element
      let t := t.setColor node .red
      let t := (t.setLink .left node none).setLink .right node none
      (if parent ≠ none then
          let t := t.setParent node parent
          let t := if rv < 0 then t.setLink .left parent node else t.setLink .right parent node
          insertFixup t node (t.size + 2)
        else
          let t := { t with root := node }
          let t := t.setParent node none
          some (t.setColor node .black)).map fun t => ({ t with size := t.size + 1 }, 0)

/-- The node that `pj_rbtree_erase` takes out of its place. -/
def spliced (t : Tree P K) (node : P) : Option (Option P) :=
  if t.link .left (some node) = none ∨ t.link .right (some node) = none then some (some node)
  else outermost t .left (t.link .right (some node))

/-- The only child of the node that is taken out of its place. -/
def childOf (t : Tree P K) (succ : Option P) : Option P :=
  if t.link .left succ ≠ none then t.link .left succ else t.link .right succ

/-- The node is taken out of its place. -/
def spliceOut (t : Tree P K) (succ : Option P) : Tree P K :=
  let child := childOf t succ
  let parent := t.parent succ
  (t.setParent child parent).replaceChild parent succ child

/-- The node that was taken out of its place gets the place and the colour of the erased one. -/
def substitute (t : Tree P K) (node succ : Option P) : Tree P K :=
  let t := t.setParent succ (t.parent node)
  let t := t.setLink .left succ (t.link .left node)
  let t := t.setLink .right succ (t.link .right node)
  let t := t.setColor succ (t.color node)
  let parent := t.parent node
  let t :=
    if parent ≠ none then
      if t.link .left parent = node then t.setLink .left parent succ else t.setLink .right parent succ
    else t
  let t := if t.link .left node ≠ none then t.setParent (t.link .left node) succ else t
  let t := if t.link .right node ≠ none then t.setParent (t.link .right node) succ else t
  if t.root = node then { t with root := succ } else t

/-- `pj_rbtree_erase`. -/
def erase (t : Tree P K) (node : P) : Option (Tree P K) :=
  (spliced t node).bind fun succ =>
    let child := childOf t succ
    let t := spliceOut t succ
    let t := if succ ≠ some node then substitute t (some node) succ else t
    (if t.color succ = .black then
        (if child ≠ none then deleteFixup t child (t.size + 2) else some t).map fun t =>
          t.setColor none .black
      else some t).map fun t => { t with size := t.size - 1 }

/-- The nodes from a node on, one after another. -/
def walk (advance : P → Option (Option P)) : Nat → Option P → Option (List P)
  | _, none => some []
  | 0, some _ => none
  | bound + 1, some p => (advance p).bind fun q => (walk advance bound q).map (p :: ·)

/-- The nodes from `pj_rbtree_first` on by `pj_rbtree_next`. -/
def ascend (t : Tree P K) : Option (List P) := (first t).bind (walk (next t) t.size)

/-- The nodes from `pj_rbtree_last` on by `pj_rbtree_prev`. -/
def descend (t : Tree P K) : Option (List P) := (last t).bind (walk (prev t) t.size)

/-- A tree with the nodes that were inserted and not erased. -/
structure State (P K : Type) where
  tree : Tree P K
  live : List P

inductive Action (P K : Type)
  | insert (node : P)
  | erase (node : P)
  | setKey (node : P) (key : K)

/-- Any node may be inserted; a node is erased while it is in the tree, and gets another key while it is
not. -/
def step (s : State P K) : Action P K → Option (State P K)
  | .insert node => (insert comp s.tree node).map fun (t, rv) =>
    { tree := t, live := if rv = 0 then node :: s.live else s.live }
  | .erase node =>
    if node ∈ s.live then (erase s.tree node).map fun t => { tree := t, live := s.live.erase node }
    else none
  | .setKey node key =>
    if node ∈ s.live then none
    else some { s with tree := { s.tree with key := Function.update s.tree.key node key } }

def start (t : Tree P K) : State P K := { tree := t, live := [] }

/-- `pj_rbtree_max_height` and `pj_rbtree_min_height`, which differ in the number that they return of two. -/
def height (pick : Nat → Nat → Nat) (t : Tree P K) : Nat → Option P → Option Nat
  | 0, _ => none
  | bound + 1, node =>
    let below (child : Option P) : Option Nat :=
      if child ≠ none then (height pick t bound child).map (· + 1) else some 0
    (below (t.link .left node)).bind fun l => (below (t.link .right node)).map fun r => pick l r

/-- The calls with `NULL`, for the root. -/
def maxHeight (t : Tree P K) : Option Nat := height (fun l r => if r < l then l else r) t (t.size + 1) t.root

def minHeight (t : Tree P K) : Option Nat := height (fun l r => if r < l then r else l) t (t.size + 1) t.root

end PjProject.RbTree
