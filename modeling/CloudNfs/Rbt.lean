import Mathlib.Data.Int.Notation
import Mathlib.Logic.Function.Basic
import CloudNfs.RedBlack

/-!
# Red-black trees in memory (`include/rbt_node.h`, `include/rbt_tree.h`)

The macros of `rbt_tree.h`, on a memory of nodes that are linked in all directions: a node
points to its children, to its parent, and to *the pointer that points to it*, its
`anchor`. Following a pointer that is `NULL` ends a macro without a result, `none`; so does a
loop that goes on for more steps than the tree has nodes. `CloudNfs.RbtRun` shows that
neither happens.

The header says of most of the code "same as above, with right <-> left". Here a side is a
parameter, and the copy for the other side is the same definition:

* `rotate .left` is `RBT_ROTATE_LEFT`, and `rotate .next` is `RBT_ROTATE_RIGHT`;
* `insertRotate` and `unlinkRotate` are the two branches of the loops of `RBT_INSERT` and
  `RBT_UNLINK`.
-/

namespace CloudNfs

open RedBlack (Side)

/-! ## Nodes -/

/-- Where the pointer to a node is. -/
inductive Anchor where
  /-- `&header->root` -/
  | root
  /-- `&node->left` or `&node->next` -/
  | child (node : ℕ) (side : Side)
  deriving DecidableEq

/-- `rbt_node_t`. -/
structure RbtNode (δ : Type) where
  /-- `rbt_flags & RBT_RED` -/
  red : Bool
  /-- the pointer to this node -/
  anchor : Anchor
  /-- the node above, `NULL` for the root -/
  parent : Option ℕ
  left : Option ℕ
  next : Option ℕ
  /-- the value that gives the order -/
  value : ℤ
  opaq : δ

/-- `struct rbt_head`, with the memory of the nodes. -/
structure Rbt (δ : Type) where
  mem : ℕ → RbtNode δ
  root : Option ℕ
  leftmost : Option ℕ
  rightmost : Option ℕ
  /-- the number of nodes, which bounds the loops here -/
  numNode : ℕ
  /-- `rbt_num_node`, an `unsigned int` -/
  rbtNumNode : UInt32

variable {δ : Type}

def RbtNode.child (n : RbtNode δ) : Side → Option ℕ
  | .left => n.left
  | .next => n.next

def RbtNode.withChild (n : RbtNode δ) (d : Side) (p : Option ℕ) : RbtNode δ :=
  match d with
  | .left => { n with left := p }
  | .next => { n with next := p }

namespace Rbt

def modify (t : Rbt δ) (a : ℕ) (f : RbtNode δ → RbtNode δ) : Rbt δ :=
  { t with mem := Function.update t.mem a (f (t.mem a)) }

/-- Write `rbt_flags`. -/
def setRed (t : Rbt δ) (a : ℕ) (red : Bool) : Rbt δ := t.modify a fun n => { n with red := red }

/-- Write `parent`. -/
def setParent (t : Rbt δ) (a : ℕ) (p : Option ℕ) : Rbt δ :=
  t.modify a fun n => { n with parent := p }

/-- Write `anchor`. -/
def setAnchor (t : Rbt δ) (a : ℕ) (anchor : Anchor) : Rbt δ :=
  t.modify a fun n => { n with anchor := anchor }

/-- Write `left` or `next`. -/
def setChild (t : Rbt δ) (a : ℕ) (d : Side) (p : Option ℕ) : Rbt δ :=
  t.modify a fun n => n.withChild d p

/-- `*anchor = p`. -/
def setLink (t : Rbt δ) (anchor : Anchor) (p : Option ℕ) : Rbt δ :=
  match anchor with
  | .root => { t with root := p }
  | .child a d => t.setChild a d p

/-- `if (p) { p->parent = parent; p->anchor = anchor; }`. -/
def setUp (t : Rbt δ) (p parent : Option ℕ) (anchor : Anchor) : Rbt δ :=
  match p with
  | some a => (t.setParent a parent).setAnchor a anchor
  | none => t

/-- `if (p) p->rbt_flags &= ~RBT_RED`. -/
def clearRed (t : Rbt δ) (p : Option ℕ) : Rbt δ :=
  match p with
  | some a => t.setRed a false
  | none => t

/-- `p != NULL && (p->rbt_flags & RBT_RED)`. -/
def isRed (t : Rbt δ) (p : Option ℕ) : Bool :=
  match p with
  | some a => (t.mem a).red
  | none => false

def fuel (t : Rbt δ) : ℕ := t.numNode + 1

/-- `RBT_HEAD_INIT`. -/
def headInit (mem : ℕ → RbtNode δ) : Rbt δ :=
  { mem := mem, root := none, leftmost := none, rightmost := none, numNode := 0, rbtNumNode := 0 }

/-- `rbt_num_node++`. -/
def addNode (t : Rbt δ) : Rbt δ :=
  { t with numNode := t.numNode + 1, rbtNumNode := t.rbtNumNode + 1 }

/-- `rbt_num_node--`. -/
def dropNode (t : Rbt δ) : Rbt δ :=
  { t with numNode := t.numNode - 1, rbtNumNode := t.rbtNumNode - 1 }

/-! ## Walking -/

/-- `while (y->left) y = y->left`, or with `next`. -/
def extreme (t : Rbt δ) (d : Side) : ℕ → ℕ → Option ℕ
  | 0, _ => none
  | n + 1, y =>
    match (t.mem y).child d with
    | none => some y
    | some y' => t.extreme d n y'

/-- `do x = node while ((node = node->parent) && (node->next == x))`. -/
def climb (t : Rbt δ) : ℕ → ℕ → Option (Option ℕ)
  | 0, _ => none
  | n + 1, x =>
    match (t.mem x).parent with
    | none => some none
    | some node => if (t.mem node).next = some x then t.climb n node else some (some node)

/-- `RBT_INCREMENT`: the next node in order. -/
def increment (t : Rbt δ) (node : ℕ) : Option (Option ℕ) :=
  match (t.mem node).next with
  | some y => (t.extreme .left t.fuel y).map some
  | none => t.climb t.fuel node

/-- The loop of `RBT_FIND`. -/
def findFrom (t : Rbt δ) (val : ℤ) : ℕ → Option ℕ → Option ℕ → Option (Option ℕ)
  | 0, _, _ => none
  | _ + 1, none, node => some node
  | n + 1, some x, _ =>
    if (t.mem x).value > val then t.findFrom val n (t.mem x).left (some x)
    else if (t.mem x).value < val then t.findFrom val n (t.mem x).next (some x)
    else some (some x)

/-- `RBT_FIND`. -/
def find (t : Rbt δ) (val : ℤ) : Option (Option ℕ) := t.findFrom val t.fuel t.root t.root

mutual

/-- The loop `while (x = x->left)` of `RBT_FIND_LEFT`. -/
def findLeftLeft (t : Rbt δ) (val : ℤ) : ℕ → ℕ → ℕ → Option ℕ
  | 0, _, _ => none
  | n + 1, x, node =>
    match (t.mem x).left with
    | none => some node
    | some x =>
      if (t.mem x).value < val then t.findLeftNext val n x node else t.findLeftLeft val n x x

/-- The loop `while (x = x->next)` of `RBT_FIND_LEFT`. -/
def findLeftNext (t : Rbt δ) (val : ℤ) : ℕ → ℕ → ℕ → Option ℕ
  | 0, _, _ => none
  | n + 1, x, node =>
    match (t.mem x).next with
    | none => some node
    | some x =>
      if (t.mem x).value = val then t.findLeftLeft val n x x else t.findLeftNext val n x node

end

/-- The outer loop of `RBT_FIND_LEFT`. -/
def findLeftFrom (t : Rbt δ) (val : ℤ) : ℕ → Option ℕ → Option (Option ℕ)
  | 0, _ => none
  | _ + 1, none => some none
  | n + 1, some x =>
    if (t.mem x).value > val then t.findLeftFrom val n (t.mem x).left
    else if (t.mem x).value < val then t.findLeftFrom val n (t.mem x).next
    else (t.findLeftLeft val t.fuel x x).map some

/-- `RBT_FIND_LEFT`: the first node in order with the value. -/
def findLeft (t : Rbt δ) (val : ℤ) : Option (Option ℕ) := t.findLeftFrom val t.fuel t.root

/-! ## Rotations -/

/-- `RBT_ROTATE_LEFT` and `RBT_ROTATE_RIGHT`: the node `xx` goes down to the side `d`. -/
def rotate (t : Rbt δ) (d : Side) (xx : ℕ) : Option (Rbt δ) := do
  let yy ← (t.mem xx).child d.other
  let t := t.setChild xx d.other ((t.mem yy).child d)
  let t := t.setUp ((t.mem yy).child d) (some xx) (.child xx d.other)
  let t := t.setParent yy (t.mem xx).parent
  let t := t.setChild yy d (some xx)
  let t := t.setAnchor yy (t.mem xx).anchor
  let t := t.setParent xx (some yy)
  let t := t.setAnchor xx (.child yy d)
  return t.setLink (t.mem yy).anchor (some yy)

/-! ## Insertion -/

/-- The end of the loop of `RBT_INSERT`: the parent of `x` takes the place of its own parent. -/
def insertOuter (t : Rbt δ) (d : Side) (x : ℕ) : Option (Rbt δ) := do
  let par ← (t.mem x).parent
  let t := t.setRed par false
  let gp ← (t.mem par).parent
  (t.setRed gp true).rotate d.other gp

/-- The part of the loop of `RBT_INSERT` for an uncle that is black: `x` is red, and so is its
parent, the child on the side `d` of its own parent. -/
def insertRotate (t : Rbt δ) (d : Side) (x par : ℕ) : Option (Rbt δ) :=
  if (t.mem par).child d.other = some x then do
    let t ← t.rotate d par
    t.insertOuter d par
  else t.insertOuter d x

/-- The loop of `RBT_INSERT`. -/
def insertFix : ℕ → Rbt δ → ℕ → Option (Rbt δ)
  | 0, _, _ => none
  | n + 1, t, x =>
    match (t.mem x).parent with
    | none => some t
    | some par => do
      let t := t.setRed x true
      if (t.mem par).red = false then return t
      let gp ← (t.mem par).parent
      let d := if (t.mem gp).left = some par then Side.left else Side.next
      match (t.mem gp).child d.other with
      | none => t.insertRotate d x par
      | some y =>
        if (t.mem y).red = false then t.insertRotate d x par
        else insertFix n ((t.setRed par false).setRed y false) gp

/-- Install a node as a child of `y`. -/
def install (t : Rbt δ) (node y : ℕ) (d : Side) : Rbt δ :=
  (t.setChild y d (some node)).setAnchor node (.child y d)

/-- The first part of `RBT_INSERT`: where the node goes, and the node above it. -/
def insertLink (t : Rbt δ) (node : ℕ) (par : Option ℕ) : Option (Rbt δ × Option ℕ) :=
  match par with
  | none =>
    some ({ t.setAnchor node .root with
            root := some node, rightmost := some node, leftmost := some node }, none)
  | some y =>
    if (t.mem node).value = (t.mem y).value ∧ (t.mem y).next ≠ none ∧ (t.mem y).left ≠ none then do
      let y ← (t.mem y).left
      let y ← t.extreme .next t.fuel y
      return (t.install node y .next, some y)
    else if (t.mem node).value > (t.mem y).value ∨
        ((t.mem node).value = (t.mem y).value ∧ (t.mem y).left ≠ none) then
      some ({ t.install node y .next with
              rightmost := if t.rightmost = some y then some node else t.rightmost }, some y)
    else
      some ({ t.install node y .left with
              leftmost := if t.leftmost = some y then some node else t.leftmost }, some y)

/-- `RBT_INSERT`. -/
def insert (t : Rbt δ) (node : ℕ) (par : Option ℕ) : Option (Rbt δ) := do
  let t := t.addNode
  let (t, y) ← t.insertLink node par
  let t := t.modify node fun n => { n with red := false, parent := y, left := none, next := none }
  insertFix t.fuel t node

/-! ## Deletion -/

/-- The end of the loop of `RBT_UNLINK`: the sibling `y` takes the place of the node `z` above, and
its colour. -/
def unlinkOuter (t : Rbt δ) (d : Side) (y z : ℕ) : Option (Rbt δ) :=
  let t := t.setRed y (t.mem z).red
  let t := t.setRed z false
  let t := t.clearRed ((t.mem y).child d.other)
  t.rotate d z

/-- The part of the loop of `RBT_UNLINK` for a sibling `y` that is black and has a red child: the
node `z` above has the child that lacks a black node on the side `d`. -/
def unlinkRotate (t : Rbt δ) (d : Side) (y z : ℕ) : Option (Rbt δ) :=
  if t.isRed ((t.mem y).child d.other) = false then do
    let t := (t.clearRed ((t.mem y).child d)).setRed y true
    let t ← t.rotate d.other y
    let y ← (t.mem z).child d.other
    t.unlinkOuter d y z
  else t.unlinkOuter d y z

/-- The part of the loop of `RBT_UNLINK` for a sibling `y` that is red: a rotation gives a black
one. -/
def unlinkSibling (t : Rbt δ) (d : Side) (y z : ℕ) : Option (Rbt δ × ℕ) :=
  if (t.mem y).red then do
    let t ← ((t.setRed y false).setRed z true).rotate d z
    let y ← (t.mem z).child d.other
    return (t, y)
  else return (t, y)

/-- The loop of `RBT_UNLINK`. -/
def unlinkFix : ℕ → Rbt δ → Option ℕ → Option ℕ → Option (Rbt δ)
  | 0, _, _, _ => none
  | _ + 1, t, x, none => some (t.clearRed x)
  | n + 1, t, x, some z =>
    if t.isRed x then some (t.clearRed x)
    else do
      let d := if x = (t.mem z).left then Side.left else Side.next
      let y ← (t.mem z).child d.other
      let (t, y) ← t.unlinkSibling d y z
      if t.isRed (t.mem y).left = false ∧ t.isRed (t.mem y).next = false then
        let t := t.setRed y true
        unlinkFix n t (some z) (t.mem z).parent
      else do
        let t ← t.unlinkRotate d y z
        return t.clearRed x

/-- `if ((node->rbt_flags & RBT_RED) != (y->rbt_flags & RBT_RED))` they swap colours. -/
def swapRed (t : Rbt δ) (node y : ℕ) : Rbt δ :=
  if (t.mem node).red ≠ (t.mem y).red then
    (t.setRed node (!(t.mem node).red)).setRed y (!(t.mem y).red)
  else t

/-- The part of `RBT_UNLINK` that takes the successor `y` of a node out of the right subtree of
the node, with the root `r`; the child `x` of `y` takes the place of `y`. -/
def unlinkInner (t : Rbt δ) (node y r : ℕ) (x : Option ℕ) : Option (Rbt δ × ℕ) :=
  if (t.mem node).next = some y then return (t, y)
  else do
    let z ← (t.mem y).parent
    let t := (t.setUp x (some z) (.child z .left)).setChild z .left x
    let t := t.setChild y .next (t.mem node).next
    return (t.setUp (some r) (some y) (.child y .next), z)

/-- The first part of `RBT_UNLINK` for a node with two children: its successor takes its
place, and its colour. The result also has the child of the successor that takes the
successor's place, and the node above this child. -/
def unlinkTwo (t : Rbt δ) (node l r : ℕ) : Option (Rbt δ × Option ℕ × Option ℕ) := do
  let y ← t.extreme .left t.fuel r
  let t := t.swapRed node y
  let x := (t.mem y).next
  let t := (t.setUp (some l) (some y) (.child y .left)).setChild y .left (some l)
  let (t, z) ← t.unlinkInner node y r x
  let t := t.setParent y (t.mem node).parent
  let t := t.setAnchor y (t.mem node).anchor
  let t := t.setLink (t.mem node).anchor (some y)
  return (t, x, some z)

/-- The new `leftmost` or `rightmost`, for the old one `e`, when the node has at most one child
`x`, below `z`. -/
def unlinkEnd (t : Rbt δ) (d : Side) (e : Option ℕ) (node : ℕ) (x z : Option ℕ) :
    Option (Option ℕ) :=
  if e = some node then
    match x with
    | some x => (t.extreme d t.fuel x).map some
    | none => some z
  else some e

/-- The update of `leftmost` and `rightmost`. -/
def unlinkEnds (t : Rbt δ) (node : ℕ) (x z : Option ℕ) : Option (Rbt δ) := do
  let leftmost ← t.unlinkEnd .left t.leftmost node x z
  let rightmost ← t.unlinkEnd .next t.rightmost node x z
  return { t with leftmost := leftmost, rightmost := rightmost }

/-- The first part of `RBT_UNLINK` for a node with at most one child. -/
def unlinkOne (t : Rbt δ) (node : ℕ) : Option (Rbt δ × Option ℕ × Option ℕ) := do
  let z := (t.mem node).parent
  let x := (t.mem node).next.or (t.mem node).left
  let t := t.setUp x z (t.mem node).anchor
  let t ← t.unlinkEnds node x z
  return (t.setLink (t.mem node).anchor x, x, z)

/-- `RBT_UNLINK`. -/
def unlink (t : Rbt δ) (node : ℕ) : Option (Rbt δ) := do
  let fuel := t.fuel
  let t := t.dropNode
  let (t, x, z) ← match (t.mem node).left, (t.mem node).next with
    | some l, some r => t.unlinkTwo node l r
    | _, _ => t.unlinkOne node
  if (t.mem node).red = false then unlinkFix fuel t x z else return t

end Rbt

end CloudNfs
