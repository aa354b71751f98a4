import CloudNfs.Rbt

/-!
# The tree that a memory of nodes holds

The header and the nodes represent a tree of addresses when every pointer is where the tree
says: to the children, to the parent, and to the pointer to the node.

* `Linked` — a subtree, with the node above it and the pointer to it; `LinkedPath` — the
  nodes from a subtree up, `linked_plug` puts the two together.
* `Represents.replace` — the frame rule: an operation that writes only in the subtree at a
  position, and the one pointer to it, replaces this subtree.
-/

namespace CloudNfs

open RedBlack RedBlack.RbTree

variable {δ : Type}

/-! ## Reading what was written -/

variable {n : RbtNode δ} {d : Side} {p : Option ℕ}

@[simp] theorem RbtNode.child_left : n.child .left = n.left := rfl

@[simp] theorem RbtNode.child_next : n.child .next = n.next := rfl

@[simp] theorem RbtNode.red_withChild : (n.withChild d p).red = n.red := by
  cases d <;> rfl

@[simp] theorem RbtNode.parent_withChild : (n.withChild d p).parent = n.parent := by
  cases d <;> rfl

@[simp] theorem RbtNode.anchor_withChild : (n.withChild d p).anchor = n.anchor := by
  cases d <;> rfl

@[simp] theorem RbtNode.child_withChild {e : Side} :
    (n.withChild d p).child e = if e = d then p else n.child e := by
  cases d <;> cases e <;> rfl

@[simp] theorem RbtNode.value_withChild : (n.withChild d p).value = n.value := by
  cases d <;> rfl

@[simp] theorem RbtNode.opaq_withChild : (n.withChild d p).opaq = n.opaq := by
  cases d <;> rfl

namespace Rbt

section

variable {t : Rbt δ} {a b : ℕ} {d e : Side} {p q : Option ℕ} {c : Bool} {anc : Anchor}
  {f : RbtNode δ → RbtNode δ}

@[simp] theorem root_modify : (t.modify a f).root = t.root := rfl

@[simp] theorem mem_addNode : t.addNode.mem = t.mem := rfl

@[simp] theorem mem_dropNode : t.dropNode.mem = t.mem := rfl

@[simp] theorem numNode_modify : (t.modify a f).numNode = t.numNode := rfl

theorem mem_modify : (t.modify a f).mem b = if b = a then f (t.mem b) else t.mem b := by
  by_cases h : b = a
  · subst h
    simp [modify]
  · simp [modify, h]

theorem mem_setRed : (t.setRed a c).mem b = if b = a then { t.mem b with red := c } else t.mem b :=
  mem_modify

theorem mem_setParent :
    (t.setParent a p).mem b = if b = a then { t.mem b with parent := p } else t.mem b :=
  mem_modify

theorem mem_setAnchor :
    (t.setAnchor a anc).mem b = if b = a then { t.mem b with anchor := anc } else t.mem b :=
  mem_modify

theorem mem_setChild :
    (t.setChild a d p).mem b = if b = a then (t.mem b).withChild d p else t.mem b :=
  mem_modify

theorem mem_setUp : (t.setUp p q anc).mem b =
    if p = some b then { t.mem b with parent := q, anchor := anc } else t.mem b := by
  cases p with
  | none => simp [setUp]
  | some a =>
    by_cases h : b = a
    · simp [setUp, mem_setAnchor, mem_setParent, h]
    · simp [setUp, mem_setAnchor, mem_setParent, h, Ne.symm h]

theorem mem_setLink : (t.setLink anc p).mem b =
    match anc with
    | .root => t.mem b
    | .child a d => if b = a then (t.mem b).withChild d p else t.mem b := by
  cases anc with
  | root => rfl
  | child a d => exact mem_setChild

@[simp] theorem root_setRed : (t.setRed a c).root = t.root := rfl

@[simp] theorem root_setParent : (t.setParent a p).root = t.root := rfl

@[simp] theorem root_setAnchor : (t.setAnchor a anc).root = t.root := rfl

@[simp] theorem root_setChild : (t.setChild a d p).root = t.root := rfl

@[simp] theorem root_setUp : (t.setUp p q anc).root = t.root := by
  cases p <;> rfl

@[simp] theorem root_clearRed : (t.clearRed p).root = t.root := by
  cases p <;> rfl

theorem root_setLink : (t.setLink anc p).root = if anc = .root then p else t.root := by
  cases anc <;> rfl

end

/-! ## Linked subtrees -/

/-- The nodes of a subtree are linked to each other, and its root to the node above and to the
pointer to it. -/
def Linked (m : ℕ → RbtNode δ) : Option ℕ → Anchor → RbTree ℕ → Prop
  | _, _, .nil => True
  | par, anc, .node red l a r =>
    ((m a).red = red ∧ (m a).parent = par ∧ (m a).anchor = anc) ∧
      ((m a).left = l.root ∧ (m a).next = r.root) ∧
      Linked m (some a) (.child a .left) l ∧ Linked m (some a) (.child a .next) r

section

variable {m m' : ℕ → RbtNode δ} {par par' : Option ℕ} {anc anc' : Anchor} {s s' T : RbTree ℕ}
  {a : ℕ} {d : Side} {red : Bool}

theorem linked_nodeAt : Linked m par anc (nodeAt d s red a s') ↔
    ((m a).red = red ∧ (m a).parent = par ∧ (m a).anchor = anc) ∧
      ((m a).child d = s.root ∧ (m a).child d.other = s'.root) ∧
      Linked m (some a) (.child a d) s ∧ Linked m (some a) (.child a d.other) s' := by
  cases d with
  | left => rfl
  | next =>
    simp only [nodeAt, Linked, RbtNode.child, Side.other]
    tauto

theorem Linked.frame (h : Linked m par anc T) (heq : ∀ a ∈ T.toList, m' a = m a) :
    Linked m' par anc T := by
  induction T generalizing par anc with
  | nil => trivial
  | node red l a r ihl ihr =>
    obtain ⟨hup, hdown, hl, hr⟩ := h
    have ha : m' a = m a := heq a (by simp [toList])
    refine ⟨by rwa [ha], by rwa [ha], ?_, ?_⟩
    · exact ihl hl fun b hb => heq b (by simp [toList, hb])
    · exact ihr hr fun b hb => heq b (by simp [toList, hb])

theorem Linked.reroot (h : Linked m par anc T) (hnodup : T.toList.Nodup)
    (hroot : ∀ a, T.root = some a → m' a = { m a with parent := par', anchor := anc' })
    (heq : ∀ a ∈ T.toList, T.root ≠ some a → m' a = m a) : Linked m' par' anc' T := by
  cases T with
  | nil => trivial
  | node red l a r =>
    obtain ⟨⟨hred, -, -⟩, hdown, hl, hr⟩ := h
    obtain ⟨-, hr', hlr⟩ := List.nodup_append.mp hnodup
    have ha := hroot a rfl
    refine ⟨by simp [ha, hred], by simpa [ha] using hdown, hl.frame fun b hb => ?_,
      hr.frame fun b hb => ?_⟩
    · refine heq b (by simp [toList, hb]) fun hba => ?_
      exact hlr b hb a (by simp) (Option.some.inj hba).symm
    · refine heq b (by simp [toList, hb]) fun hba => ?_
      cases hba
      exact (List.nodup_cons.mp hr').1 hb

theorem Linked.setUp {t : Rbt δ} (h : Linked t.mem par anc T) (hnodup : T.toList.Nodup) :
    Linked (t.setUp T.root par' anc').mem par' anc' T := by
  refine h.reroot hnodup (fun a ha => ?_) fun a _ hne => ?_
  · exact mem_setUp.trans (if_pos ha)
  · exact mem_setUp.trans (if_neg hne)

end

/-! ## Linked paths -/

/-- The node above the end of a path. -/
def above (par : Option ℕ) : List (Step ℕ) → Option ℕ
  | [] => par
  | f :: _ => some f.elem

/-- The pointer to the end of a path. -/
def hole (anc : Anchor) : List (Step ℕ) → Anchor
  | [] => anc
  | f :: _ => .child f.elem f.side

/-- The nodes of a path are linked to each other and to their other subtrees, and the pointer to
the end of the path is `ptr`. -/
def LinkedPath (m : ℕ → RbtNode δ) (par : Option ℕ) (anc : Anchor) :
    List (Step ℕ) → Option ℕ → Prop
  | [], _ => True
  | f :: p, ptr =>
    ((m f.elem).red = f.red ∧ (m f.elem).parent = above par p ∧ (m f.elem).anchor = hole anc p) ∧
      ((m f.elem).child f.side = ptr ∧ (m f.elem).child f.side.other = f.other.root) ∧
      Linked m (some f.elem) (.child f.elem f.side.other) f.other ∧
      LinkedPath m par anc p (some f.elem)

section

variable {m m' : ℕ → RbtNode δ} {par : Option ℕ} {anc : Anchor} {s : RbTree ℕ}
  {p : List (Step ℕ)} {ptr : Option ℕ}

theorem linked_plug : Linked m par anc (plug s p) ↔
    Linked m (above par p) (hole anc p) s ∧ LinkedPath m par anc p s.root := by
  induction p generalizing s with
  | nil => exact ⟨fun h => ⟨h, trivial⟩, And.left⟩
  | cons f p ih =>
    rw [plug_cons, ih, linked_nodeAt, root_nodeAt]
    simp only [LinkedPath, above, hole]
    tauto

theorem LinkedPath.frame (h : LinkedPath m par anc p ptr) (heq : ∀ a ∈ elems p, m' a = m a) :
    LinkedPath m' par anc p ptr := by
  induction p generalizing ptr with
  | nil => trivial
  | cons f p ih =>
    obtain ⟨hup, hdown, ho, hp⟩ := h
    have hf : m' f.elem = m f.elem := heq _ (by simp [elems])
    refine ⟨by rwa [hf], by rwa [hf], ?_, ?_⟩
    · exact ho.frame fun b hb => heq b (by simp [elems, hb])
    · exact ih hp fun b hb => heq b (by simp [elems, hb])

theorem mem_setLink_hole {t : Rbt δ} {a : ℕ} (h : a ∉ elems p) :
    (t.setLink (hole .root p) ptr).mem a = t.mem a := by
  cases p with
  | nil => rfl
  | cons f p => exact mem_setChild.trans (if_neg fun ha : a = f.elem => h (by simp [elems, ha]))

theorem LinkedPath.setLink {t : Rbt δ} {ptr' : Option ℕ} (h : LinkedPath t.mem par anc p ptr)
    (hnodup : (elems p).Nodup) : LinkedPath (t.setLink (hole .root p) ptr').mem par anc p ptr' := by
  cases p with
  | nil => trivial
  | cons f p =>
    obtain ⟨hup, ⟨-, hother⟩, ho, hp⟩ := h
    have hf := (List.nodup_cons.mp hnodup).1
    have hne : ∀ b ∈ f.other.toList ++ elems p,
        (t.setLink (hole .root (f :: p)) ptr').mem b = t.mem b := by
      intro b hb
      exact mem_setChild.trans (if_neg fun hbf : b = f.elem => hf (hbf ▸ hb))
    have hmem : (t.setLink (hole .root (f :: p)) ptr').mem f.elem =
        (t.mem f.elem).withChild f.side ptr' :=
      mem_setChild.trans (if_pos rfl)
    refine ⟨by simpa [hmem] using hup, ?_, ?_, ?_⟩
    · simp [hmem, Side.other_ne, hother]
    · exact ho.frame fun b hb => hne b (List.mem_append_left _ hb)
    · exact hp.frame fun b hb => hne b (List.mem_append_right _ hb)

end

/-! ## The whole tree -/

structure Represents (t : Rbt δ) (T : RbTree ℕ) : Prop where
  root : t.root = T.root
  linked : Linked t.mem none .root T
  nodup : T.toList.Nodup

structure SameData (t t' : Rbt δ) : Prop where
  data : ∀ a, (t'.mem a).value = (t.mem a).value ∧ (t'.mem a).opaq = (t.mem a).opaq
  numNode : t'.numNode = t.numNode
  rbtNumNode : t'.rbtNumNode = t.rbtNumNode

/-- There are `n` nodes, and `rbt_num_node` counts them modulo `2 ^ 32`. -/
def Counts (t : Rbt δ) (n : ℕ) : Prop := t.numNode = n ∧ t.rbtNumNode = .ofNat n

section

variable {t t' : Rbt δ} {s s' : RbTree ℕ} {p : List (Step ℕ)} {f : Step ℕ} {x : ℕ} {d : Side}
  {c : Bool}

theorem Represents.frame {T : RbTree ℕ} (h : Represents t T) (hroot : t'.root = t.root)
    (hmem : ∀ a ∈ T.toList, t'.mem a = t.mem a) : Represents t' T :=
  ⟨hroot.trans h.root, h.linked.frame hmem, h.nodup⟩

theorem Represents.subtree (h : Represents t (plug s p)) :
    Linked t.mem (above none p) (hole .root p) s :=
  (linked_plug.mp h.linked).1

theorem Represents.path (h : Represents t (plug s p)) : LinkedPath t.mem none .root p s.root :=
  (linked_plug.mp h.linked).2

theorem Represents.down (h : Represents t (plug (nodeAt d s c x s') p)) :
    Represents t (plug s (⟨d, c, x, s'⟩ :: p)) :=
  h

theorem Represents.sibling (h : Represents t (plug s (⟨d, c, x, s'⟩ :: p))) :
    Represents t (plug s' (⟨d.other, c, x, s⟩ :: p)) := by
  rw [plug_cons, nodeAt_other]
  exact h

theorem Represents.parent (h : Represents t (plug s p)) (hroot : s.root = some x) :
    (t.mem x).parent = above none p := by
  obtain ⟨c, l, r, rfl⟩ := exists_nodeAt .left hroot
  exact (linked_nodeAt.mp h.subtree).1.2.1

theorem Represents.isRed (h : Represents t (plug s p)) : t.isRed s.root = s.isRed := by
  have := h.subtree
  cases s with
  | nil => rfl
  | node red l a r => exact this.1.1

theorem Represents.child_eq_iff (h : Represents t (plug s (f :: p))) (hroot : s.root = some x)
    (d : Side) : (t.mem f.elem).child d = some x ↔ f.side = d := by
  obtain ⟨-, ⟨hside, hother⟩, -, -⟩ := h.path
  by_cases hd : d = f.side
  · subst hd
    exact iff_of_true (hside.trans hroot) rfl
  refine iff_of_false (fun hx => ?_) (Ne.symm hd)
  rw [Side.eq_other_of_ne hd, hother] at hx
  obtain ⟨-, -, hdisj⟩ := nodup_plug.mp h.nodup
  exact hdisj (root_mem hroot) (by simp [elems, root_mem hx])

theorem Represents.next_eq_iff (h : Represents t (plug s (f :: p))) (hroot : s.root = some x) :
    (t.mem f.elem).next = some x ↔ f.side = .next :=
  h.child_eq_iff hroot .next

/-- **Replacing a subtree**: it is enough to write in the subtree, and the pointer to it. -/
theorem Represents.replace (h : Represents t (plug s p)) (hnodup : s'.toList.Nodup)
    (hdisj : s'.toList.Disjoint (elems p))
    (hroot : t'.root = (t.setLink (hole .root p) s'.root).root)
    (hmem : ∀ a ∈ elems p, t'.mem a = (t.setLink (hole .root p) s'.root).mem a)
    (hs : Linked t'.mem (above none p) (hole .root p) s') : Represents t' (plug s' p) := by
  have hp := (nodup_plug.mp h.nodup).2.1
  refine ⟨?_, linked_plug.mpr ⟨hs, (h.path.setLink hp).frame hmem⟩,
    nodup_plug.mpr ⟨hnodup, hp, hdisj⟩⟩
  rw [hroot]
  cases p with
  | nil => rfl
  | cons f p => exact h.root.trans root_plug_cons

theorem Represents.relink (h : Represents t (plug s p)) (t' : Rbt δ) (s' : RbTree ℕ)
    (hnodup : s'.toList.Nodup) (hdisj : s'.toList.Disjoint (elems p)) (hroot : t'.root = t.root)
    (hmem : ∀ a ∈ elems p, t'.mem a = t.mem a)
    (hs : Linked t'.mem (above none p) (hole .root p) s') :
    Represents (t'.setLink (hole .root p) s'.root) (plug s' p) := by
  refine h.replace hnodup hdisj ?_ (fun a ha => ?_) (hs.frame fun a ha => ?_)
  · rw [root_setLink, root_setLink, hroot]
  · rw [mem_setLink, mem_setLink, hmem a ha]
  · exact mem_setLink_hole fun hmem => hdisj ha hmem

theorem Represents.update (h : Represents t (plug s p)) (hnodup : s'.toList.Nodup)
    (hdisj : s'.toList.Disjoint (elems p)) (hsroot : s'.root = s.root) (hroot : t'.root = t.root)
    (hmem : ∀ a ∈ elems p, t'.mem a = t.mem a)
    (hs : Linked t'.mem (above none p) (hole .root p) s') : Represents t' (plug s' p) := by
  have hpath : LinkedPath t'.mem none .root p s'.root := by
    rw [hsroot]
    exact h.path.frame hmem
  refine ⟨?_, linked_plug.mpr ⟨hs, hpath⟩,
    nodup_plug.mpr ⟨hnodup, (nodup_plug.mp h.nodup).2.1, hdisj⟩⟩
  rw [hroot, h.root]
  cases p with
  | nil => exact hsroot.symm
  | cons f p => exact root_plug_cons

end

/-! ## Data -/

section

variable {t t' t'' : Rbt δ} {a : ℕ} {d : Side} {p q : Option ℕ} {c : Bool} {anc : Anchor}
  {f : RbtNode δ → RbtNode δ}

theorem SameData.refl : SameData t t := ⟨fun _ => ⟨rfl, rfl⟩, rfl, rfl⟩

theorem SameData.trans (h : SameData t t') (h' : SameData t' t'') : SameData t t'' := by
  refine ⟨fun a => ⟨?_, ?_⟩, h'.numNode.trans h.numNode, h'.rbtNumNode.trans h.rbtNumNode⟩
  · exact (h'.data a).1.trans (h.data a).1
  · exact (h'.data a).2.trans (h.data a).2

theorem Counts.added {n : ℕ} (h : t.Counts n) (hdata : SameData t.addNode t') :
    t'.Counts (n + 1) := by
  refine ⟨hdata.numNode.trans (congrArg (· + 1) h.1), hdata.rbtNumNode.trans ?_⟩
  rw [addNode, h.2, UInt32.ofNat_add]
  rfl

theorem Counts.dropped {n : ℕ} (h : t.Counts (n + 1)) (hdata : SameData t.dropNode t') :
    t'.Counts n := by
  refine ⟨hdata.numNode.trans (congrArg (· - 1) h.1), hdata.rbtNumNode.trans ?_⟩
  rw [dropNode, h.2, UInt32.ofNat_add]
  exact UInt32.add_sub_cancel _ _

theorem sameData_modify (hf : ∀ n, (f n).value = n.value ∧ (f n).opaq = n.opaq) :
    SameData t (t.modify a f) := by
  refine ⟨fun b => ?_, rfl, rfl⟩
  rw [mem_modify]
  by_cases h : b = a
  · rw [if_pos h]
    exact hf _
  · rw [if_neg h]
    exact ⟨rfl, rfl⟩

theorem sameData_setRed : SameData t (t.setRed a c) := sameData_modify fun _ => ⟨rfl, rfl⟩

theorem sameData_setParent : SameData t (t.setParent a p) := sameData_modify fun _ => ⟨rfl, rfl⟩

theorem sameData_setAnchor : SameData t (t.setAnchor a anc) := sameData_modify fun _ => ⟨rfl, rfl⟩

theorem sameData_setChild : SameData t (t.setChild a d p) :=
  sameData_modify fun _ => ⟨RbtNode.value_withChild, RbtNode.opaq_withChild⟩

theorem sameData_setLink : SameData t (t.setLink anc p) := by
  cases anc with
  | root => exact ⟨fun _ => ⟨rfl, rfl⟩, rfl, rfl⟩
  | child a d => exact sameData_setChild

theorem sameData_setUp : SameData t (t.setUp p q anc) := by
  cases p with
  | none => exact .refl
  | some a => exact sameData_setParent.trans sameData_setAnchor

theorem sameData_clearRed : SameData t (t.clearRed p) := by
  cases p with
  | none => exact .refl
  | some a => exact sameData_setRed

end

/-! ## Colours and rotations -/

section

variable {t : Rbt δ} {s s' A B C : RbTree ℕ} {p : List (Step ℕ)} {a x y : ℕ} {d : Side}
  {c c' : Bool}

theorem setRed_spec {e : Bool} (h : Represents t (plug (nodeAt d s c a s') p)) :
    Represents (t.setRed a e) (plug (nodeAt d s e a s') p) := by
  obtain ⟨hn, hp, hdisj⟩ := nodup_plug.mp h.nodup
  obtain ⟨⟨hs, hs'⟩, -⟩ := nodup_nodeAt.mp hn
  obtain ⟨⟨-, hup⟩, hdown, hl, hr⟩ := linked_nodeAt.mp h.subtree
  have hframe : ∀ b, b ≠ a → (t.setRed a e).mem b = t.mem b := fun b hb =>
    mem_setRed.trans (if_neg hb)
  have ha : (t.setRed a e).mem a = { t.mem a with red := e } := mem_setRed.trans (if_pos rfl)
  refine h.update (nodup_nodeAt.mpr (nodup_nodeAt.mp hn)) ?_ (by simp) rfl ?_ ?_
  · intro b hb
    exact hdisj (mem_nodeAt.mpr (mem_nodeAt.mp hb))
  · intro b hb
    refine hframe b fun hba => hdisj (mem_nodeAt.mpr (.inl hba)) hb
  · refine linked_nodeAt.mpr ⟨by simpa [ha] using hup, ?_, ?_, ?_⟩
    · rw [ha]
      exact hdown
    · exact hl.frame fun b hb => hframe b fun hba => hs (hba ▸ hb)
    · exact hr.frame fun b hb => hframe b fun hba => hs' (hba ▸ hb)

theorem clearRed_spec (h : Represents t (plug s p)) :
    Represents (t.clearRed s.root) (plug s.blacken p) := by
  cases s with
  | nil => exact h
  | node red l a r => exact setRed_spec (d := .left) h

theorem setRed_root_spec (h : Represents t (plug s p)) (hroot : s.root = some a) :
    Represents (t.setRed a true) (plug s.redden p) := by
  obtain ⟨red, l, r, rfl⟩ := exists_nodeAt .left hroot
  rw [redden_nodeAt]
  exact setRed_spec h

/-- The writes of a rotation but for the pointer from above: `y` is the child that takes the
place of `x`, and `b` the root of the subtree between the two. -/
def rotateLinks (t : Rbt δ) (d : Side) (x y : ℕ) (b par : Option ℕ) (anc : Anchor) : Rbt δ :=
  (((((((t.setChild x d.other b).setUp b (some x) (.child x d.other)).setParent y par).setChild
    y d (some x)).setAnchor y anc).setParent x (some y)).setAnchor x (.child y d))

section

variable {b par : Option ℕ} {anc : Anchor}

theorem rotate_eq (hxy : x ≠ y) (hy : (t.mem x).child d.other = some y)
    (hbx : (t.mem y).child d ≠ some x) (hby : (t.mem y).child d ≠ some y) :
    t.rotate d x = some ((t.rotateLinks d x y ((t.mem y).child d) (t.mem x).parent
      (t.mem x).anchor).setLink (t.mem x).anchor (some y)) := by
  simp [rotate, rotateLinks, hy, mem_setChild, mem_setUp, mem_setParent, mem_setAnchor, hxy,
    hxy.symm, hbx, hby]

theorem rotateLinks_mem_down (hxy : x ≠ y) (hbx : b ≠ some x) :
    (t.rotateLinks d x y b par anc).mem x =
      { (t.mem x).withChild d.other b with parent := some y, anchor := .child y d } := by
  simp [rotateLinks, mem_setChild, mem_setUp, mem_setParent, mem_setAnchor, hxy, hbx]

theorem rotateLinks_mem_up (hxy : x ≠ y) (hby : b ≠ some y) :
    (t.rotateLinks d x y b par anc).mem y =
      { (t.mem y).withChild d (some x) with parent := par, anchor := anc } := by
  cases d <;> simp [rotateLinks, mem_setChild, mem_setUp, mem_setParent, mem_setAnchor, hxy.symm,
    hby, RbtNode.withChild]

theorem rotateLinks_mem_between (hax : a ≠ x) (hay : a ≠ y) :
    (t.rotateLinks d x y (some a) par anc).mem a =
      { t.mem a with parent := some x, anchor := .child x d.other } := by
  simp [rotateLinks, mem_setChild, mem_setUp, mem_setParent, mem_setAnchor, hax, hay]

theorem rotateLinks_mem_ne (hax : a ≠ x) (hay : a ≠ y) (hab : b ≠ some a) :
    (t.rotateLinks d x y b par anc).mem a = t.mem a := by
  simp [rotateLinks, mem_setChild, mem_setUp, mem_setParent, mem_setAnchor, hax, hay, hab]

theorem sameData_rotateLinks : SameData t (t.rotateLinks d x y b par anc) :=
  sameData_setChild.trans <| sameData_setUp.trans <| sameData_setParent.trans <|
    sameData_setChild.trans <| sameData_setAnchor.trans <| sameData_setParent.trans
    sameData_setAnchor

end

theorem linked_rotateLinks {par : Option ℕ} {anc : Anchor}
    (h : Linked t.mem par anc (nodeAt d A c x (nodeAt d B c' y C)))
    (hn : (nodeAt d A c x (nodeAt d B c' y C)).toList.Nodup) :
    Linked (t.rotateLinks d x y B.root par anc).mem par anc
      (nodeAt d (nodeAt d A c x B) c' y C) := by
  obtain ⟨⟨hxA, hxyBC⟩, -, hyBC, hAyBC⟩ := nodup_nodeAt.mp hn
  obtain ⟨⟨hyB, hyC⟩, hB, -, hBC⟩ := nodup_nodeAt.mp hyBC
  simp only [mem_nodeAt, not_or] at hxyBC
  obtain ⟨hxy, hxB, hxC⟩ := hxyBC
  have hyA : y ∉ A.toList := fun hy => hAyBC hy (mem_nodeAt.mpr (.inl rfl))
  have hAB : A.toList.Disjoint B.toList := fun a ha hb =>
    hAyBC ha (mem_nodeAt.mpr (.inr (.inl hb)))
  obtain ⟨⟨hxred, -, -⟩, ⟨hxd, -⟩, lA, lyBC⟩ := linked_nodeAt.mp h
  obtain ⟨⟨hyred, -, -⟩, ⟨-, hyo⟩, lB, lC⟩ := linked_nodeAt.mp lyBC
  -- a subtree that has neither node, nor the root that moves from one to the other
  have hframe : ∀ {T : RbTree ℕ} {par' : Option ℕ} {anc' : Anchor}, Linked t.mem par' anc' T →
      x ∉ T.toList → y ∉ T.toList → T.toList.Disjoint B.toList →
      Linked (t.rotateLinks d x y B.root par anc).mem par' anc' T := by
    intro T par' anc' hT hxT hyT hTB
    refine hT.frame fun a ha => rotateLinks_mem_ne ?_ ?_ fun hab => hTB ha (root_mem hab)
    · exact fun hax => hxT (hax ▸ ha)
    · exact fun hay => hyT (hay ▸ ha)
  have lB' : Linked (t.rotateLinks d x y B.root par anc).mem (some x) (.child x d.other) B := by
    refine lB.reroot hB (fun a ha => ?_) fun a ha hne => rotateLinks_mem_ne ?_ ?_ hne
    · rw [ha]
      refine rotateLinks_mem_between (fun hax => hxB ?_) fun hay => hyB ?_
      · exact hax ▸ root_mem ha
      · exact hay ▸ root_mem ha
    · exact fun hax => hxB (hax ▸ ha)
    · exact fun hay => hyB (hay ▸ ha)
  rw [linked_nodeAt, linked_nodeAt, rotateLinks_mem_down hxy (root_ne_of_not_mem hxB),
    rotateLinks_mem_up hxy (root_ne_of_not_mem hyB)]
  simp only [RbtNode.red_withChild, root_nodeAt, and_true]
  refine ⟨hyred, ?_, ⟨hxred, ?_, hframe lA hxA hyA hAB, lB'⟩,
    hframe lC hxC hyC fun a hC hB => hBC hB hC⟩
  · change ((t.mem y).withChild d (some x)).child d = _ ∧
      ((t.mem y).withChild d (some x)).child d.other = _
    simp [Side.other_ne, hyo]
  · change ((t.mem x).withChild d.other B.root).child d = _ ∧
      ((t.mem x).withChild d.other B.root).child d.other = _
    simp [Side.other_ne.symm, hxd]

/-- **Rotations**: the node at the position goes down, and its child takes its place. -/
theorem rotate_spec (h : Represents t (plug (nodeAt d A c x (nodeAt d B c' y C)) p)) :
    ∃ t', t.rotate d x = some t' ∧
      Represents t' (plug (nodeAt d (nodeAt d A c x B) c' y C) p) ∧ SameData t t' := by
  obtain ⟨hn, -, hdisj⟩ := nodup_plug.mp h.nodup
  obtain ⟨⟨-, hxyBC⟩, -, hyBC, -⟩ := nodup_nodeAt.mp hn
  obtain ⟨⟨hyB, -⟩, -⟩ := nodup_nodeAt.mp hyBC
  simp only [mem_nodeAt, not_or] at hxyBC
  obtain ⟨hxy, hxB, -⟩ := hxyBC
  obtain ⟨⟨-, hxpar, hxanc⟩, ⟨-, hxo⟩, -, lyBC⟩ := linked_nodeAt.mp h.subtree
  obtain ⟨-, ⟨hyd, -⟩, -⟩ := linked_nodeAt.mp lyBC
  have heq := rotate_eq hxy (hxo.trans root_nodeAt) (hyd.symm ▸ root_ne_of_not_mem hxB)
    (hyd.symm ▸ root_ne_of_not_mem hyB)
  rw [hyd, hxpar, hxanc] at heq
  refine ⟨_, heq, ?_, sameData_rotateLinks.trans sameData_setLink⟩
  have hrel := h.relink (t.rotateLinks d x y B.root (above none p) (hole .root p)) _
    (toList_rotate ▸ hn) (toList_rotate ▸ hdisj) (by simp [rotateLinks]) ?_
    (linked_rotateLinks h.subtree hn)
  · rwa [root_nodeAt] at hrel
  · intro a ha
    refine rotateLinks_mem_ne ?_ ?_ ?_
    · exact fun hax => hdisj (mem_nodeAt.mpr (.inl hax)) ha
    · exact fun hay => hdisj (mem_nodeAt.mpr (.inr (.inr (mem_nodeAt.mpr (.inl hay))))) ha
    · intro hab
      refine hdisj (mem_nodeAt.mpr (.inr (.inr ?_))) ha
      exact mem_nodeAt.mpr (.inr (.inl (root_mem hab)))

end

end Rbt
end CloudNfs
