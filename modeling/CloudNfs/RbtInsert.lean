import CloudNfs.RbtWalk

/-!
# Insertion into a red-black tree

`RBT_INSERT`, from the node that `RBT_FIND` returned.
-/

namespace CloudNfs.Rbt

open RedBlack RedBlack.RbTree

variable {δ : Type} {t : Rbt δ} {T s o u : RbTree ℕ} {p : List (Step ℕ)} {a q g x y : ℕ}
  {d e : Side} {c : Bool} {n : ℕ} {val : ℤ} {nodes : List ℕ}

/-- A balanced tree with these nodes in order. -/
def Holds (t : Rbt δ) (nodes : List ℕ) : Prop :=
  ∃ T, Represents t T ∧ T.Balanced ∧ T.toList = nodes

/-! ## The loop -/

theorem insertOuter_spec (h : Represents t (plug s (⟨d, true, q, o⟩ :: ⟨d, c, g, u⟩ :: p)))
    (hroot : s.root = some x) : ∃ t', t.insertOuter d x = some t' ∧
      Represents t' (plug (nodeAt d s false q (nodeAt d o true g u)) p) ∧ SameData t t' := by
  have hq : Represents (t.setRed q false) (plug (nodeAt d s false q o) (⟨d, c, g, u⟩ :: p)) :=
    setRed_spec h
  have hg : Represents ((t.setRed q false).setRed g true)
      (plug (nodeAt d.other u true g (nodeAt d.other o false q s)) p) := by
    rw [nodeAt_other, nodeAt_other]
    exact setRed_spec hq
  obtain ⟨t', ht', hrep, hdata⟩ := rotate_spec hg
  rw [nodeAt_other, nodeAt_other] at hrep
  refine ⟨t', ?_, hrep, (sameData_setRed.trans sameData_setRed).trans hdata⟩
  simp only [insertOuter, h.parent hroot, above, Option.bind_eq_bind, Option.bind_some,
    hq.parent root_nodeAt, ht']

theorem insertRotate_spec (h : Represents t (plug s (⟨e, true, q, o⟩ :: ⟨d, c, g, u⟩ :: p)))
    (hP : Pending s (⟨e, true, q, o⟩ :: ⟨d, c, g, u⟩ :: p)) (hs : s.isRed = true)
    (hroot : s.root = some x) (hu : u.isRed = false) :
    ∃ t', t.insertRotate d x q = some t' ∧
      Holds t' (plug s (⟨e, true, q, o⟩ :: ⟨d, c, g, u⟩ :: p)).toList ∧ SameData t t' := by
  have hinner := h.child_eq_iff hroot d.other
  by_cases he : e = d
  · -- the outer side
    subst he
    obtain ⟨t', ht', hrep, hdata⟩ := insertOuter_spec h hroot
    have hbal := hP.balanced_rotate hu
    rw [redden_of_isRed hs] at hbal
    refine ⟨t', ?_, ⟨_, hrep, hbal, ?_⟩, hdata⟩
    · rw [insertRotate, if_neg (hinner.not.mpr Side.other_ne.symm), ht']
    · refine toList_plug_congr ?_
      cases e <;> simp [nodeAt]
  -- the inner side: a rotation puts the parent on the outer side
  obtain rfl := Side.eq_other_of_ne he
  obtain ⟨c', s1, s2, rfl⟩ := exists_nodeAt d hroot
  obtain rfl : c' = true := by simpa using hs
  have hin : Represents t (plug (nodeAt d o true q (nodeAt d s1 true x s2))
      (⟨d, c, g, u⟩ :: p)) := by
    rw [← nodeAt_other]
    exact h
  obtain ⟨t1, ht1, hrep1, hdata1⟩ := rotate_spec hin
  obtain ⟨t', ht', hrep, hdata⟩ :=
    insertOuter_spec (s := nodeAt d o true q s1) (o := s2) hrep1 root_nodeAt
  have hbal := hP.rotate_inner.balanced_rotate hu
  rw [redden_nodeAt] at hbal
  refine ⟨t', ?_, ⟨_, hrep, hbal, ?_⟩, hdata1.trans hdata⟩
  · rw [insertRotate, if_pos (hinner.mpr rfl), ht1]
    exact ht'
  · refine toList_plug_congr ?_
    cases d <;> simp [nodeAt, Side.other]

theorem recolour_spec (h : Represents t (plug (nodeAt e s true q o) (⟨d, false, g, u⟩ :: p)))
    (hu : u.root = some y) : Represents ((t.setRed q false).setRed y false)
      (plug (nodeAt d (nodeAt e s false q o) false g u.blacken) p) := by
  have hq := clearRed_spec (setRed_spec (e := false) h).sibling
  rw [hu, plug_cons, nodeAt_other] at hq
  exact hq

/-- **The loop of `RBT_INSERT`**: from a subtree whose root is to be red, to a balanced tree. -/
theorem insertFix_spec (h : Represents t (plug s p)) (hP : Pending s p) (hs : s.isRed = false)
    (hroot : s.root = some x) (hn : p.length < n) :
    ∃ t', insertFix n t x = some t' ∧ Holds t' (plug s p).toList ∧ SameData t t' := by
  induction n generalizing t s p x with
  | zero => exact absurd hn (Nat.not_lt_zero _)
  | succ n ih =>
    rw [insertFix, h.parent hroot]
    cases p with
    | nil =>
      refine ⟨t, rfl, ⟨s, h, ?_, rfl⟩, .refl⟩
      rw [← blacken_of_not_isRed hs]
      exact hP.balanced_root
    | cons f p =>
      obtain ⟨e, c, q, o⟩ := f
      have hx := setRed_root_spec h hroot
      have hlist : (plug s.redden (⟨e, c, q, o⟩ :: p)).toList =
          (plug s (⟨e, c, q, o⟩ :: p)).toList := toList_plug_congr toList_redden
      have hq : ((t.setRed x true).mem q).red = c := hx.path.1.1
      simp only [above, hq]
      cases c with
      | false => exact ⟨_, rfl, ⟨_, hx, hP.balanced_of_black rfl, hlist⟩, sameData_setRed⟩
      | true =>
        obtain ⟨⟨d, c, g, u⟩, p, rfl, hc⟩ := hP.path.exists_above rfl
        obtain rfl : c = false := hc
        -- the position of the parent, below the grandparent
        have hq' : Represents (t.setRed x true)
            (plug (nodeAt e s.redden true q o) (⟨d, false, g, u⟩ :: p)) := hx
        have hd : (if ((t.setRed x true).mem g).left = some q then Side.left else .next) = d := by
          have hiff := hq'.child_eq_iff root_nodeAt .left
          cases d with
          | left => exact if_pos (hiff.mpr rfl)
          | next => exact if_neg (hiff.not.mpr Side.noConfusion)
        have huncle : ((t.setRed x true).mem g).child d.other = u.root := hq'.path.2.1.2
        have hrot : u.isRed = false → ∃ t', (t.setRed x true).insertRotate d x q = some t' ∧
            Holds t' (plug s (⟨e, true, q, o⟩ :: ⟨d, false, g, u⟩ :: p)).toList ∧
            SameData t t' := by
          intro hu
          obtain ⟨t', ht', hholds, hdata⟩ := insertRotate_spec hx hP.redden (isRed_redden hroot)
            (by simpa using hroot) hu
          exact ⟨t', ht', hlist ▸ hholds, sameData_setRed.trans hdata⟩
        simp only [hq'.parent root_nodeAt, above, hd, huncle, Option.bind_eq_bind,
          Option.bind_some, Bool.true_eq_false, if_false]
        cases hu : u.root with
        | none => exact hrot (by simp [eq_nil_of_root hu, RbTree.isRed])
        | some y =>
          have hy : ((t.setRed x true).mem y).red = u.isRed := by
            have := hq'.sibling.isRed
            rwa [hu] at this
          simp only [hy]
          cases hured : u.isRed with
          | false => exact hrot hured
          | true =>
            -- the uncle is red: the colours go one generation up
            obtain ⟨t', ht', hholds, hdata⟩ := ih (recolour_spec hq' hu) (hP.recolour hured)
              isRed_nodeAt root_nodeAt (by simp only [List.length_cons] at hn; omega)
            refine ⟨t', ht', ?_, ?_⟩
            · have hlist' : (plug (nodeAt d (nodeAt e s.redden false q o) false g u.blacken)
                  p).toList
                  = (plug (nodeAt d (nodeAt e s true q o) false g u) p).toList := by
                refine toList_plug_congr ?_
                cases d <;> cases e <;> simp [nodeAt]
              exact hlist' ▸ hholds
            · exact sameData_setRed.trans (sameData_setRed.trans (sameData_setRed.trans hdata))

/-! ## The new node -/

theorem sorted_plug {l r : RbTree ℕ} (h : Sorted t.mem (plug (node c l x r) p).toList) :
    (∀ a ∈ before p ++ l.toList, (t.mem a).value ≤ (t.mem x).value) ∧
      ∀ b ∈ r.toList ++ after p, (t.mem x).value ≤ (t.mem b).value := by
  rw [Sorted, toList_plug_node, List.pairwise_append, List.pairwise_cons] at h
  exact ⟨fun a ha => h.2.2 a ha x (by simp), h.2.1.1⟩

/-- The writes of the first part of `RBT_INSERT`: the new node is at the end of a path. -/
structure LinkedAt (t t' : Rbt δ) (a : ℕ) (p : List (Step ℕ)) : Prop where
  mem : t'.mem = ((t.setLink (hole .root p) (some a)).setAnchor a (hole .root p)).mem
  root : t'.root = (t.setLink (hole .root p) (some a)).root
  numNode : t'.numNode = t.numNode
  rbtNumNode : t'.rbtNumNode = t.rbtNumNode

theorem insertLink_left (h : (t.mem a).value < (t.mem y).value ∨
      (t.mem a).value = (t.mem y).value ∧ (t.mem y).left = none) :
    ∃ t', t.insertLink a (some y) = some (t', some y) ∧
        LinkedAt t t' a (⟨.left, c, y, s⟩ :: p) := by
  refine ⟨{ t.install a y .left with
    leftmost := if t.leftmost = some y then some a else t.leftmost }, ?_, rfl, rfl, rfl, rfl⟩
  rw [insertLink, if_neg, if_neg]
  · rintro (hgt | ⟨heq, hleft⟩)
    · omega
    · exact h.elim (by omega) fun h => hleft h.2
  · rintro ⟨heq, -, hleft⟩
    exact h.elim (by omega) fun h => hleft h.2

theorem insertLink_next (h : (t.mem y).value < (t.mem a).value ∨
      (t.mem a).value = (t.mem y).value ∧ (t.mem y).left ≠ none ∧ (t.mem y).next = none) :
    ∃ t', t.insertLink a (some y) = some (t', some y) ∧
        LinkedAt t t' a (⟨.next, c, y, s⟩ :: p) := by
  refine ⟨{ t.install a y .next with
    rightmost := if t.rightmost = some y then some a else t.rightmost }, ?_, rfl, rfl, rfl, rfl⟩
  rw [insertLink, if_neg, if_pos]
  · exact h.imp id fun h => ⟨h.1, h.2.1⟩
  · rintro ⟨heq, hnext, -⟩
    exact h.elim (by omega) fun h => hnext h.2.2

theorem LinkedAt.sameData {t' : Rbt δ} (h : LinkedAt t t' a p) : SameData t t' := by
  refine ⟨fun b => ?_, h.numNode, h.rbtNumNode⟩
  rw [h.mem]
  exact (sameData_setLink.trans sameData_setAnchor).data b

/-- The first part of `RBT_INSERT` below a node with the same value: the new one goes just before
it or just after it. -/
theorem insertLink_equal {l r : RbTree ℕ} (h : Represents t (plug (node c l y r) p))
    (hsorted : Sorted t.mem (plug (node c l y r) p).toList)
    (hn : (plug (node c l y r) p).toList.length ≤ t.numNode)
    (hy : (t.mem a).value = (t.mem y).value) :
    ∃ p' t', plug (node c l y r) p = plug nil p' ∧ PlaceFor t.mem (t.mem y).value p' ∧
      t.insertLink a (some y) = some (t', above none p') ∧ LinkedAt t t' a p' := by
  obtain ⟨hbefore, hafter⟩ := sorted_plug hsorted
  obtain ⟨-, ⟨hleft, hnext⟩, hl, -⟩ := h.subtree
  cases hlroot : l.root with
  | none =>
    obtain rfl := eq_nil_of_root hlroot
    obtain ⟨t', ht', hat⟩ := insertLink_left (.inr ⟨hy, hleft⟩)
    refine ⟨⟨.left, c, y, r⟩ :: p, t', rfl, ⟨?_, ?_⟩, ht', hat⟩
    · simpa [before] using hbefore
    · simpa [after] using hafter
  | some w =>
    cases hrroot : r.root with
    | none =>
      obtain rfl := eq_nil_of_root hrroot
      obtain ⟨t', ht', hat⟩ := insertLink_next (.inr ⟨hy, by simp [hleft, hlroot], hnext⟩)
      refine ⟨⟨.next, c, y, l⟩ :: p, t', rfl, ⟨?_, ?_⟩, ht', hat⟩
      · intro b hb
        simp only [before, List.mem_append, List.mem_singleton] at hb
        rcases hb with hb | hb | rfl
        · exact hbefore b (List.mem_append_left _ hb)
        · exact hbefore b (List.mem_append_right _ hb)
        · exact Int.le_refl _
      · simpa [after] using hafter
    | some z =>
      -- the last node of the left subtree
      have hlen : l.toList.length ≤ t.fuel := by
        rw [length_plug] at hn
        simp only [toList_node, List.length_append, List.length_cons] at hn
        rw [fuel]
        omega
      obtain ⟨c', w', s', q, hw', rfl, hq⟩ := extreme_spec (d := .next) hl hlroot hlen
      refine ⟨⟨.next, c', w', s'⟩ :: (q ++ ⟨.left, c, y, r⟩ :: p), t.install a w' .next, ?_,
        ⟨?_, ?_⟩,
        ?_, rfl, rfl, rfl, rfl⟩
      · rw [plug_cons, plug_append]
        rfl
      · simpa [before, before_append, toList_plug, after_eq_nil hq, nodeAt] using hbefore
      · simpa [after, after_append, after_eq_nil hq] using hafter
      · rw [insertLink, if_pos ⟨hy, by simp [hnext, hrroot], by simp [hleft, hlroot]⟩,
          hleft, hlroot]
        simp [hw', above]

theorem insertLink_spec {par : Option ℕ} (h : Represents t T) (hsorted : Sorted t.mem T.toList)
    (hn : T.toList.length ≤ t.numNode) (hfound : Found t.mem (t.mem a).value T par) :
    ∃ p t', T = plug nil p ∧ PlaceFor t.mem (t.mem a).value p ∧
      t.insertLink a par = some (t', above none p) ∧ LinkedAt t t' a p := by
  rcases hfound with ⟨c, l, y, r, p, rfl, hy, rfl⟩ | ⟨p, rfl, rfl, hside, hplace⟩
  · rw [← hy]
    exact insertLink_equal h hsorted hn hy.symm
  · rcases p with _ | ⟨⟨_ | _, c, y, s⟩, p⟩
    · exact ⟨[], _, rfl, hplace, rfl, rfl, rfl, rfl, rfl⟩
    · obtain ⟨t', ht', hat⟩ := insertLink_left (.inl hside)
      exact ⟨_, t', rfl, hplace, ht', hat⟩
    · obtain ⟨t', ht', hat⟩ := insertLink_next (.inl hside)
      exact ⟨_, t', rfl, hplace, ht', hat⟩

theorem represents_leaf {t' : Rbt δ} (h : Represents t (plug nil p)) (hat : LinkedAt t t' a p)
    (ha : a ∉ (plug nil p).toList) :
    Represents (t'.modify a fun n =>
      { n with red := false, parent := above none p, left := none, next := none })
      (plug (node false nil a nil) p) := by
  have ha' : a ∉ elems p := by
    rwa [toList_plug_perm.mem_iff] at ha
  refine h.replace (by simp) ?_ hat.root (fun b hb => ?_) ?_
  · intro b hb hbp
    obtain rfl : b = a := by simpa using hb
    exact ha' hbp
  · have hba : b ≠ a := fun hba => ha' (hba ▸ hb)
    rw [mem_modify, if_neg hba, hat.mem, mem_setAnchor, if_neg hba]
    rfl
  · rw [Linked, mem_modify, if_pos rfl, hat.mem, mem_setAnchor, if_pos rfl]
    exact ⟨⟨rfl, rfl, rfl⟩, ⟨rfl, rfl⟩, trivial, trivial⟩

theorem pending_leaf (h : (plug nil p).Balanced) : Pending (node false nil a nil) p := by
  obtain ⟨-, -, hp, n, rfl, hpn⟩ := balanced_plug.mp h
  exact pending_nodeAt (d := .left).mpr ⟨trivial, trivial, rfl, rfl, hp, 0, rfl, rfl, hpn⟩

theorem insert_at {par : Option ℕ} {t1 : Rbt δ} (h : Represents t (plug nil p))
    (hbal : (plug nil p).Balanced) (hn : (plug nil p).toList.length ≤ t.numNode)
    (ha : a ∉ (plug nil p).toList)
    (ht1 : insertLink t.addNode a par = some (t1, above none p))
    (hat : LinkedAt t.addNode t1 a p) :
    ∃ t', t.insert a par = some t' ∧ Holds t' (before p ++ a :: after p) ∧
      SameData t.addNode t' := by
  have h' : Represents t.addNode (plug nil p) :=
    ⟨h.root, h.linked, h.nodup⟩
  have hleaf := represents_leaf h' hat ha
  have hfuel : p.length < t.numNode + 1 + 1 := by
    have := length_le_elems (p := p)
    rw [length_plug] at hn
    omega
  obtain ⟨t', ht', hholds, hdata⟩ := insertFix_spec hleaf (pending_leaf hbal) rfl rfl hfuel
  refine ⟨t', ?_, by simpa [toList_plug] using hholds, ?_⟩
  · have hnum : t1.numNode = t.numNode + 1 := hat.numNode
    simp only [insert, ht1, Option.bind_eq_bind, Option.bind_some, fuel, numNode_modify, hnum]
    exact ht'
  · refine hat.sameData.trans (SameData.trans ?_ hdata)
    exact sameData_modify fun _ => ⟨rfl, rfl⟩

/-- **`RBT_INSERT`**: the new node stands after all that are less and before all that are
greater, and the tree stays balanced. -/
theorem insert_spec {par : Option ℕ} (h : Represents t T) (hbal : T.Balanced)
    (hsorted : Sorted t.mem T.toList) (hn : T.toList.length ≤ t.numNode) (ha : a ∉ T.toList)
    (hfound : Found t.mem (t.mem a).value T par) :
    ∃ t' xs ys, t.insert a par = some t' ∧ T.toList = xs ++ ys ∧ Holds t' (xs ++ a :: ys) ∧
      ((∀ b ∈ xs, (t.mem b).value ≤ (t.mem a).value) ∧
        ∀ b ∈ ys, (t.mem a).value ≤ (t.mem b).value) ∧
      SameData t.addNode t' := by
  have h' : Represents t.addNode T := ⟨h.root, h.linked, h.nodup⟩
  obtain ⟨p, t1, rfl, hplace, ht1, hat⟩ :=
    insertLink_spec h' hsorted (Nat.le_succ_of_le hn) hfound
  obtain ⟨t', ht', hholds, hdata⟩ := insert_at h hbal hn ha ht1 hat
  exact ⟨t', before p, after p, ht', by simp [toList_plug], hholds,
    ⟨hplace.1, hplace.2⟩, hdata⟩

end CloudNfs.Rbt
