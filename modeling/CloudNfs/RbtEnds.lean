import CloudNfs.RbtInsert
import CloudNfs.RbtUnlink

/-!
# The two ends of a red-black tree

The header of a tree points to the first node and to the last one, for `RBT_LOOP` and
`RBT_LOOP_REVERSE`. Rotations and colours do not concern these two pointers: they are written where
a node is put in or taken out, and only there.
-/

namespace CloudNfs.Rbt

open RedBlack RedBlack.RbTree

variable {δ : Type} {t t' t1 : Rbt δ} {T s l r : RbTree ℕ} {p : List (Step ℕ)} {a x y z : ℕ}
  {d : Side} {c : Bool} {n : ℕ} {nodes xs ys : List ℕ}

/-- The header points to the first node and to the last. -/
structure Ends (t : Rbt δ) (nodes : List ℕ) : Prop where
  leftmost : t.leftmost = nodes.head?
  rightmost : t.rightmost = nodes.getLast?

/-! ## What does not concern the ends -/

def SameEnds (t t' : Rbt δ) : Prop :=
  t'.leftmost = t.leftmost ∧ t'.rightmost = t.rightmost

theorem SameEnds.refl : SameEnds t t := ⟨rfl, rfl⟩

theorem SameEnds.trans (h : SameEnds t t1) (h' : SameEnds t1 t') : SameEnds t t' :=
  ⟨h'.1.trans h.1, h'.2.trans h.2⟩

theorem SameEnds.ends (h : SameEnds t t') (hends : Ends t nodes) : Ends t' nodes :=
  ⟨h.1.trans hends.leftmost, h.2.trans hends.rightmost⟩

theorem sameEnds_setRed : SameEnds t (t.setRed a c) := ⟨rfl, rfl⟩

variable {anc : Anchor} {q par : Option ℕ}

theorem sameEnds_setLink : SameEnds t (t.setLink anc q) := by
  cases anc <;> exact ⟨rfl, rfl⟩

theorem sameEnds_setUp : SameEnds t (t.setUp q par anc) := by
  cases q <;> exact ⟨rfl, rfl⟩

theorem sameEnds_clearRed : SameEnds t (t.clearRed q) := by
  cases q <;> exact ⟨rfl, rfl⟩

theorem sameEnds_rotate (h : t.rotate d x = some t') : SameEnds t t' := by
  simp only [rotate, Option.bind_eq_bind, Option.bind_eq_some_iff, Option.pure_def,
    Option.some.injEq] at h
  obtain ⟨yy, -, rfl⟩ := h
  refine SameEnds.trans ?_ sameEnds_setLink
  have hchild : SameEnds t (t.setChild x d.other ((t.mem yy).child d)) := ⟨rfl, rfl⟩
  exact hchild.trans (SameEnds.trans sameEnds_setUp ⟨rfl, rfl⟩)

theorem sameEnds_insertOuter (h : t.insertOuter d x = some t') : SameEnds t t' := by
  simp only [insertOuter, Option.bind_eq_bind, Option.bind_eq_some_iff] at h
  obtain ⟨par, -, gp, -, h⟩ := h
  have hred : SameEnds t ((t.setRed par false).setRed gp true) := ⟨rfl, rfl⟩
  exact hred.trans (sameEnds_rotate h)

theorem sameEnds_insertRotate (h : t.insertRotate d x y = some t') : SameEnds t t' := by
  rw [insertRotate] at h
  split at h
  · obtain ⟨t1, h1, h⟩ := Option.bind_eq_some_iff.mp h
    exact (sameEnds_rotate h1).trans (sameEnds_insertOuter h)
  · exact sameEnds_insertOuter h

theorem sameEnds_insertFix (h : insertFix n t x = some t') : SameEnds t t' := by
  induction n generalizing t x with
  | zero => cases h
  | succ n ih =>
    rw [insertFix] at h
    split at h
    · cases h
      exact .refl
    rename_i par _
    refine SameEnds.trans (sameEnds_setRed (a := x) (c := true)) ?_
    simp only [Option.bind_eq_bind] at h
    split at h
    · cases h
      exact .refl
    obtain ⟨gp, -, h⟩ := Option.bind_eq_some_iff.mp h
    split at h
    · exact sameEnds_insertRotate h
    · split at h
      · exact sameEnds_insertRotate h
      · exact sameEnds_setRed.trans (sameEnds_setRed.trans (ih h))

theorem sameEnds_unlinkOuter (h : t.unlinkOuter d y z = some t') : SameEnds t t' := by
  have hred : SameEnds t ((t.setRed y (t.mem z).red).setRed z false) := ⟨rfl, rfl⟩
  exact hred.trans (sameEnds_clearRed.trans (sameEnds_rotate h))

theorem sameEnds_unlinkRotate (h : t.unlinkRotate d y z = some t') : SameEnds t t' := by
  rw [unlinkRotate] at h
  split at h
  · obtain ⟨t1, h1, h⟩ := Option.bind_eq_some_iff.mp h
    obtain ⟨y', -, h⟩ := Option.bind_eq_some_iff.mp h
    have hrot := (sameEnds_rotate h1).trans (sameEnds_unlinkOuter h)
    exact sameEnds_clearRed.trans (sameEnds_setRed.trans hrot)
  · exact sameEnds_unlinkOuter h

theorem sameEnds_unlinkSibling {y' : ℕ} (h : t.unlinkSibling d y z = some (t', y')) :
    SameEnds t t' := by
  rw [unlinkSibling] at h
  split at h
  · obtain ⟨t1, h1, h⟩ := Option.bind_eq_some_iff.mp h
    obtain ⟨y1, -, h⟩ := Option.bind_eq_some_iff.mp h
    obtain rfl : t1 = t' := congrArg Prod.fst (Option.some.inj h)
    have hred : SameEnds t ((t.setRed y false).setRed z true) := ⟨rfl, rfl⟩
    exact hred.trans (sameEnds_rotate h1)
  · obtain rfl : t = t' := congrArg Prod.fst (Option.some.inj h)
    exact .refl

theorem sameEnds_unlinkFix {x z : Option ℕ} (h : unlinkFix n t x z = some t') : SameEnds t t' := by
  induction n generalizing t x z with
  | zero => cases h
  | succ n ih =>
    cases z with
    | none =>
      cases h
      exact sameEnds_clearRed
    | some z =>
      rw [unlinkFix] at h
      split at h
      · cases h
        exact sameEnds_clearRed
      obtain ⟨y, -, h⟩ := Option.bind_eq_some_iff.mp h
      obtain ⟨⟨t1, y1⟩, h1, h⟩ := Option.bind_eq_some_iff.mp h
      refine (sameEnds_unlinkSibling h1).trans ?_
      simp only [Option.bind_eq_bind] at h
      split at h
      · exact sameEnds_setRed.trans (ih h)
      · obtain ⟨t2, h2, h⟩ := Option.bind_eq_some_iff.mp h
        cases h
        exact (sameEnds_unlinkRotate h2).trans sameEnds_clearRed

theorem sameEnds_swapRed : SameEnds t (t.swapRed a y) := by
  rw [swapRed]
  split
  · exact ⟨rfl, rfl⟩
  · exact .refl

theorem sameEnds_unlinkInner (h : t.unlinkInner a y x q = some (t', z)) : SameEnds t t' := by
  rw [unlinkInner] at h
  split at h
  · obtain rfl : t = t' := congrArg Prod.fst (Option.some.inj h)
    exact .refl
  obtain ⟨z', -, h⟩ := Option.bind_eq_some_iff.mp h
  obtain rfl := congrArg Prod.fst (Option.some.inj h)
  have hup : SameEnds t (t.setUp q (some z') (.child z' .left)) := sameEnds_setUp
  refine hup.trans (SameEnds.trans ?_ sameEnds_setUp)
  exact ⟨rfl, rfl⟩

theorem sameEnds_unlinkTwo {l r : ℕ} {e : Option ℕ} (h : t.unlinkTwo a l r = some (t', q, e)) :
    SameEnds t t' := by
  simp only [unlinkTwo, Option.bind_eq_bind] at h
  obtain ⟨y, -, h⟩ := Option.bind_eq_some_iff.mp h
  obtain ⟨⟨t1, z⟩, h1, h⟩ := Option.bind_eq_some_iff.mp h
  obtain rfl := congrArg Prod.fst (Option.some.inj h)
  have hup : SameEnds t (t.swapRed a y) := sameEnds_swapRed
  have hleft : SameEnds t ((t.swapRed a y).setUp (some l) (some y) (.child y .left)) :=
    hup.trans sameEnds_setUp
  have hinner := SameEnds.trans ⟨rfl, rfl⟩ (sameEnds_unlinkInner h1)
  exact (hleft.trans hinner).trans (SameEnds.trans ⟨rfl, rfl⟩ sameEnds_setLink)

/-! ## Insertion -/

theorem Ends.insert_after {xs ys : List ℕ} (h : Ends t (xs ++ y :: ys))
    (hnodup : (xs ++ y :: ys).Nodup) (hleft : t'.leftmost = t.leftmost)
    (hright : t'.rightmost = if t.rightmost = some y then some a else t.rightmost) :
    Ends t' (xs ++ y :: a :: ys) := by
  refine ⟨?_, ?_⟩
  · rw [hleft, h.leftmost]
    cases xs <;> simp
  · rw [hright, h.rightmost]
    cases ys with
    | nil => simp
    | cons b ys =>
      have hy : y ∉ b :: ys := (List.nodup_cons.mp (List.nodup_append.mp hnodup).2.1).1
      have hlast : (b :: ys).getLast? ≠ some y := fun h => hy (List.mem_of_getLast? h)
      simpa using fun h => absurd h hlast

theorem Ends.insert_before {xs ys : List ℕ} (h : Ends t (xs ++ y :: ys))
    (hnodup : (xs ++ y :: ys).Nodup) (hright : t'.rightmost = t.rightmost)
    (hleft : t'.leftmost = if t.leftmost = some y then some a else t.leftmost) :
    Ends t' (xs ++ a :: y :: ys) := by
  refine ⟨?_, ?_⟩
  · rw [hleft, h.leftmost]
    cases xs with
    | nil => simp
    | cons b xs =>
      have hb : b ≠ y := (List.nodup_append.mp hnodup).2.2 b (by simp) y (by simp)
      simp [hb]
  · rw [hright, h.rightmost]
    simp

theorem rightmost_ne_of_extreme {w : ℕ} (h : Represents t T) (hends : Ends t T.toList)
    (hn : T.toList.length ≤ t.numNode) (hy : y ∈ T.toList) (hx : (t.mem y).left = some x)
    (hw : t.extreme .next t.fuel x = some w) : t.rightmost ≠ some w := by
  obtain ⟨c, l, r, q, rfl⟩ := exists_plug_of_mem hy
  obtain ⟨-, ⟨hleft, -⟩, hl, -⟩ := h.subtree
  have hlen : l.toList.length ≤ t.fuel := by
    rw [length_plug] at hn
    simp only [toList_node, List.length_append, List.length_cons] at hn
    rw [fuel]
    omega
  obtain ⟨c', w', s', q', hw', rfl, hq'⟩ := extreme_spec (d := .next) hl (hleft.symm.trans hx) hlen
  obtain rfl := Option.some.inj (hw'.symm.trans hw)
  have hlist : (plug (node c (plug (nodeAt .next nil c' w' s') q') y r) q).toList =
      (before q ++ before q' ++ s'.toList) ++ w' :: (y :: (r.toList ++ after q)) := by
    simp [toList_plug, after_eq_nil hq', nodeAt]
  have hnodup := h.nodup
  rw [hlist] at hends hnodup
  have hw' : w' ∉ y :: (r.toList ++ after q) :=
    (List.nodup_cons.mp (List.nodup_append.mp hnodup).2.1).1
  rw [hends.rightmost, List.getLast?_append, List.getLast?_cons_cons]
  intro hlast
  have hlast' : (y :: (r.toList ++ after q)).getLast? = some w' := by
    simpa using hlast
  exact hw' (List.mem_of_getLast? hlast')

theorem Found.mem {m : ℕ → RbtNode δ} {val : ℤ} {res : Option ℕ} (h : Found m val T res)
    (hres : res = some y) : y ∈ T.toList := by
  rcases h with ⟨c, l, w, r, p, rfl, -, hw⟩ | ⟨p, rfl, hp, -⟩
  · obtain rfl := Option.some.inj (hw.symm.trans hres)
    simp [toList_plug]
  · cases p with
    | nil => cases hp.symm.trans hres
    | cons f p =>
      obtain rfl := Option.some.inj (hp.symm.trans hres)
      exact mem_plug.mpr (.inr (by simp [elems]))

theorem exists_step (h : Anchor.child y d = hole .root p) : ∃ c o p', p = ⟨d, c, y, o⟩ :: p' := by
  cases p with
  | nil => cases h
  | cons f p =>
    obtain ⟨e, c, z, o⟩ := f
    cases h
    exact ⟨c, o, p, rfl⟩

/-- The first part of `RBT_INSERT`: a pointer moves when the node next to the new one was at that
end. -/
theorem insertLink_ends (h : Represents t (plug nil p)) (hends : Ends t (plug nil p).toList)
    (hn : (plug nil p).toList.length ≤ t.numNode)
    (hpar : ∀ y, par = some y → y ∈ (plug nil p).toList)
    (ht1 : t.insertLink a par = some (t1, above none p)) (hat : LinkedAt t t1 a p) :
    Ends t1 (before p ++ a :: after p) := by
  cases par with
  | none =>
    obtain ⟨rfl, hp⟩ := Prod.mk.inj (Option.some.inj ht1)
    cases p with
    | nil => exact ⟨rfl, rfl⟩
    | cons f p => cases hp
  | some y =>
    -- the side of the new node is where its anchor points
    have hanc : (t1.mem a).anchor = hole .root p := by
      rw [hat.mem, mem_setAnchor, if_pos rfl]
    have hnodup := h.nodup
    rw [insertLink] at ht1
    split at ht1
    · -- the new node goes between two others
      obtain ⟨x, hx, ht1⟩ := Option.bind_eq_some_iff.mp ht1
      obtain ⟨w, hw, ht1⟩ := Option.bind_eq_some_iff.mp ht1
      obtain ⟨rfl, -⟩ := Prod.mk.inj (Option.some.inj ht1)
      have hright := rightmost_ne_of_extreme h hends hn (hpar y rfl) hx hw
      obtain ⟨c, o, p, rfl⟩ := exists_step (y := w) (d := .next) (by
        rwa [install, mem_setAnchor, if_pos rfl] at hanc)
      have hplug : (plug nil (⟨.next, c, w, o⟩ :: p)).toList =
          (before p ++ o.toList) ++ w :: after p := by
        simp [toList_plug, before, after]
      rw [hplug] at hends hnodup
      have : Ends (t.install a w .next) _ :=
        hends.insert_after (a := a) hnodup rfl (if_neg hright).symm
      simpa [before, after] using this
    · split at ht1
      · obtain ⟨rfl, -⟩ := Prod.mk.inj (Option.some.inj ht1)
        obtain ⟨c, o, p, rfl⟩ := exists_step (y := y) (d := .next) (by
          rwa [install, mem_setAnchor, if_pos rfl] at hanc)
        have hplug : (plug nil (⟨.next, c, y, o⟩ :: p)).toList =
            (before p ++ o.toList) ++ y :: after p := by
          simp [toList_plug, before, after]
        rw [hplug] at hends hnodup
        have : Ends { t.install a y .next with
            rightmost := if t.rightmost = some y then some a else t.rightmost } _ :=
          hends.insert_after (a := a) hnodup rfl rfl
        simpa [before, after] using this
      · obtain ⟨rfl, -⟩ := Prod.mk.inj (Option.some.inj ht1)
        obtain ⟨c, o, p, rfl⟩ := exists_step (y := y) (d := .left) (by
          rwa [install, mem_setAnchor, if_pos rfl] at hanc)
        have hplug : (plug nil (⟨.left, c, y, o⟩ :: p)).toList =
            before p ++ y :: (o.toList ++ after p) := by
          simp [toList_plug, before, after]
        rw [hplug] at hends hnodup
        have : Ends { t.install a y .left with
            leftmost := if t.leftmost = some y then some a else t.leftmost } _ :=
          hends.insert_before (a := a) hnodup rfl rfl
        simpa [before, after] using this

theorem insert_ends (h : Represents t T) (hbal : T.Balanced) (hsorted : Sorted t.mem T.toList)
    (hends : Ends t T.toList) (hn : T.toList.length ≤ t.numNode) (ha : a ∉ T.toList)
    (hfound : Found t.mem (t.mem a).value T par) :
    ∃ t' xs ys, t.insert a par = some t' ∧ T.toList = xs ++ ys ∧ Holds t' (xs ++ a :: ys) ∧
      Ends t' (xs ++ a :: ys) ∧
      ((∀ b ∈ xs, (t.mem b).value ≤ (t.mem a).value) ∧
        ∀ b ∈ ys, (t.mem a).value ≤ (t.mem b).value) ∧
      SameData t.addNode t' := by
  have h' : Represents t.addNode T := ⟨h.root, h.linked, h.nodup⟩
  have hn' : T.toList.length ≤ t.numNode + 1 := Nat.le_succ_of_le hn
  have hpar : ∀ y, par = some y → y ∈ T.toList := fun y hy => hfound.mem (hy ▸ rfl)
  obtain ⟨p, t1, rfl, hplace, ht1, hat⟩ := insertLink_spec h' hsorted hn' hfound
  obtain ⟨t', ht', hholds, hdata⟩ := insert_at h hbal hn ha ht1 hat
  have hends1 := insertLink_ends h' ⟨hends.leftmost, hends.rightmost⟩ hn' hpar ht1 hat
  refine ⟨t', before p, after p, ht', by simp [toList_plug], hholds, ?_,
    ⟨hplace.1, hplace.2⟩, hdata⟩
  -- the loop does not concern the ends
  simp only [insert, ht1, Option.bind_eq_bind, Option.bind_some] at ht'
  exact (sameEnds_insertFix ht').ends ⟨hends1.leftmost, hends1.rightmost⟩

/-! ## Deletion -/

theorem above_eq_head (h : before p = []) : above none p = (after p).head? := by
  cases p with
  | nil => rfl
  | cons f p =>
    obtain ⟨_ | _, c, y, o⟩ := f
    · rfl
    · simp [before] at h

theorem above_eq_getLast (h : after p = []) : above none p = (before p).getLast? := by
  cases p with
  | nil => rfl
  | cons f p =>
    obtain ⟨_ | _, c, y, o⟩ := f
    · simp [after] at h
    · simp [before, above]

theorem unlinkEnd_left (hs : Linked t.mem par anc s) (hlen : s.toList.length ≤ t.fuel)
    (hnodup : (xs ++ a :: ys).Nodup) (hlist : xs ++ ys = before p ++ s.toList ++ after p)
    (hp : ∀ b ∈ before p, b ∈ xs) :
    t.unlinkEnd .left (xs ++ a :: ys).head? a s.root (above none p) =
      some (xs ++ ys).head? := by
  unfold unlinkEnd
  cases xs with
  | nil =>
    have hnil : before p = [] := List.eq_nil_iff_forall_not_mem.mpr fun b hb => by
      simpa using hp b hb
    rw [hnil] at hlist
    simp only [List.nil_append, List.head?_cons, if_true] at hlist ⊢
    rw [hlist]
    cases hroot : s.root with
    | none => simp [eq_nil_of_root hroot, above_eq_head hnil]
    | some y =>
      obtain ⟨c, w, s', q, hw, rfl, hq⟩ := extreme_spec (d := .left) hs hroot hlen
      simp [hw, toList_plug, before_eq_nil hq, nodeAt]
  | cons b xs =>
    have hb : b ≠ a := (List.nodup_append.mp hnodup).2.2 b (by simp) a (by simp)
    rw [if_neg (by simpa using hb)]
    rfl

theorem unlinkEnd_next (hs : Linked t.mem par anc s) (hlen : s.toList.length ≤ t.fuel)
    (hnodup : (xs ++ a :: ys).Nodup) (hlist : xs ++ ys = before p ++ s.toList ++ after p)
    (hp : ∀ b ∈ after p, b ∈ ys) :
    t.unlinkEnd .next (xs ++ a :: ys).getLast? a s.root (above none p) =
      some (xs ++ ys).getLast? := by
  unfold unlinkEnd
  cases ys with
  | nil =>
    have hnil : after p = [] := List.eq_nil_iff_forall_not_mem.mpr fun b hb => by
      simpa using hp b hb
    rw [hnil, List.append_nil] at hlist
    rw [if_pos (by simp), hlist]
    cases hroot : s.root with
    | none => simp [eq_nil_of_root hroot, above_eq_getLast hnil]
    | some y =>
      obtain ⟨c, w, s', q, hw, rfl, hq⟩ := extreme_spec (d := .next) hs hroot hlen
      simp [hw, toList_plug, after_eq_nil hq, nodeAt]
  | cons b ys =>
    have ha : a ∉ b :: ys := (List.nodup_cons.mp (List.nodup_append.mp hnodup).2.1).1
    have hlast : (b :: ys).getLast? ≠ some a := fun h => ha (List.mem_of_getLast? h)
    rw [List.getLast?_append, List.getLast?_cons_cons, if_neg (by simpa using hlast)]
    simp

theorem Ends.remove_inner (h : Ends t (xs ++ a :: ys)) (hxs : xs ≠ []) (hys : ys ≠ []) :
    Ends t (xs ++ ys) := by
  obtain ⟨x, xs, rfl⟩ := List.exists_cons_of_ne_nil hxs
  obtain ⟨y, ys, rfl⟩ := List.exists_cons_of_ne_nil hys
  refine ⟨h.leftmost, ?_⟩
  rw [h.rightmost, List.getLast?_append, List.getLast?_append, List.getLast?_cons_cons]

theorem unlinkOne_ends {z : Option ℕ} (h : Represents t (plug (nodeAt d s c a nil) p))
    (hlen : s.toList.length ≤ t.fuel) (hends : Ends t (xs ++ a :: ys))
    (hnodup : (xs ++ a :: ys).Nodup) (hlist : xs ++ ys = before p ++ s.toList ++ after p)
    (hbefore : ∀ b ∈ before p, b ∈ xs) (hafter : ∀ b ∈ after p, b ∈ ys)
    (ht' : t.unlinkOne a = some (t', q, z)) : Ends t' (xs ++ ys) := by
  obtain ⟨⟨-, hpar, hanc⟩, -, hl, -⟩ := linked_nodeAt.mp h.subtree
  have hs : s.toList.Nodup := (nodup_nodeAt.mp (nodup_plug.mp h.nodup).1).2.1
  have hl' : Linked (t.setUp s.root (above none p) (hole .root p)).mem _ _ s := hl.setUp hs
  have hup : SameEnds t (t.setUp s.root (above none p) (hole .root p)) := sameEnds_setUp
  have hnum : (t.setUp s.root (above none p) (hole .root p)).fuel = t.fuel :=
    congrArg (· + 1) sameData_setUp.numNode
  simp only [unlinkOne, onlyChild_eq h, hpar, hanc, unlinkEnds, hup.1, hup.2, hends.leftmost,
    hends.rightmost, unlinkEnd_left hl' (hnum ▸ hlen) hnodup hlist hbefore,
    unlinkEnd_next hl' (hnum ▸ hlen) hnodup hlist hafter, Option.bind_eq_bind,
    Option.bind_some, Option.pure_def] at ht'
  obtain rfl := congrArg Prod.fst (Option.some.inj ht')
  exact sameEnds_setLink.ends ⟨rfl, rfl⟩

theorem unlink_ends (h : Holds t (xs ++ a :: ys)) (hends : Ends t (xs ++ a :: ys))
    (hn : (xs ++ a :: ys).length ≤ t.numNode) (ht' : t.unlink a = some t') :
    Ends t' (xs ++ ys) := by
  obtain ⟨T, hrep, -, hlist⟩ := h
  have ha : a ∈ T.toList := by
    rw [hlist]
    simp
  obtain ⟨c, l, r, p, rfl⟩ := exists_plug_of_mem ha
  obtain ⟨rfl, rfl⟩ := split_plug hrep.nodup hlist
  have hnodup : (before p ++ l.toList ++ a :: (r.toList ++ after p)).Nodup := hlist ▸ hrep.nodup
  obtain ⟨-, ⟨hleft, hnext⟩, -, -⟩ := hrep.subtree
  have hrep' := hrep.dropNode
  -- after the first part, recolouring and rotations
  have hend : ∀ {t1 : Rbt δ} {x z : Option ℕ}, (if (t1.mem a).red = false then
      unlinkFix t.fuel t1 x z else some t1) = some t' → SameEnds t1 t' := by
    intro t1 x z h
    split at h
    · exact sameEnds_unlinkFix h
    · cases h
      exact .refl
  have hone : ∀ {d : Side} {s : RbTree ℕ},
      Represents t.dropNode (plug (nodeAt d s c a nil) p) →
      s.toList = l.toList ++ r.toList →
      (∃ t1 x z, unlinkOne t.dropNode a = some (t1, x, z) ∧
        SameEnds t1 t') → Ends t' (before p ++ l.toList ++ (r.toList ++ after p)) := by
    rintro d s hrep hs ⟨t1, x, z, ht1, hsame⟩
    refine hsame.ends (unlinkOne_ends hrep ?_ ⟨hends.leftmost, hends.rightmost⟩ hnodup ?_ ?_ ?_
      ht1)
    · simp only [List.length_append, List.length_cons] at hn
      rw [hs, fuel, List.length_append]
      have hnum : t.dropNode.numNode = t.numNode - 1 := rfl
      omega
    · simp [hs]
    · exact fun b hb => List.mem_append_left _ hb
    · exact fun b hb => List.mem_append_right _ hb
  rw [unlink] at ht'
  cases hlroot : l.root with
  | none =>
    obtain rfl := eq_nil_of_root hlroot
    simp only [mem_dropNode, hleft, root_nil] at ht'
    obtain ⟨⟨t1, x, z⟩, ht1, h⟩ := Option.bind_eq_some_iff.mp ht'
    exact hone (d := .next) hrep' rfl ⟨t1, x, z, ht1, hend h⟩
  | some w =>
    cases hrroot : r.root with
    | none =>
      obtain rfl := eq_nil_of_root hrroot
      simp only [mem_dropNode, hleft, hlroot, hnext, root_nil] at ht'
      obtain ⟨⟨t1, x, z⟩, ht1, h⟩ := Option.bind_eq_some_iff.mp ht'
      exact hone (d := .left) hrep' (by simp) ⟨t1, x, z, ht1, hend h⟩
    | some v =>
      -- the node has a node on either side
      simp only [mem_dropNode, hleft, hlroot, hnext, hrroot] at ht'
      obtain ⟨⟨t1, x, z⟩, ht1, h⟩ := Option.bind_eq_some_iff.mp ht'
      have hsame := (sameEnds_unlinkTwo ht1).trans (hend h)
      have hw := root_mem hlroot
      have hv := root_mem hrroot
      have hends' : Ends t' (before p ++ l.toList ++ a :: (r.toList ++ after p)) :=
        hsame.ends ⟨hends.leftmost, hends.rightmost⟩
      exact hends'.remove_inner (List.ne_nil_of_mem (List.mem_append_right _ hw))
        (List.ne_nil_of_mem (List.mem_append_left _ hv))

end CloudNfs.Rbt
