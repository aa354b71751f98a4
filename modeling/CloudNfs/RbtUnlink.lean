import CloudNfs.RbtInsert

/-!
# Deletion from a red-black tree

`RBT_UNLINK`: a node with at most one child gives its place to this child, a node with two to its
successor, which gives its own place to its child.
-/

namespace CloudNfs.Rbt

open RedBlack RedBlack.RbTree

variable {δ : Type} {t : Rbt δ} {T s o b f l r : RbTree ℕ} {p q : List (Step ℕ)} {a x y z : ℕ}
  {d e : Side} {c c' : Bool} {n : ℕ}

/-! ## The loop -/

theorem unlinkOuter_spec (h : Represents t (plug s (⟨d, c, z, nodeAt d b false y f⟩ :: p))) :
    ∃ t', t.unlinkOuter d y z = some t' ∧
      Represents t' (plug s (⟨d, false, z, b⟩ :: ⟨d, c, y, f.blacken⟩ :: p)) ∧ SameData t t' := by
  have hz : (t.mem z).red = c := h.path.1.1
  have h1 : Represents (t.setRed y c) (plug (nodeAt d s c z (nodeAt d b c y f)) p) := by
    have := setRed_spec (e := c) h.sibling
    rwa [plug_cons, nodeAt_other] at this
  have h2 : Represents ((t.setRed y c).setRed z false)
      (plug s (⟨d, false, z, nodeAt d b c y f⟩ :: p)) := setRed_spec h1
  -- the far child of the sibling
  have hf := h2.sibling.down.sibling
  have h3 := clearRed_spec hf
  simp only [plug_cons, nodeAt_other] at h3
  obtain ⟨t', ht', hrep, hdata⟩ := rotate_spec h3
  refine ⟨t', ?_, hrep, ?_⟩
  · have hroot : (((t.setRed y c).setRed z false).mem y).child d.other = f.root := hf.path.2.1.1
    simpa only [unlinkOuter, hz, hroot] using ht'
  · exact sameData_setRed.trans (sameData_setRed.trans (sameData_clearRed.trans hdata))

/-- The sibling is black and has a red child: one rotation, or two, and the tree is balanced. -/
theorem unlinkRotate_spec (h : Represents t (plug s (⟨d, c, z, nodeAt d b false y f⟩ :: p)))
    (hS : Short s (⟨d, c, z, nodeAt d b false y f⟩ :: p)) (hs : s.isRed = false)
    (hbf : b.isRed = true ∨ f.isRed = true) :
    ∃ t', t.unlinkRotate d y z = some t' ∧
      Holds (t'.clearRed s.root) (plug s (⟨d, c, z, nodeAt d b false y f⟩ :: p)).toList ∧
      SameData t t' := by
  obtain ⟨hyb, hyf⟩ := h.sibling.down.path.2.1
  rw [unlinkRotate, hyf, h.sibling.down.sibling.isRed]
  cases hf : f.isRed with
  | true =>
    obtain ⟨t', ht', hrep, hdata⟩ := unlinkOuter_spec h
    refine ⟨t', ht', ⟨_, clearRed_spec hrep, ?_, ?_⟩, hdata⟩
    · rw [blacken_of_not_isRed hs]
      exact hS.balanced_rotate hs hf
    · simp only [plug_cons]
      refine toList_plug_congr ?_
      cases d <;> simp [nodeAt]
  | false =>
    -- the red child is the near one: a rotation brings a red one to the far side
    have hb : b.isRed = true := hbf.resolve_right (by simp [hf])
    obtain ⟨b1, w, b2, rfl⟩ := exists_nodeAt_of_isRed d hb
    have h1 := clearRed_spec h.sibling.down
    rw [blacken_nodeAt, plug_cons] at h1
    have h2 : Represents ((t.clearRed (nodeAt d b1 true w b2).root).setRed y true)
        (plug (nodeAt d.other f true y (nodeAt d.other b2 false w b1))
            (⟨d.other, c, z, s⟩ :: p)) := by
      rw [nodeAt_other, nodeAt_other]
      exact setRed_spec h1
    obtain ⟨t1, ht1, hrep1, hdata1⟩ := rotate_spec h2
    rw [nodeAt_other, nodeAt_other, plug_cons, nodeAt_other] at hrep1
    obtain ⟨t', ht', hrep, hdata⟩ := unlinkOuter_spec hrep1.down
    have hw : (t1.mem z).child d.other = some w := hrep1.down.path.2.1.2.trans root_nodeAt
    refine ⟨t', ?_, ⟨_, clearRed_spec hrep, ?_, ?_⟩, ?_⟩
    · simp only [if_true, hyb, ht1, Option.bind_eq_bind, Option.bind_some, hw, ht']
    · rw [blacken_of_not_isRed hs]
      exact (hS.rotate_near hf).balanced_rotate hs isRed_nodeAt
    · simp only [plug_cons]
      refine toList_plug_congr ?_
      cases d <;> simp [nodeAt]
    · exact sameData_clearRed.trans (sameData_setRed.trans (hdata1.trans hdata))

theorem unlinkSibling_spec (h : Represents t (plug s (⟨d, c, z, o⟩ :: p)))
    (hS : Short s (⟨d, c, z, o⟩ :: p)) (ho : o.root = some y) :
    ∃ t' c' b y' f p', t.unlinkSibling d y z = some (t', y') ∧
      Represents t' (plug s (⟨d, c', z, nodeAt d b false y' f⟩ :: p')) ∧
      Short s (⟨d, c', z, nodeAt d b false y' f⟩ :: p') ∧
      (p'.length ≤ p.length ∨ c' = true) ∧
      (plug s (⟨d, c', z, nodeAt d b false y' f⟩ :: p')).toList =
        (plug s (⟨d, c, z, o⟩ :: p)).toList ∧ SameData t t' := by
  obtain ⟨red, b, f, rfl⟩ := exists_nodeAt d ho
  have hy : (t.mem y).red = red := by
    have := h.sibling.isRed
    rwa [root_nodeAt, isRed_nodeAt] at this
  rw [unlinkSibling, hy]
  cases red with
  | false => exact ⟨t, c, b, y, f, p, rfl, h, hS, .inl (Nat.le_refl _), rfl, .refl⟩
  | true =>
    obtain ⟨hS', hb, w, hw⟩ := hS.rotate_red
    obtain ⟨red, b1, b2, rfl⟩ := exists_nodeAt d hw
    obtain rfl : red = false := by simpa using hb
    have h1 := setRed_spec (e := false) h.sibling
    rw [plug_cons, nodeAt_other] at h1
    obtain ⟨t', ht', hrep, hdata⟩ := rotate_spec (setRed_spec (e := true) h1)
    have hz : (t'.mem z).child d.other = some w := hrep.down.down.path.2.1.2.trans root_nodeAt
    refine ⟨t', true, b1, w, b2, ⟨d, false, y, f⟩ :: p, ?_, hrep, hS', .inr rfl, ?_, ?_⟩
    · simp only [if_true, ht', Option.bind_eq_bind, Option.bind_some, hz]
      rfl
    · simp only [plug_cons]
      refine toList_plug_congr ?_
      cases d <;> simp [nodeAt]
    · exact sameData_setRed.trans (sameData_setRed.trans hdata)

theorem side_spec (h : Represents t (plug s (⟨d, c, z, o⟩ :: p))) (ho : o.root = some y) :
    (if s.root = (t.mem z).left then Side.left else Side.next) = d := by
  obtain ⟨hside, hother⟩ := h.path.2.1
  cases d with
  | left => exact if_pos hside.symm
  | next =>
    refine if_neg fun hs => ?_
    have hy := hother.trans ho
    rw [Side.other, RbtNode.child_left, ← hs] at hy
    obtain ⟨-, -, hdisj⟩ := nodup_plug.mp h.nodup
    exact hdisj (root_mem hy) (by simp [elems, root_mem ho])

theorem children_black_iff (h : Represents t (plug s (⟨d, c, z, nodeAt d b c' y f⟩ :: p))) :
    (t.isRed (t.mem y).left = false ∧ t.isRed (t.mem y).next = false) ↔
      b.isRed = false ∧ f.isRed = false := by
  obtain ⟨hyb, hyf⟩ := h.sibling.down.path.2.1
  have hb := h.sibling.down.isRed
  have hf := h.sibling.down.sibling.isRed
  rw [← hyb] at hb
  rw [← hyf] at hf
  rw [← hb, ← hf]
  cases d with
  | left => rfl
  | next => exact and_comm

/-- **The loop of `RBT_UNLINK`**: from a subtree that lacks a black node to a balanced tree. -/
theorem unlinkFix_spec (h : Represents t (plug s p)) (hS : Short s p)
    (hn : p.length < n ∨ s.isRed = true ∧ 0 < n) :
    ∃ t', unlinkFix n t s.root (above none p) = some t' ∧ Holds t' (plug s p).toList ∧
      SameData t t' := by
  induction n generalizing t s p with
  | zero => simp at hn
  | succ n ih =>
    have hend : s.isRed = true ∨ p = [] →
        Holds (t.clearRed s.root) (plug s p).toList := fun hor =>
      ⟨_, clearRed_spec h, hS.balanced hor, toList_plug_congr toList_blacken⟩
    rcases p with _ | ⟨⟨d, c, z, o⟩, p⟩
    · exact ⟨_, rfl, hend (.inr rfl), sameData_clearRed⟩
    · rw [above, unlinkFix, h.isRed]
      cases hs : s.isRed with
      | true => exact ⟨_, rfl, hend (.inl hs), sameData_clearRed⟩
      | false =>
        obtain ⟨y, ho⟩ := hS.exists_sibling
        have hy : (t.mem z).child d.other = some y := h.path.2.1.2.trans ho
        obtain ⟨t1, c', b, y', f, p', ht1, h1, hS1, hp', hlist, hdata1⟩ :=
          unlinkSibling_spec h hS ho
        simp only [side_spec h ho, hy, ht1, Option.bind_eq_bind, Option.bind_some,
          Bool.false_eq_true, if_false]
        rw [← hlist]
        by_cases hblack : b.isRed = false ∧ f.isRed = false
        · -- the black node is missing one step higher up
          have h2 := setRed_spec (e := true) h1.sibling
          rw [plug_cons, nodeAt_other] at h2
          have hfuel : p'.length < n ∨
              (nodeAt d s c' z (nodeAt d b true y' f)).isRed = true ∧ 0 < n := by
            rw [isRed_nodeAt]
            simp only [List.length_cons, hs, Bool.false_eq_true, false_and, or_false] at hn
            exact hp'.imp (by omega) fun hc => ⟨hc, by omega⟩
          obtain ⟨t', ht', hholds, hdata⟩ := ih h2 (hS1.recolour hs hblack.1 hblack.2) hfuel
          rw [root_nodeAt, ← h2.parent root_nodeAt] at ht'
          refine ⟨t', ?_, ?_, hdata1.trans (sameData_setRed.trans hdata)⟩
          · rw [if_pos ((children_black_iff h1).mpr hblack), ht']
          · have hlist' : (plug (nodeAt d s c' z (nodeAt d b true y' f)) p').toList =
                (plug (nodeAt d s c' z (nodeAt d b false y' f)) p').toList := by
              refine toList_plug_congr ?_
              cases d <;> simp [nodeAt]
            exact hlist' ▸ hholds
        · have hred : b.isRed = true ∨ f.isRed = true := by
            rwa [not_and_or, Bool.not_eq_false, Bool.not_eq_false] at hblack
          obtain ⟨t', ht', hholds, hdata⟩ := unlinkRotate_spec h1 hS1 hs hred
          refine ⟨_, ?_, hholds, hdata1.trans (hdata.trans sameData_clearRed)⟩
          rw [if_neg ((children_black_iff h1).not.mpr hblack), ht']
          rfl

/-! ## A node with at most one child -/

theorem unlinkEnd_spec {par z e : Option ℕ} {anc : Anchor} (h : Linked t.mem par anc s)
    (hn : s.toList.length ≤ t.fuel) : ∃ e', t.unlinkEnd d e a s.root z = some e' := by
  by_cases he : e = some a
  · cases hroot : s.root with
    | none => exact ⟨z, by simp [unlinkEnd, he]⟩
    | some y =>
      obtain ⟨c, w, s', q, hw, -⟩ := extreme_spec (d := d) h hroot hn
      exact ⟨some w, by simp [unlinkEnd, he, hw]⟩
  · exact ⟨e, if_neg he⟩

theorem unlinkEnds_spec {par z : Option ℕ} {anc : Anchor} (h : Linked t.mem par anc s)
    (hn : s.toList.length ≤ t.fuel) : ∃ leftmost rightmost, t.unlinkEnds a s.root z =
      some { t with leftmost := leftmost, rightmost := rightmost } := by
  obtain ⟨e, he⟩ := unlinkEnd_spec (d := .left) (a := a) (z := z) (e := t.leftmost) h hn
  obtain ⟨e', he'⟩ := unlinkEnd_spec (d := .next) (a := a) (z := z) (e := t.rightmost) h hn
  exact ⟨e, e', by simp [unlinkEnds, he, he']⟩

theorem sameData_ends {e e' : Option ℕ} : SameData t { t with leftmost := e, rightmost := e' } :=
  ⟨fun _ => ⟨rfl, rfl⟩, rfl, rfl⟩

theorem onlyChild_eq (h : Represents t (plug (nodeAt d s c a nil) p)) :
    (t.mem a).next.or (t.mem a).left = s.root := by
  obtain ⟨hs, hnil⟩ := h.down.path.2.1
  cases d with
  | left => exact (congrArg₂ Option.or hnil hs).trans Option.none_or
  | next => exact (congrArg₂ Option.or hs hnil).trans Option.or_none

theorem unlinkOne_spec (h : Represents t (plug (nodeAt d s c a nil) p))
    (hn : s.toList.length ≤ t.fuel) :
    ∃ t', t.unlinkOne a = some (t', s.root, above none p) ∧ Represents t' (plug s p) ∧
      (t'.mem a).red = c ∧ SameData t t' := by
  obtain ⟨hnodup, -, hdisj⟩ := nodup_plug.mp h.nodup
  obtain ⟨⟨has, -⟩, hs, -⟩ := nodup_nodeAt.mp hnodup
  obtain ⟨⟨hred, hpar, hanc⟩, -, hl, -⟩ := linked_nodeAt.mp h.subtree
  have hl' : Linked (t.setUp s.root (above none p) (hole .root p)).mem _ _ s := hl.setUp hs
  have hnum : (t.setUp s.root (above none p) (hole .root p)).numNode = t.numNode :=
    sameData_setUp.numNode
  have hmem : ∀ b ∉ s.toList, (t.setUp s.root (above none p) (hole .root p)).mem b = t.mem b :=
    fun b hb => mem_setUp.trans (if_neg (root_ne_of_not_mem hb))
  have hap : a ∉ elems p := fun ha => hdisj (mem_nodeAt.mpr (.inl rfl)) ha
  obtain ⟨e, e', hends⟩ := unlinkEnds_spec (a := a) (z := above none p) hl'
    (by rwa [fuel, hnum])
  have hrep := h.relink { t.setUp s.root (above none p) (hole .root p) with
    leftmost := e, rightmost := e' } s hs (fun b hb => hdisj (mem_nodeAt.mpr (.inr (.inl hb))))
    root_setUp (fun b hb => hmem b fun hbs => hdisj (mem_nodeAt.mpr (.inr (.inl hbs))) hb) hl'
  refine ⟨_, ?_, hrep, ?_, ?_⟩
  · simp only [unlinkOne, onlyChild_eq h, hpar, hanc, hends, Option.bind_eq_bind, Option.bind_some,
      hmem a has]
    rfl
  · rw [mem_setLink_hole hap]
    exact (congrArg RbtNode.red (hmem a has)).trans hred
  · exact (sameData_setUp.trans sameData_ends).trans sameData_setLink

/-! ## A node with two children -/

section

theorem swapRed_mem_ne {w : ℕ} (ha : w ≠ a) (hy : w ≠ y) : (t.swapRed a y).mem w = t.mem w := by
  by_cases hred : (t.mem a).red = (t.mem y).red <;> simp [swapRed, mem_setRed, hred, ha, hy]

theorem swapRed_mem_node (hay : a ≠ y) :
    (t.swapRed a y).mem a = { t.mem a with red := (t.mem y).red } := by
  by_cases hred : (t.mem a).red = (t.mem y).red
  · simp [swapRed, ← hred]
  have : (!(t.mem a).red) = (t.mem y).red := by
    revert hred
    cases (t.mem a).red <;> cases (t.mem y).red <;> simp
  simp [swapRed, mem_setRed, hred, hay, this]

theorem swapRed_mem_successor (hay : a ≠ y) :
    (t.swapRed a y).mem y = { t.mem y with red := (t.mem a).red } := by
  by_cases hred : (t.mem a).red = (t.mem y).red
  · simp [swapRed, hred]
  have : (!(t.mem y).red) = (t.mem a).red := by
    revert hred
    cases (t.mem a).red <;> cases (t.mem y).red <;> simp
  simp [swapRed, mem_setRed, hred, hay.symm, this]

theorem root_swapRed : (t.swapRed a y).root = t.root := by
  rw [swapRed]
  split <;> rfl

theorem sameData_swapRed : SameData t (t.swapRed a y) := by
  by_cases hred : (t.mem a).red = (t.mem y).red
  · rw [swapRed, if_neg (not_not.mpr hred)]
    exact .refl
  · rw [swapRed, if_pos hred]
    exact sameData_setRed.trans sameData_setRed

end

/-- What taking the successor out of the right subtree of the node leaves: the subtree of the
successor in its place, all below the successor. -/
structure Inner (t t' : Rbt δ) (y : ℕ) (s : RbTree ℕ) (q : List (Step ℕ)) : Prop where
  linked : Linked t'.mem (some y) (.child y .next) (plug s q)
  successor : t'.mem y = { t.mem y with next := (plug s q).root }
  frame : ∀ w ∉ (plug s q).toList, w ≠ y → t'.mem w = t.mem w
  root : t'.root = t.root
  sameData : SameData t t'

theorem unlinkInner_spec (red : Bool) (h : Linked t.mem (some y) (.child y .next) s)
    (hpath : LinkedPath t.mem (some a) (.child a .next) q (some y))
    (hq : ∀ f ∈ q, f.side = .left) (hy : y ∉ (plug s q).toList) (ha : a ∉ (plug s q).toList)
    (hay : a ≠ y) (hnodup : (plug s q).toList.Nodup)
    (hpar : (t.mem y).parent = above (some a) q) (hysucc : (t.mem y).next = s.root)
    (hnext : (t.mem a).next = (plug (nodeAt .left nil red y s) q).root)
    (hr : (plug (nodeAt .left nil red y s) q).root = some x) :
    ∃ t' z, t.unlinkInner a y x s.root = some (t', z) ∧ above (some y) q = some z ∧
      Inner t t' y s q := by
  rcases q with _ | ⟨⟨d, c, z, o⟩, q⟩
  · refine ⟨t, y, ?_, rfl, h, ?_, fun _ _ _ => rfl, rfl, .refl⟩
    · rw [unlinkInner, if_pos (hnext.trans root_nodeAt)]
      rfl
    · rw [plug_nil, ← hysucc]
  · obtain rfl : d = .left := hq ⟨d, c, z, o⟩ List.mem_cons_self
    obtain ⟨hs, hqn, hdisj⟩ := nodup_plug.mp hnodup
    have hmem : ∀ {w}, w ∉ (plug s (⟨.left, c, z, o⟩ :: q)).toList →
        w ∉ s.toList ∧ w ∉ elems (⟨.left, c, z, o⟩ :: q) := fun hw => by
      rwa [mem_plug, not_or] at hw
    have hzq : z ∈ elems (⟨.left, c, z, o⟩ :: q) := by simp [elems]
    have hzs : z ∉ s.toList := fun hz => hdisj hz hzq
    have hroot : (plug s (⟨.left, c, z, o⟩ :: q)).root = some x := root_plug_cons.trans hr
    have hxy : (some x : Option ℕ) ≠ some y := hroot ▸ root_ne_of_not_mem hy
    -- the subtree of the successor takes its place
    have h1 : Linked ((t.setUp s.root (some z) (.child z .left)).setChild z .left s.root).mem
        (some a) (.child a .next) (plug s (⟨.left, c, z, o⟩ :: q)) := by
      refine linked_plug.mpr ⟨?_, ?_⟩
      · refine (h.setUp hs).frame fun w hw => mem_setChild.trans (if_neg ?_)
        rintro rfl
        exact hzs hw
      · refine LinkedPath.setLink (t := t.setUp s.root (some z) (.child z .left))
          (hpath.frame fun w hw => ?_) hqn
        exact mem_setUp.trans (if_neg fun hws => hdisj (root_mem hws) hw)
    have hframe : ∀ {w}, w ∉ (plug s (⟨.left, c, z, o⟩ :: q)).toList →
        ((t.setUp s.root (some z) (.child z .left)).setChild z .left s.root).mem w = t.mem w := by
      intro w hw
      obtain ⟨hws, hwq⟩ := hmem hw
      have hwz : w ≠ z := fun hwz => hwq (hwz ▸ hzq)
      rw [mem_setChild, if_neg hwz, mem_setUp, if_neg (root_ne_of_not_mem hws)]
    -- and the whole right subtree goes below the successor
    have h2 : Linked (((t.setUp s.root (some z) (.child z .left)).setChild z .left s.root).setChild
        y .next (some x)).mem (some a) (.child a .next) (plug s (⟨.left, c, z, o⟩ :: q)) := by
      refine h1.frame fun w hw => mem_setChild.trans (if_neg ?_)
      rintro rfl
      exact hy hw
    have h3 : Linked _ (some y) (.child y .next) _ := h2.setUp hnodup
    rw [hroot] at h3
    refine ⟨_, z, ?_, rfl, h3, ?_, fun w hw hwy => ?_, ?_, ?_⟩
    · have hne : (t.mem a).next ≠ some y := by rwa [hnext, hr]
      rw [unlinkInner, if_neg hne, hpar]
      simp only [above, Option.bind_eq_bind, Option.bind_some, hframe ha, hnext, hr]
      rfl
    · rw [mem_setUp, if_neg hxy, mem_setChild, if_pos rfl, hframe hy, hroot]
      rfl
    · have hwx : (some x : Option ℕ) ≠ some w := hroot ▸ root_ne_of_not_mem hw
      rw [mem_setUp, if_neg hwx, mem_setChild, if_neg hwy, hframe hw]
    · simp
    · exact (sameData_setUp.trans sameData_setChild).trans
        (sameData_setChild.trans sameData_setUp)

/-- The writes of the first part of `RBT_UNLINK` up to the successor's right subtree: the colours
are swapped, and the left subtree goes below the successor. -/
def unlinkLeft (t : Rbt δ) (a l y : ℕ) : Rbt δ :=
  ((t.swapRed a y).setUp (some l) (some y) (.child y .left)).setChild y .left (some l)

section

variable {w : ℕ}

theorem unlinkLeft_mem_ne (ha : w ≠ a) (hy : w ≠ y) (hx : x ≠ w) :
    (t.unlinkLeft a x y).mem w = t.mem w := by
  rw [unlinkLeft, mem_setChild, if_neg hy, mem_setUp, if_neg (fun h => hx (Option.some.inj h)),
    swapRed_mem_ne ha hy]

theorem unlinkLeft_mem_node (hay : a ≠ y) (hx : x ≠ a) :
    (t.unlinkLeft a x y).mem a = { t.mem a with red := (t.mem y).red } := by
  rw [unlinkLeft, mem_setChild, if_neg hay, mem_setUp, if_neg (fun h => hx (Option.some.inj h)),
    swapRed_mem_node hay]

theorem unlinkLeft_mem_successor (hay : a ≠ y) (hx : x ≠ y) :
    (t.unlinkLeft a x y).mem y = { t.mem y with red := (t.mem a).red, left := some x } := by
  rw [unlinkLeft, mem_setChild, if_pos rfl, mem_setUp, if_neg (fun h => hx (Option.some.inj h)),
    swapRed_mem_successor hay]
  rfl

theorem sameData_unlinkLeft : SameData t (t.unlinkLeft a x y) :=
  sameData_swapRed.trans (sameData_setUp.trans sameData_setChild)

theorem linked_unlinkLeft {par : Option ℕ} {anc : Anchor} (h : Linked t.mem par anc l)
    (hl : l.root = some x) (hn : l.toList.Nodup) (ha : a ∉ l.toList) (hy : y ∉ l.toList) :
    Linked (t.unlinkLeft a x y).mem (some y) (.child y .left) l := by
  have h1 : Linked (t.swapRed a y).mem par anc l := by
    refine h.frame fun w hw => swapRed_mem_ne ?_ ?_
    · exact fun hwa => ha (hwa ▸ hw)
    · exact fun hwy => hy (hwy ▸ hw)
  have h2 : Linked _ (some y) (.child y .left) l := h1.setUp hn
  rw [hl] at h2
  refine h2.frame fun w hw => mem_setChild.trans (if_neg ?_)
  rintro rfl
  exact hy hw

end

/-- No two of the parts that the deletion of a node `a` with the successor `y` moves have a node
in common. -/
structure Apart (l s : RbTree ℕ) (a y : ℕ) (q p : List (Step ℕ)) : Prop where
  ne : a ≠ y
  left : l.toList.Nodup
  right : (plug s q).toList.Nodup
  node_not_mem : a ∉ l.toList ∧ a ∉ (plug s q).toList
  successor_not_mem : y ∉ l.toList ∧ y ∉ (plug s q).toList
  disjoint : l.toList.Disjoint (plug s q).toList
  above : ∀ v ∈ elems p, v ≠ a ∧ v ≠ y ∧ v ∉ l.toList ∧ v ∉ (plug s q).toList

theorem apart_of_nodup {red : Bool}
    (h : (plug (node c l a (plug (nodeAt .left nil red y s) q)) p).toList.Nodup) :
    Apart l s a y q p := by
  obtain ⟨hn, -, hdisj⟩ := nodup_plug.mp h
  obtain ⟨⟨hal, har⟩, hl, hr, hlr⟩ := nodup_nodeAt (d := .left).mp hn
  obtain ⟨hY, hqn, hYq⟩ := nodup_plug.mp hr
  obtain ⟨⟨-, hys⟩, -, hs, -⟩ := nodup_nodeAt.mp hY
  have hyr : y ∈ (plug (nodeAt .left nil red y s) q).toList :=
    mem_plug.mpr (.inl (mem_nodeAt.mpr (.inl rfl)))
  have hsub : ∀ {v}, v ∈ (plug s q).toList → v ∈ (plug (nodeAt .left nil red y s) q).toList :=
    fun hv => mem_plug.mpr ((mem_plug.mp hv).imp_left fun hv =>
      mem_nodeAt.mpr (.inr (.inr hv)))
  have hin : ∀ {v}, v = a ∨ v ∈ l.toList ∨
      v ∈ (plug (nodeAt .left nil red y s) q).toList → v ∉ elems p :=
    fun hv hvp => hdisj (mem_nodeAt (d := .left).mpr hv) hvp
  refine ⟨fun hay => har (hay ▸ hyr), hl, ?_, ⟨hal, fun ha => har (hsub ha)⟩, ⟨?_, ?_⟩, ?_, ?_⟩
  · exact nodup_plug.mpr ⟨hs, hqn, fun v hv hvq => hYq (mem_nodeAt.mpr (.inr (.inr hv))) hvq⟩
  · exact fun hyl => hlr hyl hyr
  · exact fun hy => (mem_plug.mp hy).elim hys (hYq (mem_nodeAt.mpr (.inl rfl)))
  · exact fun v hvl hv => hlr hvl (hsub hv)
  · intro v hv
    refine ⟨?_, ?_, fun hvl => ?_, fun hvs => ?_⟩
    · exact fun hva => hin (.inl hva) hv
    · exact fun hvy => hin (.inr (.inr (hvy ▸ hyr))) hv
    · exact hin (.inr (.inl hvl)) hv
    · exact hin (.inr (.inr (hsub hvs))) hv

theorem represents_successor {t4 : Rbt δ} {w : ℕ} (h : Represents t (plug (node c l a r) p))
    (hap : Apart l s a y q p) (hl : l.root = some w) (hin : Inner (t.unlinkLeft a w y) t4 y s q) :
    Represents (((t4.setParent y (above none p)).setAnchor y (hole .root p)).setLink
      (hole .root p) (some y)) (plug s (q ++ ⟨.next, c, y, l⟩ :: p)) := by
  obtain ⟨⟨hared, -, -⟩, -, lL, -⟩ := h.subtree
  have hwl := root_mem hl
  have hwy : w ≠ y := fun hwy => hap.successor_not_mem.1 (hwy ▸ hwl)
  have hout : ∀ v, v ≠ y → ((t4.setParent y (above none p)).setAnchor y (hole .root p)).mem v =
      t4.mem v := by
    intro v hv
    rw [mem_setAnchor, if_neg hv, mem_setParent, if_neg hv]
  rw [plug_append]
  refine h.relink _ (node c l y (plug s q)) ?_ ?_ ?_ ?_ ?_
  · exact nodup_nodeAt (d := .left).mpr ⟨hap.successor_not_mem, hap.left, hap.right, hap.disjoint⟩
  · intro v hv hvp
    obtain ⟨-, hvy, hvl, hvs⟩ := hap.above v hvp
    exact (mem_nodeAt (d := .left).mp hv).elim hvy fun hv => hv.elim hvl hvs
  · rw [root_setAnchor, root_setParent, hin.root, unlinkLeft, root_setChild, root_setUp,
      root_swapRed]
  · intro v hv
    obtain ⟨hva, hvy, hvl, hvs⟩ := hap.above v hv
    rw [hout v hvy, hin.frame v hvs hvy]
    exact unlinkLeft_mem_ne hva hvy fun hwv => hvl (hwv ▸ hwl)
  · have lL' := linked_unlinkLeft lL hl hap.left hap.node_not_mem.1 hap.successor_not_mem.1
    rw [Linked, mem_setAnchor, if_pos rfl, mem_setParent, if_pos rfl, hin.successor,
      unlinkLeft_mem_successor hap.ne hwy]
    refine ⟨⟨hared, rfl, rfl⟩, ⟨hl.symm, rfl⟩, lL'.frame fun v hv => ?_,
      hin.linked.frame fun v hv => ?_⟩
    · have hvy : v ≠ y := fun hvy => hap.successor_not_mem.1 (hvy ▸ hv)
      rw [hout v hvy, hin.frame v (fun hvs => hap.disjoint hv hvs) hvy]
    · exact hout v fun hvy => hap.successor_not_mem.2 (hvy ▸ hv)

theorem unlinkTwo_spec {red : Bool} {w : ℕ}
    (h : Represents t (plug (node c l a (plug (nodeAt .left nil red y s) q)) p))
    (hl : l.root = some w) (hr : (plug (nodeAt .left nil red y s) q).root = some x)
    (hq : ∀ f ∈ q, f.side = .left) (hy : t.extreme .left t.fuel x = some y) :
    ∃ t', t.unlinkTwo a w x =
        some (t', s.root, above none (q ++ ⟨.next, c, y, l⟩ :: p)) ∧
      Represents t' (plug s (q ++ ⟨.next, c, y, l⟩ :: p)) ∧ (t'.mem a).red = red ∧
      SameData t t' := by
  have hap := apart_of_nodup h.nodup
  have hwl := root_mem hl
  have hwa : w ≠ a := fun hwa => hap.node_not_mem.1 (hwa ▸ hwl)
  have hwy : w ≠ y := fun hwy => hap.successor_not_mem.1 (hwy ▸ hwl)
  obtain ⟨⟨-, hapar, haanc⟩, ⟨-, hanext⟩, -, lR⟩ := h.subtree
  obtain ⟨lY, lq⟩ := linked_plug.mp lR
  obtain ⟨⟨hyred, hypar, -⟩, ⟨-, hynext⟩, -, lS⟩ := linked_nodeAt.mp lY
  rw [root_nodeAt] at lq
  have hnode := unlinkLeft_mem_node (t := t) hap.ne hwa
  have hsucc := unlinkLeft_mem_successor (t := t) hap.ne hwy
  have hframe : ∀ v ∈ (plug s q).toList, (t.unlinkLeft a w y).mem v = t.mem v := by
    intro v hv
    refine unlinkLeft_mem_ne ?_ ?_ ?_
    · exact fun hva => hap.node_not_mem.2 (hva ▸ hv)
    · exact fun hvy => hap.successor_not_mem.2 (hvy ▸ hv)
    · exact fun hwv => hap.disjoint (hwv ▸ hwl) hv
  obtain ⟨t4, z, ht4, hz, hin⟩ := unlinkInner_spec (x := x) red
    (lS.frame fun v hv => hframe v (mem_plug.mpr (.inl hv)))
    (lq.frame fun v hv => hframe v (mem_plug.mpr (.inr hv))) hq hap.successor_not_mem.2
    hap.node_not_mem.2 hap.ne hap.right (by rw [hsucc]; exact hypar) (by rw [hsucc]; exact hynext)
    (by rw [hnode]; exact hanext) hr
  have ha4 : t4.mem a = { t.mem a with red := red } := by
    rw [hin.frame a hap.node_not_mem.2 hap.ne, hnode, hyred]
  have hap' : a ∉ elems p := fun ha => (hap.above a ha).1 rfl
  refine ⟨_, ?_, represents_successor h hap hl hin, ?_, ?_⟩
  · have hx : ((t.swapRed a y).mem y).next = s.root := by
      rw [swapRed_mem_successor hap.ne]
      exact hynext
    have hz' : above none (q ++ ⟨.next, c, y, l⟩ :: p) = some z := by
      cases q <;> exact hz
    rw [unlinkLeft] at ht4
    simp only [unlinkTwo, hy, Option.bind_eq_bind, Option.bind_some, hx, ht4, ha4, hapar,
      mem_setParent, mem_setAnchor, if_neg hap.ne, haanc, hz']
    rfl
  · rw [mem_setLink_hole hap', mem_setAnchor, if_neg hap.ne, mem_setParent, if_neg hap.ne, ha4]
  · exact sameData_unlinkLeft.trans (hin.sameData.trans (sameData_setParent.trans
      (sameData_setAnchor.trans sameData_setLink)))

/-! ## The whole macro -/

theorem Represents.dropNode (h : Represents t T) : Represents t.dropNode T :=
  ⟨h.root, h.linked, h.nodup⟩

theorem unlinkRepair_spec {red : Bool} {o' : RbTree ℕ} (h : Represents t (plug s p))
    (hbal : (plug (nodeAt d s red x o') p).Balanced) (hn : p.length < n) :
    ∃ t', (if red = false then unlinkFix n t s.root (above none p) else some t) = some t' ∧
      Holds t' (plug s p).toList ∧ SameData t t' := by
  cases red with
  | false => exact unlinkFix_spec h hbal.remove_black (.inl hn)
  | true => exact ⟨t, rfl, ⟨_, h, hbal.remove_red, rfl⟩, .refl⟩

theorem unlink_one (h : Represents t (plug (nodeAt d s c a nil) p))
    (hbal : (plug (nodeAt d s c a nil) p).Balanced)
    (hn : (plug (nodeAt d s c a nil) p).toList.length ≤ t.numNode) :
    ∃ t', t.unlink a = some t' ∧ Holds t' (plug s p).toList ∧
      SameData t.dropNode t' := by
  rw [length_plug, length_nodeAt] at hn
  have := length_le_elems (p := p)
  have h' := h.dropNode
  have hlen : s.toList.length ≤ t.numNode - 1 + 1 := by omega
  obtain ⟨t1, ht1, hrep, hred, hdata1⟩ := unlinkOne_spec h' hlen
  obtain ⟨t', ht', hholds, hdata⟩ := unlinkRepair_spec (n := t.fuel) hrep hbal (by rw [fuel]; omega)
  refine ⟨t', ?_, hholds, hdata1.trans hdata⟩
  obtain ⟨-, hnil⟩ := h.down.path.2.1
  have hunlink : t.unlink a = (unlinkOne t.dropNode a).bind fun r =>
      if (r.1.mem a).red = false then unlinkFix t.fuel r.1 r.2.1 r.2.2 else some r.1 := by
    cases d with
    | left =>
      have hnext : (t.mem a).next = none := hnil
      cases hleft : (t.mem a).left <;> simp only [unlink, mem_dropNode, hleft, hnext] <;> rfl
    | next =>
      have hleft : (t.mem a).left = none := hnil
      simp only [unlink, mem_dropNode, hleft]
      rfl
  rw [hunlink, ht1]
  simp only [Option.bind_some, hred]
  exact ht'

theorem unlink_two {w : ℕ} (h : Represents t (plug (node c l a r) p))
    (hbal : (plug (node c l a r) p).Balanced)
    (hn : (plug (node c l a r) p).toList.length ≤ t.numNode) (hl : l.root = some w)
    (hr : r.root = some x) :
    ∃ t', t.unlink a = some t' ∧ Holds t' (before p ++ l.toList ++ (r.toList ++ after p)) ∧
      SameData t.dropNode t' := by
  rw [length_plug] at hn
  simp only [toList_node, List.length_append, List.length_cons] at hn
  have h' := h.dropNode
  obtain ⟨-, ⟨hleft, hnext⟩, -, lR⟩ := h'.subtree
  have hlen : r.toList.length ≤ t.numNode - 1 + 1 := by omega
  obtain ⟨red, y, s, q, hy, rfl, hq⟩ := extreme_spec (d := .left) lR hr hlen
  obtain ⟨t1, ht1, hrep, hred, hdata1⟩ := unlinkTwo_spec h' hl hr hq hy
  -- the successor is where a black node may be missing
  have hbal' : (plug (nodeAt .next s red y nil) (q ++ ⟨.next, c, y, l⟩ :: p)).Balanced := by
    refine RbTree.Balanced.rename (a := a) ?_
    rw [plug_append]
    exact hbal
  have hfuel : (q ++ ⟨.next, c, y, l⟩ :: p).length < t.fuel := by
    have hp := length_le_elems (p := p)
    have hq := length_le_elems (p := q)
    rw [length_plug, length_nodeAt] at hn
    rw [fuel, List.length_append, List.length_cons]
    omega
  obtain ⟨t', ht', hholds, hdata⟩ := unlinkRepair_spec hrep hbal' hfuel
  refine ⟨t', ?_, ?_, hdata1.trans hdata⟩
  · have hleft' : (t.mem a).left = some w := hleft.trans hl
    have hnext' : (t.mem a).next = some x := hnext.trans hr
    simp only [unlink, mem_dropNode, hleft', hnext', ht1, Option.bind_eq_bind, Option.bind_some,
      hred]
    exact ht'
  · rw [toList_plug, before_append, after_append] at hholds
    simpa [toList_plug, before_eq_nil hq, before, after, nodeAt] using hholds

/-- **`RBT_UNLINK`**: the node is gone, the others are in the same order, and the tree stays
balanced. -/
theorem unlink_spec {xs ys : List ℕ} (h : Holds t (xs ++ a :: ys))
    (hn : (xs ++ a :: ys).length ≤ t.numNode) :
    ∃ t', t.unlink a = some t' ∧ Holds t' (xs ++ ys) ∧
      SameData t.dropNode t' := by
  obtain ⟨T, hrep, hbal, hlist⟩ := h
  have ha : a ∈ T.toList := by
    rw [hlist]
    simp
  obtain ⟨c, l, r, p, rfl⟩ := exists_plug_of_mem ha
  obtain ⟨hxs, hys⟩ := split_plug hrep.nodup hlist
  rw [← hlist] at hn
  rw [← hxs, ← hys]
  cases hl : l.root with
  | none =>
    obtain rfl := eq_nil_of_root hl
    have := unlink_one (d := .next) hrep hbal hn
    rw [toList_plug] at this
    simpa using this
  | some w =>
    cases hr : r.root with
    | none =>
      obtain rfl := eq_nil_of_root hr
      have := unlink_one (d := .left) hrep hbal hn
      rw [toList_plug] at this
      simpa using this
    | some x => exact unlink_two hrep hbal hn hl hr

end CloudNfs.Rbt
