import CloudNfs.RbtLinks

/-!
# Walking through a red-black tree

What the macros that only read return, in terms of the list of the nodes in order.

* `findLeft_spec` — `RBT_FIND_LEFT` gives the first node of the list with the value, though the
  nodes with the same value can be anywhere above and below each other.

They all end: a walk down takes no more steps than the subtree has nodes, and a walk up no more
than the path has.
-/

namespace CloudNfs.Rbt

open RedBlack RedBlack.RbTree

variable {δ : Type} {t : Rbt δ} {T s s' l r : RbTree ℕ} {p : List (Step ℕ)} {par : Option ℕ}
  {anc : Anchor} {a x y : ℕ} {d : Side} {c : Bool} {n : ℕ} {val : ℤ}

/-! ## To the next node -/

theorem extreme_spec (h : Linked t.mem par anc s) (hroot : s.root = some y)
    (hn : s.toList.length ≤ n) : ∃ c w s' q, t.extreme d n y = some w ∧
      s = plug (nodeAt d nil c w s') q ∧ ∀ f ∈ q, f.side = d := by
  induction n generalizing s y par anc with
  | zero =>
    obtain ⟨c, s1, s2, rfl⟩ := exists_nodeAt d hroot
    rw [length_nodeAt] at hn
    omega
  | succ n ih =>
    obtain ⟨c, s1, s2, rfl⟩ := exists_nodeAt d hroot
    rw [length_nodeAt] at hn
    obtain ⟨-, ⟨hchild, -⟩, hs1, -⟩ := linked_nodeAt.mp h
    cases hs : s1.root with
    | none =>
      obtain rfl := eq_nil_of_root hs
      exact ⟨c, y, s2, [], by simp [extreme, hchild], rfl, by simp⟩
    | some y' =>
      obtain ⟨c', w, s', q, hw, rfl, hq⟩ := ih hs1 hs (by omega)
      refine ⟨c', w, s', q ++ [⟨d, c, y, s2⟩], ?_, ?_, ?_⟩
      · rw [extreme, hchild, hs]
        exact hw
      · rw [plug_append]
        rfl
      · intro f hf
        rcases List.mem_append.mp hf with hf | hf
        · exact hq f hf
        · rw [List.mem_singleton.mp hf]

theorem before_eq_nil (h : ∀ f ∈ p, f.side = .left) : before p = [] := by
  induction p with
  | nil => rfl
  | cons f p ih =>
    simp [before, h f (by simp), ih fun g hg => h g (.tail f hg)]

theorem after_eq_nil (h : ∀ f ∈ p, f.side = .next) : after p = [] := by
  induction p with
  | nil => rfl
  | cons f p ih =>
    simp [after, h f (by simp), ih fun g hg => h g (.tail f hg)]

theorem climb_spec (h : Represents t (plug s p)) (hroot : s.root = some x) (hn : p.length ≤ n) :
    t.climb (n + 1) x = some (after p).head? := by
  induction p generalizing s x n with
  | nil =>
    rw [climb, h.parent hroot]
    rfl
  | cons f p ih =>
    rw [climb, h.parent hroot]
    simp only [above, h.next_eq_iff hroot]
    cases hf : f.side with
    | left => simp [after, hf]
    | next =>
      obtain ⟨m, rfl⟩ := Nat.exists_eq_add_of_le' (Nat.lt_of_lt_of_le (Nat.succ_pos _) hn)
      rw [if_pos rfl, ih h root_nodeAt (Nat.le_of_succ_le_succ hn)]
      simp [after, hf]

theorem increment_plug (h : Represents t (plug (node c l x r) p))
    (hn : (plug (node c l x r) p).toList.length ≤ t.numNode) :
    t.increment x = some (r.toList ++ after p).head? := by
  rw [length_plug] at hn
  obtain ⟨-, ⟨-, hnext⟩, -, hr⟩ := h.subtree
  rw [increment, hnext]
  cases hroot : r.root with
  | none =>
    obtain rfl := eq_nil_of_root hroot
    have := length_le_elems (p := p)
    exact climb_spec h rfl (by omega)
  | some y =>
    have hlen : r.toList.length ≤ t.fuel := by
      have : (nodeAt .left l c x r).toList.length = l.toList.length + r.toList.length + 1 :=
        length_nodeAt
      rw [nodeAt] at this
      rw [fuel]
      omega
    obtain ⟨c', w, s', q, hw, rfl, hq⟩ := extreme_spec (d := .left) hr hroot hlen
    simp [hw, toList_plug, before_eq_nil hq, nodeAt]

theorem increment_spec (h : Represents t T) (hn : T.toList.length ≤ t.numNode) {xs ys : List ℕ}
    (hlist : T.toList = xs ++ x :: ys) : t.increment x = some ys.head? := by
  have hx : x ∈ T.toList := by
    rw [hlist]
    simp
  obtain ⟨c, l, r, p, rfl⟩ := exists_plug_of_mem hx
  rw [increment_plug h hn, (split_plug h.nodup hlist).2]

/-! ## To the first node with a value -/

/-- The values of a list of nodes do not decrease. -/
def Sorted (m : ℕ → RbtNode δ) (nodes : List ℕ) : Prop :=
  nodes.Pairwise fun a b => (m a).value ≤ (m b).value

theorem sorted_node : Sorted t.mem (node c l x r).toList ↔
    (Sorted t.mem l.toList ∧ ∀ a ∈ l.toList, (t.mem a).value ≤ (t.mem x).value) ∧
      Sorted t.mem r.toList ∧ ∀ b ∈ r.toList, (t.mem x).value ≤ (t.mem b).value := by
  simp only [Sorted, toList_node, List.pairwise_append, List.pairwise_cons, List.mem_cons,
    forall_eq_or_imp]
  refine ⟨fun ⟨hl, ⟨hxr, hr⟩, hlr⟩ => ⟨⟨hl, fun a ha => (hlr a ha).1⟩, hr, hxr⟩, ?_⟩
  rintro ⟨⟨hl, hlx⟩, hr, hxr⟩
  exact ⟨hl, ⟨hxr, hr⟩, fun a ha => ⟨hlx a ha, fun b hb => Int.le_trans (hlx a ha) (hxr b hb)⟩⟩

/-- The first node of a list with a value. -/
def first (m : ℕ → RbtNode δ) (val : ℤ) (nodes : List ℕ) : Option ℕ :=
  nodes.find? fun a => decide ((m a).value = val)

theorem first_node_of_lt (h : Sorted t.mem (node c l x r).toList) (hx : (t.mem x).value < val) :
    first t.mem val (node c l x r).toList = first t.mem val r.toList := by
  have hl : first t.mem val l.toList = none := by
    refine List.find?_eq_none.mpr fun a ha => ?_
    have := (sorted_node.mp h).1.2 a ha
    simp only [decide_eq_true_eq]
    omega
  rw [first] at hl
  simp [first, hl, Int.ne_of_lt hx]

theorem first_node_of_gt (h : Sorted t.mem (node c l x r).toList) (hx : val < (t.mem x).value) :
    first t.mem val (node c l x r).toList = first t.mem val l.toList := by
  have hr : first t.mem val r.toList = none := by
    refine List.find?_eq_none.mpr fun b hb => ?_
    have := (sorted_node.mp h).2.2 b hb
    simp only [decide_eq_true_eq]
    omega
  rw [first] at hr
  simp [first, hr, Int.ne_of_gt hx]

theorem first_node_of_eq (hx : (t.mem x).value = val) :
    first t.mem val (node c l x r).toList = some ((first t.mem val l.toList).getD x) := by
  cases hl : first t.mem val l.toList with
  | none =>
    rw [first] at hl
    simp [first, hl, hx]
  | some y =>
    rw [first] at hl
    simp [first, hl]

/-- The inner loops of `RBT_FIND_LEFT`: below a node with the value, the first one with it, and
else the last one that the loops have seen. -/
theorem findLeft_loops (n : ℕ) :
    (∀ {c l x r par anc} (y : ℕ), Linked t.mem par anc (node c l x r) → Sorted t.mem l.toList →
      (∀ a ∈ l.toList, (t.mem a).value ≤ val) → l.toList.length ≤ n →
      t.findLeftLeft val (n + 1) x y = some ((first t.mem val l.toList).getD y)) ∧
    (∀ {c l x r par anc} (y : ℕ), Linked t.mem par anc (node c l x r) → Sorted t.mem r.toList →
      (∀ a ∈ r.toList, (t.mem a).value ≤ val) → r.toList.length ≤ n →
      t.findLeftNext val (n + 1) x y = some ((first t.mem val r.toList).getD y)) := by
  induction n with
  | zero =>
    refine ⟨?_, ?_⟩
    · rintro c (_ | _) x r par anc y ⟨-, ⟨hleft, -⟩, -⟩ - - hn
      · simp [findLeftLeft, hleft, first]
      · simp at hn
    · rintro c l x (_ | _) par anc y ⟨-, ⟨-, hnext⟩, -⟩ - - hn
      · simp [findLeftNext, hnext, first]
      · simp at hn
  | succ n ih =>
    -- both loops go on in the same way below the next node, `x'`
    obtain ⟨ihl, ihr⟩ := ih
    refine ⟨?_, ?_⟩
    · rintro c (_ | ⟨c', l', x', r'⟩) x r par anc y ⟨-, ⟨hleft, -⟩, hl, -⟩ hsorted hle hn
      · simp [findLeftLeft, hleft, first]
      · obtain ⟨⟨hl', hlx⟩, hr', -⟩ := sorted_node.mp hsorted
        simp only [toList_node, List.mem_append, List.mem_cons, List.length_append,
          List.length_cons] at hle hn
        rw [findLeftLeft, hleft]
        by_cases hx : (t.mem x').value < val
        · simp only [root_node, if_pos hx, first_node_of_lt hsorted hx]
          exact ihr y hl hr' (fun a ha => hle a (.inr (.inr ha))) (by omega)
        have hx' : (t.mem x').value = val := by
          have := hle x' (.inr (.inl rfl))
          omega
        simp only [root_node, if_neg hx, first_node_of_eq hx', Option.getD_some]
        exact ihl x' hl hl' (fun a ha => hle a (.inl ha)) (by omega)
    · rintro c l x (_ | ⟨c', l', x', r'⟩) par anc y ⟨-, ⟨-, hnext⟩, -, hr⟩ hsorted hle hn
      · simp [findLeftNext, hnext, first]
      · obtain ⟨⟨hl', hlx⟩, hr', -⟩ := sorted_node.mp hsorted
        simp only [toList_node, List.mem_append, List.mem_cons, List.length_append,
          List.length_cons] at hle hn
        rw [findLeftNext, hnext]
        by_cases hx : (t.mem x').value = val
        · simp only [root_node, if_pos hx, first_node_of_eq hx, Option.getD_some]
          exact ihl x' hr hl' (fun a ha => hle a (.inl ha)) (by omega)
        have hx' : (t.mem x').value < val := by
          have := hle x' (.inr (.inl rfl))
          omega
        simp only [root_node, if_neg hx, first_node_of_lt hsorted hx']
        exact ihr y hr hr' (fun a ha => hle a (.inr (.inr ha))) (by omega)

theorem findLeftFrom_spec (h : Linked t.mem par anc s) (hsorted : Sorted t.mem s.toList)
    (hn : s.toList.length ≤ n) (hnum : s.toList.length ≤ t.numNode) :
    t.findLeftFrom val (n + 1) s.root = some (first t.mem val s.toList) := by
  induction s generalizing par anc n with
  | nil => rfl
  | node c l x r ihl ihr =>
    obtain ⟨-, ⟨hleft, hnext⟩, hl, hr⟩ := id h
    obtain ⟨⟨hl', hlx⟩, hr', hxr⟩ := sorted_node.mp hsorted
    simp only [toList_node, List.length_append, List.length_cons] at hn hnum
    obtain ⟨m, rfl⟩ : ∃ m, n = m + 1 := ⟨n - 1, by omega⟩
    rw [root_node, findLeftFrom, hleft, hnext]
    rcases Int.lt_trichotomy (t.mem x).value val with hx | hx | hx
    · rw [if_neg (by omega), if_pos hx, first_node_of_lt hsorted hx]
      exact ihr hr hr' (by omega) (by omega)
    · rw [if_neg (by omega), if_neg (by omega), first_node_of_eq hx, fuel,
        (findLeft_loops t.numNode).1 x h hl' (fun a ha => hx ▸ hlx a ha) (by omega)]
      rfl
    · rw [if_pos hx, first_node_of_gt hsorted hx]
      exact ihl hl hl' (by omega) (by omega)

theorem findLeft_spec (h : Represents t T) (hsorted : Sorted t.mem T.toList)
    (hn : T.toList.length ≤ t.numNode) : t.findLeft val = some (first t.mem val T.toList) := by
  rw [findLeft, h.root]
  exact findLeftFrom_spec h.linked hsorted hn hn

/-! ## To the place for a value -/

/-- The end of a path is a place for the value in the order. -/
structure PlaceFor (m : ℕ → RbtNode δ) (val : ℤ) (p : List (Step ℕ)) : Prop where
  before_le : ∀ a ∈ before p, (m a).value ≤ val
  le_after : ∀ b ∈ after p, val ≤ (m b).value

/-- The last step of a walk down went to the side of the value. -/
def Towards (m : ℕ → RbtNode δ) (val : ℤ) : List (Step ℕ) → Prop
  | [] => True
  | f :: _ => match f.side with
    | .left => val < (m f.elem).value
    | .next => (m f.elem).value < val

/-- What `RBT_FIND` returns: a node with the value, or the node above the place for it. -/
def Found (m : ℕ → RbtNode δ) (val : ℤ) (T : RbTree ℕ) (res : Option ℕ) : Prop :=
  (∃ c l w r p, T = plug (node c l w r) p ∧ (m w).value = val ∧ res = some w) ∨
    ∃ p, T = plug nil p ∧ res = above none p ∧ Towards m val p ∧ PlaceFor m val p

theorem Found.congr {m m' : ℕ → RbtNode δ} {res : Option ℕ} (h : Found m val T res)
    (heq : ∀ a ∈ T.toList, (m' a).value = (m a).value) : Found m' val T res := by
  rcases h with ⟨c, l, w, r, p, rfl, hw, rfl⟩ | ⟨p, rfl, rfl, hside, hplace⟩
  · refine .inl ⟨c, l, w, r, p, rfl, (heq w ?_).trans hw, rfl⟩
    simp [toList_plug]
  · have hmem : ∀ a ∈ elems p, (m' a).value = (m a).value := fun a ha =>
      heq a (mem_plug.mpr (.inr ha))
    refine .inr ⟨p, rfl, rfl, ?_, ⟨fun a ha => ?_, fun b hb => ?_⟩⟩
    · rcases p with _ | ⟨⟨_ | _, c, w, s⟩, p⟩
      · trivial
      · exact lt_of_lt_of_eq hside (hmem w (by simp [elems])).symm
      · exact lt_of_eq_of_lt (hmem w (by simp [elems])) hside
    · rw [hmem a (mem_elems.mpr (.inl ha))]
      exact hplace.before_le a ha
    · rw [hmem b (mem_elems.mpr (.inr hb))]
      exact hplace.le_after b hb

theorem findFrom_spec {res : Option ℕ} (h : Linked t.mem par anc s)
    (hsorted : Sorted t.mem s.toList) (hp : PlaceFor t.mem val p) (hside : Towards t.mem val p)
    (hres : s = nil → res = above none p) (hn : s.toList.length ≤ n) :
    ∃ res', t.findFrom val (n + 1) s.root res = some res' ∧ Found t.mem val (plug s p) res' := by
  induction s generalizing par anc p res n with
  | nil => exact ⟨res, rfl, .inr ⟨p, rfl, hres rfl, hside, hp⟩⟩
  | node c l x r ihl ihr =>
    obtain ⟨-, ⟨hleft, hnext⟩, hl, hr⟩ := h
    obtain ⟨⟨hl', hlx⟩, hr', hxr⟩ := sorted_node.mp hsorted
    simp only [toList_node, List.length_append, List.length_cons] at hn
    obtain ⟨m, rfl⟩ : ∃ m, n = m + 1 := ⟨n - 1, by omega⟩
    rw [root_node, findFrom, hleft, hnext]
    rcases Int.lt_trichotomy (t.mem x).value val with hx | hx | hx
    · rw [if_neg (by omega), if_pos hx]
      refine ihr hr hr' (p := ⟨.next, c, x, l⟩ :: p) ⟨?_, hp.le_after⟩ hx (fun _ => rfl) (by omega)
      intro a ha
      simp only [before, List.mem_append, List.mem_singleton] at ha
      rcases ha with ha | ha | rfl
      · exact hp.before_le a ha
      · exact Int.le_trans (hlx a ha) (Int.le_of_lt hx)
      · exact Int.le_of_lt hx
    · rw [if_neg (by omega), if_neg (by omega)]
      exact ⟨some x, rfl, .inl ⟨c, l, x, r, p, rfl, hx, rfl⟩⟩
    · rw [if_pos hx]
      refine ihl hl hl' (p := ⟨.left, c, x, r⟩ :: p) ⟨?_, ?_⟩ hx (fun _ => rfl) (by omega)
      · intro a ha
        exact hp.before_le a (by simpa [before] using ha)
      · intro b hb
        simp only [after, List.mem_append, List.mem_cons] at hb
        rcases hb with (rfl | hb) | hb
        · exact Int.le_of_lt hx
        · exact Int.le_trans (Int.le_of_lt hx) (hxr b hb)
        · exact hp.le_after b hb

theorem find_spec (h : Represents t T) (hsorted : Sorted t.mem T.toList)
    (hn : T.toList.length ≤ t.numNode) : ∃ res, t.find val = some res ∧ Found t.mem val T res := by
  rw [find, h.root]
  refine findFrom_spec (p := []) h.linked hsorted ⟨?_, ?_⟩ trivial ?_ hn
  · simp [before]
  · simp [after]
  · rintro rfl
    rfl

end CloudNfs.Rbt
