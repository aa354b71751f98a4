import CloudNfs.RootedTree

/-!
# Trees of directories

Each node has two edges more than its children: one with the label `here` to itself, and one with
the label `up` to its parent. The root need not have the second.

* `Named here up G` — the edges that are left when these two are put aside.
* `DotTree here up N r G` — the nodes `N` with the edges `G` are such a tree, by `RootedTree`.
* `DotTree.insert`, `DotTree.erase`, `DotTree.move` — a directory is made, removed and moved, where
  its `up` has to be moved too; `DotTree.not_move` is the move below itself.
-/

namespace CloudNfs

variable {V L : Type*} {here up : L} {N : Set V} {r v w p q x : V} {l a b : L}
  {G : V → L → V → Prop}

/-- The edges with other labels. -/
def Named (here up : L) (G : V → L → V → Prop) (v : V) (l : L) (w : V) : Prop :=
  G v l w ∧ l ≠ here ∧ l ≠ up

/-- **A tree of directories.** -/
structure DotTree (here up : L) (N : Set V) (r : V) (G : V → L → V → Prop) : Prop where
  source : ∀ {v l w}, G v l w → v ∈ N
  functional : ∀ {v l w w'}, G v l w → G v l w' → w = w'
  /-- `here` leads back -/
  loop : ∀ v ∈ N, G v here v
  /-- there is an `up`, unless at the root -/
  above : ∀ v ∈ N, v ≠ r → ∃ w, G v up w
  parent : ∀ {v w}, G v up w → (∃ l, Named here up G w l v) ∨ v = r ∧ w = r
  tree : RootedTree N r (Named here up G)

namespace DotTree

variable (h : DotTree here up N r G)

include h

theorem congr {N' : Set V} {G' : V → L → V → Prop} (hN : ∀ v, v ∈ N' ↔ v ∈ N)
    (hG : ∀ v l w, G' v l w ↔ G v l w) : DotTree here up N' r G' := by
  obtain rfl : N' = N := Set.ext hN
  obtain rfl : G' = G := by
    funext v l w
    exact propext (hG v l w)
  exact h

theorem up_of_named (hchild : Named here up G p l x) : G x up p := by
  have hx : x ≠ r := by
    rintro rfl
    exact h.tree.noParent hchild
  obtain ⟨w, hw⟩ := h.above x (h.tree.target hchild) hx
  rcases h.parent hw with ⟨l', hchild'⟩ | ⟨rfl, -⟩
  · rw [(h.tree.parent hchild hchild').1]
    exact hw
  · exact absurd rfl hx

theorem insert (hp : p ∈ N) (hx : x ∉ N) (hne : here ≠ up) (ha : a ≠ here) (ha' : a ≠ up)
    (hnew : ∀ w, ¬ G p a w) :
    DotTree here up (Insert.insert x N) r fun v l w =>
      G v l w ∨ v = x ∧ (l = here ∧ w = x ∨ l = up ∧ w = p) ∨ v = p ∧ l = a ∧ w = x := by
  have hpx : p ≠ x := by
    rintro rfl
    exact hx hp
  have hsource : ∀ {l w}, ¬ G x l w := fun hedge => hx (h.source hedge)
  refine ⟨?_, ?_, ?_, ?_, ?_, ?_⟩
  · rintro v l w (hedge | ⟨rfl, -⟩ | ⟨rfl, -⟩)
    · exact .inr (h.source hedge)
    · exact .inl rfl
    · exact .inr hp
  · rintro v l w w' (hedge | ⟨rfl, hw⟩ | ⟨rfl, rfl, rfl⟩) (hedge' | ⟨hv, hw'⟩ | ⟨hv, hl, hw'⟩)
    · exact h.functional hedge hedge'
    · exact absurd (hv ▸ hedge) hsource
    · exact absurd (hl ▸ hv ▸ hedge) (hnew w)
    · exact absurd hedge' hsource
    · rcases hw with ⟨rfl, rfl⟩ | ⟨rfl, rfl⟩ <;> rcases hw' with ⟨hl, rfl⟩ | ⟨hl, rfl⟩
      · rfl
      · exact absurd hl hne
      · exact absurd hl.symm hne
      · rfl
    · exact absurd hv.symm hpx
    · exact absurd hedge' (hnew w')
    · exact absurd hv hpx
    · exact hw'.symm
  · rintro v (rfl | hv)
    · exact .inr (.inl ⟨rfl, .inl ⟨rfl, rfl⟩⟩)
    · exact .inl (h.loop v hv)
  · rintro v (rfl | hv) hvr
    · exact ⟨p, .inr (.inl ⟨rfl, .inr ⟨rfl, rfl⟩⟩)⟩
    · obtain ⟨w, hw⟩ := h.above v hv hvr
      exact ⟨w, .inl hw⟩
  · rintro v w (hedge | ⟨rfl, ⟨hl, -⟩ | ⟨-, rfl⟩⟩ | ⟨-, hl, -⟩)
    · rcases h.parent hedge with ⟨l, hchild⟩ | hroot
      · exact .inl ⟨l, .inl hchild.1, hchild.2⟩
      · exact .inr hroot
    · exact absurd hl.symm hne
    · exact .inl ⟨a, .inr (.inr ⟨rfl, rfl, rfl⟩), ha, ha'⟩
    · exact absurd hl.symm ha'
  · refine (h.tree.insert hp hx (a := a)).congr rfl fun v l w => ?_
    constructor
    · rintro (⟨hedge, hl⟩ | ⟨rfl, rfl, rfl⟩)
      · exact ⟨.inl hedge, hl⟩
      · exact ⟨.inr (.inr ⟨rfl, rfl, rfl⟩), ha, ha'⟩
    · rintro ⟨hedge | ⟨-, ⟨hl, -⟩ | ⟨hl, -⟩⟩ | hedge, hhere, hup⟩
      · exact .inl ⟨hedge, hhere, hup⟩
      · exact absurd hl hhere
      · exact absurd hl hup
      · exact .inr hedge

theorem erase (hx : x ≠ r) (hleaf : ∀ l w, ¬ Named here up G x l w) :
    DotTree here up (N \ {x}) r fun v l w => G v l w ∧ v ≠ x ∧ w ≠ x := by
  refine ⟨?_, ?_, ?_, ?_, ?_, ?_⟩
  · rintro v l w ⟨hedge, hv, -⟩
    exact ⟨h.source hedge, hv⟩
  · rintro v l w w' ⟨hedge, -⟩ ⟨hedge', -⟩
    exact h.functional hedge hedge'
  · rintro v ⟨hv, hne⟩
    exact ⟨h.loop v hv, hne, hne⟩
  · rintro v ⟨hv, hne⟩ hvr
    obtain ⟨w, hw⟩ := h.above v hv hvr
    refine ⟨w, hw, hne, ?_⟩
    rintro rfl
    rcases h.parent hw with ⟨l, hchild⟩ | ⟨hroot, -⟩
    · exact hleaf l v hchild
    · exact hvr hroot
  · rintro v w ⟨hedge, hv, hw⟩
    rcases h.parent hedge with ⟨l, hchild, hl⟩ | hroot
    · exact .inl ⟨l, ⟨hchild, hw, hv⟩, hl⟩
    · exact .inr hroot
  · refine (h.tree.erase hx hleaf).congr rfl fun v l w => ?_
    constructor
    · rintro ⟨⟨hedge, hl⟩, hw⟩
      refine ⟨⟨hedge, ?_, hw⟩, hl⟩
      rintro rfl
      exact hleaf l w ⟨hedge, hl⟩
    · rintro ⟨⟨hedge, -, hw⟩, hl⟩
      exact ⟨⟨hedge, hl⟩, hw⟩

end DotTree

/-- The edges after a move of `x` from `p` to `q`, with its `up`. -/
def DotMoved (up : L) (G : V → L → V → Prop) (p : V) (a : L) (q : V) (b : L) (x v : V) (l : L)
    (w : V) : Prop :=
  G v l w ∧ ¬ (v = p ∧ l = a) ∧ ¬ (v = x ∧ l = up) ∨ v = q ∧ l = b ∧ w = x ∨
    v = x ∧ l = up ∧ w = q

namespace DotTree

variable (h : DotTree here up N r G)

include h

theorem named_moved (hx : Named here up G p a x) (hb : b ≠ here) (hb' : b ≠ up) (v : V) (l : L)
    (w : V) : RootedTree.Moved (Named here up G) q b x v l w ↔
      Named here up (DotMoved up G p a q b x) v l w := by
  constructor
  · rintro (⟨⟨hedge, hl⟩, hw⟩ | ⟨rfl, rfl, rfl⟩)
    · refine ⟨.inl ⟨hedge, ?_, fun hup => hl.2 hup.2⟩, hl⟩
      rintro ⟨rfl, rfl⟩
      exact hw (h.functional hedge hx.1)
    · exact ⟨.inr (.inl ⟨rfl, rfl, rfl⟩), hb, hb'⟩
  · rintro ⟨⟨hedge, hold, -⟩ | hnew | ⟨-, hl, -⟩, hhere, hup⟩
    · refine .inl ⟨⟨hedge, hhere, hup⟩, ?_⟩
      rintro rfl
      exact hold (h.tree.parent ⟨hedge, hhere, hup⟩ hx)
    · exact .inr hnew
    · exact absurd hl hup

/-- **A directory is moved** to a directory that is not below it, which may be its parent. -/
theorem move (hx : Named here up G p a x) (hq : q ∈ N) (hne : here ≠ up) (hb : b ≠ here)
    (hb' : b ≠ up) (hnew : ∀ w, G q b w → q = p ∧ b = a)
    (hbelow : ∀ ls, ¬ Path (Named here up G) x ls q) :
    DotTree here up N r (DotMoved up G p a q b x) := by
  have hxN : x ∈ N := h.tree.target hx
  have hqx : q ≠ x := by
    rintro rfl
    exact hbelow [] .nil
  refine ⟨?_, ?_, ?_, ?_, ?_, ?_⟩
  · rintro v l w (⟨hedge, -⟩ | ⟨rfl, -⟩ | ⟨rfl, -⟩)
    · exact h.source hedge
    · exact hq
    · exact hxN
  · rintro v l w w' (⟨hedge, hold, hup⟩ | ⟨rfl, rfl, rfl⟩ | ⟨rfl, rfl, rfl⟩)
      (⟨hedge', hold', hup'⟩ | ⟨hv, hl, rfl⟩ | ⟨hv, hl, rfl⟩)
    · exact h.functional hedge hedge'
    · subst hv hl
      exact absurd (hnew w hedge) hold
    · exact absurd ⟨hv, hl⟩ hup
    · exact absurd (hnew w' hedge') hold'
    · rfl
    · exact absurd hv hqx
    · exact absurd ⟨rfl, rfl⟩ hup'
    · exact absurd hv.symm hqx
    · rfl
  · intro v hv
    exact .inl ⟨h.loop v hv, fun hold => hx.2.1 hold.2.symm, fun hup => hne hup.2⟩
  · intro v hv hvr
    by_cases hvx : v = x
    · exact ⟨q, .inr (.inr ⟨hvx, rfl, rfl⟩)⟩
    · obtain ⟨w, hw⟩ := h.above v hv hvr
      exact ⟨w, .inl ⟨hw, fun hold => hx.2.2 hold.2.symm, fun hup => hvx hup.1⟩⟩
  · rintro v w (⟨hedge, -, hup⟩ | ⟨-, hl, -⟩ | ⟨rfl, -, rfl⟩)
    · have hvx : v ≠ x := fun hv => hup ⟨hv, rfl⟩
      rcases h.parent hedge with ⟨l, hchild⟩ | hroot
      · exact .inl ⟨l, (h.named_moved hx hb hb' w l v).mp (.inl ⟨hchild, hvx⟩)⟩
      · exact .inr hroot
    · exact absurd hl.symm hb'
    · exact .inl ⟨b, .inr (.inl ⟨rfl, rfl, rfl⟩), hb, hb'⟩
  · exact (h.tree.move hx hq hbelow).congr rfl (h.named_moved hx hb hb')

theorem not_move {N' : Set V} {r' : V} {ls : List L} (hx : Named here up G p a x) (hb : b ≠ here)
    (hb' : b ≠ up) (hbelow : Path (Named here up G) x ls q) :
    ¬ RootedTree N' r' (Named here up (DotMoved up G p a q b x)) := by
  intro htree
  have hmoved : RootedTree N' r' (RootedTree.Moved (Named here up G) q b x) :=
    htree.congr rfl fun v l w => (h.named_moved hx hb hb' v l w).symm
  exact h.tree.not_rootedTree_move hx hbelow hmoved

end DotTree

end CloudNfs
