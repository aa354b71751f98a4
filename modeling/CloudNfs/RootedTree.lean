import Mathlib.Data.Set.Insert
import Mathlib.Logic.ExistsUnique

/-!
# Rooted trees with labelled edges

A relation `E` says which edges there are: `E v l w` is an edge from `v` to `w` with the label `l`.

* `Path E u ls v` — a path from `u` to `v`, with its labels from the end.
* `RootedTree N r E` — the nodes `N` with these edges are a tree with the root `r`. It is the same
  as one path from the root to each node, when the labels at a node are distinct
  (`rootedTree_iff`).
* `RootedTree.insert`, `RootedTree.erase`, `RootedTree.move` — a leaf is added or taken away, and a
  node is hung up at another place with all that is below it, **unless this place is below the
  node** (`not_rootedTree_move`).
-/

namespace CloudNfs

variable {V L : Type*} {E : V → L → V → Prop} {u v w : V} {l : L} {ls ms : List L}

/-- A path from a node to another, with its labels from the end. -/
inductive Path (E : V → L → V → Prop) (u : V) : List L → V → Prop where
  | nil : Path E u [] u
  | step {ls : List L} {v : V} {l : L} {w : V} : Path E u ls v → E v l w → Path E u (l :: ls) w

theorem Path.trans (h : Path E u ls v) (h' : Path E v ms w) : Path E u (ms ++ ls) w := by
  induction h' with
  | nil => exact h
  | step _ hedge ih => exact ih.step hedge

/-- **A tree**: every node but the root has one edge that leads to it, and is reached from the
root. -/
structure RootedTree (N : Set V) (r : V) (E : V → L → V → Prop) : Prop where
  root : r ∈ N
  source : ∀ {v l w}, E v l w → v ∈ N
  target : ∀ {v l w}, E v l w → w ∈ N
  noParent : ∀ {v l}, ¬ E v l r
  parent : ∀ {v l v' l' w}, E v l w → E v' l' w → v = v' ∧ l = l'
  reached : ∀ w ∈ N, ∃ ls, Path E r ls w

namespace RootedTree

variable {N : Set V} {r : V}

theorem path_unique (h : RootedTree N r E) (hls : Path E r ls w) (hms : Path E r ms w) :
    ls = ms := by
  induction hls generalizing ms with
  | nil =>
    cases hms with
    | nil => rfl
    | step _ hedge => exact absurd hedge h.noParent
  | step _ hedge ih =>
    cases hms with
    | nil => exact absurd hedge h.noParent
    | step hpath' hedge' =>
      obtain ⟨rfl, rfl⟩ := h.parent hedge hedge'
      rw [ih hpath']

theorem existsUnique_path (h : RootedTree N r E) (hw : w ∈ N) : ∃! ls, Path E r ls w := by
  obtain ⟨ls, hls⟩ := h.reached w hw
  exact ⟨ls, hls, fun ms hms => h.path_unique hms hls⟩

theorem acyclic (h : RootedTree N r E) (hv : v ∈ N) (hpath : Path E v ls v) : ls = [] := by
  obtain ⟨ms, hms⟩ := h.reached v hv
  simpa using h.path_unique (hms.trans hpath) hms

theorem congr {N' : Set V} {E' : V → L → V → Prop} (h : RootedTree N r E) (hN : N = N')
    (hE : ∀ v l w, E v l w ↔ E' v l w) : RootedTree N' r E' := by
  obtain rfl := hN
  obtain rfl : E = E' := by
    funext v l w
    exact propext (hE v l w)
  exact h

end RootedTree

theorem Path.mono {E' : V → L → V → Prop} (hE : ∀ v l w, E v l w → E' v l w)
    (h : Path E u ls v) : Path E' u ls v := by
  induction h with
  | nil => exact .nil
  | step _ hedge ih => exact ih.step (hE _ _ _ hedge)

theorem Path.target_unique (hlabel : ∀ {v l w w'}, E v l w → E v l w' → w = w') {v' : V}
    (h : Path E u ls v) (h' : Path E u ls v') : v = v' := by
  induction h generalizing v' with
  | nil =>
    cases h'
    rfl
  | step _ hedge ih =>
    cases h' with
    | step hprefix hedge' =>
      obtain rfl := ih hprefix
      exact hlabel hedge hedge'

/-- **A tree is the same as one path from the root to each node**, when the labels at a node are
distinct. -/
theorem rootedTree_iff {N : Set V} {r : V} (hsource : ∀ {v l w}, E v l w → v ∈ N)
    (htarget : ∀ {v l w}, E v l w → w ∈ N) (hlabel : ∀ {v l w w'}, E v l w → E v l w' → w = w') :
    RootedTree N r E ↔ r ∈ N ∧ ∀ w ∈ N, ∃! ls, Path E r ls w := by
  constructor
  · exact fun h => ⟨h.root, fun w hw => h.existsUnique_path hw⟩
  · rintro ⟨hroot, hunique⟩
    refine ⟨hroot, hsource, htarget, ?_, ?_, fun w hw => (hunique w hw).exists⟩
    · intro v l hedge
      obtain ⟨ls, hls⟩ := (hunique v (hsource hedge)).exists
      exact absurd ((hunique r hroot).unique (hls.step hedge) .nil) (by simp)
    · intro v l v' l' w hedge hedge'
      obtain ⟨ls, hls⟩ := (hunique v (hsource hedge)).exists
      obtain ⟨ms, hms⟩ := (hunique v' (hsource hedge')).exists
      obtain ⟨rfl, rfl⟩ :=
        List.cons.inj ((hunique w (htarget hedge)).unique (hls.step hedge) (hms.step hedge'))
      exact ⟨Path.target_unique @hlabel hls hms, rfl⟩

namespace RootedTree

variable {N : Set V} {r p q x : V} {a b : L}

theorem insert (h : RootedTree N r E) (hp : p ∈ N) (hx : x ∉ N) :
    RootedTree (Insert.insert x N) r fun v l w => E v l w ∨ v = p ∧ l = a ∧ w = x := by
  refine ⟨.inr h.root, ?_, ?_, ?_, ?_, ?_⟩
  · rintro v l w (hedge | ⟨rfl, -, -⟩)
    · exact .inr (h.source hedge)
    · exact .inr hp
  · rintro v l w (hedge | ⟨-, -, rfl⟩)
    · exact .inr (h.target hedge)
    · exact .inl rfl
  · rintro v l (hedge | ⟨-, -, rfl⟩)
    · exact h.noParent hedge
    · exact hx h.root
  · rintro v l v' l' w (hedge | ⟨rfl, rfl, rfl⟩) (hedge' | ⟨rfl, rfl, hw⟩)
    · exact h.parent hedge hedge'
    · exact absurd (hw ▸ h.target hedge) hx
    · exact absurd (h.target hedge') hx
    · exact ⟨rfl, rfl⟩
  · rintro w (rfl | hw)
    · obtain ⟨ls, hls⟩ := h.reached p hp
      exact ⟨a :: ls, (hls.mono fun _ _ _ => Or.inl).step (.inr ⟨rfl, rfl, rfl⟩)⟩
    · obtain ⟨ls, hls⟩ := h.reached w hw
      exact ⟨ls, hls.mono fun _ _ _ => Or.inl⟩

theorem path_erase (hleaf : ∀ l w, ¬ E x l w) (hpath : Path E u ls w) (hw : w ≠ x) :
    Path (fun v l w => E v l w ∧ w ≠ x) u ls w := by
  induction hpath with
  | nil => exact .nil
  | @step ls v l w _ hedge ih =>
    refine (ih ?_).step ⟨hedge, hw⟩
    rintro rfl
    exact hleaf _ _ hedge

theorem erase (h : RootedTree N r E) (hx : x ≠ r) (hleaf : ∀ l w, ¬ E x l w) :
    RootedTree (N \ {x}) r fun v l w => E v l w ∧ w ≠ x := by
  refine ⟨⟨h.root, hx.symm⟩, ?_, ?_, ?_, ?_, ?_⟩
  · rintro v l w ⟨hedge, -⟩
    refine ⟨h.source hedge, ?_⟩
    rintro rfl
    exact hleaf _ _ hedge
  · rintro v l w ⟨hedge, hw⟩
    exact ⟨h.target hedge, hw⟩
  · rintro v l ⟨hedge, -⟩
    exact h.noParent hedge
  · rintro v l v' l' w ⟨hedge, -⟩ ⟨hedge', -⟩
    exact h.parent hedge hedge'
  · rintro w ⟨hw, hne⟩
    obtain ⟨ls, hls⟩ := h.reached w hw
    exact ⟨ls, path_erase hleaf hls hne⟩

/-- A node is hung up elsewhere. -/
def Moved (E : V → L → V → Prop) (q : V) (b : L) (x v : V) (l : L) (w : V) : Prop :=
  E v l w ∧ w ≠ x ∨ v = q ∧ l = b ∧ w = x

theorem path_moved (hpath : Path E r ls w) :
    Path (Moved E q b x) r ls w ∨ ∃ ms, Path E x ms w ∧ Path (Moved E q b x) x ms w := by
  induction hpath with
  | nil => exact .inl .nil
  | @step ls v l w _ hedge ih =>
    by_cases hw : w = x
    · rw [hw]
      exact .inr ⟨[], .nil, .nil⟩
    · rcases ih with ih | ⟨ms, hms, hms'⟩
      · exact .inl (ih.step (.inl ⟨hedge, hw⟩))
      · exact .inr ⟨l :: ms, hms.step hedge, hms'.step (.inl ⟨hedge, hw⟩)⟩

theorem move (h : RootedTree N r E) (hx : E p a x) (hq : q ∈ N)
    (hbelow : ∀ ls, ¬ Path E x ls q) : RootedTree N r (Moved E q b x) := by
  have hroot : ∀ {w ls}, Path E r ls w → ∃ ms, Path (Moved E q b x) r ms w := by
    intro w ls hpath
    obtain ⟨qs, hqs⟩ := h.reached q hq
    rcases path_moved (q := q) (b := b) (x := x) hqs with hq' | ⟨ms, hms, -⟩
    · rcases path_moved (q := q) (b := b) (x := x) hpath with hw' | ⟨ms, -, hms'⟩
      · exact ⟨ls, hw'⟩
      · exact ⟨_, (hq'.step (.inr ⟨rfl, rfl, rfl⟩)).trans hms'⟩
    · exact absurd hms (hbelow ms)
  refine ⟨h.root, ?_, ?_, ?_, ?_, ?_⟩
  · rintro v l w (⟨hedge, -⟩ | ⟨rfl, -, -⟩)
    · exact h.source hedge
    · exact hq
  · rintro v l w (⟨hedge, -⟩ | ⟨-, -, rfl⟩)
    · exact h.target hedge
    · exact h.target hx
  · rintro v l (⟨hedge, -⟩ | ⟨-, -, rfl⟩)
    · exact h.noParent hedge
    · exact h.noParent hx
  · rintro v l v' l' w (⟨hedge, hw⟩ | ⟨rfl, rfl, rfl⟩) (⟨hedge', hw'⟩ | ⟨rfl, rfl, hw'⟩)
    · exact h.parent hedge hedge'
    · exact absurd hw' hw
    · exact absurd rfl hw'
    · exact ⟨rfl, rfl⟩
  · intro w hw
    obtain ⟨ls, hls⟩ := h.reached w hw
    exact hroot hls

theorem not_rootedTree_move {N' : Set V} {r' : V} (h : RootedTree N r E) (hx : E p a x)
    (hbelow : Path E x ls q) : ¬ RootedTree N' r' (Moved E q b x) := by
  have hkeep : ∀ {ms v}, Path E x ms v → Path (Moved E q b x) x ms v := by
    intro ms v hpath
    induction hpath with
    | nil => exact .nil
    | @step ls v l w hpath hedge ih =>
      refine ih.step (.inl ⟨hedge, ?_⟩)
      rintro rfl
      exact absurd (h.acyclic (h.target hx) (hpath.step hedge)) (by simp)
  intro h'
  have hpath := hkeep hbelow
  have hcycle := hpath.step (.inr ⟨rfl, rfl, rfl⟩ : Moved E q b x q b x)
  exact absurd (h'.acyclic (h'.target (.inr ⟨rfl, rfl, rfl⟩ : Moved E q b x q b x)) hcycle)
    (by simp)

end RootedTree

end CloudNfs
