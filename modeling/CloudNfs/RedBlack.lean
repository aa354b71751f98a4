import Mathlib.Data.List.Nodup

/-!
# Red-black trees and the paths into them

A red-black tree as a value, and a position in it as a *path*: the steps from a subtree up to
the root. An algorithm that walks a tree with parent pointers works at a position, `plug`
puts the subtree back, and everything that a position needs is said about the subtree and
about the path separately.

* `RbTree`, `nodeAt` — trees, and nodes seen from one side: most of the algorithms come in two
  mirrored copies, and one of them is enough when the side is a parameter.
* `plug`, `toList_plug` — the elements in order are those before the subtree, those of the
  subtree and those after it; a rotation changes none of the three.
* `Balanced`, `balanced_plug` — no red node has a red child, all leaves are equally deep in
  black nodes, and the root is black.
* `Pending` and `Short` — what an insertion and a deletion leave to repair, and one lemma
  for every way in which the repair goes on or ends.
-/

namespace CloudNfs.RedBlack

universe u

/-! ## Trees -/

/-- A child of a node: the left one, or the next one in order, the right one. -/
inductive Side where
  | left
  | next
  deriving DecidableEq

def Side.other : Side → Side
  | left => next
  | next => left

inductive RbTree (α : Type u) where
  | nil
  | node (red : Bool) (l : RbTree α) (a : α) (r : RbTree α)
  deriving DecidableEq

variable {α : Type u}

namespace RbTree

def root : RbTree α → Option α
  | nil => none
  | node _ _ a _ => some a

def isRed : RbTree α → Bool
  | nil => false
  | node red _ _ _ => red

def blacken : RbTree α → RbTree α
  | nil => nil
  | node _ l a r => node false l a r

def redden : RbTree α → RbTree α
  | nil => nil
  | node _ l a r => node true l a r

def toList : RbTree α → List α
  | nil => []
  | node _ l a r => l.toList ++ a :: r.toList

/-- A node seen from one side: `s` is its child on the side `d`, and `s'` the other one. -/
def nodeAt (d : Side) (s : RbTree α) (red : Bool) (a : α) (s' : RbTree α) : RbTree α :=
  match d with
  | .left => node red s a s'
  | .next => node red s' a s

section

variable {d : Side} {s s' t : RbTree α} {red : Bool} {a : α}

@[simp] theorem root_nil : (nil : RbTree α).root = none := rfl

@[simp] theorem root_node {l r : RbTree α} : (node red l a r).root = some a := rfl

@[simp] theorem toList_nil : (nil : RbTree α).toList = [] := rfl

@[simp] theorem toList_node {l r : RbTree α} :
    (node red l a r).toList = l.toList ++ a :: r.toList := rfl

@[simp] theorem root_nodeAt : (nodeAt d s red a s').root = some a := by
  cases d <;> rfl

@[simp] theorem isRed_nodeAt : (nodeAt d s red a s').isRed = red := by
  cases d <;> rfl

@[simp] theorem blacken_nodeAt : (nodeAt d s red a s').blacken = nodeAt d s false a s' := by
  cases d <;> rfl

@[simp] theorem redden_nodeAt : (nodeAt d s red a s').redden = nodeAt d s true a s' := by
  cases d <;> rfl

@[simp] theorem isRed_blacken : t.blacken.isRed = false := by
  cases t <;> rfl

@[simp] theorem root_redden : t.redden.root = t.root := by
  cases t <;> rfl

@[simp] theorem toList_redden : t.redden.toList = t.toList := by
  cases t <;> rfl

@[simp] theorem toList_blacken : t.blacken.toList = t.toList := by
  cases t <;> rfl

theorem blacken_of_not_isRed (h : t.isRed = false) : t.blacken = t := by
  cases t with
  | nil => rfl
  | node red l a r =>
    obtain rfl : red = false := h
    rfl

theorem isRed_redden (h : t.root = some a) : t.redden.isRed = true := by
  cases t with
  | nil => cases h
  | node => rfl

theorem redden_of_isRed (h : t.isRed = true) : t.redden = t := by
  cases t with
  | nil => rfl
  | node red l a r =>
    obtain rfl : red = true := h
    rfl

theorem eq_nil_of_root (h : t.root = none) : t = nil := by
  cases t with
  | nil => rfl
  | node => cases h

theorem nodeAt_other : nodeAt d.other s red a s' = nodeAt d s' red a s := by
  cases d <;> rfl

@[simp] theorem Side.other_other : d.other.other = d := by
  cases d <;> rfl

theorem Side.other_ne : d.other ≠ d := by
  cases d <;> exact Side.noConfusion

theorem Side.eq_other_of_ne {e : Side} (h : e ≠ d) : e = d.other := by
  cases d <;> cases e <;> first | rfl | exact absurd rfl h

theorem exists_nodeAt (d : Side) (h : t.root = some a) : ∃ red s s', t = nodeAt d s red a s' := by
  cases t with
  | nil => cases h
  | node red l b r =>
    cases h
    cases d with
    | left => exact ⟨red, l, r, rfl⟩
    | next => exact ⟨red, r, l, rfl⟩

theorem exists_nodeAt_of_isRed (d : Side) (h : t.isRed = true) :
    ∃ s a s', t = nodeAt d s true a s' := by
  cases t with
  | nil => cases h
  | node red l a r =>
    obtain rfl : red = true := h
    cases d with
    | left => exact ⟨l, a, r, rfl⟩
    | next => exact ⟨r, a, l, rfl⟩

theorem toList_nodeAt_perm : (nodeAt d s red a s').toList.Perm (a :: (s.toList ++ s'.toList)) := by
  cases d with
  | left => exact List.perm_middle
  | next => exact List.perm_middle.trans (List.perm_append_comm.cons a)

theorem mem_nodeAt {b : α} :
    b ∈ (nodeAt d s red a s').toList ↔ b = a ∨ b ∈ s.toList ∨ b ∈ s'.toList := by
  rw [toList_nodeAt_perm.mem_iff, List.mem_cons, List.mem_append]

theorem length_nodeAt :
    (nodeAt d s red a s').toList.length = s.toList.length + s'.toList.length + 1 := by
  rw [toList_nodeAt_perm.length_eq, List.length_cons, List.length_append]

theorem nodup_nodeAt : (nodeAt d s red a s').toList.Nodup ↔
    (a ∉ s.toList ∧ a ∉ s'.toList) ∧ s.toList.Nodup ∧ s'.toList.Nodup ∧
      s.toList.Disjoint s'.toList := by
  rw [toList_nodeAt_perm.nodup_iff, List.nodup_cons, List.mem_append, not_or, List.nodup_append']

theorem toList_rotate {s'' : RbTree α} {red' : Bool} {b : α} :
    (nodeAt d (nodeAt d s red a s') red' b s'').toList =
      (nodeAt d s red a (nodeAt d s' red' b s'')).toList := by
  cases d <;> simp [nodeAt, toList]

theorem root_mem (h : t.root = some a) : a ∈ t.toList := by
  obtain ⟨red, s, s', rfl⟩ := exists_nodeAt .left h
  exact mem_nodeAt.mpr (.inl rfl)

theorem root_ne_of_not_mem (h : a ∉ t.toList) : t.root ≠ some a :=
  fun hroot => h (root_mem hroot)

end

end RbTree

open RbTree

/-! ## Paths -/

/-- A step up from a subtree: the node above it, the side it hangs on, and the other subtree
of the node. -/
structure Step (α : Type u) where
  side : Side
  red : Bool
  elem : α
  other : RbTree α

def plug (s : RbTree α) : List (Step α) → RbTree α
  | [] => s
  | f :: p => plug (nodeAt f.side s f.red f.elem f.other) p

/-- The elements before the end of a path. -/
def before : List (Step α) → List α
  | [] => []
  | f :: p => before p ++ match f.side with
    | .left => []
    | .next => f.other.toList ++ [f.elem]

/-- The elements after the end of a path. -/
def after : List (Step α) → List α
  | [] => []
  | f :: p => (match f.side with
    | .left => f.elem :: f.other.toList
    | .next => []) ++ after p

/-- The elements of a path, in no order. -/
def elems : List (Step α) → List α
  | [] => []
  | f :: p => f.elem :: (f.other.toList ++ elems p)

section

variable {s t : RbTree α} {f : Step α} {p p' : List (Step α)} {a : α}

@[simp] theorem plug_nil : plug s [] = s := rfl

theorem plug_cons : plug s (f :: p) = plug (nodeAt f.side s f.red f.elem f.other) p := rfl

theorem plug_append : plug s (p ++ p') = plug (plug s p) p' := by
  induction p generalizing s with
  | nil => rfl
  | cons f p ih => exact ih

theorem toList_plug : (plug s p).toList = before p ++ s.toList ++ after p := by
  induction p generalizing s with
  | nil => simp [plug, before, after]
  | cons f p ih =>
    rw [plug_cons, ih]
    cases hside : f.side with
    | left => simp [before, after, hside, nodeAt]
    | next => simp [before, after, hside, nodeAt]

theorem after_append : after (p ++ p') = after p ++ after p' := by
  induction p with
  | nil => rfl
  | cons f p ih => simp [after, ih]

theorem before_append : before (p ++ p') = before p' ++ before p := by
  induction p with
  | nil => simp [before]
  | cons f p ih => simp [before, ih]

theorem toList_plug_node {red : Bool} {l r : RbTree α} : (plug (node red l a r) p).toList =
    (before p ++ l.toList) ++ a :: (r.toList ++ after p) := by
  simp [toList_plug]

theorem split_plug {red : Bool} {l r : RbTree α} {xs ys : List α}
    (hnodup : (plug (node red l a r) p).toList.Nodup)
    (h : (plug (node red l a r) p).toList = xs ++ a :: ys) :
    before p ++ l.toList = xs ∧ r.toList ++ after p = ys := by
  rw [toList_plug_node] at h hnodup
  have ha : a ∉ before p ++ l.toList ∧ a ∉ r.toList ++ after p := by
    simpa [not_or, and_assoc] using (List.nodup_cons.mp (List.nodup_middle.mp hnodup)).1
  obtain ⟨hxs, -, hys⟩ := (List.append_cons_inj_of_notMem ha.1 ha.2).mp h
  exact ⟨hxs, hys⟩

theorem toList_plug_congr (h : s.toList = t.toList) : (plug s p).toList = (plug t p).toList := by
  rw [toList_plug, toList_plug, h]

theorem toList_plug_perm : (plug s p).toList.Perm (s.toList ++ elems p) := by
  induction p generalizing s with
  | nil => simp [plug, elems]
  | cons f p ih =>
    refine ih.trans ((toList_nodeAt_perm.append_right _).trans ?_)
    simpa [elems] using List.perm_middle.symm

theorem mem_plug : a ∈ (plug s p).toList ↔ a ∈ s.toList ∨ a ∈ elems p := by
  rw [toList_plug_perm.mem_iff, List.mem_append]

theorem mem_elems : a ∈ elems p ↔ a ∈ before p ∨ a ∈ after p := by
  have h : (before p ++ after p).Perm (elems p) := by
    simpa [toList_plug] using toList_plug_perm (s := (nil : RbTree α)) (p := p)
  rw [← h.mem_iff, List.mem_append]

theorem nodup_plug : (plug s p).toList.Nodup ↔
    s.toList.Nodup ∧ (elems p).Nodup ∧ s.toList.Disjoint (elems p) := by
  rw [toList_plug_perm.nodup_iff, List.nodup_append']

theorem length_plug : (plug s p).toList.length = s.toList.length + (elems p).length := by
  rw [toList_plug_perm.length_eq, List.length_append]

theorem length_le_elems : p.length ≤ (elems p).length := by
  induction p with
  | nil => exact Nat.le_refl 0
  | cons f p ih =>
    simp only [elems, List.length_cons, List.length_append]
    omega

theorem root_plug_cons : (plug s (f :: p)).root = (plug t (f :: p)).root := by
  induction p generalizing s t f with
  | nil => simp [plug]
  | cons g p ih => exact ih

theorem exists_plug_of_mem (h : a ∈ t.toList) : ∃ red l r p, t = plug (node red l a r) p := by
  induction t with
  | nil => cases h
  | node red l b r ihl ihr =>
    rcases List.mem_append.mp h with hl | hr
    · obtain ⟨red', l', r', p, rfl⟩ := ihl hl
      exact ⟨red', l', r', p ++ [⟨.left, red, b, r⟩], by rw [plug_append]; rfl⟩
    · rcases List.mem_cons.mp hr with rfl | hr
      · exact ⟨red, l, r, [], rfl⟩
      · obtain ⟨red', l', r', p, rfl⟩ := ihr hr
        exact ⟨red', l', r', p ++ [⟨.next, red, b, l⟩], by rw [plug_append]; rfl⟩

end

/-! ## Balance -/

namespace RbTree

def RedOk : RbTree α → Prop
  | nil => True
  | node red l _ r => l.RedOk ∧ r.RedOk ∧ (red = true → l.isRed = false ∧ r.isRed = false)

/-- All leaves are below `n` black nodes. -/
def Height : RbTree α → ℕ → Prop
  | nil, n => n = 0
  | node red l _ r, n => ∃ m, l.Height m ∧ r.Height m ∧ n = m + if red then 0 else 1

/-- A red-black tree. -/
structure Balanced (t : RbTree α) : Prop where
  redOk : t.RedOk
  root_black : t.isRed = false
  height : ∃ n, t.Height n

section

variable {d : Side} {s s' t : RbTree α} {red : Bool} {a : α} {n m : ℕ}

theorem redOk_nodeAt : (nodeAt d s red a s').RedOk ↔
    s.RedOk ∧ s'.RedOk ∧ (red = true → s.isRed = false ∧ s'.isRed = false) := by
  cases d with
  | left => rfl
  | next =>
    simp only [nodeAt, RedOk]
    tauto

theorem height_nodeAt : (nodeAt d s red a s').Height n ↔
    ∃ m, s.Height m ∧ s'.Height m ∧ n = m + if red then 0 else 1 := by
  cases d with
  | left => rfl
  | next =>
    simp only [nodeAt, Height]
    refine exists_congr fun m => ?_
    tauto

theorem Height.root_ne_none (h : t.Height (n + 1)) : ∃ a, t.root = some a := by
  cases t with
  | nil => exact absurd h (Nat.succ_ne_zero n)
  | node red l a r => exact ⟨a, rfl⟩

theorem RedOk.blacken (h : t.RedOk) : t.blacken.RedOk := by
  cases t with
  | nil => trivial
  | node red l a r => exact ⟨h.1, h.2.1, fun hred => absurd hred Bool.false_ne_true⟩

theorem Height.blacken (h : t.Height n) (hred : t.isRed = true) : t.blacken.Height (n + 1) := by
  cases t with
  | nil => cases hred
  | node red l a r =>
    obtain rfl : red = true := hred
    obtain ⟨m, hl, hr, hn⟩ := h
    exact ⟨m, hl, hr, by simpa using hn⟩

end

end RbTree

/-- The node above the end of a path is red. There is none above the root, and a root must be
black: it is as if there were a red one. -/
def aboveRed : List (Step α) → Bool
  | [] => true
  | f :: _ => f.red

/-- What a path contributes to `RbTree.RedOk`. -/
def PathRedOk : List (Step α) → Prop
  | [] => True
  | f :: p => f.other.RedOk ∧ (f.red = true → f.other.isRed = false ∧ aboveRed p = false) ∧
      PathRedOk p

/-- The subtree at the end of a path should have height `n`. -/
def PathHeight : List (Step α) → ℕ → Prop
  | [], _ => True
  | f :: p, n => f.other.Height n ∧ PathHeight p (n + if f.red then 0 else 1)

theorem balanced_plug {s : RbTree α} {p : List (Step α)} : (plug s p).Balanced ↔
    s.RedOk ∧ (s.isRed = true → aboveRed p = false) ∧ PathRedOk p ∧
      ∃ n, s.Height n ∧ PathHeight p n := by
  induction p generalizing s with
  | nil =>
    refine ⟨fun h => ⟨h.redOk, fun hred => ?_, trivial, ?_⟩, ?_⟩
    · exact absurd (hred.symm.trans h.root_black) Bool.noConfusion
    · obtain ⟨n, hn⟩ := h.height
      exact ⟨n, hn, trivial⟩
    · rintro ⟨hok, hred, -, n, hn, -⟩
      refine ⟨hok, ?_, n, hn⟩
      by_contra hne
      exact absurd (hred (by simpa using hne)) Bool.noConfusion
  | cons f p ih =>
    rw [plug_cons, ih, redOk_nodeAt, isRed_nodeAt]
    simp only [height_nodeAt, PathRedOk, PathHeight, aboveRed]
    refine ⟨?_, ?_⟩
    · rintro ⟨⟨hs, ho, hcol⟩, hup, hp, n, ⟨m, hsm, hom, rfl⟩, hpn⟩
      refine ⟨hs, fun hred => ?_, ⟨ho, fun hf => ⟨(hcol hf).2, hup hf⟩, hp⟩, m, hsm, hom, hpn⟩
      by_contra hne
      have := (hcol (by simpa using hne)).1
      rw [hred] at this
      cases this
    · rintro ⟨hs, hred, ⟨ho, hcol, hp⟩, m, hsm, hom, hpn⟩
      refine ⟨⟨hs, ho, fun hf => ⟨?_, (hcol hf).1⟩⟩, fun hf => (hcol hf).2, hp, _,
        ⟨m, hsm, hom, rfl⟩, hpn⟩
      by_contra hne
      have := hred (by simpa using hne)
      rw [hf] at this
      cases this

/-! Balance is about the colours, not about the elements. -/

section

variable {q p : List (Step α)} {d : Side} {c : Bool} {a b : α} {o s : RbTree α} {n : ℕ}

theorem aboveRed_rename :
    aboveRed (q ++ ⟨d, c, a, o⟩ :: p) = aboveRed (q ++ ⟨d, c, b, o⟩ :: p) := by
  cases q <;> rfl

theorem pathRedOk_rename (h : PathRedOk (q ++ ⟨d, c, a, o⟩ :: p)) :
    PathRedOk (q ++ ⟨d, c, b, o⟩ :: p) := by
  induction q with
  | nil => exact h
  | cons f q ih =>
    obtain ⟨ho, hcol, hp⟩ := h
    exact ⟨ho, fun hf => ⟨(hcol hf).1, aboveRed_rename.trans (hcol hf).2⟩, ih hp⟩

theorem pathHeight_rename (h : PathHeight (q ++ ⟨d, c, a, o⟩ :: p) n) :
    PathHeight (q ++ ⟨d, c, b, o⟩ :: p) n := by
  induction q generalizing n with
  | nil => exact h
  | cons f q ih => exact ⟨h.1, ih h.2⟩

theorem RbTree.Balanced.rename (h : (plug s (q ++ ⟨d, c, a, o⟩ :: p)).Balanced) :
    (plug s (q ++ ⟨d, c, b, o⟩ :: p)).Balanced := by
  obtain ⟨hs, hup, hp, n, hn, hpn⟩ := balanced_plug.mp h
  exact balanced_plug.mpr ⟨hs, fun hf => aboveRed_rename.trans (hup hf), pathRedOk_rename hp, n, hn,
    pathHeight_rename hpn⟩

end

/-! ## Repair after an insertion -/

/-- A subtree whose root is to be red: it fits at the end of the path, but the node above it may
be red too. -/
structure Pending (s : RbTree α) (p : List (Step α)) : Prop where
  root : s.root ≠ none
  redOk : s.redden.RedOk
  path : PathRedOk p
  height : ∃ n, s.redden.Height n ∧ PathHeight p n

section

variable {s o u s1 s2 : RbTree α} {q g x : α} {d e : Side} {c : Bool} {p : List (Step α)}

theorem pending_nodeAt : Pending (nodeAt d s c x o) p ↔
    s.RedOk ∧ o.RedOk ∧ s.isRed = false ∧ o.isRed = false ∧ PathRedOk p ∧
      ∃ n, s.Height n ∧ o.Height n ∧ PathHeight p n := by
  refine ⟨?_, ?_⟩
  · rintro ⟨-, hok, hp, n, hn, hpn⟩
    rw [redden_nodeAt] at hok hn
    obtain ⟨hs, ho, hcol⟩ := redOk_nodeAt.mp hok
    obtain ⟨m, hsm, hom, hm⟩ := height_nodeAt.mp hn
    obtain rfl : n = m := by simpa using hm
    exact ⟨hs, ho, (hcol rfl).1, (hcol rfl).2, hp, n, hsm, hom, hpn⟩
  · rintro ⟨hs, ho, hsr, hor, hp, n, hsn, hon, hpn⟩
    refine ⟨by simp, ?_, hp, n, ?_, hpn⟩
    · rw [redden_nodeAt, redOk_nodeAt]
      exact ⟨hs, ho, fun _ => ⟨hsr, hor⟩⟩
    · rw [redden_nodeAt, height_nodeAt]
      exact ⟨n, hsn, hon, by simp⟩

theorem Pending.redden (h : Pending s p) : Pending s.redden p := by
  have hred : s.redden.redden = s.redden := by
    cases s <;> rfl
  exact ⟨by simpa using h.root, hred.symm ▸ h.redOk, h.path, hred.symm ▸ h.height⟩

theorem Pending.balanced_root (h : Pending s []) : s.blacken.Balanced := by
  obtain ⟨n, hn, -⟩ := h.height
  cases s with
  | nil => exact absurd rfl h.root
  | node red l a r =>
    obtain ⟨m, hl, hr, -⟩ := hn
    exact ⟨h.redOk.blacken, rfl, m + 1, m, hl, hr, rfl⟩

theorem Pending.balanced_of_black (h : Pending s p) (habove : aboveRed p = false) :
    (plug s.redden p).Balanced := by
  obtain ⟨n, hn, hpn⟩ := h.height
  exact balanced_plug.mpr ⟨h.redOk, fun _ => habove, h.path, n, hn, hpn⟩

theorem PathRedOk.exists_above {f : Step α} (h : PathRedOk (f :: p)) (hf : f.red = true) :
    ∃ g p', p = g :: p' ∧ g.red = false := by
  have habove := (h.2.1 hf).2
  cases p with
  | nil => cases habove
  | cons g p' => exact ⟨g, p', rfl, habove⟩

theorem Pending.recolour (h : Pending s (⟨e, true, q, o⟩ :: ⟨d, c, g, u⟩ :: p))
    (hu : u.isRed = true) : Pending (nodeAt d (nodeAt e s.redden false q o) c g u.blacken) p := by
  obtain ⟨n, hsn, hon, hun, hpn⟩ := h.height
  obtain ⟨ho, hq, hu', hg, hp⟩ := h.path
  have hc : c = false := (hq rfl).2
  subst hc
  rw [pending_nodeAt, redOk_nodeAt]
  refine ⟨⟨h.redOk, ho, fun hf => absurd hf Bool.false_ne_true⟩, hu'.blacken, isRed_nodeAt,
    isRed_blacken, hp, n + 1, height_nodeAt.mpr ⟨n, hsn, hon, rfl⟩, ?_, ?_⟩
  · exact Height.blacken (by simpa using hun) hu
  · simpa using hpn

theorem Pending.balanced_rotate (h : Pending s (⟨d, true, q, o⟩ :: ⟨d, c, g, u⟩ :: p))
    (hu : u.isRed = false) :
    (plug (nodeAt d s.redden false q (nodeAt d o true g u)) p).Balanced := by
  obtain ⟨n, hsn, hon, hun, hpn⟩ := h.height
  obtain ⟨ho, hq, hu', hg, hp⟩ := h.path
  have hc : c = false := (hq rfl).2
  subst hc
  rw [balanced_plug, redOk_nodeAt, redOk_nodeAt]
  refine ⟨⟨h.redOk, ⟨ho, hu', fun _ => ⟨(hq rfl).1, hu⟩⟩, fun hf => absurd hf Bool.false_ne_true⟩,
    fun hf => by simp at hf, hp, n + 1, ?_, by simpa using hpn⟩
  exact height_nodeAt.mpr ⟨n, hsn, height_nodeAt.mpr ⟨n, hon, by simpa using hun, rfl⟩, rfl⟩

theorem Pending.rotate_inner {c' : Bool}
    (h : Pending (nodeAt d s1 c x s2) (⟨d.other, true, q, o⟩ :: ⟨d, c', g, u⟩ :: p)) :
    Pending (nodeAt d o true q s1) (⟨d, true, x, s2⟩ :: ⟨d, c', g, u⟩ :: p) := by
  obtain ⟨hs1, hs2, hr1, hr2, ⟨ho, hq, hg⟩, n, hn1, hn2, hon, hpn⟩ := pending_nodeAt.mp h
  refine pending_nodeAt.mpr ⟨ho, hs1, (hq rfl).1, hr1,
    ⟨hs2, fun _ => ⟨hr2, (hq rfl).2⟩, hg⟩, n, hon,
    hn1, hn2, hpn⟩

end

/-! ## Repair after a deletion -/

/-- A subtree that lacks a black node: it should have one more above its leaves. Its root may be
red below a red node. -/
structure Short (s : RbTree α) (p : List (Step α)) : Prop where
  redOk : s.blacken.RedOk
  path : PathRedOk p
  height : ∃ n, s.Height n ∧ PathHeight p (n + 1)

section

variable {s o b f b1 b2 : RbTree α} {y z w : α} {d : Side} {c : Bool} {p : List (Step α)}

theorem RbTree.Balanced.remove_red (h : (plug (nodeAt d s true z o) p).Balanced) :
    (plug s p).Balanced := by
  obtain ⟨hok, -, hp, n, hn, hpn⟩ := balanced_plug.mp h
  obtain ⟨hs, -, hcol⟩ := redOk_nodeAt.mp hok
  obtain ⟨m, hsm, -, hm⟩ := height_nodeAt.mp hn
  obtain rfl : n = m := hm
  refine balanced_plug.mpr ⟨hs, fun hf => ?_, hp, n, hsm, hpn⟩
  rw [(hcol rfl).1] at hf
  cases hf

theorem RbTree.Balanced.remove_black (h : (plug (nodeAt d s false z o) p).Balanced) :
    Short s p := by
  obtain ⟨hok, -, hp, n, hn, hpn⟩ := balanced_plug.mp h
  obtain ⟨m, hsm, -, hm⟩ := height_nodeAt.mp hn
  obtain rfl : n = m + 1 := hm
  exact ⟨(redOk_nodeAt.mp hok).1.blacken, hp, m, hsm, hpn⟩

theorem Short.balanced (h : Short s p) (hend : s.isRed = true ∨ p = []) :
    (plug s.blacken p).Balanced := by
  obtain ⟨n, hn, hpn⟩ := h.height
  refine balanced_plug.mpr ⟨h.redOk, fun hf => by simp at hf, h.path, ?_⟩
  by_cases hred : s.isRed = true
  · exact ⟨n + 1, hn.blacken hred, hpn⟩
  obtain rfl := hend.resolve_left hred
  refine ⟨n, ?_, trivial⟩
  rw [blacken_of_not_isRed (by simpa using hred)]
  exact hn

theorem Short.exists_sibling (h : Short s (⟨d, c, z, o⟩ :: p)) : ∃ a, o.root = some a := by
  obtain ⟨n, -, hon, -⟩ := h.height
  exact Height.root_ne_none hon

theorem Short.rotate_red (h : Short s (⟨d, c, z, nodeAt d b true y f⟩ :: p)) :
    Short s (⟨d, true, z, b⟩ :: ⟨d, false, y, f⟩ :: p) ∧ b.isRed = false ∧
      ∃ a, b.root = some a := by
  obtain ⟨n, hn, hon, hpn⟩ := h.height
  obtain ⟨ho, hz, hp⟩ := h.path
  obtain ⟨hb, hf, hcol⟩ := redOk_nodeAt.mp ho
  obtain ⟨m, hbm, hfm, hm⟩ := height_nodeAt.mp hon
  obtain rfl : n + 1 = m := by simpa using hm
  have hc : c = false := by
    by_contra hne
    have := (hz (by simpa using hne)).1
    simp at this
  subst hc
  refine ⟨⟨h.redOk, ⟨hb, fun _ => ⟨(hcol rfl).1, rfl⟩, hf,
    fun hf => absurd hf Bool.false_ne_true, hp⟩,
    n, hn, hbm, ?_⟩, (hcol rfl).1, hbm.root_ne_none⟩
  exact ⟨by simpa using hfm, by simpa using hpn⟩

theorem Short.recolour (h : Short s (⟨d, c, z, nodeAt d b false y f⟩ :: p)) (hs : s.isRed = false)
    (hb : b.isRed = false) (hf : f.isRed = false) :
    Short (nodeAt d s c z (nodeAt d b true y f)) p := by
  obtain ⟨n, hn, hon, hpn⟩ := h.height
  obtain ⟨ho, hz, hp⟩ := h.path
  obtain ⟨hbok, hfok, -⟩ := redOk_nodeAt.mp ho
  obtain ⟨m, hbm, hfm, hm⟩ := height_nodeAt.mp hon
  obtain rfl : n = m := by simpa using hm
  have hsok : s.RedOk := by
    have := h.redOk
    rwa [blacken_of_not_isRed hs] at this
  refine ⟨?_, hp, n + if c then 0 else 1, ?_, ?_⟩
  · rw [blacken_nodeAt, redOk_nodeAt, redOk_nodeAt]
    exact ⟨hsok, ⟨hbok, hfok, fun _ => ⟨hb, hf⟩⟩, fun hf => absurd hf Bool.false_ne_true⟩
  · exact height_nodeAt.mpr ⟨n, hn, height_nodeAt.mpr ⟨n, hbm, hfm, rfl⟩, rfl⟩
  · rw [Nat.add_right_comm]
    exact hpn

theorem Short.rotate_near (h : Short s (⟨d, c, z, nodeAt d (nodeAt d b1 true w b2) false y f⟩ :: p))
    (hf : f.isRed = false) :
    Short s (⟨d, c, z, nodeAt d b1 false w (nodeAt d b2 true y f)⟩ :: p) := by
  obtain ⟨n, hn, hon, hpn⟩ := h.height
  obtain ⟨ho, hz, hp⟩ := h.path
  obtain ⟨hbok, hfok, -⟩ := redOk_nodeAt.mp ho
  obtain ⟨hb1, hb2, hcol⟩ := redOk_nodeAt.mp hbok
  obtain ⟨m, hbm, hfm, hm⟩ := height_nodeAt.mp hon
  obtain rfl : n = m := by simpa using hm
  obtain ⟨k, hk1, hk2, hk⟩ := height_nodeAt.mp hbm
  obtain rfl : n = k := by simpa using hk
  refine ⟨h.redOk, ⟨?_, fun hc => ⟨isRed_nodeAt, (hz hc).2⟩, hp⟩, n, hn, ?_, hpn⟩
  · rw [redOk_nodeAt, redOk_nodeAt]
    exact ⟨hb1, ⟨hb2, hfok, fun _ => ⟨(hcol rfl).2, hf⟩⟩, fun hf => absurd hf Bool.false_ne_true⟩
  · exact height_nodeAt.mpr ⟨n, hk1, height_nodeAt.mpr ⟨n, hk2, hfm, rfl⟩, rfl⟩

theorem Short.balanced_rotate (h : Short s (⟨d, c, z, nodeAt d b false y f⟩ :: p))
    (hs : s.isRed = false) (hf : f.isRed = true) :
    (plug (nodeAt d (nodeAt d s false z b) c y f.blacken) p).Balanced := by
  obtain ⟨n, hn, hon, hpn⟩ := h.height
  obtain ⟨ho, hz, hp⟩ := h.path
  obtain ⟨hbok, hfok, -⟩ := redOk_nodeAt.mp ho
  obtain ⟨m, hbm, hfm, hm⟩ := height_nodeAt.mp hon
  obtain rfl : n = m := by simpa using hm
  have hsok : s.RedOk := by
    have := h.redOk
    rwa [blacken_of_not_isRed hs] at this
  rw [balanced_plug, redOk_nodeAt, redOk_nodeAt]
  refine ⟨⟨⟨hsok, hbok, fun hf => absurd hf Bool.false_ne_true⟩, hfok.blacken,
    fun _ => ⟨isRed_nodeAt, isRed_blacken⟩⟩, fun hc => (hz (by simpa using hc)).2, hp, _, ?_, hpn⟩
  exact height_nodeAt.mpr ⟨n + 1, height_nodeAt.mpr ⟨n, hn, hbm, rfl⟩, hfm.blacken hf, rfl⟩

end

end CloudNfs.RedBlack
