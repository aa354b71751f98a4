import CloudNfs.Namespace

/-!
# `NamespaceRename` (`FSAL/FSAL_FUSELIKE/namespace.c`)

A rename adds the new entry, after the one that it replaces was removed, and then removes the old
entry. The generation of the old directory is looked at only by this last step, when there is no
way back.

* `atomic_iff` — a rename is atomic exactly when the old directory is known at that time.
-/

namespace CloudNfs

namespace Namespace

/-! ### The property -/

/-- The entry was moved, and the other entries are the same. -/
structure Moved (s : State) (src : Key) (nameSrc : Name) (tgt : Key) (nameTgt : Name) (s' : State) :
    Prop where
  target : s'.getLookup tgt nameTgt = s.getLookup src nameSrc
  /-- the old name, unless it is the new one -/
  source : src = tgt ∧ nameSrc = nameTgt ∨ s'.getLookup src nameSrc = none
  others : ∀ x, x ≠ (src, nameSrc) → x ≠ (tgt, nameTgt) →
    s'.lookup.lookup x = s.lookup.lookup x

/-- `NamespaceRename` is atomic. -/
def Atomic (s : State) (src : Key) (srcGen : ℕ) (nameSrc : Name) (tgt : Key) (tgtGen : ℕ)
    (nameTgt : Name) : Prop :=
  ∀ s' rc, s.rename src srcGen nameSrc tgt tgtGen nameTgt = some (s', rc) →
    (rc = .ok → Moved s src nameSrc tgt nameTgt s') ∧ (rc ≠ .ok → s' = s)

/-! ### When it holds -/

def State.genOf (s : State) (k : Key) : Option ℕ := (s.nodes k).map Node.generation

/-- No assertion fails when the entry of `k` in `p` is removed: the counters are not zero, and if
this is the last link of `k`, it has no other children. -/
def State.Removable (s : State) (p k : Key) : Prop :=
  ∃ n np, s.nodes k = some n ∧ s.nodes p = some np ∧ n.nLookup ≠ 0 ∧ np.nChildren ≠ 0 ∧
    (n.nLookup = 1 → (if k = p then n.nChildren - 1 else n.nChildren) = 0)

/-- `NamespaceRename` changes the entry of the target: the source is there and has another name, the
target directory is known, and has no entry with the name, or one of another node that can be
removed. -/
structure Alters (s : State) (src : Key) (nameSrc : Name) (tgt : Key) (tgtGen : ℕ) (nameTgt : Name)
    (k : Key) : Prop where
  source : s.getLookup src nameSrc = some k
  names : ¬ (src = tgt ∧ nameSrc = nameTgt)
  node : (s.nodes k).isSome = true
  target : s.genOf tgt = some tgtGen
  /-- it is not a link to the same node -/
  other : s.getLookup tgt nameTgt ≠ some k
  removable : ∀ k', s.getLookup tgt nameTgt = some k' → s.Removable tgt k'

/-- The old directory is known with its generation, and neither directory is the node that the
rename replaces and frees. -/
def KnownSource (s : State) (src : Key) (srcGen : ℕ) (tgt : Key) (nameTgt : Name) : Prop :=
  s.genOf src = some srcGen ∧ ∀ k' n, s.getLookup tgt nameTgt = some k' → s.nodes k' = some n →
    n.nLookup = 1 → k' ≠ src ∧ k' ≠ tgt

section

variable {s s' : State} {p e k src tgt : Key} {name nameSrc nameTgt : Name}
  {g ng srcGen tgtGen : ℕ} {n np : Node} {rc : Rc}

/-! ### `NamespaceAdd_nl` of a node that is known -/

theorem genOf_eq_some : s.genOf p = some g ↔ ∃ np, s.nodes p = some np ∧ np.generation = g :=
  Option.map_eq_some_iff

theorem genOf_linked : (s.linked p g name e).genOf k = s.genOf k := by
  rw [State.genOf, State.genOf, State.linked, Option.map_map]
  rfl

theorem getLookup_linked : (s.linked p g name e).getLookup p name = some e :=
  AList.lookup_insert _

theorem genOf_unlinked : (s.unlinked p name e).genOf k = s.genOf k := by
  rw [State.genOf, State.genOf, State.unlinked, Option.map_map]
  rfl

theorem add_refused (name : Name) (e : Key) (ng : ℕ) (hp : s.genOf p ≠ some g) :
    ∃ rc, s.add p g name e ng = some (s, rc, ng) ∧ rc ≠ .ok ∧ rc ≠ .eexist := by
  rw [State.add]
  cases hnp : s.nodes p with
  | none => exact ⟨.enoent, rfl, nofun, nofun⟩
  | some np =>
    have hgen : np.generation ≠ g := fun hgen => hp (genOf_eq_some.mpr ⟨np, hnp, hgen⟩)
    dsimp only
    rw [if_pos hgen]
    exact ⟨.estale, rfl, nofun, nofun⟩

theorem add_linked (hp : s.genOf p = some g) (he : s.nodes e = some n)
    (hfree : s.getLookup p name = none) :
    s.add p g name e ng = some (s.linked p g name e, .ok, n.generation) := by
  obtain ⟨np, hnp, hgen⟩ := genOf_eq_some.mp hp
  have heq : (s.insertNewLookup p g name e).map (fun s => s.incChildren p) =
      some (s.linked p g name e) := insertNewLookup_eq hfree
  obtain ⟨s1, hinsert, hlinked⟩ := Option.map_eq_some_iff.mp heq
  simp only [State.add, hnp, he, hfree, hinsert, hlinked, hgen, ne_eq, not_true_eq_false, if_false]

theorem add_present (hp : s.genOf p = some g) (he : s.nodes e = some n)
    (hlookup : s.getLookup p name = some e) :
    s.add p g name e ng = some (s, .ok, n.generation) := by
  obtain ⟨np, hnp, hgen⟩ := genOf_eq_some.mp hp
  simp only [State.add, hnp, he, hlookup, hgen, ne_eq, not_true_eq_false, if_false, if_true]

theorem add_conflict (hp : s.genOf p = some g) (he : s.nodes e = some n)
    (hlookup : s.getLookup p name = some k) (hne : k ≠ e) :
    s.add p g name e ng = (s.nodes k).map fun _ => (s, .eexist, ng) := by
  obtain ⟨np, hnp, hgen⟩ := genOf_eq_some.mp hp
  simp only [State.add, hnp, he, hlookup, hgen, ne_eq, not_true_eq_false, if_false, if_neg hne]
  cases s.nodes k <;> rfl

/-! ### `NamespaceRemove_nl` -/

theorem remove_refused (name : Name) (hp : s.genOf p ≠ some g) :
    ∃ rc, s.remove p g name = some (s, rc) ∧ rc ≠ .ok := by
  rw [State.remove]
  cases hnp : s.nodes p with
  | none => exact ⟨.enoent, rfl, nofun⟩
  | some np =>
    have hgen : np.generation ≠ g := fun hgen => hp (genOf_eq_some.mpr ⟨np, hnp, hgen⟩)
    dsimp only
    rw [if_pos hgen]
    exact ⟨.estale, rfl, nofun⟩

theorem remove_missing (hp : s.genOf p = some g) (hlookup : s.getLookup p name = none) :
    s.remove p g name = some (s, .ok) := by
  obtain ⟨np, hnp, hgen⟩ := genOf_eq_some.mp hp
  simp only [State.remove, State.delLookup, hnp, hlookup, hgen, ne_eq, not_true_eq_false, if_false]

/-- The name space after an entry was removed, with its node when this was the last link. -/
def State.removed (s : State) (p : Key) (name : Name) (k : Key) (n : Node) : State :=
  if n.nLookup = 1 then (s.unlinked p name k).delNode k else s.unlinked p name k

theorem remove_removable (hp : s.genOf p = some g) (hlookup : s.getLookup p name = some k)
    (hn : s.nodes k = some n) (hremovable : s.Removable p k) :
    s.remove p g name = some (s.removed p name k n, .ok) := by
  obtain ⟨n', np, hn', hnp, hlinks, hchildren, hlast⟩ := hremovable
  cases hn.symm.trans hn'
  obtain ⟨np', hnp', hgen⟩ := genOf_eq_some.mp hp
  cases hnp.symm.trans hnp'
  obtain ⟨s1, hdel, hdec⟩ := delLookup_eq hlookup hn hlinks hnp hchildren
  simp only [State.remove, hnp, hdel, hdec, unlinked_of_node hn, hgen, ne_eq, not_true_eq_false,
    if_false]
  have hzero : (unlinkNode p name k k n).nLookup = 0 ↔ n.nLookup = 1 := by
    simp only [unlinkNode, if_true]
    omega
  rw [State.removed]
  by_cases hone : n.nLookup = 1
  · have hnone : (unlinkNode p name k k n).nChildren = 0 := hlast hone
    rw [if_pos (hzero.mpr hone), if_neg (not_not.mpr hnone), if_pos hone]
  · rw [if_neg fun hnone => hone (hzero.mp hnone), if_neg hone]

theorem remove_eq_none (hp : s.genOf p = some g) (hlookup : s.getLookup p name = some k)
    (hremovable : ¬ s.Removable p k) : s.remove p g name = none := by
  obtain ⟨np, hnp, hgen⟩ := genOf_eq_some.mp hp
  simp only [State.remove, hnp, hgen, ne_eq, not_true_eq_false, if_false]
  cases hn : s.nodes k with
  | none => simp only [State.delLookup, hlookup, hn]
  | some n =>
    by_cases hlinks : n.nLookup = 0
    · simp only [State.delLookup, hlookup, hn, if_pos hlinks]
    by_cases hchildren : np.nChildren = 0
    · -- the parent is the same, or it is the node itself
      simp only [State.delLookup, hlookup, hn, if_neg hlinks]
      by_cases hpk : p = k
      · subst hpk
        cases hn.symm.trans hnp
        simp [State.decChildren, State.modify, hn, hchildren]
      · simp [State.decChildren, State.modify, hpk, hnp, hchildren]
    obtain ⟨s1, hdel, hdec⟩ := delLookup_eq hlookup hn hlinks hnp hchildren
    simp only [hdel, hdec, unlinked_of_node hn]
    -- only the last assertion is left
    have hlast : ¬ (n.nLookup = 1 → (unlinkNode p name k k n).nChildren = 0) :=
      fun hlast => hremovable ⟨n, np, hn, hnp, hlinks, hchildren, hlast⟩
    obtain ⟨hone, hnot⟩ := Classical.not_imp.mp hlast
    have hzero : (unlinkNode p name k k n).nLookup = 0 := by simp [unlinkNode, hone]
    rw [if_pos hzero, if_pos hnot]

theorem lookup_removed : (s.removed p name k n).lookup = s.lookup.erase (p, name) := by
  rw [State.removed]
  split <;> rfl

theorem genOf_removed {q : Key} (hq : n.nLookup = 1 → q ≠ k) :
    (s.removed p name k n).genOf q = s.genOf q := by
  rw [State.removed]
  split
  next hone =>
    have hsame : ((s.unlinked p name k).delNode k).genOf q = (s.unlinked p name k).genOf q := by
      rw [State.genOf, State.genOf, State.delNode]
      dsimp only
      rw [Function.update_of_ne (hq hone)]
    rw [hsame, genOf_unlinked]
  next => exact genOf_unlinked

theorem genOf_freed (hone : n.nLookup = 1) : (s.removed p name k n).genOf k = none := by
  rw [State.removed, if_pos hone, State.genOf, State.delNode]
  dsimp only
  rw [Function.update_self]
  rfl

theorem remove_error (hr : s.remove p g name = some (s', rc)) (hrc : rc ≠ .ok) :
    s' = s ∧ s.genOf p ≠ some g := by
  by_cases hp : s.genOf p = some g
  · cases hlookup : s.getLookup p name with
    | none =>
      obtain ⟨-, rfl⟩ := Prod.mk.inj (Option.some.inj ((remove_missing hp hlookup).symm.trans hr))
      exact absurd rfl hrc
    | some k =>
      by_cases hremovable : s.Removable p k
      · obtain ⟨n, np, hn, -⟩ := id hremovable
        have heq := (remove_removable hp hlookup hn hremovable).symm.trans hr
        cases heq
        exact absurd rfl hrc
      · cases (remove_eq_none hp hlookup hremovable).symm.trans hr
  · obtain ⟨rc', heq, -⟩ := remove_refused name hp
    obtain ⟨rfl, -⟩ := Prod.mk.inj (Option.some.inj (heq.symm.trans hr))
    exact ⟨rfl, hp⟩

theorem remove_ok (hr : s.remove p g name = some (s', .ok)) :
    s.genOf p = some g ∧ s'.lookup.lookup (p, name) = none ∧
      ∀ x, x ≠ (p, name) → s'.lookup.lookup x = s.lookup.lookup x := by
  by_cases hp : s.genOf p = some g
  · refine ⟨hp, ?_⟩
    cases hlookup : s.getLookup p name with
    | none =>
      obtain ⟨rfl, -⟩ := Prod.mk.inj (Option.some.inj ((remove_missing hp hlookup).symm.trans hr))
      exact ⟨hlookup, fun _ _ => rfl⟩
    | some k =>
      by_cases hremovable : s.Removable p k
      · obtain ⟨n, np, hn, -⟩ := id hremovable
        have heq := (remove_removable hp hlookup hn hremovable).symm.trans hr
        cases heq
        rw [lookup_removed]
        exact ⟨AList.lookup_erase _ _, fun x hx => AList.lookup_erase_ne hx⟩
      · cases (remove_eq_none hp hlookup hremovable).symm.trans hr
  · obtain ⟨rc', heq, hne⟩ := remove_refused name hp
    obtain ⟨-, rfl⟩ := Prod.mk.inj (Option.some.inj (heq.symm.trans hr))
    exact absurd rfl hne

/-! ### The last step -/

/-- **The last step of a rename that has added the entry** moves it exactly when the old directory
is known. -/
theorem renameEnd_added {s3 : State} (hnames : ¬ (src = tgt ∧ nameSrc = nameTgt))
    (hsource : s.getLookup src nameSrc = some k) (hadded : s3.getLookup tgt nameTgt = some k)
    (hother : s.getLookup tgt nameTgt ≠ some k)
    (hothers : ∀ x, x ≠ (tgt, nameTgt) → s3.lookup.lookup x = s.lookup.lookup x)
    (hrename : s.rename src srcGen nameSrc tgt tgtGen nameTgt =
      s3.renameEnd src srcGen nameSrc .ok) :
    Atomic s src srcGen nameSrc tgt tgtGen nameTgt ↔ s3.genOf src = some srcGen := by
  have hne : (tgt, nameTgt) ≠ (src, nameSrc) := by
    intro heq
    cases heq
    exact hnames ⟨rfl, rfl⟩
  have hend : s.rename src srcGen nameSrc tgt tgtGen nameTgt = s3.remove src srcGen nameSrc := by
    rw [hrename, State.renameEnd, if_pos rfl]
  constructor
  · intro hatomic
    by_contra hgen
    obtain ⟨rc, hr, hrc⟩ := remove_refused nameSrc hgen
    have heq := (hatomic s3 rc (hend.trans hr)).2 hrc
    rw [heq] at hadded
    exact hother hadded
  · intro hgen s' rc hr
    rw [hend] at hr
    refine ⟨?_, fun hrc => absurd hgen (remove_error hr hrc).2⟩
    rintro rfl
    obtain ⟨-, hgone, hkept⟩ := remove_ok hr
    refine ⟨?_, .inr hgone, fun x hxs hxt => ?_⟩
    · rw [State.getLookup, hkept _ hne, hsource]
      exact hadded
    · rw [hkept x hxs, hothers x hxt]

/-! ### The whole call -/

theorem atomic_of_not_alters (hnot : ∀ k, ¬ Alters s src nameSrc tgt tgtGen nameTgt k) :
    Atomic s src srcGen nameSrc tgt tgtGen nameTgt := by
  intro s' rc hr
  rw [State.rename] at hr
  cases hsource : s.getLookup src nameSrc with
  | none =>
    rw [hsource] at hr
    cases hr
    exact ⟨nofun, fun _ => rfl⟩
  | some k =>
    rw [hsource] at hr
    dsimp only at hr
    split at hr
    next hnames =>
      cases hr
      obtain ⟨rfl, rfl⟩ := hnames
      exact ⟨fun _ => ⟨rfl, .inl ⟨rfl, rfl⟩, fun _ _ _ => rfl⟩, fun hrc => absurd rfl hrc⟩
    next hnames =>
    cases hk : s.nodes k with
    | none =>
      rw [hk] at hr
      cases hr
    | some n =>
      rw [hk] at hr
      dsimp only at hr
      by_cases hgen : s.genOf tgt = some tgtGen
      · by_cases hsame : s.getLookup tgt nameTgt = some k
        · -- the target is there already, and only the old entry goes
          rw [add_present hgen hk hsame] at hr
          dsimp only at hr
          rw [State.renameEnd, if_pos rfl] at hr
          refine ⟨?_, fun hrc => (remove_error hr hrc).1⟩
          rintro rfl
          obtain ⟨-, hgone, hkept⟩ := remove_ok hr
          have hne : (tgt, nameTgt) ≠ (src, nameSrc) := by
            intro heq
            cases heq
            exact hnames ⟨rfl, rfl⟩
          refine ⟨?_, .inr hgone, fun x hx _ => hkept x hx⟩
          rw [State.getLookup, hkept _ hne, hsource]
          exact hsame
        · -- otherwise an assertion fails
          have hremovable : ∃ k', s.getLookup tgt nameTgt = some k' ∧ ¬ s.Removable tgt k' := by
            by_contra hall
            refine hnot k ⟨hsource, hnames, by rw [hk]; rfl, hgen, hsame, fun k' hk' => ?_⟩
            by_contra hno
            exact hall ⟨k', hk', hno⟩
          obtain ⟨k', hk', hno⟩ := hremovable
          have hne : k' ≠ k := by
            rintro rfl
            exact hsame hk'
          rw [add_conflict hgen hk hk' hne] at hr
          cases hn' : s.nodes k' with
          | none =>
            rw [hn'] at hr
            cases hr
          | some n' =>
            rw [hn', Option.map_some] at hr
            dsimp only at hr
            rw [remove_eq_none hgen hk' hno] at hr
            cases hr
      · obtain ⟨rc', hadd, hok, hexist⟩ := add_refused nameTgt k n.generation hgen
        rw [hadd] at hr
        have hend : some (s, rc') = some (s', rc) := by
          rw [← hr]
          cases rc' <;> first | rfl | exact absurd rfl hok | exact absurd rfl hexist
        cases hend
        exact ⟨fun hrc => absurd hrc hok, fun _ => rfl⟩

theorem Alters.atomic_of_free (ha : Alters s src nameSrc tgt tgtGen nameTgt k)
    (hfree : s.getLookup tgt nameTgt = none) :
    Atomic s src srcGen nameSrc tgt tgtGen nameTgt ↔ s.genOf src = some srcGen := by
  obtain ⟨n, hk⟩ := Option.isSome_iff_exists.mp ha.node
  have hrename : s.rename src srcGen nameSrc tgt tgtGen nameTgt =
      (s.linked tgt tgtGen nameTgt k).renameEnd src srcGen nameSrc .ok := by
    rw [State.rename, ha.source]
    dsimp only
    rw [if_neg ha.names, hk]
    dsimp only
    rw [add_linked ha.target hk hfree]
  rw [renameEnd_added ha.names ha.source getLookup_linked ha.other
    (fun x hx => AList.lookup_insert_ne hx) hrename, genOf_linked]

theorem Alters.atomic_of_replaced (ha : Alters s src nameSrc tgt tgtGen nameTgt k) {k' : Key}
    (hk' : s.getLookup tgt nameTgt = some k') (hn' : s.nodes k' = some n) :
    Atomic s src srcGen nameSrc tgt tgtGen nameTgt ↔
      s.genOf src = some srcGen ∧ (n.nLookup = 1 → k' ≠ src ∧ k' ≠ tgt) := by
  obtain ⟨m, hk⟩ := Option.isSome_iff_exists.mp ha.node
  have hne : k' ≠ k := by
    rintro rfl
    exact ha.other hk'
  -- what is left without the entry
  generalize hs2 : s.removed tgt nameTgt k' n = s2
  have hgen2 : ∀ q, (n.nLookup = 1 → q ≠ k') → s2.genOf q = s.genOf q :=
    fun q hq => hs2 ▸ genOf_removed hq
  have hfree2 : s2.getLookup tgt nameTgt = none := by
    rw [State.getLookup, ← hs2, lookup_removed]
    exact AList.lookup_erase _ _
  have hlookup2 : ∀ x, x ≠ (tgt, nameTgt) → s2.lookup.lookup x = s.lookup.lookup x := by
    intro x hx
    rw [← hs2, lookup_removed, AList.lookup_erase_ne hx]
  obtain ⟨m2, hk2⟩ : ∃ m2, s2.nodes k = some m2 := by
    have hgen := hgen2 k fun _ => hne.symm
    rw [State.genOf, State.genOf, hk] at hgen
    obtain ⟨m2, hm2, -⟩ := Option.map_eq_some_iff.mp hgen
    exact ⟨m2, hm2⟩
  have hremove := remove_removable ha.target hk' hn' (ha.removable k' hk')
  rw [hs2] at hremove
  have hrename : s.rename src srcGen nameSrc tgt tgtGen nameTgt =
      (s2.add tgt tgtGen nameTgt k m2.generation).bind fun r =>
        r.1.renameEnd src srcGen nameSrc r.2.1 := by
    rw [State.rename, ha.source]
    dsimp only
    rw [if_neg ha.names, hk]
    dsimp only
    rw [add_conflict ha.target hk hk' hne, hn', Option.map_some]
    dsimp only
    rw [hremove]
    dsimp only
    rw [hk2]
    dsimp only
    cases s2.add tgt tgtGen nameTgt k m2.generation <;> rfl
  by_cases hfreed : n.nLookup = 1 ∧ k' = tgt
  · -- the directory itself was freed with its last entry
    obtain ⟨hone, rfl⟩ := hfreed
    refine iff_of_false (fun hatomic => ?_) fun hfine => (hfine.2 hone).2 rfl
    have hgone : s2.genOf k' ≠ some tgtGen := by
      rw [← hs2, genOf_freed hone]
      rintro ⟨⟩
    obtain ⟨rc, hadd, hok, -⟩ := add_refused nameTgt k m2.generation hgone
    rw [hadd, Option.bind_some] at hrename
    rw [State.renameEnd, if_neg hok] at hrename
    have heq := (hatomic s2 rc hrename).2 hok
    rw [heq, hk'] at hfree2
    cases hfree2
  · have htgt : s2.genOf tgt = some tgtGen := by
      rw [hgen2 tgt fun hone heq => hfreed ⟨hone, heq.symm⟩]
      exact ha.target
    rw [add_linked htgt hk2 hfree2, Option.bind_some] at hrename
    have hothers : ∀ x, x ≠ (tgt, nameTgt) →
        (s2.linked tgt tgtGen nameTgt k).lookup.lookup x = s.lookup.lookup x := by
      intro x hx
      rw [State.linked, AList.lookup_insert_ne hx, hlookup2 x hx]
    rw [renameEnd_added ha.names ha.source getLookup_linked ha.other hothers hrename,
      genOf_linked]
    by_cases hsrc : n.nLookup = 1 ∧ k' = src
    · obtain ⟨hone, rfl⟩ := hsrc
      rw [← hs2, genOf_freed hone]
      exact iff_of_false (by rintro ⟨⟩) fun hfine => (hfine.2 hone).1 rfl
    · rw [hgen2 src fun hone heq => hsrc ⟨hone, heq.symm⟩, iff_self_and]
      exact fun _ hone => ⟨fun heq => hsrc ⟨hone, heq⟩, fun heq => hfreed ⟨hone, heq⟩⟩

/-- **A rename is atomic** exactly when the old directory is known by the time the old entry is to
be removed, or the call changes nothing before. -/
theorem atomic_iff (s : State) (src : Key) (srcGen : ℕ) (nameSrc : Name) (tgt : Key) (tgtGen : ℕ)
    (nameTgt : Name) : Atomic s src srcGen nameSrc tgt tgtGen nameTgt ↔
      ∀ k, Alters s src nameSrc tgt tgtGen nameTgt k → KnownSource s src srcGen tgt nameTgt := by
  by_cases halters : ∃ k, Alters s src nameSrc tgt tgtGen nameTgt k
  · obtain ⟨k, ha⟩ := halters
    have hknown : Atomic s src srcGen nameSrc tgt tgtGen nameTgt ↔
        KnownSource s src srcGen tgt nameTgt := by
      rw [KnownSource]
      cases hlookup : s.getLookup tgt nameTgt with
      | none =>
        rw [ha.atomic_of_free hlookup, iff_self_and]
        exact fun _ => nofun
      | some k' =>
        obtain ⟨n, -, hn, -⟩ := ha.removable k' hlookup
        rw [ha.atomic_of_replaced hlookup hn]
        apply and_congr_right
        intro _
        constructor
        · intro hfine k'' n' hk'' hn'
          cases hk''
          cases hn.symm.trans hn'
          exact hfine
        · exact fun hfine => hfine k' n rfl hn
    exact ⟨fun hatomic _ _ => hknown.mp hatomic, fun hall => hknown.mpr (hall k ha)⟩
  · refine iff_of_true (atomic_of_not_alters fun k ha => halters ⟨k, ha⟩) fun k ha => ?_
    exact absurd ⟨k, ha⟩ halters

end

/-! ### A rename with an old generation -/

/-- A directory `2` in the root, with a file in it. -/
def directoryWithFile : List Call :=
  [.add ⟨1, 0⟩ 7 [97] ⟨2, 0⟩ 5, .add ⟨2, 0⟩ 5 [98] ⟨3, 0⟩ 8]

/-- The file is renamed with the generation that the directory had before: there is an error, and
the file has both names. -/
theorem staleSource_not_atomic :
    ∃ s, exec step (init ⟨1, 0⟩ 7) directoryWithFile = some s ∧
      ¬ Atomic s ⟨2, 0⟩ 4 [98] ⟨1, 0⟩ 7 [99] := by
  obtain ⟨s, hs, hr, hlookup⟩ : ∃ s, exec step (init ⟨1, 0⟩ 7) directoryWithFile = some s ∧
      (s.rename ⟨2, 0⟩ 4 [98] ⟨1, 0⟩ 7 [99]).map
        (fun r => (r.2, r.1.getLookup ⟨1, 0⟩ [99])) = some (.estale, some ⟨3, 0⟩) ∧
      s.getLookup ⟨1, 0⟩ [99] = none := ⟨_, rfl, by decide +kernel, by decide +kernel⟩
  refine ⟨s, hs, fun hatomic => ?_⟩
  obtain ⟨⟨s', rc⟩, hrename, heq⟩ := Option.map_eq_some_iff.mp hr
  obtain ⟨rfl, hfound⟩ := Prod.mk.inj heq
  have hsame := (hatomic s' _ hrename).2 nofun
  rw [hsame, hlookup] at hfound
  cases hfound

end Namespace

end CloudNfs
