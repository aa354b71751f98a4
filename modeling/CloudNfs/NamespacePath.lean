import CloudNfs.Graded
import CloudNfs.Namespace

/-!
# The path of a node

`NamespacePath` walks from a node up to the root, always to the first parent in the list, and
puts the names together.

* The walk has no bound in the source, so it has fuel here; that some fuel is enough is part of
  what is proved.
* A path is resolved by its components, as usual: empty ones do not count.
* `path` and `tmp_path` have the same content at the beginning of each round.
-/

namespace CloudNfs

namespace Namespace

/-- `FSAL_MAX_NAME_LEN` -/
def maxNameLen : ℕ := 255

/-- `FSAL_MAX_PATH_LEN` -/
def maxPathLen : ℕ := 4096

/-- `'/'` -/
def slash : UInt8 := 47

/-- Where the walk is. -/
structure Cursor where
  /-- `curr_inode`, without the generation -/
  curr : Key
  generation : ℕ
  path : List UInt8

namespace State

variable (s : State)

/-- One round of the loop: the next one, or what is returned, with what is in `path`. -/
def pathStep (c : Cursor) : Cursor ⊕ Rc × List UInt8 :=
  match s.nodes c.curr with
  | none => .inr (.enoent, c.path)
  | some n =>
    if n.generation ≠ c.generation then .inr (.estale, c.path)
    else
      match n.parentList with
      | [] => .inr (.ok, (slash :: c.path).take (maxPathLen - 1))
      | q :: _ =>
        if c.path = [] then .inl ⟨q.parent, q.generation, q.name.take maxNameLen⟩
        else if c.curr = q.parent then
          .inr (.eloop, (q.name ++ slash :: c.path).take (maxPathLen - 1))
        else .inl ⟨q.parent, q.generation, (q.name ++ slash :: c.path).take (maxPathLen - 1)⟩

def pathLoop : ℕ → Cursor → Option (Rc × List UInt8)
  | 0, _ => none
  | fuel + 1, c =>
    match s.pathStep c with
    | .inr r => some r
    | .inl c' => pathLoop fuel c'

def namespacePath (entry : Key) (gen : ℕ) (fuel : ℕ) : Option (Rc × List UInt8) :=
  s.pathLoop fuel ⟨entry, gen, []⟩

/-- The node that the components lead to from a node. -/
def resolve (k : Key) (names : List Name) : Option Key := names.foldlM s.getLookup k

/-- The names from the top down to a node, along the first parents. -/
inductive Ascends : Key → List Name → Prop
  | top (k : Key) (n : Node) (hn : s.nodes k = some n) (hnil : n.parentList = []) : Ascends k []
  /-- a node below its first parent -/
  | up (k : Key) (n : Node) (q : Peer) (rest : List Peer) (names : List Name)
    (hn : s.nodes k = some n) (hcons : n.parentList = q :: rest)
    (h : Ascends q.parent names) : Ascends k (names ++ [q.name])

/-- There is an entry from `a` to `b`. -/
def Below (a b : Key) : Prop := ∃ name, s.getLookup a name = some b

/-- `b` is `a`, or below it. -/
def Reaches (a b : Key) : Prop := Relation.ReflTransGen s.Below a b

/-- The node is known with this generation. -/
def knows (k : Key) (gen : ℕ) : Bool := (s.nodes k).any fun n => n.generation = gen

end State

def components (path : List UInt8) : List Name := (path.splitOn slash).filter (· ≠ [])

def fullPath (names : List Name) : List UInt8 := slash :: [slash].intercalate names

/-- **`NamespacePath` terminates and tells the truth** about a node. -/
def Truthful (root : Key) (s : State) (k : Key) (gen : ℕ) : Prop :=
  ∃ fuel rc path, s.namespacePath k gen fuel = some (rc, path) ∧
    (rc = .ok →
      s.resolve root (components path) = some k ∧ (path = [slash] → k = root) ∧
        ∀ names, s.Ascends k names → path = fullPath names)

/-! ### When it does -/

/-- A name that can stand in a path. -/
def NameOk (name : Name) : Prop := name ≠ [] ∧ slash ∉ name ∧ name.length < maxNameLen

instance (name : Name) : Decidable (NameOk name) := inferInstanceAs (Decidable (_ ∧ _))

/-- What a call must meet in the state before it for the walk: the names can stand in a path, and
no entry is added from a node to one that is above it. -/
def KeepsTree (s : State) : Call → Prop
  | .add parent parentGen name entry _ => NameOk name ∧
    (s.knows parent parentGen = true → s.getLookup parent name = none →
      (s.nodes entry).isSome = true → ¬ s.Reaches entry parent)
  | .rename src _ nameSrc tgt tgtGen nameTgt => NameOk nameTgt ∧
    (s.knows tgt tgtGen = true → ∀ k, s.getLookup src nameSrc = some k → ¬ s.Reaches k tgt)
  | .remove .. => True

def PathFits (s : State) (k : Key) : Prop :=
  ∀ names, s.Ascends k names → (fullPath names).length < maxPathLen

/-! ### Paths -/

section

variable {root p e k : Key} {s s' : State} {name : Name} {names suffix : List Name} {gen : ℕ}

theorem components_fullPath (hnames : ∀ name ∈ names, NameOk name) :
    components (fullPath names) = names := by
  cases names with
  | nil => decide
  | cons name names =>
    have hjoin : fullPath (name :: names) = [slash].intercalate ([] :: name :: names) := by
      simp [fullPath]
    have hno : ∀ l ∈ [] :: name :: names, slash ∉ l := by
      intro l hl
      rcases List.mem_cons.mp hl with rfl | hmem
      · exact List.not_mem_nil
      · exact (hnames l hmem).2.1
    have hkeep : (name :: names).filter (· ≠ []) = name :: names :=
      List.filter_eq_self.mpr fun l hl => decide_eq_true (hnames l hl).1
    rw [components, hjoin, List.splitOn_intercalate slash hno (by simp), List.filter_cons_of_neg
      (by simp), hkeep]

theorem join_ne_nil (hne : suffix ≠ []) (hsuffix : ∀ name ∈ suffix, name ≠ []) :
    [slash].intercalate suffix ≠ [] := by
  cases suffix with
  | nil => exact absurd rfl hne
  | cons name suffix =>
    have hname := hsuffix name (List.mem_cons_self)
    cases suffix with
    | nil => simpa using hname
    | cons => simp [hname]

theorem length_join_le (names suffix : List Name) (hne : suffix ≠ []) :
    ([slash].intercalate suffix).length ≤ ([slash].intercalate (names ++ suffix)).length := by
  induction names with
  | nil => exact le_refl _
  | cons name names ih =>
    have happend : names ++ suffix ≠ [] := by simp [hne]
    rw [List.cons_append, List.intercalate_cons_of_ne_nil happend, List.length_append]
    omega

theorem resolve_append {names' : List Name} :
    s.resolve k (names ++ names') = (s.resolve k names).bind fun k => s.resolve k names' := by
  simp [State.resolve, List.foldlM_append]

/-! ### The tree -/

/-- What the walk needs of the entries: the names can stand in a path, and there are no cycles. -/
structure Tree (s : State) : Prop where
  names : ∀ x, x ∈ s.lookup → NameOk x.2
  graded : Graded s.Below

theorem Tree.init (root : Key) (gen : ℕ) : Tree (init root gen) where
  names x hx := absurd hx (AList.notMem_empty x)
  graded := ⟨fun _ => 0, fun _ _ ⟨_, hname⟩ => (by cases hname)⟩

theorem Tree.congr (h : Tree s) (heq : s'.lookup = s.lookup) : Tree s' where
  names x hx := h.names x (heq ▸ hx)
  graded := h.graded.mono fun a b ⟨name, hname⟩ => ⟨name, by rwa [State.getLookup, ← heq]⟩

theorem Tree.erase (h : Tree s) (heq : s'.lookup = s.lookup.erase (p, name)) : Tree s' where
  names x hx := by
    rw [heq] at hx
    exact h.names x (AList.mem_erase.mp hx).2
  graded := by
    refine h.graded.mono ?_
    rintro a b ⟨name', hname⟩
    refine ⟨name', ?_⟩
    rw [State.getLookup, heq] at hname
    by_cases hx : (a, name') = (p, name)
    · rw [hx, AList.lookup_erase] at hname
      cases hname
    · rwa [AList.lookup_erase_ne hx] at hname

theorem Tree.insert (h : Tree s) (hname : NameOk name) (hno : ¬ s.Reaches e p)
    (heq : s'.lookup = s.lookup.insert (p, name) e) : Tree s' where
  names x hx := by
    rw [heq] at hx
    rcases (AList.mem_insert _).mp hx with rfl | hmem
    · exact hname
    · exact h.names x hmem
  graded := by
    refine h.graded.insert hno ?_
    rintro a b ⟨name', hname'⟩
    rw [State.getLookup, heq] at hname'
    by_cases hx : (a, name') = (p, name)
    · rw [hx, AList.lookup_insert] at hname'
      exact .inr ⟨(Prod.mk.inj hx).1, (Option.some.inj hname').symm⟩
    · rw [AList.lookup_insert_ne hx] at hname'
      exact .inl ⟨name', hname'⟩

variable {rc : Rc} {O : Set Key} {fuel : ℕ} {c : Cursor}

theorem Tree.removed (h : Tree s) (hr : Removed s p name s' rc) : Tree s' := by
  cases hr with
  | kept => exact h
  | unlinked => exact h.erase rfl
  | freed => exact h.erase rfl

theorem Inv.not_reaches (h : Inv root s O) (he : s.nodes e = none) {np : Node}
    (hp : s.nodes p = some np) : ¬ s.Reaches e p := by
  intro hreach
  rcases Relation.ReflTransGen.cases_head hreach with rfl | ⟨b, ⟨name, hname⟩, -⟩
  · rw [he] at hp
    cases hp
  · have hmem : (e, name) ∈ s.lookup := AList.lookup_isSome.mp (by
      rw [show s.lookup.lookup (e, name) = some b from hname]
      rfl)
    obtain ⟨n, hn⟩ := h.parent _ hmem
    rw [he] at hn
    cases hn

theorem Removed.knows {q : Key} {g : ℕ} (hr : Removed s p name s' rc) (h : s'.knows q g = true) :
    s.knows q g = true := by
  obtain ⟨n', hn', hgen'⟩ := (Option.any_eq_true _ _).mp h
  obtain ⟨n, hn, hgen, -, -⟩ := hr.counters hn'
  rw [State.knows, hn]
  exact decide_eq_true (hgen.symm.trans (of_decide_eq_true hgen'))

theorem Tree.added {g ng : ℕ} (h : Tree s) (hinv : Inv root s O) (hr : Added s p g name e ng s' rc)
    (hname : NameOk name)
    (hno : s.knows p g = true → s.getLookup p name = none → (s.nodes e).isSome = true →
      ¬ s.Reaches e p) : Tree s' := by
  cases hr with
  | refused => exact h
  | conflict => exact h
  | present => exact h
  | linked np ne hp hgen he hfree =>
    refine h.insert hname (hno ?_ hfree ?_) rfl
    · simp [State.knows, hp, hgen]
    · rw [he]
      rfl
  | created np hp hgen he hfree => exact h.insert hname (hinv.not_reaches he hp) rfl
  | orphaned => exact h.congr rfl

theorem Removed.reaches {a b : Key} (hr : Removed s p name s' rc) (h : s'.Reaches a b) :
    s.Reaches a b := by
  refine Relation.ReflTransGen.mono ?_ _ _ h
  rintro a b ⟨name', hname⟩
  refine ⟨name', ?_⟩
  have herase : ∀ x, (s.lookup.erase (p, name)).lookup x = some b → s.lookup.lookup x = some b := by
    intro x hx
    by_cases hxp : x = (p, name)
    · rw [hxp, AList.lookup_erase] at hx
      cases hx
    · rwa [AList.lookup_erase_ne hxp] at hx
  cases hr with
  | kept => exact hname
  | unlinked => exact herase _ hname
  | freed => exact herase _ hname

theorem Tree.step (h : Tree s) (hinv : Inv root s {root}) {call : Call}
    (hconsistent : KeepsConsistent s call) (hkeep : KeepsTree s call)
    (hstep : step s call = some s') : Tree s' := by
  cases call with
  | add parent parentGen name entry newGen =>
    obtain ⟨⟨s1, rc, g⟩, hr, rfl⟩ := Option.map_eq_some_iff.mp hstep
    exact h.added hinv (add_cases hr) hkeep.1 hkeep.2
  | remove parent parentGen name =>
    obtain ⟨⟨s1, rc⟩, hr, rfl⟩ := Option.map_eq_some_iff.mp hstep
    exact h.removed (hinv.remove_cases hr)
  | rename src srcGen nameSrc tgt tgtGen nameTgt =>
    obtain ⟨⟨s1, rc⟩, hr, rfl⟩ := Option.map_eq_some_iff.mp hstep
    obtain ⟨s2, rc2, hr2, -, hrenamed⟩ := hinv.rename (Set.mem_singleton root) hconsistent
    obtain ⟨rfl, rfl⟩ := Prod.mk.inj (Option.some.inj (hr.symm.trans hr2))
    cases hrenamed with
    | kept => exact h
    | cleared _ _ hcleared => exact h.removed hcleared
    | moved k s1 s2 s3 hk hcleared hadded hremoved =>
      obtain ⟨ng, rc', hadded⟩ := hadded
      have htree2 : Tree s2 := by
        rcases hcleared with rfl | ⟨rc1, hcleared⟩
        · exact h.added hinv hadded hkeep.1 fun hknows _ _ => hkeep.2 hknows k hk
        · exact (h.removed hcleared).added (hinv.removed (Set.mem_singleton root) hcleared) hadded
            hkeep.1 fun hknows _ _ hreach =>
              hkeep.2 (hcleared.knows hknows) k hk (hcleared.reaches hreach)
      rcases hremoved with rfl | ⟨rc3, hremoved⟩
      · exact htree2
      · exact htree2.removed hremoved

/-! ### The walk -/

theorem Tree.ascends (h : Tree s) (hinv : Inv root s O) :
    ∀ k n, s.nodes k = some n → ∃ names, s.Ascends k names := by
  refine h.graded.induction fun k ih => ?_
  intro n hn
  cases hlist : n.parentList with
  | nil => exact ⟨[], .top k n hn hlist⟩
  | cons q rest =>
    have hlookup : s.lookup.lookup q.pair = some k :=
      (hinv.parents k n q.pair hn).mp (by simp [hlist])
    obtain ⟨np, hnp, -⟩ := hinv.generation k n q hn (by simp [hlist])
    obtain ⟨names, hnames⟩ := ih q.parent ⟨q.name, hlookup⟩ np hnp
    exact ⟨_, .up k n q rest names hn hlist hnames⟩

theorem State.Ascends.unique {names' : List Name} (h : s.Ascends k names)
    (h' : s.Ascends k names') : names = names' := by
  induction h generalizing names' with
  | top k n hn hnil =>
    cases h' with
    | top => rfl
    | up _ n' q rest names' hn' hcons =>
      cases hn.symm.trans hn'
      rw [hnil] at hcons
      cases hcons
  | up k n q rest names hn hcons h ih =>
    cases h' with
    | top _ n' hn' hnil =>
      cases hn.symm.trans hn'
      rw [hnil] at hcons
      cases hcons
    | up _ n' q' rest' names' hn' hcons' h' =>
      cases hn.symm.trans hn'
      obtain ⟨rfl, rfl⟩ := List.cons.inj (hcons.symm.trans hcons')
      rw [ih h']

theorem State.Ascends.resolve (h : s.Ascends k names) (hinv : Inv root s {root}) :
    s.resolve root names = some k := by
  induction h with
  | top k n hn hnil =>
    have hroot : k = root := by
      by_contra hne
      exact hinv.linked k n hn hne hnil
    rw [hroot]
    rfl
  | up k n q rest names hn hcons h ih =>
    have hlookup : s.lookup.lookup q.pair = some k :=
      (hinv.parents k n q.pair hn).mp (by simp [hcons])
    rw [resolve_append, ih]
    simpa [State.resolve, State.getLookup, Peer.pair] using hlookup

theorem State.Ascends.nameOk (h : s.Ascends k names) (hinv : Inv root s O) (htree : Tree s) :
    ∀ name ∈ names, NameOk name := by
  induction h with
  | top => exact fun name hname => absurd hname List.not_mem_nil
  | up k n q rest names hn hcons h ih =>
    intro name hname
    rcases List.mem_append.mp hname with hold | hnew
    · exact ih name hold
    · obtain rfl := List.mem_singleton.mp hnew
      have hlookup : s.lookup.lookup q.pair = some k :=
        (hinv.parents k n q.pair hn).mp (by simp [hcons])
      exact htree.names q.pair (AList.lookup_isSome.mp (by
        rw [hlookup]
        rfl))

theorem pathLoop_next {c' : Cursor} (h : s.pathStep c = .inl c') :
    s.pathLoop (fuel + 1) c = s.pathLoop fuel c' := by
  rw [State.pathLoop, h]

theorem pathLoop_done {r : Rc × List UInt8} (h : s.pathStep c = .inr r) :
    s.pathLoop (fuel + 1) c = some r := by
  rw [State.pathLoop, h]

/-- **The walk from a node comes to an end**; the path is short enough for the buffer, and it is the
full path if that fits. -/
theorem State.Ascends.walk (h : s.Ascends k names) (hinv : Inv root s O) (htree : Tree s)
    (tmp : List UInt8) (hgen : s.knows k gen = true) :
    ∃ fuel path, s.pathLoop fuel ⟨k, gen, tmp⟩ = some (.ok, path) ∧ path.length < maxPathLen ∧
      ∀ suffix, tmp = [slash].intercalate suffix → (∀ name ∈ suffix, name ≠ []) →
        (fullPath (names ++ suffix)).length < maxPathLen → path = fullPath (names ++ suffix) := by
  induction h generalizing tmp gen with
  | top k n hn hnil =>
    have hknown : n.generation = gen := by simpa [State.knows, hn] using hgen
    refine ⟨1, (slash :: tmp).take (maxPathLen - 1), pathLoop_done ?_, ?_, ?_⟩
    · simp [State.pathStep, hn, hknown, hnil]
    · have hle := List.length_take_le (maxPathLen - 1) (slash :: tmp)
      have hpos : 0 < maxPathLen := by decide
      omega
    · rintro suffix rfl - hfits
      exact List.take_of_length_le (by
        have hlen : (slash :: [slash].intercalate suffix).length < maxPathLen := hfits
        omega)
  | up k n q rest names hn hcons h ih =>
    have hknown : n.generation = gen := by simpa [State.knows, hn] using hgen
    have hlookup : s.lookup.lookup q.pair = some k :=
      (hinv.parents k n q.pair hn).mp (by simp [hcons])
    obtain ⟨np, hnp, hnpgen⟩ := hinv.generation k n q hn (by simp [hcons])
    have hparent : s.knows q.parent q.generation = true := by simp [State.knows, hnp, hnpgen]
    have hname : NameOk q.name := htree.names q.pair (AList.lookup_isSome.mp (by
      rw [hlookup]
      rfl))
    have hself : k ≠ q.parent := by
      rintro rfl
      exact htree.graded.irrefl _ ⟨q.name, hlookup⟩
    by_cases htmp : tmp = []
    · -- the first round
      subst htmp
      obtain ⟨fuel, path, hloop, hlen, hfull⟩ := ih (q.name.take maxNameLen) hparent
      have hstep : s.pathStep ⟨k, gen, []⟩ =
          .inl ⟨q.parent, q.generation, q.name.take maxNameLen⟩ := by
        simp [State.pathStep, hn, hknown, hcons]
      refine ⟨fuel + 1, path, (pathLoop_next hstep).trans hloop, hlen, ?_⟩
      intro suffix hjoin hsuffix hfits
      have hnil : suffix = [] := by
        by_contra hne
        exact join_ne_nil hne hsuffix hjoin.symm
      subst hnil
      rw [List.append_assoc] at hfits ⊢
      refine hfull [q.name] ?_ ?_ hfits
      · rw [List.intercalate_singleton, List.take_of_length_le (le_of_lt hname.2.2)]
      · intro name hmem
        rw [List.mem_singleton.mp hmem]
        exact hname.1
    · obtain ⟨fuel, path, hloop, hlen, hfull⟩ :=
        ih ((q.name ++ slash :: tmp).take (maxPathLen - 1)) hparent
      have hstep : s.pathStep ⟨k, gen, tmp⟩ = .inl ⟨q.parent, q.generation,
          (q.name ++ slash :: tmp).take (maxPathLen - 1)⟩ := by
        simp [State.pathStep, hn, hknown, hcons, htmp, hself]
      refine ⟨fuel + 1, path, (pathLoop_next hstep).trans hloop, hlen, ?_⟩
      rintro suffix rfl hsuffix hfits
      have hne : suffix ≠ [] := by
        rintro rfl
        exact htmp rfl
      rw [List.append_assoc] at hfits ⊢
      have hjoin : q.name ++ slash :: [slash].intercalate suffix =
          [slash].intercalate (q.name :: suffix) := by
        simp [List.intercalate_cons_of_ne_nil hne]
      refine hfull (q.name :: suffix) ?_ ?_ hfits
      · rw [hjoin, List.take_of_length_le]
        have hle := length_join_le names (q.name :: suffix) (by simp)
        have hcons : (fullPath (names ++ q.name :: suffix)).length =
            ([slash].intercalate (names ++ q.name :: suffix)).length + 1 := rfl
        simp only [List.singleton_append] at hfits
        omega
      · intro name hmem
        rcases List.mem_cons.mp hmem with rfl | hold
        · exact hname.1
        · exact hsuffix name hold

theorem pathLoop_unique {fuel' : ℕ} {r r' : Rc × List UInt8} (h : s.pathLoop fuel c = some r)
    (h' : s.pathLoop fuel' c = some r') : r = r' := by
  induction fuel generalizing fuel' c with
  | zero => cases h
  | succ fuel ih =>
    cases fuel' with
    | zero => cases h'
    | succ fuel' =>
      cases hstep : s.pathStep c with
      | inl c' =>
        rw [pathLoop_next hstep] at h h'
        exact ih h h'
      | inr r0 =>
        rw [pathLoop_done hstep] at h h'
        exact (Option.some.inj h).symm.trans (Option.some.inj h')

theorem namespacePath_of_not_knows (h : s.knows k gen = false) :
    ∃ rc path, s.namespacePath k gen 1 = some (rc, path) ∧ rc ≠ .ok := by
  cases hk : s.nodes k with
  | none =>
    refine ⟨.enoent, [], pathLoop_done ?_, by decide⟩
    simp [State.pathStep, hk]
  | some n =>
    have hgen : n.generation ≠ gen := by simpa [State.knows, hk] using h
    refine ⟨.estale, [], pathLoop_done ?_, by decide⟩
    simp [State.pathStep, hk, hgen]

theorem truthful_iff (hinv : Inv root s {root}) (htree : Tree s) (k : Key) (gen : ℕ) :
    Truthful root s k gen ↔ (s.knows k gen = true → PathFits s k) := by
  constructor
  · rintro ⟨fuel, rc, path, hloop, htrue⟩ hknows names hnames
    obtain ⟨fuel', path', hloop', hlen, -⟩ := hnames.walk hinv htree [] hknows
    obtain ⟨rfl, rfl⟩ := Prod.mk.inj (pathLoop_unique hloop hloop')
    rw [← (htrue rfl).2.2 names hnames]
    exact hlen
  · intro hfits
    cases hknows : s.knows k gen with
    | false =>
      obtain ⟨rc, path, hloop, hrc⟩ := namespacePath_of_not_knows hknows
      exact ⟨1, rc, path, hloop, fun hok => absurd hok hrc⟩
    | true =>
      obtain ⟨n, hn, -⟩ := (Option.any_eq_true _ _).mp hknows
      obtain ⟨names, hnames⟩ := htree.ascends hinv k n hn
      obtain ⟨fuel, path, hloop, -, hfull⟩ := hnames.walk hinv htree [] hknows
      have hpath : path = fullPath names := by
        have hfull' := hfull [] rfl (fun _ hmem => absurd hmem List.not_mem_nil)
        rw [List.append_nil] at hfull'
        exact hfull' (hfits hknows names hnames)
      have hcomponents := components_fullPath (hnames.nameOk hinv htree)
      have hresolve := hnames.resolve hinv
      refine ⟨fuel, .ok, path, hloop, fun _ => ⟨?_, ?_, ?_⟩⟩
      · rw [hpath, hcomponents, hresolve]
      · intro hslash
        have hnil : names = [] := by
          rw [← hcomponents, ← hpath, hslash]
          decide
        rw [hnil] at hresolve
        exact (Option.some.inj hresolve).symm
      · intro names' hnames'
        rw [hpath, hnames.unique hnames']

/-! ### The runs -/

/-- What a call must meet for the paths. -/
def KeepsPaths (s : State) (call : Call) : Prop := KeepsConsistent s call ∧ KeepsTree s call

/-- **`NamespacePath` terminates and tells the truth**, in every state reached, about every inode
that is not known, or whose path fits, and about no other one. -/
theorem truthful_of_keepsPaths (root : Key) (gen : ℕ) (calls : List Call)
    (hkeep : AllSteps step (fun s call _ => KeepsPaths s call) (init root gen) calls) :
    Always step
      (fun s => ∀ k g, Truthful root s k g ↔ (s.knows k g = true → PathFits s k))
      (init root gen) calls := by
  have halways : Always step (fun s => Inv root s {root} ∧ Tree s) (init root gen) calls := by
    refine always_of_allSteps ⟨init_inv root gen, Tree.init root gen⟩ ?_ hkeep
    rintro s call s' ⟨hinv, htree⟩ hstep ⟨hconsistent, hpaths⟩
    exact ⟨hinv.step (Set.mem_singleton root) hconsistent hstep,
      htree.step hinv hconsistent hpaths hstep⟩
  exact halways.mono fun s h k g => truthful_iff h.1 h.2 k g

/-- A directory is renamed into another one. -/
theorem truthful_renamed :
    Always step
      (fun s => ∀ k g, Truthful ⟨1, 0⟩ s k g ↔ (s.knows k g = true → PathFits s k))
      (init ⟨1, 0⟩ 7)
      [.add ⟨1, 0⟩ 7 [97] ⟨2, 0⟩ 7, .add ⟨1, 0⟩ 7 [98] ⟨3, 0⟩ 7,
        .rename ⟨1, 0⟩ 7 [98] ⟨2, 0⟩ 7 [99]] := by
  refine truthful_of_keepsPaths ⟨1, 0⟩ 7 _ ?_
  rintro _ ⟨rfl⟩
  refine ⟨⟨by decide +kernel, by decide, fun _ _ hnew => absurd hnew (by decide)⟩, ?_⟩
  rintro _ ⟨rfl⟩
  refine ⟨⟨by decide +kernel, by decide, fun _ _ hnew => absurd hnew (by decide)⟩, ?_⟩
  rintro _ ⟨rfl⟩
  refine ⟨⟨by decide +kernel, by decide, ?_⟩, trivial⟩
  rintro - k ⟨rfl⟩
  refine not_reaches_of_closed (l := [⟨3, 0⟩]) ?_ (by decide) (by decide)
  rintro a b ⟨name, hname⟩ ha
  obtain rfl := List.mem_singleton.mp ha
  change (((∅ : AList fun _ : Key × Name => Key).insert (⟨1, 0⟩, [97]) ⟨2, 0⟩).insert
    (⟨1, 0⟩, [98]) ⟨3, 0⟩).lookup (⟨3, 0⟩, name) = some b at hname
  rw [AList.lookup_insert_ne (by simp), AList.lookup_insert_ne (by simp),
    AList.lookup_empty] at hname
  cases hname

/-- The orphan that a refused `NamespaceAdd` leaves has the path of the root. -/
theorem orphan_not_truthful :
    ¬ Always step (fun s => ∀ k g, Truthful ⟨1, 0⟩ s k g) (init ⟨1, 0⟩ 7)
      [.add ⟨1, 0⟩ 7 [97] ⟨2, 0⟩ 7, .add ⟨1, 0⟩ 7 [97] ⟨3, 0⟩ 7] := by
  intro h
  obtain ⟨s, hs, hpath⟩ : ∃ s, exec step (init ⟨1, 0⟩ 7)
      [.add ⟨1, 0⟩ 7 [97] ⟨2, 0⟩ 7, .add ⟨1, 0⟩ 7 [97] ⟨3, 0⟩ 7] = some s ∧
        s.namespacePath ⟨3, 0⟩ 7 1 = some (.ok, [slash]) := ⟨_, rfl, rfl⟩
  obtain ⟨fuel, rc, path, hloop, htrue⟩ := h.exec hs ⟨3, 0⟩ 7
  obtain ⟨rfl, rfl⟩ := Prod.mk.inj (pathLoop_unique hloop hpath)
  exact absurd ((htrue rfl).2.1 rfl) (by decide)

end

end Namespace

end CloudNfs
