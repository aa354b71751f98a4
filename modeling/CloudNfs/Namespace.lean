import CloudNfs.Run
import Mathlib.Data.List.AList

/-!
# The name space of the FUSE-like FSAL

The FSAL keeps its own view of the file system in two hash tables: `nodes_hash` from inodes
to nodes, and `lookup_hash` from a parent and a name to the node below it. Each node keeps
the list of its parents, and counts its links and its children.

* Both tables compare inode numbers and devices, not generations. A node is in `nodes_hash`
  from its allocation until it is freed, so that its inode stands for a pointer to it.
* A call whose `assert` fails, or that follows a pointer to no node, has no next state.
* Names are C strings shorter than `FSAL_MAX_NAME_LEN`, that is lists of bytes here.
* The counters are `unsigned int`s.
-/

namespace CloudNfs

namespace Namespace

/-- What the tables compare of an `inode_t`. -/
structure Key where
  inum : ℕ
  dev : ℕ
  deriving DecidableEq

abbrev Name := List UInt8

/-- `lookup_peer_t`. -/
structure Peer where
  /-- `parent`, without the generation -/
  parent : Key
  generation : ℕ
  name : Name

/-- The key of `lookup_hash` for a peer. -/
def Peer.pair (q : Peer) : Key × Name := (q.parent, q.name)

/-- `fsnode_t`. -/
structure Node where
  generation : ℕ
  nLookup : ℕ
  nChildren : ℕ
  parentList : List Peer

structure State where
  /-- `nodes_hash` -/
  nodes : Key → Option Node
  /-- `lookup_hash` -/
  lookup : AList fun _ : Key × Name => Key

inductive Rc where
  | ok
  | noSuchKey
  | enoent
  | estale
  | eexist
  | enomem
  | efault
  | eloop
  deriving DecidableEq

/-- `NamespaceInit`. -/
def init (root : Key) (generation : ℕ) : State :=
  ⟨Function.update (fun _ => none) root (some ⟨generation, 1, 0, []⟩), ∅⟩

/-! ### The tables -/

namespace State

variable (s : State)

def modify (k : Key) (f : Node → Node) : State :=
  { s with nodes := Function.update s.nodes k ((s.nodes k).map f) }

/-- `h_get_lookup`. -/
def getLookup (parent : Key) (name : Name) : Option Key := s.lookup.lookup (parent, name)

/-- `h_insert_new_lookup` without overwriting. -/
def insertNewLookup (parent : Key) (generation : ℕ) (name : Name) (k : Key) : Option State :=
  if (s.getLookup parent name).isSome then none
  else
    some ({ s with lookup := s.lookup.insert (parent, name) k }.modify k fun n =>
      { n with
        nLookup := (n.nLookup + 1) % 2 ^ 32
        parentList := ⟨parent, generation, name⟩ :: n.parentList })

/-- `h_del_lookup`: the node that is returned, if there was an entry. The peer in the list of the
node is the one that was the key of the entry. -/
def delLookup (parent : Key) (name : Name) : Option (State × Option Key) :=
  match s.getLookup parent name with
  | none => some (s, none)
  | some k =>
    match s.nodes k with
    | none => none
    | some n =>
      if n.nLookup = 0 then none
      else
        some ({ s with lookup := s.lookup.erase (parent, name) }.modify k fun n =>
          { n with
            nLookup := n.nLookup - 1
            parentList := n.parentList.eraseP fun q => q.pair = (parent, name) }, some k)

/-- `h_insert_new_node`, for an inode that `nodes_hash` does not know. -/
def insertNewNode (k : Key) (generation : ℕ) : State :=
  { s with nodes := Function.update s.nodes k (some ⟨generation, 0, 0, []⟩) }

/-- `h_del_node` and `node_free`. -/
def delNode (k : Key) : State := { s with nodes := Function.update s.nodes k none }

/-- `n_children++`. -/
def incChildren (k : Key) : State :=
  s.modify k fun n => { n with nChildren := (n.nChildren + 1) % 2 ^ 32 }

/-- `n_children--`, after the assertion that there are children. -/
def decChildren (k : Key) : Option State :=
  match s.nodes k with
  | none => none
  | some n =>
    if n.nChildren = 0 then none
    else some (s.modify k fun n => { n with nChildren := n.nChildren - 1 })

/-! ### The calls -/

/-- `NamespaceAdd_nl`; the last result is `*p_new_gen`. -/
def add (parent : Key) (parentGen : ℕ) (name : Name) (entry : Key) (newGen : ℕ) :
    Option (State × Rc × ℕ) :=
  match s.nodes parent with
  | none => some (s, .enoent, newGen)
  | some p =>
    if p.generation ≠ parentGen then some (s, .estale, newGen)
    else
      match s.nodes entry with
      | some n =>
        match s.getLookup parent name with
        | none =>
          match s.insertNewLookup parent parentGen name entry with
          | none => some (s, .efault, newGen)
          | some s₁ => some (s₁.incChildren parent, .ok, n.generation)
        | some existing =>
          match s.nodes existing with
          | none => none
          | some n' =>
            if existing = entry then some (s, .ok, n'.generation) else some (s, .eexist, newGen)
      | none =>
        match (s.insertNewNode entry newGen).insertNewLookup parent parentGen name entry with
        | none => some (s.insertNewNode entry newGen, .enomem, newGen)
        | some s₁ => some (s₁.incChildren parent, .ok, newGen)

/-- `NamespaceRemove_nl`. -/
def remove (parent : Key) (parentGen : ℕ) (name : Name) : Option (State × Rc) :=
  match s.nodes parent with
  | none => some (s, .enoent)
  | some p =>
    if p.generation ≠ parentGen then some (s, .estale)
    else
      match s.delLookup parent name with
      | none => none
      | some (s₁, none) => some (s₁, .ok)
      | some (s₁, some k) =>
        match s₁.decChildren parent with
        | none => none
        | some s₂ =>
          match s₂.nodes k with
          | none => none
          | some n =>
            if n.nLookup = 0 then
              if n.nChildren ≠ 0 then none else some (s₂.delNode k, .ok)
            else some (s₂, .ok)

/-- The end of `NamespaceRename`, after the new entry was added or not. -/
def renameEnd (src : Key) (srcGen : ℕ) (nameSrc : Name) (rc : Rc) : Option (State × Rc) :=
  if rc = .ok then s.remove src srcGen nameSrc else some (s, rc)

/-- `NamespaceRename`. -/
def rename (src : Key) (srcGen : ℕ) (nameSrc : Name) (tgt : Key) (tgtGen : ℕ) (nameTgt : Name) :
    Option (State × Rc) :=
  match s.getLookup src nameSrc with
  | none => some (s, .noSuchKey)
  | some k =>
    if src = tgt ∧ nameSrc = nameTgt then some (s, .ok)
    else
      match s.nodes k with
      | none => none
      | some n =>
        match s.add tgt tgtGen nameTgt k n.generation with
        | none => none
        | some (s₁, .eexist, _) =>
          match s₁.remove tgt tgtGen nameTgt with
          | none => none
          | some (s₂, .ok) =>
            match s₂.nodes k with
            | none => none
            | some n' =>
              match s₂.add tgt tgtGen nameTgt k n'.generation with
              | none => none
              | some (s₃, rc, _) => s₃.renameEnd src srcGen nameSrc rc
          | some (s₂, rc) => some (s₂, rc)
        | some (s₁, rc, _) => s₁.renameEnd src srcGen nameSrc rc

end State

inductive Call where
  | add (parent : Key) (parentGen : ℕ) (name : Name) (entry : Key) (newGen : ℕ)
  | remove (parent : Key) (parentGen : ℕ) (name : Name)
  | rename (src : Key) (srcGen : ℕ) (nameSrc : Name) (tgt : Key) (tgtGen : ℕ) (nameTgt : Name)

def step (s : State) : Call → Option State
  | .add parent parentGen name entry newGen =>
    (s.add parent parentGen name entry newGen).map Prod.fst
  | .remove parent parentGen name => (s.remove parent parentGen name).map Prod.fst
  | .rename src srcGen nameSrc tgt tgtGen nameTgt =>
    (s.rename src srcGen nameSrc tgt tgtGen nameTgt).map Prod.fst

/-! ### What the name space is to keep -/

/-- **A consistent rooted graph.** -/
structure Consistent (root : Key) (s : State) : Prop where
  /-- a node has no parent twice in its list -/
  nodup : ∀ k n, s.nodes k = some n → (n.parentList.map Peer.pair).Nodup
  /-- the list has exactly the parents and names that lead to the node -/
  parents : ∀ k n x, s.nodes k = some n →
    (x ∈ n.parentList.map Peer.pair ↔ s.lookup.lookup x = some k)
  /-- `n_lookup` counts them -/
  nLookup : ∀ k n, s.nodes k = some n →
    n.nLookup = n.parentList.length + if k = root then 1 else 0
  /-- `n_children` counts the entries below the node -/
  nChildren : ∀ k n, s.nodes k = some n → n.nChildren = s.lookup.keys.countP fun x => x.1 = k
  /-- every node but the root has a parent -/
  linked : ∀ k n, s.nodes k = some n → k ≠ root → n.parentList ≠ []
  parent : ∀ x, x ∈ s.lookup → (s.nodes x.1).isSome = true

/-- A node has no children, if it is there. -/
def State.childless (s : State) (k : Key) : Bool := (s.nodes k).all fun n => n.nChildren = 0

/-- A call that removes or renames a node removes or renames one without children. -/
def OfChildless (s : State) : Call → Prop
  | .add .. => True
  | .remove parent _ name => (s.getLookup parent name).all s.childless = true
  | .rename src _ nameSrc _ _ _ => (s.getLookup src nameSrc).all s.childless = true

/-! ### When it is kept -/

/-- One entry more does not make the counters of the two nodes wrap around. -/
def State.hasRoom (s : State) (parent entry : Key) : Bool :=
  ((s.nodes parent).all fun p => p.nChildren + 1 < 2 ^ 32) &&
    (s.nodes entry).all fun n => n.nLookup + 1 < 2 ^ 32

/-- The parent is known with its generation, and has an entry with this name. -/
def State.taken (s : State) (parent : Key) (parentGen : ℕ) (name : Name) : Bool :=
  ((s.nodes parent).any fun p => p.generation = parentGen) && (s.getLookup parent name).isSome

/-- What a call must meet in the state before it: `NamespaceAdd` of an inode that is not known does
not find an entry with the name, `NamespaceRename` does not replace a node that has children, and
no counter reaches `2 ^ 32`. -/
def KeepsConsistent (s : State) : Call → Prop
  | .add parent parentGen name entry _ =>
    s.hasRoom parent entry = true ∧
      ((s.nodes entry).isSome = true ∨ s.taken parent parentGen name = false)
  | .rename src _ nameSrc tgt _ nameTgt =>
    (s.getLookup src nameSrc).all (s.hasRoom tgt) = true ∧
      (s.getLookup tgt nameTgt).all (fun k => s.getLookup src nameSrc = some k || s.childless k) =
        true
  | .remove .. => True

instance (s : State) : ∀ call, Decidable (KeepsConsistent s call)
  | .add .. => inferInstanceAs (Decidable (_ ∧ _))
  | .rename .. => inferInstanceAs (Decidable (_ ∧ _))
  | .remove .. => isTrue trivial

/-! ### The invariant -/

section

variable {root p e k : Key} {s s' : State} {O O' : Set Key} {name : Name} {gen : ℕ}
  {np ne n : Node}

/-- **The invariant**; the nodes in `O` may be without a parent. -/
structure Inv (root : Key) (s : State) (O : Set Key) : Prop where
  nodup : ∀ k n, s.nodes k = some n → (n.parentList.map Peer.pair).Nodup
  parents : ∀ k n x, s.nodes k = some n →
    (x ∈ n.parentList.map Peer.pair ↔ s.lookup.lookup x = some k)
  /-- `n_lookup` counts them -/
  nLookup : ∀ k n, s.nodes k = some n →
    n.nLookup = n.parentList.length + if k = root then 1 else 0
  /-- `n_children` counts the entries below the node -/
  nChildren : ∀ k n, s.nodes k = some n → n.nChildren = s.lookup.keys.countP fun x => x.1 = k
  linked : ∀ k n, s.nodes k = some n → k ∉ O → n.parentList ≠ []
  parent : ∀ x, x ∈ s.lookup → ∃ n, s.nodes x.1 = some n
  child : ∀ x k, s.lookup.lookup x = some k → ∃ n, s.nodes k = some n
  root : ∃ n, s.nodes root = some n
  generation : ∀ k n q, s.nodes k = some n → q ∈ n.parentList →
    ∃ np, s.nodes q.parent = some np ∧ np.generation = q.generation

theorem Inv.mono (h : Inv root s O) (hO : O ⊆ O') : Inv root s O' :=
  { h with linked := fun k n hk hkO => h.linked k n hk fun hmem => hkO (hO hmem) }

theorem init_inv (root : Key) (gen : ℕ) : Inv root (init root gen) {root} := by
  have hnode : ∀ k n, (init root gen).nodes k = some n → k = root ∧ n = ⟨gen, 1, 0, []⟩ := by
    intro k n hk
    by_cases hr : k = root
    · subst hr
      exact ⟨rfl, (by simpa [init] using hk.symm)⟩
    · simp [init, hr] at hk
  have hlookup : ∀ x, (init root gen).lookup.lookup x = none := fun x => AList.lookup_empty x
  refine ⟨fun k n hk => ?_, fun k n x hk => ?_, fun k n hk => ?_, fun k n hk => ?_,
    fun k n hk hO => absurd (hnode k n hk).1 hO, fun x hx => ?_, fun x k hx => ?_,
    ⟨⟨gen, 1, 0, []⟩, by simp [init]⟩, fun k n q hk hq => ?_⟩
  · obtain ⟨-, rfl⟩ := hnode k n hk
    exact List.nodup_nil
  · obtain ⟨-, rfl⟩ := hnode k n hk
    simp [hlookup]
  · obtain ⟨rfl, rfl⟩ := hnode k n hk
    simp
  · obtain ⟨-, rfl⟩ := hnode k n hk
    rfl
  · exact absurd hx (AList.notMem_empty x)
  · rw [hlookup] at hx
    cases hx
  · obtain ⟨-, rfl⟩ := hnode k n hk
    cases hq

/-! ### One entry more, one entry less -/

theorem keys_insert_of_notMem {α β : Type} [DecidableEq α] {t : AList fun _ : α => β} {x : α}
    (hx : x ∉ t) (y : β) : (t.insert x y).keys = x :: t.keys := by
  rw [AList.keys_insert, List.erase_of_not_mem fun hmem => hx (AList.mem_keys.mpr hmem)]

theorem countP_keys_erase {α β : Type} [DecidableEq α] {t : AList fun _ : α => β} {x : α}
    (hx : x ∈ t) (q : α → Bool) :
    (t.erase x).keys.countP q = t.keys.countP q - if q x then 1 else 0 := by
  simp only [AList.keys_erase, List.countP_erase, AList.mem_keys.mp hx, true_and]

/-- A node with one link more, if it is `e`, and one child more, if it is `p`. -/
def linkNode (p : Key) (gen : ℕ) (name : Name) (e k : Key) (n : Node) : Node where
  generation := n.generation
  nLookup := if k = e then (n.nLookup + 1) % 2 ^ 32 else n.nLookup
  nChildren := if k = p then (n.nChildren + 1) % 2 ^ 32 else n.nChildren
  parentList := if k = e then ⟨p, gen, name⟩ :: n.parentList else n.parentList

def State.linked (s : State) (p : Key) (gen : ℕ) (name : Name) (e : Key) : State where
  nodes k := (s.nodes k).map (linkNode p gen name e k)
  lookup := s.lookup.insert (p, name) e

theorem insertNewLookup_eq (hfree : s.getLookup p name = none) :
    (s.insertNewLookup p gen name e).map (fun s => s.incChildren p) =
      some (s.linked p gen name e) := by
  simp only [State.insertNewLookup, hfree, Option.isSome_none, Bool.false_eq_true, if_false,
    Option.map_some, Option.some.injEq]
  refine congrArg (fun nodes => (⟨nodes, s.lookup.insert (p, name) e⟩ : State)) (funext fun k => ?_)
  simp only [State.modify, Function.update_apply]
  cases hk : s.nodes k with
  | none => by_cases hkp : k = p <;> by_cases hke : k = e <;> simp_all
  | some n => by_cases hkp : k = p <;> by_cases hke : k = e <;> simp_all [linkNode]

variable {n' : Node} {g ng : ℕ} {rc : Rc} {x : Key × Name}

theorem linked_node (hk : (s.linked p gen name e).nodes k = some n') :
    ∃ n, s.nodes k = some n ∧ n' = linkNode p gen name e k n := by
  obtain ⟨n, hn, rfl⟩ := Option.map_eq_some_iff.mp hk
  exact ⟨n, hn, rfl⟩

theorem linked_of_node (hn : s.nodes k = some n) :
    (s.linked p gen name e).nodes k = some (linkNode p gen name e k n) := by
  simp [State.linked, hn]

theorem Inv.not_mem (h : Inv root s O) (hn : s.nodes k = some n)
    (hfree : s.getLookup p name = none) : (p, name) ∉ n.parentList.map Peer.pair := by
  rw [h.parents k n _ hn]
  intro hlookup
  rw [State.getLookup, hlookup] at hfree
  cases hfree

theorem Inv.link (h : Inv root s O) (hp : s.nodes p = some np) (hgen : np.generation = gen)
    (he : s.nodes e = some ne) (hfree : s.getLookup p name = none)
    (hchildren : np.nChildren + 1 < 2 ^ 32) (hlinks : ne.nLookup + 1 < 2 ^ 32) :
    Inv root (s.linked p gen name e) (O \ {e}) where
  nodup k n' hk := by
    obtain ⟨n, hn, rfl⟩ := linked_node hk
    by_cases hke : k = e
    · simp only [linkNode, hke, if_true, List.map_cons, List.nodup_cons]
      exact ⟨h.not_mem hn hfree, h.nodup k n hn⟩
    · simpa [linkNode, hke] using h.nodup k n hn
  parents k n' x hk := by
    obtain ⟨n, hn, rfl⟩ := linked_node hk
    have hold := h.parents k n x hn
    by_cases hx : x = (p, name)
    · subst hx
      simp only [State.linked, AList.lookup_insert, Option.some.injEq]
      by_cases hke : k = e
      · simp [linkNode, hke, Peer.pair]
      · have hno := h.not_mem hn hfree
        simpa [linkNode, hke, Ne.symm hke] using hno
    · simp only [State.linked, AList.lookup_insert_ne hx, ← hold]
      by_cases hke : k = e
      · simp [linkNode, hke, Peer.pair, hx]
      · simp [linkNode, hke]
  nLookup k n' hk := by
    obtain ⟨n, hn, rfl⟩ := linked_node hk
    have hold := h.nLookup k n hn
    by_cases hke : k = e
    · subst hke
      cases hn.symm.trans he
      simp only [linkNode, if_true, List.length_cons, Nat.mod_eq_of_lt hlinks]
      omega
    · simpa [linkNode, hke] using hold
  nChildren k n' hk := by
    obtain ⟨n, hn, rfl⟩ := linked_node hk
    have hold := h.nChildren k n hn
    have hkeys : (s.linked p gen name e).lookup.keys = (p, name) :: s.lookup.keys :=
      keys_insert_of_notMem (AList.lookup_eq_none.mp hfree) e
    rw [hkeys, List.countP_cons, ← hold]
    by_cases hkp : k = p
    · subst hkp
      cases hn.symm.trans hp
      simp only [linkNode, if_true, Nat.mod_eq_of_lt hchildren, decide_true]
    · simp [linkNode, hkp, Ne.symm hkp]
  linked k n' hk hO := by
    obtain ⟨n, hn, rfl⟩ := linked_node hk
    by_cases hke : k = e
    · simp [linkNode, hke]
    · simpa [linkNode, hke] using h.linked k n hn fun hmem => hO ⟨hmem, hke⟩
  parent x hx := by
    obtain ⟨n, hn⟩ : ∃ n, s.nodes x.1 = some n := by
      rcases (AList.mem_insert _).mp hx with rfl | hmem
      · exact ⟨np, hp⟩
      · exact h.parent x hmem
    exact ⟨_, linked_of_node hn⟩
  child x k hx := by
    obtain ⟨n, hn⟩ : ∃ n, s.nodes k = some n := by
      by_cases hxp : x = (p, name)
      · subst hxp
        rw [State.linked, AList.lookup_insert] at hx
        cases hx
        exact ⟨ne, he⟩
      · rw [State.linked, AList.lookup_insert_ne hxp] at hx
        exact h.child x k hx
    exact ⟨_, linked_of_node hn⟩
  root := by
    obtain ⟨n, hn⟩ := h.root
    exact ⟨_, linked_of_node hn⟩
  generation k n' q hk hq := by
    obtain ⟨n, hn, rfl⟩ := linked_node hk
    have hq' : (k = e ∧ q = ⟨p, gen, name⟩) ∨ q ∈ n.parentList := by
      by_cases hke : k = e
      · simpa [linkNode, hke] using hq
      · exact .inr (by simpa [linkNode, hke] using hq)
    obtain ⟨m, hm, hmgen⟩ : ∃ m, s.nodes q.parent = some m ∧ m.generation = q.generation := by
      rcases hq' with ⟨-, rfl⟩ | hmem
      · exact ⟨np, hp, hgen⟩
      · exact h.generation k n q hn hmem
    exact ⟨_, linked_of_node hm, hmgen⟩

/-- A node with one link less, if it is `e`, and one child less, if it is `p`. -/
def unlinkNode (p : Key) (name : Name) (e k : Key) (n : Node) : Node where
  generation := n.generation
  nLookup := if k = e then n.nLookup - 1 else n.nLookup
  nChildren := if k = p then n.nChildren - 1 else n.nChildren
  parentList := if k = e then n.parentList.eraseP fun q => q.pair = (p, name) else n.parentList

def State.unlinked (s : State) (p : Key) (name : Name) (e : Key) : State where
  nodes k := (s.nodes k).map (unlinkNode p name e k)
  lookup := s.lookup.erase (p, name)

theorem delLookup_eq (he : s.getLookup p name = some e) (hne : s.nodes e = some ne)
    (hlinks : ne.nLookup ≠ 0) (hnp : s.nodes p = some np) (hchildren : np.nChildren ≠ 0) :
    ∃ s₁, s.delLookup p name = some (s₁, some e) ∧
      s₁.decChildren p = some (s.unlinked p name e) := by
  simp only [State.delLookup, he, hne, if_neg hlinks]
  refine ⟨_, rfl, ?_⟩
  have hp1 : ∃ n1, (({ s with lookup := s.lookup.erase (p, name) } : State).modify e fun n =>
      { n with
        nLookup := n.nLookup - 1
        parentList := n.parentList.eraseP fun q => q.pair = (p, name) }).nodes p = some n1 ∧
      n1.nChildren = np.nChildren := by
    simp only [State.modify, Function.update_apply]
    by_cases hpe : p = e
    · subst hpe
      cases hne.symm.trans hnp
      simp [hnp]
    · simp [hpe, hnp]
  obtain ⟨n1, hn1, hsame⟩ := hp1
  simp only [State.decChildren, hn1, if_neg (hsame ▸ hchildren), Option.some.injEq]
  refine congrArg (fun nodes => (⟨nodes, s.lookup.erase (p, name)⟩ : State)) (funext fun k => ?_)
  simp only [State.modify, Function.update_apply]
  cases hk : s.nodes k with
  | none => by_cases hkp : k = p <;> by_cases hke : k = e <;> simp_all
  | some n => by_cases hkp : k = p <;> by_cases hke : k = e <;> simp_all [unlinkNode]

theorem unlinked_node (hk : (s.unlinked p name e).nodes k = some n') :
    ∃ n, s.nodes k = some n ∧ n' = unlinkNode p name e k n := by
  obtain ⟨n, hn, rfl⟩ := Option.map_eq_some_iff.mp hk
  exact ⟨n, hn, rfl⟩

theorem unlinked_of_node (hn : s.nodes k = some n) :
    (s.unlinked p name e).nodes k = some (unlinkNode p name e k n) := by
  simp [State.unlinked, hn]

theorem mem_eraseP_pair {l : List Peer} (hl : (l.map Peer.pair).Nodup) (y x : Key × Name) :
    x ∈ (l.eraseP fun q => q.pair = y).map Peer.pair ↔ x ∈ l.map Peer.pair ∧ x ≠ y := by
  induction l with
  | nil => simp
  | cons q l ih =>
    obtain ⟨hq, hl'⟩ := List.nodup_cons.mp hl
    by_cases hqy : q.pair = y
    · subst hqy
      simp only [List.eraseP_cons_of_pos (p := fun r : Peer => decide (r.pair = q.pair))
        (decide_eq_true rfl), List.map_cons, List.mem_cons]
      constructor
      · intro hx
        refine ⟨.inr hx, ?_⟩
        rintro rfl
        exact hq hx
      · rintro ⟨rfl | hx, hne⟩
        · exact absurd rfl hne
        · exact hx
    · rw [List.eraseP_cons_of_neg (by simpa using hqy), List.map_cons, List.mem_cons, ih hl',
        List.map_cons, List.mem_cons]
      constructor
      · rintro (rfl | ⟨hx, hne⟩)
        · exact ⟨.inl rfl, hqy⟩
        · exact ⟨.inr hx, hne⟩
      · rintro ⟨rfl | hx, hne⟩
        · exact .inl rfl
        · exact .inr ⟨hx, hne⟩

theorem Inv.counters (h : Inv root s O) (he : s.getLookup p name = some e) :
    ∃ ne np, s.nodes e = some ne ∧ ne.nLookup ≠ 0 ∧ s.nodes p = some np ∧ np.nChildren ≠ 0 := by
  obtain ⟨ne, hne⟩ := h.child (p, name) e he
  have hmem : (p, name) ∈ s.lookup := AList.lookup_isSome.mp (by
    rw [show s.lookup.lookup (p, name) = some e from he]
    rfl)
  obtain ⟨np, hnp⟩ := h.parent (p, name) hmem
  refine ⟨ne, np, hne, ?_, hnp, ?_⟩
  · have hlist := (h.parents e ne (p, name) hne).mpr he
    have hpos : 0 < ne.parentList.length := by
      rw [← List.length_map (f := Peer.pair)]
      exact List.length_pos_of_mem hlist
    have hcount := h.nLookup e ne hne
    omega
  · rw [h.nChildren p np hnp]
    have hpos : 0 < s.lookup.keys.countP fun x => x.1 = p :=
      List.countP_pos_iff.mpr ⟨(p, name), AList.mem_keys.mp hmem, by simp⟩
    omega

theorem Inv.unlink (h : Inv root s O) (he : s.getLookup p name = some e) :
    Inv root (s.unlinked p name e) (insert e O) where
  nodup k n' hk := by
    obtain ⟨n, hn, rfl⟩ := unlinked_node hk
    by_cases hke : k = e
    · simp only [unlinkNode, hke, if_true]
      exact (h.nodup k n hn).sublist (List.eraseP_sublist.map Peer.pair)
    · simpa [unlinkNode, hke] using h.nodup k n hn
  parents k n' x hk := by
    obtain ⟨n, hn, rfl⟩ := unlinked_node hk
    have hold := h.parents k n x hn
    have hx' : (s.unlinked p name e).lookup.lookup x = some k ↔
        x ≠ (p, name) ∧ s.lookup.lookup x = some k := by
      by_cases hx : x = (p, name)
      · subst hx
        simp [State.unlinked, AList.lookup_erase]
      · simp [State.unlinked, AList.lookup_erase_ne hx, hx]
    rw [hx', ← hold]
    by_cases hke : k = e
    · simp only [unlinkNode, hke, if_true]
      rw [mem_eraseP_pair (h.nodup k n hn), and_comm]
    simp only [unlinkNode, hke, if_false]
    refine ⟨fun hx => ⟨?_, hx⟩, fun hx => hx.2⟩
    rintro rfl
    have hlookup := hold.mp hx
    rw [show s.lookup.lookup (p, name) = some e from he] at hlookup
    exact hke (Option.some.inj hlookup).symm
  nLookup k n' hk := by
    obtain ⟨n, hn, rfl⟩ := unlinked_node hk
    have hold := h.nLookup k n hn
    by_cases hke : k = e
    · subst hke
      have hlist := (h.parents k n (p, name) hn).mpr he
      obtain ⟨q, hq, hpair⟩ := List.mem_map.mp hlist
      have hlen := List.length_eraseP_of_mem (p := fun q : Peer => decide (q.pair = (p, name))) hq
        (decide_eq_true hpair)
      have hpos := List.length_pos_of_mem hq
      simp only [unlinkNode, if_true, hlen]
      omega
    · simpa [unlinkNode, hke] using hold
  nChildren k n' hk := by
    obtain ⟨n, hn, rfl⟩ := unlinked_node hk
    have hold := h.nChildren k n hn
    have hmem : (p, name) ∈ s.lookup := AList.lookup_isSome.mp (by
      rw [show s.lookup.lookup (p, name) = some e from he]
      rfl)
    have hcount := countP_keys_erase hmem fun x => x.1 = k
    rw [show (s.unlinked p name e).lookup = s.lookup.erase (p, name) from rfl, hcount, ← hold]
    by_cases hkp : k = p
    · simp [unlinkNode, hkp]
    · simp [unlinkNode, hkp, Ne.symm hkp]
  linked k n' hk hO := by
    obtain ⟨n, hn, rfl⟩ := unlinked_node hk
    have hke : k ≠ e := fun hke => hO (.inl hke)
    simpa [unlinkNode, hke] using h.linked k n hn fun hmem => hO (.inr hmem)
  parent x hx := by
    obtain ⟨n, hn⟩ := h.parent x (AList.mem_erase.mp hx).2
    exact ⟨_, unlinked_of_node hn⟩
  child x k hx := by
    have hold : s.lookup.lookup x = some k := by
      by_cases hxp : x = (p, name)
      · subst hxp
        rw [State.unlinked, AList.lookup_erase] at hx
        cases hx
      · rwa [State.unlinked, AList.lookup_erase_ne hxp] at hx
    obtain ⟨n, hn⟩ := h.child x k hold
    exact ⟨_, unlinked_of_node hn⟩
  root := by
    obtain ⟨n, hn⟩ := h.root
    exact ⟨_, unlinked_of_node hn⟩
  generation k n' q hk hq := by
    obtain ⟨n, hn, rfl⟩ := unlinked_node hk
    have hq' : q ∈ n.parentList := by
      by_cases hke : k = e
      · simp only [unlinkNode, hke, if_true] at hq
        exact List.mem_of_mem_eraseP hq
      · simpa [unlinkNode, hke] using hq
    obtain ⟨m, hm, hmgen⟩ := h.generation k n q hn hq'
    exact ⟨_, unlinked_of_node hm, hmgen⟩

/-! ### New nodes and freed ones -/

theorem Inv.newNode (h : Inv root s O) (he : s.nodes e = none) (gen : ℕ) :
    Inv root (s.insertNewNode e gen) (insert e O) := by
  have hold : ∀ k n, (s.insertNewNode e gen).nodes k = some n →
      (k = e ∧ n = ⟨gen, 0, 0, []⟩) ∨ (k ≠ e ∧ s.nodes k = some n) := by
    intro k n hk
    by_cases hke : k = e
    · subst hke
      exact .inl ⟨rfl, (by simpa [State.insertNewNode] using hk.symm)⟩
    · exact .inr ⟨hke, (by simpa [State.insertNewNode, hke] using hk)⟩
  have hkeep : ∀ {k n}, s.nodes k = some n → (s.insertNewNode e gen).nodes k = some n := by
    intro k n hk
    have hke : k ≠ e := by
      rintro rfl
      rw [he] at hk
      cases hk
    simpa [State.insertNewNode, hke] using hk
  -- no entry leads to the node, and none is below it
  have hnone : ∀ x, s.lookup.lookup x ≠ some e := by
    intro x hx
    obtain ⟨n, hn⟩ := h.child x e hx
    rw [he] at hn
    cases hn
  have hzero : (s.lookup.keys.countP fun x => x.1 = e) = 0 := by
    refine List.countP_eq_zero.mpr fun x hx => ?_
    obtain ⟨n, hn⟩ := h.parent x (AList.mem_keys.mpr hx)
    simp only [decide_eq_true_eq]
    rintro rfl
    rw [he] at hn
    cases hn
  have hroot : e ≠ root := by
    rintro rfl
    obtain ⟨n, hn⟩ := h.root
    rw [he] at hn
    cases hn
  refine ⟨fun k n hk => ?_, fun k n x hk => ?_, fun k n hk => ?_, fun k n hk => ?_,
    fun k n hk hO => ?_, fun x hx => ?_, fun x k hx => ?_, ?_, fun k n q hk hq => ?_⟩
  · obtain ⟨-, rfl⟩ | ⟨-, hk'⟩ := hold k n hk
    · exact List.nodup_nil
    · exact h.nodup k n hk'
  · obtain ⟨rfl, rfl⟩ | ⟨-, hk'⟩ := hold k n hk
    · have hx : (s.insertNewNode k gen).lookup.lookup x ≠ some k := hnone x
      simpa using hx
    · exact h.parents k n x hk'
  · obtain ⟨rfl, rfl⟩ | ⟨-, hk'⟩ := hold k n hk
    · simp [hroot]
    · exact h.nLookup k n hk'
  · obtain ⟨rfl, rfl⟩ | ⟨-, hk'⟩ := hold k n hk
    · exact hzero.symm
    · exact h.nChildren k n hk'
  · obtain ⟨rfl, rfl⟩ | ⟨-, hk'⟩ := hold k n hk
    · exact absurd (.inl rfl) hO
    · exact h.linked k n hk' fun hmem => hO (.inr hmem)
  · obtain ⟨n, hn⟩ := h.parent x hx
    exact ⟨n, hkeep hn⟩
  · obtain ⟨n, hn⟩ := h.child x k hx
    exact ⟨n, hkeep hn⟩
  · obtain ⟨n, hn⟩ := h.root
    exact ⟨n, hkeep hn⟩
  · obtain ⟨-, rfl⟩ | ⟨-, hk'⟩ := hold k n hk
    · cases hq
    · obtain ⟨m, hm, hgen⟩ := h.generation k n q hk' hq
      exact ⟨m, hkeep hm, hgen⟩

theorem Inv.delNode (h : Inv root s O) (hn : s.nodes k = some n) (hlinks : n.nLookup = 0)
    (hchildren : n.nChildren = 0) : Inv root (s.delNode k) O := by
  have hold : ∀ x m, (s.delNode k).nodes x = some m → x ≠ k ∧ s.nodes x = some m := by
    intro x m hx
    by_cases hxk : x = k
    · subst hxk
      simp [State.delNode] at hx
    · exact ⟨hxk, by simpa [State.delNode, hxk] using hx⟩
  have hkeep : ∀ {x m}, x ≠ k → s.nodes x = some m → (s.delNode k).nodes x = some m := by
    intro x m hxk hx
    simpa [State.delNode, hxk] using hx
  have hcount := h.nLookup k n hn
  have hroot : root ≠ k := by
    rintro rfl
    simp only [if_true] at hcount
    omega
  have hempty : n.parentList = [] := List.eq_nil_of_length_eq_zero (by omega)
  have hnone : ∀ x, s.lookup.lookup x ≠ some k := by
    intro x hx
    have hmem := (h.parents k n x hn).mpr hx
    rw [hempty] at hmem
    cases hmem
  have hparent : ∀ x, x ∈ s.lookup → x.1 ≠ k := by
    intro x hx hxk
    have hzero := (h.nChildren k n hn).symm.trans hchildren
    exact List.countP_eq_zero.mp hzero x (AList.mem_keys.mp hx) (by simpa using hxk)
  refine ⟨fun x m hx => h.nodup x m (hold x m hx).2,
    fun x m y hx => h.parents x m y (hold x m hx).2,
    fun x m hx => h.nLookup x m (hold x m hx).2, fun x m hx => h.nChildren x m (hold x m hx).2,
    fun x m hx => h.linked x m (hold x m hx).2, fun x hx => ?_, fun x y hx => ?_, ?_,
    fun x m q hx hq => ?_⟩
  · obtain ⟨m, hm⟩ := h.parent x hx
    exact ⟨m, hkeep (hparent x hx) hm⟩
  · obtain ⟨m, hm⟩ := h.child x y hx
    refine ⟨m, hkeep ?_ hm⟩
    rintro rfl
    exact hnone x hx
  · obtain ⟨m, hm⟩ := h.root
    exact ⟨m, hkeep hroot hm⟩
  · obtain ⟨m', hm', hgen⟩ := h.generation x m q (hold x m hx).2 hq
    refine ⟨m', hkeep ?_ hm', hgen⟩
    have hlookup := (h.parents x m q.pair (hold x m hx).2).mp (List.mem_map_of_mem hq)
    exact hparent q.pair (AList.lookup_isSome.mp (by rw [hlookup]; rfl))

/-! ### What the calls do -/

/-- What `NamespaceAdd_nl` does. -/
inductive Added (s : State) (p : Key) (g : ℕ) (name : Name) (e : Key) (ng : ℕ) :
    State → Rc → Prop where
  | refused (rc : Rc) (hrc : rc ≠ .ok) (hexist : rc ≠ .eexist) : Added s p g name e ng s rc
  | conflict (k : Key) (hlookup : s.getLookup p name = some k) (hk : k ≠ e) :
    Added s p g name e ng s .eexist
  | present (hlookup : s.getLookup p name = some e) : Added s p g name e ng s .ok
  | linked (np ne : Node) (hp : s.nodes p = some np) (hgen : np.generation = g)
    (he : s.nodes e = some ne) (hfree : s.getLookup p name = none) :
    Added s p g name e ng (s.linked p g name e) .ok
  | created (np : Node) (hp : s.nodes p = some np) (hgen : np.generation = g)
    (he : s.nodes e = none) (hfree : s.getLookup p name = none) :
    Added s p g name e ng ((s.insertNewNode e ng).linked p g name e) .ok
  | orphaned (np : Node) (hp : s.nodes p = some np) (hgen : np.generation = g)
    (he : s.nodes e = none) (htaken : (s.getLookup p name).isSome = true) :
    Added s p g name e ng (s.insertNewNode e ng) .enomem

theorem incChildren_of_insert {s₁ : State} (hr : s.insertNewLookup p gen name e = some s₁) :
    s.getLookup p name = none ∧ s₁.incChildren p = s.linked p gen name e := by
  have hfree : s.getLookup p name = none := by
    cases hlookup : s.getLookup p name with
    | none => rfl
    | some k => simp [State.insertNewLookup, hlookup] at hr
  have heq : (s.insertNewLookup p gen name e).map (fun s => s.incChildren p) =
      some (s.linked p gen name e) := insertNewLookup_eq hfree
  rw [hr, Option.map_some] at heq
  exact ⟨hfree, Option.some.inj heq⟩

theorem add_cases {ng' : ℕ} (hr : s.add p g name e ng = some (s', rc, ng')) :
    Added s p g name e ng s' rc := by
  unfold State.add at hr
  split at hr
  · cases hr
    exact .refused _ (by decide) (by decide)
  rename_i np hp
  split at hr
  · cases hr
    exact .refused _ (by decide) (by decide)
  rename_i hgen
  have hgen' : np.generation = g := by simpa using hgen
  split at hr
  · next ne he =>
    split at hr
    · split at hr
      · cases hr
        exact .refused _ (by decide) (by decide)
      · next s₁ hinsert =>
        obtain ⟨rfl, rfl, -⟩ : s₁.incChildren p = s' ∧ Rc.ok = rc ∧ ne.generation = ng' := by
          simpa using hr
        obtain ⟨hfree, heq⟩ := incChildren_of_insert hinsert
        rw [heq]
        exact .linked np ne hp hgen' he hfree
    · next existing hlookup =>
      split at hr
      · cases hr
      split at hr
      · next heq =>
        subst heq
        cases hr
        exact .present hlookup
      · next hne =>
        cases hr
        exact .conflict existing hlookup hne
  · next he =>
    split at hr
    · next hinsert =>
      obtain ⟨rfl, rfl, -⟩ : s.insertNewNode e ng = s' ∧ Rc.enomem = rc ∧ ng = ng' := by
        simpa using hr
      refine .orphaned np hp hgen' he ?_
      cases hlookup : s.getLookup p name with
      | none =>
        have hlookup' : (s.insertNewNode e ng).getLookup p name = none := hlookup
        simp [State.insertNewLookup, hlookup'] at hinsert
      | some k => rfl
    · next s₁ hinsert =>
      cases hr
      obtain ⟨hfree, heq⟩ := incChildren_of_insert hinsert
      rw [heq]
      exact .created np hp hgen' he hfree

theorem Inv.add_isSome (h : Inv root s O) (g : ℕ) (ng : ℕ) :
    (s.add p g name e ng).isSome = true := by
  unfold State.add
  split
  · rfl
  split
  · rfl
  split
  · split
    · split <;> rfl
    · next existing hlookup =>
      obtain ⟨n, hn⟩ := h.child (p, name) existing hlookup
      simp only [hn]
      split <;> rfl
  · split <;> rfl

/-- What `NamespaceRemove_nl` does. -/
inductive Removed (s : State) (p : Key) (name : Name) : State → Rc → Prop where
  | kept (rc : Rc) (hrc : rc ≠ .ok ∨ s.getLookup p name = none) : Removed s p name s rc
  | unlinked (k : Key) (n : Node) (hk : s.getLookup p name = some k)
    (hn : (s.unlinked p name k).nodes k = some n) (hlinks : n.nLookup ≠ 0) :
    Removed s p name (s.unlinked p name k) .ok
  | freed (k : Key) (n : Node) (hk : s.getLookup p name = some k)
    (hn : (s.unlinked p name k).nodes k = some n) (hlinks : n.nLookup = 0)
    (hchildren : n.nChildren = 0) : Removed s p name ((s.unlinked p name k).delNode k) .ok

theorem Inv.remove_cases (h : Inv root s O) (hr : s.remove p g name = some (s', rc)) :
    Removed s p name s' rc := by
  unfold State.remove at hr
  split at hr
  · cases hr
    exact .kept _ (.inl (by decide))
  split at hr
  · cases hr
    exact .kept _ (.inl (by decide))
  cases hlookup : s.getLookup p name with
  | none =>
    simp only [State.delLookup, hlookup, Option.some.injEq, Prod.mk.injEq] at hr
    obtain ⟨rfl, rfl⟩ := hr
    exact .kept _ (.inr hlookup)
  | some k =>
    obtain ⟨ne, np, hne, hlinks, hnp, hchildren⟩ := h.counters hlookup
    obtain ⟨s₁, hdel, hdec⟩ := delLookup_eq hlookup hne hlinks hnp hchildren
    simp only [hdel, hdec, unlinked_of_node hne] at hr
    split at hr
    · next hzero =>
      split at hr
      · cases hr
      rename_i hchildless
      obtain ⟨rfl, rfl⟩ : (s.unlinked p name k).delNode k = s' ∧ Rc.ok = rc := by
        simpa using hr
      exact .freed k _ hlookup (unlinked_of_node hne) hzero (by simpa using hchildless)
    · next hzero =>
      cases hr
      exact .unlinked k _ hlookup (unlinked_of_node hne) hzero

theorem Inv.remove_isSome (h : Inv root s O) (g : ℕ)
    (hfine : (s.getLookup p name).all s.childless = true ∨
      ∃ x k, x ≠ (p, name) ∧ s.getLookup p name = some k ∧ s.lookup.lookup x = some k) :
    (s.remove p g name).isSome = true := by
  unfold State.remove
  split
  · rfl
  split
  · rfl
  cases hlookup : s.getLookup p name with
  | none =>
    simp only [State.delLookup, hlookup]
    rfl
  | some k =>
    obtain ⟨ne, np, hne, hlinks, hnp, hchildren⟩ := h.counters hlookup
    obtain ⟨s₁, hdel, hdec⟩ := delLookup_eq hlookup hne hlinks hnp hchildren
    simp only [hdel, hdec, unlinked_of_node hne]
    split
    · next hzero =>
      have hzero' : ne.nLookup = 1 := by
        simp only [unlinkNode, if_true] at hzero
        omega
      rcases hfine with hchildless | ⟨x, k', hx, hk', hxk⟩
      · have hnone : ne.nChildren = 0 := by
          simpa [State.childless, hlookup, hne] using hchildless
        have hnone' : (unlinkNode p name k k ne).nChildren = 0 := by
          simp [unlinkNode, hnone]
        rw [if_neg (by simpa using hnone')]
        rfl
      · -- there are two links at least
        cases hlookup.symm.trans hk'
        have hfirst := (h.parents k ne (p, name) hne).mpr hlookup
        have hsecond := (h.parents k ne x hne).mpr hxk
        have hcount := h.nLookup k ne hne
        have htwo : 2 ≤ (ne.parentList.map Peer.pair).length := by
          have hsub : [x, (p, name)] ⊆ ne.parentList.map Peer.pair := by
            intro y hy
            rcases List.mem_pair.mp hy with rfl | rfl
            · exact hsecond
            · exact hfirst
          exact (List.subperm_of_subset (by simpa using hx) hsub).length_le
        rw [List.length_map] at htwo
        omega
    · rfl

/-! ### The calls keep the invariant -/

theorem hasRoom_of_nodes (hroom : s.hasRoom p e = true) :
    (∀ np, s.nodes p = some np → np.nChildren + 1 < 2 ^ 32) ∧
      ∀ ne, s.nodes e = some ne → ne.nLookup + 1 < 2 ^ 32 := by
  obtain ⟨hp, he⟩ := Bool.and_eq_true_iff.mp hroom
  refine ⟨fun np hnp => ?_, fun ne hne => ?_⟩
  · rw [hnp] at hp
    exact of_decide_eq_true hp
  · rw [hne] at he
    exact of_decide_eq_true he

theorem Inv.added (h : Inv root s O) (hroom : s.hasRoom p e = true)
    (hr : Added s p g name e ng s' rc)
    (hknown : (s.nodes e).isSome = true ∨ s.taken p g name = false) : Inv root s' O := by
  obtain ⟨hchildren, hlinks⟩ := hasRoom_of_nodes hroom
  cases hr with
  | refused => exact h
  | conflict => exact h
  | present => exact h
  | linked np ne hp hgen he hfree =>
    exact (h.link hp hgen he hfree (hchildren np hp) (hlinks ne he)).mono Set.sdiff_subset
  | created np hp hgen he hfree =>
    have hpe : p ≠ e := by
      rintro rfl
      rw [he] at hp
      cases hp
    have hp' : (s.insertNewNode e ng).nodes p = some np := by
      simpa [State.insertNewNode, hpe] using hp
    have he' : (s.insertNewNode e ng).nodes e = some ⟨ng, 0, 0, []⟩ := by
      simp [State.insertNewNode]
    refine ((h.newNode he ng).link hp' hgen he' hfree (hchildren np hp)
      (show 0 + 1 < 2 ^ 32 by decide)).mono ?_
    rintro x ⟨rfl | hx, hxe⟩
    · exact absurd rfl hxe
    · exact hx
  | orphaned np hp hgen he htaken =>
    rcases hknown with hsome | hfree
    · rw [he] at hsome
      cases hsome
    · simp [State.taken, hp, hgen, htaken] at hfree

theorem Inv.removed (h : Inv root s O) (hO : root ∈ O) (hr : Removed s p name s' rc) :
    Inv root s' O := by
  cases hr with
  | kept => exact h
  | unlinked k n hk hn hlinks =>
    have hinv := h.unlink hk
    refine { hinv with linked := fun x m hx hxO => ?_ }
    by_cases hxk : x = k
    · -- the links that are left
      subst hxk
      cases hn.symm.trans hx
      have hcount := hinv.nLookup x n hx
      have hroot : x ≠ root := by
        rintro rfl
        exact hxO hO
      rw [if_neg hroot] at hcount
      intro hnil
      rw [hnil] at hcount
      exact hlinks hcount
    · exact hinv.linked x m hx fun hmem => hmem.elim hxk hxO
  | freed k n hk hn hlinks hchildren =>
    have hinv := (h.unlink hk).delNode hn hlinks hchildren
    refine { hinv with linked := fun x m hx hxO => ?_ }
    have hxk : x ≠ k := by
      rintro rfl
      simp [State.delNode] at hx
    exact hinv.linked x m hx fun hmem => hmem.elim hxk hxO

theorem Added.getLookup (hr : Added s p g name e ng s' .ok) : s'.getLookup p name = some e := by
  cases hr with
  | refused _ hrc => exact absurd rfl hrc
  | present hlookup => exact hlookup
  | linked | created => exact AList.lookup_insert _

theorem Added.lookup (hr : Added s p g name e ng s' rc) (hx : s.lookup.lookup x = some k) :
    s'.lookup.lookup x = some k := by
  have hinsert : s.getLookup p name = none → (s.lookup.insert (p, name) e).lookup x = some k := by
    intro hfree
    rw [AList.lookup_insert_ne, hx]
    rintro rfl
    rw [State.getLookup, hx] at hfree
    cases hfree
  cases hr with
  | refused | conflict | present | orphaned => exact hx
  | linked np ne hp hgen he hfree => exact hinsert hfree
  | created np hp hgen he hfree => exact hinsert hfree

theorem Removed.lookup (hr : Removed s p name s' rc) (hx : x ≠ (p, name)) :
    s'.lookup.lookup x = s.lookup.lookup x := by
  cases hr with
  | kept => rfl
  | unlinked | freed => exact AList.lookup_erase_ne hx

theorem Removed.counters (hr : Removed s p name s' rc) (hk : s'.nodes k = some n') :
    ∃ n, s.nodes k = some n ∧ n'.generation = n.generation ∧ n'.nLookup ≤ n.nLookup ∧
        n'.nChildren ≤ n.nChildren := by
  have hunlink : ∀ {e}, (s.unlinked p name e).nodes k = some n' →
      ∃ n, s.nodes k = some n ∧ n'.generation = n.generation ∧ n'.nLookup ≤ n.nLookup ∧
        n'.nChildren ≤ n.nChildren := by
    intro e hk
    obtain ⟨n, hn, rfl⟩ := unlinked_node hk
    refine ⟨n, hn, rfl, ?_, ?_⟩
    · simp only [unlinkNode]
      split <;> omega
    · simp only [unlinkNode]
      split <;> omega
  cases hr with
  | kept => exact ⟨n', hk, rfl, le_refl _, le_refl _⟩
  | unlinked => exact hunlink hk
  | freed e m he hm hlinks hchildren =>
    by_cases hke : k = e
    · subst hke
      simp [State.delNode] at hk
    · exact hunlink (by simpa [State.delNode, hke] using hk)

theorem Removed.hasRoom {q : Key} (hr : Removed s p name s' rc) (hroom : s.hasRoom q k = true) :
    s'.hasRoom q k = true := by
  obtain ⟨hchildren, hlinks⟩ := hasRoom_of_nodes hroom
  refine Bool.and_eq_true_iff.mpr ⟨?_, ?_⟩
  · rw [Option.all_eq_true_iff_get]
    intro hq
    obtain ⟨n, hn, -, -, hle⟩ := hr.counters (Option.some_get hq).symm
    have hlt := hchildren n hn
    exact decide_eq_true (by omega)
  · rw [Option.all_eq_true_iff_get]
    intro hq
    obtain ⟨n, hn, -, hle, -⟩ := hr.counters (Option.some_get hq).symm
    have hlt := hlinks n hn
    exact decide_eq_true (by omega)

/-- What `NamespaceRename` does: the node under the new name goes, if there is another one, the
entry is added, and the old one goes. -/
inductive Renamed (s : State) (src : Key) (nameSrc : Name) (tgt : Key) (g : ℕ) (nameTgt : Name) :
    State → Prop where
  | kept : Renamed s src nameSrc tgt g nameTgt s
  | cleared (s₁ : State) (rc : Rc) (hcleared : Removed s tgt nameTgt s₁ rc) :
    Renamed s src nameSrc tgt g nameTgt s₁
  | moved (k : Key) (s₁ s₂ s₃ : State) (hk : s.getLookup src nameSrc = some k)
    (hcleared : s₁ = s ∨ ∃ rc, Removed s tgt nameTgt s₁ rc)
    (hadded : ∃ ng rc, Added s₁ tgt g nameTgt k ng s₂ rc)
    (hremoved : s₃ = s₂ ∨ ∃ rc, Removed s₂ src nameSrc s₃ rc) :
    Renamed s src nameSrc tgt g nameTgt s₃

theorem Inv.renameEnd (h : Inv root s O) (hO : root ∈ O) (hk : s.getLookup p name = some k)
    (hx : x ≠ (p, name)) (hlinked : rc = .ok → s.lookup.lookup x = some k) :
    ∃ s' rc', s.renameEnd p g name rc = some (s', rc') ∧ Inv root s' O ∧
      (s' = s ∨ Removed s p name s' rc') := by
  by_cases hrc : rc = .ok
  · have hsome := h.remove_isSome g (.inr ⟨x, k, hx, hk, hlinked hrc⟩)
    obtain ⟨⟨s', rc'⟩, hr⟩ := Option.isSome_iff_exists.mp hsome
    have hremoved := h.remove_cases hr
    refine ⟨s', rc', ?_, h.removed hO hremoved, .inr hremoved⟩
    rw [State.renameEnd, if_pos hrc, hr]
  · refine ⟨s, rc, ?_, h, .inl rfl⟩
    rw [State.renameEnd, if_neg hrc]

theorem Inv.rename (h : Inv root s O) (hO : root ∈ O) {src tgt : Key} {nameSrc nameTgt : Name}
    {srcGen tgtGen : ℕ}
    (hkeep : KeepsConsistent s (.rename src srcGen nameSrc tgt tgtGen nameTgt)) :
    ∃ s' rc, s.rename src srcGen nameSrc tgt tgtGen nameTgt = some (s', rc) ∧ Inv root s' O ∧
      Renamed s src nameSrc tgt tgtGen nameTgt s' := by
  obtain ⟨hroom, hreplace⟩ := hkeep
  unfold State.rename
  cases hk : s.getLookup src nameSrc with
  | none => exact ⟨s, _, rfl, h, .kept⟩
  | some k =>
    simp only [hk, Option.all_some] at hroom
    by_cases hsame : src = tgt ∧ nameSrc = nameTgt
    · exact ⟨s, .ok, by simp only [if_pos hsame], h, .kept⟩
    simp only [if_neg hsame]
    have hx : (tgt, nameTgt) ≠ (src, nameSrc) := by
      intro heq
      cases heq
      exact hsame ⟨rfl, rfl⟩
    obtain ⟨n, hn⟩ := h.child (src, nameSrc) k hk
    have hknown : (s.nodes k).isSome = true := by
      rw [hn]
      rfl
    have hreturns : (s.add tgt tgtGen nameTgt k n.generation).isSome = true :=
      h.add_isSome tgtGen n.generation
    obtain ⟨⟨s₁, rc1, g1⟩, hadd⟩ := Option.isSome_iff_exists.mp hreturns
    have hadded := add_cases hadd
    have hinv1 := h.added hroom hadded (.inl hknown)
    simp only [hn, hadd]
    by_cases hexist : rc1 = .eexist
    · -- the node under the new name is removed first
      subst hexist
      cases hadded with
      | refused _ _ hne => exact absurd rfl hne
      | conflict k' hk' hne =>
        have hchildless : (s.getLookup tgt nameTgt).all s.childless = true := by
          rw [hk', Option.all_some] at hreplace ⊢
          rcases Bool.or_eq_true_iff.mp hreplace with heq | hchildless
          · rw [hk, decide_eq_true_eq, Option.some.injEq] at heq
            exact absurd heq.symm hne
          · exact hchildless
        obtain ⟨⟨s₂, rc2⟩, hremove⟩ := Option.isSome_iff_exists.mp
          (h.remove_isSome tgtGen (.inl hchildless))
        have hremoved := h.remove_cases hremove
        have hinv2 := h.removed hO hremoved
        have hk2 : s₂.getLookup src nameSrc = some k := (hremoved.lookup hx.symm).trans hk
        obtain ⟨n2, hn2⟩ := hinv2.child (src, nameSrc) k hk2
        have hknown2 : (s₂.nodes k).isSome = true := by
          rw [hn2]
          rfl
        have hreturns2 : (s₂.add tgt tgtGen nameTgt k n2.generation).isSome = true :=
          hinv2.add_isSome tgtGen n2.generation
        obtain ⟨⟨s₃, rc3, g3⟩, hadd3⟩ := Option.isSome_iff_exists.mp hreturns2
        have hadded3 := add_cases hadd3
        have hinv3 := hinv2.added (hremoved.hasRoom hroom) hadded3 (.inl hknown2)
        simp only [hremove]
        by_cases hrc2 : rc2 = .ok
        · subst hrc2
          have hget : rc3 = .ok → s₃.getLookup tgt nameTgt = some k := by
            rintro rfl
            exact hadded3.getLookup
          simp only [hn2, hadd3]
          obtain ⟨s', rc', hr, hinv, hend⟩ :=
            hinv3.renameEnd (g := srcGen) hO (hadded3.lookup hk2) hx hget
          exact ⟨s', rc', hr, hinv, .moved k s₂ s₃ s' hk (.inr ⟨_, hremoved⟩) ⟨_, _, hadded3⟩
            (hend.imp_right fun hr => ⟨_, hr⟩)⟩
        · exact ⟨s₂, rc2, by cases rc2 <;> first | rfl | exact absurd rfl hrc2, hinv2,
            .cleared s₂ rc2 hremoved⟩
    · have hget : rc1 = .ok → s₁.getLookup tgt nameTgt = some k := by
        rintro rfl
        exact hadded.getLookup
      obtain ⟨s', rc', hr, hinv, hend⟩ :=
        hinv1.renameEnd (g := srcGen) hO (hadded.lookup hk) hx hget
      have hmoved : Renamed s src nameSrc tgt tgtGen nameTgt s' :=
        .moved k s s₁ s' hk (.inl rfl) ⟨_, _, hadded⟩ (hend.imp_right fun hr => ⟨_, hr⟩)
      refine ⟨s', rc', ?_, hinv, hmoved⟩
      cases rc1 <;> first | exact hr | exact absurd rfl hexist

/-! ### The runs -/

/-- **A call returns**, unless it removes a node that has children or meets no condition. -/
theorem Inv.step_isSome (h : Inv root s O) (hO : root ∈ O) {call : Call}
    (hchildless : OfChildless s call) (hkeep : KeepsConsistent s call) :
    (step s call).isSome = true := by
  cases call with
  | add parent parentGen name entry newGen =>
    rw [step, Option.isSome_map]
    exact h.add_isSome parentGen newGen
  | remove parent parentGen name =>
    rw [step, Option.isSome_map]
    exact h.remove_isSome parentGen (.inl hchildless)
  | rename src srcGen nameSrc tgt tgtGen nameTgt =>
    obtain ⟨s', rc, hr, -, -⟩ := h.rename hO hkeep
    rw [step, hr]
    rfl

/-- **A call** keeps the invariant, if it meets the condition. -/
theorem Inv.step (h : Inv root s O) (hO : root ∈ O) {call : Call} (hkeep : KeepsConsistent s call)
    (hstep : step s call = some s') : Inv root s' O := by
  cases call with
  | add parent parentGen name entry newGen =>
    obtain ⟨⟨s₁, rc, g⟩, hr, rfl⟩ := Option.map_eq_some_iff.mp hstep
    exact h.added hkeep.1 (add_cases hr) hkeep.2
  | remove parent parentGen name =>
    obtain ⟨⟨s₁, rc⟩, hr, rfl⟩ := Option.map_eq_some_iff.mp hstep
    exact h.removed hO (h.remove_cases hr)
  | rename src srcGen nameSrc tgt tgtGen nameTgt =>
    obtain ⟨⟨s₁, rc⟩, hr, rfl⟩ := Option.map_eq_some_iff.mp hstep
    obtain ⟨s₂, rc2, hr2, hinv, -⟩ := h.rename hO hkeep
    obtain ⟨rfl, rfl⟩ := Prod.mk.inj (Option.some.inj (hr.symm.trans hr2))
    exact hinv

theorem Inv.consistent (h : Inv root s {root}) : Consistent root s where
  nodup := h.nodup
  parents := h.parents
  nLookup := h.nLookup
  nChildren := h.nChildren
  linked := h.linked
  parent x hx := by
    obtain ⟨n, hn⟩ := h.parent x hx
    rw [hn]
    rfl

theorem always_inv {calls : List Call}
    (hkeep : AllSteps step (fun s call _ => KeepsConsistent s call) (init root gen) calls) :
    Always step (fun s => Inv root s {root}) (init root gen) calls :=
  always_of_allSteps (init_inv root gen)
    (fun _ _ _ h hstep hkeep => h.step (Set.mem_singleton root) hkeep hstep) hkeep

/-- **The name space is a consistent rooted graph**, and no assertion fails for a node without
children. -/
theorem consistent_of_keepsConsistent (root : Key) (gen : ℕ) (calls : List Call)
    (hkeep : AllSteps step (fun s call _ => KeepsConsistent s call) (init root gen) calls) :
    Always step (Consistent root) (init root gen) calls ∧
      ∀ s call, exec step (init root gen) calls = some s → OfChildless s call →
        KeepsConsistent s call → (step s call).isSome = true := by
  have hinv := always_inv hkeep
  refine ⟨hinv.mono fun s h => h.consistent, fun s call hs hchildless hcall => ?_⟩
  exact (hinv.exec hs).step_isSome (Set.mem_singleton root) hchildless hcall

/-- A directory and a file, a hard link, a rename onto it, and a removal. -/
theorem consistent_renamed :
    let calls : List Call :=
      [.add ⟨1, 0⟩ 7 [97] ⟨2, 0⟩ 7, .add ⟨2, 0⟩ 7 [98] ⟨3, 0⟩ 8, .add ⟨1, 0⟩ 7 [99] ⟨4, 0⟩ 8,
        .add ⟨1, 0⟩ 7 [100] ⟨3, 0⟩ 8, .rename ⟨2, 0⟩ 7 [98] ⟨1, 0⟩ 7 [99], .remove ⟨1, 0⟩ 7 [100]]
    Always step (Consistent ⟨1, 0⟩) (init ⟨1, 0⟩ 7) calls ∧
      ∀ s call, exec step (init ⟨1, 0⟩ 7) calls = some s → OfChildless s call →
        KeepsConsistent s call → (step s call).isSome = true :=
  consistent_of_keepsConsistent ⟨1, 0⟩ 7 _ (by decide +kernel)

/-- A second new inode under a name leaves a node that no entry leads to. -/
theorem orphan_not_consistent :
    ¬ Always step (Consistent ⟨1, 0⟩) (init ⟨1, 0⟩ 7)
      [.add ⟨1, 0⟩ 7 [97] ⟨2, 0⟩ 7, .add ⟨1, 0⟩ 7 [97] ⟨3, 0⟩ 7] := by
  intro h
  obtain ⟨s, hs, hnode⟩ : ∃ s, exec step (init ⟨1, 0⟩ 7)
      [.add ⟨1, 0⟩ 7 [97] ⟨2, 0⟩ 7, .add ⟨1, 0⟩ 7 [97] ⟨3, 0⟩ 7] = some s ∧
        s.nodes ⟨3, 0⟩ = some ⟨7, 0, 0, []⟩ := ⟨_, rfl, rfl⟩
  exact (h.exec hs).linked _ _ hnode (by decide) rfl

end

end Namespace

end CloudNfs
