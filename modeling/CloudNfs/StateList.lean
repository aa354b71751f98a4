import CloudNfs.DoublyLinked
import CloudNfs.Nfs4State
import CloudNfs.Prealloc
import CloudNfs.Run

/-!
# The list of states of a file (`Cache_inode/cache_inode_state.c`)

The states of a file with their pointers. `cache_inode_add_state` walks to the end of the list,
`cache_inode_del_state` and `cache_inode_del_state_by_key` relink the neighbours and the head.
States come from the pool of the client, a worker thread, and go back to the pool of the client
that deletes them.

Adding a state can fail late. On a file with states the new state is linked *before* its stateid is
built, and on any file before it goes into `ht_state_id`: a failure there leaves the state on the
list.

* `StateStore`, `cacheInodeAddState`, `cacheInodeDelState`, … — the code.
* `stateLists_iff_addsWhole` — this holds throughout a run exactly when no state fails late.
-/

namespace CloudNfs.Nfs4.Pointers

open Function (update update_self update_of_ne)

open DoublyLinked Prealloc

/-! ## Data -/

/-- `state_type`, with the data of the types that are compared. -/
inductive TypedState where
  | none
  /-- `CACHE_INODE_STATE_SHARE` and `CACHE_INODE_STATE_LOCK` -/
  | data (data : StateData)
  | deleg
  | layout
  deriving DecidableEq

/-- `cache_inode_state_t`. -/
structure StateNode where
  typed : TypedState
  /-- the key in `ht_state_id` -/
  stateidOther : StateidOther
  powner : OwnerName
  seqid : UInt32
  /-- the file, `NULL` for a state that is not used -/
  pentry : Option ℕ
  next : Option ℕ
  prev : Option ℕ

/-- The states, their lists and their table. -/
structure StateStore where
  mem : ℕ → StateNode
  /-- `object.file.pstate_head` of each file -/
  head : ℕ → Option ℕ
  /-- `object.file.pstate_tail` of each file -/
  tail : ℕ → Option ℕ
  /-- `ht_state_id` -/
  stateIds : StateidOther → Option ℕ
  /-- `pool_state_v4` of each client -/
  pools : Pools

/-- `cache_inode_status_t`. -/
inductive CacheInodeStatus where
  | success
  | mallocError
  | stateConflict
  | stateError
  | notFound
  deriving DecidableEq

/-- What `cache_inode_add_state` meets outside the states. -/
structure AddEnv where
  /-- the allocation of new states, `Mem_Alloc` -/
  alloc : Bool
  /-- `GetPreferedPool` of `nb_pre_state_v4`, how many states are allocated at once; none when
  `nb_pre_state_v4` is `0` -/
  preferedPool : ℕ
  /-- the result of `nfs4_BuildStateId_Other`, `none` when it fails -/
  other : Option StateidOther
  /-- the allocations in `nfs4_State_Set` -/
  stored : Bool
  deriving DecidableEq

namespace StateStore

def modify (s : StateStore) (p : ℕ) (f : StateNode → StateNode) : StateStore :=
  { s with mem := update s.mem p (f (s.mem p)) }

/-- Write a state through a pointer that may be `NULL`. -/
def modify? (s : StateStore) (p : Option ℕ) (f : StateNode → StateNode) : StateStore :=
  match p with
  | some p => s.modify p f
  | none => s

/-- `GET_PREALLOC` of a state from the pool of a client. -/
def getPrealloc (s : StateStore) (client : ℕ) (env : AddEnv) : Option (ℕ × StateStore) :=
  match s.pools.get client env.preferedPool env.alloc with
  | none => none
  | some (p, pools) => some (p, { s with pools := pools })

/-- `RELEASE_PREALLOC`. The pool is linked through the pointer to the next state. -/
def releasePrealloc (s : StateStore) (client p : ℕ) : StateStore :=
  { s.modify p fun st => { st with next := (s.pools.pool client).head? } with
    pools := s.pools.release client p }

end StateStore

def cacheInodeStateConflict (pstate candidate : TypedState) : Bool :=
  match candidate with
  | .none => false
  | .data c =>
    match pstate with
    | .data d => Nfs4.cacheInodeStateConflict d c
    | _ => false
  | .layout => false
  | .deleg => true

/-- The loop of `cache_inode_add_state` over the states of the file: whether it finds a conflict,
and the last state it has seen. -/
def browse (mem : ℕ → StateNode) (candidate : TypedState) :
    ℕ → Option ℕ → Option ℕ → Option (Bool × Option ℕ)
  | 0, _, _ => none
  | _ + 1, piterSaved, none => some (false, piterSaved)
  | n + 1, piterSaved, some p =>
    if cacheInodeStateConflict (mem p).typed candidate then some (true, piterSaved)
    else browse mem candidate n (some p) (mem p).next

/-- The arguments of `cache_inode_add_state`. -/
structure AddArgs where
  pentry : ℕ
  typed : TypedState
  powner : OwnerName
  client : ℕ
  deriving DecidableEq

def AddArgs.fill (args : AddArgs) (other : StateidOther) (st : StateNode) : StateNode :=
  { st with
    typed := args.typed
    stateidOther := other
    powner := args.powner
    seqid := 0
    pentry := some args.pentry }

/-- `nfs4_State_Set`, the last call of `cache_inode_add_state`. -/
def nfs4StateSet (s : StateStore) (other : StateidOther) (p : ℕ) (env : AddEnv) :
    StateStore × CacheInodeStatus × Option ℕ :=
  if env.stored then
    ({ s with stateIds := update s.stateIds other (some p) }, .success, some p)
  else (s, .stateError, none)

/-- `cache_inode_add_state`: the states after it, its status and the new state; `none` when the walk
over the states does not end. -/
def cacheInodeAddState (s : StateStore) (args : AddArgs) (env : AddEnv) :
    Option (StateStore × CacheInodeStatus × Option ℕ) :=
  match s.getPrealloc args.client env with
  | none => some (s, .mallocError, none)
  | some (p, s) =>
    match s.head args.pentry with
    | none =>
      let s := s.modify p fun st => { st with next := none, prev := none }
      match env.other with
      | none => some (s, .stateError, none)
      | some other =>
        let s := s.modify p (args.fill other)
        let s := { s with head := update s.head args.pentry (some p) }
        some (nfs4StateSet s other p env)
    | some head => do
      let (conflictFound, piterSaved) ← browse s.mem args.typed (s.pools.fresh + 1) none (some head)
      if conflictFound then some (s, .stateConflict, none)
      else
        -- linked before anything else can fail
        let s := s.modify p fun st => { st with next := none, prev := piterSaved }
        let s := s.modify? piterSaved fun st => { st with next := some p }
        match env.other with
        | none => some (s, .stateError, none)
        | some other =>
          let s := s.modify p (args.fill other)
          let s := { s with tail := update s.tail args.pentry (some p) }
          some (nfs4StateSet s other p env)

/-- The part of the two deletions that relinks the list. -/
def unlink (s : StateStore) (p file : ℕ) : StateStore :=
  let s := if s.head file = some p then
    { s with head := update s.head file (s.mem p).next } else s
  let s := s.modify? (s.mem p).next fun st => { st with prev := (s.mem p).prev }
  s.modify? (s.mem p).prev fun st => { st with next := (s.mem p).next }

def nfs4StateDel (s : StateStore) (other : StateidOther) : Option StateStore :=
  match s.stateIds other with
  | some _ => some { s with stateIds := update s.stateIds other none }
  | none => none

/-- The end of the two deletions: out of the table, reset, and back to the pool. -/
def cleanState (s : StateStore) (client p : ℕ) : StateStore × CacheInodeStatus :=
  match nfs4StateDel s (s.mem p).stateidOther with
  | none => (s, .stateError)
  | some s =>
    let s := s.modify p fun st =>
      { st with stateidOther := ⟨0, 0, 0⟩, typed := .none, next := none, prev := none,
                pentry := none }
    (s.releasePrealloc client p, .success)

/-- `cache_inode_del_state_by_key`; `none` when it follows a pointer that is `NULL`. -/
def cacheInodeDelStateByKey (s : StateStore) (client : ℕ) (other : StateidOther) :
    Option (StateStore × CacheInodeStatus) :=
  match s.stateIds other with
  | none => some (s, .notFound)
  | some p =>
    match (s.mem p).pentry with
    | none => none
    | some file =>
      let s := unlink s p file
      if (s.mem p).stateidOther = other then some (cleanState s client p) else some (s, .success)

/-- `cache_inode_del_state`; `none` when it follows a pointer that is `NULL`. -/
def cacheInodeDelState (s : StateStore) (client p : ℕ) : Option (StateStore × CacheInodeStatus) :=
  match s.stateIds (s.mem p).stateidOther with
  | none => some (s, .notFound)
  | some _ =>
    match (s.mem p).pentry with
    | none => none
    | some file => some (cleanState (unlink s p file) client p)

/-! ## Runs -/

/-- The states, and those that were added to each file and not deleted. -/
structure Tracked where
  store : StateStore
  added : ℕ → List ℕ

inductive StateOp where
  /-- `cache_inode_add_state` -/
  | add (args : AddArgs) (env : AddEnv)
  /-- `cache_inode_del_state` -/
  | del (client p : ℕ)
  /-- `cache_inode_del_state_by_key` -/
  | delByKey (client : ℕ) (other : StateidOther)

/-- A call, and what it adds or deletes according to its status. The callers of
`cache_inode_del_state` pass a state that was added. -/
def step (t : Tracked) : StateOp → Option Tracked
  | .add args env => do
    let (s, status, p) ← cacheInodeAddState t.store args env
    match status, p with
    | .success, some p =>
      some ⟨s, update t.added args.pentry (t.added args.pentry ++ [p])⟩
    | _, _ => some ⟨s, t.added⟩
  | .del client p =>
    match (t.store.mem p).pentry with
    | none => none
    | some file =>
      if p ∈ t.added file then do
        let (s, status) ← cacheInodeDelState t.store client p
        if status = .success then some ⟨s, update t.added file ((t.added file).erase p)⟩
        else some ⟨s, t.added⟩
      else none
  | .delByKey client other => do
    let (s, status) ← cacheInodeDelStateByKey t.store client other
    match status, t.store.stateIds other with
    | .success, some p =>
      match (t.store.mem p).pentry with
      | some file => some ⟨s, update t.added file ((t.added file).erase p)⟩
      | none => some ⟨s, t.added⟩
    | _, _ => some ⟨s, t.added⟩

/-- A server that has just started; memory has any contents. -/
def init (mem : ℕ → StateNode) : Tracked where
  store :=
    { mem := mem, head := fun _ => none, tail := fun _ => none, stateIds := fun _ => none,
      pools := .empty }
  added := fun _ => []

/-! ## The property -/

def links (mem : ℕ → StateNode) : Links ℕ := ⟨fun p => (mem p).next, fun p => (mem p).prev⟩

/-- The lists are linked both ways, have the states that were added and not deleted, each once, and
they are those that `nfs4_State_Get_Pointer` leads to. -/
structure StateLists (t : Tracked) : Prop where
  list : ∀ f, IsList (links t.store.mem) (t.store.head f) (t.added f)
  /-- the two pointers are inverse to each other -/
  inverse : ∀ f, ∀ p ∈ t.added f, ∀ q ∈ t.added f,
    (t.store.mem p).next = some q ↔ (t.store.mem q).prev = some p
  nodup : ∀ f, (t.added f).Nodup
  pentry : ∀ f, ∀ p ∈ t.added f, (t.store.mem p).pentry = some f
  /-- a state is on a list exactly when it is found under its stateid -/
  found : ∀ p, (∃ f, p ∈ t.added f) ↔ t.store.stateIds (t.store.mem p).stateidOther = some p

/-- The stateid that is built is not that of a state. -/
def DistinctStateid (t : Tracked) : StateOp → Tracked → Prop
  | .add _ env, _ => ∀ other, env.other = some other → t.store.stateIds other = none
  | _, _ => True

/-- A state is not linked, or it also gets its stateid and its place in the table: there is no
memory for it, it conflicts, it is the first of its file and its stateid cannot be built, or
everything succeeds. -/
def AddsWhole (t : Tracked) : StateOp → Tracked → Prop
  | .add args env, _ => (t.store.getPrealloc args.client env).isNone = true ∨
    (t.store.head args.pentry ≠ none ∧ args.typed = .deleg) ∨
    (t.store.head args.pentry = none ∧ env.other = none) ∨
    (env.other ≠ none ∧ env.stored = true)
  | _, _ => True

/-- What else holds between the calls: the table leads to states with the key, and the states of
the pools are all different, allocated and on no list. -/
structure Inv (t : Tracked) : Prop where
  lists : StateLists t
  key : ∀ k p, t.store.stateIds k = some p → (t.store.mem p).stateidOther = k
  pools : Apart t.store.pools fun p => ∃ f, p ∈ t.added f

/-- An allocated state that is in no pool and on no list. -/
structure Unused (t : Tracked) (p : ℕ) : Prop where
  spare : Spare t.store.pools p
  unlisted : ∀ f, p ∉ t.added f

theorem inv_init (mem : ℕ → StateNode) : Inv (init mem) := by
  have hlists : StateLists (init mem) := by
    refine ⟨fun f => isList_nil.mpr rfl, ?_, fun f => List.nodup_nil, ?_, fun p => ?_⟩
    · intro f p hp
      cases hp
    · intro f p hp
      cases hp
    · refine iff_of_false ?_ nofun
      rintro ⟨f, hf⟩
      cases hf
  refine ⟨hlists, nofun, apart_empty ?_⟩
  rintro p ⟨f, hf⟩
  cases hf

section

variable {t : Tracked} {s s' : StateStore} {p q f file client : ℕ} {g : StateNode → StateNode}
  {o : Option ℕ} {args : AddArgs} {env : AddEnv}

theorem mem_modify : (s.modify p g).mem q = if q = p then g (s.mem q) else s.mem q := by
  by_cases hq : q = p
  · subst hq
    simp [StateStore.modify]
  · simp [StateStore.modify, hq]

theorem mem_modify? : (s.modify? o g).mem q = if o = some q then g (s.mem q) else s.mem q := by
  cases o with
  | none => simp [StateStore.modify?]
  | some r =>
    rw [StateStore.modify?, mem_modify]
    simp only [Option.some.injEq, eq_comm]

@[simp] theorem head_modify? : (s.modify? o g).head = s.head := by
  cases o <;> rfl

@[simp] theorem stateIds_modify? : (s.modify? o g).stateIds = s.stateIds := by
  cases o <;> rfl

@[simp] theorem pools_modify? : (s.modify? o g).pools = s.pools := by
  cases o <;> rfl

theorem Inv.getPrealloc (h : Inv t) (hget : t.store.getPrealloc client env = some (p, s)) :
    Inv ⟨s, t.added⟩ ∧ Unused ⟨s, t.added⟩ p ∧ s.head = t.store.head ∧
      s.stateIds = t.store.stateIds := by
  rw [StateStore.getPrealloc] at hget
  split at hget
  next => cases hget
  rename_i q pools hpools
  cases hget
  obtain ⟨hapart, hspare, hunused⟩ := h.pools.get hpools
  refine ⟨⟨⟨h.lists.list, h.lists.inverse, h.lists.nodup, h.lists.pentry, h.lists.found⟩, h.key,
    hapart⟩, ⟨hspare, fun f hf => hunused ⟨f, hf⟩⟩, rfl, rfl⟩

/-! ## A state more -/

variable {l : List ℕ} {other : StateidOther}

theorem browse_eq {mem : ℕ → StateNode} {candidate : TypedState} {before first last : Option ℕ}
    {n : ℕ} (hc : candidate ≠ .deleg) (h : Segment (links mem) before first l last none)
    (hn : l.length < n) : browse mem candidate n before first = some (false, last) := by
  -- only a delegation conflicts: the case of a share falls through to that of a lock
  have hconflict : ∀ st, cacheInodeStateConflict st candidate = false := by
    intro st
    cases candidate with
    | none => rfl
    | data c =>
      cases st with
      | data d => exact cacheInodeStateConflict_eq_false d c
      | none => rfl
      | deleg => rfl
      | layout => rfl
    | deleg => exact absurd rfl hc
    | layout => rfl
  induction l generalizing before first n with
  | nil =>
    obtain ⟨rfl, rfl⟩ := h
    cases n with
    | zero => cases hn
    | succ n => rfl
  | cons a l ih =>
    obtain ⟨rfl, -, h⟩ := h
    cases n with
    | zero => cases hn
    | succ n =>
      rw [browse, hconflict, if_neg (by decide)]
      exact ih h (Nat.lt_of_succ_lt_succ hn)

structure Linked (s s' : StateStore) (l : List ℕ) (file p : ℕ) : Prop where
  head : s'.head = update s.head file (if l = [] then some p else s.head file)
  new : (s'.mem p).next = none ∧ (s'.mem p).prev = l.getLast?
  old : ∀ q, q ≠ p → s'.mem q =
    if l.getLast? = some q then { s.mem q with next := some p } else s.mem q

theorem Linked.isList (hl : Linked s s' (t.added file) file p) (h : Inv ⟨s, t.added⟩)
    (hp : p ∉ t.added file) : IsList (links s'.mem) (s'.head file) (t.added file ++ [p]) := by
  rw [hl.head, update_self]
  refine (h.lists.list file).append (h.lists.nodup file) hl.new fun b hb => ?_
  have hbp : b ≠ p := fun hbp => hp (hbp ▸ hb)
  dsimp only [links]
  rw [hl.old b hbp]
  by_cases hlast : (t.added file).getLast? = some b
  · rw [if_pos hlast, hlast, next_setNext, update_self]
    exact ⟨rfl, rfl⟩
  · rw [if_neg hlast, next_setNext_of_ne hlast]
    exact ⟨rfl, rfl⟩

theorem Linked.isList_of_ne (hl : Linked s s' (t.added file) file p) (h : Inv ⟨s, t.added⟩)
    (hp : p ∉ t.added f) (hne : f ≠ file) : IsList (links s'.mem) (s'.head f) (t.added f) := by
  rw [hl.head, update_of_ne hne]
  refine (h.lists.list f).frame fun b hb => ?_
  have hbp : b ≠ p := fun hbp => hp (hbp ▸ hb)
  have hlast : (t.added file).getLast? ≠ some b := by
    intro hlast
    have hfile := h.lists.pentry file b (List.mem_of_getLast? hlast)
    exact hne (Option.some.inj ((h.lists.pentry f b hb).symm.trans hfile))
  dsimp only [links]
  rw [hl.old b hbp, if_neg hlast]
  exact ⟨rfl, rfl⟩

theorem Linked.not_stateLists (hl : Linked s s' (t.added file) file p) (h : Inv ⟨s, t.added⟩)
    (hp : p ∉ t.added file) : ¬ StateLists ⟨s', t.added⟩ := by
  intro hlists
  have := (hl.isList h hp).unique (hlists.list file)
  simp at this

structure Added (s s' : StateStore) (l : List ℕ) (file p : ℕ) (other : StateidOther) : Prop where
  linked : Linked s s' l file p
  pentry : (s'.mem p).pentry = some file
  stateidOther : (s'.mem p).stateidOther = other
  ids : s'.stateIds = update s.stateIds other (some p)
  pools : s'.pools = s.pools

section

variable {other : StateidOther}

theorem Added.old (ha : Added s s' (t.added file) file p other) (hq : q ≠ p) :
    (s'.mem q).pentry = (s.mem q).pentry ∧ (s'.mem q).stateidOther = (s.mem q).stateidOther := by
  rw [ha.linked.old q hq]
  split
  · exact ⟨rfl, rfl⟩
  · exact ⟨rfl, rfl⟩

theorem mem_added_update {added : ℕ → List ℕ} :
    q ∈ update added file (added file ++ [p]) f ↔ q ∈ added f ∨ f = file ∧ q = p := by
  by_cases hf : f = file
  · subst hf
    rw [update_self, List.mem_append, List.mem_singleton]
    simp
  · rw [update_of_ne hf]
    simp [hf]

theorem Added.stateLists (ha : Added s s' (t.added file) file p other) (h : Inv ⟨s, t.added⟩)
    (hp : Unused ⟨s, t.added⟩ p) (hother : s.stateIds other = none) :
    StateLists ⟨s', update t.added file (t.added file ++ [p])⟩ := by
  have hlist : ∀ f, IsList (links s'.mem) (s'.head f)
      (update t.added file (t.added file ++ [p]) f) := by
    intro f
    by_cases hf : f = file
    · subst hf
      rw [update_self]
      exact ha.linked.isList h (hp.unlisted f)
    · rw [update_of_ne hf]
      exact ha.linked.isList_of_ne h (hp.unlisted f) hf
  have hnodup : ∀ f, (update t.added file (t.added file ++ [p]) f).Nodup := by
    intro f
    by_cases hf : f = file
    · subst hf
      rw [update_self, List.nodup_append']
      refine ⟨h.lists.nodup f, List.nodup_singleton p, ?_⟩
      rw [List.disjoint_singleton]
      exact hp.unlisted f
    · rw [update_of_ne hf]
      exact h.lists.nodup f
  refine ⟨hlist, fun f a ha b hb => (hlist f).next_iff_prev (hnodup f) ha hb, hnodup, ?_, ?_⟩
  · intro f q hq
    rcases mem_added_update.mp hq with hq | ⟨rfl, rfl⟩
    · have hqp : q ≠ p := fun hqp => hp.unlisted f (hqp ▸ hq)
      rw [(ha.old hqp).1]
      exact h.lists.pentry f q hq
    · exact ha.pentry
  · intro q
    simp only [mem_added_update, ha.ids]
    by_cases hqp : q = p
    · subst hqp
      rw [ha.stateidOther, update_self]
      exact iff_of_true ⟨file, .inr ⟨rfl, rfl⟩⟩ rfl
    rw [(ha.old hqp).2]
    simp only [hqp, and_false, or_false]
    rw [h.lists.found q]
    by_cases hk : (s.mem q).stateidOther = other
    · rw [hk, update_self, hother]
      exact iff_of_false nofun fun hpq => hqp (Option.some.inj hpq).symm
    · rw [update_of_ne hk]

theorem Added.inv (ha : Added s s' (t.added file) file p other) (h : Inv ⟨s, t.added⟩)
    (hp : Unused ⟨s, t.added⟩ p) (hother : s.stateIds other = none) :
    Inv ⟨s', update t.added file (t.added file ++ [p])⟩ := by
  refine ⟨ha.stateLists h hp hother, fun k q hk => ?_, ?_⟩
  · dsimp only at hk ⊢
    rw [ha.ids] at hk
    by_cases hko : k = other
    · subst hko
      rw [update_self] at hk
      cases hk
      exact ha.stateidOther
    rw [update_of_ne hko] at hk
    -- what the table leads to is on a list, so it is not the new state
    have hkey := h.key k q hk
    have hqp : q ≠ p := by
      intro hqp
      obtain ⟨f, hf⟩ := (h.lists.found q).mpr (hkey.symm ▸ hk)
      exact hp.unlisted f (hqp ▸ hf)
    rw [(ha.old hqp).2]
    exact hkey
  · dsimp only
    rw [ha.pools]
    refine h.pools.use hp.spare fun q hq => ?_
    obtain ⟨f, hf⟩ := hq
    rcases mem_added_update.mp hf with hf | ⟨-, rfl⟩
    · exact .inl ⟨f, hf⟩
    · exact .inr rfl

end

theorem Inv.modify_spare (h : Inv ⟨s, t.added⟩) (hp : Unused ⟨s, t.added⟩ p)
    (hg : (g (s.mem p)).stateidOther = (s.mem p).stateidOther) : Inv ⟨s.modify p g, t.added⟩ := by
  have hmem : ∀ f, ∀ q ∈ t.added f, (s.modify p g).mem q = s.mem q := by
    intro f q hq
    have hqp : q ≠ p := fun hqp => hp.unlisted f (hqp ▸ hq)
    rw [mem_modify, if_neg hqp]
  have hkey : ∀ q, ((s.modify p g).mem q).stateidOther = (s.mem q).stateidOther := by
    intro q
    rw [mem_modify]
    split
    next hqp =>
      subst hqp
      exact hg
    next => rfl
  have hlist : ∀ f, IsList (links (s.modify p g).mem) ((s.modify p g).head f) (t.added f) := by
    intro f
    refine (h.lists.list f).frame fun q hq => ?_
    simp only [links, hmem f q hq, and_self]
  refine ⟨⟨hlist, fun f a ha b hb => (hlist f).next_iff_prev (h.lists.nodup f) ha hb,
    h.lists.nodup, ?_, ?_⟩, ?_, h.pools⟩
  · intro f q hq
    dsimp only
    rw [hmem f q hq]
    exact h.lists.pentry f q hq
  · intro q
    dsimp only
    rw [hkey]
    exact h.lists.found q
  · intro k q hk
    dsimp only
    rw [hkey]
    exact h.key k q hk

/-- What `cache_inode_add_state` can do. -/
inductive AddCases (t : Tracked) (args : AddArgs) (env : AddEnv) :
    StateStore → CacheInodeStatus → Option ℕ → Prop where
  | noMemory : (t.store.getPrealloc args.client env).isNone = true →
    AddCases t args env t.store .mallocError none
  | conflict {p : ℕ} {s : StateStore} : t.store.getPrealloc args.client env = some (p, s) →
    t.store.head args.pentry ≠ none → args.typed = .deleg →
    AddCases t args env s .stateConflict none
  | noStateid {p : ℕ} {s : StateStore} : t.store.getPrealloc args.client env = some (p, s) →
    t.store.head args.pentry = none → env.other = none →
    AddCases t args env (s.modify p fun st => { st with next := none, prev := none })
      .stateError none
  | late {p : ℕ} {s s' : StateStore} : t.store.getPrealloc args.client env = some (p, s) →
    Linked s s' (t.added args.pentry) args.pentry p →
    (t.store.head args.pentry ≠ none → args.typed ≠ .deleg) →
    (t.store.head args.pentry = none → env.other ≠ none) →
    (env.other ≠ none → env.stored = false) → AddCases t args env s' .stateError none
  | whole {p : ℕ} {s s' : StateStore} {other : StateidOther} :
    t.store.getPrealloc args.client env = some (p, s) → env.other = some other →
    env.stored = true → Added s s' (t.added args.pentry) args.pentry p other →
    AddCases t args env s' .success (some p)

/-- The list of a file is a list, of states that are in no pool. -/
structure FileList (s : StateStore) (file : ℕ) (l : List ℕ) : Prop where
  list : IsList (links s.mem) (s.head file) l
  nodup : l.Nodup
  apart : Apart s.pools (· ∈ l)

theorem Inv.fileList (h : Inv t) (file : ℕ) : FileList t.store file (t.added file) :=
  ⟨h.lists.list file, h.lists.nodup file, h.pools.mono fun _ hp => ⟨file, hp⟩⟩

theorem FileList.length_le (h : FileList s file l) : l.length ≤ s.pools.fresh := by
  have hsub : l ⊆ List.range s.pools.fresh := by
    intro p hp
    exact List.mem_range.mpr (h.apart.usedBelow p hp)
  have := List.Subperm.length_le (List.subperm_of_subset h.nodup hsub)
  rwa [List.length_range] at this

/-- What `GET_PREALLOC` leaves alone. -/
structure SameBut (s s' : StateStore) : Prop where
  mem : s'.mem = s.mem
  head : s'.head = s.head
  tail : s'.tail = s.tail
  stateIds : s'.stateIds = s.stateIds

theorem getPrealloc_frame (hget : s.getPrealloc client env = some (p, s')) : SameBut s s' := by
  rw [StateStore.getPrealloc] at hget
  split at hget
  next => cases hget
  next =>
    cases hget
    exact ⟨rfl, rfl, rfl, rfl⟩

theorem FileList.getPrealloc (h : FileList s file l)
    (hget : s.getPrealloc client env = some (p, s')) : FileList s' file l ∧ p ∉ l := by
  rw [StateStore.getPrealloc] at hget
  split at hget
  next => cases hget
  rename_i q pools hpools
  cases hget
  obtain ⟨hapart, -, hunused⟩ := h.apart.get hpools
  exact ⟨⟨h.list, h.nodup, hapart⟩, hunused⟩

theorem addCases_nfs4StateSet {s1 : StateStore} {status : CacheInodeStatus} {r : Option ℕ}
    (hget : t.store.getPrealloc args.client env = some (p, s)) (hother : env.other = some other)
    (hdeleg : t.store.head args.pentry ≠ none → args.typed ≠ .deleg)
    (hlinked : Linked s s1 (t.added args.pentry) args.pentry p)
    (hfill : (s1.mem p).pentry = some args.pentry ∧ (s1.mem p).stateidOther = other)
    (hrest : s1.stateIds = s.stateIds ∧ s1.pools = s.pools)
    (hset : nfs4StateSet s1 other p env = (s', status, r)) : AddCases t args env s' status r := by
  rw [nfs4StateSet] at hset
  split at hset
  next hstored =>
    cases hset
    refine .whole hget hother hstored
      ⟨⟨hlinked.head, hlinked.new, hlinked.old⟩, hfill.1, hfill.2, ?_,
      hrest.2⟩
    dsimp only
    rw [hrest.1]
  next hstored =>
    cases hset
    refine .late hget hlinked hdeleg
      (fun _ hnone => ?_) fun _ => Bool.eq_false_of_not_eq_true hstored
    cases hother.symm.trans hnone

theorem linked_first (hnil : t.added args.pentry = []) :
    Linked s { (s.modify p fun st => { st with next := none, prev := none }).modify p
        (args.fill other) with head := update s.head args.pentry (some p) }
      (t.added args.pentry) args.pentry p := by
  refine ⟨?_, ?_, fun q hq => ?_⟩
  · rw [if_pos hnil]
  · simp [mem_modify, AddArgs.fill, hnil]
  · simp [mem_modify, hq, hnil]

theorem linked_last (hlist : t.added args.pentry ≠ []) (hp : p ∉ t.added args.pentry) :
    Linked s ((s.modify p fun st =>
        { st with next := none, prev := (t.added args.pentry).getLast? }).modify?
          (t.added args.pentry).getLast? fun st => { st with next := some p })
      (t.added args.pentry) args.pentry p := by
  have hlast : (t.added args.pentry).getLast? ≠ some p := fun h => hp (List.mem_of_getLast? h)
  refine ⟨?_, ?_, fun q hq => ?_⟩
  · rw [if_neg hlist, Function.update_eq_self, head_modify?]
    rfl
  · rw [mem_modify?, if_neg hlast, mem_modify, if_pos rfl]
    exact ⟨rfl, rfl⟩
  · rw [mem_modify?, mem_modify, if_neg hq]

theorem Linked.fill {tail : ℕ → Option ℕ} (hl : Linked s s' l args.pentry p) :
    Linked s { s'.modify p (args.fill other) with tail := tail } l args.pentry p := by
  refine ⟨hl.head, ?_, fun q hq => ?_⟩
  · dsimp only
    rw [mem_modify, if_pos rfl]
    exact hl.new
  · dsimp only
    rw [mem_modify, if_neg hq]
    exact hl.old q hq

theorem FileList.addCases {status : CacheInodeStatus} {r : Option ℕ}
    (h : FileList t.store args.pentry (t.added args.pentry))
    (hadd : cacheInodeAddState t.store args env = some (s', status, r)) :
    AddCases t args env s' status r := by
  rw [cacheInodeAddState] at hadd
  split at hadd
  next hget =>
    cases hadd
    exact .noMemory (by rw [hget]; rfl)
  rename_i p s hget
  obtain ⟨hfile, hunlisted⟩ := h.getPrealloc hget
  have hhead := (getPrealloc_frame hget).head
  have hhead' := hfile.list.head
  split at hadd
  next hnone =>
    have hnil : t.added args.pentry = [] := by
      rw [hnone] at hhead'
      exact List.head?_eq_none_iff.mp hhead'.symm
    rw [hhead] at hnone
    split at hadd
    next hother =>
      cases hadd
      exact .noStateid hget hnone hother
    rename_i other hother
    refine addCases_nfs4StateSet hget hother (fun hne => absurd hnone hne)
      (linked_first hnil) ⟨?_, ?_⟩ ⟨rfl, rfl⟩ (Option.some.inj hadd)
    · simp [mem_modify, AddArgs.fill]
    · simp [mem_modify, AddArgs.fill]
  next head hsome =>
    have hne : t.added args.pentry ≠ [] := by
      intro hnil
      rw [hnil, hsome] at hhead'
      cases hhead'
    have hstates : t.store.head args.pentry ≠ none := by
      rw [← hhead, hsome]
      nofun
    by_cases hdeleg : args.typed = .deleg
    · -- the first state is found to conflict
      rw [browse, hdeleg, cacheInodeStateConflict, if_pos rfl] at hadd
      cases hadd
      exact .conflict hget hstates hdeleg
    rw [← hsome, browse_eq hdeleg hfile.list (Nat.lt_succ_of_le hfile.length_le)] at hadd
    have hlinked := linked_last (s := s) hne hunlisted
    dsimp only [Option.bind_eq_bind, Option.bind_some] at hadd
    rw [if_neg (by decide)] at hadd
    split at hadd
    next hother =>
      cases hadd
      exact .late hget hlinked (fun _ => hdeleg) (fun hnone => absurd hnone hstates)
        fun hne => absurd hother hne
    next other hother =>
      refine addCases_nfs4StateSet hget hother (fun _ => hdeleg) hlinked.fill ⟨?_, ?_⟩ ?_
        (Option.some.inj hadd)
      · simp [mem_modify, AddArgs.fill]
      · simp [mem_modify, AddArgs.fill]
      · exact ⟨stateIds_modify?, pools_modify?⟩

/-! ## A state less -/

structure Deleted (s s' : StateStore) (file client p : ℕ) : Prop where
  head : s'.head =
    update s.head file (if s.head file = some p then (s.mem p).next else s.head file)
  next : ∀ q, q ≠ p → (s'.mem q).next =
    if (s.mem p).prev = some q then (s.mem p).next else (s.mem q).next
  prev : ∀ q, q ≠ p → (s'.mem q).prev =
    if (s.mem p).next = some q then (s.mem p).prev else (s.mem q).prev
  old : ∀ q, q ≠ p → (s'.mem q).pentry = (s.mem q).pentry ∧
    (s'.mem q).stateidOther = (s.mem q).stateidOther
  ids : s'.stateIds = update s.stateIds (s.mem p).stateidOther none
  pools : s'.pools = s.pools.release client p

theorem mem_added_erase (h : StateLists t) (hp : p ∈ t.added file) :
    q ∈ update t.added file ((t.added file).erase p) f ↔ q ∈ t.added f ∧ q ≠ p := by
  by_cases hf : f = file
  · subst hf
    rw [update_self, (h.nodup f).mem_erase_iff, and_comm]
  rw [update_of_ne hf]
  refine ⟨fun hq => ⟨hq, ?_⟩, And.left⟩
  rintro rfl
  exact hf (Option.some.inj ((h.pentry f q hq).symm.trans (h.pentry file q hp)))

theorem Deleted.isList (hd : Deleted t.store s' file client p) (h : Inv t) (hp : p ∈ t.added file) :
    IsList (links s'.mem) (s'.head file) ((t.added file).erase p) := by
  obtain ⟨l1, l2, hp1, hl, herase⟩ := List.exists_erase_eq hp
  have hlist := h.lists.list file
  have hnodup := h.lists.nodup file
  rw [hl] at hlist hnodup
  rw [herase, hd.head, update_self]
  refine hlist.unlink hnodup fun b hb => ?_
  have hbp : b ≠ p := by
    rintro rfl
    have hmem : b ∈ (t.added file).erase b := herase ▸ hb
    exact ((h.lists.nodup file).mem_erase_iff.mp hmem).1 rfl
  dsimp only [links]
  rw [hd.next b hbp, hd.prev b hbp]
  refine ⟨?_, ?_⟩
  · split
    next hprev => rw [hprev, next_setNext, update_self]
    next hprev => rw [next_setNext_of_ne hprev]
  · split
    next hnext => rw [hnext, prev_setPrev, update_self]
    next hnext => rw [prev_setPrev_of_ne hnext]

theorem Deleted.isList_of_ne (hd : Deleted t.store s' file client p) (h : Inv t)
    (hp : p ∈ t.added file) (hne : f ≠ file) : IsList (links s'.mem) (s'.head f) (t.added f) := by
  rw [hd.head, update_of_ne hne]
  refine (h.lists.list f).frame fun b hb => ?_
  -- the states of two files are different, so the neighbours of the state are not on this list
  have hfile : b ∉ t.added file := by
    intro hb'
    exact hne (Option.some.inj ((h.lists.pentry f b hb).symm.trans (h.lists.pentry file b hb')))
  have hbp : b ≠ p := fun hbp => hfile (hbp ▸ hp)
  have hprev : (t.store.mem p).prev ≠ some b := by
    intro hprev
    rcases (h.lists.list file).prev_mem hp with hnone | ⟨c, hc, hcp⟩
    · cases hprev.symm.trans hnone
    · exact hfile (Option.some.inj (hcp.symm.trans hprev) ▸ hc)
  have hnext : (t.store.mem p).next ≠ some b := by
    intro hnext
    rcases (h.lists.list file).next_mem hp with hnone | ⟨c, hc, hcp⟩
    · cases hnext.symm.trans hnone
    · exact hfile (Option.some.inj (hcp.symm.trans hnext) ▸ List.mem_of_mem_tail hc)
  dsimp only [links]
  rw [hd.next b hbp, hd.prev b hbp, if_neg hprev, if_neg hnext]
  exact ⟨rfl, rfl⟩

theorem Deleted.stateIds_eq (hd : Deleted t.store s' file client p) (h : Inv t)
    (hp : p ∈ t.added file) {k : StateidOther} :
    s'.stateIds k = some q ↔ t.store.stateIds k = some q ∧ q ≠ p := by
  have hfound := (h.lists.found p).mp ⟨file, hp⟩
  rw [hd.ids]
  by_cases hk : k = (t.store.mem p).stateidOther
  · subst hk
    rw [update_self, hfound]
    refine iff_of_false nofun ?_
    rintro ⟨hpq, hqp⟩
    exact hqp (Option.some.inj hpq).symm
  · rw [update_of_ne hk]
    refine ⟨fun hq => ⟨hq, ?_⟩, And.left⟩
    rintro rfl
    exact hk (h.key k q hq).symm

theorem Deleted.stateLists (hd : Deleted t.store s' file client p) (h : Inv t)
    (hp : p ∈ t.added file) : StateLists ⟨s', update t.added file ((t.added file).erase p)⟩ := by
  have hlist : ∀ f, IsList (links s'.mem) (s'.head f)
      (update t.added file ((t.added file).erase p) f) := by
    intro f
    by_cases hf : f = file
    · subst hf
      rw [update_self]
      exact hd.isList h hp
    · rw [update_of_ne hf]
      exact hd.isList_of_ne h hp hf
  have hnodup : ∀ f, (update t.added file ((t.added file).erase p) f).Nodup := by
    intro f
    by_cases hf : f = file
    · subst hf
      rw [update_self]
      exact (h.lists.nodup f).erase p
    · rw [update_of_ne hf]
      exact h.lists.nodup f
  refine ⟨hlist, fun f a ha b hb => (hlist f).next_iff_prev (hnodup f) ha hb, hnodup, ?_, ?_⟩
  · intro f q hq
    obtain ⟨hq, hqp⟩ := (mem_added_erase h.lists hp).mp hq
    rw [(hd.old q hqp).1]
    exact h.lists.pentry f q hq
  · intro q
    dsimp only
    rw [hd.stateIds_eq h hp]
    simp only [mem_added_erase h.lists hp, exists_and_right]
    refine and_congr_left fun hqp => ?_
    rw [(hd.old q hqp).2]
    exact h.lists.found q

theorem Deleted.inv (hd : Deleted t.store s' file client p) (h : Inv t) (hp : p ∈ t.added file) :
    Inv ⟨s', update t.added file ((t.added file).erase p)⟩ := by
  refine ⟨hd.stateLists h hp, fun k q hk => ?_, ?_⟩
  · obtain ⟨hk, hqp⟩ := (hd.stateIds_eq h hp).mp hk
    exact (hd.old q hqp).2.trans (h.key k q hk)
  · dsimp only
    rw [hd.pools]
    refine h.pools.release ⟨file, hp⟩ fun q hq => ?_
    obtain ⟨f, hf⟩ := hq
    obtain ⟨hf, hqp⟩ := (mem_added_erase h.lists hp).mp hf
    exact ⟨⟨f, hf⟩, hqp⟩

theorem Inv.neighbours_ne (h : Inv t) (hp : p ∈ t.added file) :
    (t.store.mem p).next ≠ some p ∧ (t.store.mem p).prev ≠ some p := by
  obtain ⟨l1, l2, hl⟩ := List.append_of_mem hp
  have hlist := h.lists.list file
  have hnodup := h.lists.nodup file
  rw [hl] at hlist hnodup
  have hnot := (List.nodup_cons.mp (List.nodup_middle.mp hnodup)).1
  obtain ⟨hp1, hp2⟩ := not_or.mp fun hor => hnot (List.mem_append.mpr hor)
  have hneighbours := hlist.neighbours
  dsimp only [links] at hneighbours
  rw [hneighbours.1, hneighbours.2]
  exact ⟨fun h => hp2 (List.mem_of_head? h), fun h => hp1 (List.mem_of_getLast? h)⟩

theorem Inv.unlink (h : Inv t) (hp : p ∈ t.added file) :
    (unlink t.store p file).head = update t.store.head file
        (if t.store.head file = some p then (t.store.mem p).next else t.store.head file) ∧
      (∀ q, (unlink t.store p file).mem q =
        { t.store.mem q with
          next := if (t.store.mem p).prev = some q then (t.store.mem p).next
            else (t.store.mem q).next
          prev := if (t.store.mem p).next = some q then (t.store.mem p).prev
            else (t.store.mem q).prev }) ∧
      (unlink t.store p file).stateIds = t.store.stateIds ∧
      (unlink t.store p file).pools = t.store.pools := by
  obtain ⟨hnext, hprev⟩ := h.neighbours_ne hp
  rw [Pointers.unlink]
  -- the head, which is written first
  obtain ⟨s1, hs1, hhead, hmem, hids, hpools⟩ : ∃ s1, (if t.store.head file = some p then
        { t.store with head := update t.store.head file (t.store.mem p).next }
      else t.store) = s1 ∧
      s1.head = update t.store.head file
        (if t.store.head file = some p then (t.store.mem p).next else t.store.head file) ∧
      s1.mem = t.store.mem ∧ s1.stateIds = t.store.stateIds ∧ s1.pools = t.store.pools := by
    refine ⟨_, rfl, ?_⟩
    split
    · exact ⟨rfl, rfl, rfl, rfl⟩
    · exact ⟨(Function.update_eq_self ..).symm, rfl, rfl, rfl⟩
  rw [hs1]
  simp only [head_modify?, stateIds_modify?, pools_modify?]
  refine ⟨hhead, fun q => ?_, hids, hpools⟩
  simp only [mem_modify?, hmem]
  rw [if_neg hnext]
  by_cases hq : (t.store.mem p).next = some q
  · by_cases hq' : (t.store.mem p).prev = some q
    · simp only [if_pos hq, if_pos hq']
    · simp only [if_pos hq, if_neg hq']
  · by_cases hq' : (t.store.mem p).prev = some q
    · simp only [if_neg hq, if_pos hq']
    · simp only [if_neg hq, if_neg hq']

theorem Inv.deleted (h : Inv t) (hp : p ∈ t.added file) (client : ℕ) :
    ∃ s', cleanState (Pointers.unlink t.store p file) client p = (s', .success) ∧
      Deleted t.store s' file client p := by
  obtain ⟨hhead, hmem, hids, hpools⟩ := h.unlink hp
  have hfound := (h.lists.found p).mp ⟨file, hp⟩
  have hother : ((Pointers.unlink t.store p file).mem p).stateidOther =
      (t.store.mem p).stateidOther := by
    rw [hmem]
  rw [cleanState, nfs4StateDel, hother, hids, hfound]
  refine ⟨_, rfl, ?_⟩
  -- what is written last is the deleted state
  refine ⟨hhead, fun q hq => ?_, fun q hq => ?_, fun q hq => ?_, rfl, ?_⟩
  · simp [StateStore.releasePrealloc, mem_modify, hq, hmem]
  · simp [StateStore.releasePrealloc, mem_modify, hq, hmem]
  · simp [StateStore.releasePrealloc, mem_modify, hq, hmem]
  · rw [← hpools]
    rfl

/-! ## Every run -/

variable {t' : Tracked} {op : StateOp}

theorem Inv.cacheInodeDelState (h : Inv t) (hp : p ∈ t.added file) (client : ℕ) :
    ∃ s', Pointers.cacheInodeDelState t.store client p = some (s', .success) ∧
      Deleted t.store s' file client p := by
  obtain ⟨s', hs', hd⟩ := h.deleted hp client
  refine ⟨s', ?_, hd⟩
  rw [Pointers.cacheInodeDelState, (h.lists.found p).mp ⟨file, hp⟩, h.lists.pentry file p hp]
  exact congrArg some hs'

theorem Inv.cacheInodeDelStateByKey (h : Inv t) (hfound : t.store.stateIds other = some p)
    (client : ℕ) :
    ∃ file s', p ∈ t.added file ∧
      Pointers.cacheInodeDelStateByKey t.store client other = some (s', .success) ∧
      Deleted t.store s' file client p := by
  have hkey := h.key other p hfound
  obtain ⟨file, hp⟩ := (h.lists.found p).mpr (hkey.symm ▸ hfound)
  obtain ⟨s', hs', hd⟩ := h.deleted hp client
  refine ⟨file, s', hp, ?_, hd⟩
  have hother : ((Pointers.unlink t.store p file).mem p).stateidOther = other := by
    rw [(h.unlink hp).2.1]
    exact hkey
  rw [Pointers.cacheInodeDelStateByKey, hfound]
  dsimp only
  rw [h.lists.pentry file p hp]
  dsimp only
  rw [if_pos hother]
  exact congrArg some hs'

/-- **An operation** keeps the lists, if it adds whole states with new stateids. -/
theorem Inv.step (h : Inv t) (hstep : Pointers.step t op = some t') (hd : DistinctStateid t op t')
    (hw : AddsWhole t op t') : Inv t' := by
  cases op with
  | add args env =>
    obtain ⟨⟨s', status, r⟩, hadd, hstep⟩ := Option.bind_eq_some_iff.mp hstep
    cases (h.fileList args.pentry).addCases hadd with
    | noMemory hnone =>
      cases hstep
      exact h
    | conflict hget hhead hdeleg =>
      cases hstep
      exact (h.getPrealloc hget).1
    | noStateid hget hhead hother =>
      cases hstep
      obtain ⟨hinv, hspare, -, -⟩ := h.getPrealloc hget
      exact hinv.modify_spare hspare rfl
    | late hget hlinked hdeleg hother hstored =>
      -- the condition excludes each of these failures
      rcases hw with hw | ⟨hw, hw'⟩ | ⟨hw, hw'⟩ | ⟨hw, hw'⟩
      · rw [hget] at hw
        cases hw
      · exact absurd hw' (hdeleg hw)
      · exact absurd hw' (hother hw)
      · rw [hstored hw] at hw'
        cases hw'
    | whole hget hother hstored hadded =>
      cases hstep
      obtain ⟨hinv, hspare, -, hids⟩ := h.getPrealloc hget
      refine hadded.inv hinv hspare ?_
      rw [hids]
      exact hd _ hother
  | del client p =>
    rw [Pointers.step] at hstep
    split at hstep
    · cases hstep
    rename_i file hfile
    split at hstep
    next hp =>
      obtain ⟨s', hs', hdel⟩ := h.cacheInodeDelState hp client
      rw [hs'] at hstep
      cases hstep
      exact hdel.inv h hp
    next => cases hstep
  | delByKey client other =>
    rw [Pointers.step] at hstep
    cases hfound : t.store.stateIds other with
    | none =>
      rw [Pointers.cacheInodeDelStateByKey, hfound] at hstep
      cases hstep
      exact h
    | some p =>
      obtain ⟨file, s', hp, hs', hdel⟩ := h.cacheInodeDelStateByKey hfound client
      rw [hs', hfound] at hstep
      dsimp only [Option.bind_eq_bind, Option.bind_some] at hstep
      rw [h.lists.pentry file p hp] at hstep
      cases hstep
      exact hdel.inv h hp

theorem Inv.addsWhole (h : Inv t) (hstep : Pointers.step t op = some t') (hlists : StateLists t') :
    AddsWhole t op t' := by
  cases op with
  | add args env =>
    obtain ⟨⟨s', status, r⟩, hadd, hstep⟩ := Option.bind_eq_some_iff.mp hstep
    cases (h.fileList args.pentry).addCases hadd with
    | noMemory hnone => exact .inl hnone
    | conflict hget hhead hdeleg => exact .inr (.inl ⟨hhead, hdeleg⟩)
    | noStateid hget hhead hother => exact .inr (.inr (.inl ⟨hhead, hother⟩))
    | late hget hlinked hdeleg hother hstored =>
      cases hstep
      obtain ⟨hinv, hspare, -, -⟩ := h.getPrealloc hget
      exact absurd hlists (hlinked.not_stateLists hinv (hspare.unlisted args.pentry))
    | whole hget hother hstored hadded =>
      refine .inr (.inr (.inr ⟨?_, hstored⟩))
      rw [hother]
      nofun
  | del client p => trivial
  | delByKey client other => trivial

end

/-- **The lists of states**: in a run where every stateid that is built is a new one, the lists and
the table agree throughout exactly when no state fails after it was linked. -/
theorem stateLists_iff_addsWhole (mem : ℕ → StateNode) (ops : List StateOp)
    (hdistinct : AllSteps step DistinctStateid (init mem) ops) :
    Always step StateLists (init mem) ops ↔ AllSteps step AddsWhole (init mem) ops := by
  apply always_iff_allSteps_of (inv_init mem) hdistinct
  · exact fun t h => h.lists
  · exact fun t op t' h hstep hd hw => h.step hstep hd hw
  · exact fun t op t' h hstep _ hlists => h.addsWhole hstep hlists

instance (t : Tracked) (op : StateOp) (t' : Tracked) : Decidable (DistinctStateid t op t') :=
  match op with
  | .add _ env =>
    match h : env.other with
    | none => isTrue fun _ hother => absurd (h.symm.trans hother) nofun
    | some other => decidable_of_iff (t.store.stateIds other = none)
        ⟨fun hnone _ ho => Option.some.inj (h.symm.trans ho) ▸ hnone, fun hall => hall other h⟩
  | .del _ _ => isTrue trivial
  | .delByKey _ _ => isTrue trivial

instance (t : Tracked) (op : StateOp) (t' : Tracked) : Decidable (AddsWhole t op t') :=
  match op with
  | .add args env => inferInstanceAs
      (Decidable ((t.store.getPrealloc args.client env).isNone = true ∨
      (t.store.head args.pentry ≠ none ∧ args.typed = .deleg) ∨
      (t.store.head args.pentry = none ∧ env.other = none) ∨
      (env.other ≠ none ∧ env.stored = true)))
  | .del _ _ => isTrue trivial
  | .delByKey _ _ => isTrue trivial

def zeroed : ℕ → StateNode :=
  fun _ => ⟨.none, ⟨0, 0, 0⟩, ⟨0, []⟩, 0, none, none, none⟩

/-- A share of the file 7 for an owner, with the result of `nfs4_BuildStateId_Other`. -/
def addShare (owner : List UInt8) (other : Option StateidOther) : StateOp :=
  .add ⟨7, .data (.share ⟨[], 1, 0, 0⟩), ⟨0, owner⟩, 0⟩ ⟨true, 2, other, true⟩

/-- Two states of a file; the first one is deleted. -/
theorem stateLists_iff_addsWhole_twoOwners :
    Always step StateLists (init zeroed)
      [addShare [97] (some ⟨1, 7, 1⟩), addShare [98] (some ⟨1, 7, 2⟩), .delByKey 0 ⟨1, 7, 1⟩] := by
  apply (stateLists_iff_addsWhole zeroed _ (by decide)).mpr
  decide

/-- The digest of the handle fails for the second state of a file, which stays on the list. -/
theorem addShare_breaks_stateLists : ¬ ∀ mem ops, AllSteps step DistinctStateid (init mem) ops →
    Always step StateLists (init mem) ops := by
  intro h
  have hrun := h zeroed [addShare [97] (some ⟨1, 7, 1⟩), addShare [98] none] (by decide)
  have hsome : (exec step (init zeroed)
    [addShare [97] (some ⟨1, 7, 1⟩), addShare [98] none]).isSome := by decide
  have hlists := hrun.exec (Option.some_get hsome).symm
  -- only the first state was added, and it points to the second one
  obtain ⟨-, -, -, hafter⟩ := hlists.list 7
  cases hafter

end CloudNfs.Nfs4.Pointers
