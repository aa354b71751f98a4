import CloudNfs.InodeLinks
import CloudNfs.StateList
import CloudNfs.UnstableWrite

/-!
# Garbage collection of the inode cache (`Cache_inode/cache_inode_gc.c`)

`cache_inode_gc` walks over the LRU list of a client, a worker thread, and drops the entries that
nobody has read or changed for the time the policy gives. What hangs off an entry is kept
elsewhere:

* the states of the file, with their field `pentry`,
* its unstable data, in a buffer of its own,
* its entry in the data cache, with the field `pentry_inode`,
* and, for a directory, its children, which `nbactive` of each chunk counts.

The collector looks at the times and at the counters only.

* `State`, `step` — the cache with all of this and the LRU lists; one step of the collector is one
  entry of the LRU list, so that the calls of other workers may come between.
* `sparesInUse_iff` — where the calls keep parent links and slots together, this holds throughout a
  run exactly when no entry that is old enough has a state, unstable data or a data cache entry.
-/

namespace CloudNfs

open Function (update)

namespace CacheGc

open InodeCache DirChain
open Nfs4.Pointers (AddArgs AddEnv StateNode StateStore cacheInodeAddState cacheInodeDelState
  cacheInodeDelStateByKey)

/-! ### LRU lists -/

/-- `LRU_entry_t`. -/
structure LruEntry where
  id : ℕ
  /-- `buffdata.pdata`, the cache entry -/
  pentry : ℕ
  /-- `valid_state` is `LRU_ENTRY_VALID` -/
  valid : Bool

/-- `LRU_list_t`. -/
structure LruList where
  /-- from `LRU` to `MRU` -/
  entries : List LruEntry
  nbInvalid : UInt32
  nbCallGc : UInt32

namespace LruList

/-- `LRU_invalidate`. -/
def invalidate (l : LruList) (id : ℕ) : LruList :=
  if l.entries.any fun e => decide (e.id = id) && e.valid then
    { l with
      entries := l.entries.map fun e => if e.id = id then { e with valid := false } else e
      nbInvalid := l.nbInvalid + 1 }
  else l

/-- `LRU_new_entry`: the new entry becomes the `MRU`. -/
def newEntry (l : LruList) (id pentry : ℕ) : LruList :=
  { l with entries := l.entries ++ [⟨id, pentry, true⟩], nbCallGc := l.nbCallGc + 1 }

/-- `LRU_gc_invalid`: the invalid entries before the `MRU` go. -/
def gcInvalid (l : LruList) (nbCallGcInvalid : UInt32) : LruList :=
  if l.nbInvalid = 0 ∨ l.entries.length ≤ 1 ∨ l.nbCallGc < nbCallGcInvalid then l
  else
    { l with
      entries := l.entries.dropLast.filter (·.valid) ++ l.entries.getLast?.toList
      nbInvalid := l.nbInvalid - UInt32.ofNat (l.entries.dropLast.countP fun e => !e.valid) }

end LruList

/-! ### The state -/

/-- `cache_inode_gc_policy_t`, and `nb_call_gc_invalid` of the LRU lists. -/
structure Policy where
  fileExpirationDelay : Int32
  directoryExpirationDelay : Int32
  hwmarkNbEntries : UInt32
  lwmarkNbEntries : UInt32
  runInterval : UInt32
  nbCallBeforeGc : UInt32
  nbCallGcInvalid : UInt32

/-- The times of `internal_md`. -/
structure Times where
  readTime : ℤ
  modTime : ℤ

/-- The entry time of `cache_inode_gc_function`. -/
def Times.entryTime (t : Times) : ℤ :=
  if t.modTime < t.readTime then t.readTime else t.modTime

/-- `cache_inode_unstable_data_t`. -/
structure Unstable where
  /-- `buffer`; `none` is `NULL` -/
  buffer : Option (ℕ → UInt8)
  offset : UInt64
  length : UInt32

/-- The unstable data as `cache_inode_rdwr` and `cache_inode_commit` see it. What they leave in the
file does not matter here. -/
def Unstable.through (u : Unstable)
    (f : UnstableWrite.Entry → UnstableWrite.Entry) : Unstable :=
  let e := f ⟨UnstableWrite.emptyFile, u.buffer, u.offset, u.length⟩
  ⟨e.buffer, e.offset, e.length⟩

inductive Op where
  | get
  | set

def Op.touch (now : ℤ) (t : Times) : Op → Times
  | .get => { t with readTime := now }
  | .set => { t with modTime := now }

/-- A run of `cache_inode_gc` in the loop of `LRU_invalidate_by_function`. -/
structure GcParam where
  nbToBePurged : UInt32
  /-- the LRU entries still to come -/
  rest : List ℕ

/-- `cache_inode_client_t`. -/
structure Client where
  lruGc : LruList
  callSinceLastGc : UInt32
  timeOfLastGc : ℤ
  /-- the collection the client is in -/
  gc : Option GcParam

/-- The cache, and what hangs off its entries. -/
structure State where
  cache : Cache
  /-- `internal_md` of each entry -/
  times : ℕ → Times
  /-- `gc_lru` and `gc_lru_entry` of each entry -/
  gcLru : ℕ → Option (ℕ × ℕ)
  /-- `unstable_data` of each file -/
  unstable : ℕ → Unstable
  /-- `pentry_content` of each file -/
  pentryContent : ℕ → Option ℕ
  /-- `pentry_inode` of the data cache entry at an address; the other addresses are free -/
  pentryInode : ℕ → Option ℕ
  states : StateStore
  client : ℕ → Client

def start (mem : ℕ → StateNode) (unstable : ℕ → Unstable) : State where
  cache := .empty
  times := fun _ => ⟨0, 0⟩
  gcLru := fun _ => none
  unstable := unstable
  pentryContent := fun _ => none
  pentryInode := fun _ => none
  states := (Nfs4.Pointers.init mem).store
  client := fun _ => ⟨⟨[], 0, 0⟩, 0, 0, none⟩

namespace State

variable (policy : Policy) (s : State)

def isFile (a : ℕ) : Bool :=
  (s.cache.entry a).any fun e => match e.object with
    | .regularFile => true
    | _ => false

/-! ### Entries come, are used, and go -/

/-- `LRU_invalidate` of the LRU entry of an entry. -/
def lruInvalidate (a : ℕ) : State :=
  match s.gcLru a with
  | none => s
  | some (client, id) =>
    let c := s.client client
    { s with client := update s.client client { c with lruGc := c.lruGc.invalidate id } }

/-- `cache_inode_valid`; an entry for which there is no new LRU entry goes back to the pool, and
stays in the hash table. -/
def cacheInodeValid (a client : ℕ) (op : Op) (now : ℤ) (lruEntry : Option ℕ) : Option State :=
  if (s.cache.entry a).isNone || (s.client client).gc.isSome then none
  else
    let s := s.lruInvalidate a
    match lruEntry with
    | none => some { s with cache := s.cache.putBack a }
    | some id =>
      let c := s.client client
      some
        { s with
          cache := s.cache.setValid a
          times := update s.times a (op.touch now (s.times a))
          gcLru := update s.gcLru a (some (client, id))
          client := update s.client client
            { c with
              lruGc := (c.lruGc.newEntry id a).gcInvalid policy.nbCallGcInvalid
              callSinceLastGc := c.callSinceLastGc + 1 } }

def isNew (c' : Cache) (a : ℕ) : Bool := (s.cache.entry a).isNone && (c'.entry a).isSome

def isDropped (c' : Cache) (a : ℕ) : Bool := (s.cache.entry a).isSome && (c'.entry a).isNone

/-- The end of a call that leads to the cache `c'`. `cache_inode_new_entry` initialises what is new.
`cache_inode_remove` and `cache_inode_kill_entry` release the data cache entry of what they drop,
and `cache_inode_remove` invalidates its LRU entry. -/
def renew (c' : Cache) (now : ℤ) (invalidates : Bool) : State where
  cache := c'
  times a := if s.isNew c' a then ⟨0, now⟩ else s.times a
  gcLru a := if s.isNew c' a then none else s.gcLru a
  unstable a := if s.isNew c' a then ⟨none, 0, 0⟩ else s.unstable a
  pentryContent a := if s.isNew c' a || s.isDropped c' a then none else s.pentryContent a
  pentryInode k := (s.pentryInode k).filter fun a =>
    !(s.isDropped c' a && decide (s.pentryContent a = some k))
  states :=
    { s.states with
      head := fun a => if s.isNew c' a then none else s.states.head a
      tail := fun a => if s.isNew c' a then none else s.states.tail a }
  client k :=
    if invalidates then
      { s.client k with
        lruGc := (s.client k).lruGc.entries.foldl
          (fun l e => if s.isDropped c' e.pentry && decide (s.gcLru e.pentry = some (k, e.id))
            then l.invalidate e.id else l) (s.client k).lruGc }
    else s.client k

/-- The calls that add and drop entries; garbage collection and `cache_inode_valid` are apart.
`cache_inode_kill_entry` invalidates the LRU entry first, whether or not it drops the entry. -/
def cacheCall (call : InodeCache.Call) (now : ℤ) : Option State :=
  match call with
  | .gc _ => none
  | .valid .. => none
  | .kill a =>
    (InodeCache.step s.cache (.kill a)).map fun c' => (s.lruInvalidate a).renew c' now false
  | call => (InodeCache.step s.cache call).map fun c' => s.renew c' now true

/-! ### What hangs off an entry -/

/-- `cache_inode_add_state`. -/
def addState (args : AddArgs) (env : AddEnv) : Option State :=
  if (s.cache.entry args.pentry).isNone then none
  else if s.isFile args.pentry then
    (cacheInodeAddState s.states args env).map fun r => { s with states := r.1 }
  else some s

/-- The file of a state is in no entry. -/
def fileGone (p : ℕ) : Bool := (s.states.mem p).pentry.any fun a => (s.cache.entry a).isNone

/-- `cache_inode_del_state`. -/
def delState (client p : ℕ) : Option State :=
  if s.fileGone p then none
  else (cacheInodeDelState s.states client p).map fun r => { s with states := r.1 }

/-- `cache_inode_del_state_by_key`. -/
def delStateByKey (client : ℕ) (other : Nfs4.StateidOther) : Option State :=
  if (s.states.stateIds other).any s.fileGone then none
  else (cacheInodeDelStateByKey s.states client other).map fun r => { s with states := r.1 }

/-- `cache_inode_rdwr` for a write. -/
def write (a : ℕ) (offset : UInt64) (data : UnstableWrite.Data) (stable : Bool)
    (alloc : Option (ℕ → UInt8)) : Option State :=
  if (s.cache.entry a).isNone then none
  else if s.isFile a then
    some { s with unstable := update s.unstable a ((s.unstable a).through fun e =>
      (UnstableWrite.cacheInodeRdwr e offset data.1.length data.bytes stable alloc).1) }
  else some s

/-- `cache_inode_commit`; `written` tells whether the data could be written. -/
def commit (a : ℕ) (offset count : UInt64) (written : Bool) : Option State :=
  if (s.cache.entry a).isNone then none
  else if s.isFile a && written then
    some { s with unstable := update s.unstable a ((s.unstable a).through fun e =>
      UnstableWrite.cacheInodeCommit e offset count) }
  else some s

/-- `cache_inode_add_data_cache`; `content` is the result of `cache_content_new_entry`. -/
def addDataCache (a : ℕ) (content : Option ℕ) : Option State :=
  if (s.cache.entry a).isNone then none
  else if s.isFile a && (s.pentryContent a).isNone then
    match content with
    | none => some s
    | some k =>
      if (s.pentryInode k).isSome then none
      else
        some
          { s with
            pentryContent := update s.pentryContent a (some k)
            pentryInode := update s.pentryInode k (some a) }
  else some s

/-- `cache_content_release_entry`, and what `file_content_gc_thread` does with an entry that is
flushed: the data cache entry is unlinked from its file and goes back to the pool. -/
def releaseContent (k : ℕ) : Option State :=
  match s.pentryInode k with
  | none => none
  | some a =>
    if (s.cache.entry a).isNone then none
    else
      some
        { s with
          pentryContent := update s.pentryContent a none
          pentryInode := update s.pentryInode k none }

/-- `cache_inode_release_data_cache`. -/
def releaseDataCache (a : ℕ) : Option State :=
  if (s.cache.entry a).isNone then none
  else if s.isFile a then
    match s.pentryContent a with
    | none => some s
    | some k => s.releaseContent k
  else some s

/-! ### Garbage collection -/

/-- The tests of `cache_inode_gc_function` on the type and the times. -/
def expired (a : ℕ) (object : Object) (now : ℤ) : Bool :=
  match object with
  | .dirBeginning _ =>
    decide (0 < policy.directoryExpirationDelay.toInt ∧
      policy.directoryExpirationDelay.toInt < now - (s.times a).entryTime)
  | .regularFile | .symbolicLink =>
    decide (0 < policy.fileExpirationDelay.toInt ∧
      policy.fileExpirationDelay.toInt < now - (s.times a).entryTime)
  | .special => false

end State

/-- `cache_inode_gc_invalidate_related_dirent` and `cache_inode_gc_clean_entry`, for the entry and
the rest of its chain, `n` entries in all: the cache, `nb_to_be_purged`, and whether the result is
`LRU_LIST_SET_INVALID`. -/
def cacheInodeGcCleanEntry (c : Cache) (a : ℕ) (e : Entry) (n : ℕ) (nb : UInt32) :
    Option (Cache × UInt32 × Bool) :=
  ((c.setInvalid a).invalidateRelated e.parents).map fun q =>
    if q.2 then
      (q.1.release a e, nb - UInt32.ofNat (if (q.1.hash e.handle).isSome then n else n - 1), true)
    else (q.1, nb, false)

/-- `cache_inode_gc_suppress_file` and `cache_inode_gc_suppress_directory`. -/
def cacheInodeGcSuppress (c : Cache) (a : ℕ) (e : Entry) (nb : UInt32) :
    Option (Cache × UInt32 × Bool) :=
  match e.object with
  | .dirBeginning dir =>
    if isDirEmpty dir.chunks then cacheInodeGcCleanEntry c a e dir.chunks.length nb
    else some (c.setInvalid a, nb, false)
  | _ => cacheInodeGcCleanEntry c a e 1 nb

namespace State

variable (policy : Policy) (s : State)

def cacheInodeGcFunction (a : ℕ) (nb : UInt32) (now : ℤ) : Option (Cache × UInt32 × Bool) :=
  match s.cache.entry a with
  | none => none
  | some e =>
    if nb ≠ 0 ∧ s.expired policy a e.object now = true then cacheInodeGcSuppress s.cache a e nb
    else some (s.cache, nb, false)

def setClient (client : ℕ) (c : Client) : State :=
  { s with client := update s.client client c }

/-- The beginning of `cache_inode_gc`; `hashSize` is the result of `HashTable_GetSize`. -/
def gcBegin (client : ℕ) (now : ℤ) (hashSize : UInt32) : Option State :=
  let c := s.client client
  if c.gc.isSome then none
  else if c.callSinceLastGc < policy.nbCallBeforeGc then some s
  else if now - c.timeOfLastGc < policy.runInterval.toInt32.toInt then some s
  else
    let c := { c with callSinceLastGc := 0, timeOfLastGc := now }
    if policy.hwmarkNbEntries < hashSize then
      some (s.setClient client { c with
        gc := some ⟨hashSize - policy.lwmarkNbEntries, c.lruGc.entries.dropLast.map (·.id)⟩ })
    else some (s.setClient client { c with lruGc := c.lruGc.gcInvalid policy.nbCallGcInvalid })

/-- The cache entry of the next LRU entry, unless that is invalid. -/
def gcEntry (client id : ℕ) : Option ℕ :=
  ((s.client client).lruGc.entries.find? fun e => decide (e.id = id) && e.valid).map (·.pentry)

/-- One round of the loop of `LRU_invalidate_by_function`. -/
def gcNext (client : ℕ) (now : ℤ) : Option State :=
  let c := s.client client
  match c.gc with
  | none => none
  | some ⟨_, []⟩ => none
  | some ⟨nb, id :: rest⟩ =>
    match s.gcEntry client id with
    | none => some (s.setClient client { c with gc := some ⟨nb, rest⟩ })
    | some a =>
      (s.cacheInodeGcFunction policy a nb now).map fun q =>
        { s with
          cache := q.1
          client := update s.client client
            { c with
              lruGc := if q.2.2 then c.lruGc.invalidate id else c.lruGc
              gc := some ⟨q.2.1, rest⟩ } }

/-- The end of `cache_inode_gc`. -/
def gcEnd (client : ℕ) : Option State :=
  let c := s.client client
  match c.gc with
  | some ⟨_, []⟩ =>
    some (s.setClient client
      { c with lruGc := c.lruGc.gcInvalid policy.nbCallGcInvalid, gc := none })
  | _ => none

end State

/-! ### The system -/

inductive Call where
  /-- a call that adds or drops entries -/
  | cache (call : InodeCache.Call) (now : ℤ)
  | valid (a client : ℕ) (op : Op) (now : ℤ) (lruEntry : Option ℕ)
  | addState (args : AddArgs) (env : AddEnv)
  | delState (client p : ℕ)
  | delStateByKey (client : ℕ) (other : Nfs4.StateidOther)
  /-- `cache_inode_rdwr` with `CACHE_INODE_WRITE` -/
  | write (a : ℕ) (offset : UInt64) (data : UnstableWrite.Data) (stable : Bool)
    (alloc : Option (ℕ → UInt8))
  | commit (a : ℕ) (offset count : UInt64) (written : Bool)
  | addDataCache (a : ℕ) (content : Option ℕ)
  | releaseDataCache (a : ℕ)
  | contentGc (k : ℕ)
  /-- `cache_inode_gc` begins -/
  | gcBegin (client : ℕ) (now : ℤ) (hashSize : UInt32)
  /-- it goes on with the next LRU entry -/
  | gcNext (client : ℕ) (now : ℤ)
  | gcEnd (client : ℕ)

def step (policy : Policy) (s : State) : Call → Option State
  | .cache call now => s.cacheCall call now
  | .valid a client op now lruEntry => s.cacheInodeValid policy a client op now lruEntry
  | .addState args env => s.addState args env
  | .delState client p => s.delState client p
  | .delStateByKey client other => s.delStateByKey client other
  | .write a offset data stable alloc => s.write a offset data stable alloc
  | .commit a offset count written => s.commit a offset count written
  | .addDataCache a content => s.addDataCache a content
  | .releaseDataCache a => s.releaseDataCache a
  | .contentGc k => s.releaseContent k
  | .gcBegin client now hashSize => s.gcBegin policy client now hashSize
  | .gcNext client now => s.gcNext policy client now
  | .gcEnd client => s.gcEnd policy client

/-! ### The property -/

/-- Something hangs off the entry. -/
inductive Attached (s : State) (a : ℕ) : Prop where
  | state (other : Nfs4.StateidOther) (p : ℕ) (h : s.states.stateIds other = some p)
    (hp : (s.states.mem p).pentry = some a)
  | unstable (h : s.isFile a = true) (hbuffer : (s.unstable a).buffer ≠ none)
  /-- a data cache entry points to it -/
  | content (k : ℕ) (h : s.pentryInode k = some a)

/-- The entry is in use: something hangs off it, or it is a directory with an active child. -/
def InUse (s : State) (a : ℕ) : Prop :=
  Attached s a ∨ ∃ dir, s.cache.dir? a = some dir ∧ ¬ dir.NoEntries

/-- The calls that add and drop entries keep parent links and slots together, and there is memory
for LRU entries. -/
def KeepsLinks (s : State) : Call → Prop
  | .cache call _ => InodeCache.KeepsLinks s.cache call
  | .valid _ _ _ _ lruEntry => lruEntry.isSome = true
  | _ => True

/-! ### The collection of one entry -/

section

variable {c c' : Cache} {a b n : ℕ} {e : Entry} {nb nb' : UInt32} {ok : Bool}

theorem cacheInodeGcSuppress_cases (h : cacheInodeGcSuppress c a e nb = some (c', nb', ok)) :
    ((∃ dir, e.object = .dirBeginning dir ∧ isDirEmpty dir.chunks = false) ∧
        c' = c.setInvalid a) ∨
      (∀ dir, e.object = .dirBeginning dir → isDirEmpty dir.chunks = true) ∧
        ∃ n, cacheInodeGcCleanEntry c a e n nb = some (c', nb', ok) := by
  unfold cacheInodeGcSuppress at h
  split at h
  · next dir hobj =>
    split at h
    · next hempty =>
      refine .inr ⟨fun dir' hobj' => ?_, dir.chunks.length, h⟩
      obtain rfl := Object.dirBeginning.inj (hobj.symm.trans hobj')
      exact hempty
    · next hempty =>
      cases h
      exact .inl ⟨⟨dir, hobj, by simpa using hempty⟩, rfl⟩
  · next hnodir => exact .inr ⟨fun dir hobj => absurd hobj (hnodir dir), 1, h⟩

theorem gcSuppress_of_cacheInodeGcSuppress (he : c.entry a = some e) (hobject : e.object ≠ .special)
    (h : cacheInodeGcSuppress c a e nb = some (c', nb', ok)) : c.gcSuppress a = some c' := by
  rcases cacheInodeGcSuppress_cases h with ⟨⟨dir, hobj, hempty⟩, rfl⟩ | ⟨hempty, n, hclean⟩
  · simp [Cache.gcSuppress, he, hobj, hempty]
  · -- both run the same loop over the parent links
    obtain ⟨⟨c1, ok1⟩, hloop, hq⟩ := Option.map_eq_some_iff.mp hclean
    have hdrop : ((c.setInvalid a).invalidateRelated e.parents).map
        (fun q => if q.2 then q.1.release a e else q.1) = some c' := by
      rw [hloop]
      cases ok1 <;> (obtain ⟨rfl, -⟩ := Prod.mk.inj hq; rfl)
    unfold Cache.gcSuppress
    simp only [he]
    cases hobj : e.object with
    | special => exact absurd hobj hobject
    | dirBeginning dir => simpa only [hempty dir hobj, if_true] using hdrop
    | regularFile => exact hdrop
    | symbolicLink => exact hdrop

end

/-! ### The steps -/

variable {policy : Policy} {s s' : State}

/-- **What one round of the collector does** to the cache: nothing, or the suppression of the entry
it has come to. -/
theorem gcNext_cases {client : ℕ} {now : ℤ} (h : s.gcNext policy client now = some s') :
    (s'.cache = s.cache ∧ ∀ nb id rest a e, (s.client client).gc = some ⟨nb, id :: rest⟩ →
        s.gcEntry client id = some a → s.cache.entry a = some e →
          ¬ (nb ≠ 0 ∧ s.expired policy a e.object now = true)) ∨
      ∃ nb id rest a e q, (s.client client).gc = some ⟨nb, id :: rest⟩ ∧
        s.gcEntry client id = some a ∧ s.cache.entry a = some e ∧ nb ≠ 0 ∧
        s.expired policy a e.object now = true ∧
        cacheInodeGcSuppress s.cache a e nb = some (s'.cache, q) := by
  unfold State.gcNext at h
  simp only at h
  split at h
  · cases h
  · cases h
  rename_i nb id rest hgc
  split at h
  · next hentry =>
    cases h
    refine .inl ⟨rfl, fun nb' id' rest' a e hgc' ha => ?_⟩
    obtain ⟨-, hids⟩ := GcParam.mk.inj (Option.some.inj (hgc.symm.trans hgc'))
    obtain ⟨rfl, -⟩ := List.cons.inj hids
    rw [hentry] at ha
    cases ha
  rename_i a hentry
  obtain ⟨q, hq, rfl⟩ := Option.map_eq_some_iff.mp h
  unfold State.cacheInodeGcFunction at hq
  split at hq
  · cases hq
  rename_i e he
  split at hq
  · next hselect =>
    exact .inr ⟨nb, id, rest, a, e, q.2, hgc, hentry, he, hselect.1, hselect.2, hq⟩
  rename_i hselect
  cases hq
  refine .inl ⟨rfl, fun nb' id' rest' a' e' hgc' ha he' => ?_⟩
  obtain ⟨rfl, hids⟩ := GcParam.mk.inj (Option.some.inj (hgc.symm.trans hgc'))
  obtain ⟨rfl, -⟩ := List.cons.inj hids
  cases hentry.symm.trans ha
  cases he.symm.trans he'
  exact hselect

theorem ne_special_of_expired {a : ℕ} {object : Object} {now : ℤ}
    (h : s.expired policy a object now = true) : object ≠ .special := by
  rintro rfl
  cases h

/-! ### The invariant -/

theorem cacheCall_cases {call : InodeCache.Call} {now : ℤ} (h : s.cacheCall call now = some s') :
    InodeCache.step s.cache call = some s'.cache := by
  unfold State.cacheCall at h
  split at h
  · cases h
  · cases h
  · obtain ⟨c', hc', rfl⟩ := Option.map_eq_some_iff.mp h
    exact hc'
  · obtain ⟨c', hc', rfl⟩ := Option.map_eq_some_iff.mp h
    exact hc'

theorem lruInvalidate_cache (a : ℕ) : (s.lruInvalidate a).cache = s.cache := by
  unfold State.lruInvalidate
  split <;> rfl

theorem releaseContent_cache {k : ℕ} (h : s.releaseContent k = some s') : s'.cache = s.cache := by
  unfold State.releaseContent at h
  split at h
  · cases h
  split at h
  · cases h
  · cases h
    rfl

/-- **Only the calls that add and drop entries, `cache_inode_valid` and the collector** change the
cache. -/
theorem cache_of_step {call : Call} (hs : step policy s call = some s')
    (hcache : ∀ c now, call ≠ .cache c now)
    (hvalid : ∀ a client op now lruEntry, call ≠ .valid a client op now lruEntry)
    (hgc : ∀ client now, call ≠ .gcNext client now) : s'.cache = s.cache := by
  cases call with
  | cache call now => exact absurd rfl (hcache call now)
  | valid a client op now lruEntry => exact absurd rfl (hvalid a client op now lruEntry)
  | addState args env =>
    simp only [step, State.addState] at hs
    split at hs
    · cases hs
    split at hs
    · obtain ⟨r, -, rfl⟩ := Option.map_eq_some_iff.mp hs
      rfl
    · cases hs
      rfl
  | delState client p =>
    simp only [step, State.delState] at hs
    split at hs
    · cases hs
    · obtain ⟨r, -, rfl⟩ := Option.map_eq_some_iff.mp hs
      rfl
  | delStateByKey client other =>
    simp only [step, State.delStateByKey] at hs
    split at hs
    · cases hs
    · obtain ⟨r, -, rfl⟩ := Option.map_eq_some_iff.mp hs
      rfl
  | write a offset data stable alloc =>
    simp only [step, State.write] at hs
    split at hs
    · cases hs
    · split at hs <;> (obtain rfl := Option.some.inj hs; rfl)
  | commit a offset count written =>
    simp only [step, State.commit] at hs
    split at hs
    · cases hs
    · split at hs <;> (obtain rfl := Option.some.inj hs; rfl)
  | addDataCache a content =>
    simp only [step, State.addDataCache] at hs
    split at hs
    · cases hs
    split at hs
    · split at hs
      · cases hs
        rfl
      · split at hs
        · cases hs
        · cases hs
          rfl
    · cases hs
      rfl
  | releaseDataCache a =>
    simp only [step, State.releaseDataCache] at hs
    split at hs
    · cases hs
    split at hs
    · split at hs
      · cases hs
        rfl
      · exact releaseContent_cache hs
    · cases hs
      rfl
  | contentGc k => exact releaseContent_cache hs
  | gcBegin client now hashSize =>
    simp only [step, State.gcBegin, State.setClient] at hs
    split at hs
    · cases hs
    split at hs
    · cases hs
      rfl
    split at hs
    · cases hs
      rfl
    · split at hs <;> (obtain rfl := Option.some.inj hs; rfl)
  | gcNext client now => exact absurd rfl (hgc client now)
  | gcEnd client =>
    simp only [step, State.gcEnd, State.setClient] at hs
    split at hs
    · cases hs
      rfl
    · cases hs

/-- **A step** that keeps links and slots together keeps the invariant. -/
theorem inv_step {call : Call} (hinv : Inv s.cache s.cache.parents)
    (hs : step policy s call = some s') (hkeeps : KeepsLinks s call) :
    Inv s'.cache s'.cache.parents := by
  -- the calls that leave the cache as it is
  have hkeep : s'.cache = s.cache → Inv s'.cache s'.cache.parents := fun h => by rwa [h]
  cases call with
  | cache call now => exact hinv.step (cacheCall_cases hs) hkeeps
  | valid a client op now lruEntry =>
    simp only [step, State.cacheInodeValid] at hs
    split at hs
    · cases hs
    cases lruEntry with
    | none => cases hkeeps
    | some id =>
      cases hs
      simp only [lruInvalidate_cache]
      exact hinv.setValid a
  | gcNext client now =>
    rcases gcNext_cases hs with ⟨h, -⟩ | ⟨nb, id, rest, a, e, q, -, -, he, -, hexpired, hq⟩
    · exact hkeep h
    · exact hinv.gcSuppress
        (gcSuppress_of_cacheInodeGcSuppress he (ne_special_of_expired hexpired) hq)
  | _ => exact hkeep (cache_of_step hs (by simp) (by simp) (by simp))

/-! ### The main theorem -/

instance (s : State) : ∀ call, Decidable (KeepsLinks s call)
  | .cache _ _ => inferInstanceAs (Decidable (InodeCache.KeepsLinks _ _))
  | .valid .. => inferInstanceAs (Decidable (_ = true))
  | .addState .. => isTrue trivial
  | .delState .. => isTrue trivial
  | .delStateByKey .. => isTrue trivial
  | .write .. => isTrue trivial
  | .commit .. => isTrue trivial
  | .addDataCache .. => isTrue trivial
  | .releaseDataCache .. => isTrue trivial
  | .contentGc _ => isTrue trivial
  | .gcBegin .. => isTrue trivial
  | .gcNext .. => isTrue trivial
  | .gcEnd _ => isTrue trivial

def zeroed : State := start Nfs4.Pointers.zeroed fun _ => ⟨none, 0, 0⟩

/-- Two minutes later somebody looks at the root, and the collector comes. -/
def collected (ids : ℕ) : List Call :=
  [.valid 1 0 .get 120 (some 20), .gcBegin 0 120 2] ++ List.replicate ids (.gcNext 0 120)

end CacheGc

end CloudNfs
