import CloudNfs.Lru
import CloudNfs.Places
import CloudNfs.Prealloc
import CloudNfs.Run

/-!
# Asynchronous metadata operations

An operation such as `MFSL_create` fills a descriptor, posts it to `async_op_lru` and goes on. The
dispatcher gives the operations that are old enough to the synclets, each to the one with the
shortest list; a synclet executes the operations of its list one by one and releases their
descriptors.

* A section under a mutex is one step, and so is the way of the dispatcher from one entry to the
  next, during which it holds `mutex_async_list`. The calls, the dispatcher and the synclets take
  their steps in any order, and there is always memory.
* A `Posting` is what one call of `MFSL_async_post` hands over. The history of a run (`executed`,
  `released`, `given`) is kept beside the code and never read by it. An operation is executed in
  one step, under the lock of its directory.
* `OnceInOrder` — postings are executed once and in order, and descriptors are released once, after
  their execution and after the last use by the caller.

The dispatcher looks at the lengths of the lists only, not at the objects of the operations, a
synclet collects its list without the mutex under which the dispatcher adds to it, and `MFSL_create`
reads its descriptor back after it has posted it (`KeepsOrder`).
-/

namespace CloudNfs.MfslAsync

open Prealloc (Pools)

/-! ### The code -/

/-- `struct timeval`. -/
structure Timeval where
  tvSec : ℤ
  tvUsec : ℤ
  deriving DecidableEq

def timersub (a b : Timeval) : Timeval :=
  if a.tvUsec < b.tvUsec then ⟨a.tvSec - b.tvSec - 1, a.tvUsec - b.tvUsec + 1000000⟩
  else ⟨a.tvSec - b.tvSec, a.tvUsec - b.tvUsec⟩

/-- `mfsl_parameter_t` -/
structure Param where
  /-- `nb_pre_async_op_desc`, as `GetPreferedPool` rounds it -/
  nbPreAsyncOpDesc : ℕ
  nbSynclet : ℕ
  /-- `async_window_sec` and `async_window_usec` -/
  asyncWindow : Timeval
  nbBeforeGc : UInt32
  nbCallGcInvalid : UInt32

/-- `mfsl_async_op_desc_t` -/
structure OpDesc where
  /-- the directories and objects of the operation -/
  objects : List ℕ
  opTime : Timeval
  context : ℕ
  /-- which posting it is, for the history -/
  posting : ℕ

/-- `buffdata.pdata` of an entry, and for the history the posting that it was made for. -/
structure OpRef where
  addr : ℕ
  posting : ℕ
  deriving DecidableEq

/-- One call of `MFSL_async_post`. -/
structure Posting where
  addr : ℕ
  /-- the directories and objects of the operation -/
  objects : List ℕ

/-- Where a call such as `MFSL_create` is. -/
inductive Call where
  /-- at `MFSL_async_post`, with its descriptor; `MFSL_create` reads it back -/
  | prepared (addr : ℕ) (readsBack : Bool)
  /-- at `pasyncopdesc->op_args.create.owner`, after `MFSL_async_post` -/
  | posted (r : OpRef)
  deriving DecidableEq

inductive DispatcherPc where
  /-- outside its section under `mutex_async_list` -/
  | sleep
  /-- at an entry of `async_op_lru`, with the time at which it began -/
  | walk (k : ℕ) (current : Timeval)
  deriving DecidableEq

/-- Where a synclet is, with the place and the data of its entry. -/
inductive SyncletPc where
  | idle
  /-- at the call of `op_func` -/
  | execute (k : ℕ) (r : OpRef)
  | release (k : ℕ) (r : OpRef)
  /-- at `LRU_invalidate` -/
  | invalidate (k : ℕ) (r : OpRef)
  /-- at the test of `passcounter` -/
  | test
  /-- in the loop of `LRU_gc_invalid`, at an entry -/
  | collect (k : ℕ)

/-- `mfsl_synclet_data_t` -/
structure Synclet where
  opLru : LruList OpRef
  passcounter : UInt32
  pc : SyncletPc

structure Server where
  /-- `pool_async_op` of each context -/
  pools : Pools
  desc : ℕ → OpDesc
  calls : List Call
  opLru : LruList OpRef
  dispatcher : DispatcherPc
  passcounter : UInt32
  /-- `last` of `mfsl_async_choose_synclet` -/
  last : ℕ
  /-- `synclet_data` -/
  synclets : ℕ → Synclet
  /-- the postings so far -/
  postings : List Posting
  /-- the postings that were given to a synclet -/
  given : List ℕ
  executed : List ℕ
  /-- the postings whose descriptors were released -/
  released : List ℕ

inductive Action where
  | prepare (context : ℕ) (objects : List ℕ) (opTime : Timeval) (readsBack : Bool)
  | post (i : ℕ)
  /-- a call reads its descriptor back, and ends -/
  | readBack (i : ℕ)
  | wake (current : Timeval)
  | dispatcher
  | synclet (i : ℕ)

namespace Server

def modify (s : Server) (i : ℕ) (f : Synclet → Synclet) : Server :=
  { s with synclets := Function.update s.synclets i (f (s.synclets i)) }

end Server

/-- One round of the loop of `mfsl_async_choose_synclet`, from the synclet after `last`: the one
with the fewest entries. -/
def chooseSynclet (nbSynclet last : ℕ) (nbEntry : ℕ → UInt32) : Option ℕ :=
  ((List.range nbSynclet).foldl (fun (acc : Option ℕ × UInt32) cpt =>
    let i := (last + 1 + cpt) % nbSynclet
    if nbEntry i < acc.2 then (some i, nbEntry i) else acc) (none, 1000000)).1

/-- A call takes a descriptor from the pool of its context, and fills it. -/
def prepareStep (par : Param) (s : Server) (context : ℕ) (objects : List ℕ) (opTime : Timeval)
    (readsBack : Bool) : Option Server :=
  match s.pools.get context par.nbPreAsyncOpDesc true with
  | some (p, pools) =>
    some { s with
      pools := pools
      desc := Function.update s.desc p ⟨objects, opTime, context, (s.desc p).posting⟩
      calls := s.calls ++ [.prepared p readsBack] }
  | none => none

/-- `MFSL_async_post`, while nobody else holds `mutex_async_list`. -/
def asyncPost (s : Server) (i p : ℕ) (readsBack : Bool) : Option Server :=
  if s.dispatcher = .sleep then
    let n := s.postings.length
    some { s with
      desc := Function.update s.desc p { s.desc p with posting := n }
      opLru := s.opLru.newEntry ⟨p, n⟩
      calls := if readsBack then s.calls.set i (.posted ⟨p, n⟩) else s.calls.eraseIdx i
      postings := s.postings ++ [⟨p, (s.desc p).objects⟩] }
  else none

/-- The end of the section of the dispatcher. -/
def dispatcherEnd (par : Param) (s : Server) : Server :=
  if par.nbBeforeGc < s.passcounter + 1 then
    { s with
      opLru := (s.opLru.gcInvalid par.nbCallGcInvalid).1, passcounter := 0, dispatcher := .sleep }
  else { s with passcounter := s.passcounter + 1, dispatcher := .sleep }

/-- The operation of an entry is given to a synclet. -/
def giveTo (s : Server) (k c : ℕ) (current : Timeval) (r : OpRef) : Server :=
  { s.modify c (fun y => { y with opLru := y.opLru.newEntry r }) with
    opLru := s.opLru.invalidate k
    dispatcher := .walk (k + 1) current
    last := c
    given := s.given ++ [r.posting] }

/-- The operation is too young to be given to a synclet. -/
def inWindow (par : Param) (current opTime : Timeval) : Bool :=
  decide ((timersub current opTime).tvSec < par.asyncWindow.tvSec) ||
    decide ((timersub current opTime).tvUsec < par.asyncWindow.tvUsec)

/-- The dispatcher looks at the next entry. While all lists are too long it looks for a synclet
again and again. -/
def dispatcherStep (par : Param) (s : Server) : Option Server :=
  match s.dispatcher with
  | .sleep => none
  | .walk k current =>
    match s.opLru.entries[k]? with
    | none => some (dispatcherEnd par s)
    | some e =>
      if e.valid then
        if inWindow par current (s.desc e.pdata.addr).opTime then some (dispatcherEnd par s)
        else
          (chooseSynclet par.nbSynclet s.last fun i => (s.synclets i).opLru.nbEntry).map fun c =>
            giveTo s k c current e.pdata
      else some { s with dispatcher := .walk (k + 1) current }

/-- One round of the loop of `LRU_gc_invalid`, which stops at the `MRU`. -/
def Synclet.collect (y : Synclet) (k : ℕ) : Synclet :=
  match y.opLru.entries[k]? with
  | some e =>
    if k + 1 < y.opLru.entries.length then
      if e.valid then { y with pc := .collect (k + 1) } else { y with opLru := y.opLru.takeOff k }
    else { y with passcounter := 0, pc := .idle }
  | none => { y with passcounter := 0, pc := .idle }

/-- The next step of a synclet. Its collection takes no mutex: each round is a step. -/
def syncletStep (par : Param) (s : Server) (i : ℕ) : Option Server :=
  let y := s.synclets i
  match y.pc with
  | .idle =>
    if y.opLru.nbEntry = y.opLru.nbInvalid then none
    else
      match y.opLru.firstValid with
      | some (k, r) => some (s.modify i fun y => { y with pc := .execute k r })
      -- `I have been awaken when no pending async operation is available`
      | none => none
  | .execute k r =>
    some { s.modify i (fun y => { y with pc := .release k r }) with
      executed := s.executed ++ [(s.desc r.addr).posting] }
  | .release k r =>
    some { s.modify i (fun y => { y with passcounter := y.passcounter + 1, pc := .invalidate k r })
      with
      pools := s.pools.release (s.desc r.addr).context r.addr
      released := s.released ++ [(s.desc r.addr).posting] }
  | .invalidate k _ =>
    some (s.modify i fun y => { y with opLru := y.opLru.invalidate k, pc := .test })
  | .test =>
    if par.nbBeforeGc < y.passcounter then
      some (s.modify i fun y =>
        if y.opLru.gcRuns par.nbCallGcInvalid then { y with pc := .collect 0 }
        else { y with passcounter := 0, pc := .idle })
    else some (s.modify i fun y => { y with pc := .idle })
  | .collect k => some (s.modify i fun y => y.collect k)

def step (par : Param) (s : Server) : Action → Option Server
  | .prepare context objects opTime readsBack =>
    prepareStep par s context objects opTime readsBack
  | .post i =>
    match s.calls[i]? with
    | some (.prepared p readsBack) => asyncPost s i p readsBack
    | _ => none
  | .readBack i =>
    match s.calls[i]? with
    | some (.posted _) => some { s with calls := s.calls.eraseIdx i }
    | _ => none
  | .wake current =>
    if s.dispatcher = .sleep then some { s with dispatcher := .walk 0 current } else none
  | .dispatcher => dispatcherStep par s
  | .synclet i => if i < par.nbSynclet then syncletStep par s i else none

def init : Server where
  pools := Pools.empty
  desc _ := ⟨[], ⟨0, 0⟩, 0, 0⟩
  calls := []
  opLru := LruList.init
  dispatcher := .sleep
  passcounter := 0
  last := 0
  synclets _ := ⟨LruList.init, 0, .idle⟩
  postings := []
  given := []
  executed := []
  released := []

/-! ### The contract -/

def Server.objects (s : Server) (n : ℕ) : List ℕ :=
  match s.postings[n]? with
  | some p => p.objects
  | none => []

/-- Two operations have a directory or an object in common. -/
def Meets (l l' : List ℕ) : Prop := ∃ x ∈ l, x ∈ l'

instance (l l' : List ℕ) : Decidable (Meets l l') := inferInstanceAs (Decidable (∃ x ∈ l, x ∈ l'))

/-- **The contract** of the asynchronous operations. -/
structure OnceInOrder (s : Server) : Prop where
  once : s.executed.Nodup
  releasedOnce : s.released.Nodup
  /-- no descriptor is released before it is executed -/
  releasedAfter : s.released ⊆ s.executed
  /-- no caller reads a descriptor back that has been released -/
  readBack : ∀ r, .posted r ∈ s.calls → r.posting ∉ s.released
  /-- what is invalid in `async_op_lru` was given to a synclet -/
  given : ∀ e ∈ s.opLru.entries, e.valid = false → e.pdata.posting ∈ s.given
  /-- operations on the same object are executed in the order in which they were posted -/
  inOrder : ∀ m n, m < n → Meets (s.objects m) (s.objects n) → n ∈ s.executed →
    [m, n].Sublist s.executed

/-- What a synclet has not executed yet. -/
def Synclet.pending (y : Synclet) : List OpRef :=
  match y.pc with
  | .release _ _ | .invalidate _ _ => y.opLru.validData.tail
  | _ => y.opLru.validData

/-- The posting whose descriptor a synclet is about to release. -/
def SyncletPc.releases : SyncletPc → Option OpRef
  | .release _ r => some r
  | _ => none

/-- The synclet is in `LRU_gc_invalid`, without its mutex. -/
def SyncletPc.collects : SyncletPc → Bool
  | .collect _ => true
  | _ => false

/-- The synclet that an operation would be given to now. -/
def Server.chosen (par : Param) (s : Server) : Option ℕ :=
  chooseSynclet par.nbSynclet s.last fun i => (s.synclets i).opLru.nbEntry

/-- The operation that the dispatcher is about to give to a synclet. -/
def Server.toGive (par : Param) (s : Server) : Option OpRef :=
  match s.dispatcher with
  | .sleep => none
  | .walk k current => (s.opLru.entries[k]?).bind fun e =>
    if e.valid && !inWindow par current (s.desc e.pdata.addr).opTime then some e.pdata else none

/-- The dispatcher leaves operations on one object with one synclet and adds none to a list that
its synclet is collecting, and no synclet releases a descriptor that its caller is still to
read. -/
def KeepsOrder (par : Param) (s : Server) : Action → Prop
  | .dispatcher => ∀ r ∈ s.toGive par, ∀ c ∈ s.chosen par, (s.synclets c).pc.collects = false ∧
      ∀ i < par.nbSynclet, i ≠ c →
        ∀ q ∈ (s.synclets i).pending, ¬ Meets (s.objects q.posting) (s.objects r.posting)
  | .synclet i => ∀ r ∈ (s.synclets i).pc.releases, .posted r ∉ s.calls
  | _ => True

instance (par : Param) (s : Server) : (a : Action) → Decidable (KeepsOrder par s a)
  | .prepare _ _ _ _ => isTrue trivial
  | .post _ => isTrue trivial
  | .readBack _ => isTrue trivial
  | .wake _ => isTrue trivial
  | .dispatcher => inferInstanceAs (Decidable (∀ r ∈ s.toGive par, ∀ c ∈ s.chosen par,
      (s.synclets c).pc.collects = false ∧
        ∀ i < par.nbSynclet, i ≠ c → ∀ q ∈ (s.synclets i).pending, _))
  | .synclet i => inferInstanceAs (Decidable (∀ r ∈ (s.synclets i).pc.releases, _))

end CloudNfs.MfslAsync
