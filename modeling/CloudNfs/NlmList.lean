import Mathlib.Data.List.Basic
import CloudNfs.ByteRange

/-!
# The NLM lock list (`support/nlm_util.c`)

The entries of `nlm_lock_list` and the functions that work on it while they hold
`nlm_lock_list_mutex`. An entry lives in a memory `mem` at an address; the list
itself is the list of the addresses on it.

Three things of the source are kept on purpose:

* ends of ranges are computed in wrapping 64-bit arithmetic (`rangeEnd`);
* `glist_del` leaves `NULL` links behind, so unlinking an entry that is not on the
  list dereferences `NULL`: the state is then `crashed`, and nothing runs any more;
* `glist_add_list_tail` takes a list whose two links are equal for an empty one, so
  it drops a list of exactly one element (`glistAddListTail`).

Allocation of the copies made by a split is taken to succeed (the source notes
`FIXME handle error` there).
-/

namespace CloudNfs.Nlm

/-! ## Data -/

/-- `netobj`: a counted byte string. -/
abbrev NetObj : Type := List UInt8

/-- The two values of `nlm_entry->state`. -/
inductive LockState where
  | granted
  | blocked
  deriving DecidableEq

/-- `nlm4_lock`, as decoded from the wire. -/
structure Nlm4Lock where
  callerName : List UInt8
  fh : NetObj
  oh : NetObj
  /-- the process on the host -/
  svid : Int32
  lOffset : UInt64
  /-- number of bytes, `0` for the rest of the file -/
  lLen : UInt64
  deriving DecidableEq

/-- `nlm4_lockargs`, as far as the lock list reads it. -/
structure Nlm4LockArgs where
  cookie : NetObj
  /-- an exclusive lock is wanted -/
  exclusive : Bool
  alock : Nlm4Lock

/-- An exclusive request for a range of one file, by the host whose name is one byte. -/
def exclusiveRequest (host : UInt8) (offset len : UInt64) : Nlm4LockArgs :=
  { cookie := [host], exclusive := true
    alock := { callerName := [host], fh := [7], oh := [host], svid := 1, lOffset := offset,
               lLen := len } }

/-- What an entry says about its lock: `nlm_lock_entry_t` without its reference
count. -/
structure LockInfo where
  callerName : List UInt8
  /-- the file handle -/
  fh : NetObj
  oh : NetObj
  /-- the cookie of the request that made the entry -/
  cookie : NetObj
  /-- the process on the host -/
  svid : Int32
  start : UInt64
  /-- number of bytes, `0` for the rest of the file -/
  len : UInt64
  /-- granted or blocked -/
  state : LockState
  exclusive : Bool
  deriving DecidableEq

/-- `nlm_lock_entry_t`. -/
structure NlmLockEntry extends LockInfo where
  /-- `ref_count`, an `int`: there are fewer than `2 ^ 31` references -/
  refCount : ℤ

/-- The callbacks that the lock manager queues for the asynchronous thread. -/
inductive Callback where
  /-- `do_nlm_grant_blocked_locks`, with its copy of the file handle -/
  | grantBlockedLocks (fh : NetObj)
  /-- `nlm4_send_grant_msg`, with a reference to its entry -/
  | sendGrantMsg (p : ℕ)
  /-- `nlm_resend_grant_msg`, with a reference to its entry -/
  | resendGrantMsg (p : ℕ)
  deriving DecidableEq

/-- The lock manager: entries, the list of locks and the queue of callbacks. -/
structure NlmState where
  mem : ℕ → NlmLockEntry
  /-- the addresses that are allocated -/
  alive : ℕ → Bool
  fresh : ℕ
  lockList : List ℕ
  queue : List Callback
  /-- a `NULL` pointer was dereferenced -/
  crashed : Bool

/-- An entry of zero bytes, as `Mem_Calloc` returns it. -/
def nullEntry : NlmLockEntry :=
  { callerName := [], fh := [], oh := [], cookie := [], svid := 0, start := 0, len := 0,
    state := .granted, exclusive := false, refCount := 0 }

/-- `nlm_init_locklist`: nothing allocated, nothing locked. -/
def nlmInitLocklist : NlmState :=
  { mem := fun _ => nullEntry, alive := fun _ => false, fresh := 0, lockList := [], queue := [],
    crashed := false }

/-! ## References -/

namespace NlmState

def set (s : NlmState) (p : ℕ) (e : NlmLockEntry) : NlmState :=
  { s with mem := Function.update s.mem p e }

def alloc (s : NlmState) (e : NlmLockEntry) : NlmState :=
  { s with
    mem := Function.update s.mem s.fresh e
    alive := Function.update s.alive s.fresh true
    fresh := s.fresh + 1 }

def free (s : NlmState) (p : ℕ) : NlmState := { s with alive := Function.update s.alive p false }

/-- `nlm_lock_entry_inc_ref`. -/
def incRef (s : NlmState) (p : ℕ) : NlmState :=
  s.set p { s.mem p with refCount := (s.mem p).refCount + 1 }

/-- `nlm_lock_entry_dec_ref`: the last reference frees the entry. -/
def decRef (s : NlmState) (p : ℕ) : NlmState :=
  let s := s.set p { s.mem p with refCount := (s.mem p).refCount - 1 }
  if (s.mem p).refCount = 0 then s.free p else s

/-- `nlm_async_callback`: queue a callback. -/
def nlmAsyncCallback (s : NlmState) (c : Callback) : NlmState := { s with queue := s.queue ++ [c] }

end NlmState

/-- `do_nlm_remove_from_locklist`: unlink the entry and drop the reference of the
list. -/
def doNlmRemoveFromLocklist (s : NlmState) (p : ℕ) : NlmState :=
  if p ∈ s.lockList then NlmState.decRef { s with lockList := s.lockList.erase p } p
  else { s with crashed := true }

/-! ## Ranges and conflicts -/

/-- The end of a range as the source computes it: `start + len` in 64 bits, and
`UINT64_MAX` when the length is zero. -/
def rangeEnd (start len : UInt64) : UInt64 :=
  if len ≠ 0 then start + len else 0xffffffffffffffff

/-- The test of the source for two ranges that overlap. -/
def rangesOverlap (start len offset llen : UInt64) : Bool :=
  decide (offset < rangeEnd start len) && decide (start < rangeEnd offset llen)

/-- The entry overlaps the requested range and one of the two is exclusive. -/
def conflicts (e : LockInfo) (lock : Nlm4Lock) (exclusive : Bool) : Bool :=
  rangesOverlap e.start e.len lock.lOffset lock.lLen && (e.exclusive || exclusive)

/-- The entry is granted, belongs to the file and conflicts with the request. -/
def blocks (e : LockInfo) (lock : Nlm4Lock) (exclusive : Bool) : Bool :=
  decide (e.fh = lock.fh) && decide (e.state = .granted) && conflicts e lock exclusive

/-- `get_nlm_overlapping_entry`: the first granted entry of the file that conflicts,
with a reference to it. -/
def getNlmOverlappingEntry (s : NlmState) (lock : Nlm4Lock) (exclusive : Bool) :
    NlmState × Option ℕ :=
  match s.lockList.find? fun p => blocks (s.mem p).toLockInfo lock exclusive with
  | none => (s, none)
  | some p => (s.incRef p, some p)

theorem getNlmOverlappingEntry_cases (s : NlmState) (lock : Nlm4Lock) (exclusive : Bool) :
    (getNlmOverlappingEntry s lock exclusive = (s, none) ∧
      ∀ q ∈ s.lockList, blocks (s.mem q).toLockInfo lock exclusive = false) ∨
    ∃ q ∈ s.lockList, blocks (s.mem q).toLockInfo lock exclusive = true ∧
      getNlmOverlappingEntry s lock exclusive = (s.incRef q, some q) := by
  rw [getNlmOverlappingEntry]
  split
  next hnone =>
    refine .inl ⟨rfl, fun q hq => ?_⟩
    exact Bool.eq_false_iff.mpr (List.find?_eq_none.mp hnone q hq)
  next q hsome =>
    have hq := List.find?_some hsome
    exact .inr ⟨q, List.mem_of_find?_eq_some hsome, hq, rfl⟩

/-! ## Adding a lock -/

/-- `nlm4_lock_to_nlm_lock_entry`, with the state and the references that
`nlm_add_to_locklist` gives the new entry: one for the list, one for the caller. -/
def nlm4LockToNlmLockEntry (arg : Nlm4LockArgs) (allow : Bool) : NlmLockEntry :=
  { callerName := arg.alock.callerName, fh := arg.alock.fh, oh := arg.alock.oh,
    cookie := arg.cookie, svid := arg.alock.svid, start := arg.alock.lOffset,
    len := arg.alock.lLen, state := if allow then .granted else .blocked,
    exclusive := arg.exclusive, refCount := 2 }

/-- A blocked entry for the same file, range and mode. -/
def matchesBlocked (e : LockInfo) (arg : Nlm4LockArgs) : Bool :=
  decide (e.fh = arg.alock.fh) && decide (e.state = .blocked) &&
    decide (e.start = arg.alock.lOffset) && decide (e.len = arg.alock.lLen) &&
    decide (e.exclusive = arg.exclusive)

/-- `nlm_add_to_locklist`: an equal blocked entry is returned again; otherwise a new
entry is added, granted if no entry of the file (granted or blocked) conflicts.
`ok` is the result of the allocation. -/
def nlmAddToLocklist (s : NlmState) (arg : Nlm4LockArgs) (ok : Bool) : NlmState × Option ℕ :=
  match s.lockList.find? fun p => matchesBlocked (s.mem p).toLockInfo arg with
  | some p => (s.incRef p, some p)
  | none =>
    let allow := !s.lockList.any fun p => decide ((s.mem p).fh = arg.alock.fh) &&
      conflicts (s.mem p).toLockInfo arg.alock arg.exclusive
    if ok then
      ({ s.alloc (nlm4LockToNlmLockEntry arg allow) with lockList := s.lockList ++ [s.fresh] },
        some s.fresh)
    else (s, none)

/-! ## Finding an entry -/

/-- The entry belongs to the owner of the lock, on the same file. -/
def sameOwner (e : LockInfo) (lock : Nlm4Lock) : Bool :=
  decide (e.callerName = lock.callerName) && decide (e.fh = lock.fh) && decide (e.oh = lock.oh) &&
    decide (e.svid = lock.svid)

/-- `nlm_find_lock_entry`. Looking for a granted lock only compares the owner. -/
def nlmFindLockEntry (s : NlmState) (lock : Nlm4Lock) (exclusive : Bool) (state : LockState) :
    NlmState × Option ℕ :=
  match s.lockList.find? fun p => sameOwner (s.mem p).toLockInfo lock &&
      (decide (state = .granted) ||
        (decide ((s.mem p).start = lock.lOffset) && decide ((s.mem p).len = lock.lLen) &&
          decide ((s.mem p).exclusive = exclusive) && decide ((s.mem p).state = state))) with
  | none => (s, none)
  | some p => (s.incRef p, some p)

theorem nlmFindLockEntry_spec {s : NlmState} {lock : Nlm4Lock} {exclusive : Bool}
    {state : LockState} {p : ℕ} (h : (nlmFindLockEntry s lock exclusive state).2 = some p) :
    p ∈ s.lockList ∧ sameOwner (s.mem p).toLockInfo lock = true := by
  rw [nlmFindLockEntry] at h
  split at h
  · cases h
  rename_i q hfind
  cases h
  have hq := List.find?_some hfind
  rw [Bool.and_eq_true] at hq
  exact ⟨List.mem_of_find?_eq_some hfind, hq.1⟩

def nlmFindLockEntryByCookie (s : NlmState) (cookie : NetObj) : NlmState × Option ℕ :=
  match s.lockList.find? fun p => decide ((s.mem p).cookie = cookie) with
  | none => (s, none)
  | some p => (s.incRef p, some p)

/-! ## Unlocking -/

/-- The state of the loop of `nlm_delete_lock_entry`. -/
structure DeleteAcc where
  /-- the lock manager -/
  st : NlmState
  split : List ℕ
  cnt : ℤ

/-- A copy of `e` with the range `[start, start + len)`, made by
`nlm_lock_entry_t_dup` and put on `split_list` with one reference. -/
def DeleteAcc.addPiece (acc : DeleteAcc) (e : NlmLockEntry) (start len : UInt64) : DeleteAcc :=
  { st := acc.st.alloc { e with start := start, len := len, refCount := 1 }
    split := acc.split ++ [acc.st.fresh]
    cnt := acc.cnt - 1 }

/-- The piece of the entry before the unlocked range. -/
def DeleteAcc.addLeft (acc : DeleteAcc) (e : NlmLockEntry) (lock : Nlm4Lock) : DeleteAcc :=
  if e.start < lock.lOffset then acc.addPiece e e.start (lock.lOffset - e.start) else acc

/-- The piece of the entry after the unlocked range. -/
def DeleteAcc.addRight (acc : DeleteAcc) (e : NlmLockEntry) (lock : Nlm4Lock) : DeleteAcc :=
  let lockEnd := rangeEnd lock.lOffset lock.lLen
  let entryEnd := rangeEnd e.start e.len
  if lockEnd < entryEnd then acc.addPiece e lockEnd (entryEnd - lockEnd) else acc

/-- The unlocked range does not reach the entry (`nothing to split`). -/
def outOfReach (e : LockInfo) (lock : Nlm4Lock) : Bool :=
  decide (rangeEnd lock.lOffset lock.lLen < e.start) ||
    decide (rangeEnd e.start e.len < lock.lOffset)

/-- The unlocked range covers the whole entry (`Fully overlap`). -/
def fullyOverlaps (e : LockInfo) (lock : Nlm4Lock) : Bool :=
  decide (lock.lOffset ≤ e.start) &&
    decide (rangeEnd e.start e.len ≤ rangeEnd lock.lOffset lock.lLen)

def doNlmDeleteLockEntry (lock : Nlm4Lock) (acc : DeleteAcc) (p : ℕ) : DeleteAcc :=
  let e := acc.st.mem p
  if outOfReach e.toLockInfo lock then acc
  else
    let acc := if fullyOverlaps e.toLockInfo lock then acc
      else (acc.addLeft e lock).addRight e lock
    { acc with st := doNlmRemoveFromLocklist acc.st p, cnt := acc.cnt + 1 }

/-- `glist_add_list_tail(list, new)`. The test `new->next == new->prev` is true for an
empty list and also for a list of one element, which is then left out. -/
def glistAddListTail (list new : List ℕ) : List ℕ := if new.length ≤ 1 then list else list ++ new

/-- The body of the loop of `nlm_delete_lock_entry`. -/
def deleteStep (lock : Nlm4Lock) (acc : DeleteAcc) (p : ℕ) : DeleteAcc :=
  if sameOwner (acc.st.mem p).toLockInfo lock then doNlmDeleteLockEntry lock acc p else acc

/-- The loop of `nlm_delete_lock_entry`, over the entries that were on the list when
it began: the body unlinks its own entry only, and new entries go to `split_list`. -/
def deleteLoop (s : NlmState) (lock : Nlm4Lock) : DeleteAcc :=
  s.lockList.foldl (deleteStep lock) ⟨s, [], 0⟩

/-- `nlm_delete_lock_entry`: remove the range from all the entries of the owner. -/
def nlmDeleteLockEntry (s : NlmState) (lock : Nlm4Lock) : NlmState × ℤ :=
  let acc := deleteLoop s lock
  ({ acc.st with lockList := glistAddListTail acc.st.lockList acc.split }, acc.cnt)

/-! ## Recovery and grants -/

/-- The body of the loop of `nlm_node_recovery`. -/
def recoveryStep (name : List UInt8) (s : NlmState) (p : ℕ) : NlmState :=
  if (s.mem p).callerName = name then
    let s := doNlmRemoveFromLocklist (s.incRef p) p
    let s := if (s.mem p).state = .granted then
        s.nlmAsyncCallback (.grantBlockedLocks (s.mem p).fh)
      else s
    s.decRef p
  else s

/-- `nlm_node_recovery`: drop all the entries of a host. -/
def nlmNodeRecovery (s : NlmState) (name : List UInt8) : NlmState :=
  s.lockList.foldl (recoveryStep name) s

/-- The request that `do_nlm_grant_blocked_locks` makes up for a blocked entry. Only
its handle and its range are read. -/
def dummyLock (e : LockInfo) : Nlm4Lock :=
  { callerName := [], fh := e.fh, oh := [], svid := 0, lOffset := e.start, lLen := e.len }

/-- The body of the loop of `do_nlm_grant_blocked_locks`. When the copy of the handle
fails the blocked entry is dropped. -/
def grantStep (fh : NetObj) (ok : ℕ → Bool) (s : NlmState) (p : ℕ) : NlmState :=
  let e := s.mem p
  if e.fh = fh ∧ e.state = .blocked then
    if ok p then
      match getNlmOverlappingEntry s (dummyLock e.toLockInfo) e.exclusive with
      | (s, some q) => s.decRef q
      | (s, none) =>
        (s.set p { e with state := .granted, refCount := e.refCount + 1 }).nlmAsyncCallback
          (.sendGrantMsg p)
    else doNlmRemoveFromLocklist s p
  else s

/-- The entry as `do_nlm_grant_blocked_locks` leaves it: granted, with a reference for
the callback. -/
def NlmLockEntry.grant (e : NlmLockEntry) : NlmLockEntry :=
  { e with state := .granted, refCount := e.refCount + 1 }

theorem grantStep_cases (fh : NetObj) (ok : ℕ → Bool) (s : NlmState) (p : ℕ) :
    grantStep fh ok s p = s ∨
    (∃ q ∈ s.lockList, grantStep fh ok s p = (s.incRef q).decRef q) ∨
    ((s.mem p).state = .blocked ∧ grantStep fh ok s p = doNlmRemoveFromLocklist s p) ∨
    ((s.mem p).state = .blocked ∧
      (∀ q ∈ s.lockList, blocks (s.mem q).toLockInfo (dummyLock (s.mem p).toLockInfo)
        (s.mem p).exclusive = false) ∧
      grantStep fh ok s p = (s.set p (s.mem p).grant).nlmAsyncCallback (.sendGrantMsg p)) := by
  simp only [grantStep]
  split
  next h =>
    split
    · rcases getNlmOverlappingEntry_cases s (dummyLock (s.mem p).toLockInfo) (s.mem p).exclusive
        with ⟨heq, hfree⟩ | ⟨q, hq, -, heq⟩
      · rw [heq]
        exact .inr (.inr (.inr ⟨h.2, hfree, rfl⟩))
      · rw [heq]
        exact .inr (.inl ⟨q, hq, rfl⟩)
    · exact .inr (.inr (.inl ⟨h.2, rfl⟩))
  · exact .inl rfl

/-- `do_nlm_grant_blocked_locks`. `ok p` is the result of the allocation made for the
entry `p`. -/
def doNlmGrantBlockedLocks (s : NlmState) (fh : NetObj) (ok : ℕ → Bool) : NlmState :=
  s.lockList.foldl (grantStep fh ok) s

/-! ## What the operations leave alone

Counting references never changes what an entry says about its lock. -/

namespace NlmState

variable {s : NlmState} {p : ℕ} {e : NlmLockEntry} {c : Callback}

def info (s : NlmState) (p : ℕ) : LockInfo := (s.mem p).toLockInfo

@[simp] theorem info_set : (s.set p e).info = Function.update s.info p e.toLockInfo := by
  funext q
  by_cases hq : q = p
  · subst hq
    simp [info, set]
  · simp [info, set, hq]

@[simp] theorem info_incRef : (s.incRef p).info = s.info := by
  rw [incRef, info_set]
  exact Function.update_eq_self p s.info

@[simp] theorem lockList_incRef : (s.incRef p).lockList = s.lockList := rfl

@[simp] theorem fresh_incRef : (s.incRef p).fresh = s.fresh := rfl

@[simp] theorem info_decRef : (s.decRef p).info = s.info := by
  have hset : (s.set p { s.mem p with refCount := (s.mem p).refCount - 1 }).info = s.info := by
    rw [info_set]
    exact Function.update_eq_self p s.info
  rw [← hset, decRef]
  split <;> rfl

@[simp] theorem lockList_decRef : (s.decRef p).lockList = s.lockList := by
  rw [decRef]
  split <;> rfl

@[simp] theorem fresh_decRef : (s.decRef p).fresh = s.fresh := by
  rw [decRef]
  split <;> rfl

@[simp] theorem info_alloc : (s.alloc e).info = Function.update s.info s.fresh e.toLockInfo := by
  funext q
  by_cases hq : q = s.fresh
  · subst hq
    simp [info, alloc]
  · simp [info, alloc, hq]

@[simp] theorem lockList_alloc : (s.alloc e).lockList = s.lockList := rfl

@[simp] theorem info_nlmAsyncCallback : (s.nlmAsyncCallback c).info = s.info := rfl

@[simp] theorem info_remove : (doNlmRemoveFromLocklist s p).info = s.info := by
  rw [doNlmRemoveFromLocklist]
  split
  · exact info_decRef
  · rfl

@[simp] theorem fresh_remove : (doNlmRemoveFromLocklist s p).fresh = s.fresh := by
  rw [doNlmRemoveFromLocklist]
  split
  · exact fresh_decRef
  · rfl

@[simp] theorem lockList_remove : (doNlmRemoveFromLocklist s p).lockList = s.lockList.erase p := by
  rw [doNlmRemoveFromLocklist]
  split
  · exact lockList_decRef
  · exact (List.erase_of_not_mem ‹_›).symm

end NlmState

theorem lockList_addPieces (acc : DeleteAcc) (e : NlmLockEntry) (lock : Nlm4Lock) :
    ((acc.addLeft e lock).addRight e lock).st.lockList = acc.st.lockList := by
  simp only [DeleteAcc.addRight, DeleteAcc.addLeft]
  split <;> split <;> rfl

/-- The entries still to be visited by a scan: distinct, and on the list. -/
structure OnList (rest : List ℕ) (n : NlmState) : Prop where
  nodup : rest.Nodup
  subset : rest ⊆ n.lockList

namespace OnList

variable {n n' : NlmState} {p : ℕ} {rest : List ℕ}

theorem head (h : OnList (p :: rest) n) : p ∈ n.lockList := h.subset List.mem_cons_self

theorem tail (h : OnList (p :: rest) n) (hl : n'.lockList = n.lockList) : OnList rest n' :=
  ⟨h.nodup.of_cons, fun _ hq => hl ▸ h.subset (.tail p hq)⟩

theorem tail_erase (h : OnList (p :: rest) n) (hl : n'.lockList = n.lockList.erase p) :
    OnList rest n' := by
  refine ⟨h.nodup.of_cons, fun q hq => ?_⟩
  have hne : q ≠ p := fun heq => (List.nodup_cons.mp h.nodup).1 (heq ▸ hq)
  rw [hl]
  exact (List.mem_erase_of_ne hne).mpr (h.subset (.tail p hq))

end OnList

end CloudNfs.Nlm
