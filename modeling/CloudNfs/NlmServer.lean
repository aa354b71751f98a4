import CloudNfs.Run
import CloudNfs.NlmList

/-!
# The NLM server: handlers and the asynchronous thread

The handlers of `NFS_Protocols/nlm_*.c` and the thread of `support/nlm_async.c`, any
number of handlers running at a time. A section under `nlm_lock_list_mutex`, under
the lock of an entry or under `nlm_async_queue_mutex` is one action; between two
sections of a handler the others may do anything.

* A `Request` performs the first section of its handler; what is left to do is a
  `Handler`, which always holds a reference to one entry.
* The asynchronous thread collects the queue, **in reverse** (`glist_add` puts each
  callback at the head of `nlm_async_tmp_queue`), and then runs the callbacks one by
  one.
* `nlm4_send_grant_msg` has one clean-up for all its ends, the successful call
  included: it removes the entry from the list, queues a scan for blocked locks and
  drops its reference.

`nlm_unmonitor_host` only reads the list and talks to `statd`; it is left out.
-/

namespace CloudNfs.Nlm

/-! ## Requests and handlers -/

/-- The values of `nlm4_stats` that the handlers use. -/
inductive Nlm4Stats where
  | granted
  | denied
  | deniedNolocks
  | blocked
  | deniedGracePeriod
  | staleFh
  deriving DecidableEq

def LockState.stat : LockState → Nlm4Stats
  | .granted => .granted
  | .blocked => .blocked

/-- What a request meets outside the lock list. -/
structure RequestEnv where
  /-- `nfs3_FhandleToFSAL` accepts the handle -/
  validHandle : Bool
  /-- `cache_inode_get` finds the file -/
  cached : Bool
  /-- `in_nlm_grace_period`, at its first call -/
  inGrace : Bool
  /-- `in_nlm_grace_period`, at the second call of `nlm4_Lock` -/
  inGraceAgain : Bool
  /-- `nsm_monitor` succeeds -/
  monitored : Bool
  /-- the allocation of a lock entry succeeds -/
  allocated : Bool

def clearEnv : RequestEnv :=
  { validHandle := true, cached := true, inGrace := false, inGraceAgain := false,
    monitored := true, allocated := true }

/-- What clients and `statd` ask for. -/
inductive Request where
  | lock (arg : Nlm4LockArgs) (reclaim : Bool) (env : RequestEnv)
  | unlock (alock : Nlm4Lock) (env : RequestEnv)
  | cancel (alock : Nlm4Lock) (exclusive : Bool) (env : RequestEnv)
  | grantedRes (cookie : NetObj) (stat : Nlm4Stats)
  | nodeRecovery (name : List UInt8)

/-- What a running handler still has to do. -/
inductive Handler where
  /-- `nlm4_Lock` after `nlm_add_to_locklist` -/
  | lockAdded (p : ℕ)
  /-- `nlm4_Unlock` after `nlm_find_lock_entry` -/
  | unlockFound (alock : Nlm4Lock) (p : ℕ)
  /-- `nlm4_Unlock` after `nlm_lock_entry_get_state` -/
  | unlockRead (alock : Nlm4Lock) (p : ℕ) (lckState : LockState)
  /-- `nlm4_Unlock` after `nlm_delete_lock_entry` -/
  | unlockDeleted (alock : Nlm4Lock) (p : ℕ) (lckState : LockState)
  /-- `nlm4_Unlock` before its last `nlm_lock_entry_dec_ref` -/
  | unlockQueued (p : ℕ)
  /-- `nlm4_Cancel` after `nlm_find_lock_entry` -/
  | cancelFound (alock : Nlm4Lock) (p : ℕ)
  /-- `nlm4_Cancel` after `do_cancel_lock` -/
  | cancelRemoved (p : ℕ)
  /-- `nlm4_Granted_Res` after `nlm_find_lock_entry_by_cookie` -/
  | grantedResFound (p : ℕ) (stat : Nlm4Stats)
  deriving DecidableEq

/-- The entry that a handler holds a reference to. -/
def Handler.entry : Handler → ℕ
  | .lockAdded p => p
  | .unlockFound _ p => p
  | .unlockRead _ p _ => p
  | .unlockDeleted _ p _ => p
  | .unlockQueued p => p
  | .cancelFound _ p => p
  | .cancelRemoved p => p
  | .grantedResFound p _ => p

/-- The entry that a queued callback holds a reference to. -/
def Callback.entry : Callback → Option ℕ
  | .grantBlockedLocks _ => none
  | .sendGrantMsg p => some p
  | .resendGrantMsg p => some p

/-- Where the asynchronous thread is. -/
inductive AsyncPc where
  | idle
  | callback (c : Callback)
  /-- in `nlm4_send_grant_msg`, at `free_nlm_lock_entry` -/
  | sendRemove (p : ℕ)
  /-- in `nlm4_send_grant_msg`, at the call of `nlm_grant_blocked_locks` -/
  | sendQueue (p : ℕ)
  /-- in `nlm4_send_grant_msg`, at `nlm_lock_entry_dec_ref` -/
  | sendDecRef (p : ℕ)

/-- The entry that the asynchronous thread holds a reference to. -/
def AsyncPc.entry : AsyncPc → Option ℕ
  | .idle => none
  | .callback c => c.entry
  | .sendRemove p => some p
  | .sendQueue p => some p
  | .sendDecRef p => some p

/-- How the sending of a message ends. -/
inductive SendResult where
  | noMemory
  /-- the call did not return `RPC_SUCCESS` -/
  | rpcFailed
  /-- the call returned `RPC_SUCCESS` -/
  | rpcSuccess
  deriving DecidableEq

/-- The server: the lock list, the running handlers, the asynchronous thread and the
answers given so far. -/
structure Server where
  /-- the lock list and the queue -/
  nlm : NlmState
  handlers : List Handler
  tmpQueue : List Callback
  async : AsyncPc
  replies : List Nlm4Stats

def nlmInit : Server :=
  { nlm := nlmInitLocklist, handlers := [], tmpQueue := [], async := .idle, replies := [] }

namespace Server

def reply (s : Server) (stat : Nlm4Stats) : Server := { s with replies := s.replies ++ [stat] }

def spawn (s : Server) (h : Handler) : Server := { s with handlers := h :: s.handlers }

/-- The rest of a handler that found its entry, or `stat` when there is none. -/
def found (s : Server) (r : NlmState × Option ℕ) (h : ℕ → Handler) (stat : Nlm4Stats) : Server :=
  match r with
  | (n, some p) => { s with nlm := n }.spawn (h p)
  | (n, none) => { s with nlm := n }.reply stat

end Server

/-! ## The first sections -/

/-- `nlm_monitor_host` fails: no entry of the host is on the list and `nsm_monitor`
fails. -/
def nlmMonitorHostFails (n : NlmState) (name : List UInt8) (env : RequestEnv) : Bool :=
  !(n.lockList.any fun p => decide ((n.mem p).callerName = name)) && !env.monitored

/-- `nlm4_Lock` up to `nlm_add_to_locklist`. -/
def nlm4Lock (s : Server) (arg : Nlm4LockArgs) (reclaim : Bool) (env : RequestEnv) : Server :=
  if !env.validHandle then s  -- `NFS_REQ_DROP`
  else if !env.cached then s.reply .staleFh
  else if env.inGrace && !reclaim then s.reply .deniedGracePeriod
  else if !env.inGraceAgain && reclaim then s.reply .deniedGracePeriod
  else if nlmMonitorHostFails s.nlm arg.alock.callerName env then s.reply .deniedNolocks
  else s.found (nlmAddToLocklist s.nlm arg env.allocated) .lockAdded .deniedNolocks

/-- `nlm4_Unlock` up to `nlm_find_lock_entry`. -/
def nlm4Unlock (s : Server) (alock : Nlm4Lock) (env : RequestEnv) : Server :=
  if env.inGrace then s.reply .deniedGracePeriod
  else if !env.validHandle then s
  else if !env.cached then s.reply .staleFh
  else s.found (nlmFindLockEntry s.nlm alock false .granted) (.unlockFound alock) .deniedNolocks

/-- `nlm4_Cancel` up to `nlm_find_lock_entry`. -/
def nlm4Cancel (s : Server) (alock : Nlm4Lock) (exclusive : Bool) (env : RequestEnv) : Server :=
  if env.inGrace then s.reply .deniedGracePeriod
  else if !env.validHandle then s
  else if !env.cached then s.reply .staleFh
  else s.found (nlmFindLockEntry s.nlm alock exclusive .blocked) (.cancelFound alock) .denied

/-- `nlm4_Granted_Res` up to `nlm_find_lock_entry_by_cookie`; it gives no answer. -/
def nlm4GrantedRes (s : Server) (cookie : NetObj) (stat : Nlm4Stats) : Server :=
  match nlmFindLockEntryByCookie s.nlm cookie with
  | (n, some p) => { s with nlm := n }.spawn (.grantedResFound p stat)
  | (n, none) => { s with nlm := n }

def start (s : Server) : Request → Server
  | .lock arg reclaim env => nlm4Lock s arg reclaim env
  | .unlock alock env => nlm4Unlock s alock env
  | .cancel alock exclusive env => nlm4Cancel s alock exclusive env
  | .grantedRes cookie stat => nlm4GrantedRes s cookie stat
  | .nodeRecovery name => { s with nlm := nlmNodeRecovery s.nlm name }

/-! ## The other sections -/

/-- The next section of a handler, which was taken off `handlers`. -/
def resume (s : Server) : Handler → Server
  | .lockAdded p => { s with nlm := s.nlm.decRef p }.reply (s.nlm.mem p).state.stat
  | .unlockFound alock p => s.spawn (.unlockRead alock p (s.nlm.mem p).state)
  | .unlockRead alock p lckState =>
    { s with nlm := (nlmDeleteLockEntry s.nlm alock).1 }.spawn (.unlockDeleted alock p lckState)
  | .unlockDeleted alock p .granted =>
    { s with nlm := s.nlm.nlmAsyncCallback (.grantBlockedLocks alock.fh) }.spawn (.unlockQueued p)
  | .unlockDeleted _ p .blocked => s.spawn (.unlockQueued p)
  | .unlockQueued p => { s with nlm := s.nlm.decRef p }.reply .granted
  | .cancelFound _ p => { s with nlm := doNlmRemoveFromLocklist s.nlm p }.spawn (.cancelRemoved p)
  | .cancelRemoved p => { s with nlm := s.nlm.decRef p }.reply .granted
  | .grantedResFound p .deniedGracePeriod =>
    { s with nlm := s.nlm.nlmAsyncCallback (.resendGrantMsg p) }
  | .grantedResFound p _ => { s with nlm := s.nlm.decRef p }

/-- `nlm4_send_grant_msg` up to `free_nlm_lock_entry`. The label stands right after the
test of the result, so a successful call goes on to it like the others. -/
def nlm4SendGrantMsg (p : ℕ) : SendResult → AsyncPc
  | .noMemory => .sendRemove p
  | .rpcFailed => .sendRemove p
  | .rpcSuccess => .sendRemove p

/-- The next section of the asynchronous thread, `none` while it waits. `ok` gives the
results of the allocations of `do_nlm_grant_blocked_locks`. -/
def asyncStep (s : Server) (ok : ℕ → Bool) (result : SendResult) : Option Server :=
  match s.async with
  | .idle =>
    match s.tmpQueue with
    | c :: rest => some { s with tmpQueue := rest, async := .callback c }
    | [] =>
      if s.nlm.queue = [] then none
      else some { s with tmpQueue := s.nlm.queue.reverse, nlm := { s.nlm with queue := [] } }
  | .callback (.grantBlockedLocks fh) =>
    some { s with nlm := doNlmGrantBlockedLocks s.nlm fh ok, async := .idle }
  | .callback (.sendGrantMsg p) => some { s with async := nlm4SendGrantMsg p result }
  -- `nlm_resend_grant_msg` sleeps before it does the same
  | .callback (.resendGrantMsg p) => some { s with async := nlm4SendGrantMsg p result }
  | .sendRemove p => some { s with nlm := doNlmRemoveFromLocklist s.nlm p, async := .sendQueue p }
  | .sendQueue p =>
    some { s with
      nlm := s.nlm.nlmAsyncCallback (.grantBlockedLocks (s.nlm.mem p).fh), async := .sendDecRef p }
  | .sendDecRef p => some { s with nlm := s.nlm.decRef p, async := .idle }

inductive Action where
  | request (r : Request)
  /-- a running handler performs its next section -/
  | handler (h : Handler)
  /-- the asynchronous thread performs its next section; the results of its allocations
  and of its call -/
  | async (ok : ℕ → Bool) (result : SendResult)

def serverStep (s : Server) (a : Action) : Option Server :=
  if s.nlm.crashed then none
  else
    match a with
    | .request r => some (start s r)
    | .handler h =>
      if h ∈ s.handlers then some (resume { s with handlers := s.handlers.erase h } h) else none
    | .async ok result => asyncStep s ok result

theorem serverStep_cases {s t : Server} {a : Action} (h : serverStep s a = some t) :
    s.nlm.crashed = false ∧
      ((∃ r, a = .request r ∧ t = start s r) ∨
        (∃ h, a = .handler h ∧ h ∈ s.handlers ∧
          t = resume { s with handlers := s.handlers.erase h } h) ∨
        ∃ ok result, a = .async ok result ∧ asyncStep s ok result = some t) := by
  cases hcrash : s.nlm.crashed with
  | true => simp [serverStep, hcrash] at h
  | false =>
    refine ⟨rfl, ?_⟩
    cases a with
    | request r =>
      simp only [serverStep, hcrash, Bool.false_eq_true, if_false, Option.some.injEq] at h
      exact .inl ⟨r, rfl, h.symm⟩
    | handler h' =>
      simp only [serverStep, hcrash, Bool.false_eq_true, if_false, Option.ite_none_right_eq_some,
        Option.some.injEq] at h
      exact .inr (.inl ⟨h', rfl, h.1, h.2.symm⟩)
    | async ok result =>
      simp only [serverStep, hcrash, Bool.false_eq_true, if_false] at h
      exact .inr (.inr ⟨ok, result, rfl, h⟩)

theorem handlers_asyncStep {s t : Server} {ok : ℕ → Bool} {result : SendResult}
    (h : asyncStep s ok result = some t) : t.handlers = s.handlers := by
  obtain ⟨nlm, handlers, tmpQueue, async, replies⟩ := s
  cases async with
  | idle =>
    cases tmpQueue with
    | cons c rest =>
      cases h
      rfl
    | nil =>
      simp only [asyncStep] at h
      split at h
      · cases h
      · cases h
        rfl
  | callback c =>
    cases c <;>
    · cases h
      rfl
  | sendRemove p =>
    cases h
    rfl
  | sendQueue p =>
    cases h
    rfl
  | sendDecRef p =>
    cases h
    rfl

theorem cancelFound_of_resume {s : Server} {h : Handler} {alock : Nlm4Lock} {p : ℕ}
    (hmem : Handler.cancelFound alock p ∈ (resume s h).handlers) :
    Handler.cancelFound alock p ∈ s.handlers := by
  have hcons : ∀ {h' : Handler}, Handler.cancelFound alock p ≠ h' →
      Handler.cancelFound alock p ∈ h' :: s.handlers → Handler.cancelFound alock p ∈ s.handlers :=
    fun hne hmem => (List.mem_cons.mp hmem).resolve_left hne
  cases h with
  | unlockFound alock p | unlockRead alock p lckState | cancelFound alock p =>
    exact hcons (by simp) hmem
  | unlockDeleted alock p lckState =>
    cases lckState with
    | granted | blocked => exact hcons (by simp) hmem
  | lockAdded p | unlockQueued p | cancelRemoved p => exact hmem
  | grantedResFound p stat => cases stat <;> exact hmem

end CloudNfs.Nlm
