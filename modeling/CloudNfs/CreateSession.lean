import CloudNfs.ClientTables
import CloudNfs.Nfs41Session

/-!
# CREATE_SESSION (`NFS_Protocols/nfs41_op_create_session.c`, `support/nfs_session_id.c`)

`nfs41_op_create_session` confirms the client and counts its sequence id up before it takes a
session from the pool, looks at the flags and puts the session into the table. Each of these can
fail, and then the client stays confirmed, its sequence id is gone, and the session is lost.

* `createSession_failsCleanly_iff` — a failure leaves them alone exactly if it comes before the
  confirmation.
-/

namespace CloudNfs.Nfs41.CreateSession

open ClientId Prealloc

/-! ## Data -/

/-- `channel_attrs4`. -/
structure ChannelAttrs where
  caHeaderpadsize : UInt32
  /-- the size of a request -/
  caMaxrequestsize : UInt32
  /-- the size of a reply -/
  caMaxresponsesize : UInt32
  /-- the size of a reply that is cached -/
  caMaxresponsesizeCached : UInt32
  /-- the operations in a request -/
  caMaxoperations : UInt32
  caMaxrequests : UInt32
  caRdmaIrd : List UInt32
  deriving DecidableEq

/-- A session id: the clientid, a number, and zeros. -/
structure SessionId where
  clientid : UInt64
  seq : UInt32
  deriving DecidableEq

/-- `nfs41_session_t`. -/
structure Nfs41Session where
  clientid : UInt64
  sequence : UInt32
  sessionFlags : UInt32
  sessionId : SessionId
  foreChannelAttrs : ChannelAttrs
  backChannelAttrs : ChannelAttrs
  slots : UInt32 → Slot

/-- The server, as far as CREATE_SESSION knows it. -/
structure Server (Cred : Type) where
  clients : Clients Cred
  htSessionId : SessionId → Option ℕ
  sessions : ℕ → Nfs41Session
  /-- `pool_session` of each worker -/
  poolSession : Pools
  globalSequence : UInt32

/-- `CREATE_SESSION4args`. -/
structure Args where
  csaClientid : UInt64
  csaSequence : UInt32
  csaFlags : UInt32
  csaForeChanAttrs : ChannelAttrs
  csaBackChanAttrs : ChannelAttrs
  csaCbProgram : UInt32

structure Env where
  /-- the key to look for the client -/
  getKey : Bool
  /-- new sessions -/
  alloc : Bool
  key : Bool
  node : Bool

/-- `csr_status`. -/
inductive CsrStatus where
  /-- `NFS4_OK` -/
  | ok
  | staleClientid
  | seqMisordered
  | serverfault
  | inval
  deriving DecidableEq

/-- `CREATE_SESSION4resok`. -/
structure CsrResok where
  csrSessionid : SessionId
  csrSequence : UInt32
  csrFlags : UInt32
  csrForeChanAttrs : ChannelAttrs
  csrBackChanAttrs : ChannelAttrs

/-! ## The code -/

section

variable {Cred : Type}

/-- `nfs41_Build_sessionid`: the number goes up, and is in the id. -/
def nfs41BuildSessionid (s : Server Cred) (clientid : UInt64) : Server Cred × SessionId :=
  ({ s with globalSequence := s.globalSequence + 1 }, ⟨clientid, s.globalSequence + 1⟩)

/-- `nfs41_Session_Set`, which does not overwrite. -/
def nfs41SessionSet (s : Server Cred) (sessionid : SessionId) (p : ℕ) (env : Env) :
    Server Cred × Bool :=
  if env.key = false then (s, false)
  else if s.htSessionId sessionid ≠ none then (s, false)
  else if env.node = false then (s, false)
  else ({ s with htSessionId := setEntry s.htSessionId sessionid (some p) }, true)

def createSession4FlagConnBackChan : UInt32 := 2

/-- The session after `memset` and what follows it. -/
def newSession (args : Args) : Nfs41Session where
  clientid := args.csaClientid
  sequence := 1
  sessionFlags := createSession4FlagConnBackChan
  sessionId := ⟨0, 0⟩
  foreChannelAttrs := { args.csaForeChanAttrs with caMaxrequests := nfs41NbSlots }
  backChannelAttrs := args.csaBackChanAttrs
  slots := fun _ => Slot.cleared

def setRecord (s : Server Cred) (p : ℕ) (record : ClientRecord Cred) : Server Cred :=
  { s with clients := { s.clients with mem := Function.update s.clients.mem p record } }

/-- The end of `nfs41_op_create_session`, which fills the session and puts it into the table. -/
def fillSession (s : Server Cred) (pnfsClientid pnfs41Session : ℕ) (args : Args)
    (data : CompoundData) (env : Env) : Server Cred × CompoundData × CsrStatus × Option CsrResok :=
  let (s, sessionId) := nfs41BuildSessionid s args.csaClientid
  let session := { newSession args with sessionId := sessionId }
  let s := { s with sessions := Function.update s.sessions pnfs41Session session }
  let data := { data with pcachedRes := some .createSession }
  let s := setRecord s pnfsClientid
    { s.clients.mem pnfsClientid with createSessionCacheUsed := true }
  let (s, set) := nfs41SessionSet s sessionId pnfs41Session env
  if set = false then (s, data, .serverfault, none)
  else
    (s, data, .ok, some ⟨sessionId, 1, createSession4FlagConnBackChan, session.foreChannelAttrs,
      session.backChannelAttrs⟩)

/-- `nfs41_op_create_session` for the worker `w`, with what `GetPreferedPool` makes of
`nb_pre_state_v4`. The result is not there
when it comes from the cache of the client. -/
def nfs41OpCreateSession (preferedPool : ℕ) (s : Server Cred) (w : ℕ) (args : Args)
    (data : CompoundData) (env : Env) : Server Cred × CompoundData × CsrStatus × Option CsrResok :=
  match nfsClientIdGetPointer s.clients args.csaClientid env.getKey with
  | .error _ => (s, data, .staleClientid, none)
  | .ok pnfsClientid =>
    let record := s.clients.mem pnfsClientid
    let data := { data with useDrc := false }
    if data.oppos = 0 ∧ args.csaSequence + 1 = record.createSessionSequence ∧
        record.createSessionCacheUsed = true then
      (s, { data with
        useDrc := true
        pcachedRes := some .createSession }, .ok, none)
    else if data.oppos = 0 ∧ args.csaSequence ≠ record.createSessionSequence then
      (s, data, .seqMisordered, none)
    else
      let record :=
        { record with
          confirmed := .confirmed
          cbProgram := args.csaCbProgram
          createSessionSequence := record.createSessionSequence + 1 }
      let s := setRecord s pnfsClientid record
      match s.poolSession.get w preferedPool env.alloc with
      | none => (s, data, .serverfault, none)
      | some (pnfs41Session, pool) =>
        let s := { s with poolSession := pool }
        if args.csaFlags > createSession4FlagConnRdma then (s, data, .inval, none)
        else fillSession s pnfsClientid pnfs41Session args data env

/-! ## The property -/

def Server.session (s : Server Cred) (sessionid : SessionId) : Option Nfs41Session :=
  (s.htSessionId sessionid).map s.sessions

/-- What CREATE_SESSION works on is what it was. -/
structure Unchanged (s t : Server Cred) : Prop where
  /-- the records of clients, and their tables -/
  clients : t.clients = s.clients
  session : t.session = s.session
  poolSession : t.poolSession = s.poolSession

/-- The sequence id is the next one, or SEQUENCE has been before. -/
def Current (args : Args) (data : CompoundData) (record : ClientRecord Cred) : Prop :=
  data.oppos ≠ 0 ∨ args.csaSequence = record.createSessionSequence

/-- There is a session, the flags are known, and the session gets into the table. -/
structure Completes (preferedPool : ℕ) (s : Server Cred) (w : ℕ) (args : Args) (env : Env) :
    Prop where
  session : s.poolSession.get w preferedPool env.alloc ≠ none
  flags : ¬ args.csaFlags > createSession4FlagConnRdma
  key : env.key = true
  absent : s.htSessionId ⟨args.csaClientid, s.globalSequence + 1⟩ = none
  node : env.node = true

/-! ## Each exit -/

variable {nb w p : ℕ} {s t : Server Cred} {args : Args} {data : CompoundData} {env : Env}

def Args.toClient (args : Args) (data : CompoundData) : CreateSessionArgs :=
  ⟨args.csaClientid, args.csaSequence, args.csaCbProgram, args.csaFlags, data.oppos⟩

variable {record : ClientRecord Cred} {session : Bool}

theorem setRecord_mem : (setRecord s p record).clients.mem p = record := by
  rw [setRecord]
  exact Function.update_self ..

theorem nfs41SessionSet_clients (s : Server Cred) (sessionid : SessionId) (p : ℕ) (env : Env) :
    (nfs41SessionSet s sessionid p env).1.clients = s.clients := by
  rw [nfs41SessionSet]
  split
  · rfl
  split
  · rfl
  split <;> rfl

theorem nfs41SessionSet_iff {sessionid : SessionId} :
    (nfs41SessionSet s sessionid p env).2 = true ↔
      env.key = true ∧ s.htSessionId sessionid = none ∧ env.node = true := by
  rw [nfs41SessionSet]
  split
  next hkey => exact iff_of_false (by rintro ⟨⟩) fun h => Bool.noConfusion (hkey.symm.trans h.1)
  rename_i hkey
  split
  next hid => exact iff_of_false (by rintro ⟨⟩) fun h => hid h.2.1
  rename_i hid
  split
  next hnode => exact iff_of_false (by rintro ⟨⟩) fun h => Bool.noConfusion (hnode.symm.trans h.2.2)
  rename_i hnode
  refine iff_of_true rfl ⟨?_, not_not.mp hid, ?_⟩
  · exact Bool.eq_true_of_not_eq_false hkey
  · exact Bool.eq_true_of_not_eq_false hnode

theorem fillSession_spec (s : Server Cred) (p q : ℕ) (args : Args) (data : CompoundData)
    (env : Env) :
    ((fillSession s p q args data env).2.2.1 = .ok ↔
      env.key = true ∧ s.htSessionId ⟨args.csaClientid, s.globalSequence + 1⟩ = none ∧
        env.node = true) ∧
      ((fillSession s p q args data env).1.clients.mem p).createSessionSequence =
        (s.clients.mem p).createSessionSequence := by
  rw [fillSession, nfs41BuildSessionid]
  dsimp only
  generalize hs1 : setRecord _ p _ = s1
  have hid : s1.htSessionId ⟨args.csaClientid, s.globalSequence + 1⟩ =
      s.htSessionId ⟨args.csaClientid, s.globalSequence + 1⟩ := by
    rw [← hs1]
    rfl
  have hsequence : (s1.clients.mem p).createSessionSequence =
      (s.clients.mem p).createSessionSequence := by
    rw [← hs1, setRecord_mem]
  rw [← hid, ← nfs41SessionSet_iff (p := q)]
  have hclients :=
    nfs41SessionSet_clients s1 ⟨args.csaClientid, s.globalSequence + 1⟩ q env
  generalize nfs41SessionSet _ _ _ _ = r at hclients ⊢
  obtain ⟨s2, set⟩ := r
  dsimp only at hclients ⊢
  rw [← hsequence, ← hclients]
  cases set with
  | false => exact ⟨iff_of_false nofun nofun, rfl⟩
  | true => exact ⟨iff_of_true rfl rfl, rfl⟩

theorem createSessionRecord_stop {args : CreateSessionArgs}
    (hstop : args.oppos = 0 ∧ (args.csaSequence + 1 = record.createSessionSequence ∧
      record.createSessionCacheUsed = true ∨ args.csaSequence ≠ record.createSessionSequence)) :
    createSessionRecord args session record = record := if_pos hstop

theorem createSessionRecord_go {args : CreateSessionArgs}
    (hgo : ¬ (args.oppos = 0 ∧ (args.csaSequence + 1 = record.createSessionSequence ∧
      record.createSessionCacheUsed = true ∨ args.csaSequence ≠ record.createSessionSequence))) :
    createSessionRecord args session record =
      let record :=
        { record with
          confirmed := .confirmed
          cbProgram := args.csaCbProgram
          createSessionSequence := record.createSessionSequence + 1 }
      if session = false then record
      else if args.csaFlags > createSession4FlagConnRdma then record
      else { record with createSessionCacheUsed := true } := if_neg hgo

theorem fillSession_clients {q : ℕ} : (fillSession s p q args data env).1.clients =
    (setRecord s p { s.clients.mem p with createSessionCacheUsed := true }).clients := by
  rw [fillSession, nfs41BuildSessionid]
  dsimp only
  split
  · exact nfs41SessionSet_clients _ _ _ _
  · exact nfs41SessionSet_clients _ _ _ _

/-- **The clients after CREATE_SESSION** are those of the model of the client tables alone. -/
theorem clients_eq : (nfs41OpCreateSession nb s w args data env).1.clients =
    ClientId.nfs41OpCreateSession s.clients (args.toClient data) env.getKey
      (s.poolSession.get w nb env.alloc).isSome := by
  rw [nfs41OpCreateSession, ClientId.nfs41OpCreateSession]
  have hclientid : (args.toClient data).csaClientid = args.csaClientid := rfl
  rw [hclientid]
  rcases nfsClientIdGetPointer s.clients args.csaClientid env.getKey with status | p
  · rfl
  dsimp only
  split
  next hreplay =>
    rw [createSessionRecord_stop ⟨hreplay.1, .inl hreplay.2⟩, Function.update_eq_self]
  rename_i hreplay
  split
  next horder =>
    rw [createSessionRecord_stop ⟨horder.1, .inr horder.2⟩, Function.update_eq_self]
  rename_i horder
  rw [createSessionRecord_go fun h => (and_or_left.mp h).elim hreplay horder]
  dsimp only
  have hsame : (args.toClient data).csaFlags = args.csaFlags := rfl
  split
  next hpool =>
    have hnone : s.poolSession.get w nb env.alloc = none := hpool
    rw [hnone]
    rfl
  rename_i q pool hpool
  have hsome : s.poolSession.get w nb env.alloc = some (q, pool) := hpool
  rw [hsome]
  dsimp only [Option.isSome_some]
  have htrue : ¬ true = false := by rintro ⟨⟩
  rw [if_neg htrue]
  by_cases hflags : args.csaFlags > createSession4FlagConnRdma
  · rw [if_pos hflags, if_pos (hsame ▸ hflags)]
    rfl
  · rw [if_neg hflags, if_neg (hsame ▸ hflags), fillSession_clients]
    simp only [setRecord, Function.update_self, Function.update_idem]
    rfl

theorem createSession_stops
    (hstop : ∀ p, nfsClientIdGetPointer s.clients args.csaClientid env.getKey = .ok p →
      ¬ Current args data (s.clients.mem p)) :
    (nfs41OpCreateSession nb s w args data env).1 = s := by
  rw [nfs41OpCreateSession]
  split
  · rfl
  rename_i p hget
  have hnot := hstop p hget
  rw [Current, not_or, not_not] at hnot
  dsimp only
  split
  · rfl
  -- the condition of the next exit is `hnot`
  · rfl

/-- After the confirmation the answer says whether all went well, and the sequence id went up. -/
theorem createSession_current (nb w : ℕ)
    (hget : nfsClientIdGetPointer s.clients args.csaClientid env.getKey = .ok p)
    (hcurrent : Current args data (s.clients.mem p)) :
    ((nfs41OpCreateSession nb s w args data env).2.2.1 = .ok ↔ Completes nb s w args env) ∧
      ((nfs41OpCreateSession nb s w args data env).1.clients.mem p).createSessionSequence =
        (s.clients.mem p).createSessionSequence + 1 := by
  have hreplay : ¬ (data.oppos = 0 ∧
      args.csaSequence + 1 = (s.clients.mem p).createSessionSequence ∧
      (s.clients.mem p).createSessionCacheUsed = true) := by
    rintro ⟨hzero, hnext, -⟩
    have heq := hcurrent.resolve_left (not_not.mpr hzero)
    rw [← heq] at hnext
    simp at hnext
  have horder : ¬ (data.oppos = 0 ∧ args.csaSequence ≠ (s.clients.mem p).createSessionSequence) :=
    fun ⟨hzero, hne⟩ => hne (hcurrent.resolve_left (not_not.mpr hzero))
  rw [nfs41OpCreateSession, hget]
  dsimp only
  rw [if_neg hreplay, if_neg horder]
  split
  next hpool =>
    refine ⟨iff_of_false nofun fun hall => hall.session hpool, ?_⟩
    exact congrArg ClientRecord.createSessionSequence setRecord_mem
  rename_i pnfs41Session pool hpool
  split
  next hflags =>
    refine ⟨iff_of_false nofun fun hall => hall.flags hflags, ?_⟩
    exact congrArg ClientRecord.createSessionSequence setRecord_mem
  rename_i hflags
  obtain ⟨hok, hsequence⟩ := fillSession_spec _ p pnfs41Session args
    { data with useDrc := false } env
  refine ⟨hok.trans ?_, hsequence.trans ?_⟩
  · constructor
    · rintro ⟨hkey, habsent, hnode⟩
      refine ⟨fun hnone => ?_, hflags, hkey, habsent, hnode⟩
      cases hnone.symm.trans hpool
    · exact fun hall => ⟨hall.key, hall.absent, hall.node⟩
  · exact congrArg ClientRecord.createSessionSequence setRecord_mem

/-- **A failure of CREATE_SESSION** leaves the records of clients, the sessions and the pool alone
exactly if the client is not known or its sequence id is wrong, or there is no failure. -/
theorem createSession_failsCleanly_iff (nb : ℕ) (s : Server Cred) (w : ℕ) (args : Args)
    (data : CompoundData) (env : Env) :
    ((nfs41OpCreateSession nb s w args data env).2.2.1 ≠ .ok →
        Unchanged s (nfs41OpCreateSession nb s w args data env).1) ↔
      ∀ p, nfsClientIdGetPointer s.clients args.csaClientid env.getKey = .ok p →
        Current args data (s.clients.mem p) → Completes nb s w args env := by
  constructor
  · intro hclean p hget hcurrent
    obtain ⟨hok, hsequence⟩ := createSession_current nb w hget hcurrent
    by_contra hfail
    have hclients := (hclean fun h => hfail (hok.mp h)).clients
    rw [hclients] at hsequence
    simp at hsequence
  · intro hcompletes hfail
    have hsame : (nfs41OpCreateSession nb s w args data env).1 = s := by
      refine createSession_stops fun p hget hcurrent => hfail ?_
      exact (createSession_current nb w hget hcurrent).1.mpr (hcompletes p hget hcurrent)
    rw [hsame]
    exact ⟨rfl, rfl, rfl⟩

end

/-! ## A request with unknown flags -/

/-- A request with flags that there are not. -/
def unknownFlags : Args := ⟨5, 1, 8, ⟨0, 0, 0, 0, 0, 0, []⟩, ⟨0, 0, 0, 0, 0, 0, []⟩, 0⟩

def newClient : Server Unit where
  clients :=
    { mem := fun _ => { blankRecord with
        clientid := 5
        createSessionSequence := 1 }
      htClientId := fun clientid => if clientid = 5 then some 0 else none
      htClientIdReverse := fun name => if name = [] then some 0 else none
      pools := ⟨fun _ => [], 1⟩ }
  htSessionId := fun _ => none
  sessions := fun _ => newSession unknownFlags
  poolSession := .empty
  globalSequence := 0

/-- The answer is `NFS4ERR_INVAL`, but the client is confirmed, and its request with other flags and
the same sequence id is refused. -/
theorem unknownFlags_not_unchanged :
    (nfs41OpCreateSession 10 newClient 0 unknownFlags .start ⟨true, true, true, true⟩).2.2.1 =
        .inval ∧
      ¬ Unchanged newClient
        (nfs41OpCreateSession 10 newClient 0 unknownFlags .start ⟨true, true, true, true⟩).1 := by
  refine ⟨by decide, fun hsame => ?_⟩
  have hconfirmed : ((nfs41OpCreateSession 10 newClient 0 unknownFlags .start
      ⟨true, true, true, true⟩).1.clients.mem 0).confirmed = .confirmed := by
    decide
  rw [hsame.clients] at hconfirmed
  cases hconfirmed

end CloudNfs.Nfs41.CreateSession
