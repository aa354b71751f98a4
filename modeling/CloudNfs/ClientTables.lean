import CloudNfs.SetClientid

/-!
# The two client tables and the handlers that write to them

Besides SETCLIENTID and SETCLIENTID_CONFIRM, EXCHANGE_ID writes records
(`NFS_Protocols/nfs41_op_exchange_id.c`), and CREATE_SESSION changes one in place
(`NFS_Protocols/nfs41_op_create_session.c`). `ht_client_id` and `ht_client_id_reverse` are inverse
to each other as long as no store changes the name under a clientid, takes the name of another
clientid, or fails between the tables. `nfs_client_id_remove`, which no handler calls, never gives a
record back to the pool of the worker.

* `tablesInverse_iff_orderly` — exactly when the tables are inverse in every state of a run and
  every removal is complete.
-/

namespace CloudNfs.ClientId

open Function (update update_self update_of_ne)

/-! ## Tables that are inverse to each other -/

section

variable {α β : Type} {f : α → Option β} {g : β → Option α} {a : α} {b : β}

/-- Two tables are inverse to each other. -/
def Inverse (f : α → Option β) (g : β → Option α) : Prop := ∀ a b, f a = some b ↔ g b = some a

variable [DecidableEq α] [DecidableEq β]

theorem inverse_update_iff (h : Inverse f g) :
    Inverse (update f a (some b)) (update g b (some a)) ↔
      f a = some b ∨ f a = none ∧ g b = none := by
  constructor
  · intro hnew
    cases hf : f a with
    | some b' =>
      left
      by_contra hne
      have hb : b' ≠ b := fun heq => hne (congrArg some heq)
      have hg : update g b (some a) b' = some a := by
        rw [update_of_ne hb]
        exact (h a b').mp hf
      have ha := (hnew a b').mpr hg
      rw [update_self] at ha
      exact hb (Option.some.inj ha).symm
    | none =>
      refine .inr ⟨rfl, Option.eq_none_iff_forall_ne_some.mpr fun a' hg => ?_⟩
      have hfa : f a' = some b := (h a' b).mpr hg
      have ha : a' ≠ a := by
        rintro rfl
        exact Option.some_ne_none b (hfa.symm.trans hf)
      have hb := (hnew a' b).mp (by rw [update_of_ne ha, hfa])
      rw [update_self] at hb
      exact ha (Option.some.inj hb).symm
  · rintro (hf | ⟨hf, hg⟩)
    · rw [Function.update_eq_self_iff.mpr hf.symm,
        Function.update_eq_self_iff.mpr ((h a b).mp hf).symm]
      exact h
    · intro a' b'
      by_cases ha : a' = a
      · subst ha
        by_cases hb : b' = b
        · subst hb
          simp only [update_self]
        · rw [update_self, update_of_ne hb, ← h a' b', hf]
          exact iff_of_false (fun heq => hb (Option.some.inj heq).symm) nofun
      · rw [update_of_ne ha]
        by_cases hb : b' = b
        · subst hb
          rw [update_self, h a' b', hg]
          exact iff_of_false nofun fun heq => ha (Option.some.inj heq).symm
        · rw [update_of_ne hb]
          exact h a' b'

omit [DecidableEq β] in
theorem inverse_update_left_iff (h : Inverse f g) :
    Inverse (update f a (some b)) g ↔ f a = some b := by
  constructor
  · intro hnew
    exact (h a b).mpr ((hnew a b).mp (update_self a (some b) f))
  · intro hf
    rw [Function.update_eq_self_iff.mpr hf.symm]
    exact h

end

/-! ## EXCHANGE_ID and CREATE_SESSION -/

def allEiaFlags : UInt32 := 0xc0070103

/-- `EXCHANGE_ID4args`. -/
structure ExchangeIdArgs where
  coOwneridVal : List UInt8
  coVerifier : List UInt8
  eiaFlags : UInt32

/-- `EXCHANGE_ID4res`, less the flags, which are constant. -/
inductive ExchangeIdRes where
  /-- `NFS4_OK` -/
  | ok (eirClientid : UInt64) (eirSequenceid : UInt32) (soMajorId eirServerScope : List UInt8)
  | inval
  | serverfault

section

variable {Cred : Type}

def ExchangeIdArgs.strClient (args : ExchangeIdArgs) : List UInt8 :=
  cString args.coOwneridVal.length args.coOwneridVal

/-- The clientid that `nfs41_op_exchange_id` computes. -/
def ExchangeIdArgs.clientid (args : ExchangeIdArgs) (env : OpEnv Cred) : UInt64 :=
  nfsClientIdBasicCompute args.strClient env.stack

/-- The test of the flags: `!=` binds tighter than `&`. -/
def ExchangeIdArgs.badFlags (args : ExchangeIdArgs) : Bool :=
  decide (args.eiaFlags &&& (if allEiaFlags ≠ args.eiaFlags then 1 else 0) ≠ 0)

/-- The record of a client that has rebooted. -/
def ExchangeIdArgs.rebooted (args : ExchangeIdArgs) (param : Param Cred) (clientid : UInt64)
    (nfsClientid : ClientRecord Cred) : ClientRecord Cred :=
  { nfsClientid with
    clientName := args.strClient
    incomingVerifier := strncpy args.coVerifier nfs4VerifierSize
    verifier := snprintfUnsigned nfsClientid.verifier nfs4VerifierSize param.serverBootTime
    confirmed := .rebooted
    clientid := clientid
    lastRenew := 0 }

/-- The record of a new client. -/
def ExchangeIdArgs.unconfirmed (args : ExchangeIdArgs) (param : Param Cred) (clientid : UInt64)
    (nfsClientid : ClientRecord Cred) (credential : Cred) (hostname : List UInt8) :
    ClientRecord Cred :=
  { nfsClientid with
    clientName := args.strClient
    incomingVerifier := strncpy args.coVerifier nfs4VerifierSize
    verifier := snprintfUnsigned nfsClientid.verifier nfs4VerifierSize param.serverBootTime
    confirmed := .unconfirmed
    cbProgram := 0
    clientid := clientid
    lastRenew := 0
    nbSession := 0
    createSessionSequence := 1
    credential := credential
    serverOwner := hostname
    serverScope := hostname }

/-- The answer to EXCHANGE_ID. The scope is a copy of the owner. -/
def exchangeIdAnswer (clientid : UInt64) (nfsClientid : ClientRecord Cred) :
    ClientIdStatus → ExchangeIdRes
  | .success =>
    .ok clientid nfsClientid.createSessionSequence nfsClientid.serverOwner nfsClientid.serverOwner
  | _ => .serverfault

/-- `nfs41_op_exchange_id`, for an id string that is shorter than `MAXNAMLEN`. -/
def nfs41OpExchangeId (param : Param Cred) (c : Clients Cred) (args : ExchangeIdArgs)
    (env : OpEnv Cred) : Clients Cred × ExchangeIdRes :=
  let clientid := args.clientid env
  if args.badFlags then (c, .inval)
  else
    match nfsClientIdGet c clientid env.getKey with
    | .ok nfsClientid =>
      if nfsClientid.confirmed = .confirmed then
        if !strncmpEq nfsClientid.incomingVerifier args.coVerifier nfs4VerifierSize then
          let nfsClientid := args.rebooted param clientid nfsClientid
          let (c, status) := nfsClientIdSet param c env.worker clientid nfsClientid env.store
          (c, exchangeIdAnswer clientid nfsClientid status)
        else (c, exchangeIdAnswer clientid nfsClientid .success)
      else (c, exchangeIdAnswer clientid nfsClientid .success)
    | .error _ =>
      match env.hostname with
      | none => (c, .serverfault)
      | some hostname =>
        let nfsClientid :=
          args.unconfirmed param clientid env.nfsClientid env.credential hostname
        let (c, status) := nfsClientIdAdd param c env.worker clientid nfsClientid env.store
        (c, exchangeIdAnswer clientid nfsClientid status)

/-- `CREATE_SESSION4args`, and the place of the operation in its COMPOUND. -/
structure CreateSessionArgs where
  csaClientid : UInt64
  csaSequence : UInt32
  csaCbProgram : UInt32
  csaFlags : UInt32
  oppos : ℕ

def createSession4FlagConnRdma : UInt32 := 4

/-- What `nfs41_op_create_session` does to the record of the client; `session` says whether there is
memory for the session. -/
def createSessionRecord (args : CreateSessionArgs) (session : Bool)
    (nfsClientid : ClientRecord Cred) : ClientRecord Cred :=
  -- without SEQUENCE, a sequence id that is not the next one stops here, cached or not
  if args.oppos = 0 ∧ (args.csaSequence + 1 = nfsClientid.createSessionSequence ∧
        nfsClientid.createSessionCacheUsed = true ∨
      args.csaSequence ≠ nfsClientid.createSessionSequence) then nfsClientid
  else
    let nfsClientid :=
      { nfsClientid with
        confirmed := .confirmed
        cbProgram := args.csaCbProgram
        createSessionSequence := nfsClientid.createSessionSequence + 1 }
    if session = false then nfsClientid
    else if args.csaFlags > createSession4FlagConnRdma then nfsClientid
    else { nfsClientid with createSessionCacheUsed := true }

/-- The tables after `nfs41_op_create_session`, which has a pointer to the record. -/
def nfs41OpCreateSession (c : Clients Cred) (args : CreateSessionArgs) (getKey session : Bool) :
    Clients Cred :=
  match nfsClientIdGetPointer c args.csaClientid getKey with
  | .error _ => c
  | .ok pnfsClientid =>
    { c with
      mem := update c.mem pnfsClientid
        (createSessionRecord args session (c.mem pnfsClientid)) }

/-! ## Runs -/

inductive TableOp (Cred : Type) where
  | setclientid (args : SetclientidArgs) (env : OpEnv Cred)
  | confirm (args : SetclientidConfirmArgs) (env : OpEnv Cred)
  | exchangeId (args : ExchangeIdArgs) (env : OpEnv Cred)
  | createSession (args : CreateSessionArgs) (getKey session : Bool)
  /-- `nfs_client_id_remove` by the worker `w` -/
  | remove (w : ℕ) (clientid : UInt64) (key : Bool)

/-- The tables after a call. There are none where an id string does not fit into the local buffers
of the handlers, which the code overflows. -/
def tableStep (param : Param Cred) (c : Clients Cred) : TableOp Cred → Option (Clients Cred)
  | .setclientid args env =>
    if args.idVal.length < maxNamLen then some (nfs4OpSetclientid param c args env).1 else none
  | .confirm args env => some (nfs4OpSetclientidConfirm param c args env).1
  | .exchangeId args env =>
    if args.coOwneridVal.length < maxNamLen then some (nfs41OpExchangeId param c args env).1
    else none
  | .createSession args getKey session => some (nfs41OpCreateSession c args getKey session)
  | .remove _ clientid key => some (nfsClientIdRemove c clientid key).1

/-! ## The property -/

/-- `ht_client_id` has a record under a clientid with a name exactly when `ht_client_id_reverse`
leads from the name to the clientid. -/
def Clients.TablesInverse (c : Clients Cred) : Prop := Inverse c.nameOf c.clientidOf

/-- A removal takes a record that is there out of both tables, and it is in the pool of the worker
once. -/
def Removes (c : Clients Cred) : TableOp Cred → Clients Cred → Prop
  | .remove w clientid _, c' => ∀ p, c.htClientId clientid = some p →
      c'.htClientId clientid = none ∧ c'.htClientIdReverse (c.mem p).clientName = none ∧
        (c'.pools.pool w).count p = 1
  | _, _ => True

/-- The tables are inverse after a call, and a removal is complete. -/
def KeepsInverse (c : Clients Cred) (op : TableOp Cred) (c' : Clients Cred) : Prop :=
  c'.TablesInverse ∧ Removes c op c'

/-- The record that EXCHANGE_ID writes. -/
def exchangeIdStored (param : Param Cred) (c : Clients Cred) (args : ExchangeIdArgs)
    (env : OpEnv Cred) : Option (ClientRecord Cred) :=
  if args.badFlags then none
  else
    match nfsClientIdGet c (args.clientid env) env.getKey with
    | .ok nfsClientid =>
      if nfsClientid.confirmed = .confirmed ∧
          strncmpEq nfsClientid.incomingVerifier args.coVerifier nfs4VerifierSize = false then
        some (args.rebooted param (args.clientid env) nfsClientid)
      else none
    | .error _ => env.hostname.map
        (args.unconfirmed param (args.clientid env) env.nfsClientid env.credential)

/-- A store of a name under a clientid goes well: the name is there already, or neither the clientid
nor the name is known and there is memory for the second table. -/
def StoreOk (c : Clients Cred) (clientid : UInt64) (name : List UInt8) (env : StoreEnv) : Prop :=
  c.nameOf clientid = some name ∨
    c.nameOf clientid = none ∧ c.clientidOf name = none ∧ env.nodeReverse = true

/-- Whatever gets as far as the first table goes well. -/
def StoredOk (param : Param Cred) (c : Clients Cred) (clientid : UInt64) (env : OpEnv Cred)
    (stored : Option (ClientRecord Cred)) : Prop :=
  ∀ record, stored = some record → ReachesTable param c clientid env.store →
    StoreOk c clientid record.clientName env.store

/-- Every id string fits into the local buffers, every store goes well, and nothing is removed. -/
def Orderly (param : Param Cred) (c : Clients Cred) : TableOp Cred → Prop
  | .setclientid args env => args.idVal.length < maxNamLen ∧
      StoredOk param c (args.clientid env) env (setclientidStored param c args env)
  | .confirm args env => StoredOk param c args.clientid env (confirmStored c args env)
  | .exchangeId args env => args.coOwneridVal.length < maxNamLen ∧
      StoredOk param c (args.clientid env) env (exchangeIdStored param c args env)
  | .createSession _ _ _ => True
  | .remove _ clientid _ => c.nameOf clientid = none

/-! ## Stores -/

/-- The tables are well-formed, every record has the clientid it is found under, and the tables are
inverse to each other. -/
structure Clients.Consistent (c : Clients Cred) : Prop where
  wellFormed : c.WellFormed
  keyed : ∀ clientid record, c.record clientid = some record → record.clientid = clientid
  inverse : c.TablesInverse

variable {param : Param Cred} {c c' : Clients Cred} {clientid : UInt64}
  {record : ClientRecord Cred} {env : OpEnv Cred} {stored : Option (ClientRecord Cred)}
  {op : TableOp Cred}

theorem consistent_init (mem : ℕ → ClientRecord Cred) : (init mem).Consistent := by
  refine ⟨wellFormed_init mem, nofun, fun clientid name => ?_⟩
  exact iff_of_false nofun nofun

theorem nameOf_update (h : c'.record = update c.record clientid (some record)) :
    c'.nameOf = update c.nameOf clientid (some record.clientName) := by
  funext k
  rw [Clients.nameOf, h]
  by_cases hk : k = clientid
  · subst hk
    rw [update_self, update_self]
    rfl
  · rw [update_of_ne hk, update_of_ne hk]
    rfl

theorem clientidOf_update
    (h : c'.recordReverse = update c.recordReverse record.clientName (some record)) :
    c'.clientidOf = update c.clientidOf record.clientName (some record.clientid) := by
  funext k
  rw [Clients.clientidOf, h]
  by_cases hk : k = record.clientName
  · subst hk
    rw [update_self, update_self]
    rfl
  · rw [update_of_ne hk, update_of_ne hk]
    rfl

theorem nameOf_congr (h : c'.record = c.record) : c'.nameOf = c.nameOf := by
  funext k
  rw [Clients.nameOf, h, Clients.nameOf]

theorem clientidOf_congr (h : c'.recordReverse = c.recordReverse) :
    c'.clientidOf = c.clientidOf := by
  funext k
  rw [Clients.clientidOf, h, Clients.clientidOf]

/-- **A store** keeps the tables inverse exactly when it goes well or does not reach them. -/
theorem tablesInverse_storeRecord (h : c.Consistent) (hid : record.clientid = clientid)
    (param : Param Cred) (w : ℕ) (env : StoreEnv) :
    (storeRecord param c w clientid record env).1.TablesInverse ↔
      (ReachesTable param c clientid env → StoreOk c clientid record.clientName env) := by
  obtain ⟨-, hout⟩ := storeRecord_outcome h.wellFormed param w clientid record env
  generalize (storeRecord param c w clientid record env).1 = c' at hout ⊢
  generalize (storeRecord param c w clientid record env).2 = status at hout
  rw [Clients.TablesInverse]
  cases hout with
  | kept stops hrecord hreverse =>
    rw [nameOf_congr hrecord, clientidOf_congr hreverse]
    exact iff_of_true h.inverse fun hreaches => absurd hreaches stops
  | half reaches absent node hrecord hreverse =>
    rw [nameOf_update hrecord, clientidOf_congr hreverse, inverse_update_left_iff h.inverse]
    constructor
    · exact fun hname _ => Or.inl hname
    · intro hok
      rcases hok reaches with hname | ⟨-, -, hnode⟩
      · exact hname
      · rw [node] at hnode
        cases hnode
  | whole reaches node hrecord hreverse =>
    rw [nameOf_update hrecord, clientidOf_update hreverse, hid, inverse_update_iff h.inverse]
    constructor
    · rintro (hname | ⟨hname, hclientid⟩) _
      · exact .inl hname
      · exact .inr ⟨hname, hclientid, node (Option.map_eq_none_iff.mp hclientid)⟩
    · intro hok
      rcases hok reaches with hname | ⟨hname, hclientid, -⟩
      · exact .inl hname
      · exact .inr ⟨hname, hclientid⟩

/-- Every record that is stored has the clientid it is stored under. -/
def StoredKeyed (clientid : UInt64) (stored : Option (ClientRecord Cred)) : Prop :=
  ∀ record, stored = some record → record.clientid = clientid

theorem tablesInverse_storeAny (h : c.Consistent) (hkeyed : StoredKeyed clientid stored) :
    (storeAny param c clientid env stored).TablesInverse ↔
      StoredOk param c clientid env stored := by
  cases stored with
  | none => exact iff_of_true h.inverse nofun
  | some record =>
    rw [storeAny, tablesInverse_storeRecord h (hkeyed record rfl)]
    constructor
    · rintro hok _ ⟨⟩ hreaches
      exact hok hreaches
    · exact fun hok => hok record rfl

theorem consistent_storeAny (h : c.Consistent) (hkeyed : StoredKeyed clientid stored)
    (hok : StoredOk param c clientid env stored) :
    (storeAny param c clientid env stored).Consistent := by
  refine ⟨(storeAny_record h.wellFormed _ _ _ _).1, fun clientid' record hrecord => ?_,
    (tablesInverse_storeAny h hkeyed).mpr hok⟩
  rcases record_of_storeAny h.wellFormed hrecord with hrecord | ⟨rfl, hstored⟩
  · exact h.keyed clientid' record hrecord
  · exact hkeyed record hstored

/-! ## The handlers -/

theorem setclientidStored_keyed {args : SetclientidArgs} (h : c.Consistent) :
    StoredKeyed (args.clientid env) (setclientidStored param c args env) := by
  intro record hstored
  rcases setclientidStored_cases hstored with rfl | ⟨found, hfound, -, rfl | rfl⟩
  · rfl
  · rfl
  · exact h.keyed _ found hfound

theorem confirmStored_keyed {args : SetclientidConfirmArgs} (h : c.Consistent) :
    StoredKeyed args.clientid (confirmStored c args env) := by
  intro record hstored
  obtain ⟨found, hfound, -, rfl⟩ := confirmStored_cases hstored
  exact h.keyed _ found hfound

theorem exchangeIdStored_keyed {args : ExchangeIdArgs} :
    StoredKeyed (args.clientid env) (exchangeIdStored param c args env) := by
  intro record hstored
  rw [exchangeIdStored] at hstored
  split at hstored
  · cases hstored
  split at hstored
  · split at hstored
    · cases hstored
      rfl
    · cases hstored
  · obtain ⟨hostname, -, rfl⟩ := Option.map_eq_some_iff.mp hstored
    rfl

theorem nfs41OpExchangeId_fst {args : ExchangeIdArgs} : (nfs41OpExchangeId param c args env).1 =
    storeAny param c (args.clientid env) env (exchangeIdStored param c args env) := by
  rw [nfs41OpExchangeId, exchangeIdStored]
  by_cases hflags : args.badFlags = true
  · rw [if_pos hflags, if_pos hflags]
    rfl
  rw [if_neg hflags, if_neg hflags]
  cases nfsClientIdGet c (args.clientid env) env.getKey with
  | error e => cases env.hostname <;> rfl
  | ok nfsClientid =>
    dsimp only
    by_cases hconfirmed : nfsClientid.confirmed = .confirmed
    · rw [if_pos hconfirmed]
      cases hsame : strncmpEq nfsClientid.incomingVerifier args.coVerifier nfs4VerifierSize with
      | true => simp [storeAny]
      | false =>
        rw [if_pos Bool.not_false, if_pos ⟨hconfirmed, rfl⟩]
        rfl
    · rw [if_neg hconfirmed, if_neg fun hboth => hconfirmed hboth.1]
      rfl

theorem createSessionRecord_keeps {args : CreateSessionArgs} {session : Bool} :
    (createSessionRecord args session record).clientName = record.clientName ∧
      (createSessionRecord args session record).clientid = record.clientid := by
  rw [createSessionRecord]
  split
  · exact ⟨rfl, rfl⟩
  dsimp only
  split
  · exact ⟨rfl, rfl⟩
  split
  · exact ⟨rfl, rfl⟩
  · exact ⟨rfl, rfl⟩

theorem nfs41OpCreateSession_keeps (c : Clients Cred) (args : CreateSessionArgs)
    (getKey session : Bool) :
    (nfs41OpCreateSession c args getKey session).htClientId = c.htClientId ∧
      (nfs41OpCreateSession c args getKey session).htClientIdReverse = c.htClientIdReverse ∧
      (nfs41OpCreateSession c args getKey session).pools = c.pools ∧
      ∀ p, ((nfs41OpCreateSession c args getKey session).mem p).clientName =
          (c.mem p).clientName ∧
        ((nfs41OpCreateSession c args getKey session).mem p).clientid = (c.mem p).clientid := by
  rw [nfs41OpCreateSession]
  cases nfsClientIdGetPointer c args.csaClientid getKey with
  | error e => exact ⟨rfl, rfl, rfl, fun p => ⟨rfl, rfl⟩⟩
  | ok q =>
    refine ⟨rfl, rfl, rfl, fun p => ?_⟩
    by_cases hp : p = q
    · subst hp
      simp only [update_self]
      exact createSessionRecord_keeps
    · simp [update_of_ne hp]

theorem consistent_createSession (h : c.Consistent) (args : CreateSessionArgs)
    (getKey session : Bool) : (nfs41OpCreateSession c args getKey session).Consistent := by
  obtain ⟨htable, hreverse, hpools, hmem⟩ := nfs41OpCreateSession_keeps c args getKey session
  generalize nfs41OpCreateSession c args getKey session = c' at htable hreverse hpools hmem ⊢
  refine ⟨⟨?_, ?_, ?_⟩, fun clientid record hrecord => ?_, fun clientid name => ?_⟩
  · rw [hpools]
    exact h.wellFormed.pool
  · rw [htable, hpools]
    exact h.wellFormed.below
  · rw [hreverse, hpools]
    exact h.wellFormed.belowReverse
  · rw [Clients.record, htable] at hrecord
    obtain ⟨p, hp, rfl⟩ := Option.map_eq_some_iff.mp hrecord
    rw [(hmem p).2]
    exact h.keyed clientid (c.mem p) (by rw [Clients.record, hp]; rfl)
  · have hname : c'.nameOf clientid = c.nameOf clientid := by
      rw [Clients.nameOf, Clients.nameOf, Clients.record, Clients.record, htable]
      cases c.htClientId clientid with
      | none => rfl
      | some p => exact congrArg some (hmem p).1
    have hclientid : c'.clientidOf name = c.clientidOf name := by
      rw [Clients.clientidOf, Clients.clientidOf, Clients.recordReverse, Clients.recordReverse,
        hreverse]
      cases c.htClientIdReverse name with
      | none => rfl
      | some p => exact congrArg some (hmem p).2
    rw [hname, hclientid]
    exact h.inverse clientid name

theorem nfsClientIdRemove_absent (habsent : c.nameOf clientid = none) (key : Bool) :
    (nfsClientIdRemove c clientid key).1 = c := by
  have hnone : c.htClientId clientid = none :=
    Option.map_eq_none_iff.mp (Option.map_eq_none_iff.mp habsent)
  rw [nfsClientIdRemove, hnone]
  split <;> rfl

theorem nfsClientIdRemove_pools (key : Bool) :
    (nfsClientIdRemove c clientid key).1.pools = c.pools := by
  rw [nfsClientIdRemove]
  split
  · rfl
  split
  · rfl
  dsimp only
  split <;> rfl

theorem keepsInverse_storeAny (h : c.Consistent) (hkeyed : StoredKeyed clientid stored)
    (hnot : ∀ c', Removes c op c') :
    KeepsInverse c op (storeAny param c clientid env stored) ↔
      StoredOk param c clientid env stored := by
  rw [KeepsInverse, tablesInverse_storeAny h hkeyed]
  exact and_iff_left (hnot _)

/-- **One call**: the tables stay inverse and a removal is complete exactly when every store goes
well and nothing is removed. -/
theorem keepsInverse_step_iff (h : c.Consistent) (hstep : tableStep param c op = some c') :
    KeepsInverse c op c' ↔ Orderly param c op := by
  cases op with
  | setclientid args env =>
    obtain ⟨hlen, hstep⟩ := Option.ite_none_right_eq_some.mp hstep
    cases hstep
    rw [nfs4OpSetclientid_fst]
    refine Iff.trans (keepsInverse_storeAny h (setclientidStored_keyed h) ?_)
      (and_iff_right hlen).symm
    exact fun _ => trivial
  | confirm args env =>
    cases hstep
    rw [nfs4OpSetclientidConfirm_fst]
    exact keepsInverse_storeAny h (confirmStored_keyed h) fun _ => trivial
  | exchangeId args env =>
    obtain ⟨hlen, hstep⟩ := Option.ite_none_right_eq_some.mp hstep
    cases hstep
    rw [nfs41OpExchangeId_fst]
    refine Iff.trans (keepsInverse_storeAny h exchangeIdStored_keyed ?_) (and_iff_right hlen).symm
    exact fun _ => trivial
  | createSession args getKey session =>
    cases hstep
    exact iff_of_true ⟨(consistent_createSession h args getKey session).inverse, trivial⟩ trivial
  | remove w clientid key =>
    cases hstep
    constructor
    · rintro ⟨-, hremoves⟩
      -- the pool of the worker is empty, so nothing was given back
      refine Option.eq_none_iff_forall_ne_some.mpr fun name hname => ?_
      obtain ⟨record, hrecord, -⟩ := Option.map_eq_some_iff.mp hname
      obtain ⟨p, hp, -⟩ := Option.map_eq_some_iff.mp hrecord
      obtain ⟨-, -, hcount⟩ := hremoves p hp
      rw [nfsClientIdRemove_pools, h.wellFormed.pool w] at hcount
      cases hcount
    · intro habsent
      refine ⟨?_, fun p hp => ?_⟩
      · rw [nfsClientIdRemove_absent habsent]
        exact h.inverse
      · have hnone : c.htClientId clientid = none :=
          Option.map_eq_none_iff.mp (Option.map_eq_none_iff.mp habsent)
        exact absurd (hp.symm.trans hnone) (Option.some_ne_none p)

/-- **A call** that meets the condition is defined and keeps the tables inverse. -/
theorem consistent_step (h : c.Consistent) (horderly : Orderly param c op) :
    ∃ c', tableStep param c op = some c' ∧ c'.Consistent := by
  cases op with
  | setclientid args env =>
    refine ⟨_, if_pos horderly.1, ?_⟩
    rw [nfs4OpSetclientid_fst]
    exact consistent_storeAny h (setclientidStored_keyed h) horderly.2
  | confirm args env =>
    refine ⟨_, rfl, ?_⟩
    rw [nfs4OpSetclientidConfirm_fst]
    exact consistent_storeAny h (confirmStored_keyed h) horderly
  | exchangeId args env =>
    refine ⟨_, if_pos horderly.1, ?_⟩
    rw [nfs41OpExchangeId_fst]
    exact consistent_storeAny h exchangeIdStored_keyed horderly.2
  | createSession args getKey session =>
    exact ⟨_, rfl, consistent_createSession h args getKey session⟩
  | remove w clientid key =>
    refine ⟨_, rfl, ?_⟩
    rw [nfsClientIdRemove_absent horderly]
    exact h

/-- **The client tables are inverse to each other** after every call of a run, every removal is
complete and no buffer overflows, exactly when every id string of the run is shorter than 255 bytes,
every store goes well and no record is removed. -/
theorem tablesInverse_iff_orderly (param : Param Cred) (mem : ℕ → ClientRecord Cred)
    (ops : List (TableOp Cred)) :
    Safely (tableStep param) KeepsInverse (init mem) ops ↔
      AllMeet (tableStep param) (Orderly param) (init mem) ops := by
  refine safely_iff_allMeet (consistent_init mem) (fun c op h horderly => ?_)
    fun c op c' h hstep => (keepsInverse_step_iff h hstep).mp
  obtain ⟨c', hstep, hc'⟩ := consistent_step h horderly
  exact ⟨c', hstep, hc', (keepsInverse_step_iff h hstep).mpr horderly⟩

/-- The clients `aa` and `ab` have the same clientid. When the second one comes with a verifier of
its own, the record of the first one gets its name, and `ht_client_id_reverse` keeps both names. -/
theorem sameDigest_breaks_tablesInverse :
    ¬ Safely (tableStep plainParam) KeepsInverse (init fun _ => blankRecord)
      [.setclientid ⟨[97, 97], [1], 0, [], []⟩ plainEnv,
        .confirm ⟨971, serverVerifier plainParam⟩ plainEnv,
        .setclientid ⟨[97, 98], [2], 0, [], []⟩ plainEnv] := by
  rintro ⟨c₁, h₁, -, c₂, h₂, -, c₃, h₃, ⟨hinverse, -⟩, -⟩
  cases h₁
  cases h₂
  cases h₃
  have hname := (hinverse 971 [97, 97]).mpr (by decide +kernel)
  revert hname
  decide +kernel

end

end CloudNfs.ClientId
