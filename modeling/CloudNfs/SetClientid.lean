import CloudNfs.ClientId
import CloudNfs.Run

/-!
# SETCLIENTID and SETCLIENTID_CONFIRM

Models `NFS_Protocols/nfs4_op_setclientid.c` and `NFS_Protocols/nfs4_op_setclientid_confirm.c`. The
clientid of a client is the digest of its id string. `nfs4_op_setclientid` looks for a record under
the clientid only: it does not compare the name in the record with that of the client. And
`nfs4_op_setclientid_confirm` compares the verifier of a record that is confirmed already, but not
that of a record it is about to confirm.

* `keepsApart_of_careful` — every run keeps clients apart in which no id string has the clientid of
  another one, and no confirmation has a wrong verifier.
-/

namespace CloudNfs.ClientId

/-! ## The operations -/

/-- `SETCLIENTID4args`. -/
structure SetclientidArgs where
  idVal : List UInt8
  verifier : List UInt8
  cbProgram : UInt32
  rAddr : List UInt8
  rNetid : List UInt8

/-- `SETCLIENTID4res`. -/
inductive SetclientidRes where
  /-- `NFS4_OK` -/
  | ok (clientid : UInt64) (setclientidConfirm : List UInt8)
  | clidInuse (rNetid rAddr : List UInt8)
  | serverfault

/-- What an operation finds around it. -/
structure OpEnv (Cred : Type) where
  worker : ℕ
  credential : Cred
  /-- the stack behind the buffer of `nfs_client_id_basic_compute` -/
  stack : ℕ → UInt8
  /-- memory for the key of `nfs_client_id_get` -/
  getKey : Bool
  /-- the local variable `nfs_clientid`, which is not initialised -/
  nfsClientid : ClientRecord Cred
  /-- `gethostname`, if it succeeds -/
  hostname : Option (List UInt8)
  store : StoreEnv
  /-- `time(NULL)` -/
  now : ℤ

/-- What `nfs4_op_setclientid` does about the record that it has found or not. -/
inductive RecordAction (Cred : Type) where
  /-- it refuses the request -/
  | inUse (record : ClientRecord Cred)
  | keep
  /-- it calls `nfs_client_id_set` -/
  | set (record : ClientRecord Cred)
  /-- it calls `nfs_client_id_add` -/
  | add (record : ClientRecord Cred)

section

variable {Cred : Type}

/-- The name of the client: the copy of the id string ends at its first zero byte. -/
def SetclientidArgs.strClient (args : SetclientidArgs) : List UInt8 :=
  cString args.idVal.length args.idVal

/-- The clientid that `nfs4_op_setclientid` computes. -/
def SetclientidArgs.clientid (args : SetclientidArgs) (env : OpEnv Cred) : UInt64 :=
  nfsClientIdBasicCompute args.strClient env.stack

/-- `nfs_compare_clientcred`, where it is made, says that a record belongs to someone else. -/
def otherPrincipal (param : Param Cred) (record : ClientRecord Cred) (credential : Cred) : Bool :=
  match param.compareCred with
  | none => false
  | some nfsCompareClientcred => !nfsCompareClientcred record.credential credential

def SetclientidArgs.rebooted (args : SetclientidArgs) (param : Param Cred) (clientid : UInt64)
    (nfsClientid : ClientRecord Cred) : ClientRecord Cred :=
  { nfsClientid with
    clientName := args.strClient
    clientRAddr := cString maxNamLen args.rAddr
    clientRNetid := cString maxNamLen args.rNetid
    incomingVerifier := strncpy args.verifier nfs4VerifierSize
    verifier := snprintfUnsigned nfsClientid.verifier nfs4VerifierSize param.serverBootTime
    confirmed := .rebooted
    cbProgram := args.cbProgram
    clientid := clientid
    lastRenew := 0 }

def SetclientidArgs.unconfirmed (args : SetclientidArgs) (param : Param Cred) (clientid : UInt64)
    (nfsClientid : ClientRecord Cred) (credential : Cred) : ClientRecord Cred :=
  { nfsClientid with
    clientName := args.strClient
    clientRAddr := cString maxNamLen args.rAddr
    clientRNetid := cString maxNamLen args.rNetid
    incomingVerifier := strncpy args.verifier nfs4VerifierSize
    verifier := snprintfUnsigned nfsClientid.verifier nfs4VerifierSize param.serverBootTime
    confirmed := .unconfirmed
    cbProgram := args.cbProgram
    clientid := clientid
    lastRenew := 0
    credential := credential }

/-- What `nfs4_op_setclientid` does after `nfs_client_id_get`. -/
def setclientidAction (param : Param Cred) (args : SetclientidArgs) (env : OpEnv Cred) :
    Except ClientIdStatus (ClientRecord Cred) → RecordAction Cred
  | .ok nfsClientid =>
    if nfsClientid.confirmed = .confirmed then
      if otherPrincipal param nfsClientid env.credential then .inUse nfsClientid
      else if !strncmpEq nfsClientid.incomingVerifier args.verifier nfs4VerifierSize then
        .set (args.rebooted param (args.clientid env) nfsClientid)
      else if nfsClientid.cbProgram = args.cbProgram then
        .set { nfsClientid with confirmed := .unconfirmed }
      else .keep
    else .keep
  | .error _ => .add (args.unconfirmed param (args.clientid env) env.nfsClientid env.credential)

/-- The verifier that `nfs4_op_setclientid` answers with. -/
def serverVerifier (param : Param Cred) : List UInt8 :=
  snprintfUnsigned (List.replicate nfs4VerifierSize 0) nfs4VerifierSize param.serverBootTime

/-- The answer to SETCLIENTID, after a store. -/
def setclientidAnswer (param : Param Cred) (clientid : UInt64) : ClientIdStatus → SetclientidRes
  | .success => .ok clientid (serverVerifier param)
  | _ => .serverfault

/-- `nfs4_op_setclientid`, for an id string that is shorter than `MAXNAMLEN`. -/
def nfs4OpSetclientid (param : Param Cred) (c : Clients Cred) (args : SetclientidArgs)
    (env : OpEnv Cred) : Clients Cred × SetclientidRes :=
  let clientid := args.clientid env
  match setclientidAction param args env (nfsClientIdGet c clientid env.getKey) with
  | .inUse nfsClientid => (c, .clidInuse nfsClientid.clientRNetid nfsClientid.clientRAddr)
  | .keep => (c, setclientidAnswer param clientid .success)
  | .set nfsClientid =>
    let (c, status) := nfsClientIdSet param c env.worker clientid nfsClientid env.store
    (c, setclientidAnswer param clientid status)
  | .add nfsClientid =>
    let (c, status) := nfsClientIdAdd param c env.worker clientid nfsClientid env.store
    (c, setclientidAnswer param clientid status)

/-- `SETCLIENTID_CONFIRM4args`. -/
structure SetclientidConfirmArgs where
  clientid : UInt64
  setclientidConfirm : List UInt8

/-- `SETCLIENTID_CONFIRM4res`. -/
inductive SetclientidConfirmRes where
  /-- `NFS4_OK` -/
  | ok
  | clidInuse
  | staleClientid
  | serverfault

def nfs4OpSetclientidConfirm (param : Param Cred) (c : Clients Cred)
    (args : SetclientidConfirmArgs) (env : OpEnv Cred) : Clients Cred × SetclientidConfirmRes :=
  match nfsClientIdGet c args.clientid env.getKey with
  | .ok nfsClientid =>
    if nfsClientid.confirmed = .confirmed then
      if !strncmpEq nfsClientid.verifier args.setclientidConfirm nfs4VerifierSize then
        (c, .clidInuse)
      else (c, .ok)
    else
      -- a record that is not confirmed: its verifier is not compared
      let nfsClientid := { nfsClientid with confirmed := .confirmed, lastRenew := env.now }
      match nfsClientIdSet param c env.worker args.clientid nfsClientid env.store with
      | (c, .success) => (c, .ok)
      | (c, _) => (c, .serverfault)
  | .error _ => (c, .staleClientid)

/-! ## What the operations write -/

/-- The record that is written, if there is one. -/
def RecordAction.stored : RecordAction Cred → Option (ClientRecord Cred)
  | .inUse _ => none
  | .keep => none
  | .set record => some record
  | .add record => some record

/-- The record that SETCLIENTID writes. -/
def setclientidStored (param : Param Cred) (c : Clients Cred) (args : SetclientidArgs)
    (env : OpEnv Cred) : Option (ClientRecord Cred) :=
  (setclientidAction param args env (nfsClientIdGet c (args.clientid env) env.getKey)).stored

/-- The record that SETCLIENTID_CONFIRM writes. -/
def confirmStored (c : Clients Cred) (args : SetclientidConfirmArgs) (env : OpEnv Cred) :
    Option (ClientRecord Cred) :=
  match nfsClientIdGet c args.clientid env.getKey with
  | .ok nfsClientid =>
    if nfsClientid.confirmed = .confirmed then none
    else some { nfsClientid with confirmed := .confirmed, lastRenew := env.now }
  | .error _ => none

def storeAny (param : Param Cred) (c : Clients Cred) (clientid : UInt64) (env : OpEnv Cred) :
    Option (ClientRecord Cred) → Clients Cred
  | none => c
  | some record => (storeRecord param c env.worker clientid record env.store).1

variable {param : Param Cred} {c c' : Clients Cred} {args : SetclientidArgs}
  {confirmArgs : SetclientidConfirmArgs} {env : OpEnv Cred} {record : ClientRecord Cred}
  {clientid : UInt64}

theorem nfs4OpSetclientid_fst : (nfs4OpSetclientid param c args env).1 =
    storeAny param c (args.clientid env) env (setclientidStored param c args env) := by
  rw [nfs4OpSetclientid, setclientidStored]
  cases setclientidAction param args env (nfsClientIdGet c (args.clientid env) env.getKey) <;> rfl

theorem nfs4OpSetclientidConfirm_fst : (nfs4OpSetclientidConfirm param c confirmArgs env).1 =
    storeAny param c confirmArgs.clientid env (confirmStored c confirmArgs env) := by
  rw [nfs4OpSetclientidConfirm, confirmStored]
  cases nfsClientIdGet c confirmArgs.clientid env.getKey with
  | error e => rfl
  | ok nfsClientid =>
    dsimp only
    by_cases hconfirmed : nfsClientid.confirmed = .confirmed
    · rw [if_pos hconfirmed, if_pos hconfirmed]
      split <;> rfl
    rw [if_neg hconfirmed, if_neg hconfirmed, storeAny, nfsClientIdSet]
    split
    next hset => rw [hset]
    next hset => rw [hset]

/-- SETCLIENTID answers `NFS4_OK` with the clientid and the verifier of the server, and there is a
record under the clientid then. -/
theorem nfs4OpSetclientid_ok (h : c.WellFormed) {v : List UInt8}
    (hok : (nfs4OpSetclientid param c args env).2 = .ok clientid v) :
    clientid = args.clientid env ∧ v = serverVerifier param ∧
      (nfs4OpSetclientid param c args env).1.record (args.clientid env) ≠ none := by
  -- an answer that is `NFS4_OK` comes after a store that has succeeded
  have hanswer : ∀ status, setclientidAnswer param (args.clientid env) status = .ok clientid v →
      status = .success ∧ clientid = args.clientid env ∧ v = serverVerifier param := by
    intro status hstatus
    cases status with
    | success =>
      cases hstatus
      exact ⟨rfl, rfl, rfl⟩
    | insertMallocError => cases hstatus
    | notFound => cases hstatus
  have hstore : ∀ record, setclientidAnswer param (args.clientid env)
        (storeRecord param c env.worker (args.clientid env) record env.store).2 = .ok clientid v →
      clientid = args.clientid env ∧ v = serverVerifier param ∧
        (storeRecord param c env.worker (args.clientid env) record env.store).1.record
          (args.clientid env) ≠ none := by
    intro record hstatus
    obtain ⟨hsuccess, hid, hv⟩ := hanswer _ hstatus
    refine ⟨hid, hv, ?_⟩
    obtain ⟨-, hout⟩ :=
      storeRecord_outcome h param env.worker (args.clientid env) record env.store
    rw [hsuccess] at hout
    cases hout with
    | whole reaches node hrecord =>
      rw [hrecord, Function.update_self]
      exact Option.some_ne_none record
  rw [nfs4OpSetclientid] at hok ⊢
  cases hget : nfsClientIdGet c (args.clientid env) env.getKey with
  | error e =>
    rw [hget] at hok
    exact hstore _ hok
  | ok nfsClientid =>
    rw [hget] at hok
    cases haction : setclientidAction param args env (.ok nfsClientid) with
    | inUse record =>
      rw [haction] at hok
      cases hok
    | keep =>
      rw [haction] at hok
      obtain ⟨-, hid, hv⟩ := hanswer .success hok
      refine ⟨hid, hv, ?_⟩
      rw [(nfsClientIdGet_eq_ok.mp hget).2]
      exact Option.some_ne_none nfsClientid
    | set record =>
      rw [haction] at hok
      exact hstore _ hok
    | add record =>
      rw [haction] at hok
      exact hstore _ hok

theorem storeAny_record (h : c.WellFormed) (param : Param Cred) (clientid : UInt64)
    (env : OpEnv Cred) (stored : Option (ClientRecord Cred)) :
    (storeAny param c clientid env stored).WellFormed ∧
      ((storeAny param c clientid env stored).record = c.record ∨
        ∃ record, stored = some record ∧ (storeAny param c clientid env stored).record =
          Function.update c.record clientid (some record)) := by
  cases stored with
  | none => exact ⟨h, .inl rfl⟩
  | some record =>
    obtain ⟨hwell, hout⟩ := storeRecord_outcome h param env.worker clientid record env.store
    refine ⟨hwell, ?_⟩
    generalize (storeRecord param c env.worker clientid record env.store).2 = status at hout
    cases hout with
    | kept stops hrecord => exact .inl hrecord
    | half reaches absent node hrecord => exact .inr ⟨record, rfl, hrecord⟩
    | whole reaches node hrecord => exact .inr ⟨record, rfl, hrecord⟩

theorem setclientidStored_cases (hstored : setclientidStored param c args env = some record) :
    record = args.unconfirmed param (args.clientid env) env.nfsClientid env.credential ∨
      ∃ found, c.record (args.clientid env) = some found ∧ found.confirmed = .confirmed ∧
        (record = args.rebooted param (args.clientid env) found ∨
          record = { found with confirmed := .unconfirmed }) := by
  rw [setclientidStored] at hstored
  cases hget : nfsClientIdGet c (args.clientid env) env.getKey with
  | error e =>
    rw [hget] at hstored
    exact .inl (Option.some.inj hstored).symm
  | ok found =>
    rw [hget, setclientidAction] at hstored
    by_cases hconfirmed : found.confirmed = .confirmed
    · rw [if_pos hconfirmed] at hstored
      refine .inr ⟨found, (nfsClientIdGet_eq_ok.mp hget).2, hconfirmed, ?_⟩
      split at hstored
      · cases hstored
      split at hstored
      · exact .inl (Option.some.inj hstored).symm
      split at hstored
      · exact .inr (Option.some.inj hstored).symm
      · cases hstored
    · rw [if_neg hconfirmed] at hstored
      cases hstored

theorem confirmStored_cases (hstored : confirmStored c confirmArgs env = some record) :
    ∃ found, c.record confirmArgs.clientid = some found ∧ found.confirmed ≠ .confirmed ∧
      record = { found with confirmed := .confirmed, lastRenew := env.now } := by
  rw [confirmStored] at hstored
  cases hget : nfsClientIdGet c confirmArgs.clientid env.getKey with
  | error e =>
    rw [hget] at hstored
    cases hstored
  | ok found =>
    rw [hget] at hstored
    dsimp only at hstored
    by_cases hconfirmed : found.confirmed = .confirmed
    · rw [if_pos hconfirmed] at hstored
      cases hstored
    · rw [if_neg hconfirmed] at hstored
      exact ⟨found, (nfsClientIdGet_eq_ok.mp hget).2, hconfirmed, (Option.some.inj hstored).symm⟩

/-! ## Runs -/

inductive SetclientidOp (Cred : Type) where
  | setclientid (args : SetclientidArgs) (env : OpEnv Cred)
  | confirm (args : SetclientidConfirmArgs) (env : OpEnv Cred)

/-- A SETCLIENTID that was answered with `NFS4_OK`. -/
structure Given where
  idVal : List UInt8
  clientid : UInt64
  verifier : List UInt8
  deriving DecidableEq

/-- The server, with the answers it has given. -/
structure Server (Cred : Type) where
  clients : Clients Cred
  given : List Given

/-- The answers, after another one. -/
def addGiven (given : List Given) (idVal : List UInt8) : SetclientidRes → List Given
  | .ok clientid verifier => ⟨idVal, clientid, verifier⟩ :: given
  | _ => given

/-- The server after a request. It has none where an id string does not fit into the local buffers
of `nfs4_op_setclientid`, which the code overflows. -/
def setclientidStep (param : Param Cred) (s : Server Cred) : SetclientidOp Cred →
    Option (Server Cred)
  | .setclientid args env =>
    if args.idVal.length < maxNamLen then
      let (c, res) := nfs4OpSetclientid param s.clients args env
      some ⟨c, addGiven s.given args.idVal res⟩
    else none
  | .confirm args env =>
    some ⟨(nfs4OpSetclientidConfirm param s.clients args env).1, s.given⟩

def Server.init (mem : ℕ → ClientRecord Cred) : Server Cred := ⟨ClientId.init mem, []⟩

/-! ## The property -/

def Clients.Confirmed (c : Clients Cred) (clientid : UInt64) : Prop :=
  ∃ record, c.record clientid = some record ∧ record.confirmed = .confirmed

/-- Clients with different id strings have different clientids. -/
def Distinct (s : Server Cred) : Prop :=
  ∀ g ∈ s.given, ∀ g' ∈ s.given, g.clientid = g'.clientid → g.idVal = g'.idVal

/-- The verifier that a client was given is that of its record. -/
def Returned (s : Server Cred) : Prop :=
  ∀ g ∈ s.given, ∃ record, s.clients.record g.clientid = some record ∧
    strncmpEq record.verifier g.verifier nfs4VerifierSize = true

/-- SETCLIENTID does not change the confirmed record of a client with another id string. -/
def Undisturbed (s : Server Cred) : SetclientidOp Cred → Server Cred → Prop
  | .setclientid args _, t => ∀ g ∈ s.given, g.idVal ≠ args.idVal →
      s.clients.Confirmed g.clientid → t.clients.record g.clientid = s.clients.record g.clientid
  | .confirm _ _, _ => True

/-- A record becomes confirmed only through a SETCLIENTID_CONFIRM with its verifier. -/
def ConfirmedByVerifier (s : Server Cred) (op : SetclientidOp Cred) (t : Server Cred) : Prop :=
  ∀ clientid, ¬ s.clients.Confirmed clientid → t.clients.Confirmed clientid →
    ∃ args env record, op = .confirm args env ∧ args.clientid = clientid ∧
      s.clients.record clientid = some record ∧
      strncmpEq record.verifier args.setclientidConfirm nfs4VerifierSize = true

/-- A step keeps clients apart. -/
structure KeepsApart (s : Server Cred) (op : SetclientidOp Cred) (t : Server Cred) : Prop where
  distinct : Distinct t
  /-- the verifiers that were returned are those of the records -/
  returned : Returned t
  /-- other clients are not disturbed -/
  undisturbed : Undisturbed s op t
  /-- nobody is confirmed without the verifier -/
  confirmed : ConfirmedByVerifier s op t

/-- An id string fits into the local buffers and its clientid was not given to another one, and the
verifier of a record that is not confirmed is the one that is sent for it. -/
def Careful (s : Server Cred) : SetclientidOp Cred → Prop
  | .setclientid args env => args.idVal.length < maxNamLen ∧
      ∀ g ∈ s.given, g.clientid = args.clientid env → g.idVal = args.idVal
  | .confirm args _ => ∀ record ∈ s.clients.record args.clientid,
      record.confirmed ≠ .confirmed →
        strncmpEq record.verifier args.setclientidConfirm nfs4VerifierSize = true

instance decidableCareful (s : Server Cred) (op : SetclientidOp Cred) : Decidable (Careful s op) :=
  match op with
  | .setclientid args env => inferInstanceAs (Decidable (args.idVal.length < maxNamLen ∧
      ∀ g ∈ s.given, g.clientid = args.clientid env → g.idVal = args.idVal))
  | .confirm args _ => inferInstanceAs (Decidable (∀ record ∈ s.clients.record args.clientid,
      record.confirmed ≠ .confirmed →
        strncmpEq record.verifier args.setclientidConfirm nfs4VerifierSize = true))

/-! ## The invariant -/

/-- A record has the verifier of the server. -/
def HasVerifier (param : Param Cred) (record : ClientRecord Cred) : Prop :=
  strncmpEq record.verifier (serverVerifier param) nfs4VerifierSize = true

/-- Every record has the verifier of the server, and so has every answer, which is about a record
that exists. -/
structure Invariant (param : Param Cred) (s : Server Cred) : Prop where
  wellFormed : s.clients.WellFormed
  verifier : ∀ clientid, ∀ record, s.clients.record clientid = some record →
    HasVerifier param record
  given : ∀ g ∈ s.given, g.verifier = serverVerifier param ∧ s.clients.record g.clientid ≠ none
  distinct : Distinct s

variable {s t : Server Cred} {op : SetclientidOp Cred} {mem : ℕ → ClientRecord Cred}

theorem invariant_init : Invariant param (Server.init mem) :=
  ⟨wellFormed_init mem, nofun, nofun, nofun⟩

theorem hasVerifier_snprintf {buf : List UInt8}
    (h : record.verifier = snprintfUnsigned buf nfs4VerifierSize param.serverBootTime) :
    HasVerifier param record := by
  rw [HasVerifier, strncmpEq, decide_eq_true_iff, h]
  exact cString_snprintfUnsigned (Nat.zero_lt_succ 7) _ _ _

theorem setclientidStored_spec
    (hverifier : ∀ clientid, ∀ record, c.record clientid = some record → HasVerifier param record)
    (hstored : setclientidStored param c args env = some record) :
    HasVerifier param record ∧ record.confirmed ≠ .confirmed := by
  rcases setclientidStored_cases hstored with rfl | ⟨found, hfound, -, rfl | rfl⟩
  · exact ⟨hasVerifier_snprintf rfl, ConfirmState.noConfusion⟩
  · exact ⟨hasVerifier_snprintf rfl, ConfirmState.noConfusion⟩
  · exact ⟨hverifier _ found hfound, ConfirmState.noConfusion⟩

theorem confirmStored_spec
    (hverifier : ∀ clientid, ∀ record, c.record clientid = some record → HasVerifier param record)
    (hstored : confirmStored c confirmArgs env = some record) : HasVerifier param record := by
  obtain ⟨found, hfound, -, rfl⟩ := confirmStored_cases hstored
  exact hverifier _ found hfound

variable {stored : Option (ClientRecord Cred)}

theorem record_of_storeAny (h : c.WellFormed)
    (hrecord : (storeAny param c clientid env stored).record clientid' = some record) :
    c.record clientid' = some record ∨ clientid' = clientid ∧ stored = some record := by
  obtain ⟨-, hsame | ⟨new, hnew, hupdate⟩⟩ := storeAny_record h param clientid env stored
  · rw [hsame] at hrecord
    exact .inl hrecord
  · rw [hupdate] at hrecord
    by_cases hid : clientid' = clientid
    · subst hid
      rw [Function.update_self] at hrecord
      exact .inr ⟨rfl, hnew.trans hrecord⟩
    · rw [Function.update_of_ne hid] at hrecord
      exact .inl hrecord

theorem record_storeAny_ne_none (h : c.WellFormed) (hrecord : c.record clientid' ≠ none) :
    (storeAny param c clientid env stored).record clientid' ≠ none := by
  obtain ⟨-, hsame | ⟨new, -, hupdate⟩⟩ := storeAny_record h param clientid env stored
  · rw [hsame]
    exact hrecord
  · rw [hupdate]
    by_cases hid : clientid' = clientid
    · subst hid
      rw [Function.update_self]
      exact Option.some_ne_none new
    · rw [Function.update_of_ne hid]
      exact hrecord

theorem record_storeAny_of_ne (h : c.WellFormed) (hid : clientid' ≠ clientid) :
    (storeAny param c clientid env stored).record clientid' = c.record clientid' := by
  obtain ⟨-, hsame | ⟨new, -, hupdate⟩⟩ := storeAny_record h param clientid env stored
  · rw [hsame]
  · rw [hupdate, Function.update_of_ne hid]

theorem Invariant.returned (h : Invariant param s) : Returned s := by
  intro g hg
  obtain ⟨hverifier, hrecord⟩ := h.given g hg
  obtain ⟨record, hrecord⟩ := Option.ne_none_iff_exists'.mp hrecord
  refine ⟨record, hrecord, ?_⟩
  rw [hverifier]
  exact h.verifier _ record hrecord

theorem setclientid_keeps (h : Invariant param s)
    (hcareful : ∀ g ∈ s.given, g.clientid = args.clientid env → g.idVal = args.idVal)
    (ht : t = ⟨(nfs4OpSetclientid param s.clients args env).1,
      addGiven s.given args.idVal (nfs4OpSetclientid param s.clients args env).2⟩) :
    Invariant param t ∧ KeepsApart s (.setclientid args env) t := by
  subst ht
  -- the answers are those of before, and perhaps the one to this request
  have hgiven : ∀ g ∈ addGiven s.given args.idVal (nfs4OpSetclientid param s.clients args env).2,
      g ∈ s.given ∨ g.idVal = args.idVal ∧ g.clientid = args.clientid env ∧
        g.verifier = serverVerifier param ∧
        (nfs4OpSetclientid param s.clients args env).1.record g.clientid ≠ none := by
    intro g hg
    cases hres : (nfs4OpSetclientid param s.clients args env).2 with
    | ok clientid verifier =>
      obtain ⟨rfl, rfl, hrecord⟩ := nfs4OpSetclientid_ok h.wellFormed hres
      rw [hres] at hg
      rcases List.mem_cons.mp hg with rfl | hg
      · exact .inr ⟨rfl, rfl, rfl, hrecord⟩
      · exact .inl hg
    | clidInuse rNetid rAddr =>
      rw [hres] at hg
      exact .inl hg
    | serverfault =>
      rw [hres] at hg
      exact .inl hg
  have hinv : Invariant param ⟨(nfs4OpSetclientid param s.clients args env).1,
      addGiven s.given args.idVal (nfs4OpSetclientid param s.clients args env).2⟩ := by
    refine ⟨?_, fun clientid record hrecord => ?_, fun g hg => ?_, fun g hg g' hg' hid => ?_⟩
    · dsimp only
      rw [nfs4OpSetclientid_fst]
      exact (storeAny_record h.wellFormed _ _ _ _).1
    · dsimp only at hrecord
      rw [nfs4OpSetclientid_fst] at hrecord
      rcases record_of_storeAny h.wellFormed hrecord with hrecord | ⟨-, hstored⟩
      · exact h.verifier clientid record hrecord
      · exact (setclientidStored_spec h.verifier hstored).1
    · rcases hgiven g hg with hg | ⟨-, -, hverifier, hrecord⟩
      · obtain ⟨hverifier, hrecord⟩ := h.given g hg
        refine ⟨hverifier, ?_⟩
        dsimp only
        rw [nfs4OpSetclientid_fst]
        exact record_storeAny_ne_none h.wellFormed hrecord
      · exact ⟨hverifier, hrecord⟩
    · rcases hgiven g hg with hg | ⟨hname, hclientid, -⟩
      · rcases hgiven g' hg' with hg' | ⟨hname', hclientid', -⟩
        · exact h.distinct g hg g' hg' hid
        · rw [hname']
          exact hcareful g hg (hid.trans hclientid')
      · rcases hgiven g' hg' with hg' | ⟨hname', -⟩
        · rw [hname]
          exact (hcareful g' hg' (hid.symm.trans hclientid)).symm
        · rw [hname, hname']
  refine ⟨hinv, hinv.distinct, hinv.returned, fun g hg hne hconfirmed => ?_,
    fun clientid hnot hconfirmed => ?_⟩
  · -- the record is under another clientid
    have hid : g.clientid ≠ args.clientid env := fun hid => hne (hcareful g hg hid)
    dsimp only
    rw [nfs4OpSetclientid_fst]
    exact record_storeAny_of_ne h.wellFormed hid
  · -- SETCLIENTID confirms nothing
    obtain ⟨record, hrecord, hconf⟩ := hconfirmed
    dsimp only at hrecord
    rw [nfs4OpSetclientid_fst] at hrecord
    rcases record_of_storeAny h.wellFormed hrecord with hrecord | ⟨-, hstored⟩
    · exact absurd ⟨record, hrecord, hconf⟩ hnot
    · exact absurd hconf (setclientidStored_spec h.verifier hstored).2

/-- **One SETCLIENTID_CONFIRM** that has the right verifier for a record that is not confirmed. -/
theorem confirm_keeps (h : Invariant param s)
    (hcareful : ∀ record ∈ s.clients.record confirmArgs.clientid, record.confirmed ≠ .confirmed →
      strncmpEq record.verifier confirmArgs.setclientidConfirm nfs4VerifierSize = true)
    (ht : t = ⟨(nfs4OpSetclientidConfirm param s.clients confirmArgs env).1, s.given⟩) :
    Invariant param t ∧ KeepsApart s (.confirm confirmArgs env) t := by
  subst ht
  rw [nfs4OpSetclientidConfirm_fst]
  have hinv : Invariant param ⟨storeAny param s.clients confirmArgs.clientid env
      (confirmStored s.clients confirmArgs env), s.given⟩ := by
    refine ⟨(storeAny_record h.wellFormed _ _ _ _).1, fun clientid record hrecord => ?_,
      fun g hg => ?_, h.distinct⟩
    · rcases record_of_storeAny h.wellFormed hrecord with hrecord | ⟨-, hstored⟩
      · exact h.verifier clientid record hrecord
      · exact confirmStored_spec h.verifier hstored
    · obtain ⟨hverifier, hrecord⟩ := h.given g hg
      exact ⟨hverifier, record_storeAny_ne_none h.wellFormed hrecord⟩
  refine ⟨hinv, hinv.distinct, hinv.returned, trivial, fun clientid hnot hconfirmed => ?_⟩
  obtain ⟨record, hrecord, hconf⟩ := hconfirmed
  rcases record_of_storeAny h.wellFormed hrecord with hrecord | ⟨rfl, hstored⟩
  · exact absurd ⟨record, hrecord, hconf⟩ hnot
  · obtain ⟨found, hfound, hunconfirmed, -⟩ := confirmStored_cases hstored
    exact ⟨confirmArgs, env, found, rfl, rfl, hfound, hcareful found hfound hunconfirmed⟩

theorem keepsApart_step (h : Invariant param s) (hcareful : Careful s op) :
    ∃ t, setclientidStep param s op = some t ∧ Invariant param t ∧ KeepsApart s op t := by
  cases op with
  | setclientid args env =>
    obtain ⟨hlen, hgiven⟩ := hcareful
    exact ⟨_, if_pos hlen, setclientid_keeps h hgiven rfl⟩
  | confirm args env => exact ⟨_, rfl, confirm_keeps h hcareful rfl⟩

/-- **SETCLIENTID keeps clients apart**, and overflows no buffer, in every run in which the id
strings are shorter than 255 bytes, none has the clientid that was given to another one, and no
record is confirmed with another verifier than its own. -/
theorem keepsApart_of_careful (param : Param Cred) (mem : ℕ → ClientRecord Cred)
    (ops : List (SetclientidOp Cred))
    (hcareful : AllMeet (setclientidStep param) Careful (Server.init mem) ops) :
    Safely (setclientidStep param) KeepsApart (Server.init mem) ops :=
  safely_of_allMeet invariant_init (fun _ _ h hC => keepsApart_step h hC) hcareful

def blankRecord : ClientRecord Unit :=
  ⟨[], 0, 0, [], [], [], [], 0, .unconfirmed, (), [], [], 0, false, 0⟩

def plainEnv : OpEnv Unit := ⟨0, (), fun _ => 0, true, blankRecord, some [], .ample, 0⟩

/-- A server that has started at the time 1300000000. -/
def plainParam : Param Unit := ⟨1, 1300000000, none⟩

/-- SETCLIENTID with the first byte of the verifier of the client. -/
def setclientidOf (idVal : List UInt8) (verifier : UInt8) : SetclientidOp Unit :=
  .setclientid ⟨idVal, [verifier], 0, [], []⟩ plainEnv

/-- SETCLIENTID_CONFIRM with the verifier of the server. -/
def confirmOf (clientid : UInt64) : SetclientidOp Unit :=
  .confirm ⟨clientid, serverVerifier plainParam⟩ plainEnv

/-- Two clients, whose id strings are `a` and `b`. -/
theorem keepsApart_of_careful_twoClients :
    Safely (setclientidStep plainParam) KeepsApart (Server.init fun _ => blankRecord)
      [setclientidOf [97] 1, confirmOf 970, setclientidOf [98] 1, confirmOf 980] :=
  keepsApart_of_careful plainParam _ _ (by decide +kernel)

/-- Only every other byte counts: the id strings `aa` and `ab` have the same clientid. -/
theorem sameDigest_breaks_keepsApart :
    ¬ Safely (setclientidStep plainParam) KeepsApart (Server.init fun _ => blankRecord)
      [setclientidOf [97, 97] 1, setclientidOf [97, 98] 1] := by
  rintro ⟨s, hs, -, t, ht, h, -⟩
  cases hs
  cases ht
  have hdistinct := h.distinct ⟨[97, 98], 971, serverVerifier plainParam⟩ (by decide +kernel)
    ⟨[97, 97], 971, serverVerifier plainParam⟩ (by decide +kernel) rfl
  cases hdistinct

end

end CloudNfs.ClientId
