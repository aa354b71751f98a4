import CloudNfs.Nfs4State

/-!
# OPEN, OPEN_DOWNGRADE and CLOSE (`NFS_Protocols/nfs4*_op_*.c`)

`nfs4_op_open` and `nfs41_op_open` differ in a few assignments, so they are one
definition with the minor version as a parameter; likewise the two CLOSE operations.
What the calls outside the states answer (file system, allocation, filehandles) is given
with the operation (`OpenEnv`). The operations work on regular files.

The four ways through OPEN:

* `openUnchecked` — OPEN4_CREATE, UNCHECKED4, the file exists: a state is added, **no
  state is looked at**;
* `openExclusive` — OPEN4_CREATE, EXCLUSIVE4, the file exists: a state with the verifier is
  looked for and returned;
* `openCreate` — OPEN4_CREATE, the file does not exist: it is created and a state is added;
* `openNoCreate` — OPEN4_NOCREATE: the states of the file are scanned (`openScan`), then a
  state of the same owner is used again or a state is added.

Two things of the source are inputs here: bytes that are never initialised (the verifier
unless EXCLUSIVE4 creates the file, `lockheld` in NFSv4.1), and the bytes behind the
string of the owner in memory, which a `memcmp` with the length of another owner's
string can reach.
-/

namespace CloudNfs.Nfs4

/-! ## Arguments and results -/

/-- `stateid4`. -/
structure Stateid4 where
  seqid : UInt32
  /-- the part that identifies the state -/
  other : StateidOther
  deriving DecidableEq

structure OpRes where
  status : Nfsstat4
  stateid : Option Stateid4
  deriving DecidableEq

def OpRes.fail (status : Nfsstat4) : OpRes := ⟨status, none⟩

/-- `openflag4`. -/
inductive OpenHow where
  | noCreate
  /-- `OPEN4_CREATE` with `UNCHECKED4` -/
  | unchecked
  /-- `OPEN4_CREATE` with `GUARDED4` -/
  | guarded
  /-- `OPEN4_CREATE` with `EXCLUSIVE4` and its verifier -/
  | exclusive (createverf : List UInt8)
  deriving DecidableEq

/-- `OPEN4args`, for the file that the name stands for. -/
structure OpenArgs where
  file : ℕ
  seqid : UInt32
  shareAccess : UInt32
  shareDeny : UInt32
  owner : OwnerName
  openhow : OpenHow
  deriving DecidableEq

/-- The error of a call outside the states: not `NFS4_OK`, nor `NFS4ERR_SHARE_DENIED` and
`NFS4ERR_LOCKS_HELD`, which only OPEN and CLOSE themselves answer. -/
abbrev Failure := { e : Nfsstat4 // e ≠ .ok ∧ e ≠ .shareDenied ∧ e ≠ .locksHeld }

/-- What OPEN meets outside the states; `none` stands for success. -/
structure OpenEnv where
  /-- the checks of filehandle, claim, name, attributes, parent and client id -/
  checks : Option Failure
  ownerAlloc : Bool
  /-- the attributes of the parent and the conversion of the given attributes -/
  prepare : Option Failure
  /-- `cache_inode_lookup`, but for `CACHE_INODE_NOT_FOUND` -/
  lookup : Option Failure
  /-- `cache_inode_access` for a share that denies writing -/
  denyWriteAccess : Bool
  /-- `cache_inode_access` for a share that reads -/
  readAccess : Bool
  /-- `cache_inode_access` for a share that writes -/
  writeAccess : Bool
  setattr : Option Failure
  /-- `cache_inode_create`, but for `CACHE_INODE_ENTRY_EXISTS` -/
  create : Option Failure
  /-- `cache_inode_create` answers `CACHE_INODE_ENTRY_EXISTS` and `NULL`; an entry that it finds
  is a regular file and taken as if it were created -/
  entryExists : Bool
  stateAlloc : Bool
  /-- `cache_inode_open_by_name` -/
  opened : Bool
  /-- the making of the filehandle and of the result -/
  finish : Option Failure
  verifierBytes : List UInt8
  /-- the value of a `lockheld` that is not initialised -/
  lockheldWord : UInt32
  /-- the bytes behind the string of the owner in memory -/
  ownerTail : List UInt8
  deriving DecidableEq

/-- All calls succeed, and memory that is not initialised is zero. -/
def OpenEnv.clear : OpenEnv :=
  { checks := none, ownerAlloc := true, prepare := none, lookup := none, denyWriteAccess := true,
    readAccess := true, writeAccess := true, setattr := none, create := none, entryExists := false,
    stateAlloc := true, opened := true, finish := none, verifierBytes := [], lockheldWord := 0,
    ownerTail := [] }

/-- `OPEN4_SHARE_ACCESS_READ` and `OPEN4_SHARE_DENY_READ`. -/
def shareRead : UInt32 := 1

/-- `OPEN4_SHARE_ACCESS_WRITE` and `OPEN4_SHARE_DENY_WRITE`. -/
def shareWrite : UInt32 := 2

def has (bits bit : UInt32) : Bool := decide (bits &&& bit ≠ 0)

/-! ## The owner -/

def newOpenOwner (cfg : Config) (name : OwnerName) : OpenOwner :=
  { name := name, confirmed := false, seqid := if cfg.minor1 then 1 else 0, counter := 0,
    relatedOwner := none }

/-- The open owner of the request, made if it is not known. In NFSv4.0 a sequence id of
zero starts a known owner again. -/
def openOwner (cfg : Config) (s : States) (args : OpenArgs) (env : OpenEnv) :
    Option (States × OpenOwner) :=
  match s.owners args.owner with
  | none =>
    if env.ownerAlloc then
      let s := (nfsOpenOwnerSet s (newOpenOwner cfg args.owner)).1
      some (s, { newOpenOwner cfg args.owner with counter := s.ownerCounter })
    else none
  | some o =>
    if !cfg.minor1 && args.seqid == 0 then
      let o := { o with seqid := 0, confirmed := false }
      some (s.setOwner o, o)
    else some (s, o)

/-! ## The ways through OPEN -/

def candidateShare (args : OpenArgs) (oexclVerifier : List UInt8) (lockheld : UInt32) : StateData :=
  .share { oexclVerifier := oexclVerifier, shareAccess := args.shareAccess,
           shareDeny := args.shareDeny, lockheld := lockheld }

/-- `candidate_data.share.lockheld` where NFSv4.0 sets it to zero and NFSv4.1 does not
set it. -/
def lockheldUnset (cfg : Config) (env : OpenEnv) : UInt32 :=
  if cfg.minor1 then env.lockheldWord else 0

/-- The end of OPEN, after a state was found or added. -/
def openFinish (s : States) (o : OpenOwner) (env : OpenEnv) (stateid : States → Stateid4) :
    States × OpRes :=
  if !env.opened then (s.bumpOwner o.name 1, .fail .access)
  else
    match env.finish with
    | some e => (s, .fail e.1)
    | none => (s, ⟨.ok, some (stateid s)⟩)

/-- The result of an added state, or the failure of `cache_inode_add_state`. -/
def openAdded (r : States × Option ℕ) (o : OpenOwner) (next : States → ℕ → States × OpRes) :
    States × OpRes :=
  match r with
  | (s, some p) => next s p
  | (s, none) => (s.bumpOwner o.name 1, .fail .shareDenied)

def stateStateid (p : ℕ) (s : States) : Stateid4 := ⟨(s.mem p).seqid, (s.mem p).stateidOther⟩

/-- The stateid of a state, with the sequence id of the owner. -/
def ownerStateid (name : OwnerName) (p : ℕ) (s : States) : Stateid4 :=
  ⟨match s.owners name with
    | some o => o.seqid
    | none => 0, (s.mem p).stateidOther⟩

/-- OPEN4_CREATE, UNCHECKED4, of a file that exists. -/
def openUnchecked (cfg : Config) (s : States) (args : OpenArgs) (env : OpenEnv) (o : OpenOwner) :
    States × OpRes :=
  if has args.shareDeny shareWrite && !env.denyWriteAccess then (s, .fail .access)
  else if has args.shareAccess shareRead && !env.readAccess then (s, .fail .access)
  else
    match env.setattr with
    | some e => (s, .fail e.1)
    | none =>
      if has args.shareAccess shareWrite && !env.writeAccess then (s, .fail .access)
      else
        openAdded (cacheInodeAddState cfg s args.file
            (candidateShare args env.verifierBytes (lockheldUnset cfg env)) o env.stateAlloc) o
          fun s p => openFinish s o env (stateStateid p)

/-- `memcmp(arg_OPEN4.owner.owner.owner_val, powner->owner_val, powner->owner_len)`
finds no difference: only as many bytes are compared as the recorded owner has. -/
def ownerValMatches (args : OpenArgs) (env : OpenEnv) (recorded : OwnerName) : Bool :=
  decide ((args.owner.ownerVal ++ env.ownerTail).take recorded.ownerVal.length = recorded.ownerVal)

/-- A state left by an exclusive create with the verifier. -/
def matchesVerifier (args : OpenArgs) (env : OpenEnv) (createverf : List UInt8)
    (st : FileState) : Bool :=
  match st.data with
  | .share sh => ownerValMatches args env st.powner && decide (sh.oexclVerifier = createverf)
  | .lock _ => false

/-- OPEN4_CREATE, EXCLUSIVE4, of a file that exists. -/
def openExclusive (s : States) (args : OpenArgs) (env : OpenEnv) (createverf : List UInt8) :
    States × OpRes :=
  match (s.lists args.file).find? fun p => matchesVerifier args env createverf (s.mem p) with
  | none => (s, .fail .exist)
  | some p =>
    match env.finish with
    | some e => (s, .fail e.1)
    | none => (s, ⟨.ok, some (stateStateid p s)⟩)

/-- `strncpy(verifier, createverf, 8)`: nothing behind a zero byte is copied. -/
def strncpyVerifier (createverf : List UInt8) : List UInt8 :=
  let copied := (createverf.take 8).takeWhile (· ≠ 0)
  copied ++ List.replicate (8 - copied.length) 0

def createdVerifier (args : OpenArgs) (env : OpenEnv) : List UInt8 :=
  match args.openhow with
  | .exclusive createverf => strncpyVerifier createverf
  | _ => env.verifierBytes

/-- OPEN4_CREATE of a file that does not exist. When `cache_inode_create` answers
`CACHE_INODE_ENTRY_EXISTS` without an entry, the entry is still `NULL` and `cache_inode_add_state`
refuses it. -/
def openCreate (cfg : Config) (s : States) (args : OpenArgs) (env : OpenEnv) (o : OpenOwner) :
    States × OpRes :=
  match env.create with
  | some e => (s, .fail e.1)
  | none =>
    if env.entryExists then (s.bumpOwner o.name 1, .fail .shareDenied)
    else
      let s := { s with present := Function.update s.present args.file true }
      openAdded (cacheInodeAddState cfg s args.file
          (candidateShare args (createdVerifier args env) 0) o env.stateAlloc) o
        fun s p =>
          match env.setattr with
          | some e => (s, .fail e.1)
          | none => openFinish s o env (ownerStateid o.name p)

/-- The end of the scan of OPEN4_NOCREATE. -/
inductive ScanResult where
  /-- no conflict was found; the last state of the same owner -/
  | pass (sameOwner : Option ℕ)
  /-- a conflict, and how often the sequence id of the owner is incremented for it -/
  | denied (seqids : UInt32)

/-- What the scan says about a share state: the number of increments of the sequence
id when it is in the way. -/
def shareDenies (args : OpenArgs) (env : OpenEnv) (powner : OwnerName) (sh : Share) :
    Option UInt32 :=
  if powner ≠ args.owner ∧ ownerValMatches args env powner = false ∧
      has sh.shareAccess shareWrite = true ∧ has args.shareDeny shareWrite = true then some 0
  else if has sh.shareDeny shareRead && has args.shareAccess shareRead then some 2
  else if has sh.shareDeny shareWrite && has args.shareAccess shareWrite then some 1
  else none

/-- The loop of OPEN4_NOCREATE over the states of the file. -/
def openScan (args : OpenArgs) (env : OpenEnv) (mem : ℕ → FileState) :
    List ℕ → Option ℕ → ScanResult
  | [], sameOwner => .pass sameOwner
  | p :: rest, sameOwner =>
    match (mem p).data with
    | .lock _ => openScan args env mem rest sameOwner
    | .share sh =>
      match shareDenies args env (mem p).powner sh with
      | some n => .denied n
      | none =>
        openScan args env mem rest (if (mem p).powner = args.owner then some p else sameOwner)

/-- `pstate->seqid += 1`. -/
def States.bumpState (s : States) (p : ℕ) : States :=
  s.set p { s.mem p with seqid := (s.mem p).seqid + 1 }

/-- OPEN4_NOCREATE of a file that exists. NFSv4.1 also increments the sequence id of the
owner when a state is used again. -/
def openNoCreate (cfg : Config) (s : States) (args : OpenArgs) (env : OpenEnv) (o : OpenOwner) :
    States × OpRes :=
  if has args.shareDeny shareWrite && !env.denyWriteAccess then (s, .fail .access)
  else if has args.shareAccess shareRead && !env.readAccess then (s, .fail .access)
  else if has args.shareAccess shareWrite && !env.writeAccess then (s, .fail .access)
  else
    match openScan args env s.mem (s.lists args.file) none with
    | .denied n => (s.bumpOwner o.name n, .fail .shareDenied)
    | .pass (some p) =>
      let s := s.bumpState p
      let s := if cfg.minor1 then s.bumpOwner o.name 1 else s
      openFinish s o env (ownerStateid o.name p)
    | .pass none =>
      openAdded (cacheInodeAddState cfg s args.file
          (candidateShare args env.verifierBytes (lockheldUnset cfg env)) o env.stateAlloc) o
        fun s p => openFinish s o env (ownerStateid o.name p)

/-- `nfs4_op_open` and `nfs41_op_open`. -/
def opOpen (cfg : Config) (s : States) (args : OpenArgs) (env : OpenEnv) : States × OpRes :=
  match env.checks with
  | some e => (s, .fail e.1)
  | none =>
    match openOwner cfg s args env with
    | none => (s, .fail .serverfault)
    | some (s, o) =>
      match env.prepare with
      | some e => (s, .fail e.1)
      | none =>
        match env.lookup with
        | some e => (s, .fail e.1)
        | none =>
          match args.openhow, s.present args.file with
          | .noCreate, false => (s, .fail .noent)
          | .noCreate, true => openNoCreate cfg s args env o
          | .unchecked, true => openUnchecked cfg s args env o
          | .guarded, true => (s, .fail .exist)
          | .exclusive createverf, true => openExclusive s args env createverf
          | _, false => openCreate cfg s args env o

/-! ## OPEN_DOWNGRADE and CLOSE -/

/-- `OPEN_DOWNGRADE4args`. -/
structure DowngradeArgs where
  openStateid : StateidOther
  shareAccess : UInt32
  /-- the access that stays denied to others -/
  shareDeny : UInt32
  deriving DecidableEq

/-- `nfs4_op_open_downgrade`: the requested share is not read. -/
def opOpenDowngrade (s : States) (args : DowngradeArgs) (checks : Option Failure) :
    States × OpRes :=
  match checks with
  | some e => (s, .fail e.1)
  | none =>
    match cacheInodeGetState s args.openStateid with
    | none => (s, .fail .noent)
    | some p =>
      let s := s.bumpState p
      (s, ⟨.ok, some (stateStateid p s)⟩)

/-- `state_data.share.lockheld` of any state: in a lock state the type of the lock is at
its place in the union. -/
def StateData.lockheldWord : StateData → UInt32
  | .share sh => sh.lockheld
  | .lock l => l.lockType

/-- What CLOSE meets outside the states. -/
structure CloseEnv where
  /-- the checks of the filehandle and the type of the file -/
  checks : Option Failure
  /-- `nfs_client_id_get` knows the client of the state -/
  clientKnown : Bool
  /-- `cache_inode_close` -/
  closed : Option Failure
  deriving DecidableEq

/-- `nfs4_Check_Stateid`; with a client id of zero the client of the state is looked
up. -/
def nfs4CheckStateid (cfg : Config) (s : States) (other : StateidOther) (clientKnown : Bool) :
    Nfsstat4 :=
  match s.stateIds other with
  | none => if cfg.returnBadStateid then .badStateid else .ok
  | some _ =>
    if !clientKnown then (if cfg.returnBadStateid then .badStateid else .ok)
    else if cfg.bootTime ≠ other.boot then .staleStateid
    else .ok

/-- The part of CLOSE that the two versions share: the state, if it may be closed. -/
def closeState (s : States) (other : StateidOther) : Except Nfsstat4 ℕ :=
  match cacheInodeGetState s other with
  | none => .error .badStateid
  | some p => if 0 < (s.mem p).data.lockheldWord then .error .locksHeld else .ok p

/-- `nfs4_op_close`: the stateid is checked, and the state is deleted before the file is
closed. -/
def nfs4OpClose (cfg : Config) (s : States) (other : StateidOther) (env : CloseEnv) :
    States × OpRes :=
  match env.checks with
  | some e => (s, .fail e.1)
  | none =>
    if nfs4CheckStateid cfg s other env.clientKnown ≠ .ok then
      (s, .fail (nfs4CheckStateid cfg s other env.clientKnown))
    else
      match closeState s other with
      | .error e => (s, .fail e)
      | .ok p =>
        let seqid := (s.mem p).seqid + 1
        let s := s.bumpOwner (s.mem p).powner 1
        let (s, deleted) := cacheInodeDelStateByKey s other
        if !deleted then (s, .fail .noent)
        else
          match env.closed with
          | some e => (s, .fail e.1)
          | none => (s, ⟨.ok, some ⟨seqid, other⟩⟩)

/-- `nfs41_op_close`: the stateid is not checked, and the file is closed before the state
is deleted. -/
def nfs41OpClose (s : States) (other : StateidOther) (env : CloseEnv) : States × OpRes :=
  match env.checks with
  | some e => (s, .fail e.1)
  | none =>
    match closeState s other with
    | .error e => (s, .fail e)
    | .ok p =>
      let seqid := (s.mem p).seqid + 1
      let s := s.bumpOwner (s.mem p).powner 1
      match env.closed with
      | some e => (s, .fail e.1)
      | none =>
        let (s, deleted) := cacheInodeDelStateByKey s other
        if deleted then (s, ⟨.ok, some ⟨seqid, other⟩⟩) else (s, .fail .noent)

def opClose (cfg : Config) (s : States) (other : StateidOther) (env : CloseEnv) : States × OpRes :=
  if cfg.minor1 then nfs41OpClose s other env else nfs4OpClose cfg s other env

/-! ## What OPEN can do -/

section Scan

variable {args : OpenArgs} {env : OpenEnv} {mem : ℕ → FileState}

/-- The conflicts that the scan looks for: writing denied to an owner with another string
who writes, and reading or writing that is denied already, by any owner. -/
def Sought (args : OpenArgs) (env : OpenEnv) (powner : OwnerName) (sh : Share) : Prop :=
  (powner ≠ args.owner ∧ ownerValMatches args env powner = false ∧
      has sh.shareAccess shareWrite = true ∧ has args.shareDeny shareWrite = true) ∨
    (has sh.shareDeny shareRead = true ∧ has args.shareAccess shareRead = true) ∨
    (has sh.shareDeny shareWrite = true ∧ has args.shareAccess shareWrite = true)

theorem shareDenies_ne_none_iff {powner : OwnerName} {sh : Share} :
    shareDenies args env powner sh ≠ none ↔ Sought args env powner sh := by
  rw [shareDenies, Sought]
  split
  next h => simp [h]
  rename_i h
  split
  next hread => simp_all
  rename_i hread
  split
  next hwrite => simp_all
  next hwrite => simp_all

/-- A share state of the list is in the way of the scan. -/
def Caught (args : OpenArgs) (env : OpenEnv) (mem : ℕ → FileState) (l : List ℕ) : Prop :=
  ∃ p ∈ l, ∃ sh, (mem p).data = .share sh ∧ Sought args env (mem p).powner sh

theorem openScan_denied_iff {l : List ℕ} {sameOwner : Option ℕ} :
    (∃ n, openScan args env mem l sameOwner = .denied n) ↔ Caught args env mem l := by
  induction l generalizing sameOwner with
  | nil =>
    refine ⟨?_, ?_⟩
    · rintro ⟨n, hn⟩
      cases hn
    · rintro ⟨p, hp, -⟩
      cases hp
  | cons p rest ih =>
    have hrest : Caught args env mem rest → Caught args env mem (p :: rest) := by
      rintro ⟨q, hq, h⟩
      exact ⟨q, List.mem_cons_of_mem p hq, h⟩
    rw [openScan]
    cases hdata : (mem p).data with
    | lock l =>
      simp only
      rw [ih]
      refine ⟨hrest, ?_⟩
      rintro ⟨q, hq, sh, hsh, h⟩
      rcases List.mem_cons.mp hq with rfl | hq
      · rw [hdata] at hsh
        cases hsh
      · exact ⟨q, hq, sh, hsh, h⟩
    | share sh =>
      cases hdenies : shareDenies args env (mem p).powner sh with
      | some n =>
        simp only [hdenies]
        have hsought : Sought args env (mem p).powner sh :=
          shareDenies_ne_none_iff.mp (by simp [hdenies])
        exact ⟨fun _ => ⟨p, List.mem_cons_self, sh, hdata, hsought⟩, fun _ => ⟨n, rfl⟩⟩
      | none =>
        simp only [hdenies]
        rw [ih]
        refine ⟨hrest, ?_⟩
        rintro ⟨q, hq, sh', hsh, h⟩
        rcases List.mem_cons.mp hq with rfl | hq
        · obtain rfl : sh = sh' := StateData.share.inj (hdata.symm.trans hsh)
          exact absurd hdenies (shareDenies_ne_none_iff.mpr h)
        · exact ⟨q, hq, sh', hsh, h⟩

end Scan

/-- The number that the owner has, or gets with this OPEN. -/
def ownerNumber (s : States) (name : OwnerName) : UInt32 :=
  match s.owners name with
  | some o => o.counter
  | none => s.ownerCounter + 1

/-- The stateid of a state that the owner adds to the file. -/
def openStateidOther (cfg : Config) (s : States) (args : OpenArgs) : StateidOther :=
  { boot := cfg.bootTime, fileid := cfg.fileid args.file,
    owner := (ownerNumber s args.owner).toUInt16 }

def openedState (cfg : Config) (s : States) (args : OpenArgs) (oexclVerifier : List UInt8)
    (lockheld : UInt32) : StateInfo :=
  { data := candidateShare args oexclVerifier lockheld, stateidOther := openStateidOther cfg s args,
    powner := args.owner, pentry := args.file }

/-- The three `cache_inode_access` checks pass. -/
def accessPasses (args : OpenArgs) (env : OpenEnv) : Bool :=
  !(has args.shareDeny shareWrite && !env.denyWriteAccess) &&
    !(has args.shareAccess shareRead && !env.readAccess) &&
    !(has args.shareAccess shareWrite && !env.writeAccess)

/-- Nothing outside the states stops an OPEN before it knows whether the file exists. -/
structure ReachesFile (s : States) (args : OpenArgs) (env : OpenEnv) : Prop where
  checks : env.checks = none
  /-- the owner is known or can be made -/
  owner : s.owners args.owner ≠ none ∨ env.ownerAlloc = true
  /-- the parent and the attributes -/
  prepare : env.prepare = none
  lookup : env.lookup = none

/-- Nothing outside the states stops an OPEN of a file that exists before it looks at them,
and there is memory for a state. -/
structure ReachesStates (s : States) (args : OpenArgs) (env : OpenEnv) : Prop
    extends ReachesFile s args env where
  access : accessPasses args env = true
  /-- the attributes of a file opened UNCHECKED4 -/
  setattr : args.openhow = .unchecked → env.setattr = none
  stateAlloc : env.stateAlloc = true

/-- OPEN adds a state to a file that exists: UNCHECKED4, or OPEN4_NOCREATE whose scan finds
nothing. -/
structure AddsShare (s : States) (args : OpenArgs) (env : OpenEnv) : Prop where
  /-- nothing outside the states stops it -/
  reaches : ReachesStates s args env
  present : s.present args.file = true
  /-- no state of the owner is found, or looked for -/
  openhow : args.openhow = .unchecked ∨ (args.openhow = .noCreate ∧
    openScan args env s.mem (s.lists args.file) none = .pass none)

inductive OpenOutcome (cfg : Config) (s : States) (args : OpenArgs) (env : OpenEnv) :
    States × OpRes → Prop where
  | refused {t : States} {res : OpRes} (keeps : Keeps s t) (status : res.status ≠ .ok)
      (unchecked : ReachesStates s args env → s.present args.file = true →
        args.openhow ≠ .unchecked)
      (noCreate : ReachesStates s args env → s.present args.file = true →
        args.openhow = .noCreate →
        Caught args env s.mem (s.lists args.file) ∧ res.status = .shareDenied) :
      OpenOutcome cfg s args env (t, res)
  | replayed {t : States} {res : OpRes} {p : ℕ} {createverf : List UInt8} (keeps : Keeps s t)
      (openhow : args.openhow = .exclusive createverf)
      (find : (s.lists args.file).find? (fun p => matchesVerifier args env createverf (s.mem p)) =
        some p)
      (ok : res.status = .ok → ∃ n, res.stateid = some ⟨n, (s.mem p).stateidOther⟩) :
      OpenOutcome cfg s args env (t, res)
  | reused {t : States} {res : OpRes} {p : ℕ} (keeps : Keeps s t)
      (openhow : args.openhow = .noCreate)
      (scan : openScan args env s.mem (s.lists args.file) none = .pass (some p))
      (denied : res.status ≠ .shareDenied)
      (ok : res.status = .ok → ∃ n, res.stateid = some ⟨n, (s.mem p).stateidOther⟩) :
      OpenOutcome cfg s args env (t, res)
  | added {t : States} {res : OpRes} {oexclVerifier : List UInt8} {lockheld : UInt32}
      (view : t.view = s.view.link (openedState cfg s args oexclVerifier lockheld))
      (wellFormed : s.WellFormed → t.WellFormed)
      (ok : res.status = .ok → ∃ n, res.stateid = some ⟨n, openStateidOther cfg s args⟩)
      (how : (AddsShare s args env ∧ lockheld = lockheldUnset cfg env) ∨
        (s.present args.file = false ∧ lockheld = 0)) :
      OpenOutcome cfg s args env (t, res)

variable {cfg : Config} {s : States} {args : OpenArgs} {env : OpenEnv} {other : StateidOther}
  {p : ℕ}

theorem openOwner_spec {t : States} {o : OpenOwner} (hs : s.WellFormed)
    (h : openOwner cfg s args env = some (t, o)) :
    Keeps s t ∧ o.name = args.owner ∧ o.counter = ownerNumber s args.owner ∧
      t.owners o.name = some o ∧ t.present = s.present ∧ t.mem = s.mem := by
  rw [openOwner] at h
  split at h
  next hnone =>
    split at h
    · simp only [Option.some.injEq, Prod.mk.injEq] at h
      obtain ⟨rfl, rfl⟩ := h
      refine ⟨Keeps.nfsOpenOwnerSet s _, rfl, ?_, ?_, ?_, ?_⟩
      · simp [ownerNumber, hnone, nfsOpenOwnerSet, newOpenOwner]
      · simp [nfsOpenOwnerSet, hnone, newOpenOwner]
      · simp [nfsOpenOwnerSet, hnone, newOpenOwner]
      · simp [nfsOpenOwnerSet, hnone, newOpenOwner]
    · cases h
  next o' ho' =>
    have hname := hs.name _ _ ho'
    split at h
    · simp only [Option.some.injEq, Prod.mk.injEq] at h
      obtain ⟨rfl, rfl⟩ := h
      refine ⟨Keeps.setOwner fun _ o' ho => ?_, hname, ?_, ?_, rfl, rfl⟩
      · cases ho'.symm.trans (hname ▸ ho)
        rfl
      · simp [ownerNumber, ho']
      · simp [States.setOwner]
    · simp only [Option.some.injEq, Prod.mk.injEq] at h
      obtain ⟨rfl, rfl⟩ := h
      refine ⟨Keeps.refl s, hname, ?_, ?_, rfl, rfl⟩
      · simp [ownerNumber, ho']
      · simp [hname, ho']

theorem openOwner_eq_none (h : openOwner cfg s args env = none) :
    s.owners args.owner = none ∧ env.ownerAlloc = false := by
  rw [openOwner] at h
  split at h
  next hnone =>
    split at h
    · cases h
    next halloc => exact ⟨hnone, Bool.eq_false_iff.mpr halloc⟩
  · split at h
    · cases h
    · cases h

theorem openOwner_eq_some {r : States × OpenOwner} (h : openOwner cfg s args env = some r) :
    s.owners args.owner ≠ none ∨ env.ownerAlloc = true := by
  by_contra hnot
  obtain ⟨hnone, halloc⟩ := not_or.mp hnot
  rw [openOwner, not_not.mp hnone] at h
  simp [halloc] at h

theorem openFinish_spec (s : States) (o : OpenOwner) (env : OpenEnv) (id : States → Stateid4) :
    Keeps s (openFinish s o env id).1 ∧ (openFinish s o env id).2.status ≠ .shareDenied ∧
      ((openFinish s o env id).2.status = .ok →
        (openFinish s o env id).2.stateid = some (id s)) := by
  rw [openFinish]
  split
  · refine ⟨Keeps.bumpOwner s _ _, Nfsstat4.noConfusion, fun h => ?_⟩
    cases h
  · split
    next e _ => exact ⟨Keeps.refl s, e.2.2.1, fun h => absurd h e.2.1⟩
    · exact ⟨Keeps.refl s, Nfsstat4.noConfusion, fun _ => rfl⟩

section Paths

variable {cfg : Config} {s u : States} {args : OpenArgs} {env : OpenEnv} {o : OpenOwner}

theorem OpenOutcome.stopped {res : OpRes} (hkeeps : Keeps s u) (hstatus : res.status ≠ .ok)
    (hstop : ¬ReachesStates s args env ∨ s.present args.file = false ∨
      (args.openhow ≠ .unchecked ∧ args.openhow ≠ .noCreate)) :
    OpenOutcome cfg s args env (u, res) := by
  refine .refused hkeeps hstatus ?_ ?_
  · intro hreach hpresent
    rcases hstop with h | h | h
    · exact absurd hreach h
    · rw [h] at hpresent
      cases hpresent
    · exact h.1
  · intro hreach hpresent hhow
    rcases hstop with h | h | h
    · exact absurd hreach h
    · rw [h] at hpresent
      cases hpresent
    · exact absurd hhow h.2

theorem openAdded_outcome {oexclVerifier : List UInt8} {lockheld : UInt32}
    {next : States → ℕ → States × OpRes} (hkeeps : Keeps s u) (hname : o.name = args.owner)
    (hcounter : o.counter = ownerNumber s args.owner) (hknown : u.owners o.name = some o)
    (hpresent : u.present args.file = true)
    (hnext : ∀ t p, Keeps t (next t p).1 ∧ ((next t p).2.status = .ok →
      ∃ n, (next t p).2.stateid = some ⟨n, (t.mem p).stateidOther⟩))
    (how : env.stateAlloc = true → (AddsShare s args env ∧ lockheld = lockheldUnset cfg env) ∨
      (s.present args.file = false ∧ lockheld = 0)) :
    OpenOutcome cfg s args env
      (openAdded (cacheInodeAddState cfg u args.file (candidateShare args oexclVerifier lockheld) o
        env.stateAlloc) o next) := by
  rw [cacheInodeAddState_eq]
  cases halloc : env.stateAlloc with
  | false =>
    refine .stopped (hkeeps.trans (Keeps.bumpOwner u _ _)) Nfsstat4.noConfusion (.inl ?_)
    intro hreach
    rw [hreach.stateAlloc] at halloc
    cases halloc
  | true =>
    have hinfo : (newState cfg args.file
        (candidateShare args oexclVerifier lockheld) o).toStateInfo =
        openedState cfg s args oexclVerifier lockheld := by
      simp only [newState, openedState, openStateidOther, nfs4BuildStateIdOther, hname, hcounter]
    obtain ⟨hfinish, hok⟩ :=
      hnext (u.link (newState cfg args.file (candidateShare args oexclVerifier lockheld) o)) u.fresh
    have hview := hfinish.view
    rw [view_link, hkeeps.view, hinfo] at hview
    refine .added hview ?_ ?_ (how halloc)
    · exact fun hs => hfinish.wellFormed ((hkeeps.wellFormed hs).link hpresent ⟨o, hknown, rfl⟩)
    · intro hstatus
      obtain ⟨n, hn⟩ := hok hstatus
      refine ⟨n, hn.trans ?_⟩
      simp only [States.link, Function.update_self, newState, nfs4BuildStateIdOther,
        openStateidOther, hcounter]

theorem openFinish_stateid (id : States → ℕ → Stateid4)
    (hid : ∀ t p, (id t p).other = (t.mem p).stateidOther) (t : States) (p : ℕ) :
    Keeps t (openFinish t o env fun t => id t p).1 ∧
      ((openFinish t o env fun t => id t p).2.status = .ok →
        ∃ n, (openFinish t o env fun t => id t p).2.stateid =
          some ⟨n, (t.mem p).stateidOther⟩) := by
  obtain ⟨hkeeps, -, hok⟩ := openFinish_spec t o env fun t => id t p
  refine ⟨hkeeps, fun h => ⟨(id t p).seqid, ?_⟩⟩
  rw [hok h, ← hid]

theorem not_reachesStates_of_access (h : (has args.shareDeny shareWrite && !env.denyWriteAccess) =
      true ∨ (has args.shareAccess shareRead && !env.readAccess) = true ∨
      (has args.shareAccess shareWrite && !env.writeAccess) = true) :
    ¬ReachesStates s args env := by
  intro hreach
  have haccess := hreach.access
  rw [accessPasses] at haccess
  rcases h with h | h | h <;> simp [h] at haccess

theorem accessPasses_of_not
    (hdeny : ¬(has args.shareDeny shareWrite && !env.denyWriteAccess) = true)
    (hread : ¬(has args.shareAccess shareRead && !env.readAccess) = true)
    (hwrite : ¬(has args.shareAccess shareWrite && !env.writeAccess) = true) :
    accessPasses args env = true := by
  rw [accessPasses, Bool.eq_false_iff.mpr hdeny, Bool.eq_false_iff.mpr hread,
    Bool.eq_false_iff.mpr hwrite]
  rfl

theorem openUnchecked_outcome (hfile : ReachesFile s args env) (hkeeps : Keeps s u)
    (hname : o.name = args.owner) (hcounter : o.counter = ownerNumber s args.owner)
    (hknown : u.owners o.name = some o) (hexists : s.present args.file = true)
    (hpresent : u.present args.file = true) (hhow : args.openhow = .unchecked) :
    OpenOutcome cfg s args env (openUnchecked cfg u args env o) := by
  rw [openUnchecked]
  split
  next h =>
    exact .stopped hkeeps Nfsstat4.noConfusion (.inl (not_reachesStates_of_access (.inl h)))
  next hdeny =>
  split
  next h =>
    exact .stopped hkeeps Nfsstat4.noConfusion
      (.inl (not_reachesStates_of_access (.inr (.inl h))))
  next hread =>
  split
  next e he =>
    refine .stopped hkeeps e.2.1 (.inl fun hreach => ?_)
    rw [hreach.setattr hhow] at he
    cases he
  next hsetattr =>
  split
  next h =>
    exact .stopped hkeeps Nfsstat4.noConfusion
      (.inl (not_reachesStates_of_access (.inr (.inr h))))
  next hwrite =>
  exact openAdded_outcome hkeeps hname hcounter hknown hpresent
    (openFinish_stateid (fun t p => stateStateid p t) fun _ _ => rfl)
    (fun halloc => Or.inl ⟨⟨⟨hfile, accessPasses_of_not hdeny hread hwrite, fun _ => hsetattr,
      halloc⟩, hexists, .inl hhow⟩, rfl⟩)

theorem openExclusive_outcome {createverf : List UInt8} (hkeeps : Keeps s u)
    (hmem : u.mem = s.mem) (hhow : args.openhow = .exclusive createverf) :
    OpenOutcome cfg s args env (openExclusive u args env createverf) := by
  have hlists : u.lists = s.lists := congrArg View.lists hkeeps.view
  have hother : args.openhow ≠ .unchecked ∧ args.openhow ≠ .noCreate := by
    rw [hhow]
    exact ⟨OpenHow.noConfusion, OpenHow.noConfusion⟩
  rw [openExclusive, hlists, hmem]
  split
  · exact .stopped hkeeps Nfsstat4.noConfusion (.inr (.inr hother))
  rename_i p hp
  split
  next e _ => exact .replayed hkeeps hhow hp fun h => absurd h e.2.1
  · refine .replayed hkeeps hhow hp fun _ => ⟨(u.mem p).seqid, ?_⟩
    rw [stateStateid, hmem]

theorem openCreate_outcome (hkeeps : Keeps s u) (hname : o.name = args.owner)
    (hcounter : o.counter = ownerNumber s args.owner) (hknown : u.owners o.name = some o)
    (habsent : s.present args.file = false) :
    OpenOutcome cfg s args env (openCreate cfg u args env o) := by
  rw [openCreate]
  split
  next e _ => exact .stopped hkeeps e.2.1 (.inr (.inl habsent))
  split
  · exact .stopped (hkeeps.trans (Keeps.bumpOwner u _ _)) Nfsstat4.noConfusion
      (.inr (.inl habsent))
  refine openAdded_outcome (hkeeps.trans (Keeps.present u args.file)) hname hcounter hknown
    (Function.update_self ..) (fun t p => ?_) (fun _ => Or.inr ⟨habsent, rfl⟩)
  split
  next e _ => exact ⟨Keeps.refl t, fun h => absurd h e.2.1⟩
  · exact openFinish_stateid (fun t p => ownerStateid o.name p t) (fun _ _ => rfl) t p

theorem openNoCreate_outcome (hfile : ReachesFile s args env) (hkeeps : Keeps s u)
    (hname : o.name = args.owner)
    (hcounter : o.counter = ownerNumber s args.owner) (hknown : u.owners o.name = some o)
    (hexists : s.present args.file = true) (hpresent : u.present args.file = true)
    (hmem : u.mem = s.mem) (hhow : args.openhow = .noCreate) :
    OpenOutcome cfg s args env (openNoCreate cfg u args env o) := by
  have hlists : u.lists = s.lists := congrArg View.lists hkeeps.view
  rw [openNoCreate]
  split
  next h =>
    exact .stopped hkeeps Nfsstat4.noConfusion (.inl (not_reachesStates_of_access (.inl h)))
  next hdeny =>
  split
  next h =>
    exact .stopped hkeeps Nfsstat4.noConfusion
      (.inl (not_reachesStates_of_access (.inr (.inl h))))
  next hread =>
  split
  next h =>
    exact .stopped hkeeps Nfsstat4.noConfusion
      (.inl (not_reachesStates_of_access (.inr (.inr h))))
  next hwrite =>
  rw [hmem, hlists]
  split
  next n hscan =>
    refine .refused (hkeeps.trans (Keeps.bumpOwner u _ _)) Nfsstat4.noConfusion ?_ ?_
    · intro _ _ h
      rw [hhow] at h
      cases h
    · exact fun _ _ _ => ⟨openScan_denied_iff.mp ⟨n, hscan⟩, rfl⟩
  next p hscan =>
    have hbump : Keeps u (if cfg.minor1 then (u.bumpState p).bumpOwner o.name 1
        else u.bumpState p) := by
      have hstate : Keeps u (u.bumpState p) := Keeps.set rfl
      split
      · exact hstate.trans (Keeps.bumpOwner _ _ _)
      · exact hstate
    obtain ⟨hfinish, hok⟩ := openFinish_stateid (fun t p => ownerStateid o.name p t)
      (fun _ _ => rfl)
      (if cfg.minor1 then (u.bumpState p).bumpOwner o.name 1 else u.bumpState p) p
    refine .reused (hkeeps.trans (hbump.trans hfinish)) hhow hscan
      (openFinish_spec _ _ _ _).2.1 fun h => ?_
    obtain ⟨n, hn⟩ := hok h
    refine ⟨n, hn.trans ?_⟩
    have hinfo := congrFun (congrArg View.info (hbump.view.trans hkeeps.view)) p
    exact congrArg (fun st => some (Stateid4.mk n st.stateidOther)) hinfo
  next hscan =>
    exact openAdded_outcome hkeeps hname hcounter hknown hpresent
      (openFinish_stateid (fun t p => ownerStateid o.name p t) fun _ _ => rfl)
      (fun halloc => Or.inl ⟨⟨⟨hfile, accessPasses_of_not hdeny hread hwrite,
        fun h => absurd (hhow.symm.trans h) OpenHow.noConfusion, halloc⟩, hexists,
        Or.inr ⟨hhow, hscan⟩⟩, rfl⟩)

theorem opOpen_outcome (cfg : Config) (args : OpenArgs) (env : OpenEnv) (hs : s.WellFormed) :
    OpenOutcome cfg s args env (opOpen cfg s args env) := by
  rw [opOpen]
  split
  next e he =>
    refine .stopped (Keeps.refl s) e.2.1 (.inl fun hreach => ?_)
    rw [hreach.checks] at he
    cases he
  next hchecks =>
  split
  next hnone =>
    refine .stopped (Keeps.refl s) Nfsstat4.noConfusion (.inl fun hreach => ?_)
    obtain ⟨howner, halloc⟩ := openOwner_eq_none hnone
    rcases hreach.owner with h | h
    · exact h howner
    · rw [h] at halloc
      cases halloc
  rename_i u o ho
  obtain ⟨hkeeps, hname, hcounter, hknown, hpresent, hmem⟩ := openOwner_spec hs ho
  split
  next e he =>
    refine .stopped hkeeps e.2.1 (.inl fun hreach => ?_)
    rw [hreach.prepare] at he
    cases he
  next hprepare =>
  split
  next e he =>
    refine .stopped hkeeps e.2.1 (.inl fun hreach => ?_)
    rw [hreach.lookup] at he
    cases he
  next hlookup =>
  have hreach : ReachesFile s args env := ⟨hchecks, openOwner_eq_some ho, hprepare, hlookup⟩
  split
  next hhow habsent =>
    rw [hpresent] at habsent
    exact .stopped hkeeps Nfsstat4.noConfusion (.inr (.inl habsent))
  next hhow hfile =>
    exact openNoCreate_outcome hreach hkeeps hname hcounter hknown
      (hpresent ▸ hfile) hfile hmem hhow
  next hhow hfile =>
    exact openUnchecked_outcome hreach hkeeps hname hcounter hknown (hpresent ▸ hfile) hfile hhow
  next hhow hfile =>
    refine .stopped hkeeps Nfsstat4.noConfusion (.inr (.inr ?_))
    rw [hhow]
    exact ⟨OpenHow.noConfusion, OpenHow.noConfusion⟩
  next hhow hfile => exact openExclusive_outcome hkeeps hmem hhow
  next habsent _ =>
    rw [hpresent] at habsent
    exact openCreate_outcome hkeeps hname hcounter hknown habsent

theorem OpenOutcome.wellFormed {r : States × OpRes} (h : OpenOutcome cfg s args env r)
    (hs : s.WellFormed) : r.1.WellFormed := by
  cases h with
  | refused keeps | replayed keeps | reused keeps => exact keeps.wellFormed hs
  | added _ wellFormed => exact wellFormed hs

theorem OpenOutcome.view_cases {r : States × OpRes} (h : OpenOutcome cfg s args env r) :
    (r.1.view = s.view ∧ ¬AddsShare s args env) ∨
      ∃ oexclVerifier lockheld, r.1.view =
        s.view.link (openedState cfg s args oexclVerifier lockheld) ∧
        ((AddsShare s args env ∧ lockheld = lockheldUnset cfg env) ∨
          (s.present args.file = false ∧ lockheld = 0)) := by
  cases h with
  | refused keeps _ unchecked noCreate =>
    refine .inl ⟨keeps.view, fun h => ?_⟩
    rcases h.openhow with hhow | ⟨hhow, hscan⟩
    · exact unchecked h.reaches h.present hhow
    · obtain ⟨n, hn⟩ := openScan_denied_iff.mpr (noCreate h.reaches h.present hhow).1
      rw [hscan] at hn
      cases hn
  | replayed keeps openhow =>
    refine .inl ⟨keeps.view, fun h => ?_⟩
    rcases h.openhow with hhow | ⟨hhow, -⟩
    · rw [openhow] at hhow
      cases hhow
    · rw [openhow] at hhow
      cases hhow
  | reused keeps openhow scan =>
    refine .inl ⟨keeps.view, fun h => ?_⟩
    rcases h.openhow with hhow | ⟨-, hscan⟩
    · rw [openhow] at hhow
      cases hhow
    · rw [scan] at hscan
      cases hscan
  | @added _ _ oexclVerifier lockheld view _ _ how =>
    exact .inr ⟨oexclVerifier, lockheld, view, how⟩

end Paths

/-! ## What OPEN_DOWNGRADE and CLOSE can do -/

theorem opOpenDowngrade_keeps (s : States) (args : DowngradeArgs) (checks : Option Failure) :
    Keeps s (opOpenDowngrade s args checks).1 := by
  unfold opOpenDowngrade
  split
  · exact Keeps.refl s
  · split
    · exact Keeps.refl s
    · exact Keeps.set rfl

/-- CLOSE deletes the state: nothing outside the states stops it, and the state has no
locks. -/
structure Closes (cfg : Config) (s : States) (other : StateidOther) (env : CloseEnv) (p : ℕ) :
    Prop where
  checks : env.checks = none
  stateid : cfg.minor1 = false → nfs4CheckStateid cfg s other env.clientKnown = .ok
  find : s.stateIds other = some p
  lockheld : (s.mem p).data.lockheldWord = 0
  /-- NFSv4.1 closes the file first -/
  closed : cfg.minor1 = true → env.closed = none

inductive CloseOutcome (cfg : Config) (s : States) (other : StateidOther) (env : CloseEnv) :
    States × OpRes → Prop where
  | refused {t : States} {res : OpRes} (keeps : Keeps s t) (status : res.status ≠ .ok)
      (stays : ∀ p, ¬Closes cfg s other env p) : CloseOutcome cfg s other env (t, res)
  | closed {t : States} {res : OpRes} {p : ℕ} (closes : Closes cfg s other env p)
      (view : t.view = s.view.delete p) (wellFormed : t.WellFormed) :
      CloseOutcome cfg s other env (t, res)

theorem closeState_ok (h : closeState s other = .ok p) :
    s.stateIds other = some p ∧ (s.mem p).data.lockheldWord = 0 := by
  rw [closeState] at h
  split at h
  · cases h
  rename_i q hq
  split at h
  · cases h
  next hheld =>
    obtain rfl := Except.ok.inj h
    exact ⟨hq, by simpa using hheld⟩

theorem cacheInodeDelStateByKey_eq (hs : s.view.WellFormed) (hp : s.stateIds other = some p) :
    cacheInodeDelStateByKey s other =
      (nfs4StateDel (s.unlink p) (s.mem p).stateidOther, true) := by
  have hkey : (s.mem p).stateidOther = other := hs.key other p hp
  rw [cacheInodeDelStateByKey]
  simp only [hp]
  rw [if_pos (show ((s.unlink p).mem p).stateidOther = other from hkey), hkey]

theorem closed_outcome {u : States} {env : CloseEnv} {res : OpRes} (hs : s.WellFormed)
    (hu : Keeps s u) (h : Closes cfg s other env p) :
    CloseOutcome cfg s other env (nfs4StateDel (u.unlink p) (u.mem p).stateidOther, res) := by
  refine .closed h ?_ (hu.wellFormed hs).delete
  rw [view_delete, hu.view]

theorem closeState_error {e : Nfsstat4} (h : closeState s other = .error e) :
    e ≠ .ok ∧ ∀ p, s.stateIds other = some p → (s.mem p).data.lockheldWord ≠ 0 := by
  rw [closeState] at h
  split at h
  next hnone =>
    obtain rfl := Except.error.inj h
    refine ⟨Nfsstat4.noConfusion, fun p hp => ?_⟩
    rw [show s.stateIds other = none from hnone] at hp
    cases hp
  next q hq =>
    split at h
    next hheld =>
      obtain rfl := Except.error.inj h
      refine ⟨Nfsstat4.noConfusion, fun p hp => ?_⟩
      cases hp.symm.trans hq
      exact (UInt32.pos_iff_ne_zero).mp hheld
    · cases h

/-- **What CLOSE does**: it fails, or the state without locks that the stateid leads to is
deleted. -/
theorem opClose_outcome (cfg : Config) (other : StateidOther) (env : CloseEnv) (hs : s.WellFormed) :
    CloseOutcome cfg s other env (opClose cfg s other env) := by
  have hbump : ∀ name, Keeps s (s.bumpOwner name 1) := fun name => Keeps.bumpOwner s name 1
  have hdelete : ∀ {p}, s.stateIds other = some p →
      cacheInodeDelStateByKey (s.bumpOwner (s.mem p).powner 1) other =
        (nfs4StateDel ((s.bumpOwner (s.mem p).powner 1).unlink p)
          ((s.bumpOwner (s.mem p).powner 1).mem p).stateidOther, true) := by
    intro p hp
    refine cacheInodeDelStateByKey_eq ((hbump _).wellFormed hs).view ?_
    rw [← hp]
    exact congrFun (congrArg View.stateIds (hbump (s.mem p).powner).view) other
  have hchecks : ∀ {e}, env.checks = some e → ∀ p, ¬Closes cfg s other env p := by
    intro e he p hp
    rw [hp.checks] at he
    cases he
  rw [opClose]
  split
  next hminor =>
    rw [nfs41OpClose]
    split
    next e he => exact .refused (Keeps.refl s) e.2.1 (hchecks he)
    next hnone =>
    split
    next e he =>
      obtain ⟨hne, hheld⟩ := closeState_error he
      exact .refused (Keeps.refl s) hne fun p hp => hheld p hp.find hp.lockheld
    rename_i p hp
    obtain ⟨hfind, hheld⟩ := closeState_ok hp
    simp only
    split
    next e he =>
      refine .refused (hbump _) e.2.1 fun q hq => ?_
      rw [hq.closed hminor] at he
      cases he
    next hclosed =>
    rw [hdelete hfind]
    refine closed_outcome hs (hbump _) ⟨hnone, fun h => ?_, hfind, hheld, fun _ => hclosed⟩
    rw [hminor] at h
    cases h
  next hminor =>
    rw [nfs4OpClose]
    split
    next e he => exact .refused (Keeps.refl s) e.2.1 (hchecks he)
    next hnone =>
    split
    next hcheck =>
      exact .refused (Keeps.refl s) hcheck fun p hp =>
        hcheck (hp.stateid (Bool.eq_false_iff.mpr hminor))
    next hcheck =>
    split
    next e he =>
      obtain ⟨hne, hheld⟩ := closeState_error he
      exact .refused (Keeps.refl s) hne fun p hp => hheld p hp.find hp.lockheld
    rename_i p hp
    obtain ⟨hfind, hheld⟩ := closeState_ok hp
    have hcloses : Closes cfg s other env p :=
      ⟨hnone, fun _ => not_not.mp hcheck, hfind, hheld, fun h => absurd h hminor⟩
    simp only
    rw [hdelete hfind]
    simp only [Bool.not_true, Bool.false_eq_true, if_false]
    split
    · exact closed_outcome hs (hbump _) hcloses
    · exact closed_outcome hs (hbump _) hcloses

theorem CloseOutcome.wellFormed {env : CloseEnv} {r : States × OpRes}
    (h : CloseOutcome cfg s other env r) (hs : s.WellFormed) : r.1.WellFormed := by
  cases h with
  | refused keeps => exact keeps.wellFormed hs
  | closed _ _ wellFormed => exact wellFormed

/-! ## Runs -/

inductive OpenOp where
  | opOpen (args : OpenArgs) (env : OpenEnv)
  | opOpenDowngrade (args : DowngradeArgs) (checks : Option Failure)
  | opClose (openStateid : StateidOther) (env : CloseEnv)
  deriving DecidableEq

def OpenOp.run (cfg : Config) (s : States) : OpenOp → States × OpRes
  | .opOpen args env => Nfs4.opOpen cfg s args env
  | .opOpenDowngrade args checks => Nfs4.opOpenDowngrade s args checks
  | .opClose openStateid env => Nfs4.opClose cfg s openStateid env

def openStep (cfg : Config) (s : States) (op : OpenOp) : Option States := some (op.run cfg s).1

theorem wellFormed_of_openStep {t : States} {op : OpenOp} (hs : s.WellFormed)
    (h : openStep cfg s op = some t) : t.WellFormed := by
  cases h
  cases op with
  | opOpen args env => exact (opOpen_outcome cfg args env hs).wellFormed hs
  | opOpenDowngrade args checks => exact (opOpenDowngrade_keeps s args checks).wellFormed hs
  | opClose openStateid env => exact (opClose_outcome cfg openStateid env hs).wellFormed hs

/-! ## A small server -/

def owner1 : OwnerName := ⟨1, [1]⟩

def owner2 : OwnerName := ⟨1, [2]⟩

def config0 : Config :=
  { minor1 := false, bootTime := 0, fileid := fun f => UInt64.ofNat f, returnBadStateid := true }

def openFile (owner : OwnerName) (openhow : OpenHow) (access deny : UInt32) : OpenArgs :=
  { file := 0, seqid := 1, shareAccess := access, shareDeny := deny, owner := owner,
    openhow := openhow }

end CloudNfs.Nfs4
