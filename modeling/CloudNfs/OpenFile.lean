import CloudNfs.EarlyReturn
import CloudNfs.Nfs4Open
import CloudNfs.StateAtomic

/-!
# The whole of `nfs4_op_open` (`NFS_Protocols/nfs4_op_open.c`)

`nfs4_op_open` with its pointers, its early returns and its loops. Four pointers start as `NULL`
and are set on some of the ways: `pentry_lookup`, `pentry_newfile`, `powner` and `pfile_state`.
The string of the owner is copied to arrays of `MAXNAMLEN` bytes with the length that came over the
wire.

The attributes of a file are of any type `A`.
-/

namespace CloudNfs.Nfs4.OpenFile

open Function (update)

open Pointers CloudNfs.Flow

/-! ## Data -/

/-- The values of `cache_inode_status_t` other than `CACHE_INODE_SUCCESS`. -/
inductive CacheError where
  | mallocError
  | poolMutexInitError
  | getNewLruEntry
  | unappropriatedKey
  | initEntryFailed
  | fsalError
  | lruError
  | hashSetError
  | notADirectory
  | inconsistentEntry
  | badType
  | entryExists
  | dirNotEmpty
  | notFound
  | invalidArgument
  | insertError
  | hashTableError
  /-- `CACHE_INODE_FSAL_EACCESS` -/
  | fsalEacces
  | isADirectory
  | fsalEperm
  | noSpaceLeft
  | cacheContentError
  | cacheContentExists
  | cacheContentEmpty
  | readOnlyFs
  | ioError
  | fsalEstale
  | fsalErrSec
  | stateConflict
  | quotaExceeded
  | deadEntry
  | asyncPostError
  | notSupported
  | stateError
  | fsalDelay
  deriving DecidableEq

/-- `cache_inode_status_t`; `none` is `CACHE_INODE_SUCCESS`. -/
abbrev CacheStatus := Option CacheError

/-- What `nfs4_Errno` makes of an error. -/
def CacheError.errno : CacheError → Nfsstat4
  | .mallocError | .poolMutexInitError | .getNewLruEntry | .initEntryFailed
  | .cacheContentExists | .cacheContentEmpty => .serverfault
  | .unappropriatedKey => .other 10001
  | .badType => .inval
  | .fsalError | .invalidArgument => .other 1
  | .notADirectory => .other 20
  | .entryExists => .exist
  | .dirNotEmpty => .other 66
  | .notFound => .noent
  | .insertError | .lruError | .hashSetError => .other 5
  | .fsalEacces => .access
  | .fsalEperm => .other 1
  | .noSpaceLeft => .other 28
  | .isADirectory => .other 21
  | .readOnlyFs => .other 30
  | .ioError => .other 5
  | .deadEntry | .fsalEstale => .other 70
  | .stateConflict => .other 1
  | .quotaExceeded => .other 69
  | .notSupported => .other 10004
  | .fsalDelay => .other 10008
  | .inconsistentEntry | .hashTableError | .cacheContentError | .fsalErrSec | .asyncPostError
  | .stateError => .inval

/-- An error is never answered with `NFS4_OK`. -/
@[simp] theorem CacheError.errno_ne_ok (e : CacheError) : e.errno ≠ .ok := by
  cases e <;> nofun

def nfs4Errno (cacheStatus : CacheStatus) : Nfsstat4 :=
  match cacheStatus with
  | some e => e.errno
  | none => .ok

inductive FileType where
  | regularFile
  /-- `DIR_BEGINNING` and `DIR_CONTINUE` -/
  | directory
  | symbolicLink
  | special
  | other
  deriving DecidableEq

/-- `MAXNAMLEN`, the length of `owner_val` in `cache_inode_open_owner_name_t` and in
`cache_inode_open_owner_t`. -/
def maxNamLen : ℕ := 255

def nfs4OpaqueLimit : ℕ := 1024

structure Server (A : Type) where
  /-- the states, their lists and their table -/
  states : StateStore
  /-- `ht_open_owner` -/
  owners : OwnerName → Option OpenOwner
  ownerCounter : UInt32
  /-- the types of the cache entries -/
  types : ℕ → FileType
  attrs : ℕ → A

/-- `createhow4`. -/
inductive CreateHow where
  /-- `UNCHECKED4`, with the words of `createattrs.attrmask` -/
  | unchecked (attrmask : List UInt32)
  /-- `GUARDED4`, with the words of `createattrs.attrmask` -/
  | guarded (attrmask : List UInt32)
  | exclusive (createverf : List UInt8)
  /-- `EXCLUSIVE4_1`, which the decoding of NFSv4.1 lets pass -/
  | exclusive41
  deriving DecidableEq

/-- `openflag4`; the decoding lets any opentype pass. -/
inductive OpenFlag where
  | noCreate
  | create (how : CreateHow)
  | other (opentype : UInt32)

/-- `createattrs.attrmask` where the mode is `UNCHECKED4` or `GUARDED4`. Without OPEN4_CREATE the
union is not decoded and its zero bytes read as `UNCHECKED4` with no attributes. -/
def OpenFlag.attrmask : OpenFlag → Option (List UInt32)
  | .create (.unchecked attrmask) | .create (.guarded attrmask) => some attrmask
  | .create _ => none
  | .noCreate | .other _ => some []

def OpenFlag.attrProvided (openhow : OpenFlag) : Bool :=
  match openhow.attrmask with
  | some (_ :: _) => true
  | _ => false

/-- `open_claim4`. -/
inductive OpenClaim where
  | null (file : List UInt8)
  | previous
  /-- `CLAIM_DELEGATE_CUR`, with the sequence id of its stateid, which lies where `CLAIM_NULL` has
  the length of the name -/
  | delegateCur (seqid : UInt32)
  | delegatePrev (file : List UInt8)
  | other (claim : UInt32)
  deriving DecidableEq

/-- `OPEN4args`. -/
structure OpenRequest where
  seqid : UInt32
  shareAccess : UInt32
  shareDeny : UInt32
  owner : OwnerName
  openhow : OpenFlag
  claim : OpenClaim
  /-- the decoding checks the length of the owner -/
  ownerLimit : owner.ownerVal.length ≤ nfs4OpaqueLimit

inductive CurrentFH where
  | empty
  | invalid
  | expired
  | pseudo
  | xattr
  /-- none of these -/
  | plain
  deriving DecidableEq

/-- What `nfs4_Fattr_To_FSAL_attr` returns. -/
inductive FattrConversion where
  | converted
  | notSupported
  | badXdr

/-- What the calls of `nfs4_op_open` outside the states answer; `none` stands for success. -/
structure Calls (A : Type) where
  currentFH : CurrentFH
  xattr : OpRes
  /-- there is a current entry, or `nfs_FhandleToCache` finds one -/
  currentEntry : Bool
  pentryParent : ℕ
  /-- `nfs4_Fattr_Supported` where there are attributes -/
  fattrSupported : Bool
  /-- `nfs4_Fattr_Check_Access` where there are attributes -/
  fattrCheckAccess : Bool
  /-- `FSAL_buffdesc2name` -/
  filename : CacheStatus
  /-- `nfs_client_id_get` finds the client, and it is confirmed -/
  clientConfirmed : Bool
  /-- `GET_PREALLOC` of an open owner -/
  ownerAlloc : Bool
  /-- `GET_PREALLOC` of the name of an open owner -/
  ownerNameAlloc : Bool
  /-- the allocation in `nfs_open_owner_Set` -/
  ownerSet : Bool
  /-- `cache_inode_getattr` of the parent before the operation -/
  getattrBefore : CacheStatus
  /-- `nfs4_Fattr_To_FSAL_attr` -/
  fattrToFsal : FattrConversion
  /-- the entry that `cache_inode_lookup` finds under a name other than `.` and `..` -/
  looked : Except CacheError ℕ
  /-- `cache_inode_lookupp` of the parent -/
  lookupp : Option ℕ
  /-- `cache_inode_valid` of the parent, which can only fail with `CACHE_INODE_LRU_ERROR` -/
  parentValid : Bool
  /-- `cache_inode_access` to the parent in `cache_inode_create` -/
  createAccess : CacheStatus
  /-- the entry that `cache_inode_lookup` finds in `cache_inode_create` -/
  createLooked : Option ℕ
  /-- the rest of `cache_inode_create`: the new entry -/
  created : Except CacheError ℕ
  newAttrs : A
  /-- `cache_inode_access` for a share that denies writing -/
  denyWriteAccess : Bool
  /-- `cache_inode_access` for a share that reads -/
  readAccess : Bool
  /-- `cache_inode_access` for a share that writes -/
  writeAccess : Bool
  /-- the file has mode zero, where this is checked -/
  mode0 : Bool
  /-- `cache_inode_setattr`: the attributes after it, and its status -/
  setattr : A → A × CacheStatus
  /-- `FSAL_DigestHandle` in `cache_inode_state_iterate` -/
  digest : Bool
  /-- the bytes behind the string of the owner in memory -/
  ownerTail : List UInt8
  verifierBytes : List UInt8
  /-- the calls of `cache_inode_add_state` -/
  add : AddEnv
  /-- `pclient`, whose pools are used -/
  client : ℕ
  /-- `cache_inode_open_by_name` of a regular file -/
  opened : Bool
  allocateFH : Bool
  fsalToFhandle : Bool
  /-- `cache_inode_getattr` of the parent after the operation -/
  getattrAfter : CacheStatus
  /-- `Mem_Alloc` of `attrset` -/
  attrsetAlloc : Bool

/-- The pointers that start as `NULL`. -/
inductive Pointer where
  | pentryLookup
  | pentryNewfile
  | powner
  | pfileState
  deriving DecidableEq

inductive Fault where
  /-- `owner_val` is written behind its end -/
  | ownerOverrun
  /-- one of the pointers is followed while it is `NULL` -/
  | nullPointer (p : Pointer)
  /-- `cache_inode_lookup` follows the `NULL` that `cache_inode_lookupp` gave -/
  | nullAttributes
  /-- a loop over the states of a file does not end -/
  | endless

/-- A piece of `nfs4_op_open`. -/
abbrev Open (A α : Type) := Flow Fault (Server A × OpRes) α

namespace Server

variable {A : Type}

/-- `powner->seqid += n`. -/
def bumpOwner (s : Server A) (powner : OwnerName) (n : UInt32) : Server A :=
  { s with
    owners := update s.owners powner
      ((s.owners powner).map fun o => { o with seqid := o.seqid + n }) }

def setAttrs (s : Server A) (pentry : ℕ) (attrs : A) : Server A :=
  { s with attrs := update s.attrs pentry attrs }

def addFile (s : Server A) (pentry : ℕ) (attrs : A) : Server A :=
  { s with
    types := update s.types pentry .regularFile
    attrs := update s.attrs pentry attrs
    states := { s.states with
      head := update s.states.head pentry none
      tail := update s.states.tail pentry none } }

/-- `powner->seqid`. -/
def ownerSeqid (s : Server A) (powner : OwnerName) : UInt32 :=
  match s.owners powner with
  | some o => o.seqid
  | none => 0

end Server

section

variable {A : Type} {α σ : Type}

/-! ## The owner -/

/-- `memcpy` of `n` bytes to `owner_val`. -/
def copyToOwnerVal (n : ℕ) : Open A Unit :=
  if n ≤ maxNamLen then .next () else .fault .ownerOverrun

/-- `owner_val[n] = '\0'`. -/
def endOwnerVal (n : ℕ) : Open A Unit :=
  if n < maxNamLen then .next () else .fault .ownerOverrun

structure With (A α : Type) where
  server : Server A
  val : α

/-- The open owner of the request, made if it is not known. -/
def openOwner (s : Server A) (req : OpenRequest) (env : Calls A) :
    Open A (With A (Option OwnerName)) := do
  -- `nfs_convert_open_owner`
  copyToOwnerVal req.owner.ownerVal.length
  match s.owners req.owner with
  | none => do
    leaveIf (env.ownerAlloc = false ∨ env.ownerNameAlloc = false) (s, .fail .serverfault)
    copyToOwnerVal req.owner.ownerVal.length
    endOwnerVal req.owner.ownerVal.length
    -- `nfs_open_owner_Set` counts first
    let s := { s with ownerCounter := s.ownerCounter + 1 }
    leaveIf (env.ownerSet = false) (s, .fail .serverfault)
    let o : OpenOwner :=
      { name := req.owner, confirmed := false, seqid := 0, counter := s.ownerCounter,
        relatedOwner := none }
    .next ⟨{ s with owners := update s.owners req.owner (some o) }, some req.owner⟩
  | some o =>
    if req.seqid = 0 then
      let o := { o with seqid := 0, confirmed := false }
      .next ⟨{ s with owners := update s.owners req.owner (some o) }, some req.owner⟩
    else .next ⟨s, some req.owner⟩

/-- `powner->seqid += n`, and return. -/
def bumpAndLeave (s : Server A) (powner : Option OwnerName) (n : UInt32) (status : Nfsstat4) :
    Open A α := do
  let o ← deref (.nullPointer .powner) powner
  .ret (s.bumpOwner o n, .fail status)

/-! ## The loops over the states -/

def cacheInodeStateIterate (s : StateStore) (digest : Bool) (pentry previous : Option ℕ) :
    Except CacheError (Option ℕ) :=
  match pentry with
  | none => .error .invalidArgument
  | some e =>
    if digest = false then .error .stateError
    else
      match previous with
      | none => .ok (s.head e)
      | some q => if (s.mem q).pentry = some e then .ok (s.mem q).next else .error .stateError

/-- A loop over the states of a file with `cache_inode_state_iterate`. `visit` is its body for a
state; `cacheStatus` is only written when the call fails. -/
def stateLoop (s : StateStore) (digest : Bool) (pentry : Option ℕ) (invalid : Open A Empty)
    (visit : σ → ℕ → Open A σ) :
    ℕ → CacheStatus → Option ℕ → σ → Open A (CacheStatus × σ)
  | 0, _, _, _ => .fault .endless
  | n + 1, cacheStatus, previous, x =>
    let found := cacheInodeStateIterate s digest pentry previous
    let cacheStatus := match found with
      | .ok _ => cacheStatus
      | .error e => some e
    if cacheStatus = some .stateError then .next (cacheStatus, x)
    else if cacheStatus = some .invalidArgument then invalid.stop
    else
      match found with
      | .ok (some p) => do
        let x ← visit x p
        stateLoop s digest pentry invalid visit n cacheStatus (some p) x
      | _ => .next (cacheStatus, x)

/-- More rounds than there are states. -/
def loopFuel (s : StateStore) : ℕ := s.pools.fresh + 1

/-! ## Parts of several ways -/

/-- A check of `cache_inode_access`, where it is made. -/
def checkAccess (s : Server A) (f : Pointer) (pentry : Option ℕ) (made allowed : Bool) :
    Open A Unit :=
  if made then do
    let _ ← deref (.nullPointer f) pentry
    leaveIf (allowed = false) (s, .fail .access)
  else .next ()

/-- `cache_inode_setattr`, where attributes are provided. -/
def setattr (s : Server A) (f : Pointer) (pentry : Option ℕ) (provided : Bool) (env : Calls A) :
    Open A (Server A) :=
  if provided then do
    let e ← deref (.nullPointer f) pentry
    let r := env.setattr (s.attrs e)
    let s := s.setAttrs e r.1
    leaveOn r.2 fun err => (s, .fail err.errno)
    .next s
  else .next s

/-- The call of `cache_inode_add_state`. -/
def addCall (req : OpenRequest) (env : Calls A) (pentry : Option ℕ) (powner : Option OwnerName)
    (oexclVerifier : List UInt8) : AddCall :=
  { pentry := pentry
    typed := some (.data (.share
      { oexclVerifier := oexclVerifier, shareAccess := req.shareAccess,
        shareDeny := req.shareDeny, lockheld := 0 }))
    powner := powner
    client := some env.client
    pcontext := true
    ppstate := true
    pstatus := true }

def Server.regular (s : Server A) (pentry : ℕ) : Bool := decide (s.types pentry = .regularFile)

/-- `cache_inode_add_state`; gives `pfile_state`. -/
def addState (s : Server A) (req : OpenRequest) (env : Calls A) (pentry : Option ℕ)
    (powner : Option OwnerName) (oexclVerifier : List UInt8) : Open A (With A (Option ℕ)) :=
  match cacheInodeAddStateCall s.states s.regular (addCall req env pentry powner oexclVerifier)
      env.add with
  | none => .fault .endless
  | some (states, .status .success, pfileState) => .next ⟨{ s with states := states }, pfileState⟩
  | some (states, _, _) => bumpAndLeave { s with states := states } powner 1 .shareDenied

/-- `cache_inode_open_by_name`, which checks its entry. -/
def cacheInodeOpenByName (s : Server A) (env : Calls A) (pentry : Option ℕ) : Bool :=
  match pentry with
  | some e => s.regular e && env.opened
  | none => false

def openByName (s : Server A) (env : Calls A) (pentry : Option ℕ) (powner : Option OwnerName) :
    Open A Unit :=
  if cacheInodeOpenByName s env pentry then .next () else bumpAndLeave s powner 1 .access

def cacheInodeGetFsalHandle (s : Server A) (pentry : Option ℕ) : CacheStatus :=
  match pentry with
  | none => some .invalidArgument
  | some e => if s.types e = .other then some .badType else none

def makeFhandle (s : Server A) (env : Calls A) (pentry : Option ℕ) : Open A Unit := do
  leaveOn (cacheInodeGetFsalHandle s pentry) fun e => (s, .fail e.errno)
  leaveIf (env.allocateFH = false) (s, .fail (.other 10018))
  leaveIf (env.fsalToFhandle = false) (s, .fail .serverfault)

/-- `memcmp(arg_OPEN4.owner.owner.owner_val, powner->owner_val, powner->owner_len)` finds no
difference. -/
def sameOwnerVal (req : OpenRequest) (env : Calls A) (recorded : OwnerName) : Bool :=
  decide ((req.owner.ownerVal ++ env.ownerTail).take recorded.ownerVal.length = recorded.ownerVal)

/-! ## The ways through OPEN4_CREATE -/

/-- What `cache_inode_lookup` gives. -/
structure Looked where
  pentry : Option ℕ
  status : CacheStatus

/-- `cache_inode_valid` of the parent at the end of `cache_inode_lookup`. -/
def Calls.validStatus (env : Calls A) : CacheStatus :=
  if env.parentValid then none else some .lruError

/-- `cache_inode_lookup`. The parent of `..` is not checked for `NULL`. -/
def cacheInodeLookup (env : Calls A) (filename : List UInt8) : Open A Looked :=
  if filename = [46] then .next ⟨some env.pentryParent, env.validStatus⟩
  else if filename = [46, 46] then do
    let e ← deref .nullAttributes env.lookupp
    .next ⟨some e, env.validStatus⟩
  else
    match env.looked with
    | .ok e => .next ⟨some e, env.validStatus⟩
    | .error err => .next ⟨none, some err⟩

/-- The end of UNCHECKED4, after the state was added. -/
def uncheckedEnd (s : Server A) (env : Calls A) (powner : Option OwnerName)
    (pentryLookup pfileState : Option ℕ) : Open A Empty := do
  openByName s env pentryLookup powner
  leaveIf (env.attrsetAlloc = false) (s, .fail .serverfault)
  let p ← deref (.nullPointer .pfileState) pfileState
  let _ ← deref (.nullPointer .powner) powner
  makeFhandle s env pentryLookup
  .ret (s, ⟨.ok, some ⟨(s.states.mem p).seqid, (s.states.mem p).stateidOther⟩⟩)

/-- OPEN4_CREATE, UNCHECKED4, of an entry that was found. -/
def openUnchecked (s : Server A) (req : OpenRequest) (env : Calls A) (powner : Option OwnerName)
    (pentryLookup : Option ℕ) : Open A Empty := do
  checkAccess s .pentryLookup pentryLookup (has req.shareDeny shareWrite) env.denyWriteAccess
  checkAccess s .pentryLookup pentryLookup (has req.shareAccess shareRead) env.readAccess
  let s ← setattr s .pentryLookup pentryLookup req.openhow.attrProvided env
  checkAccess s .pentryLookup pentryLookup (has req.shareAccess shareWrite) env.writeAccess
  let added ← addState s req env pentryLookup powner env.verifierBytes
  uncheckedEnd added.server env powner pentryLookup added.val

/-- A former exclusive open of the same owner was found, it is answered again. -/
def resend (s : Server A) (env : Calls A) (powner : Option OwnerName) (pentryLookup : Option ℕ)
    (p : ℕ) : Open A Empty := do
  let _ ← deref (.nullPointer .powner) powner
  makeFhandle s env pentryLookup
  .ret (s, ⟨.ok, some ⟨(s.states.mem p).seqid, (s.states.mem p).stateidOther⟩⟩)

/-- The body of the loop of EXCLUSIVE4. -/
def visitExclusive (s : Server A) (req : OpenRequest) (env : Calls A) (powner : Option OwnerName)
    (pentryLookup : Option ℕ) (createverf : List UInt8) (_ : Unit) (p : ℕ) : Open A Unit :=
  match (s.states.mem p).typed with
  | .data (.share sh) =>
    if sameOwnerVal req env (s.states.mem p).powner = true ∧ sh.oexclVerifier = createverf then
      (resend s env powner pentryLookup p).stop
    else .next ()
  | _ => .next ()

/-- The end of OPEN4_CREATE for an entry that was found. -/
def existStatus (cacheStatus : CacheStatus) : Nfsstat4 :=
  match cacheStatus with
  | some e => e.errno
  | none => .exist

/-- OPEN4_CREATE, EXCLUSIVE4, of an entry that was found. -/
def openExclusive (s : Server A) (req : OpenRequest) (env : Calls A) (powner : Option OwnerName)
    (looked : Looked) (createverf : List UInt8) : Open A Empty :=
  match looked.pentry with
  | some e =>
    if s.types e = .regularFile then do
      let r ← stateLoop s.states env.digest looked.pentry (bumpAndLeave s powner 1 .inval)
        (visitExclusive s req env powner looked.pentry createverf) (loopFuel s.states)
        looked.status none ()
      .ret (s, .fail (existStatus r.1))
    else .ret (s, .fail (existStatus looked.status))
  | none => .ret (s, .fail (existStatus looked.status))

/-- OPEN4_CREATE unless the lookup ends with `CACHE_INODE_NOT_FOUND`. -/
def openExisting (s : Server A) (req : OpenRequest) (env : Calls A) (powner : Option OwnerName)
    (looked : Looked) (how : CreateHow) : Open A Empty :=
  match how, looked.status with
  | .unchecked _, none => openUnchecked s req env powner looked.pentry
  | .exclusive createverf, _ => openExclusive s req env powner looked createverf
  | _, _ => .ret (s, .fail (existStatus looked.status))

/-- `cache_inode_create`: the entry and the status. It looks the name up again, and an entry of
another type is not returned. -/
def cacheInodeCreate (s : Server A) (env : Calls A) : With A Looked :=
  match env.createAccess, env.createLooked, env.created with
  | some err, _, _ => ⟨s, none, some err⟩
  | none, some e, _ =>
    ⟨s, if s.types e = .regularFile then some e else none, some .entryExists⟩
  | none, none, .error err => ⟨s, none, some err⟩
  | none, none, .ok e => ⟨s.addFile e env.newAttrs, some e, none⟩

/-- The verifier that is recorded. -/
def createdVerifier (how : CreateHow) (env : Calls A) : List UInt8 :=
  match how with
  | .exclusive createverf => strncpyVerifier createverf
  | _ => env.verifierBytes

/-- What the two ways out of the second switch set. -/
structure Opened (A : Type) where
  server : Server A
  pentryNewfile : Option ℕ
  pfileState : Option ℕ

/-- OPEN4_CREATE behind `cache_inode_create`. -/
def openCreated (s : Server A) (req : OpenRequest) (env : Calls A) (powner : Option OwnerName)
    (how : CreateHow) (pentryNewfile : Option ℕ) : Open A (Opened A) := do
  let added ← addState s req env pentryNewfile powner (createdVerifier how env)
  let s ← setattr added.server .pentryNewfile pentryNewfile req.openhow.attrProvided env
  openByName s env pentryNewfile powner
  .next ⟨s, pentryNewfile, added.val⟩

def openCreate (s : Server A) (req : OpenRequest) (env : Calls A) (powner : Option OwnerName)
    (filename : List UInt8) (how : CreateHow) : Open A (Opened A) := do
  let looked ← cacheInodeLookup env filename
  if looked.status = some .notFound then do
    let made := cacheInodeCreate s env
    let s := made.server
    let pentryNewfile ← match made.val.pentry with
      | some e => .next (some e)
      | none =>
        if made.val.status = some .entryExists then .next looked.pentry
        else .ret (s, .fail (nfs4Errno made.val.status))
    openCreated s req env powner how pentryNewfile
  else (openExisting s req env powner looked how).stop

/-! ## OPEN4_NOCREATE -/

def notRegular (t : FileType) : Option Nfsstat4 :=
  match t with
  | .regularFile => none
  | .directory => some (.other 21)
  | .symbolicLink => some (.other 10029)
  | .special | .other => some .inval

/-- The body of the loop of OPEN4_NOCREATE; `sameOwner` is `pstate_found_same_owner`. -/
def visitNoCreate (s : Server A) (req : OpenRequest) (env : Calls A) (powner : Option OwnerName)
    (sameOwner : Option ℕ) (p : ℕ) : Open A (Option ℕ) :=
  match (s.states.mem p).typed with
  | .data (.share sh) =>
    let recorded := (s.states.mem p).powner
    if recorded ≠ req.owner ∧ sameOwnerVal req env recorded = false ∧
        has sh.shareAccess shareWrite = true ∧ has req.shareDeny shareWrite = true then
      .ret (s, .fail .shareDenied)
    else if has sh.shareDeny shareRead && has req.shareAccess shareRead then
      bumpAndLeave s powner 2 .shareDenied
    else if has sh.shareDeny shareWrite && has req.shareAccess shareWrite then
      bumpAndLeave s powner 1 .shareDenied
    else .next (if recorded = req.owner then some p else sameOwner)
  | _ => .next sameOwner

/-- The state of the same owner again, with the next sequence id, or a new state. -/
def reuseOrAdd (s : Server A) (req : OpenRequest) (env : Calls A) (powner : Option OwnerName)
    (pentryNewfile sameOwner : Option ℕ) : Open A (With A (Option ℕ)) :=
  match sameOwner with
  | some p =>
    .next ⟨{ s with states := s.states.modify p fun st => { st with seqid := st.seqid + 1 } },
      some p⟩
  | none => addState s req env pentryNewfile powner env.verifierBytes

def openNoCreate (s : Server A) (req : OpenRequest) (env : Calls A) (powner : Option OwnerName)
    (filename : List UInt8) : Open A (Opened A) := do
  let looked ← cacheInodeLookup env filename
  match looked.pentry with
  | none => .ret (s, .fail (nfs4Errno looked.status))
  | some _ => do
    let pentryNewfile := looked.pentry
    let e ← deref (.nullPointer .pentryNewfile) pentryNewfile
    leaveOn (notRegular (s.types e)) fun status => (s, .fail status)
    checkAccess s .pentryNewfile pentryNewfile (has req.shareDeny shareWrite) env.denyWriteAccess
    checkAccess s .pentryNewfile pentryNewfile (has req.shareAccess shareRead) env.readAccess
    checkAccess s .pentryNewfile pentryNewfile (has req.shareAccess shareWrite) env.writeAccess
    leaveIf (env.mode0 = true) (s, .fail .access)
    let r ← stateLoop s.states env.digest pentryNewfile (.ret (s, .fail .inval))
      (visitNoCreate s req env powner) (loopFuel s.states) looked.status none none
    let added ← reuseOrAdd s req env powner pentryNewfile r.2
    openByName added.server env pentryNewfile powner
    .next ⟨added.server, pentryNewfile, added.val⟩

/-! ## The function -/

def openEnd (s : Server A) (env : Calls A) (powner : Option OwnerName)
    (pentryNewfile pfileState : Option ℕ) : Open A Empty := do
  makeFhandle s env pentryNewfile
  leaveOn env.getattrAfter fun e => (s, .fail e.errno)
  leaveIf (env.attrsetAlloc = false) (s, .fail .serverfault)
  let o ← deref (.nullPointer .powner) powner
  let p ← deref (.nullPointer .pfileState) pfileState
  .ret (s, ⟨.ok, some ⟨s.ownerSeqid o, (s.states.mem p).stateidOther⟩⟩)

def checkNameLength (fsalMaxNameLen length : ℕ) : Option Nfsstat4 :=
  if fsalMaxNameLen < length then some (.other 63)
  else if length = 0 then some .inval
  else none

def checkFattr (openhow : OpenFlag) (env : Calls A) : Option Nfsstat4 :=
  if openhow.attrProvided = false then none
  else if env.fattrSupported = false then some (.other 10032)
  else if env.fattrCheckAccess = false then some .inval
  else none

def checkParent (t : FileType) : Option Nfsstat4 :=
  match t with
  | .directory => none
  | .symbolicLink => some (.other 10029)
  | .regularFile | .special | .other => some (.other 20)

/-- The checks of `CLAIM_NULL`, before the owner. -/
def checkClaimNull (fsalMaxNameLen : ℕ) (s : Server A) (req : OpenRequest) (env : Calls A)
    (file : List UInt8) : Option Nfsstat4 :=
  checkNameLength fsalMaxNameLen file.length <|>
  checkFattr req.openhow env <|>
  env.filename.map CacheError.errno <|>
  checkParent (s.types env.pentryParent) <|>
  if env.clientConfirmed then none else some (.other 10022)

def convertFattr (openhow : OpenFlag) (env : Calls A) : Option Nfsstat4 :=
  if openhow.attrProvided then
    match env.fattrToFsal with
    | .converted => none
    | .notSupported => some (.other 10032)
    | .badXdr => some (.other 10036)
  else none

def openHow (s : Server A) (req : OpenRequest) (env : Calls A) (powner : Option OwnerName)
    (file : List UInt8) : Open A Empty :=
  match req.openhow with
  | .create how => do
    let opened ← openCreate s req env powner file how
    openEnd opened.server env powner opened.pentryNewfile opened.pfileState
  | .noCreate => do
    let opened ← openNoCreate s req env powner file
    openEnd opened.server env powner opened.pentryNewfile opened.pfileState
  | .other _ =>
    match powner with
    | some o => .ret (s.bumpOwner o 1, .fail .inval)
    | none => .ret (s, .fail .inval)

/-- `CLAIM_NULL`. -/
def openClaimNull (fsalMaxNameLen : ℕ) (s : Server A) (req : OpenRequest) (env : Calls A)
    (file : List UInt8) : Open A Empty := do
  leaveOn (checkClaimNull fsalMaxNameLen s req env file) fun status => (s, .fail status)
  let owned ← openOwner s req env
  let s := owned.server
  let powner := owned.val
  leaveOn env.getattrBefore fun e => (s, .fail e.errno)
  leaveOn (convertFattr req.openhow env) fun status => (s, .fail status)
  openHow s req env powner file

def openClaim (fsalMaxNameLen : ℕ) (s : Server A) (req : OpenRequest) (env : Calls A) :
    Open A Empty :=
  match req.claim with
  | .delegateCur seqid =>
    .ret (s, .fail ((checkNameLength fsalMaxNameLen seqid.toNat).getD (.other 10004)))
  | .delegatePrev file =>
    .ret (s, .fail ((checkNameLength fsalMaxNameLen file.length).getD (.other 10004)))
  | .null file => openClaimNull fsalMaxNameLen s req env file
  | .previous => openEnd s env none none none
  | .other _ => .ret (s, .fail .inval)

def nfs4OpOpen (fsalMaxNameLen : ℕ) (s : Server A) (req : OpenRequest) (env : Calls A) :
    Open A Empty :=
  match env.currentFH with
  | .empty => .ret (s, .fail (.other 10020))
  | .invalid => .ret (s, .fail (.other 10001))
  | .expired => .ret (s, .fail (.other 10014))
  | .pseudo => .ret (s, .fail (.other 30))
  | .xattr => .ret (s, env.xattr)
  | .plain =>
    if env.currentEntry then openClaim fsalMaxNameLen s req env
    else .ret (s, .fail .serverfault)

end

end CloudNfs.Nfs4.OpenFile
