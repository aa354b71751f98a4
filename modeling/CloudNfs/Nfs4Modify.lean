import CloudNfs.Nfs23Modify

/-!
# Operations of NFSv4 that modify

A COMPOUND is one procedure for the dispatcher, and not one that is marked `MAKES_WRITE`. WRITE,
COMMIT, REMOVE and RENAME work on the current handle (RENAME also on the saved one) that the
operations before them have left.

* Any other operation makes none of these calls, and leaves any data (`Op4.other`).
* WRITE of NFSv4.1 does not look at a stateid that is not special.
-/

namespace CloudNfs.ReadOnly

open Compound
open Nfs4 (IoData IoEnv IoRes IoStatus Nfsstat4 States Stateid4 WriteArgs shareWrite)
open FileHandle (Exportlist FileHandleV4)

variable {Ctx Handle : Type}

/-- How an operation fails. -/
inductive Failed where
  /-- as the operations that set file handles -/
  | compound (status : Compound.Status)
  /-- with another error -/
  | op (status : Nfsstat4)

def nfs4errXdev : Nfsstat4 := .other 18

def nfs4errRofs : Nfsstat4 := .other 30

/-- `nfs4_Errno` of a failure of the cache. -/
def nfs4Errno : Failed := .compound .errno

/-- What the operations that modify use besides the data. -/
structure Server (Ctx Handle : Type) where
  /-- what the operations that set file handles use -/
  compound : Compound.Config Ctx Handle
  /-- what an entry of the export list says besides its id -/
  io : Exportlist Ctx → Nfs4.IoExport
  states : Nfs4.Config

/-- The export list. -/
def Server.exports (server : Server Ctx Handle) : Exports Ctx :=
  ⟨server.compound.pfullexportlist, server.io⟩

/-- What `cache_inode_lookup` gives. -/
inductive Looked where
  | found (type : FileType)
  | notFound
  | fails

/-- What is answered from outside, and what is found in the cache. -/
structure Env4 (Handle : Type) where
  /-- for the operations that set file handles -/
  compound : Compound.Env Handle
  states : States
  file : ℕ
  status : IoStatus
  io : IoEnv
  /-- the functions for extended attributes succeed -/
  xattr : Bool
  /-- `unstable_data.offset`, if there is a buffer -/
  unstableOffset : Option UInt64
  /-- `cache_inode_rdwr` succeeds -/
  rdwr : Bool
  /-- `cache_inode_remove` succeeds -/
  remove : Bool
  /-- `cache_inode_rename` succeeds -/
  rename : Bool
  /-- the saved and the current entry are the same -/
  sameEntry : Bool
  /-- `cache_inode_getattr` succeeds -/
  getattr : Bool
  /-- `cache_inode_lookup` of the old name -/
  looked : Looked
  /-- `cache_inode_lookup` of the new name -/
  lookedNew : Looked
  /-- both lookups find the same entry -/
  sameLooked : Bool
  /-- the directory at the new name is not empty -/
  notEmpty : Bool
  /-- `cache_inode_get_fsal_handle` gives both handles, and `FSAL_handlecmp` is not zero -/
  handlecmp : Option Bool

/-- The operations. -/
inductive Op4 (Ctx Handle : Type) where
  | base (op : Compound.Op)
  | write (args : WriteArgs)
  | commit (offset : UInt64) (count : UInt32)
  | remove (target : Name)
  | rename (oldname newname : Name)
  | other (next : Except Failed (CompoundData Ctx Handle))

abbrev Ran (Ctx Handle : Type) := List ModifyCall × Except Failed (CompoundData Ctx Handle)

def fails (failed : Failed) : Ran Ctx Handle := ([], .error failed)

def called (call : ModifyCall) (succeeds : Bool) (data : CompoundData Ctx Handle)
    (failed : Failed) : Ran Ctx Handle :=
  ([call], if succeeds then .ok data else .error failed)

/-- `nfs41_op_write`, after the checks of the filehandle. -/
def nfs41OpWrite (s : States) (data : IoData) (args : WriteArgs) (st : IoStatus) (env : IoEnv) :
    IoRes :=
  if data.pexport.accessType = .mdonly then .fail .dquot
  else
    match Nfs4.scanStates s data.currentEntry none shareWrite st.statusWord st.digest with
    | some e => .fail e
    | none => Nfs4.doWrite data args env

section Code

variable (server : Server Ctx Handle) (env : Env4 Handle)

def ioData (data : CompoundData Ctx Handle) (x : Exportlist Ctx) : IoData :=
  ⟨none, false, env.file, data.currentFiletype, server.io x⟩

/-- WRITE of either minor version, after the checks of the filehandle. -/
def writeOf (data : CompoundData Ctx Handle) (x : Exportlist Ctx) (args : WriteArgs) : IoRes :=
  if server.states.minor1 then
    nfs41OpWrite env.states (ioData server env data x) args env.status env.io
  else
    Nfs4.nfs4OpWrite server.states env.states (ioData server env data x) args env.status env.io

/-- `nfs4_op_write` and `nfs41_op_write` -/
def runWrite (data : CompoundData Ctx Handle) (args : WriteArgs) : Ran Ctx Handle :=
  match checkFh env.compound data.currentFH .noFileHandle with
  | .error status => fails (.compound status)
  | .ok fh =>
    if nfs4IsFhXattr fh then
      if env.xattr then ([], .ok data) else fails nfs4Errno
    else
      match data.pexport with
      | none => fails (.compound .crash)
      | some x =>
        match writeOf server env data x args with
        | .rdwr _ _ _ => called (.rdwr fh.exportid.toNat) env.rdwr data nfs4Errno
        | .fail status => fails (.op status)
        | .empty | .xattr => ([], .ok data)

def nfs4OpCommit (data : CompoundData Ctx Handle) (offset : UInt64) (count : UInt32) :
    Ran Ctx Handle :=
  match checkFh env.compound data.currentFH .noFileHandle with
  | .error status => fails (.compound status)
  | .ok fh =>
    if data.currentFiletype ≠ .regularFile then fails (.op (Nfs4.notRegular data.currentFiletype))
    else
      let r := cacheInodeCommit env.unstableOffset offset count (!env.rdwr)
      (if r.1 then [.rdwr fh.exportid.toNat] else [],
        if r.2 then .error (.op .inval) else .ok data)

/-- `.` or `..` -/
def isDot (name : Name) : Bool :=
  decide (name = ".".toUTF8.toList) || decide (name = "..".toUTF8.toList)

def nfs4OpRemove (data : CompoundData Ctx Handle) (target : Name) : Ran Ctx Handle :=
  match checkFh env.compound data.currentFH .noFileHandle with
  | .error status => fails (.compound status)
  | .ok fh =>
    if nfs4IsFhPseudo fh then fails (.op nfs4errRofs)
    else if nfs4IsFhXattr fh then
      if env.xattr then ([], .ok data) else fails nfs4Errno
    else if data.currentEntry.isNone then fails (.compound .crash)
    else if !isDirectory data.currentFiletype then fails (.compound .notdir)
    else if server.compound.fsalMaxNameLen < target.length then fails (.compound .nameTooLong)
    else if target = [] then fails (.compound .inval)
    else
      match fsalStr2name server.compound.fsalMaxNameLen target with
      | none => fails nfs4Errno
      | some name =>
        if isDot name then fails (.compound .badName)
        else called (.remove fh.exportid.toNat) env.remove data nfs4Errno

/-- The types of what RENAME finds do not go together: `NFS4ERR_EXIST`. -/
def renameExists (src dst : FileType) : Bool :=
  (isDirectory src && decide (dst = .regularFile)) ||
    (decide (src = .regularFile) && isDirectory dst) ||
    (isDirectory dst && (isDirectory src || decide (src = .regularFile)) && env.notEmpty)

/-- `nfs4_op_rename` from the lookups on. -/
def renameLooked (data : CompoundData Ctx Handle) (fh saved : FileHandleV4) : Ran Ctx Handle :=
  match env.looked, env.lookedNew with
  | .found _, .notFound =>
    called (.rename saved.exportid.toNat fh.exportid.toNat) env.rename data nfs4Errno
  | .found src, .found dst =>
    if env.sameLooked then ([], .ok data)
    else if renameExists env src dst then fails (.op .exist)
    else
      match env.handlecmp with
      | none => fails nfs4Errno
      | some true => ([], .ok data)
      | some false => fails (.op .exist)
  | _, _ => fails nfs4Errno

/-- `nfs4_op_rename` after the checks of the filehandles. -/
def renameNames (data : CompoundData Ctx Handle) (fh saved : FileHandleV4)
    (oldname newname : Name) : Ran Ctx Handle :=
  if server.compound.fsalMaxNameLen < oldname.length ∨
      server.compound.fsalMaxNameLen < newname.length then fails (.compound .nameTooLong)
  else
    match fsalStr2name server.compound.fsalMaxNameLen oldname,
      fsalStr2name server.compound.fsalMaxNameLen newname with
    | some oldname, some newname =>
      if isDot newname || isDot oldname then fails (.compound .badName)
      else if fh.exportid ≠ saved.exportid then fails (.op nfs4errXdev)
      else if !isDirectory data.currentFiletype || !isDirectory data.savedFiletype then
        fails (.compound .notdir)
      else if env.sameEntry ∧ oldname = newname then ([], .ok data)
      else if !env.getattr then fails nfs4Errno
      else renameLooked env data fh saved
    | _, _ => fails (.compound .inval)

def nfs4OpRename (data : CompoundData Ctx Handle) (oldname newname : Name) : Ran Ctx Handle :=
  if oldname = [] ∨ newname = [] then fails (.compound .inval)
  else
    match checkFh env.compound data.currentFH .noFileHandle,
      checkFh env.compound data.savedFH .noFileHandle with
    | .error status, _ => fails (.compound status)
    | .ok _, .error status => fails (.compound status)
    | .ok fh, .ok saved =>
      if nfs4IsFhPseudo fh then fails (.op nfs4errRofs)
      else
        match setExportIfNull server.compound env.compound data with
        | .error status => fails (.compound status)
        | .ok data => renameNames server env data fh saved oldname newname

def runOp4 (data : CompoundData Ctx Handle) : Op4 Ctx Handle → Ran Ctx Handle
  | .base op =>
    match runOp server.compound env.compound data op with
    | .error status => fails (.compound status)
    | .ok data => ([], .ok data)
  | .write args => runWrite server env data args
  | .commit offset count => nfs4OpCommit env data offset count
  | .remove target => nfs4OpRemove server env data target
  | .rename oldname newname => nfs4OpRename server env data oldname newname
  | .other next => ([], next)

end Code

/-- The loop of `nfs4_Compound`: the calls of the operations, until one fails. -/
def nfs4Compound (server : Server Ctx Handle) (data : CompoundData Ctx Handle) :
    List (Op4 Ctx Handle × Env4 Handle) → List ModifyCall
  | [] => []
  | a :: as =>
    (runOp4 server a.2 data a.1).1 ++
      match (runOp4 server a.2 data a.1).2 with
      | .error _ => []
      | .ok data => nfs4Compound server data as

/-! ## When an operation comes to its call -/

section Passes

variable (server : Server Ctx Handle) (env : Env4 Handle) (data : CompoundData Ctx Handle)
  (fh : FileHandleV4)

/-- The size that WRITE writes. -/
def writtenSize (pexport : Nfs4.IoExport) (args : WriteArgs) : UInt64 :=
  if Nfs4.has pexport.options 1 ∧ pexport.maxWrite < args.dataLen.toUInt64 then pexport.maxWrite
  else args.dataLen.toUInt64

/-- The states of the file let the stateid pass. -/
def StatesPass (stateid : Stateid4) (x : Exportlist Ctx) : Prop :=
  if server.states.minor1 then
    Nfs4.scanStates env.states env.file none shareWrite env.status.statusWord
      env.status.digest = none
  else
    ∃ found, Nfs4.foundState server.states env.states (ioData server env data x) stateid
        env.status Nfs4.writeRefuses = .ok found ∧
      Nfs4.scanStates env.states env.file found shareWrite
        (Nfs4.wordBeforeScan stateid env.status) env.status.digest = none

/-- The tests of WRITE, none of which is about `ACCESSTYPE_RO` or `ACCESSTYPE_MDONLY_RO`. -/
structure WritePasses (args : WriteArgs) (x : Exportlist Ctx) : Prop where
  notXattr : nfs4IsFhXattr fh = false
  pexport : data.pexport = some x
  /-- it is not `ACCESSTYPE_MDONLY` -/
  notMdonly : (server.io x).accessType ≠ .mdonly
  states : StatesPass server env data args.stateid x
  regular : data.currentFiletype = .regularFile
  /-- the offset is not too large -/
  offset : ¬ ((server.io x).options &&& Nfs4.maxoffsetwrite = Nfs4.maxoffsetwrite ∧
    (server.io x).maxOffsetWrite < (args.offset + args.dataLen.toUInt64).toInt64)
  size : writtenSize (server.io x) args ≠ 0
  dataCache : Nfs4.dataCacheFails (ioData server env data x) env.io = false

structure CommitPasses (offset : UInt64) (count : UInt32) (bufferOffset : UInt64) : Prop where
  regular : data.currentFiletype = .regularFile
  /-- with data that is not written -/
  unstable : env.unstableOffset = some bufferOffset
  range : count = 0 ∨ count = 0xFFFFFFFF ∨ bufferOffset ≤ offset

structure NamePasses (name : Name) : Prop where
  notEmpty : name ≠ []
  length : name.length ≤ server.compound.fsalMaxNameLen
  cLength : (cString name).length < server.compound.fsalMaxNameLen
  /-- nor `.` or `..` -/
  notDot : isDot (cString name) = false

structure RemovePasses (target : Name) : Prop where
  /-- the handle is not in the pseudo file system -/
  notPseudo : nfs4IsFhPseudo fh = false
  notXattr : nfs4IsFhXattr fh = false
  entry : data.currentEntry.isSome = true
  directory : isDirectory data.currentFiletype = true
  name : NamePasses server target

/-- The tests of RENAME, where `data` has got its export. -/
structure RenamePasses (oldname newname : Name) (saved : FileHandleV4) : Prop where
  /-- the handle is not in the pseudo file system -/
  notPseudo : nfs4IsFhPseudo fh = false
  sameExport : fh.exportid = saved.exportid
  directory : isDirectory data.currentFiletype = true
  savedDirectory : isDirectory data.savedFiletype = true
  oldNamePasses : NamePasses server oldname
  newNamePasses : NamePasses server newname
  differ : ¬ (env.sameEntry = true ∧ cString oldname = cString newname)
  /-- the attributes of the saved directory -/
  getattr : env.getattr = true
  looked : ∃ type, env.looked = .found type
  lookedNew : env.lookedNew = .notFound

/-- The operation comes to its call, on an entry of the handle. -/
def Op4.Passes : Op4 Ctx Handle → Prop
  | .base _ | .other _ => False
  | .write args => ∃ x, WritePasses server env data fh args x
  | .commit offset count => ∃ bufferOffset, CommitPasses env data offset count bufferOffset
  | .remove target => RemovePasses server data fh target
  | .rename oldname newname => ∃ saved next, data.savedFH = some saved ∧
      setExportIfNull server.compound env.compound data = .ok next ∧
      RenamePasses server env next fh oldname newname saved

/-- The operation is refused for a handle of a read-only export, by some other test. -/
def Op4.Refused (op : Op4 Ctx Handle) : Prop :=
  ∀ fh, data.currentFH = some fh → env.compound.expired = false →
    server.exports.IsReadOnly fh.exportid.toNat → ¬ op.Passes server env data fh

end Passes

/-- Every operation that a COMPOUND comes to is refused for a handle of a read-only export. -/
def Refuses (server : Server Ctx Handle) (data : CompoundData Ctx Handle) :
    List (Op4 Ctx Handle × Env4 Handle) → Prop
  | [] => True
  | a :: as => a.1.Refused server a.2 data ∧
      ∀ next, (runOp4 server a.2 data a.1).2 = .ok next → Refuses server next as

end CloudNfs.ReadOnly
