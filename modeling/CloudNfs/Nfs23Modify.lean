import CloudNfs.Nfs4Io

/-!
# Requests of NFSv2 and NFSv3 that modify

The worker takes the export of a request from the file handle that its arguments begin with, and
answers a function that is marked `MAKES_WRITE` by itself when this export is read-only.

* What is modelled begins after the duplicate request cache, which did not know the request.
* Of the service functions, those are modelled that call `cache_inode_rdwr` for writing,
  `cache_inode_remove` or `cache_inode_rename`. The others give any answer.
* A call is recorded with the export ids of the file handles that its entries were obtained with.
* What the cache, the FSAL and the access check answer is in `Env`.
-/

namespace CloudNfs.ReadOnly

open Compound (FileType Name cString nfsGetExportById)
open FileHandle (Exportlist toShort)
open Nfs4 (AccessType IoExport has)

/-- A call that modifies, with the export ids of the file handles. -/
inductive ModifyCall where
  /-- `cache_inode_rdwr` for writing -/
  | rdwr (file : ℕ)
  | remove (parent : ℕ)
  | rename (src dst : ℕ)
  deriving DecidableEq

def ModifyCall.exportids : ModifyCall → List ℕ
  | .rdwr file => [file]
  | .remove parent => [parent]
  | .rename src dst => [src, dst]

/-- `ACCESSTYPE_RO` or `ACCESSTYPE_MDONLY_RO` -/
def readOnly (pexport : IoExport) : Bool :=
  decide (pexport.accessType = .ro) || decide (pexport.accessType = .mdonlyRo)

def isDirectory (type : FileType) : Bool :=
  decide (type = .dirBeginning) || decide (type = .dirContinue)

/-! ## The tables -/

inductive Service where
  | null
  | getattr
  | setattr
  | root
  | lookup
  | access
  | readlink
  | read
  | writecache
  | write
  | create
  | mkdir
  | symlink
  | mknod
  | remove
  | rmdir
  | rename
  | link
  | readdir
  | readdirplus
  | fsstat
  | fsinfo
  | pathconf
  | commit
  deriving DecidableEq

/-- What is used of `nfs_function_desc_t`. -/
structure FunctionDesc where
  /-- `service_function` -/
  service : Service
  makesWrite : Bool
  needsCred : Bool

inductive Version where
  /-- `NFS_V2` -/
  | v2
  /-- `NFS_V3` -/
  | v3
  deriving DecidableEq

def nfs2FuncDesc : List FunctionDesc :=
  [⟨.null, false, false⟩, ⟨.getattr, false, true⟩, ⟨.setattr, true, true⟩, ⟨.root, false, false⟩,
    ⟨.lookup, false, true⟩, ⟨.readlink, false, true⟩, ⟨.read, false, true⟩,
    ⟨.writecache, false, false⟩, ⟨.write, true, true⟩, ⟨.create, true, true⟩,
    ⟨.remove, true, true⟩, ⟨.rename, true, true⟩, ⟨.link, true, true⟩, ⟨.symlink, true, true⟩,
    ⟨.mkdir, true, true⟩, ⟨.rmdir, true, true⟩, ⟨.readdir, false, true⟩, ⟨.fsstat, false, true⟩]

def nfs3FuncDesc : List FunctionDesc :=
  [⟨.null, false, false⟩, ⟨.getattr, false, true⟩, ⟨.setattr, true, true⟩, ⟨.lookup, false, true⟩,
    ⟨.access, false, true⟩, ⟨.readlink, false, true⟩, ⟨.read, false, true⟩, ⟨.write, true, true⟩,
    ⟨.create, true, true⟩, ⟨.mkdir, true, true⟩, ⟨.symlink, true, true⟩, ⟨.mknod, true, true⟩,
    ⟨.remove, true, true⟩, ⟨.rmdir, true, true⟩, ⟨.rename, true, true⟩, ⟨.link, true, true⟩,
    ⟨.readdir, false, true⟩, ⟨.readdirplus, false, true⟩, ⟨.fsstat, false, true⟩,
    ⟨.fsinfo, false, true⟩, ⟨.pathconf, false, true⟩, ⟨.commit, true, true⟩]

def funcDesc : Version → List FunctionDesc
  | .v2 => nfs2FuncDesc
  | .v3 => nfs3FuncDesc

/-! ## Requests -/

/-- What is used of `file_handle_v2_t` and `file_handle_v3_t`, besides the FSAL handle. -/
structure Fh where
  exportid : UInt16
  xattrPos : UInt8

/-- A request, with the arguments that the modelled functions use. -/
structure Request where
  vers : Version
  rqProc : ℕ
  /-- the handle that the arguments begin with -/
  fh : Fh
  /-- the handle of the other directory, of RENAME and LINK -/
  toDir : Fh
  name : Name
  /-- the new name of RENAME -/
  toName : Name
  offset : UInt64
  /-- `count`, which NFSv2 has from the data -/
  count : UInt32
  dataLen : UInt32
  /-- `stable` is `UNSTABLE` -/
  unstable : Bool

/-- A failure of the cache: the error of NFS for it, and whether the request is dropped. -/
structure CacheFail where
  /-- `nfs2_Errno` or `nfs3_Errno` -/
  status : ℕ
  /-- `nfs_RetryableError` -/
  retryable : Bool

/-- What is answered from outside. -/
structure Env where
  port : ℕ
  access : Bool
  context : Bool
  /-- `nfs_FhandleToCache` for the first handle: the type, or the error, or a drop -/
  entry : Except (Option ℕ) FileType
  /-- `nfs_FhandleToCache` for the other directory -/
  toEntry : Except (Option ℕ) FileType
  sameEntry : Bool
  /-- `cache_inode_lookup` of the name -/
  lookup : Except CacheFail FileType
  /-- `cache_inode_lookup` of the new name; no failure is `CACHE_INODE_NOT_FOUND` -/
  toLookup : Except (Option CacheFail) FileType
  compatible : Bool
  remove : Option CacheFail
  rename : Option CacheFail
  rdwr : Option CacheFail
  /-- `cache_inode_add_data_cache`, where the entry should be in the data cache and is not -/
  dataCache : Option CacheFail
  /-- `unstable_data.offset`, if there is a buffer -/
  unstableOffset : Option UInt64
  filesize : ℕ
  /-- what the functions for extended attributes and all the others answer -/
  answer : Option ℕ
  /-- the failure `CACHE_INODE_INVALID_ARGUMENT` -/
  invalidArgument : CacheFail
  nameTooLong : CacheFail
  /-- the failure `CACHE_INODE_ENTRY_EXISTS` -/
  entryExists : CacheFail
  /-- what the status of the result holds before it is set -/
  resultWord : ℕ

/-- What a service function does: its calls, and its answer unless the request is dropped. -/
structure Served where
  calls : List ModifyCall
  answer : Option ℕ

inductive Answer where
  | decode
  /-- `svcerr_auth` with `AUTH_FAILED` -/
  | authFailed
  /-- `svcerr_auth` with `AUTH_TOOWEAK` -/
  | authTooWeak
  | reply (status : ℕ)
  /-- nothing: a null pointer is read -/
  | crash

/-- What is made of a request. -/
structure Outcome where
  calls : List ModifyCall
  answers : List Answer

/-! ## The service functions -/

/-- `NFSERR_ROFS` and `NFS3ERR_ROFS` -/
def errRofs : ℕ := 30

/-- `NFSERR_NOTDIR` and `NFS3ERR_NOTDIR` -/
def errNotdir : ℕ := 20

/-- `NFSERR_ISDIR` and `NFS3ERR_ISDIR` -/
def errIsdir : ℕ := 21

/-- `NFS3ERR_INVAL` -/
def errInval : ℕ := 22

/-- `NFSERR_FBIG` -/
def errFbig : ℕ := 27

/-- `NFSERR_DQUOT` and `NFS3ERR_DQUOT` -/
def errDquot : ℕ := 69

/-- `NFS3ERR_IO` -/
def errIo : ℕ := 5

def nfs2MaxFilesize : ℕ := 2147483647

def exportOptionMaxwrite : UInt32 := 0x00000400

def exportOptionPrivilegedPort : UInt32 := 0x00004000

def failed (calls : List ModifyCall) (f : CacheFail) : Served :=
  ⟨calls, if f.retryable then none else some f.status⟩

def finished (calls : List ModifyCall) : Option CacheFail → Served
  | some f => failed calls f
  | none => ⟨calls, some 0⟩

/-- The name, unless it is too long (`FSAL_str2name`). -/
def fsalStr2name (fsalMaxNameLen : ℕ) (name : Name) : Option Name :=
  if fsalMaxNameLen ≤ (cString name).length then none else some (cString name)

/-- `cache_inode_commit`: whether it calls `cache_inode_rdwr`, and whether it fails. -/
def cacheInodeCommit (unstableOffset : Option UInt64) (offset : UInt64) (count : UInt32)
    (rdwrFails : Bool) : Bool × Bool :=
  match unstableOffset with
  | none => (false, false)
  | some bufferOffset =>
    if count = 0 ∨ count = 0xFFFFFFFF then (true, rdwrFails)
    else if offset < bufferOffset then (false, true)
    else (true, rdwrFails)

section Functions

variable (fsalMaxNameLen : ℕ) (pexport : IoExport) (req : Request) (env : Env)

/-- The size that `nfs_Write` writes, or its error. -/
def nfsWriteSize : Except ℕ UInt64 :=
  match req.vers with
  | .v2 => if nfs2MaxFilesize < env.filesize then .error errFbig else .ok req.dataLen.toUInt64
  | .v3 =>
    if req.dataLen < req.count then .error errInval
    else if pexport.options &&& Nfs4.maxoffsetwrite = Nfs4.maxoffsetwrite ∧
        pexport.maxOffsetWrite < (req.count.toUInt64 + req.offset).toInt64 then .error errDquot
    else if pexport.options &&& exportOptionMaxwrite = exportOptionMaxwrite ∧
        pexport.maxWrite < req.count.toUInt64 then .ok pexport.maxWrite
    else .ok req.count.toUInt64

def nfsWrite : Served :=
  match env.entry with
  | .error answer => ⟨[], answer⟩
  | .ok type =>
    if req.vers = .v3 ∧ req.fh.xattrPos ≠ 0 then ⟨[], env.answer⟩
    else if type ≠ .regularFile then
      ⟨[], some (if req.vers = .v2 ∨ isDirectory type then errIsdir else errInval)⟩
    else if pexport.accessType = .mdonly then ⟨[], some errDquot⟩
    else
      match nfsWriteSize pexport req env with
      | .error status => ⟨[], some status⟩
      | .ok size =>
        if size = 0 then ⟨[], some env.resultWord⟩
        else
          match env.dataCache with
          | some f => failed [] f
          | none => finished [.rdwr req.fh.exportid.toNat] env.rdwr

/-- What `nfs_Remove` and `nfs_Rmdir` share: the directory and the name, and the type that the child
must have. -/
def nfsRemoveChild (accepts : FileType → Bool) (status : ℕ) : Served :=
  match env.entry with
  | .error answer => ⟨[], answer⟩
  | .ok type =>
    if !isDirectory type then ⟨[], some errNotdir⟩
    else if req.name = [] then failed [] env.invalidArgument
    else
      match fsalStr2name fsalMaxNameLen req.name, env.lookup with
      | none, _ => failed [] env.nameTooLong
      | some _, .error f => failed [] f
      | some _, .ok childtype =>
        if !accepts childtype then ⟨[], some status⟩
        else finished [.remove req.fh.exportid.toNat] env.remove

def nfsRemove : Served :=
  match env.entry with
  | .error answer => ⟨[], answer⟩
  | .ok _ =>
    if req.vers = .v3 ∧ req.fh.xattrPos ≠ 0 then ⟨[], env.answer⟩
    else nfsRemoveChild fsalMaxNameLen req env (fun childtype => !isDirectory childtype) errIsdir

def nfsRmdir : Served := nfsRemoveChild fsalMaxNameLen req env isDirectory errNotdir

/-- `nfs_Rename`, when the new name exists or cannot be looked up. -/
def nfsRenameExisting (entryName newEntryName : Name) : Served :=
  let src := req.fh.exportid.toNat
  let dst := req.toDir.exportid.toNat
  if env.sameEntry ∧ newEntryName = entryName then ⟨[], some 0⟩
  else
    match env.toLookup, env.lookup with
    | .ok _, .ok _ =>
      if !env.compatible then failed [] env.entryExists
      else if env.remove.isSome then failed [.remove dst] env.entryExists
      else if env.rename.isSome then failed [.remove dst, .rename src dst] env.entryExists
      else ⟨[.remove dst, .rename src dst], some 0⟩
    | _, _ => failed [] env.entryExists

def nfsRename : Served :=
  match env.entry, env.toEntry with
  | .error answer, _ => ⟨[], answer⟩
  | .ok _, .error answer => ⟨[], answer⟩
  | .ok type, .ok toType =>
    if !isDirectory type || !isDirectory toType then ⟨[], some errNotdir⟩
    else if req.name = [] ∨ req.toName = [] then failed [] env.invalidArgument
    else
      match fsalStr2name fsalMaxNameLen req.name, fsalStr2name fsalMaxNameLen req.toName with
      | some entryName, some newEntryName =>
        match env.toLookup, env.lookup with
        | .error none, .error f => failed [] f
        | .error none, .ok _ =>
          finished [.rename req.fh.exportid.toNat req.toDir.exportid.toNat] env.rename
        | _, _ => nfsRenameExisting req env entryName newEntryName
      | _, _ => failed [] env.invalidArgument

def nfs3Commit : Served :=
  match env.entry with
  | .error answer => ⟨[], answer⟩
  | .ok _ =>
    let r := cacheInodeCommit env.unstableOffset req.offset req.count env.rdwr.isSome
    ⟨if r.1 then [.rdwr req.fh.exportid.toNat] else [], some (if r.2 then errIo else 0)⟩

def serviceFunction : Service → Served
  | .null => ⟨[], some 0⟩
  | .write => nfsWrite pexport req env
  | .remove => nfsRemove fsalMaxNameLen req env
  | .rmdir => nfsRmdir fsalMaxNameLen req env
  | .rename => nfsRename fsalMaxNameLen req env
  | .commit => nfs3Commit req env
  | _ => ⟨[], env.answer⟩

end Functions

/-! ## The dispatcher -/

variable {Ctx : Type}

/-- The export list, with what its entries say besides their ids. -/
structure Exports (Ctx : Type) where
  pexportlist : List (Exportlist Ctx)
  io : Exportlist Ctx → IoExport

/-- `nfs_rpc_execute`, once the export is known: `sent` was sent before. -/
def executeInExport (fsalMaxNameLen : ℕ) (pexport : IoExport) (desc : FunctionDesc) (req : Request)
    (env : Env) (sent : List Answer) : Outcome :=
  if desc.makesWrite && readOnly pexport then ⟨[], sent ++ [.reply errRofs]⟩
  else if has pexport.options exportOptionPrivilegedPort && decide (1024 ≤ env.port) then
    ⟨[], sent ++ [.authTooWeak]⟩
  else if !env.access then ⟨[], sent⟩
  else if desc.needsCred && !env.context then ⟨[], sent ++ [.authTooWeak]⟩
  else
    let r := serviceFunction fsalMaxNameLen pexport req env desc.service
    ⟨r.calls, sent ++ (r.answer.map Answer.reply).toList⟩

/-- `nfs_rpc_execute` from "Get the export entry" on. NFSv2 goes on after `svcerr_auth`. -/
def nfsRpcExecute (exports : Exports Ctx) (fsalMaxNameLen : ℕ) (req : Request) (env : Env) :
    Outcome :=
  match (funcDesc req.vers)[req.rqProc]? with
  | none => ⟨[], [.decode]⟩
  | some desc =>
    if req.rqProc = 0 then ⟨[], [.reply 0]⟩
    else
      let exportid := toShort req.fh.exportid.toNat
      match req.vers, nfsGetExportById exports.pexportlist exportid with
      | .v2, none => ⟨[], (if exportid < 0 then [.authFailed] else []) ++ [.authFailed, .crash]⟩
      | .v2, some x => executeInExport fsalMaxNameLen (exports.io x) desc req env
          (if exportid < 0 then [.authFailed] else [])
      | .v3, none => ⟨[], [.authFailed]⟩
      | .v3, some x =>
        if exportid < 0 then ⟨[], [.authFailed]⟩
        else executeInExport fsalMaxNameLen (exports.io x) desc req env []

/-! ## The contract -/

/-- The functions that modify. -/
def Service.modifies : Service → Bool
  | .setattr | .write | .create | .mkdir | .symlink | .mknod | .remove | .rmdir | .rename | .link
  | .commit => true
  | _ => false

def Request.handles (req : Request) : Service → List Fh
  | .null | .root | .writecache => []
  | .rename | .link => [req.fh, req.toDir]
  | _ => [req.fh]

/-- The export with the id is read-only. -/
def Exports.IsReadOnly (exports : Exports Ctx) (exportid : ℕ) : Prop :=
  ∃ x ∈ nfsGetExportById exports.pexportlist exportid, readOnly (exports.io x) = true

/-- No read-only export is modified by the calls. -/
def Spares (exports : Exports Ctx) (calls : List ModifyCall) : Prop :=
  ∀ call ∈ calls, ∀ exportid ∈ call.exportids, ¬ exports.IsReadOnly exportid

/-- The function of the request modifies. -/
def Request.Modifies (req : Request) (desc : FunctionDesc) : Prop :=
  (funcDesc req.vers)[req.rqProc]? = some desc ∧ desc.service.modifies = true

/-- **A request of NFSv2 or NFSv3 keeps read-only exports**: whatever is answered from outside, it
modifies none, and if it would modify and one of its handles is of a read-only export, then the
answer is the error for this. -/
structure Keeps (exports : Exports Ctx) (fsalMaxNameLen : ℕ) (req : Request) : Prop where
  spares : ∀ env, Spares exports (nfsRpcExecute exports fsalMaxNameLen req env).calls
  rofs : ∀ env desc, req.Modifies desc →
    (∃ fh ∈ req.handles desc.service, exports.IsReadOnly fh.exportid.toNat) →
      (nfsRpcExecute exports fsalMaxNameLen req env).answers = [.reply errRofs]

/-- If a handle of a request that would modify is of a read-only export, then the first one is, and
its id is positive as a `short`. -/
def FirstHandle (exports : Exports Ctx) (req : Request) : Prop :=
  ∀ desc, req.Modifies desc →
    (∃ fh ∈ req.handles desc.service, exports.IsReadOnly fh.exportid.toNat) →
      exports.IsReadOnly req.fh.exportid.toNat ∧ req.fh.exportid.toNat < 2 ^ 15

end CloudNfs.ReadOnly
