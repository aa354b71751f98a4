import CloudNfs.FileHandle
import CloudNfs.Run

/-!
# File handles in a COMPOUND

The operations of a COMPOUND share a current and a saved file handle, each with its cache entry and
file type, and one export with the credentials that were made for it. PUTFH, PUTROOTFH, LOOKUP,
LOOKUPP, SAVEFH and RESTOREFH set some of these.

* Handles are seen through the cast to `file_handle_v4_t`. They are as long as that structure, so
  that every `memcpy` copies all of it; `none` is a handle without memory.
* What the cache, the FSAL and the access check answer is part of an operation (`Env`). Memory
  allocations do not fail. The handles that no operation here reads (`mounted_on_FH`, `publicFH`)
  are left out.
* An operation that fails ends the COMPOUND. A null pointer that is read is an error of its own.

PUTFH looks for the export of its handle when there is **none**, and not when there is another one;
RESTOREFH does the same, for the handle that it is about to replace (`KeepsExport`).
-/

namespace CloudNfs.Compound

open FileHandle (DigestType Exportlist FileHandleV4 Fsal Nfsv4Param toShort)

deriving instance DecidableEq for FileHandleV4, Exportlist

/-! ### The data -/

inductive FileType where
  | unassigned
  | regularFile
  | characterFile
  | blockFile
  | symbolicLink
  | socketFile
  | fifoFile
  | dirBeginning
  | dirContinue
  deriving DecidableEq

structure CacheEntry (Handle : Type) where
  handle : Handle
  /-- `internal_md.type`, which is also the type in its attributes -/
  type : FileType
  referral : Bool

/-- A name, as the bytes of an `utf8string`. -/
abbrev Name := List UInt8

/-- The name as a C string. -/
def cString (name : Name) : Name := name.takeWhile (· ≠ 0)

/-- `pseudofs_entry_t`. -/
structure PseudofsEntry (Ctx : Type) where
  name : Name
  pseudoId : ℕ
  junctionExport : Option (Exportlist Ctx)
  /-- the numbers of the `sons` -/
  sons : List ℕ
  /-- the number of the `parent` -/
  parent : ℕ

structure Config (Ctx Handle : Type) where
  fsal : Fsal Ctx Handle
  pfullexportlist : List (Exportlist Ctx)
  reverseTab : ℕ → PseudofsEntry Ctx
  nfsv4Param : Nfsv4Param
  serverBootTime : ℕ
  fsalMaxNameLen : ℕ

/-- A file handle with what is kept beside it. -/
structure InEffect (Ctx Handle : Type) where
  fh : Option FileHandleV4
  entry : Option (CacheEntry Handle)
  filetype : FileType
  pexport : Option (Exportlist Ctx)

/-- `compound_data_t`, and two fields about the past. -/
structure CompoundData (Ctx Handle : Type) where
  currentFH : Option FileHandleV4
  currentEntry : Option (CacheEntry Handle)
  currentFiletype : FileType
  savedFH : Option FileHandleV4
  savedEntry : Option (CacheEntry Handle)
  savedFiletype : FileType
  rootFH : Option FileHandleV4
  pexport : Option (Exportlist Ctx)
  /-- the export context in `pcontext` -/
  pcontext : Ctx
  /-- the export of the last `nfs4_MakeCred` that succeeded -/
  credExport : Option (Exportlist Ctx)
  atSave : Option (InEffect Ctx Handle)

def CompoundData.inEffect (data : CompoundData Ctx Handle) : InEffect Ctx Handle :=
  ⟨data.currentFH, data.currentEntry, data.currentFiletype, data.pexport⟩

inductive Status where
  | noFileHandle
  | badHandle
  | fhExpired
  | wrongsec
  | inval
  | nameTooLong
  | badName
  | noent
  | symlink
  | notdir
  | serverfault
  | restorefh
  /-- `nfs4_Errno` of a cache status -/
  | errno
  /-- a null pointer is read -/
  | crash
  deriving DecidableEq

structure Env (Handle : Type) where
  /-- `nfs4_Is_Fh_Expired`, which looks at addresses -/
  expired : Bool
  /-- the access check and `nfs_build_fsal_context` of `nfs4_MakeCred` succeed -/
  cred : Bool
  /-- `cache_inode_get` finds or makes an entry, of this type -/
  get : Option FileType
  /-- what `cache_inode_lookup` gives -/
  looked : Option (CacheEntry Handle)
  /-- the handle and the type that `FSAL_lookupPath` and the cache give for the root of an export -/
  root : Option (Handle × FileType)
  /-- what `FSAL_GetXAttrIdByName` gives -/
  xattrId : Option UInt8
  /-- what the local `file_handle` of `nfs4_FSALToFhandle` holds before it is set -/
  stack : FileHandleV4

/-- A handle that the server has issued: ids of exports are `unsigned short`. -/
structure IssuedFh where
  fh : FileHandleV4
  exportid : fh.exportid.toNat < 2 ^ 16

inductive Op where
  | putfh (object : IssuedFh)
  | putrootfh
  | lookup (objname : Name)
  | lookupp
  | savefh
  | restorefh

/-! ### The code -/

def nfs4IsFhPseudo (fh : FileHandleV4) : Bool := fh.pseudofsFlag ≠ 0

def nfs4IsFhXattr (fh : FileHandleV4) : Bool := fh.xattrPos ≠ 0

def nfs4PseudoToFhandle (psfsentry : PseudofsEntry Ctx) : FileHandleV4 where
  pseudofsId := UInt16.ofNat psfsentry.pseudoId
  dsFlag := 0
  pseudofsFlag := 1
  exportid := 0
  refid := 0
  pad := 0
  srvbootTime := 0
  fsopaqueData := List.replicate 93 0
  xattrPos := 0
  tail := 0

/-- `nfs_Get_export_by_id`, where the `short` becomes an `unsigned short`. -/
def nfsGetExportById (exports : List (Exportlist Ctx)) (exportid : ℤ) :
    Option (Exportlist Ctx) :=
  exports.find? fun piter => (piter.id.toNat : ℤ) = exportid % 2 ^ 16

section Code

variable (cfg : Config Ctx Handle) (env : Env Handle)

def nfs4FSALToFhandle (h : Handle) (pexport : Exportlist Ctx) : Option FileHandleV4 :=
  (cfg.fsal.digestHandle .nfsv4 pexport.fsExportContext h).map fun d =>
    { env.stack with
      fsopaqueData := d
      exportid := UInt32.ofNat pexport.id.toNat
      pseudofsId := 0
      pseudofsFlag := 0
      dsFlag := 0
      refid := 0
      srvbootTime := if cfg.nfsv4Param.fhExpire then UInt32.ofNat cfg.serverBootTime else 0
      xattrPos := 0 }

def checkFh (fh : Option FileHandleV4) (empty : Status) : Except Status FileHandleV4 :=
  match fh with
  | none => .error empty
  | some fh => if env.expired then .error .fhExpired else .ok fh

def nfs4MakeCred (data : CompoundData Ctx Handle) (pexport : Exportlist Ctx) :
    Except Status (CompoundData Ctx Handle) :=
  if env.cred then
    .ok { data with pcontext := pexport.fsExportContext, credExport := some pexport }
  else .error .wrongsec

def nfs4SetCompoundExport (data : CompoundData Ctx Handle) :
    Except Status (CompoundData Ctx Handle) :=
  match data.currentFH with
  | none => .error .crash
  | some fh =>
    if nfs4IsFhPseudo fh then .ok data
    else if toShort fh.exportid.toNat = 0 then .error .badHandle
    else
      match nfsGetExportById cfg.pfullexportlist (toShort fh.exportid.toNat) with
      | none => .error .badHandle
      | some pexport => nfs4MakeCred env { data with pexport := some pexport } pexport

/-- The export is looked for when there is none. -/
def setExportIfNull (data : CompoundData Ctx Handle) : Except Status (CompoundData Ctx Handle) :=
  if data.pexport.isNone then nfs4SetCompoundExport cfg env data else .ok data

/-- `nfs_FhandleToCache` for NFSv4. -/
def nfsFhandleToCache (pcontext : Ctx) (fh : FileHandleV4) : Option (CacheEntry Handle) :=
  if fh.pseudofsId ≠ 0 ∨ fh.pseudofsFlag ≠ 0 then none
  else
    match cfg.fsal.expandHandle .nfsv4 pcontext fh.fsopaqueData, env.get with
    | some handle, some type => some ⟨handle, type, false⟩
    | _, _ => none

def nfs4OpPutfh (object : FileHandleV4) (data : CompoundData Ctx Handle) :
    Except Status (CompoundData Ctx Handle) :=
  if env.expired then .error .fhExpired
  else
    let data := { data with currentFH := some object }
    if nfs4IsFhPseudo object then
      .ok { data with currentEntry := none, currentFiletype := .dirBeginning, pexport := none }
    else
      (setExportIfNull cfg env data).bind fun data =>
        match nfsFhandleToCache cfg env data.pcontext object with
        | none => .error .badHandle
        | some pentry =>
          .ok { data with currentEntry := some pentry, currentFiletype := pentry.type }

def nfs4OpPutrootfh (data : CompoundData Ctx Handle) : CompoundData Ctx Handle :=
  let rootFH := nfs4PseudoToFhandle (cfg.reverseTab 0)
  { data with
    rootFH := some rootFH
    currentEntry := none
    currentFiletype := .dirBeginning
    currentFH := some rootFH }

def nfs4OpLookupPseudo (fh : FileHandleV4) (objname : Name) (data : CompoundData Ctx Handle) :
    Except Status (CompoundData Ctx Handle) :=
  let psfsentry := cfg.reverseTab fh.pseudofsId.toNat
  match (psfsentry.sons.map cfg.reverseTab).find? (·.name = cString objname) with
  | none => .error .noent
  | some iter =>
    match iter.junctionExport with
    | none => .ok { data with currentFH := some (nfs4PseudoToFhandle iter) }
    | some pexport =>
      (nfs4MakeCred env { data with pexport := some pexport } pexport).bind fun data =>
        match env.root with
        | none => .error .serverfault
        | some (handle, type) =>
          match nfs4FSALToFhandle cfg env handle pexport with
          | none => .error .serverfault
          | some fh =>
            .ok { data with
              currentFH := some fh
              currentEntry := some ⟨handle, type, false⟩
              currentFiletype := type }

def nfs4OpLookupXattr (fh : FileHandleV4) (data : CompoundData Ctx Handle) :
    Except Status (CompoundData Ctx Handle) :=
  match data.currentEntry, env.xattrId with
  | none, _ => .error .crash
  | some _, none => .error .noent
  | some _, some xattrId => .ok { data with currentFH := some { fh with xattrPos := xattrId + 2 } }

def xattrdName : Name := ".xattr.d.".toUTF8.toList

def nfsXattrDName (strname : Name) : Option Name :=
  if xattrdName.isPrefixOf strname then some (strname.drop xattrdName.length) else none

/-- The new handle after a lookup in a directory: the ghost directory of the extended attributes,
or a referral. -/
def lookedFh (xattrFound : Bool) (pentry : CacheEntry Handle) (fh : FileHandleV4) : FileHandleV4 :=
  let fh := if xattrFound then { fh with xattrPos := 1 } else fh
  if pentry.type = .dirBeginning ∧ pentry.referral then { fh with refid := 1 } else fh

/-- What LOOKUP and LOOKUPP do with what the cache gives. -/
def setLooked (fhOf : CacheEntry Handle → FileHandleV4 → FileHandleV4)
    (data : CompoundData Ctx Handle) : Except Status (CompoundData Ctx Handle) :=
  match env.looked with
  | none => .error .errno
  | some pentry =>
    match data.pexport with
    | none => .error .crash
    | some pexport =>
      match nfs4FSALToFhandle cfg env pentry.handle pexport with
      | none => .error .serverfault
      | some fh =>
        .ok { data with
          currentFH := some (fhOf pentry fh)
          currentEntry := some pentry
          currentFiletype := pentry.type }

/-- `nfs4_op_lookup` outside the pseudo file system. -/
def nfs4OpLookupFsal (objname : Name) (data : CompoundData Ctx Handle) :
    Except Status (CompoundData Ctx Handle) :=
  let strname := cString objname
  let name := (nfsXattrDName strname).getD strname
  if name = ".".toUTF8.toList ∨ name = "..".toUTF8.toList then .error .badName
  else
    match data.currentEntry with
    | none => .error .crash
    | some dirPentry =>
      if dirPentry.type = .dirBeginning ∨ dirPentry.type = .dirContinue then
        setLooked cfg env (lookedFh (nfsXattrDName strname).isSome) data
      else if dirPentry.type = .symbolicLink then .error .symlink
      else .error .notdir

def nfs4OpLookup (objname : Name) (data : CompoundData Ctx Handle) :
    Except Status (CompoundData Ctx Handle) :=
  (checkFh env data.currentFH .noFileHandle).bind fun fh =>
    if objname = [] then .error .inval
    else if cfg.fsalMaxNameLen < objname.length then .error .nameTooLong
    else if nfs4IsFhPseudo fh then nfs4OpLookupPseudo cfg env fh objname data
    else if nfs4IsFhXattr fh then nfs4OpLookupXattr env fh data
    else nfs4OpLookupFsal cfg env objname data

def nfs4OpLookuppPseudo (fh : FileHandleV4) (data : CompoundData Ctx Handle) :
    Except Status (CompoundData Ctx Handle) :=
  let psfsentry := cfg.reverseTab fh.pseudofsId.toNat
  if psfsentry.pseudoId = (cfg.reverseTab 0).pseudoId then .error .noent
  else
    .ok { data with
      currentFH := some (nfs4PseudoToFhandle (cfg.reverseTab psfsentry.parent))
      currentEntry := none
      currentFiletype := .unassigned }

def nfs4OpLookupp (data : CompoundData Ctx Handle) : Except Status (CompoundData Ctx Handle) :=
  (checkFh env data.currentFH .noFileHandle).bind fun fh =>
    if data.rootFH = some fh then .error .noent
    else if nfs4IsFhPseudo fh then nfs4OpLookuppPseudo cfg fh data
    else if nfs4IsFhXattr fh then .ok data
    else
      (setExportIfNull cfg env data).bind fun data =>
        match data.currentEntry with
        | none => .error .crash
        | some _ => setLooked cfg env (fun _ fh => fh) data

def nfs4OpSavefh (data : CompoundData Ctx Handle) : Except Status (CompoundData Ctx Handle) :=
  (checkFh env data.currentFH .noFileHandle).map fun fh =>
    { data with
      savedFH := some fh
      savedEntry := data.currentEntry
      savedFiletype := data.currentFiletype
      atSave := some data.inEffect }

def nfs4OpRestorefh (data : CompoundData Ctx Handle) : Except Status (CompoundData Ctx Handle) :=
  (checkFh env data.savedFH .restorefh).bind fun fh =>
    (setExportIfNull cfg env data).bind fun data =>
      match data.currentFH with
      | none => .error .crash
      | some _ =>
        .ok { data with
          currentFH := some fh
          currentEntry := data.savedEntry
          currentFiletype := data.savedFiletype }

def runOp (data : CompoundData Ctx Handle) : Op → Except Status (CompoundData Ctx Handle)
  | .putfh object => nfs4OpPutfh cfg env object.fh data
  | .putrootfh => .ok (nfs4OpPutrootfh cfg data)
  | .lookup objname => nfs4OpLookup cfg env objname data
  | .lookupp => nfs4OpLookupp cfg env data
  | .savefh => nfs4OpSavefh env data
  | .restorefh => nfs4OpRestorefh cfg env data

end Code

/-- A step of a COMPOUND: an operation that is answered with `NFS4_OK`. -/
def step (cfg : Config Ctx Handle) (data : CompoundData Ctx Handle) (a : Op × Env Handle) :
    Option (CompoundData Ctx Handle) :=
  (runOp cfg a.2 data a.1).toOption

/-- The data as `nfs4_Compound` sets it, with whatever `pcontext` the worker has. -/
def initData (pcontext : Ctx) : CompoundData Ctx Handle where
  currentFH := none
  currentEntry := none
  currentFiletype := .unassigned
  savedFH := none
  savedEntry := none
  savedFiletype := .unassigned
  rootFH := none
  pexport := none
  pcontext := pcontext
  credExport := none
  atSave := none

/-! ### The contract -/

variable {Ctx Handle : Type}

/-- The export is that of the handle, and the entry and the file type are those of the FSAL handle
in it. -/
structure Matches (cfg : Config Ctx Handle) (fh : FileHandleV4) (pexport : Exportlist Ctx)
    (pentry : CacheEntry Handle) (filetype : FileType) : Prop where
  exportid : pexport.id.toNat = fh.exportid.toNat
  handle : cfg.fsal.expandHandle .nfsv4 pexport.fsExportContext fh.fsopaqueData =
    some pentry.handle
  filetype : filetype = pentry.type

/-- A handle outside the pseudo file system has its export, its entry and its file type. -/
def InEffect.Belongs (cfg : Config Ctx Handle) (w : InEffect Ctx Handle) : Prop :=
  ∀ fh ∈ w.fh, nfs4IsFhPseudo fh = false → ∃ pexport pentry, w.pexport = some pexport ∧
    w.entry = some pentry ∧ Matches cfg fh pexport pentry w.filetype

/-- The credentials were made for the export of the current handle. -/
def CompoundData.HasCred (data : CompoundData Ctx Handle) : Prop :=
  ∀ fh ∈ data.currentFH, nfs4IsFhPseudo fh = false → data.credExport = data.pexport

/-- **The contract** of an operation that is answered with `NFS4_OK`: what is in effect belongs
together, and after RESTOREFH it is what was in effect at the last SAVEFH. -/
structure KeepsTogether (cfg : Config Ctx Handle) (s : CompoundData Ctx Handle)
    (a : Op × Env Handle) (t : CompoundData Ctx Handle) : Prop where
  /-- the handle with its entry, file type and export -/
  belongs : t.inEffect.Belongs cfg
  cred : t.HasCred
  givesBack : a.1 = .restorefh → s.atSave = some t.inEffect

/-- PUTFH of a handle outside the pseudo file system finds no export or that of the handle, and
RESTOREFH finds the export that was in effect at the last SAVEFH. -/
def KeepsExport (s : CompoundData Ctx Handle) : Op → Prop
  | .putfh object => nfs4IsFhPseudo object.fh = false →
      ∀ x ∈ s.pexport, x.id.toNat = object.fh.exportid.toNat
  | .restorefh => ∀ w ∈ s.atSave, s.pexport = w.pexport
  | _ => True

instance [DecidableEq Ctx] (s : CompoundData Ctx Handle) : (op : Op) →
    Decidable (KeepsExport s op)
  | .putfh _ => inferInstanceAs (Decidable (_ → ∀ x ∈ s.pexport, _))
  | .restorefh => inferInstanceAs (Decidable (∀ w ∈ s.atSave, s.pexport = w.pexport))
  | .putrootfh | .lookup _ | .lookupp | .savefh => isTrue trivial

end CloudNfs.Compound
