import Mathlib.Data.Finmap
import CloudNfs.Nfs23Modify
import CloudNfs.OpenFile

/-!
# What RENAME answers (`NFS_Protocols/nfs4_op_rename.c`, `NFS_Protocols/nfs_Rename.c`)

The directories are finite maps from names to objects. `cache_inode_lookup`, `cache_inode_remove`
and `cache_inode_rename` do on them exactly what they are for, or fail without effect.

* `renameLaw_iff` — exactly when an answer is right. `nfs4_op_rename` answers `NFS4_OK` without a
  call of `cache_inode_rename` when the new name designates another object: its test of
  `FSAL_handlecmp` is the wrong way round. `nfs_Rename` has removed the target when
  `cache_inode_rename` fails.
-/

namespace CloudNfs.RenameAnswer

open Nfs4 (Nfsstat4)
open Nfs4.OpenFile (CacheError CacheStatus FileType nfs4Errno)
open Compound (Name cString)
open ReadOnly (fsalStr2name)

/-! ## Directories -/

abbrev Directory (Obj : Type) : Type := Finmap fun _ : Name => Obj

abbrev Dirs (Obj : Type) : Type := Obj → Directory Obj

/-- What the cache entry of an object says. -/
structure Objects (Obj Handle : Type) where
  type : Obj → FileType
  handle : Obj → Handle

/-- How a lookup fails, when it does not say whether the name exists. -/
abbrev LookupError : Type := { e : CacheError // e ≠ .notFound }

/-- The calls that fail, each without effect. -/
structure Faults where
  /-- `cache_inode_getattr` of the source directory -/
  getattr : CacheStatus
  /-- `cache_inode_lookup` of the old name -/
  lookupOld : Option LookupError
  /-- `cache_inode_lookup` of the new name -/
  lookupNew : Option LookupError
  /-- `cache_inode_get_fsal_handle` of the target -/
  handleNew : CacheStatus
  /-- `cache_inode_get_fsal_handle` of the source -/
  handleOld : CacheStatus
  /-- `cache_inode_remove` of the target -/
  remove : CacheStatus
  rename : CacheStatus

variable {Obj Handle : Type}

namespace Dirs

variable [DecidableEq Obj]

def unlink (w : Dirs Obj) (dir : Obj) (name : Name) : Dirs Obj :=
  Function.update w dir ((w dir).erase name)

def link (w : Dirs Obj) (dir : Obj) (name : Name) (o : Obj) : Dirs Obj :=
  Function.update w dir ((w dir).insert name o)

end Dirs

section Cache

variable [DecidableEq Obj] (x : Objects Obj Handle) (w : Dirs Obj)

def notEmpty (o : Obj) : Bool := decide (x.type o = .directory ∧ (w o).keys ≠ ∅)

def cacheInodeLookup (fails : Option LookupError) (dir : Obj) (name : Name) :
    Except CacheError Obj :=
  match fails with
  | some e => .error e.1
  | none =>
    match (w dir).lookup name with
    | some o => .ok o
    | none => .error .notFound

def cacheInodeRemove (fails : CacheStatus) (dir : Obj) (name : Name) : Dirs Obj × CacheStatus :=
  match fails with
  | some e => (w, some e)
  | none =>
    match (w dir).lookup name with
    | none => (w, some .notFound)
    | some o => if notEmpty x w o then (w, some .dirNotEmpty) else (w.unlink dir name, none)

def cacheInodeRename (fails : CacheStatus) (src : Obj) (oldname : Name) (dst : Obj)
    (newname : Name) : Dirs Obj × CacheStatus :=
  match fails with
  | some e => (w, some e)
  | none =>
    match (w src).lookup oldname with
    | none => (w, some .notFound)
    | some o =>
      match (w dst).lookup newname with
      | none => ((w.unlink src oldname).link dst newname o, none)
      | some o' =>
        if x.type o' = .directory ∧ x.type o ≠ .directory then (w, some .isADirectory)
        else if x.type o' ≠ .directory ∧ x.type o = .directory then (w, some .notADirectory)
        else if o' = o then (w, none)
        else if notEmpty x w o' then (w, some .dirNotEmpty)
        else ((w.unlink src oldname).link dst newname o, none)

/-- `cache_inode_type_are_rename_compatible` -/
def typesCompatible (src dst : Obj) : Bool :=
  if x.type src = .directory then
    if x.type dst = .directory then !notEmpty x w dst else false
  else decide (x.type dst ≠ .directory)

end Cache

/-! ## NFSv4 -/

/-- A filehandle of the compound. -/
structure Fh where
  empty : Bool
  invalid : Bool
  expired : Bool
  pseudo : Bool
  exportid : UInt16

/-- The arguments and what is used of the compound. -/
structure Request4 (Obj : Type) where
  oldname : Name
  newname : Name
  currentFH : Fh
  savedFH : Fh
  /-- `pexport` is `NULL` and `nfs4_SetCompoundExport` fails -/
  setExport : Option { e : Nfsstat4 // e ≠ .ok }
  /-- `current_entry`, the destination -/
  currentEntry : Obj
  currentFiletype : FileType
  /-- `saved_entry`, the source -/
  savedEntry : Obj
  savedFiletype : FileType

/-- The checks of a filehandle. -/
def checkFh (fh : Fh) : Option Nfsstat4 :=
  if fh.empty then some (.other 10020)
  else if fh.invalid then some (.other 10001)
  else if fh.expired then some (.other 10014)
  else none

/-- `FSAL_DOT` or `FSAL_DOT_DOT`. -/
def isDot (name : Name) : Bool := decide (name = [46] ∨ name = [46, 46])

/-- "get the names from the RPC input", and the checks of the names. -/
def readNames (fsalMaxNameLen : ℕ) (oldname newname : Name) : Except Nfsstat4 (Name × Name) :=
  if fsalMaxNameLen < oldname.length ∨ fsalMaxNameLen < newname.length then .error (.other 63)
  else
    match fsalStr2name fsalMaxNameLen oldname, fsalStr2name fsalMaxNameLen newname with
    | some oldname, some newname =>
      if isDot newname || isDot oldname then .error (.other 10041) else .ok (oldname, newname)
    | _, _ => .error .inval

/-- `nfs4_op_rename` up to the checks that both entries are directories: the names. -/
def checkRename (fsalMaxNameLen : ℕ) (req : Request4 Obj) : Except Nfsstat4 (Name × Name) :=
  if req.oldname = [] ∨ req.newname = [] then .error .inval
  else
    match checkFh req.currentFH, checkFh req.savedFH with
    | some e, _ => .error e
    | none, some e => .error e
    | none, none =>
      if req.currentFH.pseudo then .error (.other 30)
      else
        match req.setExport with
        | some e => .error e.1
        | none =>
          match readNames fsalMaxNameLen req.oldname req.newname with
          | .error e => .error e
          | .ok names =>
            if req.currentFH.exportid ≠ req.savedFH.exportid then .error (.other 18)
            else if req.currentFiletype ≠ .directory then .error (.other 20)
            else if req.savedFiletype ≠ .directory then .error (.other 20)
            else .ok names

section Handlers

variable [DecidableEq Obj] [DecidableEq Handle] (x : Objects Obj Handle) (w : Dirs Obj)
  (f : Faults) (src : Obj) (oldname : Name) (dst : Obj) (newname : Name)

/-- The types of the source and of an existing target do not go together: `NFS4ERR_EXIST`. -/
def renameExists (o o' : Obj) : Bool :=
  decide (x.type o = .directory ∧ x.type o' = .regularFile) ||
    decide (x.type o = .regularFile ∧ x.type o' = .directory) ||
    decide (x.type o' = .directory ∧ (x.type o = .directory ∨ x.type o = .regularFile)) &&
      notEmpty x w o'

/-- `nfs4_op_rename` when there is an object with the new name. -/
def renameExisting (o o' : Obj) : Nfsstat4 :=
  if o = o' then .ok
  else if renameExists x w o o' then .exist
  else
    match f.handleNew, f.handleOld with
    | some e, _ => e.errno
    | none, some e => e.errno
    -- `FSAL_handlecmp` is not 0 for handles that differ
    | none, none => if x.handle o' ≠ x.handle o then .ok else .exist

/-- `nfs4_op_rename` after the checks. -/
def renameChecked : Dirs Obj × Nfsstat4 :=
  if src = dst ∧ oldname = newname then (w, .ok)
  else
    match f.getattr with
    | some e => (w, e.errno)
    | none =>
      match cacheInodeLookup w f.lookupOld src oldname with
      | .error e => (w, e.errno)
      | .ok o =>
        match cacheInodeLookup w f.lookupNew dst newname with
        | .ok o' => (w, renameExisting x w f o o')
        | .error .notFound =>
          let (w', cacheStatus) := cacheInodeRename x w f.rename src oldname dst newname
          (w', nfs4Errno cacheStatus)
        | .error e => (w, e.errno)

def nfs4OpRename (fsalMaxNameLen : ℕ) (req : Request4 Obj) : Dirs Obj × Nfsstat4 :=
  match checkRename fsalMaxNameLen req with
  | .error e => (w, e)
  | .ok (oldname, newname) =>
    renameChecked x w f req.savedEntry oldname req.currentEntry newname

end Handlers

/-! ## NFSv2 and NFSv3 -/

/-- `rq_vers` -/
inductive Version where
  /-- `NFS_V2` -/
  | v2
  /-- `NFS_V3` -/
  | v3

/-- `nfs2_Errno` of an error. -/
def errno2 : CacheError → ℕ
  | .notADirectory => 20
  | .entryExists => 17
  | .dirNotEmpty => 66
  | .notFound => 2
  | .fsalEacces => 13
  | .noSpaceLeft => 28
  | .fsalEperm => 1
  | .isADirectory => 21
  | .readOnlyFs => 30
  | .deadEntry | .fsalEstale => 70
  | .quotaExceeded => 69
  | _ => 5

/-- `nfs3_Errno` of an error. -/
def errno3 : CacheError → ℕ
  | .mallocError | .poolMutexInitError | .getNewLruEntry | .unappropriatedKey | .initEntryFailed
  | .cacheContentExists | .cacheContentEmpty | .insertError | .lruError | .hashSetError
  | .fsalError | .cacheContentError | .ioError => 5
  | .notADirectory => 20
  | .entryExists => 17
  | .dirNotEmpty => 66
  | .notFound => 2
  | .fsalEacces => 13
  | .fsalEperm | .fsalErrSec => 1
  | .noSpaceLeft => 28
  | .isADirectory => 21
  | .readOnlyFs => 30
  | .deadEntry | .fsalEstale => 70
  | .quotaExceeded => 69
  | .badType => 10007
  | .notSupported => 10004
  | .fsalDelay => 10008
  | _ => 22

structure Config where
  fsalMaxNameLen : ℕ
  dropIoErrors : Bool
  dropInvalErrors : Bool

def nfsRetryableError (cfg : Config) : CacheError → Bool
  | .ioError => cfg.dropIoErrors
  | .invalidArgument => cfg.dropInvalErrors
  | .mallocError | .poolMutexInitError | .getNewLruEntry | .unappropriatedKey | .initEntryFailed
  | .fsalError | .lruError | .hashSetError | .inconsistentEntry | .hashTableError | .insertError
  | .fsalDelay => true
  | _ => false

inductive Answer where
  /-- nothing: `NFS_REQ_DROP` -/
  | drop
  | reply (status : ℕ)

/-- What `nfs_FhandleToCache` finds. -/
inductive FromHandle (Obj : Type) where
  /-- no FSAL handle: the request is dropped -/
  | badHandle
  | stale
  | entry (o : Obj)

structure Request3 (Obj : Type) where
  vers : Version
  fromDir : FromHandle Obj
  toDir : FromHandle Obj
  fromName : Name
  toName : Name

/-- The end of `nfs_Rename` after an error. -/
def failed (cfg : Config) (vers : Version) (e : CacheError) : Answer :=
  if nfsRetryableError cfg e then .drop
  else
    match vers with
    | .v2 => .reply (errno2 e)
    | .v3 => .reply (errno3 e)

section Handlers

variable [DecidableEq Obj] (x : Objects Obj Handle) (w : Dirs Obj) (f : Faults) (cfg : Config)
  (vers : Version) (src : Obj) (oldname : Name) (dst : Obj) (newname : Name)

/-- `nfs_Rename` when the new name exists and the types go together. -/
def renameOver : Dirs Obj × Answer :=
  match cacheInodeRemove x w f.remove dst newname with
  | (w, some _) => (w, failed cfg vers .entryExists)
  | (w, none) =>
    match cacheInodeRename x w f.rename src oldname dst newname with
    | (w, some _) => (w, failed cfg vers .entryExists)
    | (w, none) => (w, .reply 0)

/-- `nfs_Rename` when the lookup of the new name does not say `CACHE_INODE_NOT_FOUND`. -/
def renameFound (shouldNotExist : Except CacheError Obj) : Dirs Obj × Answer :=
  if dst = src ∧ newname = oldname then (w, .reply 0)
  else
    match shouldNotExist, cacheInodeLookup w f.lookupOld src oldname with
    | .ok o', .ok o =>
      if typesCompatible x w o o' then renameOver x w f cfg vers src oldname dst newname
      else (w, failed cfg vers .entryExists)
    | _, _ => (w, failed cfg vers .entryExists)

/-- `nfs_Rename` with its directories and names. -/
def renameNames : Dirs Obj × Answer :=
  match cacheInodeLookup w f.lookupNew dst newname with
  | .error .notFound =>
    match cacheInodeLookup w f.lookupOld src oldname with
    | .error e => (w, failed cfg vers e)
    | .ok _ =>
      match cacheInodeRename x w f.rename src oldname dst newname with
      | (w, some e) => (w, failed cfg vers e)
      | (w, none) => (w, .reply 0)
  | shouldNotExist => renameFound x w f cfg vers src oldname dst newname shouldNotExist

def nfsRename (req : Request3 Obj) : Dirs Obj × Answer :=
  match req.fromDir, req.toDir with
  | .badHandle, _ => (w, .drop)
  | .stale, _ => (w, .reply 70)
  | .entry _, .badHandle => (w, .drop)
  | .entry _, .stale => (w, .reply 70)
  | .entry src, .entry dst =>
    if x.type src ≠ .directory ∨ x.type dst ≠ .directory then (w, .reply 20)
    else if req.fromName = [] ∨ req.toName = [] then (w, failed cfg req.vers .invalidArgument)
    else
      match fsalStr2name cfg.fsalMaxNameLen req.fromName,
        fsalStr2name cfg.fsalMaxNameLen req.toName with
      | some oldname, some newname => renameNames x w f cfg req.vers src oldname dst newname
      | _, _ => (w, failed cfg req.vers .invalidArgument)

end Handlers

/-! ## The law -/

/-- Both names designate one object. -/
def SameObject (w : Dirs Obj) (src : Obj) (oldname : Name) (dst : Obj) (newname : Name) : Prop :=
  ∃ o, (w src).lookup oldname = some o ∧ (w dst).lookup newname = some o

/-- The object has its new name and not its old one, and all other names are as before. -/
structure Renamed (w w' : Dirs Obj) (src : Obj) (oldname : Name) (dst : Obj) (newname : Name) :
    Prop where
  /-- the object of the old name has the new one -/
  moved : ∃ o, (w src).lookup oldname = some o ∧ (w' dst).lookup newname = some o
  /-- the old name is gone -/
  gone : (w' src).lookup oldname = none
  others : ∀ dir name, ¬ (dir = src ∧ name = oldname) → ¬ (dir = dst ∧ name = newname) →
    (w' dir).lookup name = (w dir).lookup name

/-- **An answer to RENAME is right**: success when both names designated one object before, or when
the object was renamed; anything else when nothing has changed. -/
def RenameLaw (success : Prop) (w w' : Dirs Obj) (src : Obj) (oldname : Name) (dst : Obj)
    (newname : Name) : Prop :=
  (success → SameObject w src oldname dst newname ∨ Renamed w w' src oldname dst newname) ∧
    (¬ success → w' = w)

/-- The law for a request whose directories are given by handles. -/
def Request3.RenameLaw (req : Request3 Obj) (success : Prop) (w w' : Dirs Obj) : Prop :=
  (success → ∃ src dst, req.fromDir = .entry src ∧ req.toDir = .entry dst ∧
    (SameObject w src (cString req.fromName) dst (cString req.toName) ∨
      Renamed w w' src (cString req.fromName) dst (cString req.toName))) ∧
    (¬ success → w' = w)

section Conditions

variable [DecidableEq Obj] (x : Objects Obj Handle) (w : Dirs Obj) (f : Faults) (src : Obj)
  (oldname : Name) (dst : Obj) (newname : Name)

/-- `nfs4_op_rename` does not come to its test of the handles with an object at the new name that
is another one, and is not asked to rename a name that does not exist to itself. -/
def Nfs4Renames : Prop :=
  if src = dst ∧ oldname = newname then ∃ o, (w src).lookup oldname = some o
  else
    f.getattr = none → f.lookupOld = none → f.lookupNew = none → f.handleNew = none →
      f.handleOld = none → ∀ o o', (w src).lookup oldname = some o →
        (w dst).lookup newname = some o' →
        o = o' ∨ renameExists x w o o' = true ∨ x.handle o' = x.handle o

/-- `nfs_Rename` does not fail to rename after it has removed the target, and is not asked to rename
a name that does not exist to itself, when the lookup cannot tell. -/
def Nfs3Renames : Prop :=
  if src = dst ∧ oldname = newname then
    f.lookupNew ≠ none → ∃ o, (w src).lookup oldname = some o
  else
    f.lookupOld = none → f.lookupNew = none → f.remove = none → ∀ o o',
      (w src).lookup oldname = some o → (w dst).lookup newname = some o' →
        typesCompatible x w o o' = true → f.rename = none

/-- `nfs_Rename` comes to its lookups. -/
structure Passes3 (cfg : Config) (req : Request3 Obj) : Prop where
  fromDir : req.fromDir = .entry src
  toDir : req.toDir = .entry dst
  srcDirectory : x.type src = .directory
  dstDirectory : x.type dst = .directory
  notEmpty : req.fromName ≠ [] ∧ req.toName ≠ []
  /-- nor too long -/
  length : (cString req.fromName).length < cfg.fsalMaxNameLen ∧
    (cString req.toName).length < cfg.fsalMaxNameLen

end Conditions

section

variable [DecidableEq Obj] {x : Objects Obj Handle} {w : Dirs Obj} {f : Faults} {src dst dir : Obj}
  {oldname newname name : Name} {o o' : Obj} {success : Prop}

theorem lookup_unlink : (w.unlink dst newname dir).lookup name =
    if dir = dst ∧ name = newname then none else (w dir).lookup name := by
  rw [Dirs.unlink]
  by_cases hdir : dir = dst
  · subst hdir
    rw [Function.update_self]
    by_cases hname : name = newname
    · subst hname
      rw [Finmap.lookup_erase, if_pos ⟨rfl, rfl⟩]
    · rw [Finmap.lookup_erase_ne hname, if_neg fun h => hname h.2]
  · rw [Function.update_of_ne hdir, if_neg fun h => hdir h.1]

theorem lookup_link : (w.link dst newname o dir).lookup name =
    if dir = dst ∧ name = newname then some o else (w dir).lookup name := by
  rw [Dirs.link]
  by_cases hdir : dir = dst
  · subst hdir
    rw [Function.update_self]
    by_cases hname : name = newname
    · subst hname
      rw [Finmap.lookup_insert, if_pos ⟨rfl, rfl⟩]
    · rw [Finmap.lookup_insert_of_ne _ hname, if_neg fun h => hname h.2]
  · rw [Function.update_of_ne hdir, if_neg fun h => hdir h.1]

theorem renamed_link {w' : Dirs Obj} (hne : ¬ (src = dst ∧ oldname = newname))
    (hold : (w src).lookup oldname = some o)
    (hothers : ∀ dir name, ¬ (dir = dst ∧ name = newname) →
      (w' dir).lookup name = (w dir).lookup name) :
    Renamed w ((w'.unlink src oldname).link dst newname o) src oldname dst newname where
  moved := ⟨o, hold, by rw [lookup_link, if_pos ⟨rfl, rfl⟩]⟩
  gone := by rw [lookup_link, if_neg hne, lookup_unlink, if_pos ⟨rfl, rfl⟩]
  others := fun dir name hsrc hdst => by
    rw [lookup_link, if_neg hdst, lookup_unlink, if_neg hsrc, hothers dir name hdst]

omit [DecidableEq Obj] in
theorem not_renamed_self : ¬ Renamed w w src oldname dst newname := by
  rintro ⟨⟨o, hold, -⟩, hgone, -⟩
  rw [hold] at hgone
  cases hgone

theorem unlink_ne (hnew : (w dst).lookup newname = some o') : w.unlink dst newname ≠ w := by
  intro heq
  have hlookup := congrFun heq dst
  have hnone : (w.unlink dst newname dst).lookup newname = none := by
    rw [lookup_unlink, if_pos ⟨rfl, rfl⟩]
  rw [hlookup, hnew] at hnone
  cases hnone

omit [DecidableEq Obj] in
theorem renameLaw_self :
    RenameLaw success w w src oldname dst newname ↔
      (success → SameObject w src oldname dst newname) := by
  refine ⟨fun h hs => (h.1 hs).resolve_right not_renamed_self, fun h => ⟨fun hs => ?_, ?_⟩⟩
  · exact .inl (h hs)
  · exact fun _ => rfl

omit [DecidableEq Obj] in
theorem cacheInodeLookup_cases (w : Dirs Obj) (fails : Option LookupError) (dir : Obj)
    (name : Name) :
    (∃ e : LookupError, fails = some e ∧ cacheInodeLookup w fails dir name = .error e.1) ∨
      fails = none ∧
        (((w dir).lookup name = none ∧ cacheInodeLookup w fails dir name = .error .notFound) ∨
          ∃ o, (w dir).lookup name = some o ∧ cacheInodeLookup w fails dir name = .ok o) := by
  cases fails with
  | some e => exact .inl ⟨e, rfl, rfl⟩
  | none =>
    refine .inr ⟨rfl, ?_⟩
    rw [cacheInodeLookup]
    cases hlookup : (w dir).lookup name with
    | none => exact .inl ⟨rfl, rfl⟩
    | some o => exact .inr ⟨o, rfl, rfl⟩

/-! ## NFSv4 -/

theorem cacheInodeRename_free {fails : CacheStatus} (hold : (w src).lookup oldname = some o)
    (hnew : (w dst).lookup newname = none) :
    cacheInodeRename x w fails src oldname dst newname =
      if fails = none then ((w.unlink src oldname).link dst newname o, none) else (w, fails) := by
  cases fails with
  | some e => rfl
  | none => simp only [cacheInodeRename, hold, hnew, if_true]

theorem renameExisting_ok [DecidableEq Handle] :
    renameExisting x w f o o' = .ok ↔ o = o' ∨ renameExists x w o o' = false ∧
      f.handleNew = none ∧ f.handleOld = none ∧ x.handle o' ≠ x.handle o := by
  rw [renameExisting]
  by_cases heq : o = o'
  · simp [heq]
  rw [if_neg heq]
  cases hexists : renameExists x w o o' with
  | true => simp [heq]
  | false => cases f.handleNew <;> cases f.handleOld <;> simp [heq]

theorem renameChecked_law [DecidableEq Handle] :
    RenameLaw ((renameChecked x w f src oldname dst newname).2 = .ok) w
        (renameChecked x w f src oldname dst newname).1 src oldname dst newname ↔
      Nfs4Renames x w f src oldname dst newname := by
  rw [renameChecked, Nfs4Renames]
  by_cases hself : src = dst ∧ oldname = newname
  · obtain ⟨rfl, rfl⟩ := hself
    simp only [and_self, if_true, renameLaw_self, forall_const, SameObject]
  rw [if_neg hself, if_neg hself]
  cases hget : f.getattr with
  | some e => simp [renameLaw_self]
  | none =>
    rcases cacheInodeLookup_cases w f.lookupOld src oldname with
      ⟨e, hf, hl⟩ | ⟨hf, ⟨hold, hl⟩ | ⟨o, hold, hl⟩⟩
    · simp only [hl, renameLaw_self]
      exact iff_of_true (fun h => absurd h e.1.errno_ne_ok)
        fun _ h => absurd (hf.symm.trans h) nofun
    · simp only [hl, renameLaw_self]
      exact iff_of_true (fun h => absurd h (CacheError.errno_ne_ok _))
        fun _ _ _ _ _ o o' h => absurd (hold.symm.trans h) nofun
    · simp only [hl]
      rcases cacheInodeLookup_cases w f.lookupNew dst newname with
        ⟨e, hf', hl'⟩ | ⟨hf', ⟨hnew, hl'⟩ | ⟨o', hnew, hl'⟩⟩
      · -- the lookup of the new name fails
        have hfail : ∀ k : Dirs Obj × Nfsstat4, (match Except.error (α := Obj) e.1 with
            | .ok o' => (w, renameExisting x w f o o')
            | .error .notFound => k
            | .error e => (w, e.errno)) = (w, e.1.errno) := by
          intro k
          split
          next h => cases h
          next h => exact absurd (Except.error.inj h) e.2
          next h => rw [Except.error.inj h]
        simp only [hl', hfail, renameLaw_self]
        exact iff_of_true (fun h => absurd h e.1.errno_ne_ok)
          fun _ _ h => absurd (hf'.symm.trans h) nofun
      · -- there is no object with the new name
        simp only [hl', cacheInodeRename_free hold hnew]
        refine iff_of_true ?_ fun _ _ _ _ _ o o' _ h => absurd (hnew.symm.trans h) nofun
        cases hr : f.rename with
        | some e =>
          simp only [reduceCtorEq, if_false, renameLaw_self]
          exact fun h => absurd h e.errno_ne_ok
        | none => exact ⟨fun _ => Or.inr (renamed_link hself hold fun _ _ _ => rfl),
            fun h => absurd rfl h⟩
      · -- there is one, and nothing is renamed
        simp only [hl', renameLaw_self, renameExisting_ok, SameObject]
        constructor
        · intro h _ _ _ hn ho o1 o1' hold' hnew'
          cases hold.symm.trans hold'
          cases hnew.symm.trans hnew'
          by_contra hnone
          rw [not_or, not_or, Bool.not_eq_true] at hnone
          obtain ⟨o2, hold2, hnew2⟩ := h (.inr ⟨hnone.2.1, hn, ho, hnone.2.2⟩)
          cases hold.symm.trans hold2
          exact hnone.1 (Option.some.inj (hnew2.symm.trans hnew))
        · rintro h (rfl | ⟨hexists, hn, ho, hhandle⟩)
          · exact ⟨o, hold, hnew⟩
          · rcases h trivial hf hf' hn ho o o' hold hnew with rfl | h | h
            · exact ⟨o, hold, hnew⟩
            · rw [hexists] at h
              cases h
            · exact absurd h hhandle

omit [DecidableEq Obj] in
theorem checkFh_ne_ok {fh : Fh} {e : Nfsstat4} (h : checkFh fh = some e) : e ≠ .ok := by
  rw [checkFh] at h
  split at h
  · exact Option.some.inj h ▸ nofun
  split at h
  · exact Option.some.inj h ▸ nofun
  · split at h
    · exact Option.some.inj h ▸ nofun
    · cases h

omit [DecidableEq Obj] in
theorem readNames_cases (n : ℕ) (oldname newname : Name) :
    readNames n oldname newname = .ok (cString oldname, cString newname) ∨
      ∃ e, readNames n oldname newname = .error e ∧ e ≠ .ok := by
  rw [readNames]
  split
  · exact .inr ⟨_, rfl, by rintro ⟨⟩⟩
  split
  next o n ho hn =>
    split
    · exact .inr ⟨_, rfl, by rintro ⟨⟩⟩
    · rw [fsalStr2name] at ho hn
      split at ho <;> split at hn <;> grind
  · exact .inr ⟨_, rfl, by rintro ⟨⟩⟩

omit [DecidableEq Obj] in
theorem checkRename_cases (n : ℕ) (req : Request4 Obj) :
    checkRename n req = .ok (cString req.oldname, cString req.newname) ∨
      ∃ e, checkRename n req = .error e ∧ e ≠ .ok := by
  rw [checkRename]
  split
  · exact .inr ⟨_, rfl, by rintro ⟨⟩⟩
  cases hcurrent : checkFh req.currentFH with
  | some e => exact .inr ⟨e, rfl, checkFh_ne_ok hcurrent⟩
  | none =>
    cases hsaved : checkFh req.savedFH with
    | some e => exact .inr ⟨e, rfl, checkFh_ne_ok hsaved⟩
    | none =>
      dsimp only
      split
      · exact .inr ⟨_, rfl, by rintro ⟨⟩⟩
      cases req.setExport with
      | some e => exact .inr ⟨e.1, rfl, e.2⟩
      | none =>
        rcases readNames_cases n req.oldname req.newname with h | ⟨e, h, he⟩
        · rw [h]
          dsimp only
          split
          · exact .inr ⟨_, rfl, by rintro ⟨⟩⟩
          split
          · exact .inr ⟨_, rfl, by rintro ⟨⟩⟩
          · split
            · exact .inr ⟨_, rfl, by rintro ⟨⟩⟩
            · exact .inl rfl
        · exact .inr ⟨e, by rw [h], he⟩

theorem nfs4OpRename_law [DecidableEq Handle] {n : ℕ} {req : Request4 Obj} :
    RenameLaw ((nfs4OpRename x w f n req).2 = .ok) w (nfs4OpRename x w f n req).1
        req.savedEntry (cString req.oldname) req.currentEntry (cString req.newname) ↔
      ((∃ names, checkRename n req = .ok names) →
        Nfs4Renames x w f req.savedEntry (cString req.oldname) req.currentEntry
          (cString req.newname)) := by
  rw [nfs4OpRename]
  rcases checkRename_cases n req with h | ⟨e, h, he⟩
  · simp only [h, renameChecked_law]
    exact ⟨fun hlaw _ => hlaw, fun hlaw => hlaw ⟨_, rfl⟩⟩
  · simp only [h, renameLaw_self]
    exact iff_of_true (fun hok => absurd hok he) fun ⟨_, hok⟩ => nomatch hok

/-! ## NFSv2 and NFSv3 -/

omit [DecidableEq Obj] in
theorem errno2_ne_zero (e : CacheError) : errno2 e ≠ 0 := by
  cases e <;> nofun

omit [DecidableEq Obj] in
theorem errno3_ne_zero (e : CacheError) : errno3 e ≠ 0 := by
  cases e <;> nofun

omit [DecidableEq Obj] in
theorem failed_ne_ok (cfg : Config) (vers : Version) (e : CacheError) :
    failed cfg vers e ≠ .reply 0 := by
  unfold failed
  split
  · nofun
  · cases vers with
    | v2 => exact fun h => errno2_ne_zero e (Answer.reply.inj h)
    | v3 => exact fun h => errno3_ne_zero e (Answer.reply.inj h)

omit [DecidableEq Obj] in
theorem not_notEmpty_of_typesCompatible (h : typesCompatible x w o o' = true) :
    notEmpty x w o' = false := by
  rw [typesCompatible] at h
  split at h
  · split at h
    · simpa using h
    · cases h
  · rw [decide_eq_true_eq] at h
    simp [notEmpty, h]

variable {cfg : Config} {vers : Version}

theorem renameOver_law (hne : ¬ (src = dst ∧ oldname = newname))
    (hold : (w src).lookup oldname = some o) (hnew : (w dst).lookup newname = some o')
    (hcompatible : typesCompatible x w o o' = true) :
    RenameLaw ((renameOver x w f cfg vers src oldname dst newname).2 = .reply 0) w
        (renameOver x w f cfg vers src oldname dst newname).1 src oldname dst newname ↔
      (f.remove = none → f.rename = none) := by
  have hremove : cacheInodeRemove x w f.remove dst newname =
      if f.remove = none then (w.unlink dst newname, none) else (w, f.remove) := by
    cases hf : f.remove with
    | some e => rfl
    | none =>
      simp only [cacheInodeRemove, hnew, not_notEmpty_of_typesCompatible hcompatible,
        Bool.false_eq_true, if_false, if_true]
  have hold' : (w.unlink dst newname src).lookup oldname = some o := by
    rw [lookup_unlink, if_neg hne, hold]
  have hnew' : (w.unlink dst newname dst).lookup newname = none := by
    rw [lookup_unlink, if_pos ⟨rfl, rfl⟩]
  rw [renameOver, hremove]
  cases hf : f.remove with
  | some e =>
    simp only [reduceCtorEq, if_false, renameLaw_self, false_imp_iff, iff_true]
    exact fun h => absurd h (failed_ne_ok _ _ _)
  | none =>
    simp only [if_true, cacheInodeRename_free hold' hnew', forall_const]
    cases hr : f.rename with
    | some e =>
      simp only [reduceCtorEq, if_false, iff_false]
      exact fun h => unlink_ne hnew (h.2 (failed_ne_ok _ _ _))
    | none =>
      simp only [if_true, iff_true]
      refine ⟨fun _ => Or.inr (renamed_link hne hold fun dir name hother => ?_), fun h => ?_⟩
      · rw [lookup_unlink, if_neg hother]
      · exact absurd trivial h

theorem renameFound_law (hlooked : cacheInodeLookup w f.lookupNew dst newname ≠ .error .notFound) :
    RenameLaw ((renameFound x w f cfg vers src oldname dst newname
          (cacheInodeLookup w f.lookupNew dst newname)).2 = .reply 0) w
        (renameFound x w f cfg vers src oldname dst newname
          (cacheInodeLookup w f.lookupNew dst newname)).1 src oldname dst newname ↔
      Nfs3Renames x w f src oldname dst newname := by
  unfold renameFound
  rw [Nfs3Renames]
  by_cases hself : src = dst ∧ oldname = newname
  · obtain ⟨rfl, rfl⟩ := hself
    simp only [and_self, if_true, renameLaw_self, forall_const, SameObject]
    refine ⟨fun h _ => h, fun h => ?_⟩
    rcases cacheInodeLookup_cases w f.lookupNew src oldname with
      ⟨e, hf, -⟩ | ⟨hf, ⟨hnone, hl⟩ | ⟨o, hold, -⟩⟩
    · exact h (hf ▸ nofun)
    · exact absurd hl hlooked
    · exact ⟨o, hold⟩
  rw [if_neg hself, if_neg fun h => hself ⟨h.1.symm, h.2.symm⟩]
  have hfails : ∀ P : Prop, P → (RenameLaw (failed cfg vers .entryExists = .reply 0) w w src
      oldname dst newname ↔ P) := fun P hP => by
    rw [renameLaw_self]
    exact iff_of_true (fun h => absurd h (failed_ne_ok _ _ _)) hP
  rcases cacheInodeLookup_cases w f.lookupNew dst newname with
    ⟨e, hf', hl'⟩ | ⟨hf', ⟨hnew, hl'⟩ | ⟨o', hnew, hl'⟩⟩
  · simp only [hl']
    exact hfails _ fun _ h => absurd (hf'.symm.trans h) nofun
  · exact absurd hl' hlooked
  · rcases cacheInodeLookup_cases w f.lookupOld src oldname with
      ⟨e, hf, hl⟩ | ⟨hf, ⟨hold, hl⟩ | ⟨o, hold, hl⟩⟩
    · simp only [hl', hl]
      exact hfails _ fun h => absurd (hf.symm.trans h) nofun
    · simp only [hl', hl]
      exact hfails _ fun _ _ _ o o' h => absurd (hold.symm.trans h) nofun
    · rw [hl', hl]
      dsimp only
      by_cases hcompatible : typesCompatible x w o o' = true
      · rw [if_pos hcompatible, renameOver_law hself hold hnew hcompatible]
        refine ⟨fun h _ _ hremove _ _ _ _ _ => h hremove, fun h hremove => ?_⟩
        exact h hf hf' hremove o o' hold hnew hcompatible
      rw [if_neg hcompatible]
      refine hfails _ fun _ _ _ o1 o1' hold' hnew' hcompatible' => ?_
      cases hold.symm.trans hold'
      cases hnew.symm.trans hnew'
      exact absurd hcompatible' hcompatible

theorem renameNames_law :
    RenameLaw ((renameNames x w f cfg vers src oldname dst newname).2 = .reply 0) w
        (renameNames x w f cfg vers src oldname dst newname).1 src oldname dst newname ↔
      Nfs3Renames x w f src oldname dst newname := by
  by_cases hlooked : cacheInodeLookup w f.lookupNew dst newname = .error .notFound
  · -- there is no object with the new name
    obtain ⟨hf', hnew⟩ : f.lookupNew = none ∧ (w dst).lookup newname = none := by
      rcases cacheInodeLookup_cases w f.lookupNew dst newname with
        ⟨e, -, hl'⟩ | ⟨hf', ⟨hnew, -⟩ | ⟨o', -, hl'⟩⟩
      · exact absurd (Except.error.inj (hl'.symm.trans hlooked)) e.2
      · exact ⟨hf', hnew⟩
      · exact absurd (hl'.symm.trans hlooked) nofun
    have hlaw : Nfs3Renames x w f src oldname dst newname := by
      rw [Nfs3Renames]
      split
      · exact fun hne => absurd hf' hne
      · exact fun _ _ _ o o' _ h => absurd (hnew.symm.trans h) nofun
    refine iff_of_true ?_ hlaw
    unfold renameNames
    rw [hlooked]
    dsimp only
    rcases cacheInodeLookup_cases w f.lookupOld src oldname with
      ⟨e, -, hl⟩ | ⟨-, ⟨hold, hl⟩ | ⟨o, hold, hl⟩⟩
    · simp only [hl, renameLaw_self]
      exact fun h => absurd h (failed_ne_ok _ _ _)
    · simp only [hl, renameLaw_self]
      exact fun h => absurd h (failed_ne_ok _ _ _)
    · have hself : ¬ (src = dst ∧ oldname = newname) := by
        rintro ⟨rfl, rfl⟩
        exact absurd (hold.symm.trans hnew) nofun
      simp only [hl, cacheInodeRename_free hold hnew]
      cases hr : f.rename with
      | some e =>
        simp only [reduceCtorEq, if_false, renameLaw_self]
        exact fun h => absurd h (failed_ne_ok _ _ _)
      | none => exact ⟨fun _ => Or.inr (renamed_link hself hold fun _ _ _ => rfl),
          fun h => absurd rfl h⟩
  · have hfound : renameNames x w f cfg vers src oldname dst newname =
        renameFound x w f cfg vers src oldname dst newname
          (cacheInodeLookup w f.lookupNew dst newname) := by
      unfold renameNames
      split
      next h => exact absurd h hlooked
      · rfl
    rw [hfound]
    exact renameFound_law hlooked

omit [DecidableEq Obj] in
theorem renameLaw_of_entries {req : Request3 Obj} {w' : Dirs Obj} (hfrom : req.fromDir = .entry src)
    (hto : req.toDir = .entry dst) : req.RenameLaw success w w' ↔
      RenameLaw success w w' src (cString req.fromName) dst (cString req.toName) := by
  refine and_congr (imp_congr Iff.rfl ⟨?_, fun h => ⟨src, dst, hfrom, hto, h⟩⟩) Iff.rfl
  rintro ⟨src', dst', hfrom', hto', h⟩
  obtain rfl := FromHandle.entry.inj (hfrom'.symm.trans hfrom)
  obtain rfl := FromHandle.entry.inj (hto'.symm.trans hto)
  exact h

theorem nfsRename_law {req : Request3 Obj} :
    req.RenameLaw ((nfsRename x w f cfg req).2 = .reply 0) w (nfsRename x w f cfg req).1 ↔
      ∀ src dst, Passes3 x src dst cfg req →
        Nfs3Renames x w f src (cString req.fromName) dst (cString req.toName) := by
  have hunchanged : ∀ a : Answer, a ≠ .reply 0 → nfsRename x w f cfg req = (w, a) →
      (∀ src dst, ¬ Passes3 x src dst cfg req) →
      (req.RenameLaw ((nfsRename x w f cfg req).2 = .reply 0) w (nfsRename x w f cfg req).1 ↔
        ∀ src dst, Passes3 x src dst cfg req →
          Nfs3Renames x w f src (cString req.fromName) dst (cString req.toName)) := by
    intro a ha heq hpasses
    rw [heq]
    refine iff_of_true ⟨fun h => absurd h ha, fun _ => rfl⟩ fun src dst h => ?_
    exact absurd h (hpasses src dst)
  cases hfrom : req.fromDir with
  | badHandle =>
    refine hunchanged .drop nofun ?_ fun src dst h => nomatch hfrom.symm.trans h.fromDir
    simp only [nfsRename, hfrom]
  | stale =>
    refine hunchanged (.reply 70) nofun ?_ fun src dst h => nomatch hfrom.symm.trans h.fromDir
    simp only [nfsRename, hfrom]
  | entry src =>
    cases hto : req.toDir with
    | badHandle =>
      refine hunchanged .drop nofun ?_ fun src dst h => nomatch hto.symm.trans h.toDir
      simp only [nfsRename, hfrom, hto]
    | stale =>
      refine hunchanged (.reply 70) nofun ?_ fun src dst h => nomatch hto.symm.trans h.toDir
      simp only [nfsRename, hfrom, hto]
    | entry dst =>
      have hpasses : ∀ src' dst', Passes3 x src' dst' cfg req → src' = src ∧ dst' = dst :=
        fun src' dst' h => ⟨FromHandle.entry.inj (h.fromDir.symm.trans hfrom),
          FromHandle.entry.inj (h.toDir.symm.trans hto)⟩
      by_cases hdir : x.type src ≠ .directory ∨ x.type dst ≠ .directory
      · refine hunchanged (.reply 20) nofun ?_ fun src' dst' h => ?_
        · simp only [nfsRename, hfrom, hto, if_pos hdir]
        · obtain ⟨rfl, rfl⟩ := hpasses src' dst' h
          exact hdir.elim (fun hne => hne h.srcDirectory) fun hne => hne h.dstDirectory
      by_cases hempty : req.fromName = [] ∨ req.toName = []
      · refine hunchanged _ (failed_ne_ok cfg req.vers .invalidArgument) ?_ fun src' dst' h => ?_
        · simp only [nfsRename, hfrom, hto, if_neg hdir, if_pos hempty]
        · exact hempty.elim (fun he => h.notEmpty.1 he) fun he => h.notEmpty.2 he
      by_cases hlen : (cString req.fromName).length < cfg.fsalMaxNameLen ∧
        (cString req.toName).length < cfg.fsalMaxNameLen
      · -- the request comes to its lookups
        have hrun : nfsRename x w f cfg req = renameNames x w f cfg req.vers src
            (cString req.fromName) dst (cString req.toName) := by
          simp only [nfsRename, hfrom, hto, if_neg hdir, if_neg hempty, fsalStr2name,
            if_neg (Nat.not_le.mpr hlen.1), if_neg (Nat.not_le.mpr hlen.2)]
        rw [not_or, not_not, not_not] at hdir
        rw [not_or] at hempty
        rw [hrun, renameLaw_of_entries hfrom hto, renameNames_law]
        refine ⟨fun h src' dst' hp => ?_, fun h => h src dst ⟨hfrom, hto, hdir.1, hdir.2,
          hempty, hlen⟩⟩
        obtain ⟨rfl, rfl⟩ := hpasses src' dst' hp
        exact h
      · refine hunchanged _ (failed_ne_ok cfg req.vers .invalidArgument) ?_ fun _ _ h =>
          hlen h.length
        simp only [nfsRename, hfrom, hto, if_neg hdir, if_neg hempty]
        split
        next o n ho hn =>
          refine absurd ?_ hlen
          rw [fsalStr2name] at ho hn
          split at ho
          · cases ho
          · split at hn
            · cases hn
            · exact ⟨by omega, by omega⟩
        · rfl

/-- **When RENAME is answered rightly.** `nfs4_op_rename` is right exactly when it does not find
another object at the new name that passes its checks, and `nfs_Rename` exactly when the rename
that follows the removal of the target does not fail; both also when they are asked to rename a name
to itself, except when there is no such name and they answer success before they know. -/
theorem renameLaw_iff [DecidableEq Handle] (x : Objects Obj Handle) (w : Dirs Obj) (f : Faults)
    (cfg : Config) :
    (∀ req : Request4 Obj,
      RenameLaw ((nfs4OpRename x w f cfg.fsalMaxNameLen req).2 = .ok) w
          (nfs4OpRename x w f cfg.fsalMaxNameLen req).1 req.savedEntry (cString req.oldname)
          req.currentEntry (cString req.newname) ↔
        ((∃ names, checkRename cfg.fsalMaxNameLen req = .ok names) →
          Nfs4Renames x w f req.savedEntry (cString req.oldname) req.currentEntry
            (cString req.newname))) ∧
    ∀ req : Request3 Obj,
      req.RenameLaw ((nfsRename x w f cfg req).2 = .reply 0) w (nfsRename x w f cfg req).1 ↔
        ∀ src dst, Passes3 x src dst cfg req →
          Nfs3Renames x w f src (cString req.fromName) dst (cString req.toName) :=
  ⟨fun _ => nfs4OpRename_law, fun _ => nfsRename_law⟩

end

/-! ## A file over a file -/

/-- The object 0 is a directory with the files 1 and 2, whose names are `a` and `b`. -/
def twoFiles : Dirs ℕ := fun o =>
  if o = 0 then ((∅ : Directory ℕ).insert [97] 1).insert [98] 2 else ∅

/-- Everything but the object 0 is a regular file. -/
def fileObjects : Objects ℕ ℕ := ⟨fun o => if o = 0 then .directory else .regularFile, id⟩

def noFaults : Faults := ⟨none, none, none, none, none, none, none⟩

/-- RENAME of `a` to `b`. -/
def renameOnto : Request4 ℕ :=
  ⟨[97], [98], ⟨false, false, false, false, 1⟩, ⟨false, false, false, false, 1⟩, none,
    0, .directory, 0, .directory⟩

/-- `nfs4_op_rename` answers `NFS4_OK`, and `a` and `b` are what they were. -/
theorem renameOnto_ok :
    nfs4OpRename fileObjects twoFiles noFaults 255 renameOnto = (twoFiles, .ok) ∧
      (twoFiles 0).lookup [97] = some 1 ∧ (twoFiles 0).lookup [98] = some 2 ∧
      ¬ RenameLaw True twoFiles twoFiles 0 [97] 0 [98] := by
  have hnew : (twoFiles 0).lookup [98] = some 2 := Finmap.lookup_insert _
  have hold : (twoFiles 0).lookup [97] = some 1 :=
    (Finmap.lookup_insert_of_ne _ (by decide)).trans (Finmap.lookup_insert _)
  refine ⟨?_, hold, hnew, ?_⟩
  · have hcheck : checkRename 255 renameOnto = .ok ([97], [98]) := by
      simp [checkRename, checkFh, renameOnto, readNames, fsalStr2name, cString, isDot]
    rw [nfs4OpRename, hcheck]
    simp only [renameChecked, renameOnto, noFaults, cacheInodeLookup, hold, hnew]
    rfl
  · rw [renameLaw_self]
    intro h
    obtain ⟨o, hold', hnew'⟩ := h trivial
    cases hold.symm.trans hold'
    exact absurd (hnew.symm.trans hnew') (by decide)

end CloudNfs.RenameAnswer
