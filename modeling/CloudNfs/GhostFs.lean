import CloudNfs.GhostDir
import CloudNfs.RootedTree
import CloudNfs.Run
import Mathlib.Algebra.BigOperators.Group.Finset.Basic

/-!
# The ghost file system (`FSAL_GHOST_FS/GHOST_FS/ghost_fs.c`)

A file system in memory. An item is a directory, a file or a symbolic link; a handle is its address
with a magic number. The state gives the items field by field.

* Allocations do not fail, and an address is not used again. What `mk_magic` gives is part of a
  call.
* Attributes and the contents of links are left out: no operation here looks at them.
* A call that waits for a lock which it holds itself does not return; it is answered with `blocked`
  here.
* To look at the memory of an item that was freed is undefined. When the magic number of the handle
  is still there, which freeing does not clear, the code goes on with the item, and the call has no
  next state here; otherwise the handle is stale.

GHOSTFS_Rename has no test for a directory that is moved below itself, and does not test the old
name (`Safe`).
-/

namespace CloudNfs.GhostFs

open Function (update)

/-- `GHOSTFS_typeitem_t` -/
inductive ItemType where
  | dir
  | file
  | lnk
  deriving DecidableEq

structure Fs where
  /-- the address of `p_root` -/
  root : ℕ
  /-- the type and the magic number of each item that is not freed -/
  live : ℕ → Option (ItemType × UInt32)
  linkcount : ℕ → UInt32
  dir : ℕ → Dir
  /-- the address of the next item -/
  fresh : ℕ
  /-- the address of the next entry -/
  freshDirent : ℕ

inductive Rc where
  /-- `ERR_GHOSTFS_NO_ERROR`, with the handle of a new item -/
  | noError (handle : Option Handle)
  | args
  | stale
  | notdir
  | isdir
  | exist
  | noent
  | notempty
  | internal
  /-- it does not return -/
  | blocked

/-- The call returns, and has failed. -/
def Rc.Fails : Rc → Prop
  | .noError _ | .blocked => False
  | _ => True

/-! ## The code -/

namespace Fs

variable (s : Fs)

/-- `GetEntry_From_Handle`, which gives the type here. -/
def getEntry (handle : Handle) : Option ItemType :=
  if handle.inode = 0 then none
  else
    match s.live handle.inode with
    | none => none
    | some (type, magic) => if magic = handle.magic then some type else none

/-- `create_new_ghostfs_entry` -/
def createNew (type : ItemType) (magic : UInt32) : Fs :=
  { s with
    live := update s.live s.fresh (some (type, magic))
    linkcount := update s.linkcount s.fresh 0
    dir := update s.dir s.fresh ⟨[], none⟩
    fresh := s.fresh + 1 }

def addDirEntry (a : ℕ) (handle : Handle) (name : Name) : Fs :=
  { s with
    dir := update s.dir a ((s.dir a).add s.freshDirent handle name)
    freshDirent := s.freshDirent + 1 }

def setDir (a : ℕ) (d : Dir) : Fs := { s with dir := update s.dir a d }

/-- `linkcount++` -/
def incLink (a : ℕ) : Fs :=
  { s with linkcount := update s.linkcount a (s.linkcount a + 1) }

/-- `linkcount--` -/
def decLink (a : ℕ) : Fs :=
  { s with linkcount := update s.linkcount a (s.linkcount a - 1) }

def free (a : ℕ) : Fs :=
  { s with live := update s.live a none, dir := update s.dir a ⟨[], none⟩ }

/-- `GHOSTFS_Init`, where `dotDotRoot` is `dot_dot_root_eq_root`. -/
def init (magic : UInt32) (dotDotRoot : Bool) : Fs :=
  let s : Fs := ⟨1, fun _ => none, fun _ => 0, fun _ => ⟨[], none⟩, 1, 0⟩
  let s := (((s.createNew .dir magic).addDirEntry 1 ⟨1, magic⟩ dot).incLink 1)
  if dotDotRoot then (s.addDirEntry 1 ⟨1, magic⟩ dotDot).incLink 1 else s

/-- The checks that MkDir, Create, Link and Symlink begin with. -/
def inParent (parent : Handle) (name : Name) (k : Fs × Rc) : Fs × Rc :=
  if !isNameOk name then (s, .args)
  else
    match s.getEntry parent with
    | none => (s, .stale)
    | some type =>
      if type ≠ .dir then (s, .notdir)
      else if ((s.dir parent.inode).find name).isSome then (s, .exist)
      else k

/-- `GHOSTFS_MkDir` -/
def mkDir (parent : Handle) (name : Name) (magic : UInt32) : Fs × Rc :=
  s.inParent parent name <|
    let a := s.fresh
    let handle : Handle := ⟨a, magic⟩
    let s := ((s.createNew .dir magic).addDirEntry a handle dot).incLink a
    let s := (s.addDirEntry a parent dotDot).incLink parent.inode
    ((s.addDirEntry parent.inode handle name).incLink a, .noError (some handle))

def createLeaf (type : ItemType) (parent : Handle) (name : Name) (magic : UInt32) : Fs × Rc :=
  s.inParent parent name <|
    let a := s.fresh
    let handle : Handle := ⟨a, magic⟩
    (((s.createNew type magic).addDirEntry parent.inode handle name).incLink a,
      .noError (some handle))

/-- `GHOSTFS_Create` -/
def create (parent : Handle) (name : Name) (magic : UInt32) : Fs × Rc :=
  s.createLeaf .file parent name magic

/-- `GHOSTFS_Symlink` -/
def symlink (parent : Handle) (name : Name) (magic : UInt32) : Fs × Rc :=
  s.createLeaf .lnk parent name magic

/-- `GHOSTFS_Link` -/
def link (parent : Handle) (name : Name) (target : Handle) : Fs × Rc :=
  s.inParent parent name <|
    match s.getEntry target with
    | none => (s, .stale)
    | some type =>
      if type = .dir then (s, .isdir)
      else ((s.addDirEntry parent.inode target name).incLink target.inode, .noError none)

/-- An object is removed from a directory, in Unlink and in Rename: a directory is freed, and a file
or link when it has no other entry. -/
def removeObject (parent : ℕ) (name : Name) (object : ℕ) (type : ItemType) : Fs × Option Rc :=
  match (s.dir parent).remove name with
  | none => (s, some .noent)
  | some d =>
    let s := s.setDir parent d
    if type = .dir then ((s.decLink parent).free object, none)
    else
      let s := s.decLink object
      (if s.linkcount object = 0 then s.free object else s, none)

/-- `GHOSTFS_Unlink` -/
def unlink (parent : Handle) (name : Name) : Fs × Rc :=
  if !isNameOk name then (s, .args)
  else
    match s.getEntry parent with
    | none => (s, .stale)
    | some type =>
      if type ≠ .dir then (s, .notdir)
      else
        match (s.dir parent.inode).find name with
        | none => (s, .noent)
        | some handle =>
          match s.getEntry handle with
          | none => (s, .stale)
          | some type =>
            if handle.inode = parent.inode then (s, .blocked)
            else if type = .dir ∧ (s.dir handle.inode).isEmpty = false then (s, .notempty)
            else
              match s.removeObject parent.inode name handle.inode type with
              | (s, some rc) => (s, rc)
              | (s, none) => (s, .noError none)

/-- Step 4 of `GHOSTFS_Rename`: the target, if it exists, is removed if it is compatible. -/
def removeTarget (src tgt : Handle) (tgtName : Name) (type : ItemType) : Fs × Option Rc :=
  match (s.dir tgt.inode).find tgtName with
  | none => (s, none)
  | some handle =>
    match s.getEntry handle with
    | none => (s, some .stale)
    | some type2 =>
      if handle.inode = src.inode ∨ handle.inode = tgt.inode then (s, some .blocked)
      else if type = .dir ∧ type2 = .dir then
        if (s.dir handle.inode).isEmpty then s.removeObject tgt.inode tgtName handle.inode type2
        else (s, some .notempty)
      else if type ≠ .dir ∧ type2 ≠ .dir then s.removeObject tgt.inode tgtName handle.inode type2
      else (s, some .exist)

def renameHere (src : Handle) (srcName tgtName : Name) : Fs × Rc :=
  match (s.dir src.inode).rename srcName tgtName with
  | none => (s, .internal)
  | some d => (s.setDir src.inode d, .noError none)

def moveDir (src tgt : Handle) (srcName tgtName : Name) (object : Handle) : Fs × Rc :=
  if object.inode = src.inode ∨ object.inode = tgt.inode then (s, .blocked)
  else
    match (s.dir src.inode).remove srcName with
    | none => (s, .internal)
    | some d =>
      let s := s.setDir src.inode d
      match (s.dir object.inode).changeHandle dotDot tgt with
      | none => (s, .internal)
      | some d =>
        let s := ((s.setDir object.inode d).decLink src.inode).incLink tgt.inode
        (s.addDirEntry tgt.inode object tgtName, .noError none)

def moveFile (src tgt : Handle) (srcName tgtName : Name) (object : Handle) : Fs × Rc :=
  match (s.dir src.inode).remove srcName with
  | none => (s, .internal)
  | some d => ((s.setDir src.inode d).addDirEntry tgt.inode object tgtName, .noError none)

/-- The end of `GHOSTFS_Rename`, when there is no target any more. -/
def move (src tgt : Handle) (srcName tgtName : Name) (object : Handle) (type : ItemType) :
    Fs × Rc :=
  if src = tgt then s.renameHere src srcName tgtName
  else if type = .dir then s.moveDir src tgt srcName tgtName object
  else s.moveFile src tgt srcName tgtName object

/-- Step 3 of `GHOSTFS_Rename` takes the source for the target: it compares the magic number of the
target with that of the target **directory**. Without a target, `tmphandle` is not initialised. -/
def takenForSame (tgt : Handle) (tgtName : Name) (object tmphandle : Handle) : Bool :=
  let target := ((s.dir tgt.inode).find tgtName).getD tmphandle
  decide (object.inode = target.inode) && decide (target.magic = tgt.magic)

/-- `GHOSTFS_Rename` -/
def rename (src tgt : Handle) (srcName tgtName : Name) (tmphandle : Handle) : Fs × Rc :=
  if !isNameOk tgtName then (s, .args)
  else
    match s.getEntry src, s.getEntry tgt with
    | some type1, some type2 =>
      if type1 ≠ .dir ∨ type2 ≠ .dir then (s, .notdir)
      else
        match (s.dir src.inode).find srcName with
        | none => (s, .noent)
        | some object =>
          match s.getEntry object with
          | none => (s, .stale)
          | some type =>
            if s.takenForSame tgt tgtName object tmphandle then (s, .noError none)
            else
              match s.removeTarget src tgt tgtName type with
              | (s, some rc) => (s, rc)
              | (s, none) => s.move src tgt srcName tgtName object type
    | _, _ => (s, .stale)

end Fs

inductive Call where
  | mkDir (parent : Handle) (name : Name) (magic : UInt32)
  | create (parent : Handle) (name : Name) (magic : UInt32)
  | link (parent : Handle) (name : Name) (target : Handle)
  | symlink (parent : Handle) (name : Name) (magic : UInt32)
  | unlink (parent : Handle) (name : Name)
  | rename (src tgt : Handle) (srcName tgtName : Name) (tmphandle : Handle)

def Fs.run (s : Fs) : Call → Fs × Rc
  | .mkDir parent name magic => s.mkDir parent name magic
  | .create parent name magic => s.create parent name magic
  | .link parent name target => s.link parent name target
  | .symlink parent name magic => s.symlink parent name magic
  | .unlink parent name => s.unlink parent name
  | .rename src tgt srcName tgtName tmphandle => s.rename src tgt srcName tgtName tmphandle

/-- The handles that a call gives to `GetEntry_From_Handle`. -/
def Fs.looksAt (s : Fs) : Call → List Handle
  | .mkDir parent name _ | .create parent name _ | .symlink parent name _ =>
    if isNameOk name then [parent] else []
  | .link parent name target =>
    if !isNameOk name then []
    else if s.getEntry parent = some .dir ∧ (s.dir parent.inode).find name = none then
      [parent, target]
    else [parent]
  | .unlink parent name =>
    if !isNameOk name then []
    else if s.getEntry parent = some .dir then
      parent :: ((s.dir parent.inode).find name).toList
    else [parent]
  | .rename src tgt srcName tgtName tmphandle =>
    if !isNameOk tgtName then []
    else if s.getEntry src = some .dir ∧ s.getEntry tgt = some .dir then
      match (s.dir src.inode).find srcName with
      | none => [src, tgt]
      | some object =>
        if (s.getEntry object).isNone || s.takenForSame tgt tgtName object tmphandle then
          [src, tgt, object]
        else src :: tgt :: object :: ((s.dir tgt.inode).find tgtName).toList
    else [src, tgt]

/-- A call does not take memory for an item. It comes with the handles whose magic number is found
in memory that was freed or never allocated. -/
def Fs.Defined (s : Fs) (a : Call × (Handle → Bool)) : Prop :=
  ∀ h ∈ s.looksAt a.1, h.inode ≠ 0 → s.live h.inode = none → a.2 h = false

instance (s : Fs) (a : Call × (Handle → Bool)) : Decidable (s.Defined a) :=
  inferInstanceAs (Decidable (∀ h ∈ s.looksAt a.1, _))

/-- A step: a call, which has no next state when it takes memory for an item. -/
def step (s : Fs) (a : Call × (Handle → Bool)) : Option Fs :=
  if s.Defined a then some (s.run a.1).1 else none

/-! ## The contract -/

namespace Fs

variable (s : Fs)

def entries (d : ℕ) : List Dirent := (s.dir d).direntries

def IsDir (a : ℕ) : Prop := ∃ magic, s.live a = some (.dir, magic)

/-- The directory has an entry with the name for the item. -/
def Entry (d : ℕ) (name : Name) (a : ℕ) : Prop :=
  ∃ e ∈ s.entries d, e.name = name ∧ e.handle.inode = a

/-- The directory `d` is found in the directory `p` by a name other than `.` and `..`. -/
def Child (p : ℕ) (name : Name) (d : ℕ) : Prop :=
  (s.Entry p name d ∧ s.IsDir d) ∧ name ≠ dot ∧ name ≠ dotDot

/-- The directory `p` is the parent of `d`; the root is its own. -/
def Parent (d p : ℕ) : Prop := (∃ name, s.Child p name d) ∨ d = s.root ∧ p = s.root

/-- The number of entries that designate an item. -/
def links (a : ℕ) : ℕ :=
  ∑ d ∈ Finset.range s.fresh, (s.entries d).countP fun e => e.handle.inode = a

end Fs

/-- **The file system is a tree.** -/
structure IsTree (s : Fs) : Prop where
  /-- the names in a directory are distinct -/
  names : ∀ d, s.IsDir d → ((s.entries d).map (·.name)).Nodup
  /-- an entry designates a live item -/
  designates : ∀ d, s.IsDir d → ∀ e ∈ s.entries d, (s.getEntry e.handle).isSome
  /-- `.` is the directory -/
  dot : ∀ d, s.IsDir d → s.Entry d dot d
  /-- there is a `..`, unless in the root -/
  dotDot : ∀ d, s.IsDir d → d ≠ s.root → ∃ a, s.Entry d dotDot a
  parent : ∀ d a, s.IsDir d → s.Entry d GhostFs.dotDot a → s.Parent d a
  /-- a directory is reached from the root by one path -/
  reached : ∀ d, s.IsDir d → ∃! names, Path s.Child s.root names d
  /-- the link count of a file or symbolic link -/
  linkcount : ∀ a type magic, s.live a = some (type, magic) → type ≠ .dir →
    (s.linkcount a).toNat = s.links a
  /-- `lastentry` is the last element -/
  last : ∀ d, s.IsDir d → (s.dir d).lastentry = (s.entries d).getLast?.map (·.id)

/-- Rename comes to the move of an object. -/
structure Moves (s : Fs) (src tgt : Handle) (srcName tgtName : Name) (tmphandle object : Handle)
    (type : ItemType) : Prop where
  nameOk : isNameOk tgtName = true
  srcDir : s.getEntry src = some .dir
  tgtDir : s.getEntry tgt = some .dir
  found : (s.dir src.inode).find srcName = some object
  live : s.getEntry object = some type
  /-- step 3 does not take it for the target -/
  notSame : s.takenForSame tgt tgtName object tmphandle = false
  /-- a target that exists is compatible, and not one of the two directories -/
  compatible : ∀ target, (s.dir tgt.inode).find tgtName = some target →
    target.inode ≠ src.inode ∧ target.inode ≠ tgt.inode ∧ ∃ type2, s.getEntry target = some type2 ∧
      (type = .dir ↔ type2 = .dir) ∧ (type2 = .dir → (s.dir target.inode).isEmpty = true)

/-- There it waits for a lock that it holds. -/
def Blocks (src tgt object : Handle) (type : ItemType) : Prop :=
  type = .dir ∧ src ≠ tgt ∧ (object.inode = src.inode ∨ object.inode = tgt.inode)

/-- Link comes to the new entry. -/
structure Links (s : Fs) (parent : Handle) (name : Name) (target : Handle) (type : ItemType) :
    Prop where
  nameOk : isNameOk name = true
  parentDir : s.getEntry parent = some .dir
  new : (s.dir parent.inode).find name = none
  live : s.getEntry target = some type
  notDir : type ≠ .dir

/-- When the code is right: a link does not make the link count overflow, and no rename that comes
to its move moves `.` or `..`, or a directory to a directory below it. -/
def Safe (s : Fs) : Call → Prop
  | .link parent name target => ∀ type, Links s parent name target type →
      (s.linkcount target.inode).toNat + 1 < 2 ^ 32
  | .rename src tgt srcName tgtName tmphandle => ∀ object type,
      Moves s src tgt srcName tgtName tmphandle object type → ¬ Blocks src tgt object type →
        clip srcName ≠ dot ∧ clip srcName ≠ dotDot ∧
          (type = .dir → src ≠ tgt → ∀ names, ¬ Path s.Child object.inode names tgt.inode)
  | _ => True

end CloudNfs.GhostFs
