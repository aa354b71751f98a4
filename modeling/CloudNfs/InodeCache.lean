import CloudNfs.DirSlots
import Mathlib.Logic.Function.Basic

/-!
# The inode cache

The entries of the cache, the directories among them with their chains of chunks, and the
operations that add and drop entries of directories:

* `cache_inode_get`, `cache_inode_lookup`, `cache_inode_create`, `cache_inode_link`,
  `cache_inode_remove`, `cache_inode_rename`, `cache_inode_readdir` with its renewals,
* `cache_inode_gc_suppress_file` and `cache_inode_gc_suppress_directory`, which
  `cache_inode_gc` calls for one entry after another, `cache_inode_kill_entry` and
  `cache_inode_valid`.

Every operation runs to completion. What the FSAL and the allocators answer is part of the
call.

* An entry lives at its address; the `DIR_CONTINUE`s of a directory are part of it, so that
  `parent` of a parent link is a directory and the index of one of its chunks.
* Calls are given entries. A `DIR_CONTINUE`, which a lookup of `..` can lead to, is none here,
  and a call for it has no next state.
* An operation on a stale handle changes nothing by itself; the call of
  `cache_inode_kill_entry` it makes is a call of its own here.
* So is each call of `cache_inode_valid`. Operations make it for the directories they are
  given when a lookup ends and when they end themselves, and look at the states `VALID` after
  the lookups only: what they do is what they do after the first of these calls.
* An operation that follows a null pointer, or a pointer to an entry that was put back to
  the pool, has no next state.
-/

namespace CloudNfs

namespace InodeCache

open DirChain

/-! ### Entries -/

/-- `cache_inode_parent_entry_t`. -/
structure Link where
  /-- the directory of the chunk `parent` -/
  dir : ℕ
  /-- the index of the chunk `parent` in it -/
  chunk : ℕ
  subdirpos : ℕ
  deriving DecidableEq

/-- The link leads into the directory `d`, and if `start` is not 0 to its chunk of that index. -/
def Link.leadsTo (l : Link) (d start : ℕ) : Bool :=
  if start = 0 then decide (l.dir = d) else decide (l.dir = d ∧ l.chunk = start)

/-- What an object is; `special` are sockets, pipes and devices. -/
inductive Kind where
  | regularFile
  | symbolicLink
  | special
  | directory
  deriving DecidableEq

/-- `internal_md.type` and `object` of an entry. -/
inductive Object where
  | regularFile
  | symbolicLink
  /-- `SOCKET_FILE`, `FIFO_FILE`, `CHARACTER_FILE`, `BLOCK_FILE` -/
  | special
  /-- `DIR_BEGINNING` with its chain -/
  | dirBeginning (d : Dir)

/-- A new object of a kind, at the address `a`. -/
def Kind.object (a : ℕ) : Kind → Object
  | .regularFile => .regularFile
  | .symbolicLink => .symbolicLink
  | .special => .special
  | .directory => .dirBeginning (newDir a)

def Object.dir? : Object → Option Dir
  | .dirBeginning d => some d
  | _ => none

/-- `cache_entry_t`. -/
structure Entry where
  handle : ℕ
  object : Object
  /-- `internal_md.valid_state` is `VALID` -/
  valid : Bool
  numlinks : ℕ
  parents : List Link

/-- The entry is a directory that has been read and is not empty. -/
def Entry.isFull (e : Entry) : Bool :=
  e.object.dir?.any fun dir => dir.hasBeenReaddir && !isDirEmpty dir.chunks

structure Cache where
  /-- the entries at their addresses; the other addresses are free -/
  entry : ℕ → Option Entry
  /-- the hash table, for the keys with the cookie `DIR_START` -/
  hash : ℕ → Option ℕ

def Cache.empty : Cache := ⟨fun _ => none, fun _ => none⟩

/-- What the FSAL tells about an object it finds or creates. -/
structure Found where
  handle : ℕ
  kind : Kind
  numlinks : ℕ

/-- What the allocators have to give. -/
structure Memory where
  /-- an address for a new entry -/
  entry : Option ℕ
  /-- an address for a new `DIR_CONTINUE` -/
  chunk : Option ℕ
  parent : Bool

namespace Cache

variable (c : Cache)

def dir? (a : ℕ) : Option Dir := (c.entry a).bind fun e => e.object.dir?

/-- The entry at an address is in the state `VALID`. -/
def isValid (a : ℕ) : Bool := (c.entry a).any (·.valid)

def modify (a : ℕ) (f : Entry → Entry) : Cache :=
  { c with entry := Function.update c.entry a ((c.entry a).map f) }

def setDir (a : ℕ) (d : Dir) : Cache := c.modify a fun e => { e with object := .dirBeginning d }

def setNumlinks (a n : ℕ) : Cache := c.modify a fun e => { e with numlinks := n }

def mapParents (a : ℕ) (g : List Link → List Link) : Cache :=
  c.modify a fun e => { e with parents := g e.parents }

/-- An entry becomes `VALID`. -/
def setValid (a : ℕ) : Cache := c.modify a fun e => { e with valid := true }

/-- An entry goes back to the pool and stays in the hash table. -/
def putBack (a : ℕ) : Cache := { c with entry := Function.update c.entry a none }

/-- An entry becomes `INVALID`. -/
def setInvalid (a : ℕ) : Cache := c.modify a fun e => { e with valid := false }

/-- An entry is deleted from the hash table and put back to the pool, with its parent links and its
`DIR_CONTINUE`s. -/
def clean (a : ℕ) : Cache :=
  match c.entry a with
  | none => c
  | some e => ⟨Function.update c.entry a none, Function.update c.hash e.handle none⟩

/-! ### Entries of directories -/

/-- `cache_inode_new_entry`: the entry the hash table knows, or a new one. -/
def newEntry (x : Found) (fresh : Option ℕ) : Option (Cache × ℕ) :=
  match c.hash x.handle with
  | some a => some (c, a)
  | none =>
    match fresh with
    | none => none
    | some a =>
      if (c.entry a).isSome then none
      else
        some (⟨Function.update c.entry a (some ⟨x.handle, x.kind.object a, true, x.numlinks, []⟩),
          Function.update c.hash x.handle (some a)⟩, a)

/-- `cache_inode_add_cached_dirent`, from the chunk of index `start` on. On success the result has
the index of the chunk of the new slot. -/
def addDirent (d start : ℕ) (name : String) (a : ℕ) (m : Memory) : Option (Cache × Option ℕ) :=
  match c.dir? d with
  | none => some (c, none)
  | some dir =>
    match addCachedDirent dir start (some name) a m.chunk m.parent with
    | none => none
    | some (dir', none) => some (c.setDir d dir', none)
    | some (dir', some (i, j)) =>
      if (c.entry a).isNone then none
      else some ((c.setDir d dir').mapParents a fun ls => ⟨d, i, j⟩ :: ls, some i)

/-- `cache_inode_remove_cached_dirent`, from the chunk of index `start` on: the slot is emptied, and
the first link of its entry to what the call is given is removed. -/
def removeDirent (d start : ℕ) (name : String) : Option Cache :=
  match c.dir? d with
  | none => some c
  | some dir =>
    match searchName c.isValid (some name) start (dir.chunks.drop start) with
    | none => none
    | some none => some c
    | some (some (i, j)) =>
      match (dir.entryAt i j).bind Slot.pentry with
      | none => none
      | some a =>
        some ((c.setDir d { dir with chunks := dir.chunks.modify i fun b => b.drop j }).mapParents a
          fun ls => ls.eraseP fun l => l.leadsTo d start)

/-- `cache_inode_rename_cached_dirent`, from the chunk of index `start` on. -/
def renameDirent (d start : ℕ) (name newname : String) : Option Cache :=
  match c.dir? d with
  | none => some c
  | some dir =>
    match searchName c.isValid (some name) start (dir.chunks.drop start) with
    | none => none
    | some none => some c
    | some (some (i, j)) =>
      some (c.setDir d
        { dir with chunks := dir.chunks.modify i fun b => b.rename j (some newname) })

/-! ### Looking up and creating -/

/-- `cache_inode_lookupp`; `found` is what `FSAL_lookup` of `..` finds. The parent of the first link
may be a `DIR_CONTINUE`. -/
def lookupp (d : ℕ) (found : Option Found) (m : Memory) : Option (Cache × Option ℕ) :=
  match c.entry d with
  | none => none
  | some e =>
    match e.parents with
    | l :: _ =>
      ((c.dir? l.dir).bind fun dir => dir.chunks[l.chunk]?).map fun b =>
        (c, some (if l.chunk = 0 then l.dir else b.addr))
    | [] =>
      match found with
      | none => some (c, none)
      | some x => some (((c.newEntry x m.entry).map fun r => (r.1, some r.2)).getD (c, none))

/-- `cache_inode_lookup`; `found` is what `FSAL_lookup` and `FSAL_readlink` find. -/
def lookup (d : ℕ) (name : String) (found : Option Found) (m : Memory) :
    Option (Cache × Option ℕ) :=
  match c.dir? d with
  | none => some (c, none)
  | some dir =>
    if name = "." then some (c, some d)
    else if name = ".." then c.lookupp d found m
    else
      match lookupName name dir.chunks with
      | none => none
      | some (some a) => some (c, some a)
      | some none =>
        match found with
        | none => some (c, none)
        | some x =>
          match c.newEntry x m.entry with
          | none => some (c, none)
          | some (c₁, a) => (c₁.addDirent d 0 name a m).map fun r => (r.1, r.2.map fun _ => a)

/-- `cache_inode_create`; `created` is what the FSAL creates. -/
def create (d : ℕ) (name : String) (found : Option Found) (m : Memory) (created : Option Found)
    (m' : Memory) : Option Cache :=
  match c.lookup d name found m with
  | none => none
  | some (c₁, some _) => some c₁
  | some (c₁, none) =>
    match created with
    | none => some c₁
    | some x =>
      match c₁.newEntry x m'.entry with
      | none => some c₁
      | some (c₂, a) => (c₂.addDirent d 0 name a m').map Prod.fst

/-- `cache_inode_link`; `linked` is the number of links after `FSAL_link`. -/
def link (src d : ℕ) (name : String) (found : Option Found) (m : Memory) (linked : Option ℕ)
    (m' : Memory) : Option Cache :=
  if (c.dir? d).isNone then some c
  else
    match c.lookup d name found m with
    | none => none
    | some (c₁, some _) => some c₁
    | some (c₁, none) =>
      match c₁.entry src with
      | none => none
      | some e =>
        if e.object.dir?.isSome then some c₁
        else
          match linked with
          | none => some c₁
          | some n => ((c₁.setNumlinks src n).addDirent d 0 name src m').map Prod.fst

/-! ### Removing and renaming -/

/-- The end of `cache_inode_remove` for the entry `e` at `a`: there is a link less, and without any
the entry is released. -/
def dropLink (a : ℕ) (e : Entry) : Cache :=
  if e.object.dir? = none ∧ 1 < e.numlinks then
    c.setNumlinks a (e.numlinks - 1)
  else c.clean a

/-- `cache_inode_remove_cached_dirent` leaves `CACHE_INODE_SUCCESS` in `*pstatus`: the slot is
found, and a link of its entry to what the call is given. -/
def direntGoes (d start : ℕ) (name : String) : Bool :=
  (c.dir? d).any fun dir =>
    match searchName c.isValid (some name) start (dir.chunks.drop start) with
    | some (some (i, j)) =>
      ((dir.entryAt i j).bind Slot.pentry).any fun a =>
        (c.entry a).any fun e => e.parents.any fun l => l.leadsTo d start
    | _ => false

/-- A lookup of `..` in the directory leads to a `DIR_CONTINUE`. -/
def parentContinues (d : ℕ) : Bool :=
  (c.entry d).any fun e => e.parents.head?.any fun l => decide (l.chunk ≠ 0)

/-- `cache_inode_remove`; `unlinked` tells whether `FSAL_unlink` succeeds. The result says nothing
when nothing was unlinked, and otherwise whether the status is `CACHE_INODE_SUCCESS`. -/
def remove (d : ℕ) (name : String) (found : Option Found) (m : Memory) (unlinked : Bool) :
    Option (Cache × Option Bool) :=
  match c.lookup d name found m with
  | none => none
  | some (c₁, none) => some (c₁, none)
  | some (c₁, some a) =>
    -- `CACHE_INODE_DIR_NOT_EMPTY` for a `DIR_CONTINUE`
    if name = ".." ∧ c₁.parentContinues d = true then some (c₁, none)
    else
      match c₁.entry a with
      | none => none
      | some e =>
        if e.isFull = true ∨ unlinked = false then some (c₁, none)
        else
          (c₁.removeDirent d 0 name).map fun c₂ => (c₂.dropLink a e, some (c₁.direntGoes d 0 name))

end Cache

/-- A call of `cache_inode_rename`, with what the FSAL and the allocators answer. -/
structure RenameCall where
  dirsrc : ℕ
  oldname : String
  dirdest : ℕ
  newname : String
  /-- the lookup of the old name -/
  foundSrc : Option Found
  memorySrc : Memory
  foundDest : Option Found
  memoryDest : Memory
  /-- `FSAL_unlink` of an object with the new name succeeds -/
  unlinked : Bool
  /-- `FSAL_rename` succeeds -/
  renamed : Bool
  /-- the memory for the new slot -/
  memory : Memory

namespace Cache

variable (c : Cache)

/-- The object with the new name, `b`, is removed for the one with the old name, `a`. The renaming
goes on when the removal succeeds. -/
def replace (r : RenameCall) (a b : ℕ) : Option (Cache × Option Bool) :=
  match c.dir? a, c.dir? b with
  | none, some _ => some (c, none)
  | some _, none => some (c, none)
  | _, dest =>
    if a = b then some (c, none)
    else if dest.any fun dir => !isDirEmpty dir.chunks then some (c, none)
    else c.remove r.dirdest r.newname none r.memoryDest r.unlinked

/-- The end of `cache_inode_rename`, after `FSAL_rename`. -/
def move (r : RenameCall) (a : ℕ) : Option Cache :=
  if r.dirsrc = r.dirdest then c.renameDirent r.dirsrc 0 r.oldname r.newname
  else
    match c.addDirent r.dirdest 0 r.newname a r.memory with
    | none => none
    | some (c₁, none) => some c₁
    | some (c₁, some _) => c₁.removeDirent r.dirsrc 0 r.oldname

/-- `cache_inode_rename`. -/
def rename (r : RenameCall) : Option Cache :=
  if (c.dir? r.dirsrc).isNone ∨ (c.dir? r.dirdest).isNone then some c
  else
    match c.lookup r.dirsrc r.oldname r.foundSrc r.memorySrc with
    | none => none
    | some (c₁, none) => some c₁
    | some (c₁, some a) =>
      match c₁.lookup r.dirdest r.newname r.foundDest r.memoryDest with
      | none => none
      | some (c₂, none) => if r.renamed then c₂.move r a else some c₂
      | some (c₂, some b) =>
        match c₂.replace r a b with
        | none => none
        | some (c₃, ok) => if ok = some true ∧ r.renamed = true then c₃.move r a else some c₃

end Cache

/-! ### Reading a directory -/

/-- An entry that `FSAL_readdir` finds, with what happens to it. -/
structure Dirent where
  name : String
  found : Found
  /-- `FSAL_readlink` of a symbolic link fails -/
  readlinkFails : Bool
  memory : Memory

/-- What the FSAL answers to `cache_inode_readdir_populate`. -/
structure PopulateRun where
  /-- `FSAL_opendir` succeeds -/
  opened : Bool
  /-- what the calls of `FSAL_readdir` find -/
  batches : List (List Dirent)
  /-- the last call says that the directory ends, and `FSAL_closedir` succeeds -/
  complete : Bool

namespace Cache

variable (c : Cache)

/-- The loop over the entries of one call of `FSAL_readdir`, with `pentry_parent` and
`next_pentry_parent`; the result tells whether all of them were added. -/
def populateBatch (c : Cache) (d : ℕ) (parent next : Option ℕ) :
    List Dirent → Option (Cache × Option ℕ × Bool)
  | [] => some (c, next, true)
  | x :: xs =>
    if x.name = "." ∨ x.name = ".." then populateBatch c d parent next xs
    else if x.readlinkFails then some (c, next, false)
    else
      match c.newEntry x.found x.memory.entry with
      | none => some (c, next, false)
      | some (c₁, a) =>
        match parent with
        | none => none
        | some start =>
          match c₁.addDirent d start x.name a x.memory with
          | none => none
          | some (c₂, none) => some (c₂, next, false)
          | some (c₂, some i) => populateBatch c₂ d parent (some i) xs

/-- The loop over the calls of `FSAL_readdir`. -/
def populateBatches (c : Cache) (d : ℕ) (parent next : Option ℕ) :
    List (List Dirent) → Option (Cache × Bool)
  | [] => some (c, true)
  | b :: bs =>
    match populateBatch c d parent next b with
    | none => none
    | some (c₁, _, false) => some (c₁, false)
    | some (c₁, next₁, true) => populateBatches c₁ d next₁ next₁ bs

/-- `has_been_readdir` of a directory is written. -/
def setHasBeenReaddir (d : ℕ) (b : Bool) : Cache :=
  match c.dir? d with
  | none => c
  | some dir => c.setDir d { dir with hasBeenReaddir := b }

/-- `cache_inode_readdir_populate`. -/
def populate (d : ℕ) (r : PopulateRun) : Option Cache :=
  match c.dir? d with
  | none => some c
  | some dir =>
    if dir.hasBeenReaddir then some c
    else if r.opened = false then some (c.setDir d (invalidateAllCachedDirent dir))
    else
      (populateBatches (c.setDir d (invalidateAllCachedDirent dir)) d (some 0) none r.batches).map
        fun q => if q.2 && r.complete then q.1.setHasBeenReaddir d true else q.1

/-- `cache_inode_readdir`; `renewed` tells whether `cache_inode_renew_entry` finds that the contents
must be renewed. -/
def readdir (d : ℕ) (renewed : Bool) (r : PopulateRun) : Option Cache :=
  (if renewed then c.setHasBeenReaddir d false else c).populate d r

/-! ### Dropping entries -/

/-- The loop of `cache_inode_gc_invalidate_related_dirent` and of
`cache_inode_invalidate_related_dirent` over the parent links; the result tells whether it comes to
its end. -/
def invalidateRelated (c : Cache) : List Link → Option (Cache × Bool)
  | [] => some (c, true)
  | l :: ls =>
    match c.entry l.dir with
    | none => none
    | some e =>
      match e.object.dir? with
      | none => some (c, false)
      | some dir =>
        if dir.chunks.length ≤ l.chunk then none
        else if childrenArraySize < l.subdirpos then some (c, false)
        else invalidateRelated (c.setDir l.dir (dir.dropSlot l.chunk l.subdirpos)) ls

/-- `cache_inode_gc_clean_entry`, and the end of `cache_inode_kill_entry`: nothing is released when
the hash table does not know the entry. -/
def release (a : ℕ) (e : Entry) : Cache :=
  match c.hash e.handle with
  | none => c
  | some _ => c.clean a

/-- `cache_inode_gc_suppress_file` and `cache_inode_gc_suppress_directory`. A directory becomes
`INVALID` also when it is not suppressed. -/
def gcSuppress (a : ℕ) : Option Cache :=
  match c.entry a with
  | none => none
  | some e =>
    match e.object with
    | .special => some c
    | .dirBeginning dir =>
      if isDirEmpty dir.chunks then
        ((c.setInvalid a).invalidateRelated e.parents).map fun q =>
          if q.2 then q.1.release a e else q.1
      else some (c.setInvalid a)
    | _ =>
      ((c.setInvalid a).invalidateRelated e.parents).map fun q =>
        if q.2 then q.1.release a e else q.1

/-- `cache_inode_kill_entry`. -/
def kill (a : ℕ) : Option Cache :=
  match c.entry a with
  | none => none
  | some e => (c.invalidateRelated e.parents).map fun q => q.1.release a e

/-- `cache_inode_valid`; an entry for which there is no new LRU entry goes back to the pool, and
stays in the hash table. -/
def validate (a : ℕ) (lruEntry : Bool) : Cache := if lruEntry then c.setValid a else c.putBack a

end Cache

/-! ### The system -/

inductive Call where
  | get (x : Found) (m : Memory)
  | lookup (d : ℕ) (name : String) (found : Option Found) (m : Memory)
  | create (d : ℕ) (name : String) (found : Option Found) (m : Memory) (created : Option Found)
    (m' : Memory)
  | link (src d : ℕ) (name : String) (found : Option Found) (m : Memory) (linked : Option ℕ)
    (m' : Memory)
  | remove (d : ℕ) (name : String) (found : Option Found) (m : Memory) (unlinked : Bool)
  | rename (r : RenameCall)
  | readdir (d : ℕ) (renewed : Bool) (r : PopulateRun)
  /-- `cache_inode_gc`, for one entry -/
  | gc (a : ℕ)
  /-- `cache_inode_kill_entry` -/
  | kill (a : ℕ)
  /-- `cache_inode_valid` -/
  | valid (a : ℕ) (lruEntry : Bool)

/-- What a call is given: addresses of entries. -/
def Call.entries : Call → List ℕ
  | .get .. => []
  | .lookup d .. | .create d .. | .remove d .. | .readdir d .. => [d]
  | .link src d .. => [src, d]
  | .rename r => [r.dirsrc, r.dirdest]
  | .gc a | .kill a | .valid a _ => [a]

/-- All of them are entries of the cache. -/
def Given (c : Cache) (call : Call) : Prop := ∀ a ∈ call.entries, (c.entry a).isSome = true

instance (c : Cache) (call : Call) : Decidable (Given c call) :=
  inferInstanceAs (Decidable (∀ a ∈ _, _))

def perform (c : Cache) : Call → Option Cache
  | .get x m => some (((c.newEntry x m.entry).map Prod.fst).getD c)
  | .lookup d name found m => (c.lookup d name found m).map Prod.fst
  | .create d name found m created m' => c.create d name found m created m'
  | .link src d name found m linked m' => c.link src d name found m linked m'
  | .remove d name found m unlinked => (c.remove d name found m unlinked).map Prod.fst
  | .rename r => c.rename r
  | .readdir d renewed r => c.readdir d renewed r
  | .gc a => c.gcSuppress a
  | .kill a => c.kill a
  | .valid a lruEntry => some (c.validate a lruEntry)

def step (c : Cache) (call : Call) : Option Cache := if Given c call then perform c call else none

/-- A call is given entries, and follows no null pointer and no pointer to an entry that was put
back to the pool. -/
def Defined (c : Cache) (call : Call) : Prop := (step c call).isSome = true

instance (c : Cache) (call : Call) : Decidable (Defined c call) :=
  inferInstanceAs (Decidable (_ = true))

end InodeCache

end CloudNfs
