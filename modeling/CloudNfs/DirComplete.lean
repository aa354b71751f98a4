import CloudNfs.DirNames
import CloudNfs.InodeEntries
import Mathlib.Data.List.AList

/-!
# Directories that have been read

A directory with `has_been_readdir` answers a readdir from its chain alone, and a lookup
that misses in it finds nothing in the FSAL either. Here the cache runs next to the FSAL,
whose directories change through it only.

* `World.step` is a call that the FSAL answers truthfully, with what it does to the FSAL.
* `Complete` says that the chain of a directory that has been read has the names of the
  FSAL directory, each in one active slot.
* `KeepsComplete` is what a call must meet for that: an entry that goes has no slot in a
  `DIR_CONTINUE` of such a directory, since emptying that slot leaves `has_been_readdir` as
  it is, the entries under the names that go are `VALID`, since only those are looked for,
  and a name that came into the FSAL directory finds room in the chain.
-/

namespace CloudNfs

namespace InodeCache

open DirChain

/-! ### The FSAL -/

/-- The directories of the FSAL by their handles: the names in each of them, except `.` and `..`,
with the handles of the objects. -/
abbrev Fsal := ℕ → AList fun _ : String => ℕ

/-- `.` or `..`. -/
def isDot (name : String) : Bool := decide (name = "." ∨ name = "..")

namespace Fsal

variable (f : Fsal)

/-- A name is entered in a directory. -/
def enter (h : ℕ) (name : String) (x : ℕ) : Fsal := Function.update f h ((f h).insert name x)

/-- A name is taken from a directory. -/
def leave (h : ℕ) (name : String) : Fsal := Function.update f h ((f h).erase name)

/-- An object gets another name in another directory, or in the same. -/
def move (h : ℕ) (name : String) (h' : ℕ) (newname : String) : Fsal :=
  match (f h).lookup name with
  | none => f
  | some x => (f.leave h name).enter h' newname x

/-- What `FSAL_lookup` answers. -/
def finds (h : ℕ) (name : String) (found : Option Found) : Bool :=
  isDot name || decide (found.map Found.handle = (f h).lookup name)

/-- The directory has the name: the object can be unlinked or renamed. -/
def has (h : ℕ) (name : String) : Bool := !isDot name && decide (name ∈ f h)

/-- The directory can have the name: an object can be created or linked. -/
def accepts (h : ℕ) (name : String) : Bool := !isDot name && decide (name ∉ f h)

end Fsal

/-- The names of entries that a readdir adds. -/
def addedNames (xs : List Dirent) : List String :=
  (xs.map Dirent.name).filter fun name => !isDot name

/-- The names that a readdir adds. -/
def PopulateRun.names (r : PopulateRun) : List String := addedNames r.batches.flatten

/-! ### The cache and the FSAL -/

def Cache.dirHandle? (c : Cache) (d : ℕ) : Option ℕ :=
  (c.entry d).bind fun e => e.object.dir?.map fun _ => e.handle

/-- The cache next to the FSAL. -/
structure World where
  cache : Cache
  fsal : Fsal

namespace World

variable (w : World)

/-- A property of the handle of a directory, if it is one. -/
def onDir (d : ℕ) (p : ℕ → Bool) : Bool := (w.cache.dirHandle? d).all p

/-- The FSAL answers a call truthfully: it finds what is there, it creates, links, unlinks and
renames only what it can, and a readdir that comes to its end has found every name once. -/
def agrees : Call → Bool
  | .lookup d name found _ => w.onDir d fun h => w.fsal.finds h name found
  | .create d name found _ created _ =>
    w.onDir d fun h => w.fsal.finds h name found && (created.isNone || w.fsal.accepts h name)
  | .link _ d name found _ linked _ =>
    w.onDir d fun h => w.fsal.finds h name found && (linked.isNone || w.fsal.accepts h name)
  | .remove d name found _ unlinked =>
    w.onDir d fun h => w.fsal.finds h name found && (!unlinked || w.fsal.has h name)
  | .rename r =>
    (w.onDir r.dirsrc fun h =>
      w.fsal.finds h r.oldname r.foundSrc && (!r.renamed || w.fsal.has h r.oldname)) &&
    w.onDir r.dirdest fun h =>
      w.fsal.finds h r.newname r.foundDest && (!r.unlinked || w.fsal.has h r.newname) &&
        (!r.renamed || !isDot r.newname)
  | .readdir d _ r =>
    w.onDir d fun h => !(r.opened && r.complete) || decide (r.names.Perm (w.fsal h).keys)
  | _ => true

/-- The FSAL after a write to the directory at `d`. -/
def inDir (d : ℕ) (write : Fsal → ℕ → Fsal) : Fsal :=
  match w.cache.dirHandle? d with
  | none => w.fsal
  | some h => write w.fsal h

/-- The FSAL after a renaming from `f`. -/
def afterMove (r : RenameCall) (f : Fsal) : Fsal :=
  if r.renamed then
    match w.cache.dirHandle? r.dirsrc, w.cache.dirHandle? r.dirdest with
    | some h, some h' => f.move h r.oldname h' r.newname
    | _, _ => f
  else f

/-- The FSAL after a call. -/
def fsalAfter : Call → Fsal
  | .create d name found m created _ =>
    match w.cache.lookup d name found m, created with
    | some (_, none), some x => w.inDir d fun f h => f.enter h name x.handle
    | _, _ => w.fsal
  | .link src d name found m linked _ =>
    match w.cache.lookup d name found m, linked with
    | some (c₁, none), some _ =>
      match c₁.entry src with
      | none => w.fsal
      | some e =>
        if e.object.dir?.isSome then w.fsal else w.inDir d fun f h => f.enter h name e.handle
    | _, _ => w.fsal
  | .remove d name found m unlinked =>
    match w.cache.remove d name found m unlinked with
    | some (_, some _) => w.inDir d fun f h => f.leave h name
    | _ => w.fsal
  | .rename r =>
    if (w.cache.dir? r.dirsrc).isNone ∨ (w.cache.dir? r.dirdest).isNone then w.fsal
    else
      match w.cache.lookup r.dirsrc r.oldname r.foundSrc r.memorySrc with
      | some (c₁, some a) =>
        match c₁.lookup r.dirdest r.newname r.foundDest r.memoryDest with
        | some (_, none) => w.afterMove r w.fsal
        | some (c₂, some b) =>
          match c₂.replace r a b with
          | some (_, some true) =>
            w.afterMove r (w.inDir r.dirdest fun f h => f.leave h r.newname)
          | some (_, some false) => w.inDir r.dirdest fun f h => f.leave h r.newname
          | _ => w.fsal
        | none => w.fsal
      | _ => w.fsal
  | _ => w.fsal

def step (call : Call) : Option World :=
  if w.agrees call then (InodeCache.step w.cache call).map fun c => ⟨c, w.fsalAfter call⟩ else none

end World

/-- **The directories that have been read are complete.** -/
def Complete (w : World) : Prop :=
  ∀ d e dir, w.cache.entry d = some e → e.object = .dirBeginning dir →
    dir.hasBeenReaddir = true → dir.activeNames.Perm (w.fsal e.handle).keys

/-! ### When they stay complete -/

namespace Cache

variable (c : Cache)

/-- The directory has been read. -/
def isRead (d : ℕ) : Bool := (c.dir? d).any (·.hasBeenReaddir)

/-- If the directory has been read, there is room in it. -/
def fits (d : ℕ) (m : Memory) : Bool :=
  (c.dir? d).all fun dir => !dir.hasBeenReaddir || dir.hasRoom m.chunk m.parent

/-- If the directory has been read, the entries in it under the name are `VALID`. -/
def namesValid (d : ℕ) (name : String) : Bool :=
  (c.dir? d).all fun dir => !dir.hasBeenReaddir ||
    dir.chunks.all fun b => b.slots.all fun s =>
      !s.active || decide (s.name ≠ name) || s.pentry.all c.isValid

/-- What is created is entered in the directory, if that has been read. -/
def createFits (d : ℕ) (name : String) (found : Option Found) (m : Memory)
    (created : Option Found) (m' : Memory) : Bool :=
  match c.lookup d name found m, created with
  | some (c₁, none), some x =>
    !c₁.isRead d || (c₁.newEntry x m'.entry).isSome && c₁.fits d m'
  | _, _ => true

def linkFits (d : ℕ) (name : String) (found : Option Found) (m : Memory) (linked : Option ℕ)
    (m' : Memory) : Bool :=
  match c.lookup d name found m, linked with
  | some (c₁, none), some _ => c₁.fits d m'
  | _, _ => true

/-- The removal of a name keeps the directory complete, if it comes to that. -/
def removeFits (d : ℕ) (name : String) (found : Option Found) (m : Memory) (unlinked : Bool) :
    Bool :=
  match c.lookup d name found m with
  | some (c₁, some a) =>
    (c₁.entry a).all fun e => e.isFull || !unlinked || c₁.namesValid d name
  | _ => true

def moveFits (r : RenameCall) : Bool :=
  !r.renamed || c.namesValid r.dirsrc r.oldname &&
    (decide (r.dirsrc = r.dirdest) || !(c.isRead r.dirsrc || c.isRead r.dirdest) ||
      (c.dir? r.dirdest).any fun dir => dir.hasRoom r.memory.chunk r.memory.parent)

/-- The same for a renaming. -/
def renameFits (r : RenameCall) : Bool :=
  match c.lookup r.dirsrc r.oldname r.foundSrc r.memorySrc with
  | some (c₁, some a) =>
    match c₁.lookup r.dirdest r.newname r.foundDest r.memoryDest with
    | some (c₂, none) => c₂.moveFits r
    | some (c₂, some b) =>
      c₂.removeFits r.dirdest r.newname none r.memoryDest r.unlinked &&
        match c₂.replace r a b with
        | some (c₃, some true) => c₃.moveFits r
        | _ => true
    | none => true
  | _ => true

/-- No link of the list leads to an active slot of a `DIR_CONTINUE` of a directory that has been
read. -/
def dropsFit (ls : List Link) : Bool :=
  ls.all fun l => decide (l.chunk = 0) ||
    (c.dir? l.dir).all fun dir => !dir.hasBeenReaddir ||
      (dir.entryAt l.chunk l.subdirpos).isNone

/-- A garbage collection does not touch the entry, or its links are such. -/
def gcFits (a : ℕ) : Bool :=
  (c.entry a).all fun e =>
    match e.object with
    | .special => true
    | .dirBeginning dir => !isDirEmpty dir.chunks || c.dropsFit e.parents
    | _ => c.dropsFit e.parents

end Cache

/-- What a call must meet in the state before it:

* it is defined, and given entries and not a `DIR_CONTINUE`;
* when an object is created or linked in a directory that has been read, its entry and its slot can
  be allocated, and so for a renaming between two directories of which one has been read;
* when a name is taken from a directory that has been read, or changed in it, the entry under it is
  `VALID`;
* an entry that is garbage collected or killed has no active slot in a `DIR_CONTINUE` of a
  directory that has been read;
* there is memory for the LRU entry in `cache_inode_valid`. -/
def Call.fits (c : Cache) : Call → Bool
  | .create d name found m created m' => c.createFits d name found m created m'
  | .link _ d name found m linked m' => c.linkFits d name found m linked m'
  | .remove d name found m unlinked => c.removeFits d name found m unlinked
  | .rename r => c.renameFits r
  | .gc a => c.gcFits a
  | .kill a => (c.entry a).all fun e => c.dropsFit e.parents
  | .valid _ lruEntry => lruEntry
  | .get .. | .lookup .. | .readdir .. => true

def KeepsComplete (w : World) (call : Call) : Prop :=
  Defined w.cache call ∧ call.fits w.cache = true

instance (w : World) (call : Call) : Decidable (KeepsComplete w call) :=
  inferInstanceAs (Decidable (_ ∧ _))

section

variable {c c' : Cache} {f f' : Fsal} {a d k : ℕ} {e : Entry} {dir dir' : Dir} {b : Bool}
  {name : String}

/-! ### The invariant -/

/-- **The invariant.** -/
structure Tracked (c : Cache) (f : Fsal) : Prop where
  shape : ∀ d dir, c.dir? d = some dir → Shape SlotsOk dir
  hash : HashOk c
  names : ∀ d e dir, c.entry d = some e → e.object = .dirBeginning dir →
    dir.hasBeenReaddir = true → Lists dir.nameAt {n | n ∈ f e.handle}

theorem Tracked.complete (h : Tracked c f) : Complete ⟨c, f⟩ := fun d e dir he hobj hread =>
  activeNames_perm (h.names d e dir he hobj hread) (f e.handle).keys_nodup fun _ =>
    AList.mem_keys.symm

/-- What is known of the directory with the handle `k` while it is in the cache: it is at `d`, and
`b` tells whether it has been read. -/
structure Owns (c : Cache) (d k : ℕ) (b : Bool) : Prop where
  iff : ∀ x e, c.entry x = some e → (e.handle = k ↔ x = d)
  dir : ∀ e, c.entry d = some e →
    ∃ dir, e.object = .dirBeginning dir ∧ dir.hasBeenReaddir = b

theorem Tracked.owns (h : Tracked c f) (he : c.entry d = some e)
    (hobj : e.object = .dirBeginning dir) : Owns c d e.handle dir.hasBeenReaddir where
  iff x e' he' := ⟨fun hk => h.hash.eq_of_handle he' he hk, fun hx => by
    subst hx
    rw [Option.some.inj (he'.symm.trans he)]⟩
  dir e' he' := ⟨dir, by rw [Option.some.inj (he'.symm.trans he), hobj], rfl⟩

theorem Owns.dir? (h : Owns c d k b) (hdir : c.dir? d = some dir) :
    ∃ e, c.entry d = some e ∧ e.object = .dirBeginning dir ∧ e.handle = k ∧
      dir.hasBeenReaddir = b := by
  obtain ⟨e, he, hobj⟩ := Cache.entry_of_dir? hdir
  obtain ⟨dir', hobj', hread⟩ := h.dir e he
  obtain rfl : dir = dir' := by simpa [hobj] using hobj'
  exact ⟨e, he, hobj, (h.iff d e he).mpr rfl, hread⟩

theorem Owns.gone (h : Owns c d k b) (hdir : c.dir? d = none) : c.entry d = none := by
  cases he : c.entry d with
  | none => rfl
  | some e =>
    obtain ⟨dir, hobj, -⟩ := h.dir e he
    rw [Cache.dir?_of_entry he hobj] at hdir
    cases hdir

/-! ### Writing the FSAL -/

variable {x start : ℕ} {newname : String} {fresh r next : Option ℕ} {m : Memory}
  {found : Option Found} {ok : Option Bool}

theorem Fsal.enter_of_ne {y : ℕ} (hx : x ≠ k) : f.enter k name y x = f x :=
  Function.update_of_ne hx ..

theorem Fsal.leave_of_ne (hx : x ≠ k) : f.leave k name x = f x :=
  Function.update_of_ne hx ..

theorem Fsal.enter_names (y : ℕ) : {n | n ∈ f.enter k name y k} = insert name {n | n ∈ f k} := by
  ext n
  change n ∈ f.enter k name y k ↔ n = name ∨ n ∈ f k
  rw [Fsal.enter, Function.update_self, AList.mem_insert]

theorem Fsal.leave_names : {n | n ∈ f.leave k name k} = {n | n ∈ f k} \ {name} := by
  ext n
  change n ∈ f.leave k name k ↔ n ∈ f k ∧ n ≠ name
  rw [Fsal.leave, Function.update_self, AList.mem_erase, and_comm]

variable {k' : ℕ} {g : Entry → Entry} {c₁ c₂ : Cache} {m' : Memory} {parent : Option ℕ}
  {added : Bool} {l : Link} {ls : List Link}

theorem Fsal.move_of_ne (hx : x ≠ k) (hx' : x ≠ k') : f.move k name k' newname x = f x := by
  cases hy : (f k).lookup name with
  | none => simp [Fsal.move, hy]
  | some y =>
    simp only [Fsal.move, hy]
    rw [Fsal.enter_of_ne hx', Fsal.leave_of_ne hx]

theorem Fsal.move_eq (k' : ℕ) (newname : String) (h : name ∈ f k) :
    ∃ y, f.move k name k' newname = (f.leave k name).enter k' newname y := by
  obtain ⟨y, hy⟩ := Option.isSome_iff_exists.mp (AList.lookup_isSome.mpr h)
  exact ⟨y, by simp [Fsal.move, hy]⟩

/-! ### Small writes -/

theorem Tracked.write (h : Tracked c f) (hown : Owns c d k b)
    (hunread : b = true → c.entry d = none) (hf : ∀ x, x ≠ k → f' x = f x) : Tracked c f' where
  shape := h.shape
  hash := h.hash
  names x e dir he hobj hread := by
    have hne : e.handle ≠ k := by
      intro hk
      obtain rfl := (hown.iff x e he).mp hk
      obtain ⟨dir', hobj', hb⟩ := hown.dir e he
      obtain rfl : dir = dir' := by simpa [hobj] using hobj'
      rw [hunread (hb.symm.trans hread)] at he
      cases he
    rw [hf _ hne]
    exact h.names x e dir he hobj hread

theorem Tracked.modify (h : Tracked c f) (hobject : ∀ e, (g e).object = e.object)
    (hhandle : ∀ e, (g e).handle = e.handle) : Tracked (c.modify a g) f where
  shape x dx hx := by
    rw [Cache.modify_dir? hobject] at hx
    exact h.shape x dx hx
  hash := h.hash.modify hhandle
  names x e dir he hobj hread := by
    rw [Cache.modify_entry] at he
    split at he
    · next hx =>
      obtain ⟨e', he', rfl⟩ := Option.map_eq_some_iff.mp he
      rw [hhandle]
      exact h.names a e' dir he' ((hobject e').symm.trans hobj) hread
    · exact h.names x e dir he hobj hread

theorem Owns.modify (h : Owns c d k b) (hobject : ∀ e, (g e).object = e.object)
    (hhandle : ∀ e, (g e).handle = e.handle) : Owns (c.modify a g) d k b := by
  -- the handle and the object of an entry are those from before
  have hold : ∀ x e, (c.modify a g).entry x = some e →
      ∃ e', c.entry x = some e' ∧ e.handle = e'.handle ∧ e.object = e'.object := by
    intro x e he
    rw [Cache.modify_entry] at he
    split at he
    · next hx =>
      obtain ⟨e', he', rfl⟩ := Option.map_eq_some_iff.mp he
      exact ⟨e', hx ▸ he', hhandle e', hobject e'⟩
    · exact ⟨e, he, rfl, rfl⟩
  refine ⟨fun x e he => ?_, fun e he => ?_⟩
  · obtain ⟨e', he', hk, -⟩ := hold x e he
    rw [hk]
    exact h.iff x e' he'
  · obtain ⟨e', he', -, hobj⟩ := hold d e he
    rw [hobj]
    exact h.dir e' he'

theorem Tracked.setDir (h : Tracked c f) (hown : Owns c d k b) (hdir : c.dir? d = some dir)
    (hshape : Shape SlotsOk dir') (hf : ∀ x, x ≠ k → f' x = f x)
    (hnames : dir'.hasBeenReaddir = true → Lists dir'.nameAt {n | n ∈ f' k}) :
    Tracked (c.setDir d dir') f' := by
  obtain ⟨e0, he0, hobj0, hk0, -⟩ := hown.dir? hdir
  refine ⟨Cache.setDir_forall_dir? h.shape hdir hshape, h.hash.modify fun _ => rfl,
    fun x e dx he hobj hread => ?_⟩
  rw [Cache.setDir, Cache.modify_entry] at he
  split at he
  · rw [he0, Option.map_some] at he
    cases he
    obtain rfl : dir' = dx := by simpa using hobj
    rw [show ({ e0 with object := .dirBeginning dir' } : Entry).handle = k from hk0]
    exact hnames hread
  · next hx =>
    have hne : e.handle ≠ k := fun hk => hx ((hown.iff x e he).mp hk)
    rw [hf _ hne]
    exact h.names x e dx he hobj hread

theorem Owns.setDir (h : Owns c x k b) (hb : x = d → dir'.hasBeenReaddir = b) :
    Owns (c.setDir d dir') x k b := by
  refine ⟨fun y e he => ?_, fun e he => ?_⟩
  · rw [Cache.setDir, Cache.modify_entry] at he
    split at he
    · next hy =>
      obtain ⟨e', he', rfl⟩ := Option.map_eq_some_iff.mp he
      exact h.iff y e' (hy ▸ he')
    · exact h.iff y e he
  · rw [Cache.setDir, Cache.modify_entry] at he
    split at he
    · next hx =>
      obtain ⟨e', he', rfl⟩ := Option.map_eq_some_iff.mp he
      exact ⟨dir', rfl, hb hx⟩
    · exact h.dir e he

theorem Tracked.newEntry (h : Tracked c f) {x : Found} (hr : c.newEntry x fresh = some (c', a)) :
    Tracked c' f := by
  have hhash := h.hash.newEntry hr
  obtain ⟨rfl, -⟩ | ⟨-, hfree, rfl⟩ := Cache.newEntry_cases hr
  · exact h
  · refine ⟨fun y dy hy => ?_, hhash, fun y e dy he hobj hread => ?_⟩
    · by_cases hya : y = a
      · subst hya
        have hnew : (x.kind.object y).dir? = some dy := by simpa [Cache.dir?] using hy
        have hsound := (object_dir? hnew).1
        exact ⟨fun c hc => (hsound.chunk c hc).slotsOk, hsound.nothingBehind⟩
      · exact h.shape y dy (by simpa [Cache.dir?, hya] using hy)
    · by_cases hya : y = a
      · subst hya
        obtain rfl : _ = e := by simpa using he
        have hnew : (x.kind.object y).dir? = some dy := by
          rw [show x.kind.object y = .dirBeginning dy from hobj]
          rfl
        rw [(object_dir? hnew).2.2] at hread
        cases hread
      · exact h.names y e dy (by simpa [hya] using he) hobj hread

theorem Owns.newEntry (hhash : HashOk c) (h : Owns c d k b) (hlive : (c.entry d).isSome = true)
    {x : Found} (hr : c.newEntry x fresh = some (c', a)) : Owns c' d k b := by
  obtain ⟨rfl, -⟩ | ⟨hnone, hfree, rfl⟩ := Cache.newEntry_cases hr
  · exact h
  · obtain ⟨e0, he0⟩ := Option.isSome_iff_exists.mp hlive
    have hne : d ≠ a := by
      rintro rfl
      rw [hfree] at he0
      cases he0
    have hk : x.handle ≠ k := by
      rintro rfl
      rw [(hhash x.handle d).mpr ⟨e0, he0, (h.iff d e0 he0).mpr rfl⟩] at hnone
      cases hnone
    refine ⟨fun y e he => ?_, fun e he => h.dir e (by simpa [hne] using he)⟩
    by_cases hya : y = a
    · subst hya
      obtain rfl : _ = e := by simpa using he
      exact ⟨fun heq => absurd heq hk, fun heq => absurd heq.symm hne⟩
    · exact h.iff y e (by simpa [hya] using he)

theorem Tracked.clean (h : Tracked c f) (a : ℕ) : Tracked (c.clean a) f where
  shape x dx hx := by
    rw [Cache.clean_dir?] at hx
    split at hx
    · cases hx
    · exact h.shape x dx hx
  hash := h.hash.clean a
  names x e dir he hobj hread := by
    rw [Cache.clean_entry] at he
    split at he
    · cases he
    · exact h.names x e dir he hobj hread

theorem Owns.clean (h : Owns c d k b) (a : ℕ) : Owns (c.clean a) d k b := by
  have hold : ∀ x e, (c.clean a).entry x = some e → c.entry x = some e := by
    intro x e he
    rw [Cache.clean_entry] at he
    split at he
    · cases he
    · exact he
  exact ⟨fun x e he => h.iff x e (hold x e he), fun e he => h.dir e (hold d e he)⟩

/-! ### Entries of directories -/

theorem Tracked.addDirent (h : Tracked c f) (hown : Owns c d k b) (hdir : c.dir? d = some dir)
    (hstart : OpenUpTo dir start) (hr : c.addDirent d start name a m = some (c', r)) :
    ∃ dir' q, addCachedDirent dir start (some name) a m.chunk m.parent = some (dir', q) ∧
      r = q.map Prod.fst ∧ Added SlotsOk dir dir' name a q ∧ c'.dir? d = some dir' ∧
      ∀ f' : Fsal, (∀ x, x ≠ k → f' x = f x) →
        (dir'.hasBeenReaddir = true → Lists dir'.nameAt {n | n ∈ f' k}) → Tracked c' f' := by
  obtain ⟨dir', q, g, hadd, rfl, rfl⟩ := Cache.addDirent_cases hdir hr
  have hadded := (h.shape d dir hdir).added slotsOk_keeping hstart hadd
  refine ⟨dir', q, hadd, rfl, hadded, ?_, fun f' hf hnames => ?_⟩
  · rw [Cache.mapParents_dir?, Cache.setDir_dir? hdir, if_pos rfl]
  · exact (h.setDir hown hdir hadded.shape hf hnames).modify (fun _ => rfl) fun _ => rfl

theorem addDirent_live (hr : c.addDirent d start name a m = some (c', r)) (x : ℕ) :
    (c'.entry x).isSome = (c.entry x).isSome := by
  cases hdir : c.dir? d with
  | none => rw [(Cache.addDirent_none hdir hr).1]
  | some dir =>
    obtain ⟨dir', q, g, -, -, rfl⟩ := Cache.addDirent_cases hdir hr
    rw [Cache.mapParents, Cache.modify_live, Cache.setDir, Cache.modify_live]

theorem Owns.addDirent (ht : Tracked c f) (h : Owns c x k b)
    (hstart : ∀ dir, c.dir? d = some dir → OpenUpTo dir start)
    (hr : c.addDirent d start name a m = some (c', r)) : Owns c' x k b := by
  cases hdir : c.dir? d with
  | none =>
    rw [(Cache.addDirent_none hdir hr).1]
    exact h
  | some dir =>
    obtain ⟨dir', q, g, hadd, -, rfl⟩ := Cache.addDirent_cases hdir hr
    have hadded := (ht.shape d dir hdir).added slotsOk_keeping (hstart dir hdir) hadd
    refine (h.setDir fun hx => ?_).modify (fun _ => rfl) fun _ => rfl
    subst hx
    obtain ⟨-, -, -, -, hb⟩ := h.dir? hdir
    rw [hadded.hasBeenReaddir, hb]

theorem Tracked.enter (h : Tracked c f) (y : ℕ) (hown : Owns c d k b)
    (hfits : b = true → c.fits d m = true) (hname : b = true → name ∉ f k)
    (hr : c.addDirent d 0 name a m = some (c', r)) : Tracked c' (f.enter k name y) := by
  cases hdir : c.dir? d with
  | none =>
    rw [(Cache.addDirent_none hdir hr).1]
    exact h.write hown (fun _ => hown.gone hdir) fun _ hx => Fsal.enter_of_ne hx
  | some dir =>
    obtain ⟨e, he, hobj, hk, hb⟩ := hown.dir? hdir
    obtain ⟨dir', q, hadd, -, hadded, -, hwritten⟩ := h.addDirent hown hdir (openUpTo_zero dir) hr
    refine hwritten _ (fun _ hx => Fsal.enter_of_ne hx) fun hread => ?_
    rw [hadded.hasBeenReaddir, hb] at hread
    have hroom : dir.hasRoom m.chunk m.parent = true := by
      simpa [Cache.fits, hdir, hb.trans hread] using hfits hread
    obtain ⟨p, rfl⟩ := Option.isSome_iff_exists.mp (addCachedDirent_of_hasRoom hroom hadd)
    rw [Fsal.enter_names, ← hk]
    exact hadded.lists (h.names d e dir he hobj (hb.trans hread)) (hk ▸ hname hread)

theorem addDirent_isSome (hdir : c.dir? d = some dir) (hroom : dir.hasRoom m.chunk m.parent = true)
    (hr : c.addDirent d 0 name a m = some (c', r)) : r.isSome = true := by
  obtain ⟨dir', q, g, hadd, rfl, -⟩ := Cache.addDirent_cases hdir hr
  rw [Option.isSome_map]
  exact addCachedDirent_of_hasRoom hroom hadd

theorem Tracked.addUnread (h : Tracked c f)
    (hunread : ∀ dir, c.dir? d = some dir → dir.hasBeenReaddir = false ∧ OpenUpTo dir start)
    (hr : c.addDirent d start name a m = some (c', r)) : Tracked c' f := by
  cases hdir : c.dir? d with
  | none =>
    rw [(Cache.addDirent_none hdir hr).1]
    exact h
  | some dir =>
    obtain ⟨e, he, hobj⟩ := Cache.entry_of_dir? hdir
    obtain ⟨hb, hstart⟩ := hunread dir hdir
    obtain ⟨dir', q, -, -, hadded, -, hwritten⟩ := h.addDirent (h.owns he hobj) hdir hstart hr
    refine hwritten f (fun _ _ => rfl) fun hread => ?_
    rw [hadded.hasBeenReaddir, hb] at hread
    cases hread

theorem valid_of_namesValid (h : Tracked c f) (hdir : c.dir? d = some dir)
    (hread : dir.hasBeenReaddir = true) (hvalid : c.namesValid d name = true) {i j : ℕ} {s : Slot}
    (hs : dir.entryAt i j = some s) (hname : s.name = name) : s.pentry.any c.isValid = true := by
  obtain ⟨chunk, hchunk, hslot, hact⟩ := entryAt_eq_some.mp hs
  have hsome := ((h.shape d dir hdir).chunk chunk (List.mem_of_getElem? hchunk)).pentry s
    (List.mem_of_getElem? hslot) hact
  obtain ⟨x, hx⟩ := Option.isSome_iff_exists.mp hsome
  simp only [Cache.namesValid, hdir, Option.all_some, hread, Bool.not_true, Bool.false_or] at hvalid
  have hchunks := List.all_eq_true.mp hvalid chunk (List.mem_of_getElem? hchunk)
  have hslots := List.all_eq_true.mp hchunks s (List.mem_of_getElem? hslot)
  simpa [hact, hname, hx] using hslots

theorem Tracked.search (h : Tracked c f) (hown : Owns c d k b) (hdir : c.dir? d = some dir)
    (hb : b = true) (hhas : name ∈ f k) (hvalid : c.namesValid d name = true) :
    searchName c.isValid (some name) 0 dir.chunks ≠ some none := by
  intro hmiss
  obtain ⟨e, he, hobj, hk, hread⟩ := hown.dir? hdir
  subst hk
  obtain ⟨p, hp⟩ := ((h.names d e dir he hobj (hread.trans hb)).mem_iff name).mp hhas
  obtain ⟨s, hs, hname⟩ := nameAt_eq_some.mp hp
  exact (h.shape d dir hdir).searchName_missed hmiss hs
    (valid_of_namesValid h hdir (hread.trans hb) hvalid hs hname) hname

theorem Tracked.removeDirent (h : Tracked c f) (hown : Owns c d k b)
    (hhas : b = true → name ∈ f k) (hvalid : c.namesValid d name = true)
    (hr : c.removeDirent d 0 name = some c') : Tracked c' (f.leave k name) := by
  unfold Cache.removeDirent at hr
  split at hr
  · next hdir =>
    cases hr
    exact h.write hown (fun _ => hown.gone hdir) fun _ hx => Fsal.leave_of_ne hx
  rename_i dir hdir
  split at hr
  · cases hr
  · next hmiss =>
    cases hr
    exact h.write hown (fun hb => absurd hmiss (h.search hown hdir hb (hhas hb) hvalid))
      fun _ hx => Fsal.leave_of_ne hx
  rename_i i j hsearch
  split at hr
  · cases hr
  rename_i a _
  cases hr
  obtain ⟨s, hs, hname⟩ := searchName_entryAt hsearch
  obtain ⟨hshape, hat⟩ :
      Shape SlotsOk { dir with chunks := dir.chunks.modify i fun b => b.drop j } ∧ _ :=
    (h.shape d dir hdir).dropped slotsOk_keeping rfl hs
  obtain ⟨e, he, hobj, hk, hb⟩ := hown.dir? hdir
  refine (h.setDir hown hdir hshape (fun _ hx => Fsal.leave_of_ne hx) fun hread => ?_).modify
    (fun _ => rfl) fun _ => rfl
  rw [nameAt_update hat, Fsal.leave_names, ← hname, ← hk]
  exact (h.names d e dir he hobj hread).empty (nameAt_eq_some.mpr ⟨s, hs, rfl⟩)

theorem Owns.removeDirent (h : Owns c x k b) (hr : c.removeDirent d 0 name = some c') :
    Owns c' x k b := by
  unfold Cache.removeDirent at hr
  split at hr
  · cases hr
    exact h
  rename_i dir hdir
  split at hr
  · cases hr
  · cases hr
    exact h
  split at hr
  · cases hr
  cases hr
  refine (h.setDir fun hx => ?_).modify (fun _ => rfl) fun _ => rfl
  subst hx
  obtain ⟨-, -, -, -, hb⟩ := h.dir? hdir
  exact hb

theorem Tracked.renameDirent (h : Tracked c f) (hown : Owns c d k b) (hhas : b = true → name ∈ f k)
    (hnew : b = true → newname ∉ f k) (hvalid : c.namesValid d name = true)
    (hr : c.renameDirent d 0 name newname = some c') : Tracked c' (f.move k name k newname) := by
  have hf : ∀ x, x ≠ k → f.move k name k newname x = f x := fun _ hx => Fsal.move_of_ne hx hx
  unfold Cache.renameDirent at hr
  split at hr
  · next hdir =>
    cases hr
    exact h.write hown (fun _ => hown.gone hdir) hf
  rename_i dir hdir
  obtain ⟨e, he, hobj, hk, hb⟩ := hown.dir? hdir
  split at hr
  · cases hr
  · next hmiss =>
    cases hr
    exact h.write hown (fun hb => absurd hmiss (h.search hown hdir hb (hhas hb) hvalid)) hf
  rename_i i j hsearch
  cases hr
  obtain ⟨s, hs, hname⟩ := searchName_entryAt hsearch
  obtain ⟨hshape, hat⟩ : Shape SlotsOk
      { dir with chunks := dir.chunks.modify i fun b => b.rename j (some newname) } ∧ _ :=
    (h.shape d dir hdir).renamed slotsOk_keeping newname rfl hs
  refine h.setDir hown hdir hshape hf fun hread => ?_
  have hread' : b = true := hb.symm.trans hread
  obtain ⟨y, hy⟩ := Fsal.move_eq k newname (hhas hread')
  rw [nameAt_update hat, hy, Fsal.enter_names, Fsal.leave_names, ← hname]
  subst hk
  exact (h.names d e dir he hobj hread).overwrite (nameAt_eq_some.mpr ⟨s, hs, rfl⟩)
    (hnew hread')

/-! ### Looking up and creating -/

theorem dirHandle?_none (h : c.dirHandle? d = none) : c.dir? d = none := by
  cases hdir : c.dir? d with
  | none => rfl
  | some dir =>
    obtain ⟨e, he, hobj⟩ := Cache.entry_of_dir? hdir
    simp [Cache.dirHandle?, he, hobj, Object.dir?] at h

theorem dirHandle?_of_entry (he : c.entry d = some e) (hobj : e.object = .dirBeginning dir) :
    c.dirHandle? d = some e.handle := by
  simp [Cache.dirHandle?, he, hobj, Object.dir?]

def Live (c : Cache) (d k : ℕ) (b : Bool) : Prop := Owns c d k b ∧ (c.entry d).isSome = true

theorem Tracked.live (h : Tracked c f) (hk : c.dirHandle? d = some k) : ∃ b, Live c d k b := by
  obtain ⟨e, he, hdir⟩ := Option.bind_eq_some_iff.mp hk
  obtain ⟨dir, hobj, rfl⟩ := Option.map_eq_some_iff.mp hdir
  have hdir' : c.dir? d = some dir := by simp [Cache.dir?, he, hobj]
  obtain ⟨e', he', hobj'⟩ := Cache.entry_of_dir? hdir'
  obtain rfl : e = e' := Option.some.inj (he.symm.trans he')
  exact ⟨_, h.owns he hobj', by rw [he]; rfl⟩

theorem Live.dir? (h : Live c d k b) : ∃ dir, c.dir? d = some dir ∧ dir.hasBeenReaddir = b := by
  obtain ⟨e, he⟩ := Option.isSome_iff_exists.mp h.2
  obtain ⟨dir, hobj, hb⟩ := h.1.dir e he
  exact ⟨dir, Cache.dir?_of_entry he hobj, hb⟩

theorem Live.dirHandle? (h : Live c d k b) : c.dirHandle? d = some k := by
  obtain ⟨dir, hdir, -⟩ := h.dir?
  obtain ⟨e, he, hobj, hk, -⟩ := h.1.dir? hdir
  rw [dirHandle?_of_entry he hobj, hk]

structure Looked (c c' : Cache) (f : Fsal) : Prop where
  tracked : Tracked c' f
  live : ∀ x k b, Live c x k b → Live c' x k b

theorem Looked.trans {c₃ : Cache} (h1 : Looked c₁ c₂ f) (h2 : Looked c₂ c₃ f) :
    Looked c₁ c₃ f := ⟨h2.tracked, fun x k b h => h2.live x k b (h1.live x k b h)⟩

theorem Tracked.looked (h : Tracked c f) : Looked c c f := ⟨h, fun _ _ _ hlive => hlive⟩

theorem Tracked.lookedNew (h : Tracked c f) {x : Found} (hr : c.newEntry x fresh = some (c', a)) :
    Looked c c' f :=
  ⟨h.newEntry hr, fun _ _ _ hlive => ⟨hlive.1.newEntry h.hash hlive.2 hr,
    Cache.newEntry_live hr hlive.2⟩⟩

theorem Tracked.lookupp (h : Tracked c f) (hr : c.lookupp d found m = some (c', r)) :
    Looked c c' f := by
  unfold Cache.lookupp at hr
  split at hr
  · cases hr
  split at hr
  · obtain ⟨b, hb, hq⟩ := Option.map_eq_some_iff.mp hr
    cases hq
    exact h.looked
  split at hr
  · cases hr
    exact h.looked
  rename_i x
  cases hnew : c.newEntry x m.entry with
  | none =>
    obtain ⟨rfl, -⟩ : c = c' ∧ none = r := by simpa [hnew] using hr
    exact h.looked
  | some q =>
    obtain ⟨rfl, -⟩ : q.1 = c' ∧ some q.2 = r := by simpa [hnew] using hr
    exact h.lookedNew (a := q.2) hnew

theorem Tracked.not_mem_of_missed (h : Tracked c f) (hlive : Live c d k true)
    (hdir : c.dir? d = some dir) (hmiss : lookupName name dir.chunks = some none) : name ∉ f k := by
  obtain ⟨e, he, hobj, hk, hread⟩ := hlive.1.dir? hdir
  subst hk
  intro hhas
  obtain ⟨p, hp⟩ := ((h.names d e dir he hobj hread).mem_iff name).mp hhas
  obtain ⟨s, hs, hname⟩ := nameAt_eq_some.mp hp
  refine (h.shape d dir hdir).lookupName_missed slotsOk_keeping ?_ (Nat.zero_le _) hs hname
  exact hmiss

theorem Tracked.lookup (h : Tracked c f)
    (hfinds : found.isSome = true → ∀ k, c.dirHandle? d = some k → f.finds k name found = true)
    (hr : c.lookup d name found m = some (c', r)) : Looked c c' f := by
  unfold Cache.lookup at hr
  split at hr
  · cases hr
    exact h.looked
  rename_i dir hdir
  split at hr
  · cases hr
    exact h.looked
  rename_i hdot
  split at hr
  · exact h.lookupp hr
  rename_i hdotdot
  split at hr
  · cases hr
  · cases hr
    exact h.looked
  rename_i hmiss
  split at hr
  · cases hr
    exact h.looked
  rename_i x
  split at hr
  · cases hr
    exact h.looked
  rename_i c₁ a hnew
  obtain ⟨q, hadd, hq⟩ := Option.map_eq_some_iff.mp hr
  cases hq
  have hlooked := h.lookedNew hnew
  have hadd' : c₁.addDirent d 0 name a m = some (q.1, q.2) := hadd
  refine hlooked.trans ⟨hlooked.tracked.addUnread (fun dir' hdir' => ?_) hadd',
    fun y k b hlive => ⟨hlive.1.addDirent hlooked.tracked
      (fun dir _ => openUpTo_zero dir) hadd',
        by rw [addDirent_live hadd']; exact hlive.2⟩⟩
  -- the FSAL has the name, so the directory has not been read
  obtain ⟨e, he, hobj⟩ := Cache.entry_of_dir? hdir
  obtain rfl : dir = dir' :=
    Option.some.inj ((Cache.newEntry_dir? hnew hdir).symm.trans hdir')
  refine ⟨?_, openUpTo_zero dir⟩
  by_contra hread
  have hread' : dir.hasBeenReaddir = true := by simpa using hread
  have hlive : Live c d e.handle true := ⟨hread' ▸ h.owns he hobj, by rw [he]; rfl⟩
  have hno := h.not_mem_of_missed hlive hdir hmiss
  have hanswer := hfinds rfl e.handle (dirHandle?_of_entry he hobj)
  simp [Fsal.finds, isDot, hdot, hdotdot, AList.lookup_eq_none.mpr hno] at hanswer

theorem Tracked.lookup_missed (h : Tracked c f) (hlive : Live c d k true)
    (hdot : isDot name = false) (hr : c.lookup d name found m = some (c', none)) : name ∉ f k := by
  obtain ⟨dir, hdir, -⟩ := hlive.dir?
  simp only [isDot, decide_eq_false_iff_not, not_or] at hdot
  simp only [Cache.lookup, hdir, if_neg hdot.1, if_neg hdot.2] at hr
  split at hr
  · cases hr
  · cases hr
  · next hmiss => exact h.not_mem_of_missed hlive hdir hmiss

theorem Tracked.lookup_hit (h : Tracked c f) (hlive : Live c d k true) (hdot : isDot name = false)
    (hmem : name ∈ f k) (hr : c.lookup d name found m = some (c', r)) :
    c' = c ∧ ∃ dir x, c.dir? d = some dir ∧ lookupName name dir.chunks = some (some x) ∧
      r = some x := by
  obtain ⟨dir, hdir, -⟩ := hlive.dir?
  simp only [isDot, decide_eq_false_iff_not, not_or] at hdot
  simp only [Cache.lookup, hdir, if_neg hdot.1, if_neg hdot.2] at hr
  split at hr
  · cases hr
  · next x hx =>
    cases hr
    exact ⟨rfl, dir, x, hdir, hx, rfl⟩
  · next hmiss => exact absurd hmem (h.not_mem_of_missed hlive hdir hmiss)

theorem isRead_of_live (h : Live c d k true) : c.isRead d = true := by
  obtain ⟨dir, hdir, hread⟩ := h.dir?
  simp [Cache.isRead, hdir, hread]

theorem newEntry_unread {x : Found} (hr : c.newEntry x fresh = some (c', a))
    (hnone : c.dir? d = none) (hdir : c'.dir? d = some dir) : dir.hasBeenReaddir = false := by
  obtain ⟨rfl, -⟩ | ⟨-, -, rfl⟩ := Cache.newEntry_cases hr
  · rw [hnone] at hdir
    cases hdir
  · by_cases hda : d = a
    · subst hda
      have hnew : (x.kind.object d).dir? = some dir := by simpa [Cache.dir?] using hdir
      exact (object_dir? hnew).2.2
    · have hold : c.dir? d = some dir := by simpa [Cache.dir?, hda] using hdir
      rw [hnone] at hold
      cases hold

theorem Tracked.create (h : Tracked c f) {created : Option Found}
    (hagrees : (⟨c, f⟩ : World).agrees (.create d name found m created m') = true)
    (hkeeps : c.createFits d name found m created m' = true)
    (hr : c.create d name found m created m' = some c') :
    Tracked c' ((⟨c, f⟩ : World).fsalAfter (.create d name found m created m')) := by
  have hanswers : ∀ k, c.dirHandle? d = some k → f.finds k name found = true ∧
      (created.isNone = true ∨ f.accepts k name = true) := by
    intro k hk
    simpa [World.agrees, World.onDir, hk] using hagrees
  simp only [World.fsalAfter]
  simp only [Cache.createFits] at hkeeps
  unfold Cache.create at hr
  split at hr
  · cases hr
  · next c₁ a hlookup =>
    cases hr
    simp only [hlookup]
    exact (h.lookup (fun _ k hk => (hanswers k hk).1) hlookup).tracked
  rename_i c₁ hlookup
  have hlooked := h.lookup (fun _ k hk => (hanswers k hk).1) hlookup
  simp only [hlookup] at hkeeps ⊢
  split at hr
  · cases hr
    exact hlooked.tracked
  rename_i x
  simp only [World.inDir]
  cases hk : c.dirHandle? d with
  | none =>
    -- nothing is entered, and nothing was read
    have hc1 : c₁ = c := by
      simp only [Cache.lookup, dirHandle?_none hk, Option.some.injEq, Prod.mk.injEq,
        and_true] at hlookup
      exact hlookup.symm
    subst hc1
    split at hr
    · cases hr
      exact h
    rename_i c₂ a hnew
    obtain ⟨q, hadd, rfl⟩ := Option.map_eq_some_iff.mp hr
    refine (h.newEntry hnew).addUnread (r := q.2)
      (fun dir hdir => ⟨?_, openUpTo_zero dir⟩) hadd
    exact newEntry_unread hnew (dirHandle?_none hk) hdir
  | some k =>
    obtain ⟨b, hlive⟩ := h.live hk
    have hlive1 := hlooked.live d k b hlive
    have hfits : c₁.isRead d = true →
        (c₁.newEntry x m'.entry).isSome = true ∧ c₁.fits d m' = true := by
      intro hread
      simpa [hread] using hkeeps
    split at hr
    · next hnone =>
      cases hr
      refine hlooked.tracked.write hlive1.1 (fun hb => ?_) fun _ hx => Fsal.enter_of_ne hx
      subst hb
      have hsome := (hfits (isRead_of_live hlive1)).1
      rw [hnone] at hsome
      cases hsome
    · next c₂ a hnew =>
      obtain ⟨q, hadd, rfl⟩ := Option.map_eq_some_iff.mp hr
      have hlooked2 := hlooked.tracked.lookedNew hnew
      refine hlooked2.tracked.enter (r := q.2) x.handle (hlooked2.live d k b hlive1).1
        (fun hb => ?_) (fun hb => ?_) hadd
      · subst hb
        obtain ⟨dir, hdir, -⟩ := hlive1.dir?
        have hroom := (hfits (isRead_of_live hlive1)).2
        simpa [Cache.fits, hdir, Cache.newEntry_dir? hnew hdir] using hroom
      · have haccepts := (hanswers k hk).2.resolve_left (by simp)
        simp only [Fsal.accepts, Bool.and_eq_true, decide_eq_true_eq] at haccepts
        exact haccepts.2

theorem Tracked.link (h : Tracked c f) {src : ℕ} {linked : Option ℕ}
    (hagrees : (⟨c, f⟩ : World).agrees (.link src d name found m linked m') = true)
    (hkeeps : c.linkFits d name found m linked m' = true)
    (hr : c.link src d name found m linked m' = some c') :
    Tracked c' ((⟨c, f⟩ : World).fsalAfter (.link src d name found m linked m')) := by
  have hanswers : ∀ k, c.dirHandle? d = some k → f.finds k name found = true ∧
      (linked.isNone = true ∨ f.accepts k name = true) := by
    intro k hk
    simpa [World.agrees, World.onDir, hk] using hagrees
  simp only [World.fsalAfter]
  simp only [Cache.linkFits] at hkeeps
  unfold Cache.link at hr
  split at hr
  · -- no directory, and the FSAL stays as well
    next hnone =>
    cases hr
    have hdir : c.dir? d = none := by simpa using hnone
    have hlookup : c.lookup d name found m = some (c, none) := by simp [Cache.lookup, hdir]
    have hk : c.dirHandle? d = none := by
      cases hk : c.dirHandle? d with
      | none => rfl
      | some k =>
        obtain ⟨b, hlive⟩ := h.live hk
        obtain ⟨dir, hdir', -⟩ := hlive.dir?
        rw [hdir] at hdir'
        cases hdir'
    simp only [hlookup, World.inDir, hk]
    split
    · next hc1 _ =>
      split
      · exact h
      · split <;> exact h
    · exact h
  · next hsome =>
    split at hr
    · cases hr
    · next c₁ a hlookup =>
      cases hr
      simp only [hlookup]
      exact (h.lookup (fun _ k hk => (hanswers k hk).1) hlookup).tracked
    rename_i c₁ hlookup
    have hlooked := h.lookup (fun _ k hk => (hanswers k hk).1) hlookup
    simp only [hlookup] at hkeeps ⊢
    split at hr
    · cases hr
    rename_i e he
    split at hr
    · next hsrc =>
      cases hr
      cases linked with
      | none => exact hlooked.tracked
      | some n =>
        simp only [he, hsrc, if_true]
        exact hlooked.tracked
    rename_i hsrc
    split at hr
    · cases hr
      exact hlooked.tracked
    rename_i n
    obtain ⟨q, hadd, rfl⟩ := Option.map_eq_some_iff.mp hr
    have hsrc' : e.object.dir?.isSome = false := by simpa using hsrc
    simp only [he, hsrc', Bool.false_eq_true, if_false, World.inDir]
    cases hk : c.dirHandle? d with
    | none =>
      rw [dirHandle?_none hk] at hsome
      exact absurd rfl hsome
    | some k =>
      obtain ⟨b, hlive⟩ := h.live hk
      have hlive1 := hlooked.live d k b hlive
      have htracked : Tracked (c₁.setNumlinks src n) f :=
        hlooked.tracked.modify (fun _ => rfl) fun _ => rfl
      have hown : Owns (c₁.setNumlinks src n) d k b :=
        hlive1.1.modify (fun _ => rfl) fun _ => rfl
      refine htracked.enter (r := q.2) e.handle hown (fun _ => ?_) (fun _ => ?_) hadd
      · simpa [Cache.fits, Cache.setNumlinks, Cache.modify_dir?] using hkeeps
      · have haccepts := (hanswers k hk).2.resolve_left (by simp)
        simp only [Fsal.accepts, Bool.and_eq_true, decide_eq_true_eq] at haccepts
        exact haccepts.2

/-! ### Removing and renaming -/

theorem Tracked.dropLink (h : Tracked c f) (a : ℕ) (e : Entry) : Tracked (c.dropLink a e) f := by
  unfold Cache.dropLink
  split
  · exact h.modify (fun _ => rfl) fun _ => rfl
  · exact h.clean a

theorem Owns.dropLink (h : Owns c d k b) (a : ℕ) (e : Entry) : Owns (c.dropLink a e) d k b := by
  unfold Cache.dropLink
  split
  · exact h.modify (fun _ => rfl) fun _ => rfl
  · exact h.clean a

/-- What the removal of a name does, with the FSAL after it. -/
structure Removed (c c' : Cache) (f' : Fsal) : Prop where
  tracked : Tracked c' f'
  owns : ∀ x k b, Live c x k b → Owns c' x k b

theorem Looked.removed (h : Looked c c' f) : Removed c c' f :=
  ⟨h.tracked, fun x k b hlive => (h.live x k b hlive).1⟩

theorem Tracked.remove (h : Tracked c f) {unlinked : Bool}
    (hfinds : found.isSome = true → ∀ k, c.dirHandle? d = some k → f.finds k name found = true)
    (hhas : unlinked = true → ∀ k, c.dirHandle? d = some k → f.has k name = true)
    (hfits : c.removeFits d name found m unlinked = true)
    (hr : c.remove d name found m unlinked = some (c', ok)) :
    Removed c c' (if ok.isSome then (⟨c, f⟩ : World).inDir d fun f k => f.leave k name else f) := by
  unfold Cache.remove at hr
  unfold Cache.removeFits at hfits
  split at hr
  · cases hr
  · next c₁ hlookup =>
    cases hr
    exact (h.lookup hfinds hlookup).removed
  rename_i c₁ a hlookup
  have hlooked := h.lookup hfinds hlookup
  simp only [hlookup] at hfits
  split at hr
  · cases hr
    exact hlooked.removed
  split at hr
  · cases hr
  rename_i e he
  split at hr
  · cases hr
    exact hlooked.removed
  rename_i hgoes
  obtain ⟨c₂, hremove, hc'⟩ := Option.map_eq_some_iff.mp hr
  cases hc'
  push Not at hgoes
  have hunlinked : unlinked = true := by simpa using hgoes.2
  have hfull : e.isFull = false := by simpa using hgoes.1
  have hvalid : c₁.namesValid d name = true := by
    simpa [he, hfull, hunlinked] using hfits
  simp only [Option.isSome_some, if_true, World.inDir]
  -- the lookup found something, so this is a directory
  cases hk : c.dirHandle? d with
  | none => simp [Cache.lookup, dirHandle?_none hk] at hlookup
  | some k =>
    obtain ⟨b, hlive⟩ := h.live hk
    have hlive1 := hlooked.live d k b hlive
    have hname : name ∈ f k := by
      have hhas' := hhas hunlinked k hk
      simp only [Fsal.has, Bool.and_eq_true, decide_eq_true_eq] at hhas'
      exact hhas'.2
    refine ⟨(hlooked.tracked.removeDirent hlive1.1 (fun _ => hname) hvalid hremove).dropLink
      a e, fun x k' b' hx => ?_⟩
    exact (((hlooked.live x k' b' hx).1).removeDirent hremove).dropLink a e

theorem Tracked.replace (h : Tracked c f) {r : RenameCall}
    (hhas : r.unlinked = true → ∀ k, c.dirHandle? r.dirdest = some k → f.has k r.newname = true)
    (hfits : c.removeFits r.dirdest r.newname none r.memoryDest r.unlinked = true)
    (hr : c.replace r a x = some (c', ok)) :
    Removed c c'
      (if ok.isSome then (⟨c, f⟩ : World).inDir r.dirdest fun f k => f.leave k r.newname
        else f) := by
  have hrefused : some (c, none) = some (c', ok) → Removed c c'
      (if ok.isSome then (⟨c, f⟩ : World).inDir r.dirdest fun f k => f.leave k r.newname
        else f) := by
    intro hr
    cases hr
    exact h.looked.removed
  unfold Cache.replace at hr
  split at hr
  · exact hrefused hr
  · exact hrefused hr
  split at hr
  · exact hrefused hr
  · split at hr
    · exact hrefused hr
    · exact h.remove (fun hnone => by cases hnone) hhas hfits hr

theorem replace_self (c : Cache) (r : RenameCall) (x : ℕ) : c.replace r x x = some (c, none) := by
  unfold Cache.replace
  cases c.dir? x <;> simp

theorem namesValid_addDirent (hne : x ≠ d) (hvalid : c.namesValid x name = true)
    (hr : c.addDirent d start newname a m = some (c', r)) : c'.namesValid x name = true := by
  cases hdir : c.dir? d with
  | none => rwa [(Cache.addDirent_none hdir hr).1]
  | some dir =>
    obtain ⟨dir', q, g, -, -, rfl⟩ := Cache.addDirent_cases hdir hr
    have hdir' : ((c.setDir d dir').mapParents a g).dir? x = c.dir? x := by
      rw [Cache.mapParents_dir?, Cache.setDir_dir? hdir, if_neg hne]
    have hset : (c.setDir d dir').isValid = c.isValid := Cache.modify_isValid fun _ => rfl
    have hstate : ((c.setDir d dir').mapParents a g).isValid = (c.setDir d dir').isValid :=
      Cache.modify_isValid fun _ => rfl
    rw [Cache.namesValid, hdir', hstate, hset]
    exact hvalid

theorem Tracked.move (h : Tracked c f) {r : RenameCall} {b' : Bool} (hsrc : Owns c r.dirsrc k b)
    (hdest : Owns c r.dirdest k' b') (hsame : r.dirsrc = r.dirdest → k = k' ∧ b = b')
    (hne : r.dirsrc ≠ r.dirdest → k ≠ k') (hold : r.dirsrc ≠ r.dirdest ∨ b = true → r.oldname ∈ f k)
    (hnew : b' = true → r.newname ∉ f k') (hrenamed : r.renamed = true)
    (hfits : c.moveFits r = true) (hr : c.move r a = some c') :
    Tracked c' (f.move k r.oldname k' r.newname) := by
  simp only [Cache.moveFits, hrenamed, Bool.not_true, Bool.false_or, Bool.and_eq_true,
    Bool.or_eq_true, decide_eq_true_eq, Bool.not_eq_true', Bool.or_eq_false_iff] at hfits
  obtain ⟨hvalid, hfits⟩ := hfits
  unfold Cache.move at hr
  split at hr
  · next heq =>
    obtain ⟨rfl, rfl⟩ := hsame heq
    exact h.renameDirent hsrc (fun hb => hold (.inr hb)) hnew hvalid hr
  rename_i heq
  obtain ⟨y, hy⟩ := Fsal.move_eq k' r.newname (hold (.inl heq))
  have hkk' := hne heq
  -- the two directories of the FSAL are written in either order
  have hcomm : (f.leave k r.oldname).enter k' r.newname y =
      (f.enter k' r.newname y).leave k r.oldname := by
    simp only [Fsal.leave, Fsal.enter, Function.update_of_ne hkk',
      Function.update_of_ne hkk'.symm]
    exact Function.update_comm hkk' ..
  rw [hy, hcomm]
  split at hr
  · cases hr
  · next c₁ hadd =>
    obtain rfl := Option.some.inj hr
    -- the addition fails, so neither directory has been read
    have hunread : c.isRead r.dirsrc = false ∧ c.isRead r.dirdest = false := by
      rcases hfits with (heq' | hunread) | hroom
      · exact absurd heq' heq
      · exact hunread
      · cases hdir : c.dir? r.dirdest with
        | none => simp [hdir] at hroom
        | some dir =>
          simp only [hdir, Option.any_some] at hroom
          have hsome := addDirent_isSome hdir hroom hadd
          cases hsome
    have htracked : Tracked c₁ f := h.addUnread (fun dir hdir => ⟨by
      simpa [Cache.isRead, hdir] using hunread.2, openUpTo_zero dir⟩) hadd
    -- so that both can be written in the FSAL
    have hgone : ∀ {x k b}, Owns c x k b → c.isRead x = false → b = true →
        c₁.entry x = none := by
      intro x k b hown hfalse hb
      have hnone : c.entry x = none := by
        cases he : c.entry x with
        | none => rfl
        | some e =>
          subst hb
          rw [isRead_of_live ⟨hown, by rw [he]; rfl⟩] at hfalse
          cases hfalse
      have hlive := addDirent_live hadd x
      rw [hnone] at hlive
      simpa using hlive
    have hsrc1 := hsrc.addDirent h (fun dir _ => openUpTo_zero dir) hadd
    have hdest1 := hdest.addDirent h (fun dir _ => openUpTo_zero dir) hadd
    exact (htracked.write hdest1 (hgone hdest hunread.2) fun _ hx =>
      Fsal.enter_of_ne hx).write hsrc1 (hgone hsrc hunread.1) fun _ hx => Fsal.leave_of_ne hx
  · next c₁ i hadd =>
    have hroom : b' = true → c.fits r.dirdest r.memory = true := by
      intro hb'
      cases hdir : c.dir? r.dirdest with
      | none => simp [Cache.fits, hdir]
      | some dir =>
        obtain ⟨-, -, -, -, hread⟩ := hdest.dir? hdir
        have hisRead : c.isRead r.dirdest = true := by simp [Cache.isRead, hdir, hread, hb']
        rcases hfits with (heq' | hunread) | hroom
        · exact absurd heq' heq
        · rw [hunread.2] at hisRead
          cases hisRead
        · simp only [hdir, Option.any_some] at hroom
          simp [Cache.fits, hdir, hroom]
    have htracked := h.enter y hdest hroom hnew hadd
    refine htracked.removeDirent (hsrc.addDirent h (fun dir _ => openUpTo_zero dir) hadd)
      (fun _ => ?_) (namesValid_addDirent heq hvalid hadd) hr
    rw [Fsal.enter_of_ne hkk']
    exact hold (.inl heq)

theorem Tracked.rename (h : Tracked c f) {r : RenameCall}
    (hagrees : (⟨c, f⟩ : World).agrees (.rename r) = true) (hfits : c.renameFits r = true)
    (hr : c.rename r = some c') : Tracked c' ((⟨c, f⟩ : World).fsalAfter (.rename r)) := by
  unfold Cache.rename at hr
  unfold Cache.renameFits at hfits
  simp only [World.fsalAfter]
  split at hr
  · next hnone =>
    cases hr
    rw [if_pos hnone]
    exact h
  rename_i hdirs
  rw [if_neg hdirs]
  push Not at hdirs
  obtain ⟨dir, hdir⟩ := Option.ne_none_iff_exists'.mp (by simpa using hdirs.1)
  obtain ⟨dir', hdir'⟩ := Option.ne_none_iff_exists'.mp (by simpa using hdirs.2)
  obtain ⟨e, he, hobj⟩ := Cache.entry_of_dir? hdir
  obtain ⟨e', he', hobj'⟩ := Cache.entry_of_dir? hdir'
  have hk := dirHandle?_of_entry he hobj
  have hk' := dirHandle?_of_entry he' hobj'
  have hlive : Live c r.dirsrc e.handle dir.hasBeenReaddir := ⟨h.owns he hobj, by rw [he]; rfl⟩
  have hlive' : Live c r.dirdest e'.handle dir'.hasBeenReaddir :=
    ⟨h.owns he' hobj', by rw [he']; rfl⟩
  -- what the FSAL answers
  simp only [World.agrees, World.onDir, hk, hk', Option.all_some, Bool.and_eq_true] at hagrees
  obtain ⟨⟨hfindsSrc, hrenamed⟩, ⟨hfindsDest, hunlinked⟩, hdot⟩ := hagrees
  have hhas : r.renamed = true → isDot r.oldname = false ∧ r.oldname ∈ f e.handle := by
    intro hren
    simpa [hren, Fsal.has] using hrenamed
  have hold : r.renamed = true → r.oldname ∈ f e.handle := fun hren => (hhas hren).2
  have holdDot : r.renamed = true → isDot r.oldname = false := fun hren => (hhas hren).1
  have hsame : r.dirsrc = r.dirdest → e.handle = e'.handle ∧
      dir.hasBeenReaddir = dir'.hasBeenReaddir := by
    intro heq
    rw [heq] at he hdir
    obtain rfl := Option.some.inj (he.symm.trans he')
    obtain rfl := Option.some.inj (hdir.symm.trans hdir')
    exact ⟨rfl, rfl⟩
  have hne : r.dirsrc ≠ r.dirdest → e.handle ≠ e'.handle := fun hne heq =>
    hne (h.hash.eq_of_handle he he' heq)
  have hanswers : ∀ {c : Cache} {d k b name found}, Live c d k b → f.finds k name found = true →
      found.isSome = true → ∀ k', c.dirHandle? d = some k' → f.finds k' name found = true := by
    intro c d k b name found hlive hfinds _ k' hk'
    rw [hlive.dirHandle?] at hk'
    rwa [← Option.some.inj hk']
  split at hr
  · cases hr
  · next c₁ hsrc =>
    cases hr
    simp only [hsrc]
    exact (h.lookup (hanswers hlive hfindsSrc) hsrc).tracked
  rename_i c₁ a hsrc
  have hlooked1 := h.lookup (hanswers hlive hfindsSrc) hsrc
  have hlive1 := hlooked1.live _ _ _ hlive'
  simp only [hsrc] at hfits ⊢
  split at hr
  · cases hr
  · -- there is no object with the new name
    next c₂ hdest =>
    have hlooked2 := hlooked1.tracked.lookup (hanswers hlive1 hfindsDest) hdest
    simp only [hdest, World.afterMove, hk, hk'] at hfits ⊢
    split at hr
    · next hren =>
      rw [if_pos hren]
      have hdot' : isDot r.newname = false := by simpa [hren] using hdot
      refine hlooked2.tracked.move (hlooked2.live _ _ _ (hlooked1.live _ _ _ hlive)).1
        (hlooked2.live _ _ _ hlive1).1 hsame hne (fun _ => hold hren)
          (fun hb => ?_) hren hfits hr
      exact hlooked1.tracked.lookup_missed (hb ▸ hlive1) hdot' hdest
    · next hren =>
      rw [if_neg hren]
      cases hr
      exact hlooked2.tracked
  · -- the object with the new name goes first
    next c₂ x hdest =>
    have hlooked2 := hlooked1.tracked.lookup (hanswers hlive1 hfindsDest) hdest
    have hsrc2 := hlooked2.live _ _ _ (hlooked1.live _ _ _ hlive)
    have hdest2 := hlooked2.live _ _ _ hlive1
    simp only [hdest, Bool.and_eq_true] at hfits ⊢
    obtain ⟨hremove, hmove⟩ := hfits
    split at hr
    · cases hr
    rename_i c₃ goesOn hreplace
    have hremoved := hlooked2.tracked.replace (fun hun k hk2 => by
      rw [hdest2.dirHandle?] at hk2
      simpa [hun, ← Option.some.inj hk2] using hunlinked) hremove hreplace
    simp only [hreplace] at hmove ⊢
    rcases goesOn with - | goesOn
    · obtain rfl : c₃ = c' := by simpa using hr
      exact hremoved.tracked
    simp only [Option.isSome_some, if_true, World.inDir, hdest2.dirHandle?] at hremoved
    cases goesOn with
    | false =>
      obtain rfl : c₃ = c' := by simpa using hr
      simpa only [World.inDir, hk'] using hremoved.tracked
    | true =>
      simp only [World.inDir, World.afterMove, hk, hk', true_and] at hr ⊢
      split at hr
      · next hren =>
        rw [if_pos hren]
        refine hremoved.tracked.move (hremoved.owns _ _ _ hsrc2) (hremoved.owns _ _ _ hdest2)
          hsame hne (fun hcase => ?_) (fun _ => ?_) hren hmove hr
        · by_cases heq : r.dirsrc = r.dirdest
          · -- within one directory the two names are different
            have hread := hcase.resolve_left fun hne => hne heq
            obtain ⟨hkk', hbb'⟩ := hsame heq
            have hnames : r.oldname ≠ r.newname := by
              intro hname
              obtain ⟨rfl, dir1, x1, hdir1, hx1, hax⟩ :=
                h.lookup_hit (hread ▸ hlive) (holdDot hren) (hold hren) hsrc
              obtain ⟨-, dir2, x2, hdir2, hx2, hbx⟩ := h.lookup_hit
                ((hbb'.symm.trans hread) ▸ hlive') (hname ▸ holdDot hren)
                (hname ▸ hkk' ▸ hold hren) hdest
              rw [← heq, hdir1] at hdir2
              cases hdir2
              rw [← hname, hx1] at hx2
              obtain rfl := Option.some.inj (Option.some.inj hx2)
              cases hax
              cases hbx
              rw [replace_self] at hreplace
              cases (Prod.mk.inj (Option.some.inj hreplace)).2
            have hmem : r.oldname ∈ {n | n ∈ f.leave e'.handle r.newname e'.handle} := by
              rw [Fsal.leave_names]
              exact ⟨hkk' ▸ hold hren, hnames⟩
            rw [hkk']
            exact hmem
          · rw [Fsal.leave_of_ne (hne heq)]
            exact hold hren
        · have hmem : r.newname ∉ {n | n ∈ f.leave e'.handle r.newname e'.handle} := by
            rw [Fsal.leave_names]
            exact fun hmem => hmem.2 rfl
          exact hmem
      · next hren =>
        rw [if_neg hren]
        cases hr
        exact hremoved.tracked

/-! ### Reading a directory -/

/-- A directory that is being filled, with the names that are in it. -/
def Filled (c : Cache) (d : ℕ) (s : Set String) : Prop :=
  ∃ dir, c.dir? d = some dir ∧ Lists dir.nameAt s

theorem Tracked.addOne (h : Tracked c f) (hlive : Live c d k false) {x : Found}
    (hstart : StartsIn c d start) (hnew : c.newEntry x fresh = some (c₁, a))
    (hadd : c₁.addDirent d start name a m = some (c₂, r)) :
    Tracked c₂ f ∧ Live c₂ d k false ∧ (∀ j, StartsIn c d j → StartsIn c₂ d j) ∧
      ∀ i, r = some i → StartsIn c₂ d i ∧
        ∀ s : Set String, Filled c d s → name ∉ s → Filled c₂ d (insert name s) := by
  have hlooked := h.lookedNew hnew
  have hlive1 := hlooked.live d k false hlive
  obtain ⟨dir, hdir, hopen⟩ := hstart
  have hdir1 := Cache.newEntry_dir? hnew hdir
  have hopen1 : ∀ dir', c₁.dir? d = some dir' → OpenUpTo dir' start := by
    intro dir' hdir'
    obtain rfl := Option.some.inj (hdir1.symm.trans hdir')
    exact hopen.2
  obtain ⟨dir', q, -, hq, hadded, hdir', hwritten⟩ :=
    hlooked.tracked.addDirent hlive1.1 hdir1 hopen.2 hadd
  have hread : dir'.hasBeenReaddir = false := by
    obtain ⟨-, -, -, -, hb⟩ := hlive1.1.dir? hdir1
    rw [hadded.hasBeenReaddir, hb]
  refine ⟨hwritten f (fun _ _ => rfl) fun htrue => ?_,
    ⟨hlive1.1.addDirent hlooked.tracked hopen1 hadd, by rw [addDirent_live hadd]; exact hlive1.2⟩,
    fun j hj => ?_, fun i hi => ⟨?_, fun s hs hname => ?_⟩⟩
  · rw [hread] at htrue
    cases htrue
  · obtain ⟨dir0, hdir0, hat⟩ := hj
    obtain rfl := Option.some.inj (hdir.symm.trans hdir0)
    exact ⟨dir', hdir', hadded.startsAt j hat⟩
  · obtain ⟨p, rfl, rfl⟩ := Option.map_eq_some_iff.mp (hq.symm.trans hi)
    exact ⟨dir', hdir', (hadded.placed p.1 p.2 rfl).2.1⟩
  · obtain ⟨p, rfl, rfl⟩ := Option.map_eq_some_iff.mp (hq.symm.trans hi)
    obtain ⟨dir0, hdir0, hlists⟩ := hs
    obtain rfl := Option.some.inj (hdir.symm.trans hdir0)
    exact ⟨dir', hdir', hadded.lists hlists hname⟩

/-- What the loops of a readdir keep, and what they add. -/
structure Populated (c c' : Cache) (f : Fsal) (d k : ℕ) (next' : Option ℕ) (added : Bool)
    (names : List String) : Prop where
  tracked : Tracked c' f
  live : Live c' d k false
  next : ∀ j, next' = some j → StartsIn c' d j
  filled : added = true → names.Nodup → ∀ s : Set String, (∀ n ∈ names, n ∉ s) → Filled c d s →
    Filled c' d (s ∪ {n | n ∈ names})

theorem Tracked.populated (h : Tracked c f) (hlive : Live c d k false)
    (hn : ∀ j, next = some j → StartsIn c d j) (names : List String) :
    Populated c c f d k next false names :=
  ⟨h, hlive, hn, fun hadded => by cases hadded⟩

theorem Tracked.populateBatch {xs : List Dirent} {next' : Option ℕ} (h : Tracked c f)
    (hlive : Live c d k false) (hp : ∀ j, parent = some j → StartsIn c d j)
    (hn : ∀ j, next = some j → StartsIn c d j)
    (hr : Cache.populateBatch c d parent next xs = some (c', next', added)) :
    Populated c c' f d k next' added (addedNames xs) := by
  induction xs generalizing c next with
  | nil =>
    obtain ⟨rfl, rfl, -⟩ : c = c' ∧ next = next' ∧ true = added := by
      simpa [Cache.populateBatch] using hr
    refine ⟨h, hlive, hn, fun _ _ s _ hs => ?_⟩
    simpa [addedNames] using hs
  | cons x xs ih =>
    simp only [Cache.populateBatch] at hr
    split at hr
    · next hdot =>
      have hdot' : isDot x.name = true := by simpa [isDot] using hdot
      have hskip : addedNames (x :: xs) = addedNames xs := by simp [addedNames, hdot']
      rw [hskip]
      exact ih h hlive hp hn hr
    rename_i hdot
    have hdot' : isDot x.name = false := by simpa [isDot] using hdot
    have hcons : addedNames (x :: xs) = x.name :: addedNames xs := by simp [addedNames, hdot']
    split at hr
    · cases hr
      exact h.populated hlive hn _
    split at hr
    · cases hr
      exact h.populated hlive hn _
    rename_i c₁ a hnew
    split at hr
    · cases hr
    rename_i start
    split at hr
    · cases hr
    · next c₂ hadd =>
      cases hr
      obtain ⟨htracked, hlive2, hkeep, -⟩ := h.addOne hlive (hp start rfl) hnew hadd
      exact ⟨htracked, hlive2, fun j hj => hkeep j (hn j hj), fun hadded => by cases hadded⟩
    rename_i c₂ i hadd
    obtain ⟨htracked, hlive2, hkeep, hplaced⟩ := h.addOne hlive (hp start rfl) hnew hadd
    obtain ⟨hstart, hfilled⟩ := hplaced i rfl
    have hrest := ih htracked hlive2 (fun j hj => hkeep j (hp j hj))
      (fun j hj => Option.some.inj hj ▸ hstart) hr
    refine ⟨hrest.tracked, hrest.live, hrest.next, fun hadded hnodup s hs hfill => ?_⟩
    rw [hcons] at hnodup hs ⊢
    obtain ⟨hnot, hnodup'⟩ := List.nodup_cons.mp hnodup
    have hone := hfilled s hfill (hs x.name (.head _))
    have hall := hrest.filled hadded hnodup' (insert x.name s) (fun n hn hmem => ?_) hone
    · have hset : insert x.name s ∪ {n | n ∈ addedNames xs} =
          s ∪ {n | n ∈ x.name :: addedNames xs} := by
        ext n
        simp only [Set.mem_union, Set.mem_insert_iff, Set.mem_ofPred_eq, List.mem_cons]
        tauto
      rwa [hset] at hall
    · rcases hmem with rfl | hmem
      · exact hnot hn
      · exact hs n (.tail _ hn) hmem

theorem Tracked.populateBatches {bs : List (List Dirent)} (h : Tracked c f)
    (hlive : Live c d k false) (hp : ∀ j, parent = some j → StartsIn c d j)
    (hn : ∀ j, next = some j → StartsIn c d j)
    (hr : Cache.populateBatches c d parent next bs = some (c', added)) :
    Populated c c' f d k none added (addedNames bs.flatten) := by
  induction bs generalizing c parent next with
  | nil =>
    obtain ⟨rfl, -⟩ : c = c' ∧ true = added := by simpa [Cache.populateBatches] using hr
    refine ⟨h, hlive, fun j hj => (by cases hj), fun _ _ s _ hs => ?_⟩
    simpa [addedNames] using hs
  | cons xs bs ih =>
    simp only [Cache.populateBatches] at hr
    split at hr
    · cases hr
    · next c₁ next1 hb =>
      cases hr
      have hbatch := h.populateBatch hlive hp hn hb
      exact ⟨hbatch.tracked, hbatch.live, fun j hj => (by cases hj), fun hadded => by cases hadded⟩
    rename_i c₁ next1 hb
    have hbatch := h.populateBatch hlive hp hn hb
    have hrest := ih hbatch.tracked hbatch.live hbatch.next hbatch.next hr
    have happend : addedNames (xs :: bs).flatten = addedNames xs ++ addedNames bs.flatten := by
      simp [addedNames]
    refine ⟨hrest.tracked, hrest.live, fun j hj => (by cases hj),
      fun hadded hnodup s hs hfill => ?_⟩
    rw [happend] at hnodup hs ⊢
    obtain ⟨hnodup1, hnodup2, hdisjoint⟩ := List.nodup_append.mp hnodup
    have hone := hbatch.filled rfl hnodup1 s (fun n hn => hs n (List.mem_append_left _ hn)) hfill
    have hall := hrest.filled hadded hnodup2 _ (fun n hn hmem => ?_) hone
    · have hset : s ∪ {n | n ∈ addedNames xs} ∪ {n | n ∈ addedNames bs.flatten} =
          s ∪ {n | n ∈ addedNames xs ++ addedNames bs.flatten} := by
        ext n
        simp only [Set.mem_union, Set.mem_ofPred_eq, List.mem_append]
        tauto
      rwa [hset] at hall
    · rcases hmem with hmem | hmem
      · exact hs n (List.mem_append_right _ hn) hmem
      · exact hdisjoint n hmem n hn rfl

theorem Tracked.setUnread (h : Tracked c f) (hdir : c.dir? d = some dir)
    (hshape : Shape SlotsOk dir') (hunread : dir'.hasBeenReaddir = false) :
    Tracked (c.setDir d dir') f := by
  obtain ⟨e, he, hobj⟩ := Cache.entry_of_dir? hdir
  refine h.setDir (h.owns he hobj) hdir hshape (fun _ _ => rfl) fun hread => ?_
  rw [hunread] at hread
  cases hread

theorem Tracked.populate (h : Tracked c f) {r : PopulateRun}
    (hagrees : ∀ k, c.dirHandle? d = some k → r.opened = true → r.complete = true →
      r.names.Perm (f k).keys) (hr : c.populate d r = some c') : Tracked c' f := by
  unfold Cache.populate at hr
  split at hr
  · cases hr
    exact h
  rename_i dir hdir
  split at hr
  · cases hr
    exact h
  obtain ⟨hshape, hempty⟩ := (h.shape d dir hdir).invalidated slotsOk_keeping
  have htracked := h.setUnread hdir hshape rfl
  split at hr
  · cases hr
    exact htracked
  rename_i hopened
  obtain ⟨q, hq, rfl⟩ := Option.map_eq_some_iff.mp hr
  obtain ⟨e, he, hobj⟩ := Cache.entry_of_dir? hdir
  have hk := dirHandle?_of_entry he hobj
  have hdir0 : (c.setDir d (invalidateAllCachedDirent dir)).dir? d =
      some (invalidateAllCachedDirent dir) := by
    rw [Cache.setDir_dir? hdir, if_pos rfl]
  have hlive : Live (c.setDir d (invalidateAllCachedDirent dir)) d e.handle false := by
    have he0 : (c.setDir d (invalidateAllCachedDirent dir)).entry d =
        some { e with object := .dirBeginning (invalidateAllCachedDirent dir) } := by
      simp [Cache.setDir, Cache.modify_entry, he]
    exact ⟨htracked.owns he0 rfl, by rw [he0]; rfl⟩
  have hloop : Cache.populateBatches (c.setDir d (invalidateAllCachedDirent dir)) d (some 0)
      none r.batches = some (q.1, q.2) := hq
  have hfinal := htracked.populateBatches hlive (fun j hj => ⟨_, hdir0, by
    cases hj
    exact ⟨Nat.zero_le _, openUpTo_zero _⟩⟩) (fun j hj => by cases hj) hloop
  split
  · next hdone =>
    simp only [Bool.and_eq_true] at hdone
    have hperm := hagrees e.handle hk (by simpa using hopened) hdone.2
    have hnodup : r.names.Nodup := hperm.nodup_iff.mpr (f e.handle).keys_nodup
    obtain ⟨dir', hdir', hlists⟩ := hfinal.filled hdone.1 hnodup ∅ (fun _ _ hmem => hmem)
      ⟨_, hdir0, hempty.lists⟩
    -- what was found is what the FSAL has
    have hset : ∅ ∪ {n | n ∈ addedNames r.batches.flatten} = {n | n ∈ f e.handle} := by
      rw [Set.empty_union]
      exact Set.ext fun n => hperm.mem_iff.trans AList.mem_keys.symm
    rw [hset] at hlists
    have hshape' := hfinal.tracked.shape d dir' hdir'
    simp only [Cache.setHasBeenReaddir, hdir']
    exact hfinal.tracked.setDir hfinal.live.1 hdir' ⟨hshape'.chunk, hshape'.nothingBehind⟩
      (fun _ _ => rfl) fun _ => hlists
  · exact hfinal.tracked

theorem Tracked.readdir (h : Tracked c f) {renewed : Bool} {r : PopulateRun}
    (hagrees : (⟨c, f⟩ : World).agrees (.readdir d renewed r) = true)
    (hr : c.readdir d renewed r = some c') : Tracked c' f := by
  have hperm : ∀ k, c.dirHandle? d = some k → r.opened = true → r.complete = true →
      r.names.Perm (f k).keys := by
    intro k hk hopened hcomplete
    simpa [World.agrees, World.onDir, hk, hopened, hcomplete] using hagrees
  unfold Cache.readdir at hr
  cases renewed with
  | false => exact h.populate hperm hr
  | true =>
    simp only [if_true, Cache.setHasBeenReaddir] at hr
    cases hdir : c.dir? d with
    | none =>
      simp only [hdir] at hr
      exact h.populate hperm hr
    | some dir =>
      simp only [hdir] at hr
      have hshape := h.shape d dir hdir
      have hunread : Tracked (c.setDir d { dir with hasBeenReaddir := false }) f :=
        h.setUnread hdir ⟨hshape.chunk, hshape.nothingBehind⟩ rfl
      refine hunread.populate (fun k hk => hperm k ?_) hr
      -- the handle is the same
      obtain ⟨e, he, hobj⟩ := Cache.entry_of_dir? hdir
      rw [dirHandle?_of_entry he hobj]
      simpa [Cache.dirHandle?, Cache.setDir, Cache.modify_entry, he, Object.dir?] using hk

/-! ### Dropping entries -/

theorem dropsFit_dropSlot (hdir : c.dir? l.dir = some dir) (hfits : c.dropsFit ls = true) :
    (c.setDir l.dir (dir.dropSlot l.chunk l.subdirpos)).dropsFit ls = true := by
  refine List.all_eq_true.mpr fun l' hl' => ?_
  have hfit := List.all_eq_true.mp hfits l' hl'
  rw [Cache.setDir_dir? hdir]
  by_cases hl : l'.dir = l.dir
  · simp only [Bool.or_eq_true, decide_eq_true_eq, hl, hdir, Option.all_some, if_true,
      Bool.not_eq_true', Option.isNone_iff_eq_none, dropSlot_entryAt] at hfit ⊢
    rcases hfit with hzero | hunread | hnone
    · exact .inl hzero
    · refine .inr (.inl ?_)
      simp [Dir.dropSlot, hunread]
    · refine .inr (.inr ?_)
      split
      · rfl
      · exact hnone
  · rw [if_neg hl]
    exact hfit

/-- **A slot is dropped** that is in a `DIR_BEGINNING`, or not active, or in a directory that has
not been read. -/
theorem Tracked.dropSlot (h : Tracked c f) (hdir : c.dir? l.dir = some dir)
    (hfits : c.dropsFit [l] = true) :
    Tracked (c.setDir l.dir (dir.dropSlot l.chunk l.subdirpos)) f := by
  obtain ⟨e, he, hobj⟩ := Cache.entry_of_dir? hdir
  refine h.setDir (h.owns he hobj) hdir ((h.shape l.dir dir hdir).dropSlot _ _) (fun _ _ => rfl)
    fun hread => ?_
  by_cases hzero : l.chunk = 0
  · simp [Dir.dropSlot, hzero] at hread
  have hread' : dir.hasBeenReaddir = true := by simpa [Dir.dropSlot, hzero] using hread
  have hnone : dir.entryAt l.chunk l.subdirpos = none := by
    simpa [Cache.dropsFit, hdir, hzero, hread'] using hfits
  have hsame : (dir.dropSlot l.chunk l.subdirpos).nameAt = dir.nameAt := by
    refine nameAt_congr fun i j => ?_
    rw [dropSlot_entryAt]
    split
    · next hij => rw [hij.1, hij.2, hnone]
    · rfl
  rw [hsame]
  exact h.names l.dir e dir he hobj hread'

theorem Tracked.invalidateRelated {ok : Bool} (h : Tracked c f) (hfits : c.dropsFit ls = true)
    (hr : Cache.invalidateRelated c ls = some (c', ok)) : Tracked c' f := by
  induction ls generalizing c with
  | nil =>
    obtain ⟨rfl, -⟩ : c = c' ∧ true = ok := by simpa [Cache.invalidateRelated] using hr
    exact h
  | cons l ls ih =>
    simp only [Cache.invalidateRelated] at hr
    have hhead : c.dropsFit [l] = true := by
      simp only [Cache.dropsFit, List.all_cons, Bool.and_eq_true] at hfits
      simpa [Cache.dropsFit] using hfits.1
    have htail : c.dropsFit ls = true := by
      simp only [Cache.dropsFit, List.all_cons, Bool.and_eq_true] at hfits
      exact hfits.2
    split at hr
    · cases hr
    rename_i e he
    split at hr
    · cases hr
      exact h
    rename_i dir hobj
    have hdir : c.dir? l.dir = some dir := by simp [Cache.dir?, he, hobj]
    split at hr
    · cases hr
    split at hr
    · cases hr
      exact h
    · exact ih (h.dropSlot hdir hhead) (dropsFit_dropSlot hdir htail) hr

theorem Tracked.release (h : Tracked c f) (a : ℕ) (e : Entry) : Tracked (c.release a e) f := by
  unfold Cache.release
  split
  · exact h
  · exact h.clean a

theorem Tracked.gcSuppress (h : Tracked c f) (hfits : c.gcFits a = true)
    (hr : c.gcSuppress a = some c') : Tracked c' f := by
  unfold Cache.gcSuppress at hr
  split at hr
  · cases hr
  rename_i e he
  have hinvalid : Tracked (c.setInvalid a) f := h.modify (fun _ => rfl) fun _ => rfl
  simp only [Cache.gcFits, he, Option.all_some] at hfits
  have hdrop : c.dropsFit e.parents = true →
      (Cache.invalidateRelated (c.setInvalid a) e.parents).map
        (fun q => if q.2 then q.1.release a e else q.1) = some c' → Tracked c' f := by
    intro hfit hr
    obtain ⟨q, hq, rfl⟩ := Option.map_eq_some_iff.mp hr
    have hfit' : (c.setInvalid a).dropsFit e.parents = true := by
      have hdirs : (c.setInvalid a).dir? = c.dir? := by
        funext x
        exact Cache.modify_dir? (f := fun e => { e with valid := false }) (fun _ => rfl) x
      rw [Cache.dropsFit, hdirs]
      exact hfit
    have hloop : Cache.invalidateRelated (c.setInvalid a) e.parents = some (q.1, q.2) := hq
    have htracked := hinvalid.invalidateRelated hfit' hloop
    split
    · exact htracked.release a e
    · exact htracked
  split at hr
  · cases hr
    exact h
  · next dir hobj =>
    simp only [hobj] at hfits
    split at hr
    · next hempty => exact hdrop (by simpa [hempty] using hfits) hr
    · cases hr
      exact hinvalid
  · next hspecial hnodir =>
    refine hdrop ?_ hr
    cases hobj : e.object with
    | special => exact absurd hobj hspecial
    | dirBeginning dir => exact absurd hobj (hnodir dir)
    | _ => simpa [hobj] using hfits

theorem Tracked.kill (h : Tracked c f)
    (hfits : (c.entry a).all (fun e => c.dropsFit e.parents) = true) (hr : c.kill a = some c') :
    Tracked c' f := by
  unfold Cache.kill at hr
  split at hr
  · cases hr
  rename_i e he
  obtain ⟨q, hq, rfl⟩ := Option.map_eq_some_iff.mp hr
  have hloop : Cache.invalidateRelated c e.parents = some (q.1, q.2) := hq
  exact (h.invalidateRelated (by simpa [he] using hfits) hloop).release a e

/-! ### Runs -/

theorem Tracked.get (h : Tracked c f) {x : Found} :
    Tracked (((c.newEntry x m.entry).map Prod.fst).getD c) f := by
  cases hnew : c.newEntry x m.entry with
  | none => exact h
  | some q => exact h.newEntry (a := q.2) hnew

end

/-- **A call** keeps the directories that were read complete, if it meets the condition. -/
theorem Tracked.step {w w' : World} (h : Tracked w.cache w.fsal) {call : Call}
    (hs : w.step call = some w') (hkeeps : KeepsComplete w call) : Tracked w'.cache w'.fsal := by
  unfold World.step at hs
  split at hs
  · next hagrees =>
    obtain ⟨c', hc', rfl⟩ := Option.map_eq_some_iff.mp hs
    replace hc' := (step_eq_some hc').2
    replace hkeeps := hkeeps.2
    cases call with
    | get x m =>
      cases hc'
      exact h.get
    | lookup d name found m =>
      obtain ⟨q, hq, rfl⟩ := Option.map_eq_some_iff.mp hc'
      have hlookup : w.cache.lookup d name found m = some (q.1, q.2) := hq
      refine (h.lookup (fun _ k hk => ?_) hlookup).tracked
      simpa [World.agrees, World.onDir, hk] using hagrees
    | create d name found m created m' => exact h.create hagrees hkeeps hc'
    | link src d name found m linked m' => exact h.link hagrees hkeeps hc'
    | remove d name found m unlinked =>
      obtain ⟨⟨c₁, ok⟩, hremove, rfl⟩ := Option.map_eq_some_iff.mp hc'
      have hanswers : ∀ k, w.cache.dirHandle? d = some k → w.fsal.finds k name found = true ∧
          (unlinked = false ∨ w.fsal.has k name = true) := by
        intro k hk
        simpa [World.agrees, World.onDir, hk] using hagrees
      have hremoved := h.remove (fun _ k hk => (hanswers k hk).1)
        (fun hun k hk => (hanswers k hk).2.resolve_left (by simp [hun])) hkeeps hremove
      have hfsal : w.fsalAfter (.remove d name found m unlinked) =
          if ok.isSome then w.inDir d fun f k => f.leave k name else w.fsal := by
        simp only [World.fsalAfter, hremove]
        cases ok <;> rfl
      rw [hfsal]
      exact hremoved.tracked
    | rename r => exact h.rename hagrees hkeeps hc'
    | readdir d renewed r => exact h.readdir hagrees hc'
    | gc a => exact h.gcSuppress hkeeps hc'
    | kill a => exact h.kill hkeeps hc'
    | valid a lruEntry =>
      cases hc'
      obtain rfl : lruEntry = true := hkeeps
      exact h.modify (fun _ => rfl) fun _ => rfl
  · cases hs

end InodeCache

end CloudNfs
