import CloudNfs.Run
import Mathlib.Data.List.Basic

/-!
# Cached directories

The inode cache keeps the entries of a directory in a chain of chunks of sixteen slots:
a `DIR_BEGINNING` and the `DIR_CONTINUE`s that follow it through `pdir_cont`. A chunk
counts its active slots, says whether it is the end of the directory, and a
`DIR_CONTINUE` knows its position, its predecessor and its `DIR_BEGINNING`.

* A chain is a list of chunks here: `pdir_cont` is only ever set to a new chunk behind
  the last one, or to the chunk it already leads to. The other pointers are addresses
  kept as they are written.
* A search that runs past the last chunk, and a directory that is killed because its
  handle is stale, have no next state.
* What the allocators, the FSAL and the other entries of the cache answer is part of the
  call.
-/

namespace CloudNfs

namespace DirChain

def childrenArraySize : ℕ := 16

/-- `cache_inode_dir_entry_t`. -/
structure Slot where
  /-- `active` is `VALID` -/
  active : Bool
  /-- `pentry`; `none` is `NULL` -/
  pentry : Option ℕ
  name : String
  deriving DecidableEq

structure Chunk where
  addr : ℕ
  /-- `pdir_data->dir_entries` -/
  slots : List Slot
  nbactive : ℕ
  endOfDir : Bool
  /-- `dir_cont_pos`, in a `DIR_CONTINUE` -/
  dirContPos : ℕ
  /-- `pdir_begin`, in a `DIR_CONTINUE` -/
  pdirBegin : ℕ
  /-- `pdir_prev`, in a `DIR_CONTINUE` -/
  pdirPrev : ℕ

/-- A directory: the chain from its `DIR_BEGINNING` on, and what only that has. -/
structure Dir where
  chunks : List Chunk
  nbdircont : ℕ
  pdirLast : ℕ
  /-- `has_been_readdir` is `CACHE_INODE_YES` -/
  hasBeenReaddir : Bool

def emptySlots : List Slot := List.replicate childrenArraySize ⟨false, none, ""⟩

/-- `cache_inode_new_entry` for a `DIR_BEGINNING` at the address `addr`. -/
def newDir (addr : ℕ) : Dir := ⟨[⟨addr, emptySlots, 0, true, 0, 0, 0⟩], 0, addr, false⟩

/-- `cache_inode_new_entry` for a `DIR_CONTINUE` behind `prev`, the chunk of index `i`. -/
def newDirCont (addr i : ℕ) (prev : Chunk) : Chunk where
  addr := addr
  slots := emptySlots
  nbactive := 0
  endOfDir := true
  dirContPos := if i = 0 then 1 else (prev.dirContPos + 1) % 2 ^ 32
  pdirBegin := if i = 0 then prev.addr else prev.pdirBegin
  pdirPrev := prev.addr

/-! ### Adding an entry -/

/-- The loop over the slots of a chunk whose counter says that one is free. -/
def Chunk.freeSlot (c : Chunk) : Option ℕ :=
  if c.nbactive ≠ childrenArraySize then
    c.slots.findIdx? fun s => !s.active || s.pentry.isNone
  else none

/-- Where the search for a free slot ends. -/
inductive Place where
  /-- at a slot of the chunk of this index -/
  | slot (i j : ℕ)
  /-- at the end of the directory, the chunk of this index, without a free slot -/
  | full (i : ℕ)
  deriving DecidableEq

/-- The search from a chunk on, whose index is `i`; `none` when it follows a null pointer. -/
def searchSlot (i : ℕ) : List Chunk → Option Place
  | [] => none
  | c :: cs =>
    match c.freeSlot with
    | some j => some (.slot i j)
    | none => if c.endOfDir then some (.full i) else searchSlot (i + 1) cs

/-- The chunk with an entry written into a slot. `FSAL_namecpy` of a null pointer fails: the counter
goes down again, and the slot stays. -/
def Chunk.fill (c : Chunk) (j pentry : ℕ) (name : Option String) : Chunk :=
  { c with
    slots := c.slots.modify j fun s => ⟨true, some pentry, name.getD s.name⟩
    nbactive := if name.isSome then (c.nbactive + 1) % 2 ^ 32 else c.nbactive }

/-- The last part of `cache_inode_add_cached_dirent`: the link to the parent is allocated, and the
slot is written. The result has the place of the slot on success. -/
def Dir.place (d : Dir) (i j pentry : ℕ) (name : Option String) (newParent : Bool) :
    Dir × Option (ℕ × ℕ) :=
  if newParent = false then (d, none)
  else
    ({ d with chunks := d.chunks.modify i fun c => c.fill j pentry name },
      if name.isSome then some (i, j) else none)

/-- The chunk of index `i` is chained with the chunk at `addr` behind it. -/
def Dir.chain (d : Dir) (i addr : ℕ) : Dir :=
  { d with
    chunks := d.chunks.modify i fun c => { c with endOfDir := false }
    nbdircont := (d.nbdircont + 1) % 2 ^ 32
    pdirLast := addr }

/-- A new `DIR_CONTINUE` at `addr` is chained behind `prev`, the chunk of index `i`. -/
def Dir.extend (d : Dir) (i addr : ℕ) (prev : Chunk) : Dir :=
  { d.chain i addr with chunks := (d.chain i addr).chunks ++ [newDirCont addr i prev] }

/-- `cache_inode_add_cached_dirent` from the chunk of index `start` on. `newChunk` is the address of
a new `DIR_CONTINUE`, if one can be allocated, and `newParent` whether the link can. -/
def addCachedDirent (d : Dir) (start : ℕ) (name : Option String) (pentry : ℕ)
    (newChunk : Option ℕ) (newParent : Bool) : Option (Dir × Option (ℕ × ℕ)) :=
  match searchSlot start (d.chunks.drop start) with
  | none => none
  | some (.slot i j) => some (d.place i j pentry name newParent)
  | some (.full i) =>
    match d.chunks[i + 1]? with
    | some next => some ((d.chain i next.addr).place (i + 1) 0 pentry name newParent)
    | none =>
      match newChunk, d.chunks[i]? with
      | some addr, some prev => some ((d.extend i addr prev).place (i + 1) 0 pentry name newParent)
      | _, _ => some (d, none)

/-! ### Removing and renaming an entry -/

/-- The search for a name from a chunk on, whose index is `i`; `valid` tells which entries of the
cache are in the state `VALID`. -/
def searchName (valid : ℕ → Bool) (name : Option String) (i : ℕ) :
    List Chunk → Option (Option (ℕ × ℕ))
  | [] => none
  | c :: cs =>
    match c.slots.findIdx? fun s =>
        s.active && s.pentry.any valid && decide (name = some s.name) with
    | some j => some (some (i, j))
    | none => if c.endOfDir then some none else searchName valid name (i + 1) cs

/-- The chunk without the entry of a slot. -/
def Chunk.drop (c : Chunk) (j : ℕ) : Chunk :=
  { c with
    slots := c.slots.modify j fun s => { s with active := false }
    nbactive := (c.nbactive + (2 ^ 32 - 1)) % 2 ^ 32 }

/-- The chunk with another name in a slot; a null pointer is refused. -/
def Chunk.rename (c : Chunk) (j : ℕ) (newname : Option String) : Chunk :=
  { c with slots := c.slots.modify j fun s => { s with name := newname.getD s.name } }

/-- `cache_inode_remove_cached_dirent`, as far as the chain goes. -/
def removeCachedDirent (d : Dir) (valid : ℕ → Bool) (name : Option String) : Option Dir :=
  match searchName valid name 0 d.chunks with
  | none => none
  | some none => some d
  | some (some (i, j)) => some { d with chunks := d.chunks.modify i fun c => c.drop j }

/-- `cache_inode_rename_cached_dirent`. -/
def renameCachedDirent (d : Dir) (valid : ℕ → Bool) (name newname : Option String) : Option Dir :=
  match searchName valid name 0 d.chunks with
  | none => none
  | some none => some d
  | some (some (i, j)) => some { d with chunks := d.chunks.modify i fun c => c.rename j newname }

/-! ### Invalidating and populating a directory -/

/-- A chunk without any entry. -/
def Chunk.invalidate (c : Chunk) : Chunk :=
  { c with
    slots := c.slots.map fun s => { s with active := false }
    nbactive := 0 }

/-- `cache_inode_invalidate_all_cached_dirent`. -/
def invalidateAllCachedDirent (d : Dir) : Dir :=
  { d with
    chunks := (d.chunks.map Chunk.invalidate).modify 0 fun c => { c with endOfDir := true }
    hasBeenReaddir := false }

/-- An entry that `FSAL_readdir` finds, with what happens to it. -/
structure Dirent where
  name : String
  /-- `FSAL_readlink` of a symbolic link fails; whether it does with `ERR_FSAL_STALE` -/
  readlinkError : Option Bool
  newEntry : Option ℕ
  /-- the address of a new chunk, if one can be allocated -/
  newChunk : Option ℕ
  /-- the link to the parent can be allocated -/
  newParent : Bool

/-- What the FSAL answers to `cache_inode_readdir_populate`. -/
structure PopulateRun where
  /-- `FSAL_opendir` fails; whether it does with `ERR_FSAL_STALE` -/
  opendirError : Option Bool
  /-- what the calls of `FSAL_readdir` find -/
  batches : List (List Dirent)
  /-- the last call says that the directory ends, and `FSAL_closedir` succeeds -/
  complete : Bool

/-- One of `.` and `..`. -/
def Dirent.IsDot (x : Dirent) : Prop := x.name = "." ∨ x.name = ".."

instance (x : Dirent) : Decidable x.IsDot := inferInstanceAs (Decidable (_ ∨ _))

/-- The loop over the entries of one call of `FSAL_readdir`, with `pentry_parent` and
`next_pentry_parent`; the result tells whether all of them were added. -/
def populateBatch (d : Dir) (parent next : Option ℕ) : List Dirent → Option (Dir × Option ℕ × Bool)
  | [] => some (d, next, true)
  | x :: xs =>
    if x.IsDot then populateBatch d parent next xs
    else
      match x.readlinkError with
      | some stale => if stale then none else some (d, next, false)
      | none =>
        match x.newEntry with
        | none => some (d, next, false)
        | some pentry =>
          match parent with
          | none => none
          | some start =>
            match addCachedDirent d start (some x.name) pentry x.newChunk x.newParent with
            | none => none
            | some (d', none) => some (d', next, false)
            | some (d', some (i, _)) => populateBatch d' parent (some i) xs

/-- The loop over the calls of `FSAL_readdir`. -/
def populateBatches (d : Dir) (parent next : Option ℕ) :
    List (List Dirent) → Option (Dir × Bool)
  | [] => some (d, true)
  | b :: bs =>
    match populateBatch d parent next b with
    | none => none
    | some (d', _, false) => some (d', false)
    | some (d', next', true) => populateBatches d' next' next' bs

/-- `cache_inode_readdir_populate`. -/
def readdirPopulate (d : Dir) (r : PopulateRun) : Option Dir :=
  if d.hasBeenReaddir then some d
  else
    match r.opendirError with
    | some stale => if stale then none else some (invalidateAllCachedDirent d)
    | none =>
      match populateBatches (invalidateAllCachedDirent d) (some 0) none r.batches with
      | none => none
      | some (d', added) => some { d' with hasBeenReaddir := added && r.complete }

/-! ### The invariant -/

/-- **The chain.** -/
structure ChainOk (d : Dir) : Prop where
  nbactive : ∀ c ∈ d.chunks, c.nbactive = c.slots.countP (·.active)
  /-- the first chunk is the `DIR_BEGINNING`, and each other one knows its place -/
  links : ∀ (k : ℕ) (b p c : Chunk), d.chunks[0]? = some b → d.chunks[k]? = some p →
    d.chunks[k + 1]? = some c →
    c.dirContPos = k + 1 ∧ c.pdirBegin = b.addr ∧ c.pdirPrev = p.addr
  /-- `nbdircont` counts the `DIR_CONTINUE`s -/
  nbdircont : d.nbdircont + 1 = d.chunks.length
  pdirLast : ∀ c, d.chunks[d.nbdircont]? = some c → d.pdirLast = c.addr
  /-- nothing is active behind the end of the directory -/
  nothingBehind : ∀ (i k : ℕ) (c c' : Chunk), d.chunks[i]? = some c → c.endOfDir = true → i < k →
    d.chunks[k]? = some c' → ∀ s ∈ c'.slots, s.active = false

inductive Call where
  /-- `cache_inode_add_cached_dirent` -/
  | add (name : Option String) (pentry : ℕ) (newChunk : Option ℕ) (newParent : Bool)
  /-- `cache_inode_remove_cached_dirent` -/
  | remove (valid : ℕ → Bool) (name : Option String)
  /-- `cache_inode_rename_cached_dirent` -/
  | rename (valid : ℕ → Bool) (name newname : Option String)
  /-- `cache_inode_invalidate_all_cached_dirent` -/
  | invalidateAll
  | populate (r : PopulateRun)

def step (d : Dir) : Call → Option Dir
  | .add name pentry newChunk newParent =>
    (addCachedDirent d 0 name pentry newChunk newParent).map Prod.fst
  | .remove valid name => removeCachedDirent d valid name
  | .rename valid name newname => renameCachedDirent d valid name newname
  | .invalidateAll => some (invalidateAllCachedDirent d)
  | .populate r => readdirPopulate d r

/-! ### Chunks -/

structure ChunkOk (c : Chunk) : Prop where
  length : c.slots.length = childrenArraySize
  nbactive : c.nbactive = c.slots.countP (·.active)
  pentry : ∀ s ∈ c.slots, s.active = true → s.pentry.isSome = true

/-- What a chunk keeps for itself, apart from its counter. -/
structure SlotsOk (c : Chunk) : Prop where
  length : c.slots.length = childrenArraySize
  pentry : ∀ s ∈ c.slots, s.active = true → s.pentry.isSome = true

variable {c prev : Chunk} {j pentry i n i0 start addr k : ℕ} {s : Slot} {l : List Chunk}
  {f : Chunk → Chunk} {d d' : Dir} {name : Option String} {newParent : Bool} {newChunk : Option ℕ}
  {r : Option (ℕ × ℕ)} {valid : ℕ → Bool}

theorem ChunkOk.slotsOk (h : ChunkOk c) : SlotsOk c := ⟨h.length, h.pentry⟩

/-- The address and the links of a chunk. -/
def Chunk.frame (c : Chunk) : ℕ × ℕ × ℕ × ℕ := (c.addr, c.dirContPos, c.pdirBegin, c.pdirPrev)

variable {α : Type} {q : ℕ × ℕ} {J : ℕ → Dir → Option ℕ → Prop} {parent next p : Option ℕ}
  {added : Bool} {u : Dir × Option (ℕ × ℕ)} {c' : Chunk}

theorem countP_modify (p : α → Bool) (f : α → α) {l : List α} {x : α} (hx : l[j]? = some x) :
    (l.modify j f).countP p + (if p x then 1 else 0) =
      l.countP p + (if p (f x) then 1 else 0) := by
  induction l generalizing j with
  | nil => simp at hx
  | cons y ys ih =>
    cases j with
    | zero =>
      obtain rfl : y = x := by simpa using hx
      simp only [List.modify_zero_cons, List.countP_cons]
      omega
    | succ j =>
      have := ih (by simpa using hx)
      simp only [List.modify_succ_cons, List.countP_cons]
      omega

theorem mem_modify {f : α → α} {l : List α} {y : α} (hy : y ∈ l.modify j f) :
    y ∈ l ∨ ∃ x, l[j]? = some x ∧ y = f x := by
  obtain ⟨k, hk⟩ := List.mem_iff_getElem?.mp hy
  rw [List.getElem?_modify] at hk
  obtain ⟨x, hx, hxy⟩ := Option.map_eq_some_iff.mp hk
  split at hxy
  · next hjk =>
    subst hjk
    exact .inr ⟨x, hx, hxy.symm⟩
  · exact .inl (hxy ▸ List.mem_iff_getElem?.mpr ⟨k, hx⟩)

theorem emptySlots_inactive : ∀ s ∈ emptySlots, s.active = false := by decide

theorem chunkOk_of_empty (hslots : c.slots = emptySlots) (h0 : c.nbactive = 0) : ChunkOk c where
  length := by
    rw [hslots]
    rfl
  nbactive := by
    rw [hslots, h0]
    rfl
  pentry s hs hact := by
    rw [hslots] at hs
    rw [emptySlots_inactive s hs] at hact
    cases hact

theorem SlotsOk.freeSlot (h : SlotsOk c) (hj : c.freeSlot = some j) :
    ∃ s, c.slots[j]? = some s ∧ s.active = false := by
  unfold Chunk.freeSlot at hj
  split at hj
  · obtain ⟨hlt, hfree, -⟩ := List.findIdx?_eq_some_iff_getElem.mp hj
    refine ⟨_, List.getElem?_eq_getElem hlt, ?_⟩
    by_contra hactive
    have hact : (c.slots[j]).active = true := by simpa using hactive
    have hsome := h.pentry _ (List.getElem_mem hlt) hact
    rw [hact] at hfree
    simp only [Bool.not_true, Bool.false_or, Option.isNone_iff_eq_none] at hfree
    rw [hfree] at hsome
    cases hsome
  · cases hj

theorem ChunkOk.freeSlot_isSome (h : ChunkOk c) (hlt : c.nbactive < childrenArraySize) :
    ∃ j, c.freeSlot = some j := by
  have hfree : ∃ s ∈ c.slots, s.active = false := by
    by_contra hno
    push Not at hno
    have hall : c.slots.countP (·.active) = c.slots.length :=
      List.countP_eq_length.mpr fun s hs => by simpa using hno s hs
    rw [h.nbactive, hall, h.length] at hlt
    exact lt_irrefl _ hlt
  obtain ⟨s, hs, hact⟩ := hfree
  unfold Chunk.freeSlot
  rw [if_pos hlt.ne]
  refine Option.isSome_iff_exists.mp ?_
  rw [List.findIdx?_isSome]
  exact List.any_eq_true.mpr ⟨s, hs, by simp [hact]⟩

theorem ChunkOk.fill (h : ChunkOk c) (hs : c.slots[j]? = some s) (hact : s.active = false)
    (name : String) : ChunkOk (c.fill j pentry (some name)) where
  length := by simp [Chunk.fill, h.length]
  nbactive := by
    have hcount := countP_modify (·.active) (fun s => ⟨true, some pentry, name⟩) hs
    simp only [hact, if_true, Bool.false_eq_true, if_false, add_zero] at hcount
    have hle : c.slots.countP (·.active) ≤ 16 := by
      rw [show 16 = c.slots.length from h.length.symm]
      exact List.countP_le_length
    simp only [Chunk.fill, Option.isSome_some, if_true, Option.getD_some, hcount, h.nbactive]
    exact Nat.mod_eq_of_lt (by omega)
  pentry s' hs' hact' := by
    rcases mem_modify hs' with hmem | ⟨x, -, rfl⟩
    · exact h.pentry s' hmem hact'
    · rfl

theorem ChunkOk.drop (h : ChunkOk c) (hs : c.slots[j]? = some s) (hact : s.active = true) :
    ChunkOk (c.drop j) where
  length := by simp [Chunk.drop, h.length]
  nbactive := by
    have hcount := countP_modify (·.active) (fun s => { s with active := false }) hs
    simp only [hact, if_true, Bool.false_eq_true, if_false, add_zero] at hcount
    have hle : c.slots.countP (·.active) ≤ 16 := by
      rw [show 16 = c.slots.length from h.length.symm]
      exact List.countP_le_length
    simp only [Chunk.drop, h.nbactive]
    omega
  pentry s' hs' hact' := by
    rcases mem_modify hs' with hmem | ⟨x, -, rfl⟩
    · exact h.pentry s' hmem hact'
    · cases hact'

theorem ChunkOk.rename (h : ChunkOk c) (hs : c.slots[j]? = some s) (newname : Option String) :
    ChunkOk (c.rename j newname) where
  length := by simp [Chunk.rename, h.length]
  nbactive := by
    have hcount := countP_modify (·.active)
      (fun s : Slot => { s with name := newname.getD s.name }) hs
    simp only [Chunk.rename, h.nbactive]
    exact (Nat.add_right_cancel hcount).symm
  pentry s' hs' hact' := by
    rcases mem_modify hs' with hmem | ⟨x, hx, rfl⟩
    · exact h.pentry s' hmem hact'
    · exact h.pentry x (List.mem_iff_getElem?.mpr ⟨j, hx⟩) hact'

theorem invalidate_inactive (c : Chunk) : ∀ s ∈ c.invalidate.slots, s.active = false := by
  intro s hs
  obtain ⟨x, -, rfl⟩ := List.mem_map.mp hs
  rfl

theorem ChunkOk.invalidate (h : ChunkOk c) : ChunkOk c.invalidate where
  length := by simp [Chunk.invalidate, h.length]
  nbactive := by
    refine (List.countP_eq_zero.mpr fun s hs => ?_).symm
    simp [invalidate_inactive c s hs]
  pentry s hs hact := by
    rw [invalidate_inactive c s hs] at hact
    cases hact

/-! ### Links -/

/-- The links of a chain, from the frames of its chunks: `n` is `nbdircont`, `last` is
`pdir_last`. -/
structure Linked (fs : List (ℕ × ℕ × ℕ × ℕ)) (n last : ℕ) : Prop where
  /-- each `DIR_CONTINUE` knows its place -/
  place : ∀ (k : ℕ) (b p c : ℕ × ℕ × ℕ × ℕ), fs[0]? = some b → fs[k]? = some p →
    fs[k + 1]? = some c → c.2.1 = k + 1 ∧ c.2.2.1 = b.1 ∧ c.2.2.2 = p.1
  /-- `nbdircont` counts them -/
  length : n + 1 = fs.length
  /-- `pdir_last` is the last chunk -/
  last : ∀ f, fs[n]? = some f → last = f.1

theorem map_frame_modify (hf : ∀ c, (f c).frame = c.frame) :
    (l.modify i f).map Chunk.frame = l.map Chunk.frame := by
  refine List.ext_getElem? fun k => ?_
  rw [List.getElem?_map, List.getElem?_map, List.getElem?_modify]
  cases l[k]? with
  | none => rfl
  | some c =>
    simp only [Option.map_eq_map, Option.map_some]
    split
    · rw [hf]
    · rfl

theorem Linked.append {fs : List (ℕ × ℕ × ℕ × ℕ)} {last : ℕ} (h : Linked fs n last)
    {b p g : ℕ × ℕ × ℕ × ℕ} (hb : fs[0]? = some b) (hp : fs[n]? = some p)
    (hg : g.2.1 = n + 1 ∧ g.2.2.1 = b.1 ∧ g.2.2.2 = p.1) : Linked (fs ++ [g]) (n + 1) g.1 := by
  have hlen := h.length
  refine ⟨?_, ?_, ?_⟩
  · intro k b' p' c hb' hp' hc
    have h0 : (fs ++ [g])[0]? = fs[0]? := List.getElem?_append_left (by omega)
    obtain rfl : b = b' := Option.some.inj (hb.symm.trans (h0.symm.trans hb'))
    have hk : k + 1 < (fs ++ [g]).length := (List.getElem?_eq_some_iff.mp hc).1
    rw [List.length_append, List.length_singleton] at hk
    have hpk : (fs ++ [g])[k]? = fs[k]? := List.getElem?_append_left (by omega)
    rw [hpk] at hp'
    by_cases hkn : k = n
    · subst hkn
      obtain rfl : p = p' := Option.some.inj (hp.symm.trans hp')
      rw [List.getElem?_append_right (by omega)] at hc
      obtain rfl : g = c := by simpa [hlen] using hc
      exact hg
    · rw [List.getElem?_append_left (by omega)] at hc
      exact h.place k b p' c hb hp' hc
  · simp [hlen]
  · intro f hf
    rw [List.getElem?_append_right (by omega)] at hf
    obtain rfl : g = f := by simpa [hlen] using hf
    rfl

/-! ### The slots of the chain -/

/-- What the slots keep by themselves, whatever the links are; `Q` is what each chunk keeps. -/
structure Shape (Q : Chunk → Prop) (d : Dir) : Prop where
  chunk : ∀ c ∈ d.chunks, Q c
  nothingBehind : ∀ (i k : ℕ) (c c' : Chunk), d.chunks[i]? = some c → c.endOfDir = true → i < k →
    d.chunks[k]? = some c' → ∀ s ∈ c'.slots, s.active = false

variable {Q : Chunk → Prop}

theorem Shape.modify (h : Shape Q d) (hd : d'.chunks = d.chunks.modify i f)
    (hend : ∀ c, (f c).endOfDir = c.endOfDir) (hok : ∀ c, d.chunks[i]? = some c → Q (f c))
    (hbehind : ∀ c, d.chunks[i]? = some c → (∀ s ∈ c.slots, s.active = false) →
      (∀ s ∈ (f c).slots, s.active = false) ∨
        ∀ k b, k < i → d.chunks[k]? = some b → b.endOfDir = false) : Shape Q d' where
  chunk c hc := by
    rw [hd] at hc
    rcases mem_modify hc with hmem | ⟨x, hx, rfl⟩
    · exact h.chunk c hmem
    · exact hok x hx
  nothingBehind j k c c' hc hcend hjk hc' := by
    rw [hd, List.getElem?_modify] at hc hc'
    obtain ⟨x, hx, rfl⟩ := Option.map_eq_some_iff.mp hc
    obtain ⟨x', hx', rfl⟩ := Option.map_eq_some_iff.mp hc'
    have hxend : x.endOfDir = true := by
      split at hcend
      · rwa [hend] at hcend
      · exact hcend
    have hinactive := h.nothingBehind j k x x' hx hxend hjk hx'
    split
    · next hik =>
      subst hik
      rcases hbehind x' hx' hinactive with hf | hopen
      · exact hf
      · rw [hopen j x hjk hx] at hxend
        cases hxend
    · exact hinactive

/-! ### The invariant of the chain, step by step -/

/-- The chain, with what keeps it. -/
structure Sound (d : Dir) : Prop where
  chunk : ∀ c ∈ d.chunks, ChunkOk c
  linked : Linked (d.chunks.map Chunk.frame) d.nbdircont d.pdirLast
  nothingBehind : ∀ (i k : ℕ) (c c' : Chunk), d.chunks[i]? = some c → c.endOfDir = true → i < k →
    d.chunks[k]? = some c' → ∀ s ∈ c'.slots, s.active = false
  lastEnd : ∀ c, d.chunks[d.nbdircont]? = some c → c.endOfDir = true

theorem Sound.length (h : Sound d) : d.nbdircont + 1 = d.chunks.length := by
  simpa using h.linked.length

theorem Sound.chainOk (h : Sound d) : ChainOk d where
  nbactive c hc := (h.chunk c hc).nbactive
  links k b p c hb hp hc :=
    h.linked.place k b.frame p.frame c.frame (by simp [hb]) (by simp [hp]) (by simp [hc])
  nbdircont := h.length
  pdirLast c hc := h.linked.last c.frame (by simp [hc])
  nothingBehind := h.nothingBehind

theorem newDir_sound (addr : ℕ) : Sound (newDir addr) where
  chunk c hc := by
    obtain rfl : c = ⟨addr, emptySlots, 0, true, 0, 0, 0⟩ := by simpa [newDir] using hc
    exact chunkOk_of_empty rfl rfl
  linked := ⟨fun k b p c _ _ hc => by simp [newDir] at hc, rfl, fun f hf => by
    cases hf
    rfl⟩
  nothingBehind i k c c' _ _ hik hc' := by
    have hk : k < 1 := (List.getElem?_eq_some_iff.mp hc').1
    omega
  lastEnd c hc := by
    cases hc
    rfl

theorem Sound.shape (h : Sound d) : Shape ChunkOk d := ⟨h.chunk, h.nothingBehind⟩

theorem Sound.modify (h : Sound d) (hframe : ∀ c, (f c).frame = c.frame)
    (hend : ∀ c, (f c).endOfDir = c.endOfDir) (hok : ∀ c, d.chunks[i]? = some c → ChunkOk (f c))
    (hbehind : ∀ c, d.chunks[i]? = some c → (∀ s ∈ c.slots, s.active = false) →
      (∀ s ∈ (f c).slots, s.active = false) ∨
        ∀ k b, k < i → d.chunks[k]? = some b → b.endOfDir = false) :
    Sound { d with chunks := d.chunks.modify i f } := by
  have hshape : Shape ChunkOk { d with chunks := d.chunks.modify i f } :=
    h.shape.modify rfl hend hok hbehind
  refine ⟨hshape.chunk, ?_, hshape.nothingBehind, fun c hc => ?_⟩
  · rw [map_frame_modify hframe]
    exact h.linked
  · rw [List.getElem?_modify] at hc
    obtain ⟨x, hx, rfl⟩ := Option.map_eq_some_iff.mp hc
    have hxend := h.lastEnd x hx
    split
    · rwa [hend]
    · exact hxend

/-- No chunk before index `i` is an end of the directory. -/
def OpenUpTo (d : Dir) (i : ℕ) : Prop :=
  ∀ k b, k < i → d.chunks[k]? = some b → b.endOfDir = false

theorem Sound.place (h : Sound d) (hopen : OpenUpTo d i)
    (hslot : ∀ c, d.chunks[i]? = some c → ∃ s, c.slots[j]? = some s ∧ s.active = false)
    (hname : name.isSome = true ∨ newParent = false) :
    Sound (d.place i j pentry name newParent).1 := by
  unfold Dir.place
  split
  · exact h
  rename_i hparent
  obtain ⟨name, rfl⟩ := Option.isSome_iff_exists.mp
    (hname.resolve_right hparent)
  refine h.modify (fun c => rfl) (fun c => rfl) (fun c hc => ?_)
    (fun c _ _ => Or.inr hopen)
  obtain ⟨s, hs, hact⟩ := hslot c hc
  exact (h.chunk c (List.mem_iff_getElem?.mpr ⟨i, hc⟩)).fill hs hact name

/-! ### The search for a slot -/

theorem searchSlot_slot (h : searchSlot i0 l = some (.slot i j)) :
    ∃ n c, i = i0 + n ∧ l[n]? = some c ∧ c.freeSlot = some j ∧
      ∀ k b, k < n → l[k]? = some b → b.endOfDir = false := by
  induction l generalizing i0 with
  | nil => cases h
  | cons x xs ih =>
    simp only [searchSlot] at h
    split at h
    · next j' hj =>
      simp only [Option.some.injEq, Place.slot.injEq] at h
      obtain ⟨rfl, rfl⟩ := h
      exact ⟨0, x, rfl, rfl, hj, fun k b hk => absurd hk (Nat.not_lt_zero k)⟩
    split at h
    · cases h
    rename_i hx
    obtain ⟨n, c, rfl, hc, hfree, hbefore⟩ := ih h
    refine ⟨n + 1, c, by omega, by simpa using hc, hfree, ?_⟩
    intro k b hk hb
    cases k with
    | zero =>
      obtain rfl : x = b := by simpa using hb
      simpa using hx
    | succ k => exact hbefore k b (by omega) (by simpa using hb)

theorem searchSlot_full (h : searchSlot i0 l = some (.full i)) :
    ∃ n c, i = i0 + n ∧ l[n]? = some c ∧ c.freeSlot = none ∧ c.endOfDir = true ∧
      ∀ k b, k < n → l[k]? = some b → b.endOfDir = false := by
  induction l generalizing i0 with
  | nil => cases h
  | cons x xs ih =>
    simp only [searchSlot] at h
    split at h
    · cases h
    rename_i hfree
    split at h
    · next hx =>
      simp only [Option.some.injEq, Place.full.injEq] at h
      subst h
      exact ⟨0, x, rfl, rfl, hfree, hx, fun k b hk => absurd hk (Nat.not_lt_zero k)⟩
    rename_i hx
    obtain ⟨n, c, rfl, hc, hcfree, hend, hbefore⟩ := ih h
    refine ⟨n + 1, c, by omega, by simpa using hc, hcfree, hend, ?_⟩
    intro k b hk hb
    cases k with
    | zero =>
      obtain rfl : x = b := by simpa using hb
      simpa using hx
    | succ k => exact hbefore k b (by omega) (by simpa using hb)

theorem openUpTo_of_search (hopen : OpenUpTo d start)
    (hbefore : ∀ k b, k < n → (d.chunks.drop start)[k]? = some b → b.endOfDir = false) :
    OpenUpTo d (start + n) := by
  intro k b hk hb
  by_cases hks : k < start
  · exact hopen k b hks hb
  · refine hbefore (k - start) b (by omega) ?_
    rw [List.getElem?_drop]
    rwa [show start + (k - start) = k by omega]

/-! ### Adding keeps the chain -/

theorem extend_chunks (hlen : d.chunks.length = i + 1)
    (hc : (d.extend i addr prev).chunks[k]? = some c) :
    (k ≤ i ∧ ∃ x, d.chunks[k]? = some x ∧ c = if i = k then { x with endOfDir := false } else x) ∨
      (k = i + 1 ∧ c = newDirCont addr i prev) := by
  have hchain : (d.chain i addr).chunks.length = i + 1 := by simp [Dir.chain, hlen]
  simp only [Dir.extend] at hc
  by_cases hk : k < i + 1
  · rw [List.getElem?_append_left (by omega)] at hc
    simp only [Dir.chain, List.getElem?_modify] at hc
    obtain ⟨x, hx, rfl⟩ := Option.map_eq_some_iff.mp hc
    exact .inl ⟨by omega, x, hx, rfl⟩
  · rw [List.getElem?_append_right (by omega), hchain] at hc
    have hk0 : k - (i + 1) < 1 := (List.getElem?_eq_some_iff.mp hc).1
    have hk1 : k = i + 1 := by omega
    subst hk1
    rw [Nat.sub_self] at hc
    exact .inr ⟨rfl, (Option.some.inj hc).symm⟩

theorem extend_frames (d : Dir) (addr i : ℕ) (prev : Chunk) :
    (d.extend i addr prev).chunks.map Chunk.frame =
      d.chunks.map Chunk.frame ++ [(newDirCont addr i prev).frame] := by
  have hframes : (d.chain i addr).chunks.map Chunk.frame = d.chunks.map Chunk.frame :=
    map_frame_modify fun _ => rfl
  simp only [Dir.extend, List.map_append, List.map_cons, List.map_nil, hframes]

theorem Sound.newDirCont_frame (h : Sound d) (addr : ℕ) {b : Chunk} (hb : d.chunks[0]? = some b)
    (hprev : d.chunks[d.nbdircont]? = some prev) (hroom : d.chunks.length < 2 ^ 32) :
    (newDirCont addr d.nbdircont prev).dirContPos = d.nbdircont + 1 ∧
      (newDirCont addr d.nbdircont prev).pdirBegin = b.addr := by
  by_cases h0 : d.nbdircont = 0
  · rw [h0] at hprev
    obtain rfl : b = prev := Option.some.inj (hb.symm.trans hprev)
    simp [newDirCont, h0]
  obtain ⟨n, hn⟩ := Nat.exists_eq_succ_of_ne_zero h0
  obtain ⟨p, hp⟩ : ∃ p, d.chunks[n]? = some p :=
    ⟨_, List.getElem?_eq_getElem (by have := h.length; omega)⟩
  rw [hn] at hprev
  have hplace := h.chainOk.links n b p prev hb hp hprev
  have hlen := h.length
  have hmod : (n + 1 + 1) % 2 ^ 32 = n + 1 + 1 := Nat.mod_eq_of_lt (by omega)
  simp only [newDirCont, hn, Nat.succ_eq_add_one, Nat.add_one_ne_zero, if_false, hplace.1,
    hplace.2.1, hmod, and_self]

/-- What each chunk keeps is kept by every write to a chunk. -/
structure Keeping (Q : Chunk → Prop) : Prop where
  slots : ∀ c, Q c → SlotsOk c
  empty : ∀ c : Chunk, c.slots = emptySlots → c.nbactive = 0 → Q c
  setEnd : ∀ c b, Q c → Q { c with endOfDir := b }
  fill : ∀ (c : Chunk) (j : ℕ) s pentry name, Q c → c.slots[j]? = some s → s.active = false →
    Q (c.fill j pentry (some name))
  drop : ∀ (c : Chunk) (j : ℕ) s, Q c → c.slots[j]? = some s → s.active = true → Q (c.drop j)
  rename : ∀ (c : Chunk) (j : ℕ) s newname, Q c → c.slots[j]? = some s → Q (c.rename j newname)
  invalidate : ∀ c, Q c → Q c.invalidate

theorem chunkOk_keeping : Keeping ChunkOk where
  slots _ h := h.slotsOk
  empty _ := chunkOk_of_empty
  setEnd _ _ h := ⟨h.length, h.nbactive, h.pentry⟩
  fill _ _ _ _ name h hs hact := h.fill hs hact name
  drop _ _ _ h hs hact := h.drop hs hact
  rename _ _ _ newname h hs := h.rename hs newname
  invalidate _ h := h.invalidate

theorem Shape.extend (h : Shape Q d) (hQ : Keeping Q) (hlen : d.chunks.length = i + 1) :
    Shape Q (d.extend i addr prev) where
  chunk c hc := by
    obtain ⟨k, hk⟩ := List.mem_iff_getElem?.mp hc
    rcases extend_chunks hlen hk with ⟨-, x, hx, rfl⟩ | ⟨-, rfl⟩
    · have hxok := h.chunk x (List.mem_iff_getElem?.mpr ⟨k, hx⟩)
      split
      · exact hQ.setEnd x false hxok
      · exact hxok
    · exact hQ.empty _ rfl rfl
  nothingBehind j k c c' hc hcend hjk hc' s hs := by
    rcases extend_chunks hlen hc' with ⟨hk, x', hx', rfl⟩ | ⟨-, rfl⟩
    · rcases extend_chunks hlen hc with ⟨-, x, hx, rfl⟩ | ⟨hj, -⟩
      · have hxend : x.endOfDir = true := by
          split at hcend
          · cases hcend
          · exact hcend
        refine h.nothingBehind j k x x' hx hxend hjk hx' s ?_
        split at hs <;> exact hs
      · omega
    · exact emptySlots_inactive s hs

theorem Sound.extend (h : Sound d) (hprev : d.chunks[i]? = some prev)
    (hlast : d.chunks[i + 1]? = none) (hroom : d.chunks.length < 2 ^ 32) :
    Sound (d.extend i addr prev) := by
  have hi : i = d.nbdircont := by
    have hlt := (List.getElem?_eq_some_iff.mp hprev).1
    have hge := List.getElem?_eq_none_iff.mp hlast
    have := h.length
    omega
  subst hi
  have hlen := h.length.symm
  have hcont : (d.extend d.nbdircont addr prev).nbdircont = d.nbdircont + 1 :=
    Nat.mod_eq_of_lt (by omega)
  have hshape : Shape ChunkOk (d.extend d.nbdircont addr prev) :=
    h.shape.extend chunkOk_keeping hlen
  refine ⟨hshape.chunk, ?_, hshape.nothingBehind, ?_⟩
  · obtain ⟨b, hb⟩ : ∃ b, d.chunks[0]? = some b :=
      ⟨_, List.getElem?_eq_getElem (by omega)⟩
    obtain ⟨hpos, hbegin⟩ := h.newDirCont_frame addr hb hprev hroom
    have hb' : (d.chunks.map Chunk.frame)[0]? = some b.frame := by simp [hb]
    have hprev' : (d.chunks.map Chunk.frame)[d.nbdircont]? = some prev.frame := by simp [hprev]
    rw [extend_frames, hcont]
    exact h.linked.append hb' hprev' ⟨hpos, hbegin, rfl⟩
  · intro c hc
    rcases extend_chunks hlen hc with ⟨hk, -⟩ | ⟨-, rfl⟩
    · omega
    · rfl

/-- **Adding**: an entry is added from a chunk on that no end of the directory precedes, unless an
old chunk is taken again, the count of the chunks wraps around, or a name that is a null pointer is
copied. -/
theorem Sound.addCachedDirent (h : Sound d) (hopen : OpenUpTo d start)
    (hfresh : ∀ i, searchSlot start (d.chunks.drop start) = some (.full i) →
      d.chunks[i + 1]? = none ∧ d.chunks.length < 2 ^ 32)
    (hname : name.isSome = true ∨ newParent = false)
    (hr : addCachedDirent d start name pentry newChunk newParent = some (d', r)) : Sound d' := by
  unfold DirChain.addCachedDirent at hr
  split at hr
  · cases hr
  · next i j hsearch =>
    obtain ⟨n, c, rfl, hc, hfree, hbefore⟩ := searchSlot_slot hsearch
    rw [List.getElem?_drop] at hc
    have hplaced : Sound (d.place (start + n) j pentry name newParent).1 := by
      refine h.place (openUpTo_of_search hopen hbefore) (fun c' hc' => ?_) hname
      obtain rfl : c = c' := Option.some.inj (hc.symm.trans hc')
      exact (h.chunk c (List.mem_iff_getElem?.mpr ⟨_, hc⟩)).slotsOk.freeSlot hfree
    rw [Option.some.inj hr] at hplaced
    exact hplaced
  rename_i i hsearch
  obtain ⟨hnone, hroom⟩ := hfresh i hsearch
  rw [hnone] at hr
  obtain ⟨n, c, rfl, hc, -, -, hbefore⟩ := searchSlot_full hsearch
  rw [List.getElem?_drop] at hc
  have hupto := openUpTo_of_search hopen hbefore
  simp only [hc] at hr
  cases newChunk with
  | none =>
    cases hr
    exact h
  | some addr =>
    have hextend : Sound (d.extend (start + n) addr c) := h.extend hc hnone hroom
    have hlen : d.chunks.length = start + n + 1 := by
      have hlt := (List.getElem?_eq_some_iff.mp hc).1
      have hge := List.getElem?_eq_none_iff.mp hnone
      omega
    have hplaced : Sound ((d.extend (start + n) addr c).place (start + n + 1) 0 pentry name
        newParent).1 := by
      refine hextend.place (fun k b hk hb => ?_) (fun c' hc' => ?_) hname
      · rcases extend_chunks hlen hb with ⟨-, x, hx, rfl⟩ | ⟨hk', -⟩
        · split
          · rfl
          · exact hupto k x (by omega) hx
        · omega
      · rcases extend_chunks hlen hc' with ⟨hk', -⟩ | ⟨-, rfl⟩
        · omega
        · exact ⟨⟨false, none, ""⟩, rfl, rfl⟩
    rw [Option.some.inj hr] at hplaced
    exact hplaced

/-! ### Removing, renaming and invalidating keep the chain -/

theorem searchName_found (h : searchName valid name i0 l = some (some (i, j))) :
    ∃ n c s, i = i0 + n ∧ l[n]? = some c ∧ c.slots[j]? = some s ∧ s.active = true ∧
      name = some s.name := by
  induction l generalizing i0 with
  | nil => cases h
  | cons x xs ih =>
    simp only [searchName] at h
    split at h
    · next j' hj =>
      simp only [Option.some.injEq, Prod.mk.injEq] at h
      obtain ⟨rfl, rfl⟩ := h
      obtain ⟨hlt, hs, -⟩ := List.findIdx?_eq_some_iff_getElem.mp hj
      simp only [Bool.and_eq_true, decide_eq_true_eq] at hs
      exact ⟨0, x, _, rfl, rfl, List.getElem?_eq_getElem hlt, hs.1.1, hs.2⟩
    · split at h
      · cases h
      · obtain ⟨n, c, s, rfl, hc, hs⟩ := ih h
        exact ⟨n + 1, c, s, by omega, by simpa using hc, hs⟩

theorem Sound.removeCachedDirent (h : Sound d) (hr : removeCachedDirent d valid name = some d') :
    Sound d' := by
  unfold DirChain.removeCachedDirent at hr
  split at hr
  · cases hr
  · cases hr
    exact h
  rename_i i j hfound
  cases hr
  obtain ⟨n, c, s, rfl, hc, hs, hact, -⟩ := searchName_found hfound
  rw [Nat.zero_add]
  refine h.modify (fun c => rfl) (fun c => rfl) (fun c' hc' => ?_) (fun c' _ hall => Or.inl ?_)
  · obtain rfl : c = c' := Option.some.inj (hc.symm.trans hc')
    exact (h.chunk c (List.mem_iff_getElem?.mpr ⟨n, hc⟩)).drop hs hact
  · intro s' hs'
    rcases mem_modify hs' with hmem | ⟨x, -, rfl⟩
    · exact hall s' hmem
    · rfl

theorem Sound.renameCachedDirent (h : Sound d) {newname : Option String}
    (hr : renameCachedDirent d valid name newname = some d') : Sound d' := by
  unfold DirChain.renameCachedDirent at hr
  split at hr
  · cases hr
  · cases hr
    exact h
  rename_i i j hfound
  cases hr
  obtain ⟨n, c, s, rfl, hc, hs, -, -⟩ := searchName_found hfound
  rw [Nat.zero_add]
  refine h.modify (fun c => rfl) (fun c => rfl) (fun c' hc' => ?_) (fun c' _ hall => Or.inl ?_)
  · obtain rfl : c = c' := Option.some.inj (hc.symm.trans hc')
    exact (h.chunk c (List.mem_iff_getElem?.mpr ⟨n, hc⟩)).rename hs newname
  · intro s' hs'
    rcases mem_modify hs' with hmem | ⟨x, hx, rfl⟩
    · exact hall s' hmem
    · exact hall x (List.mem_iff_getElem?.mpr ⟨j, hx⟩)

theorem invalidateAll_chunks (hc : (invalidateAllCachedDirent d).chunks[k]? = some c) :
    ∃ x, d.chunks[k]? = some x ∧
      c = if 0 = k then { x.invalidate with endOfDir := true } else x.invalidate := by
  simp only [invalidateAllCachedDirent, List.getElem?_modify, List.getElem?_map] at hc
  obtain ⟨y, hy, rfl⟩ := Option.map_eq_some_iff.mp hc
  obtain ⟨x, hx, rfl⟩ := Option.map_eq_some_iff.mp hy
  exact ⟨x, hx, rfl⟩

theorem Sound.invalidateAll (h : Sound d) : Sound (invalidateAllCachedDirent d) where
  chunk c hc := by
    obtain ⟨k, hk⟩ := List.mem_iff_getElem?.mp hc
    obtain ⟨x, hx, rfl⟩ := invalidateAll_chunks hk
    have hok := (h.chunk x (List.mem_iff_getElem?.mpr ⟨k, hx⟩)).invalidate
    split
    · exact ⟨hok.length, hok.nbactive, hok.pentry⟩
    · exact hok
  linked := by
    have hframes : (invalidateAllCachedDirent d).chunks.map Chunk.frame =
        d.chunks.map Chunk.frame := by
      have hend : ∀ c : Chunk, ({ c with endOfDir := true } : Chunk).frame = c.frame := fun _ => rfl
      simp only [invalidateAllCachedDirent]
      rw [map_frame_modify hend, List.map_map]
      rfl
    rw [hframes]
    exact h.linked
  nothingBehind i k c c' _ _ _ hc' s hs := by
    obtain ⟨x, -, rfl⟩ := invalidateAll_chunks hc'
    split at hs
    · exact invalidate_inactive x s hs
    · exact invalidate_inactive x s hs
  lastEnd c hc := by
    obtain ⟨x, hx, rfl⟩ := invalidateAll_chunks hc
    split
    · rfl
    · exact h.lastEnd x hx

/-! ### Populating keeps the chain -/

/-- The entries of the list that are added, up to the first one that fails. -/
def attempts : List Dirent → ℕ
  | [] => 0
  | x :: xs =>
    if x.IsDot then attempts xs
    else
      match x.readlinkError, x.newEntry with
      | none, some _ => if x.newParent then attempts xs + 1 else 1
      | _, _ => 0

theorem newParent_of_placed
    (h : addCachedDirent d start name pentry newChunk newParent = some (d', some q)) :
    newParent = true := by
  cases newParent with
  | true => rfl
  | false =>
    have hplace : ∀ (e : Dir) (i j : ℕ), e.place i j pentry name false ≠ (d', some q) := by
      intro e i j heq
      cases heq
    unfold addCachedDirent at h
    split at h
    · cases h
    · exact absurd (Option.some.inj h) (hplace _ _ _)
    split at h
    · exact absurd (Option.some.inj h) (hplace _ _ _)
    · split at h
      · exact absurd (Option.some.inj h) (hplace _ _ _)
      · cases h

/-- **The rule of the population**: an invariant `J`, of the directory, a parent to start from and
the number of entries still to be added, that every addition keeps. -/
theorem populateBatch_rule (hmono : ∀ m n d p, J n d p → m ≤ n → J m d p)
    (hadd : ∀ n d d' start name pentry newChunk newParent r p,
      J (n + 1) d (some start) → J (n + 1) d p →
      addCachedDirent d start (some name) pentry newChunk newParent = some (d', r) →
      J n d' p ∧ ∀ i j, r = some (i, j) → J n d' (some i)) {xs rest : List Dirent}
    {next' : Option ℕ} (hp : J (attempts (xs ++ rest)) d parent)
    (hn : J (attempts (xs ++ rest)) d next)
    (hr : populateBatch d parent next xs = some (d', next', added)) :
    (∃ n, J n d' next') ∧ (added = true → J (attempts rest) d' next') := by
  induction xs generalizing d next with
  | nil =>
    obtain ⟨rfl, rfl, rfl⟩ : d = d' ∧ next = next' ∧ true = added := by
      simpa [populateBatch] using hr
    exact ⟨⟨_, hn⟩, fun _ => hn⟩
  | cons x xs ih =>
    simp only [populateBatch] at hr
    simp only [List.cons_append, attempts] at hp hn
    split at hr
    · next hdot =>
      rw [if_pos hdot] at hp hn
      exact ih hp hn hr
    rename_i hdot
    rw [if_neg hdot] at hp hn
    split at hr
    · split at hr
      · cases hr
      · cases hr
        exact ⟨⟨_, hn⟩, fun h => by cases h⟩
    rename_i hlink
    split at hr
    · cases hr
      exact ⟨⟨_, hn⟩, fun h => by cases h⟩
    rename_i pentry hentry
    simp only [hlink, hentry] at hp hn
    split at hr
    · cases hr
    rename_i start
    split at hr
    · cases hr
    · next d1 hres =>
      obtain ⟨rfl, rfl, rfl⟩ : d1 = d' ∧ next = next' ∧ false = added := by simpa using hr
      have hp1 : J (0 + 1) d (some start) := hmono _ _ _ _ hp (by split <;> omega)
      have hn1 : J (0 + 1) d next := hmono _ _ _ _ hn (by split <;> omega)
      exact ⟨⟨0, (hadd 0 d d1 start x.name pentry _ _ none next hp1 hn1 hres).1⟩,
        fun h => by cases h⟩
    · next d1 i j hres =>
      have hparent := newParent_of_placed hres
      simp only [hparent, if_true] at hp hn
      obtain ⟨hp', hi⟩ := hadd _ d d1 start x.name pentry _ _ _ (some start) hp hp hres
      exact ih hp' (hi i j rfl) hr

theorem populateBatches_rule (hmono : ∀ m n d p, J n d p → m ≤ n → J m d p)
    (hadd : ∀ n d d' start name pentry newChunk newParent r p,
      J (n + 1) d (some start) → J (n + 1) d p →
      addCachedDirent d start (some name) pentry newChunk newParent = some (d', r) →
      J n d' p ∧ ∀ i j, r = some (i, j) → J n d' (some i)) {bs : List (List Dirent)}
    (hp : J (attempts bs.flatten) d parent) (hn : J (attempts bs.flatten) d next)
    (hr : populateBatches d parent next bs = some (d', added)) : ∃ n p, J n d' p := by
  induction bs generalizing d parent next with
  | nil =>
    obtain ⟨rfl, rfl⟩ : d = d' ∧ true = added := by simpa [populateBatches] using hr
    exact ⟨_, _, hn⟩
  | cons b bs ih =>
    simp only [populateBatches] at hr
    rw [List.flatten_cons] at hp hn
    split at hr
    · cases hr
    · next d1 next1 hb =>
      cases hr
      obtain ⟨⟨n, hJ⟩, -⟩ := populateBatch_rule hmono hadd hp hn hb
      exact ⟨n, next1, hJ⟩
    · next d1 next1 hb =>
      obtain ⟨-, hJ⟩ := populateBatch_rule hmono hadd hp hn hb
      exact ih (hJ rfl) (hJ rfl) hr

theorem addCachedDirent_cases
    (hfresh : ∀ i, searchSlot start (d.chunks.drop start) = some (.full i) →
      d.chunks[i + 1]? = none)
    (hr : addCachedDirent d start name pentry newChunk newParent = some u) :
    (∃ n j c, d.chunks[start + n]? = some c ∧ c.freeSlot = some j ∧
      u = d.place (start + n) j pentry name newParent) ∨
    u = (d, none) ∨
    (∃ i c addr, d.chunks[i]? = some c ∧ d.chunks[i + 1]? = none ∧
      u = (d.extend i addr c).place (i + 1) 0 pentry name newParent) := by
  unfold addCachedDirent at hr
  split at hr
  · cases hr
  · next i j hsearch =>
    obtain ⟨n, c, rfl, hc, hfree, -⟩ := searchSlot_slot hsearch
    rw [List.getElem?_drop] at hc
    exact .inl ⟨n, j, c, hc, hfree, (Option.some.inj hr).symm⟩
  · next i hsearch =>
    have hnone := hfresh i hsearch
    rw [hnone] at hr
    obtain ⟨n, c, rfl, hc, -⟩ := searchSlot_full hsearch
    rw [List.getElem?_drop] at hc
    simp only [hc] at hr
    cases newChunk with
    | none => exact .inr (.inl (Option.some.inj hr).symm)
    | some addr => exact .inr (.inr ⟨_, c, addr, hc, hnone, (Option.some.inj hr).symm⟩)

theorem place_nbdircont (d : Dir) (i j pentry : ℕ) (name : Option String) (newParent : Bool) :
    (d.place i j pentry name newParent).1.nbdircont = d.nbdircont := by
  unfold Dir.place
  split <;> rfl

theorem place_index (h : (d.place i j pentry name newParent).2 = some q) : q.1 = i := by
  unfold Dir.place at h
  split at h
  · cases h
  split at h
  · cases h
    rfl
  · cases h

theorem place_chunks (h : (d.place i j pentry name newParent).1.chunks[k]? = some c') :
    ∃ c, d.chunks[k]? = some c ∧
        (c' = c ∨ i = k ∧ newParent = true ∧ c' = c.fill j pentry name) := by
  unfold Dir.place at h
  split at h
  · exact ⟨c', h, .inl rfl⟩
  rename_i hparent
  simp only [List.getElem?_modify] at h
  obtain ⟨c, hc, rfl⟩ := Option.map_eq_some_iff.mp h
  refine ⟨c, hc, ?_⟩
  split
  · next hik => exact .inr ⟨hik, by simpa using hparent, rfl⟩
  · exact .inl rfl

/-- Only the last chunk is an end of the directory. -/
def Tight (d : Dir) : Prop :=
  ∀ (k : ℕ) (c : Chunk), d.chunks[k]? = some c → c.endOfDir = true → k = d.nbdircont

theorem Tight.openUpTo (h : Tight d) (hi : i ≤ d.nbdircont) : OpenUpTo d i := by
  intro k b hk hb
  by_contra hend
  have := h k b hb (by simpa using hend)
  omega

theorem Tight.fresh (h : Tight d) (hs : Sound d)
    (hsearch : searchSlot start (d.chunks.drop start) = some (.full i)) :
    d.chunks[i + 1]? = none := by
  obtain ⟨n, c, rfl, hc, -, hend, -⟩ := searchSlot_full hsearch
  rw [List.getElem?_drop] at hc
  have hi := h _ c hc hend
  have hlen := hs.length
  exact List.getElem?_eq_none (by omega)

theorem place_endOfDir (h : (d.place i j pentry name newParent).1.chunks[k]? = some c') :
    ∃ c, d.chunks[k]? = some c ∧ c'.endOfDir = c.endOfDir := by
  obtain ⟨c, hc, rfl | ⟨-, -, rfl⟩⟩ := place_chunks h
  · exact ⟨_, hc, rfl⟩
  · exact ⟨c, hc, rfl⟩

theorem Tight.place (h : Tight d) (hi : i ≤ d.nbdircont)
    (hu : u = d.place i j pentry name newParent) :
    Tight u.1 ∧ u.1.nbdircont = d.nbdircont ∧ ∀ q, u.2 = some q → q.1 ≤ u.1.nbdircont := by
  subst hu
  rw [place_nbdircont]
  refine ⟨fun k c' hc' hend => ?_, rfl, fun q hq => ?_⟩
  · obtain ⟨c, hc, heq⟩ := place_endOfDir hc'
    rw [place_nbdircont]
    exact h k c hc (heq ▸ hend)
  · rwa [place_index hq]

theorem Tight.extend (h : Tight d) (hs : Sound d) (addr : ℕ) (hprev : d.chunks[i]? = some prev)
    (hlast : d.chunks[i + 1]? = none) (hroom : d.chunks.length < 2 ^ 32) :
    i = d.nbdircont ∧ (d.extend i addr prev).nbdircont = i + 1 ∧ Tight (d.extend i addr prev) := by
  have hlt := (List.getElem?_eq_some_iff.mp hprev).1
  have hge := List.getElem?_eq_none_iff.mp hlast
  have hlen := hs.length
  obtain rfl : i = d.nbdircont := by omega
  have hcont : (d.extend d.nbdircont addr prev).nbdircont = d.nbdircont + 1 :=
    Nat.mod_eq_of_lt (by omega)
  refine ⟨rfl, hcont, fun k c hc hend => ?_⟩
  rcases extend_chunks hlen.symm hc with ⟨-, x, hx, rfl⟩ | ⟨hk, -⟩
  · split at hend
    · cases hend
    · next hne => exact absurd (h k x hx hend).symm hne
  · exact hk.trans hcont.symm

/-- The invariant of a population that begins without any `DIR_CONTINUE`: there is room in
`nbdircont` for a chunk for each of the `n` entries. -/
def GrowingFrom (n : ℕ) (d : Dir) (parent : Option ℕ) : Prop :=
  Sound d ∧ Tight d ∧ d.nbdircont + n < 2 ^ 32 ∧ ∀ i, parent = some i → i ≤ d.nbdircont

theorem growingFrom_add {name : String} (hstart : GrowingFrom (n + 1) d (some start))
    (hp : GrowingFrom (n + 1) d p)
    (hr : addCachedDirent d start (some name) pentry newChunk newParent = some (d', r)) :
    GrowingFrom n d' p ∧ ∀ i j, r = some (i, j) → GrowingFrom n d' (some i) := by
  obtain ⟨hs, ht, hroom, hle⟩ := hstart
  have hlen := hs.length
  have hlength : d.chunks.length < 2 ^ 32 := by omega
  have hfresh : ∀ i, searchSlot start (d.chunks.drop start) = some (.full i) →
      d.chunks[i + 1]? = none := fun i => ht.fresh hs
  have hsound := hs.addCachedDirent (ht.openUpTo (hle start rfl))
    (fun i hi => ⟨hfresh i hi, hlength⟩) (.inl rfl) hr
  obtain ⟨htight, hmono, hroom', hindex⟩ : Tight d' ∧ d.nbdircont ≤ d'.nbdircont ∧
      d'.nbdircont ≤ d.nbdircont + 1 ∧ ∀ q, r = some q → q.1 ≤ d'.nbdircont := by
    rcases addCachedDirent_cases hfresh hr with
      ⟨m, j, c, hc, -, hu⟩ | hu | ⟨i, c, addr, hc, hnone, hu⟩
    · have hlt := (List.getElem?_eq_some_iff.mp hc).1
      obtain ⟨h1, h2, h3⟩ := ht.place (by omega) hu
      exact ⟨h1, h2.ge, h2.le.trans (Nat.le_succ _), h3⟩
    · cases hu
      exact ⟨ht, Nat.le_refl _, Nat.le_succ _, fun q hq => by cases hq⟩
    · obtain ⟨rfl, hcont, hext⟩ := ht.extend hs addr hc hnone hlength
      obtain ⟨h1, h2, h3⟩ := hext.place hcont.ge hu
      have h2' := h2.trans hcont
      exact ⟨h1, (Nat.le_succ _).trans h2'.ge, h2'.le, h3⟩
  have hn : d'.nbdircont + n < 2 ^ 32 := by omega
  exact ⟨⟨hsound, htight, hn, fun i hi => (hp.2.2.2 i hi).trans hmono⟩,
    fun i j hi => ⟨hsound, htight, hn, fun i' hi' => Option.some.inj hi' ▸ hindex (i, j) hi⟩⟩

/-- The invariant of a population of at most sixteen entries: they all go into the
`DIR_BEGINNING`. -/
def FewFrom (n : ℕ) (d : Dir) (parent : Option ℕ) : Prop :=
  Sound d ∧ (∃ b, d.chunks[0]? = some b ∧ b.nbactive + n ≤ childrenArraySize) ∧
    (parent = none ∨ parent = some 0)

theorem fewFrom_add {name : String} (hstart : FewFrom (n + 1) d (some start))
    (hp : FewFrom (n + 1) d p)
    (hr : addCachedDirent d start (some name) pentry newChunk newParent = some (d', r)) :
    FewFrom n d' p ∧ ∀ i j, r = some (i, j) → FewFrom n d' (some i) := by
  obtain ⟨hs, ⟨b, hb, hroom⟩, h0⟩ := hstart
  obtain rfl : start = 0 := by simpa using h0
  have hbok := hs.chunk b (List.mem_iff_getElem?.mpr ⟨0, hb⟩)
  obtain ⟨j, hj⟩ := hbok.freeSlot_isSome (by omega)
  have hsearch : searchSlot 0 (d.chunks.drop 0) = some (.slot 0 j) := by
    obtain ⟨cs, hcs⟩ : ∃ cs, d.chunks = b :: cs := by
      cases hd : d.chunks with
      | nil => simp [hd] at hb
      | cons x xs =>
        obtain rfl : x = b := by simpa [hd] using hb
        exact ⟨xs, rfl⟩
    rw [hcs, List.drop_zero, searchSlot, hj]
  have hfull : ∀ i, searchSlot 0 (d.chunks.drop 0) = some (.full i) →
      d.chunks[i + 1]? = none ∧ d.chunks.length < 2 ^ 32 := by
    intro i hi
    rw [hsearch] at hi
    cases hi
  have hsound := hs.addCachedDirent (fun k b hk => absurd hk (Nat.not_lt_zero k)) hfull
    (.inl rfl) hr
  have hplace : d.place 0 j pentry (some name) newParent = (d', r) := by
    unfold addCachedDirent at hr
    rw [hsearch] at hr
    exact Option.some.inj hr
  have hroom' : ∃ b', d'.chunks[0]? = some b' ∧ b'.nbactive + n ≤ childrenArraySize := by
    obtain ⟨b', hb'⟩ : ∃ b', d'.chunks[0]? = some b' :=
      ⟨_, List.getElem?_eq_getElem (by have := hsound.length; omega)⟩
    have hb'' : (d.place 0 j pentry (some name) newParent).1.chunks[0]? = some b' := by
      rw [hplace]
      exact hb'
    refine ⟨b', hb', ?_⟩
    obtain ⟨c, hc, hcases⟩ := place_chunks hb''
    obtain rfl : b = c := Option.some.inj (hb.symm.trans hc)
    rcases hcases with rfl | ⟨-, -, rfl⟩
    · omega
    · simp only [Chunk.fill, Option.isSome_some, if_true]
      omega
  refine ⟨⟨hsound, hroom', hp.2.2⟩, fun i j' hi => ⟨hsound, hroom', .inr ?_⟩⟩
  have hpi : (d.place 0 j pentry (some name) newParent).2 = some (i, j') := by
    rw [hplace]
    exact hi
  rw [← place_index hpi]

/-- The entries that a population adds. -/
def PopulateRun.attempts (r : PopulateRun) : ℕ := DirChain.attempts r.batches.flatten

theorem Sound.setHasBeenReaddir (h : Sound d) (b : Bool) : Sound { d with hasBeenReaddir := b } :=
  ⟨h.chunk, h.linked, h.nothingBehind, h.lastEnd⟩

/-- **Populating**: from a chain without `DIR_CONTINUE`, or with no more entries than the
`DIR_BEGINNING` holds. -/
theorem Sound.readdirPopulate (h : Sound d) {r : PopulateRun}
    (hroom : d.hasBeenReaddir = true ∨ (d.nbdircont = 0 ∧ r.attempts < 2 ^ 32) ∨
      r.attempts ≤ childrenArraySize)
    (hr : readdirPopulate d r = some d') : Sound d' := by
  have hinv := h.invalidateAll
  unfold DirChain.readdirPopulate at hr
  split at hr
  · cases hr
    exact h
  rename_i hread
  split at hr
  · split at hr
    · cases hr
    · cases hr
      exact hinv
  split at hr
  · cases hr
  rename_i d1 added hbatches
  cases hr
  refine Sound.setHasBeenReaddir ?_ _
  rcases (hroom.resolve_left hread) with ⟨h0, hlt32⟩ | hfew
  · have hn : (invalidateAllCachedDirent d).nbdircont = 0 := h0
    have hmono : ∀ m n d p, GrowingFrom n d p → m ≤ n → GrowingFrom m d p := by
      rintro m n d p ⟨hs, ht, hlt, hp⟩ hmn
      exact ⟨hs, ht, by omega, hp⟩
    have hstart : ∀ p, (p = none ∨ p = some 0) →
        GrowingFrom r.attempts (invalidateAllCachedDirent d) p := by
      rintro p hp
      refine ⟨hinv, fun k c hc _ => ?_, by omega, fun i hi => ?_⟩
      · have hlt := (List.getElem?_eq_some_iff.mp hc).1
        have hlen := hinv.length
        omega
      · rcases hp with rfl | rfl
        · cases hi
        · cases hi
          exact Nat.zero_le _
    obtain ⟨n, p, hJ⟩ := populateBatches_rule hmono
      (fun n d d' start name pentry newChunk newParent r p => growingFrom_add)
      (hstart _ (.inr rfl)) (hstart _ (.inl rfl)) hbatches
    exact hJ.1
  · have hstart : ∀ p, (p = none ∨ p = some 0) →
        FewFrom r.attempts (invalidateAllCachedDirent d) p := by
      rintro p hp
      refine ⟨hinv, ?_, hp⟩
      obtain ⟨b, hb⟩ : ∃ b, (invalidateAllCachedDirent d).chunks[0]? = some b :=
        ⟨_, List.getElem?_eq_getElem (by have := hinv.length; omega)⟩
      obtain ⟨x, -, rfl⟩ := invalidateAll_chunks hb
      refine ⟨_, hb, ?_⟩
      simpa [Chunk.invalidate] using hfew
    have hmono : ∀ m n d p, FewFrom n d p → m ≤ n → FewFrom m d p := by
      rintro m n d p ⟨hs, ⟨b, hb, hle⟩, hp⟩ hmn
      exact ⟨hs, ⟨b, hb, by omega⟩, hp⟩
    obtain ⟨n, p, hJ⟩ := populateBatches_rule hmono
      (fun n d d' start name pentry newChunk newParent r p => fewFrom_add)
      (hstart _ (.inr rfl)) (hstart _ (.inl rfl)) hbatches
    exact hJ.1

/-! ### Runs -/

/-- The calls that take no old chunk again: an addition finds a free slot, or the end of the
directory is the last chunk, and fewer than `2 ^ 32`; a population begins without `DIR_CONTINUE` and
adds fewer than `2 ^ 32` entries, or no more than sixteen. And the name of an entry that is added is
not a null pointer. -/
def TakesNoOldChunk (d : Dir) : Call → Dir → Prop
  | .add name _ _ newParent, _ =>
    (∀ i, searchSlot 0 d.chunks = some (.full i) →
      d.chunks[i + 1]? = none ∧ d.chunks.length < 2 ^ 32) ∧
      (name.isSome = true ∨ newParent = false)
  | .populate r, _ =>
    d.hasBeenReaddir = true ∨ (d.nbdircont = 0 ∧ r.attempts < 2 ^ 32) ∨
      r.attempts ≤ childrenArraySize
  | _, _ => True

/-- A search that ends at the end of the directory ends at a chunk of the chain. -/
theorem searchSlot_lt (h : searchSlot 0 d.chunks = some (.full i)) : i < d.chunks.length := by
  obtain ⟨n, c, rfl, hc, -⟩ := searchSlot_full h
  have := (List.getElem?_eq_some_iff.mp hc).1
  omega

instance (d : Dir) : ∀ (a : Call) (d' : Dir), Decidable (TakesNoOldChunk d a d')
  | .add name _ _ newParent, _ =>
    decidable_of_iff ((∀ i < d.chunks.length, searchSlot 0 d.chunks = some (.full i) →
        d.chunks[i + 1]? = none ∧ d.chunks.length < 2 ^ 32) ∧
      (name.isSome = true ∨ newParent = false))
      ⟨fun h => ⟨fun i hi => h.1 i (searchSlot_lt hi) hi, h.2⟩, fun h => ⟨fun i _ => h.1 i, h.2⟩⟩
  | .populate _, _ => inferInstanceAs (Decidable (_ ∨ _))
  | .remove .., _ => isTrue trivial
  | .rename .., _ => isTrue trivial
  | .invalidateAll, _ => isTrue trivial

/-- **The directory chain.** In a run whose calls take no old chunk again, every state has the
chain as it should be. -/
theorem chainOk_of_takesNoOldChunk (addr : ℕ) (calls : List Call)
    (h : AllSteps step TakesNoOldChunk (newDir addr) calls) :
    Always step ChainOk (newDir addr) calls := by
  refine (always_of_allSteps (newDir_sound addr) (fun d a d' hd hd' hC => ?_) h).mono
    fun d => Sound.chainOk
  cases a with
  | add name pentry newChunk newParent =>
    obtain ⟨⟨d1, r⟩, hr, rfl⟩ := Option.map_eq_some_iff.mp hd'
    refine hd.addCachedDirent (fun k b hk => absurd hk (Nat.not_lt_zero k)) ?_ hC.2 hr
    rw [List.drop_zero]
    exact hC.1
  | remove valid name => exact hd.removeCachedDirent hd'
  | rename valid name newname => exact hd.renameCachedDirent hd'
  | invalidateAll =>
    cases hd'
    exact hd.invalidateAll
  | populate r => exact hd.readdirPopulate hC hd'

def addOne : Call := .add (some "f") 1 (some 100) true

/-- Seventeen entries, one of which is renamed and one removed, another addition, which finds a free
slot, a mass invalidation, and a population with one entry. -/
def addThenInvalidate : List Call :=
  List.replicate 17 addOne ++
    [.rename (fun _ => true) (some "f") (some "g"), .remove (fun _ => true) (some "f"), addOne,
      addOne, .invalidateAll, .populate ⟨none, [[⟨"h", none, some 2, none, true⟩]], true⟩]

theorem chainOk_addThenInvalidate : Always step ChainOk (newDir 0) addThenInvalidate :=
  chainOk_of_takesNoOldChunk 0 _ (by decide +kernel)

example : (exec step (newDir 0) addThenInvalidate).map (fun d =>
    (d.chunks.map Chunk.nbactive, d.nbdircont, d.pdirLast)) = some ([1, 0], 1, 100) := by
  decide +kernel

/-- **The slip**: seventeen entries, a mass invalidation, and seventeen entries again. The second
`DIR_CONTINUE` that `nbdircont` counts is the first one, taken again. -/
theorem reusedChunk_not_chainOk :
    ¬ Always step ChainOk (newDir 0)
      (List.replicate 17 addOne ++ Call.invalidateAll :: List.replicate 17 addOne) := by
  intro h
  obtain ⟨d, hd⟩ : ∃ d, exec step (newDir 0)
      (List.replicate 17 addOne ++ Call.invalidateAll :: List.replicate 17 addOne) = some d :=
    Option.isSome_iff_exists.mp (by decide +kernel)
  have hcount := (h.exec hd).nbdircont
  have hvalue : (exec step (newDir 0) (List.replicate 17 addOne ++ Call.invalidateAll ::
      List.replicate 17 addOne)).map (fun d => (d.nbdircont, d.chunks.length)) = some (2, 2) := by
    decide +kernel
  rw [hd] at hvalue
  obtain ⟨h1, h2⟩ := Prod.mk.inj (Option.some.inj hvalue)
  omega

end DirChain

end CloudNfs
