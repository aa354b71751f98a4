import Mathlib.Data.Finset.Card
import CloudNfs.CacheGc

/-!
# The water marks of the inode cache (`Cache_inode/cache_inode_gc.c`)

`cache_inode_gc` runs when the hash table has more entries than the high water mark, and is to purge
until the low water mark is reached. It counts down `nb_to_be_purged`, an `unsigned int`, for every
entry it takes out of the table, and compares it with 0 between two entries of the LRU list. But an
LRU entry for a directory stands for a whole chain, the `DIR_BEGINNING` with its `DIR_CONTINUE`s:
the countdown may go past 0.

Here the `DIR_CONTINUE`s are entries of their own, with keys of their own in the table.

* `respects_iff` — a run does so exactly when the oldest expired entries reach the low water mark
  exactly, or all of them together do not go below it, but for one chain.
-/

namespace CloudNfs.WaterMarks

open CacheGc (Policy Times)
open DirChain (childrenArraySize)

/-! ## Entries -/

/-- `cache_inode_fsal_data_t`; the cookie of a `DIR_BEGINNING`, and of what is no directory, is
`DIR_START`. -/
structure Key where
  handle : ℕ
  cookie : ℕ
  deriving DecidableEq

def dirStart : ℕ := 0

/-- `cache_inode_parent_entry_t`. -/
structure ParentEntry where
  /-- `parent`, a `DIR_BEGINNING` or a `DIR_CONTINUE` -/
  parent : Option ℕ
  subdirpos : ℕ

/-- What `dir_begin` and `dir_cont` share. -/
structure Chunk where
  /-- `dir_entries[i].active` is `VALID` -/
  active : ℕ → Bool
  nbactive : UInt32
  endOfDir : Bool
  pdirCont : Option ℕ

/-- A slot becomes `INVALID`. -/
def Chunk.drop (chunk : Chunk) (i : ℕ) : Chunk where
  active := Function.update chunk.active i false
  nbactive := chunk.nbactive - 1
  endOfDir := chunk.endOfDir
  pdirCont := chunk.pdirCont

/-- `internal_md.type` and `object`. -/
inductive Object where
  | regularFile
  | symbolicLink
  /-- `SOCKET_FILE`, `FIFO_FILE`, `CHARACTER_FILE`, `BLOCK_FILE` -/
  | special
  | dirBegin (chunk : Chunk) (hasBeenReaddir : Bool)
  /-- `DIR_CONTINUE`, with `pdir_begin` and `dir_cont_pos` -/
  | dirCont (chunk : Chunk) (dirBegin dirContPos : ℕ)

/-- The chunk of a directory. -/
def Object.chunk? : Object → Option Chunk
  | .dirBegin chunk _ => some chunk
  | .dirCont chunk _ _ => some chunk
  | _ => none

/-- `cache_entry_t`. -/
structure Entry where
  /-- `handle`; a `DIR_CONTINUE` has none -/
  handle : ℕ
  object : Object
  /-- `internal_md.valid_state` is `VALID` -/
  valid : Bool
  /-- `internal_md.read_time` and `internal_md.mod_time` -/
  times : Times
  parents : List ParentEntry

/-- The collector at work: the cache, and the countdown. -/
structure Gc where
  /-- the entries at their addresses; the other addresses are free -/
  entry : ℕ → Option Entry
  table : Finset Key
  nbToBePurged : UInt32
  /-- how many `DIR_CONTINUE`s of the last directory were purged, which nothing counts -/
  chunks : ℕ

structure Env where
  /-- there is memory for the key of the entry at an address -/
  keyAlloc : ℕ → Bool
  /-- `time(NULL)` in the test of an LRU entry -/
  now : ℕ → ℤ
  /-- the two `time(NULL)` at the beginning -/
  start : ℤ × ℤ
  /-- no chain is longer than this -/
  fuel : ℕ

namespace Gc

variable (env : Env) (g : Gc)

/-- `HashTable_GetSize`. -/
def hashSize : UInt32 := UInt32.ofNat g.table.card

def modify (a : ℕ) (f : Entry → Entry) : Gc :=
  { g with entry := Function.update g.entry a ((g.entry a).map f) }

/-- The key of an entry, by its handle (`cache_inode_get_fsal_handle`). -/
def key (e : Entry) : Option Key :=
  match e.object with
  | .dirCont _ dirBegin dirContPos => (g.entry dirBegin).map fun b => ⟨b.handle, dirContPos⟩
  | _ => some ⟨e.handle, dirStart⟩

/-- `cache_inode_gc_clean_entry`: whether the result is `LRU_LIST_SET_INVALID`. -/
def cacheInodeGcCleanEntry (a : ℕ) : Option (Gc × Bool) := do
  let e ← g.entry a
  let key ← g.key e
  if env.keyAlloc a = false then return (g, false)
  if key ∉ g.table then return (g, true)
  return ({ g with
    entry := Function.update g.entry a none
    table := g.table.erase key
    nbToBePurged := g.nbToBePurged - 1 }, true)

def cacheInodeIsDirEmpty : ℕ → Option ℕ → Option Bool
  | _, none => some true
  | 0, some _ => none
  | n + 1, some iter => do
    let e ← g.entry iter
    let chunk ← e.object.chunk?
    if chunk.nbactive ≠ 0 then return false
    if chunk.endOfDir then return true
    cacheInodeIsDirEmpty n chunk.pdirCont

/-- The slot of a child in its parent becomes `INVALID`. -/
def dropSlot (e : Entry) (subdirpos : ℕ) : Option Entry :=
  match e.object with
  | .dirBegin chunk _ => some { e with object := .dirBegin (chunk.drop subdirpos) false }
  | .dirCont chunk dirBegin dirContPos =>
    some { e with object := .dirCont (chunk.drop subdirpos) dirBegin dirContPos }
  | _ => none

/-- `cache_inode_gc_invalidate_related_dirent` for the entry at `a`: whether the result is
`LRU_LIST_SET_INVALID`. A parent is locked, and the entry itself is locked already. -/
def invalidateRelatedDirent (a : ℕ) : Gc → List ParentEntry → Option (Gc × Bool)
  | g, [] => some (g, true)
  | g, ⟨none, _⟩ :: ps => invalidateRelatedDirent a g ps
  | g, ⟨some p, subdirpos⟩ :: ps =>
    if p = a then none
    else
      match g.entry p with
      | none => none
      | some e =>
        match dropSlot e subdirpos with
        | none => some (g, false)
        | some e' =>
          if childrenArraySize < subdirpos then some (g, false)
          -- the slot after the last one
          else if subdirpos = childrenArraySize then none
          else invalidateRelatedDirent a
            { g with entry := Function.update g.entry p (some e') } ps

def cacheInodeGcSuppressFile (a : ℕ) : Option (Gc × Bool) := do
  let e ← g.entry a
  let (g, ok) ← invalidateRelatedDirent a (g.modify a fun e => { e with valid := false }) e.parents
  if ok = false then return (g, false)
  g.cacheInodeGcCleanEntry env a

/-- "Remove the whole dir_chain from the cache" -/
def cleanChain : ℕ → Gc → Option ℕ → Option (Gc × Bool)
  | _, g, none => some (g, true)
  | 0, _, some _ => none
  | n + 1, g, some iter => do
    let e ← g.entry iter
    let chunk ← e.object.chunk?
    let (g', ok) ← g.cacheInodeGcCleanEntry env iter
    let g' := { g' with chunks := g.chunks + (g.table.card - g'.table.card) }
    if ok = false then return (g', false)
    cleanChain n g' chunk.pdirCont

def cacheInodeGcSuppressDirectory (a : ℕ) : Option (Gc × Bool) := do
  let e ← g.entry a
  let chunk ← e.object.chunk?
  let g := g.modify a fun e => { e with valid := false }
  let empty ← g.cacheInodeIsDirEmpty env.fuel (some a)
  if empty = false then return (g, false)
  let (g, ok) ← invalidateRelatedDirent a g e.parents
  if ok = false then return (g, false)
  let (g, ok) ← cleanChain env env.fuel { g with chunks := 0 } chunk.pdirCont
  if ok = false then return (g, false)
  g.cacheInodeGcCleanEntry env a

/-- The tests of `cache_inode_gc_function` on the type and the times, and what follows. -/
def suppressExpired (policy : Policy) (l : CacheGc.LruEntry) : Option (Gc × Bool) := do
  let e ← g.entry l.pentry
  let age := env.now l.id - e.times.entryTime
  match e.object with
  | .dirBegin _ _ =>
    if 0 < policy.directoryExpirationDelay.toInt ∧ policy.directoryExpirationDelay.toInt < age then
      g.cacheInodeGcSuppressDirectory env l.pentry
    else return (g, false)
  | .regularFile | .symbolicLink =>
    if 0 < policy.fileExpirationDelay.toInt ∧ policy.fileExpirationDelay.toInt < age then
      g.cacheInodeGcSuppressFile env l.pentry
    else return (g, false)
  | _ => return (g, false)

def cacheInodeGcFunction (policy : Policy) (l : CacheGc.LruEntry) : Option (Gc × Bool) :=
  match g.entry l.pentry with
  | none => none
  | some _ =>
    if g.nbToBePurged ≠ 0 then g.suppressExpired env policy l else some (g, false)

end Gc

/-- The loop of `LRU_invalidate_by_function`, over the entries before the `MRU`. -/
def invalidateByFunction {σ : Type} (testfunc : σ → CacheGc.LruEntry → Option (σ × Bool)) :
    σ → CacheGc.LruList → List CacheGc.LruEntry → Option (σ × CacheGc.LruList)
  | x, lru, [] => some (x, lru)
  | x, lru, l :: ls =>
    if l.valid = false then invalidateByFunction testfunc x lru ls
    else
      match testfunc x l with
      | none => none
      | some (x, setInvalid) =>
        invalidateByFunction testfunc x (if setInvalid then lru.invalidate l.id else lru) ls

/-- The cache, and the client that collects. -/
structure State where
  entry : ℕ → Option Entry
  table : Finset Key
  lruGc : CacheGc.LruList
  callSinceLastGc : UInt32
  timeOfLastGc : ℤ

/-- The collector begins. -/
def State.gc (s : State) (policy : Policy) : Gc :=
  ⟨s.entry, s.table, UInt32.ofNat s.table.card - policy.lwmarkNbEntries, 0⟩

/-- `cache_inode_gc`; the second part is how many `DIR_CONTINUE`s of the last directory went. -/
def cacheInodeGc (policy : Policy) (env : Env) (s : State) : Option (State × ℕ) :=
  if s.callSinceLastGc < policy.nbCallBeforeGc then some (s, 0)
  else if env.start.1 - s.timeOfLastGc < policy.runInterval.toInt32.toInt then some (s, 0)
  else
    let s := { s with callSinceLastGc := 0, timeOfLastGc := env.start.2 }
    if policy.hwmarkNbEntries < UInt32.ofNat s.table.card then do
      let (g, lru) ← invalidateByFunction (fun g l => g.cacheInodeGcFunction env policy l)
        (s.gc policy) s.lruGc s.lruGc.entries.dropLast
      return ({ s with
        entry := g.entry, table := g.table, lruGc := lru.gcInvalid policy.nbCallGcInvalid },
        g.chunks)
    else some ({ s with lruGc := s.lruGc.gcInvalid policy.nbCallGcInvalid }, 0)

/-! ## The property -/

/-- **The collector respects the water marks.** It removes nothing from a table that is not above
the high one. Otherwise it removes as many entries as the table has above the low one, at most, and
the `DIR_CONTINUE`s of the last directory. -/
structure Respects (policy : Policy) (s s' : State) (chunks : ℕ) : Prop where
  /-- not above the high water mark -/
  spared : s.table.card ≤ policy.hwmarkNbEntries.toNat → s'.entry = s.entry ∧ s'.table = s.table
  purged : policy.hwmarkNbEntries.toNat < s.table.card →
    s.table.card - s'.table.card ≤ s.table.card - policy.lwmarkNbEntries.toNat + chunks

/-- The collector without a countdown, for these LRU entries: all that has expired is purged. -/
def purgeAll (policy : Policy) (env : Env) : Gc → List CacheGc.LruEntry → Option Gc
  | g, [] => some g
  | g, l :: ls =>
    if l.valid = false then purgeAll policy env g ls
    else
      match g.suppressExpired env policy l with
      | none => none
      | some (g, _) => purgeAll policy env g ls

def Runs (policy : Policy) (env : Env) (s : State) : Prop :=
  ¬ s.callSinceLastGc < policy.nbCallBeforeGc ∧
    ¬ env.start.1 - s.timeOfLastGc < policy.runInterval.toInt32.toInt ∧
    policy.hwmarkNbEntries < UInt32.ofNat s.table.card

/-- The oldest LRU entries, some number of them, reach the low water mark exactly when all that has
expired among them is purged, or all together do not go below it but for the `DIR_CONTINUE`s of the
last directory. -/
def ReachesMark (policy : Policy) (env : Env) (s : State) : Prop :=
  (∃ n g, purgeAll policy env (s.gc policy) (s.lruGc.entries.dropLast.take n) = some g ∧
      g.hashSize = policy.lwmarkNbEntries) ∨
    ∀ g, purgeAll policy env (s.gc policy) s.lruGc.entries.dropLast = some g →
      policy.lwmarkNbEntries.toNat ≤ g.table.card + g.chunks

/-! ## The countdown -/

section

variable {policy : Policy} {env : Env} {g g' : Gc} {a n : ℕ} {e : Entry} {ok : Bool}
  {l : CacheGc.LruEntry} {ls : List CacheGc.LruEntry} {lru lru' : CacheGc.LruList} {s s' : State}
  {lw : UInt32}

/-- What is purged is counted: the table shrinks by what the countdown goes down. -/
structure Counted (g g' : Gc) : Prop where
  subset : g'.table ⊆ g.table
  hashSize : g'.hashSize - g'.nbToBePurged = g.hashSize - g.nbToBePurged

theorem Counted.refl : Counted g g := ⟨subset_rfl, rfl⟩

theorem Counted.trans {g1 : Gc} (h : Counted g g1) (h' : Counted g1 g') : Counted g g' :=
  ⟨h'.subset.trans h.subset, h'.hashSize.trans h.hashSize⟩

theorem Counted.of_eq (htable : g'.table = g.table) (hnb : g'.nbToBePurged = g.nbToBePurged) :
    Counted g g' :=
  ⟨htable ▸ subset_rfl, by rw [Gc.hashSize, Gc.hashSize, htable, hnb]⟩

theorem counted_erase {key : Key} (h : key ∈ g.table) {entry : ℕ → Option Entry} {chunks : ℕ} :
    Counted g ⟨entry, g.table.erase key, g.nbToBePurged - 1, chunks⟩ := by
  refine ⟨Finset.erase_subset _ _, ?_⟩
  have hpos : 0 < g.table.card := Finset.card_pos.mpr ⟨key, h⟩
  have hcard : UInt32.ofNat g.table.card = UInt32.ofNat (g.table.erase key).card + 1 := by
    rw [Finset.card_erase_of_mem h]
    obtain ⟨m, hm⟩ : ∃ m, g.table.card = m + 1 := ⟨g.table.card - 1, by omega⟩
    rw [hm, Nat.add_sub_cancel, UInt32.ofNat_add]
    rfl
  simp only [Gc.hashSize, hcard]
  grind

theorem counted_cacheInodeGcCleanEntry (h : g.cacheInodeGcCleanEntry env a = some (g', ok)) :
    Counted g g' := by
  simp only [Gc.cacheInodeGcCleanEntry, Option.bind_eq_bind, Option.bind_eq_some_iff] at h
  obtain ⟨e, -, key, -, h⟩ := h
  split at h
  · cases h
    exact .refl
  split at h
  · cases h
    exact .refl
  · rename_i hkey
    cases h
    exact counted_erase (not_not.mp hkey)

theorem counted_invalidateRelatedDirent {ps : List ParentEntry}
    (h : Gc.invalidateRelatedDirent a g ps = some (g', ok)) : Counted g g' := by
  induction ps generalizing g with
  | nil =>
    cases h
    exact .refl
  | cons p ps ih =>
    obtain ⟨_ | p, subdirpos⟩ := p
    · exact ih h
    rw [Gc.invalidateRelatedDirent] at h
    split at h
    · cases h
    split at h
    · cases h
    split at h
    · cases h
      exact .refl
    split at h
    · cases h
      exact .refl
    split at h
    · cases h
    rename_i e' _ _ _
    have hslot : Counted g { g with entry := Function.update g.entry p (some e') } :=
      .of_eq rfl rfl
    exact hslot.trans (ih h)

theorem counted_suppressFile (h : g.cacheInodeGcSuppressFile env a = some (g', ok)) :
    Counted g g' := by
  simp only [Gc.cacheInodeGcSuppressFile, Option.bind_eq_bind, Option.bind_eq_some_iff] at h
  obtain ⟨e, -, ⟨g1, ok1⟩, h1, h⟩ := h
  have hinvalid : Counted g (g.modify a fun e => { e with valid := false }) := .of_eq rfl rfl
  have hparents := hinvalid.trans (counted_invalidateRelatedDirent h1)
  dsimp only at h
  split at h
  · cases h
    exact hparents
  · exact hparents.trans (counted_cacheInodeGcCleanEntry h)

theorem counted_cleanChain {iter : Option ℕ} (h : Gc.cleanChain env n g iter = some (g', ok)) :
    Counted g g' := by
  induction n generalizing g iter with
  | zero =>
    cases iter with
    | none =>
      cases h
      exact .refl
    | some iter => cases h
  | succ n ih =>
    cases iter with
    | none =>
      cases h
      exact .refl
    | some iter =>
      simp only [Gc.cleanChain, Option.bind_eq_bind, Option.bind_eq_some_iff] at h
      obtain ⟨e, -, chunk, -, ⟨g1, ok1⟩, h1, h⟩ := h
      have hclean := counted_cacheInodeGcCleanEntry h1
      have hchunk : Counted g { g1 with
          chunks := g.chunks + (g.table.card - g1.table.card) } := ⟨hclean.1, hclean.2⟩
      dsimp only at h
      split at h
      · cases h
        exact hchunk
      · exact hchunk.trans (ih h)

theorem counted_suppressDirectory (h : g.cacheInodeGcSuppressDirectory env a = some (g', ok)) :
    Counted g g' := by
  simp only [Gc.cacheInodeGcSuppressDirectory, Option.bind_eq_bind, Option.bind_eq_some_iff] at h
  obtain ⟨e, -, chunk, -, empty, -, h⟩ := h
  have hinvalid : Counted g (g.modify a fun e => { e with valid := false }) := .of_eq rfl rfl
  split at h
  · cases h
    exact hinvalid
  obtain ⟨⟨g1, ok1⟩, h1, h⟩ := Option.bind_eq_some_iff.mp h
  have hparents := hinvalid.trans (counted_invalidateRelatedDirent h1)
  dsimp only at h
  split at h
  · cases h
    exact hparents
  obtain ⟨⟨g2, ok2⟩, h2, h⟩ := Option.bind_eq_some_iff.mp h
  have hchain : Counted g g2 := by
    have hzero : Counted g1 { g1 with chunks := 0 } := .of_eq rfl rfl
    exact hparents.trans (hzero.trans (counted_cleanChain h2))
  dsimp only at h
  split at h
  · cases h
    exact hchain
  · exact hchain.trans (counted_cacheInodeGcCleanEntry h)

theorem counted_suppressExpired (h : g.suppressExpired env policy l = some (g', ok)) :
    Counted g g' := by
  have hkeep : ∀ {ok' : Bool}, some (g, ok') = some (g', ok) → Counted g g' := by
    intro ok' h
    cases h
    exact .refl
  simp only [Gc.suppressExpired, Option.bind_eq_bind, Option.bind_eq_some_iff] at h
  obtain ⟨e, -, h⟩ := h
  split at h
  · split at h
    · exact counted_suppressDirectory h
    · exact hkeep h
  · split at h
    · exact counted_suppressFile h
    · exact hkeep h
  · split at h
    · exact counted_suppressFile h
    · exact hkeep h
  · exact hkeep h

/-! ## The loop -/

theorem le_card_of_hashSize (h : g.hashSize = lw) : lw.toNat ≤ g.table.card := by
  rw [← h, Gc.hashSize, UInt32.toNat_ofNat']
  exact Nat.mod_le _ _

theorem loop_of_zero (hnb : g.nbToBePurged = 0)
    (h : invalidateByFunction (fun g l => g.cacheInodeGcFunction env policy l) g lru ls =
      some (g', lru')) : g' = g := by
  induction ls generalizing lru with
  | nil => exact (Prod.mk.inj (Option.some.inj h)).1.symm
  | cons l ls ih =>
    rw [invalidateByFunction] at h
    split at h
    · exact ih h
    split at h
    · cases h
    rename_i hf
    unfold Gc.cacheInodeGcFunction at hf
    split at hf
    · cases hf
    · rw [if_neg (not_not.mpr hnb)] at hf
      cases hf
      exact ih h

theorem exists_take_cons (hsize : g.hashSize ≠ lw) :
    (∃ n g', purgeAll policy env g ((l :: ls).take n) = some g' ∧ g'.hashSize = lw) ↔
      ∃ n g', purgeAll policy env g (l :: ls.take n) = some g' ∧ g'.hashSize = lw := by
  constructor
  · rintro ⟨n, g', hg', hlw⟩
    cases n with
    | zero =>
      cases hg'
      exact absurd hlw hsize
    | succ n => exact ⟨n, g', hg', hlw⟩
  · rintro ⟨n, g', hg', hlw⟩
    exact ⟨n + 1, g', hg', hlw⟩

/-- **The loop**: with a countdown that goes with the size of the table, it purges what the
collector without a countdown purges, up to the LRU entry where the low water mark is reached
exactly. -/
theorem loop_iff (policy : Policy) (env : Env) (lru : CacheGc.LruList) (ls : List CacheGc.LruEntry)
    (hnb : g.hashSize - g.nbToBePurged = lw) :
    (∀ g' lru', invalidateByFunction (fun g l => g.cacheInodeGcFunction env policy l) g lru ls =
        some (g', lru') → lw.toNat ≤ g'.table.card + g'.chunks) ↔
      (∃ n g', purgeAll policy env g (ls.take n) = some g' ∧ g'.hashSize = lw) ∨
        ∀ g', purgeAll policy env g ls = some g' → lw.toNat ≤ g'.table.card + g'.chunks := by
  induction ls generalizing g lru with
  | nil =>
    constructor
    · intro h
      refine .inr fun g' hg' => ?_
      cases hg'
      exact h g lru rfl
    · rintro h g' lru' hg'
      cases hg'
      rcases h with ⟨n, g', hg', hsize⟩ | h
      · rw [List.take_nil] at hg'
        cases hg'
        exact Nat.le_add_right_of_le (le_card_of_hashSize hsize)
      · exact h g rfl
  | cons l ls ih =>
    by_cases hzero : g.nbToBePurged = 0
    · -- the low water mark is reached
      have hsize : g.hashSize = lw := by
        rw [← hnb, hzero]
        grind
      refine iff_of_true (fun g' lru' h => ?_) (.inl ⟨0, g, rfl, hsize⟩)
      rw [loop_of_zero hzero h]
      exact Nat.le_add_right_of_le (le_card_of_hashSize hsize)
    have hsize : g.hashSize ≠ lw := by
      grind
    rw [exists_take_cons hsize]
    simp only [invalidateByFunction, purgeAll]
    by_cases hvalid : l.valid = false
    · simp only [if_pos hvalid]
      exact ih _ hnb
    simp only [if_neg hvalid]
    have hfun : g.cacheInodeGcFunction env policy l = g.suppressExpired env policy l := by
      unfold Gc.cacheInodeGcFunction
      split
      · rename_i he
        simp [Gc.suppressExpired, he]
      · rw [if_pos hzero]
    rw [hfun]
    cases hs : g.suppressExpired env policy l with
    | none => exact iff_of_true nofun (.inr nofun)
    | some r =>
      obtain ⟨g1, ok⟩ := r
      exact ih _ ((counted_suppressExpired hs).hashSize.trans hnb)

theorem not_lt_hashSize {m : ℕ} {hw : UInt32} (h : m ≤ hw.toNat) : ¬ hw < UInt32.ofNat m := by
  intro hlt
  have := UInt32.lt_iff_toNat_lt.mp hlt
  rw [UInt32.toNat_ofNat'] at this
  exact absurd (Nat.lt_of_lt_of_le this (Nat.mod_le _ _)) (Nat.not_lt.mpr h)

theorem loop_subset
    (h : invalidateByFunction (fun g l => g.cacheInodeGcFunction env policy l) g lru ls =
      some (g', lru')) : g'.table ⊆ g.table := by
  induction ls generalizing g lru with
  | nil => rw [(Prod.mk.inj (Option.some.inj h)).1]
  | cons l ls ih =>
    rw [invalidateByFunction] at h
    split at h
    · exact ih h
    split at h
    · cases h
    rename_i hf
    refine (ih h).trans ?_
    unfold Gc.cacheInodeGcFunction at hf
    split at hf
    · cases hf
    split at hf
    · exact (counted_suppressExpired hf).subset
    · cases hf
      exact subset_rfl

/-! ## A run -/

theorem respects_of_not_runs {k : ℕ} (hruns : ¬ Runs policy env s)
    (h : cacheInodeGc policy env s = some (s', k)) : Respects policy s s' k := by
  have hsame : s'.entry = s.entry ∧ s'.table = s.table := by
    unfold cacheInodeGc at h
    split at h
    · cases h
      exact ⟨rfl, rfl⟩
    split at h
    · cases h
      exact ⟨rfl, rfl⟩
    rename_i hcalls htime
    dsimp only at h
    split at h
    · rename_i hhigh
      exact absurd ⟨hcalls, htime, hhigh⟩ hruns
    · cases h
      exact ⟨rfl, rfl⟩
  refine ⟨fun _ => hsame, fun _ => ?_⟩
  rw [hsame.2, Nat.sub_self]
  exact Nat.zero_le _

theorem cacheInodeGc_of_runs (hruns : Runs policy env s) {k : ℕ} :
    cacheInodeGc policy env s = some (s', k) ↔
      ∃ g lru, invalidateByFunction (fun g l => g.cacheInodeGcFunction env policy l)
        (s.gc policy) s.lruGc s.lruGc.entries.dropLast = some (g, lru) ∧ k = g.chunks ∧
        s' = ⟨g.entry, g.table, lru.gcInvalid policy.nbCallGcInvalid, 0, env.start.2⟩ := by
  obtain ⟨hcalls, htime, hhigh⟩ := hruns
  unfold cacheInodeGc
  rw [if_neg hcalls, if_neg htime, if_pos hhigh]
  constructor
  · intro h
    obtain ⟨⟨g, lru⟩, hloop, h⟩ := Option.bind_eq_some_iff.mp h
    cases h
    exact ⟨g, lru, hloop, rfl, rfl⟩
  · rintro ⟨g, lru, hloop, rfl, rfl⟩
    exact Option.bind_eq_some_iff.mpr ⟨(g, lru), hloop, rfl⟩

/-- **The water marks**: a run respects them exactly when the collector does not come to purge, or
the oldest expired entries reach the low one exactly, or all of them together do not go below it but
for the `DIR_CONTINUE`s of the last directory. -/
theorem respects_iff (policy : Policy) (env : Env) (s : State)
    (hmarks : policy.lwmarkNbEntries ≤ policy.hwmarkNbEntries) :
    (∀ s' k, cacheInodeGc policy env s = some (s', k) → Respects policy s s' k) ↔
      (Runs policy env s → ReachesMark policy env s) := by
  by_cases hruns : Runs policy env s
  swap
  · exact iff_of_true (fun s' k h => respects_of_not_runs hruns h) fun h => absurd h hruns
  have hhigh : policy.hwmarkNbEntries.toNat < s.table.card := by
    by_contra hle
    exact not_lt_hashSize (Nat.not_lt.mp hle) hruns.2.2
  have hmarks' := UInt32.le_iff_toNat_le.mp hmarks
  have hnb : (s.gc policy).hashSize - (s.gc policy).nbToBePurged = policy.lwmarkNbEntries := by
    simp only [State.gc, Gc.hashSize]
    grind
  have hloop := loop_iff policy env s.lruGc s.lruGc.entries.dropLast hnb
  rw [ReachesMark, imp_iff_right hruns, ← hloop]
  constructor
  · intro h g lru hg
    have hpurged := (h _ _ ((cacheInodeGc_of_runs hruns).mpr ⟨g, lru, hg, rfl, rfl⟩)).purged hhigh
    have hcard := Finset.card_le_card (loop_subset hg)
    simp only [State.gc] at hcard hpurged
    omega
  · intro h s' k hs'
    obtain ⟨g, lru, hg, rfl, rfl⟩ := (cacheInodeGc_of_runs hruns).mp hs'
    have hcard := Finset.card_le_card (loop_subset hg)
    have hlow := h g lru hg
    refine ⟨fun hle => absurd hhigh (Nat.not_lt.mpr hle), fun _ => ?_⟩
    simp only [State.gc] at hcard
    dsimp only
    omega

end

/-- Files and directories expire after a second, and the collector is to stop at 4 entries. -/
def policy : Policy := ⟨1, 1, 4, 4, 0, 0, 0⟩

/-- There is memory, and it is late. -/
def lateEnv : Env := ⟨fun _ => true, fun _ => 100, (100, 100), 10⟩

def oldFile (handle : ℕ) : Entry := ⟨handle, .regularFile, true, ⟨0, 0⟩, []⟩

def emptyChunk (pdirCont : Option ℕ) : Chunk := ⟨fun _ => false, 0, pdirCont.isNone, pdirCont⟩

/-- A directory with two `DIR_CONTINUE`s, and two files. -/
def longChain : State where
  entry
    | 0 => some ⟨10, .dirBegin (emptyChunk (some 1)) false, true, ⟨0, 0⟩, []⟩
    | 1 => some ⟨0, .dirCont (emptyChunk (some 2)) 0 1, true, ⟨0, 0⟩, []⟩
    | 2 => some ⟨0, .dirCont (emptyChunk none) 0 2, true, ⟨0, 0⟩, []⟩
    | 3 => some (oldFile 11)
    | 4 => some (oldFile 12)
    | _ => none
  table := {⟨10, 0⟩, ⟨10, 1⟩, ⟨10, 2⟩, ⟨11, 0⟩, ⟨12, 0⟩}
  lruGc := ⟨[⟨0, 0, true⟩, ⟨1, 3, true⟩, ⟨2, 4, true⟩], 0, 0⟩
  callSinceLastGc := 0
  timeOfLastGc := 0

def fiveFiles : State where
  entry a := if a < 5 then some (oldFile a) else none
  table := {⟨0, 0⟩, ⟨1, 0⟩, ⟨2, 0⟩, ⟨3, 0⟩, ⟨4, 0⟩}
  lruGc := ⟨[⟨0, 0, true⟩, ⟨1, 1, true⟩, ⟨2, 2, true⟩], 0, 0⟩
  callSinceLastGc := 0
  timeOfLastGc := 0

/-- Of five files the oldest goes. -/
theorem respects_fiveFiles : policy.lwmarkNbEntries ≤ policy.hwmarkNbEntries ∧
    ((∀ s' k, cacheInodeGc policy lateEnv fiveFiles = some (s', k) →
        Respects policy fiveFiles s' k) ↔
      (Runs policy lateEnv fiveFiles → ReachesMark policy lateEnv fiveFiles)) ∧
    ReachesMark policy lateEnv fiveFiles :=
  ⟨by decide, respects_iff policy lateEnv fiveFiles (by decide), Or.inl ⟨1, _, rfl, by decide⟩⟩

/-- One entry is to be purged; the directory takes the countdown below 0, and a file goes, too. -/
theorem longChain_below_mark : ¬ ∀ (policy : Policy) (env : Env) (s : State),
    policy.lwmarkNbEntries ≤ policy.hwmarkNbEntries →
      ∀ s' k, cacheInodeGc policy env s = some (s', k) → Respects policy s s' k := by
  intro h
  have hpurged := (h policy lateEnv longChain (by decide) _ _ rfl).purged (by decide)
  exact absurd hpurged (by decide)

end CloudNfs.WaterMarks
