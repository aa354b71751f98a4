import CloudNfs.Prealloc
import CloudNfs.Run

/-!
# The duplicate request cache (`MainNFSD/nfs_dupreq.c`, `LRU/LRU_List.c`)

Replies are kept in a hash table whose key is the xid of the request alone, and in a list for each
worker thread, the least recently used one first. A worker collects its own list: entries that have
expired are marked invalid, and invalid entries are taken off the list, out of the table and given
back to the pool of the worker.

`nfs_dupreq_add` overwrites what the table has under the xid. The entry that was there stays on its
list, and collecting it deletes the key, which is now that of the later reply.

* `agrees_of_noReuse` — they do so in every run where no xid is added over the entry of a list.
-/

namespace CloudNfs.Dupreq

open Function (update update_self update_of_ne)

open Prealloc

/-! ## Data -/

/-- `dupreq_entry_t`, for replies of the type `R`. -/
structure DupreqEntry (R : Type) where
  xid : UInt32
  resNfs : R
  rqProg : UInt32
  rqVers : UInt32
  rqProc : UInt32
  timestamp : ℤ

/-- `LRU_entry_t`. -/
structure LruEntry where
  /-- `LRU_ENTRY_VALID` -/
  validState : Bool
  /-- the entry of the cache -/
  pdata : ℕ

/-- `LRU_list_t`. -/
structure LruList where
  /-- the entries, from `LRU` to `MRU` -/
  entries : List LruEntry
  /-- how many there are -/
  nbEntry : UInt32
  /-- how many of them are invalid -/
  nbInvalid : UInt32
  /-- how many were ever made -/
  nbCallGc : UInt32

/-- `LRU_Init`. -/
def LruList.init : LruList := ⟨[], 0, 0, 0⟩

structure Param where
  nbDupreqPrealloc : ℕ
  nbCallGcInvalid : UInt32
  expirationDupreq : ℕ

/-- The cache, with the lists and the pools of the workers. -/
structure Cache (R : Type) where
  mem : ℕ → DupreqEntry R
  htDupreq : UInt32 → Option ℕ
  /-- `duplicate_request` of each worker -/
  lru : ℕ → LruList
  /-- `dupreq_pool` of each worker -/
  pools : Pools

/-- The allocations that `nfs_dupreq_add` makes. -/
structure AddEnv where
  /-- new entries -/
  alloc : Bool
  /-- a node of the table -/
  set : Bool
  /-- an entry of the list -/
  lru : Bool

/-- `nfs_dupreq_add` status. -/
inductive DupreqStatus where
  | success
  | insertMallocError

/-! ## Functions -/

section

variable {R : Type}

/-- `LRU_new_entry`, and what its caller writes into the entry. -/
def lruNewEntry (plru : LruList) (pdata : ℕ) : LruList :=
  { plru with
    entries := plru.entries ++ [⟨true, pdata⟩]
    nbEntry := plru.nbEntry + 1
    nbCallGc := plru.nbCallGc + 1 }

/-- `nfs_dupreq_add` by the worker `w`. -/
def nfsDupreqAdd (param : Param) (c : Cache R) (w : ℕ) (entry : DupreqEntry R) (env : AddEnv) :
    Cache R × DupreqStatus :=
  match c.pools.get w param.nbDupreqPrealloc env.alloc with
  | none => (c, .insertMallocError)
  | some (pdupreq, pools) =>
    let c := { c with pools := pools, mem := update c.mem pdupreq entry }
    -- `HashTable_Set` only needs memory for a key that is not there
    if c.htDupreq entry.xid = none ∧ env.set = false then (c, .insertMallocError)
    else
      let c := { c with htDupreq := update c.htDupreq entry.xid (some pdupreq) }
      if env.lru = false then (c, .insertMallocError)
      else ({ c with lru := update c.lru w (lruNewEntry (c.lru w) pdupreq) }, .success)

/-- `nfs_dupreq_get`: the entry that is found, whose timestamp is reset. -/
def nfsDupreqGet (c : Cache R) (xid : UInt32) (now : ℤ) : Cache R × Option (DupreqEntry R) :=
  match c.htDupreq xid with
  | none => (c, none)
  | some p =>
    ({ c with mem := update c.mem p { c.mem p with timestamp := now } }, some (c.mem p))

def nfsDupreqGcFunction (param : Param) (c : Cache R) (now : ℤ) (pentry : LruEntry) : Bool :=
  decide (now - (c.mem pentry.pdata).timestamp > param.expirationDupreq)

/-- The loop of `LRU_invalidate_by_function`, which stops at the last entry: the entries, and how
many of them it has marked. -/
def invalidateLoop (testfunc : LruEntry → Bool) : List LruEntry → List LruEntry × UInt32
  | [] => ([], 0)
  | [mru] => ([mru], 0)
  | e :: e' :: l =>
    let (rest, n) := invalidateLoop testfunc (e' :: l)
    if e.validState ∧ testfunc e then ({ e with validState := false } :: rest, n + 1)
    else (e :: rest, n)

/-- `LRU_invalidate_by_function` with `nfs_dupreq_gc_function`. -/
def lruInvalidateByFunction (param : Param) (c : Cache R) (w : ℕ) (now : ℤ) : Cache R :=
  let plru := c.lru w
  if plru.nbEntry = 0 then c
  else
    let (entries, n) := invalidateLoop (nfsDupreqGcFunction param c now) plru.entries
    let plru := { plru with entries := entries, nbInvalid := plru.nbInvalid + n }
    { c with lru := update c.lru w plru }

/-- `clean_entry_dupreq`: when the key is gone, another worker is taken to have freed the entry. -/
def cleanEntryDupreq (c : Cache R) (w : ℕ) (pentry : LruEntry) : Cache R :=
  let xid := (c.mem pentry.pdata).xid
  match c.htDupreq xid with
  | none => c
  | some _ =>
    { c with
      htDupreq := update c.htDupreq xid none
      pools := c.pools.release w pentry.pdata }

/-- The loop of `LRU_gc_invalid`, which stops at the last entry: the cache, the entries that are
left, and how many were taken off. -/
def gcLoop (w : ℕ) : Cache R → List LruEntry → Cache R × List LruEntry × UInt32
  | c, [] => (c, [], 0)
  | c, [mru] => (c, [mru], 0)
  | c, e :: e' :: l =>
    if e.validState = false then
      let (c, rest, n) := gcLoop w (cleanEntryDupreq c w e) (e' :: l)
      (c, rest, n + 1)
    else
      let (c, rest, n) := gcLoop w c (e' :: l)
      (c, e :: rest, n)

/-- Whether `LRU_gc_invalid` gets as far as its loop. -/
def gcRuns (param : Param) (plru : LruList) : Bool :=
  decide (plru.nbInvalid ≠ 0 ∧ param.nbCallGcInvalid ≤ plru.nbCallGc)

/-- `LRU_gc_invalid` with `clean_entry_dupreq`. -/
def lruGcInvalid (param : Param) (c : Cache R) (w : ℕ) : Cache R :=
  let plru := c.lru w
  if gcRuns param plru then
    let (c, entries, n) := gcLoop w c plru.entries
    let plru :=
      { plru with
        entries := entries, nbEntry := plru.nbEntry - n, nbInvalid := plru.nbInvalid - n }
    { c with lru := update c.lru w plru }
  else c

/-! ## Runs -/

inductive DupreqOp (R : Type) where
  | add (w : ℕ) (entry : DupreqEntry R) (env : AddEnv)
  | get (xid : UInt32) (now : ℤ)
  /-- `LRU_invalidate_by_function` -/
  | invalidate (w : ℕ) (now : ℤ)
  | gcInvalid (w : ℕ)

def step (param : Param) (c : Cache R) : DupreqOp R → Option (Cache R)
  | .add w entry env => some (nfsDupreqAdd param c w entry env).1
  | .get xid now => some (nfsDupreqGet c xid now).1
  | .invalidate w now => some (lruInvalidateByFunction param c w now)
  | .gcInvalid w => some (lruGcInvalid param c w)

/-- The cache of a server that has just started; memory has any contents. -/
def init (mem : ℕ → DupreqEntry R) : Cache R := ⟨mem, fun _ => none, fun _ => .init, .empty⟩

/-! ## The property -/

/-- A valid entry of a list is the one that the table has under its xid, and what the table has is
not free. -/
structure Agrees (c : Cache R) : Prop where
  /-- from the lists to the table -/
  designates : ∀ w, ∀ e ∈ (c.lru w).entries, e.validState = true →
    c.htDupreq (c.mem e.pdata).xid = some e.pdata
  unfreed : ∀ k p, c.htDupreq k = some p → ∀ w, p ∉ c.pools.pool w

/-- What a collection takes: the invalid entries before the last one. -/
def collected (param : Param) (c : Cache R) (w : ℕ) : List ℕ :=
  if gcRuns param (c.lru w) then
    ((c.lru w).entries.dropLast.filter fun e => !e.validState).map LruEntry.pdata
  else []

/-- A collection removes from the table the entries it takes and no others, and frees each of them
once. -/
def CollectsOwn (param : Param) (c : Cache R) : DupreqOp R → Cache R → Prop
  | .gcInvalid w, c' =>
    (∀ k p, c'.htDupreq k = some p ↔ c.htDupreq k = some p ∧ p ∉ collected param c w) ∧
      c'.pools.pool = update c.pools.pool w
        ((collected param c w).reverse ++ c.pools.pool w)
  | _, _ => True

/-- What is added does not replace an entry that is on a list. -/
def NoReuse (param : Param) (c : Cache R) : DupreqOp R → Cache R → Prop
  | .add w entry env, _ => c.pools.get w param.nbDupreqPrealloc env.alloc ≠ none →
      ∀ p, c.htDupreq entry.xid = some p → ∀ w', ∀ e ∈ (c.lru w').entries, e.pdata ≠ p
  | _, _ => True

/-! ## What holds in every run -/

def LruList.pdatas (plru : LruList) : List ℕ := plru.entries.map LruEntry.pdata

/-- An entry in use is in the table or on a list. -/
def Used (c : Cache R) (p : ℕ) : Prop :=
  (∃ k, c.htDupreq k = some p) ∨ ∃ w, p ∈ (c.lru w).pdatas

/-- The table has its entries under their xids, no entry is on the lists twice, and the free entries
are not in use. -/
structure Sound (c : Cache R) : Prop where
  key : ∀ k p, c.htDupreq k = some p → (c.mem p).xid = k
  nodup : ∀ w, (c.lru w).pdatas.Nodup
  disjoint : ∀ w w', w ≠ w' → (c.lru w).pdatas.Disjoint (c.lru w').pdatas
  pools : Apart c.pools (Used c)

variable {param : Param} {c c' : Cache R} {w w' : ℕ} {entry : DupreqEntry R} {env : AddEnv}
  {xid : UInt32} {now : ℤ} {e : LruEntry} {l : List LruEntry}

theorem sound_init (mem : ℕ → DupreqEntry R) : Sound (init mem) := by
  refine ⟨nofun, fun w => List.nodup_nil, fun w w' _ => List.disjoint_nil_left _, apart_empty ?_⟩
  rintro p (⟨k, hk⟩ | ⟨w, hw⟩)
  · cases hk
  · cases hw

variable {p : ℕ} {op : DupreqOp R}

theorem Sound.withMem (h : Sound c) {pools : Pools} (entry : DupreqEntry R)
    (hpools : Apart pools (Used c)) (hp : ¬ Used c p) :
    Sound { c with pools := pools, mem := update c.mem p entry } := by
  refine ⟨fun k q hq => ?_, h.nodup, h.disjoint, hpools⟩
  have hqp : q ≠ p := by
    rintro rfl
    exact hp (.inl ⟨k, hq⟩)
  dsimp only
  rw [update_of_ne hqp]
  exact h.key k q hq

theorem Sound.set (h : Sound c) (hspare : Spare c.pools p) (hxid : (c.mem p).xid = xid) :
    Sound { c with htDupreq := update c.htDupreq xid (some p) } := by
  have htable : ∀ k q, update c.htDupreq xid (some p) k = some q →
      c.htDupreq k = some q ∨ k = xid ∧ q = p := by
    intro k q hq
    by_cases hk : k = xid
    · subst hk
      rw [update_self] at hq
      exact .inr ⟨rfl, (Option.some.inj hq).symm⟩
    · rw [update_of_ne hk] at hq
      exact .inl hq
  refine ⟨fun k q hq => ?_, h.nodup, h.disjoint, h.pools.use hspare ?_⟩
  · rcases htable k q hq with hq | ⟨rfl, rfl⟩
    · exact h.key k q hq
    · exact hxid
  · rintro q (⟨k, hk⟩ | hlist)
    · rcases htable k q hk with hq | ⟨-, rfl⟩
      · exact .inl (.inl ⟨k, hq⟩)
      · exact .inr rfl
    · exact .inl (.inr hlist)

theorem lruNewEntry_pdatas {plru : LruList} : (lruNewEntry plru p).pdatas = plru.pdatas ++ [p] := by
  rw [LruList.pdatas, lruNewEntry, List.map_append]
  rfl

theorem mem_pdatas_newEntry {lru : ℕ → LruList} {q v : ℕ}
    (hq : q ∈ (update lru w (lruNewEntry (lru w) p) v).pdatas) :
    q ∈ (lru v).pdatas ∨ v = w ∧ q = p := by
  by_cases hv : v = w
  · subst hv
    rw [update_self, lruNewEntry_pdatas, List.mem_append, List.mem_singleton] at hq
    exact hq.imp id fun hq => ⟨rfl, hq⟩
  · rw [update_of_ne hv] at hq
    exact .inl hq

theorem Sound.newEntry (h : Sound c) {k : UInt32} (htable : c.htDupreq k = some p)
    (hp : ∀ w, p ∉ (c.lru w).pdatas) :
    Sound { c with lru := update c.lru w (lruNewEntry (c.lru w) p) } := by
  refine ⟨h.key, fun v => ?_, fun v v' hne q hq hq' => ?_, h.pools.mono ?_⟩
  · dsimp only
    by_cases hv : v = w
    · subst hv
      rw [update_self, lruNewEntry_pdatas, List.nodup_append']
      exact ⟨h.nodup v, List.nodup_singleton p, List.disjoint_singleton.mpr (hp v)⟩
    · rw [update_of_ne hv]
      exact h.nodup v
  · rcases mem_pdatas_newEntry hq with hold | ⟨rfl, rfl⟩
    · rcases mem_pdatas_newEntry hq' with hold' | ⟨-, rfl⟩
      · exact h.disjoint v v' hne hold hold'
      · exact hp v hold
    · rcases mem_pdatas_newEntry hq' with hold' | ⟨rfl, -⟩
      · exact hp v' hold'
      · exact hne rfl
  · rintro q (hq | ⟨v, hv⟩)
    · exact .inl hq
    · rcases mem_pdatas_newEntry hv with hold | ⟨-, rfl⟩
      · exact .inr ⟨v, hold⟩
      · exact .inl ⟨k, htable⟩

/-- **What `nfs_dupreq_add` can do**: nothing, take an entry, put it into the table, and also put it
on the list. -/
inductive AddCases (param : Param) (c : Cache R) (w : ℕ) (entry : DupreqEntry R) (env : AddEnv) :
    Cache R → Prop where
  | none : c.pools.get w param.nbDupreqPrealloc env.alloc = none → AddCases param c w entry env c
  | lost {p : ℕ} {pools : Pools} :
    c.pools.get w param.nbDupreqPrealloc env.alloc = some (p, pools) →
    AddCases param c w entry env
      { c with pools := pools, mem := update c.mem p entry }
  | unlisted {p : ℕ} {pools : Pools} :
    c.pools.get w param.nbDupreqPrealloc env.alloc = some (p, pools) →
    AddCases param c w entry env
      { c with
        pools := pools, mem := update c.mem p entry
        htDupreq := update c.htDupreq entry.xid (some p) }
  | added {p : ℕ} {pools : Pools} :
    c.pools.get w param.nbDupreqPrealloc env.alloc = some (p, pools) →
    AddCases param c w entry env
      { c with
        pools := pools, mem := update c.mem p entry
        htDupreq := update c.htDupreq entry.xid (some p)
        lru := update c.lru w (lruNewEntry (c.lru w) p) }

theorem addCases (h : (nfsDupreqAdd param c w entry env).1 = c') :
    AddCases param c w entry env c' := by
  subst h
  rw [nfsDupreqAdd]
  split
  next hget => exact .none hget
  rename_i p pools hget
  dsimp only
  split
  next => exact .lost hget
  split
  next => exact .unlisted hget
  next => exact .added hget

theorem Sound.addTable (h : Sound c) {pools : Pools} (entry : DupreqEntry R)
    (hget : c.pools.get w param.nbDupreqPrealloc env.alloc = some (p, pools)) :
    Sound { c with
      pools := pools, mem := update c.mem p entry
      htDupreq := update c.htDupreq entry.xid (some p) } ∧ ¬ Used c p := by
  obtain ⟨hapart, hspare, hp⟩ := h.pools.get hget
  refine ⟨(h.withMem entry hapart hp).set hspare ?_, hp⟩
  dsimp only
  rw [update_self]

theorem Sound.add (h : Sound c) (hadd : (nfsDupreqAdd param c w entry env).1 = c') : Sound c' := by
  cases addCases hadd with
  | none hget => exact h
  | lost hget =>
    obtain ⟨hapart, hspare, hp⟩ := h.pools.get hget
    exact h.withMem entry hapart hp
  | unlisted hget => exact (h.addTable entry hget).1
  | added hget =>
    obtain ⟨htable, hp⟩ := h.addTable entry hget
    apply htable.newEntry (k := entry.xid)
    · dsimp only
      rw [update_self]
    · exact fun v hv => hp (.inr ⟨v, hv⟩)

theorem nfsDupreqGet_xid (q : ℕ) : ((nfsDupreqGet c xid now).1.mem q).xid = (c.mem q).xid := by
  rw [nfsDupreqGet]
  split
  next => rfl
  rename_i p hp
  dsimp only
  by_cases hq : q = p
  · subst hq
    rw [update_self]
  · rw [update_of_ne hq]

theorem nfsDupreqGet_rest (c : Cache R) (xid : UInt32) (now : ℤ) :
    (nfsDupreqGet c xid now).1.htDupreq = c.htDupreq ∧
    (nfsDupreqGet c xid now).1.lru = c.lru ∧ (nfsDupreqGet c xid now).1.pools = c.pools := by
  rw [nfsDupreqGet]
  split
  next => exact ⟨rfl, rfl, rfl⟩
  next => exact ⟨rfl, rfl, rfl⟩

theorem Sound.get (h : Sound c) : Sound (nfsDupreqGet c xid now).1 := by
  obtain ⟨htable, hlru, hpools⟩ := nfsDupreqGet_rest c xid now
  refine ⟨fun k q hq => ?_, ?_, ?_, ?_⟩
  · rw [nfsDupreqGet_xid]
    rw [htable] at hq
    exact h.key k q hq
  · rw [hlru]
    exact h.nodup
  · rw [hlru]
    exact h.disjoint
  · have hused : Used (nfsDupreqGet c xid now).1 = Used c := by
      unfold Used
      rw [htable, hlru]
    rw [hpools, hused]
    exact h.pools

theorem invalidateLoop_pdatas {testfunc : LruEntry → Bool} :
    (invalidateLoop testfunc l).1.map LruEntry.pdata = l.map LruEntry.pdata := by
  induction l with
  | nil => rfl
  | cons e l ih =>
    cases l with
    | nil => rfl
    | cons e' l =>
      obtain ⟨rest, n, hrest⟩ : ∃ rest n, invalidateLoop testfunc (e' :: l) = (rest, n) :=
        ⟨_, _, rfl⟩
      rw [hrest] at ih
      rw [invalidateLoop, hrest]
      dsimp only
      split
      · exact congrArg (e.pdata :: ·) ih
      · exact congrArg (e.pdata :: ·) ih

theorem lruInvalidateByFunction_rest (param : Param) (c : Cache R) (w : ℕ) (now : ℤ) :
    (lruInvalidateByFunction param c w now).mem = c.mem ∧
      (lruInvalidateByFunction param c w now).htDupreq = c.htDupreq ∧
      (lruInvalidateByFunction param c w now).pools = c.pools ∧
      ∀ v, ((lruInvalidateByFunction param c w now).lru v).pdatas = (c.lru v).pdatas := by
  rw [lruInvalidateByFunction]
  dsimp only
  split
  next => exact ⟨rfl, rfl, rfl, fun v => rfl⟩
  refine ⟨rfl, rfl, rfl, fun v => ?_⟩
  dsimp only
  by_cases hv : v = w
  · subst hv
    rw [update_self]
    exact invalidateLoop_pdatas
  · rw [update_of_ne hv]

theorem Sound.invalidate (h : Sound c) : Sound (lruInvalidateByFunction param c w now) := by
  obtain ⟨hmem, htable, hpools, hpdatas⟩ := lruInvalidateByFunction_rest param c w now
  refine ⟨?_, fun v => ?_, fun v v' => ?_, ?_⟩
  · rw [hmem, htable]
    exact h.key
  · rw [hpdatas]
    exact h.nodup v
  · rw [hpdatas, hpdatas]
    exact h.disjoint v v'
  · have hused : Used (lruInvalidateByFunction param c w now) = Used c := by
      unfold Used
      simp only [htable, hpdatas]
    rw [hpools, hused]
    exact h.pools

/-! ## Collections -/

/-- What holds during the loop of a collection, for the entries `l` that it has not seen, when the
entries with `K` are on other lists or stay on this one. -/
structure LoopSound (c : Cache R) (l : List LruEntry) (K : ℕ → Prop) : Prop where
  key : ∀ k p, c.htDupreq k = some p → (c.mem p).xid = k
  nodup : (l.map LruEntry.pdata).Nodup
  others : ∀ p ∈ l.map LruEntry.pdata, ¬ K p
  pools : Apart c.pools fun p => (∃ k, c.htDupreq k = some p) ∨ p ∈ l.map LruEntry.pdata ∨ K p

/-- What a collection leaves alone. -/
structure Shrunk (c c' : Cache R) : Prop where
  mem : c'.mem = c.mem
  lru : c'.lru = c.lru
  table : ∀ k p, c'.htDupreq k = some p → c.htDupreq k = some p

variable {K : ℕ → Prop}

theorem cleanEntryDupreq_htDupreq (k : UInt32) (p : ℕ) :
    (cleanEntryDupreq c w e).htDupreq k = some p ↔
      c.htDupreq k = some p ∧ k ≠ (c.mem e.pdata).xid := by
  rw [cleanEntryDupreq]
  split
  next hnone =>
    refine ⟨fun hp => ⟨hp, ?_⟩, And.left⟩
    rintro rfl
    cases hnone.symm.trans hp
  next q hq =>
    dsimp only
    by_cases hk : k = (c.mem e.pdata).xid
    · rw [hk, update_self]
      exact iff_of_false nofun fun hp => hp.2 rfl
    · rw [update_of_ne hk]
      exact ⟨fun hp => ⟨hp, hk⟩, And.left⟩

theorem cleanEntryDupreq_shrunk : Shrunk c (cleanEntryDupreq c w e) := by
  refine ⟨?_, ?_, fun k p hp => ((cleanEntryDupreq_htDupreq k p).mp hp).1⟩
  · rw [cleanEntryDupreq]
    split <;> rfl
  · rw [cleanEntryDupreq]
    split <;> rfl

theorem Shrunk.trans {c1 c2 : Cache R} (h : Shrunk c c1) (h' : Shrunk c1 c2) : Shrunk c c2 :=
  ⟨h'.mem.trans h.mem, h'.lru.trans h.lru, fun k p hp => h.table k p (h'.table k p hp)⟩

theorem LoopSound.clean (h : LoopSound c (e :: l) K) : LoopSound (cleanEntryDupreq c w e) l K := by
  obtain ⟨hnot, hnodup⟩ := List.nodup_cons.mp h.nodup
  have hshrunk : Shrunk c (cleanEntryDupreq c w e) := cleanEntryDupreq_shrunk
  have hothers : ∀ p ∈ l.map LruEntry.pdata, ¬ K p :=
    fun p hp => h.others p (.tail _ hp)
  -- the entry itself is not in use any more
  have hused : ∀ p, ((∃ k, (cleanEntryDupreq c w e).htDupreq k = some p) ∨
      p ∈ l.map LruEntry.pdata ∨ K p) → ((∃ k, c.htDupreq k = some p) ∨
        p ∈ (e :: l).map LruEntry.pdata ∨ K p) ∧ p ≠ e.pdata := by
    rintro p (⟨k, hk⟩ | hl | hK)
    · obtain ⟨hk, hne⟩ := (cleanEntryDupreq_htDupreq k p).mp hk
      refine ⟨.inl ⟨k, hk⟩, ?_⟩
      rintro rfl
      exact hne (h.key k e.pdata hk).symm
    · refine ⟨.inr (.inl (.tail _ hl)), ?_⟩
      rintro rfl
      exact hnot hl
    · refine ⟨.inr (.inr hK), ?_⟩
      rintro rfl
      exact h.others e.pdata (List.mem_cons_self ..) hK
  refine ⟨fun k p hp => ?_, hnodup, hothers, ?_⟩
  · rw [hshrunk.mem]
    exact h.key k p (hshrunk.table k p hp)
  · have hpools : (cleanEntryDupreq c w e).pools = c.pools ∨
        (cleanEntryDupreq c w e).pools = c.pools.release w e.pdata := by
      rw [cleanEntryDupreq]
      split
      next => exact .inl rfl
      next => exact .inr rfl
    rcases hpools with hpools | hpools
    · rw [hpools]
      exact h.pools.mono fun p hp => (hused p hp).1
    · rw [hpools]
      exact h.pools.release (.inr (.inl (List.mem_cons_self ..))) hused

theorem LoopSound.skip (h : LoopSound c (e :: l) K) : LoopSound c l fun p => K p ∨ p = e.pdata := by
  obtain ⟨hnot, hnodup⟩ := List.nodup_cons.mp h.nodup
  refine ⟨h.key, hnodup, fun p hp => ?_, h.pools.mono ?_⟩
  · rintro (hK | rfl)
    · exact h.others p (.tail _ hp) hK
    · exact hnot hp
  · rintro p (hk | hl | hK | rfl)
    · exact .inl hk
    · exact .inr (.inl (.tail _ hl))
    · exact .inr (.inr hK)
    · exact .inr (.inl (List.mem_cons_self ..))

theorem LoopSound.keep (h : LoopSound c l fun p => K p ∨ p = e.pdata) (he : ¬ K e.pdata) :
    LoopSound c (e :: l) K := by
  refine ⟨h.key, List.nodup_cons.mpr ⟨?_, h.nodup⟩, fun p hp => ?_, h.pools.mono ?_⟩
  · exact fun hmem => h.others e.pdata hmem (.inr rfl)
  · rcases List.mem_cons.mp hp with rfl | hp
    · exact he
    · exact fun hK => h.others p hp (.inl hK)
  · rintro p (hk | hl | hK)
    · exact .inl hk
    · rcases List.mem_cons.mp hl with rfl | hl
      · exact .inr (.inr (.inr rfl))
      · exact .inr (.inl hl)
    · exact .inr (.inr (.inl hK))

theorem LoopSound.gcLoop (h : LoopSound c l K) :
    LoopSound (gcLoop w c l).1 (gcLoop w c l).2.1 K ∧ Shrunk c (gcLoop w c l).1 ∧
      ((gcLoop w c l).2.1.map LruEntry.pdata).Sublist (l.map LruEntry.pdata) := by
  -- along the list, which the loop leaves at its last entry
  induction l generalizing c K with
  | nil => exact ⟨h, ⟨rfl, rfl, fun k p hp => hp⟩, List.Sublist.refl _⟩
  | cons e l ih =>
    cases l with
    | nil => exact ⟨h, ⟨rfl, rfl, fun k p hp => hp⟩, List.Sublist.refl _⟩
    | cons e' l =>
      rw [Dupreq.gcLoop]
      split
      next hinvalid =>
        obtain ⟨hsound, hshrunk, hleft⟩ := ih (h.clean (w := w))
        exact ⟨hsound, cleanEntryDupreq_shrunk.trans hshrunk, hleft.cons _⟩
      rename_i hvalid
      obtain ⟨hsound, hshrunk, hleft⟩ := ih h.skip
      exact ⟨hsound.keep (h.others e.pdata (List.mem_cons_self ..)), hshrunk,
        hleft.cons_cons _⟩

theorem Sound.loopSound (h : Sound c) (w : ℕ) :
    LoopSound c (c.lru w).entries fun p => ∃ v, v ≠ w ∧ p ∈ (c.lru v).pdatas := by
  refine ⟨h.key, h.nodup w, ?_, h.pools.mono ?_⟩
  · rintro p hp ⟨v, hv, hmem⟩
    exact h.disjoint v w hv hmem hp
  · rintro p (hk | hl | ⟨v, -, hmem⟩)
    · exact .inl hk
    · exact .inr ⟨w, hl⟩
    · exact .inr ⟨v, hmem⟩

theorem LoopSound.sound {plru : LruList} (h : Sound c) (hshrunk : Shrunk c c')
    (hloop : LoopSound c' plru.entries fun p => ∃ v, v ≠ w ∧ p ∈ (c.lru v).pdatas) :
    Sound { c' with lru := update c'.lru w plru } := by
  have hmem : ∀ v, (v = w ∧ update c'.lru w plru v = plru) ∨
      (v ≠ w ∧ update c'.lru w plru v = c.lru v) := by
    intro v
    by_cases hv : v = w
    · subst hv
      exact .inl ⟨rfl, update_self ..⟩
    · rw [hshrunk.lru]
      exact .inr ⟨hv, update_of_ne hv ..⟩
  refine ⟨hloop.key, fun v => ?_, fun v v' hne p hp hp' => ?_, hloop.pools.mono ?_⟩
  · dsimp only
    rcases hmem v with ⟨-, heq⟩ | ⟨-, heq⟩
    · rw [heq]
      exact hloop.nodup
    · rw [heq]
      exact h.nodup v
  · dsimp only at hp hp'
    rcases hmem v with ⟨hv, heq⟩ | ⟨hv, heq⟩
    · rcases hmem v' with ⟨hv', heq'⟩ | ⟨hv', heq'⟩
      · exact hne (hv.trans hv'.symm)
      · rw [heq] at hp
        rw [heq'] at hp'
        exact hloop.others p hp ⟨v', hv', hp'⟩
    · rcases hmem v' with ⟨hv', heq'⟩ | ⟨hv', heq'⟩
      · rw [heq] at hp
        rw [heq'] at hp'
        exact hloop.others p hp' ⟨v, hv, hp⟩
      · rw [heq] at hp
        rw [heq'] at hp'
        exact h.disjoint v v' hne hp hp'
  · rintro p (hk | ⟨v, hv⟩)
    · exact .inl hk
    · dsimp only at hv
      rcases hmem v with ⟨-, heq⟩ | ⟨hne, heq⟩
      · rw [heq] at hv
        exact .inr (.inl hv)
      · rw [heq] at hv
        exact .inr (.inr ⟨v, hne, hv⟩)

theorem Sound.gcInvalid (h : Sound c) : Sound (lruGcInvalid param c w) := by
  rw [lruGcInvalid]
  dsimp only
  split
  next =>
    obtain ⟨hloop, hshrunk, -⟩ := (h.loopSound w).gcLoop (w := w)
    exact LoopSound.sound h hshrunk hloop
  next => exact h

/-- **Every operation** keeps the cache sound. -/
theorem Sound.step (h : Sound c) (hstep : Dupreq.step param c op = some c') : Sound c' := by
  cases op with
  | add w entry env => exact h.add (Option.some.inj hstep)
  | get xid now =>
    cases hstep
    exact h.get
  | invalidate w now =>
    cases hstep
    exact h.invalidate
  | gcInvalid w =>
    cases hstep
    exact h.gcInvalid

/-- **The cache is `Sound` in every run**, also where an xid is used again. -/
theorem sound_always (param : Param) (mem : ℕ → DupreqEntry R) (ops : List (DupreqOp R)) :
    Always (step param) Sound (init mem) ops :=
  always_of_step (sound_init mem) fun _ _ _ h hstep => h.step hstep

/-! ## What the table leads to -/

/-- Every entry of the table has the property `Q`. -/
def Entries (c : Cache R) (Q : DupreqEntry R → Prop) : Prop :=
  ∀ k p, c.htDupreq k = some p → Q (c.mem p)

variable {Q : DupreqEntry R → Prop}

theorem Entries.add (hE : Entries c Q) (h : Sound c)
    (hadd : (nfsDupreqAdd param c w entry env).1 = c') (hQ : Q entry) : Entries c' Q := by
  -- what is in the table is not written
  have hmem : ∀ {p : ℕ} {pools : Pools}, c.pools.get w param.nbDupreqPrealloc env.alloc =
      some (p, pools) → ∀ k q, c.htDupreq k = some q → Q (update c.mem p entry q) := by
    intro p pools hget k q hq
    have hqp : q ≠ p := by
      rintro rfl
      exact (h.pools.get hget).2.2 (.inl ⟨k, hq⟩)
    rw [update_of_ne hqp]
    exact hE k q hq
  have hset : ∀ {p : ℕ} {pools : Pools}, c.pools.get w param.nbDupreqPrealloc env.alloc =
      some (p, pools) → ∀ k q, update c.htDupreq entry.xid (some p) k = some q →
        Q (update c.mem p entry q) := by
    intro p pools hget k q hq
    by_cases hk : k = entry.xid
    · rw [hk, update_self] at hq
      cases hq
      rw [update_self]
      exact hQ
    · rw [update_of_ne hk] at hq
      exact hmem hget k q hq
  cases addCases hadd with
  | none hget => exact hE
  | lost hget => exact hmem hget
  | unlisted hget => exact hset hget
  | added hget => exact hset hget

theorem Entries.get (hE : Entries c Q) (hQ : ∀ e t, Q e → Q { e with timestamp := t }) :
    Entries (nfsDupreqGet c xid now).1 Q := by
  rw [nfsDupreqGet]
  split
  next => exact hE
  rename_i p hp
  intro k q hq
  dsimp only
  by_cases hqp : q = p
  · subst hqp
    rw [update_self]
    exact hQ _ now (hE k q hq)
  · rw [update_of_ne hqp]
    exact hE k q hq

theorem Entries.invalidate (hE : Entries c Q) :
    Entries (lruInvalidateByFunction param c w now) Q := by
  obtain ⟨hmem, htable, -, -⟩ := lruInvalidateByFunction_rest param c w now
  rw [Entries, hmem, htable]
  exact hE

theorem Entries.gcInvalid (hE : Entries c Q) (h : Sound c) :
    Entries (lruGcInvalid param c w) Q := by
  rw [lruGcInvalid]
  dsimp only
  split
  next =>
    obtain ⟨-, hshrunk, -⟩ := (h.loopSound w).gcLoop (w := w)
    intro k p hp
    dsimp only
    rw [hshrunk.mem]
    exact hE k p (hshrunk.table k p hp)
  next => exact hE

theorem Entries.mono {Q' : DupreqEntry R → Prop} (hE : Entries c Q) (hQ : ∀ e, Q e → Q' e) :
    Entries c Q' :=
  fun k p hp => hQ _ (hE k p hp)

/-! ## Without reuse -/

/-- Every entry of a list, also an invalid one, is in the table. -/
def Listed (c : Cache R) : Prop :=
  ∀ w, ∀ p ∈ (c.lru w).pdatas, c.htDupreq (c.mem p).xid = some p

theorem Sound.agrees (h : Sound c) (hl : Listed c) : Agrees c := by
  refine ⟨fun w e he _ => ?_, fun k p hp w hw => ?_⟩
  · exact hl w e.pdata (List.mem_map_of_mem he)
  · exact h.pools.unused w p hw (.inl ⟨k, hp⟩)

theorem Listed.add (hl : Listed c) (h : Sound c) (hadd : (nfsDupreqAdd param c w entry env).1 = c')
    (hreuse : NoReuse param c (.add w entry env) c') : Listed c' := by
  -- entries of lists are not written
  have hmem : ∀ {p : ℕ} {pools : Pools}, c.pools.get w param.nbDupreqPrealloc env.alloc =
      some (p, pools) → ∀ v, ∀ q ∈ (c.lru v).pdatas, update c.mem p entry q = c.mem q := by
    intro p pools hget v q hq
    have hqp : q ≠ p := by
      rintro rfl
      exact (h.pools.get hget).2.2 (.inr ⟨v, hq⟩)
    rw [update_of_ne hqp]
  -- nor replaced in the table
  have hset : ∀ {p : ℕ} {pools : Pools}, c.pools.get w param.nbDupreqPrealloc env.alloc =
      some (p, pools) → ∀ v, ∀ q ∈ (c.lru v).pdatas, update c.htDupreq entry.xid (some p)
        (update c.mem p entry q).xid = some q := by
    intro p pools hget v q hq
    rw [hmem hget v q hq, update_of_ne]
    · exact hl v q hq
    · intro hxid
      have htable := hl v q hq
      rw [hxid] at htable
      obtain ⟨e, he, rfl⟩ := List.mem_map.mp hq
      refine hreuse ?_ e.pdata htable v e he rfl
      rw [hget]
      nofun
  cases addCases hadd with
  | none hget => exact hl
  | lost hget =>
    intro v q hq
    dsimp only
    rw [hmem hget v q hq]
    exact hl v q hq
  | unlisted hget => exact fun v q hq => hset hget v q hq
  | added hget =>
    intro v q hq
    rcases mem_pdatas_newEntry hq with hq | ⟨-, rfl⟩
    · exact hset hget v q hq
    · dsimp only
      rw [update_self, update_self]

theorem Listed.get (hl : Listed c) : Listed (nfsDupreqGet c xid now).1 := by
  obtain ⟨htable, hlru, -⟩ := nfsDupreqGet_rest c xid now
  intro v q hq
  rw [hlru] at hq
  rw [nfsDupreqGet_xid, htable]
  exact hl v q hq

theorem Listed.invalidate (hl : Listed c) : Listed (lruInvalidateByFunction param c w now) := by
  obtain ⟨hmem, htable, -, hpdatas⟩ := lruInvalidateByFunction_rest param c w now
  intro v q hq
  rw [hpdatas] at hq
  rw [hmem, htable]
  exact hl v q hq

/-- What the loop of a collection takes. -/
def taken (l : List LruEntry) : List ℕ :=
  (l.dropLast.filter fun e => !e.validState).map LruEntry.pdata

theorem taken_cons_cons {e' : LruEntry} : taken (e :: e' :: l) =
    if e.validState = false then e.pdata :: taken (e' :: l) else taken (e' :: l) := by
  rw [taken, List.dropLast_cons_cons, List.filter_cons]
  cases hv : e.validState with
  | false => rfl
  | true => rfl

theorem taken_subset : taken l ⊆ l.map LruEntry.pdata := by
  intro p hp
  obtain ⟨e, he, rfl⟩ := List.mem_map.mp hp
  exact List.mem_map_of_mem (List.dropLast_subset l (List.mem_filter.mp he).1)

/-- What the loop of a collection does when its entries are in the table: it removes and frees what
it takes and leaves the rest. -/
structure Looped (w : ℕ) (c : Cache R) (l : List LruEntry) (c' : Cache R) (rest : List LruEntry) :
    Prop where
  table : ∀ k p, c'.htDupreq k = some p ↔ c.htDupreq k = some p ∧ p ∉ taken l
  freed : c'.pools.pool = update c.pools.pool w ((taken l).reverse ++ c.pools.pool w)
  kept : ∀ p ∈ rest.map LruEntry.pdata, p ∉ taken l

theorem looped_nil (hl : taken l = []) : Looped w c l c l := by
  have hnot : ∀ p, p ∉ taken l := by
    rw [hl]
    exact fun p => List.not_mem_nil
  refine ⟨fun k p => ?_, ?_, fun p _ => hnot p⟩
  · exact ⟨fun hp => ⟨hp, hnot p⟩, And.left⟩
  · rw [hl]
    exact (Function.update_eq_self ..).symm

theorem LoopSound.looped (h : LoopSound c l K)
    (hl : ∀ p ∈ l.map LruEntry.pdata, c.htDupreq (c.mem p).xid = some p) :
    Looped w c l (Dupreq.gcLoop w c l).1 (Dupreq.gcLoop w c l).2.1 := by
  induction l generalizing c K with
  | nil => exact looped_nil rfl
  | cons e l ih =>
    cases l with
    | nil => exact looped_nil rfl
    | cons e' l =>
      have hnot := (List.nodup_cons.mp h.nodup).1
      have hrest : ∀ p ∈ (e' :: l).map LruEntry.pdata, c.htDupreq (c.mem p).xid = some p :=
        fun p hp => hl p (.tail _ hp)
      rw [Dupreq.gcLoop]
      split
      next hinvalid =>
        have htaken : taken (e :: e' :: l) = e.pdata :: taken (e' :: l) := by
          rw [taken_cons_cons, if_pos hinvalid]
        -- the key of the entry leads to the entry, so this is what is deleted
        have he := hl e.pdata (List.mem_cons_self ..)
        have hkey : ∀ k p, c.htDupreq k = some p → (k ≠ (c.mem e.pdata).xid ↔ p ≠ e.pdata) := by
          intro k p hp
          refine not_congr ⟨?_, ?_⟩
          · rintro rfl
            exact Option.some.inj (hp.symm.trans he)
          · rintro rfl
            exact (h.key k e.pdata hp).symm
        have hpools : (cleanEntryDupreq c w e).pools = c.pools.release w e.pdata := by
          rw [cleanEntryDupreq, he]
        have hshrunk : Shrunk c (cleanEntryDupreq c w e) := cleanEntryDupreq_shrunk
        have hclean := h.clean (w := w)
        have hih := ih hclean fun p hp => by
          rw [hshrunk.mem, cleanEntryDupreq_htDupreq, hkey _ p (hrest p hp)]
          refine ⟨hrest p hp, ?_⟩
          rintro rfl
          exact hnot hp
        have hleft := (hclean.gcLoop (w := w)).2.2
        refine ⟨fun k p => ?_, ?_, fun p hp => ?_⟩
        · rw [hih.table, cleanEntryDupreq_htDupreq, htaken, List.mem_cons, not_or, and_assoc]
          exact and_congr_right fun hp => and_congr_left fun _ => hkey k p hp
        · rw [hih.freed, hpools, htaken, Pools.release]
          dsimp only
          rw [Function.update_idem, update_self, List.reverse_cons, List.append_assoc]
          rfl
        · rw [htaken, List.mem_cons, not_or]
          refine ⟨?_, hih.kept p hp⟩
          rintro rfl
          exact hnot (hleft.subset hp)
      next hvalid =>
        have htaken : taken (e :: e' :: l) = taken (e' :: l) := by
          rw [taken_cons_cons, if_neg hvalid]
        have hih := ih h.skip hrest
        refine ⟨fun k p => ?_, ?_, fun p hp => ?_⟩
        · rw [htaken]
          exact hih.table k p
        · rw [htaken]
          exact hih.freed
        · rw [htaken]
          rcases List.mem_cons.mp hp with rfl | hp
          · exact fun hmem => hnot (taken_subset hmem)
          · exact hih.kept p hp

theorem Listed.gcInvalid (hl : Listed c) (h : Sound c) : Listed (lruGcInvalid param c w) ∧
    CollectsOwn param c (.gcInvalid w) (lruGcInvalid param c w) := by
  rw [lruGcInvalid, CollectsOwn, collected]
  dsimp only
  by_cases hruns : gcRuns param (c.lru w) = true
  · rw [if_pos hruns, if_pos hruns]
    have hlooped := (h.loopSound w).looped (w := w) (hl w)
    obtain ⟨-, hshrunk, hleft⟩ := (h.loopSound w).gcLoop (w := w)
    refine ⟨fun v p hp => ?_, hlooped.table, hlooped.freed⟩
    dsimp only at hp ⊢
    rw [hshrunk.mem, hlooped.table]
    by_cases hv : v = w
    · subst hv
      rw [update_self] at hp
      exact ⟨hl v p (hleft.subset hp), hlooped.kept p hp⟩
    · rw [update_of_ne hv, hshrunk.lru] at hp
      -- what is taken is on the list of the worker, and so on no other
      exact ⟨hl v p hp, fun htaken => h.disjoint v w hv hp (taken_subset htaken)⟩
  · rw [if_neg hruns, if_neg hruns]
    refine ⟨hl, fun k p => ⟨fun hp => ⟨hp, List.not_mem_nil⟩, And.left⟩, ?_⟩
    exact (Function.update_eq_self ..).symm

/-- **An operation** keeps the records on the lists of their workers, if no xid is reused. -/
theorem Listed.step (hl : Listed c) (h : Sound c) (hstep : Dupreq.step param c op = some c')
    (hreuse : NoReuse param c op c') : Listed c' := by
  cases op with
  | add w entry env => exact hl.add h (Option.some.inj hstep) hreuse
  | get xid now =>
    cases hstep
    exact hl.get
  | invalidate w now =>
    cases hstep
    exact hl.invalidate
  | gcInvalid w =>
    cases hstep
    exact (hl.gcInvalid h).1

theorem Listed.collectsOwn (hl : Listed c) (h : Sound c) (hstep : Dupreq.step param c op = some c')
    : CollectsOwn param c op c' := by
  cases op with
  | gcInvalid w =>
    cases hstep
    exact (hl.gcInvalid h).2
  | add w entry env => trivial
  | get xid now => trivial
  | invalidate w now => trivial

/-- **The duplicate request cache**: in every run where nothing is added over an entry of a list,
the lists and the table agree throughout, and every collection takes exactly its own entries. -/
theorem agrees_of_noReuse (param : Param) (mem : ℕ → DupreqEntry R) (ops : List (DupreqOp R))
    (hreuse : AllSteps (step param) (NoReuse param) (init mem) ops) :
    Always (step param) Agrees (init mem) ops ∧
      AllSteps (step param) (CollectsOwn param) (init mem) ops := by
  have hinit : Listed (init mem) := by
    intro w p hp
    cases hp
  have hinv : Always (step param) (fun c => Sound c ∧ Listed c) (init mem) ops := by
    apply always_of_allSteps ⟨sound_init mem, hinit⟩ _ hreuse
    exact fun c op c' h hstep hreuse => ⟨h.1.step hstep, h.2.step h.1 hstep hreuse⟩
  refine ⟨hinv.mono fun c h => h.1.agrees h.2, ?_⟩
  apply allSteps_of_always _ hinv
  exact fun c op c' h _ hstep => h.2.collectsOwn h.1 hstep

end

/-- A reply to the request `xid` of NFSv3, at time 0. -/
def replyTo (xid : UInt32) : DupreqEntry Unit := ⟨xid, (), 100003, 3, 7, 0⟩

/-- Two requests of a worker, the first of which is collected. -/
theorem agrees_of_noReuse_twoRequests :
    Always (step ⟨1, 0, 60⟩) Agrees (init fun _ => replyTo 0)
        [.add 0 (replyTo 7) ⟨true, true, true⟩, .add 0 (replyTo 8) ⟨true, true, true⟩,
          .invalidate 0 100, .gcInvalid 0] ∧
      AllSteps (step ⟨1, 0, 60⟩) (CollectsOwn ⟨1, 0, 60⟩) (init fun _ => replyTo 0)
        [.add 0 (replyTo 7) ⟨true, true, true⟩, .add 0 (replyTo 8) ⟨true, true, true⟩,
          .invalidate 0 100, .gcInvalid 0] := by
  apply agrees_of_noReuse
  intro c1 h1
  cases h1
  refine ⟨fun _ _ => nofun, fun c2 h2 => ?_⟩
  cases h2
  refine ⟨fun _ _ => nofun, fun c3 h3 => ⟨trivial, fun c4 h4 => ⟨trivial, trivial⟩⟩⟩

/-- Two workers add their replies to two requests with the same xid: the entry of the first one is
on its list, and the table leads to the second one. -/
theorem sameXid_breaks_agrees :
    ¬ ∀ (param : Param) (mem : ℕ → DupreqEntry Unit) (ops : List (DupreqOp Unit)),
      Always (step param) Agrees (init mem) ops ∧
        AllSteps (step param) (CollectsOwn param) (init mem) ops := by
  intro h
  obtain ⟨hall, -⟩ := h ⟨1, 0, 60⟩ (fun _ => replyTo 0)
    [.add 0 (replyTo 7) ⟨true, true, true⟩, .add 1 (replyTo 7) ⟨true, true, true⟩]
  obtain ⟨-, hall⟩ := hall
  obtain ⟨-, hall⟩ := hall _ rfl
  have hagrees : Agrees _ := hall _ rfl
  have hfirst := hagrees.designates 0 ⟨true, 0⟩ (List.mem_singleton.mpr rfl) rfl
  cases hfirst

end CloudNfs.Dupreq
