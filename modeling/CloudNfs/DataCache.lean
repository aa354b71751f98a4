import CloudNfs.ByteFile
import CloudNfs.Run

/-!
# The data cache of a file

A regular file may have a copy of its content in a local file, the data file of its
`cache_content_entry_t`. `sync_state` says whether the two are the same.

* `cache_content_new_entry` makes an empty data file and leaves it to `cache_content_refresh` to
  fill it. That function keeps the data file when it is more recent than the file in the FSAL,
  which is meant for the recovery after a crash, and a file made a moment ago always looks so.
* `cache_content_flush` copies the data file to the FSAL under the lock of the inode entry, and sets
  `SYNC_OK` after it has released the lock; a write in between is forgotten.
  `cache_content_truncate` does not touch `sync_state`.
* Times are in seconds. Each call of the system that may fail has its outcome in an `Env`; a copy
  between the two files that succeeds copies everything.
-/

namespace CloudNfs

namespace DataCache

/-! ### The code -/

/-- `cache_content_sync_state_t` -/
inductive SyncState where
  | justCreated
  | syncOk
  | flushNeeded
  | refreshNeeded

structure Times where
  mtime : ℕ
  atime : ℕ
  /-- last change of the file -/
  ctime : ℕ

structure DataFile where
  content : ByteFile
  /-- what `stat` says -/
  times : Times

structure Entry where
  data : Option DataFile
  syncState : SyncState
  /-- `attributes` of the inode entry -/
  attributes : Times
  fsal : ByteFile

/-- `cache_content_refresh_how_t` -/
inductive RefreshHow where
  | forceFromFsal
  | defaultRefresh
  deriving DecidableEq

/-- `cache_content_add_behaviour_t` -/
inductive AddBehaviour where
  | addEntry
  | recoverEntry
  | renewEntry
  deriving DecidableEq

structure Env where
  /-- `GET_PREALLOC` -/
  pool : Bool
  /-- `cache_content_create_name` for the index -/
  indexName : Bool
  /-- `cache_content_create_name` for the data -/
  dataName : Bool
  /-- `cache_inode_dump_content` -/
  dump : Bool
  creat : Bool
  handle : Bool
  path : Bool
  rcp : Bool

/-- `creat`: an empty file, also if there was one. -/
def creat (old : Option DataFile) (now : ℕ) : DataFile where
  content := .empty
  times := ⟨now, old.elim now fun d => d.times.atime, now⟩

/-- `cache_content_refresh`, and whether it succeeds. -/
def cacheContentRefresh (e : Entry) (how : RefreshHow) (env : Env) (now : ℕ) : Entry × Bool :=
  if env.handle = false then (e, false)
  else if env.path = false then (e, false)
  else
    match e.data with
    | none => (e, false)
    | some d =>
      if how ≠ .forceFromFsal ∧ e.attributes.mtime < d.times.mtime then
        ({ e with attributes := d.times }, true)
      else if env.rcp = false then (e, false)
      else
        ({ e with
            data := some ⟨e.fsal, ⟨now, d.times.atime, now⟩⟩
            syncState := .syncOk }, true)

/-- `cache_content_new_entry`, and whether it returns an entry. -/
def cacheContentNewEntry (e : Entry) (how : AddBehaviour) (flushForceFsal : ℕ) (env : Env)
    (now : ℕ) : Entry × Bool :=
  if how ≠ .renewEntry ∧ env.pool = false then (e, false)
  else if env.indexName = false then (e, false)
  else if env.dataName = false then (e, false)
  else
    let e : Entry := { e with syncState := .justCreated }
    if env.dump = false then (e, false)
    else if (how = .addEntry ∨ how = .renewEntry) ∧ env.creat = false then (e, false)
    else
      let e : Entry :=
        if how = .addEntry ∨ how = .renewEntry then { e with data := some (creat e.data now) }
        else e
      if how = .recoverEntry then (e, true)
      else if flushForceFsal = 0 then cacheContentRefresh e .defaultRefresh env now
      else cacheContentRefresh e .forceFromFsal env now

/-- `cache_content_rdwr` for a read: the bytes that it gives, if there is a data file. -/
def cacheContentRead (e : Entry) (offset size : ℕ) : Option (List UInt8) :=
  e.data.map fun d => d.content.read offset size

/-- `cache_content_rdwr` for a write, with `cache_content_valid`. -/
def cacheContentWrite (e : Entry) (offset size : ℕ) (buffer : ℕ → UInt8) (now : ℕ) : Entry :=
  match e.data with
  | none => e
  | some d =>
    { e with
      data := some ⟨d.content.write offset size buffer, ⟨now, d.times.atime, now⟩⟩
      syncState := .flushNeeded }

def cacheContentTruncate (e : Entry) (length now : ℕ) : Entry :=
  match e.data with
  | none => e
  | some d =>
    { e with data := some ⟨d.content.truncate length, ⟨now, d.times.atime, now⟩⟩ }

/-- The part of `cache_content_flush` under the lock, without a deletion. -/
def flushCopy (e : Entry) : Entry :=
  match e.data with
  | none => e
  | some d => { e with fsal := d.content }

/-- The end of `cache_content_flush`. -/
def flushEnd (e : Entry) : Entry := { e with syncState := .syncOk }

/-! ### A new entry -/

/-- **The data cache starts from the content of the file**: the data file has it, and so does what
is read. -/
def StartsRight (e : Entry) : Prop :=
  (∃ d, e.data = some d ∧ d.content = e.fsal) ∧
    ∀ offset size, cacheContentRead e offset size = some (e.fsal.read offset size)

section

variable {e : Entry} {how : AddBehaviour} {flushForceFsal now : ℕ} {env : Env}

theorem startsRight_iff {d : DataFile} (hd : e.data = some d) :
    StartsRight e ↔ d.content = e.fsal := by
  constructor
  · rintro ⟨⟨d', hd', hcontent⟩, -⟩
    cases hd.symm.trans hd'
    exact hcontent
  · intro hcontent
    refine ⟨⟨d, hd, hcontent⟩, fun offset size => ?_⟩
    rw [cacheContentRead, hd, Option.map_some, hcontent]

theorem refresh_cases {rhow : RefreshHow} {d : DataFile} (hd : e.data = some d)
    (hr : (cacheContentRefresh e rhow env now).2 = true) :
    (rhow ≠ .forceFromFsal ∧ e.attributes.mtime < d.times.mtime ∧
      (cacheContentRefresh e rhow env now).1 = { e with attributes := d.times }) ∨
    (¬ (rhow ≠ .forceFromFsal ∧ e.attributes.mtime < d.times.mtime) ∧
      (cacheContentRefresh e rhow env now).1 =
        { e with
          data := some ⟨e.fsal, ⟨now, d.times.atime, now⟩⟩
          syncState := .syncOk }) := by
  unfold cacheContentRefresh at hr ⊢
  by_cases hhandle : env.handle = false
  · simp [hhandle] at hr
  by_cases hpath : env.path = false
  · simp [hhandle, hpath] at hr
  simp only [if_neg hhandle, if_neg hpath, hd] at hr ⊢
  by_cases hkeep : rhow ≠ .forceFromFsal ∧ e.attributes.mtime < d.times.mtime
  · simp only [if_pos hkeep]
    exact .inl ⟨hkeep.1, hkeep.2, trivial⟩
  by_cases hrcp : env.rcp = false
  · simp [hkeep, hrcp] at hr
  · simp only [if_neg hkeep, if_neg hrcp]
    exact .inr ⟨hkeep, trivial⟩

theorem newEntry_eq (hhow : how = .addEntry ∨ how = .renewEntry)
    (hr : (cacheContentNewEntry e how flushForceFsal env now).2 = true) :
    cacheContentNewEntry e how flushForceFsal env now =
      cacheContentRefresh { e with syncState := .justCreated, data := some (creat e.data now) }
        (if flushForceFsal = 0 then .defaultRefresh else .forceFromFsal) env now := by
  have hnot : how ≠ .recoverEntry := by
    rcases hhow with rfl | rfl <;> decide
  unfold cacheContentNewEntry at hr ⊢
  by_cases hpool : how ≠ .renewEntry ∧ env.pool = false
  · simp [hpool] at hr
  by_cases hindex : env.indexName = false
  · simp [hpool, hindex] at hr
  by_cases hdata : env.dataName = false
  · simp [hpool, hindex, hdata] at hr
  by_cases hdump : env.dump = false
  · simp [hpool, hindex, hdata, hdump] at hr
  by_cases hcreat : (how = .addEntry ∨ how = .renewEntry) ∧ env.creat = false
  · simp [hpool, hindex, hdata, hdump, hcreat] at hr
  simp only [if_neg hpool, if_neg hindex, if_neg hdata, if_neg hdump, if_neg hcreat, if_pos hhow,
    if_neg hnot]
  by_cases hforce : flushForceFsal = 0
  · simp only [if_pos hforce]
  · simp only [if_neg hforce]

theorem recoverEntry_eq (hhow : how = .recoverEntry)
    (hr : (cacheContentNewEntry e how flushForceFsal env now).2 = true) :
    (cacheContentNewEntry e how flushForceFsal env now).1 =
      { e with syncState := .justCreated } := by
  subst hhow
  unfold cacheContentNewEntry at hr ⊢
  by_cases hpool : env.pool = false
  · simp [hpool] at hr
  by_cases hindex : env.indexName = false
  · simp [hpool, hindex] at hr
  by_cases hdata : env.dataName = false
  · simp [hpool, hindex, hdata] at hr
  by_cases hdump : env.dump = false
  · simp [hpool, hindex, hdata, hdump] at hr
  simp [hpool, hindex, hdata, hdump]

/-- **The data cache starts from the content of the file** exactly if the copy is forced, the file
is as recent as the data file, or it is empty. -/
theorem newEntry_startsRight_iff (e : Entry) (how : AddBehaviour) (flushForceFsal : ℕ) (env : Env)
    (now : ℕ) (hhow : how = .addEntry ∨ how = .renewEntry)
    (hr : (cacheContentNewEntry e how flushForceFsal env now).2 = true) :
    StartsRight (cacheContentNewEntry e how flushForceFsal env now).1 ↔
      flushForceFsal ≠ 0 ∨ now ≤ e.attributes.mtime ∨ e.fsal.size = 0 := by
  have hrefresh := newEntry_eq hhow hr
  rw [hrefresh] at hr ⊢
  rcases refresh_cases rfl hr with ⟨hdefault, hnewer, heq⟩ | ⟨hcopy, heq⟩
  · -- the empty data file is kept
    have hzero : flushForceFsal = 0 := by
      by_contra hne
      rw [if_neg hne] at hdefault
      exact hdefault rfl
    replace hnewer : e.attributes.mtime < now := hnewer
    rw [heq, startsRight_iff rfl]
    have hempty : (creat e.data now).content = e.fsal ↔ e.fsal.size = 0 :=
      eq_comm.trans ByteFile.eq_empty_iff
    rw [hempty]
    constructor
    · exact fun h => Or.inr (Or.inr h)
    · rintro (h | h | h)
      · exact absurd hzero h
      · omega
      · exact h
  · rw [heq, startsRight_iff rfl]
    refine iff_of_true rfl ?_
    by_cases hforce : flushForceFsal = 0
    · have hold : ¬ e.attributes.mtime < now := by
        intro hlt
        exact hcopy ⟨by rw [if_pos hforce]; decide, hlt⟩
      exact Or.inr (Or.inl (Nat.le_of_not_lt hold))
    · exact Or.inl hforce

/-- A file with one byte, last changed at the time 5, that is not in the data cache yet. -/
def oneByte : Entry :=
  ⟨none, .justCreated, ⟨5, 5, 5⟩, ByteFile.empty.write 0 1 fun _ => 7⟩

def allSucceed : Env := ⟨true, true, true, true, true, true, true, true⟩

/-- With a forced copy the one byte is read. -/
theorem newEntry_startsRight_forced :
    StartsRight (cacheContentNewEntry oneByte .addEntry 1 allSucceed 10).1 :=
  (newEntry_startsRight_iff oneByte .addEntry 1 allSucceed 10 (Or.inl rfl) (by decide)).mpr
    (Or.inl (by decide))

/-- **The empty copy**: the data file is made at the time 10, and so it is more recent. -/
theorem newEntry_keeps_empty :
    ¬ ∀ (e : Entry) (how : AddBehaviour) (flushForceFsal : ℕ) (env : Env) (now : ℕ),
      how = .addEntry ∨ how = .renewEntry →
      (cacheContentNewEntry e how flushForceFsal env now).2 = true →
        StartsRight (cacheContentNewEntry e how flushForceFsal env now).1 := by
  intro h
  have hstart := h oneByte .addEntry 0 allSucceed 10 (Or.inl rfl) (by decide)
  exact absurd (hstart.2 0 1) (by decide)

end

end DataCache

end CloudNfs
