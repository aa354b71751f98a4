import CloudNfs.DataCache

/-!
# `SYNC_OK`

Any threads call `cache_content_flush`, `cache_content_refresh`, `cache_content_truncate` and
`cache_content_rdwr` on one cached file. What is done under the write lock of the inode entry is
one step. For all calls but the first this is everything; `cache_content_flush` goes on after it
has released the lock.

`SYNC_OK` then says that the two files are the same, if nobody changes the data file while a
flush is past its copy, and nobody truncates it in the state `SYNC_OK`
(`synced_of_keepsSync`).
-/

namespace CloudNfs

namespace DataCache

universe u

/-- Where a thread is. -/
inductive Place where
  | out
  /-- in `cache_content_flush`, with the lock released -/
  | copied
  /-- there too, and `last_flush_time` is set -/
  | stamped
  deriving DecidableEq

structure Sys (T : Type u) where
  entry : Entry
  pc : T → Place

inductive Action (T : Type u) where
  /-- `cache_content_flush` under the lock -/
  | flushCopy (t : T)
  /-- `last_flush_time` is set -/
  | flushStamp (t : T)
  /-- `sync_state` is set -/
  | flushEnd (t : T)
  /-- `cache_content_refresh`, with the attributes that the inode entry has by then -/
  | refresh (t : T) (how : RefreshHow) (attributes : Times) (now : ℕ)
  | truncate (t : T) (length now : ℕ)
  /-- `cache_content_rdwr` for a write -/
  | write (t : T) (offset size : ℕ) (buffer : ℕ → UInt8) (now : ℕ)

section

variable {T : Type u} [DecidableEq T]

def step (s : Sys T) : Action T → Option (Sys T)
  | .flushCopy t =>
    if s.pc t = .out then some ⟨flushCopy s.entry, Function.update s.pc t .copied⟩ else none
  | .flushStamp t =>
    if s.pc t = .copied then some ⟨s.entry, Function.update s.pc t .stamped⟩ else none
  | .flushEnd t =>
    if s.pc t = .stamped then some ⟨flushEnd s.entry, Function.update s.pc t .out⟩ else none
  | .refresh t how attributes now =>
    if s.pc t = .out then
      some { s with
        entry := (cacheContentRefresh { s.entry with attributes := attributes } how allSucceed
          now).1 }
    else none
  | .truncate t length now =>
    if s.pc t = .out then some { s with entry := cacheContentTruncate s.entry length now } else none
  | .write t offset size buffer now =>
    if s.pc t = .out then some { s with entry := cacheContentWrite s.entry offset size buffer now }
    else none

/-- The two files are the same. -/
def Entry.Same (e : Entry) : Prop := ∃ d, e.data = some d ∧ d.content = e.fsal

/-- **`SYNC_OK` means synchronised**, while no call is in progress. -/
def Synced (s : Sys T) : Prop :=
  (∀ t, s.pc t = .out) → s.entry.syncState = .syncOk → s.entry.Same

/-- No flush is between its copy and its end. -/
def NoFlush (s : Sys T) : Prop := ∀ t, s.pc t = .out

/-- What a step must meet in the state before it: the data file is only changed while no flush is
between its copy and its end, and by a truncation only in another state than `SYNC_OK`. -/
def KeepsSync (s : Sys T) : Action T → Prop
  | .write _ offset size buffer _ =>
    NoFlush s ∨ ∀ d, s.entry.data = some d → d.content.write offset size buffer = d.content
  | .truncate _ length _ =>
    (NoFlush s ∧ s.entry.syncState ≠ .syncOk) ∨
      ∀ d, s.entry.data = some d → d.content.truncate length = d.content
  | _ => True

/-- **The invariant**: the files are the same if the state says so, and while a flush is past its
copy. -/
structure Inv (s : Sys T) : Prop where
  cached : s.entry.data.isSome = true
  syncOk : s.entry.syncState = .syncOk → s.entry.Same
  copied : ¬ NoFlush s → s.entry.Same

variable {s s' : Sys T} {t : T}

omit [DecidableEq T] in
theorem Inv.congr_pc (h : Inv s) (hsame : s.entry.Same) (pc : T → Place) : Inv ⟨s.entry, pc⟩ :=
  ⟨h.cached, fun _ => hsame, fun _ => hsame⟩

omit [DecidableEq T] in
theorem Inv.change (h : Inv s) {d d' : DataFile} (hd : s.entry.data = some d) (ss : SyncState)
    (hok : ss = .syncOk → s.entry.syncState = .syncOk ∧ d'.content = d.content)
    (hflush : NoFlush s ∨ d'.content = d.content) :
    Inv ⟨{ s.entry with data := some d', syncState := ss }, s.pc⟩ := by
  have hsame : d'.content = d.content → s.entry.Same →
      Entry.Same { s.entry with data := some d', syncState := ss } := by
    rintro hcontent ⟨d0, hd0, heq⟩
    cases hd.symm.trans hd0
    exact ⟨d', rfl, hcontent.trans heq⟩
  refine ⟨rfl, fun hss => ?_, fun hno => ?_⟩
  · obtain ⟨hold, hcontent⟩ := hok hss
    exact hsame hcontent (h.syncOk hold)
  · exact hsame (hflush.resolve_left hno) (h.copied hno)

theorem refresh_allSucceed {e : Entry} {d : DataFile} (hd : e.data = some d) (how : RefreshHow)
    (now : ℕ) : (cacheContentRefresh e how allSucceed now).2 = true := by
  unfold cacheContentRefresh
  simp only [allSucceed, hd, Bool.true_eq_false, if_false]
  split <;> rfl

/-- **A step** keeps the invariant, if it keeps the file in sync. -/
theorem Inv.step (h : Inv s) {a : Action T} (hstep : step s a = some s') (hkeep : KeepsSync s a) :
    Inv s' := by
  obtain ⟨d, hd⟩ := Option.isSome_iff_exists.mp h.cached
  cases a with
  | flushCopy t =>
    obtain ⟨-, hs'⟩ := Option.ite_none_right_eq_some.mp hstep
    cases hs'
    have hsame : (flushCopy s.entry).Same := ⟨d, by simp only [DataCache.flushCopy, hd], by
      simp only [DataCache.flushCopy, hd]⟩
    refine ⟨?_, fun _ => hsame, fun _ => hsame⟩
    simp only [DataCache.flushCopy, hd]
    rfl
  | flushStamp t =>
    obtain ⟨hpc, hs'⟩ := Option.ite_none_right_eq_some.mp hstep
    cases hs'
    refine h.congr_pc (h.copied fun hno => ?_) _
    rw [hno t] at hpc
    cases hpc
  | flushEnd t =>
    obtain ⟨hpc, hs'⟩ := Option.ite_none_right_eq_some.mp hstep
    cases hs'
    have hsame : s.entry.Same := by
      refine h.copied fun hno => ?_
      rw [hno t] at hpc
      cases hpc
    exact ⟨h.cached, fun _ => hsame, fun _ => hsame⟩
  | refresh t how attributes now =>
    obtain ⟨-, hs'⟩ := Option.ite_none_right_eq_some.mp hstep
    cases hs'
    have hd' : ({ s.entry with attributes := attributes } : Entry).data = some d := hd
    rcases refresh_cases hd' (refresh_allSucceed hd' how now) with ⟨-, -, heq⟩ | ⟨-, heq⟩
    · rw [heq]
      exact ⟨h.cached, h.syncOk, h.copied⟩
    · rw [heq]
      exact ⟨rfl, fun _ => ⟨_, rfl, rfl⟩, fun _ => ⟨_, rfl, rfl⟩⟩
  | truncate t length now =>
    obtain ⟨-, hs'⟩ := Option.ite_none_right_eq_some.mp hstep
    cases hs'
    simp only [cacheContentTruncate, hd]
    refine h.change hd s.entry.syncState (fun hok => ?_) ?_
    · rcases hkeep with ⟨-, hnot⟩ | hsame
      · exact absurd hok hnot
      · exact ⟨hok, hsame d hd⟩
    · exact hkeep.imp (fun hk => hk.1) fun hsame => hsame d hd
  | write t offset size buffer now =>
    obtain ⟨-, hs'⟩ := Option.ite_none_right_eq_some.mp hstep
    cases hs'
    simp only [cacheContentWrite, hd]
    refine h.change hd .flushNeeded (fun hok => ?_) (hkeep.imp_right fun hsame => hsame d hd)
    cases hok

/-! ### The runs -/

/-- The file after a new entry, with no call in progress. -/
def start (e : Entry) : Sys T := ⟨e, fun _ => .out⟩

omit [DecidableEq T] in
theorem inv_start {e : Entry} {how : AddBehaviour} {flushForceFsal now : ℕ} {env : Env}
    (hdata : how = .recoverEntry → e.data.isSome = true)
    (hr : (cacheContentNewEntry e how flushForceFsal env now).2 = true) :
    Inv (start (cacheContentNewEntry e how flushForceFsal env now).1 : Sys T) := by
  have hno : NoFlush (start (cacheContentNewEntry e how flushForceFsal env now).1 : Sys T) :=
    fun _ => rfl
  suffices hentry : (cacheContentNewEntry e how flushForceFsal env now).1.data.isSome = true ∧
      ((cacheContentNewEntry e how flushForceFsal env now).1.syncState = .syncOk →
        (cacheContentNewEntry e how flushForceFsal env now).1.Same) from
    ⟨hentry.1, hentry.2, fun hflush => absurd hno hflush⟩
  by_cases hrecover : how = .recoverEntry
  · rw [recoverEntry_eq hrecover hr]
    exact ⟨hdata hrecover, fun hok => (by cases hok)⟩
  have hhow : how = .addEntry ∨ how = .renewEntry := by
    cases how <;> simp_all
  have hrefresh := newEntry_eq hhow hr
  rw [hrefresh] at hr ⊢
  rcases refresh_cases rfl hr with ⟨-, -, heq⟩ | ⟨-, heq⟩
  · rw [heq]
    exact ⟨rfl, fun hok => (by cases hok)⟩
  · rw [heq]
    exact ⟨rfl, fun _ => ⟨_, rfl, rfl⟩⟩

/-- **`SYNC_OK` means synchronised** in every run from a new entry in which no flush is between its
copy and its end when the data file changes, and no truncation meets `SYNC_OK`. -/
theorem synced_of_keepsSync (e : Entry) (how : AddBehaviour) (flushForceFsal : ℕ) (env : Env)
    (now : ℕ) (hdata : how = .recoverEntry → e.data.isSome = true)
    (hr : (cacheContentNewEntry e how flushForceFsal env now).2 = true) (as : List (Action T))
    (hkeep : AllSteps step (fun s a _ => KeepsSync s a)
      (start (cacheContentNewEntry e how flushForceFsal env now).1) as) :
    Always step (Synced : Sys T → Prop)
      (start (cacheContentNewEntry e how flushForceFsal env now).1) as := by
  have hinv := always_of_allSteps (inv_start hdata hr)
    (fun _ _ _ h hstep hkeep => Inv.step h hstep hkeep) hkeep
  exact hinv.mono fun s h _ hok => h.syncOk hok

/-- A write, then a whole flush. -/
theorem synced_flushed :
    Always step (Synced : Sys (Fin 2) → Prop)
      (start (cacheContentNewEntry oneByte .addEntry 1 allSucceed 10).1)
      [.write 0 0 1 (fun _ => 8) 11, .flushCopy 1, .flushStamp 1, .flushEnd 1] := by
  refine synced_of_keepsSync oneByte .addEntry 1 allSucceed 10 (by decide) (by decide) _ ?_
  intro s _
  refine ⟨Or.inl fun _ => rfl, fun s _ => ⟨trivial, fun s _ => ⟨trivial, fun s _ => ?_⟩⟩⟩
  exact ⟨trivial, trivial⟩

/-- **The forgotten write**: it comes after the copy of a flush and before its end. -/
theorem lateWrite_not_synced :
    ¬ Always step (Synced : Sys (Fin 2) → Prop)
      (start (cacheContentNewEntry oneByte .addEntry 1 allSucceed 10).1)
      [.flushCopy 1, .write 0 0 1 (fun _ => 8) 11, .flushStamp 1, .flushEnd 1] := by
  intro h
  obtain ⟨s, hs, hpc, hok, hdata, hfsal⟩ : ∃ s : Sys (Fin 2), exec step
      (start (cacheContentNewEntry oneByte .addEntry 1 allSucceed 10).1)
      [.flushCopy 1, .write 0 0 1 (fun _ => 8) 11, .flushStamp 1, .flushEnd 1] = some s ∧
        (∀ t, s.pc t = .out) ∧ s.entry.syncState = .syncOk ∧
        s.entry.data.map (fun d => d.content.byte 0) = some 8 ∧ s.entry.fsal.byte 0 = 7 :=
    ⟨_, rfl, by decide, rfl, by decide, by decide⟩
  obtain ⟨d, hd, hsame⟩ := h.exec hs hpc hok
  rw [hd, Option.map_some, hsame, hfsal] at hdata
  exact absurd hdata (by decide)

end

end DataCache

end CloudNfs
