import CloudNfs.DataCache
import CloudNfs.Prealloc

/-!
# Elements of the data cache that could not be made

`cache_content_new_entry` takes an element from the pool of a client, or in the mode `RENEW_ENTRY`
the one of the inode entry, and makes the local files. Wherever it fails, it gives the element to
the pool.

* With `RENEW_ENTRY` the element does not come from the pool, and the inode entry keeps it.
* `cache_content_refresh` is called when the inode entry has the element already.
* So the inode entry may designate an element that is in the pool, and the next file that takes it
  shares its data file (`leavesNoTrace_iff`).
-/

namespace CloudNfs.ContentEntry

open DataCache Prealloc

/-! ## The code -/

structure Cache where
  /-- `pool_entry` of the clients -/
  pools : Pools
  /-- `object.file.pentry_content` of each live inode entry -/
  pentryContent : ℕ → Option ℕ
  file : ℕ → Entry

namespace Cache

/-- `RELEASE_PREALLOC` -/
def release (S : Cache) (client p : ℕ) : Cache := { S with pools := S.pools.release client p }

def setFile (S : Cache) (inode : ℕ) (e : Entry) : Cache :=
  { S with file := Function.update S.file inode e }

/-- The inode entry gets an element. -/
def attach (S : Cache) (inode p : ℕ) : Cache :=
  { S with pentryContent := Function.update S.pentryContent inode (some p) }

@[simp] theorem setFile_file (S : Cache) (inode : ℕ) (e : Entry) :
    (S.setFile inode e).file inode = e := Function.update_self ..

@[simp] theorem attach_file (S : Cache) (inode p : ℕ) : (S.attach inode p).file = S.file := rfl

/-- Some live inode entry has this element. -/
def Designated (S : Cache) (p : ℕ) : Prop := ∃ inode, S.pentryContent inode = some p

end Cache

/-- The arguments of `cache_content_new_entry`, and what its calls say. -/
structure Call where
  client : ℕ
  nbPrealloc : ℕ
  /-- is there memory for new elements -/
  alloc : Bool
  pentryInode : Option ℕ
  how : AddBehaviour
  flushForceFsal : ℕ
  /-- the steps; its `pool` is not used -/
  env : Env
  now : ℕ

/-- How `cache_content_new_entry` ends. -/
inductive Result where
  /-- it follows a pointer that is `NULL` -/
  | fault
  /-- it returns an element or `NULL` -/
  | returned (entry : Option ℕ) (S : Cache)

/-- `cache_content_new_entry`, once it has an element. -/
def fillEntry (S : Cache) (call : Call) (inode p : ℕ) : Option ℕ × Cache :=
  if call.env.indexName = false then (none, S.release call.client p)
  else if call.env.dataName = false then (none, S.release call.client p)
  else
    let S := S.setFile inode { S.file inode with syncState := .justCreated }
    if call.env.dump = false then (none, S.release call.client p)
    else if (call.how = .addEntry ∨ call.how = .renewEntry) ∧ call.env.creat = false then
      (none, S.release call.client p)
    else
      let S :=
        if call.how = .addEntry ∨ call.how = .renewEntry then
          S.setFile inode { S.file inode with data := some (creat (S.file inode).data call.now) }
        else S
      let S := S.attach inode p
      if call.how = .recoverEntry then (some p, S)
      else
        let refreshed := cacheContentRefresh (S.file inode)
          (if call.flushForceFsal = 0 then .defaultRefresh else .forceFromFsal) call.env call.now
        let S := S.setFile inode refreshed.1
        if refreshed.2 = false then (none, S.release call.client p) else (some p, S)

def getPrealloc (S : Cache) (call : Call) : Option (ℕ × Pools) :=
  S.pools.get call.client call.nbPrealloc call.alloc

def cacheContentNewEntry (S : Cache) (call : Call) : Result :=
  match call.pentryInode with
  | none => .returned none S
  | some inode =>
    if call.how ≠ .renewEntry then
      match getPrealloc S call with
      | none => .returned none S
      | some (p, pools) =>
        .returned (fillEntry { S with pools := pools } call inode p).1
          (fillEntry { S with pools := pools } call inode p).2
    else
      match S.pentryContent inode with
      | none => .fault
      | some p => .returned (fillEntry S call inode p).1 (fillEntry S call inode p).2

/-- The element that the call takes from the pool. -/
def taken (S : Cache) (call : Call) : Option ℕ :=
  if call.pentryInode = none ∨ call.how = .renewEntry then none
  else (getPrealloc S call).map Prod.fst

/-! ## What is left -/

/-- **No trace of a call** that returned `NULL`. -/
structure LeavesNoTrace (S : Cache) (call : Call) (S' : Cache) : Prop where
  /-- the element it took is in the pool again, once, -/
  back : ∀ p, taken S call = some p →
    (S'.pools.pool call.client).count p = 1 ∧ ∀ c, c ≠ call.client → p ∉ S'.pools.pool c
  /-- no inode entry has an element that is in a pool, -/
  unpooled : ∀ p, S'.Designated p → ∀ c, p ∉ S'.pools.pool c
  /-- and inode entries have the element they had, or none -/
  content : ∀ inode, S'.pentryContent inode = S.pentryContent inode ∨
    S'.pentryContent inode = none

/-- The steps before the element goes to the inode entry succeed. -/
def Prepared (call : Call) : Prop :=
  call.env.indexName = true ∧ call.env.dataName = true ∧ call.env.dump = true ∧
    (call.how = .recoverEntry ∨ call.env.creat = true)

/-- The refresh succeeds: the new data file is kept, or the one of the FSAL can be copied. -/
def Refreshes (e : Entry) (call : Call) : Prop :=
  call.env.handle = true ∧ call.env.path = true ∧
    (call.flushForceFsal = 0 ∧ e.attributes.mtime < call.now ∨ call.env.rcp = true)

/-- No element is given to the pool while an inode entry has it: nothing fails with `RENEW_ENTRY`,
and with `ADD_ENTRY` not the refresh alone. -/
def Clean (S : Cache) (call : Call) : Prop :=
  match call.pentryInode with
  | none => True
  | some inode =>
    match call.how with
    | .recoverEntry => True
    | .addEntry =>
      getPrealloc S call = none ∨ ¬ Prepared call ∨ Refreshes (S.file inode) call
    | .renewEntry =>
      S.pentryContent inode = none ∨ Prepared call ∧ Refreshes (S.file inode) call

instance (call : Call) : Decidable (Prepared call) := by
  unfold Prepared
  infer_instance

instance (e : Entry) (call : Call) : Decidable (Refreshes e call) := by
  unfold Refreshes
  infer_instance

section

variable {S S' : Cache} {call : Call} {inode p : ℕ}

theorem refresh_eq_true_iff {e : Entry} {d : DataFile} (hd : e.data = some d)
    (hnow : d.times.mtime = call.now) :
    (cacheContentRefresh e (if call.flushForceFsal = 0 then .defaultRefresh else .forceFromFsal)
      call.env call.now).2 = true ↔ Refreshes e call := by
  unfold cacheContentRefresh Refreshes
  rw [hd]
  cases call.env.handle
  · simp
  cases call.env.path
  · simp
  cases call.env.rcp
  · by_cases hforce : call.flushForceFsal = 0
    · by_cases hnewer : e.attributes.mtime < call.now <;> simp [hforce, hnow, hnewer]
    · simp [hforce]
  · by_cases hforce : call.flushForceFsal = 0
    · by_cases hnewer : e.attributes.mtime < d.times.mtime <;> simp [hforce, hnewer]
    · simp [hforce]

theorem fillEntry_cases (S : Cache) (call : Call) (inode p : ℕ) :
    (¬ Prepared call ∧ ∃ file, fillEntry S call inode p =
      (none, ⟨S.pools.release call.client p, S.pentryContent, file⟩)) ∨
    (Prepared call ∧ call.how = .recoverEntry ∧ ∃ file, fillEntry S call inode p =
      (some p, ⟨S.pools, (S.attach inode p).pentryContent, file⟩)) ∨
    (Prepared call ∧ call.how ≠ .recoverEntry ∧ Refreshes (S.file inode) call ∧
      ∃ file, fillEntry S call inode p =
        (some p, ⟨S.pools, (S.attach inode p).pentryContent, file⟩)) ∨
    (Prepared call ∧ call.how ≠ .recoverEntry ∧ ¬ Refreshes (S.file inode) call ∧
      ∃ file, fillEntry S call inode p =
        (none, ⟨S.pools.release call.client p, (S.attach inode p).pentryContent, file⟩)) := by
  unfold fillEntry Prepared
  by_cases hindex : call.env.indexName = false
  · simp only [if_pos hindex]
    exact .inl ⟨by simp [hindex], _, rfl⟩
  by_cases hdata : call.env.dataName = false
  · simp only [if_neg hindex, if_pos hdata]
    exact .inl ⟨by simp [hdata], _, rfl⟩
  by_cases hdump : call.env.dump = false
  · simp only [if_neg hindex, if_neg hdata, if_pos hdump]
    exact .inl ⟨by simp [hdump], _, rfl⟩
  simp only [if_neg hindex, if_neg hdata, if_neg hdump]
  rw [Bool.not_eq_false] at hindex hdata hdump
  by_cases hrecover : call.how = .recoverEntry
  · have hmode : ¬ (call.how = .addEntry ∨ call.how = .renewEntry) := by simp [hrecover]
    simp only [if_neg hmode, if_pos hrecover, if_neg (not_and_of_not_left _ hmode)]
    exact .inr (.inl ⟨⟨hindex, hdata, hdump, .inl hrecover⟩, hrecover, _, rfl⟩)
  have hmode : call.how = .addEntry ∨ call.how = .renewEntry := by
    cases hhow : call.how <;> simp_all
  by_cases hcreat : call.env.creat = false
  · simp only [if_pos (And.intro hmode hcreat)]
    exact .inl ⟨by simp [hrecover, hcreat], _, rfl⟩
  simp only [if_pos hmode, if_neg hrecover, if_neg (not_and_of_not_right _ hcreat),
    Cache.attach_file, Cache.setFile_file]
  rw [Bool.not_eq_false] at hcreat
  -- the refresh finds the data file that was made a moment ago
  have hrefresh : _ ↔ Refreshes (S.file inode) call :=
    refresh_eq_true_iff (e := { S.file inode with
      syncState := .justCreated
      data := some (creat (S.file inode).data call.now) }) rfl rfl
  by_cases hok : Refreshes (S.file inode) call
  · rw [if_neg (by rw [hrefresh.mpr hok]; decide)]
    exact .inr (.inr (Or.inl
      ⟨⟨hindex, hdata, hdump, .inr hcreat⟩, hrecover, hok, _, rfl⟩))
  · rw [if_pos (Bool.eq_false_iff.mpr fun h => hok (hrefresh.mp h))]
    exact .inr (.inr (Or.inr
      ⟨⟨hindex, hdata, hdump, .inr hcreat⟩, hrecover, hok, _, rfl⟩))

theorem LeavesNoTrace.of_release {P : Pools} {file : ℕ → Entry}
    (h : Apart S.pools S.Designated) (hget : getPrealloc S call = some (p, P)) :
    LeavesNoTrace S call ⟨P.release call.client p, S.pentryContent, file⟩ := by
  obtain ⟨hapart, hspare, hunused⟩ := h.get hget
  have hwith : Apart P fun q => S.Designated q ∨ q = p := hapart.use hspare fun q hq => hq
  have hback : Apart (P.release call.client p) S.Designated := by
    refine hwith.release (.inr rfl) fun q hq => ⟨.inl hq, ?_⟩
    rintro rfl
    exact hunused hq
  have hmem : p ∈ (P.release call.client p).pool call.client := by
    simp only [Pools.release, Function.update_self]
    exact .head _
  refine ⟨fun q hq => ?_, fun q hq c hc => hback.unused c q hc hq, fun inode => Or.inl rfl⟩
  rw [taken, hget] at hq
  split at hq
  · cases hq
  · cases hq
    refine ⟨List.count_eq_one_of_mem (hback.nodup call.client) hmem, fun c hc => ?_⟩
    exact hback.disjoint call.client c (Ne.symm hc) p hmem

theorem LeavesNoTrace.of_nothing (h : Apart S.pools S.Designated) (htaken : taken S call = none) :
    LeavesNoTrace S call S := by
  refine ⟨fun p hp => ?_, fun p hp c hc => h.unused c p hc hp, fun inode => Or.inl rfl⟩
  rw [htaken] at hp
  cases hp

theorem not_leavesNoTrace {P : Pools} {content : ℕ → Option ℕ} {file : ℕ → Entry}
    (hcontent : content inode = some p) :
    ¬ LeavesNoTrace S call ⟨P.release call.client p, content, file⟩ := by
  intro h
  apply h.unpooled p ⟨inode, hcontent⟩ call.client
  simp only [Pools.release, Function.update_self]
  exact .head _

theorem Clean.leavesNoTrace (hclean : Clean S call) (h : Apart S.pools S.Designated)
    (hcall : cacheContentNewEntry S call = .returned none S') : LeavesNoTrace S call S' := by
  unfold cacheContentNewEntry at hcall
  unfold Clean at hclean
  cases hinode : call.pentryInode with
  | none =>
    rw [hinode] at hcall
    obtain ⟨-, rfl⟩ := Result.returned.inj hcall
    exact .of_nothing h (by rw [taken, if_pos (.inl hinode)])
  | some inode =>
    simp only [hinode] at hcall hclean
    by_cases hrenew : call.how = .renewEntry
    · rw [if_neg (not_not_intro hrenew)] at hcall
      simp only [hrenew] at hclean
      cases hcontent : S.pentryContent inode with
      | none =>
        rw [hcontent] at hcall
        cases hcall
      | some p =>
        simp only [hcontent, reduceCtorEq, false_or] at hcall hclean
        rcases fillEntry_cases S call inode p with ⟨hnot, -⟩ | ⟨-, hrecover, -⟩ |
          ⟨-, -, -, file, hfill⟩ | ⟨-, -, hnot, -⟩
        · exact absurd hclean.1 hnot
        · rw [hrenew] at hrecover
          cases hrecover
        · rw [hfill] at hcall
          cases hcall
        · exact absurd hclean.2 hnot
    · rw [if_pos hrenew] at hcall
      cases hget : getPrealloc S call with
      | none =>
        rw [hget] at hcall
        obtain ⟨-, rfl⟩ := Result.returned.inj hcall
        apply LeavesNoTrace.of_nothing h
        rw [taken, hget]
        split <;> rfl
      | some got =>
        obtain ⟨p, P⟩ := got
        rw [hget] at hcall
        simp only at hcall
        rcases fillEntry_cases { S with pools := P } call inode p with ⟨-, file, hfill⟩ |
          ⟨-, -, file, hfill⟩ | ⟨-, -, -, file, hfill⟩ | ⟨hprepared, hrecover, hnot, -⟩
        · rw [hfill] at hcall
          obtain ⟨-, rfl⟩ := Result.returned.inj hcall
          exact .of_release h hget
        · rw [hfill] at hcall
          cases hcall
        · rw [hfill] at hcall
          cases hcall
        · -- the refresh alone fails, and that is not so with `ADD_ENTRY`
          have hadd : call.how = .addEntry := by
            cases hhow : call.how <;> simp_all
          simp only [hadd, hget, reduceCtorEq, false_or] at hclean
          rcases hclean with hclean | hclean
          · exact absurd hprepared hclean
          · exact absurd hclean hnot

theorem leavesTrace_of_not_clean (hclean : ¬ Clean S call) :
    ∃ S', cacheContentNewEntry S call = .returned none S' ∧ ¬ LeavesNoTrace S call S' := by
  unfold cacheContentNewEntry
  unfold Clean at hclean
  cases hinode : call.pentryInode with
  | none => exact absurd trivial (by simpa only [hinode] using hclean)
  | some inode =>
    simp only [hinode] at hclean ⊢
    cases hhow : call.how with
    | recoverEntry => exact absurd trivial (by simpa only [hhow] using hclean)
    | addEntry =>
      simp only [hhow, not_or, not_not] at hclean
      obtain ⟨hget, hprepared, hnot⟩ := hclean
      obtain ⟨⟨p, P⟩, hget⟩ := Option.ne_none_iff_exists'.mp hget
      rw [if_pos (by decide), hget]
      rcases fillEntry_cases { S with pools := P } call inode p with ⟨hno, -⟩ | ⟨-, hrecover, -⟩ |
        ⟨-, -, hyes, -⟩ | ⟨-, -, -, file, hfill⟩
      · exact absurd hprepared hno
      · rw [hhow] at hrecover
        cases hrecover
      · exact absurd hyes hnot
      · simp only [hfill]
        exact ⟨_, rfl, not_leavesNoTrace (Function.update_self ..)⟩
    | renewEntry =>
      simp only [hhow, not_or] at hclean
      obtain ⟨hcontent, hnot⟩ := hclean
      obtain ⟨p, hcontent⟩ := Option.ne_none_iff_exists'.mp hcontent
      rw [if_neg (by decide), hcontent]
      rcases fillEntry_cases S call inode p with ⟨-, file, hfill⟩ | ⟨-, hrecover, -⟩ |
        ⟨hprepared, -, hyes, -⟩ | ⟨-, -, -, file, hfill⟩
      · simp only [hfill]
        exact ⟨_, rfl, not_leavesNoTrace hcontent⟩
      · rw [hhow] at hrecover
        cases hrecover
      · exact absurd ⟨hprepared, hyes⟩ hnot
      · simp only [hfill]
        exact ⟨_, rfl, not_leavesNoTrace (Function.update_self ..)⟩

/-- **A call that returns `NULL` leaves no trace** exactly if no element is given to the pool while
an inode entry has it. -/
theorem leavesNoTrace_iff (S : Cache) (call : Call) (h : Apart S.pools S.Designated) :
    (∀ S', cacheContentNewEntry S call = .returned none S' → LeavesNoTrace S call S') ↔
      Clean S call := by
  refine ⟨fun hall => ?_, fun hclean S' hcall => hclean.leavesNoTrace h hcall⟩
  by_contra hclean
  obtain ⟨S', hcall, htrace⟩ := leavesTrace_of_not_clean hclean
  exact htrace (hall S' hcall)

theorem fillEntry_file (S : Cache) (call : Call) (inode p : ℕ) {pool : Bool}
    (hpool : call.how = .renewEntry ∨ pool = true) :
    ((fillEntry S call inode p).2.file inode, (fillEntry S call inode p).1.isSome) =
      DataCache.cacheContentNewEntry (S.file inode) call.how call.flushForceFsal
        { call.env with pool := pool } call.now := by
  have hgot : ¬ (call.how ≠ .renewEntry ∧ pool = false) := by
    rintro ⟨hne, hfalse⟩
    rcases hpool with hrenew | htrue
    · exact hne hrenew
    · rw [htrue] at hfalse
      cases hfalse
  unfold fillEntry DataCache.cacheContentNewEntry
  rw [if_neg hgot]
  by_cases hindex : call.env.indexName = false
  · simp [hindex, Cache.release]
  by_cases hdata : call.env.dataName = false
  · simp [hindex, hdata, Cache.release]
  by_cases hdump : call.env.dump = false
  · simp [hindex, hdata, hdump, Cache.release]
  by_cases hrecover : call.how = .recoverEntry
  · simp [hindex, hdata, hdump, hrecover]
  have hmode : call.how = .addEntry ∨ call.how = .renewEntry := by
    cases hhow : call.how <;> simp_all
  by_cases hcreat : call.env.creat = false
  · simp [hindex, hdata, hdump, hmode, hcreat, Cache.release]
  simp only [if_neg hindex, if_neg hdata, if_neg hdump, if_pos hmode, if_neg hrecover,
    if_neg (not_and_of_not_right _ hcreat), Cache.attach_file, Cache.setFile_file]
  have hrefresh (e : Entry) (rhow : RefreshHow) :
      cacheContentRefresh e rhow { call.env with pool := pool } call.now =
        cacheContentRefresh e rhow call.env call.now := rfl
  rw [hrefresh, hrefresh, ← apply_ite fun rhow => cacheContentRefresh _ rhow call.env call.now]
  by_cases hok : (cacheContentRefresh
      { S.file inode with
        syncState := .justCreated
        data := some (creat (S.file inode).data call.now) }
      (if call.flushForceFsal = 0 then .defaultRefresh else .forceFromFsal)
      call.env call.now).2 = false
  · rw [if_pos hok]
    exact Prod.ext (Cache.setFile_file ..) hok.symm
  · rw [if_neg hok]
    exact Prod.ext (Cache.setFile_file ..) (Bool.eq_true_of_not_eq_false hok).symm

/-- **On its file the call is what the model of one file says**, at every failing step. -/
theorem cacheContentNewEntry_file (S : Cache) (call : Call) (hinode : call.pentryInode = some inode)
    (hrenew : call.how = .renewEntry → S.pentryContent inode ≠ none) :
    ∃ entry S', cacheContentNewEntry S call = .returned entry S' ∧
      (S'.file inode, entry.isSome) =
        DataCache.cacheContentNewEntry (S.file inode) call.how call.flushForceFsal
          { call.env with pool := (getPrealloc S call).isSome } call.now := by
  unfold cacheContentNewEntry
  simp only [hinode]
  by_cases hhow : call.how = .renewEntry
  · obtain ⟨p, hp⟩ := Option.ne_none_iff_exists'.mp (hrenew hhow)
    simp only [if_neg (not_not_intro hhow), hp]
    exact ⟨_, _, rfl, fillEntry_file S call inode p (.inl hhow)⟩
  rw [if_pos hhow]
  cases hget : getPrealloc S call with
  | none =>
    refine ⟨none, S, rfl, ?_⟩
    rw [DataCache.cacheContentNewEntry, if_pos ⟨hhow, rfl⟩]
    rfl
  | some got =>
    obtain ⟨p, P⟩ := got
    exact ⟨_, _, rfl, fillEntry_file { S with pools := P } call inode p (.inr rfl)⟩

/-- No file is in the data cache yet. -/
def noElement : Cache := ⟨.empty, fun _ => none, fun _ => oneByte⟩

theorem apart_noElement : Apart noElement.pools noElement.Designated := by
  apply apart_empty
  rintro p ⟨inode, h⟩
  cases h

/-- The first file goes to the data cache, and `FSAL_rcp` succeeds or not. -/
def addFirst (rcp : Bool) : Call :=
  ⟨0, 1, true, some 0, .addEntry, 1, { allSucceed with rcp := rcp }, 10⟩

theorem cacheContentNewEntry_file_addFirst : ∃ entry S',
    cacheContentNewEntry noElement (addFirst true) = .returned entry S' ∧
      (S'.file 0, entry.isSome) = DataCache.cacheContentNewEntry (noElement.file 0) .addEntry 1
        { (addFirst true).env with pool := (getPrealloc noElement (addFirst true)).isSome } 10 :=
  cacheContentNewEntry_file noElement (addFirst true) rfl nofun

/-- One file is in the data cache, and two elements are left in the pool. -/
def oneFile : Cache :=
  ⟨((Pools.empty.get 0 3 true).map Prod.snd).getD .empty, fun inode =>
    if inode = 0 then some 0 else none, fun _ => oneByte⟩

theorem apart_oneFile : Apart oneFile.pools oneFile.Designated := by
  have hget : Pools.empty.get 0 3 true = some (0, oneFile.pools) := rfl
  obtain ⟨hapart, hspare, -⟩ := apart_noElement.get hget
  refine hapart.use hspare fun q hq => .inr ?_
  obtain ⟨inode, hinode⟩ := hq
  rw [oneFile] at hinode
  dsimp only at hinode
  split at hinode
  · exact (Option.some.inj hinode).symm
  · cases hinode

/-- The second file gets an element, and its data file cannot be created. -/
def addSecond : Call := ⟨0, 3, true, some 1, .addEntry, 1, { allSucceed with creat := false }, 10⟩

theorem leavesNoTrace_addSecond : ∃ S', cacheContentNewEntry oneFile addSecond = .returned none S' ∧
    LeavesNoTrace oneFile addSecond S' :=
  ⟨_, rfl, (leavesNoTrace_iff oneFile addSecond apart_oneFile).mpr (.inr (.inl (by decide))) _ rfl⟩

/-- **The element is in the pool and at the file**: `FSAL_rcp` fails. -/
theorem not_leavesNoTrace_addFirst :
    ¬ ∀ (S : Cache) (call : Call), Apart S.pools S.Designated →
      ∀ S', cacheContentNewEntry S call = .returned none S' → LeavesNoTrace S call S' := by
  intro hall
  have hclean : ¬ Clean noElement (addFirst false) := by
    rintro (h | h | h)
    · cases h
    · exact h (by decide)
    · exact absurd h (by decide)
  obtain ⟨S', hcall, htrace⟩ := leavesTrace_of_not_clean hclean
  exact htrace (hall noElement (addFirst false) apart_noElement S' hcall)

end

end CloudNfs.ContentEntry
