import CloudNfs.DirRead
import CloudNfs.DoublyLinked
import CloudNfs.FileHandle

/-!
# `READDIRPLUS` (`NFS_Protocols/nfs3_Readdirplus.c`)

The reply is an array of elements that are linked by their `nextentry`. It is filled with `.` and
`..` when the client begins, and with what `cache_inode_readdir` has found.

* `selfConsistent_iff` — the handle of `..` is built in the place of the handle of the first
  element. A reply is right exactly when it begins behind `.` and has room for an element.

The FSAL is a parameter, and so are the attributes. Sizes are those of a build for 64 bits.
-/

namespace CloudNfs.Readdir

open DirChain FileHandle DoublyLinked

/-! ## The directory -/

/-- A directory as the protocols meet it. -/
structure DirEnv (Ctx Handle Attr : Type) where
  fsal : Fsal Ctx Handle
  pexport : Exportlist Ctx
  useCookieVerifier : Bool
  /-- the eight bytes of `dir_attr.mtime` -/
  mtime : List UInt8
  /-- the cached directory -/
  dir : Dir
  dirPentry : ℕ
  lookupp : Option ℕ
  getFsalHandle : ℕ → Option Handle
  /-- `FSAL_DigestHandle`, for `FSAL_DIGEST_FILEID3` -/
  digestFileid : Handle → ℕ
  /-- `nfs_SetPostOpAttr`, of what `cache_inode_get_attributes` finds -/
  postOpAttr : ℕ → Option Attr
  /-- `.` and `..` are not cached -/
  noDots : ∀ c ∈ dir.chunks, ∀ s ∈ c.slots, s.active = true → s.name ≠ "." ∧ s.name ≠ ".."

/-- `sizeof(entryplus3)`. -/
def sizeofEntryplus3 : ℕ := 152

/-- `sizeof(entry3)`. -/
def sizeofEntry3 : ℕ := 32

/-- `sizeof(READDIRPLUS3resok)`, and of `READDIR3resok`. -/
def sizeofReaddir3resok : ℕ := 120

def nfs3CookieverfSize : ℕ := 8

/-- What an entry needs of the reply: its structure, and its name, up to a multiple of four. -/
def needed (sizeofEntry : ℕ) (name : String) : ℕ := sizeofEntry + (name.utf8ByteSize + 3) / 4 * 4

/-- The cookie of an entry: the one of the entry behind it, or where the directory goes on. -/
def nextCookie (endCookie : ℕ) : List (ℕ × Slot) → ℕ
  | [] => (endCookie + 2) % 2 ^ 32
  | x :: _ => (x.1 + 2) % 2 ^ 32

/-! ## The memory of a reply -/

/-- `entryplus3`. -/
structure Entryplus3 (Attr : Type) where
  fileid : ℕ
  name : String
  cookie : ℕ
  /-- `name_attributes`, if they follow -/
  nameAttributes : Option Attr
  handleFollows : Bool
  /-- `data_len` of the handle -/
  dataLen : UInt32
  /-- `data_val` of the handle, as an index of `fh3_array` -/
  dataVal : ℕ
  /-- `nextentry`, as an index of `entries` -/
  nextentry : Option ℕ

structure ReplyMem (Attr : Type) where
  entries : ℕ → Entryplus3 Attr
  fh3Array : ℕ → List UInt8

section

variable {Ctx Handle Attr : Type}

def ReplyMem.setEntry (m : ReplyMem Attr) (i : ℕ) (f : Entryplus3 Attr → Entryplus3 Attr) :
    ReplyMem Attr :=
  { m with entries := Function.update m.entries i (f (m.entries i)) }

/-- The handle of an element: its length, and the bytes that it points to. -/
def ReplyMem.handle (m : ReplyMem Attr) (i : ℕ) : NfsFh3 :=
  ⟨(m.entries i).dataLen, 1, m.fh3Array (m.entries i).dataVal⟩

/-- `nfs3_FSALToFhandle`, with the handle of an element. -/
def ReplyMem.fsalToFhandle (env : DirEnv Ctx Handle Attr) (m : ReplyMem Attr) (i : ℕ) (h : Handle) :
    Option (ReplyMem Attr) :=
  (nfs3FSALToFhandle env.fsal (m.handle i) h env.pexport).map fun fh =>
    { (m.setEntry i fun e => { e with dataLen := fh.dataLen }) with
      fh3Array := Function.update m.fh3Array (m.entries i).dataVal fh.data }

/-! ## The call -/

inductive Nfsstat3 where
  | badCookie
  /-- `NFS3ERR_TOOSMALL`, and `NFSERR_IO` in NFSv2 -/
  | tooSmall
  | badHandle
  /-- what `nfs3_Errno` makes of the status of the cache -/
  | errno

/-- The element for `.` -/
def fillDot (env : DirEnv Ctx Handle Attr) (m : ReplyMem Attr) :
    Except Nfsstat3 (ReplyMem Attr) :=
  match env.getFsalHandle env.dirPentry with
  | none => .error .errno
  | some h =>
    let m := m.setEntry 0 fun e =>
      { e with fileid := env.digestFileid h, name := ".", cookie := 1, dataVal := 0 }
    match m.fsalToFhandle env 0 h with
    | none => .error .badHandle
    | some m => .ok (m.setEntry 0 fun e =>
        { e with
          nameAttributes := env.postOpAttr env.dirPentry
          handleFollows := true
          dataLen := UInt32.ofNat sizeofV3 })

/-- The element for `..`. Its handle is built in the place of the handle of the first element. -/
def fillDotDot (env : DirEnv Ctx Handle Attr) (delta : ℕ) (m : ReplyMem Attr) :
    Except Nfsstat3 (ReplyMem Attr) :=
  match env.lookupp with
  | none => .error .errno
  | some parent =>
    match env.getFsalHandle parent with
    | none => .error .errno
    | some h =>
      let m := m.setEntry delta fun e =>
        { e with fileid := env.digestFileid h, name := "..", dataVal := delta }
      match m.fsalToFhandle env 0 h with
      | none => .error .badHandle
      | some m => .ok (m.setEntry delta fun e =>
          { e with
            cookie := 2
            nameAttributes := env.postOpAttr parent
            handleFollows := true
            dataLen := UInt32.ofNat sizeofV3 })

/-- `.` and `..`, where they are due: how many elements are taken (`delta`), and the memory. -/
def fillDots (env : DirEnv Ctx Handle Attr) (estimatedNumEntries beginCookie numEntries : ℕ)
    (m : ReplyMem Attr) : Except Nfsstat3 (ℕ × ReplyMem Attr) :=
  match (if beginCookie = 0 ∧ 0 < estimatedNumEntries then (fillDot env m).map fun m => (1, m)
    else .ok (0, m)) with
  | .error status => .error status
  | .ok (delta, m) =>
    if beginCookie ≤ 1 then
      match (if delta < estimatedNumEntries then fillDotDot env delta m else .ok m) with
      | .error status => .error status
      | .ok m =>
        let m := m.setEntry 0 fun e => { e with nextentry := some delta }
        let m := m.setEntry delta fun e =>
          { e with nextentry := if delta + 1 < numEntries then some (delta + 1) else none }
        .ok (delta + 1, m)
    else .ok (delta, m)

/-- The element of an entry. -/
def fillEntry (env : DirEnv Ctx Handle Attr) (i : ℕ) (s : Slot) (cookie : ℕ) (m : ReplyMem Attr) :
    Except Nfsstat3 (ReplyMem Attr) :=
  match s.pentry.bind env.getFsalHandle with
  | none => .error .errno
  | some h =>
    let m := m.setEntry i fun e =>
      { e with fileid := env.digestFileid h, name := s.name, cookie := cookie, dataVal := i }
    match m.fsalToFhandle env i h with
    | none => .error .badHandle
    | some m =>
      let m := m.setEntry i fun e =>
        { e with
          nameAttributes := s.pentry.bind env.postOpAttr
          handleFollows := true
          dataLen := UInt32.ofNat sizeofV3
          nextentry := none }
      .ok (if i = 0 then m else m.setEntry (i - 1) fun e => { e with nextentry := some i })

/-- The loop over the entries, from the index `i` on. It ends with the index behind the last element
that is filled. -/
def fillEntries (env : DirEnv Ctx Handle Attr) (maxcount endCookie delta : ℕ) :
    ℕ → ℕ → List (ℕ × Slot) → ReplyMem Attr → Except Nfsstat3 (ℕ × ReplyMem Attr)
  | i, _, [], m => .ok (i, m)
  | i, spaceUsed, x :: rest, m =>
    if maxcount < spaceUsed + needed sizeofEntry3 x.2.name then
      if i = delta then .error .tooSmall else .ok (i, m)
    else
      match fillEntry env i x.2 (nextCookie endCookie rest) m with
      | .error status => .error status
      | .ok m =>
        fillEntries env maxcount endCookie delta (i + 1)
          (spaceUsed + needed sizeofEntry3 x.2.name) rest m

/-- `READDIRPLUS3args`, without the handle. -/
structure Readdirplus3args where
  cookie : UInt64
  cookieverf : List UInt8
  dircount : UInt32
  maxcount : UInt32

/-- `READDIRPLUS3resok`, without the attributes of the directory. -/
structure Readdirplus3resok (Attr : Type) where
  /-- `reply.entries`, as an index; `none` is `NULL` -/
  entries : Option ℕ
  mem : ReplyMem Attr
  eof : Bool
  cookieverf : List UInt8

inductive Answer (α : Type) where
  /-- a status that is not `NFS3_OK` -/
  | status (s : Nfsstat3)
  /-- the chain of the directory has no end -/
  | fault
  /-- `NFS3_OK` -/
  | ok (resok : α)

def cookieVerifier (env : DirEnv Ctx Handle Attr) : List UInt8 :=
  if env.useCookieVerifier then env.mtime else List.replicate nfs3CookieverfSize 0

/-- The number of elements that are allocated. -/
def Readdirplus3args.estimatedNumEntries (arg : Readdirplus3args) : ℕ :=
  arg.dircount.toNat / sizeofEntryplus3

/-- `begin_cookie`, an `unsigned int`. -/
def Readdirplus3args.beginCookie (arg : Readdirplus3args) : ℕ := arg.cookie.toNat % 2 ^ 32

/-- `nfs3_Readdirplus`, for a directory; `mem` is the memory that is allocated. Room for no element
is `Mem_Alloc(0)`: `BuddyMalloc` gives `NULL` for it and the request is dropped, which is left out;
this goes on as with the pointer of `malloc`. -/
def nfs3Readdirplus (env : DirEnv Ctx Handle Attr) (mem : ReplyMem Attr) (arg : Readdirplus3args) :
    Answer (Readdirplus3resok Attr) :=
  let estimatedNumEntries := arg.estimatedNumEntries
  let beginCookie := arg.beginCookie
  if env.useCookieVerifier ∧ beginCookie ≠ 0 ∧ cookieVerifier env ≠ arg.cookieverf then
    .status .badCookie
  else
    let askedNumEntries :=
      if 1 < beginCookie then estimatedNumEntries
      else if 2 < estimatedNumEntries then estimatedNumEntries - 2 else 0
    let cacheInodeCookie := if 1 < beginCookie then beginCookie - 2 else 0
    match cacheInodeReaddir env.dir cacheInodeCookie askedNumEntries with
    | none => .fault
    | some r =>
      if r.found = [] ∧ askedNumEntries ≠ 0 ∧ 1 < beginCookie then
        .ok ⟨none, mem, r.eod, cookieVerifier env⟩
      else
        match fillDots env estimatedNumEntries beginCookie r.found.length mem with
        | .error status => .status status
        | .ok (delta, m) =>
          match fillEntries env arg.maxcount.toNat r.endCookie delta delta sizeofReaddir3resok
              r.found m with
          | .error status => .status status
          | .ok (i, m) =>
            .ok ⟨some 0, m, r.eod && i == r.found.length + delta, cookieVerifier env⟩

/-! ## The property -/

/-- A name and the object that it stands for. -/
inductive Named (env : DirEnv Ctx Handle Attr) : String → ℕ → Prop where
  /-- the directory itself -/
  | dot : Named env "." env.dirPentry
  | dotDot {parent : ℕ} (hparent : env.lookupp = some parent) : Named env ".." parent
  | entry {c : Chunk} {s : Slot} {pentry : ℕ} (hc : c ∈ env.dir.chunks) (hs : s ∈ c.slots)
      (hactive : s.active = true) (hpentry : s.pentry = some pentry) : Named env s.name pentry

/-- An element without its link: what the client sees of it. -/
structure Element (Attr : Type) where
  fileid : ℕ
  name : String
  cookie : ℕ
  nameAttributes : Option Attr
  handleFollows : Bool
  handle : NfsFh3

def ReplyMem.element (m : ReplyMem Attr) (i : ℕ) : Element Attr where
  fileid := (m.entries i).fileid
  name := (m.entries i).name
  cookie := (m.entries i).cookie
  nameAttributes := (m.entries i).nameAttributes
  handleFollows := (m.entries i).handleFollows
  handle := m.handle i

/-- An element denotes an object: its number, its attributes and its handle are those of the
object. -/
structure Denotes (env : DirEnv Ctx Handle Attr) (e : Element Attr) (pentry : ℕ) (h : Handle) :
    Prop where
  object : env.getFsalHandle pentry = some h
  fileid : e.fileid = env.digestFileid h
  nameAttributes : e.nameAttributes = env.postOpAttr pentry
  handleFollows : e.handleFollows = true
  handle : nfs3FhandleToFSAL env.fsal env.pexport.fsExportContext e.handle = some h

/-- **The list of a reply is finite, stays inside, and all its elements denote the objects that they
name.** -/
def SelfConsistent (env : DirEnv Ctx Handle Attr) (estimatedNumEntries : ℕ)
    (resok : Readdirplus3resok Attr) : Prop :=
  ∃ l, Chain (fun i => (resok.mem.entries i).nextentry) resok.entries l ∧
    ∀ i ∈ l, i < estimatedNumEntries ∧
      ∃ pentry h, Named env (resok.mem.element i).name pentry ∧
        Denotes env (resok.mem.element i) pentry h

/-! ## One element -/

variable {env : DirEnv Ctx Handle Attr} {m m' : ReplyMem Attr} {i j n cookie delta : ℕ} {s : Slot}
  {h : Handle} {f : Entryplus3 Attr → Entryplus3 Attr}

@[simp] theorem setEntry_entries :
    (m.setEntry i f).entries = Function.update m.entries i (f (m.entries i)) := rfl

@[simp] theorem setEntry_fh3Array : (m.setEntry i f).fh3Array = m.fh3Array := rfl

theorem fsalToFhandle_spec (hf : env.fsal.DigestUndone) (hm : m.fsalToFhandle env i h = some m') :
    ∃ data, nfs3FhandleToFSAL env.fsal env.pexport.fsExportContext
        ⟨UInt32.ofNat sizeofV3, 1, data⟩ = some h ∧
      m' = { (m.setEntry i fun e => { e with dataLen := UInt32.ofNat sizeofV3 }) with
        fh3Array := Function.update m.fh3Array (m.entries i).dataVal data } := by
  obtain ⟨fh, hfh, rfl⟩ := Option.map_eq_some_iff.mp hm
  rw [nfs3FSALToFhandle] at hfh
  split at hfh
  · cases hfh
  rename_i d hd
  cases hfh
  refine ⟨_, ?_, rfl⟩
  have hcast := FileHandleV3.ofBytes_toBytes ⟨env.pexport.id, d, 0⟩ (hf.size _ _ _ _ hd)
    ((m.handle i).data.drop sizeofV3)
  rw [nfs3FhandleToFSAL, hcast]
  exact hf.undo _ _ _ _ hd

theorem element_link (x : Option ℕ) :
    (m.setEntry i fun e => { e with nextentry := x }).element j = m.element j := by
  by_cases hj : j = i
  · subst hj
    simp [ReplyMem.element, ReplyMem.handle]
  · simp [ReplyMem.element, ReplyMem.handle, hj]

theorem dataVal_link (x : Option ℕ) :
    ((m.setEntry i fun e => { e with nextentry := x }).entries j).dataVal =
      (m.entries j).dataVal := by
  by_cases hj : j = i
  · subst hj
    simp
  · simp [hj]

theorem nextentry_link_self (x : Option ℕ) :
    ((m.setEntry i fun e => { e with nextentry := x }).entries i).nextentry = x := by
  simp

theorem nextentry_link_of_ne (x : Option ℕ) (hj : j ≠ i) :
    ((m.setEntry i fun e => { e with nextentry := x }).entries j).nextentry =
      (m.entries j).nextentry := by
  simp [hj]

structure Shows (env : DirEnv Ctx Handle Attr) (s : Slot) (cookie : ℕ) (e : Element Attr) :
    Prop where
  name : e.name = s.name
  cookie : e.cookie = cookie
  denotes : ∃ pentry h, s.pentry = some pentry ∧ Denotes env e pentry h

/-- An element has been filled, and the others are as before. -/
structure EntryFilled (env : DirEnv Ctx Handle Attr) (i : ℕ) (s : Slot) (cookie : ℕ)
    (m m' : ReplyMem Attr) : Prop where
  shows : Shows env s cookie (m'.element i)
  dataVal : (m'.entries i).dataVal = i
  last : (m'.entries i).nextentry = none
  linked : i ≠ 0 → (m'.entries (i - 1)).nextentry = some i
  elements : ∀ j ≠ i, (m.entries j).dataVal ≠ i → m'.element j = m.element j
  dataVals : ∀ j ≠ i, (m'.entries j).dataVal = (m.entries j).dataVal
  links : ∀ j ≠ i, j + 1 ≠ i → (m'.entries j).nextentry = (m.entries j).nextentry

theorem fillEntry_spec (hf : env.fsal.DigestUndone) (hm : fillEntry env i s cookie m = .ok m') :
    EntryFilled env i s cookie m m' := by
  rw [fillEntry] at hm
  split at hm
  · cases hm
  rename_i h hobject
  obtain ⟨pentry, hpentry, hh⟩ := Option.bind_eq_some_iff.mp hobject
  dsimp only at hm
  split at hm
  · cases hm
  rename_i m1 hm1
  obtain ⟨data, hdata, rfl⟩ := fsalToFhandle_spec hf hm1
  -- before the element is linked
  generalize hm2 : ReplyMem.setEntry _ i _ = m2 at hm
  have hshows : Shows env s cookie (m2.element i) := by
    subst hm2
    refine ⟨?_, ?_, pentry, h, hpentry, hh, ?_, ?_, ?_, ?_⟩
    all_goals simp [ReplyMem.element, ReplyMem.handle, hdata, hpentry]
  have hdataVal : (m2.entries i).dataVal = i := by
    subst hm2
    simp
  have hlast : (m2.entries i).nextentry = none := by
    subst hm2
    simp
  have helements : ∀ j ≠ i, (m.entries j).dataVal ≠ i → m2.element j = m.element j := by
    subst hm2
    intro j hj hval
    simp [ReplyMem.element, ReplyMem.handle, hj, hval]
  have hothers : ∀ j ≠ i, m2.entries j = m.entries j := by
    subst hm2
    intro j hj
    simp [hj]
  obtain rfl := Except.ok.inj hm
  split
  · rename_i hi
    exact ⟨hshows, hdataVal, hlast, fun h => absurd hi h, helements,
      fun j hj => by rw [hothers j hj], fun j hj _ => by rw [hothers j hj]⟩
  rename_i hi
  have hne : i ≠ i - 1 := by omega
  refine ⟨?_, ?_, ?_, fun _ => nextentry_link_self _, fun j hj hval => ?_, fun j hj => ?_,
    fun j hj hsucc => ?_⟩
  · rwa [element_link]
  · rwa [dataVal_link]
  · rwa [nextentry_link_of_ne _ hne]
  · rw [element_link, helements j hj hval]
  · rw [dataVal_link, hothers j hj]
  · rw [nextentry_link_of_ne _ (by omega), hothers j hj]

/-! ## All entries -/

structure EntriesFilled (env : DirEnv Ctx Handle Attr) (endCookie i i' : ℕ) (l : List (ℕ × Slot))
    (m m' : ReplyMem Attr) : Prop where
  from_le : i ≤ i'
  le_to : i' ≤ i + l.length
  shows : ∀ k x, i + k < i' → l[k]? = some x →
    Shows env x.2 (nextCookie endCookie (l.drop (k + 1))) (m'.element (i + k))
  elements : ∀ j < i, m'.element j = m.element j
  linked : ∀ j, j + 1 < i' → (m'.entries j).nextentry = some (j + 1)
  last : i < i' → (m'.entries (i' - 1)).nextentry = none
  same : i = i' → m' = m

theorem fillEntries_spec (hf : env.fsal.DigestUndone) {maxcount endCookie i i' spaceUsed : ℕ}
    {l : List (ℕ × Slot)} (hdataVal : ∀ j < i, (m.entries j).dataVal = j)
    (hlinked : ∀ j, j + 1 < i → (m.entries j).nextentry = some (j + 1))
    (hm : fillEntries env maxcount endCookie delta i spaceUsed l m = .ok (i', m')) :
    EntriesFilled env endCookie i i' l m m' ∧ (l ≠ [] → i = delta → i < i') := by
  induction l generalizing i spaceUsed m with
  | nil =>
    obtain ⟨rfl, rfl⟩ := Prod.mk.inj (Except.ok.inj hm)
    exact ⟨⟨le_rfl, le_rfl, nofun, fun _ _ => rfl, hlinked, fun h => absurd h (lt_irrefl _),
      fun _ => rfl⟩, fun h => absurd rfl h⟩
  | cons x rest ih =>
    rw [fillEntries] at hm
    split at hm
    · split at hm
      · cases hm
      · rename_i hi
        obtain ⟨rfl, rfl⟩ := Prod.mk.inj (Except.ok.inj hm)
        refine ⟨⟨le_rfl, Nat.le_add_right _ _, fun k x hk => ?_, fun _ _ => rfl, hlinked,
          fun h => absurd h (lt_irrefl _), fun _ => rfl⟩, fun _ h => absurd h hi⟩
        omega
    split at hm
    · cases hm
    rename_i m1 hm1
    have hentry := fillEntry_spec hf hm1
    have hdataVal' : ∀ j < i + 1, (m1.entries j).dataVal = j := by
      intro j hj
      rcases Nat.lt_succ_iff_lt_or_eq.mp hj with hj | rfl
      · rw [hentry.dataVals j hj.ne, hdataVal j hj]
      · exact hentry.dataVal
    have hlinked' : ∀ j, j + 1 < i + 1 → (m1.entries j).nextentry = some (j + 1) := by
      intro j hj
      by_cases hsucc : j + 1 = i
      · subst hsucc
        exact hentry.linked (Nat.succ_ne_zero j)
      · rw [hentry.links j (by omega) hsucc, hlinked j (by omega)]
    obtain ⟨hrest, -⟩ := ih hdataVal' hlinked' hm
    have hlt : i < i' := hrest.from_le
    refine ⟨⟨hlt.le, ?_, ?_, ?_, hrest.linked, ?_, fun h => absurd h hlt.ne⟩, fun _ _ => hlt⟩
    · have := hrest.le_to
      rw [List.length_cons]
      omega
    · intro k y hk hy
      cases k with
      | zero =>
        cases hy
        have hshows := hentry.shows
        rw [← hrest.elements i (Nat.lt_succ_self i)] at hshows
        exact hshows
      | succ k =>
        have hshows := hrest.shows k y (by omega) hy
        rwa [show i + 1 + k = i + (k + 1) by omega] at hshows
    · intro j hj
      rw [hrest.elements j (by omega)]
      apply hentry.elements j hj.ne
      rw [hdataVal j hj]
      exact hj.ne
    · intro _
      rcases Nat.lt_or_eq_of_le hrest.from_le with hlt' | heq
      · exact hrest.last hlt'
      · obtain rfl := hrest.same heq
        rw [← heq, Nat.add_sub_cancel]
        exact hentry.last

/-! ## `.` and `..` -/

theorem fillDotDot_zero (hf : env.fsal.DigestUndone) (hm : fillDotDot env 0 m = .ok m') :
    (m'.element 0).name = ".." ∧ (m'.element 0).cookie = 2 ∧ (m'.entries 0).dataVal = 0 ∧
      ∃ parent h, env.lookupp = some parent ∧ Denotes env (m'.element 0) parent h := by
  rw [fillDotDot] at hm
  split at hm
  · cases hm
  rename_i parent hparent
  split at hm
  · cases hm
  rename_i h hh
  dsimp only at hm
  split at hm
  · cases hm
  rename_i m1 hm1
  obtain ⟨data, hdata, rfl⟩ := fsalToFhandle_spec hf hm1
  obtain rfl := Except.ok.inj hm
  refine ⟨?_, ?_, ?_, parent, h, hparent, hh, ?_, ?_, ?_, ?_⟩
  all_goals simp [ReplyMem.element, ReplyMem.handle, hdata]

/-- The element for `.`, with that for `..` behind it: the handle of the first is that of the
parent, and the place for the handle of the second is as it was. -/
structure DotsFilled (env : DirEnv Ctx Handle Attr) (m : ReplyMem Attr) (e₀ e₁ : Element Attr)
    (parent : ℕ) (h hparent : Handle) : Prop where
  self : env.getFsalHandle env.dirPentry = some h
  lookupp : env.lookupp = some parent
  parentHandle : env.getFsalHandle parent = some hparent
  dot : e₀.name = "." ∧ e₀.cookie = 1 ∧ e₀.fileid = env.digestFileid h ∧
    e₀.nameAttributes = env.postOpAttr env.dirPentry ∧ e₀.handleFollows = true
  dotHandle : nfs3FhandleToFSAL env.fsal env.pexport.fsExportContext e₀.handle = some hparent
  dotDot : e₁.name = ".." ∧ e₁.cookie = 2 ∧ e₁.fileid = env.digestFileid hparent ∧
    e₁.nameAttributes = env.postOpAttr parent ∧ e₁.handleFollows = true
  dotDotHandle : e₁.handle = ⟨UInt32.ofNat sizeofV3, 1, m.fh3Array 1⟩

theorem fillDots_both (hf : env.fsal.DigestUndone) {m1 : ReplyMem Attr}
    (hdot : fillDot env m = .ok m1) (hdotDot : fillDotDot env 1 m1 = .ok m') :
    (∃ parent h hparent, DotsFilled env m (m'.element 0) (m'.element 1) parent h hparent) ∧
      (m'.entries 0).dataVal = 0 ∧ (m'.entries 1).dataVal = 1 := by
  rw [fillDot] at hdot
  split at hdot
  · cases hdot
  rename_i h hh
  dsimp only at hdot
  split at hdot
  · cases hdot
  rename_i m2 hm2
  obtain ⟨data, hdata, rfl⟩ := fsalToFhandle_spec hf hm2
  obtain rfl := Except.ok.inj hdot
  rw [fillDotDot] at hdotDot
  split at hdotDot
  · cases hdotDot
  rename_i parent hparent
  split at hdotDot
  · cases hdotDot
  rename_i hp hhp
  dsimp only at hdotDot
  split at hdotDot
  · cases hdotDot
  rename_i m3 hm3
  obtain ⟨data', hdata', rfl⟩ := fsalToFhandle_spec hf hm3
  obtain rfl := Except.ok.inj hdotDot
  refine ⟨⟨parent, h, hp, hh, hparent, hhp, ?_, ?_, ?_, ?_⟩, ?_, ?_⟩
  all_goals simp [ReplyMem.element, ReplyMem.handle, hdata']

/-- How many elements `.` and `..` take. -/
def dots (beginCookie : ℕ) : ℕ := 2 - beginCookie

/-- What the first two elements are, for a cookie. -/
inductive Dots (env : DirEnv Ctx Handle Attr) (m : ReplyMem Attr) :
    ℕ → Element Attr → Element Attr → Prop where
  | behind {beginCookie : ℕ} {e₀ e₁ : Element Attr} (hcookie : 1 < beginCookie) :
    Dots env m beginCookie e₀ e₁
  /-- `..` only -/
  | dotDot {e₀ e₁ : Element Attr} {parent : ℕ} {h : Handle} (hname : e₀.name = "..")
      (hcookie : e₀.cookie = 2) (hparent : env.lookupp = some parent)
      (hdenotes : Denotes env e₀ parent h) : Dots env m 1 e₀ e₁
  | both {e₀ e₁ : Element Attr} {parent : ℕ} {h hparent : Handle}
      (hfilled : DotsFilled env m e₀ e₁ parent h hparent) : Dots env m 0 e₀ e₁

variable {beginCookie : ℕ} {arg : Readdirplus3args} {resok : Readdirplus3resok Attr}

theorem Dots.change {e₀ e₁ e0' e1' : Element Attr} (hdots : Dots env m beginCookie e₀ e₁)
    (h₀ : 0 < dots beginCookie → e0' = e₀) (h₁ : 1 < dots beginCookie → e1' = e₁) :
    Dots env m beginCookie e0' e1' := by
  cases hdots with
  | behind hcookie => exact .behind hcookie
  | dotDot hname hcookie hparent hdenotes =>
    obtain rfl := h₀ Nat.zero_lt_one
    exact .dotDot hname hcookie hparent hdenotes
  | both hfilled =>
    obtain rfl := h₀ Nat.zero_lt_two
    obtain rfl := h₁ Nat.one_lt_two
    exact .both hfilled

/-- The first elements, linked up to the last of them. -/
structure DotsReady (env : DirEnv Ctx Handle Attr) (beginCookie numEntries delta : ℕ)
    (m m' : ReplyMem Attr) : Prop where
  count : delta = dots beginCookie
  shown : Dots env m beginCookie (m'.element 0) (m'.element 1)
  dataVals : ∀ j < delta, (m'.entries j).dataVal = j
  linked : ∀ j, j + 1 < delta → (m'.entries j).nextentry = some (j + 1)
  last : 0 < delta → numEntries = 0 → (m'.entries (delta - 1)).nextentry = none

theorem fillDots_spec (hf : env.fsal.DigestUndone) {estimatedNumEntries numEntries : ℕ}
    (hroom : dots beginCookie ≤ estimatedNumEntries)
    (hm : fillDots env estimatedNumEntries beginCookie numEntries m = .ok (delta, m')) :
    DotsReady env beginCookie numEntries delta m m' := by
  rw [fillDots] at hm
  obtain h0 | h1 | hmore : beginCookie = 0 ∨ beginCookie = 1 ∨ 1 < beginCookie := by omega
  · subst h0
    have htwo : 2 ≤ estimatedNumEntries := hroom
    rw [if_pos ⟨rfl, by omega⟩] at hm
    cases hdot : fillDot env m with
    | error status =>
      rw [hdot] at hm
      cases hm
    | ok m1 =>
      rw [hdot] at hm
      simp only [Except.map, if_pos (Nat.zero_le 1), if_pos (Nat.lt_of_succ_le htwo)] at hm
      split at hm
      · cases hm
      rename_i m2 hdotDot
      obtain ⟨⟨parent, h, hparent, hfilled⟩, hval0, hval1⟩ := fillDots_both hf hdot hdotDot
      obtain ⟨rfl, rfl⟩ := Prod.mk.inj (Except.ok.inj hm)
      refine ⟨rfl, ?_, fun j hj => ?_, fun j hj => ?_, fun _ hnone => ?_⟩
      · rw [element_link, element_link, element_link, element_link]
        exact .both hfilled
      · rw [dataVal_link, dataVal_link]
        obtain rfl | rfl : j = 0 ∨ j = 1 := by omega
        · exact hval0
        · exact hval1
      · obtain rfl : j = 0 := by omega
        rw [nextentry_link_of_ne _ Nat.zero_ne_one, nextentry_link_self]
      · rw [nextentry_link_self, if_neg (by omega)]
  · subst h1
    have hone : 1 ≤ estimatedNumEntries := hroom
    rw [if_neg (by omega)] at hm
    simp only [if_pos (Nat.le_refl 1), if_pos (show 0 < estimatedNumEntries from hone)] at hm
    split at hm
    · cases hm
    rename_i m2 hdotDot
    obtain ⟨hname, hcookie, hval, parent, h, hparent, hdenotes⟩ := fillDotDot_zero hf hdotDot
    obtain ⟨rfl, rfl⟩ := Prod.mk.inj (Except.ok.inj hm)
    refine ⟨rfl, ?_, fun j hj => ?_, fun j hj => ?_, fun _ hnone => ?_⟩
    · rw [element_link, element_link]
      exact .dotDot hname hcookie hparent hdenotes
    · obtain rfl : j = 0 := by omega
      rw [dataVal_link, dataVal_link]
      exact hval
    · omega
    · rw [nextentry_link_self, if_neg (by omega)]
  · rw [if_neg (by omega)] at hm
    dsimp only at hm
    rw [if_neg (by omega)] at hm
    obtain ⟨rfl, rfl⟩ := Prod.mk.inj (Except.ok.inj hm)
    refine ⟨?_, .behind hmore, nofun, fun j hj => ?_, fun h => absurd h (lt_irrefl _)⟩
    · rw [dots]
      omega
    · omega

/-! ## The whole list -/

theorem chain_range' {next : ℕ → Option ℕ} (hn : 0 < n)
    (hlinked : ∀ j, i ≤ j → j + 1 < i + n → next j = some (j + 1))
    (hlast : next (i + n - 1) = none) : Chain next (some i) (List.range' i n) := by
  induction n generalizing i with
  | zero => exact absurd hn (lt_irrefl 0)
  | succ n ih =>
    rw [List.range'_succ]
    refine ⟨rfl, ?_⟩
    rcases Nat.eq_zero_or_pos n with rfl | hpos
    · rw [Nat.zero_add, Nat.add_sub_cancel] at hlast
      rw [hlast]
      rfl
    · rw [hlinked i le_rfl (by omega)]
      apply ih hpos
      · exact fun j hj hlt => hlinked j (by omega) (by omega)
      · rwa [show i + 1 + n - 1 = i + (n + 1) - 1 by omega]

/-- What `cache_inode_readdir` is asked for. -/
def Readdirplus3args.askedNumEntries (arg : Readdirplus3args) : ℕ :=
  if 1 < arg.beginCookie then arg.estimatedNumEntries
  else if 2 < arg.estimatedNumEntries then arg.estimatedNumEntries - 2 else 0

/-- From where on. -/
def Readdirplus3args.cacheInodeCookie (arg : Readdirplus3args) : ℕ :=
  if 1 < arg.beginCookie then arg.beginCookie - 2 else 0

/-- A reply to a call that has room for `.` and `..` and for an element: they, and the first `n` of
the entries that the cache has found. -/
structure Replied (env : DirEnv Ctx Handle Attr) (m : ReplyMem Attr) (arg : Readdirplus3args)
    (resok : Readdirplus3resok Attr) (r : ReaddirResult) (n : ℕ) : Prop where
  result : cacheInodeReaddir env.dir arg.cacheInodeCookie arg.askedNumEntries = some r
  le : n ≤ r.found.length
  pos : r.found ≠ [] → 0 < n
  list : Chain (fun i => (resok.mem.entries i).nextentry) resok.entries
    (List.range (dots arg.beginCookie + n))
  inside : dots arg.beginCookie + n ≤ arg.estimatedNumEntries
  shown : Dots env m arg.beginCookie (resok.mem.element 0) (resok.mem.element 1)
  shows : ∀ k x, k < n → r.found[k]? = some x →
    Shows env x.2 (nextCookie r.endCookie (r.found.drop (k + 1)))
      (resok.mem.element (dots arg.beginCookie + k))
  eof : resok.eof = true ↔ r.eod = true ∧ n = r.found.length
  cookieverf : resok.cookieverf = cookieVerifier env

theorem exists_replied (hf : env.fsal.DigestUndone)
    (hroom : dots arg.beginCookie ≤ arg.estimatedNumEntries) (hone : 1 ≤ arg.estimatedNumEntries)
    (hok : nfs3Readdirplus env m arg = .ok resok) : ∃ r n, Replied env m arg resok r n := by
  rw [nfs3Readdirplus] at hok
  dsimp only at hok
  split at hok
  · cases hok
  rw [← Readdirplus3args.askedNumEntries, ← Readdirplus3args.cacheInodeCookie] at hok
  split at hok
  · cases hok
  rename_i r hr
  have hfew := (asked_of_readdir hr).few
  split at hok
  · rename_i hnothing
    obtain ⟨hfound, -, hcookie⟩ := hnothing
    obtain rfl := Answer.ok.inj hok
    have hzero : dots arg.beginCookie = 0 := by
      rw [dots]
      omega
    refine ⟨r, 0, hr, Nat.zero_le _, fun h => absurd hfound h, ?_, ?_, .behind hcookie, nofun,
      ?_, rfl⟩
    · rw [hzero]
      rfl
    · rw [hzero]
      exact Nat.zero_le _
    · rw [hfound]
      exact (and_iff_left rfl).symm
  · rename_i hsomething
    split at hok
    · cases hok
    rename_i delta m1 hm1
    split at hok
    · cases hok
    rename_i i m2 hm2
    obtain rfl := Answer.ok.inj hok
    have hready := fillDots_spec hf hroom hm1
    obtain ⟨hfilled, hpos⟩ := fillEntries_spec hf hready.dataVals hready.linked hm2
    obtain rfl := hready.count
    have hfrom := hfilled.from_le
    have hto := hfilled.le_to
    obtain ⟨n, rfl⟩ : ∃ n, i = dots arg.beginCookie + n :=
      ⟨i - dots arg.beginCookie, by omega⟩
    have hinside : dots arg.beginCookie + n ≤ arg.estimatedNumEntries := by
      have hasked : r.found.length ≤ arg.askedNumEntries := hfew
      rw [Readdirplus3args.askedNumEntries] at hasked
      rw [dots] at hroom hto ⊢
      split at hasked
      · omega
      · split at hasked <;> omega
    have hnpos : r.found ≠ [] → 0 < n := fun h => by
      have := hpos h rfl
      omega
    refine ⟨r, n, hr, by omega, hnpos, ?_, hinside, ?_, ?_, ?_, rfl⟩
    · -- the list is not empty
      have hlen : 0 < dots arg.beginCookie + n := by
        by_contra hzero
        have hn : n = 0 := by omega
        have hcookie : 1 < arg.beginCookie := by
          rw [dots] at hzero
          omega
        have hnil : r.found = [] := by
          by_contra hne
          have := hnpos hne
          omega
        refine hsomething ⟨hnil, ?_, hcookie⟩
        rw [Readdirplus3args.askedNumEntries, if_pos hcookie]
        omega
      rw [List.range_eq_range']
      apply chain_range' hlen
      · intro j _ hj
        rw [Nat.zero_add] at hj
        exact hfilled.linked j hj
      · rw [Nat.zero_add]
        rcases Nat.eq_zero_or_pos n with rfl | hn
        · have hnil : r.found = [] := by
            by_contra hne
            exact absurd (hnpos hne) (lt_irrefl 0)
          rw [hfilled.same rfl]
          exact hready.last hlen (by rw [hnil]; rfl)
        · exact hfilled.last (by omega)
    · apply hready.shown.change
      · exact fun h => hfilled.elements 0 h
      · exact fun h => hfilled.elements 1 h
    · exact fun k x hk hx => hfilled.shows k x (by omega) hx
    · rw [Bool.and_eq_true, beq_iff_eq]
      exact and_congr_right fun _ => by omega

/-! ## When it holds -/

/-- The directory is its own parent, and its handle was already in the memory for the handle of
`..`. -/
def OwnParent (env : DirEnv Ctx Handle Attr) (m : ReplyMem Attr) : Prop :=
  ∃ h, env.getFsalHandle env.dirPentry = some h ∧ env.lookupp.bind env.getFsalHandle = some h ∧
    nfs3FhandleToFSAL env.fsal env.pexport.fsExportContext
      ⟨UInt32.ofNat sizeofV3, 1, m.fh3Array 1⟩ = some h

/-- A reply begins behind `.` and has room for an element; or it begins with `.` and has room for
`..` too, in a directory that is its own parent. -/
def Placed (env : DirEnv Ctx Handle Attr) (m : ReplyMem Attr) (arg : Readdirplus3args) : Prop :=
  arg.beginCookie ≠ 0 ∧ 1 ≤ arg.estimatedNumEntries ∨
    arg.beginCookie = 0 ∧ 2 ≤ arg.estimatedNumEntries ∧ OwnParent env m

theorem named_dot {pentry : ℕ} {name : String} (hnamed : Named env name pentry)
    (hname : name = ".") : pentry = env.dirPentry := by
  cases hnamed with
  | dot => rfl
  | dotDot => exact absurd hname (by decide)
  | entry hc hs hactive => exact absurd hname (env.noDots _ hc _ hs hactive).1

theorem named_dotDot {pentry : ℕ} {name : String} (hnamed : Named env name pentry)
    (hname : name = "..") : env.lookupp = some pentry := by
  cases hnamed with
  | dot => exact absurd hname (by decide)
  | dotDot hparent => exact hparent
  | entry hc hs hactive => exact absurd hname (env.noDots _ hc _ hs hactive).2

theorem Dots.denotes {e : ℕ → Element Attr} (hdots : Dots env m beginCookie (e 0) (e 1))
    (hown : beginCookie = 0 → OwnParent env m) (hi : i < dots beginCookie) :
    ∃ pentry h, Named env (e i).name pentry ∧ Denotes env (e i) pentry h := by
  generalize he0 : e 0 = e₀ at hdots
  generalize he1 : e 1 = e₁ at hdots
  cases hdots with
  | behind hcookie =>
    rw [dots] at hi
    omega
  | dotDot hname hcookie hparent hdenotes =>
    obtain rfl : i = 0 := Nat.lt_one_iff.mp hi
    rw [he0, hname]
    exact ⟨_, _, .dotDot hparent, hdenotes⟩
  | both hfilled =>
    obtain ⟨h, hself, hparent, hmem⟩ := hown rfl
    rw [hfilled.lookupp, Option.bind_some, hfilled.parentHandle] at hparent
    cases hparent
    obtain rfl | rfl : i = 0 ∨ i = 1 := by
      have hlt : i < 2 := hi
      omega
    · obtain ⟨hname, -, hfileid, hattr, hfollows⟩ := hfilled.dot
      rw [hfilled.self] at hself
      cases hself
      rw [he0, hname]
      exact ⟨_, _, .dot, hfilled.self, hfileid, hattr, hfollows, hfilled.dotHandle⟩
    · obtain ⟨hname, -, hfileid, hattr, hfollows⟩ := hfilled.dotDot
      rw [he1, hname]
      refine ⟨_, _, .dotDot hfilled.lookupp, hfilled.parentHandle, hfileid, hattr, hfollows, ?_⟩
      rw [hfilled.dotDotHandle]
      exact hmem

theorem estimated_pos (hok : nfs3Readdirplus env m arg = .ok resok)
    (hself : SelfConsistent env arg.estimatedNumEntries resok) : 1 ≤ arg.estimatedNumEntries := by
  by_contra hnone
  have hzero : arg.estimatedNumEntries = 0 := by omega
  obtain ⟨l, hchain, hall⟩ := hself
  have hasked : arg.askedNumEntries = 0 := by
    rw [Readdirplus3args.askedNumEntries, hzero]
    split <;> rfl
  have hfirst : resok.entries = some 0 := by
    rw [nfs3Readdirplus] at hok
    dsimp only at hok
    split at hok
    · cases hok
    rw [← Readdirplus3args.askedNumEntries, hasked] at hok
    split at hok
    · cases hok
    split at hok
    · rename_i hnothing
      exact absurd rfl hnothing.2.1
    split at hok
    · cases hok
    split at hok
    · cases hok
    · obtain rfl := Answer.ok.inj hok
      rfl
  cases l with
  | nil => cases hfirst.symm.trans hchain
  | cons i l =>
    have hlt := (hall i (.head _)).1
    omega

theorem dot_outside (hok : nfs3Readdirplus env m arg = .ok resok) (hcookie : arg.beginCookie = 0)
    (hone : arg.estimatedNumEntries = 1) :
    resok.entries = some 0 ∧ (resok.mem.entries 0).nextentry = some 1 := by
  rw [nfs3Readdirplus, hone, hcookie] at hok
  dsimp only at hok
  rw [if_neg (by rintro ⟨-, h, -⟩; exact h rfl)] at hok
  simp only [if_neg (show ¬ 1 < 0 by decide), if_neg (show ¬ 2 < 1 by decide)] at hok
  rw [cacheInodeReaddir, if_pos rfl] at hok
  dsimp only at hok
  rw [if_neg (by rintro ⟨-, h, -⟩; exact h rfl), fillDots, if_pos ⟨rfl, Nat.zero_lt_one⟩] at hok
  cases hdot : fillDot env m with
  | error status =>
    rw [hdot] at hok
    cases hok
  | ok m1 =>
    rw [hdot] at hok
    simp only [Except.map, if_pos (Nat.zero_le 1), if_neg (lt_irrefl 1), fillEntries] at hok
    obtain rfl := Answer.ok.inj hok
    refine ⟨rfl, ?_⟩
    rw [nextentry_link_of_ne _ Nat.zero_ne_one, nextentry_link_self]

theorem two_le_of_selfConsistent (hok : nfs3Readdirplus env m arg = .ok resok)
    (hcookie : arg.beginCookie = 0) (hself : SelfConsistent env arg.estimatedNumEntries resok) :
    2 ≤ arg.estimatedNumEntries := by
  have hone := estimated_pos hok hself
  by_contra hlt
  have hest : arg.estimatedNumEntries = 1 := by omega
  obtain ⟨hfirst, hnext⟩ := dot_outside hok hcookie hest
  obtain ⟨l, hchain, hall⟩ := hself
  rw [hfirst] at hchain
  cases l with
  | nil => cases hchain
  | cons i l =>
    obtain ⟨h, hchain⟩ := hchain
    cases h
    dsimp only at hchain
    rw [hnext] at hchain
    cases l with
    | nil => cases hchain
    | cons j l =>
      obtain ⟨h, -⟩ := hchain
      cases h
      have hin := (hall 1 (.tail _ (.head _))).1
      omega

/-- **From the beginning on**, a reply is right only if the directory is its own parent. -/
theorem ownParent_of_selfConsistent (hf : env.fsal.DigestUndone)
    (hok : nfs3Readdirplus env m arg = .ok resok) (hcookie : arg.beginCookie = 0)
    (hself : SelfConsistent env arg.estimatedNumEntries resok) : OwnParent env m := by
  have htwo := two_le_of_selfConsistent hok hcookie hself
  obtain ⟨l, hchain, hall⟩ := hself
  obtain ⟨r, n, hreply⟩ := exists_replied hf (by rw [dots]; omega) (by omega) hok
  obtain rfl := hchain.eq hreply.list
  have hdots := hreply.shown
  rw [hcookie] at hdots hall
  cases hdots with
  | behind h => exact absurd h (by decide)
  | both hfilled =>
    obtain ⟨-, pentry0, h₀, hnamed0, hdenotes0⟩ :=
      hall 0 (List.mem_range.mpr (by rw [dots]; omega))
    obtain ⟨-, pentry1, h₁, hnamed1, hdenotes1⟩ :=
      hall 1 (List.mem_range.mpr (by rw [dots]; omega))
    -- the object of `.` is the directory, and its handle the one of the parent
    obtain rfl := named_dot hnamed0 hfilled.dot.1
    have hsame := hdenotes0.handle
    rw [hfilled.dotHandle] at hsame
    cases hsame
    -- the handle of `..` is what was in memory
    have hparent := named_dotDot hnamed1 hfilled.dotDot.1
    have hobject := hdenotes1.object
    rw [hfilled.lookupp] at hparent
    cases hparent
    rw [hfilled.parentHandle] at hobject
    cases hobject
    have hmem := hdenotes1.handle
    rw [hfilled.dotDotHandle] at hmem
    refine ⟨_, hdenotes0.object, ?_, hmem⟩
    rw [hfilled.lookupp]
    exact hfilled.parentHandle

/-- **A reply is right** exactly when it begins behind `.` and has room for an element, apart from a
directory that is its own parent and whose handle was in memory before. -/
theorem selfConsistent_iff (hf : env.fsal.DigestUndone) {arg : Readdirplus3args}
    {resok : Readdirplus3resok Attr} (hok : nfs3Readdirplus env m arg = .ok resok) :
    SelfConsistent env arg.estimatedNumEntries resok ↔ Placed env m arg := by
  constructor
  · intro hself
    by_cases hcookie : arg.beginCookie = 0
    · exact Or.inr ⟨hcookie, two_le_of_selfConsistent hok hcookie hself,
        ownParent_of_selfConsistent hf hok hcookie hself⟩
    · exact Or.inl ⟨hcookie, estimated_pos hok hself⟩
  · intro hplaced
    have hone : 1 ≤ arg.estimatedNumEntries := by
      obtain ⟨-, h⟩ | ⟨-, h, -⟩ := hplaced <;> omega
    have hroom : dots arg.beginCookie ≤ arg.estimatedNumEntries := by
      rw [dots]
      obtain ⟨h, -⟩ | ⟨-, h, -⟩ := hplaced <;> omega
    obtain ⟨r, n, hreply⟩ := exists_replied hf hroom hone hok
    have hasked := asked_of_readdir hreply.result
    refine ⟨_, hreply.list, fun i hi => ?_⟩
    have hlt := List.mem_range.mp hi
    have hinside := hreply.inside
    refine ⟨by omega, ?_⟩
    by_cases hdots : dots arg.beginCookie ≤ i
    · -- an entry of the directory
      obtain ⟨k, rfl⟩ : ∃ k, i = dots arg.beginCookie + k := ⟨i - dots arg.beginCookie, by omega⟩
      have hle := hreply.le
      have hk : k < r.found.length := by omega
      have hshows := hreply.shows k _ (by omega) (List.getElem?_eq_getElem hk)
      obtain ⟨pentry, h, hpentry, hdenotes⟩ := hshows.denotes
      obtain ⟨c, hc, hslot⟩ := hasked.slots _ (List.getElem_mem hk)
      refine ⟨pentry, h, ?_, hdenotes⟩
      rw [hshows.name]
      exact .entry hc hslot (hasked.active _ (List.getElem_mem hk)) hpentry
    · -- `.` or `..`
      apply Dots.denotes hreply.shown ?_ (Nat.not_le.mp hdots)
      intro hcookie
      obtain ⟨hne, -⟩ | ⟨-, -, hown⟩ := hplaced
      · exact absurd hcookie hne
      · exact hown

end

/-! ## A directory with one file -/

/-- A directory below the root, with one file. -/
def oneFileDir : Dir where
  chunks := [⟨1, ⟨true, some 2, "f"⟩ :: List.replicate 15 ⟨false, none, ""⟩, 1, true, 0, 0, 0⟩]
  nbdircont := 0
  pdirLast := 1
  hasBeenReaddir := true

/-- It, as the protocols meet it: the root has the number zero. -/
def oneFileEnv : DirEnv Unit UInt64 Unit where
  fsal := inodeFsal
  pexport := ⟨1, ()⟩
  useCookieVerifier := false
  mtime := List.replicate 8 0
  dir := oneFileDir
  dirPentry := 1
  lookupp := some 0
  getFsalHandle pentry := some (UInt64.ofNat pentry)
  digestFileid h := h.toNat
  postOpAttr _ := none
  noDots := by decide

def zeroMem : ReplyMem Unit where
  entries _ := ⟨0, "", 0, none, false, 0, 0, none⟩
  fh3Array _ := List.replicate 64 0

/-- **A reply behind `..`** is right. -/
theorem selfConsistent_iff_oneFile : ∃ resok,
    nfs3Readdirplus oneFileEnv zeroMem ⟨2, [], 1024, 4096⟩ = .ok resok ∧
      (SelfConsistent oneFileEnv 6 resok ↔ Placed oneFileEnv zeroMem ⟨2, [], 1024, 4096⟩) := by
  obtain ⟨resok, hok⟩ : ∃ resok,
    nfs3Readdirplus oneFileEnv zeroMem ⟨2, [], 1024, 4096⟩ = .ok resok := ⟨_, rfl⟩
  exact ⟨resok, hok, selfConsistent_iff inodeFsal_digestUndone hok⟩

/-- **The first reply** is wrong: the handle of `.` is that of the root. -/
theorem firstReply_not_selfConsistent : ∃ resok,
    nfs3Readdirplus oneFileEnv zeroMem ⟨0, [], 1024, 4096⟩ = .ok resok ∧
      ¬ SelfConsistent oneFileEnv 6 resok := by
  obtain ⟨resok, hok⟩ : ∃ resok,
    nfs3Readdirplus oneFileEnv zeroMem ⟨0, [], 1024, 4096⟩ = .ok resok := ⟨_, rfl⟩
  refine ⟨resok, hok, fun hself => ?_⟩
  obtain ⟨h, hself, hparent, -⟩ := ownParent_of_selfConsistent inodeFsal_digestUndone hok rfl hself
  cases hself
  exact absurd (Option.some.inj hparent) (by decide)

end CloudNfs.Readdir
