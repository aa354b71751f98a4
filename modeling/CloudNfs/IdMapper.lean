import CloudNfs.Run

/-!
# The id mapper (`IdMapper/idmapper.c`, `IdMapper/idmapper_cache.c`)

Names of users and groups are turned into ids and back with the data base of the system. For
both kinds there are two caches, one for each direction, and every answer of the data base is
put into both of them, where an entry is never overwritten. The build is the one without
`_USE_NFSIDMAP` and without `_USE_GSSRPC`.

* A key of the cache of names is a buffer of `PWENT_MAX_LEN` bytes that `strncpy` fills: a longer
  name is cut there, and what reads it as a string goes on behind the buffer.
* The data base is a partial map in each direction. `getpwnam_r` returns `0` also for a name that
  is not there, and leaves the `struct passwd` on the stack as it was; `name2uid` does not look at
  the pointer that tells the cases apart.
* What the program does not determine is part of a call: the bytes behind a buffer, and the
  content of a structure that was not written.
-/

namespace CloudNfs

namespace IdMapper

/-- A C string. -/
abbrev Name := List UInt8

def pwentMaxLen : ℕ := 81

def maxNamLen : ℕ := 255

/-- The data base, for users or for groups. -/
structure Db where
  /-- `getpwnam_r`, `getgrnam_r` -/
  idOf : Name → Option ℕ
  /-- `getpwuid_r`, `getgrgid_r` -/
  nameOf : ℕ → Option Name

/-- What a call finds in memory that was not written. -/
structure Junk where
  /-- the `pw_uid` of `struct passwd`, the `gr_gid` of `struct group` -/
  id : ℕ
  /-- the bytes behind a key -/
  beyond : Name
  /-- the bytes in the caller's buffer behind what is copied -/
  rest : Name

/-- The string in a buffer after `strncpy` of at most `n` bytes, with `rest` behind them. -/
def strncpy (n : ℕ) (src rest : Name) : Name :=
  if src.length < n then src else src.take n ++ rest

/-! ### The caches -/

/-- An entry of `ht_pwnam` or `ht_grnam`. -/
structure Entry where
  /-- the key as the hash function read it -/
  hashed : Name
  /-- the key as `strncmp` reads it -/
  stored : Name
  value : ℕ

/-- The two caches of a kind. -/
structure Tables where
  /-- `ht_pwnam`, `ht_grnam` -/
  names : List Entry
  /-- `ht_pwuid`, `ht_grgid` -/
  ids : List (ℕ × Name)

/-- `idmapper_value_hash_func`: the first character does not count. -/
def valueHash (indexSize : ℕ) (name : Name) : ℕ :=
  ((name.drop 1).map UInt8.toNat).sum % 2 ^ 32 % indexSize

/-- The entry is found under the name: it is in the same list, and `compare_idmapper` is `0`. -/
def Entry.isFor (indexSize : ℕ) (e : Entry) (name : Name) : Bool :=
  valueHash indexSize e.hashed = valueHash indexSize name && e.stored = name.take pwentMaxLen

namespace Tables

variable (indexSize : ℕ) (t : Tables)

def idmapGet (name : Name) : Option ℕ := (t.names.find? (·.isFor indexSize name)).map Entry.value

def namemapGet (id : ℕ) : Option Name := (t.ids.find? (·.1 = id)).map Prod.snd

def idmapAdd (name : Name) (id : ℕ) (beyond : Name) : Tables :=
  if t.names.any (·.isFor indexSize (strncpy pwentMaxLen name beyond)) then t
  else
    { t with
      names := ⟨strncpy pwentMaxLen name beyond, name.take pwentMaxLen, id⟩ :: t.names }

def namemapAdd (id : ℕ) (name : Name) : Tables :=
  if t.ids.any (·.1 = id) then t else { t with ids := (id, name.take pwentMaxLen) :: t.ids }

/-- `uidmap_add`, `gidmap_add` -/
def mapAdd (name : Name) (id : ℕ) (beyond : Name) : Tables :=
  (t.idmapAdd indexSize name id beyond).namemapAdd id name

/-- What `name2uid` and `name2gid` have in common. -/
def name2id (db : Db) (name : Name) (j : Junk) : Tables × ℕ :=
  match t.idmapGet indexSize name with
  | some id => (t, id)
  | none =>
    let id := (db.idOf name).getD j.id
    (t.mapAdd indexSize name id j.beyond, id)

/-- What `uid2name` and `gid2name` have in common. -/
def id2name (db : Db) (id : ℕ) (j : Junk) : Tables × Option Name :=
  match t.namemapGet id with
  | some name => (t, some (strncpy pwentMaxLen name j.rest))
  | none =>
    match db.nameOf id with
    | none => (t, none)
    | some pwName =>
      let name := strncpy maxNamLen pwName j.rest
      (t.mapAdd indexSize name id j.beyond, some name)

end Tables

/-! ### The calls -/

structure State where
  users : Tables
  groups : Tables

def init : State := ⟨⟨[], []⟩, ⟨[], []⟩⟩

structure Config where
  indexSize : ℕ
  domainname : Name
  passwd : Db
  group : Db

inductive Answer where
  | failed
  | id (id : ℕ)
  | name (name : Name)
  deriving DecidableEq

/-- `"nfs/"` -/
def nfsPrefix : Name := [110, 102, 115, 47]

/-- `'@'` -/
def atSign : UInt8 := 64

/-- The name of an `utf8string`: what is before its domain. -/
def stringidName (val : List UInt8) : Name :=
  (val.takeWhile (· ≠ 0)).takeWhile (· ≠ atSign)

section

variable (cfg : Config) (s : State)

/-- `name2uid`: a host-based principal is root. -/
def name2uid (name : Name) (j : Junk) : State × Answer :=
  if nfsPrefix <+: name then (s, .id 0)
  else
    let (t, id) := s.users.name2id cfg.indexSize cfg.passwd name j
    ({ s with users := t }, .id id)

def name2gid (name : Name) (j : Junk) : State × Answer :=
  let (t, id) := s.groups.name2id cfg.indexSize cfg.group name j
  ({ s with groups := t }, .id id)

def uid2name (uid : ℕ) (j : Junk) : State × Answer :=
  let (t, name) := s.users.id2name cfg.indexSize cfg.passwd uid j
  ({ s with users := t }, name.elim .failed .name)

def gid2name (gid : ℕ) (j : Junk) : State × Answer :=
  let (t, name) := s.groups.id2name cfg.indexSize cfg.group gid j
  ({ s with groups := t }, name.elim .failed .name)

/-- The string fits into `buff`, and what is before its first zero into `uidname` and
`domainname`. -/
def fitsBuffers (val : List UInt8) : Bool :=
  val.length < 2 * maxNamLen && (val.takeWhile (· ≠ 0)).length < maxNamLen

/-- `utf82uid`; a string that overflows the buffers has no answer. -/
def utf82uid (val : List UInt8) (j : Junk) : Option (State × Answer) :=
  if val = [] then some (s, .failed)
  else if fitsBuffers val then some (name2uid cfg s (stringidName val) j)
  else none

/-- The name fits into the buffers of `uid2str` and `uid2utf8` with its domain. -/
def fitsDomain (name : Name) : Bool := name.length + 1 + cfg.domainname.length < maxNamLen

/-- `uid2utf8`, from `uid2str`; a string that overflows the buffers has no answer. -/
def uid2utf8 (uid : ℕ) (j : Junk) : Option (State × Answer) :=
  match uid2name cfg s uid j with
  | (s, .name name) =>
    if fitsDomain cfg name then some (s, .name (name ++ atSign :: cfg.domainname)) else none
  | (s, _) => some (s, .failed)

inductive Call where
  | name2uid (name : Name) (j : Junk)
  | uid2name (uid : ℕ) (j : Junk)
  | name2gid (name : Name) (j : Junk)
  | gid2name (gid : ℕ) (j : Junk)
  | utf82uid (val : List UInt8) (j : Junk)
  | uid2utf8 (uid : ℕ) (j : Junk)

def run : Call → Option (State × Answer)
  | .name2uid name j => some (name2uid cfg s name j)
  | .uid2name uid j => some (uid2name cfg s uid j)
  | .name2gid name j => some (name2gid cfg s name j)
  | .gid2name gid j => some (gid2name cfg s gid j)
  | .utf82uid val j => utf82uid cfg s val j
  | .uid2utf8 uid j => uid2utf8 cfg s uid j

def step (call : Call) : Option State := (run cfg s call).map Prod.fst

/-! ### Transparent caches -/

/-- The name that a call asks for is in the data base. -/
def known : Call → Bool
  | .name2uid name _ => (cfg.passwd.idOf name).isSome
  | .name2gid name _ => (cfg.group.idOf name).isSome
  | .utf82uid val _ => (cfg.passwd.idOf (stringidName val)).isSome
  | _ => true

/-- Two different names do not share an entry. -/
def Apart (t : Tables) : Prop :=
  ∀ e ∈ t.names, ∀ name name', e.isFor cfg.indexSize name = true →
    e.isFor cfg.indexSize name' = true → name = name'

/-- **The caches are transparent** for a call. -/
structure Transparent (call : Call) : Prop where
  /-- it overflows no buffer, and answers as with empty caches -/
  same : ∃ answer, (run cfg s call).map Prod.snd = some answer ∧
    (run cfg init call).map Prod.snd = some answer
  /-- a name that is not known yields no id -/
  unknown : ∀ id, (run cfg s call).map Prod.snd = some (.id id) → known cfg call = true
  users : Apart cfg s.users
  groups : Apart cfg s.groups

/-! ### When they are -/

/-- The name is short and known, and what is put into the caches for it, if anything, agrees with
the data base in the other direction. -/
def fitsName (db : Db) (t : Tables) (name : Name) : Bool :=
  name.length < pwentMaxLen &&
    (db.idOf name).any fun id =>
      (t.idmapGet cfg.indexSize name).isSome || (t.namemapGet id).isSome || db.nameOf id = some name

/-- The same for an id, which need not be known. -/
def fitsId (db : Db) (t : Tables) (id : ℕ) : Bool :=
  (t.namemapGet id).isSome ||
    (db.nameOf id).all fun name => name.length < pwentMaxLen &&
      ((t.idmapGet cfg.indexSize name).isSome || db.idOf name = some id)

/-- What a call must meet in the state before it. -/
def Fits : Call → Prop
  | .name2uid name _ =>
    if nfsPrefix <+: name then (cfg.passwd.idOf name).isSome = true
    else fitsName cfg cfg.passwd s.users name = true
  | .uid2name uid _ => fitsId cfg cfg.passwd s.users uid = true
  | .name2gid name _ => fitsName cfg cfg.group s.groups name = true
  | .gid2name gid _ => fitsId cfg cfg.group s.groups gid = true
  | .utf82uid val _ => val ≠ [] → fitsBuffers val = true ∧
    if nfsPrefix <+: stringidName val then (cfg.passwd.idOf (stringidName val)).isSome = true
    else fitsName cfg cfg.passwd s.users (stringidName val) = true
  | .uid2utf8 uid _ => fitsId cfg cfg.passwd s.users uid = true ∧
    (cfg.passwd.nameOf uid).all (fitsDomain cfg) = true

instance : ∀ call, Decidable (Fits cfg s call)
  | .name2uid .. => inferInstanceAs (Decidable (ite _ _ _))
  | .uid2name .. => inferInstanceAs (Decidable (_ = true))
  | .name2gid .. => inferInstanceAs (Decidable (_ = true))
  | .gid2name .. => inferInstanceAs (Decidable (_ = true))
  | .utf82uid .. => inferInstanceAs (Decidable (_ → _ ∧ ite _ _ _))
  | .uid2utf8 .. => inferInstanceAs (Decidable (_ = true ∧ _ = true))

end

/-! ### The caches agree with the data base -/

/-- **The caches agree with the data base**, and have short names only. -/
structure Agrees (db : Db) (t : Tables) : Prop where
  names : ∀ e ∈ t.names,
    e.hashed = e.stored ∧ e.stored.length < pwentMaxLen ∧ db.idOf e.stored = some e.value
  ids : ∀ p ∈ t.ids, p.2.length < pwentMaxLen ∧ db.nameOf p.1 = some p.2

section

variable {cfg : Config} {s s' : State} {db : Db} {t : Tables} {name : Name} {id n : ℕ}
  {rest : Name}

theorem agrees_nil (db : Db) : Agrees db ⟨[], []⟩ :=
  ⟨fun _ he => absurd he List.not_mem_nil, fun _ hp => absurd hp List.not_mem_nil⟩

theorem strncpy_of_lt {src : Name} (h : src.length < n) : strncpy n src rest = src := if_pos h

theorem take_of_short (h : name.length < pwentMaxLen) : name.take pwentMaxLen = name :=
  List.take_of_length_le (le_of_lt h)

theorem Agrees.isFor_iff (h : Agrees db t) {e : Entry} (he : e ∈ t.names) (name : Name) :
    e.isFor n name = true ↔ e.stored = name := by
  obtain ⟨hhashed, hshort, -⟩ := h.names e he
  rw [Entry.isFor, Bool.and_eq_true, decide_eq_true_eq, decide_eq_true_eq, hhashed]
  constructor
  · rintro ⟨-, hstored⟩
    by_cases hname : name.length < pwentMaxLen
    · rw [hstored, take_of_short hname]
    · rw [hstored, List.length_take] at hshort
      omega
  · rintro rfl
    exact ⟨rfl, (take_of_short hshort).symm⟩

theorem Agrees.apart (h : Agrees db t) : Apart cfg t := by
  intro e he name name' hname hname'
  exact ((h.isFor_iff he name).mp hname).symm.trans ((h.isFor_iff he name').mp hname')

theorem Agrees.idmapGet (h : Agrees db t) (hget : t.idmapGet n name = some id) :
    db.idOf name = some id := by
  obtain ⟨e, hfind, rfl⟩ := Option.map_eq_some_iff.mp hget
  have he := List.mem_of_find?_eq_some hfind
  have hfor : e.isFor n name = true := List.find?_some (p := fun e : Entry => e.isFor n name) hfind
  have hstored := (h.isFor_iff he name).mp hfor
  exact hstored ▸ (h.names e he).2.2

theorem Agrees.namemapGet (h : Agrees db t) (hget : t.namemapGet id = some name) :
    db.nameOf id = some name ∧ name.length < pwentMaxLen := by
  obtain ⟨p, hfind, rfl⟩ := Option.map_eq_some_iff.mp hget
  have hp := List.mem_of_find?_eq_some hfind
  have hid : p.1 = id := by simpa using List.find?_some hfind
  exact ⟨hid ▸ (h.ids p hp).2, (h.ids p hp).1⟩

/-- **A pair is put into the caches**: in each direction it is right, or there is an entry. -/
theorem Agrees.mapAdd (h : Agrees db t) (hshort : name.length < pwentMaxLen)
    (hid : (t.idmapGet n name).isSome = true ∨ db.idOf name = some id)
    (hname : (t.namemapGet id).isSome = true ∨ db.nameOf id = some name) (beyond : Name) :
    Agrees db (t.mapAdd n name id beyond) := by
  have hnames : Agrees db (t.idmapAdd n name id beyond) := by
    rw [Tables.idmapAdd, strncpy_of_lt hshort, take_of_short hshort]
    split
    · exact h
    rename_i hnew
    have hright : db.idOf name = some id := by
      refine hid.resolve_left fun hsome => hnew ?_
      obtain ⟨e, he⟩ := Option.isSome_iff_exists.mp (Option.isSome_map.symm.trans hsome)
      exact List.any_eq_true.mpr ⟨e, List.mem_of_find?_eq_some he,
        List.find?_some (p := fun e : Entry => e.isFor n name) he⟩
    refine ⟨fun e he => ?_, h.ids⟩
    rcases List.mem_cons.mp he with rfl | hold
    · exact ⟨rfl, hshort, hright⟩
    · exact h.names e hold
  have hids : (t.idmapAdd n name id beyond).ids = t.ids := by
    rw [Tables.idmapAdd]
    split <;> rfl
  rw [Tables.mapAdd, Tables.namemapAdd, take_of_short hshort]
  split
  · exact hnames
  rename_i hnew
  have hright : db.nameOf id = some name := by
    refine hname.resolve_left fun hsome => hnew ?_
    obtain ⟨p, hp⟩ := Option.isSome_iff_exists.mp (Option.isSome_map.symm.trans hsome)
    rw [hids]
    exact List.any_eq_true.mpr ⟨p, List.mem_of_find?_eq_some hp,
      List.find?_some (p := fun p : ℕ × Name => decide (p.1 = id)) hp⟩
  refine ⟨hnames.names, fun p hp => ?_⟩
  rcases List.mem_cons.mp hp with rfl | hold
  · exact ⟨hshort, hright⟩
  · exact hnames.ids p hold

theorem Agrees.name2id (h : Agrees db t) (hfits : fitsName cfg db t name = true) (j : Junk) :
    db.idOf name = some (t.name2id cfg.indexSize db name j).2 ∧
      Agrees db (t.name2id cfg.indexSize db name j).1 := by
  obtain ⟨hshort, hfits⟩ := Bool.and_eq_true_iff.mp hfits
  obtain ⟨id, hid, hback⟩ := (Option.any_eq_true _ _).mp hfits
  cases hget : t.idmapGet cfg.indexSize name with
  | some id' =>
    simp only [Tables.name2id, hget]
    exact ⟨h.idmapGet hget, h⟩
  | none =>
    simp only [Tables.name2id, hget, hid, Option.getD_some]
    refine ⟨trivial, h.mapAdd (of_decide_eq_true hshort) (.inr hid) ?_ j.beyond⟩
    simpa [hget] using hback

theorem name2id_nil {j : Junk} (hid : db.idOf name = some id) :
    ((⟨[], []⟩ : Tables).name2id n db name j).2 = id := by
  simp [Tables.name2id, Tables.idmapGet, hid]

theorem Agrees.id2name (h : Agrees db t) (hfits : fitsId cfg db t id = true) (j : Junk) :
    (t.id2name cfg.indexSize db id j).2 = db.nameOf id ∧
      ((⟨[], []⟩ : Tables).id2name cfg.indexSize db id j).2 = db.nameOf id ∧
        Agrees db (t.id2name cfg.indexSize db id j).1 := by
  have hnil : (⟨[], []⟩ : Tables).namemapGet id = none := rfl
  cases hget : t.namemapGet id with
  | some name =>
    obtain ⟨hname, hshort⟩ := h.namemapGet hget
    have hlong : name.length < maxNamLen := lt_trans hshort (by decide)
    simp only [Tables.id2name, hget, hnil, hname, strncpy_of_lt hshort, strncpy_of_lt hlong]
    exact ⟨trivial, trivial, h⟩
  | none =>
    cases hname : db.nameOf id with
    | none =>
      simp only [Tables.id2name, hget, hnil, hname]
      exact ⟨trivial, trivial, h⟩
    | some name =>
      simp only [fitsId, hget, hname, Option.isSome_none, Bool.false_or, Option.all_some,
        Bool.and_eq_true, decide_eq_true_eq, Bool.or_eq_true] at hfits
      have hlong : name.length < maxNamLen := lt_trans hfits.1 (by decide)
      simp only [Tables.id2name, hget, hnil, hname, strncpy_of_lt hlong]
      exact ⟨trivial, trivial, h.mapAdd hfits.1 hfits.2 (.inr hname) j.beyond⟩

/-! ### The calls -/

def AllAgree (cfg : Config) (s : State) : Prop :=
  Agrees cfg.passwd s.users ∧ Agrees cfg.group s.groups

theorem allAgree_init (cfg : Config) : AllAgree cfg init :=
  ⟨agrees_nil cfg.passwd, agrees_nil cfg.group⟩

theorem AllAgree.name2uid (h : AllAgree cfg s) {j : Junk}
    (hfits : if nfsPrefix <+: name then (cfg.passwd.idOf name).isSome = true
      else fitsName cfg cfg.passwd s.users name = true) :
    (name2uid cfg s name j).2 = (name2uid cfg init name j).2 ∧
      (cfg.passwd.idOf name).isSome = true ∧ AllAgree cfg (name2uid cfg s name j).1 := by
  by_cases hprefix : nfsPrefix <+: name
  · rw [if_pos hprefix] at hfits
    simp only [IdMapper.name2uid, if_pos hprefix]
    exact ⟨trivial, hfits, h⟩
  rw [if_neg hprefix] at hfits
  obtain ⟨hid, hagrees⟩ := h.1.name2id hfits j
  simp only [IdMapper.name2uid, if_neg hprefix]
  refine ⟨?_, ?_, hagrees, h.2⟩
  · exact congrArg Answer.id (name2id_nil hid).symm
  · rw [hid]
    rfl

theorem AllAgree.uid2name (h : AllAgree cfg s) {j : Junk}
    (hfits : fitsId cfg cfg.passwd s.users id = true) :
    (uid2name cfg s id j).2 = (cfg.passwd.nameOf id).elim .failed .name ∧
      (uid2name cfg init id j).2 = (cfg.passwd.nameOf id).elim .failed .name ∧
        AllAgree cfg (uid2name cfg s id j).1 := by
  obtain ⟨hname, hnil, hagrees⟩ := h.1.id2name hfits j
  exact ⟨congrArg (fun name => Option.elim name Answer.failed Answer.name) hname,
    congrArg (fun name => Option.elim name Answer.failed Answer.name) hnil, hagrees, h.2⟩

/-- `uid2utf8` is `uid2name` with the domain behind the name. -/
theorem uid2utf8_eq {answer : Option Name} (j : Junk)
    (hname : (uid2name cfg s id j).2 = answer.elim .failed .name)
    (hfits : answer.all (fitsDomain cfg) = true) :
    uid2utf8 cfg s id j = some ((uid2name cfg s id j).1,
      answer.elim .failed fun name => .name (name ++ atSign :: cfg.domainname)) := by
  unfold uid2utf8
  generalize uid2name cfg s id j = called at hname ⊢
  obtain ⟨s₁, res⟩ := called
  cases answer with
  | none =>
    cases hname
    rfl
  | some name =>
    cases hname
    exact if_pos hfits

/-- The call overflows no buffer and answers as with empty caches, and the caches are in agreement
after it. -/
def Answers (cfg : Config) (s : State) (call : Call) (answer : Answer) : Prop :=
  ∃ s', run cfg s call = some (s', answer) ∧ (run cfg init call).map Prod.snd = some answer ∧
    AllAgree cfg s'

/-- **A call that fits answers as with empty caches**, and keeps the caches in agreement. -/
theorem AllAgree.run (h : AllAgree cfg s) {call : Call} (hfits : Fits cfg s call) :
    ∃ answer, Answers cfg s call answer ∧ ∀ id, answer = .id id → known cfg call = true := by
  cases call with
  | name2uid name j =>
    obtain ⟨hsame, hknown, hagree⟩ := h.name2uid (j := j) hfits
    exact ⟨_, ⟨_, rfl, congrArg some hsame.symm, hagree⟩, fun _ _ => hknown⟩
  | uid2name uid j =>
    obtain ⟨hsame, hnil, hagree⟩ := h.uid2name (j := j) hfits
    exact ⟨_, ⟨_, rfl, congrArg some (hnil.trans hsame.symm), hagree⟩, fun _ _ => rfl⟩
  | name2gid name j =>
    obtain ⟨hid, hagrees⟩ := h.2.name2id hfits j
    refine ⟨_, ⟨_, rfl, congrArg (fun id => some (Answer.id id))
      (name2id_nil (n := cfg.indexSize) hid), h.1, hagrees⟩, fun _ _ => ?_⟩
    rw [known, hid]
    rfl
  | gid2name gid j =>
    obtain ⟨hname, hnil, hagrees⟩ := h.2.id2name hfits j
    exact ⟨_, ⟨_, rfl, congrArg (fun name => some (Option.elim name Answer.failed Answer.name))
      (hnil.trans hname.symm), h.1, hagrees⟩, fun _ _ => rfl⟩
  | utf82uid val j =>
    by_cases hempty : val = []
    · subst hempty
      exact ⟨.failed, ⟨s, rfl, rfl, h⟩, fun id hid => by cases hid⟩
    obtain ⟨hbuffers, hfits⟩ := hfits hempty
    obtain ⟨hsame, hknown, hagree⟩ := h.name2uid (j := j) hfits
    have hrun : ∀ s, IdMapper.run cfg s (.utf82uid val j) =
        some (IdMapper.name2uid cfg s (stringidName val) j) :=
      fun s => (if_neg hempty).trans (if_pos hbuffers)
    refine ⟨_, ⟨_, hrun s, ?_, hagree⟩, fun _ _ => hknown⟩
    rw [hrun]
    exact congrArg some hsame.symm
  | uid2utf8 uid j =>
    obtain ⟨hfits, hdomain⟩ := hfits
    obtain ⟨hsame, hnil, hagree⟩ := h.uid2name (j := j) hfits
    refine ⟨_, ⟨_, uid2utf8_eq j hsame hdomain, ?_, hagree⟩, fun _ _ => rfl⟩
    exact congrArg (Option.map Prod.snd) (uid2utf8_eq j hnil hdomain)

/-! ### The histories -/

/-- **The caches are transparent** for every call that fits, after every history of calls that
fit, which overflows no buffer. -/
theorem transparent_of_fits (cfg : Config) (calls : List Call)
    (hfits : AllMeet (step cfg) (Fits cfg) init calls) :
    ∃ s, exec (step cfg) init calls = some s ∧
      ∀ call, Fits cfg s call → Transparent cfg s call := by
  obtain ⟨s, hs, hagree⟩ := exec_of_allMeet (allAgree_init cfg) (fun s call h hfits => by
    obtain ⟨answer, ⟨s', hrun, -, hagree⟩, -⟩ := h.run hfits
    exact ⟨s', congrArg (Option.map Prod.fst) hrun, hagree⟩) hfits
  refine ⟨s, hs, fun call hcall => ?_⟩
  obtain ⟨answer, ⟨s', hrun, hsame, -⟩, hunknown⟩ := hagree.run hcall
  have hanswer : (IdMapper.run cfg s call).map Prod.snd = some answer :=
    congrArg (Option.map Prod.snd) hrun
  exact ⟨⟨answer, hanswer, hsame⟩, fun id hid => hunknown id (Option.some.inj (hanswer ▸ hid)),
    hagree.1.apart, hagree.2.apart⟩

/-- A user and a group of the same name, and ids that do not depend on each other. -/
def smallConfig : Config where
  indexSize := 17
  domainname := [108, 97, 98]
  passwd := ⟨fun name => if name = [98, 111, 98] then some 501 else none,
    fun id => if id = 501 then some [98, 111, 98] else none⟩
  group := ⟨fun name => if name = [98, 111, 98] then some 100 else none,
    fun id => if id = 100 then some [98, 111, 98] else none⟩

/-- The memory that a call finds in an example. -/
def junk : Junk := ⟨77, [], []⟩

/-- Users, groups and an id that is not known. -/
theorem transparent_bob :
    ∃ s, exec (step smallConfig) init [.name2uid [98, 111, 98] junk, .uid2name 501 junk,
        .uid2utf8 501 junk, .uid2name 7 junk, .gid2name 100 junk] = some s ∧
      Transparent smallConfig s (.utf82uid [98, 111, 98, 64, 108, 97, 98] junk) := by
  obtain ⟨s, hs, hall⟩ := transparent_of_fits smallConfig [.name2uid [98, 111, 98] junk,
    .uid2name 501 junk, .uid2utf8 501 junk, .uid2name 7 junk, .gid2name 100 junk]
    (by decide +kernel)
  refine ⟨s, hs, hall _ ?_⟩
  cases hs
  decide +kernel

/-- A name that is not known yields what is on the stack. -/
theorem unknownName_yields_id :
    ¬ ∀ (cfg : Config) (calls : List Call) (s : State), exec (step cfg) init calls = some s →
      ∀ call, Transparent cfg s call := by
  intro h
  have hcall := h smallConfig [] init rfl (.name2uid [101, 118, 101] junk)
  have hknown := hcall.unknown 77 (by decide +kernel)
  exact absurd hknown (by decide)

end

end IdMapper

end CloudNfs
