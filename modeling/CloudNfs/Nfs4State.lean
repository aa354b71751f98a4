import Mathlib.Data.List.Nodup
import Mathlib.Logic.Function.Basic

/-!
# NFSv4 states (`Cache_inode/cache_inode_state.c`, `support/nfs_state_id.c`)

The states of files and the two tables that lead to them:

* every file has a list of states (`pstate_head`), share states of OPEN and lock states
  of LOCK;
* `ht_state_id` maps a stateid to a state; setting an existing key **overwrites**;
* `ht_open_owner` maps the name of an owner, a client id and a string, to the owner;
  setting an existing key fails.

A state is an address in a memory. Open owners are never deleted and there is one for each
name, so a state refers to its owner by name. Released states are not read again, so
their reset is left out, and an address is not used twice.

The part of a stateid that identifies a state is built from the boot time, the file id
and **16 bits of the owner's counter**: two states of one owner on one file have the
same stateid.
-/

namespace CloudNfs.Nfs4

open Function (update update_self update_of_ne)

/-! ## Data -/

/-- The values of `nfsstat4` that the operations give by themselves; `other` are those
that come out of a call (`nfs4_Errno` of a cache status, or a check of the filehandle). -/
inductive Nfsstat4 where
  /-- `NFS4_OK` -/
  | ok
  | shareDenied
  | access
  | exist
  | noent
  | inval
  | serverfault
  | badStateid
  | staleStateid
  | locksHeld
  | denied
  | openmode
  | lockRange
  | other (code : ℕ)
  deriving DecidableEq

structure OwnerName where
  clientid : UInt64
  ownerVal : List UInt8
  deriving DecidableEq

/-- `cache_inode_open_owner_t`. -/
structure OpenOwner where
  /-- its key in `ht_open_owner` -/
  name : OwnerName
  confirmed : Bool
  seqid : UInt32
  /-- the number of the owner, used to build stateids -/
  counter : UInt32
  /-- for a lock owner, the open owner it belongs to -/
  relatedOwner : Option OwnerName

/-- `cache_inode_share_t`. -/
structure Share where
  oexclVerifier : List UInt8
  shareAccess : UInt32
  shareDeny : UInt32
  /-- the number of locks made through this open -/
  lockheld : UInt32
  deriving DecidableEq

/-- `cache_inode_lock_t`. The type is the number that came over the wire: decoding does
not check it. -/
structure Lock where
  offset : UInt64
  /-- number of bytes, all ones for the rest of the file -/
  length : UInt64
  /-- `READ_LT` and so on -/
  lockType : UInt32
  /-- the share state the lock was made through -/
  popenstate : ℕ
  deriving DecidableEq

/-- The union `state_data` with its tag `state_type`. -/
inductive StateData where
  | share (share : Share)
  | lock (lock : Lock)
  deriving DecidableEq

/-- The twelve bytes of `stateid.other`: two of the boot time, eight of the file id and
two of the counter of the owner. -/
structure StateidOther where
  /-- low bits of the boot time -/
  boot : UInt16
  fileid : UInt64
  /-- low bits of the counter of the owner -/
  owner : UInt16
  deriving DecidableEq

/-- `cache_inode_state_t` without its sequence id. -/
structure StateInfo where
  data : StateData
  /-- the key in `ht_state_id` -/
  stateidOther : StateidOther
  powner : OwnerName
  pentry : ℕ
  deriving DecidableEq

/-- `cache_inode_state_t`. -/
structure FileState extends StateInfo where
  seqid : UInt32

structure Config where
  /-- NFSv4.1 instead of NFSv4.0 -/
  minor1 : Bool
  /-- `ServerBootTime & 0xFFFF` -/
  bootTime : UInt16
  /-- the digest `FSAL_DIGEST_FILEID3` of each file -/
  fileid : ℕ → UInt64
  returnBadStateid : Bool

structure States where
  mem : ℕ → FileState
  /-- the next address to allocate -/
  fresh : ℕ
  /-- the list of states of each file -/
  lists : ℕ → List ℕ
  /-- `ht_state_id` -/
  stateIds : StateidOther → Option ℕ
  /-- `ht_open_owner` -/
  owners : OwnerName → Option OpenOwner
  ownerCounter : UInt32
  /-- the files that exist -/
  present : ℕ → Bool

def nullState : FileState :=
  { data := .share ⟨[], 0, 0, 0⟩, seqid := 0, stateidOther := ⟨0, 0, 0⟩, powner := ⟨0, []⟩,
    pentry := 0 }

def States.init (present : ℕ → Bool) : States :=
  { mem := fun _ => nullState, fresh := 0, lists := fun _ => [], stateIds := fun _ => none,
    owners := fun _ => none, ownerCounter := 0, present := present }

/-! ## Owners -/

/-- `nfs_open_owner_Set`: the counter goes on even when the name is taken. -/
def nfsOpenOwnerSet (s : States) (o : OpenOwner) : States × Bool :=
  let s := { s with ownerCounter := s.ownerCounter + 1 }
  match s.owners o.name with
  | some _ => (s, false)
  | none =>
    ({ s with owners :=
        update s.owners o.name (some { o with counter := s.ownerCounter }) }, true)

def States.setOwner (s : States) (o : OpenOwner) : States :=
  { s with owners := update s.owners o.name (some o) }

/-- `powner->seqid += n`. -/
def States.bumpOwner (s : States) (name : OwnerName) (n : UInt32) : States :=
  match s.owners name with
  | some o => s.setOwner { o with seqid := o.seqid + n }
  | none => s

/-! ## States -/

def States.set (s : States) (p : ℕ) (st : FileState) : States :=
  { s with mem := update s.mem p st }

/-- `cache_inode_state_conflict`. The case of a share has no `break`: what it finds is
overwritten by the next case. -/
def cacheInodeStateConflict (pstate : StateData) (candidate : StateData) : Bool :=
  match candidate with
  | .share c =>
    let rc := match pstate with
      | .share sh => decide (sh.shareAccess &&& c.shareDeny ≠ 0) ||
          decide (sh.shareDeny &&& c.shareAccess ≠ 0)
      | .lock _ => false
    -- falls through to `CACHE_INODE_STATE_LOCK`
    rc && false
  | .lock _ => false

def nfs4BuildStateIdOther (cfg : Config) (file : ℕ) (o : OpenOwner) : StateidOther :=
  { boot := cfg.bootTime, fileid := cfg.fileid file, owner := o.counter.toUInt16 }

/-- The state that `cache_inode_add_state` makes. -/
def newState (cfg : Config) (file : ℕ) (data : StateData) (o : OpenOwner) : FileState :=
  { data := data, seqid := 0, stateidOther := nfs4BuildStateIdOther cfg file o, powner := o.name,
    pentry := file }

/-- A state goes at the end of the list of its file and into `ht_state_id`. -/
def States.link (s : States) (st : FileState) : States :=
  { s with
    mem := update s.mem s.fresh st
    fresh := s.fresh + 1
    lists := update s.lists st.pentry (s.lists st.pentry ++ [s.fresh])
    stateIds := update s.stateIds st.stateidOther (some s.fresh) }

/-- `cache_inode_add_state`; `ok` is the result of the allocation. -/
def cacheInodeAddState (cfg : Config) (s : States) (file : ℕ) (data : StateData) (o : OpenOwner)
    (ok : Bool) : States × Option ℕ :=
  if !ok then (s, none)
  else if (s.lists file).any fun p => cacheInodeStateConflict (s.mem p).data data then (s, none)
  else (s.link (newState cfg file data o), some s.fresh)

def cacheInodeGetState (s : States) (other : StateidOther) : Option ℕ := s.stateIds other

def States.unlink (s : States) (p : ℕ) : States :=
  { s with lists :=
      update s.lists (s.mem p).pentry ((s.lists (s.mem p).pentry).erase p) }

def nfs4StateDel (s : States) (other : StateidOther) : States :=
  { s with stateIds := update s.stateIds other none }

def cacheInodeDelStateByKey (s : States) (other : StateidOther) : States × Bool :=
  match s.stateIds other with
  | none => (s, false)
  | some p =>
    let s := s.unlink p
    if (s.mem p).stateidOther = other then (nfs4StateDel s other, true) else (s, true)

def cacheInodeDelState (s : States) (p : ℕ) : States × Bool :=
  match s.stateIds (s.mem p).stateidOther with
  | none => (s, false)
  | some _ => (nfs4StateDel (s.unlink p) (s.mem p).stateidOther, true)

theorem cacheInodeStateConflict_eq_false (pstate candidate : StateData) :
    cacheInodeStateConflict pstate candidate = false := by
  cases candidate with
  | share c => exact Bool.and_false _
  | lock l => rfl

theorem cacheInodeAddState_eq (cfg : Config) (s : States) (file : ℕ) (data : StateData)
    (o : OpenOwner) (ok : Bool) :
    cacheInodeAddState cfg s file data o ok =
      if ok then (s.link (newState cfg file data o), some s.fresh) else (s, none) := by
  have hany : ((s.lists file).any fun p => cacheInodeStateConflict (s.mem p).data data) =
      false := by
    simp [cacheInodeStateConflict_eq_false]
  cases ok with
  | false => rfl
  | true => simp [cacheInodeAddState, hany]

/-! ## The view of the operations

Most of what an operation does besides adding and deleting states (sequence ids, owners,
files that are created) does not show in the states. -/

/-- The states without sequence ids, and the ways to them. -/
structure View where
  info : ℕ → StateInfo
  /-- the next address to allocate -/
  fresh : ℕ
  lists : ℕ → List ℕ
  /-- `ht_state_id` -/
  stateIds : StateidOther → Option ℕ

def States.info (s : States) (p : ℕ) : StateInfo := (s.mem p).toStateInfo

def States.view (s : States) : View := ⟨s.info, s.fresh, s.lists, s.stateIds⟩

namespace View

def link (v : View) (st : StateInfo) : View where
  info := update v.info v.fresh st
  fresh := v.fresh + 1
  lists := update v.lists st.pentry (v.lists st.pentry ++ [v.fresh])
  stateIds := update v.stateIds st.stateidOther (some v.fresh)

def delete (v : View) (p : ℕ) : View where
  info := v.info
  fresh := v.fresh
  lists := update v.lists (v.info p).pentry ((v.lists (v.info p).pentry).erase p)
  stateIds := update v.stateIds (v.info p).stateidOther none

def setData (v : View) (p : ℕ) (d : StateData) : View :=
  { v with info := update v.info p { v.info p with data := d } }

variable {v : View} {st : StateInfo} {p q f : ℕ}

theorem info_link_fresh : (v.link st).info v.fresh = st := update_self ..

theorem info_link (hq : q < v.fresh) : (v.link st).info q = v.info q :=
  update_of_ne (Nat.ne_of_lt hq) _ _

theorem stateIds_link_self : (v.link st).stateIds st.stateidOther = some v.fresh :=
  update_self ..

theorem stateIds_link_of_ne {k : StateidOther} (hk : k ≠ st.stateidOther) :
    (v.link st).stateIds k = v.stateIds k :=
  update_of_ne hk _ _

theorem mem_lists_link : q ∈ (v.link st).lists f ↔
    q ∈ v.lists f ∨ (f = st.pentry ∧ q = v.fresh) := by
  by_cases hf : f = st.pentry
  · subst hf
    simp [link]
  · simp [link, hf]

theorem mem_lists_delete (hnodup : (v.lists (v.info p).pentry).Nodup) :
    q ∈ (v.delete p).lists f ↔ q ∈ v.lists f ∧ (f = (v.info p).pentry → q ≠ p) := by
  by_cases hf : f = (v.info p).pentry
  · subst hf
    simp only [delete, update_self, hnodup.mem_erase_iff, forall_const]
    exact and_comm
  · simp [delete, hf]

end View

variable {s : States} {p : ℕ} {st : FileState}

theorem view_set (h : st.toStateInfo = s.info p) : (s.set p st).view = s.view := by
  have hinfo : (s.set p st).info = s.info := by
    funext q
    by_cases hq : q = p
    · subst hq
      simp only [States.info, States.set, update_self]
      exact h
    · simp only [States.info, States.set, update_of_ne hq]
  simp only [States.view, hinfo]
  rfl

theorem view_setData {d : StateData} :
    (s.set p { s.mem p with data := d }).view = s.view.setData p d := by
  have hinfo : (s.set p { s.mem p with data := d }).info = (s.view.setData p d).info := by
    funext q
    by_cases hq : q = p
    · subst hq
      simp [States.info, States.set, States.view, View.setData]
    · simp [States.info, States.set, States.view, View.setData, hq]
  simp only [States.view, hinfo]
  rfl

theorem view_link : (s.link st).view = s.view.link st.toStateInfo := by
  have hinfo : (s.link st).info = (s.view.link st.toStateInfo).info := by
    funext q
    by_cases hq : q = s.fresh
    · subst hq
      simp [States.info, States.link, States.view, View.link]
    · simp [States.info, States.link, States.view, View.link, hq]
  simp only [States.view, hinfo]
  rfl

theorem view_delete :
    (nfs4StateDel (s.unlink p) (s.mem p).stateidOther).view = s.view.delete p := rfl

@[simp] theorem view_bumpOwner {name : OwnerName} {n : UInt32} :
    (s.bumpOwner name n).view = s.view := by
  rw [States.bumpOwner]
  split <;> rfl

/-! ## Well-formed tables -/

/-- Every listed state is where it belongs, and a stateid leads to a listed state that
has it. -/
structure View.WellFormed (v : View) : Prop where
  /-- states are at allocated addresses -/
  below : ∀ f, ∀ p ∈ v.lists f, p < v.fresh
  /-- a state is on the list of its file -/
  pentry : ∀ f, ∀ p ∈ v.lists f, (v.info p).pentry = f
  nodup : ∀ f, (v.lists f).Nodup
  /-- a stateid leads to a listed state -/
  listed : ∀ k p, v.stateIds k = some p → p ∈ v.lists (v.info p).pentry
  key : ∀ k p, v.stateIds k = some p → (v.info p).stateidOther = k

def View.Live (v : View) (p : ℕ) : Prop := p ∈ v.lists (v.info p).pentry

instance (v : View) (p : ℕ) : Decidable (v.Live p) := inferInstanceAs (Decidable (_ ∈ _))

namespace View.WellFormed

variable {v : View} {st : StateInfo} {p q f : ℕ} {d : StateData}

theorem init (present : ℕ → Bool) : (States.init present).view.WellFormed := by
  refine ⟨?_, ?_, ?_, ?_, ?_⟩
  · intro f p hp
    cases hp
  · intro f p hp
    cases hp
  · intro f
    exact List.nodup_nil
  · intro k p hp
    cases hp
  · intro k p hp
    cases hp

theorem live_lt (h : v.WellFormed) (hp : v.Live p) : p < v.fresh := h.below _ p hp

theorem link (h : v.WellFormed) : (v.link st).WellFormed := by
  refine ⟨?_, ?_, ?_, ?_, ?_⟩
  · intro g q hq
    rcases mem_lists_link.mp hq with hq | ⟨-, rfl⟩
    · exact Nat.lt_succ_of_lt (h.below g q hq)
    · exact Nat.lt_succ_self _
  · intro g q hq
    rcases mem_lists_link.mp hq with hq | ⟨rfl, rfl⟩
    · rw [info_link (h.below g q hq)]
      exact h.pentry g q hq
    · rw [info_link_fresh]
  · intro g
    by_cases hg : g = st.pentry
    · subst hg
      simp only [View.link, update_self, List.nodup_append]
      refine ⟨h.nodup _, List.nodup_singleton _, ?_⟩
      intro a ha b hb hab
      rw [List.mem_singleton.mp hb] at hab
      exact Nat.ne_of_lt (h.below _ a ha) hab
    · simp only [View.link, update_of_ne hg]
      exact h.nodup g
  · intro k q hq
    by_cases hk : k = st.stateidOther
    · subst hk
      obtain rfl : v.fresh = q := by simpa [View.link] using hq
      rw [mem_lists_link, info_link_fresh]
      exact .inr ⟨rfl, rfl⟩
    · have hq' : v.stateIds k = some q := by simpa [View.link, hk] using hq
      have hlive := h.listed k q hq'
      rw [mem_lists_link, info_link (h.below _ q hlive)]
      exact .inl hlive
  · intro k q hq
    by_cases hk : k = st.stateidOther
    · subst hk
      obtain rfl : v.fresh = q := by simpa [View.link] using hq
      rw [info_link_fresh]
    · have hq' : v.stateIds k = some q := by simpa [View.link, hk] using hq
      rw [info_link (h.below _ q (h.listed k q hq'))]
      exact h.key k q hq'

theorem delete (h : v.WellFormed) : (v.delete p).WellFormed := by
  have hmem : ∀ {g q}, q ∈ (v.delete p).lists g ↔
      q ∈ v.lists g ∧ (g = (v.info p).pentry → q ≠ p) := mem_lists_delete (h.nodup _)
  have hids : ∀ {k q}, (v.delete p).stateIds k = some q → v.stateIds k = some q ∧ q ≠ p := by
    intro k q hq
    by_cases hk : k = (v.info p).stateidOther
    · subst hk
      simp [View.delete] at hq
    have hq' : v.stateIds k = some q := by simpa [View.delete, hk] using hq
    refine ⟨hq', ?_⟩
    rintro rfl
    exact hk (h.key k q hq').symm
  refine ⟨?_, ?_, ?_, ?_, ?_⟩
  · intro g q hq
    exact h.below g q (hmem.mp hq).1
  · intro g q hq
    exact h.pentry g q (hmem.mp hq).1
  · intro g
    by_cases hg : g = (v.info p).pentry
    · subst hg
      simp only [View.delete, update_self]
      exact (h.nodup _).erase p
    · simp only [View.delete, update_of_ne hg]
      exact h.nodup g
  · intro k q hq
    obtain ⟨hq', hne⟩ := hids hq
    exact hmem.mpr ⟨h.listed k q hq', fun _ => hne⟩
  · intro k q hq
    exact h.key k q (hids hq).1

theorem setData (h : v.WellFormed) : (v.setData p d).WellFormed := by
  have hpentry : ∀ q, ((v.setData p d).info q).pentry = (v.info q).pentry := by
    intro q
    by_cases hq : q = p
    · subst hq
      simp [View.setData]
    · simp [View.setData, hq]
  have hkey : ∀ q, ((v.setData p d).info q).stateidOther = (v.info q).stateidOther := by
    intro q
    by_cases hq : q = p
    · subst hq
      simp [View.setData]
    · simp [View.setData, hq]
  refine ⟨h.below, ?_, h.nodup, ?_, ?_⟩
  · intro g q hq
    rw [hpentry]
    exact h.pentry g q hq
  · intro k q hq
    rw [hpentry]
    exact h.listed k q hq
  · intro k q hq
    rw [hkey]
    exact h.key k q hq

end View.WellFormed

/-- What else holds in a reachable state: an owner is found under its name, the owner of a
state is known and the stateid has its number, and a file that does not exist has no states. -/
structure States.WellFormed (s : States) : Prop where
  /-- the states and the ways to them -/
  view : s.view.WellFormed
  /-- an owner is found under its name -/
  name : ∀ n o, s.owners n = some o → o.name = n
  /-- the stateid of a state has 16 bits of the number of its owner -/
  numbered : ∀ f, ∀ p ∈ s.lists f, ∃ o, s.owners (s.info p).powner = some o ∧
    (s.info p).stateidOther.owner = o.counter.toUInt16
  /-- a file that does not exist has no states -/
  absent : ∀ f, s.present f = false → s.lists f = []

theorem States.WellFormed.known {s : States} {f p : ℕ} (h : s.WellFormed) (hp : p ∈ s.lists f) :
    s.owners (s.info p).powner ≠ none := by
  obtain ⟨o, ho, -⟩ := h.numbered f p hp
  rw [ho]
  exact Option.some_ne_none o

theorem wellFormed_init (present : ℕ → Bool) : (States.init present).WellFormed := by
  refine ⟨View.WellFormed.init present, ?_, ?_, fun _ _ => rfl⟩
  · intro n o ho
    cases ho
  · intro f p hp
    cases hp

/-- A step that does not show in the states. -/
structure Keeps (s t : States) : Prop where
  view : t.view = s.view
  wellFormed : s.WellFormed → t.WellFormed

namespace Keeps

variable {s t u : States}

theorem refl (s : States) : Keeps s s := ⟨rfl, id⟩

theorem trans (h : Keeps s t) (h' : Keeps t u) : Keeps s u :=
  ⟨h'.view.trans h.view, h'.wellFormed ∘ h.wellFormed⟩

theorem of_owners (hview : t.view = s.view)
    (hpresent : ∀ f, t.present f = false → s.present f = false)
    (hname : (∀ n o, s.owners n = some o → o.name = n) → ∀ n o, t.owners n = some o → o.name = n)
    (howners : (∀ n o, s.owners n = some o → o.name = n) → ∀ n o, s.owners n = some o →
      ∃ o', t.owners n = some o' ∧ o'.counter = o.counter) : Keeps s t := by
  have hlists : t.lists = s.lists := congrArg View.lists hview
  have hinfo : t.info = s.info := congrArg View.info hview
  refine ⟨hview, fun h => ⟨?_, hname h.name, fun f p hp => ?_, fun f hf => ?_⟩⟩
  · rw [hview]
    exact h.view
  · rw [hlists] at hp
    rw [hinfo]
    obtain ⟨o, ho, hnumber⟩ := h.numbered f p hp
    obtain ⟨o', ho', hcounter⟩ := howners h.name _ o ho
    exact ⟨o', ho', by rw [hnumber, hcounter]⟩
  · rw [hlists]
    exact h.absent f (hpresent f hf)

/-- An owner keeps its number when it is written again. -/
theorem setOwner {s : States} {o : OpenOwner}
    (hcounter : (∀ n o, s.owners n = some o → o.name = n) →
      ∀ o', s.owners o.name = some o' → o.counter = o'.counter) : Keeps s (s.setOwner o) := by
  refine of_owners rfl (fun _ hf => hf) (fun h n o' ho' => ?_) (fun h n o' ho' => ?_)
  · by_cases heq : n = o.name
    · subst heq
      simp only [States.setOwner, update_self, Option.some.injEq] at ho'
      rw [← ho']
    · simp only [States.setOwner, update_of_ne heq] at ho'
      exact h n o' ho'
  · by_cases heq : n = o.name
    · subst heq
      exact ⟨o, update_self .., hcounter h o' ho'⟩
    · exact ⟨o', (update_of_ne heq ..).trans ho', rfl⟩

theorem bumpOwner (s : States) (name : OwnerName) (n : UInt32) : Keeps s (s.bumpOwner name n) := by
  rw [States.bumpOwner]
  split
  next o ho =>
    refine setOwner fun h o' ho' => ?_
    have hname : o.name = name := h name o ho
    obtain rfl : o = o' := Option.some.inj (ho.symm.trans (hname ▸ ho'))
    rfl
  · exact refl s

theorem set {p : ℕ} {st : FileState} (h : st.toStateInfo = s.info p) : Keeps s (s.set p st) :=
  of_owners (view_set h) (fun _ hf => hf) (fun h => h) (fun _ _ o ho => ⟨o, ho, rfl⟩)

theorem nfsOpenOwnerSet (s : States) (o : OpenOwner) : Keeps s (nfsOpenOwnerSet s o).1 := by
  simp only [Nfs4.nfsOpenOwnerSet]
  have hcount : Keeps s { s with ownerCounter := s.ownerCounter + 1 } :=
    of_owners rfl (fun _ hf => hf) (fun h => h) (fun _ _ o ho => ⟨o, ho, rfl⟩)
  split
  · exact hcount
  next hnone =>
    -- a new owner is written like any other, with its number
    refine hcount.trans
      (setOwner (o := { o with counter := s.ownerCounter + 1 }) fun _ o' ho' => ?_)
    cases hnone.symm.trans ho'

theorem present (s : States) (f : ℕ) : Keeps s { s with present := update s.present f true } := by
  refine of_owners rfl (fun g hg => ?_) (fun h => h) (fun _ _ o ho => ⟨o, ho, rfl⟩)
  by_cases hgf : g = f
  · subst hgf
    simp at hg
  · simpa only [update_of_ne hgf] using hg

end Keeps

theorem States.WellFormed.link (h : s.WellFormed) (hst : s.present st.pentry = true)
    (howner : ∃ o, s.owners st.powner = some o ∧ st.stateidOther.owner = o.counter.toUInt16) :
    (s.link st).WellFormed := by
  refine ⟨?_, h.name, fun g q hq => ?_, fun g hg => ?_⟩
  · rw [view_link]
    exact h.view.link
  · have hq' : q ∈ (s.view.link st.toStateInfo).lists g := view_link (s := s) ▸ hq
    have hinfo : (s.link st).info q = (s.view.link st.toStateInfo).info q :=
      congrFun (congrArg View.info view_link) q
    rw [hinfo]
    rcases View.mem_lists_link.mp hq' with hq | ⟨-, rfl⟩
    · rw [View.info_link (h.view.below g q hq)]
      exact h.numbered g q hq
    · rw [View.info_link_fresh]
      exact howner
  · have hne : g ≠ st.pentry := by
      rintro rfl
      exact absurd (hst.symm.trans hg) (by simp)
    simp only [States.link, update_of_ne hne]
    exact h.absent g hg

theorem States.WellFormed.delete (h : s.WellFormed) :
    (nfs4StateDel (s.unlink p) (s.mem p).stateidOther).WellFormed := by
  have hmem : ∀ g q, q ∈ (s.view.delete p).lists g → q ∈ s.lists g :=
    fun g q hq => ((View.mem_lists_delete (v := s.view) (h.view.nodup _)).mp hq).1
  refine ⟨h.view.delete, h.name, fun g q hq => h.numbered g q (hmem g q hq), fun g hg => ?_⟩
  have hnil : s.lists g = [] := h.absent g hg
  refine List.eq_nil_iff_forall_not_mem.mpr fun q hq => ?_
  have hq := hmem g q hq
  rw [hnil] at hq
  cases hq

theorem States.WellFormed.setData {d : StateData} (h : s.WellFormed) :
    (s.set p { s.mem p with data := d }).WellFormed := by
  have hinfo : ∀ q, ((s.set p { s.mem p with data := d }).info q).powner = (s.info q).powner ∧
      ((s.set p { s.mem p with data := d }).info q).stateidOther = (s.info q).stateidOther := by
    intro q
    by_cases hq : q = p
    · subst hq
      simp [States.info, States.set]
    · simp [States.info, States.set, hq]
  refine ⟨?_, h.name, fun g q hq => ?_, h.absent⟩
  · rw [view_setData]
    exact h.view.setData
  · rw [(hinfo q).1, (hinfo q).2]
    exact h.numbered g q hq

end CloudNfs.Nfs4
