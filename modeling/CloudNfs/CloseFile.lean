import CloudNfs.Compound
import CloudNfs.FdCache
import CloudNfs.Nfs4Open

/-!
# CLOSE and the current file (`NFS_Protocols/nfs4_op_close.c`)

`nfs4_op_close` finds the state by its stateid, in the table that all files and all kinds of states
share, and deletes it from the list of its own file. The descriptor that it closes is that of the
current file. It looks neither at the file of the state, nor at the kind of the state, nor at the
other states of the current file, and when the descriptor cannot be closed the state is gone
already.

* `closesRight_iff` — exactly when it keeps the promise.
-/

namespace CloudNfs.Nfs4.Close

open FdCache (Client OpenFd Retained Time closeFd)

/-! ## Data -/

/-- `nfs4_Is_Fh_Empty`, `nfs4_Is_Fh_Invalid` and `nfs4_Is_Fh_Expired`. -/
inductive FhError where
  | noFilehandle
  | badHandle
  | fhExpired

/-- What `compound_data_t` says about the current file. -/
structure CurrentFile where
  /-- what is wrong with `currentFH` -/
  fh : Option FhError
  entry : Option ℕ

/-- The states of all files, the types of files, and the descriptors. -/
structure Server where
  states : States
  type : ℕ → Compound.FileType
  fds : FdCache.State

structure Env where
  /-- `nfs_client_id_get` knows the client of the state -/
  clientKnown : Bool
  pclient : Client
  now : Time
  /-- an error of `FSAL_close`, other than `ERR_FSAL_NOT_OPENED` -/
  fsalClose : Option Failure

/-! ## The code -/

/-- A status by its number, for those that only the checks of the current file answer. -/
def failure (code : ℕ) : Failure := ⟨.other code, nofun, nofun, nofun⟩

def FhError.failure : FhError → Failure
  | .noFilehandle => Close.failure 10020
  | .badHandle => Close.failure 10001
  | .fhExpired => Close.failure 10014

def currentFile (s : Server) (cur : CurrentFile) : Except Failure ℕ :=
  match cur.fh with
  | some e => .error e.failure
  | none =>
    match cur.entry with
    | none => .error ⟨.serverfault, nofun, nofun, nofun⟩
    | some file =>
      match s.type file with
      -- `NFS4ERR_ISDIR`
      | .dirBeginning => .error (failure 21)
      | .dirContinue => .error (failure 21)
      | .regularFile => .ok file
      | _ => .error ⟨.inval, nofun, nofun, nofun⟩

/-- `cache_inode_close` calls `FSAL_close`. -/
def Destroys (env : Env) (f : OpenFd) : Prop :=
  env.pclient.useCache = false ∨ ¬ Retained env.pclient env.now f ∨
    f.fileno > env.pclient.maxFdPerThread

instance (env : Env) (f : OpenFd) : Decidable (Destroys env f) :=
  inferInstanceAs (Decidable (_ ∨ _ ∨ _))

/-- `cache_inode_close` of a regular file, with its error. The number of the descriptor is reset in
any case. -/
def cacheInodeClose (env : Env) (fds : FdCache.State) (file : ℕ) :
    FdCache.State × Option Failure :=
  if Destroys env (fds.file file) then
    match env.fsalClose with
    | none => (closeFd fds file, none)
    | some e =>
      (fds.setFile file { fds.file file with
        fileno := 0
        lastOp := 0 }, some e)
  else (fds, none)

def nfs4OpClose (cfg : Config) (s : Server) (cur : CurrentFile) (other : StateidOther) (env : Env) :
    Server × OpRes :=
  match currentFile s cur with
  | .error e => (s, .fail e.1)
  | .ok file =>
    if nfs4CheckStateid cfg s.states other env.clientKnown ≠ .ok then
      (s, .fail (nfs4CheckStateid cfg s.states other env.clientKnown))
    else
      match closeState s.states other with
      | .error e => (s, .fail e)
      | .ok p =>
        let seqid := (s.states.mem p).seqid + 1
        let states := s.states.bumpOwner (s.states.mem p).powner 1
        let (states, deleted) := cacheInodeDelStateByKey states other
        if !deleted then ({ s with states := states }, .fail .noent)
        else
          let (fds, closed) := cacheInodeClose env s.fds file
          let s :=
            { s with
              states := states
              fds := fds }
          match closed with
          | some e => (s, .fail e.1)
          | none => (s, ⟨.ok, some ⟨seqid, other⟩⟩)

/-! ## The property -/

def IsShare (s : States) (p : ℕ) : Prop := ∃ share, (s.mem p).data = .share share

instance (s : States) (p : ℕ) : Decidable (IsShare s p) :=
  match h : (s.mem p).data with
  | .share share => isTrue ⟨share, h⟩
  | .lock _ => isFalse fun ⟨_, hshare⟩ => StateData.noConfusion (h.symm.trans hshare)

/-- The descriptor of a file was open, and is closed. -/
def ClosesFd (s t : Server) (file : ℕ) : Prop :=
  (s.fds.file file).fileno ≠ 0 ∧ (t.fds.file file).fileno = 0

/-- CLOSE has ended one open of the current file. -/
structure EndsOne (s t : Server) (cur : CurrentFile) (other : StateidOther) (file p : ℕ) :
    Prop where
  entry : cur.entry = some file
  found : s.states.stateIds other = some p
  /-- which is live, and one of the current file -/
  live : p ∈ s.states.lists file
  share : IsShare s.states p
  mem : ∀ q, q ≠ p → t.states.mem q = s.states.mem q
  /-- this one is on no list any more -/
  lists : ∀ f, t.states.lists f = (s.states.lists f).erase p
  stateIds : t.states.stateIds = Function.update s.states.stateIds other none
  /-- the descriptor is closed with the last open -/
  descriptor : ClosesFd s t file → ∀ q ∈ t.states.lists file, ¬ IsShare t.states q

structure Unchanged (s t : Server) : Prop where
  mem : t.states.mem = s.states.mem
  lists : t.states.lists = s.states.lists
  stateIds : t.states.stateIds = s.states.stateIds
  fds : t.fds = s.fds

structure ClosesRight (s : Server) (cur : CurrentFile) (other : StateidOther)
    (r : Server × OpRes) : Prop where
  ok : r.2.status = .ok → ∃ file p, EndsOne s r.1 cur other file p
  failed : r.2.status ≠ .ok → Unchanged s r.1

/-- Nothing stops CLOSE before it deletes the state. -/
structure Deletes (cfg : Config) (s : Server) (cur : CurrentFile) (other : StateidOther) (env : Env)
    (file p : ℕ) : Prop where
  /-- the current file is a regular file -/
  current : currentFile s cur = .ok file
  stateid : nfs4CheckStateid cfg s.states other env.clientKnown = .ok
  found : s.states.stateIds other = some p
  lockheld : (s.states.mem p).data.lockheldWord = 0

/-- The state is an open of the current file, and the descriptor stays, or it can be closed and no
other open needs it. -/
structure Harmless (s : Server) (env : Env) (file p : ℕ) : Prop where
  pentry : (s.states.mem p).pentry = file
  share : IsShare s.states p
  /-- `FSAL_close` succeeds, if it is called -/
  succeeds : Destroys env (s.fds.file file) → env.fsalClose = none
  /-- and it is called for the last open, or when nothing was open -/
  last : Destroys env (s.fds.file file) → (s.fds.file file).fileno ≠ 0 →
    ∀ q ∈ s.states.lists file, q ≠ p → ¬ IsShare s.states q

/-! ## The states after CLOSE -/

section

variable {cfg : Config} {s : Server} {cur : CurrentFile} {other : StateidOther} {env : Env}
  {file p : ℕ}

def closeEnv (s : Server) (cur : CurrentFile) (env : Env) : CloseEnv :=
  match currentFile s cur with
  | .error e => ⟨some e, env.clientKnown, none⟩
  | .ok file => ⟨none, env.clientKnown, (cacheInodeClose env s.fds file).2⟩

/-- **The states after CLOSE**, and its answer, are those of the model of the states alone, which is
given what comes of the current file and of its descriptor. -/
theorem nfs4OpClose_states :
    ((nfs4OpClose cfg s cur other env).1.states, (nfs4OpClose cfg s cur other env).2) =
      Nfs4.nfs4OpClose cfg s.states other (closeEnv s cur env) := by
  rw [nfs4OpClose, Nfs4.nfs4OpClose, closeEnv]
  split
  next => rfl
  rename_i file _
  dsimp only
  split
  next => rfl
  cases closeState s.states other with
  | error e => rfl
  | ok p =>
    dsimp only
    split
    next => rfl
    next => cases (cacheInodeClose env s.fds file).2 <;> rfl

theorem currentFile_ok (h : currentFile s cur = .ok file) : cur.entry = some file := by
  rw [currentFile] at h
  split at h
  · cases h
  split at h
  · cases h
  rename_i f hf
  rw [hf]
  split at h <;> cases h
  rfl

theorem nfs4OpClose_stops (hstop : ∀ file p, ¬ Deletes cfg s cur other env file p) :
    (nfs4OpClose cfg s cur other env).1 = s ∧ (nfs4OpClose cfg s cur other env).2.status ≠ .ok := by
  rw [nfs4OpClose]
  split
  next e _ => exact ⟨rfl, e.2.1⟩
  rename_i file hfile
  split
  next hcheck => exact ⟨rfl, hcheck⟩
  rename_i hcheck
  split
  next e he => exact ⟨rfl, (closeState_error he).1⟩
  next p hp =>
    obtain ⟨hfound, hheld⟩ := closeState_ok hp
    exact absurd ⟨hfile, not_not.mp hcheck, hfound, hheld⟩ (hstop file p)

theorem nfs4OpClose_deletes (hs : s.states.WellFormed) (h : Deletes cfg s cur other env file p) :
    ∃ states, states.mem = s.states.mem ∧ (∀ f, states.lists f = (s.states.lists f).erase p) ∧
      states.stateIds = Function.update s.states.stateIds other none ∧
      (nfs4OpClose cfg s cur other env).1 =
        { s with
          states := states
          fds := (cacheInodeClose env s.fds file).1 } ∧
      ((nfs4OpClose cfg s cur other env).2.status = .ok ↔
        (cacheInodeClose env s.fds file).2 = none) := by
  have hmem : (s.states.bumpOwner (s.states.mem p).powner 1).mem = s.states.mem := by
    rw [States.bumpOwner]
    split <;> rfl
  have hview : (s.states.bumpOwner (s.states.mem p).powner 1).view = s.states.view :=
    view_bumpOwner
  have hlists := congrArg View.lists hview
  have hids := congrArg View.stateIds hview
  have hwf := (Keeps.bumpOwner s.states (s.states.mem p).powner 1).wellFormed hs
  have hdelete := cacheInodeDelStateByKey_eq hwf.view ((congrFun hids other).trans h.found)
  have hkey : (s.states.mem p).stateidOther = other := hs.view.key other p h.found
  have hclose : closeState s.states other = .ok p := by
    rw [closeState, cacheInodeGetState, h.found]
    dsimp only
    rw [h.lockheld, if_neg (by decide)]
  refine ⟨nfs4StateDel ((s.states.bumpOwner (s.states.mem p).powner 1).unlink p) other, ?_⟩
  refine ⟨hmem, fun f => ?_, ?_, ?_⟩
  · by_cases hf : f = (s.states.mem p).pentry
    · subst hf
      have hupdate : ∀ l : ℕ → List ℕ, Function.update l (s.states.mem p).pentry
          ((l (s.states.mem p).pentry).erase p) (s.states.mem p).pentry =
            (l (s.states.mem p).pentry).erase p := fun l => Function.update_self ..
      rw [nfs4StateDel, States.unlink, hmem]
      exact (hupdate _).trans (congrArg (fun l => (l (s.states.mem p).pentry).erase p) hlists)
    · have hnot : p ∉ s.states.lists f := fun hp => hf (hs.view.pentry f p hp).symm
      rw [List.erase_of_not_mem hnot, nfs4StateDel, States.unlink, hmem]
      exact (Function.update_of_ne hf _ _).trans (congrFun hlists f)
  · exact congrArg (fun ids => Function.update ids other none) hids
  · rw [nfs4OpClose, h.current]
    dsimp only
    rw [if_neg (not_not.mpr h.stateid), hclose]
    dsimp only
    rw [hdelete, hmem, hkey]
    cases (cacheInodeClose env s.fds file).2 with
    | none => exact ⟨rfl, iff_of_true rfl rfl⟩
    | some e => exact ⟨rfl, iff_of_false e.2.1 (by rintro ⟨⟩)⟩

theorem cacheInodeClose_eq_none :
    (cacheInodeClose env s.fds file).2 = none ↔
      (Destroys env (s.fds.file file) → env.fsalClose = none) := by
  rw [cacheInodeClose]
  split
  next hdestroys =>
    cases env.fsalClose with
    | none => exact iff_of_true rfl fun _ => rfl
    | some e => exact iff_of_false nofun fun h => nomatch h hdestroys
  next hdestroys => exact iff_of_true rfl fun h => absurd h hdestroys

theorem fileno_cacheInodeClose (hnone : (cacheInodeClose env s.fds file).2 = none) :
    ((cacheInodeClose env s.fds file).1.file file).fileno = 0 ↔
      Destroys env (s.fds.file file) ∨ (s.fds.file file).fileno = 0 := by
  have hsucceeds := cacheInodeClose_eq_none.mp hnone
  rw [cacheInodeClose]
  split
  next hdestroys =>
    rw [hsucceeds hdestroys]
    refine iff_of_true ?_ (.inl hdestroys)
    simp [closeFd, FdCache.State.setFile]
  next hdestroys => exact (or_iff_right hdestroys).symm

/-- **CLOSE ends exactly one open**, and a CLOSE that fails changes nothing, exactly when the state
that it deletes is an open of the current file, the descriptor can be closed if it has to be, and no
other open of the file needs it then. -/
theorem closesRight_iff (cfg : Config) (s : Server) (cur : CurrentFile) (other : StateidOther)
    (env : Env) (hs : s.states.WellFormed) :
    ClosesRight s cur other (nfs4OpClose cfg s cur other env) ↔
      ∀ file p, Deletes cfg s cur other env file p → Harmless s env file p := by
  constructor
  · intro hright file p hdeletes
    obtain ⟨states, hmem, hlists, hids, heq, hstatus⟩ := nfs4OpClose_deletes hs hdeletes
    have hlive : p ∈ s.states.lists (s.states.mem p).pentry := hs.view.listed other p hdeletes.found
    -- a failure would not leave the list of the state alone
    have hok : (nfs4OpClose cfg s cur other env).2.status = .ok := by
      by_contra hfail
      have hsame := (hright.failed hfail).stateIds
      rw [heq] at hsame
      have hnone := congrFun (hids.symm.trans hsame) other
      rw [Function.update_self, hdeletes.found] at hnone
      cases hnone
    have hclosed := hstatus.mp hok
    obtain ⟨file', p', hends⟩ := hright.ok hok
    obtain rfl : p' = p := Option.some.inj (hends.found.symm.trans hdeletes.found)
    obtain rfl : file' = file :=
      Option.some.inj (hends.entry.symm.trans (currentFile_ok hdeletes.current))
    refine ⟨hs.view.pentry _ _ hends.live, hends.share, cacheInodeClose_eq_none.mp hclosed, ?_⟩
    intro hdestroys hopen q hq hne hshare
    have hfileno := (fileno_cacheInodeClose hclosed).mpr (Or.inl hdestroys)
    have hmem' : states.mem q = s.states.mem q := congrFun hmem q
    have hlast := hends.descriptor
    rw [heq] at hlast
    refine hlast ⟨hopen, hfileno⟩ q ?_ ?_
    · rw [hlists]
      exact (List.mem_erase_of_ne hne).mpr hq
    · rw [IsShare, hmem']
      exact hshare
  · intro hharmless
    by_cases hstop : ∀ file p, ¬ Deletes cfg s cur other env file p
    · obtain ⟨hsame, hfail⟩ := nfs4OpClose_stops hstop
      refine ⟨fun hok => absurd hok hfail, fun _ => ?_⟩
      rw [hsame]
      exact ⟨rfl, rfl, rfl, rfl⟩
    obtain ⟨file, p, hdeletes⟩ : ∃ file p, Deletes cfg s cur other env file p := by
      simpa only [not_forall, not_not] using hstop
    have hharm := hharmless file p hdeletes
    obtain ⟨states, hmem, hlists, hids, heq, hstatus⟩ := nfs4OpClose_deletes hs hdeletes
    have hclosed := cacheInodeClose_eq_none.mpr hharm.succeeds
    refine ⟨fun _ => ⟨file, p, ?_⟩, fun hfail => absurd (hstatus.mpr hclosed) hfail⟩
    rw [heq]
    have hlive := hs.view.listed other p hdeletes.found
    have hpentry : (s.states.view.info p).pentry = file := hharm.pentry
    refine ⟨currentFile_ok hdeletes.current, hdeletes.found, hpentry ▸ hlive, hharm.share,
      fun q _ => congrFun hmem q, hlists, hids, ?_⟩
    rintro ⟨hopen, hzero⟩ q hq hshare
    have hdestroys := ((fileno_cacheInodeClose hclosed).mp hzero).resolve_right hopen
    have hq' : q ∈ (s.states.lists file).erase p := (hlists file) ▸ hq
    obtain ⟨hne, hq'⟩ := (hs.view.nodup file).mem_erase_iff.mp hq'
    refine hharm.last hdestroys hopen q hq' hne ?_
    rw [IsShare] at hshare ⊢
    rwa [← congrFun hmem q]

end

/-! ## One opener and two -/

/-- One owner has file 0 open for reading. -/
def oneOpen : States :=
  (opOpen config0 (.init fun _ => true) (openFile owner1 .noCreate 1 0) .clear).1

/-- Two owners have it open for reading. -/
def twoOpens : States := (opOpen config0 oneOpen (openFile owner2 .noCreate 1 0) .clear).1

/-- All files are regular files, and file 0 has a descriptor. -/
def serverOf (states : States) : Server where
  states := states
  type := fun _ => .regularFile
  fds := ⟨fun f => if f = 0 then ⟨5, 5, 1, 90⟩ else ⟨0, 0, 0, 0⟩,
    fun d => if d = 5 then some 0 else none, false, fun _ => 0⟩

/-- Descriptors are not kept, and nothing fails. -/
def closeAlways : Env := ⟨true, FdCache.uncached, FdCache.quietGc.start, none⟩

theorem wellFormed_oneOpen : oneOpen.WellFormed :=
  @wellFormed_of_openStep config0 _ _ (.opOpen (openFile owner1 .noCreate 1 0) .clear)
    (wellFormed_init fun _ => true) rfl

/-- The only open is closed. -/
theorem closesRight_oneOpen : ClosesRight (serverOf oneOpen) ⟨none, some 0⟩ ⟨0, 0, 1⟩
    (nfs4OpClose config0 (serverOf oneOpen) ⟨none, some 0⟩ ⟨0, 0, 1⟩ closeAlways) := by
  refine (closesRight_iff config0 (serverOf oneOpen) ⟨none, some 0⟩ ⟨0, 0, 1⟩ closeAlways
    wellFormed_oneOpen).mpr fun file p h => ?_
  obtain rfl : 0 = file := Except.ok.inj h.current
  obtain rfl : 0 = p := Option.some.inj h.found
  refine ⟨rfl, ⟨⟨[], 1, 0, 0⟩, rfl⟩, fun _ => rfl, fun _ _ q hq hne => ?_⟩
  have hlist : (serverOf oneOpen).states.lists 0 = [0] := by decide
  rw [hlist] at hq
  exact absurd (List.mem_singleton.mp hq) hne

/-- The first of two openers closes, and the descriptor of the other one is closed too. With another
current file the state is deleted all the same. -/
theorem twoOpens_not_closesRight :
    ¬ ClosesRight (serverOf twoOpens) ⟨none, some 0⟩ ⟨0, 0, 1⟩
        (nfs4OpClose config0 (serverOf twoOpens) ⟨none, some 0⟩ ⟨0, 0, 1⟩ closeAlways) ∧
      ¬ ClosesRight (serverOf twoOpens) ⟨none, some 1⟩ ⟨0, 0, 1⟩
        (nfs4OpClose config0 (serverOf twoOpens) ⟨none, some 1⟩ ⟨0, 0, 1⟩ closeAlways) := by
  constructor
  · intro hright
    obtain ⟨file, p, hends⟩ := hright.ok (by decide)
    obtain rfl : 0 = file := Option.some.inj hends.entry
    obtain rfl : 0 = p := Option.some.inj hends.found
    exact hends.descriptor ⟨by decide, by decide⟩ 1 (by decide) (by decide)
  · intro hright
    obtain ⟨file, p, hends⟩ := hright.ok (by decide)
    obtain rfl : 1 = file := Option.some.inj hends.entry
    obtain rfl : 0 = p := Option.some.inj hends.found
    exact absurd hends.live (by decide)

end CloudNfs.Nfs4.Close
