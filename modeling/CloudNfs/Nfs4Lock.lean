import CloudNfs.Nfs4Open

/-!
# LOCK and LOCKU of NFSv4.1 (`NFS_Protocols/nfs41_op_lock.c`, `nfs41_op_locku.c`)

The build with `_WITH_NFSV4_LOCKS`. LOCK has two branches:

* a **new lock owner** comes with the stateid of an open: after the scan of the states of the
  file (`lockScan`) its name goes into `ht_open_owner`, a lock state is added, and the open
  counts one more lock;
* an **existing lock owner** comes with the stateid of a lock: after the same scan the
  request is answered `NFS4_OK`, and *nothing is recorded*.

LOCKU deletes the state that the stateid leads to, whatever range is asked for, and
whatever kind of state it is.

`Records` and `Unlocks` say when a request changes the states, `LockOutcome` and
`LockuOutcome` what it does then. The last section has the operations of all kinds.
-/

namespace CloudNfs.Nfs4

/-! ## LOCK -/

/-- `locker4`. -/
inductive Locker where
  /-- `open_owner`: the stateid of an open, and the name of the new lock owner -/
  | openOwner (openStateid : StateidOther) (lockOwner : OwnerName)
  | lockOwner (lockStateid : Stateid4)
  deriving DecidableEq

/-- `LOCK4args`, for the file of the current filehandle. -/
structure LockArgs where
  file : ℕ
  /-- `READ_LT` and so on -/
  lockType : UInt32
  offset : UInt64
  /-- number of bytes, all ones for the rest of the file -/
  length : UInt64
  locker : Locker
  deriving DecidableEq

/-- What LOCK and LOCKU meet outside the states. -/
structure LockEnv where
  checks : Option Failure
  /-- the session has a client id, or `nfs_client_id_get` knows the client of the state -/
  clientKnown : Bool
  stateAlloc : Bool
  /-- the sequence id that the result holds when it is not set -/
  seqidWord : UInt32
  deriving DecidableEq

def LockEnv.clear : LockEnv :=
  { checks := none, clientKnown := true, stateAlloc := true, seqidWord := 0 }

/-- `LOCK4denied`: the lock that is in the way. -/
structure LockDenied where
  offset : UInt64
  length : UInt64
  lockType : UInt32
  ownerVal : List UInt8
  deriving DecidableEq

/-- `LOCK4res` and `LOCKU4res`. -/
structure LockRes where
  status : Nfsstat4
  lockStateid : Option Stateid4
  denied : Option LockDenied

def LockRes.fail (status : Nfsstat4) : LockRes := ⟨status, none, none⟩

def readLt : UInt32 := 1

def writeLt : UInt32 := 2

def writewLt : UInt32 := 4

/-- The length that means "until the end of file". -/
def allOnes : UInt64 := 0xffffffffffffffff

/-- The checks of a range. -/
def rangeAccepted (offset length : UInt64) : Bool :=
  decide (length ≠ 0) && (decide (length = allOnes) || decide (length ≤ allOnes - offset))

/-- The test for overlapping ranges: from `a` to `b` is held, from `a1` to `b1` is asked
for, and the ends may wrap. -/
def lockOverlap (offset length offset1 length1 : UInt64) : Bool :=
  let a := offset
  let b := offset + length
  let a1 := offset1
  let b1 := offset1 + length1
  if a ≤ a1 then decide (a1 < b) else decide (a < b1) && decide (b1 ≤ b)

/-- The owner of the request is that of the state, told by the string alone. A request
without a state of its own has no owner yet. -/
def sameLockOwner (existing : Option OwnerName) (powner : OwnerName) : Bool :=
  match existing with
  | some name => decide (name.ownerVal = powner.ownerVal)
  | none => false

/-- A lock state is in the way. -/
def lockInTheWay (args : LockArgs) (existing : Option OwnerName) (powner : OwnerName) (l : Lock) :
    Bool :=
  lockOverlap l.offset l.length args.offset args.length &&
    (decide (args.lockType ≠ readLt) || decide (l.lockType ≠ readLt)) &&
    !sameLockOwner existing powner

/-- A share state is in the way of a write lock: it denies writing without writing itself. -/
def shareInTheWay (args : LockArgs) (sh : Share) : Bool :=
  has sh.shareDeny shareWrite && !has sh.shareAccess shareWrite && decide (args.lockType = writeLt)

/-- The loop of LOCK over the states of the file: the answer if it ends there. -/
def lockScan (args : LockArgs) (existing : Option OwnerName) (mem : ℕ → FileState) :
    List ℕ → Option LockRes
  | [] => none
  | p :: rest =>
    match (mem p).data with
    | .lock l =>
      if lockInTheWay args existing (mem p).powner l then
        some ⟨.denied, none, some ⟨l.offset, l.length, l.lockType, (mem p).powner.ownerVal⟩⟩
      else lockScan args existing mem rest
    | .share sh =>
      if shareInTheWay args sh then some (.fail .openmode)
      else lockScan args existing mem rest

/-- The all-zero stateid. -/
def zeroStateid : Stateid4 := ⟨0, ⟨0, 0, 0⟩⟩

/-- A new lock owner. -/
def newLockOwner (s : States) (popen : ℕ) (lockOwner : OwnerName) : OpenOwner :=
  { name := lockOwner, confirmed := false, seqid := 0, counter := 0,
    relatedOwner := some (s.mem popen).powner }

/-- The lock that is recorded. -/
def candidateLock (args : LockArgs) (popen : ℕ) : StateData :=
  .lock { offset := args.offset, length := args.length, lockType := args.lockType,
          popenstate := popen }

/-- `pstate_open->state_data.share.lockheld += 1`. -/
def States.bumpLockheld (s : States) (popen : ℕ) : States :=
  match (s.mem popen).data with
  | .share sh =>
    s.set popen { s.mem popen with data := .share { sh with lockheld := sh.lockheld + 1 } }
  | .lock _ => s

/-- The end of LOCK for a new lock owner. -/
def lockNewOwner (cfg : Config) (s : States) (args : LockArgs) (env : LockEnv)
    (openStateid : StateidOther) (lockOwner : OwnerName) (popen : ℕ) : States × LockRes :=
  if nfs4CheckStateid cfg s openStateid env.clientKnown ≠ .ok then
    (s, .fail (nfs4CheckStateid cfg s openStateid env.clientKnown))
  else
    match (s.mem popen).data with
    | .lock _ => (s, .fail .badStateid)
    | .share _ =>
      if (s.mem popen).pentry ≠ args.file then (s, .fail .badStateid)
      else
        let o := newLockOwner s popen lockOwner
        let (s, known) := nfsOpenOwnerSet s o
        if !known then (s, .fail .serverfault)
        else
          let o := { o with counter := s.ownerCounter }
          match cacheInodeAddState cfg s args.file (candidateLock args popen) o env.stateAlloc with
          | (s, none) => (s, .fail .staleStateid)
          | (s, some p) =>
            (s.bumpLockheld popen, ⟨.ok, some ⟨0, (s.mem p).stateidOther⟩, none⟩)

/-- The end of LOCK for an existing lock owner. -/
def lockExistingOwner (s : States) (args : LockArgs) (env : LockEnv) (lockStateid : StateidOther) :
    States × LockRes :=
  match cacheInodeGetState s lockStateid with
  | none => (s, .fail .staleStateid)
  | some p =>
    match (s.mem p).data with
    | .share _ => (s, .fail .badStateid)
    | .lock _ =>
      if (s.mem p).pentry ≠ args.file then (s, .fail .badStateid)
      else (s, ⟨.ok, some ⟨env.seqidWord, (s.mem p).stateidOther⟩, none⟩)

def nfs41OpLock (cfg : Config) (s : States) (args : LockArgs) (env : LockEnv) : States × LockRes :=
  match env.checks with
  | some e => (s, .fail e.1)
  | none =>
    if !rangeAccepted args.offset args.length then (s, .fail .inval)
    else
      match args.locker with
      | .openOwner openStateid lockOwner =>
        match cacheInodeGetState s openStateid with
        | none => (s, .fail .staleStateid)
        | some popen =>
          match lockScan args none s.mem (s.lists args.file) with
          | some res => (s, res)
          | none => lockNewOwner cfg s args env openStateid lockOwner popen
      | .lockOwner lockStateid =>
        let existing := cacheInodeGetState s lockStateid.other
        if existing = none ∧ lockStateid ≠ zeroStateid then (s, .fail .staleStateid)
        else
          match lockScan args (existing.map fun p => (s.mem p).powner) s.mem
              (s.lists args.file) with
          | some res => (s, res)
          | none => lockExistingOwner s args env lockStateid.other

/-! ## LOCKU -/

/-- `LOCKU4args`, for the file of the current filehandle. -/
structure LockuArgs where
  file : ℕ
  lockStateid : StateidOther
  offset : UInt64
  /-- number of bytes, all ones for the rest of the file -/
  length : UInt64
  deriving DecidableEq

/-- `nfs41_op_locku`: the range is checked and then not used. -/
def nfs41OpLocku (cfg : Config) (s : States) (args : LockuArgs) (env : LockEnv) :
    States × LockRes :=
  match env.checks with
  | some e => (s, .fail e.1)
  | none =>
    if !rangeAccepted args.offset args.length then (s, .fail .inval)
    else if nfs4CheckStateid cfg s args.lockStateid env.clientKnown ≠ .ok then
      (s, .fail (nfs4CheckStateid cfg s args.lockStateid env.clientKnown))
    else
      match cacheInodeGetState s args.lockStateid with
      | none => (s, .fail .lockRange)
      | some p =>
        let other := (s.mem p).stateidOther
        let (s, deleted) := cacheInodeDelState s p
        if deleted then (s, ⟨.ok, some ⟨env.seqidWord, other⟩, none⟩) else (s, .fail .noent)

/-! ## What LOCK can do -/

/-- LOCK adds a lock state: a new lock owner, an open of the file, and nothing in the way. -/
structure Records (cfg : Config) (s : States) (args : LockArgs) (env : LockEnv) (popen : ℕ)
    (sh : Share) (openStateid : StateidOther) (lockOwner : OwnerName) : Prop where
  checks : env.checks = none
  range : rangeAccepted args.offset args.length = true
  /-- the lock owner is said to be new -/
  locker : args.locker = .openOwner openStateid lockOwner
  find : s.stateIds openStateid = some popen
  /-- no state of the file is in the way -/
  scan : lockScan args none s.mem (s.lists args.file) = none
  stateid : nfs4CheckStateid cfg s openStateid env.clientKnown = .ok
  share : (s.mem popen).data = .share sh
  file : (s.mem popen).pentry = args.file
  unknown : s.owners lockOwner = none
  stateAlloc : env.stateAlloc = true

/-- LOCK answers an existing lock owner: the stateid is that of a lock of the file, and
nothing is in the way. -/
structure Answers (s : States) (args : LockArgs) (env : LockEnv) (p : ℕ) (l : Lock)
    (lockStateid : Stateid4) : Prop where
  checks : env.checks = none
  range : rangeAccepted args.offset args.length = true
  /-- the lock owner is said to exist -/
  locker : args.locker = .lockOwner lockStateid
  find : s.stateIds lockStateid.other = some p
  /-- no state of the file is in the way -/
  scan : lockScan args (some (s.mem p).powner) s.mem (s.lists args.file) = none
  lock : (s.mem p).data = .lock l
  file : (s.mem p).pentry = args.file

/-- The state that LOCK adds. -/
def lockedState (cfg : Config) (s : States) (args : LockArgs) (popen : ℕ) (lockOwner : OwnerName) :
    StateInfo :=
  { data := candidateLock args popen
    stateidOther := { boot := cfg.bootTime, fileid := cfg.fileid args.file,
                      owner := (s.ownerCounter + 1).toUInt16 }
    powner := lockOwner
    pentry := args.file }

inductive LockOutcome (cfg : Config) (s : States) (args : LockArgs) (env : LockEnv) :
    States × LockRes → Prop where
  | refused {t : States} {res : LockRes} (keeps : Keeps s t) (status : res.status ≠ .ok)
      (stays : ∀ popen sh openStateid lockOwner,
        ¬Records cfg s args env popen sh openStateid lockOwner)
      (silent : ∀ p l lockStateid, ¬Answers s args env p l lockStateid) :
      LockOutcome cfg s args env (t, res)
  | answered {res : LockRes} {p : ℕ} {l : Lock} {lockStateid : Stateid4}
      (answers : Answers s args env p l lockStateid) (status : res.status = .ok) :
      LockOutcome cfg s args env (s, res)
  | recorded {t : States} {res : LockRes} {popen : ℕ} {sh : Share} {openStateid : StateidOther}
      {lockOwner : OwnerName} (records : Records cfg s args env popen sh openStateid lockOwner)
      (status : res.status = .ok)
      (view : t.view = (s.view.link (lockedState cfg s args popen lockOwner)).setData popen
        (.share { sh with lockheld := sh.lockheld + 1 }))
      (wellFormed : t.WellFormed) : LockOutcome cfg s args env (t, res)

section

variable {cfg : Config} {s t : States} {args : LockArgs} {env : LockEnv}

variable {existing : Option OwnerName} {mem : ℕ → FileState} {l : List ℕ} {res : LockRes}
  {sh : Share} {openStateid : StateidOther} {lockOwner : OwnerName}

theorem lockScan_status (h : lockScan args existing mem l = some res) : res.status ≠ .ok := by
  induction l with
  | nil => cases h
  | cons p rest ih =>
    rw [lockScan] at h
    split at h
    · split at h
      · cases h
        exact Nfsstat4.noConfusion
      · exact ih h
    · split at h
      · cases h
        exact Nfsstat4.noConfusion
      · exact ih h

theorem States.WellFormed.present_of_mem {f p : ℕ} (hs : s.WellFormed) (hp : p ∈ s.lists f) :
    s.present f = true := by
  by_contra hnot
  rw [hs.absent f (Bool.eq_false_iff.mpr hnot)] at hp
  cases hp

variable {popen : ℕ}

theorem bumpLockheld_eq (h : (s.mem popen).data = .share sh) :
    s.bumpLockheld popen = s.set popen
      { s.mem popen with data := .share { sh with lockheld := sh.lockheld + 1 } } := by
  rw [States.bumpLockheld, h]

theorem Records.outcome (hs : s.WellFormed)
    (h : Records cfg s args env popen sh openStateid lockOwner) (hok : res.status = .ok) :
    LockOutcome cfg s args env
      (((nfsOpenOwnerSet s (newLockOwner s popen lockOwner)).1.link
        (newState cfg args.file (candidateLock args popen)
          { newLockOwner s popen lockOwner with
            counter := s.ownerCounter + 1 })).bumpLockheld popen,
        res) := by
  have hkeeps := Keeps.nfsOpenOwnerSet s (newLockOwner s popen lockOwner)
  have hmem : (nfsOpenOwnerSet s (newLockOwner s popen lockOwner)).1.mem = s.mem := by
    simp only [nfsOpenOwnerSet]
    split <;> rfl
  have hpresent : (nfsOpenOwnerSet s (newLockOwner s popen lockOwner)).1.present = s.present := by
    simp only [nfsOpenOwnerSet]
    split <;> rfl
  have hknown : (nfsOpenOwnerSet s (newLockOwner s popen lockOwner)).1.owners lockOwner =
      some { newLockOwner s popen lockOwner with counter := s.ownerCounter + 1 } := by
    simp [nfsOpenOwnerSet, newLockOwner, h.unknown]
  generalize hu : (nfsOpenOwnerSet s (newLockOwner s popen lockOwner)).1 = u at *
  have hlive : popen ∈ s.lists args.file := by
    have hlisted := hs.view.listed openStateid popen h.find
    rw [show (s.view.info popen).pentry = args.file from h.file] at hlisted
    exact hlisted
  have hfresh : u.fresh = s.fresh := congrArg View.fresh hkeeps.view
  have hne : popen ≠ u.fresh := by
    rw [hfresh]
    exact Nat.ne_of_lt (hs.view.below _ popen hlive)
  have hdata : ((u.link (newState cfg args.file (candidateLock args popen)
      { newLockOwner s popen lockOwner with counter := s.ownerCounter + 1 })).mem popen).data =
      .share sh := by
    simp only [States.link, Function.update_of_ne hne, hmem]
    exact h.share
  rw [bumpLockheld_eq hdata]
  refine .recorded h hok ?_ ?_
  · rw [view_setData, view_link, hkeeps.view]
    rfl
  · refine ((hkeeps.wellFormed hs).link ?_ ⟨_, hknown, rfl⟩).setData
    rw [hpresent]
    exact hs.present_of_mem hlive

theorem lockNewOwner_outcome (hs : s.WellFormed) (hchecks : env.checks = none)
    (hrange : rangeAccepted args.offset args.length = true)
    (hlocker : args.locker = .openOwner openStateid lockOwner)
    (hfind : s.stateIds openStateid = some popen)
    (hscan : lockScan args none s.mem (s.lists args.file) = none) :
    LockOutcome cfg s args env (lockNewOwner cfg s args env openStateid lockOwner popen) := by
  -- a refusal: what `Records` asks for does not hold of this owner and this open
  have hrefused : ∀ {u : States} {e : Nfsstat4}, Keeps s u → e ≠ .ok →
      (∀ sh, ¬Records cfg s args env popen sh openStateid lockOwner) →
      LockOutcome cfg s args env (u, .fail e) := by
    intro u e hkeeps he hnot
    refine .refused hkeeps he (fun popen' sh id o h => ?_) fun p l id h => ?_
    · obtain ⟨rfl, rfl⟩ := Locker.openOwner.inj (hlocker.symm.trans h.locker)
      cases hfind.symm.trans h.find
      exact hnot sh h
    · cases hlocker.symm.trans h.locker
  rw [lockNewOwner]
  split
  next hcheck => exact hrefused (Keeps.refl s) hcheck fun sh h => hcheck h.stateid
  next hcheck =>
  split
  next l hl =>
    refine hrefused (Keeps.refl s) Nfsstat4.noConfusion fun sh h => ?_
    rw [h.share] at hl
    cases hl
  next sh hsh =>
  split
  next hfile => exact hrefused (Keeps.refl s) Nfsstat4.noConfusion fun sh h => hfile h.file
  next hfile =>
  have hkeeps := Keeps.nfsOpenOwnerSet s (newLockOwner s popen lockOwner)
  cases hknown : s.owners lockOwner with
  | some o =>
    have hset : (nfsOpenOwnerSet s (newLockOwner s popen lockOwner)).2 = false := by
      simp [nfsOpenOwnerSet, newLockOwner, hknown]
    simp only [hset, Bool.not_false, if_true]
    refine hrefused hkeeps Nfsstat4.noConfusion fun sh h => ?_
    rw [h.unknown] at hknown
    cases hknown
  | none =>
    have hset : (nfsOpenOwnerSet s (newLockOwner s popen lockOwner)).2 = true := by
      simp [nfsOpenOwnerSet, newLockOwner, hknown]
    have hcounter : (nfsOpenOwnerSet s (newLockOwner s popen lockOwner)).1.ownerCounter =
        s.ownerCounter + 1 := by
      simp [nfsOpenOwnerSet, newLockOwner, hknown]
    simp only [hset, Bool.not_true, Bool.false_eq_true, if_false, hcounter, cacheInodeAddState_eq]
    cases halloc : env.stateAlloc with
    | false =>
      refine hrefused hkeeps Nfsstat4.noConfusion fun sh h => ?_
      rw [h.stateAlloc] at halloc
      cases halloc
    | true =>
      exact Records.outcome hs ⟨hchecks, hrange, hlocker, hfind, hscan, not_not.mp hcheck, hsh,
        not_not.mp hfile, hknown, halloc⟩ rfl

/-- **What LOCK does**: it is refused, it answers an existing lock owner, or it records the
lock of a new one. -/
theorem nfs41OpLock_outcome (cfg : Config) (args : LockArgs) (env : LockEnv) (hs : s.WellFormed) :
    LockOutcome cfg s args env (nfs41OpLock cfg s args env) := by
  rw [nfs41OpLock]
  split
  next e he =>
    refine .refused (Keeps.refl s) e.2.1 (fun popen sh id o h => ?_) fun p l id h => ?_
    · cases h.checks.symm.trans he
    · cases h.checks.symm.trans he
  next hchecks =>
  split
  next hrange =>
    refine .refused (Keeps.refl s) Nfsstat4.noConfusion (fun popen sh id o h => ?_)
      fun p l id h => ?_
    · rw [h.range] at hrange
      cases hrange
    · rw [h.range] at hrange
      cases hrange
  next hrange =>
  have hrange : rangeAccepted args.offset args.length = true := by simpa using hrange
  split
  next openStateid lockOwner hlocker =>
    have hnot : ∀ p l id, ¬Answers s args env p l id := by
      intro p l id h
      cases hlocker.symm.trans h.locker
    split
    next hnone =>
      refine .refused (Keeps.refl s) Nfsstat4.noConfusion (fun popen sh id o h => ?_) hnot
      obtain ⟨rfl, rfl⟩ := Locker.openOwner.inj (hlocker.symm.trans h.locker)
      cases hnone.symm.trans h.find
    next popen hfind =>
    split
    next res hres =>
      refine .refused (Keeps.refl s) (lockScan_status hres) (fun popen sh id o h => ?_) hnot
      cases hres.symm.trans h.scan
    next hscan => exact lockNewOwner_outcome hs hchecks hrange hlocker hfind hscan
  next lockStateid hlocker =>
    -- a refusal: what `Answers` asks for does not hold of this stateid
    have hrefused : ∀ {res : LockRes}, res.status ≠ .ok →
        (∀ p l, ¬Answers s args env p l lockStateid) → LockOutcome cfg s args env (s, res) := by
      intro res hres hnot
      refine .refused (Keeps.refl s) hres (fun popen sh id o h => ?_) fun p l id h => ?_
      · cases hlocker.symm.trans h.locker
      · obtain rfl := Locker.lockOwner.inj (hlocker.symm.trans h.locker)
        exact hnot p l h
    simp only
    split
    next hnone =>
      refine hrefused Nfsstat4.noConfusion fun p l h => ?_
      cases hnone.1.symm.trans h.find
    split
    next res hres =>
      refine hrefused (lockScan_status hres) fun p l h => ?_
      rw [cacheInodeGetState, h.find] at hres
      cases hres.symm.trans h.scan
    next hscan =>
    rw [lockExistingOwner]
    split
    next hnone =>
      refine hrefused Nfsstat4.noConfusion fun p l h => ?_
      cases hnone.symm.trans h.find
    next p hfind =>
    rw [hfind] at hscan
    split
    next sh hsh =>
      refine hrefused Nfsstat4.noConfusion fun q l h => ?_
      cases hfind.symm.trans h.find
      cases hsh.symm.trans h.lock
    next l hl =>
    split
    next hfile =>
      refine hrefused Nfsstat4.noConfusion fun q l h => ?_
      cases hfind.symm.trans h.find
      exact hfile h.file
    next hfile =>
      exact .answered ⟨hchecks, hrange, hlocker, hfind, hscan, hl, not_not.mp hfile⟩ rfl

theorem LockOutcome.wellFormed {r : States × LockRes} (h : LockOutcome cfg s args env r)
    (hs : s.WellFormed) : r.1.WellFormed := by
  cases h with
  | refused keeps => exact keeps.wellFormed hs
  | answered => exact hs
  | recorded _ _ _ wellFormed => exact wellFormed

end

/-! ## What LOCKU can do -/

/-- LOCKU deletes the state that its stateid leads to. -/
structure Unlocks (cfg : Config) (s : States) (args : LockuArgs) (env : LockEnv) (p : ℕ) :
    Prop where
  checks : env.checks = none
  range : rangeAccepted args.offset args.length = true
  stateid : nfs4CheckStateid cfg s args.lockStateid env.clientKnown = .ok
  find : s.stateIds args.lockStateid = some p

inductive LockuOutcome (cfg : Config) (s : States) (args : LockuArgs) (env : LockEnv) :
    States × LockRes → Prop where
  | refused {res : LockRes} (status : res.status ≠ .ok) (stays : ∀ p, ¬Unlocks cfg s args env p) :
      LockuOutcome cfg s args env (s, res)
  | deleted {t : States} {res : LockRes} {p : ℕ} (unlocks : Unlocks cfg s args env p)
      (status : res.status = .ok) (view : t.view = s.view.delete p) (wellFormed : t.WellFormed) :
      LockuOutcome cfg s args env (t, res)

variable {s : States} {cfg : Config}

/-- **What LOCKU does**: it is refused, or the state that the stateid leads to is deleted. -/
theorem nfs41OpLocku_outcome (cfg : Config) (args : LockuArgs) (env : LockEnv) (hs : s.WellFormed) :
    LockuOutcome cfg s args env (nfs41OpLocku cfg s args env) := by
  rw [nfs41OpLocku]
  split
  next e he =>
    refine .refused e.2.1 fun p h => ?_
    rw [h.checks] at he
    cases he
  next hchecks =>
  split
  next hrange =>
    refine .refused Nfsstat4.noConfusion fun p h => ?_
    rw [h.range] at hrange
    cases hrange
  next hrange =>
  split
  next hcheck => exact .refused hcheck fun p h => hcheck h.stateid
  next hcheck =>
  split
  next hnone =>
    refine .refused Nfsstat4.noConfusion fun p h => ?_
    rw [cacheInodeGetState, h.find] at hnone
    cases hnone
  next p hfind =>
    have hkey : s.stateIds (s.mem p).stateidOther = some p := by
      rw [show (s.mem p).stateidOther = args.lockStateid from hs.view.key _ p hfind]
      exact hfind
    simp only [cacheInodeDelState, hkey, if_true]
    exact .deleted ⟨hchecks, by simpa using hrange, not_not.mp hcheck, hfind⟩ rfl view_delete
      hs.delete

variable {env : LockEnv} {t : States}

theorem LockuOutcome.wellFormed {args : LockuArgs} {r : States × LockRes}
    (h : LockuOutcome cfg s args env r) (hs : s.WellFormed) : r.1.WellFormed := by
  cases h with
  | refused => exact hs
  | deleted _ _ _ wellFormed => exact wellFormed

/-! ## Lock states -/

/-- A lock state on the list of the file. -/
def LockAt (v : View) (f p : ℕ) (l : Lock) : Prop := p ∈ v.lists f ∧ (v.info p).data = .lock l

section

variable {v : View} {st : StateInfo} {f p q : ℕ} {l : Lock}

variable {sh : Share}

theorem powner_setData {d : StateData} : ((v.setData p d).info q).powner = (v.info q).powner := by
  by_cases hq : q = p
  · subst hq
    simp [View.setData]
  · simp [View.setData, hq]

end

/-- An operation on the opens and locks of files. -/
inductive LockOp where
  | opens (op : OpenOp)
  | opLock (args : LockArgs) (env : LockEnv)
  | opLocku (args : LockuArgs) (env : LockEnv)
  deriving DecidableEq

def LockOp.run (cfg : Config) (s : States) : LockOp → States × Nfsstat4
  | .opens op => ((op.run cfg s).1, (op.run cfg s).2.status)
  | .opLock args env => ((nfs41OpLock cfg s args env).1, (nfs41OpLock cfg s args env).2.status)
  | .opLocku args env => ((nfs41OpLocku cfg s args env).1, (nfs41OpLocku cfg s args env).2.status)

def lockStep (cfg : Config) (s : States) (op : LockOp) : Option States := some (op.run cfg s).1

variable {op : LockOp}

inductive Changes (cfg : Config) (s : States) : LockOp → Prop where
  | opens {args : OpenArgs} {env : OpenEnv} (adds : AddsShare s args env) :
      Changes cfg s (.opens (.opOpen args env))
  | closes {openStateid : StateidOther} {env : CloseEnv} {p : ℕ}
      (closes : Closes cfg s openStateid env p) : Changes cfg s (.opens (.opClose openStateid env))
  | locks {args : LockArgs} {env : LockEnv} {popen : ℕ} {sh : Share} {openStateid : StateidOther}
      {lockOwner : OwnerName} (records : Records cfg s args env popen sh openStateid lockOwner) :
      Changes cfg s (.opLock args env)
  | unlocks {args : LockuArgs} {env : LockEnv} {p : ℕ} (unlocks : Unlocks cfg s args env p) :
      Changes cfg s (.opLocku args env)

inductive StepOutcome (cfg : Config) (s : States) (t : States) : LockOp → Prop where
  | kept {op : LockOp} (view : t.view = s.view) (stays : ¬Changes cfg s op) :
      StepOutcome cfg s t op
  | opened {args : OpenArgs} {env : OpenEnv} {oexclVerifier : List UInt8} {lockheld : UInt32}
      (view : t.view = s.view.link (openedState cfg s args oexclVerifier lockheld))
      (how : (AddsShare s args env ∧ lockheld = lockheldUnset cfg env) ∨
        (s.present args.file = false ∧ lockheld = 0)) :
      StepOutcome cfg s t (.opens (.opOpen args env))
  | closed {openStateid : StateidOther} {env : CloseEnv} {p : ℕ}
      (closes : Closes cfg s openStateid env p) (view : t.view = s.view.delete p) :
      StepOutcome cfg s t (.opens (.opClose openStateid env))
  | locked {args : LockArgs} {env : LockEnv} {popen : ℕ} {sh : Share} {openStateid : StateidOther}
      {lockOwner : OwnerName} (records : Records cfg s args env popen sh openStateid lockOwner)
      (view : t.view = (s.view.link (lockedState cfg s args popen lockOwner)).setData popen
        (.share { sh with lockheld := sh.lockheld + 1 })) :
      StepOutcome cfg s t (.opLock args env)
  | unlocked {args : LockuArgs} {env : LockEnv} {p : ℕ} (unlocks : Unlocks cfg s args env p)
      (view : t.view = s.view.delete p) : StepOutcome cfg s t (.opLocku args env)

/-- **What an operation does**: nothing that shows in the states, or it adds or deletes one
state. -/
theorem lockStep_outcome (hs : s.WellFormed) (h : lockStep cfg s op = some t) :
    StepOutcome cfg s t op := by
  cases h
  cases op with
  | opens op =>
    cases op with
    | opOpen args env =>
      rcases (opOpen_outcome cfg args env hs).view_cases with ⟨hview, hstays⟩ | ⟨_, _, hview, how⟩
      · refine .kept hview fun hchanges => ?_
        cases hchanges with
        | opens adds => exact hstays adds
      · exact .opened hview how
    | opOpenDowngrade args checks =>
      refine .kept (opOpenDowngrade_keeps s args checks).view fun hchanges => ?_
      cases hchanges
    | opClose openStateid env =>
      have hout := opClose_outcome cfg openStateid env hs
      simp only [LockOp.run, OpenOp.run]
      generalize opClose cfg s openStateid env = r at hout ⊢
      cases hout with
      | refused keeps _ stays =>
        refine .kept keeps.view fun hchanges => ?_
        cases hchanges with
        | closes closes => exact stays _ closes
      | closed closes view => exact .closed closes view
  | opLock args env =>
    have hout := nfs41OpLock_outcome cfg args env hs
    simp only [LockOp.run]
    generalize nfs41OpLock cfg s args env = r at hout ⊢
    cases hout with
    | refused keeps _ stays =>
      refine .kept keeps.view fun hchanges => ?_
      cases hchanges with
      | locks records => exact stays _ _ _ _ records
    | answered answers =>
      refine .kept rfl fun hchanges => ?_
      cases hchanges with
      | locks records => cases answers.locker.symm.trans records.locker
    | recorded records _ view => exact .locked records view
  | opLocku args env =>
    have hout := nfs41OpLocku_outcome cfg args env hs
    simp only [LockOp.run]
    generalize nfs41OpLocku cfg s args env = r at hout ⊢
    cases hout with
    | refused _ stays =>
      refine .kept rfl fun hchanges => ?_
      cases hchanges with
      | unlocks unlocks => exact stays _ unlocks
    | deleted unlocks _ view => exact .unlocked unlocks view

end CloudNfs.Nfs4
