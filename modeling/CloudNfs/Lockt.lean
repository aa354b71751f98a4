import CloudNfs.LockExclusion

/-!
# LOCKT of NFSv4.1 (`NFS_Protocols/nfs41_op_lockt.c`)

LOCKT asks whether a LOCK would be denied. It goes through the states of the file as LOCK does, with
a copy of the test for overlapping ranges, but it leaves out the locks of the owner that asks, and
the opens that deny writing. After each state it tests `cache_status`, which nothing has written:
`cache_inode_state_iterate` sets it when it fails only.

* `predicts_iff` — they do exactly when the state that stops LOCK is a lock that also stops LOCKT.
-/

namespace CloudNfs.Nfs4

/-- `LOCKT4args`, for the file of the current filehandle. -/
structure LocktArgs where
  file : ℕ
  /-- `READ_LT` and so on -/
  lockType : UInt32
  offset : UInt64
  length : UInt64
  owner : OwnerName

/-- `LOCKT4res`. -/
structure LocktRes where
  status : Nfsstat4
  denied : Option LockDenied

/-- A lock state is in the way of LOCKT: that of another owner, told by the string alone. -/
def locktInTheWay (args : LocktArgs) (powner : OwnerName) (l : Lock) : Bool :=
  lockOverlap l.offset l.length args.offset args.length &&
    (decide (args.lockType ≠ readLt) || decide (l.lockType ≠ readLt)) &&
    !decide (args.owner.ownerVal = powner.ownerVal)

/-- The loop of LOCKT over the states of the file: the answer if it ends there. -/
def locktScan (args : LocktArgs) (mem : ℕ → FileState) : List ℕ → Option LocktRes
  | [] => none
  | p :: rest =>
    match (mem p).data with
    | .lock l =>
      if locktInTheWay args (mem p).powner l then
        some ⟨.denied, some ⟨l.offset, l.length, l.lockType, (mem p).powner.ownerVal⟩⟩
      else locktScan args mem rest
    | .share _ => locktScan args mem rest

/-- `CACHE_INODE_STATE_ERROR` or `CACHE_INODE_INVALID_ARGUMENT`. -/
def isIterateError (cacheStatus : UInt32) : Bool := cacheStatus = 34 || cacheStatus = 15

/-- `nfs41_op_lockt`, where `cacheStatus` is what the stack has in `cache_status`. -/
def nfs41OpLockt (s : States) (args : LocktArgs) (checks : Option Failure) (cacheStatus : UInt32) :
    States × LocktRes :=
  match checks with
  | some e => (s, ⟨e.1, none⟩)
  | none =>
    if !rangeAccepted args.offset args.length then (s, ⟨.inval, none⟩)
    else if isIterateError cacheStatus then (s, ⟨.inval, none⟩)
    else
      match locktScan args s.mem (s.lists args.file) with
      | some res => (s, res)
      | none => (s, ⟨.ok, none⟩)

/-! ## The property -/

def LocktArgs.lockArgs (args : LocktArgs) (openStateid : StateidOther) : LockArgs where
  file := args.file
  lockType := args.lockType
  offset := args.offset
  length := args.length
  locker := .openOwner openStateid args.owner

def LockDenied.range (d : LockDenied) : UInt64 × UInt64 := (d.offset, d.length)

/-- **LOCKT predicts LOCK.** -/
structure Predicts (cfg : Config) (s : States) (args : LocktArgs) (env : LockEnv)
    (openStateid : StateidOther) (cacheStatus : UInt32) : Prop where
  unchanged : (nfs41OpLockt s args env.checks cacheStatus).1 = s
  /-- both are denied, or none -/
  denied : (nfs41OpLockt s args env.checks cacheStatus).2.status = .denied ↔
    (nfs41OpLock cfg s (args.lockArgs openStateid) env).2.status = .denied
  /-- because of the same range -/
  holder : (nfs41OpLockt s args env.checks cacheStatus).2.status = .denied →
    (nfs41OpLockt s args env.checks cacheStatus).2.denied.map LockDenied.range =
      (nfs41OpLock cfg s (args.lockArgs openStateid) env).2.denied.map LockDenied.range

/-! ## When it holds -/

/-- A state is in the way of the LOCK of a new owner. -/
def inTheWay (args : LockArgs) (info : FileState) : Bool :=
  match info.data with
  | .lock l => lockInTheWay args none info.powner l
  | .share sh => shareInTheWay args sh

/-- A lock of another owner is in the way. -/
def otherInTheWay (args : LocktArgs) (info : FileState) : Bool :=
  match info.data with
  | .lock l => locktInTheWay args info.powner l
  | .share _ => false

def firstState (s : States) (file : ℕ) (test : FileState → Bool) : Option FileState :=
  ((s.lists file).map s.mem).find? test

/-- The lock that stops LOCKT, if what it finds in `cache_status` is no error. -/
def locktFirst (s : States) (args : LocktArgs) (cacheStatus : UInt32) : Option FileState :=
  if isIterateError cacheStatus then none else firstState s args.file (otherInTheWay args)

/-- The request is refused before the states are looked at; or the stateid of the open is known and
the first state in the way is a lock with the range of the first lock of another owner that is in
the way (as it is when it is this lock), and what is found in `cache_status` is no error; or no lock
of another owner is in the way or it is an error, and the stateid is not known or the first state in
the way, if there is one, is an open. -/
def Foreseen (s : States) (args : LocktArgs) (checks : Option Failure)
    (openStateid : StateidOther) (cacheStatus : UInt32) : Prop :=
  checks ≠ none ∨ rangeAccepted args.offset args.length = false ∨
    match locktFirst s args cacheStatus with
    | some other => s.stateIds openStateid ≠ none ∧
        ∃ first l l', firstState s args.file (inTheWay (args.lockArgs openStateid)) = some first ∧
          first.data = .lock l ∧ other.data = .lock l' ∧ l.offset = l'.offset ∧ l.length = l'.length
    | none => s.stateIds openStateid = none ∨
        ∀ first, firstState s args.file (inTheWay (args.lockArgs openStateid)) = some first →
          ∃ sh, first.data = .share sh

section

variable {cfg : Config} {s : States} {args : LocktArgs} {env : LockEnv} {openStateid : StateidOther}
  {cacheStatus : UInt32}

def lockAnswer (info : FileState) : LockRes :=
  match info.data with
  | .lock l => ⟨.denied, none, some ⟨l.offset, l.length, l.lockType, info.powner.ownerVal⟩⟩
  | .share _ => .fail .openmode

theorem lockScan_eq (args : LockArgs) (mem : ℕ → FileState) (l : List ℕ) :
    lockScan args none mem l = ((l.map mem).find? (inTheWay args)).map lockAnswer := by
  induction l with
  | nil => rfl
  | cons p rest ih =>
    rw [lockScan, List.map_cons, List.find?_cons, inTheWay]
    cases hdata : (mem p).data with
    | lock lk =>
      dsimp only
      cases hway : lockInTheWay args none (mem p).powner lk with
      | true =>
        rw [if_pos rfl, Option.map_some, lockAnswer, hdata]
      | false =>
        rw [if_neg Bool.false_ne_true, ih]
    | share sh =>
      dsimp only
      cases hway : shareInTheWay args sh with
      | true =>
        rw [if_pos rfl, Option.map_some, lockAnswer, hdata]
      | false =>
        rw [if_neg Bool.false_ne_true, ih]

def locktAnswer (info : FileState) : LocktRes := ⟨.denied, (lockAnswer info).denied⟩

theorem locktScan_eq (mem : ℕ → FileState) (l : List ℕ) :
    locktScan args mem l = ((l.map mem).find? (otherInTheWay args)).map locktAnswer := by
  induction l with
  | nil => rfl
  | cons p rest ih =>
    rw [locktScan, List.map_cons, List.find?_cons, otherInTheWay]
    cases hdata : (mem p).data with
    | lock lk =>
      dsimp only
      cases hway : locktInTheWay args (mem p).powner lk with
      | true =>
        rw [if_pos rfl, Option.map_some, locktAnswer, lockAnswer, hdata]
      | false =>
        rw [if_neg Bool.false_ne_true, ih]
    | share sh =>
      dsimp only
      exact ih

theorem lockNewOwner_ne_denied {largs : LockArgs} {lockOwner : OwnerName} {popen : ℕ} :
    (lockNewOwner cfg s largs env openStateid lockOwner popen).2.status ≠ .denied := by
  have hcheck : nfs4CheckStateid cfg s openStateid env.clientKnown ≠ .denied := by
    rw [nfs4CheckStateid]
    split
    · split <;> exact Nfsstat4.noConfusion
    · split
      · split <;> exact Nfsstat4.noConfusion
      · split <;> exact Nfsstat4.noConfusion
  rw [lockNewOwner]
  split
  · exact hcheck
  split
  · exact Nfsstat4.noConfusion
  split
  · exact Nfsstat4.noConfusion
  dsimp only
  split
  · exact Nfsstat4.noConfusion
  · split <;> exact Nfsstat4.noConfusion

theorem lock_newOwner (hchecks : env.checks = none)
    (hrange : rangeAccepted args.offset args.length = true) :
    nfs41OpLock cfg s (args.lockArgs openStateid) env =
      match cacheInodeGetState s openStateid with
      | none => (s, .fail .staleStateid)
      | some popen =>
        match firstState s args.file (inTheWay (args.lockArgs openStateid)) with
        | some info => (s, lockAnswer info)
        | none =>
          lockNewOwner cfg s (args.lockArgs openStateid) env openStateid args.owner popen := by
  have hlocker : (args.lockArgs openStateid).locker = .openOwner openStateid args.owner := rfl
  have hfile : (args.lockArgs openStateid).file = args.file := rfl
  have hargs : rangeAccepted (args.lockArgs openStateid).offset (args.lockArgs openStateid).length =
      true := hrange
  generalize args.lockArgs openStateid = largs at *
  rw [nfs41OpLock, hchecks, hargs, hlocker, hfile]
  simp only [Bool.not_true, Bool.false_eq_true, if_false, lockScan_eq, firstState]
  cases cacheInodeGetState s openStateid with
  | none => rfl
  | some popen =>
    cases ((s.lists args.file).map s.mem).find? (inTheWay largs) with
    | none => rfl
    | some info => rfl

theorem lockt_eq (hrange : rangeAccepted args.offset args.length = true) :
    nfs41OpLockt s args none cacheStatus =
      match locktFirst s args cacheStatus with
      | some info => (s, locktAnswer info)
      | none => (s, ⟨if isIterateError cacheStatus then .inval else .ok, none⟩) := by
  rw [nfs41OpLockt, hrange, locktFirst]
  cases isIterateError cacheStatus with
  | true => rfl
  | false =>
    simp only [Bool.not_true, Bool.false_eq_true, if_false, locktScan_eq]
    rw [firstState]
    cases ((s.lists args.file).map s.mem).find? (otherInTheWay args) <;> rfl

theorem lockt_unchanged {checks : Option Failure} :
    (nfs41OpLockt s args checks cacheStatus).1 = s := by
  unfold nfs41OpLockt
  split
  · rfl
  · split
    · rfl
    · split
      · rfl
      · split <;> rfl

theorem firstState_of_locktFirst {other : FileState}
    (h : locktFirst s args cacheStatus = some other) :
    firstState s args.file (otherInTheWay args) = some other := by
  rw [locktFirst] at h
  split at h
  · cases h
  · exact h

theorem inTheWay_of_other {info : FileState} (h : otherInTheWay args info = true) :
    inTheWay (args.lockArgs openStateid) info = true := by
  rw [otherInTheWay] at h
  rw [inTheWay]
  cases hdata : info.data with
  | lock l =>
    rw [hdata] at h
    dsimp only at h ⊢
    rw [locktInTheWay, Bool.and_eq_true] at h
    rw [lockInTheWay, Bool.and_eq_true]
    exact ⟨h.1, rfl⟩
  | share sh =>
    rw [hdata] at h
    cases h

theorem exists_inTheWay (openStateid : StateidOther) {other : FileState}
    (h : locktFirst s args cacheStatus = some other) :
    ∃ first, firstState s args.file (inTheWay (args.lockArgs openStateid)) = some first := by
  have h := firstState_of_locktFirst h
  rw [firstState] at h
  apply Option.isSome_iff_exists.mp
  rw [firstState, List.find?_isSome]
  exact ⟨other, List.mem_of_find?_eq_some h, inTheWay_of_other (List.find?_some h)⟩

theorem lock_of_other {other : FileState}
    (h : locktFirst s args cacheStatus = some other) : ∃ l, other.data = .lock l := by
  have hother := List.find?_some (firstState_of_locktFirst h)
  rw [otherInTheWay] at hother
  cases hdata : other.data with
  | lock l => exact ⟨l, rfl⟩
  | share sh =>
    rw [hdata] at hother
    cases hother

theorem predicts_iff_of_accepted (hchecks : env.checks = none)
    (hrange : rangeAccepted args.offset args.length = true) :
    Predicts cfg s args env openStateid cacheStatus ↔
      Foreseen s args none openStateid cacheStatus := by
  have hforeseen : Foreseen s args none openStateid cacheStatus ↔
      match locktFirst s args cacheStatus with
      | some other => s.stateIds openStateid ≠ none ∧
          ∃ first l l', firstState s args.file (inTheWay (args.lockArgs openStateid)) = some first ∧
            first.data = .lock l ∧ other.data = .lock l' ∧ l.offset = l'.offset ∧
              l.length = l'.length
      | none => s.stateIds openStateid = none ∨
          ∀ first, firstState s args.file (inTheWay (args.lockArgs openStateid)) = some first →
            ∃ sh, first.data = .share sh := by
    rw [Foreseen, hrange]
    simp only [ne_eq, not_true_eq_false, Bool.true_eq_false, false_or]
  have hpredicts : Predicts cfg s args env openStateid cacheStatus ↔
      ((nfs41OpLockt s args none cacheStatus).2.status = .denied ↔
        (nfs41OpLock cfg s (args.lockArgs openStateid) env).2.status = .denied) ∧
      ((nfs41OpLockt s args none cacheStatus).2.status = .denied →
        (nfs41OpLockt s args none cacheStatus).2.denied.map LockDenied.range =
          (nfs41OpLock cfg s (args.lockArgs openStateid) env).2.denied.map LockDenied.range) := by
    rw [← hchecks]
    exact ⟨fun h => ⟨h.denied, h.holder⟩, fun h => ⟨lockt_unchanged, h.1, h.2⟩⟩
  rw [hforeseen, hpredicts, lockt_eq hrange, lock_newOwner hchecks hrange, cacheInodeGetState]
  cases hother : locktFirst s args cacheStatus with
  | some other =>
    obtain ⟨l', hl'⟩ := lock_of_other hother
    obtain ⟨first, hfirst⟩ := exists_inTheWay openStateid hother
    cases s.stateIds openStateid with
    | none =>
      refine iff_of_false (fun h => ?_) fun h => h.1 rfl
      cases h.1.mp rfl
    | some popen =>
      rw [hfirst]
      dsimp only
      cases hdata : first.data with
      | lock l =>
        have hanswer : lockAnswer first =
            ⟨.denied, none, some ⟨l.offset, l.length, l.lockType, first.powner.ownerVal⟩⟩ := by
          rw [lockAnswer, hdata]
        have hanswer' : locktAnswer other =
            ⟨.denied, some ⟨l'.offset, l'.length, l'.lockType, other.powner.ownerVal⟩⟩ := by
          rw [locktAnswer, lockAnswer, hl']
        rw [hanswer, hanswer']
        constructor
        · rintro ⟨-, hholder⟩
          have heq := Prod.mk.inj (Option.some.inj (hholder rfl))
          exact ⟨by rintro ⟨⟩, first, l, l', rfl, hdata, hl', heq.1.symm, heq.2.symm⟩
        · rintro ⟨-, first', k, k', hfirst', hk, hk', hoffset, hlength⟩
          cases hfirst'
          obtain rfl := StateData.lock.inj (hdata.symm.trans hk)
          obtain rfl := StateData.lock.inj (hl'.symm.trans hk')
          refine ⟨Iff.rfl, fun _ => ?_⟩
          dsimp only [Option.map_some, LockDenied.range]
          rw [hoffset, hlength]
      | share sh =>
        have hanswer : lockAnswer first = .fail .openmode := by rw [lockAnswer, hdata]
        rw [hanswer]
        refine iff_of_false (fun h => ?_) ?_
        · cases h.1.mp rfl
        · rintro ⟨-, first', k, -, hfirst', hk, -⟩
          cases hfirst'
          rw [hdata] at hk
          cases hk
  | none =>
    dsimp only
    have hok : (if isIterateError cacheStatus then Nfsstat4.inval else .ok) ≠ .denied := by
      split <;> rintro ⟨⟩
    cases s.stateIds openStateid with
    | none =>
      exact iff_of_true ⟨iff_of_false hok (by rintro ⟨⟩), fun h => absurd h hok⟩ (.inl rfl)
    | some popen =>
      dsimp only
      cases hfirst : firstState s args.file (inTheWay (args.lockArgs openStateid)) with
      | none =>
        refine iff_of_true
          ⟨iff_of_false hok lockNewOwner_ne_denied, fun h => absurd h hok⟩ (.inr ?_)
        rintro _ ⟨⟩
      | some first =>
        dsimp only
        cases hdata : first.data with
        | lock l =>
          have hanswer : (lockAnswer first).status = .denied := by rw [lockAnswer, hdata]
          refine iff_of_false (fun h => ?_) ?_
          · exact hok (h.1.mpr hanswer)
          · rintro (hnone | hall)
            · cases hnone
            · obtain ⟨sh, hsh⟩ := hall first rfl
              rw [hdata] at hsh
              cases hsh
        | share sh =>
          have hanswer : lockAnswer first = .fail .openmode := by rw [lockAnswer, hdata]
          rw [hanswer]
          refine iff_of_true ⟨iff_of_false hok (by rintro ⟨⟩), fun h => absurd h hok⟩
            (.inr fun first' hfirst' => ?_)
          cases hfirst'
          exact ⟨sh, hdata⟩

end

/-- **LOCKT predicts LOCK** exactly when the state that stops LOCK is a lock with the range of the
lock that stops LOCKT, and the stateid of the open is known. -/
theorem predicts_iff (cfg : Config) (s : States) (args : LocktArgs) (env : LockEnv)
    (openStateid : StateidOther) (cacheStatus : UInt32) :
    Predicts cfg s args env openStateid cacheStatus ↔
      Foreseen s args env.checks openStateid cacheStatus := by
  cases hchecks : env.checks with
  | some e =>
    have hlockt : nfs41OpLockt s args env.checks cacheStatus = (s, ⟨e.1, none⟩) := by
      rw [hchecks]
      rfl
    have hlock : nfs41OpLock cfg s (args.lockArgs openStateid) env = (s, .fail e.1) := by
      rw [nfs41OpLock, hchecks]
    refine iff_of_true ⟨lockt_unchanged, ?_, fun _ => ?_⟩ (Or.inl (by rintro ⟨⟩))
    · rw [hlockt, hlock]
      rfl
    · rw [hlockt, hlock]
      rfl
  | none =>
    cases hrange : rangeAccepted args.offset args.length with
    | false =>
      have hlockt : nfs41OpLockt s args env.checks cacheStatus = (s, ⟨.inval, none⟩) := by
        rw [hchecks, nfs41OpLockt, hrange]
        rfl
      have hlock : nfs41OpLock cfg s (args.lockArgs openStateid) env = (s, .fail .inval) := by
        have hargs : rangeAccepted (args.lockArgs openStateid).offset
            (args.lockArgs openStateid).length = false := hrange
        rw [nfs41OpLock, hchecks, hargs]
        rfl
      refine iff_of_true ⟨lockt_unchanged, ?_, fun _ => ?_⟩ (Or.inr (Or.inl hrange))
      · rw [hlockt, hlock]
        rfl
      · rw [hlockt, hlock]
        rfl
    | true => exact predicts_iff_of_accepted hchecks hrange

/-- A client has file 0 open, and a lock owner has bytes 10 to 14 of it locked for writing. -/
def lockedOnce : States :=
  (nfs41OpLock config1
    (opOpen config1 (.init fun _ => true) (openFile owner1 .noCreate 3 0) .clear).1
    ⟨0, writeLt, 10, 5, .openOwner ⟨0, 0, 1⟩ ⟨1, [11]⟩⟩ .clear).1

/-- **The owner's own lock**: LOCKT leaves it out, and LOCK is denied because of it. -/
theorem ownLock_not_predicts :
    ¬ Predicts config1 lockedOnce ⟨0, writeLt, 10, 5, ⟨1, [11]⟩⟩ .clear ⟨0, 0, 1⟩ 0 := by
  intro h
  have hlock : (nfs41OpLock config1 lockedOnce ((⟨0, writeLt, 10, 5, ⟨1, [11]⟩⟩ :
      LocktArgs).lockArgs ⟨0, 0, 1⟩) .clear).2.status = .denied := by decide
  have hlockt := h.denied.mpr hlock
  exact absurd hlockt (by decide)

end CloudNfs.Nfs4
