import CloudNfs.Dupreq

/-!
# Answers from the duplicate request cache (`MainNFSD/nfs_worker_thread.c`)

`nfs_rpc_execute` looks a request up in the duplicate request cache by its xid. If there is a reply,
the request is answered with it and not executed. The key is the xid alone: neither the address of
the client nor the procedure is compared, and a request gets the reply to any call that had the same
xid.

* `nfsRpcReceive`, `nfsRpcFinish` — `nfs_rpc_execute` up to the call of the service function, and
  after it. Any number of workers execute requests at the same time.
* `answersOwn_iff_noCollision` — this holds throughout a run exactly when no request is looked up
  while the reply to another call is cached under its xid.
-/

namespace CloudNfs.Dupreq

open Function (update)

/-! ## Requests -/

/-- What identifies a call: the client and the fields of the request. -/
structure Call where
  client : ℕ
  xid : UInt32
  rqProg : UInt32
  rqVers : UInt32
  rqProc : UInt32

/-- The programs of the server; NLM and RQUOTA may be left out of the build. -/
structure Programs where
  nfsProgram : UInt32
  mntProgram : UInt32
  nlmProgram : Option UInt32
  rquotaProgram : Option UInt32

/-- The procedures of `nfs2_func_desc` with `CAN_BE_DUP`: Setattr, and from Write to Rmdir. -/
def nfs2CanBeDup (rqProc : UInt32) : Bool := rqProc = 2 ∨ 8 ≤ rqProc ∧ rqProc ≤ 15

/-- The procedures of `nfs3_func_desc` with `CAN_BE_DUP`: Setattr, and from Write to Link. -/
def nfs3CanBeDup (rqProc : UInt32) : Bool := rqProc = 2 ∨ 7 ≤ rqProc ∧ rqProc ≤ 15

/-- The function that is called for a request: whether its replies are cached, and `none` when the
server does not know it. -/
def funcdesc (programs : Programs) (call : Call) : Option Bool :=
  if call.rqProg = programs.nfsProgram then
    if call.rqVers = 2 then
      if call.rqProc > 17 then none else some (nfs2CanBeDup call.rqProc)
    else if call.rqVers = 3 then
      if call.rqProc > 21 then none else some (nfs3CanBeDup call.rqProc)
    else if call.rqVers = 4 then
      if call.rqProc > 1 then none else some false
    else none
  else if call.rqProg = programs.mntProgram then
    if call.rqProc > 5 then none
    else if call.rqVers = 1 ∨ call.rqVers = 3 then some false
    else none
  else if some call.rqProg = programs.nlmProgram then
    if call.rqVers = 4 then
      if call.rqProc > 23 then none else some false
    else none
  else if some call.rqProg = programs.rquotaProgram then
    if call.rqVers = 1 ∨ call.rqVers = 2 then
      if call.rqProc > 4 then none else some false
    else none
  else none

/-! ## Execution -/

/-- A reply, with the call it was made for, which the cache does not keep. -/
structure Produced (R : Type) where
  res : R
  call : Call

structure Server (R : Type) where
  cache : Cache (Produced R)
  /-- `current_xid` of each worker -/
  currentXid : ℕ → UInt32
  executing : ℕ → Option Call
  executed : List Call
  /-- the calls that were answered from the cache, with the replies they got -/
  answers : List (Call × Produced R)

inductive Outcome (R : Type) where
  /-- it is refused before the service function, with or without a reset of `current_xid` -/
  | refused (reset : Bool)
  /-- `NFS_REQ_DROP` -/
  | dropped
  /-- there is a reply, which is sent or cannot be sent -/
  | replied (res : R) (sent : Bool)

section

variable {R : Type}

/-- Another worker is taken to have the request. The address that is compared, `hostaddr`, is never
set, so that the result of the comparison with each worker is `sameAddr`, anything. -/
def alreadyManaged (nbWorker : ℕ) (s : Server R) (call : Call) (sameAddr : ℕ → Bool) : Bool :=
  (List.range nbWorker).any fun i =>
    s.currentXid i = call.xid ∧ s.currentXid i ≠ 0 ∧ sameAddr i = true

/-- `nfs_rpc_execute` up to the call of the service function. -/
def nfsRpcReceive (programs : Programs) (nbWorker : ℕ) (s : Server R) (w : ℕ) (call : Call)
    (decoded : Bool) (sameAddr : ℕ → Bool) (now : ℤ) : Option (Server R) :=
  match s.executing w with
  | some _ => none
  | none =>
    match funcdesc programs call with
    | none => some s
    | some doDupreqCache =>
      if decoded = false then some s
      else if alreadyManaged nbWorker s call sameAddr then some s
      else
        let s := { s with currentXid := update s.currentXid w call.xid }
        if doDupreqCache then
          match nfsDupreqGet s.cache call.xid now with
          | (cache, some entry) =>
            -- returns without a reset of `current_xid`
            some { s with cache := cache, answers := (call, entry.resNfs) :: s.answers }
          | (cache, none) =>
            some { s with cache := cache, executing := update s.executing w (some call) }
        else some { s with executing := update s.executing w (some call) }

/-- `nfs_rpc_execute` from the call of the service function on. -/
def nfsRpcFinish (programs : Programs) (param : Param) (s : Server R) (w : ℕ) (outcome : Outcome R)
    (now : ℤ) (env : AddEnv) : Option (Server R) :=
  match s.executing w with
  | none => none
  | some call =>
    let s := { s with executing := update s.executing w none }
    match outcome with
    | .refused reset =>
      some { s with
        currentXid := if reset then update s.currentXid w 0 else s.currentXid }
    | .dropped =>
      some { s with
        currentXid := update s.currentXid w 0, executed := call :: s.executed }
    | .replied res sent =>
      let s :=
        { s with currentXid := update s.currentXid w 0, executed := call :: s.executed }
      if sent = true ∧ funcdesc programs call = some true then
        let entry := ⟨call.xid, ⟨res, call⟩, call.rqProg, call.rqVers, call.rqProc, now⟩
        some { s with cache := (nfsDupreqAdd param s.cache w entry env).1 }
      else some s

inductive WorkerOp (R : Type) where
  /-- it takes a request -/
  | receive (w : ℕ) (call : Call) (decoded : Bool) (sameAddr : ℕ → Bool) (now : ℤ)
  | finish (w : ℕ) (outcome : Outcome R) (now : ℤ) (env : AddEnv)
  | invalidate (w : ℕ) (now : ℤ)
  | gcInvalid (w : ℕ)

def workerStep (programs : Programs) (param : Param) (nbWorker : ℕ) (s : Server R) :
    WorkerOp R → Option (Server R)
  | .receive w call decoded sameAddr now =>
    nfsRpcReceive programs nbWorker s w call decoded sameAddr now
  | .finish w outcome now env => nfsRpcFinish programs param s w outcome now env
  | .invalidate w now => some { s with cache := lruInvalidateByFunction param s.cache w now }
  | .gcInvalid w => some { s with cache := lruGcInvalid param s.cache w }

def Server.init (mem : ℕ → DupreqEntry (Produced R)) : Server R :=
  ⟨Dupreq.init mem, fun _ => 0, fun _ => none, [], []⟩

/-! ## The property -/

/-- A call that was answered from the cache got the reply to an earlier call with the same xid, of
the same client, and to the same program, version and procedure. -/
def AnswersOwn (s : Server R) : Prop :=
  ∀ a ∈ s.answers, a.2.call = a.1 ∧ a.2.call ∈ s.executed

/-- A request comes to the cache. -/
def LooksUp (programs : Programs) (nbWorker : ℕ) (s : Server R) (w : ℕ) (call : Call)
    (decoded : Bool) (sameAddr : ℕ → Bool) : Prop :=
  s.executing w = none ∧ funcdesc programs call = some true ∧ decoded = true ∧
    alreadyManaged nbWorker s call sameAddr = false

/-- When a request comes to the cache, there is no reply to another call under its xid. -/
def NoCollision (programs : Programs) (nbWorker : ℕ) (s : Server R) :
    WorkerOp R → Server R → Prop
  | .receive w call decoded sameAddr _, _ =>
    LooksUp programs nbWorker s w call decoded sameAddr →
      ∀ p, s.cache.htDupreq call.xid = some p → (s.cache.mem p).resNfs.call = call
  | _, _ => True

/-! ## Steps -/

variable {programs : Programs} {param : Param} {nbWorker : ℕ} {s s' : Server R} {w : ℕ}
  {call : Call} {decoded : Bool} {sameAddr : ℕ → Bool} {now : ℤ} {outcome : Outcome R}
  {env : AddEnv}

/-- **What a request can do**: it changes the cache by a lookup at most, and it is answered from the
cache exactly when it comes there and finds its xid. -/
theorem nfsRpcReceive_cases
    (h : nfsRpcReceive programs nbWorker s w call decoded sameAddr now = some s') :
    (s'.cache = s.cache ∨ s'.cache = (nfsDupreqGet s.cache call.xid now).1) ∧
      s'.executed = s.executed ∧
      ((s'.answers = s.answers ∧ (LooksUp programs nbWorker s w call decoded sameAddr →
          s.cache.htDupreq call.xid = none)) ∨
        ∃ p, s.cache.htDupreq call.xid = some p ∧
          LooksUp programs nbWorker s w call decoded sameAddr ∧
          s'.answers = (call, (s.cache.mem p).resNfs) :: s.answers) := by
  unfold nfsRpcReceive at h
  split at h
  next => cases h
  rename_i hidle
  split at h
  next hnone =>
    cases h
    refine ⟨.inl rfl, rfl, .inl ⟨rfl, fun hlook => ?_⟩⟩
    cases hnone.symm.trans hlook.2.1
  rename_i dup hdup
  by_cases hdecoded : decoded = false
  · rw [if_pos hdecoded] at h
    cases h
    refine ⟨.inl rfl, rfl, .inl ⟨rfl, fun hlook => ?_⟩⟩
    cases hdecoded.symm.trans hlook.2.2.1
  rw [if_neg hdecoded] at h
  by_cases hmanaged : alreadyManaged nbWorker s call sameAddr = true
  · rw [if_pos hmanaged] at h
    cases h
    refine ⟨.inl rfl, rfl, .inl ⟨rfl, fun hlook => ?_⟩⟩
    cases hmanaged.symm.trans hlook.2.2.2
  rw [if_neg hmanaged] at h
  cases dup with
  | false =>
    cases h
    refine ⟨.inl rfl, rfl, .inl ⟨rfl, fun hlook => ?_⟩⟩
    cases hdup.symm.trans hlook.2.1
  | true =>
    have hlook : LooksUp programs nbWorker s w call decoded sameAddr :=
      ⟨hidle, hdup, Bool.eq_true_of_not_eq_false hdecoded,
        Bool.eq_false_of_not_eq_true hmanaged⟩
    rw [if_pos rfl] at h
    unfold nfsDupreqGet at h ⊢
    dsimp only at h
    cases htable : s.cache.htDupreq call.xid with
    | none =>
      rw [htable] at h
      cases h
      exact ⟨.inl rfl, rfl, .inl ⟨rfl, fun _ => rfl⟩⟩
    | some p =>
      rw [htable] at h
      cases h
      exact ⟨.inr rfl, rfl, .inr ⟨p, rfl, hlook, rfl⟩⟩

theorem nfsRpcFinish_cases (h : nfsRpcFinish programs param s w outcome now env = some s') :
    s'.answers = s.answers ∧ (∀ call ∈ s.executed, call ∈ s'.executed) ∧
      (s'.cache = s.cache ∨ ∃ entry : DupreqEntry (Produced R),
        entry.resNfs.call ∈ s'.executed ∧
          (nfsDupreqAdd param s.cache w entry env).1 = s'.cache) := by
  unfold nfsRpcFinish at h
  split at h
  next => cases h
  rename_i call hcall
  cases outcome with
  | refused reset =>
    cases h
    exact ⟨rfl, fun call hmem => hmem, .inl rfl⟩
  | dropped =>
    cases h
    exact ⟨rfl, fun call hmem => List.mem_cons_of_mem _ hmem, .inl rfl⟩
  | replied res sent =>
    dsimp only at h
    split at h
    next =>
      cases h
      exact ⟨rfl, fun call hmem => List.mem_cons_of_mem _ hmem,
        Or.inr ⟨_, List.mem_cons_self .., rfl⟩⟩
    next =>
      cases h
      exact ⟨rfl, fun call hmem => List.mem_cons_of_mem _ hmem, .inl rfl⟩

/-- The cache is sound, and its replies are those of calls that were executed. -/
structure CacheInv (s : Server R) : Prop where
  sound : Sound s.cache
  produced : Entries s.cache fun e => e.resNfs.call ∈ s.executed

theorem cacheInv_init (mem : ℕ → DupreqEntry (Produced R)) : CacheInv (Server.init mem) :=
  ⟨sound_init mem, nofun⟩

theorem CacheInv.step {op : WorkerOp R} (h : CacheInv s)
    (hstep : workerStep programs param nbWorker s op = some s') : CacheInv s' := by
  cases op with
  | receive w call decoded sameAddr now =>
    obtain ⟨hcache, hexecuted, -⟩ := nfsRpcReceive_cases hstep
    rcases hcache with hcache | hcache
    · refine ⟨?_, ?_⟩
      · rw [hcache]
        exact h.sound
      · rw [hcache, hexecuted]
        exact h.produced
    · refine ⟨?_, ?_⟩
      · rw [hcache]
        exact h.sound.get
      · rw [hcache, hexecuted]
        exact h.produced.get fun e t he => he
  | finish w outcome now env =>
    obtain ⟨-, hexecuted, hcache⟩ := nfsRpcFinish_cases hstep
    have hproduced : Entries s.cache fun e => e.resNfs.call ∈ s'.executed :=
      h.produced.mono fun e he => hexecuted _ he
    rcases hcache with hcache | ⟨entry, hentry, hadd⟩
    · refine ⟨?_, ?_⟩
      · rw [hcache]
        exact h.sound
      · rw [hcache]
        exact hproduced
    · exact ⟨h.sound.add hadd, hproduced.add h.sound hadd hentry⟩
  | invalidate w now =>
    cases hstep
    exact ⟨h.sound.invalidate, h.produced.invalidate⟩
  | gcInvalid w =>
    cases hstep
    exact ⟨h.sound.gcInvalid, h.produced.gcInvalid h.sound⟩

/-- **A step** answers each call with its own answer, if it meets the condition. -/
theorem AnswersOwn.step {op : WorkerOp R} (ha : AnswersOwn s) (h : CacheInv s)
    (hstep : workerStep programs param nbWorker s op = some s')
    (hno : NoCollision programs nbWorker s op s') : AnswersOwn s' := by
  cases op with
  | receive w call decoded sameAddr now =>
    obtain ⟨-, hexecuted, hanswers⟩ := nfsRpcReceive_cases hstep
    rcases hanswers with ⟨hanswers, -⟩ | ⟨p, hp, hlook, hanswers⟩
    · rw [AnswersOwn, hanswers, hexecuted]
      exact ha
    · rw [AnswersOwn, hanswers, hexecuted]
      intro a hmem
      rcases List.mem_cons.mp hmem with rfl | hmem
      · exact ⟨hno hlook p hp, h.produced _ p hp⟩
      · exact ha a hmem
  | finish w outcome now env =>
    obtain ⟨hanswers, hexecuted, -⟩ := nfsRpcFinish_cases hstep
    intro a hmem
    rw [hanswers] at hmem
    exact ⟨(ha a hmem).1, hexecuted _ (ha a hmem).2⟩
  | invalidate w now =>
    cases hstep
    exact ha
  | gcInvalid w =>
    cases hstep
    exact ha

theorem AnswersOwn.noCollision {op : WorkerOp R} (ha : AnswersOwn s')
    (hstep : workerStep programs param nbWorker s op = some s') :
    NoCollision programs nbWorker s op s' := by
  cases op with
  | receive w call decoded sameAddr now =>
    intro hlook p hp
    obtain ⟨-, -, hanswers⟩ := nfsRpcReceive_cases hstep
    rcases hanswers with ⟨-, hmiss⟩ | ⟨q, hq, -, hanswers⟩
    · cases hp.symm.trans (hmiss hlook)
    · cases hp.symm.trans hq
      refine (ha (call, (s.cache.mem p).resNfs) ?_).1
      rw [hanswers]
      exact List.mem_cons_self ..
  | finish w outcome now env => trivial
  | invalidate w now => trivial
  | gcInvalid w => trivial

/-- **Answers from the cache**: throughout a run, every request that is answered from the cache gets
the reply to an earlier call of the same client with the same xid, program, version and procedure,
exactly when no request comes to the cache while it has, under the xid of the request, the reply to
another call. -/
theorem answersOwn_iff_noCollision (programs : Programs) (param : Param) (nbWorker : ℕ)
    (mem : ℕ → DupreqEntry (Produced R)) (ops : List (WorkerOp R)) :
    Always (workerStep programs param nbWorker) AnswersOwn (Server.init mem) ops ↔
      AllSteps (workerStep programs param nbWorker) (NoCollision programs nbWorker)
        (Server.init mem) ops := by
  have hinit : AnswersOwn (Server.init mem) := by
    intro a ha
    cases ha
  apply always_iff_allSteps (I := fun s => CacheInv s ∧ AnswersOwn s) ⟨cacheInv_init mem, hinit⟩
  · exact fun s h => h.2
  · exact fun s op s' h hstep hno => ⟨h.1.step hstep, h.2.step h.1 hstep hno⟩
  · exact fun s op s' h hstep ha => ha.noCollision hstep

end

/-- A Write and a Remove of NFSv3 with the same xid, of two clients. -/
def writeCall : Call := ⟨1, 7, 100003, 3, 7⟩

def removeCall : Call := ⟨2, 7, 100003, 3, 12⟩

/-- The Remove of one client is answered with the reply to the Write of another and not executed. -/
theorem sameXid_breaks_answersOwn :
    ¬ ∀ (programs : Programs) (param : Param) (nbWorker : ℕ)
        (mem : ℕ → DupreqEntry (Produced Unit)) (ops : List (WorkerOp Unit)),
      Always (workerStep programs param nbWorker) AnswersOwn (Server.init mem) ops := by
  intro h
  have hall := h ⟨100003, 100005, none, none⟩ ⟨1, 0, 60⟩ 1
    (fun _ => ⟨0, ⟨(), writeCall⟩, 0, 0, 0, 0⟩)
    [.receive 0 writeCall true (fun _ => false) 0,
      .finish 0 (.replied () true) 0 ⟨true, true, true⟩,
      .receive 0 removeCall true (fun _ => false) 0]
  obtain ⟨-, hall⟩ := hall
  obtain ⟨-, hall⟩ := hall _ rfl
  obtain ⟨-, hall⟩ := hall _ rfl
  have hlast := hall _ rfl
  have hanswer := (hlast (removeCall, ⟨(), writeCall⟩) (List.mem_singleton.mpr rfl)).1
  cases hanswer

end CloudNfs.Dupreq
