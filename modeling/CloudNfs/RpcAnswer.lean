import CloudNfs.CurrentXid

/-!
# The answer to a request (`MainNFSD/nfs_worker_thread.c`)

`nfs_rpc_execute` checks a request in several steps, each of which may answer it with an error. The
copy of the checks for NFSv2 goes on after `svcerr_auth`: without an export it follows a null
pointer, and with an export id that does not fit in a `short` it executes a request that was
refused. The port that is checked is that of `hostaddr`, which is never filled in.

* `answeredOnce_iff` — the requests for which this holds.

The access checks are taken by their results, also where `NLM`, `RQUOTA` and `MOUNT` pass them the
null export of an empty list.
-/

namespace CloudNfs.CurrentXid

open Dupreq (Call Programs)
open Nfs4 (IoExport has)
open CloudNfs.Flow ReadOnly

section

variable (programs : Programs) (nbWorker : ℕ)

/-- The export of a request of NFS: the one that the file handle names, and for NFSv4 the head of
the list. The null procedure has none. -/
def exportOf (call : Call) (env : Env) : Option IoExport :=
  if call.rqProg = programs.nfsProgram ∧ call.rqProc ≠ 0 then
    if call.rqVers = 2 ∨ call.rqVers = 3 then env.pexport else env.pexportlist
  else none

/-- **A request is answered at most once**, before or after the one call of the service function.
`callerPort` is the port that the request comes from. -/
def AnsweredOnce (s : Server) (w : ℕ) (call : Call) (env : Env) (callerPort : ℕ) : Prop :=
  (nfsRpcReceive programs nbWorker s w call env).Ends
    -- the service function is called: nothing was sent, and at most one answer is sent after it
    (fun s' => s'.sent = s.sent ∧
      (∀ rc sends, (nfsRpcFinish s' w rc sends).sent.length ≤ s.sent.length + 1) ∧
      ∀ pexport ∈ exportOf programs call env,
        has pexport.options exportOptionPrivilegedPort = true → callerPort < 1024)
    -- it is not called
    (fun s' => s'.sent.length ≤ s.sent.length + 1)
    -- no null pointer is followed
    fun _ => False

/-- The request comes to the lookup of its export. -/
def NeedsExport (s : Server) (call : Call) (env : Env) (b : Behaviour) : Prop :=
  GetsMark programs nbWorker s call env b ∧ ¬ (b.canBeDup = true ∧ env.cached = true) ∧
    call.rqProg = programs.nfsProgram ∧ call.rqProc ≠ 0

end

/-- The request gets as far as the list of the clients. -/
def ComesToAccess (b : Behaviour) (pexport : IoExport) (env : Env) : Prop :=
  ¬ (b.makesWrite = true ∧ readOnly pexport = true) ∧
    ¬ (has pexport.options exportOptionPrivilegedPort = true ∧ 1024 ≤ env.port)

/-- The request passes the checks of its client. -/
def Passes (b : Behaviour) (pexport : IoExport) (env : Env) : Prop :=
  ComesToAccess b pexport env ∧ env.access = true ∧ (b.needsCred = true → env.context = true)

/-- What a request with an export has to meet. -/
structure Safe (call : Call) (env : Env) (b : Behaviour) (callerPort : ℕ) (pexport : IoExport) :
    Prop where
  /-- an export id of NFSv2 is not negative, or the client is one that gets no answer -/
  exportid : call.rqVers = 2 → env.exportid < 0 →
    ComesToAccess b pexport env ∧ env.access = false
  /-- a request that is executed comes from a port that the export accepts -/
  port : (call.rqVers = 3 → 0 ≤ env.exportid) → Passes b pexport env →
    has pexport.options exportOptionPrivilegedPort = true → callerPort < 1024

variable {programs : Programs} {nbWorker : ℕ} {s s' s1 : Server} {w : ℕ} {call : Call} {env : Env}
  {b : Behaviour} {callerPort : ℕ} {pexport : IoExport}

/-! ## The pieces -/

/-- What `nfs_rpc_execute` does from the export on. -/
def checks (programs : Programs) (s : Server) (w : ℕ) (call : Call) (b : Behaviour)
    (pexport : Option IoExport) (env : Env) : Flow Unit Server Server := do
  refuseWrite programs s w call b pexport env
  checkClient programs s w call b pexport env
  return s

@[simp] theorem sent_mark {xid : UInt32} : (s.mark w xid).sent = s.sent := rfl

theorem length_sent_svcSendreply {what : Sent} {sends : Bool} :
    (s.svcSendreply w what sends).sent.length = s.sent.length + 1 := rfl

theorem length_sent_nfsRpcFinish (rc : Option Sent) (sends : Bool) :
    (nfsRpcFinish s w rc sends).sent.length ≤ s.sent.length + 1 := by
  cases rc with
  | none => exact Nat.le_succ _
  | some what => exact Nat.le_of_eq length_sent_svcSendreply

theorem checks_ends_iff {N R : Server → Prop} {F : Unit → Prop}
    (hprog : call.rqProg = programs.nfsProgram) (hproc : call.rqProc ≠ 0) :
    (checks programs s w call b (some pexport) env).Ends N R F ↔
      (b.makesWrite = true ∧ readOnly pexport = true →
        R (nfsRpcFinish s w (some .rofs) env.sends)) ∧
      (¬ (b.makesWrite = true ∧ readOnly pexport = true) →
        (has pexport.options exportOptionPrivilegedPort = true ∧ 1024 ≤ env.port →
          R ((s.send w .authTooweak).mark w 0)) ∧
        (¬ (has pexport.options exportOptionPrivilegedPort = true ∧ 1024 ≤ env.port) →
          (env.access = false → R (s.mark w 0)) ∧
          (env.access = true →
            (b.needsCred = true ∧ env.context = false → R ((s.send w .authTooweak).mark w 0)) ∧
            (¬ (b.needsCred = true ∧ env.context = false) → N s)))) := by
  have hgoes : call.rqProg = programs.nfsProgram ∧ call.rqProc ≠ 0 := ⟨hprog, hproc⟩
  have haccess : ¬ (call.rqProc ≠ 0 ∧ env.access = false) ↔ env.access = true := by
    rw [not_and, Bool.not_eq_false]
    exact ⟨fun h => h hproc, fun h _ => h⟩
  unfold checks refuseWrite checkClient
  rw [if_pos hprog, if_pos hgoes]
  by_cases hwrite : b.makesWrite = true
  · simp only [if_true, deref_some, next_bind, ends_bind, ends_leaveIf, haccess, pure_eq,
      ends_next, hwrite, true_and]
    simp only [hproc, ne_eq, not_false_eq_true, true_and]
  simp only [Bool.false_eq_true, if_false, deref_some, next_bind, ends_bind, ends_leaveIf,
    haccess, pure_eq, ends_next, hwrite, false_and, not_false_eq_true, true_imp_iff,
    false_imp_iff, true_and]
  simp only [hproc, ne_eq, not_false_eq_true, true_and]

/-! ## One request -/

/-- What the service function may be called with, when a request came in the state `s`. -/
def Untouched (s : Server) (w : ℕ) (P : Prop) (s' : Server) : Prop :=
  s'.sent = s.sent ∧
    (∀ rc sends, (nfsRpcFinish s' w rc sends).sent.length ≤ s.sent.length + 1) ∧ P

theorem untouched_iff {P : Prop} (h : s1.sent = s.sent) : Untouched s w P s1 ↔ P := by
  refine ⟨fun hs => hs.2.2, fun hP => ⟨h, fun rc sends => ?_, hP⟩⟩
  rw [← h]
  exact length_sent_nfsRpcFinish rc sends

theorem checks_unanswered_iff {P : Prop} (hprog : call.rqProg = programs.nfsProgram)
    (hproc : call.rqProc ≠ 0) (hsent : s1.sent = s.sent) :
    (checks programs s1 w call b (some pexport) env).Ends (Untouched s w P)
        (fun s' => s'.sent.length ≤ s.sent.length + 1) (fun _ => False) ↔
      (Passes b pexport env → P) := by
  have hrofs : (nfsRpcFinish s1 w (some .rofs) env.sends).sent.length ≤ s.sent.length + 1 := by
    rw [← hsent]
    exact length_sent_nfsRpcFinish _ _
  have hweak : ((s1.send w .authTooweak).mark w 0).sent.length ≤ s.sent.length + 1 := by
    rw [← hsent]
    exact Nat.le_refl _
  have hsilent : (s1.mark w 0).sent.length ≤ s.sent.length + 1 := by
    rw [sent_mark, hsent]
    exact Nat.le_succ _
  rw [checks_ends_iff hprog hproc]
  simp only [hrofs, hweak, hsilent, untouched_iff hsent, implies_true, true_and, Passes,
    ComesToAccess]
  constructor
  · rintro h ⟨⟨hwrite, hport⟩, haccess, hcred⟩
    refine h hwrite hport haccess fun hno => ?_
    exact absurd ((hcred hno.1).symm.trans hno.2) (by simp)
  · intro h hwrite hport haccess hcred
    refine h ⟨⟨hwrite, hport⟩, haccess, fun hneeds => ?_⟩
    by_contra hno
    exact hcred ⟨hneeds, Bool.eq_false_of_not_eq_true hno⟩

theorem checks_answered_iff {P : Prop} (hprog : call.rqProg = programs.nfsProgram)
    (hproc : call.rqProc ≠ 0) (hsent : s1.sent.length = s.sent.length + 1) :
    (checks programs s1 w call b (some pexport) env).Ends (Untouched s w P)
        (fun s' => s'.sent.length ≤ s.sent.length + 1) (fun _ => False) ↔
      ComesToAccess b pexport env ∧ env.access = false := by
  have hrofs : ¬ (nfsRpcFinish s1 w (some .rofs) env.sends).sent.length ≤ s.sent.length + 1 := by
    rw [nfsRpcFinish, length_sent_svcSendreply, sent_mark, hsent]
    omega
  have hweak : ¬ ((s1.send w .authTooweak).mark w 0).sent.length ≤ s.sent.length + 1 := by
    rw [sent_mark, Server.send, List.length_cons, hsent]
    omega
  have hsilent : (s1.mark w 0).sent.length ≤ s.sent.length + 1 := by
    rw [sent_mark, hsent]
  have hcalled : ¬ Untouched s w P s1 := by
    intro h
    rw [h.1] at hsent
    omega
  rw [checks_ends_iff hprog hproc]
  simp only [hrofs, hweak, hsilent, hcalled, imp_false, implies_true, true_and, ComesToAccess]
  constructor
  · rintro ⟨hwrite, h⟩
    obtain ⟨hport, haccess⟩ := h hwrite
    refine ⟨⟨hwrite, hport⟩, ?_⟩
    by_contra hno
    obtain ⟨hcred, hcred'⟩ := haccess hport (Bool.eq_true_of_not_eq_false hno)
    exact hcred' hcred
  · rintro ⟨⟨hwrite, hport⟩, haccess⟩
    refine ⟨hwrite, fun _ => ⟨hport, fun _ htrue => ?_⟩⟩
    exact absurd (haccess.symm.trans htrue) (by simp)

theorem not_checks_null {N R : Server → Prop} (hprog : call.rqProg = programs.nfsProgram)
    (hproc : call.rqProc ≠ 0) :
    ¬ (checks programs s w call b none env).Ends N R fun _ => False := by
  unfold checks refuseWrite checkClient
  rw [if_pos (⟨hprog, hproc⟩ : call.rqProg = programs.nfsProgram ∧ call.rqProc ≠ 0)]
  split
  · exact fun h => h
  · exact fun h => h

theorem nfs_of_makesWrite (hb : behaviour programs call = some b) (hwrite : b.makesWrite = true) :
    call.rqProg = programs.nfsProgram ∧ call.rqProc ≠ 0 := by
  have hcred : ∀ needsCred, Behaviour.ofCred needsCred ≠ b := by
    rintro needsCred rfl
    cases hwrite
  -- the null procedures do not write
  have hnull : ∀ (descs : List FunctionDesc) (dup : Bool),
      (descs[0]?).map (·.makesWrite) = some false →
      ((descs[call.rqProc.toNat]?).map fun desc =>
        (⟨desc.makesWrite, desc.needsCred, dup⟩ : Behaviour)) = some b → call.rqProc ≠ 0 := by
    intro descs dup hfirst hdesc hzero
    rw [hzero] at hdesc
    obtain ⟨desc, hdesc, hdescb⟩ := Option.map_eq_some_iff.mp hdesc
    have hdesc' : descs[0]? = some desc := hdesc
    rw [hdesc'] at hfirst
    rw [← hdescb] at hwrite
    exact absurd (hwrite.symm.trans (Option.some.inj hfirst)) (by simp)
  unfold behaviour at hb
  split at hb
  next hprog =>
    refine ⟨hprog, ?_⟩
    split at hb
    · exact hnull _ _ rfl hb
    split at hb
    · exact hnull _ _ rfl hb
    repeat' split at hb
    · cases hb
    · exact absurd (Option.some.inj hb) (hcred _)
    · cases hb
  next =>
    repeat' split at hb
    all_goals first
      | exact absurd (Option.some.inj hb) (hcred _)
      | cases hb

theorem checks_other (hb : behaviour programs call = some b)
    (hother : ¬ (call.rqProg = programs.nfsProgram ∧ call.rqProc ≠ 0)) (hsent : s1.sent = s.sent)
    {P : Prop} (hP : P) (pexport : Option IoExport) :
    (checks programs s1 w call b pexport env).Ends (Untouched s w P)
      (fun s' => s'.sent.length ≤ s.sent.length + 1) fun _ => False := by
  have hwrite : ¬ b.makesWrite = true := fun h => hother (nfs_of_makesWrite hb h)
  unfold checks refuseWrite checkClient
  rw [if_neg hother, if_neg hwrite]
  simp only [ends_bind, ends_leaveIf, pure_eq, ends_next, untouched_iff hsent, hP, sent_mark,
    hsent, implies_true, and_true]
  refine ⟨fun _ => Nat.le_succ _, fun _ _ => ?_⟩
  rw [Server.send, List.length_cons, hsent]

theorem version_of_behaviour (hb : behaviour programs call = some b)
    (hprog : call.rqProg = programs.nfsProgram) :
    call.rqVers = 2 ∨ call.rqVers = 3 ∨ call.rqVers = 4 := by
  unfold behaviour at hb
  rw [if_pos hprog] at hb
  split at hb
  next h => exact .inl h
  split at hb
  next h => exact .inr (.inl h)
  split at hb
  next h => exact .inr (.inr h)
  next => cases hb

theorem afterCache_iff (s : Server) (w : ℕ) (env : Env) (callerPort : ℕ)
    (hb : behaviour programs call = some b) :
    (getExport programs (s.mark w call.xid) w call env).Ends
      (fun r => (checks programs r.1 w call b r.2 env).Ends
        (Untouched s w (∀ pexport ∈ exportOf programs call env,
          has pexport.options exportOptionPrivilegedPort = true → callerPort < 1024))
        (fun s' => s'.sent.length ≤ s.sent.length + 1) fun _ => False)
      (fun s' => s'.sent.length ≤ s.sent.length + 1) (fun _ => False) ↔
      (call.rqProg = programs.nfsProgram → call.rqProc ≠ 0 →
        (call.rqVers ≠ 3 → exportOf programs call env ≠ none) ∧
          ∀ pexport ∈ exportOf programs call env, Safe call env b callerPort pexport) := by
  by_cases hnfs : call.rqProg = programs.nfsProgram ∧ call.rqProc ≠ 0
  · obtain ⟨hprog, hproc⟩ := hnfs
    simp only [hprog, hproc, true_imp_iff, ne_eq, not_false_eq_true]
    have hsent : (s.mark w call.xid).sent = s.sent := sent_mark
    -- an export that was found, with an export id that was accepted
    have hfound : ∀ pexport, exportOf programs call env = some pexport →
        (call.rqVers = 2 → ¬ env.exportid < 0) → (call.rqVers = 3 → 0 ≤ env.exportid) →
        ((Passes b pexport env → ∀ x ∈ exportOf programs call env,
            has x.options exportOptionPrivilegedPort = true → callerPort < 1024) ↔
          (¬ call.rqVers = 3 → ¬ exportOf programs call env = none) ∧
            ∀ x ∈ exportOf programs call env, Safe call env b callerPort x) := by
      intro pexport hexport hv2 hv3
      rw [hexport]
      constructor
      · intro h
        refine ⟨fun _ => Option.some_ne_none _, fun x hx => ?_⟩
        cases hx
        exact ⟨fun hvers hid => absurd hid (hv2 hvers), fun _ hpasses => h hpasses pexport rfl⟩
      · intro h hpasses x hx
        cases hx
        exact (h.2 pexport rfl).port hv3 hpasses
    unfold getExport
    rcases version_of_behaviour hb hprog with hvers | hvers | hvers
    · -- NFSv2
      have hexport : exportOf programs call env = env.pexport := by
        rw [exportOf, if_pos ⟨hprog, hproc⟩, if_pos (.inl hvers)]
      rw [if_pos ⟨hprog, hvers⟩, if_neg hproc, ends_next]
      cases hlookup : env.pexport with
      | none =>
        refine iff_of_false (not_checks_null hprog hproc) fun h => ?_
        exact h.1 (by rw [hvers]; decide) (hexport.trans hlookup)
      | some pexport =>
        simp only [Option.isNone_some, Bool.false_eq_true, if_false]
        by_cases hid : env.exportid < 0
        · rw [if_pos hid, checks_answered_iff hprog hproc rfl, hexport, hlookup]
          constructor
          · rintro ⟨hcomes, haccess⟩
            refine ⟨fun _ => Option.some_ne_none _, fun x hx => ?_⟩
            cases hx
            refine ⟨fun _ _ => ⟨hcomes, haccess⟩, fun _ hpasses => ?_⟩
            exact absurd (haccess.symm.trans hpasses.2.1) (by simp)
          · exact fun h => (h.2 pexport rfl).exportid hvers hid
        · rw [if_neg hid, checks_unanswered_iff hprog hproc hsent]
          refine hfound pexport (hexport.trans hlookup) (fun _ => hid) fun hv3 => ?_
          exact absurd (hvers.symm.trans hv3) (by decide)
    · -- NFSv3: both errors return
      have hexport : exportOf programs call env = env.pexport := by
        rw [exportOf, if_pos ⟨hprog, hproc⟩, if_pos (.inr hvers)]
      have hv2 : ¬ (call.rqProg = programs.nfsProgram ∧ call.rqVers = 2) := fun h =>
        absurd (hvers.symm.trans h.2) (by decide)
      have herror : ((s.mark w call.xid).send w .authFailed).sent.length ≤ s.sent.length + 1 :=
        Nat.le_refl _
      rw [if_neg hv2, if_pos ⟨hprog, hvers⟩, if_neg hproc]
      by_cases hid : env.exportid < 0
      · rw [if_pos hid]
        refine iff_of_true herror ⟨fun hno => absurd hvers hno, fun x _ => ?_⟩
        refine ⟨fun h => ?_, fun h => ?_⟩
        · exact absurd (hvers.symm.trans h) (by decide)
        · exact absurd (h hvers) (by omega)
      rw [if_neg hid]
      cases hlookup : env.pexport with
      | none =>
        refine iff_of_true herror ⟨fun hno => absurd hvers hno, fun x hx => ?_⟩
        rw [hexport, hlookup] at hx
        cases hx
      | some pexport =>
        simp only [Option.isNone_some, Bool.false_eq_true, if_false, ends_next]
        rw [checks_unanswered_iff hprog hproc hsent]
        exact hfound pexport (hexport.trans hlookup) (fun _ => hid) fun _ => by omega
    · -- NFSv4
      have hv2 : ¬ call.rqVers = 2 := fun h => absurd (hvers.symm.trans h) (by decide)
      have hv3 : ¬ call.rqVers = 3 := fun h => absurd (hvers.symm.trans h) (by decide)
      have hexport : exportOf programs call env = env.pexportlist := by
        rw [exportOf, if_pos ⟨hprog, hproc⟩, if_neg (not_or.mpr ⟨hv2, hv3⟩)]
      rw [if_neg fun h => hv2 h.2, if_neg fun h => hv3 h.2, ends_next]
      cases hlookup : env.pexportlist with
      | none =>
        refine iff_of_false (not_checks_null hprog hproc) fun h => ?_
        exact h.1 hv3 (hexport.trans hlookup)
      | some pexport =>
        rw [checks_unanswered_iff hprog hproc hsent]
        exact hfound pexport (hexport.trans hlookup) (fun h => absurd h hv2) fun h => absurd h hv3
  · -- no export, or the whole list: nothing is looked up
    have hexport : exportOf programs call env = none := if_neg hnfs
    refine iff_of_true ?_ fun hprog hproc => absurd ⟨hprog, hproc⟩ hnfs
    have hrest : ∀ pexport, (checks programs (s.mark w call.xid) w call b pexport env).Ends
        (Untouched s w (∀ pexport ∈ exportOf programs call env,
          has pexport.options exportOptionPrivilegedPort = true → callerPort < 1024))
        (fun s' => s'.sent.length ≤ s.sent.length + 1) fun _ => False :=
      checks_other hb hnfs rfl (by simp [hexport])
    unfold getExport
    split
    next hv2 =>
      have hnull : call.rqProc = 0 := by
        by_contra hproc
        exact hnfs ⟨hv2.1, hproc⟩
      rw [if_pos hnull]
      exact hrest none
    next =>
      split
      next hv3 =>
        have hnull : call.rqProc = 0 := by
          by_contra hproc
          exact hnfs ⟨hv3.1, hproc⟩
        rw [if_pos hnull]
        exact hrest none
      next => exact hrest env.pexportlist

/-- **A request is answered at most once** exactly when, if it comes to the lookup of its export:
there is an export, except for NFSv3; an export id of NFSv2 that is negative is that of an export
whose list refuses the client; and the client's own port is one that the export accepts, if the
request passes the checks. -/
theorem answeredOnce_iff (programs : Programs) (nbWorker : ℕ) (s : Server) (w : ℕ) (call : Call)
    (env : Env) (callerPort : ℕ) :
    AnsweredOnce programs nbWorker s w call env callerPort ↔
      ∀ b, NeedsExport programs nbWorker s call env b →
        (call.rqVers ≠ 3 → exportOf programs call env ≠ none) ∧
          ∀ pexport ∈ exportOf programs call env, Safe call env b callerPort pexport := by
  unfold AnsweredOnce nfsRpcReceive
  cases hb : behaviour programs call with
  | none =>
    simp only [ends_bind, ends_leaveIf, ends_ret]
    refine iff_of_true ⟨fun _ => Nat.le_succ _, fun _ => Nat.le_refl _⟩ fun b hneeds => ?_
    exact absurd (hb.symm.trans hneeds.1.2.1) (by simp)
  | some b =>
    have hafter := afterCache_iff s w env callerPort hb
    simp only [checks, ends_bind] at hafter
    simp only [ends_bind, ends_leaveIf]
    constructor
    · rintro ⟨-, h⟩ b' ⟨⟨hterm, hb', hdecoded, hmanaged⟩, hcached, hprog, hproc⟩
      cases hb.symm.trans hb'
      have hrest := ((h (by simp [hterm])).2 (by simp [hdecoded])).2 (by simp [hmanaged])
      exact hafter.mp (hrest.2 hcached) hprog hproc
    · intro h
      refine ⟨fun _ => Nat.le_succ _, fun hterm => ⟨fun _ => Nat.le_refl _, fun hdecoded =>
        ⟨fun _ => Nat.le_succ _, fun hmanaged => ⟨fun _ => Nat.le_refl _, fun hcached => ?_⟩⟩⟩⟩
      refine hafter.mpr fun hprog hproc => h b ⟨⟨?_, hb, ?_, ?_⟩, hcached, hprog, hproc⟩
      · exact Bool.eq_false_of_not_eq_true hterm
      · exact Bool.eq_true_of_not_eq_false hdecoded
      · exact Bool.eq_false_of_not_eq_true hmanaged

/-- The numbers of the programs, without NLM and RQUOTA. -/
def twoPrograms : Programs := ⟨100003, 100005, none, none⟩

/-- A Getattr of NFSv2. -/
def getattr2Call : Call := ⟨1, 7, 100003, 2, 1⟩

/-- A request whose checks all succeed. -/
def granted (exportid : ℤ) (pexport : Option IoExport) (port : ℕ) : Env where
  terminate := false
  decoded := true
  sameAddr := fun _ => false
  cached := false
  exportid := exportid
  pexport := pexport
  pexportlist := some ⟨.rw, 0, 0, 0, 0, 0⟩
  port := port
  access := true
  context := true
  sends := true

/-- An export whose clients have to use privileged ports. -/
def privilegedExport : IoExport := ⟨.rw, exportOptionPrivilegedPort, 0, 0, 0, 0⟩

/-- **The slips**: a file handle of NFSv2 without an export, one with the export 65535, and a
request from the port 5000 while `hostaddr` happens to hold the port 700. -/
theorem not_answeredOnce :
    ¬ AnsweredOnce twoPrograms 1 Server.init 0 getattr2Call (granted 9 none 700) 700 ∧
      ¬ AnsweredOnce twoPrograms 1 Server.init 0 getattr2Call
        (granted (-1) (some ⟨.rw, 0, 0, 0, 0, 0⟩) 700) 700 ∧
      ¬ AnsweredOnce twoPrograms 1 Server.init 0 writeCall
        (granted 1 (some privilegedExport) 700) 5000 := by
  refine ⟨fun h => ?_, fun h => ?_, fun h => ?_⟩
  · have hnull : nfsRpcReceive twoPrograms 1 Server.init 0 getattr2Call (granted 9 none 700) =
        .fault () := rfl
    rw [AnsweredOnce, hnull] at h
    exact h
  · have hcalled : nfsRpcReceive twoPrograms 1 Server.init 0 getattr2Call
        (granted (-1) (some ⟨.rw, 0, 0, 0, 0, 0⟩) 700) =
        .next ((Server.init.mark 0 7).send 0 .authFailed) := rfl
    rw [AnsweredOnce, hcalled, ends_next] at h
    cases h.1
  · have hcalled : nfsRpcReceive twoPrograms 1 Server.init 0 writeCall
        (granted 1 (some privilegedExport) 700) = .next (Server.init.mark 0 7) := rfl
    rw [AnsweredOnce, hcalled, ends_next] at h
    exact absurd (h.2.2 privilegedExport rfl (by decide)) (by decide)

end CloudNfs.CurrentXid
