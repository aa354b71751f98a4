import CloudNfs.EarlyReturn
import CloudNfs.Nfs23Modify
import CloudNfs.RpcExecute

/-!
# The mark of the current request (`MainNFSD/nfs_worker_thread.c`)

While a worker executes a request, `current_xid` in its data is the xid of the request. A request
with the same xid that comes to another worker meanwhile is not executed. Most of the places where
`nfs_rpc_execute` returns set `current_xid` back to 0, with the words "No more xid managed"; a reply
from the duplicate request cache and a bad file handle of NFSv3 do not.

* `marksExecuting_iff` — this holds throughout a run exactly when no marked request is answered from
  the cache or has a bad file handle of NFSv3.
-/

namespace CloudNfs.CurrentXid

open Dupreq (Call Programs)
open Nfs4 (IoExport has)
open CloudNfs.Flow ReadOnly

/-! ## Functions of the server -/

/-- `dispatch_behaviour` -/
structure Behaviour where
  makesWrite : Bool
  needsCred : Bool
  canBeDup : Bool

/-- A function that is not marked as one that writes, or whose replies are cached. -/
def Behaviour.ofCred (needsCred : Bool) : Behaviour := ⟨false, needsCred, false⟩

/-- The procedures of `nlm4_func_desc` with `NEEDS_CRED`. -/
def nlm4NeedsCred (rqProc : UInt32) : Bool :=
  1 ≤ rqProc ∧ rqProc ≤ 4 ∨ 6 ≤ rqProc ∧ rqProc ≤ 9

/-- `funcdesc.dispatch_behaviour` for a request; `none` when the server does not know it. -/
def behaviour (programs : Programs) (call : Call) : Option Behaviour :=
  if call.rqProg = programs.nfsProgram then
    if call.rqVers = 2 then (nfs2FuncDesc[call.rqProc.toNat]?).map fun desc =>
      ⟨desc.makesWrite, desc.needsCred, Dupreq.nfs2CanBeDup call.rqProc⟩
    else if call.rqVers = 3 then (nfs3FuncDesc[call.rqProc.toNat]?).map fun desc =>
      ⟨desc.makesWrite, desc.needsCred, Dupreq.nfs3CanBeDup call.rqProc⟩
    else if call.rqVers = 4 then
      if call.rqProc > 1 then none else some (.ofCred (call.rqProc = 1))
    else none
  else if call.rqProg = programs.mntProgram then
    if call.rqProc > 5 then none
    else if call.rqVers = 1 ∨ call.rqVers = 3 then some (.ofCred (call.rqProc = 1))
    else none
  else if some call.rqProg = programs.nlmProgram then
    if call.rqVers = 4 then
      if call.rqProc > 23 then none else some (.ofCred (nlm4NeedsCred call.rqProc))
    else none
  else if some call.rqProg = programs.rquotaProgram then
    if call.rqVers = 1 ∨ call.rqVers = 2 then
      if call.rqProc > 4 then none else some (.ofCred (call.rqProc ≠ 0))
    else none
  else none

/-! ## Execution -/

inductive Sent where
  | decode
  /-- `svcerr_auth` with `AUTH_FAILED` -/
  | authFailed
  /-- `svcerr_auth` with `AUTH_TOOWEAK` -/
  | authTooweak
  | cached
  | reply
  /-- `NFSERR_ROFS` or `NFS3ERR_ROFS` -/
  | rofs

structure Server where
  /-- `current_xid` of each worker -/
  currentXid : ℕ → UInt32
  /-- whether each worker is in a service function -/
  executing : ℕ → Bool
  sent : List (ℕ × Sent)

/-- What is answered from outside while a request is executed. -/
structure Env where
  terminate : Bool
  /-- `svc_getargs` -/
  decoded : Bool
  /-- `cmp_sockaddr` with the address of each worker; the other address, `hostaddr`, is never set -/
  sameAddr : ℕ → Bool
  /-- `nfs_dupreq_get` finds a reply -/
  cached : Bool
  /-- `nfs2_FhandleToExportId` or `nfs3_FhandleToExportId` -/
  exportid : ℤ
  /-- `nfs_Get_export_by_id` -/
  pexport : Option IoExport
  pexportlist : Option IoExport
  port : ℕ
  access : Bool
  context : Bool
  /-- `svc_sendreply` -/
  sends : Bool

/-- `pworker_data->current_xid = xid` -/
def Server.mark (s : Server) (w : ℕ) (xid : UInt32) : Server :=
  { s with currentXid := Function.update s.currentXid w xid }

def Server.send (s : Server) (w : ℕ) (what : Sent) : Server :=
  { s with sent := (w, what) :: s.sent }

/-- `svc_sendreply`, and `svcerr_decode` when it fails. -/
def Server.svcSendreply (s : Server) (w : ℕ) (what : Sent) (sends : Bool) : Server :=
  s.send w (if sends then what else .decode)

/-- Another worker is taken to have the request. -/
def alreadyManaged (nbWorker : ℕ) (s : Server) (call : Call) (sameAddr : ℕ → Bool) : Bool :=
  (List.range nbWorker).any fun i =>
    s.currentXid i = call.xid ∧ s.currentXid i ≠ 0 ∧ sameAddr i = true

/-- The end of `nfs_rpc_execute`, after the service function; `none` is `NFS_REQ_DROP`. -/
def nfsRpcFinish (s : Server) (w : ℕ) (rc : Option Sent) (sends : Bool) : Server :=
  let s := s.mark w 0
  match rc with
  | none => s
  | some what => s.svcSendreply w what sends

section

variable (programs : Programs) (nbWorker : ℕ)

/-- "Get the export entry". NFSv2 goes on after `svcerr_auth`, without an export. -/
def getExport (s : Server) (w : ℕ) (call : Call) (env : Env) :
    Flow Unit Server (Server × Option IoExport) :=
  if call.rqProg = programs.nfsProgram ∧ call.rqVers = 2 then
    if call.rqProc = 0 then .next (s, none)
    else
      let s := if env.exportid < 0 then s.send w .authFailed else s
      .next (if env.pexport.isNone then s.send w .authFailed else s, env.pexport)
  else if call.rqProg = programs.nfsProgram ∧ call.rqVers = 3 then
    if call.rqProc = 0 then .next (s, none)
    -- neither return sets `current_xid` back
    else if env.exportid < 0 then .ret (s.send w .authFailed)
    else if env.pexport.isNone then .ret (s.send w .authFailed)
    else .next (s, env.pexport)
  else .next (s, env.pexportlist)

def checkClient (s : Server) (w : ℕ) (call : Call) (b : Behaviour) (pexport : Option IoExport)
    (env : Env) : Flow Unit Server PUnit := do
  if call.rqProg = programs.nfsProgram ∧ call.rqProc ≠ 0 then
    let pexport ← deref () pexport
    leaveIf (has pexport.options exportOptionPrivilegedPort ∧ 1024 ≤ env.port)
      ((s.send w .authTooweak).mark w 0)
  leaveIf (call.rqProc ≠ 0 ∧ env.access = false) (s.mark w 0)
  leaveIf (b.needsCred = true ∧ env.context = false) ((s.send w .authTooweak).mark w 0)

/-- A function that writes on a read-only export: it is not called. -/
def refuseWrite (s : Server) (w : ℕ) (call : Call) (b : Behaviour) (pexport : Option IoExport)
    (env : Env) : Flow Unit Server PUnit := do
  if b.makesWrite then
    let pexport ← deref () pexport
    leaveIf (readOnly pexport = true)
      (nfsRpcFinish s w (if call.rqProg = programs.nfsProgram then some .rofs else none) env.sends)

/-- `nfs_rpc_execute` up to the call of the service function. -/
def nfsRpcReceive (s : Server) (w : ℕ) (call : Call) (env : Env) : Flow Unit Server Server := do
  leaveIf (env.terminate = true) s
  match behaviour programs call with
  | none => .ret (s.send w .decode)
  | some b =>
    leaveIf (env.decoded = false) (s.send w .decode)
    leaveIf (alreadyManaged nbWorker s call env.sameAddr = true) s
    let s := s.mark w call.xid
    -- this return does not set `current_xid` back
    leaveIf (b.canBeDup = true ∧ env.cached = true) (s.svcSendreply w .cached env.sends)
    let (s, pexport) ← getExport programs s w call env
    refuseWrite programs s w call b pexport env
    checkClient programs s w call b pexport env
    return s

inductive Op where
  /-- it takes a request -/
  | receive (w : ℕ) (call : Call) (env : Env)
  /-- the service function returns; `none` is `NFS_REQ_DROP` -/
  | finish (w : ℕ) (rc : Option Sent) (sends : Bool)

/-- A step of a worker. There is none when a null pointer is followed. -/
def step (s : Server) : Op → Option Server
  | .receive w call env =>
    if s.executing w then none
    else
      match nfsRpcReceive programs nbWorker s w call env with
      | .next s => some { s with executing := Function.update s.executing w true }
      | .ret s => some s
      | .fault _ => none
  | .finish w rc sends =>
    if s.executing w then
      let s := { s with executing := Function.update s.executing w false }
      some (nfsRpcFinish s w rc sends)
    else none

def Server.init : Server := ⟨fun _ => 0, fun _ => false, []⟩

/-! ## The property -/

/-- A worker that executes no request has no mark. -/
def MarksExecuting (s : Server) : Prop := ∀ w, s.executing w = false → s.currentXid w = 0

/-- The request gets a mark. -/
def GetsMark (s : Server) (call : Call) (env : Env) (b : Behaviour) : Prop :=
  env.terminate = false ∧ behaviour programs call = some b ∧ env.decoded = true ∧
    alreadyManaged nbWorker s call env.sameAddr = false

/-- A request of NFSv3 has a file handle without an export. -/
def BadHandle (call : Call) (env : Env) : Prop :=
  (call.rqProg = programs.nfsProgram ∧ call.rqVers = 3) ∧ call.rqProc ≠ 0 ∧
    (env.exportid < 0 ∨ env.pexport = none)

/-- A request that gets a mark, other than 0, is not answered from the cache and has no bad file
handle of NFSv3. -/
def LosesMark (s : Server) : Op → Server → Prop
  | .receive _ call env, _ => ∀ b, GetsMark programs nbWorker s call env b → call.xid ≠ 0 →
      ¬ (b.canBeDup = true ∧ env.cached = true) ∧ ¬ BadHandle programs call env
  | .finish _ _ _, _ => True

end

/-! ## One request -/

section

variable {programs : Programs} {nbWorker : ℕ} {s s' : Server} {w v : ℕ} {call : Call} {env : Env}
  {b : Behaviour} {xid : UInt32} {what : Sent} {sends : Bool} {rc : Option Sent} {op : Op}

@[simp] theorem currentXid_mark : (s.mark w xid).currentXid w = xid :=
  Function.update_self ..

theorem currentXid_mark_of_ne (h : v ≠ w) : (s.mark w xid).currentXid v = s.currentXid v :=
  Function.update_of_ne h ..

@[simp] theorem currentXid_svcSendreply :
    (s.svcSendreply w what sends).currentXid = s.currentXid := rfl

/-- The end of a request takes the mark of the worker away and nothing else. -/
@[simp] theorem currentXid_nfsRpcFinish : (nfsRpcFinish s w rc sends).currentXid w = 0 := by
  cases rc <;> simp [nfsRpcFinish]

@[simp] theorem executing_nfsRpcFinish : (nfsRpcFinish s w rc sends).executing = s.executing := by
  cases rc <;> rfl

def SameOthers (s s' : Server) (w : ℕ) : Prop :=
  s'.executing = s.executing ∧ ∀ v, v ≠ w → s'.currentXid v = s.currentXid v

theorem sameOthers_nfsRpcFinish : SameOthers s (nfsRpcFinish s w rc sends) w := by
  refine ⟨executing_nfsRpcFinish, fun v hv => ?_⟩
  cases rc <;> exact currentXid_mark_of_ne hv

theorem SameOthers.trans {s1 : Server} (h : SameOthers s s1 w) (h' : SameOthers s1 s' w) :
    SameOthers s s' w :=
  ⟨h'.1.trans h.1, fun v hv => (h'.2 v hv).trans (h.2 v hv)⟩

theorem sameOthers_mark : SameOthers s (s.mark w xid) w :=
  ⟨rfl, fun _ hv => currentXid_mark_of_ne hv⟩

theorem getExport_ends : (getExport programs s w call env).Ends
    (fun r => ¬ BadHandle programs call env ∧ r.1.currentXid = s.currentXid ∧
      r.1.executing = s.executing)
    (fun s' => BadHandle programs call env ∧ s'.currentXid = s.currentXid ∧
      s'.executing = s.executing) fun _ => False := by
  unfold getExport
  by_cases hv2 : call.rqProg = programs.nfsProgram ∧ call.rqVers = 2
  · have hbad : ¬ BadHandle programs call env := fun h => by
      have := hv2.2.symm.trans h.1.2
      exact absurd this (by decide)
    rw [if_pos hv2]
    split
    · exact ⟨hbad, rfl, rfl⟩
    · refine ⟨hbad, ?_, ?_⟩ <;> dsimp only <;> split <;> split <;> rfl
  rw [if_neg hv2]
  by_cases hv3 : call.rqProg = programs.nfsProgram ∧ call.rqVers = 3
  · rw [if_pos hv3]
    by_cases hnull : call.rqProc = 0
    · rw [if_pos hnull]
      exact ⟨fun h => h.2.1 hnull, rfl, rfl⟩
    rw [if_neg hnull]
    by_cases hid : env.exportid < 0
    · rw [if_pos hid]
      exact ⟨⟨hv3, hnull, .inl hid⟩, rfl, rfl⟩
    rw [if_neg hid]
    cases hexport : env.pexport with
    | none => exact ⟨⟨hv3, hnull, .inr hexport⟩, rfl, rfl⟩
    | some x => exact ⟨fun h => h.2.2.elim hid (by simp [hexport]), rfl, rfl⟩
  · rw [if_neg hv3]
    exact ⟨fun h => hv3 h.1, rfl, rfl⟩

theorem refuseWrite_ends {pexport : Option IoExport} :
    (refuseWrite programs s w call b pexport env).Ends (fun _ => True)
      (fun s' => s'.currentXid w = 0 ∧ SameOthers s s' w) fun _ => True := by
  unfold refuseWrite
  split
  · simp only [ends_bind, ends_deref, ends_leaveIf]
    exact ⟨fun _ => trivial, fun x _ =>
      ⟨fun _ => ⟨currentXid_nfsRpcFinish, sameOthers_nfsRpcFinish⟩, fun _ => trivial⟩⟩
  · trivial

theorem checkClient_ends {pexport : Option IoExport} :
    (checkClient programs s w call b pexport env).Ends (fun _ => True)
      (fun s' => s'.currentXid w = 0 ∧ SameOthers s s' w) fun _ => True := by
  have hweak : ((s.send w .authTooweak).mark w 0).currentXid w = 0 ∧
      SameOthers s ((s.send w .authTooweak).mark w 0) w :=
    ⟨currentXid_mark, sameOthers_mark⟩
  have hmark : (s.mark w 0).currentXid w = 0 ∧ SameOthers s (s.mark w 0) w :=
    ⟨currentXid_mark, sameOthers_mark⟩
  unfold checkClient
  split
  · simp only [ends_bind, ends_deref, ends_leaveIf]
    exact ⟨fun _ => trivial, fun x _ => ⟨fun _ => hweak, fun _ => ⟨fun _ => hmark,
      fun _ => ⟨fun _ => hweak, fun _ => trivial⟩⟩⟩⟩
  · simp only [ends_bind, ends_leaveIf]
    exact ⟨fun _ => hmark, fun _ => ⟨fun _ => hweak, fun _ => trivial⟩⟩

/-- **Where `nfs_rpc_execute` returns**: a worker without a mark has none after it, except for a
reply from the cache and a bad file handle of NFSv3. -/
theorem nfsRpcReceive_ends (programs : Programs) (nbWorker : ℕ) (call : Call) (env : Env)
    (h : s.currentXid w = 0) :
    (nfsRpcReceive programs nbWorker s w call env).Ends
      (fun s' => SameOthers s s' w ∧ LosesMark programs nbWorker s (.receive w call env) s')
      (fun s' => SameOthers s s' w ∧
        (s'.currentXid w = 0 ↔ LosesMark programs nbWorker s (.receive w call env) s'))
      fun _ => True := by
  unfold nfsRpcReceive
  cases hb : behaviour programs call with
  | none =>
    have hloses : ∀ s', LosesMark programs nbWorker s (.receive w call env) s' :=
      fun s' b hmark => absurd (hb.symm.trans hmark.2.1) (by simp)
    simp only [ends_bind, ends_leaveIf, ends_ret]
    exact ⟨fun _ => ⟨⟨rfl, fun _ _ => rfl⟩, iff_of_true h (hloses s)⟩,
      fun _ => ⟨⟨rfl, fun _ _ => rfl⟩, iff_of_true h (hloses _)⟩⟩
  | some b =>
    have hgets : ¬ env.terminate = true → ¬ env.decoded = false →
        ¬ alreadyManaged nbWorker s call env.sameAddr = true →
        GetsMark programs nbWorker s call env b := fun hterm hdecoded hmanaged =>
      ⟨Bool.eq_false_of_not_eq_true hterm, hb, Bool.eq_true_of_not_eq_false hdecoded,
        Bool.eq_false_of_not_eq_true hmanaged⟩
    simp only [ends_bind, ends_leaveIf]
    refine ⟨fun hterm => ⟨⟨rfl, fun _ _ => rfl⟩, iff_of_true h fun b' hmark => ?_⟩,
      fun hterm => ⟨fun hdecoded => ⟨⟨rfl, fun _ _ => rfl⟩, iff_of_true h fun b' hmark => ?_⟩,
      fun hdecoded => ⟨fun hmanaged => ⟨⟨rfl, fun _ _ => rfl⟩, iff_of_true h fun b' hmark => ?_⟩,
      fun hmanaged => ⟨fun hcached => ⟨⟨rfl, ?_⟩, ?_⟩, fun hcached => ?_⟩⟩⟩⟩
    · exact absurd (hterm.symm.trans hmark.1) (by simp)
    · exact absurd (hdecoded.symm.trans hmark.2.2.1) (by simp)
    · exact absurd (hmanaged.symm.trans hmark.2.2.2) (by simp)
    · exact fun v hv => currentXid_mark_of_ne hv
    · -- answered from the cache
      rw [currentXid_svcSendreply, currentXid_mark]
      refine ⟨fun hxid b' _ hne => absurd hxid hne, fun hloses => ?_⟩
      by_contra hne
      exact (hloses b (hgets hterm hdecoded hmanaged) hne).1 hcached
    · refine getExport_ends.mono ?_ ?_ fun _ hfalse => hfalse.elim
      · rintro ⟨s1, pexport⟩ ⟨hgood, hxid, hexec⟩
        have hothers : SameOthers s s1 w :=
          sameOthers_mark.trans ⟨hexec, fun v _ => congrFun hxid v⟩
        -- every other return takes the mark away
        have hloses : ∀ s', LosesMark programs nbWorker s (.receive w call env) s' := by
          intro s' b' hmark _
          cases hb.symm.trans hmark.2.1
          exact ⟨hcached, hgood⟩
        have hreset : ∀ s', s'.currentXid w = 0 ∧ SameOthers s1 s' w → SameOthers s s' w ∧
            (s'.currentXid w = 0 ↔ LosesMark programs nbWorker s (.receive w call env) s') :=
          fun s' hs' => ⟨hothers.trans hs'.2, iff_of_true hs'.1 (hloses s')⟩
        simp only [pure_eq, ends_next]
        refine refuseWrite_ends.mono (fun _ _ => ?_) hreset fun _ => id
        exact checkClient_ends.mono (fun _ _ => ⟨hothers, hloses _⟩) hreset fun _ => id
      · rintro s1 ⟨hbad, hxid, hexec⟩
        refine ⟨sameOthers_mark.trans ⟨hexec, fun v _ => congrFun hxid v⟩, ?_⟩
        rw [hxid, currentXid_mark]
        refine ⟨fun hxid b' _ hne => absurd hxid hne, fun hloses => ?_⟩
        by_contra hne
        exact (hloses b (hgets hterm hdecoded hmanaged) hne).2 hbad

/-! ## Runs -/

/-- A step after which the property holds is one that meets the condition, and conversely. -/
theorem MarksExecuting.step_iff (h : MarksExecuting s)
    (hstep : step programs nbWorker s op = some s') :
    MarksExecuting s' ↔ LosesMark programs nbWorker s op s' := by
  cases op with
  | receive w call env =>
    simp only [step] at hstep
    split at hstep
    next => cases hstep
    rename_i hidle
    have hxid : s.currentXid w = 0 := h w (Bool.eq_false_of_not_eq_true hidle)
    have hends := nfsRpcReceive_ends programs nbWorker call env hxid
    split at hstep
    next s1 hs1 =>
      -- the worker goes into the service function
      rw [hs1, ends_next] at hends
      cases hstep
      refine iff_of_true (fun v hv => ?_) hends.2
      by_cases hvw : v = w
      · subst hvw
        exact absurd (Function.update_self ..) (ne_of_eq_of_ne hv Bool.false_ne_true)
      have hv' : s.executing v = false := by
        rw [← hends.1.1, ← hv]
        exact (Function.update_of_ne hvw ..).symm
      exact (hends.1.2 v hvw).trans (h v hv')
    next s1 hs1 =>
      rw [hs1, ends_ret] at hends
      cases hstep
      refine ⟨fun hmarks => hends.2.mp (hmarks w ?_), fun hloses v hv => ?_⟩
      · rw [hends.1.1]
        exact Bool.eq_false_of_not_eq_true hidle
      · by_cases hvw : v = w
        · subst hvw
          exact hends.2.mpr hloses
        · rw [hends.1.2 v hvw]
          exact h v (hends.1.1 ▸ hv)
    next => cases hstep
  | finish w rc sends =>
    simp only [step] at hstep
    split at hstep
    next hexec =>
      cases hstep
      refine iff_of_true (fun v hv => ?_) trivial
      by_cases hvw : v = w
      · subst hvw
        exact currentXid_nfsRpcFinish
      rw [sameOthers_nfsRpcFinish.2 v hvw]
      refine h v ?_
      rw [executing_nfsRpcFinish] at hv
      exact (Function.update_of_ne hvw ..).symm.trans hv
    next => cases hstep

/-- **The mark of the current request**: throughout a run, a worker that executes no request has no
mark, exactly when no request that gets a mark is answered from the cache or has a bad file handle
of NFSv3. -/
theorem marksExecuting_iff (programs : Programs) (nbWorker : ℕ) (ops : List Op) :
    Always (step programs nbWorker) MarksExecuting Server.init ops ↔
      AllSteps (step programs nbWorker) (LosesMark programs nbWorker) Server.init ops := by
  apply always_iff_allSteps (I := MarksExecuting) fun _ _ => rfl
  · exact fun s h => h
  · exact fun s op s' h hstep hloses => (h.step_iff hstep).mpr hloses
  · exact fun s op s' h hstep hmarks => (h.step_iff hstep).mp hmarks

def writeCall : Call := ⟨1, 7, 100003, 3, 7⟩

/-- What is answered from outside while it is executed. -/
def writeEnv (cached : Bool) : Env where
  terminate := false
  decoded := true
  sameAddr := fun _ => false
  cached := cached
  exportid := 1
  pexport := some ⟨.rw, 0, 0, 0, 0, 0⟩
  pexportlist := some ⟨.rw, 0, 0, 0, 0, 0⟩
  port := 700
  access := true
  context := true
  sends := true

/-- The Write is sent again, and the reply comes from the cache: the worker keeps the mark. -/
theorem retransmission_keeps_mark :
    ¬ ∀ (programs : Programs) (nbWorker : ℕ) (ops : List Op),
      Always (step programs nbWorker) MarksExecuting Server.init ops := by
  intro h
  have hall := h ⟨100003, 100005, none, none⟩ 1
    [.receive 0 writeCall (writeEnv false), .finish 0 (some .reply) true,
      .receive 0 writeCall (writeEnv true)]
  have hmarks := hall.2 _ rfl |>.2 _ rfl |>.2 _ rfl
  exact absurd (hmarks 0 rfl) (by decide)

end

end CloudNfs.CurrentXid
