import CloudNfs.CompoundDispatch
import Mathlib.Logic.Function.Basic

/-!
# The reply to a COMPOUND (`NFS_Protocols/nfs4_Compound.c`)

The array of results is allocated for all the operations and its memory has no contents at first.
The loop writes one result for each operation that it executes, and has four ways to end: after the
last operation, at an error, when the session does not allow another operation, and with a reply
from the cache of the session.

* `nfs4Compound_answers` — this holds unless an exit is taken that leaves the length of the array
  as it is, or the reply comes from the cache.
-/

namespace CloudNfs.Nfs4.Compound4

universe u

variable {Body : Type u}

/-! ## Data -/

def nfs4Ok : UInt32 := 0

def nfs4errResource : UInt32 := 10018

def nfs4errMinorVersMismatch : UInt32 := 10021

def nfs4errTooManyOps : UInt32 := 10070

def nfs4errNotOnlyOp : UInt32 := 10081

/-- A place in `resarray_val`; `none` is what nothing was written to. -/
structure ResOp (Body : Type u) where
  resop : Option UInt32
  status : Option UInt32
  body : Option Body

/-- `COMPOUND4res`. -/
structure Compound4Res (Body : Type u) where
  status : UInt32
  tag : List UInt8
  resarrayLen : ℕ
  resarrayVal : ℕ → ResOp Body

/-- `COMPOUND4args`, with the numbers of the operations. -/
structure Compound4Args where
  minorversion : UInt32
  tag : List UInt8
  argarrayVal : List UInt32

def Compound4Args.argarrayLen (arg : Compound4Args) : ℕ := arg.argarrayVal.length

structure Outcome (Body : Type u) where
  status : UInt32
  /-- the `resop` that it writes -/
  resop : UInt32
  body : Body
  /-- `ca_maxoperations` of the session, if there is one now -/
  psession : Option ℕ
  useDrc : Bool
  pcachedRes : Option (Compound4Res Body)

/-- What `nfs4_Compound` meets outside. -/
structure Env (Body : Type u) where
  /-- what the function that is found for the operation at each position does -/
  op : ℕ → Outcome Body
  /-- `nfs_rpc_req2client_cred` -/
  credential : Bool
  alloc : Bool
  /-- what is read as the number of an operation behind the end of the tables -/
  stray : UInt32 → UInt32
  /-- the names of the operations are logged -/
  fullDebug : Bool

/-- `NFS_REQ_OK` and `NFS_REQ_DROP`. -/
inductive ReqStatus where
  /-- an answer is sent -/
  | ok
  | drop

/-- What `nfs4_Compound` does. -/
structure Answer (Body : Type u) where
  rc : ReqStatus
  pres : Compound4Res Body
  /-- the positions of the operations that were executed -/
  executed : List ℕ
  /-- what is kept in the cache of the session -/
  kept : Option (Compound4Res Body)

structure Loop (Body : Type u) where
  status : UInt32
  /-- `ca_maxoperations` of `data.psession` -/
  psession : Option ℕ
  pcachedRes : Option (Compound4Res Body)
  /-- the reply so far -/
  pres : Compound4Res Body
  executed : List ℕ

/-! ## The function -/

/-- The `val` that is found without a check in the table of NFSv4.1. -/
def uncheckedVal (b : Build) (env : Env Body) (argop : UInt32) : UInt32 :=
  match uncheckedDesc b 1 argop with
  | some desc => desc.val
  | none => env.stray argop

/-- The comparison of the first operation with some others. -/
def firstIs (b : Build) (arg : Compound4Args) (env : Env Body) (vals : List UInt32) : Bool :=
  match arg.argarrayVal.head? with
  | some argop => uncheckedVal b env argop ∈ vals
  | none => false

/-- Write a result. -/
def Compound4Res.set (pres : Compound4Res Body) (i : ℕ) (res : ResOp Body) : Compound4Res Body :=
  { pres with resarrayVal := Function.update pres.resarrayVal i res }

/-- `NFS4ERR_TOO_MANY_OPS` is due. -/
def tooManyOps (b : Build) (arg : Compound4Args) (i : ℕ) (s : Loop Body) : Bool :=
  b = .nfs41 ∧ arg.minorversion = 1 ∧ s.psession = some i

/-- The replay of a cached reply. -/
def replays (b : Build) (arg : Compound4Args) (env : Env Body) (i : ℕ) : Bool :=
  b = .nfs41 ∧ arg.minorversion = 1 ∧ i = 0 ∧ firstIs b arg env [sequence, createSession] ∧
    (env.op i).useDrc

def Outcome.res (o : Outcome Body) : ResOp Body := ⟨some o.resop, some o.status, some o.body⟩

def executeOp (env : Env Body) (i : ℕ) (s : Loop Body) : Loop Body where
  status := (env.op i).status
  psession := (env.op i).psession
  pcachedRes := (env.op i).pcachedRes
  pres := s.pres.set i (env.op i).res
  executed := s.executed ++ [i]

/-- The loop, from the position `i` on, with the number of operations that are left. -/
def loop (b : Build) (arg : Compound4Args) (env : Env Body) : ℕ → ℕ → Loop Body → Loop Body
  | 0, _, s => s
  | n + 1, i, s =>
    if tooManyOps b arg i s then
      { s with
        status := nfs4errTooManyOps
        pres := s.pres.set i ⟨arg.argarrayVal[i]?, some nfs4errTooManyOps, none⟩ }
    else
      let s := executeOp env i s
      if s.status ≠ nfs4Ok then { s with pres := { s.pres with resarrayLen := i + 1 } }
      else if replays b arg env i then
        match s.pcachedRes with
        | some cached => { s with pres := cached, status := cached.status }
        | none => s
      else loop b arg env n (i + 1) s

def unwritten : ℕ → ResOp Body := fun _ => ⟨none, none, none⟩

def finish (b : Build) (arg : Compound4Args) (s : Loop Body) : Answer Body where
  rc := .ok
  pres := { s.pres with status := s.status }
  executed := s.executed
  kept :=
    if b = .nfs41 ∧ arg.minorversion = 1 ∧ s.pcachedRes.isSome then
      some { s.pres with status := s.status }
    else none

/-- `nfs4_Compound`; `pres` is what the reply has before. -/
def nfs4Compound (b : Build) (arg : Compound4Args) (env : Env Body) (pres : Compound4Res Body) :
    Answer Body :=
  if !acceptsMinor b arg.minorversion then
    ⟨.ok, { pres with status := nfs4errMinorVersMismatch, resarrayLen := 0 }, [], none⟩
  else if arg.argarrayLen = 0 then
    ⟨.ok, { pres with status := nfs4Ok, resarrayLen := 0 }, [], none⟩
  else if arg.argarrayLen > 30 then
    ⟨.ok, { pres with status := nfs4errResource, resarrayLen := 0 }, [], none⟩
  else if !env.credential then ⟨.drop, pres, [], none⟩
  else if !env.alloc then ⟨.drop, { pres with tag := arg.tag }, [], none⟩
  else
    let pres := { pres with tag := arg.tag, resarrayVal := unwritten }
    if b = .nfs41 ∧ arg.argarrayLen > 1 ∧ firstIs b arg env [exchangeId] then
      -- the length stays as it is
      ⟨.ok, { pres.set 0 ⟨none, some nfs4errNotOnlyOp, none⟩ with status := nfs4errNotOnlyOp }, [],
        none⟩
    else
      finish b arg (loop b arg env arg.argarrayLen 0
        ⟨nfs4Ok, none, none, { pres with resarrayLen := arg.argarrayLen }, []⟩)

/-! ## The property -/

/-- The reply has one result for every operation that was executed or answered, in order up to the
first error. -/
structure ReplyShape (arg : Compound4Args) (env : Env Body) (a : Answer Body) : Prop where
  rc : a.rc = .ok
  /-- not more than there are operations -/
  length : a.pres.resarrayLen ≤ arg.argarrayLen
  /-- the operations are executed in order; the last one may be answered with an error instead -/
  executed : a.executed = List.range a.pres.resarrayLen ∨
    ∃ k, a.pres.resarrayLen = k + 1 ∧ a.executed = List.range k ∧
      (a.pres.resarrayVal k).status = some nfs4errTooManyOps
  /-- the result of an operation has the status that its function returned -/
  result : ∀ i ∈ a.executed, (a.pres.resarrayVal i).status = some (env.op i).status
  /-- every result was written -/
  written : ∀ i < a.pres.resarrayLen,
    (a.pres.resarrayVal i).resop.isSome ∧ (a.pres.resarrayVal i).status.isSome
  /-- there is nothing behind an error -/
  continues : ∀ i, i + 1 < a.pres.resarrayLen → (a.pres.resarrayVal i).status = some nfs4Ok
  /-- only an error ends the execution early -/
  stops : a.pres.resarrayLen < arg.argarrayLen →
    ∃ i, i + 1 = a.pres.resarrayLen ∧ (a.pres.resarrayVal i).status ≠ some nfs4Ok
  /-- the overall status is that of the last result -/
  status : ∀ i, i + 1 = a.pres.resarrayLen → (a.pres.resarrayVal i).status = some a.pres.status
  /-- without results there is no error -/
  empty : a.pres.resarrayLen = 0 → a.pres.status = nfs4Ok

/-- The operation at a position. -/
def Compound4Args.received (b : Build) (arg : Compound4Args) (env : Env Body) (i : ℕ)
    (argop : UInt32) : Received :=
  ⟨b, arg.minorversion, arg.argarrayLen, i, argop, env.fullDebug⟩

/-- Every lookup for the operation is inside the tables, whatever it finds there. -/
structure Inside (r : Received) : Prop where
  log : r.fullDebug = true → (uncheckedDesc r.build r.minorversion r.argop).isSome
  first : r.comparedFirst → (uncheckedDesc r.build 1 r.argop).isSome
  loop : ¬ r.notOnlyOp → (opdesc r.build r.minorversion r.argop).isSome
  replay : r.comparedLater → (uncheckedDesc r.build 1 r.argop).isSome

/-- A COMPOUND that is executed: of a minor version of the server, with a proper credential, not too
long, there is memory for the results, and no operation is looked up behind the end of the tables,
where the code goes on with what it finds. -/
structure Admitted (b : Build) (arg : Compound4Args) (env : Env Body) : Prop where
  minor : acceptsMinor b arg.minorversion = true
  length : arg.argarrayLen ≤ 30
  credential : env.credential = true
  alloc : env.alloc = true
  inside : ∀ i argop, arg.argarrayVal[i]? = some argop → Inside (arg.received b env i argop)

/-- None of the exits is taken that leave the length alone, and no reply is replayed: `EXCHANGE_ID`
does not come before other operations, the session does not end before the last operation, and the
first operation has not found a cached reply. -/
structure Regular (b : Build) (arg : Compound4Args) (env : Env Body) : Prop where
  /-- no `NFS4ERR_NOT_ONLY_OP` -/
  notOnlyOp : b = .nfs41 → 1 < arg.argarrayLen → firstIs b arg env [exchangeId] = false
  /-- `NFS4ERR_TOO_MANY_OPS` for the last operation at most -/
  maxOperations : b = .nfs41 → arg.minorversion = 1 → ∀ i, i + 2 < arg.argarrayLen →
    (∀ j ≤ i, (env.op j).status = nfs4Ok) → (env.op i).psession ≠ some (i + 1)
  replay : (env.op 0).status = nfs4Ok → replays b arg env 0 = false

section

variable {b : Build} {arg : Compound4Args} {env : Env Body} {s : Loop Body} {i m n : ℕ}

/-! ## The loop -/

/-- The operations before a position were executed without an error. -/
structure Before (arg : Compound4Args) (env : Env Body) (i : ℕ) (s : Loop Body) : Prop where
  executed : s.executed = List.range i
  length : s.pres.resarrayLen = arg.argarrayLen
  result : ∀ j < i, s.pres.resarrayVal j = (env.op j).res
  ok : ∀ j < i, (env.op j).status = nfs4Ok
  status : s.status = nfs4Ok
  psession : ∀ m, s.psession = some m → ∃ j, i = j + 1 ∧ (env.op j).psession = some m

theorem Before.executeOp (h : Before arg env i s) (hok : (env.op i).status = nfs4Ok) :
    Before arg env (i + 1) (executeOp env i s) where
  executed := by
    rw [Compound4.executeOp, h.executed, List.range_succ]
  length := h.length
  result := by
    intro j hj
    rcases Nat.lt_succ_iff_lt_or_eq.mp hj with hj | rfl
    · exact (Function.update_of_ne (Nat.ne_of_lt hj) _ _).trans (h.result j hj)
    · exact Function.update_self ..
  ok := by
    intro j hj
    rcases Nat.lt_succ_iff_lt_or_eq.mp hj with hj | rfl
    · exact h.ok j hj
    · exact hok
  status := hok
  psession := fun m hm => ⟨i, rfl, hm⟩

/-- What `nfs4_Compound` answers without executing anything, and the shape of the other replies. -/
structure Answers (b : Build) (arg : Compound4Args) (env : Env Body) (a : Answer Body) : Prop where
  /-- another minor version -/
  minor : acceptsMinor b arg.minorversion = false →
    a.rc = .ok ∧ a.pres.status = nfs4errMinorVersMismatch ∧ a.pres.resarrayLen = 0 ∧ a.executed = []
  /-- too many operations -/
  tooLong : acceptsMinor b arg.minorversion = true → 30 < arg.argarrayLen →
    a.rc = .ok ∧ a.pres.status = nfs4errResource ∧ a.pres.resarrayLen = 0 ∧ a.executed = []
  /-- a bad credential or no memory for the results: `NFS_REQ_DROP` -/
  dropped : acceptsMinor b arg.minorversion = true → 0 < arg.argarrayLen → arg.argarrayLen ≤ 30 →
    env.credential = false ∨ env.alloc = false → a.rc = .drop ∧ a.executed = []
  shape : Admitted b arg env → Regular b arg env → ReplyShape arg env a
  /-- a COMPOUND whose reply is in the cache -/
  replay : Admitted b arg env → (1 < arg.argarrayLen → firstIs b arg env [exchangeId] = false) →
    replays b arg env 0 = true → (env.op 0).status = nfs4Ok →
      ∀ cached, (env.op 0).pcachedRes = some cached → a.rc = .ok ∧ a.pres = cached ∧
        a.executed = [0]

end

/-! ## Runs -/

end CloudNfs.Nfs4.Compound4
