import Mathlib.Data.List.Chain
import Mathlib.Logic.Function.Basic
import CloudNfs.Run

/-!
# Session slots (`NFS_Protocols/nfs41_op_sequence.c`, `NFS_Protocols/nfs4_Compound.c`)

A COMPOUND of NFSv4.1 starts with SEQUENCE, which names a slot of a session and a sequence id.
`nfs41_op_sequence` works under the mutex of the slot, lets the next sequence id through, answers
the current one from the cache of the slot and refuses every other one. The reply is put into the
cache by `nfs4_Compound`, when the operations after SEQUENCE have been made.

Two of the ways out of `nfs41_op_sequence` leave the mutex locked: a retransmission that is answered
from the cache, and one whose reply was not cached. Every later request on the slot then waits for
ever.

* `nfs41OpSequence`, `compoundBegin`, `compoundEnd` — the code. Any number of threads handle
  COMPOUNDs at the same time; what comes after SEQUENCE is one step.
* `exactlyOnce_iff_noRetransmission` — they keep it as long as no request is retransmitted.
-/

namespace CloudNfs.Nfs41

open Function (update update_self update_of_ne)

/-! ## Data -/

/-- `NFS41_NB_SLOTS`, which is also the `ca_maxrequests` of every session. -/
def nfs41NbSlots : UInt32 := 3

/-- `nfsstat4`. -/
inductive Nfsstat4 where
  /-- `NFS4_OK` -/
  | ok
  | resource
  | sequencePos
  | badSession
  | badSlot
  | seqMisordered
  | retryUncachedRep
  | tooManyOps
  | other (code : UInt32)
  deriving DecidableEq

/-- `SEQUENCE4args`. -/
structure SequenceArgs where
  saSessionid : ℕ
  saSequenceid : UInt32
  saSlotid : UInt32
  saCachethis : Bool

/-- `SEQUENCE4resok`. -/
structure SequenceResok where
  srSessionid : ℕ
  srSequenceid : UInt32
  srSlotid : UInt32
  srHighestSlotid : UInt32
  /-- the highest slot the client should use -/
  srTargetHighestSlotid : UInt32
  srStatusFlags : UInt32
  deriving DecidableEq

/-- `nfs_argop4`. -/
inductive ArgOp (O : Type) where
  | sequence (args : SequenceArgs)
  | other (op : O)

/-- `nfs_resop4`. -/
inductive ResOp (R : Type) where
  | sequence (status : Nfsstat4) (resok : Option SequenceResok)
  /-- an operation that was not made -/
  | tooManyOps
  | other (status : Nfsstat4) (res : R)
  deriving DecidableEq

/-- `COMPOUND4res`, as it lies in memory: the results of the operations are behind a pointer. -/
structure Compound4Res where
  /-- the status of the last operation -/
  status : Nfsstat4
  /-- the number of results -/
  resarrayLen : ℕ
  /-- where they are -/
  resarrayVal : ℕ
  deriving DecidableEq

/-- `nfs41_session_slot_t`. -/
structure Slot where
  sequence : UInt32
  locked : Bool
  cachedResult : Compound4Res
  /-- whether the last request asked for its reply to be cached -/
  cacheUsed : Bool

/-- A slot of a session that `nfs41_op_create_session` has cleared. -/
def Slot.cleared : Slot := ⟨0, false, ⟨.ok, 0, 0⟩, false⟩

/-- `nfs41_session_t`. -/
structure Session where
  caMaxoperations : UInt32
  slots : UInt32 → Slot

/-- Where a reply is to be copied to. -/
inductive CacheRef where
  | slot (session : ℕ) (slotid : UInt32)
  /-- the cache of a client, for CREATE_SESSION -/
  | createSession
  deriving DecidableEq

/-- What SEQUENCE reads and writes of `compound_data_t`. -/
structure CompoundData where
  /-- the place of the operation in the COMPOUND -/
  oppos : ℕ
  psession : Option ℕ
  /-- where the reply is to be copied to -/
  pcachedRes : Option CacheRef
  /-- whether the reply comes from there -/
  useDrc : Bool

/-- `data` as `nfs4_Compound` starts with it. -/
def CompoundData.start : CompoundData := ⟨0, none, none, false⟩

abbrev Sessions := ℕ → Option Session

def Sessions.slotAt (sessions : Sessions) (sid : ℕ) (slotid : UInt32) : Option Slot :=
  (sessions sid).map fun session => session.slots slotid

def Sessions.setSlot (sessions : Sessions) (sid : ℕ) (slotid : UInt32) (slot : Slot) : Sessions :=
  match sessions sid with
  | none => sessions
  | some session => update sessions sid
      (some { session with slots := update session.slots slotid slot })

/-- `nfs41_op_sequence`: the sessions, the data of the COMPOUND and the result; `none` while
another thread has the mutex of the slot. -/
def nfs41OpSequence (sessions : Sessions) (args : SequenceArgs) (data : CompoundData) :
    Option (Sessions × CompoundData × Nfsstat4 × Option SequenceResok) :=
  if data.oppos ≠ 0 then some (sessions, data, .sequencePos, none)
  else
    match sessions args.saSessionid with
    | none => some (sessions, data, .badSession, none)
    | some psession =>
      if args.saSlotid ≥ nfs41NbSlots then some (sessions, data, .badSlot, none)
      else
        let data := { data with useDrc := false }
        let slot := psession.slots args.saSlotid
        if slot.locked then none
        else
          -- the mutex is taken here
          let slot := { slot with locked := true }
          if slot.sequence + 1 ≠ args.saSequenceid then
            if slot.sequence = args.saSequenceid then
              -- both of these return with the mutex
              let sessions := sessions.setSlot args.saSessionid args.saSlotid slot
              if slot.cacheUsed then
                some (sessions, { data with
                  useDrc := true
                  pcachedRes := some (.slot args.saSessionid args.saSlotid) }, .ok, none)
              else some (sessions, data, .retryUncachedRep, none)
            else
              let slot := { slot with locked := false }
              some (sessions.setSlot args.saSessionid args.saSlotid slot, data,
                .seqMisordered, none)
          else
            let slot :=
              { slot with
                sequence := slot.sequence + 1
                cacheUsed := args.saCachethis
                locked := false }
            let data :=
              { data with
                psession := some args.saSessionid
                pcachedRes :=
                  if args.saCachethis then some (.slot args.saSessionid args.saSlotid) else none }
            some (sessions.setSlot args.saSessionid args.saSlotid slot, data, .ok,
              some ⟨args.saSessionid, slot.sequence, args.saSlotid, nfs41NbSlots - 1,
                args.saSlotid, 0⟩)

/-! ## COMPOUND -/

/-- An answer as the client gets it; there are no results when their memory was freed before. -/
structure Answer (R : Type) where
  status : Nfsstat4
  /-- the number of results -/
  resarrayLen : ℕ
  results : Option (List (ResOp R))

/-- A COMPOUND after its SEQUENCE. -/
structure Running (O : Type) where
  args : SequenceArgs
  resok : Option SequenceResok
  /-- the operations that follow -/
  rest : List (ArgOp O)
  /-- `ca_maxoperations` of the session -/
  caMaxoperations : UInt32
  /-- where the reply is to be copied to -/
  pcachedRes : Option CacheRef
  /-- the memory for the results -/
  resarrayVal : ℕ

/-- The server. `W` is what the operations other than SEQUENCE work on. -/
structure Server (O R W : Type) where
  sessions : Sessions
  /-- the memory for results -/
  resarrays : ℕ → Option (List (ResOp R))
  /-- memory from here on is new -/
  fresh : ℕ
  /-- the rest of the server -/
  world : W
  /-- the COMPOUND each thread is at -/
  running : ℕ → Option (Running O)
  /-- the sequence ids that were let through on each slot of each session, the last one first -/
  executed : ℕ → UInt32 → List UInt32
  /-- the answer to the last request that was let through with a slot and a sequence id -/
  answered : ℕ → UInt32 → UInt32 → Option (Answer R)

section

variable {O R W : Type} (funct : O → ℕ → W → W × Nfsstat4 × R × Bool)

/-- The loop of `nfs4_Compound` from the operation `i` on. An operation changes the world and has a
status and a result; a CREATE_SESSION also redirects the copy of the reply. -/
def compoundLoop (argarrayLen : ℕ) (caMaxoperations : UInt32) :
    ℕ → W → List (ArgOp O) → W × Nfsstat4 × ℕ × List (ResOp R) × Bool
  | _, w, [] => (w, .ok, argarrayLen, [], false)
  | i, w, op :: ops =>
    if caMaxoperations.toNat = i then (w, .tooManyOps, argarrayLen, [.tooManyOps], false)
    else
      match op with
      | .sequence _ => (w, .sequencePos, i + 1, [.sequence .sequencePos none], false)
      | .other op =>
        let (w, status, res, redirect) := funct op i w
        if status ≠ .ok then (w, status, i + 1, [.other status res], redirect)
        else
          let (w, status', len, results, redirect') := compoundLoop argarrayLen caMaxoperations
            (i + 1) w ops
          (w, status', len, .other status res :: results, redirect || redirect')

/-- The end of `nfs4_Compound`, when the reply is kept for later use. -/
def Sessions.keep (sessions : Sessions) (pcachedRes : Option CacheRef) (pres : Compound4Res) :
    Sessions :=
  match pcachedRes with
  | some (.slot sid slotid) =>
    match sessions.slotAt sid slotid with
    | none => sessions
    | some slot => sessions.setSlot sid slotid { slot with cachedResult := pres }
  | some .createSession => sessions
  | none => sessions

/-- The longest COMPOUND. -/
def maxArgarrayLen : ℕ := 30

structure Request (O : Type) where
  args : SequenceArgs
  rest : List (ArgOp O)
  /-- whether there is memory for the results, `Mem_Alloc` -/
  alloc : Bool

def Request.argarrayLen (req : Request O) : ℕ := req.rest.length + 1

/-- The cached reply that a COMPOUND points to. -/
def cachedResult (sessions : Sessions) : Option CacheRef → Option Compound4Res
  | some (.slot sid slotid) => (sessions.slotAt sid slotid).map Slot.cachedResult
  | some .createSession => none
  | none => none

/-- `nfs4_Compound` as far as SEQUENCE: the server, and the answer if there is one already; `none`
while the thread waits for the mutex of the slot. -/
def compoundBegin (s : Server O R W) (t : ℕ) (req : Request O) :
    Option (Server O R W × Option (Answer R)) :=
  match s.running t with
  | some _ => none
  | none =>
    if maxArgarrayLen < req.argarrayLen then some (s, some ⟨.resource, 0, some []⟩)
    else if req.alloc = false then some (s, none)
    else
      match nfs41OpSequence s.sessions req.args .start with
      | none => none
      | some (sessions, data, status, resok) =>
        if status ≠ .ok then
          let sessions := sessions.keep data.pcachedRes ⟨status, 1, s.fresh⟩
          some ({ s with sessions := sessions, fresh := s.fresh + 1 },
            some ⟨status, 1, some [.sequence status resok]⟩)
        else if data.useDrc then
          match cachedResult sessions data.pcachedRes with
          | none => none
          | some pres =>
            -- copied back at the end, sent, and its results freed once more
            some ({ s with
                sessions := sessions.keep data.pcachedRes pres
                resarrays := update s.resarrays pres.resarrayVal none
                fresh := s.fresh + 1 },
              some ⟨pres.status, pres.resarrayLen, s.resarrays pres.resarrayVal⟩)
        else
          let sid := req.args.saSessionid
          let slotid := req.args.saSlotid
          some ({ s with
              sessions := sessions
              resarrays := update s.resarrays s.fresh (some [.sequence status resok])
              fresh := s.fresh + 1
              running := update s.running t (some
                { args := req.args, resok := resok, rest := req.rest
                  caMaxoperations := (sessions sid).elim 0 Session.caMaxoperations
                  pcachedRes := data.pcachedRes, resarrayVal := s.fresh })
              executed := update s.executed sid (update (s.executed sid) slotid
                (req.args.saSequenceid :: s.executed sid slotid))
              answered := update s.answered sid (update (s.answered sid) slotid
                (update (s.answered sid slotid) req.args.saSequenceid none)) },
            none)

/-- The rest of `nfs4_Compound`. The reply is copied into the cache and sent, and its results are
freed by `nfs4_Compound_Free`. -/
def compoundEnd (s : Server O R W) (t : ℕ) : Option (Server O R W × Answer R) :=
  match s.running t with
  | none => none
  | some c =>
    let (world, status, len, results, redirect) :=
      compoundLoop funct (c.rest.length + 1) c.caMaxoperations 1 s.world c.rest
    let pcachedRes := if redirect then some .createSession else c.pcachedRes
    let answer : Answer R := ⟨status, len, some (.sequence .ok c.resok :: results)⟩
    let sid := c.args.saSessionid
    let slotid := c.args.saSlotid
    some ({ s with
        sessions := s.sessions.keep pcachedRes ⟨status, len, c.resarrayVal⟩
        resarrays := update s.resarrays c.resarrayVal none
        world := world
        running := update s.running t none
        answered := update s.answered sid (update (s.answered sid) slotid
          (update (s.answered sid slotid) c.args.saSequenceid (some answer))) },
      answer)

/-! ## Runs -/

inductive CompoundOp (O : Type) where
  /-- it takes a request and makes its SEQUENCE -/
  | request (t : ℕ) (req : Request O)
  /-- it makes the rest of its COMPOUND -/
  | rest (t : ℕ)

def step (s : Server O R W) : CompoundOp O → Option (Server O R W)
  | .request t req => (compoundBegin s t req).map Prod.fst
  | .rest t => (compoundEnd funct s t).map Prod.fst

def init (caMaxoperations : ℕ → Option UInt32) (world : W) : Server O R W where
  sessions := fun sid => (caMaxoperations sid).map fun n => ⟨n, fun _ => .cleared⟩
  resarrays := fun _ => none
  fresh := 0
  world := world
  running := fun _ => none
  executed := fun _ _ => []
  answered := fun _ _ _ => none

/-! ## The property -/

/-- No sequence id is let through twice in a row on a slot: between two times the slot has moved
on. -/
def AtMostOnce (s : Server O R W) : Prop :=
  ∀ sid slotid, (s.executed sid slotid).IsChain (· ≠ ·)

/-- A request whose SEQUENCE reaches a slot. -/
def Reaches (s : Server O R W) (req : Request O) (slot : Slot) : Prop :=
  req.argarrayLen ≤ maxArgarrayLen ∧ req.alloc = true ∧ req.args.saSlotid < nfs41NbSlots ∧
    s.sessions.slotAt req.args.saSessionid req.args.saSlotid = some slot

/-- What is promised for a request that reaches a slot: a sequence id that is neither the next nor
the current one is refused and changes nothing, the current one is answered from the cache, if it is
there, and not made again, and the mutex is free afterwards. -/
structure SlotAnswer (s : Server O R W) (req : Request O) (slot : Slot) (s' : Server O R W)
    (answer : Option (Answer R)) : Prop where
  /-- a request out of order -/
  misordered : req.args.saSequenceid ≠ slot.sequence + 1 → req.args.saSequenceid ≠ slot.sequence →
    answer = some ⟨.seqMisordered, 1, some [.sequence .seqMisordered none]⟩ ∧
      s' = { s with fresh := s'.fresh }
  replayed : req.args.saSequenceid = slot.sequence → slot.cacheUsed = true →
    answer = s.answered req.args.saSessionid req.args.saSlotid req.args.saSequenceid ∧
      s'.executed = s.executed ∧ s'.world = s.world ∧ s'.running = s.running
  unlocked : ∀ slot', s'.sessions.slotAt req.args.saSessionid req.args.saSlotid = some slot' →
    slot'.locked = false

/-- A step keeps the promise. -/
def SlotStep (s : Server O R W) : CompoundOp O → Server O R W → Prop
  | .request t req, _ => ∀ slot, Reaches s req slot → ∀ s' answer,
      compoundBegin s t req = some (s', answer) → SlotAnswer s req slot s' answer
  | .rest _, _ => True

/-- A request does not have the current sequence id of its slot. -/
def NoRetransmission (s : Server O R W) : CompoundOp O → Server O R W → Prop
  | .request _ req, _ => ∀ slot, Reaches s req slot → req.args.saSequenceid ≠ slot.sequence
  | .rest _, _ => True

/-! ## Slots -/

variable {funct} {sessions sessions' : Sessions} {sid sid' : ℕ} {slotid slotid' : UInt32}
  {slot slot' : Slot} {args : SequenceArgs} {data : CompoundData} {status : Nfsstat4}
  {resok : Option SequenceResok}

theorem slotAt_setSlot : (sessions.setSlot sid slotid slot).slotAt sid' slotid' =
    if sid' = sid ∧ slotid' = slotid then (sessions.slotAt sid slotid).map fun _ => slot
    else sessions.slotAt sid' slotid' := by
  rw [Sessions.setSlot, Sessions.slotAt]
  cases hs : sessions sid with
  | none =>
    split
    next h =>
      obtain ⟨rfl, rfl⟩ := h
      simp [Sessions.slotAt, hs]
    next => rfl
  | some session =>
    by_cases hsid : sid' = sid
    · subst hsid
      by_cases hslot : slotid' = slotid
      · subst hslot
        simp [Sessions.slotAt, hs]
      · simp [Sessions.slotAt, hs, hslot]
    · simp [Sessions.slotAt, hsid]

theorem setSlot_self (h : sessions.slotAt sid slotid = some slot) :
    sessions.setSlot sid slotid slot = sessions := by
  obtain ⟨session, hsession, rfl⟩ := Option.map_eq_some_iff.mp h
  rw [Sessions.setSlot, hsession]
  dsimp only
  rw [Function.update_eq_self]
  exact Function.update_eq_iff.mpr ⟨hsession.symm, fun _ _ => rfl⟩

theorem slotAt_setSlot_map {β : Type} {g : Slot → β}
    (hslot : sessions.slotAt sid slotid = some slot) (hg : g slot' = g slot) (sid' : ℕ)
    (slotid' : UInt32) : ((sessions.setSlot sid slotid slot').slotAt sid' slotid').map g =
      (sessions.slotAt sid' slotid').map g := by
  rw [slotAt_setSlot]
  split
  next hsame =>
    obtain ⟨rfl, rfl⟩ := hsame
    rw [hslot, Option.map_some, Option.map_some, Option.map_some, hg]
  next => rfl

theorem slotAt_keep {β : Type} {g : Slot → β} {pcachedRes : Option CacheRef} {pres : Compound4Res}
    (hg : ∀ slot, g { slot with cachedResult := pres } = g slot) (sid : ℕ) (slotid : UInt32) :
    ((sessions.keep pcachedRes pres).slotAt sid slotid).map g =
      (sessions.slotAt sid slotid).map g := by
  unfold Sessions.keep
  split
  next sid1 slotid1 =>
    split
    next => rfl
    next slot1 hslot1 => exact slotAt_setSlot_map hslot1 (hg slot1) sid slotid
  next => rfl
  next => rfl

/-- **What `nfs41_op_sequence` can do** as the first operation. -/
inductive SequenceCases (sessions : Sessions) (args : SequenceArgs) :
    Sessions → CompoundData → Nfsstat4 → Option SequenceResok → Prop where
  | refused {status : Nfsstat4} : status ≠ .ok →
    (args.saSlotid < nfs41NbSlots → sessions.slotAt args.saSessionid args.saSlotid = none) →
    SequenceCases sessions args sessions .start status none
  | misordered {slot : Slot} : args.saSlotid < nfs41NbSlots →
    sessions.slotAt args.saSessionid args.saSlotid = some slot → slot.locked = false →
    args.saSequenceid ≠ slot.sequence + 1 → args.saSequenceid ≠ slot.sequence →
    SequenceCases sessions args sessions .start .seqMisordered none
  | replayed {slot : Slot} : args.saSlotid < nfs41NbSlots →
    sessions.slotAt args.saSessionid args.saSlotid = some slot →
    args.saSequenceid = slot.sequence →
    SequenceCases sessions args
      (sessions.setSlot args.saSessionid args.saSlotid { slot with locked := true })
      { CompoundData.start with
        useDrc := true, pcachedRes := some (.slot args.saSessionid args.saSlotid) } .ok none
  | uncached {slot : Slot} : args.saSlotid < nfs41NbSlots →
    sessions.slotAt args.saSessionid args.saSlotid = some slot →
    args.saSequenceid = slot.sequence →
    SequenceCases sessions args
      (sessions.setSlot args.saSessionid args.saSlotid { slot with locked := true })
      .start .retryUncachedRep none
  | next {slot : Slot} {pcachedRes : Option CacheRef} {resok : Option SequenceResok} :
    args.saSlotid < nfs41NbSlots →
    sessions.slotAt args.saSessionid args.saSlotid = some slot →
    args.saSequenceid = slot.sequence + 1 →
    SequenceCases sessions args
      (sessions.setSlot args.saSessionid args.saSlotid
        { slot with sequence := args.saSequenceid, cacheUsed := args.saCachethis, locked := false })
      ⟨0, some args.saSessionid, pcachedRes, false⟩ .ok resok

theorem sequenceCases
    (h : nfs41OpSequence sessions args .start = some (sessions', data, status, resok)) :
    SequenceCases sessions args sessions' data status resok := by
  have hfirst : ¬ CompoundData.start.oppos ≠ 0 := not_not.mpr rfl
  rw [nfs41OpSequence, if_neg hfirst] at h
  split at h
  next hnone =>
    cases h
    refine .refused nofun fun _ => ?_
    rw [Sessions.slotAt, hnone]
    rfl
  rename_i session hsession
  have hslot : sessions.slotAt args.saSessionid args.saSlotid =
      some (session.slots args.saSlotid) := by
    rw [Sessions.slotAt, hsession]
    rfl
  split at h
  next hge =>
    cases h
    exact .refused nofun fun hlt => absurd hlt (UInt32.not_lt.mpr hge)
  rename_i hlt
  have hlt : args.saSlotid < nfs41NbSlots := UInt32.not_le.mp hlt
  dsimp only at h
  by_cases hlocked : (session.slots args.saSlotid).locked = true
  · rw [if_pos hlocked] at h
    cases h
  rw [if_neg hlocked] at h
  by_cases hnext : (session.slots args.saSlotid).sequence + 1 = args.saSequenceid
  · rw [if_neg (not_not.mpr hnext), hnext] at h
    cases h
    exact .next hlt hslot hnext.symm
  rw [if_pos hnext] at h
  by_cases hcurrent : (session.slots args.saSlotid).sequence = args.saSequenceid
  · rw [if_pos hcurrent] at h
    split at h
    next hused =>
      cases h
      exact .replayed hlt hslot hcurrent.symm
    next hused =>
      cases h
      exact .uncached hlt hslot hcurrent.symm
  · rw [if_neg hcurrent] at h
    -- the mutex is taken and given back
    have hunlocked := Bool.eq_false_of_not_eq_true hlocked
    have hself : { session.slots args.saSlotid with locked := false } =
        session.slots args.saSlotid := by
      rw [← hunlocked]
    rw [hself, setSlot_self hslot] at h
    cases h
    exact .misordered hlt hslot hunlocked (Ne.symm hnext) (Ne.symm hcurrent)

variable {s s' : Server O R W} {t : ℕ} {req : Request O} {answer : Option (Answer R)}

/-- **What a request can do.** -/
inductive BeginCases (s : Server O R W) (req : Request O) :
    Server O R W → Option (Answer R) → Prop where
  | refused {fresh : ℕ} {answer : Option (Answer R)} : (∀ slot, ¬ Reaches s req slot) →
    BeginCases s req { s with fresh := fresh } answer
  | misordered {slot : Slot} {fresh : ℕ} : Reaches s req slot → slot.locked = false →
    req.args.saSequenceid ≠ slot.sequence → BeginCases s req { s with fresh := fresh }
      (some ⟨.seqMisordered, 1, some [.sequence .seqMisordered none]⟩)
  | retransmitted {slot : Slot} {s' : Server O R W} {answer : Option (Answer R)} :
    Reaches s req slot → req.args.saSequenceid = slot.sequence → s'.executed = s.executed →
    (∀ sid slotid, (s'.sessions.slotAt sid slotid).map Slot.sequence =
      (s.sessions.slotAt sid slotid).map Slot.sequence) →
    (s'.sessions.slotAt req.args.saSessionid req.args.saSlotid).map Slot.locked = some true →
    BeginCases s req s' answer
  | next {slot : Slot} {s' : Server O R W} : Reaches s req slot →
    req.args.saSequenceid = slot.sequence + 1 →
    s'.sessions = s.sessions.setSlot req.args.saSessionid req.args.saSlotid
      { slot with
        sequence := req.args.saSequenceid, cacheUsed := req.args.saCachethis, locked := false } →
    s'.executed = update s.executed req.args.saSessionid
      (update (s.executed req.args.saSessionid) req.args.saSlotid
        (req.args.saSequenceid :: s.executed req.args.saSessionid req.args.saSlotid)) →
    BeginCases s req s' none

theorem beginCases (h : compoundBegin s t req = some (s', answer)) :
    BeginCases s req s' answer := by
  unfold compoundBegin at h
  split at h
  next => cases h
  by_cases hlen : maxArgarrayLen < req.argarrayLen
  · rw [if_pos hlen] at h
    cases h
    exact .refused fun slot hreach => absurd hlen (Nat.not_lt.mpr hreach.1)
  rw [if_neg hlen] at h
  have hlen := Nat.not_lt.mp hlen
  by_cases halloc : req.alloc = false
  · rw [if_pos halloc] at h
    cases h
    exact .refused fun slot hreach => Bool.false_ne_true (halloc.symm.trans hreach.2.1)
  rw [if_neg halloc] at h
  have halloc := Bool.eq_true_of_not_eq_false halloc
  split at h
  next => cases h
  rename_i sessions data status resok hseq
  cases sequenceCases hseq with
  | refused hstatus hnone =>
    rw [if_pos hstatus] at h
    cases h
    exact .refused fun slot hreach => nomatch (hnone hreach.2.2.1).symm.trans hreach.2.2.2
  | misordered hlt hslot hlocked hnext hcurrent =>
    rw [if_pos nofun] at h
    cases h
    exact .misordered ⟨hlen, halloc, hlt, hslot⟩ hlocked hcurrent
  | replayed hlt hslot hcurrent =>
    rw [if_neg (not_not.mpr rfl), if_pos rfl] at h
    split at h
    next => cases h
    rename_i pres hpres
    cases h
    refine .retransmitted ⟨hlen, halloc, hlt, hslot⟩ hcurrent rfl (fun sid slotid => ?_) ?_
    · dsimp only
      rw [slotAt_keep (fun _ => rfl)]
      apply slotAt_setSlot_map hslot
      rfl
    · dsimp only
      rw [slotAt_keep (fun _ => rfl), slotAt_setSlot, if_pos ⟨rfl, rfl⟩, hslot]
      rfl
  | uncached hlt hslot hcurrent =>
    rw [if_pos nofun] at h
    cases h
    refine .retransmitted ⟨hlen, halloc, hlt, hslot⟩ hcurrent rfl (fun sid slotid => ?_) ?_
    · dsimp only [Sessions.keep, CompoundData.start]
      apply slotAt_setSlot_map hslot
      rfl
    · dsimp only [Sessions.keep, CompoundData.start]
      rw [slotAt_setSlot, if_pos ⟨rfl, rfl⟩, hslot]
      rfl
  | next hlt hslot hnext =>
    rw [if_neg (not_not.mpr rfl), if_neg Bool.false_ne_true] at h
    cases h
    exact .next ⟨hlen, halloc, hlt, hslot⟩ hnext rfl rfl

/-! ## Every run -/

/-- The sequence ids that were let through on a slot count up, and the slot is at the last one. -/
def Counted (s : Server O R W) : Prop :=
  ∀ sid slotid, (s.executed sid slotid).IsChain (fun id earlier => id = earlier + 1) ∧
    ∀ id, (s.executed sid slotid).head? = some id →
      (s.sessions.slotAt sid slotid).map Slot.sequence = some id

def Unlocked (s : Server O R W) : Prop :=
  ∀ sid slotid, (s.sessions.slotAt sid slotid).map Slot.locked ≠ some true

theorem Counted.atMostOnce (h : Counted s) : AtMostOnce s := by
  intro sid slotid
  refine (h sid slotid).1.imp fun id earlier hid => ?_
  rw [hid]
  simp

theorem Counted.of_eq (h : Counted s) (hexecuted : s'.executed = s.executed)
    (hseq : ∀ sid slotid, (s'.sessions.slotAt sid slotid).map Slot.sequence =
      (s.sessions.slotAt sid slotid).map Slot.sequence) : Counted s' := by
  intro sid slotid
  rw [hexecuted, hseq]
  exact h sid slotid

theorem Counted.begin (h : Counted s) (hbegin : compoundBegin s t req = some (s', answer)) :
    Counted s' := by
  cases beginCases hbegin with
  | refused hreach => exact h
  | misordered hreach hlocked hcurrent => exact h
  | retransmitted hreach hcurrent hexecuted hseq hlocked => exact h.of_eq hexecuted hseq
  | next hreach hnext hsessions hexecuted =>
    intro sid slotid
    have hslot := hreach.2.2.2
    by_cases hsid : sid = req.args.saSessionid ∧ slotid = req.args.saSlotid
    · obtain ⟨rfl, rfl⟩ := hsid
      obtain ⟨hchain, hhead⟩ := h req.args.saSessionid req.args.saSlotid
      rw [hexecuted, hsessions, update_self, update_self, slotAt_setSlot,
        if_pos ⟨rfl, rfl⟩, hslot]
      refine ⟨List.isChain_cons.mpr ⟨fun id hid => ?_, hchain⟩, fun id hid => hid⟩
      -- the one before is where the slot was
      have hseq := hhead id hid
      rw [hslot, Option.map_some, Option.some.injEq] at hseq
      rw [hnext, hseq]
    · have hold : s'.executed sid slotid = s.executed sid slotid := by
        rw [hexecuted]
        by_cases hs : sid = req.args.saSessionid
        · subst hs
          rw [update_self, update_of_ne fun hslotid => hsid ⟨rfl, hslotid⟩]
        · rw [update_of_ne hs]
      rw [hold, hsessions, slotAt_setSlot, if_neg hsid]
      exact h sid slotid

theorem compoundEnd_slots {answer : Answer R} (h : compoundEnd funct s t = some (s', answer)) :
    s'.executed = s.executed ∧ ∀ sid slotid,
      (s'.sessions.slotAt sid slotid).map Slot.sequence =
        (s.sessions.slotAt sid slotid).map Slot.sequence ∧
      (s'.sessions.slotAt sid slotid).map Slot.locked =
        (s.sessions.slotAt sid slotid).map Slot.locked := by
  unfold compoundEnd at h
  split at h
  next => cases h
  rename_i c hc
  cases h
  refine ⟨rfl, fun sid slotid => ⟨?_, ?_⟩⟩
  · exact slotAt_keep (fun _ => rfl) sid slotid
  · exact slotAt_keep (fun _ => rfl) sid slotid

theorem counted_always (funct : O → ℕ → W → W × Nfsstat4 × R × Bool)
    (caMaxoperations : ℕ → Option UInt32) (world : W) (ops : List (CompoundOp O)) :
    Always (step funct) Counted (init caMaxoperations world) ops := by
  refine always_of_step ?_ fun s op s' h hstep => ?_
  · exact fun sid slotid => ⟨List.isChain_nil, nofun⟩
  · cases op with
    | request t req =>
      obtain ⟨⟨s1, answer⟩, hbegin, rfl⟩ := Option.map_eq_some_iff.mp hstep
      exact h.begin hbegin
    | rest t =>
      obtain ⟨⟨s1, answer⟩, hend, rfl⟩ := Option.map_eq_some_iff.mp hstep
      obtain ⟨hexecuted, hslots⟩ := compoundEnd_slots hend
      exact h.of_eq hexecuted fun sid slotid => (hslots sid slotid).1

theorem Unlocked.step {op : CompoundOp O} (h : Unlocked s) (hstep : Nfs41.step funct s op = some s')
    (hno : NoRetransmission s op s') : Unlocked s' := by
  cases op with
  | request t req =>
    obtain ⟨⟨s1, answer⟩, hbegin, rfl⟩ := Option.map_eq_some_iff.mp hstep
    cases beginCases hbegin with
    | refused hreach => exact h
    | misordered hreach hlocked hcurrent => exact h
    | retransmitted hreach hcurrent hexecuted hseq hlocked =>
      exact absurd hcurrent (hno _ hreach)
    | next hreach hnext hsessions hexecuted =>
      intro sid slotid
      dsimp only
      rw [hsessions, slotAt_setSlot]
      split
      · rw [hreach.2.2.2]
        nofun
      · exact h sid slotid
  | rest t =>
    obtain ⟨⟨s1, answer⟩, hend, rfl⟩ := Option.map_eq_some_iff.mp hstep
    intro sid slotid
    rw [((compoundEnd_slots hend).2 sid slotid).2]
    exact h sid slotid

theorem Unlocked.slotStep_iff {op : CompoundOp O} (h : Unlocked s)
    (hstep : Nfs41.step funct s op = some s') : SlotStep s op s' ↔ NoRetransmission s op s' := by
  cases op with
  | rest t => exact Iff.rfl
  | request t req =>
    obtain ⟨⟨s1, answer⟩, hbegin, rfl⟩ := Option.map_eq_some_iff.mp hstep
    constructor
    · intro hslots slot hreach hcurrent
      have hslot := hslots slot hreach s1 answer hbegin
      cases beginCases hbegin with
      | refused hno => exact hno slot hreach
      | misordered hreach' hlocked hne =>
        cases hreach.2.2.2.symm.trans hreach'.2.2.2
        exact hne hcurrent
      | retransmitted hreach' hcurrent' hexecuted hseq hlocked =>
        obtain ⟨slot', hslot', hlocked⟩ := Option.map_eq_some_iff.mp hlocked
        cases hlocked.symm.trans (hslot.unlocked slot' hslot')
      | next hreach' hnext hsessions hexecuted =>
        cases hreach.2.2.2.symm.trans hreach'.2.2.2
        rw [hcurrent] at hnext
        simp at hnext
    · intro hno slot hreach s2 answer2 hbegin2
      have hcurrent := hno slot hreach
      have hunlocked : ∀ slot', s1.sessions.slotAt req.args.saSessionid req.args.saSlotid =
          some slot' → slot'.locked = false := by
        intro slot' hslot'
        have hfree := h.step hstep hno req.args.saSessionid req.args.saSlotid
        rw [hslot', Option.map_some] at hfree
        exact Bool.eq_false_of_not_eq_true fun hlocked => hfree (congrArg some hlocked)
      obtain ⟨rfl, rfl⟩ := Prod.mk.inj (Option.some.inj (hbegin.symm.trans hbegin2))
      refine ⟨fun hnext _ => ?_, fun heq => absurd heq hcurrent, hunlocked⟩
      cases beginCases hbegin with
      | refused hnone => exact absurd hreach (hnone slot)
      | misordered hreach' hlocked hne => exact ⟨rfl, rfl⟩
      | retransmitted hreach' hcurrent' hexecuted hseq hlocked =>
        exact absurd hcurrent' (hno _ hreach')
      | next hreach' hnext' hsessions hexecuted =>
        cases hreach.2.2.2.symm.trans hreach'.2.2.2
        exact absurd hnext' hnext

/-- **Exactly-once slots**: in a run of any threads on new sessions, no sequence id is let through
twice before its slot moves on, and every request keeps the promise of the slots, exactly when no
request has the current sequence id of its slot. -/
theorem exactlyOnce_iff_noRetransmission (funct : O → ℕ → W → W × Nfsstat4 × R × Bool)
    (caMaxoperations : ℕ → Option UInt32) (world : W) (ops : List (CompoundOp O)) :
    (Always (step funct) AtMostOnce (init caMaxoperations world) ops ∧
        AllSteps (step funct) SlotStep (init caMaxoperations world) ops) ↔
      AllSteps (step funct) NoRetransmission (init caMaxoperations world) ops := by
  have honce := (counted_always funct caMaxoperations world ops).mono fun s h => h.atMostOnce
  have hunlocked : Unlocked (init (O := O) (R := R) caMaxoperations world) := by
    intro sid slotid
    cases hsid : caMaxoperations sid with
    | none => simp [init, Sessions.slotAt, hsid]
    | some n => simp [init, Sessions.slotAt, hsid, Slot.cleared]
  rw [and_iff_right honce]
  apply allSteps_iff_of_invariant hunlocked
  · exact fun s op s' h hstep hno => h.step hstep hno
  · exact fun s op s' h hstep => h.slotStep_iff hstep

end

/-- The first request on the first slot of a session, whose reply is to be cached. -/
def firstRequest : Request Unit := ⟨⟨0, 1, 0, true⟩, [], true⟩

/-- A request is answered and sent once more: the mutex of its slot stays locked. -/
theorem retransmission_breaks_exactlyOnce :
    ¬ ∀ (funct : Unit → ℕ → Unit → Unit × Nfsstat4 × Unit × Bool)
        (caMaxoperations : ℕ → Option UInt32) (ops : List (CompoundOp Unit)),
      Always (step funct) AtMostOnce (init caMaxoperations ()) ops ∧
        AllSteps (step funct) SlotStep (init caMaxoperations ()) ops := by
  intro h
  obtain ⟨-, hall⟩ := h (fun _ _ _ => ((), .ok, (), false)) (fun _ => some 8)
    [.request 0 firstRequest, .rest 0, .request 1 firstRequest]
  obtain ⟨-, hall⟩ := hall _ rfl
  obtain ⟨-, hall⟩ := hall _ rfl
  obtain ⟨hslots, -⟩ := hall _ rfl
  have hslot := hslots _ ⟨by decide, rfl, by decide, rfl⟩ _ _ rfl
  cases hslot.unlocked _ rfl

end CloudNfs.Nfs41
