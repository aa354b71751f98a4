import CloudNfs.Lru
import CloudNfs.Places
import CloudNfs.Prealloc
import CloudNfs.Run

/-!
# The records of the requests

A record, `nfs_request_data_t`, is taken from the pool of a worker by the dispatcher, handed over
in `pending_request` of that worker, and given back to the pool when the worker collects the
invalid entries of the list.

* A section under `request_pool_mutex` is one step; the dispatcher and the workers take their steps
  in any order, and a receive ends in any way.
* Two things break it: a receive that fails on a connection that has **not died** drops the record,
  and the worker collects the list **before it has done** with its own record. It holds throughout a
  run exactly when neither happens in it (`conserved_iff`).
-/

namespace CloudNfs.RequestRecords

open Prealloc (Pools)

/-! ### The code -/

/-- `enum xprt_stat`. -/
inductive XprtStat where
  | died
  | morereqs
  | idle
  deriving DecidableEq

structure Param where
  nbWorker : ℕ
  /-- `nb_pending_prealloc`, as `GetPreferedPool` rounds it -/
  nbPendingPrealloc : ℕ
  nbBeforeGc : UInt32
  nbCallGcInvalid : UInt32

/-- Where `nfs_rpc_getreq` is, with the index of the worker and the record. -/
inductive DispatcherPc where
  | idle
  /-- at `SVC_RECV` -/
  | recv (w p : ℕ)
  /-- at the release of the record of a dead connection -/
  | died (w p : ℕ)
  /-- at `passcounter += 1` -/
  | count (w : ℕ)
  /-- at the insertion into `pending_request` -/
  | insert (w p : ℕ)

/-- Where a worker is, with its record `pnfsreq`. -/
inductive WorkerPc where
  | idle
  /-- at the request, whose entry is at the place `i` -/
  | process (i p : ℕ)
  /-- at the test of `passcounter` -/
  | test (p : ℕ)
  /-- at `LRU_gc_invalid` -/
  | collect (p : ℕ)
  /-- at `passcounter += 1` -/
  | count (p : ℕ)
  /-- at the test of `ipproto` and `nfs_Cleanup_request_data` -/
  | finish (p : ℕ)

/-- `nfs_worker_data_t`, as far as the records are concerned. -/
structure Worker where
  /-- `pending_request` -/
  pending : LruList ℕ
  passcounter : UInt32
  pc : WorkerPc

structure Server where
  /-- `request_pool` of each worker -/
  pools : Pools
  dispatcher : DispatcherPc
  workers : ℕ → Worker

inductive Action where
  /-- there is input for the worker `w`; `alloc` is the result of an allocation -/
  | choose (w : ℕ) (alloc : Bool)
  /-- `SVC_RECV` returns `status`, and `SVC_STAT` then `stat` -/
  | recv (status : Bool) (stat : XprtStat)
  | dispatcher
  | worker (w : ℕ)

namespace Server

def modify (s : Server) (w : ℕ) (f : Worker → Worker) : Server :=
  { s with workers := Function.update s.workers w (f (s.workers w)) }

end Server

/-- `clean_pending_request`, for the entries that are taken off. -/
def cleanPendingRequests (P : Pools) (w : ℕ) (cleaned : List ℕ) : Pools :=
  cleaned.foldl (fun P p => P.release w p) P

/-- `nfs_rpc_getreq` takes a record. Without one it exits. -/
def chooseStep (par : Param) (s : Server) (w : ℕ) (alloc : Bool) : Option Server :=
  match s.dispatcher with
  | .idle =>
    if w < par.nbWorker then
      match s.pools.get w par.nbPendingPrealloc alloc with
      | some (p, pools) => some { s with pools := pools, dispatcher := .recv w p }
      | none => none
    else none
  | _ => none

/-- `nfs_rpc_getreq` after `SVC_RECV`. -/
def recvStep (s : Server) (status : Bool) (stat : XprtStat) : Option Server :=
  match s.dispatcher with
  | .recv w p =>
    if status then some { s with dispatcher := .insert w p }
    else
      match stat with
      | .died => some { s with dispatcher := .died w p }
      | .morereqs => some { s with dispatcher := .count w }
      | .idle => some { s with dispatcher := .count w }
  | _ => none

/-- The other steps of `nfs_rpc_getreq`. -/
def dispatcherStep (s : Server) : Option Server :=
  match s.dispatcher with
  | .idle => none
  | .recv _ _ => none
  | .died w p => some { s with pools := s.pools.release w p, dispatcher := .count w }
  | .count w =>
    some { s.modify w (fun d => { d with passcounter := d.passcounter + 1 }) with
      dispatcher := .idle }
  | .insert w p =>
    some { s.modify w (fun d => { d with pending := d.pending.newEntry p }) with
      dispatcher := .idle }

/-- The steps of `worker_thread`. -/
def workerStep (par : Param) (s : Server) (w : ℕ) : Option Server :=
  let d := s.workers w
  match d.pc with
  | .idle =>
    if d.pending.nbEntry = d.pending.nbInvalid then none
    else
      match d.pending.firstValid with
      | some (i, p) => some (s.modify w fun d => { d with pc := .process i p })
      -- `No pending request available`
      | none => none
  | .process i p =>
    some (s.modify w fun d => { d with pending := d.pending.invalidate i, pc := .test p })
  | .test p =>
    if par.nbBeforeGc < d.passcounter then
      some (s.modify w fun d => { d with passcounter := 0, pc := .collect p })
    else some (s.modify w fun d => { d with pc := .count p })
  | .collect p =>
    let (pending, cleaned) := d.pending.gcInvalid par.nbCallGcInvalid
    some { s.modify w (fun d => { d with pending := pending, pc := .count p }) with
      pools := cleanPendingRequests s.pools w cleaned }
  | .count p =>
    some (s.modify w fun d => { d with passcounter := d.passcounter + 1, pc := .finish p })
  | .finish _ => some (s.modify w fun d => { d with pc := .idle })

def step (par : Param) (s : Server) : Action → Option Server
  | .choose w alloc => chooseStep par s w alloc
  | .recv status stat => recvStep s status stat
  | .dispatcher => dispatcherStep s
  | .worker w => if w < par.nbWorker then workerStep par s w else none

/-- The server after `nfs_Init`, which fills the pools of the workers. -/
def init (par : Param) : Server where
  pools := (List.range par.nbWorker).foldl
    (fun P w => P.stuff w par.nbPendingPrealloc true) Pools.empty
  dispatcher := .idle
  workers _ := ⟨LruList.init, 0, .idle⟩

/-! ### The contract -/

/-- The record in the hands of the dispatcher. -/
def DispatcherPc.record : DispatcherPc → Option ℕ
  | .recv _ p | .died _ p | .insert _ p => some p
  | .idle | .count _ => none

/-- The record that a worker uses. -/
def WorkerPc.record : WorkerPc → Option ℕ
  | .process _ p | .test p | .collect p | .count p | .finish p => some p
  | .idle => none

/-- The places of a record. -/
inductive Place where
  | pool (w : ℕ)
  /-- `pending_request` of a worker -/
  | pending (w : ℕ)
  | dispatcher
  deriving DecidableEq

/-- How often a record is at a place. -/
def Server.occurrences (s : Server) (p : ℕ) : Place → ℕ
  | .pool w => (s.pools.pool w).count p
  | .pending w => (s.workers w).pending.data.count p
  | .dispatcher => s.dispatcher.record.toList.count p

/-- **The contract**: each record that was allocated is at exactly one place, and the one that a
worker uses is in no pool. -/
structure Conserved (s : Server) : Prop where
  onePlace : ∀ p < s.pools.fresh, OnePlace (s.occurrences p)
  /-- no worker uses a record that is in a pool -/
  unpooled : ∀ w p, (s.workers w).pc.record = some p → ∀ w', p ∉ s.pools.pool w'

/-- A worker that collects its list either finds nothing to do, or its own entry is the last one,
which stays. -/
def SparesOwn (par : Param) (d : Worker) (p : ℕ) : Prop :=
  d.pending.gcRuns par.nbCallGcInvalid = true → d.pending.data.getLast? = some p

instance (par : Param) (d : Worker) (p : ℕ) : Decidable (SparesOwn par d p) :=
  inferInstanceAs (Decidable (_ → _))

/-- The record of a worker that is about to collect its list. -/
def WorkerPc.collects : WorkerPc → Option ℕ
  | .collect p => some p
  | _ => none

/-- The step loses no record and gives none back that is in use. -/
def KeepsRecords (par : Param) (s : Server) : Action → Prop
  | .recv false stat => stat = .died
  | .worker w => ∀ p ∈ (s.workers w).pc.collects, SparesOwn par (s.workers w) p
  | _ => True

instance (par : Param) (s : Server) : (a : Action) → Decidable (KeepsRecords par s a)
  | .choose _ _ => isTrue trivial
  | .recv true _ => isTrue trivial
  | .recv false stat => inferInstanceAs (Decidable (stat = .died))
  | .dispatcher => isTrue trivial
  | .worker w => inferInstanceAs (Decidable (∀ p ∈ (s.workers w).pc.collects, _))

/-! ### Moving records from one place to another -/

/-- Each allocated record is at one place, and the places have no others. -/
structure Placed (s : Server) : Prop where
  onePlace : ∀ p < s.pools.fresh, OnePlace (s.occurrences p)
  below : ∀ p pl, s.occurrences p pl ≠ 0 → p < s.pools.fresh

namespace Placed

variable {s t : Server} {A B : Place} {L : List ℕ} {w w' p : ℕ}

theorem move (h : Placed s) (hfresh : t.pools.fresh = s.pools.fresh) (hAB : A ≠ B)
    (hmove : ∀ q pl, t.occurrences q pl + (if pl = A then L.count q else 0) =
      s.occurrences q pl + (if pl = B then L.count q else 0)) : Placed t := by
  refine ⟨fun q hq => (h.onePlace q (hfresh ▸ hq)).move hAB (hmove q), fun q pl hpl => ?_⟩
  rw [hfresh]
  by_cases hcount : L.count q = 0
  · have heq := hmove q pl
    rw [hcount, ite_self, ite_self] at heq
    apply h.below q pl
    omega
  · have hA := hmove q A
    rw [if_pos rfl, if_neg hAB] at hA
    apply h.below q A
    omega

theorem congr (h : Placed s) (hfresh : t.pools.fresh = s.pools.fresh)
    (hocc : ∀ q pl, t.occurrences q pl = s.occurrences q pl) : Placed t := by
  refine ⟨fun q hq => ?_, fun q pl hpl => ?_⟩
  · rw [funext (hocc q)]
    exact h.onePlace q (hfresh ▸ hq)
  · rw [hocc] at hpl
    rw [hfresh]
    exact h.below q pl hpl

theorem notMem_pool (h : Placed s) (hp : p ∈ (s.workers w).pending.data) : p ∉ s.pools.pool w' := by
  have hpending : s.occurrences p (.pending w) ≠ 0 := Nat.ne_of_gt (List.count_pos_iff.mpr hp)
  have hpool := (h.onePlace p (h.below p _ hpending)).eq_zero hpending
    (show Place.pool w' ≠ .pending w from Place.noConfusion)
  exact List.count_eq_zero.mp hpool

theorem count_pending_le (h : Placed s) (p w : ℕ) : (s.workers w).pending.data.count p ≤ 1 := by
  by_cases hzero : s.occurrences p (.pending w) = 0
  · exact hzero.le.trans (Nat.zero_le 1)
  · exact (h.onePlace p (h.below p _ hzero)).le_one (.pending w)

theorem stuff (h : Placed s) (nb : ℕ) (alloc : Bool) :
    Placed { s with pools := s.pools.stuff w nb alloc } := by
  rw [Pools.stuff]
  split
  next hempty =>
    have hpool : ∀ q pl, ({ s with
        pools := ⟨Function.update s.pools.pool w (List.range' s.pools.fresh nb),
          s.pools.fresh + nb⟩ } : Server).occurrences q pl =
        s.occurrences q pl +
          if pl = .pool w then (List.range' s.pools.fresh nb).count q else 0 := by
      intro q pl
      cases pl with
      | pool w' =>
        by_cases hw : w' = w
        · subst hw
          simp [Server.occurrences, hempty.1]
        · simp [Server.occurrences, hw]
      | pending w' | dispatcher => simp [Server.occurrences]
    have hnew : ∀ q, q < s.pools.fresh → (List.range' s.pools.fresh nb).count q = 0 := by
      intro q hq
      rw [List.count_eq_zero]
      intro hmem
      have := (List.mem_range'_1.mp hmem).1
      omega
    refine ⟨fun q hq => ?_, fun q pl hpl => ?_⟩
    · by_cases hold : q < s.pools.fresh
      · rw [funext (hpool q), hnew q hold]
        simp only [ite_self, Nat.add_zero]
        exact h.onePlace q hold
      · -- a new record
        have hzero : ∀ pl, s.occurrences q pl = 0 := fun pl => by
          by_contra hne
          exact hold (h.below q pl hne)
        have hmem : q ∈ List.range' s.pools.fresh nb := List.mem_range'_1.mpr ⟨by omega, hq⟩
        refine ⟨.pool w, ?_, fun pl' hne => ?_⟩
        · rw [hpool, hzero, if_pos rfl, List.count_eq_one_of_mem List.nodup_range' hmem]
        · rw [hpool, hzero, if_neg hne]
    · by_cases hold : q < s.pools.fresh
      · exact Nat.lt_of_lt_of_le hold (Nat.le_add_right _ _)
      · rw [hpool] at hpl
        have hzero : s.occurrences q pl = 0 := by
          by_contra hne
          exact hold (h.below q pl hne)
        rw [hzero, Nat.zero_add] at hpl
        have hpos : 0 < (List.range' s.pools.fresh nb).count q := by
          by_contra hnone
          rw [Nat.eq_zero_of_not_pos hnone, ite_self] at hpl
          exact hpl rfl
        exact (List.mem_range'_1.mp (List.count_pos_iff.mp hpos)).2
  · exact h

end Placed

/-! ### What a worker holds -/

def WorkerOk (d : Worker) : Prop :=
  match d.pc with
  | .idle => True
  | .process i p => d.pending.entries[i]? = some ⟨true, p⟩
  | .test p | .collect p => ⟨false, p⟩ ∈ d.pending.entries
  | .count p | .finish p => p ∈ d.pending.data

theorem WorkerOk.mem_data {d : Worker} {p : ℕ} (h : WorkerOk d) (hp : d.pc.record = some p) :
    p ∈ d.pending.data := by
  obtain ⟨pending, passcounter, pc⟩ := d
  cases pc with
  | idle => cases hp
  | process i q =>
    cases hp
    exact LruList.mem_data_of_mem (List.mem_of_getElem? h)
  | test q =>
    cases hp
    exact LruList.mem_data_of_mem h
  | collect q =>
    cases hp
    exact LruList.mem_data_of_mem h
  | count q =>
    cases hp
    exact h
  | finish q =>
    cases hp
    exact h

theorem WorkerOk.newEntry {d : Worker} (h : WorkerOk d) (p : ℕ) :
    WorkerOk { d with pending := d.pending.newEntry p } := by
  obtain ⟨pending, passcounter, pc⟩ := d
  cases pc with
  | idle => exact trivial
  | process i q =>
    have hget : pending.entries[i]? = some ⟨true, q⟩ := h
    obtain ⟨hlt, -⟩ := List.getElem?_eq_some_iff.mp hget
    exact (List.getElem?_append_left hlt).trans hget
  | test q | collect q => exact List.mem_append_left _ h
  | count q =>
    have hmem : q ∈ pending.data := h
    rw [WorkerOk, LruList.data_newEntry]
    exact List.mem_append_left _ hmem
  | finish q =>
    have hmem : q ∈ pending.data := h
    rw [WorkerOk, LruList.data_newEntry]
    exact List.mem_append_left _ hmem

structure Inv (s : Server) : Prop extends Placed s where
  workers : ∀ w, WorkerOk (s.workers w)

section Inv

variable {par : Param} {s t : Server} {w p : ℕ}

theorem Inv.conserved (h : Inv s) : Conserved s :=
  ⟨h.onePlace, fun w _ hp _ => h.notMem_pool ((h.workers w).mem_data hp)⟩

variable {f : Worker → Worker}

@[simp] theorem workers_modify_self :
    (s.modify w f).workers w = f (s.workers w) := Function.update_self ..

theorem workers_modify_of_ne {w' : ℕ} (h : w' ≠ w) :
    (s.modify w f).workers w' = s.workers w' := Function.update_of_ne h ..

theorem workerOk_modify (h : ∀ w, WorkerOk (s.workers w)) (hf : WorkerOk (f (s.workers w))) (w' : ℕ)
    : WorkerOk ((s.modify w f).workers w') := by
  by_cases hw : w' = w
  · subst hw
    rw [workers_modify_self]
    exact hf
  · rw [workers_modify_of_ne hw]
    exact h w'

theorem occurrences_modify (hf : (f (s.workers w)).pending.data = (s.workers w).pending.data)
    (q : ℕ) (pl : Place) : (s.modify w f).occurrences q pl = s.occurrences q pl := by
  cases pl with
  | pool w' => rfl
  | dispatcher => rfl
  | pending w' =>
    by_cases hw : w' = w
    · subst hw
      simp only [Server.occurrences, workers_modify_self, hf]
    · simp only [Server.occurrences, workers_modify_of_ne hw]

theorem Inv.modify (h : Inv s) (hf : (f (s.workers w)).pending.data = (s.workers w).pending.data)
    (hok : WorkerOk (f (s.workers w))) : Inv (s.modify w f) :=
  ⟨h.toPlaced.congr rfl (occurrences_modify hf), workerOk_modify h.workers hok⟩

/-! ### The dispatcher -/

theorem inv_choose {alloc : Bool} (h : Inv s) (hst : chooseStep par s w alloc = some t) :
    Inv t := by
  obtain ⟨pools, dispatcher, workers⟩ := s
  cases dispatcher with
  | idle =>
    simp only [chooseStep, Option.ite_none_right_eq_some] at hst
    obtain ⟨-, hst⟩ := hst
    split at hst
    next p pools' hget =>
      cases hst
      rw [Pools.get] at hget
      split at hget
      · cases hget
      rename_i q rest hpool
      obtain ⟨rfl, rfl⟩ := Prod.mk.inj (Option.some.inj hget)
      have hstuff := h.toPlaced.stuff (w := w) par.nbPendingPrealloc alloc
      refine ⟨hstuff.move (A := .pool w) (B := .dispatcher) (L := [q]) rfl Place.noConfusion
        fun r pl => ?_, h.workers⟩
      cases pl with
      | pool w' =>
        by_cases hw : w' = w
        · subst hw
          simp [Server.occurrences, hpool, List.count_cons]
        · simp [Server.occurrences, hw]
      | pending w' => simp [Server.occurrences]
      | dispatcher => simp [Server.occurrences, DispatcherPc.record]
    · cases hst
  | _ => cases hst

theorem inv_recv {status : Bool} {stat : XprtStat} (h : Inv s)
    (hst : recvStep s status stat = some t) (hkeep : status = false → stat = .died) : Inv t := by
  obtain ⟨pools, dispatcher, workers⟩ := s
  cases dispatcher with
  | recv w p =>
    cases status with
    | true =>
      cases hst
      exact ⟨h.toPlaced.congr rfl fun q pl => by cases pl <;> rfl, h.workers⟩
    | false =>
      obtain rfl := hkeep rfl
      cases hst
      exact ⟨h.toPlaced.congr rfl fun q pl => by cases pl <;> rfl, h.workers⟩
  | _ => cases hst

theorem inv_dispatcherStep (h : Inv s) (hst : dispatcherStep s = some t) : Inv t := by
  obtain ⟨pools, dispatcher, workers⟩ := s
  cases dispatcher with
  | idle => cases hst
  | recv _ _ => cases hst
  | died w p =>
    cases hst
    refine ⟨h.toPlaced.move (A := .dispatcher) (B := .pool w) (L := [p]) rfl Place.noConfusion
      fun q pl => ?_, h.workers⟩
    cases pl with
    | pool w' =>
      by_cases hw : w' = w
      · subst hw
        simp [Server.occurrences, Pools.release, List.count_cons]
      · simp [Server.occurrences, Pools.release, hw]
    | pending w' => simp [Server.occurrences]
    | dispatcher => simp [Server.occurrences, DispatcherPc.record]
  | count w =>
    cases hst
    have hmodify := h.modify (w := w) (f := fun d => { d with passcounter := d.passcounter + 1 })
      rfl (h.workers w)
    exact ⟨hmodify.toPlaced.congr rfl fun q pl => by cases pl <;> rfl, hmodify.workers⟩
  | insert w p =>
    cases hst
    refine ⟨h.toPlaced.move (A := .dispatcher) (B := .pending w) (L := [p]) rfl Place.noConfusion
      fun q pl => ?_, ?_⟩
    · cases pl with
      | pool w' => simp [Server.occurrences, Server.modify]
      | pending w' =>
        by_cases hw : w' = w
        · subst hw
          simp [Server.occurrences, Server.modify]
        · simp [Server.occurrences, Server.modify, hw]
      | dispatcher => simp [Server.occurrences, DispatcherPc.record]
    · exact workerOk_modify (w := w) (f := fun d => { d with pending := d.pending.newEntry p })
        h.workers ((h.workers w).newEntry p)

/-! ### The workers -/

theorem fresh_clean (P : Pools) (w : ℕ) (L : List ℕ) :
    (cleanPendingRequests P w L).fresh = P.fresh := by
  induction L generalizing P with
  | nil => rfl
  | cons p L ih => exact ih (P.release w p)

theorem count_clean (P : Pools) (w : ℕ) (L : List ℕ) (q w' : ℕ) :
    ((cleanPendingRequests P w L).pool w').count q =
      (P.pool w').count q + if w' = w then L.count q else 0 := by
  induction L generalizing P with
  | nil => simp [cleanPendingRequests]
  | cons p L ih =>
    have hrec := ih (P.release w p)
    rw [cleanPendingRequests, List.foldl_cons, ← cleanPendingRequests, hrec]
    by_cases hw : w' = w
    · subst hw
      simp only [Pools.release, Function.update_self, List.count_cons, if_true]
      omega
    · simp only [Pools.release, Function.update_of_ne hw, if_neg hw]

theorem mem_cleaned_iff (h : Inv s) (hpc : (s.workers w).pc = .collect p) :
    p ∈ ((s.workers w).pending.gcInvalid par.nbCallGcInvalid).2 ↔
      ¬ SparesOwn par (s.workers w) p := by
  have hmem : (⟨false, p⟩ : LruEntry ℕ) ∈ (s.workers w).pending.entries := by
    have hok := h.workers w
    rw [WorkerOk, hpc] at hok
    exact hok
  have hone := h.count_pending_le p w
  rw [LruList.mem_gcInvalid, SparesOwn, Classical.not_imp]
  refine and_congr_right fun _ => ?_
  rw [LruList.data] at hone ⊢
  generalize (s.workers w).pending.entries = l at hmem hone ⊢
  rcases List.eq_nil_or_concat l with rfl | ⟨init, last, rfl⟩
  · cases hmem
  · rw [List.concat_eq_append] at hmem hone ⊢
    rw [List.dropLast_concat, List.map_append, List.map_singleton, List.getLast?_concat,
      Option.some.injEq]
    constructor
    · rintro hinit rfl
      have hdata : last.pdata ∈ init.map (·.pdata) := List.mem_map.mpr ⟨_, hinit, rfl⟩
      have hcount : 0 < (init.map (·.pdata)).count last.pdata := List.count_pos_iff.mpr hdata
      rw [List.map_append, List.map_singleton, List.count_append, List.count_singleton_self] at hone
      omega
    · intro hne
      rcases List.mem_append.mp hmem with hinit | hlast
      · exact hinit
      · rw [← List.mem_singleton.mp hlast] at hne
        exact absurd rfl hne

theorem inv_workerStep (h : Inv s) (hst : workerStep par s w = some t)
    (hkeep : ∀ p ∈ (s.workers w).pc.collects, SparesOwn par (s.workers w) p) : Inv t := by
  have hok := h.workers w
  rw [WorkerOk] at hok
  cases hpc : (s.workers w).pc with
  | idle =>
    simp only [workerStep, hpc, Option.ite_none_left_eq_some] at hst
    obtain ⟨-, hst⟩ := hst
    split at hst
    next i p hfirst =>
      cases hst
      exact h.modify rfl (LruList.firstAt_of_firstValid hfirst).getElem?
    · cases hst
  | process i p =>
    simp only [workerStep, hpc, Option.some.injEq] at hst
    subst hst
    rw [hpc] at hok
    exact h.modify LruList.data_invalidate (LruList.mem_entries_invalidate hok)
  | test p =>
    simp only [workerStep, hpc] at hst
    rw [hpc] at hok
    split at hst
    · cases hst
      exact h.modify rfl hok
    · cases hst
      exact h.modify rfl (LruList.mem_data_of_mem hok)
  | collect p =>
    simp only [workerStep, hpc, Option.some.injEq] at hst
    subst hst
    have hspares : SparesOwn par (s.workers w) p := hkeep p (by rw [hpc]; exact rfl)
    have hperm := LruList.gcInvalid_perm (l := (s.workers w).pending) (n := par.nbCallGcInvalid)
    refine ⟨h.toPlaced.move (A := .pending w) (B := .pool w)
      (L := ((s.workers w).pending.gcInvalid par.nbCallGcInvalid).2) (fresh_clean ..)
      Place.noConfusion fun q pl => ?_, ?_⟩
    · cases pl with
      | pool w' => simp [Server.occurrences, count_clean]
      | pending w' =>
        by_cases hw : w' = w
        · subst hw
          have hcount := hperm.count_eq q
          rw [List.count_append] at hcount
          simp only [Server.occurrences, Server.modify, Function.update_self, if_true,
            reduceCtorEq, if_false]
          omega
        · simp [Server.occurrences, Server.modify, hw]
      | dispatcher => simp [Server.occurrences, Server.modify]
    · refine workerOk_modify (s := s) (f := fun d => { d with
        pending := ((s.workers w).pending.gcInvalid par.nbCallGcInvalid).1, pc := .count p })
        h.workers ?_
      have hmem : p ∈ (s.workers w).pending.data := (h.workers w).mem_data (by rw [hpc]; rfl)
      rcases List.mem_append.mp (hperm.mem_iff.mpr hmem) with hcleaned | hleft
      · exact absurd hspares ((mem_cleaned_iff h hpc).mp hcleaned)
      · exact hleft
  | count p =>
    simp only [workerStep, hpc, Option.some.injEq] at hst
    subst hst
    rw [hpc] at hok
    exact h.modify rfl hok
  | finish p =>
    simp only [workerStep, hpc, Option.some.injEq] at hst
    subst hst
    exact h.modify rfl trivial

end Inv

/-! ### Runs -/

section Runs

variable {par : Param} {s t : Server} {a : Action}

/-- **A step** keeps every record in one place, if it meets the condition. -/
theorem inv_step (h : Inv s) (hst : step par s a = some t) (hkeep : KeepsRecords par s a) :
    Inv t := by
  cases a with
  | choose w alloc => exact inv_choose h hst
  | recv status stat =>
    refine inv_recv h hst fun hstatus => ?_
    subst hstatus
    exact hkeep
  | dispatcher => exact inv_dispatcherStep h hst
  | worker w =>
    simp only [step, Option.ite_none_right_eq_some] at hst
    exact inv_workerStep h hst.2 hkeep

theorem not_conserved_recv {stat : XprtStat} (h : Inv s)
    (hst : recvStep s false stat = some t) (hstat : stat ≠ .died) : ¬ Conserved t := by
  intro ht
  obtain ⟨pools, dispatcher, workers⟩ := s
  cases dispatcher with
  | recv w p =>
    have hheld : ({ pools := pools, dispatcher := .recv w p, workers := workers } :
        Server).occurrences p .dispatcher ≠ 0 := by
      simp [Server.occurrences, DispatcherPc.record]
    have hbelow := h.below p _ hheld
    obtain rfl : { pools := pools, dispatcher := .count w, workers := workers } = t := by
      cases stat with
      | died => exact absurd rfl hstat
      | morereqs => exact Option.some.inj hst
      | idle => exact Option.some.inj hst
    -- it was nowhere else, and now it is nowhere
    obtain ⟨pl, hone, -⟩ := ht.onePlace p hbelow
    cases pl with
    | pool w' =>
      have hzero := (h.onePlace p hbelow).eq_zero hheld
        (show Place.pool w' ≠ .dispatcher from Place.noConfusion)
      exact absurd (hone.symm.trans hzero) Nat.one_ne_zero
    | pending w' =>
      have hzero := (h.onePlace p hbelow).eq_zero hheld
        (show Place.pending w' ≠ .dispatcher from Place.noConfusion)
      exact absurd (hone.symm.trans hzero) Nat.one_ne_zero
    | dispatcher => exact absurd hone Nat.zero_ne_one
  | _ => cases hst

theorem keepsRecords_of_conserved (h : Inv s) (hst : step par s a = some t) (ht : Conserved t) :
    KeepsRecords par s a := by
  cases a with
  | choose w alloc => exact trivial
  | recv status stat =>
    cases status with
    | true => exact trivial
    | false =>
      by_contra hstat
      exact not_conserved_recv h hst hstat ht
  | dispatcher => exact trivial
  | worker w =>
    intro p hp
    simp only [step, Option.ite_none_right_eq_some] at hst
    cases hpc : (s.workers w).pc with
    | collect q =>
      rw [hpc] at hp
      obtain rfl := Option.some.inj hp
      by_contra hspares
      -- the worker has given back the record that it still uses
      have hcleaned := (mem_cleaned_iff h hpc).mpr hspares
      have hstep := hst.2
      simp only [workerStep, hpc, Option.some.injEq] at hstep
      subst hstep
      apply ht.unpooled w q (by simp [Server.modify, WorkerPc.record]) w
      simp only [← List.count_pos_iff, count_clean, if_true]
      have := List.count_pos_iff.mpr hcleaned
      omega
    | _ => rw [hpc] at hp; cases hp

theorem inv_init (par : Param) : Inv (init par) := by
  have hstuff : ∀ (l : List ℕ) (P : Pools), Placed ⟨P, .idle, fun _ => ⟨LruList.init, 0, .idle⟩⟩ →
      Placed ⟨l.foldl (fun P w => P.stuff w par.nbPendingPrealloc true) P, .idle,
        fun _ => ⟨LruList.init, 0, .idle⟩⟩ := by
    intro l
    induction l with
    | nil => exact fun P hP => hP
    | cons w l ih => exact fun P hP => ih _ (hP.stuff par.nbPendingPrealloc true)
  refine ⟨hstuff _ _ ⟨fun p hp => absurd hp (Nat.not_lt_zero p), fun p pl hpl => ?_⟩,
    fun _ => trivial⟩
  cases pl <;> exact absurd rfl hpl

end Runs

theorem keepsRecords_of_always {par : Param} {as : List Action}
    (h : Always (step par) Conserved (init par) as) :
    AllSteps (step par) (fun s a _ => KeepsRecords par s a) (init par) as :=
  (always_iff_allSteps (I := Inv) (inv_init par) (fun _ h => h.conserved)
    (fun _ _ _ h hst hkeep => inv_step h hst hkeep)
    (fun _ _ _ h hst ht => keepsRecords_of_conserved h hst ht)).mp h

/-- **Records are conserved** throughout a run, and no worker uses one that is in a pool, exactly
when no step of it drops the record of a live connection and no worker collects the entry of the
record that it has in hand. -/
theorem conserved_iff (par : Param) (as : List Action) :
    Always (step par) Conserved (init par) as ↔
      AllSteps (step par) (fun s a _ => KeepsRecords par s a) (init par) as := by
  refine ⟨keepsRecords_of_always, fun h => ?_⟩
  exact (always_of_allSteps (inv_init par) (fun _ _ _ h hst hkeep => inv_step h hst hkeep) h).mono
    fun _ h => h.conserved

/-- One worker, which collects its list after every request but the first. -/
def oneWorker : Param :=
  { nbWorker := 1, nbPendingPrealloc := 4, nbBeforeGc := 0, nbCallGcInvalid := 0 }

/-- A client connects: `SVC_RECV` accepts the connection, and there is no request. -/
def connectRun : List Action := [.choose 0 true, .recv false .idle]

/-- The record that was taken for the connection is lost. -/
theorem connectRun_breaks_conserved :
    ¬ Always (step oneWorker) Conserved (init oneWorker) connectRun := fun h =>
  absurd (keepsRecords_of_always h) (by decide +kernel)

end CloudNfs.RequestRecords
