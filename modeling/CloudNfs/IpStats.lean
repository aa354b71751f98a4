import CloudNfs.Run
import Mathlib.Data.Int.Notation
import Mathlib.Logic.Function.Basic

/-!
# Statistics of the clients (`support/nfs_ip_stats.c`)

`nfs_export_check_access` counts the requests of every IPv4 address in a record, which
`nfs_ip_stats_add` takes from the pool of the worker and stores in the hash table of the worker.

* Records are numbered by their addresses in memory. The pool is the first one, and each has a
  pointer to the next.
* The table is a map from keys of 64 bits to records, as `Hash` proves of every hash table.
* Whether an allocation succeeds, and where, is part of the request.

The pool is passed by value: what the macros of `stuff_alloc.h` take from it or put back to it is
seen by `nfs_ip_stats_add` and `nfs_ip_stats_remove` alone. A record in the table is in the pool
then, or does not come back to it, so that the statistics are kept only as long as there are none
(`kept_iff`, `alwaysKept_iff`).
-/

namespace CloudNfs.IpStats

open Function (update update_self update_of_ne)

/-! ## The code -/

/-- `nfs_ip_stats_t` -/
structure NfsIpStats where
  nbCall : UInt32
  nbReqNfs2 : UInt32
  nbReqNfs3 : UInt32
  nbReqNfs4 : UInt32
  nbReqMnt1 : UInt32
  nbReqMnt3 : UInt32
  reqMnt1 : UInt32 → UInt32
  reqMnt3 : UInt32 → UInt32
  reqNfs2 : UInt32 → UInt32
  reqNfs3 : UInt32 → UInt32
  nextAlloc : Option ℕ

/-- The configuration; `preferedPool` is what `GetPreferedPool` makes of `nb_ip_stats_prealloc`. -/
structure Param where
  dumpStatsPerClient : Bool
  nbIpStatsPrealloc : UInt32
  preferedPool : ℕ
  nfsProgram : UInt32
  mntProgram : UInt32

/-- A worker, and for every address how many requests were counted for it -/
structure Worker where
  htIpStats : UInt64 → Option ℕ
  mem : ℕ → NfsIpStats
  ipStatsPool : Option ℕ
  counted : UInt32 → ℕ

/-- A request from an address; `array` is where `Mem_Alloc` finds memory for new records, if it
does, and `set` says whether `HashTable_Set` succeeds. -/
structure Request where
  rqProg : UInt32
  rqVers : UInt32
  rqProc : UInt32
  addr : UInt32
  array : Option ℕ
  set : Bool

inductive Status where
  | success
  | insertMallocError
  | notFound
deriving DecidableEq

/-- The loop of `STUFF_PREALLOC` -/
def stuffPrealloc (mem : ℕ → NfsIpStats) (pool nb : ℕ) : ℕ → NfsIpStats := fun a =>
  if pool ≤ a ∧ a < pool + nb then
    { mem a with nextAlloc := if a + 1 = pool + nb then none else some (a + 1) }
  else mem a

/-- `GET_PREALLOC`: the memory, the entry and the pool after it -/
def getPrealloc (par : Param) (array : Option ℕ) (mem : ℕ → NfsIpStats) (pool : Option ℕ) :
    (ℕ → NfsIpStats) × Option ℕ × Option ℕ :=
  match pool with
  | some entry => (mem, some entry, (mem entry).nextAlloc)
  | none =>
    if par.nbIpStatsPrealloc ≠ 0 then
      match array with
      | some entry =>
        let mem := stuffPrealloc mem entry par.preferedPool
        (mem, some entry, (mem entry).nextAlloc)
      | none => (mem, none, none)
    else (mem, none, none)

/-- `RELEASE_PREALLOC`: the memory and the pool after it -/
def releasePrealloc (mem : ℕ → NfsIpStats) (entry : ℕ) (pool : Option ℕ) :
    (ℕ → NfsIpStats) × Option ℕ :=
  (update mem entry { mem entry with nextAlloc := pool }, some entry)

/-- `nfs_ip_stats_add`. The pool that `GET_PREALLOC` leaves is the parameter of the function, and is
lost at its end. -/
def nfsIpStatsAdd (par : Param) (w : Worker) (ipaddr : UInt32) (nfsIpStatsPool : Option ℕ)
    (array : Option ℕ) (set : Bool) : Worker × Status :=
  if par.dumpStatsPerClient = false then (w, .success)
  else
    match getPrealloc par array w.mem nfsIpStatsPool with
    | (mem, none, _) => ({ w with mem := mem }, .insertMallocError)
    | (mem, some pnfsIpStats, _) =>
      let w :=
        { w with
          mem := update mem pnfsIpStats
            ⟨0, 0, 0, 0, 0, 0, fun _ => 0, fun _ => 0, fun _ => 0, fun _ => 0,
              (mem pnfsIpStats).nextAlloc⟩ }
      if set = true then
        ({ w with htIpStats := update w.htIpStats ipaddr.toUInt64 (some pnfsIpStats) },
          .success)
      else (w, .insertMallocError)

/-- One more in an array -/
def plusOne (req : UInt32 → UInt32) (rqProc : UInt32) : UInt32 → UInt32 :=
  update req rqProc (req rqProc + 1)

/-- What `nfs_ip_stats_incr` does to a record. -/
def NfsIpStats.incr (par : Param) (r : NfsIpStats) (req : Request) : NfsIpStats :=
  let r := { r with nbCall := r.nbCall + 1 }
  if req.rqProg = par.nfsProgram then
    if req.rqVers = 2 then
      { r with nbReqNfs2 := r.nbReqNfs2 + 1, reqNfs2 := plusOne r.reqNfs2 req.rqProc }
    else if req.rqVers = 3 then
      { r with nbReqNfs3 := r.nbReqNfs3 + 1, reqNfs3 := plusOne r.reqNfs3 req.rqProc }
    else if req.rqVers = 4 then { r with nbReqNfs4 := r.nbReqNfs4 + 1 }
    else r
  else if req.rqProg = par.mntProgram then
    if req.rqVers = 1 then
      { r with nbReqMnt1 := r.nbReqMnt1 + 1, reqMnt1 := plusOne r.reqMnt1 req.rqProc }
    else if req.rqVers = 3 then
      { r with nbReqMnt3 := r.nbReqMnt3 + 1, reqMnt3 := plusOne r.reqMnt3 req.rqProc }
    else r
  else r

/-- `nfs_ip_stats_incr` -/
def nfsIpStatsIncr (par : Param) (w : Worker) (ipaddr : UInt32) (req : Request) :
    Worker × Status :=
  if par.dumpStatsPerClient = false then (w, .success)
  else
    match w.htIpStats ipaddr.toUInt64 with
    | some pnfsIpStats =>
      ({ w with
          mem := update w.mem pnfsIpStats ((w.mem pnfsIpStats).incr par req)
          counted := update w.counted ipaddr (w.counted ipaddr + 1) }, .success)
    | none => (w, .notFound)

/-- `nfs_ip_stats_get`, when `dump_stats_per_client` is set -/
def nfsIpStatsGet (w : Worker) (ipaddr : UInt32) : Option ℕ := w.htIpStats ipaddr.toUInt64

/-- `nfs_ip_stats_remove`. The address is an `int`, and its key is sign-extended; the pool is a
parameter again. -/
def nfsIpStatsRemove (par : Param) (w : Worker) (ipaddr : Int32) (nfsIpStatsPool : Option ℕ) :
    Worker × Status :=
  if par.dumpStatsPerClient = false then (w, .success)
  else
    let key := ipaddr.toInt64.toUInt64
    match w.htIpStats key with
    | some pnfsIpStats =>
      ({ w with
          htIpStats := update w.htIpStats key none
          mem := (releasePrealloc w.mem pnfsIpStats nfsIpStatsPool).1 }, .success)
    | none => (w, .notFound)

/-- What `nfs_export_check_access` counts. -/
def nfsExportCheckAccess (par : Param) (w : Worker) (req : Request) : Worker :=
  if req.rqProc = 0 then w
  else if req.rqProg = par.mntProgram then w
  else
    match nfsIpStatsIncr par w req.addr req with
    | (w, .notFound) =>
      match nfsIpStatsAdd par w req.addr w.ipStatsPool req.array req.set with
      | (w, .success) => (nfsIpStatsIncr par w req.addr req).1
      | (w, _) => w
    | (w, _) => w

/-! ## The contract -/

def step (par : Param) (w : Worker) (req : Request) : Option Worker :=
  some (nfsExportCheckAccess par w req)

/-- A worker that has counted nothing, with any pool. -/
def init (mem : ℕ → NfsIpStats) (ipStatsPool : Option ℕ) : Worker :=
  ⟨fun _ => none, mem, ipStatsPool, fun _ => 0⟩

/-- The record at a position of the pool. -/
def Worker.poolAt (w : Worker) : ℕ → Option ℕ
  | 0 => w.ipStatsPool
  | n + 1 => (w.poolAt n).bind fun a => (w.mem a).nextAlloc

/-- The record is available in the pool. -/
def Worker.InPool (w : Worker) (a : ℕ) : Prop := ∃ n, w.poolAt n = some a

/-- **The statistics are kept for each client.** -/
structure Kept (par : Param) (w : Worker) : Prop where
  apart : ∀ x y a, nfsIpStatsGet w x = some a → nfsIpStatsGet w y = some a → x = y
  nbCall : ∀ x a, nfsIpStatsGet w x = some a → (w.mem a).nbCall.toNat = w.counted x
  unpooled : ∀ x a, nfsIpStatsGet w x = some a → ¬ w.InPool a
  /-- the address is removed, no other one, and the record goes back -/
  remove : ∀ x a, nfsIpStatsGet w x = some a →
    let w' := (nfsIpStatsRemove par w x.toInt32 w.ipStatsPool).1
    w'.htIpStats = update w.htIpStats x.toUInt64 none ∧ w'.InPool a

/-- The request is not counted, or no record is stored for it: the pool is empty and nothing can be
allocated, or the table does not take it. -/
def StoresNone (par : Param) (w : Worker) (req : Request) : Prop :=
  req.rqProc = 0 ∨ req.rqProg = par.mntProgram ∨ par.dumpStatsPerClient = false ∨
    w.ipStatsPool = none ∧ (par.nbIpStatsPrealloc = 0 ∨ req.array = none) ∨ req.set = false

def Worker.Empty (w : Worker) : Prop := ∀ key, w.htIpStats key = none

/-! ## A record does not come back -/

variable {par : Param} {w : Worker} {req : Request} {x : UInt32} {a : ℕ}

theorem poolAt_release (ha : ¬ w.InPool a) (ht : UInt64 → Option ℕ) (pool : Option ℕ) (n : ℕ) :
    Worker.poolAt { w with htIpStats := ht, mem := (releasePrealloc w.mem a pool).1 } n =
      w.poolAt n := by
  induction n with
  | zero => rfl
  | succ n ih =>
    rw [Worker.poolAt, ih, Worker.poolAt]
    cases hn : w.poolAt n with
    | none => rfl
    | some b =>
      have hne : b ≠ a := fun hba => ha ⟨n, hba ▸ hn⟩
      simp only [Option.bind_some, releasePrealloc, update_of_ne hne]

/-- **A record that is not in the pool** is not put back when its address is removed. -/
theorem not_inPool_remove (hget : nfsIpStatsGet w x = some a) (ha : ¬ w.InPool a) :
    let w' := (nfsIpStatsRemove par w x.toInt32 w.ipStatsPool).1
    ¬ (w'.htIpStats = update w.htIpStats x.toUInt64 none ∧ w'.InPool a) := by
  rintro w' ⟨htable, n, hn⟩
  -- the key of the address was removed, since nothing else is missing
  have hgone : w'.htIpStats x.toUInt64 = none := by
    rw [htable, update_self]
  simp only [w', nfsIpStatsRemove] at hgone hn
  by_cases hdump : par.dumpStatsPerClient = false
  · rw [if_pos hdump] at hgone
    cases hget.symm.trans hgone
  rw [if_neg hdump] at hgone hn
  cases hb : w.htIpStats x.toInt32.toInt64.toUInt64 with
  | none =>
    rw [hb] at hgone
    cases hget.symm.trans hgone
  | some b =>
    rw [hb] at hgone hn
    by_cases hkey : x.toUInt64 = x.toInt32.toInt64.toUInt64
    · rw [← hkey] at hb
      cases hget.symm.trans hb
      rw [poolAt_release ha] at hn
      exact ha ⟨n, hn⟩
    · dsimp only at hgone
      rw [update_of_ne hkey] at hgone
      cases hget.symm.trans hgone

theorem kept_iff : Kept par w ↔ ∀ x, nfsIpStatsGet w x = none := by
  constructor
  · intro h x
    cases hget : nfsIpStatsGet w x with
    | none => rfl
    | some a => exact absurd (h.remove x a hget) (not_inPool_remove hget (h.unpooled x a hget))
  · intro h
    have hnone : ∀ {x a}, nfsIpStatsGet w x ≠ some a := by
      intro x a hget
      cases (h x).symm.trans hget
    exact ⟨fun x y a hget => absurd hget hnone, fun x a hget => absurd hget hnone,
      fun x a hget => absurd hget hnone, fun x a hget => absurd hget hnone⟩

/-! ## Requests -/

theorem getPrealloc_eq_none_iff (array pool : Option ℕ) (mem : ℕ → NfsIpStats) :
    (getPrealloc par array mem pool).2.1 = none ↔
      pool = none ∧ (par.nbIpStatsPrealloc = 0 ∨ array = none) := by
  cases pool with
  | some entry => simp [getPrealloc]
  | none =>
    by_cases hnb : par.nbIpStatsPrealloc = 0
    · simp [getPrealloc, hnb]
    · cases array <;> simp [getPrealloc, hnb]

theorem htIpStats_incr (w : Worker) (x : UInt32) (req : Request) :
    (nfsIpStatsIncr par w x req).1.htIpStats = w.htIpStats := by
  rw [nfsIpStatsIncr]
  split
  · rfl
  · cases w.htIpStats x.toUInt64 <;> rfl

theorem empty_checkAccess (h : w.Empty) :
    (StoresNone par w req → (nfsExportCheckAccess par w req).Empty) ∧
      ((∀ y, nfsIpStatsGet (nfsExportCheckAccess par w req) y = none) → StoresNone par w req) := by
  have hincr (hdump : par.dumpStatsPerClient = true) :
      nfsIpStatsIncr par w req.addr req = (w, .notFound) := by
    rw [nfsIpStatsIncr, h, hdump]
    rfl
  by_cases hproc : req.rqProc = 0
  · rw [nfsExportCheckAccess, if_pos hproc]
    exact ⟨fun _ => h, fun _ => Or.inl hproc⟩
  by_cases hmnt : req.rqProg = par.mntProgram
  · rw [nfsExportCheckAccess, if_neg hproc, if_pos hmnt]
    exact ⟨fun _ => h, fun _ => Or.inr (.inl hmnt)⟩
  rw [nfsExportCheckAccess, if_neg hproc, if_neg hmnt]
  by_cases hdump : par.dumpStatsPerClient = false
  · rw [nfsIpStatsIncr, if_pos hdump]
    exact ⟨fun _ => h, fun _ => Or.inr (.inr (.inl hdump))⟩
  rw [hincr (eq_true_of_ne_false hdump)]
  simp only [nfsIpStatsAdd, if_neg hdump]
  have hentry := @getPrealloc_eq_none_iff par req.array w.ipStatsPool w.mem
  generalize getPrealloc par req.array w.mem w.ipStatsPool = taken at hentry ⊢
  obtain ⟨mem, entry, pool⟩ := taken
  cases entry with
  | none => exact ⟨fun _ => h, fun _ => Or.inr (.inr (.inr (.inl (hentry.mp rfl))))⟩
  | some entry =>
    have hpool : ¬ (w.ipStatsPool = none ∧ (par.nbIpStatsPrealloc = 0 ∨ req.array = none)) :=
      fun hp => absurd (hentry.mpr hp) (Option.some_ne_none entry)
    by_cases hset : req.set = true
    · have hnot : ¬ StoresNone par w req := by
        simp only [StoresNone, hproc, hmnt, hdump, hpool, hset, or_self, not_false_eq_true,
          Bool.true_eq_false]
      refine ⟨fun hs => absurd hs hnot, fun hnone => ?_⟩
      have hgone := hnone req.addr
      simp only [if_pos hset, nfsIpStatsGet, htIpStats_incr, update_self] at hgone
      cases hgone
    · simp only [if_neg hset]
      exact ⟨fun _ => h, fun _ => Or.inr (.inr (.inr (.inr (eq_false_of_ne_true hset))))⟩

/-- **The statistics of a worker are kept** exactly if no request stores a record. -/
theorem alwaysKept_iff (par : Param) (mem : ℕ → NfsIpStats) (ipStatsPool : Option ℕ)
    (reqs : List Request) :
    Always (step par) (Kept par) (init mem ipStatsPool) reqs ↔
      AllSteps (step par) (fun w req _ => StoresNone par w req) (init mem ipStatsPool) reqs := by
  refine always_iff_allSteps (I := Worker.Empty) (fun _ => rfl)
    (fun w h => kept_iff.mpr fun x => h x.toUInt64) ?_ ?_
  · intro w req w' h hstep hnone
    cases hstep
    exact (empty_checkAccess h).1 hnone
  · intro w req w' h hstep hkept
    cases hstep
    exact (empty_checkAccess h).2 (kept_iff.mp hkept)

/-- **Two clients have the same record**, the first one of the pool. -/
theorem not_alwaysKept : ¬ ∀ par mem ipStatsPool reqs,
    Always (step par) (Kept par) (init mem ipStatsPool) reqs := by
  intro h
  let par : Param := ⟨true, 20, 20, 100003, 100005⟩
  let req : UInt32 → Request := fun addr => ⟨100003, 3, 1, addr, none, true⟩
  let unused : NfsIpStats :=
    ⟨0, 0, 0, 0, 0, 0, fun _ => 0, fun _ => 0, fun _ => 0, fun _ => 0, none⟩
  have hkept := (h par (fun _ => unused) (some 8) [req 1, req 2]).exec rfl
  exact absurd (hkept.apart 1 2 8 rfl rfl) (by decide)

end CloudNfs.IpStats
