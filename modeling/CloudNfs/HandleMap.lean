import CloudNfs.Run
import Mathlib.Data.List.Basic
import Mathlib.Logic.Function.Basic

/-!
# The handle map and its data bases

The proxy keeps the FSAL handle of each digest in a hash table, and in data bases from which the
hash table is loaded again at the next start. Each data base has a thread with two queues of tasks.

* `HandleMap_SetFH` and `HandleMap_DelFH` change the hash table and then push a task to the thread
  that `select_db_queue` gives for the key. Any number of calls are in progress; the hash table is
  changed in one step.
* An insertion goes to the queue of high priority and a deletion to the one of low priority. The
  thread takes from the second only when the first is empty, so a key that is set again while its
  deletion waits is inserted before it is deleted.
* A data base has one row for a key, and an insertion on a key that has one fails. There is always
  memory for a task, and insertions are asynchronous.
* `persisted_of_keepsOrder`: after a flush the data bases hold what the hash table holds, if no
  insertion is pushed while a deletion of its key waits, and calls for one key push in the order in
  which they changed the hash table.
-/

namespace CloudNfs

open Function (update update_self update_of_ne)

namespace HandleMap

universe u

/-! ### The code -/

/-- `nfs23_map_handle_t` -/
structure Key where
  objectId : UInt64
  handleHash : UInt32
  deriving DecidableEq

/-- `db_op_item_t`, without the one that loads a data base. -/
inductive DbOp (Handle : Type u) where
  | insert (key : Key) (handle : Handle)
  | delete (key : Key)

/-- `status` of a thread. -/
inductive Status where
  | idle
  | working
  deriving DecidableEq

/-- A map from keys to handles: the hash table, or the rows of a data base. -/
abbrev Table (Handle : Type u) := Key → Option Handle

/-- `db_thread_info_t`, and its data base. -/
structure DbThread (Handle : Type u) where
  /-- the list of `highprio_first` -/
  highprio : List (DbOp Handle)
  /-- the list of `lowprio_first` -/
  lowprio : List (DbOp Handle)
  status : Status
  /-- `to_be_done`, until it is done -/
  toBeDone : Option (DbOp Handle)
  db : Table Handle

structure Sys (Handle : Type u) where
  hash : Table Handle
  /-- the tasks of the calls that have changed the hash table and have not pushed, oldest first -/
  calls : List (DbOp Handle)
  threads : ℕ → DbThread Handle
  /-- for how many threads `HandleMap_Flush` has waited, if no call was made since it began -/
  flushed : Option ℕ

inductive Action (Handle : Type u) where
  /-- `HandleMap_SetFH`, up to the hash table -/
  | setFH (key : Key) (handle : Handle)
  /-- `HandleMap_DelFH`, up to the hash table -/
  | delFH (key : Key)
  /-- a call in progress pushes its task, and ends -/
  | push (call : ℕ)
  /-- a thread takes a task -/
  | take (thread : ℕ)
  | work (thread : ℕ)
  /-- a thread finds nothing to do -/
  | idle (thread : ℕ)
  /-- `HandleMap_Flush` begins -/
  | flush
  /-- `wait_thread_jobs_finished` returns -/
  | flushWait

def selectDbQueue (nbDbThreads : ℕ) (key : Key) : ℕ :=
  (((key.objectId * 1049) ^^^ key.handleHash.toUInt64) % 2477).toNat % nbDbThreads

section

variable {Handle : Type u}

def DbOp.key : DbOp Handle → Key
  | insert key _ => key
  | delete key => key

/-- `HashTable_Test_And_Set` with `HASHTABLE_SET_HOW_SET_NO_OVERWRITE`, and
`db_insert_operation`: a key that is there is left as it is. -/
def Table.insert (t : Table Handle) (key : Key) (handle : Handle) : Table Handle :=
  if (t key).isSome then t else update t key (some handle)

/-- `HashTable_Del`, and `db_delete_operation`. -/
def Table.delete (t : Table Handle) (key : Key) : Table Handle := update t key none

/-- `db_load_operation`: each row is added to the hash table. -/
def dbLoadOperation (t hash : Table Handle) : Table Handle := fun key => (hash key).or (t key)

/-- `handlemap_db_reaload_all`, on an empty hash table. -/
def handlemapDbReloadAll (nbDbThreads : ℕ) (dbs : ℕ → Table Handle) : Table Handle :=
  (List.range nbDbThreads).foldl (fun hash i => dbLoadOperation (dbs i) hash) fun _ => none

def dbopPush (t : DbThread Handle) : DbOp Handle → DbThread Handle
  | .insert key handle => { t with highprio := t.highprio ++ [.insert key handle] }
  | .delete key => { t with lowprio := t.lowprio ++ [.delete key] }

/-- `database_worker_thread` takes the next task. -/
def takeTask (t : DbThread Handle) : Option (DbThread Handle) :=
  if t.toBeDone.isSome then none
  else
    match t.highprio, t.lowprio with
    | op :: rest, _ =>
      some { t with highprio := rest, status := .working, toBeDone := some op }
    | [], op :: rest =>
      some { t with lowprio := rest, status := .working, toBeDone := some op }
    | [], [] => none

/-- `database_worker_thread` does its task. -/
def doTask (t : DbThread Handle) : Option (DbThread Handle) :=
  match t.toBeDone with
  | none => none
  | some (.insert key handle) => some { t with db := t.db.insert key handle, toBeDone := none }
  | some (.delete key) => some { t with db := t.db.delete key, toBeDone := none }

/-- `database_worker_thread` finds both queues empty. -/
def findNothing (t : DbThread Handle) : Option (DbThread Handle) :=
  if t.toBeDone.isNone ∧ t.highprio = [] ∧ t.lowprio = [] then some { t with status := .idle }
  else none

/-- The loop of `wait_thread_jobs_finished` ends. -/
def JobsFinished (t : DbThread Handle) : Prop :=
  t.highprio = [] ∧ t.lowprio = [] ∧ t.status ≠ .working

instance decidableJobsFinished (t : DbThread Handle) [DecidableEq Handle] :
    Decidable (JobsFinished t) := by
  unfold JobsFinished
  infer_instance

variable [DecidableEq Handle]

/-- One step. A call that finds the key in the hash table, or does not find it, returns at once. -/
def step (nbDbThreads : ℕ) (s : Sys Handle) : Action Handle → Option (Sys Handle)
  | .setFH key handle =>
    if (s.hash key).isSome then some { s with flushed := none }
    else
      some { s with
        hash := s.hash.insert key handle
        calls := s.calls ++ [.insert key handle]
        flushed := none }
  | .delFH key =>
    if (s.hash key).isNone then some { s with flushed := none }
    else
      some { s with
        hash := s.hash.delete key
        calls := s.calls ++ [.delete key]
        flushed := none }
  | .push call =>
    match s.calls[call]? with
    | none => none
    | some op =>
      let i := selectDbQueue nbDbThreads op.key
      some { s with
        calls := s.calls.eraseIdx call
        threads := update s.threads i (dbopPush (s.threads i) op) }
  | .take i =>
    (takeTask (s.threads i)).map fun t => { s with threads := update s.threads i t }
  | .work i =>
    (doTask (s.threads i)).map fun t => { s with threads := update s.threads i t }
  | .idle i =>
    (findNothing (s.threads i)).map fun t => { s with threads := update s.threads i t }
  | .flush => if s.calls = [] then some { s with flushed := some 0 } else none
  | .flushWait =>
    match s.flushed with
    | none => none
    | some i =>
      if i < nbDbThreads ∧ JobsFinished (s.threads i) then some { s with flushed := some (i + 1) }
      else none

/-- The state after `HandleMap_Init`. -/
def init (nbDbThreads : ℕ) (dbs : ℕ → Table Handle) : Sys Handle where
  hash := handlemapDbReloadAll nbDbThreads dbs
  calls := []
  threads i := ⟨[], [], .idle, none, dbs i⟩
  flushed := none

end

/-! ### What is left to do for a key -/

section

variable {Handle : Type u}

/-- Whether a task is for the queue of high priority. -/
def DbOp.isInsert : DbOp Handle → Bool
  | insert _ _ => true
  | delete _ => false

/-- What a task does to the row of its key. -/
def DbOp.apply (row : Option Handle) : DbOp Handle → Option Handle
  | insert _ handle => row.or (some handle)
  | delete _ => none

/-- What tasks make of the row of a key. -/
def replay (key : Key) (row : Option Handle) (ops : List (DbOp Handle)) : Option Handle :=
  (ops.filter fun op => op.key = key).foldl DbOp.apply row

theorem replay_append (key : Key) (row : Option Handle) (ops ops' : List (DbOp Handle)) :
    replay key row (ops ++ ops') = replay key (replay key row ops) ops' := by
  rw [replay, List.filter_append, List.foldl_append, ← replay, ← replay]

theorem replay_cons (key : Key) (row : Option Handle) (op : DbOp Handle)
    (ops : List (DbOp Handle)) :
    replay key row (op :: ops) = replay key (if op.key = key then op.apply row else row) ops := by
  by_cases hkey : op.key = key
  · rw [replay, List.filter_cons_of_pos (by simpa using hkey), List.foldl_cons, if_pos hkey, replay]
  · rw [replay, List.filter_cons_of_neg (by simpa using hkey), if_neg hkey, replay]

theorem replay_of_forall_ne {key : Key} {ops : List (DbOp Handle)} (h : ∀ op ∈ ops, op.key ≠ key)
    (row : Option Handle) : replay key row ops = row := by
  rw [replay, List.filter_eq_nil_iff.mpr (by simpa using h), List.foldl_nil]

/-- The tasks of a thread that are not done. -/
def DbThread.pending (t : DbThread Handle) : List (DbOp Handle) :=
  t.toBeDone.toList ++ (t.highprio ++ t.lowprio)

theorem Table.insert_apply (t : Table Handle) (key key' : Key) (handle : Handle) :
    t.insert key handle key' =
      if key = key' then (DbOp.insert key handle).apply (t key') else t key' := by
  unfold Table.insert
  by_cases hkey : key = key'
  · subst hkey
    cases hrow : t key with
    | none => simp [DbOp.apply]
    | some handle' => simp [DbOp.apply, hrow]
  · rw [if_neg hkey]
    split
    · rfl
    · exact update_of_ne (Ne.symm hkey) _ _

theorem Table.delete_apply (t : Table Handle) (key key' : Key) :
    t.delete key key' =
      if key = key' then (.delete key : DbOp Handle).apply (t key') else t key' := by
  unfold Table.delete
  by_cases hkey : key = key'
  · rw [hkey, update_self, if_pos rfl, DbOp.apply]
  · rw [update_of_ne (Ne.symm hkey), if_neg hkey]

/-! ### What a step of a thread does -/

variable {t t' : DbThread Handle} {nbDbThreads : ℕ}

theorem takeTask_pending (h : takeTask t = some t') :
    t'.pending = t.pending ∧ t'.db = t.db ∧ t'.status = .working ∧
      ¬ (t.highprio = [] ∧ t.lowprio = []) := by
  unfold takeTask at h
  split at h
  · cases h
  have hnone : t.toBeDone = none := by simpa using ‹¬ t.toBeDone.isSome = true›
  split at h
  · cases h
    refine ⟨?_, rfl, rfl, ?_⟩
    · simp_all [DbThread.pending]
    · simp_all
  · cases h
    refine ⟨?_, rfl, rfl, ?_⟩
    · simp_all [DbThread.pending]
    · simp_all
  · cases h

theorem doTask_pending (h : doTask t = some t') :
    ∃ op, t.toBeDone = some op ∧ t.pending = op :: t'.pending ∧ t'.toBeDone = none ∧
      t'.status = t.status ∧ t'.highprio = t.highprio ∧ t'.lowprio = t.lowprio ∧
      ∀ key, t'.db key = if op.key = key then op.apply (t.db key) else t.db key := by
  unfold doTask at h
  split at h
  · cases h
  · cases h
    rename_i key handle htask
    exact ⟨_, htask, by simp [DbThread.pending, htask], rfl, rfl, rfl, rfl,
      fun key' => Table.insert_apply t.db key key' handle⟩
  · cases h
    rename_i key htask
    exact ⟨_, htask, by simp [DbThread.pending, htask], rfl, rfl, rfl, rfl,
      fun key' => Table.delete_apply t.db key key'⟩

theorem findNothing_eq (h : findNothing t = some t') :
    t' = { t with status := .idle } ∧ t.toBeDone = none := by
  unfold findNothing at h
  split at h
  · rename_i hnothing
    exact ⟨(Option.some.inj h).symm, Option.isNone_iff_eq_none.mp hnothing.1⟩
  · cases h

/-! ### The invariant -/

/-- Each row is in the data base of its key. -/
def Placed (nbDbThreads : ℕ) (dbs : ℕ → Table Handle) : Prop :=
  ∀ i < nbDbThreads, ∀ key, i ≠ selectDbQueue nbDbThreads key → dbs i key = none

theorem selectDbQueue_lt (hnb : 0 < nbDbThreads) (key : Key) :
    selectDbQueue nbDbThreads key < nbDbThreads :=
  Nat.mod_lt _ hnb

theorem reloadAll_apply {dbs : ℕ → Table Handle} (hnb : 0 < nbDbThreads)
    (hplaced : Placed nbDbThreads dbs) (key : Key) :
    handlemapDbReloadAll nbDbThreads dbs key = dbs (selectDbQueue nbDbThreads key) key := by
  have hload : ∀ n ≤ nbDbThreads,
      (List.range n).foldl (fun hash i => dbLoadOperation (dbs i) hash) (fun _ => none) key =
        if selectDbQueue nbDbThreads key < n then dbs (selectDbQueue nbDbThreads key) key
        else none := by
    intro n
    induction n with
    | zero => intro _; rfl
    | succ n ih =>
      intro hn
      rw [List.range_succ, List.foldl_append, List.foldl_cons, List.foldl_nil, dbLoadOperation,
        ih (by omega)]
      rcases Nat.lt_trichotomy (selectDbQueue nbDbThreads key) n with hlt | heq | hgt
      · rw [if_pos hlt, if_pos (by omega), hplaced n (by omega) key (by omega), Option.or_none]
      · rw [if_neg (by omega), if_pos (by omega), Option.none_or, heq]
      · rw [if_neg (by omega), if_neg (by omega), hplaced n (by omega) key (by omega),
          Option.or_none]
  rw [handlemapDbReloadAll, hload nbDbThreads le_rfl, if_pos (selectDbQueue_lt hnb key)]

/-- **The data bases hold what the hash table holds**, each key in its data base, and a start loads
the same map. -/
structure Persisted (nbDbThreads : ℕ) (s : Sys Handle) : Prop where
  rows : ∀ i < nbDbThreads, ∀ key, (s.threads i).db key =
    if i = selectDbQueue nbDbThreads key then s.hash key else none
  reloads : handlemapDbReloadAll nbDbThreads (fun i => (s.threads i).db) = s.hash

/-- What a step must meet in the state before it: a call pushes only after the calls for its key
that have changed the hash table before, and an insertion only while no deletion of its key waits
in the queue of low priority. -/
def KeepsOrder (nbDbThreads : ℕ) (s : Sys Handle) : Action Handle → Prop
  | .push call =>
    match s.calls[call]? with
    | none => True
    | some op =>
      (∀ op' ∈ s.calls.take call, op'.key ≠ op.key) ∧
      (op.isInsert → ∀ op' ∈ (s.threads (selectDbQueue nbDbThreads op.key)).lowprio,
        op'.key ≠ op.key)
  | _ => True

instance decidableKeepsOrder (nbDbThreads : ℕ) (s : Sys Handle) :
    ∀ a, Decidable (KeepsOrder nbDbThreads s a)
  | .push call =>
    match h : s.calls[call]? with
    | none => isTrue (by rw [KeepsOrder, h]; exact trivial)
    | some op =>
      decidable_of_iff
        ((∀ op' ∈ s.calls.take call, op'.key ≠ op.key) ∧
          (op.isInsert → ∀ op' ∈ (s.threads (selectDbQueue nbDbThreads op.key)).lowprio,
            op'.key ≠ op.key))
        (by rw [KeepsOrder, h])
  | .setFH _ _ | .delFH _ | .take _ | .work _ | .idle _ | .flush | .flushWait => isTrue trivial

/-- **The invariant**: the tasks that are not done, in the order in which they will be done, and
those of the calls in progress make the hash table of the data bases. -/
structure Inv (nbDbThreads : ℕ) (s : Sys Handle) : Prop where
  replays : ∀ key, replay key ((s.threads (selectDbQueue nbDbThreads key)).db key)
    ((s.threads (selectDbQueue nbDbThreads key)).pending ++ s.calls) = s.hash key
  placed : Placed nbDbThreads fun i => (s.threads i).db
  own : ∀ i, ∀ op ∈ (s.threads i).pending, selectDbQueue nbDbThreads op.key = i
  working : ∀ i, (s.threads i).toBeDone.isSome → (s.threads i).status = .working
  flushed : ∀ n, s.flushed = some n → n ≤ nbDbThreads ∧ s.calls = [] ∧
    ∀ i < n, JobsFinished (s.threads i)

theorem Inv.init {dbs : ℕ → Table Handle} (hnb : 0 < nbDbThreads) (hplaced : Placed nbDbThreads dbs)
    : Inv nbDbThreads (init nbDbThreads dbs) where
  replays key := (reloadAll_apply hnb hplaced key).symm
  placed := hplaced
  own i op hop := by cases hop
  working i htask := by cases htask
  flushed n hn := by cases hn

theorem Inv.persisted {s : Sys Handle} (h : Inv nbDbThreads s) (hnb : 0 < nbDbThreads)
    (hflushed : s.flushed = some nbDbThreads) : Persisted nbDbThreads s := by
  obtain ⟨-, hcalls, hfinished⟩ := h.flushed _ hflushed
  have hrow : ∀ key, (s.threads (selectDbQueue nbDbThreads key)).db key = s.hash key := by
    intro key
    obtain ⟨hhigh, hlow, hstatus⟩ := hfinished _ (selectDbQueue_lt hnb key)
    have hnone : (s.threads (selectDbQueue nbDbThreads key)).toBeDone = none :=
      Option.not_isSome_iff_eq_none.mp fun htask => hstatus (h.working _ htask)
    have hreplays := h.replays key
    rw [DbThread.pending, hnone, hhigh, hlow, hcalls] at hreplays
    exact hreplays
  constructor
  · intro i hi key
    split
    · rename_i hsel
      rw [hsel, hrow]
    · exact h.placed i hi key ‹_›
  · funext key
    rw [reloadAll_apply hnb h.placed, hrow]

end

/-! ### Every step keeps the invariant -/

section

variable {Handle : Type u} {nbDbThreads : ℕ} {s s' : Sys Handle}

variable {t : DbThread Handle} {op : DbOp Handle}

theorem Inv.updateThread (h : Inv nbDbThreads s) {i : ℕ}
    (hreplay : ∀ key, replay key (t.db key) t.pending =
      replay key ((s.threads i).db key) (s.threads i).pending)
    (hdb : ∀ key, selectDbQueue nbDbThreads key ≠ i → t.db key = (s.threads i).db key)
    (hpending : ∀ op ∈ t.pending, op ∈ (s.threads i).pending)
    (hworking : t.toBeDone.isSome → t.status = .working)
    (hfinished : JobsFinished (s.threads i) → JobsFinished t) :
    Inv nbDbThreads { s with threads := update s.threads i t } where
  replays key := by
    dsimp only
    rw [← h.replays key]
    by_cases hkey : selectDbQueue nbDbThreads key = i
    · rw [hkey, update_self, replay_append, replay_append, hreplay]
    · rw [update_of_ne hkey]
  placed i' hi' key hkey := by
    dsimp only
    by_cases hi : i' = i
    · subst hi
      rw [update_self, hdb key (Ne.symm hkey)]
      exact h.placed i' hi' key hkey
    · rw [update_of_ne hi]
      exact h.placed i' hi' key hkey
  own i' op hop := by
    dsimp only at hop
    by_cases hi : i' = i
    · subst hi
      rw [update_self] at hop
      exact h.own i' op (hpending op hop)
    · rw [update_of_ne hi] at hop
      exact h.own i' op hop
  working i' htask := by
    dsimp only at htask ⊢
    by_cases hi : i' = i
    · subst hi
      rw [update_self] at htask ⊢
      exact hworking htask
    · rw [update_of_ne hi] at htask ⊢
      exact h.working i' htask
  flushed n hn := by
    obtain ⟨hle, hcalls, hjobs⟩ := h.flushed n hn
    refine ⟨hle, hcalls, fun i' hi' => ?_⟩
    dsimp only
    by_cases hi : i' = i
    · subst hi
      rw [update_self]
      exact hfinished (hjobs i' hi')
    · rw [update_of_ne hi]
      exact hjobs i' hi'

theorem Inv.call (h : Inv nbDbThreads s) (op : DbOp Handle) {hash : Table Handle}
    (hhash : ∀ key, hash key = if op.key = key then op.apply (s.hash key) else s.hash key) :
    Inv nbDbThreads { s with hash := hash, calls := s.calls ++ [op], flushed := none } where
  replays key := by
    dsimp only
    rw [← List.append_assoc, replay_append, h.replays key, replay_cons, hhash key]
    rfl
  placed := h.placed
  own := h.own
  working := h.working
  flushed n hn := by cases hn

theorem replay_cons_comm {ops : List (DbOp Handle)} (h : ∀ op' ∈ ops, op'.key ≠ op.key) (key : Key)
    (row : Option Handle) : replay key row (op :: ops) = replay key row (ops ++ [op]) := by
  rw [replay_append, replay_cons, replay_cons]
  by_cases hkey : op.key = key
  · subst hkey
    rw [replay_of_forall_ne h, replay_of_forall_ne h]
    rfl
  · rw [if_neg hkey, if_neg hkey]
    rfl

theorem replay_dbopPush (h : op.isInsert → ∀ op' ∈ t.lowprio, op'.key ≠ op.key) (key : Key)
    (row : Option Handle) :
    replay key row (dbopPush t op).pending = replay key row (t.pending ++ [op]) := by
  cases op with
  | delete key' =>
    rw [dbopPush, DbThread.pending, DbThread.pending]
    simp only [List.append_assoc]
  | insert key' handle =>
    have hlow := replay_cons_comm (h rfl) key (replay key row (t.toBeDone.toList ++ t.highprio))
    rw [dbopPush, DbThread.pending, DbThread.pending]
    simp only [List.append_assoc, List.cons_append, List.nil_append]
    rw [← List.append_assoc, replay_append, hlow, ← replay_append, List.append_assoc]

theorem mem_pending_dbopPush {op' : DbOp Handle} (h : op' ∈ (dbopPush t op).pending) :
    op' ∈ t.pending ∨ op' = op := by
  cases op <;>
    simp only [dbopPush, DbThread.pending, List.mem_append, List.mem_singleton] at h ⊢ <;> tauto

theorem Inv.push (h : Inv nbDbThreads s) {call : ℕ} (hop : s.calls[call]? = some op)
    (hkeep : KeepsOrder nbDbThreads s (.push call)) :
    Inv nbDbThreads { s with
      calls := s.calls.eraseIdx call
      threads := update s.threads (selectDbQueue nbDbThreads op.key)
        (dbopPush (s.threads (selectDbQueue nbDbThreads op.key)) op) } := by
  rw [KeepsOrder, hop] at hkeep
  obtain ⟨hbefore, hinsert⟩ := hkeep
  obtain ⟨hcall, rfl⟩ := List.getElem?_eq_some_iff.mp hop
  have herase : s.calls.eraseIdx call = s.calls.take call ++ s.calls.drop (call + 1) :=
    List.eraseIdx_eq_take_drop_succ s.calls call
  have hcalls : s.calls = s.calls.take call ++ s.calls[call] :: s.calls.drop (call + 1) := by
    rw [← List.drop_eq_getElem_cons hcall, List.take_append_drop]
  generalize s.calls[call] = op at hbefore hinsert hcalls ⊢
  have hsame : (dbopPush (s.threads (selectDbQueue nbDbThreads op.key)) op).db =
      (s.threads (selectDbQueue nbDbThreads op.key)).db ∧
      (dbopPush (s.threads (selectDbQueue nbDbThreads op.key)) op).toBeDone =
        (s.threads (selectDbQueue nbDbThreads op.key)).toBeDone ∧
      (dbopPush (s.threads (selectDbQueue nbDbThreads op.key)) op).status =
        (s.threads (selectDbQueue nbDbThreads op.key)).status := by
    cases op <;> exact ⟨rfl, rfl, rfl⟩
  obtain ⟨hdb, htask, hstatus⟩ := hsame
  constructor
  · intro key
    have hold := h.replays key
    rw [hcalls] at hold
    rw [← hold]
    dsimp only
    rw [herase]
    by_cases hkey : selectDbQueue nbDbThreads key = selectDbQueue nbDbThreads op.key
    · -- the task passes the calls that have changed the hash table before
      rw [hkey, update_self, hdb, List.append_cons, replay_append, replay_dbopPush hinsert,
        replay_append, replay_append, replay_append, replay_append key _ (_ ++ [op]),
        ← replay_cons_comm hbefore]
      exact congrArg (fun row => replay key row (s.calls.drop (call + 1)))
        (replay_append key _ [op] (s.calls.take call)).symm
    · have hne : op.key ≠ key := fun heq => hkey (by rw [heq])
      rw [update_of_ne hkey, replay_append, replay_append, replay_append, replay_append,
        replay_cons, if_neg hne]
  · intro i hi key hkey
    dsimp only
    by_cases hsel : i = selectDbQueue nbDbThreads op.key
    · subst hsel
      rw [update_self, hdb]
      exact h.placed _ hi key hkey
    · rw [update_of_ne hsel]
      exact h.placed i hi key hkey
  · intro i op' hop'
    dsimp only at hop'
    by_cases hsel : i = selectDbQueue nbDbThreads op.key
    · subst hsel
      rw [update_self] at hop'
      rcases mem_pending_dbopPush hop' with hmem | rfl
      · exact h.own _ op' hmem
      · rfl
    · rw [update_of_ne hsel] at hop'
      exact h.own i op' hop'
  · intro i hbusy
    dsimp only at hbusy ⊢
    by_cases hsel : i = selectDbQueue nbDbThreads op.key
    · subst hsel
      rw [update_self] at hbusy ⊢
      rw [htask] at hbusy
      rw [hstatus]
      exact h.working _ hbusy
    · rw [update_of_ne hsel] at hbusy ⊢
      exact h.working i hbusy
  · intro n hn
    have hnil := (h.flushed n hn).2.1
    rw [hnil] at hcall
    cases hcall

/-- **A step** keeps the invariant, if it keeps the order. -/
theorem Inv.step [DecidableEq Handle] (h : Inv nbDbThreads s) {a : Action Handle}
    (hstep : step nbDbThreads s a = some s') (hkeep : KeepsOrder nbDbThreads s a) :
    Inv nbDbThreads s' := by
  cases a with
  | setFH key handle =>
    rw [HandleMap.step] at hstep
    split at hstep
    · cases hstep
      exact ⟨h.replays, h.placed, h.own, h.working, fun n hn => by cases hn⟩
    · cases hstep
      exact h.call (.insert key handle) fun key' => Table.insert_apply s.hash key key' handle
  | delFH key =>
    rw [HandleMap.step] at hstep
    split at hstep
    · cases hstep
      exact ⟨h.replays, h.placed, h.own, h.working, fun n hn => by cases hn⟩
    · cases hstep
      exact h.call (.delete key) fun key' => Table.delete_apply s.hash key key'
  | push call =>
    rw [HandleMap.step] at hstep
    split at hstep
    · cases hstep
    · cases hstep
      exact h.push ‹_› hkeep
  | take i =>
    obtain ⟨t, ht, rfl⟩ := Option.map_eq_some_iff.mp hstep
    obtain ⟨hpending, hdb, hstatus, hqueues⟩ := takeTask_pending ht
    refine h.updateThread (fun key => by rw [hpending, hdb]) (fun key _ => by rw [hdb])
      (fun op hop => hpending ▸ hop) (fun _ => hstatus) fun hfin => ?_
    exact absurd ⟨hfin.1, hfin.2.1⟩ hqueues
  | work i =>
    obtain ⟨t, ht, rfl⟩ := Option.map_eq_some_iff.mp hstep
    obtain ⟨op, htask, hpending, hnone, hstatus, hhigh, hlow, hdb⟩ := doTask_pending ht
    have hown : selectDbQueue nbDbThreads op.key = i :=
      h.own i op (hpending ▸ (.head _))
    refine h.updateThread (fun key => ?_) (fun key hkey => ?_) (fun op' hop' => ?_)
      (fun hbusy => ?_) fun hfin => ?_
    · rw [hpending, replay_cons, hdb]
    · have hne : op.key ≠ key := fun heq => hkey (heq ▸ hown)
      rw [hdb, if_neg hne]
    · rw [hpending]
      exact .tail _ hop'
    · rw [hnone] at hbusy
      cases hbusy
    · exact absurd (h.working i (by rw [htask]; rfl)) hfin.2.2
  | idle i =>
    obtain ⟨t, ht, rfl⟩ := Option.map_eq_some_iff.mp hstep
    obtain ⟨rfl, htask⟩ := findNothing_eq ht
    refine h.updateThread (fun key => rfl) (fun key _ => rfl) (fun op hop => hop) (fun hbusy => ?_)
      fun hfin => ⟨hfin.1, hfin.2.1, fun hst => Status.noConfusion hst⟩
    rw [show (s.threads i).toBeDone = none from htask] at hbusy
    cases hbusy
  | flush =>
    rw [HandleMap.step] at hstep
    split at hstep
    · cases hstep
      refine ⟨h.replays, h.placed, h.own, h.working, fun n hn => ?_⟩
      cases hn
      exact ⟨Nat.zero_le _, ‹_›, fun i hi => absurd hi (Nat.not_lt_zero i)⟩
    · cases hstep
  | flushWait =>
    rw [HandleMap.step] at hstep
    split at hstep
    · cases hstep
    rename_i n hn
    split at hstep
    · rename_i hfin
      cases hstep
      obtain ⟨-, hcalls, hjobs⟩ := h.flushed n hn
      refine ⟨h.replays, h.placed, h.own, h.working, fun m hm => ?_⟩
      cases hm
      refine ⟨hfin.1, hcalls, fun i hi => ?_⟩
      rcases Nat.lt_succ_iff_lt_or_eq.mp hi with hlt | rfl
      · exact hjobs i hlt
      · exact hfin.2
    · cases hstep

/-- **The persistent map follows the one in memory**: in a run from a start in which every push
meets the condition, whenever `HandleMap_Flush` has returned, and no call was made since it began,
the data bases hold what the hash table holds. -/
theorem persisted_of_keepsOrder [DecidableEq Handle] {dbs : ℕ → Table Handle}
    (hnb : 0 < nbDbThreads) (hplaced : Placed nbDbThreads dbs) {as : List (Action Handle)}
    (h : AllSteps (HandleMap.step nbDbThreads) (fun s a _ => KeepsOrder nbDbThreads s a)
      (init nbDbThreads dbs) as) :
    Always (HandleMap.step nbDbThreads)
      (fun s => s.flushed = some nbDbThreads → Persisted nbDbThreads s)
      (init nbDbThreads dbs) as :=
  (always_of_allSteps (Inv.init hnb hplaced) (fun _ _ _ hs hstep hkeep => hs.step hstep hkeep)
    h).mono fun _ hs hflushed => hs.persisted hnb hflushed

end

/-! ### Two runs -/

/-- A handle is set and flushed, deleted and flushed, and set again and flushed. -/
def setDelSet (key : Key) : List (Action ℕ) :=
  [.setFH key 1, .push 0, .take 0, .work 0, .idle 0, .flush, .flushWait,
    .delFH key, .push 0, .take 0, .work 0, .idle 0, .flush, .flushWait,
    .setFH key 2, .push 0, .take 0, .work 0, .idle 0, .flush, .flushWait]

/-- The same calls, where the thread does nothing between the deletion and the second insertion. -/
def setDelSetAtOnce (key : Key) : List (Action ℕ) :=
  [.setFH key 1, .push 0, .take 0, .work 0, .idle 0, .delFH key, .push 0, .setFH key 2, .push 0,
    .flush, .take 0, .work 0, .take 0, .work 0, .idle 0, .flushWait]

/-- The map is persistent in the first run. -/
theorem persisted_setDelSet :
    Always (step 1) (fun s => s.flushed = some 1 → Persisted 1 s) (init 1 fun _ _ => none)
      (setDelSet ⟨7, 0⟩) :=
  persisted_of_keepsOrder (by decide) (fun _ _ _ _ => rfl) (by decide +kernel)

/-- In the second run the key is in the hash table and, after the flush, in no data base. -/
theorem setDelSetAtOnce_not_persisted :
    ¬ Always (step 1) (fun s => s.flushed = some 1 → Persisted 1 s) (init 1 fun _ _ => none)
      (setDelSetAtOnce ⟨7, 0⟩) := by
  intro h
  have hend : (exec (step 1) (init 1 fun _ _ => none) (setDelSetAtOnce ⟨7, 0⟩)).map
      (fun s => (s.flushed, s.hash ⟨7, 0⟩, (s.threads 0).db ⟨7, 0⟩)) =
        some (some 1, some 2, none) := by
    decide +kernel
  obtain ⟨s, hs, hvalues⟩ := Option.map_eq_some_iff.mp hend
  simp only [Prod.mk.injEq] at hvalues
  obtain ⟨hflushed, hhash, hdb⟩ := hvalues
  have hrow := (h.exec hs hflushed).rows 0 (by decide) ⟨7, 0⟩
  rw [hdb, if_pos (by decide), hhash] at hrow
  cases hrow

end HandleMap

end CloudNfs
