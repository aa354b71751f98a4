import CloudNfs.Run

/-!
# The reader/writer lock (`RW_Lock/RW_Lock.c`)

One `rw_lock_t`, any finite number of threads. A stretch of code executed while
`mutexProtect` is held is one action; `pthread_cond_wait` ends an action and its
return begins another one, which the actions of other threads may precede. A
thread can only return from its wait after a signal or a broadcast on the
condition it waits for.

`P_w` tests again when its wait returns, `P_r` does not: between the broadcast of
`V_w` and the return of the reader's wait a new writer may enter. So

* the four counters are exact in every reachable state, and there is never more
  than one writer (`counted_run`);
* readers and writers exclude each other **exactly** in the runs in which every
  return of the wait of `P_r` finds no active writer (`exclusion_iff_resumesFree`).
-/

namespace CloudNfs.RwLock

universe u

/-! ## The code -/

/-- The counters of `rw_lock_t`. A thread is counted in at most one of them, so
none of the `unsigned int`s of the source ever exceeds the number of threads. -/
structure RwLockT where
  /-- threads that hold the lock for reading -/
  nbrActive : ℕ
  /-- threads that wait to read -/
  nbrWaiting : ℕ
  /-- threads that hold the lock for writing -/
  nbwActive : ℕ
  /-- threads that wait to write -/
  nbwWaiting : ℕ

def rwLockInit : RwLockT := ⟨0, 0, 0, 0⟩

/-- Where a thread is. A thread inside `pthread_cond_wait` is `woken` once a signal
or a broadcast has reached it. -/
inductive Place where
  | out
  /-- in the wait of `P_r` -/
  | waitRead (woken : Bool)
  /-- between `P_r` (or `rw_lock_downgrade`) and `V_r` -/
  | reading
  /-- in the wait of `P_w` -/
  | waitWrite (woken : Bool)
  /-- between `P_w` and `V_w` (or `rw_lock_downgrade`) -/
  | writing
  deriving DecidableEq

/-- What a section does with the two conditions before it unlocks the mutex. -/
inductive Wake where
  | nobody
  /-- `pthread_cond_signal(&condWrite)` -/
  | signalWrite
  /-- `pthread_cond_broadcast(&condRead)` -/
  | broadcastRead

/-- The end of `P_r`: the reader becomes active. -/
def pREnd (l : RwLockT) : RwLockT :=
  { l with nbrWaiting := l.nbrWaiting - 1, nbrActive := l.nbrActive + 1 }

/-- `P_r` from its start to its wait, or to its end when no writer is active or
waiting. -/
def pR (l : RwLockT) : RwLockT × Place :=
  let l := { l with nbrWaiting := l.nbrWaiting + 1 }
  if 0 < l.nbwActive ∨ 0 < l.nbwWaiting then (l, .waitRead false) else (pREnd l, .reading)

def vR (l : RwLockT) : RwLockT × Wake :=
  let l := { l with nbrActive := l.nbrActive - 1 }
  (l, if l.nbrActive = 0 ∧ 0 < l.nbwWaiting then .signalWrite else .nobody)

/-- One round of the `while` of `P_w`: wait, or become the active writer. -/
def pWLoop (l : RwLockT) : RwLockT × Place :=
  if 0 < l.nbrActive ∨ 0 < l.nbwActive then (l, .waitWrite false)
  else ({ l with nbwWaiting := l.nbwWaiting - 1, nbwActive := l.nbwActive + 1 }, .writing)

/-- `P_w` from its start to its wait or its end. -/
def pW (l : RwLockT) : RwLockT × Place := pWLoop { l with nbwWaiting := l.nbwWaiting + 1 }

def vW (l : RwLockT) : RwLockT × Wake :=
  let l := { l with nbwActive := l.nbwActive - 1 }
  (l, if 0 < l.nbwWaiting then .signalWrite
    else if 0 < l.nbrWaiting then .broadcastRead else .nobody)

def rwLockDowngrade (l : RwLockT) : RwLockT × Wake :=
  let l := { l with nbwActive := l.nbwActive - 1 }
  ({ l with nbrActive := l.nbrActive + 1 },
    if 0 < l.nbrWaiting then .broadcastRead else .nobody)

/-! ## The system of threads -/

/-- A lock and the places of the threads that use it. -/
structure Sys (T : Type u) where
  /-- the shared counters -/
  lock : RwLockT
  pc : T → Place

variable {T : Type u}

/-- `rw_lock_init` has run and no thread has come yet. -/
def Sys.init : Sys T := ⟨rwLockInit, fun _ => .out⟩

/-- The actions of the threads. `ws` is the set of waiting writers that a
`pthread_cond_signal` of the action unblocks. -/
inductive Action (T : Type u) where
  /-- call of `P_r` -/
  | pR (t : T)
  /-- return of the wait of `P_r` -/
  | pRResume (t : T)
  /-- call of `V_r` -/
  | vR (t : T) (ws : Finset T)
  /-- call of `P_w` -/
  | pW (t : T)
  /-- return of the wait of `P_w` -/
  | pWResume (t : T)
  /-- call of `V_w` -/
  | vW (t : T) (ws : Finset T)
  /-- call of `rw_lock_downgrade` -/
  | downgrade (t : T)

variable [Fintype T] [DecidableEq T]

/-- The effect of a signal or a broadcast on the waiting threads. A signal on
`condWrite` unblocks at least one of the writers blocked there, if there is one;
without a signal `ws` is empty. -/
def notify (ws : Finset T) (pc : T → Place) : Wake → Option (T → Place)
  | .nobody => if ws = ∅ then some pc else none
  | .signalWrite =>
    if (∀ t ∈ ws, pc t = .waitWrite false) ∧ (ws = ∅ → ∀ t, pc t ≠ .waitWrite false) then
      some fun t => if t ∈ ws then .waitWrite true else pc t
    else none
  | .broadcastRead =>
    if ws = ∅ then
      some fun t => match pc t with
        | .waitRead _ => .waitRead true
        | p => p
    else none

/-- Thread `t` performs a section that ends at `c` and wakes as `w` says. -/
def Sys.section (s : Sys T) (t : T) (l : RwLockT) (c : Place) (ws : Finset T) (w : Wake) :
    Option (Sys T) :=
  (notify ws (Function.update s.pc t c) w).map fun pc => ⟨l, pc⟩

def step (s : Sys T) : Action T → Option (Sys T)
  | .pR t => if s.pc t = .out then s.section t (pR s.lock).1 (pR s.lock).2 ∅ .nobody else none
  | .pRResume t =>
    if s.pc t = .waitRead true then s.section t (pREnd s.lock) .reading ∅ .nobody else none
  | .vR t ws =>
    if s.pc t = .reading then s.section t (vR s.lock).1 .out ws (vR s.lock).2 else none
  | .pW t => if s.pc t = .out then s.section t (pW s.lock).1 (pW s.lock).2 ∅ .nobody else none
  | .pWResume t =>
    if s.pc t = .waitWrite true then
      s.section t (pWLoop s.lock).1 (pWLoop s.lock).2 ∅ .nobody
    else none
  | .vW t ws =>
    if s.pc t = .writing then s.section t (vW s.lock).1 .out ws (vW s.lock).2 else none
  | .downgrade t =>
    if s.pc t = .writing then
      s.section t (rwLockDowngrade s.lock).1 .reading ∅ (rwLockDowngrade s.lock).2
    else none

/-! ## What one action does to the counters -/

def Place.isReading : Place → Bool
  | .reading => true
  | _ => false

/-- The thread waits to read, signalled or not. -/
def Place.isWaitRead : Place → Bool
  | .waitRead _ => true
  | _ => false

def Place.isWriting : Place → Bool
  | .writing => true
  | _ => false

/-- The thread waits to write, signalled or not. -/
def Place.isWaitWrite : Place → Bool
  | .waitWrite _ => true
  | _ => false

/-- A predicate on places that does not see whether a waiting thread was woken. -/
def BlindToWake (p : Place → Bool) : Prop :=
  (∀ b b', p (.waitRead b) = p (.waitRead b')) ∧ ∀ b b', p (.waitWrite b) = p (.waitWrite b')

theorem blind_isReading : BlindToWake Place.isReading := ⟨fun _ _ => rfl, fun _ _ => rfl⟩

theorem blind_isWaitRead : BlindToWake Place.isWaitRead := ⟨fun _ _ => rfl, fun _ _ => rfl⟩

theorem blind_isWriting : BlindToWake Place.isWriting := ⟨fun _ _ => rfl, fun _ _ => rfl⟩

theorem blind_isWaitWrite : BlindToWake Place.isWaitWrite := ⟨fun _ _ => rfl, fun _ _ => rfl⟩

variable {ws : Finset T} {w : Wake} {s s' : Sys T} {t : T} {a : Action T}

theorem notify_blind {p : Place → Bool} (hp : BlindToWake p) {pc pc' : T → Place}
    (h : notify ws pc w = some pc') (t : T) : p (pc' t) = p (pc t) := by
  cases w with
  | nobody =>
    obtain ⟨-, he⟩ := Option.ite_none_right_eq_some.mp h
    cases he
    rfl
  | signalWrite =>
    obtain ⟨hws, he⟩ := Option.ite_none_right_eq_some.mp h
    cases he
    by_cases ht : t ∈ ws
    · simp only [ht, if_true, hws.1 t ht]
      exact hp.2 _ _
    · simp only [ht, if_false]
  | broadcastRead =>
    obtain ⟨-, he⟩ := Option.ite_none_right_eq_some.mp h
    cases he
    cases hpc : pc t with
    | waitRead b => simpa only [hpc] using hp.1 _ _
    | _ => simp only [hpc]

/-- **What a section does**: the counters are what the code makes of them, and the
acting thread alone changes kind. -/
theorem section_eq_some {l : RwLockT} {c : Place} (h : s.section t l c ws w = some s') :
    s'.lock = l ∧ ∀ p, BlindToWake p →
      countThreads p s'.pc + (if p (s.pc t) then 1 else 0) =
        countThreads p s.pc + (if p c then 1 else 0) := by
  obtain ⟨pc, hpc, rfl⟩ := Option.map_eq_some_iff.mp h
  refine ⟨rfl, fun p hp => ?_⟩
  rw [countThreads_congr (notify_blind hp hpc)]
  exact countThreads_update p s.pc t c

/-- The counters of the lock are exact, and at most one thread is writing. -/
structure Counted (s : Sys T) : Prop where
  /-- `nbr_active` is the number of readers -/
  nbrActive : s.lock.nbrActive = countThreads Place.isReading s.pc
  /-- `nbr_waiting` is the number of threads that wait to read -/
  nbrWaiting : s.lock.nbrWaiting = countThreads Place.isWaitRead s.pc
  /-- `nbw_active` is the number of writers -/
  nbwActive : s.lock.nbwActive = countThreads Place.isWriting s.pc
  /-- `nbw_waiting` is the number of threads that wait to write -/
  nbwWaiting : s.lock.nbwWaiting = countThreads Place.isWaitWrite s.pc
  oneWriter : s.lock.nbwActive ≤ 1

omit [DecidableEq T] in
theorem counted_init : Counted (Sys.init : Sys T) := by
  constructor <;> simp [Sys.init, rwLockInit, countThreads, Place.isReading, Place.isWaitRead,
    Place.isWriting, Place.isWaitWrite]

theorem Counted.section {l : RwLockT} {c : Place} (hs : Counted s)
    (h : s.section t l c ws w = some s')
    (hra : l.nbrActive + (if (s.pc t).isReading then 1 else 0) =
      s.lock.nbrActive + (if c.isReading then 1 else 0))
    (hrw : l.nbrWaiting + (if (s.pc t).isWaitRead then 1 else 0) =
      s.lock.nbrWaiting + (if c.isWaitRead then 1 else 0))
    (hwa : l.nbwActive + (if (s.pc t).isWriting then 1 else 0) =
      s.lock.nbwActive + (if c.isWriting then 1 else 0))
    (hww : l.nbwWaiting + (if (s.pc t).isWaitWrite then 1 else 0) =
      s.lock.nbwWaiting + (if c.isWaitWrite then 1 else 0)) (hone : l.nbwActive ≤ 1) :
    Counted s' := by
  obtain ⟨rfl, hcount⟩ := section_eq_some h
  have h1 := hcount _ blind_isReading
  have h2 := hcount _ blind_isWaitRead
  have h3 := hcount _ blind_isWriting
  have h4 := hcount _ blind_isWaitWrite
  rw [hs.nbrActive] at hra
  rw [hs.nbrWaiting] at hrw
  rw [hs.nbwActive] at hwa
  rw [hs.nbwWaiting] at hww
  exact ⟨by omega, by omega, by omega, by omega, hone⟩

omit [DecidableEq T] in
theorem count_pos {p : Place → Bool} (h : p (s.pc t) = true) : 0 < countThreads p s.pc :=
  countThreads_pos.mpr ⟨t, h⟩

/-- **The counters are exact after every action.** The subtractions of the source
never run below zero: a thread that leaves a place was counted there. -/
theorem counted_step (hs : Counted s) (h : step s a = some s') : Counted s' := by
  cases a with
  | pR t =>
    obtain ⟨hpc, h⟩ := Option.ite_none_right_eq_some.mp h
    have hone := hs.oneWriter
    -- the call ends in the wait, or with the lock held for reading
    by_cases hw : 0 < s.lock.nbwActive ∨ 0 < s.lock.nbwWaiting
    · refine hs.section h ?_ ?_ ?_ ?_ ?_ <;>
        simp [pR, hw, hpc, Place.isReading, Place.isWaitRead, Place.isWriting,
          Place.isWaitWrite, hone]
    · refine hs.section h ?_ ?_ ?_ ?_ ?_ <;>
        simp [pR, pREnd, hw, hpc, Place.isReading, Place.isWaitRead, Place.isWriting,
          Place.isWaitWrite, hone]
  | pRResume t =>
    obtain ⟨hpc, h⟩ := Option.ite_none_right_eq_some.mp h
    have hpos : 0 < s.lock.nbrWaiting := by
      rw [hs.nbrWaiting]
      exact count_pos (t := t) (by rw [hpc]; rfl)
    refine hs.section h ?_ ?_ ?_ ?_ hs.oneWriter <;>
      simp [pREnd, hpc, Place.isReading, Place.isWaitRead, Place.isWriting, Place.isWaitWrite]
    omega
  | vR t ws =>
    obtain ⟨hpc, h⟩ := Option.ite_none_right_eq_some.mp h
    have hpos : 0 < s.lock.nbrActive := by
      rw [hs.nbrActive]
      exact count_pos (t := t) (by rw [hpc]; rfl)
    refine hs.section h ?_ ?_ ?_ ?_ hs.oneWriter <;>
      simp [vR, hpc, Place.isReading, Place.isWaitRead, Place.isWriting, Place.isWaitWrite]
    omega
  | pW t =>
    obtain ⟨hpc, h⟩ := Option.ite_none_right_eq_some.mp h
    have hone := hs.oneWriter
    by_cases hw : 0 < s.lock.nbrActive ∨ 0 < s.lock.nbwActive
    · refine hs.section h ?_ ?_ ?_ ?_ ?_ <;>
        simp [pW, pWLoop, hw, hpc, Place.isReading, Place.isWaitRead, Place.isWriting,
          Place.isWaitWrite, hone]
    refine hs.section h ?_ ?_ ?_ ?_ ?_ <;>
      simp [pW, pWLoop, hw, hpc, Place.isReading, Place.isWaitRead, Place.isWriting,
        Place.isWaitWrite]
    omega
  | pWResume t =>
    obtain ⟨hpc, h⟩ := Option.ite_none_right_eq_some.mp h
    have hone := hs.oneWriter
    have hpos : 0 < s.lock.nbwWaiting := by
      rw [hs.nbwWaiting]
      exact count_pos (t := t) (by rw [hpc]; rfl)
    by_cases hw : 0 < s.lock.nbrActive ∨ 0 < s.lock.nbwActive
    · refine hs.section h ?_ ?_ ?_ ?_ ?_ <;>
        simp [pWLoop, hw, hpc, Place.isReading, Place.isWaitRead, Place.isWriting,
          Place.isWaitWrite, hone]
    refine hs.section h ?_ ?_ ?_ ?_ ?_ <;>
      simp [pWLoop, hw, hpc, Place.isReading, Place.isWaitRead, Place.isWriting,
        Place.isWaitWrite] <;>
      omega
  | vW t ws =>
    obtain ⟨hpc, h⟩ := Option.ite_none_right_eq_some.mp h
    have hone := hs.oneWriter
    have hpos : 0 < s.lock.nbwActive := by
      rw [hs.nbwActive]
      exact count_pos (t := t) (by rw [hpc]; rfl)
    refine hs.section h ?_ ?_ ?_ ?_ ?_ <;>
      simp [vW, hpc, Place.isReading, Place.isWaitRead, Place.isWriting, Place.isWaitWrite] <;>
      omega
  | downgrade t =>
    obtain ⟨hpc, h⟩ := Option.ite_none_right_eq_some.mp h
    have hone := hs.oneWriter
    have hpos : 0 < s.lock.nbwActive := by
      rw [hs.nbwActive]
      exact count_pos (t := t) (by rw [hpc]; rfl)
    refine hs.section h ?_ ?_ ?_ ?_ ?_ <;>
      simp [rwLockDowngrade, hpc, Place.isReading, Place.isWaitRead, Place.isWriting,
        Place.isWaitWrite] <;>
      omega

/-- **Counters along a run**: whatever the interleaving, the counters are exact and
there is at most one writer. -/
theorem counted_run (as : List (Action T)) : Always step Counted (Sys.init : Sys T) as :=
  always_of_step counted_init fun _ _ _ hs h => counted_step hs h

/-! ## Exclusion -/

/-- The contract of the lock: at most one writer, no reader beside a writer, and
counters that are the numbers of threads in each situation. -/
structure Exclusion (s : Sys T) : Prop where
  /-- at most one thread holds the lock for writing -/
  oneWriter : ∀ t u, s.pc t = .writing → s.pc u = .writing → t = u
  /-- no thread reads while some thread writes -/
  noMix : ∀ t u, s.pc t = .reading → s.pc u ≠ .writing
  /-- `nbr_active` is the number of readers -/
  nbrActive : s.lock.nbrActive = countThreads Place.isReading s.pc
  /-- `nbw_active` is the number of writers -/
  nbwActive : s.lock.nbwActive = countThreads Place.isWriting s.pc
  /-- `nbr_waiting` is the number of threads that wait to read -/
  nbrWaiting : s.lock.nbrWaiting = countThreads Place.isWaitRead s.pc
  /-- `nbw_waiting` is the number of threads that wait to write -/
  nbwWaiting : s.lock.nbwWaiting = countThreads Place.isWaitWrite s.pc

/-- **There is never a second writer**, and the counters are exact, in every run: also after a
reader has come in beside a writer. -/
theorem oneWriter_always (as : List (Action T)) : Always step (fun s : Sys T =>
    (∀ t u, s.pc t = .writing → s.pc u = .writing → t = u) ∧
      s.lock.nbrActive = countThreads Place.isReading s.pc ∧
      s.lock.nbwActive = countThreads Place.isWriting s.pc ∧
      s.lock.nbrWaiting = countThreads Place.isWaitRead s.pc ∧
      s.lock.nbwWaiting = countThreads Place.isWaitWrite s.pc) Sys.init as :=
  (counted_run as).mono fun s hs => by
    refine ⟨fun t u ht hu => ?_, hs.nbrActive, hs.nbwActive, hs.nbrWaiting, hs.nbwWaiting⟩
    exact eq_of_countThreads_le_one (hs.nbwActive ▸ hs.oneWriter) (by rw [ht]; rfl)
      (by rw [hu]; rfl)

/-- The test `P_w` makes again in its `while` and `P_r` does not: when the wait of
`P_r` returns, no writer is active. -/
def ResumesFree (s : Sys T) (a : Action T) (_ : Sys T) : Prop :=
  ∀ t, a = .pRResume t → s.lock.nbwActive = 0

/-- Readers and writers exclude each other, said with the counters. -/
def NotBoth (s : Sys T) : Prop := s.lock.nbrActive = 0 ∨ s.lock.nbwActive = 0

theorem isReading_iff {p : Place} : p.isReading = true ↔ p = .reading := by
  cases p <;> simp [Place.isReading]

theorem isWriting_iff {p : Place} : p.isWriting = true ↔ p = .writing := by
  cases p <;> simp [Place.isWriting]

omit [DecidableEq T] in
theorem Counted.exclusion_iff (hs : Counted s) : Exclusion s ↔ NotBoth s := by
  constructor
  · intro he
    by_contra hboth
    obtain ⟨hr, hw⟩ := not_or.mp hboth
    obtain ⟨t, ht⟩ := countThreads_pos.mp (hs.nbrActive ▸ Nat.pos_of_ne_zero hr)
    obtain ⟨u, hu⟩ := countThreads_pos.mp (hs.nbwActive ▸ Nat.pos_of_ne_zero hw)
    exact he.noMix t u (isReading_iff.mp ht) (isWriting_iff.mp hu)
  · intro hboth
    refine ⟨?_, ?_, hs.nbrActive, hs.nbwActive, hs.nbrWaiting, hs.nbwWaiting⟩
    · intro t u ht hu
      exact eq_of_countThreads_le_one (hs.nbwActive ▸ hs.oneWriter)
        (isWriting_iff.mpr ht) (isWriting_iff.mpr hu)
    · intro t u ht hu
      have hr : 0 < s.lock.nbrActive := hs.nbrActive ▸ count_pos (isReading_iff.mpr ht)
      have hw : 0 < s.lock.nbwActive := hs.nbwActive ▸ count_pos (isWriting_iff.mpr hu)
      rcases hboth with h | h <;> omega

/-- Every action keeps readers and writers apart, if a reader that resumes finds no
active writer. -/
theorem notBoth_step (hs : Counted s) (hn : NotBoth s) (h : step s a = some s')
    (hfree : ResumesFree s a s') : NotBoth s' := by
  have hone := hs.oneWriter
  cases a with
  | pR t =>
    obtain ⟨-, h⟩ := Option.ite_none_right_eq_some.mp h
    rw [NotBoth, (section_eq_some h).1]
    by_cases hw : 0 < s.lock.nbwActive ∨ 0 < s.lock.nbwWaiting
    · simpa [pR, hw, NotBoth] using hn
    · simp [pR, pREnd, hw]
      omega
  | pRResume t =>
    obtain ⟨-, h⟩ := Option.ite_none_right_eq_some.mp h
    rw [NotBoth, (section_eq_some h).1]
    exact .inr (hfree t rfl)
  | vR t ws =>
    obtain ⟨-, h⟩ := Option.ite_none_right_eq_some.mp h
    rw [NotBoth, (section_eq_some h).1]
    rcases hn with hn | hn
    · exact .inl (by simp [vR, hn])
    · exact .inr hn
  | pW t =>
    obtain ⟨-, h⟩ := Option.ite_none_right_eq_some.mp h
    rw [NotBoth, (section_eq_some h).1]
    by_cases hw : 0 < s.lock.nbrActive ∨ 0 < s.lock.nbwActive
    · simpa [pW, pWLoop, hw, NotBoth] using hn
    · simp [pW, pWLoop, hw]
      omega
  | pWResume t =>
    obtain ⟨-, h⟩ := Option.ite_none_right_eq_some.mp h
    rw [NotBoth, (section_eq_some h).1]
    by_cases hw : 0 < s.lock.nbrActive ∨ 0 < s.lock.nbwActive
    · simpa [pWLoop, hw, NotBoth] using hn
    · simp [pWLoop, hw]
      omega
  | vW t ws =>
    obtain ⟨-, h⟩ := Option.ite_none_right_eq_some.mp h
    rw [NotBoth, (section_eq_some h).1]
    exact .inr (by simp [vW]; omega)
  | downgrade t =>
    obtain ⟨-, h⟩ := Option.ite_none_right_eq_some.mp h
    rw [NotBoth, (section_eq_some h).1]
    exact .inr (by simp [rwLockDowngrade]; omega)

theorem resumesFree_of_notBoth (hn : NotBoth s') (h : step s a = some s') : ResumesFree s a s' := by
  rintro t rfl
  obtain ⟨-, h⟩ := Option.ite_none_right_eq_some.mp h
  rw [NotBoth, (section_eq_some h).1] at hn
  simpa [pREnd] using hn

/-- **Exclusion, exactly**: a run of the lock keeps its contract in every state it
visits if and only if each return of the wait of `P_r` finds no active writer. -/
theorem exclusion_iff_resumesFree (as : List (Action T)) :
    Always step Exclusion (Sys.init : Sys T) as ↔
      AllSteps step ResumesFree (Sys.init : Sys T) as := by
  constructor
  · intro h
    refine allSteps_of_always (P := fun s => Counted s ∧ Exclusion s) ?_
      ((counted_run as).and h)
    intro s a t _ ht hstep
    exact resumesFree_of_notBoth (ht.1.exclusion_iff.mp ht.2) hstep
  · intro h
    have hinv : Always step (fun s => Counted s ∧ NotBoth s) (Sys.init : Sys T) as := by
      refine always_of_allSteps ⟨counted_init, Or.inl rfl⟩ ?_ h
      intro s a t hs hstep hfree
      exact ⟨counted_step hs.1 hstep, notBoth_step hs.1 hs.2 hstep hfree⟩
    exact hinv.mono fun s hs => hs.1.exclusion_iff.mpr hs.2

/-- The run that breaks the lock, with writers `0` and `2` and reader `1`: the second
writer enters between the broadcast of `V_w` and the return of the reader's wait. -/
def lateReader : List (Action (Fin 3)) :=
  [.pW 0, .pR 1, .vW 0 ∅, .pW 2, .pRResume 1]

theorem lateReader_breaks_exclusion :
    ∃ s, exec step (Sys.init : Sys (Fin 3)) lateReader = some s ∧
      s.pc 1 = .reading ∧ s.pc 2 = .writing ∧
      ¬ Always step Exclusion (Sys.init : Sys (Fin 3)) lateReader := by
  refine ⟨_, rfl, by decide, by decide, fun h => ?_⟩
  exact (h.exec rfl).noMix 1 2 (by decide) (by decide)

end CloudNfs.RwLock
