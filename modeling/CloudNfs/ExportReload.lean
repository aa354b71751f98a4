import CloudNfs.Run
import Mathlib.Logic.Function.Basic

/-!
# Reloading the exports

`rebuild_export_list` stops the workers, replaces the list of exports and lets the workers go on.
For each worker there are two flags, which are read and written without a lock:
`reparse_exports_in_progress`, which only the admin thread writes, and `waiting_for_exports`, which
only the worker writes.

* One step is one access to a flag, one operation on a mutex, the beginning of a wait, or a signal.
  The admin thread and the workers take their steps in any order; a wait may also end by itself.
* A worker that has announced that it waits stays in its loop for as long as its other flag is set:
  the exports are never replaced under a running request (`exportsSafe`).
* The admin thread signals without the mutex of the condition, so the signal may come when the
  worker has **announced** that it waits but does not wait yet. As long as that does not happen no
  worker sleeps on (`noneLeftBehind_of_signalsWaiter`); a worker to which it happens may never be
  woken (`lostSignal_strands`).
-/

namespace CloudNfs.ExportReload

/-! ### The code -/

/-- Where a worker is, in the loop of `worker_thread`. -/
inductive WorkerPc where
  /-- at `P(mutex_req_condvar)`, before the loop -/
  | lockReq
  /-- at `nb_entry == nb_invalid`, in the condition of the loop -/
  | testQueue
  /-- at `reparse_exports_in_progress == TRUE`, in the condition of the loop -/
  | testReparse
  /-- at `reparse_exports_in_progress == TRUE`, in the body -/
  | testBody
  /-- at `waiting_for_exports = TRUE` -/
  | setWaiting
  /-- at `P(mutex_export_condvar)` -/
  | lockExport
  /-- at the call of `pthread_cond_wait` on `export_condvar` -/
  | startWait
  /-- waiting on `export_condvar` -/
  | waitExport
  /-- woken, and to take `mutex_export_condvar` again -/
  | wokenExport
  /-- at `waiting_for_exports = FALSE` -/
  | clearWaiting
  /-- at `V(mutex_export_condvar)` -/
  | unlockExport
  /-- at the call of `pthread_cond_wait` on `req_condvar` -/
  | startWaitReq
  /-- waiting on `req_condvar` -/
  | waitReq
  /-- woken, and to take `mutex_req_condvar` again -/
  | wokenReq
  /-- at `V(mutex_req_condvar)`, behind the loop -/
  | unlockReq
  | process
  deriving DecidableEq

/-- `nfs_worker_data_t`, as far as the loop uses it. -/
structure Worker where
  pc : WorkerPc
  /-- `reparse_exports_in_progress` -/
  reparse : Bool
  /-- `waiting_for_exports` -/
  waiting : Bool
  /-- `nb_entry - nb_invalid` of `pending_request` -/
  pending : ℕ
  /-- `mutex_req_condvar` is taken -/
  reqHeld : Bool
  /-- `mutex_export_condvar` is taken -/
  exportHeld : Bool

/-- Where the admin thread is. -/
inductive AdminPc where
  /-- outside `rebuild_export_list`, or before its call of `pause_workers_for_export_reload` -/
  | idle
  /-- at `reparse_exports_in_progress = TRUE` of a worker -/
  | pauseSet (i : ℕ)
  /-- at the signal on `req_condvar` of a worker -/
  | pauseSignal (i : ℕ)
  /-- at the test of `waiting_for_exports` of a worker, with `all_blocked` -/
  | scan (i : ℕ) (allBlocked : Bool)
  /-- between `pause_workers_for_export_reload` and `wake_workers_for_export_reload` -/
  | replace
  /-- at `reparse_exports_in_progress = FALSE` of a worker -/
  | wakeClear (i : ℕ)
  /-- at the signal on `export_condvar` of a worker -/
  | wakeSignal (i : ℕ)
  deriving DecidableEq

structure Sys where
  admin : AdminPc
  /-- `workers_data` -/
  workers : ℕ → Worker

inductive Action where
  /-- `rebuild_export_list` has read the new exports -/
  | reload
  | admin
  | worker (j : ℕ)
  /-- a wait of a worker ends by itself -/
  | spurious (j : ℕ)
  /-- the dispatcher gives a request to a worker, under `mutex_req_condvar` -/
  | dispatch (j : ℕ)

/-- A signal on `export_condvar`. -/
def signalExport (w : Worker) : Worker :=
  if w.pc = .waitExport then { w with pc := .wokenExport } else w

/-- A signal on `req_condvar`. -/
def signalReq (w : Worker) : Worker :=
  if w.pc = .waitReq then { w with pc := .wokenReq } else w

def workerStep (w : Worker) : Option Worker :=
  match w.pc with
  | .lockReq => if w.reqHeld then none else some { w with reqHeld := true, pc := .testQueue }
  | .testQueue => some { w with pc := if w.pending = 0 then .testBody else .testReparse }
  | .testReparse => some { w with pc := if w.reparse then .testBody else .unlockReq }
  | .testBody => some { w with pc := if w.reparse then .setWaiting else .startWaitReq }
  | .setWaiting => some { w with waiting := true, pc := .lockExport }
  | .lockExport =>
    if w.exportHeld then none else some { w with exportHeld := true, pc := .startWait }
  | .startWait => some { w with exportHeld := false, pc := .waitExport }
  | .waitExport => none
  | .wokenExport =>
    if w.exportHeld then none else some { w with exportHeld := true, pc := .clearWaiting }
  | .clearWaiting => some { w with waiting := false, pc := .unlockExport }
  | .unlockExport => some { w with exportHeld := false, pc := .testQueue }
  | .startWaitReq => some { w with reqHeld := false, pc := .waitReq }
  | .waitReq => none
  | .wokenReq => if w.reqHeld then none else some { w with reqHeld := true, pc := .testQueue }
  | .unlockReq => some { w with reqHeld := false, pc := .process }
  | .process => some { w with pending := w.pending - 1, pc := .lockReq }

namespace Sys

def modify (s : Sys) (j : ℕ) (f : Worker → Worker) : Sys :=
  { s with workers := Function.update s.workers j (f (s.workers j)) }

end Sys

/-- The next step of `pause_workers_for_export_reload`, of the replacement or of
`wake_workers_for_export_reload`. `pthread_cond_signal` never returns `-1`, so its error branches
are not taken. -/
def adminStep (nbWorker : ℕ) (s : Sys) : Option Sys :=
  match s.admin with
  | .idle => none
  | .pauseSet i =>
    if i < nbWorker then
      some { s.modify i ({ · with reparse := true }) with admin := .pauseSignal i }
    else some { s with admin := .scan 0 true }
  | .pauseSignal i => some { s.modify i signalReq with admin := .pauseSet (i + 1) }
  | .scan i allBlocked =>
    if i < nbWorker then
      some { s with admin := .scan (i + 1) (if (s.workers i).waiting then allBlocked else false) }
    else if allBlocked then some { s with admin := .replace }
    else some { s with admin := .scan 0 true }
  | .replace => some { s with admin := .wakeClear 0 }
  | .wakeClear i =>
    if i < nbWorker then
      some { s.modify i ({ · with reparse := false }) with admin := .wakeSignal i }
    else some { s with admin := .idle }
  | .wakeSignal i => some { s.modify i signalExport with admin := .wakeClear (i + 1) }

/-- One step, with `nbWorker` workers. -/
def step (nbWorker : ℕ) (s : Sys) : Action → Option Sys
  | .reload => if s.admin = .idle then some { s with admin := .pauseSet 0 } else none
  | .admin => adminStep nbWorker s
  | .worker j =>
    if j < nbWorker then
      (workerStep (s.workers j)).map fun w => s.modify j fun _ => w
    else none
  | .spurious j => some (s.modify j (signalReq ∘ signalExport))
  | .dispatch j =>
    if (s.workers j).reqHeld then none
    else some (s.modify j fun w => signalReq { w with pending := w.pending + 1 })

/-- The workers are at the beginning of their loop. -/
def init : Sys where
  admin := .idle
  workers _ := ⟨.lockReq, false, false, 0, false, false⟩

/-! ### The contracts -/

/-- The worker is between leaving its wait loop and its next evaluation of the condition. -/
def Worker.executing (w : Worker) : Bool :=
  match w.pc with
  | .lockReq | .unlockReq | .process => true
  | _ => false

/-- **The exports are replaced only** while no worker executes a request. -/
def ExportsSafe (nbWorker : ℕ) (s : Sys) : Prop :=
  s.admin = .replace → ∀ j < nbWorker, (s.workers j).executing = false

/-- The admin thread is in `wake_workers_for_export_reload`. -/
def AdminPc.waking : AdminPc → Bool
  | .wakeClear _ | .wakeSignal _ => true
  | _ => false

/-- **No worker sleeps on** after its flag was cleared. -/
def NoneLeftBehind (nbWorker : ℕ) (s : Sys) : Prop :=
  ∀ j < nbWorker, (s.workers j).pc = .waitExport → (s.workers j).reparse = false →
    s.admin.waking = true

/-- The worker has found that it has to wait, and does not wait yet. -/
def Worker.aboutToWait (w : Worker) : Bool :=
  match w.pc with
  | .setWaiting | .lockExport | .startWait => true
  | _ => false

/-- The worker that is signalled next on `export_condvar`. -/
def AdminPc.signalled : AdminPc → Option ℕ
  | .wakeSignal i => some i
  | _ => none

/-- A worker that is signalled on `export_condvar` is not about to wait on it. -/
def SignalsWaiter (s : Sys) : Action → Prop
  | .admin => ∀ i ∈ s.admin.signalled, (s.workers i).aboutToWait = false
  | _ => True

instance (s : Sys) : (a : Action) → Decidable (SignalsWaiter s a)
  | .reload => isTrue trivial
  | .admin => inferInstanceAs (Decidable (∀ i ∈ s.admin.signalled, _))
  | .worker _ => isTrue trivial
  | .spurious _ => isTrue trivial
  | .dispatch _ => isTrue trivial

/-! ### What a step can be -/

section Steps

variable {nbWorker i j : ℕ} {s t : Sys} {w w' : Worker} {a : Action} {f : Worker → Worker}

namespace Sys

@[simp] theorem admin_modify : (s.modify i f).admin = s.admin := rfl

@[simp] theorem workers_modify_self : (s.modify i f).workers i = f (s.workers i) :=
  Function.update_self ..

theorem workers_modify_of_ne (h : j ≠ i) : (s.modify i f).workers j = s.workers j :=
  Function.update_of_ne h ..

end Sys

inductive WorkerMove : Worker → Worker → Prop where
  | run {w w' : Worker} (h : workerStep w = some w') : WorkerMove w w'
  | spurious (w : Worker) : WorkerMove w (signalReq (signalExport w))
  | dispatch (w : Worker) : WorkerMove w (signalReq { w with pending := w.pending + 1 })

theorem step_cases (h : step nbWorker s a = some t) :
    (a = .reload ∧ s.admin = .idle ∧ t = { s with admin := .pauseSet 0 }) ∨
    (a = .admin ∧ adminStep nbWorker s = some t) ∨
    (a ≠ .admin ∧ ∃ j w, WorkerMove (s.workers j) w ∧ t = s.modify j fun _ => w) := by
  cases a with
  | reload =>
    simp only [step, Option.ite_none_right_eq_some, Option.some.injEq] at h
    exact .inl ⟨rfl, h.1, h.2.symm⟩
  | admin => exact .inr (.inl ⟨rfl, h⟩)
  | worker j =>
    simp only [step, Option.ite_none_right_eq_some, Option.map_eq_some_iff] at h
    obtain ⟨-, w, hw, rfl⟩ := h
    exact .inr (.inr ⟨Action.noConfusion, j, w, .run hw, rfl⟩)
  | spurious j =>
    cases h
    exact .inr (.inr ⟨Action.noConfusion, j, _, .spurious _, rfl⟩)
  | dispatch j =>
    simp only [step, Option.ite_none_left_eq_some, Option.some.injEq] at h
    obtain ⟨-, rfl⟩ := h
    exact .inr (.inr ⟨Action.noConfusion, j, _, .dispatch _, rfl⟩)

inductive AdminMove (nbWorker : ℕ) (s : Sys) : Sys → Prop where
  | pauseSet (i : ℕ) (hi : i < nbWorker) (hpc : s.admin = .pauseSet i) : AdminMove nbWorker s
      { s.modify i ({ · with reparse := true }) with admin := .pauseSignal i }
  | pauseDone (i : ℕ) (hi : nbWorker ≤ i) (hpc : s.admin = .pauseSet i) : AdminMove nbWorker s
      { s with admin := .scan 0 true }
  | pauseSignal (i : ℕ) (hpc : s.admin = .pauseSignal i) : AdminMove nbWorker s
      { s.modify i signalReq with admin := .pauseSet (i + 1) }
  | scan (i : ℕ) (b : Bool) (hi : i < nbWorker) (hpc : s.admin = .scan i b) : AdminMove nbWorker s
      { s with admin := .scan (i + 1) (if (s.workers i).waiting then b else false) }
  | scanDone (i : ℕ) (hi : nbWorker ≤ i) (hpc : s.admin = .scan i true) : AdminMove nbWorker s
      { s with admin := .replace }
  | rescan (i : ℕ) (hpc : s.admin = .scan i false) : AdminMove nbWorker s
      { s with admin := .scan 0 true }
  | replaced (hpc : s.admin = .replace) : AdminMove nbWorker s { s with admin := .wakeClear 0 }
  | wakeClear (i : ℕ) (hi : i < nbWorker) (hpc : s.admin = .wakeClear i) : AdminMove nbWorker s
      { s.modify i ({ · with reparse := false }) with admin := .wakeSignal i }
  | wakeDone (i : ℕ) (hi : nbWorker ≤ i) (hpc : s.admin = .wakeClear i) : AdminMove nbWorker s
      { s with admin := .idle }
  | wakeSignal (i : ℕ) (hpc : s.admin = .wakeSignal i) : AdminMove nbWorker s
      { s.modify i signalExport with admin := .wakeClear (i + 1) }

theorem adminMove_of_adminStep (h : adminStep nbWorker s = some t) : AdminMove nbWorker s t := by
  cases hpc : s.admin with
  | idle => simp [adminStep, hpc] at h
  | pauseSet i =>
    simp only [adminStep, hpc] at h
    split at h
    next hi =>
      cases h
      exact .pauseSet i hi hpc
    next hi =>
      cases h
      exact .pauseDone i (Nat.not_lt.mp hi) hpc
  | pauseSignal i =>
    simp only [adminStep, hpc] at h
    cases h
    exact .pauseSignal i hpc
  | scan i b =>
    simp only [adminStep, hpc] at h
    split at h
    next hi =>
      cases h
      exact .scan i b hi hpc
    rename_i hi
    cases b with
    | true =>
      cases h
      exact .scanDone i (Nat.not_lt.mp hi) hpc
    | false =>
      cases h
      exact .rescan i hpc
  | replace =>
    simp only [adminStep, hpc] at h
    cases h
    exact .replaced hpc
  | wakeClear i =>
    simp only [adminStep, hpc] at h
    split at h
    next hi =>
      cases h
      exact .wakeClear i hi hpc
    next hi =>
      cases h
      exact .wakeDone i (Nat.not_lt.mp hi) hpc
  | wakeSignal i =>
    simp only [adminStep, hpc] at h
    cases h
    exact .wakeSignal i hpc

end Steps

/-! ### What a worker does to its flags -/

namespace Worker

def announced (w : Worker) : Bool :=
  match w.pc with
  | .lockExport | .startWait | .waitExport | .wokenExport | .clearWaiting => true
  | _ => false

/-- The worker waits on `export_condvar` or is about to. -/
def goesToSleep (w : Worker) : Bool := w.aboutToWait || decide (w.pc = .waitExport)

/-- The worker is where it holds `mutex_export_condvar`. -/
def holdsExport (w : Worker) : Bool :=
  match w.pc with
  | .startWait | .clearWaiting | .unlockExport => true
  | _ => false

/-- The flags of a worker say where it is. -/
structure Ok (w : Worker) : Prop where
  waiting : w.waiting = true → w.announced = true
  exportHeld : w.exportHeld = w.holdsExport

end Worker

/-- What a worker may do. -/
structure Moves (w w' : Worker) : Prop where
  reparse : w'.reparse = w.reparse
  ok : w.Ok → w'.Ok
  inLoop : w.reparse = true → w.executing = false → w'.executing = false
  sleep : w'.goesToSleep = true → w.goesToSleep = true ∨ w.reparse = true

section Moves

variable {w w' : Worker}

theorem moves_signalExport (w : Worker) : Moves w (signalExport w) := by
  obtain ⟨pc, reparse, waiting, pending, reqHeld, exportHeld⟩ := w
  rw [signalExport]
  split
  next hpc =>
    obtain rfl : pc = .waitExport := hpc
    exact ⟨rfl, fun h => ⟨fun _ => rfl, h.exportHeld⟩, fun _ _ => rfl, fun _ => Or.inl rfl⟩
  · exact ⟨rfl, id, fun _ h => h, Or.inl⟩

theorem moves_signalReq (w : Worker) : Moves w (signalReq w) := by
  obtain ⟨pc, reparse, waiting, pending, reqHeld, exportHeld⟩ := w
  rw [signalReq]
  split
  next hpc =>
    obtain rfl : pc = .waitReq := hpc
    exact ⟨rfl, fun h => ⟨h.waiting, h.exportHeld⟩, fun _ _ => rfl, fun h => Or.inl h⟩
  · exact ⟨rfl, id, fun _ h => h, Or.inl⟩

theorem Moves.trans {w'' : Worker} (h : Moves w w') (h' : Moves w' w'') : Moves w w'' where
  reparse := h'.reparse.trans h.reparse
  ok := h'.ok ∘ h.ok
  inLoop htold hin := h'.inLoop (h.reparse.trans htold) (h.inLoop htold hin)
  sleep hsleep := by
    rcases h'.sleep hsleep with hsleep | htold
    · exact h.sleep hsleep
    · exact .inr (h.reparse.symm.trans htold)

theorem moves_workerStep (h : workerStep w = some w') : Moves w w' := by
  obtain ⟨pc, reparse, waiting, pending, reqHeld, exportHeld⟩ := w
  cases pc with
  | lockReq =>
    simp only [workerStep, Option.ite_none_left_eq_some, Option.some.injEq] at h
    obtain ⟨-, rfl⟩ := h
    exact ⟨rfl, fun h => ⟨h.waiting, h.exportHeld⟩, fun _ _ => rfl, Or.inl⟩
  | testQueue =>
    cases h
    by_cases hempty : pending = 0
    · simp only [if_pos hempty]
      exact ⟨rfl, fun h => ⟨h.waiting, h.exportHeld⟩, fun _ _ => rfl, Or.inl⟩
    · simp only [if_neg hempty]
      exact ⟨rfl, fun h => ⟨h.waiting, h.exportHeld⟩, fun _ _ => rfl, Or.inl⟩
  | testReparse =>
    cases h
    cases reparse with
    | true => exact ⟨rfl, fun h => ⟨h.waiting, h.exportHeld⟩, fun _ _ => rfl, Or.inl⟩
    | false =>
      -- this is the way out of the loop
      exact ⟨rfl, fun h => ⟨h.waiting, h.exportHeld⟩, fun htold => (by cases htold), Or.inl⟩
  | testBody =>
    cases h
    cases reparse with
    | true =>
      exact ⟨rfl, fun h => ⟨h.waiting, h.exportHeld⟩, fun _ _ => rfl, fun _ => Or.inr rfl⟩
    | false => exact ⟨rfl, fun h => ⟨h.waiting, h.exportHeld⟩, fun _ _ => rfl, Or.inl⟩
  | setWaiting =>
    cases h
    exact ⟨rfl, fun h => ⟨fun _ => rfl, h.exportHeld⟩, fun _ _ => rfl, Or.inl⟩
  | lockExport =>
    simp only [workerStep, Option.ite_none_left_eq_some, Option.some.injEq] at h
    obtain ⟨-, rfl⟩ := h
    exact ⟨rfl, fun h => ⟨h.waiting, rfl⟩, fun _ _ => rfl, Or.inl⟩
  | startWait =>
    cases h
    exact ⟨rfl, fun h => ⟨h.waiting, rfl⟩, fun _ _ => rfl, Or.inl⟩
  | waitExport => cases h
  | wokenExport =>
    simp only [workerStep, Option.ite_none_left_eq_some, Option.some.injEq] at h
    obtain ⟨-, rfl⟩ := h
    exact ⟨rfl, fun h => ⟨h.waiting, rfl⟩, fun _ _ => rfl, Or.inl⟩
  | clearWaiting =>
    cases h
    exact ⟨rfl, fun h => ⟨fun hw => (by cases hw), h.exportHeld⟩, fun _ _ => rfl, Or.inl⟩
  | unlockExport =>
    cases h
    exact ⟨rfl, fun h => ⟨h.waiting, rfl⟩, fun _ _ => rfl, Or.inl⟩
  | startWaitReq =>
    cases h
    exact ⟨rfl, fun h => ⟨h.waiting, h.exportHeld⟩, fun _ _ => rfl, Or.inl⟩
  | waitReq => cases h
  | wokenReq =>
    simp only [workerStep, Option.ite_none_left_eq_some, Option.some.injEq] at h
    obtain ⟨-, rfl⟩ := h
    exact ⟨rfl, fun h => ⟨h.waiting, h.exportHeld⟩, fun _ _ => rfl, Or.inl⟩
  | unlockReq =>
    cases h
    exact ⟨rfl, fun h => ⟨h.waiting, h.exportHeld⟩, fun _ hin => hin, Or.inl⟩
  | process =>
    cases h
    exact ⟨rfl, fun h => ⟨h.waiting, h.exportHeld⟩, fun _ hin => hin, Or.inl⟩

theorem WorkerMove.moves (h : WorkerMove w w') : Moves w w' := by
  cases h with
  | run h => exact moves_workerStep h
  | spurious => exact (moves_signalExport w).trans (moves_signalReq _)
  | dispatch =>
    have hpending : Moves w { w with pending := w.pending + 1 } :=
      ⟨rfl, fun h => ⟨h.waiting, h.exportHeld⟩, fun _ hin => hin, Or.inl⟩
    exact hpending.trans (moves_signalReq _)

end Moves

/-! ### No request is running while the exports are replaced -/

namespace AdminPc

def told (j : ℕ) : AdminPc → Prop
  | .idle => False
  | .pauseSet i => j < i
  | .pauseSignal i => j ≤ i
  | .scan _ _ => True
  | .replace => True
  | .wakeClear i => i ≤ j
  | .wakeSignal i => i < j

/-- The worker was seen waiting. -/
def seen (j : ℕ) : AdminPc → Prop
  | .scan i true => j < i
  | .replace => True
  | _ => False

end AdminPc

/-- What the admin thread may count on for a worker. -/
structure Agrees (admin : AdminPc) (j : ℕ) (w : Worker) : Prop where
  ok : w.Ok
  told : admin.told j → w.reparse = true
  seen : admin.seen j → w.executing = false
  cleared : admin = .wakeSignal j → w.reparse = false

theorem AdminPc.told_of_seen {admin : AdminPc} {j : ℕ} (h : admin.seen j) : admin.told j := by
  cases admin with
  | scan i b => exact trivial
  | replace => exact trivial
  | _ => exact h.elim

theorem Worker.executing_of_announced {w : Worker} (h : w.announced = true) :
    w.executing = false := by
  obtain ⟨pc, reparse, waiting, pending, reqHeld, exportHeld⟩ := w
  cases pc <;> first | rfl | cases h

section Agrees

variable {nbWorker j : ℕ} {s t : Sys} {w w' : Worker} {admin : AdminPc}

theorem Agrees.moves (h : Agrees admin j w) (hmoves : Moves w w') : Agrees admin j w' where
  ok := hmoves.ok h.ok
  told htold := hmoves.reparse.trans (h.told htold)
  seen hseen := hmoves.inLoop (h.told (AdminPc.told_of_seen hseen)) (h.seen hseen)
  cleared hsignal := hmoves.reparse.trans (h.cleared hsignal)

def AllAgree (nbWorker : ℕ) (s : Sys) : Prop := ∀ j < nbWorker, Agrees s.admin j (s.workers j)

theorem agrees_adminMove (hj : j < nbWorker) (h : Agrees s.admin j (s.workers j))
    (hmove : AdminMove nbWorker s t) : Agrees t.admin j (t.workers j) := by
  cases hmove with
  | pauseSet i hi hpc =>
    rw [hpc] at h
    by_cases hji : j = i
    · subst hji
      simp only [Sys.workers_modify_self]
      exact ⟨⟨h.ok.waiting, h.ok.exportHeld⟩, fun _ => rfl, False.elim, nofun⟩
    · simp only [Sys.workers_modify_of_ne hji]
      exact ⟨h.ok, fun hle => h.told (Nat.lt_of_le_of_ne hle hji), False.elim, nofun⟩
  | pauseDone i hi hpc =>
    rw [hpc] at h
    exact ⟨h.ok, fun _ => h.told (Nat.lt_of_lt_of_le hj hi),
      fun hlt => (Nat.not_lt_zero j hlt).elim, nofun⟩
  | pauseSignal i hpc =>
    rw [hpc] at h
    have hstay : Agrees (.pauseSet (i + 1)) j (s.workers j) :=
      ⟨h.ok, fun hlt => h.told (Nat.lt_succ_iff.mp hlt), False.elim, nofun⟩
    by_cases hji : j = i
    · subst hji
      simp only [Sys.workers_modify_self]
      exact hstay.moves (moves_signalReq _)
    · simp only [Sys.workers_modify_of_ne hji]
      exact hstay
  | scan i b hi hpc =>
    rw [hpc] at h
    cases hwaiting : (s.workers i).waiting with
    | false =>
      simp only [Bool.false_eq_true, if_false]
      exact ⟨h.ok, fun _ => h.told trivial, False.elim, nofun⟩
    | true =>
      simp only [if_true]
      refine ⟨h.ok, fun _ => h.told trivial, fun hseen => ?_, nofun⟩
      cases b with
      | false => exact hseen.elim
      | true =>
        rcases Nat.lt_succ_iff_lt_or_eq.mp hseen with hlt | rfl
        · exact h.seen hlt
        · -- a worker that has announced its wait is in its loop
          exact Worker.executing_of_announced (h.ok.waiting hwaiting)
  | scanDone i hi hpc =>
    rw [hpc] at h
    exact ⟨h.ok, fun _ => h.told trivial, fun _ => h.seen (Nat.lt_of_lt_of_le hj hi), nofun⟩
  | rescan i hpc =>
    rw [hpc] at h
    exact ⟨h.ok, fun _ => h.told trivial, fun hlt => (Nat.not_lt_zero j hlt).elim, nofun⟩
  | replaced hpc =>
    rw [hpc] at h
    exact ⟨h.ok, fun _ => h.told trivial, False.elim, nofun⟩
  | wakeClear i hi hpc =>
    rw [hpc] at h
    by_cases hji : j = i
    · subst hji
      simp only [Sys.workers_modify_self]
      exact ⟨⟨h.ok.waiting, h.ok.exportHeld⟩, fun hlt => (Nat.lt_irrefl j hlt).elim, False.elim,
        fun _ => rfl⟩
    · simp only [Sys.workers_modify_of_ne hji]
      refine ⟨h.ok, fun hlt => h.told (Nat.le_of_lt hlt), False.elim, fun heq => ?_⟩
      exact absurd (AdminPc.wakeSignal.inj heq).symm hji
  | wakeDone i hi hpc =>
    exact ⟨h.ok, False.elim, False.elim, nofun⟩
  | wakeSignal i hpc =>
    rw [hpc] at h
    have hstay : Agrees (.wakeClear (i + 1)) j (s.workers j) :=
      ⟨h.ok, fun hlt => h.told hlt, False.elim, nofun⟩
    by_cases hji : j = i
    · subst hji
      simp only [Sys.workers_modify_self]
      exact hstay.moves (moves_signalExport _)
    · simp only [Sys.workers_modify_of_ne hji]
      exact hstay

/-- **Every step** keeps the workers in agreement with the admin thread. -/
theorem allAgree_step {a : Action} (h : AllAgree nbWorker s) (hst : step nbWorker s a = some t) :
    AllAgree nbWorker t := by
  intro j hj
  have hagrees := h j hj
  rcases step_cases hst with ⟨-, hidle, rfl⟩ | ⟨-, hadmin⟩ | ⟨-, k, w, hmove, rfl⟩
  · exact ⟨hagrees.ok, fun hlt => (Nat.not_lt_zero j hlt).elim, False.elim, nofun⟩
  · exact agrees_adminMove hj hagrees (adminMove_of_adminStep hadmin)
  · by_cases hjk : j = k
    · subst hjk
      simp only [Sys.workers_modify_self, Sys.admin_modify]
      exact hagrees.moves hmove.moves
    · simp only [Sys.workers_modify_of_ne hjk, Sys.admin_modify]
      exact hagrees

theorem allAgree_init : AllAgree nbWorker init := fun _ _ =>
  ⟨⟨fun h => (by cases h), rfl⟩, False.elim, False.elim, nofun⟩

end Agrees

/-- **Exports are never replaced under a running request**, in any run of any number of workers. -/
theorem exportsSafe (nbWorker : ℕ) (as : List Action) :
    Always (step nbWorker) (ExportsSafe nbWorker) init as := by
  have hagree : Always (step nbWorker) (AllAgree nbWorker) init as :=
    always_of_step allAgree_init fun _ _ _ h hst => allAgree_step h hst
  refine hagree.mono fun s h hreplace j hj => ?_
  apply (h j hj).seen
  rw [hreplace]
  exact trivial

/-! ### No worker sleeps on -/

/-- A worker that goes to sleep is told to wait, or its signal is still to come. -/
def Wakeable (nbWorker : ℕ) (s : Sys) : Prop :=
  ∀ j < nbWorker, (s.workers j).goesToSleep = true →
    (s.workers j).reparse = true ∨ s.admin = .wakeSignal j

section Wakeable

variable {nbWorker i j : ℕ} {s t : Sys} {w : Worker}

theorem Wakeable.reparse (h : Wakeable nbWorker s) (hj : j < nbWorker)
    (hpc : s.admin ≠ .wakeSignal j) (hsleep : (s.workers j).goesToSleep = true) :
    (s.workers j).reparse = true :=
  (h j hj hsleep).resolve_right hpc

theorem goesToSleep_signalExport (h : w.aboutToWait = false) :
    (signalExport w).goesToSleep = false := by
  rw [signalExport]
  split
  · rfl
  next hpc =>
    rw [Worker.goesToSleep, h, Bool.false_or, decide_eq_false hpc]

theorem wakeable_adminMove (h : Wakeable nbWorker s) (hsignal : SignalsWaiter s .admin)
    (hmove : AdminMove nbWorker s t) : Wakeable nbWorker t := by
  intro j hj hsleep
  cases hmove with
  | pauseSet i hi hpc =>
    by_cases hji : j = i
    · subst hji
      simp only [Sys.workers_modify_self]
      exact .inl trivial
    · simp only [Sys.workers_modify_of_ne hji] at hsleep ⊢
      exact .inl (h.reparse hj (by simp [hpc]) hsleep)
  | pauseSignal i hpc =>
    by_cases hji : j = i
    · subst hji
      simp only [Sys.workers_modify_self] at hsleep ⊢
      have hmoves := moves_signalReq (s.workers j)
      rw [hmoves.reparse]
      rcases hmoves.sleep hsleep with hsleep | htold
      · exact .inl (h.reparse hj (by simp [hpc]) hsleep)
      · exact .inl htold
    · simp only [Sys.workers_modify_of_ne hji] at hsleep ⊢
      exact .inl (h.reparse hj (by simp [hpc]) hsleep)
  | wakeClear i hi hpc =>
    by_cases hji : j = i
    · subst hji
      exact .inr rfl
    · simp only [Sys.workers_modify_of_ne hji] at hsleep ⊢
      exact .inl (h.reparse hj (by simp [hpc]) hsleep)
  | pauseDone i hi hpc | scan i b hi hpc | scanDone i hi hpc | rescan i hpc | replaced hpc
  | wakeDone i hi hpc => exact .inl (h.reparse hj (by simp [hpc]) hsleep)
  | wakeSignal i hpc =>
    by_cases hji : j = i
    · -- the signal wakes the worker, which waits already
      subst hji
      simp only [Sys.workers_modify_self] at hsleep
      have hwaits : (s.workers j).aboutToWait = false :=
        hsignal j (by simp [hpc, AdminPc.signalled])
      rw [goesToSleep_signalExport hwaits] at hsleep
      cases hsleep
    · simp only [Sys.workers_modify_of_ne hji] at hsleep ⊢
      refine .inl (h.reparse hj ?_ hsleep)
      rw [hpc]
      exact fun heq => hji (AdminPc.wakeSignal.inj heq).symm

/-- **A step** leaves no worker asleep for good, if it signals those that wait. -/
theorem wakeable_step {a : Action} (h : Wakeable nbWorker s) (hst : step nbWorker s a = some t)
    (hsignal : SignalsWaiter s a) : Wakeable nbWorker t := by
  rcases step_cases hst with ⟨-, hidle, rfl⟩ | ⟨rfl, hadmin⟩ | ⟨-, k, w, hmove, rfl⟩
  · intro j hj hsleep
    exact .inl (h.reparse hj (by simp [hidle]) hsleep)
  · exact wakeable_adminMove h hsignal (adminMove_of_adminStep hadmin)
  · intro j hj hsleep
    by_cases hjk : j = k
    · subst hjk
      simp only [Sys.workers_modify_self, Sys.admin_modify] at hsleep ⊢
      rw [hmove.moves.reparse]
      rcases hmove.moves.sleep hsleep with hsleep | htold
      · exact h j hj hsleep
      · exact .inl htold
    · simp only [Sys.workers_modify_of_ne hjk, Sys.admin_modify] at hsleep ⊢
      exact h j hj hsleep

theorem Wakeable.noneLeftBehind (h : Wakeable nbWorker s) : NoneLeftBehind nbWorker s := by
  intro j hj hpc hclear
  have hsleep : (s.workers j).goesToSleep = true := by
    rw [Worker.goesToSleep, decide_eq_true hpc, Bool.or_true]
  rcases h j hj hsleep with htold | hsignal
  · rw [htold] at hclear
    cases hclear
  · rw [hsignal]
    rfl

end Wakeable

/-- **No worker sleeps on** in a run in which every signal on `export_condvar` finds its worker
waiting already, or in no need of it. -/
theorem noneLeftBehind_of_signalsWaiter (nbWorker : ℕ) (as : List Action)
    (hsignals : AllSteps (step nbWorker) (fun s a _ => SignalsWaiter s a) init as) :
    Always (step nbWorker) (NoneLeftBehind nbWorker) init as := by
  have hwakeable : Always (step nbWorker) (Wakeable nbWorker) init as := by
    refine always_of_allSteps (fun j _ hsleep => ?_)
      (fun _ _ _ h hst hsignal => wakeable_step h hst hsignal) hsignals
    cases hsleep
  exact hwakeable.mono fun _ h => h.noneLeftBehind

/-- A reload with one worker, which waits before it is looked at. -/
def reloadRun : List Action :=
  [.reload, .admin, .admin, .worker 0, .worker 0, .worker 0, .worker 0, .worker 0, .worker 0,
    .admin, .admin, .admin, .admin, .admin, .admin, .admin]

theorem reloadRun_noneLeftBehind : Always (step 1) (NoneLeftBehind 1) init reloadRun :=
  noneLeftBehind_of_signalsWaiter 1 reloadRun (by decide +kernel)

/-- The worker is signalled when it has announced that it waits and does not wait yet. -/
def earlySignalRun : List Action :=
  [.reload, .admin, .admin, .worker 0, .worker 0, .worker 0, .worker 0,
    .admin, .admin, .admin, .admin, .admin, .admin, .admin, .worker 0, .worker 0]

/-- The worker then waits for a signal that was sent already. -/
theorem earlySignalRun_breaks_noneLeftBehind :
    ¬ Always (step 1) (NoneLeftBehind 1) init earlySignalRun := by
  intro h
  have hasleep : (exec (step 1) init earlySignalRun).map (fun s =>
      decide ((s.workers 0).pc = .waitExport ∧ (s.workers 0).reparse = false ∧
        s.admin.waking = false)) = some true := by
    decide +kernel
  obtain ⟨s, hs, hasleep⟩ := Option.map_eq_some_iff.mp hasleep
  obtain ⟨hpc, hclear, hdone⟩ := of_decide_eq_true hasleep
  have hwaking := h.exec hs 0 Nat.zero_lt_one hpc hclear
  rw [hdone] at hwaking
  cases hwaking

/-! ### A signal that comes too early -/

section Stranded

variable {nbWorker i j : ℕ} {s t : Sys} {w w' : Worker}

theorem exec_worker {P : Sys → Prop} (hj : j < nbWorker) (h : workerStep (s.workers j) = some w)
    (hrest : ∃ as t, exec (step nbWorker) (s.modify j fun _ => w) as = some t ∧ P t) :
    ∃ as t, exec (step nbWorker) s as = some t ∧ P t := by
  obtain ⟨as, t, hrun, ht⟩ := hrest
  refine ⟨.worker j :: as, t, ?_, ht⟩
  have hst : step nbWorker s (.worker j) = some (s.modify j fun _ => w) := by
    simp only [step, if_pos hj, h, Option.map_some]
  rw [exec_cons, hst]
  exact hrun

/-- The worker waits on `export_condvar`, with its flag and the admin thread as in `s`. -/
def AsleepFrom (s : Sys) (j : ℕ) (t : Sys) : Prop :=
  t.admin = s.admin ∧ (t.workers j).pc = .waitExport ∧
    (t.workers j).reparse = (s.workers j).reparse

theorem exec_startWait (hj : j < nbWorker) (hok : (s.workers j).Ok)
    (hwaits : (s.workers j).aboutToWait = true) :
    ∃ as t, exec (step nbWorker) s as = some t ∧ AsleepFrom s j t := by
  -- the steps that are left, the last one first
  have hstart : ∀ u : Sys, u.admin = s.admin → (u.workers j).reparse = (s.workers j).reparse →
      (u.workers j).pc = .startWait →
      ∃ as t, exec (step nbWorker) u as = some t ∧ AsleepFrom s j t := by
    intro u hadmin hflag hpc
    refine exec_worker (w := { u.workers j with exportHeld := false, pc := .waitExport }) hj
      (by rw [workerStep, hpc]) ⟨[], _, rfl, hadmin, ?_⟩
    rw [Sys.workers_modify_self]
    exact ⟨rfl, hflag⟩
  have hlock : ∀ u : Sys, u.admin = s.admin → (u.workers j).reparse = (s.workers j).reparse →
      (u.workers j).pc = .lockExport → (u.workers j).exportHeld = false →
      ∃ as t, exec (step nbWorker) u as = some t ∧ AsleepFrom s j t := by
    intro u hadmin hflag hpc hfree
    refine exec_worker (w := { u.workers j with exportHeld := true, pc := .startWait }) hj
      (by simp only [workerStep, hpc, hfree, Bool.false_eq_true, if_false]) (hstart _ hadmin ?_ ?_)
    · rw [Sys.workers_modify_self]
      exact hflag
    · rw [Sys.workers_modify_self]
  have hfree := hok.exportHeld
  cases hpc : (s.workers j).pc with
  | startWait => exact hstart s rfl rfl hpc
  | lockExport =>
    rw [Worker.holdsExport, hpc] at hfree
    exact hlock s rfl rfl hpc hfree
  | setWaiting =>
    rw [Worker.holdsExport, hpc] at hfree
    refine exec_worker (w := { s.workers j with waiting := true, pc := .lockExport }) hj
      (by rw [workerStep, hpc]) (hlock _ rfl ?_ ?_ ?_)
    · rw [Sys.workers_modify_self]
    · rw [Sys.workers_modify_self]
    · rw [Sys.workers_modify_self]
      exact hfree
  | _ => rw [Worker.aboutToWait, hpc] at hwaits; cases hwaits

theorem exec_wakeDone (nbWorker : ℕ) (hpc : s.admin = .wakeClear i) :
    ∃ as t, exec (step nbWorker) s as = some t ∧ t.admin = .idle ∧
      ∀ j < i, t.workers j = s.workers j := by
  -- by induction on the number of workers still to be woken
  induction hn : nbWorker - i generalizing s i with
  | zero =>
    refine ⟨[.admin], { s with admin := .idle }, ?_, rfl, fun _ _ => rfl⟩
    have hle : ¬ i < nbWorker := by omega
    simp only [exec_cons, step, adminStep, hpc, if_neg hle, Option.bind_some, exec_nil]
  | succ n ih =>
    have hlt : i < nbWorker := by omega
    let u : Sys := { s.modify i ({ · with reparse := false }) with admin := .wakeSignal i }
    let v : Sys := { u.modify i signalExport with admin := .wakeClear (i + 1) }
    obtain ⟨as, t, hrun, hidle, hrest⟩ := ih (s := v) (i := i + 1) rfl (by omega)
    refine ⟨.admin :: .admin :: as, t, ?_, hidle, fun j hj => ?_⟩
    · have hu : step nbWorker s .admin = some u := by
        simp only [step, adminStep, hpc, if_pos hlt]
        rfl
      rw [exec_cons, hu]
      exact hrun
    · rw [hrest j (by omega)]
      have hne : j ≠ i := Nat.ne_of_lt hj
      have hv : v.workers j = u.workers j := Sys.workers_modify_of_ne hne
      have hu : u.workers j = s.workers j :=
        Sys.workers_modify_of_ne (s := s) (f := ({ · with reparse := false })) hne
      rw [hv, hu]

/-- **A signal that comes too early** leaves a worker that may wait for ever: the run can go on to
the end of the reload with the worker asleep and its flag cleared. -/
theorem lostSignal_strands {as : List Action} (hrun : exec (step nbWorker) init as = some s)
    (hi : i < nbWorker) (hpc : s.admin = .wakeSignal i)
    (hwaits : (s.workers i).aboutToWait = true) :
    ∃ bs t, exec (step nbWorker) init (as ++ bs) = some t ∧ t.admin = .idle ∧
      (t.workers i).pc = .waitExport ∧ (t.workers i).reparse = false := by
  have halways : Always (step nbWorker) (AllAgree nbWorker) init as :=
    always_of_step allAgree_init fun _ _ _ h hst => allAgree_step h hst
  have hagree : AllAgree nbWorker s := halways.exec hrun
  have hcleared := (hagree i hi).cleared hpc
  -- the signal does not reach the worker
  let u : Sys := { s.modify i signalExport with admin := .wakeClear (i + 1) }
  have hu : step nbWorker s .admin = some u := by
    simp only [step, adminStep, hpc]
    rfl
  have hlost : u.workers i = s.workers i := by
    have hself : u.workers i = signalExport (s.workers i) := Sys.workers_modify_self
    rw [hself, signalExport, if_neg]
    intro hwait
    rw [Worker.aboutToWait, hwait] at hwaits
    cases hwaits
  -- the worker goes to sleep, and then the reload ends
  obtain ⟨bs, v, hv, hadmin, hasleep, hflag⟩ := exec_startWait (s := u) hi
    (hlost.symm ▸ (hagree i hi).ok) (hlost.symm ▸ hwaits)
  obtain ⟨cs, t, ht, hidle, hrest⟩ := exec_wakeDone (s := v) nbWorker hadmin
  have hworker := hrest i (Nat.lt_succ_self i)
  refine ⟨.admin :: (bs ++ cs), t, ?_, hidle, ?_, ?_⟩
  · rw [exec_append, hrun, Option.bind_some, exec_cons, hu, Option.bind_some, exec_append, hv,
      Option.bind_some, ht]
  · rw [hworker, hasleep]
  · rw [hworker, hflag, hlost, hcleared]

/-- The run of the early signal, up to the signal. -/
theorem lostSignal_strands_early : ∃ bs t,
    exec (step 1) init (earlySignalRun.take 12 ++ bs) = some t ∧ t.admin = .idle ∧
      (t.workers 0).pc = .waitExport ∧ (t.workers 0).reparse = false := by
  have hearly : (exec (step 1) init (earlySignalRun.take 12)).map (fun s =>
      decide (s.admin = .wakeSignal 0 ∧ (s.workers 0).aboutToWait = true)) = some true := by
    decide +kernel
  obtain ⟨s, hs, hsignal⟩ := Option.map_eq_some_iff.mp hearly
  obtain ⟨hpc, hwaits⟩ := of_decide_eq_true hsignal
  exact lostSignal_strands hs Nat.zero_lt_one hpc hwaits

end Stranded

end CloudNfs.ExportReload
