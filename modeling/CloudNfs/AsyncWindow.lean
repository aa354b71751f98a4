import CloudNfs.MfslAsync

/-!
# The window of the asynchronous operations (`MFSL/MFSL_ASYNC/mfsl_async_synclet.c`)

An operation stays in `async_op_lru` until it is as old as the asynchronous window; the dispatcher
then hands it over to a synclet, and its entry is tagged invalid.

* `respectsWindow_iff` — this holds exactly when **the microseconds alone** are in the window for
  none of these operations, and there is memory for each.
-/

namespace CloudNfs.MfslAsync

universe u

variable {α : Type u}

/-! ### The code -/

section

variable (par : Param) (current : Timeval) (opTime : α → Timeval)

/-- The loop over the entries from the place `k` on: the entries after it, and the operations that
were handed over. `memory k` says that `LRU_new_entry` works for the synclet. -/
def dispatchLoop (memory : ℕ → Bool) : ℕ → List (LruEntry α) → List (LruEntry α) × List α
  | _, [] => ([], [])
  | k, e :: l =>
    if e.valid then
      if inWindow par current (opTime e.pdata) then (e :: l, [])
      else if memory k then
        (⟨false, e.pdata⟩ :: (dispatchLoop memory (k + 1) l).1,
          e.pdata :: (dispatchLoop memory (k + 1) l).2)
      -- `Impossible to post async operation in LRU synclet list`
      else (e :: (dispatchLoop memory (k + 1) l).1, (dispatchLoop memory (k + 1) l).2)
    else (e :: (dispatchLoop memory (k + 1) l).1, (dispatchLoop memory (k + 1) l).2)

end

structure Pass (α : Type u) where
  /-- `async_op_lru` after the loop -/
  swept : LruList α
  /-- `async_op_lru` at the end -/
  after : LruList α
  /-- `passcounter` at the end -/
  passcounter : UInt32
  handed : List α

/-- The list after the loop. Each operation that is handed over counts in `nb_invalid`. -/
def sweep (l : LruList α) (entries : List (LruEntry α)) (handed : List α) : LruList α :=
  { l with entries := entries, nbInvalid := l.nbInvalid + UInt32.ofNat handed.length }

/-- The list and `passcounter` after the loop: sometimes the list is collected. -/
def collect (par : Param) (l : LruList α) (passcounter : UInt32) : LruList α × UInt32 :=
  if par.nbBeforeGc < passcounter + 1 then ((l.gcInvalid par.nbCallGcInvalid).1, 0)
  else (l, passcounter + 1)

/-- One pass of `mfsl_async_asynchronous_dispatcher_thread`. -/
def dispatcherPass (par : Param) (current : Timeval) (opTime : α → Timeval) (memory : ℕ → Bool)
    (l : LruList α) (passcounter : UInt32) : Pass α :=
  let (entries, handed) := dispatchLoop par current opTime memory 0 l.entries
  let swept := sweep l entries handed
  let (after, passcounter) := collect par swept passcounter
  ⟨swept, after, passcounter, handed⟩

/-! ### The property -/

/-- The duration in microseconds. -/
def Timeval.micros (t : Timeval) : ℤ := t.tvSec * 1000000 + t.tvUsec

/-- A time as `gettimeofday` gives it. -/
def Timeval.Normal (t : Timeval) : Prop := 0 ≤ t.tvUsec ∧ t.tvUsec < 1000000

section

variable (par : Param) (current : Timeval) (opTime : α → Timeval)

/-- A valid operation that is at least as old as the window. -/
def Due (e : LruEntry α) : Prop :=
  e.valid = true ∧ par.asyncWindow.micros ≤ current.micros - (opTime e.pdata).micros

instance : DecidablePred (Due par current opTime) := fun e =>
  inferInstanceAs (Decidable (e.valid = true ∧
    par.asyncWindow.micros ≤ current.micros - (opTime e.pdata).micros))

/-- The operations that are due. -/
def dueData (l : List (LruEntry α)) : List α :=
  (l.filter fun e => Due par current opTime e).map (·.pdata)

def tagDue (l : List (LruEntry α)) : List (LruEntry α) :=
  l.map fun e => if Due par current opTime e then ⟨false, e.pdata⟩ else e

/-- **The window is respected** by a pass over the list. -/
structure RespectsWindow (l : LruList α) (p : Pass α) : Prop where
  /-- what is handed over is what is due, in its order -/
  handed : p.handed = dueData par current opTime l.entries
  /-- after the loop it is invalid, and the other entries are as they were -/
  swept : p.swept.entries = tagDue par current opTime l.entries
  /-- in the end the valid operations are those that were not due, in their order -/
  after : p.after.validData =
    (l.entries.filter fun e => e.valid ∧ ¬ Due par current opTime e).map (·.pdata)
  subset : p.after.entries ⊆ p.swept.entries

def Chronological (l : List (LruEntry α)) : Prop :=
  l.Pairwise fun e e' => (opTime e.pdata).micros ≤ (opTime e'.pdata).micros

end

/-! ### The loop -/

section

variable {par : Param} {current : Timeval} {opTime : α → Timeval} {memory : ℕ → Bool} {k : ℕ}
  {l : List (LruEntry α)} {e : LruEntry α} {t : Timeval}

theorem tvUsec_timersub {a b : Timeval} (ha : a.Normal) (hb : b.Normal) :
    (timersub a b).tvUsec = (a.tvUsec - b.tvUsec) % 1000000 := by
  obtain ⟨ha, ha'⟩ := ha
  obtain ⟨hb, hb'⟩ := hb
  rw [timersub]
  split
  · dsimp only
    omega
  · dsimp only
    omega

theorem micros_timersub (a b : Timeval) : (timersub a b).micros = a.micros - b.micros := by
  simp only [timersub, Timeval.micros]
  split
  · dsimp only
    omega
  · dsimp only
    omega

theorem le_age_of_not_inWindow (h : ¬ inWindow par current t = true) :
    par.asyncWindow.micros ≤ current.micros - t.micros := by
  simp only [inWindow, Bool.or_eq_true, decide_eq_true_eq, not_or, not_lt] at h
  rw [← micros_timersub]
  simp only [Timeval.micros]
  omega

theorem inWindow_iff (hwindow : 0 ≤ par.asyncWindow.tvUsec) (hcurrent : current.Normal)
    (ht : t.Normal) (hold : par.asyncWindow.micros ≤ current.micros - t.micros) :
    inWindow par current t = true ↔
      (current.tvUsec - t.tvUsec) % 1000000 < par.asyncWindow.tvUsec := by
  rw [← tvUsec_timersub hcurrent ht, inWindow, Bool.or_eq_true, decide_eq_true_eq,
    decide_eq_true_eq, or_iff_right_iff_imp]
  intro hsec
  have hmicros := micros_timersub current t
  have husec : (timersub current t).tvUsec < 1000000 := by
    rw [tvUsec_timersub hcurrent ht]
    exact Int.emod_lt_of_pos _ (by decide)
  simp only [Timeval.micros] at hmicros hold
  omega

/-- Each operation that is due is handed over when the dispatcher comes to it. -/
def Reached (par : Param) (current : Timeval) (opTime : α → Timeval) (memory : ℕ → Bool) (k : ℕ)
    (l : List (LruEntry α)) : Prop :=
  ∀ j e, l[j]? = some e → Due par current opTime e →
    ¬ inWindow par current (opTime e.pdata) = true ∧ memory (k + j) = true

theorem Reached.tail (h : Reached par current opTime memory k (e :: l)) :
    Reached par current opTime memory (k + 1) l := by
  intro j e' he' hdue
  have := h (j + 1) e' he' hdue
  rwa [Nat.add_right_comm, Nat.add_assoc] at *

theorem tagDue_eq_self (h : ∀ e ∈ l, ¬ Due par current opTime e) :
    tagDue par current opTime l = l := by
  rw [tagDue]
  conv_rhs => rw [← List.map_id l]
  exact List.map_congr_left fun e he => if_neg (h e he)

theorem dueData_eq_nil (h : ∀ e ∈ l, ¬ Due par current opTime e) :
    dueData par current opTime l = [] := by
  rw [dueData, List.filter_eq_nil_iff.mpr]
  · rfl
  · intro e he
    simpa using h e he

/-- **The loop hands over what is due** when it comes to each of these operations. Where it stops,
nothing later is due, for what is later is younger. -/
theorem dispatchLoop_of_reached (hchrono : Chronological opTime l)
    (h : Reached par current opTime memory k l) :
    dispatchLoop par current opTime memory k l =
      (tagDue par current opTime l, dueData par current opTime l) := by
  induction l generalizing k with
  | nil => rfl
  | cons e l ih =>
    obtain ⟨hlater, hchrono'⟩ := List.pairwise_cons.mp hchrono
    have ih' := ih hchrono' h.tail
    have hhead := h 0 e rfl
    rw [dispatchLoop]
    by_cases hdue : Due par current opTime e
    · obtain ⟨hold, hmemory⟩ := hhead hdue
      rw [Nat.add_zero] at hmemory
      rw [if_pos hdue.1, if_neg hold, if_pos hmemory, ih']
      simp [tagDue, dueData, hdue]
    have hcons : (e :: tagDue par current opTime l, dueData par current opTime l) =
        (tagDue par current opTime (e :: l), dueData par current opTime (e :: l)) := by
      simp [tagDue, dueData, hdue]
    by_cases hvalid : e.valid = true
    · rw [if_pos hvalid]
      by_cases hyoung : inWindow par current (opTime e.pdata) = true
      · have hnone : ∀ x ∈ e :: l, ¬ Due par current opTime x := by
          intro x hx hxdue
          rcases List.mem_cons.mp hx with rfl | hx
          · exact hdue hxdue
          · have hle := hlater x hx
            exact hdue ⟨hvalid, hxdue.2.trans (by omega)⟩
        rw [if_pos hyoung, tagDue_eq_self hnone, dueData_eq_nil hnone]
      · exact absurd ⟨hvalid, le_age_of_not_inWindow hyoung⟩ hdue
    · rw [if_neg hvalid, ih', hcons]

theorem reached_of_dispatchLoop
    (h : (dispatchLoop par current opTime memory k l).1 = tagDue par current opTime l) :
    Reached par current opTime memory k l := by
  induction l generalizing k with
  | nil => exact nofun
  | cons e l ih =>
    have htag : tagDue par current opTime (e :: l) =
        (if Due par current opTime e then ⟨false, e.pdata⟩ else e) ::
          tagDue par current opTime l := rfl
    -- an entry that is left as it is is not due
    have hkept : e = (if Due par current opTime e then ⟨false, e.pdata⟩ else e) →
        ¬ Due par current opTime e := by
      intro heq hdue
      rw [if_pos hdue] at heq
      have hvalid := hdue.1
      rw [heq] at hvalid
      cases hvalid
    have hcons : (Due par current opTime e →
        ¬ inWindow par current (opTime e.pdata) = true ∧ memory k = true) →
        Reached par current opTime memory (k + 1) l →
        Reached par current opTime memory k (e :: l) := by
      rintro hhead htail (_ | j) e' he' hdue
      · cases he'
        exact hhead hdue
      · have := htail j e' he' hdue
        rwa [Nat.add_right_comm, Nat.add_assoc] at this
    rw [dispatchLoop, htag] at h
    split at h
    next hvalid =>
      split at h
      next hyoung =>
        obtain ⟨heq, htail⟩ := List.cons.inj h
        -- nothing in the rest is due
        have hnone : ∀ x ∈ l, ¬ Due par current opTime x := by
          intro x hx hdue
          obtain ⟨j, hj⟩ := List.mem_iff_getElem?.mp hx
          have htagged := congrArg (fun l => l[j]?) htail
          simp only [tagDue, List.getElem?_map, hj, Option.map_some, if_pos hdue] at htagged
          have hvalid' := hdue.1
          rw [Option.some.inj htagged] at hvalid'
          cases hvalid'
        rintro (_ | j) e' he' hdue
        · cases he'
          exact absurd hdue (hkept heq)
        · exact absurd hdue (hnone e' (List.mem_of_getElem? he'))
      next hold =>
        split at h
        next hmemory =>
          exact hcons (fun _ => ⟨hold, hmemory⟩) (ih (List.cons.inj h).2)
        next =>
          obtain ⟨heq, htail⟩ := List.cons.inj h
          exact hcons (fun hdue => absurd hdue (hkept heq)) (ih htail)
    next =>
      obtain ⟨heq, htail⟩ := List.cons.inj h
      exact hcons (fun hdue => absurd hdue (hkept heq)) (ih htail)

/-! ### The pass -/

variable {memory : ℕ → Bool} {lru : LruList α} {passcounter : UInt32}

theorem collect_keeps (par : Param) (passcounter : UInt32) (l : LruList α) :
    (collect par l passcounter).1.validData = l.validData ∧
      (collect par l passcounter).1.entries ⊆ l.entries := by
  rw [collect]
  split
  · exact ⟨LruList.validData_gcInvalid, LruList.entries_gcInvalid_subset⟩
  · exact ⟨rfl, List.Subset.refl _⟩

theorem validData_tagDue :
    ((tagDue par current opTime l).filter (·.valid)).map (·.pdata) =
      (l.filter fun e => e.valid ∧ ¬ Due par current opTime e).map (·.pdata) := by
  induction l with
  | nil => rfl
  | cons e l ih =>
    have htag : tagDue par current opTime (e :: l) =
        (if Due par current opTime e then ⟨false, e.pdata⟩ else e) ::
          tagDue par current opTime l := rfl
    rw [htag]
    by_cases hdue : Due par current opTime e
    · rw [if_pos hdue, List.filter_cons_of_neg Bool.false_ne_true, ih, List.filter_cons_of_neg]
      simp [hdue]
    rw [if_neg hdue]
    by_cases hvalid : e.valid = true
    · rw [List.filter_cons_of_pos hvalid, List.filter_cons_of_pos (by simp [hvalid, hdue]),
        List.map_cons, List.map_cons, ih]
    · rw [List.filter_cons_of_neg hvalid, List.filter_cons_of_neg (by simp [hvalid]), ih]

/-- **The asynchronous window is respected** by a pass over a list in chronological order exactly
when each valid operation that is at least as old as the window has an age whose microseconds
alone are at least those of the window, and there is memory to hand it over. -/
theorem respectsWindow_iff (par : Param) (current : Timeval) (opTime : α → Timeval)
    (memory : ℕ → Bool) (l : LruList α) (passcounter : UInt32)
    (hwindow : 0 ≤ par.asyncWindow.tvUsec) (hcurrent : current.Normal)
    (hnormal : ∀ e ∈ l.entries, (opTime e.pdata).Normal)
    (hchrono : Chronological opTime l.entries) :
    RespectsWindow par current opTime l
        (dispatcherPass par current opTime memory l passcounter) ↔
      ∀ k e, l.entries[k]? = some e → Due par current opTime e →
        par.asyncWindow.tvUsec ≤ (current.tvUsec - (opTime e.pdata).tvUsec) % 1000000 ∧
          memory k = true := by
  have hreached : Reached par current opTime memory 0 l.entries ↔
      ∀ k e, l.entries[k]? = some e → Due par current opTime e →
        par.asyncWindow.tvUsec ≤ (current.tvUsec - (opTime e.pdata).tvUsec) % 1000000 ∧
          memory k = true := by
    refine forall_congr' fun k => forall_congr' fun e => forall_congr' fun he =>
      forall_congr' fun hdue => ?_
    have ht := hnormal e (List.mem_of_getElem? he)
    rw [inWindow_iff hwindow hcurrent ht hdue.2, not_lt, Nat.zero_add]
  rw [← hreached]
  constructor
  · intro h
    apply reached_of_dispatchLoop
    exact h.swept
  · intro h
    have hloop := dispatchLoop_of_reached hchrono h
    have hswept : (dispatcherPass par current opTime memory l passcounter).swept.entries =
        tagDue par current opTime l.entries := congrArg Prod.fst hloop
    obtain ⟨hafter, hsubset⟩ := collect_keeps par passcounter
      (dispatcherPass par current opTime memory l passcounter).swept
    refine ⟨congrArg Prod.snd hloop, hswept, ?_, hsubset⟩
    rw [← validData_tagDue, ← hswept]
    exact hafter

end

/-- Two operations at least as old as a window of one second, and one that is not. -/
def threeOps : LruList Timeval :=
  ⟨[⟨true, ⟨5, 999999⟩⟩, ⟨true, ⟨8, 0⟩⟩, ⟨true, ⟨9, 300000⟩⟩], 3, 0, 3⟩

theorem normal_threeOps : ∀ e ∈ threeOps.entries, (id e.pdata : Timeval).Normal := by
  simp [threeOps, Timeval.Normal]

theorem chronological_threeOps : Chronological id threeOps.entries := by
  simp [Chronological, threeOps, Timeval.micros]

def halfSecondParam : Param := ⟨50, 1, ⟨1, 500000⟩, 500, 30⟩

/-- A window of one second. -/
def oneSecondParam : Param := ⟨50, 1, ⟨1, 0⟩, 500, 30⟩

/-- A window of whole seconds is respected. -/
theorem respectsWindow_threeOps : RespectsWindow oneSecondParam ⟨10, 200000⟩ id threeOps
    (dispatcherPass oneSecondParam ⟨10, 200000⟩ id (fun _ => true) threeOps 0) := by
  refine (respectsWindow_iff oneSecondParam ⟨10, 200000⟩ id (fun _ => true) threeOps 0
    (by decide) ⟨by decide, by decide⟩ normal_threeOps chronological_threeOps).mpr ?_
  intro k e _ _
  exact ⟨Int.emod_nonneg _ (by decide), rfl⟩

/-- **The slip**: with a window of 1.5 seconds an operation that is 2.2 seconds old is left, for
0.2 seconds are less than 0.5, and so is the older one behind which the loop does not come. -/
theorem not_respectsWindow : ¬ ∀ (par : Param) (current : Timeval) (opTime : Timeval → Timeval)
    (l : LruList Timeval) (passcounter : UInt32), 0 ≤ par.asyncWindow.tvUsec → current.Normal →
    (∀ e ∈ l.entries, (opTime e.pdata).Normal) → Chronological opTime l.entries →
    RespectsWindow par current opTime l
      (dispatcherPass par current opTime (fun _ => true) l passcounter) := by
  intro h
  have hrespects := h halfSecondParam ⟨10, 200000⟩ id threeOps 0 (by decide)
    ⟨by decide, by decide⟩ normal_threeOps chronological_threeOps
  exact absurd hrespects.handed (by decide)

/-! ### The dispatcher of the server -/

section

variable {par : Param} {s t : Server} {current : Timeval}

theorem eq_of_exec_sleep {n : ℕ} (hsleep : s.dispatcher = .sleep)
    (hrun : exec (step par) s (List.replicate n .dispatcher) = some t) : t = s := by
  cases n with
  | zero => exact (Option.some.inj hrun).symm
  | succ n =>
    have hnone : step par s .dispatcher = none := by
      simp only [step, dispatcherStep, hsleep]
    rw [List.replicate_succ, exec_cons, hnone] at hrun
    cases hrun

/-- What the steps of the dispatcher from an entry on have done when it leaves its section. -/
structure Walked (par : Param) (current : Timeval) (s : Server) (k : ℕ) (t : Server) : Prop where
  /-- the list and `passcounter` -/
  opLru : (t.opLru, t.passcounter) =
    collect par (sweep s.opLru
      (s.opLru.entries.take k ++ (dispatchLoop par current (fun r => (s.desc r.addr).opTime)
        (fun _ => true) k (s.opLru.entries.drop k)).1)
      (dispatchLoop par current (fun r => (s.desc r.addr).opTime) (fun _ => true) k
        (s.opLru.entries.drop k)).2) s.passcounter
  given : t.given = s.given ++ ((dispatchLoop par current (fun r => (s.desc r.addr).opTime)
    (fun _ => true) k (s.opLru.entries.drop k)).2).map (·.posting)

theorem Walked.done {k : ℕ} (h : dispatchLoop par current (fun r => (s.desc r.addr).opTime)
      (fun _ => true) k (s.opLru.entries.drop k) = (s.opLru.entries.drop k, [])) :
    Walked par current s k (dispatcherEnd par s) := by
  have hsweep : sweep s.opLru (s.opLru.entries.take k ++ s.opLru.entries.drop k) [] = s.opLru := by
    rw [List.take_append_drop, sweep]
    exact congrArg (fun n => { s.opLru with nbInvalid := n }) (UInt32.add_zero _)
  constructor
  · rw [h, hsweep, collect, dispatcherEnd]
    split <;> rfl
  · rw [h, dispatcherEnd]
    split <;> simp

theorem walked_of_steps {n : ℕ} {k : ℕ} (hpc : s.dispatcher = .walk k current)
    (hrun : exec (step par) s (List.replicate n .dispatcher) = some t)
    (hsleep : t.dispatcher = .sleep) : Walked par current s k t := by
  induction n generalizing s k with
  | zero =>
    cases hrun
    rw [hpc] at hsleep
    cases hsleep
  | succ n ih =>
    rw [List.replicate_succ, exec_cons] at hrun
    obtain ⟨s1, hstep, hrun⟩ := Option.bind_eq_some_iff.mp hrun
    have hend : ∀ s2, s2 = dispatcherEnd par s → s2.dispatcher = .sleep := by
      rintro _ rfl
      rw [dispatcherEnd]
      split <;> rfl
    simp only [step, dispatcherStep, hpc] at hstep
    cases he : s.opLru.entries[k]? with
    | none =>
      simp only [he] at hstep
      cases hstep
      rw [eq_of_exec_sleep (hend _ rfl) hrun]
      apply Walked.done
      rw [List.drop_of_length_le (List.getElem?_eq_none_iff.mp he)]
      rfl
    | some e =>
      have hdrop : s.opLru.entries.drop k = e :: s.opLru.entries.drop (k + 1) := by
        obtain ⟨hlt, rfl⟩ := List.getElem?_eq_some_iff.mp he
        exact List.drop_eq_getElem_cons hlt
      have htake : s.opLru.entries.take (k + 1) = s.opLru.entries.take k ++ [e] := by
        rw [List.take_add_one, he]
        rfl
      simp only [he] at hstep
      split at hstep
      next hvalid =>
        split at hstep
        next hyoung =>
          cases hstep
          rw [eq_of_exec_sleep (hend _ rfl) hrun]
          apply Walked.done
          rw [hdrop, dispatchLoop, if_pos hvalid, if_pos hyoung]
        rename_i hold
        obtain ⟨c, -, rfl⟩ := Option.map_eq_some_iff.mp hstep
        obtain ⟨hopLru, hgiven⟩ := ih rfl hrun
        have hlt : k < s.opLru.entries.length := (List.getElem?_eq_some_iff.mp he).1
        have hinvalidate : s.opLru.invalidate k =
            { s.opLru with
              entries := s.opLru.entries.set k ⟨false, e.pdata⟩
              nbInvalid := s.opLru.nbInvalid + 1 } := by
          simp only [LruList.invalidate, he, if_pos hvalid]
        have htake' : (s.opLru.entries.set k ⟨false, e.pdata⟩).take (k + 1) =
            s.opLru.entries.take k ++ [⟨false, e.pdata⟩] := by
          rw [List.take_add_one, List.take_set_of_le (Nat.le_refl k),
            List.getElem?_set_self hlt]
          rfl
        have hdrop' : (s.opLru.entries.set k ⟨false, e.pdata⟩).drop (k + 1) =
            s.opLru.entries.drop (k + 1) :=
          List.drop_set_of_lt (Nat.lt_succ_self k)
        have hcount : ∀ m : ℕ, s.opLru.nbInvalid + 1 + UInt32.ofNat m =
            s.opLru.nbInvalid + UInt32.ofNat (m + 1) := by
          intro m
          rw [UInt32.ofNat_add, UInt32.add_assoc, UInt32.add_comm 1]
          rfl
        simp only [giveTo, Server.modify, hinvalidate, htake', hdrop'] at hopLru hgiven
        constructor
        · rw [hopLru, hdrop, dispatchLoop, if_pos hvalid, if_neg hold, if_pos rfl]
          simp only [sweep, List.length_cons, hcount, List.append_assoc, List.singleton_append]
        · rw [hgiven, hdrop, dispatchLoop, if_pos hvalid, if_neg hold, if_pos rfl, List.map_cons,
            List.append_assoc]
          rfl
      next hinvalid =>
        cases hstep
        obtain ⟨hopLru, hgiven⟩ := ih rfl hrun
        constructor
        · rw [hopLru]
          dsimp only
          rw [hdrop, dispatchLoop, if_neg hinvalid, htake, List.append_assoc]
          rfl
        · rw [hgiven]
          dsimp only
          rw [hdrop, dispatchLoop, if_neg hinvalid]

/-- **The pass is what the dispatcher does** from its first entry on until it leaves its section,
with memory at every entry. -/
theorem dispatcherPass_of_steps {n : ℕ} (hpc : s.dispatcher = .walk 0 current)
    (hrun : exec (step par) s (List.replicate n .dispatcher) = some t)
    (hsleep : t.dispatcher = .sleep) :
    let p := dispatcherPass par current (fun r => (s.desc r.addr).opTime) (fun _ => true) s.opLru
      s.passcounter
    t.opLru = p.after ∧ t.passcounter = p.passcounter ∧
      t.given = s.given ++ p.handed.map (·.posting) := by
  obtain ⟨hopLru, hgiven⟩ := walked_of_steps hpc hrun hsleep
  exact ⟨congrArg Prod.fst hopLru, congrArg Prod.snd hopLru, hgiven⟩

end

/-- An operation is posted, and the dispatcher wakes up. -/
theorem dispatcherPass_of_steps_onePosted : ∃ s t, exec (step oneSecondParam) init
      [.prepare 0 [1, 2] ⟨0, 0⟩ true, .post 0, .wake ⟨2, 0⟩] = some s ∧
    exec (step oneSecondParam) s (List.replicate 2 .dispatcher) = some t ∧
    t.given = s.given ++ (dispatcherPass oneSecondParam ⟨2, 0⟩ (fun r => (s.desc r.addr).opTime)
      (fun _ => true) s.opLru s.passcounter).handed.map (·.posting) := by
  have hrun : ((exec (step oneSecondParam) init
      [.prepare 0 [1, 2] ⟨0, 0⟩ true, .post 0, .wake ⟨2, 0⟩]).bind fun s =>
        (exec (step oneSecondParam) s (List.replicate 2 .dispatcher)).map fun t =>
          decide (s.dispatcher = .walk 0 ⟨2, 0⟩ ∧ t.dispatcher = .sleep)) = some true := by
    decide +kernel
  obtain ⟨s, hs, hrun⟩ := Option.bind_eq_some_iff.mp hrun
  obtain ⟨t, ht, hpcs⟩ := Option.map_eq_some_iff.mp hrun
  obtain ⟨hpc, hsleep⟩ := of_decide_eq_true hpcs
  exact ⟨s, t, hs, ht, (dispatcherPass_of_steps hpc ht hsleep).2.2⟩

end CloudNfs.MfslAsync
