import CloudNfs.Run

/-!
# The counting semaphore (`SemN/SemN.c`)

One `semaphore_t`, any finite number of threads. A stretch of code executed under the mutex is
one action; a thread in `pthread_cond_wait` is asleep until a signal reaches it, and tests again
when it resumes.

`semaphore_P` takes its token off the count before it waits, and waits while the count is
negative. So a thread that was signalled only leaves when no other one is to wait: with two
threads asleep, the token of a `semaphore_V` wakes one of them, which goes back to sleep.

* No more calls of `semaphore_P` are completed than there are tokens (`completed_le_run`).
* No token is lost in the runs in which no thread goes back to sleep while there are
  as many threads asleep as the count says (`keepsTokens_of_resumesFar`).
-/

namespace CloudNfs

namespace Semaphore

universe u

/-! ## The code -/

/-- Where a thread is. -/
inductive Place where
  | out
  /-- in the wait of `semaphore_P` -/
  | asleep
  /-- there too, and a signal has reached it -/
  | woken
  deriving DecidableEq

/-- The value of an `int` after a computation. -/
def toInt (x : ℤ) : ℤ := x.bmod (2 ^ 32)

/-- A semaphore, the threads that use it, and what they have done so far. -/
structure Sys (T : Type u) where
  count : ℤ
  /-- calls of `semaphore_P` -/
  begun : ℕ
  /-- calls of `semaphore_P` that are completed -/
  completed : ℕ
  /-- calls of `semaphore_V` -/
  posted : ℕ
  pc : T → Place

variable {T : Type u}

/-- `semaphore_init` has run and no thread has come yet. -/
def Sys.init (n : ℕ) : Sys T := ⟨n, 0, 0, 0, fun _ => .out⟩

inductive Action (T : Type u) where
  /-- call of `semaphore_P` -/
  | p (t : T)
  /-- return of the wait of `semaphore_P` -/
  | resume (t : T)
  /-- call of `semaphore_V`; the thread that a signal wakes, if there is one -/
  | v (t : T) (woken : Option T)

variable [Fintype T] [DecidableEq T]

/-- The test of the `while` of `semaphore_P`: wait, or return. -/
def Sys.test (s : Sys T) (t : T) : Sys T :=
  if s.count < 0 then { s with pc := Function.update s.pc t .asleep }
  else { s with completed := s.completed + 1, pc := Function.update s.pc t .out }

/-- `semaphore_P` up to its wait or its end. -/
def Sys.semaphoreP (s : Sys T) (t : T) : Sys T :=
  { s with count := toInt (s.count - 1), begun := s.begun + 1 : Sys T }.test t

/-- `pthread_cond_signal`: it wakes one of the threads asleep, if there is one. -/
def Sys.signal (s : Sys T) (woken : Option T) : Option (Sys T) :=
  match woken with
  | some u =>
    if s.pc u = .asleep then some { s with pc := Function.update s.pc u .woken } else none
  | none => if ∀ u, s.pc u ≠ .asleep then some s else none

def Sys.semaphoreV (s : Sys T) (woken : Option T) : Option (Sys T) :=
  let s : Sys T := { s with count := toInt (s.count + 1), posted := s.posted + 1 }
  if s.count ≤ 0 then s.signal woken else if woken = none then some s else none

def step (s : Sys T) : Action T → Option (Sys T)
  | .p t => if s.pc t = .out then some (s.semaphoreP t) else none
  | .resume t => if s.pc t = .woken then some (s.test t) else none
  | .v t woken => if s.pc t = .out then s.semaphoreV woken else none

/-! ## The contract -/

/-- The thread is inside `semaphore_P`. -/
def Place.isInside : Place → Bool
  | .out => false
  | _ => true

def Place.isAsleep : Place → Bool
  | .asleep => true
  | _ => false

/-- **No token is lost**, for a semaphore that began with `n`. -/
structure KeepsTokens (n : ℕ) (s : Sys T) : Prop where
  /-- no more calls are completed than there are tokens -/
  safe : s.completed ≤ n + s.posted
  /-- it is not so that every thread inside is asleep, although there are a call to complete and a
  token for it -/
  live : ¬ ((∀ t, (s.pc t).isInside = true → s.pc t = .asleep) ∧ s.completed < s.begun ∧
    s.completed < n + s.posted)

/-- The count does not leave the range of an `int`. -/
def InRange (s : Sys T) : Action T → Prop
  | .p _ => -2 ^ 31 ≤ s.count - 1
  | .resume _ => True
  | .v .. => s.count + 1 < 2 ^ 31

/-- A thread that resumes does not go back to sleep while as many threads are asleep as the count
says. -/
def ResumesFar (s : Sys T) : Action T → Prop
  | .resume _ => 0 ≤ s.count ∨ s.count + countThreads Place.isAsleep s.pc < 0
  | _ => True

instance (s : Sys T) : ∀ a, Decidable (InRange s a)
  | .p _ => inferInstanceAs (Decidable (_ ≤ _))
  | .resume _ => isTrue trivial
  | .v .. => inferInstanceAs (Decidable (_ < _))

instance (s : Sys T) : ∀ a, Decidable (ResumesFar s a)
  | .resume _ => inferInstanceAs (Decidable (_ ∨ _))
  | .p _ => isTrue trivial
  | .v .. => isTrue trivial

/-! ## What one action does to the counts -/

/-- **The counts**: the count of the semaphore is what is left of the tokens, and there are as many
threads inside as calls that are not completed, at least as many as the count says. -/
structure Counted (n : ℕ) (s : Sys T) : Prop where
  count : s.count = n + s.posted - s.begun
  /-- it is an `int` -/
  range : -2 ^ 31 ≤ s.count ∧ s.count < 2 ^ 31
  inside : s.begun = s.completed + countThreads Place.isInside s.pc
  safe : 0 ≤ s.count + countThreads Place.isInside s.pc

variable {n : ℕ} {s s' : Sys T}

omit [DecidableEq T] in
theorem counted_init (hn : (n : ℤ) < 2 ^ 31) : Counted n (Sys.init n : Sys T) where
  count := by simp [Sys.init]
  range := ⟨by simp [Sys.init], hn⟩
  inside := by simp [Sys.init, countThreads, Place.isInside]
  safe := by simp [Sys.init, countThreads, Place.isInside]

theorem toInt_of_range {x : ℤ} (hlow : -2 ^ 31 ≤ x) (hhigh : x < 2 ^ 31) : toInt x = x := by
  refine Int.bmod_eq_of_le ?_ ?_
  · simpa using hlow
  · simpa using hhigh

theorem test_cases (s : Sys T) (t : T) (hpc : s.pc t ≠ .asleep) :
    (s.count < 0 ∧ (s.test t).count = s.count ∧ (s.test t).begun = s.begun ∧
      (s.test t).posted = s.posted ∧ (s.test t).completed = s.completed ∧
      countThreads Place.isInside (s.test t).pc + (if (s.pc t).isInside then 1 else 0) =
        countThreads Place.isInside s.pc + 1 ∧
      countThreads Place.isAsleep (s.test t).pc = countThreads Place.isAsleep s.pc + 1) ∨
    (0 ≤ s.count ∧ (s.test t).count = s.count ∧ (s.test t).begun = s.begun ∧
      (s.test t).posted = s.posted ∧ (s.test t).completed = s.completed + 1 ∧
      countThreads Place.isInside (s.test t).pc + (if (s.pc t).isInside then 1 else 0) =
        countThreads Place.isInside s.pc ∧
      countThreads Place.isAsleep (s.test t).pc = countThreads Place.isAsleep s.pc) := by
  have hawake : (s.pc t).isAsleep = false := by
    cases h : s.pc t <;> first | rfl | exact absurd h hpc
  by_cases hcount : s.count < 0
  · have hin := countThreads_update Place.isInside s.pc t .asleep
    have hsleep := countThreads_update Place.isAsleep s.pc t .asleep
    rw [hawake] at hsleep
    refine .inl ⟨hcount, ?_⟩
    rw [Sys.test, if_pos hcount]
    exact ⟨rfl, rfl, rfl, rfl, hin, hsleep⟩
  · have hin := countThreads_update Place.isInside s.pc t .out
    have hsleep := countThreads_update Place.isAsleep s.pc t .out
    rw [hawake] at hsleep
    refine .inr ⟨by omega, ?_⟩
    rw [Sys.test, if_neg hcount]
    exact ⟨rfl, rfl, rfl, rfl, hin, hsleep⟩

/-- **What a call of `semaphore_V` does**: with a count that is still negative or zero, one of the
threads asleep is woken, if there is one. -/
theorem semaphoreV_cases {woken : Option T} (h : s.semaphoreV woken = some s') :
    s'.count = toInt (s.count + 1) ∧ s'.begun = s.begun ∧ s'.posted = s.posted + 1 ∧
      s'.completed = s.completed ∧
      countThreads Place.isInside s'.pc = countThreads Place.isInside s.pc ∧
      (countThreads Place.isAsleep s'.pc + 1 = countThreads Place.isAsleep s.pc ∨
        countThreads Place.isAsleep s'.pc = countThreads Place.isAsleep s.pc ∧
          (0 < s'.count ∨ countThreads Place.isAsleep s.pc = 0)) := by
  simp only [Sys.semaphoreV] at h
  split at h
  · cases woken with
    | none =>
      obtain ⟨hnone, h⟩ := Option.ite_none_right_eq_some.mp h
      cases h
      have hzero : countThreads Place.isAsleep s.pc = 0 := by
        by_contra hne
        obtain ⟨u, hu⟩ := countThreads_pos.mp (Nat.pos_of_ne_zero hne)
        have hasleep : s.pc u = .asleep := by
          cases hpc : s.pc u <;> first | rfl | (rw [hpc] at hu; cases hu)
        exact hnone u hasleep
      exact ⟨rfl, rfl, rfl, rfl, rfl, .inr ⟨rfl, .inr hzero⟩⟩
    | some u =>
      obtain ⟨hu, h⟩ := Option.ite_none_right_eq_some.mp h
      cases h
      replace hu : s.pc u = .asleep := hu
      have hin := countThreads_update Place.isInside s.pc u .woken
      have hsleep := countThreads_update Place.isAsleep s.pc u .woken
      rw [hu] at hin hsleep
      exact ⟨rfl, rfl, rfl, rfl, Nat.add_right_cancel hin, .inl hsleep⟩
  · next hpos =>
    obtain ⟨-, h⟩ := Option.ite_none_right_eq_some.mp h
    cases h
    exact ⟨rfl, rfl, rfl, rfl, rfl, .inr ⟨rfl, .inl (by simpa using hpos)⟩⟩

/-- **A step** keeps the count of the threads. -/
theorem counted_step {a : Action T} (hs : Counted n s) (h : step s a = some s')
    (hrange : InRange s a) : Counted n s' := by
  obtain ⟨hcount, hint, hinside, hsafe⟩ := hs
  cases a with
  | p t =>
    obtain ⟨hpc, h⟩ := Option.ite_none_right_eq_some.mp h
    cases h
    have hint' : toInt (s.count - 1) = s.count - 1 := toInt_of_range hrange (by omega)
    rcases test_cases { s with count := toInt (s.count - 1), begun := s.begun + 1 } t
      (by simp [hpc]) with ⟨hneg, h1, h2, h3, h4, h5, -⟩ | ⟨hneg, h1, h2, h3, h4, h5, -⟩
    · simp only [hpc, Place.isInside, Bool.false_eq_true, if_false, hint'] at hneg h1 h2 h3 h4 h5
      have hrange' : -2 ^ 31 ≤ s.count - 1 := hrange
      constructor <;> simp only [Sys.semaphoreP, hint'] <;> omega
    · simp only [hpc, Place.isInside, Bool.false_eq_true, if_false, hint'] at hneg h1 h2 h3 h4 h5
      have hrange' : -2 ^ 31 ≤ s.count - 1 := hrange
      constructor <;> simp only [Sys.semaphoreP, hint'] <;> omega
  | resume t =>
    obtain ⟨hpc, h⟩ := Option.ite_none_right_eq_some.mp h
    cases h
    rcases test_cases s t (by simp [hpc]) with
      ⟨hneg, h1, h2, h3, h4, h5, -⟩ | ⟨hneg, h1, h2, h3, h4, h5, -⟩
    · simp only [hpc, Place.isInside, if_true] at h5
      constructor <;> omega
    · simp only [hpc, Place.isInside, if_true] at h5
      constructor <;> omega
  | v t woken =>
    obtain ⟨-, h⟩ := Option.ite_none_right_eq_some.mp h
    obtain ⟨h1, h2, h3, h4, h5, -⟩ := semaphoreV_cases h
    have hrange' : s.count + 1 < 2 ^ 31 := hrange
    have hint' : toInt (s.count + 1) = s.count + 1 := toInt_of_range (by omega) hrange'
    rw [hint'] at h1
    constructor <;> omega

/-- If threads are asleep, there are no more of them than the count says. -/
def Far (s : Sys T) : Prop :=
  0 < countThreads Place.isAsleep s.pc → s.count + countThreads Place.isAsleep s.pc ≤ 0

/-- **No more threads fall asleep than the count says**, if a thread that resumes leaves them
room. -/
theorem far_step {a : Action T} (hs : Counted n s) (hfar : Far s) (h : step s a = some s')
    (hrange : InRange s a) (hresume : ResumesFar s a) : Far s' := by
  have hint := hs.range
  simp only [Far] at hfar ⊢
  cases a with
  | p t =>
    obtain ⟨hpc, h⟩ := Option.ite_none_right_eq_some.mp h
    cases h
    have hint' : toInt (s.count - 1) = s.count - 1 := toInt_of_range hrange (by omega)
    rcases test_cases { s with count := toInt (s.count - 1), begun := s.begun + 1 } t
      (by simp [hpc]) with ⟨hneg, h1, -, -, -, -, h6⟩ | ⟨hneg, h1, -, -, -, -, h6⟩
    · simp only [hint'] at hneg h1 h6
      simp only [Sys.semaphoreP, hint']
      omega
    · simp only [hint'] at hneg h1 h6
      simp only [Sys.semaphoreP, hint']
      omega
  | resume t =>
    obtain ⟨hpc, h⟩ := Option.ite_none_right_eq_some.mp h
    cases h
    have hroom : 0 ≤ s.count ∨ s.count + countThreads Place.isAsleep s.pc < 0 := hresume
    rcases test_cases s t (by simp [hpc]) with
      ⟨hneg, h1, -, -, -, -, h6⟩ | ⟨hneg, h1, -, -, -, -, h6⟩
    · omega
    · omega
  | v t woken =>
    obtain ⟨-, h⟩ := Option.ite_none_right_eq_some.mp h
    obtain ⟨h1, -, -, -, -, hsignal⟩ := semaphoreV_cases h
    have hrange' : s.count + 1 < 2 ^ 31 := hrange
    have hint' : toInt (s.count + 1) = s.count + 1 := toInt_of_range (by omega) hrange'
    omega

omit [DecidableEq T] in
theorem Counted.completed_le (hs : Counted n s) : s.completed ≤ n + s.posted := by
  have hcount := hs.count
  have hinside := hs.inside
  have hsafe := hs.safe
  omega

omit [DecidableEq T] in
theorem Counted.keepsTokens (hs : Counted n s) (hfar : Far s) : KeepsTokens n s where
  safe := hs.completed_le
  live := by
    rintro ⟨hasleep, hbegun, htoken⟩
    -- the threads inside are those asleep
    have hsame : countThreads Place.isInside s.pc = countThreads Place.isAsleep s.pc := by
      refine Finset.sum_congr rfl fun t _ => ?_
      cases hpc : s.pc t with
      | out => rfl
      | asleep => rfl
      | woken =>
        have habs := hasleep t (by rw [hpc]; rfl)
        rw [hpc] at habs
        cases habs
    have hcount := hs.count
    have hinside := hs.inside
    have hfar' := hfar
    simp only [Far] at hfar'
    omega

/-! ## The runs -/

omit [DecidableEq T] in
theorem far_init (n : ℕ) : Far (Sys.init n : Sys T) := by
  simp [Far, Sys.init, countThreads, Place.isAsleep]

/-- **No more threads pass than there are tokens**, also in runs that lose tokens. -/
theorem completed_le_run (hn : (n : ℤ) < 2 ^ 31) (as : List (Action T))
    (hrange : AllSteps step (fun s a _ => InRange s a) (Sys.init n) as) :
    Always step (fun s => s.completed ≤ n + s.posted) (Sys.init n : Sys T) as := by
  have hinv : Always step (Counted n) (Sys.init n : Sys T) as :=
    always_of_allSteps (counted_init hn) (fun _ _ _ hs h hrange => counted_step hs h hrange) hrange
  exact hinv.mono fun s hs => hs.completed_le

/-- Two threads wait and two tokens come before they resume. -/
theorem completed_le_run_twoTokens :
    Always step (fun s => s.completed ≤ 0 + s.posted) (Sys.init 0 : Sys (Fin 3))
      [.p 0, .p 1, .v 2 (some 0), .v 2 (some 1), .resume 0, .resume 1] :=
  completed_le_run (n := 0) (by decide) _ (by decide +kernel)

/-- **No token is lost** in a run in which no thread goes back to sleep while as many threads are
asleep as the count says. -/
theorem keepsTokens_of_resumesFar (n : ℕ) (hn : (n : ℤ) < 2 ^ 31) (as : List (Action T))
    (hkeep : AllSteps step (fun s a _ => InRange s a ∧ ResumesFar s a) (Sys.init n) as) :
    Always step (KeepsTokens n) (Sys.init n : Sys T) as := by
  have hinv : Always step (fun s => Counted n s ∧ Far s) (Sys.init n : Sys T) as := by
    refine always_of_allSteps ⟨counted_init hn, far_init n⟩ ?_ hkeep
    rintro s a s' ⟨hs, hfar⟩ h ⟨hrange, hresume⟩
    exact ⟨counted_step hs h hrange, far_step hs hfar h hrange hresume⟩
  exact hinv.mono fun s hs => hs.1.keepsTokens hs.2

/-- Two threads wait and two tokens come before they resume. -/
theorem keepsTokens_twoTokens :
    Always step (KeepsTokens 0) (Sys.init 0 : Sys (Fin 3))
      [.p 0, .p 1, .v 2 (some 0), .v 2 (some 1), .resume 0, .resume 1] :=
  keepsTokens_of_resumesFar 0 (by decide) _ (by decide +kernel)

/-- Two threads wait, and the one that gets the token goes back to sleep. -/
theorem backToSleep_loses_token :
    ¬ Always step (KeepsTokens 0) (Sys.init 0 : Sys (Fin 3))
      [.p 0, .p 1, .v 2 (some 0), .resume 0] := by
  intro h
  obtain ⟨s, hs, hlost⟩ : ∃ s, exec step (Sys.init 0 : Sys (Fin 3))
      [.p 0, .p 1, .v 2 (some 0), .resume 0] = some s ∧
        (∀ t, (s.pc t).isInside = true → s.pc t = .asleep) ∧ s.completed < s.begun ∧
          s.completed < 0 + s.posted := ⟨_, rfl, by decide⟩
  exact (h.exec hs).live hlost

end Semaphore

end CloudNfs
