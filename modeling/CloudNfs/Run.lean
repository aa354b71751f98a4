import Mathlib.Algebra.Order.Ring.Nat
import Mathlib.Algebra.Order.BigOperators.Group.Finset
import Mathlib.Data.Fintype.Basic

/-!
# Runs of a system of guarded steps

The systems of this development are all given the same way: a state, a type of
actions, and a **step function** `step : σ → α → Option σ` that answers `none`
when the action is not enabled. Every choice the environment can make (which
thread moves, which waiter a signal wakes, how a call outside the model ends) is
part of the action, so a run is just a list of actions.

* `exec` — the state a list of actions leads to, if all of them are enabled.
* `Always P` — every state a run visits satisfies `P`.
* `AllSteps C` — every step a run takes satisfies `C`, a relation between the
  state before, the action and the state after.
* `Safely C` — the same, and every action of the run has a next state.

The induction rules are the only ones the development uses: an invariant kept by
every step that meets `C` holds throughout a run whose steps all meet `C`, a fact
true of every step from an invariant state is true of every step of a run, a system
that can follow each step of another can follow its runs, and a loop keeps an
invariant that its body keeps.

The last section is about a **pool of threads**, a finite type of threads each at
its own place: `countThreads` counts the threads at the places of a given kind, and
its two lemmas say how the count moves when one thread moves, and that it does not
move when no thread changes kind.
-/

namespace CloudNfs

universe u v

variable {σ : Type u} {α : Type v}

/-- The state reached by performing the actions in order; `none` as soon as one
of them is not enabled. -/
def exec (step : σ → α → Option σ) : σ → List α → Option σ
  | s, [] => some s
  | s, a :: as => (step s a).bind fun t => exec step t as

/-- Every state visited by the run satisfies `P`. A run stops at the first
action that is not enabled. -/
def Always (step : σ → α → Option σ) (P : σ → Prop) : σ → List α → Prop
  | s, [] => P s
  | s, a :: as => P s ∧ ∀ t, step s a = some t → Always step P t as

/-- Every step the run takes satisfies `C`. -/
def AllSteps (step : σ → α → Option σ) (C : σ → α → σ → Prop) : σ → List α → Prop
  | _, [] => True
  | s, a :: as => ∀ t, step s a = some t → C s a t ∧ AllSteps step C t as

/-- Whether all the steps of a given run satisfy a decidable condition can be computed. -/
instance decidableAllSteps (step : σ → α → Option σ) (C : σ → α → σ → Prop)
    [∀ s a t, Decidable (C s a t)] : ∀ s as, Decidable (AllSteps step C s as)
  | _, [] => isTrue trivial
  | s, a :: as =>
    match h : step s a with
    | none => isTrue fun t ht => absurd (h.symm.trans ht) (by simp)
    | some t =>
      have := decidableAllSteps step C t as
      decidable_of_iff (C s a t ∧ AllSteps step C t as)
        ⟨fun hC u hu => Option.some.inj (h.symm.trans hu) ▸ hC, fun hC => hC t h⟩

variable {step : σ → α → Option σ} {P Q : σ → Prop} {C D : σ → α → σ → Prop}
  {s t : σ} {a : α} {as : List α}

@[simp] theorem exec_nil : exec step s [] = some s := rfl

@[simp] theorem exec_cons : exec step s (a :: as) = (step s a).bind fun t => exec step t as :=
  rfl

theorem exec_append {bs : List α} :
    exec step s (as ++ bs) = (exec step s as).bind fun t => exec step t bs := by
  induction as generalizing s with
  | nil => rfl
  | cons a as ih => simp only [List.cons_append, exec_cons, Option.bind_assoc, ih]

@[simp] theorem always_nil : Always step P s [] ↔ P s := Iff.rfl

@[simp] theorem always_cons :
    Always step P s (a :: as) ↔ P s ∧ ∀ t, step s a = some t → Always step P t as :=
  Iff.rfl

@[simp] theorem allSteps_nil : AllSteps step C s [] := trivial

@[simp] theorem allSteps_cons :
    AllSteps step C s (a :: as) ↔ ∀ t, step s a = some t → C s a t ∧ AllSteps step C t as :=
  Iff.rfl

theorem Always.head (h : Always step P s as) : P s := by
  cases as with
  | nil => exact h
  | cons a as => exact h.1

theorem Always.exec (h : Always step P s as) (he : exec step s as = some t) : P t := by
  induction as generalizing s with
  | nil =>
    cases he
    exact h
  | cons a as ih =>
    obtain ⟨u, hu, hrest⟩ := Option.bind_eq_some_iff.mp he
    exact ih (h.2 u hu) hrest

theorem Always.mono (hPQ : ∀ s, P s → Q s) (h : Always step P s as) : Always step Q s as := by
  induction as generalizing s with
  | nil => exact hPQ s h
  | cons a as ih => exact ⟨hPQ s h.1, fun t ht => ih (h.2 t ht)⟩

theorem Always.and (hP : Always step P s as) (hQ : Always step Q s as) :
    Always step (fun s => P s ∧ Q s) s as := by
  induction as generalizing s with
  | nil => exact ⟨hP, hQ⟩
  | cons a as ih => exact ⟨⟨hP.1, hQ.1⟩, fun t ht => ih (hP.2 t ht) (hQ.2 t ht)⟩

/-- **The simulation rule**: a system that can follow every step of another one can follow every run
of it. -/
theorem exec_simulates {τ : Type u} {step' : τ → α → Option τ} {R : σ → τ → Prop} {s' t' : τ}
    (hstep : ∀ s s' a t', R s s' → step' s' a = some t' → ∃ t, step s a = some t ∧ R t t')
    (hs : R s s') (he : exec step' s' as = some t') : ∃ t, exec step s as = some t ∧ R t t' := by
  induction as generalizing s s' with
  | nil =>
    cases he
    exact ⟨s, rfl, hs⟩
  | cons a as ih =>
    obtain ⟨u', hu', hrest⟩ := Option.bind_eq_some_iff.mp he
    obtain ⟨u, hu, hR⟩ := hstep s s' a u' hs hu'
    obtain ⟨t, ht, hR'⟩ := ih hR hrest
    exact ⟨t, by rw [exec_cons, hu, Option.bind_some, ht], hR'⟩

/-- **The invariant rule**: a property kept by every step that meets `C` holds
throughout a run whose steps all meet `C`. -/
theorem always_of_allSteps (hs : P s) (hstep : ∀ s a t, P s → step s a = some t → C s a t → P t)
    (hC : AllSteps step C s as) : Always step P s as := by
  induction as generalizing s with
  | nil => exact hs
  | cons a as ih =>
    refine ⟨hs, fun t ht => ?_⟩
    obtain ⟨hCt, hrest⟩ := hC t ht
    exact ih (hstep s a t hs ht hCt) hrest

theorem always_of_step (hs : P s) (hstep : ∀ s a t, P s → step s a = some t → P t) :
    Always step P s as := by
  induction as generalizing s with
  | nil => exact hs
  | cons a as ih => exact ⟨hs, fun t ht => ih (hstep s a t hs ht)⟩

/-- **The step rule**: what holds of every step between two states that satisfy
`P` holds of every step of a run that always satisfies `P`. -/
theorem allSteps_of_always (hstep : ∀ s a t, P s → P t → step s a = some t → C s a t)
    (hP : Always step P s as) : AllSteps step C s as := by
  induction as generalizing s with
  | nil => exact trivial
  | cons a as ih =>
    intro t ht
    exact ⟨hstep s a t hP.1 (hP.2 t ht).head ht, ih (hP.2 t ht)⟩

theorem AllSteps.last {u : σ} (h : AllSteps step C s (as ++ [a])) (he : exec step s as = some t)
    (ht : step t a = some u) : C t a u := by
  induction as generalizing s with
  | nil =>
    cases he
    exact (h u ht).1
  | cons b as ih =>
    obtain ⟨v, hv, hrest⟩ := Option.bind_eq_some_iff.mp he
    exact ih (h v hv).2 hrest

variable {I : σ → Prop}

theorem AllSteps.imp (hI : Always step I s as) (hC : AllSteps step C s as)
    (hCD : ∀ s a t, I s → step s a = some t → C s a t → D s a t) : AllSteps step D s as := by
  induction as generalizing s with
  | nil => exact trivial
  | cons a as ih =>
    intro t ht
    obtain ⟨hCt, hrest⟩ := hC t ht
    exact ⟨hCD s a t hI.1 ht hCt, ih (hI.2 t ht) hrest⟩

/-- **The exact condition of an invariant**: if a property follows from an invariant
`I`, the steps that meet `C` keep `I`, and a step that reaches a state with the
property from a state with `I` meets `C`, then the property holds throughout a run
exactly when all its steps meet `C`. -/
theorem always_iff_allSteps (hs : I s) (hP : ∀ s, I s → P s)
    (hstep : ∀ s a t, I s → step s a = some t → C s a t → I t)
    (hback : ∀ s a t, I s → step s a = some t → P t → C s a t) :
    Always step P s as ↔ AllSteps step C s as := by
  refine ⟨fun h => ?_, fun h => (always_of_allSteps hs hstep h).mono hP⟩
  induction as generalizing s with
  | nil => exact trivial
  | cons a as ih =>
    intro t ht
    have hC := hback s a t hs ht (h.2 t ht).head
    exact ⟨hC, ih (hstep s a t hs ht hC) (h.2 t ht)⟩

theorem always_iff_allSteps_of (hs : I s) (hD : AllSteps step D s as) (hP : ∀ s, I s → P s)
    (hstep : ∀ s a t, I s → step s a = some t → D s a t → C s a t → I t)
    (hback : ∀ s a t, I s → step s a = some t → D s a t → P t → C s a t) :
    Always step P s as ↔ AllSteps step C s as := by
  induction as generalizing s with
  | nil => exact iff_of_true (hP s hs) trivial
  | cons a as ih =>
    rw [always_cons, allSteps_cons]
    constructor
    · rintro ⟨-, h⟩ t ht
      obtain ⟨hDt, hrest⟩ := hD t ht
      have hC := hback s a t hs ht hDt (h t ht).head
      exact ⟨hC, (ih (hstep s a t hs ht hDt hC) hrest).mp (h t ht)⟩
    · refine fun h => ⟨hP s hs, fun t ht => ?_⟩
      obtain ⟨hDt, hrest⟩ := hD t ht
      obtain ⟨hC, h⟩ := h t ht
      exact (ih (hstep s a t hs ht hDt hC) hrest).mpr h

theorem allSteps_iff_of_invariant (hs : I s)
    (hstep : ∀ s a t, I s → step s a = some t → D s a t → I t)
    (hiff : ∀ s a t, I s → step s a = some t → (C s a t ↔ D s a t)) :
    AllSteps step C s as ↔ AllSteps step D s as := by
  induction as generalizing s with
  | nil => exact Iff.rfl
  | cons a as ih =>
    refine forall₂_congr fun t ht => ?_
    rw [hiff s a t hs ht]
    exact and_congr_right fun hD => ih (hstep s a t hs ht hD)

/-! ## Undefined behaviour

Where `step s a = none` is not an action that waits but one that the program cannot take without
undefined behaviour, a run must not get there: `Safely C` asks for a next state at every action, and
a condition on the actions of such a run, `AllMeet C`, is asked before each step, also before one
that goes wrong. -/

/-- Every action of the run has a next state, and its step satisfies `C`. -/
def Safely (step : σ → α → Option σ) (C : σ → α → σ → Prop) : σ → List α → Prop
  | _, [] => True
  | s, a :: as => ∃ t, step s a = some t ∧ C s a t ∧ Safely step C t as

/-- Every action of the run satisfies `C` in the state it is performed in. -/
def AllMeet (step : σ → α → Option σ) (C : σ → α → Prop) : σ → List α → Prop
  | _, [] => True
  | s, a :: as => C s a ∧ ∀ t, step s a = some t → AllMeet step C t as

instance decidableAllMeet (step : σ → α → Option σ) (C : σ → α → Prop) [∀ s a, Decidable (C s a)] :
    ∀ s as, Decidable (AllMeet step C s as)
  | _, [] => isTrue trivial
  | s, a :: as =>
    match h : step s a with
    | none => decidable_of_iff (C s a)
        ⟨fun hC => ⟨hC, fun t ht => absurd (h.symm.trans ht) (by simp)⟩, And.left⟩
    | some t =>
      have := decidableAllMeet step C t as
      decidable_of_iff (C s a ∧ AllMeet step C t as)
        ⟨fun hC => ⟨hC.1, fun u hu => Option.some.inj (h.symm.trans hu) ▸ hC.2⟩,
          fun hC => ⟨hC.1, hC.2 t h⟩⟩

/-- **The safety rule**: a condition under which every action has a next state, keeps an invariant
and takes a step with `D` leads to a safe run. -/
theorem safely_of_allMeet {K : σ → α → Prop} (hs : I s)
    (hstep : ∀ s a, I s → K s a → ∃ t, step s a = some t ∧ I t ∧ D s a t)
    (hK : AllMeet step K s as) : Safely step D s as := by
  induction as generalizing s with
  | nil => exact trivial
  | cons a as ih =>
    obtain ⟨t, ht, hIt, hD⟩ := hstep s a hs hK.1
    exact ⟨t, ht, hD, ih hIt (hK.2 t ht)⟩

/-- Such a condition leads a run to a state with the invariant. -/
theorem exec_of_allMeet {K : σ → α → Prop} (hs : I s)
    (hstep : ∀ s a, I s → K s a → ∃ t, step s a = some t ∧ I t) (hK : AllMeet step K s as) :
    ∃ t, exec step s as = some t ∧ I t := by
  induction as generalizing s with
  | nil => exact ⟨s, rfl, hs⟩
  | cons a as ih =>
    obtain ⟨u, hu, hIu⟩ := hstep s a hs hK.1
    obtain ⟨t, ht, hIt⟩ := ih hIu (hK.2 u hu)
    exact ⟨t, by rw [exec_cons, hu, Option.bind_some, ht], hIt⟩

/-- **The exact condition of a safe run**: besides, the steps with `D` from a state with the
invariant meet the condition. -/
theorem safely_iff_allMeet {K : σ → α → Prop} (hs : I s)
    (hstep : ∀ s a, I s → K s a → ∃ t, step s a = some t ∧ I t ∧ D s a t)
    (hback : ∀ s a t, I s → step s a = some t → D s a t → K s a) :
    Safely step D s as ↔ AllMeet step K s as := by
  refine ⟨fun h => ?_, safely_of_allMeet hs hstep⟩
  induction as generalizing s with
  | nil => exact trivial
  | cons a as ih =>
    obtain ⟨t, ht, hD, hrest⟩ := h
    have hK := hback s a t hs ht hD
    refine ⟨hK, fun u hu => ?_⟩
    obtain ⟨v, hv, hIv, -⟩ := hstep s a hs hK
    cases ht.symm.trans hu
    cases ht.symm.trans hv
    exact ih hIv hrest

/-! ## Loops -/

/-- **The loop rule**: a loop over a list, with an invariant that may speak of the
elements still to come. -/
theorem foldl_rest {β : Type u} {ι : Type v} {body : β → ι → β} {I : List ι → β → Prop}
    (hbody : ∀ x rest b, I (x :: rest) b → I rest (body b x)) (l : List ι) (b : β)
    (h : I l b) : I [] (l.foldl body b) := by
  induction l generalizing b with
  | nil => exact h
  | cons x rest ih => exact ih (body b x) (hbody x rest b h)

/-! ## A pool of threads -/

section Pool

variable {T : Type u} {π : Type v} [Fintype T]

/-- How many threads are at a place of the kind `p`. -/
def countThreads (p : π → Bool) (pc : T → π) : ℕ := ∑ t, if p (pc t) then 1 else 0

theorem countThreads_update [DecidableEq T] (p : π → Bool) (pc : T → π) (t : T) (c : π) :
    countThreads p (Function.update pc t c) + (if p (pc t) then 1 else 0) =
      countThreads p pc + (if p c then 1 else 0) := by
  have hnew := Finset.add_sum_erase Finset.univ
    (fun u => if p (Function.update pc t c u) then 1 else 0) (Finset.mem_univ t)
  have hold := Finset.add_sum_erase Finset.univ
    (fun u => if p (pc u) then 1 else 0) (Finset.mem_univ t)
  have hrest : ∑ u ∈ Finset.univ.erase t, (if p (Function.update pc t c u) then 1 else 0) =
      ∑ u ∈ Finset.univ.erase t, if p (pc u) then 1 else 0 := by
    refine Finset.sum_congr rfl fun u hu => ?_
    rw [Function.update_of_ne (Finset.ne_of_mem_erase hu)]
  simp only [Function.update_self] at hnew
  simp only [countThreads]
  omega

variable {p : π → Bool} {pc : T → π}

theorem countThreads_congr {pc' : T → π} (h : ∀ t, p (pc t) = p (pc' t)) :
    countThreads p pc = countThreads p pc' := by
  refine Finset.sum_congr rfl fun t _ => ?_
  rw [h t]

theorem countThreads_pos : 0 < countThreads p pc ↔ ∃ t, p (pc t) = true := by
  rw [countThreads, Finset.sum_pos_iff]
  constructor
  · rintro ⟨t, -, ht⟩
    by_cases hp : p (pc t) = true
    · exact ⟨t, hp⟩
    · rw [if_neg hp] at ht
      omega
  · rintro ⟨t, ht⟩
    exact ⟨t, Finset.mem_univ t, by rw [if_pos ht]; omega⟩

theorem eq_of_countThreads_le_one (h : countThreads p pc ≤ 1) {t u : T} (ht : p (pc t) = true)
    (hu : p (pc u) = true) : t = u := by
  classical
  by_contra hne
  have hsub : ∑ x ∈ ({t, u} : Finset T), (if p (pc x) then 1 else 0) ≤ countThreads p pc :=
    Finset.sum_le_sum_of_subset (Finset.subset_univ _)
  rw [Finset.sum_pair hne, if_pos ht, if_pos hu] at hsub
  omega

end Pool

end CloudNfs
