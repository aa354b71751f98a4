import Mathlib.Data.List.Basic

/-!
# Things that are in one place

Things are kept at places, and `o pl` says how often a thing is at the place `pl`. The thing is not
lost and not duplicated when it is at exactly one place, once (`OnePlace`).
-/

namespace CloudNfs

universe u

variable {Place : Type u}

/-- The thing is at one place, once. -/
def OnePlace (o : Place → ℕ) : Prop := ∃ pl, o pl = 1 ∧ ∀ pl', pl' ≠ pl → o pl' = 0

variable {o o' : Place → ℕ} {A B : Place} {k : ℕ}

theorem OnePlace.move [DecidableEq Place] (h : OnePlace o) (hAB : A ≠ B)
    (hmove : ∀ pl, o' pl + (if pl = A then k else 0) = o pl + (if pl = B then k else 0)) :
    OnePlace o' := by
  obtain ⟨pl, hone, hnone⟩ := h
  have hA := hmove A
  rw [if_pos rfl, if_neg hAB] at hA
  by_cases hk : k = 0
  · have hsame : ∀ pl, o' pl = o pl := fun pl => by simpa [hk] using hmove pl
    refine ⟨pl, (hsame pl).trans hone, fun pl' hne => (hsame pl').trans (hnone pl' hne)⟩
  -- it was at `A`, and it is at `B`
  have hpl : pl = A := by
    by_contra hne
    have := hnone A (Ne.symm hne)
    omega
  subst hpl
  have hB := hmove B
  rw [if_pos rfl, if_neg (Ne.symm hAB), hnone B (Ne.symm hAB)] at hB
  refine ⟨B, by omega, fun pl' hne => ?_⟩
  have hpl' := hmove pl'
  rw [if_neg hne] at hpl'
  by_cases heq : pl' = pl
  · subst heq
    omega
  · rw [if_neg heq, hnone pl' heq] at hpl'
    omega

theorem OnePlace.eq_zero {pl pl' : Place} (h : OnePlace o) (hpl : o pl ≠ 0) (hne : pl' ≠ pl) :
    o pl' = 0 := by
  obtain ⟨pl0, hone, hnone⟩ := h
  have heq : pl = pl0 := by
    by_contra hne
    exact hpl (hnone pl hne)
  exact hnone pl' (heq ▸ hne)

theorem OnePlace.le_one (h : OnePlace o) (pl : Place) : o pl ≤ 1 := by
  obtain ⟨pl0, hone, hnone⟩ := h
  by_cases hpl : pl = pl0
  · exact Nat.le_of_eq (hpl ▸ hone)
  · rw [hnone pl hpl]
    exact Nat.zero_le 1

theorem OnePlace.of_new [DecidableEq Place] (hold : ∀ pl, o pl = 0)
    (hnew : ∀ pl, o' pl = o pl + if pl = B then 1 else 0) : OnePlace o' := by
  refine ⟨B, ?_, fun pl hne => ?_⟩
  · rw [hnew, hold, if_pos rfl]
  · rw [hnew, hold, if_neg hne]

end CloudNfs
