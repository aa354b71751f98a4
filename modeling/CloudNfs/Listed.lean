import Mathlib.Data.Set.Insert
import Mathlib.Logic.Function.Basic

/-!
# Sets listed by places

A table of places, each of them free or with a member, lists a set when every member is at
exactly one place and nothing else is at any.

* Filling a free place adds a member, emptying one removes its member, and overwriting one
  exchanges a member for another.
-/

namespace CloudNfs

open Function (update update_self update_of_ne)

universe u v

variable {P : Type u} {A : Type v} {table : P → Option A} {s : Set A}

/-- **The places list the set**, each member once. -/
structure Lists (table : P → Option A) (s : Set A) : Prop where
  /-- the members are at the places -/
  mem_iff : ∀ x, x ∈ s ↔ ∃ p, table p = some x
  once : ∀ p q x, table p = some x → table q = some x → p = q

namespace Lists

theorem mem (h : Lists table s) {p : P} {x : A} (hp : table p = some x) : x ∈ s :=
  (h.mem_iff x).mpr ⟨p, hp⟩

theorem of_free (h : ∀ p, table p = none) : Lists table ∅ :=
  ⟨fun x => by simp [h], fun p q x hp => by simp [h] at hp⟩

variable [DecidableEq P]

theorem fill (h : Lists table s) {p : P} {x : A} (hp : table p = none) (hx : x ∉ s) :
    Lists (update table p (some x)) (insert x s) where
  mem_iff y := by
    rw [Set.mem_insert_iff, h.mem_iff]
    constructor
    · rintro (rfl | ⟨q, hq⟩)
      · exact ⟨p, update_self ..⟩
      · have hne : q ≠ p := by
          rintro rfl
          rw [hp] at hq
          cases hq
        exact ⟨q, by rw [update_of_ne hne, hq]⟩
    · rintro ⟨q, hq⟩
      by_cases hqp : q = p
      · subst hqp
        rw [update_self] at hq
        exact .inl (Option.some.inj hq).symm
      · rw [update_of_ne hqp] at hq
        exact .inr ⟨q, hq⟩
  once q r y hq hr := by
    -- the new member is at no other place
    have hnew : ∀ {q}, q ≠ p → update table p (some x) q ≠ some x := by
      intro q hqp hq
      rw [update_of_ne hqp] at hq
      exact hx (h.mem hq)
    by_cases hqp : q = p
    · by_cases hrp : r = p
      · rw [hqp, hrp]
      · rw [hqp, update_self] at hq
        exact absurd (hr.trans hq.symm) (hnew hrp)
    · by_cases hrp : r = p
      · rw [hrp, update_self] at hr
        exact absurd (hq.trans hr.symm) (hnew hqp)
      · rw [update_of_ne hqp] at hq
        rw [update_of_ne hrp] at hr
        exact h.once q r y hq hr

theorem empty (h : Lists table s) {p : P} {x : A} (hp : table p = some x) :
    Lists (update table p none) (s \ {x}) where
  mem_iff y := by
    rw [Set.mem_sdiff, Set.mem_singleton_iff, h.mem_iff]
    constructor
    · rintro ⟨⟨q, hq⟩, hne⟩
      have hqp : q ≠ p := by
        rintro rfl
        exact hne (Option.some.inj (hq.symm.trans hp))
      exact ⟨q, by rw [update_of_ne hqp, hq]⟩
    · rintro ⟨q, hq⟩
      have hqp : q ≠ p := by
        rintro rfl
        rw [update_self] at hq
        cases hq
      rw [update_of_ne hqp] at hq
      refine ⟨⟨q, hq⟩, ?_⟩
      rintro rfl
      exact hqp (h.once q p y hq hp)
  once q r y hq hr := by
    have hold : ∀ {q}, update table p none q = some y → table q = some y := by
      intro q hq
      by_cases hqp : q = p
      · rw [hqp, update_self] at hq
        cases hq
      · rwa [update_of_ne hqp] at hq
    exact h.once q r y (hold hq) (hold hr)

theorem overwrite (h : Lists table s) {p : P} {x y : A} (hp : table p = some x) (hy : y ∉ s) :
    Lists (update table p (some y)) (insert y (s \ {x})) := by
  have hfill := (h.empty hp).fill (p := p) (x := y) (update_self ..) fun hmem => hy hmem.1
  rwa [Function.update_idem] at hfill

end Lists

end CloudNfs
