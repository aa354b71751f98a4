import Mathlib.Data.Nat.Notation
import Mathlib.Logic.Relation

/-!
# Graded relations

A relation is **graded** if every element has a rank, and the rank goes up along the relation.
For a finite graph this says that it has no cycle, and it is what a walk against the edges needs
to come to an end.
-/

namespace CloudNfs

universe u

variable {α : Type u} {r r' : α → α → Prop} {p e : α}

/-- The edges go from lower to higher ranks. -/
def Graded (r : α → α → Prop) : Prop := ∃ rank : α → ℕ, ∀ a b, r a b → rank a < rank b

theorem Graded.mono (h : Graded r) (hr : ∀ a b, r' a b → r a b) : Graded r' := by
  obtain ⟨rank, hrank⟩ := h
  exact ⟨rank, fun a b hab => hrank a b (hr a b hab)⟩

theorem Graded.irrefl (h : Graded r) (a : α) : ¬ r a a := by
  obtain ⟨rank, hrank⟩ := h
  exact fun haa => Nat.lt_irrefl _ (hrank a a haa)

theorem Graded.insert (h : Graded r) (hp : ¬ Relation.ReflTransGen r e p)
    (hr : ∀ a b, r' a b → r a b ∨ (a = p ∧ b = e)) : Graded r' := by
  classical
  obtain ⟨rank, hrank⟩ := h
  refine ⟨fun x => if Relation.ReflTransGen r e x then rank x + (rank p + 1) else rank x, ?_⟩
  intro a b hab
  rcases hr a b hab with hold | ⟨rfl, rfl⟩
  · have hlt := hrank a b hold
    by_cases ha : Relation.ReflTransGen r e a
    · simp only [if_pos ha, if_pos (ha.tail hold)]
      omega
    simp only [if_neg ha]
    split
    · omega
    · exact hlt
  · simp only [if_neg hp, if_pos Relation.ReflTransGen.refl]
    omega

theorem Graded.induction (h : Graded r) {P : α → Prop} (hstep : ∀ b, (∀ a, r a b → P a) → P b)
    (b : α) : P b := by
  obtain ⟨rank, hrank⟩ := h
  have hall : ∀ m b, rank b < m → P b := by
    intro m
    induction m with
    | zero => exact fun b hb => absurd hb (Nat.not_lt_zero _)
    | succ m ih =>
      intro b hb
      refine hstep b fun a hab => ih a ?_
      have hlt := hrank a b hab
      omega
  exact hall (rank b + 1) b (Nat.lt_succ_self _)

theorem not_reaches_of_closed {l : List α} (hclosed : ∀ a b, r a b → a ∈ l → b ∈ l) (he : e ∈ l)
    (hp : p ∉ l) : ¬ Relation.ReflTransGen r e p := by
  intro h
  apply hp
  clear hp
  induction h with
  | refl => exact he
  | tail _ hab ih => exact hclosed _ _ hab ih

end CloudNfs
