import Mathlib.Data.List.Nodup
import Mathlib.Data.List.Range

/-!
# Lists of intervals

A set of numbers is kept as a list of intervals that stay apart: no two of them meet, and no two
stand side by side. To add an interval is to walk through the list, to put together with it each
interval that it touches, and to keep the others (`absorb`).

* `absorb_apart`: the intervals stay apart.
* `mem_absorb`: the numbers of the new list are those of the old one and of the interval.
* `nodup_numbers`: intervals that stay apart list each number once.
-/

namespace CloudNfs

/-- An interval of numbers, with both ends. -/
structure Interval where
  lo : ℕ
  hi : ℕ
  le : lo ≤ hi
  deriving DecidableEq

namespace Interval

/-- The numbers of an interval. -/
instance : Membership ℕ Interval := ⟨fun r n => r.lo ≤ n ∧ n ≤ r.hi⟩

variable {r a b : Interval} {rs : List Interval}

theorem mem_iff {n : ℕ} : n ∈ r ↔ r.lo ≤ n ∧ n ≤ r.hi := Iff.rfl

/-- There is a number between the two. -/
def Apart (a b : Interval) : Prop := a.hi + 1 < b.lo ∨ b.hi + 1 < a.lo

instance (a b : Interval) : Decidable (Apart a b) := by
  unfold Apart
  infer_instance

theorem Apart.symm (h : Apart a b) : Apart b a := Or.symm h

def hull (a b : Interval) : Interval where
  lo := min a.lo b.lo
  hi := max a.hi b.hi
  le := le_trans (min_le_left _ _) (le_trans a.le (le_max_left _ _))

theorem mem_hull (h : ¬ Apart a b) (n : ℕ) : n ∈ hull a b ↔ n ∈ a ∨ n ∈ b := by
  have ha := a.le
  have hb := b.le
  simp only [Apart, not_or, Nat.not_lt] at h
  simp only [mem_iff, hull]
  omega

theorem Apart.hull {c : Interval} (ha : Apart a c) (hb : Apart b c) (h : ¬ Apart a b) :
    Apart (hull a b) c := by
  have hla := a.le
  have hlb := b.le
  have hlc := c.le
  simp only [Apart, Interval.hull] at *
  omega

def numbers (r : Interval) : List ℕ := List.range' r.lo (r.hi + 1 - r.lo)

theorem mem_numbers {n : ℕ} : n ∈ r.numbers ↔ n ∈ r := by
  have h := r.le
  rw [numbers, List.mem_range'_1, mem_iff]
  omega

theorem length_numbers (r : Interval) : r.numbers.length = r.hi + 1 - r.lo := by
  rw [numbers, List.length_range']

/-- Walks through a list with an interval: those that it touches are put together with it, and the
others are kept. -/
def absorb : List Interval → Interval → List Interval × Interval
  | [], r => ([], r)
  | x :: rs, r =>
    if Apart x r then (x :: (absorb rs r).1, (absorb rs r).2) else absorb rs (hull x r)

theorem apart_absorb {c : Interval} (hrs : ∀ x ∈ rs, Apart c x) (hr : Apart c r) :
    ∀ x ∈ (absorb rs r).1 ++ [(absorb rs r).2], Apart c x := by
  induction rs generalizing r with
  | nil =>
    intro x hx
    exact List.mem_singleton.mp hx ▸ hr
  | cons y rs ih =>
    have hy := hrs y List.mem_cons_self
    have hrest : ∀ x ∈ rs, Apart c x := fun x hx => hrs x (.tail _ hx)
    rw [absorb]
    by_cases hapart : Apart y r
    · rw [if_pos hapart]
      intro x hx
      rcases List.mem_cons.mp hx with rfl | hx
      · exact hy
      · exact ih hrest hr x hx
    · rw [if_neg hapart]
      exact ih hrest (hy.symm.hull hr.symm hapart).symm

theorem absorb_apart (h : rs.Pairwise Apart) (r : Interval) :
    ((absorb rs r).1 ++ [(absorb rs r).2]).Pairwise Apart := by
  induction rs generalizing r with
  | nil => exact List.pairwise_singleton _ _
  | cons y rs ih =>
    obtain ⟨hy, hrest⟩ := List.pairwise_cons.mp h
    rw [absorb]
    by_cases hapart : Apart y r
    · rw [if_pos hapart]
      exact List.pairwise_cons.mpr ⟨apart_absorb hy hapart, ih hrest r⟩
    · rw [if_neg hapart]
      exact ih hrest _

theorem mem_absorb (rs : List Interval) (r : Interval) (n : ℕ) :
    (∃ x ∈ (absorb rs r).1 ++ [(absorb rs r).2], n ∈ x) ↔ n ∈ r ∨ ∃ x ∈ rs, n ∈ x := by
  induction rs generalizing r with
  | nil => simp [absorb]
  | cons y rs ih =>
    rw [absorb, List.exists_mem_cons_iff]
    by_cases hapart : Apart y r
    · rw [if_pos hapart, List.cons_append, List.exists_mem_cons_iff, ih]
      tauto
    · rw [if_neg hapart, ih, mem_hull hapart]
      tauto

theorem nodup_numbers (h : rs.Pairwise Apart) : (rs.flatMap numbers).Nodup := by
  rw [List.nodup_flatMap]
  refine ⟨fun r _ => List.nodup_range', h.imp fun {a b} hab => ?_⟩
  intro n ha hb
  have hla := a.le
  have hlb := b.le
  rw [mem_numbers, mem_iff] at ha hb
  simp only [Apart] at hab
  omega

end Interval

end CloudNfs
