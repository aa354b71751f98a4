import Mathlib.Data.List.Nodup
import Mathlib.Logic.Function.Basic

/-!
# Links with back links

Places designate objects, and every object keeps a list of the places that designate it.

* `target l` is the object a place designates, if it designates one.
* `parents a` are the back links of an object.
* `Paired` says that the two sides agree, and that no back link is kept twice.

Either side is written by itself; the lemmas say which pairs of writes go together.
-/

namespace CloudNfs

universe u v

variable {L : Type u} {A : Type v} [DecidableEq L] [DecidableEq A]
  {target : L → Option A} {parents : A → List L}

/-- **The places and the back links agree.** -/
structure Paired (target : L → Option A) (parents : A → List L) : Prop where
  mem_iff : ∀ l a, l ∈ parents a ↔ target l = some a
  nodup : ∀ a, (parents a).Nodup

namespace Paired

omit [DecidableEq L] [DecidableEq A] in
theorem not_mem (h : Paired target parents) {l : L} (hl : target l = none) (a : A) :
    l ∉ parents a := by
  rw [h.mem_iff, hl]
  simp

theorem link (h : Paired target parents) {l : L} (hl : target l = none) (a : A) :
    Paired (Function.update target l (some a)) (Function.update parents a (l :: parents a)) where
  mem_iff l' a' := by
    by_cases hl' : l' = l
    · subst hl'
      by_cases ha : a' = a
      · subst ha
        simp
      · simp [ha, h.not_mem hl, Ne.symm ha]
    · by_cases ha : a' = a
      · subst ha
        simp [hl', h.mem_iff]
      · simp [hl', ha, h.mem_iff]
  nodup a' := by
    by_cases ha : a' = a
    · subst ha
      rw [Function.update_self]
      exact List.nodup_cons.mpr ⟨h.not_mem hl a', h.nodup a'⟩
    · rw [Function.update_of_ne ha]
      exact h.nodup a'

theorem unlink (h : Paired target parents) {l : L} {a : A} (hl : target l = some a) :
    Paired (Function.update target l none)
      (Function.update parents a ((parents a).erase l)) where
  mem_iff l' a' := by
    by_cases hl' : l' = l
    · subst hl'
      by_cases ha : a' = a
      · subst ha
        simp [(h.nodup a').mem_erase_iff]
      · simp [ha, h.mem_iff, hl, Ne.symm ha]
    · by_cases ha : a' = a
      · subst ha
        simp [hl', (h.nodup a').mem_erase_iff, h.mem_iff]
      · simp [hl', ha, h.mem_iff]
  nodup a' := by
    by_cases ha : a' = a
    · subst ha
      rw [Function.update_self]
      exact (h.nodup a').erase l
    · rw [Function.update_of_ne ha]
      exact h.nodup a'

end Paired

end CloudNfs
