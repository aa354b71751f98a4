import Mathlib.Data.List.Nodup
import Mathlib.Logic.Function.Basic

/-!
# Pools of preallocated objects

Every client of a pool takes objects from the front of its own list and gives objects back to it.
When the list is empty, a number of new objects is allocated at once, which is what
`GetPreferedPool` makes of the number that is configured. An object need not go back to the pool it
came from, and it may get lost.

* `Pools`, `get`, `release` — the operations.
* `Apart` — the objects that are in use and those in the pools are all different.
* `Apart.get`, `Apart.release` — the operations keep this.
-/

namespace CloudNfs.Prealloc

/-- The pools. Objects are numbered in the order of their allocation. -/
structure Pools where
  pool : ℕ → List ℕ
  /-- objects from here on are new -/
  fresh : ℕ

namespace Pools

def empty : Pools := ⟨fun _ => [], 0⟩

/-- `STUFF_PREALLOC` of `nb` objects, when the pool of a client is empty; `alloc` says whether there
is memory. -/
def stuff (P : Pools) (client nb : ℕ) (alloc : Bool) : Pools :=
  if P.pool client = [] ∧ nb ≠ 0 ∧ alloc = true then
    ⟨Function.update P.pool client (List.range' P.fresh nb), P.fresh + nb⟩
  else P

def get (P : Pools) (client nb : ℕ) (alloc : Bool) : Option (ℕ × Pools) :=
  match (P.stuff client nb alloc).pool client with
  | [] => none
  | p :: rest => some (p, ⟨Function.update (P.stuff client nb alloc).pool client rest,
      (P.stuff client nb alloc).fresh⟩)

def release (P : Pools) (client p : ℕ) : Pools :=
  ⟨Function.update P.pool client (p :: P.pool client), P.fresh⟩

end Pools

/-- The objects in use are allocated, and the pools have other objects, no two of them the same. -/
structure Apart (P : Pools) (used : ℕ → Prop) : Prop where
  usedBelow : ∀ p, used p → p < P.fresh
  /-- objects in pools are allocated -/
  below : ∀ c, ∀ p ∈ P.pool c, p < P.fresh
  unused : ∀ c, ∀ p ∈ P.pool c, ¬ used p
  nodup : ∀ c, (P.pool c).Nodup
  /-- two pools have no object in common -/
  disjoint : ∀ c c', c ≠ c' → ∀ p ∈ P.pool c, p ∉ P.pool c'

/-- An allocated object that is in no pool. -/
structure Spare (P : Pools) (p : ℕ) : Prop where
  below : p < P.fresh
  unpooled : ∀ c, p ∉ P.pool c

section

variable {P P' : Pools} {used used' : ℕ → Prop} {client nb p q : ℕ} {alloc : Bool}

theorem apart_empty (h : ∀ p, ¬ used p) : Apart .empty used := by
  refine ⟨fun p hp => absurd hp (h p), ?_, ?_, fun c => List.nodup_nil, ?_⟩
  · intro c p hp
    cases hp
  · intro c p hp
    cases hp
  · intro c c' hne p hp
    cases hp

theorem mem_update {pool : ℕ → List ℕ} {l : List ℕ} {c : ℕ}
    (hp : p ∈ Function.update pool client l c) : c = client ∧ p ∈ l ∨ c ≠ client ∧ p ∈ pool c := by
  by_cases hc : c = client
  · subst hc
    rw [Function.update_self] at hp
    exact .inl ⟨rfl, hp⟩
  · rw [Function.update_of_ne hc] at hp
    exact .inr ⟨hc, hp⟩

theorem Apart.update (h : Apart P used) {l : List ℕ} {fresh : ℕ} (hfresh : P.fresh ≤ fresh)
    (hused : ∀ p, used' p → p < fresh) (hold : ∀ c, ∀ p ∈ P.pool c, c ≠ client → ¬ used' p)
    (hl : l.Nodup) (hnew : ∀ p ∈ l, p < fresh ∧ ¬ used' p ∧ ∀ c, c ≠ client → p ∉ P.pool c) :
    Apart ⟨Function.update P.pool client l, fresh⟩ used' := by
  refine ⟨hused, fun c p hp => ?_, fun c p hp => ?_, fun c => ?_, fun c c' hne p hp hp' => ?_⟩
  · rcases mem_update hp with ⟨-, hp⟩ | ⟨-, hp⟩
    · exact (hnew p hp).1
    · exact Nat.lt_of_lt_of_le (h.below c p hp) hfresh
  · rcases mem_update hp with ⟨-, hp⟩ | ⟨hc, hp⟩
    · exact (hnew p hp).2.1
    · exact hold c p hp hc
  · by_cases hc : c = client
    · subst hc
      simp only [Function.update_self]
      exact hl
    · simp only [Function.update_of_ne hc]
      exact h.nodup c
  · rcases mem_update hp with ⟨rfl, hpl⟩ | ⟨hc, hpl⟩
    · rcases mem_update hp' with ⟨rfl, -⟩ | ⟨hc', hpl'⟩
      · exact hne rfl
      · exact (hnew p hpl).2.2 c' hc' hpl'
    · rcases mem_update hp' with ⟨rfl, hpl'⟩ | ⟨hc', hpl'⟩
      · exact (hnew p hpl').2.2 c hc hpl
      · exact h.disjoint c c' hne p hpl hpl'

theorem Apart.stuff (h : Apart P used) : Apart (P.stuff client nb alloc) used := by
  rw [Pools.stuff]
  split
  next hempty =>
    refine h.update (Nat.le_add_right _ _) (fun p hp => ?_) (fun c p hp _ => h.unused c p hp)
      List.nodup_range' fun p hp => ?_
    · exact Nat.lt_of_lt_of_le (h.usedBelow p hp) (Nat.le_add_right _ _)
    · obtain ⟨hle, hlt⟩ := List.mem_range'_1.mp hp
      refine ⟨hlt, fun hused => ?_, fun c _ hc => ?_⟩
      · exact absurd (h.usedBelow p hused) (Nat.not_lt.mpr hle)
      · exact absurd (h.below c p hc) (Nat.not_lt.mpr hle)
  next => exact h

theorem Apart.get (h : Apart P used) (hget : P.get client nb alloc = some (p, P')) :
    Apart P' used ∧ Spare P' p ∧ ¬ used p := by
  have h : Apart (P.stuff client nb alloc) used := h.stuff
  rw [Pools.get] at hget
  split at hget
  · cases hget
  rename_i q rest hpool
  obtain ⟨rfl, rfl⟩ := Prod.mk.inj (Option.some.inj hget)
  have hmem : ∀ r ∈ q :: rest, r ∈ (P.stuff client nb alloc).pool client := by
    rw [hpool]
    exact fun r hr => hr
  have hnodup := h.nodup client
  rw [hpool] at hnodup
  obtain ⟨hq, hrest⟩ := List.nodup_cons.mp hnodup
  have hqmem := hmem q (List.mem_cons_self ..)
  refine ⟨h.update (Nat.le_refl _) h.usedBelow (fun c p hp _ => h.unused c p hp) hrest ?_,
    ⟨h.below client q hqmem, fun c hc => ?_⟩, h.unused client q hqmem⟩
  · intro r hr
    have hrmem := hmem r (.tail q hr)
    exact ⟨h.below client r hrmem, h.unused client r hrmem,
      fun c hc => h.disjoint client c (Ne.symm hc) r hrmem⟩
  · rcases mem_update hc with ⟨-, hc⟩ | ⟨hne, hc⟩
    · exact hq hc
    · exact h.disjoint client c (Ne.symm hne) q hqmem hc

theorem Apart.mono (h : Apart P used) (hle : ∀ p, used' p → used p) : Apart P used' :=
  ⟨fun p hp => h.usedBelow p (hle p hp), h.below, fun c p hp hu => h.unused c p hp (hle p hu),
    h.nodup, h.disjoint⟩

theorem Apart.use (h : Apart P used) (hp : Spare P p) (hle : ∀ q, used' q → used q ∨ q = p) :
    Apart P used' := by
  refine ⟨fun q hq => ?_, h.below, fun c q hq hu => ?_, h.nodup, h.disjoint⟩
  · rcases hle q hq with hq | rfl
    · exact h.usedBelow q hq
    · exact hp.below
  · rcases hle q hu with hu | rfl
    · exact h.unused c q hq hu
    · exact hp.unpooled c hq

theorem Apart.release (h : Apart P used) (hp : used p) (hle : ∀ q, used' q → used q ∧ q ≠ p) :
    Apart (P.release client p) used' := by
  have hunpooled : ∀ c, p ∉ P.pool c := fun c hc => h.unused c p hc hp
  refine h.update (Nat.le_refl _) (fun q hq => h.usedBelow q (hle q hq).1)
    (fun c q hq _ hu => h.unused c q hq (hle q hu).1)
    (List.nodup_cons.mpr ⟨hunpooled client, h.nodup client⟩) fun q hq => ?_
  rcases List.mem_cons.mp hq with rfl | hq
  · exact ⟨h.usedBelow q hp, fun hu => (hle q hu).2 rfl, fun c _ => hunpooled c⟩
  · exact ⟨h.below client q hq, fun hu => h.unused client q hq (hle q hu).1,
      fun c hc => h.disjoint client c (Ne.symm hc) q hq⟩

end

end CloudNfs.Prealloc
