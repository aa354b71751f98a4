import CloudNfs.NodeGroups
import Mathlib.Data.Set.Lattice

/-!
# Range lists are sets of numbers

`nodelist_range.c` keeps a set of `long int` numbers as an array of ranges.

* `nodelist_rangelist_add_range` walks through the array once, puts together with the new range
  each range that meets it or stands beside it, and sorts what comes of it.
  `nodelist_rangelist_remove_range` builds a new list from the parts that are left.
* Ranges strictly inside of `long int` are intervals of natural numbers that begin at the least
  `long int` (`Range.interval`), and the walk is `Interval.absorb`.
* The array is `Canonical` after any calls, and its numbers are those that were added and not
  removed since (`rangelists_are_sets`).
* Memory is always there, and loop counters have no bound.
-/

namespace CloudNfs.RangeList

/-! ## Ranges -/

/-- The value of an operation on `long int`. -/
def long (n : ℤ) : ℤ := n.bmod (2 ^ 64)

/-- `nodelist_range_t` -/
structure Range where
  fromValue : ℤ
  toValue : ℤ
  deriving DecidableEq

/-- The numbers of a range. -/
instance : Membership ℤ Range := ⟨fun r n => r.fromValue ≤ n ∧ n ≤ r.toValue⟩

/-- `nodelist_range_set` -/
def rangeSet (v1 v2 : ℤ) : Range := if v1 ≤ v2 then ⟨v1, v2⟩ else ⟨v2, v1⟩

/-- `nodelist_range_check` -/
def rangeCheck (r1 : Range) : Bool := r1.fromValue ≤ r1.toValue

/-- `nodelist_range_compare` -/
def rangeCompare (r1 r2 : Range) : ℤ :=
  if !rangeCheck r1 || !rangeCheck r2 then 0
  else if r1.fromValue = r2.fromValue ∧ r1.toValue = r2.toValue then 0
  else if r1.toValue < r2.fromValue then -1
  else 1

/-- `nodelist_range_intersects` -/
def rangeIntersects (r1 r2 : Range) : Bool :=
  if !rangeCheck r1 || !rangeCheck r2 then false
  else
    (r2.toValue = r2.fromValue ∧ r1.fromValue ≤ r2.toValue ∧ r2.toValue ≤ r1.toValue) ∨
      (r1.toValue = r1.fromValue ∧ r2.fromValue ≤ r1.toValue ∧ r1.toValue ≤ r2.toValue) ∨
      (r2.toValue ≥ r1.fromValue ∧ r2.fromValue ≤ r1.toValue) ∨
      (r1.toValue ≥ r2.fromValue ∧ r1.fromValue ≤ r2.toValue)

/-- `nodelist_range_contiguous` -/
def rangeContiguous (r1 r2 : Range) : ℤ :=
  if !rangeCheck r1 || !rangeCheck r2 then -1
  else if long (r1.toValue + 1) ≠ r2.fromValue ∧ long (r1.fromValue - 1) ≠ r2.toValue then 0
  else if r1.toValue < r2.fromValue then 1
  else 2

/-- `nodelist_range_includes` -/
def rangeIncludes (r1 r2 : Range) : ℤ :=
  if !rangeCheck r1 || !rangeCheck r2 then -1
  else if r2.fromValue ≥ r1.fromValue ∧ r2.toValue ≤ r1.toValue then 1
  else if r1.fromValue ≥ r2.fromValue ∧ r1.toValue ≤ r2.toValue then 2
  else 0

/-- `nodelist_range_union`, where `rout` is `r2`. -/
def rangeUnion (r1 r2 : Range) : Range :=
  if !rangeCheck r1 || !rangeCheck r2 then r2
  else if !rangeIntersects r1 r2 && rangeContiguous r1 r2 = 0 then r2
  else
    { fromValue := if r1.fromValue < r2.fromValue then r1.fromValue else r2.fromValue
      toValue := if r1.toValue > r2.toValue then r1.toValue else r2.toValue }

/-! ## Range lists -/

/-- `nodelist_rangelist_t`; `ranges_nb` is the length of the array. -/
structure Rangelist where
  array : List Range
  preAllocatedRanges : ℕ
  deriving DecidableEq

/-- `nodelist_rangelist_init` -/
def rangelistInit : Rangelist := ⟨[], 16⟩

/-- A range at the end of `work_array`, after `nodelist_rangelist_incremente_size` when there is no
room. -/
def append (work : Rangelist) (r : Range) : Rangelist where
  array := work.array ++ [r]
  preAllocatedRanges :=
    if work.array.length = work.preAllocatedRanges then work.preAllocatedRanges + 8
    else work.preAllocatedRanges

/-- The loop of `nodelist_rangelist_add_range`: `work_array`, and the range to add. -/
def addRangeLoop : List Range → Rangelist → Range → Rangelist × Range
  | [], work, r => (work, r)
  | x :: array, work, r =>
    if !rangeIntersects x r && rangeContiguous x r = 0 then addRangeLoop array (append work x) r
    else addRangeLoop array work (rangeUnion x r)

/-- `nodelist_rangelist_sort` -/
def rangelistSort (l : Rangelist) : Rangelist :=
  { l with array := l.array.insertionSort fun r1 r2 => rangeCompare r1 r2 ≤ 0 }

/-- `nodelist_rangelist_add_range`. The copy at its end has the same ranges and the same size. -/
def rangelistAddRange (l : Rangelist) (r : Range) : Rangelist :=
  if l.array = [] then { l with array := [r] }
  else if l.array.any fun x => rangeIncludes x r = 1 then l
  else
    let work := addRangeLoop l.array rangelistInit r
    rangelistSort (append work.1 work.2)

/-- The body of the loop of `nodelist_rangelist_remove_range`. -/
def removeRangeStep (r : Range) (work : Rangelist) (pr : Range) : Rangelist :=
  if !rangeIntersects pr r then rangelistAddRange work pr
  else if pr.fromValue ≠ pr.toValue ∧ rangeIncludes r pr ≠ 1 then
    -- [pr[r...
    let work :=
      if pr.fromValue < r.fromValue then
        rangelistAddRange work (rangeSet pr.fromValue (long (r.fromValue - 1)))
      else work
    -- ...r]pr]
    if pr.toValue > r.toValue then
      rangelistAddRange work (rangeSet (long (r.toValue + 1)) pr.toValue)
    else work
  else work

/-- `nodelist_rangelist_remove_range` -/
def rangelistRemoveRange (l : Rangelist) (r : Range) : Rangelist :=
  if l.array = [] then l else l.array.foldl (removeRangeStep r) rangelistInit

/-- `nodelist_rangelist_intersects` -/
def rangelistIntersects (a1 a2 : Rangelist) : Bool :=
  a1.array.any fun r1 => a2.array.any fun r2 => rangeIntersects r1 r2

/-- `nodelist_rangelist_includes`; the count is `valid_ranges_nb`. -/
def rangelistIncludes (a1 a2 : Rangelist) : Bool :=
  (a2.array.countP fun r2 => a1.array.any fun r1 => rangeIncludes r1 r2 = 1) = a2.array.length

/-! ## One range -/

/-- The ends are in order, and strictly inside of `long int`. -/
structure Inside (r : Range) : Prop where
  /-- more than `LONG_MIN` -/
  above : -2 ^ 63 < r.fromValue
  le : r.fromValue ≤ r.toValue
  /-- less than `LONG_MAX` -/
  below : r.toValue < 2 ^ 63 - 1

/-- `a` is before `b`, with a number between them. -/
def Before (a b : Range) : Prop := a.toValue + 1 < b.fromValue

/-- The interval of natural numbers that a range is, counted from the least `long int`. -/
def Range.interval (r : Range) : Interval where
  lo := (r.fromValue + 2 ^ 63).toNat
  hi := (max r.fromValue r.toValue + 2 ^ 63).toNat
  le := Int.toNat_le_toNat (Int.add_le_add_right (le_max_left ..) _)

section

variable {a b r x : Range} {n : ℤ}

theorem mem_iff : n ∈ r ↔ r.fromValue ≤ n ∧ n ≤ r.toValue := Iff.rfl

theorem long_eq (hlow : -2 ^ 63 ≤ n) (hhigh : n < 2 ^ 63) : long n = n :=
  Int.bmod_eq_of_le (by omega) (by omega)

theorem Inside.rangeCheck (h : Inside r) : rangeCheck r = true := decide_eq_true h.le

theorem intersects_iff (ha : Inside a) (hb : Inside b) :
    rangeIntersects a b = true ↔ a.fromValue ≤ b.toValue ∧ b.fromValue ≤ a.toValue := by
  have hla := ha.le
  have hlb := hb.le
  simp only [rangeIntersects, ha.rangeCheck, hb.rangeCheck, Bool.not_true, Bool.or_self,
    Bool.false_eq_true, if_false, decide_eq_true_iff]
  omega

theorem contiguous_eq_zero_iff (ha : Inside a) (hb : Inside b) :
    rangeContiguous a b = 0 ↔ a.toValue + 1 ≠ b.fromValue ∧ a.fromValue - 1 ≠ b.toValue := by
  have hadd : long (a.toValue + 1) = a.toValue + 1 :=
    long_eq (by have := ha.above; have := ha.le; omega) (by have := ha.below; omega)
  have hsub : long (a.fromValue - 1) = a.fromValue - 1 :=
    long_eq (by have := ha.above; omega) (by have := ha.le; have := ha.below; omega)
  simp only [rangeContiguous, ha.rangeCheck, hb.rangeCheck, hadd, hsub, Bool.not_true,
    Bool.or_self, Bool.false_eq_true, if_false]
  split
  next hapart => exact iff_of_true rfl hapart
  next htouch =>
    refine iff_of_false ?_ htouch
    split <;> decide

theorem includes_eq_one_iff (ha : Inside a) (hb : Inside b) :
    rangeIncludes a b = 1 ↔ a.fromValue ≤ b.fromValue ∧ b.toValue ≤ a.toValue := by
  simp only [rangeIncludes, ha.rangeCheck, hb.rangeCheck, Bool.not_true, Bool.or_self,
    Bool.false_eq_true, if_false]
  split
  next hincludes => exact iff_of_true rfl hincludes
  next hnot =>
    refine iff_of_false ?_ hnot
    split <;> decide

theorem apart_interval_iff (ha : Inside a) (hb : Inside b) :
    (!rangeIntersects a b && decide (rangeContiguous a b = 0)) = true ↔
      Interval.Apart a.interval b.interval := by
  have hla := ha.le
  have hlb := hb.le
  have haa := ha.above
  have hab := hb.above
  rw [Bool.and_eq_true, Bool.not_eq_true', decide_eq_true_iff, ← Bool.not_eq_true,
    intersects_iff ha hb, contiguous_eq_zero_iff ha hb]
  simp only [Interval.Apart, Range.interval]
  omega

theorem union_spec (ha : Inside a) (hb : Inside b)
    (h : ¬ Interval.Apart a.interval b.interval) :
    Inside (rangeUnion a b) ∧ (rangeUnion a b).interval = a.interval.hull b.interval := by
  have htouch : (!rangeIntersects a b && decide (rangeContiguous a b = 0)) = false := by
    rw [← Bool.not_eq_true, apart_interval_iff ha hb]
    exact h
  have hla := ha.le
  have hlb := hb.le
  have haa := ha.above
  have hab := hb.above
  have hba := ha.below
  have hbb := hb.below
  simp only [rangeUnion, ha.rangeCheck, hb.rangeCheck, Bool.not_true, Bool.or_self,
    Bool.false_eq_true, if_false, htouch]
  refine ⟨⟨?_, ?_, ?_⟩, ?_⟩
  · simp only
    split <;> omega
  · simp only
    split <;> split <;> omega
  · simp only
    split <;> omega
  · simp only [Range.interval, Interval.hull, Interval.mk.injEq]
    refine ⟨?_, ?_⟩
    · split <;> omega
    · split <;> split <;> omega

theorem mem_interval_iff (h : Inside r) : (n + 2 ^ 63).toNat ∈ r.interval ↔ n ∈ r := by
  have hle := h.le
  have habove := h.above
  simp only [Interval.mem_iff, Range.interval, mem_iff]
  omega

theorem compare_le_zero_iff (ha : Inside a) (hb : Inside b)
    (h : a = b ∨ Interval.Apart a.interval b.interval) :
    rangeCompare a b ≤ 0 ↔ a.fromValue ≤ b.fromValue := by
  simp only [rangeCompare, ha.rangeCheck, hb.rangeCheck, Bool.not_true, Bool.or_self,
    Bool.false_eq_true, if_false]
  rcases h with rfl | h
  · simp
  · have hla := ha.le
    have hlb := hb.le
    have haa := ha.above
    have hab := hb.above
    simp only [Interval.Apart, Range.interval] at h
    rw [if_neg (by omega)]
    split
    next hlt => exact iff_of_true (by decide) (by omega)
    next hge => exact iff_of_false (by decide) (by omega)

/-! ## Lists of ranges -/

/-- The numbers of a list of ranges. -/
def covered (l : List Range) : Set ℤ := {n | ∃ x ∈ l, n ∈ x}

/-- The array is large enough. -/
structure Roomy (l : Rangelist) : Prop where
  room : 0 < l.preAllocatedRanges
  fits : l.array.length ≤ l.preAllocatedRanges

/-- **Canonical range lists**. -/
structure Canonical (l : Rangelist) : Prop extends Roomy l where
  /-- their ranges are strictly inside of `long int` -/
  inside : ∀ x ∈ l.array, Inside x
  /-- and sorted, and between two of them there is a number that is in none -/
  before : l.array.Pairwise Before

variable {l work : Rangelist} {rs : List Range}

theorem mem_covered : n ∈ covered rs ↔ ∃ x ∈ rs, n ∈ x := Iff.rfl

theorem covered_congr {rs' : List Range} (h : ∀ x, x ∈ rs ↔ x ∈ rs') :
    covered rs = covered rs' := by
  ext n
  simp only [mem_covered, h]

theorem mem_covered_iff (h : ∀ x ∈ rs, Inside x) :
    n ∈ covered rs ↔ ∃ y ∈ rs.map Range.interval, (n + 2 ^ 63).toNat ∈ y := by
  simp only [mem_covered, List.mem_map, exists_exists_and_eq_and]
  refine exists_congr fun x => and_congr_right fun hx => ?_
  exact (mem_interval_iff (h x hx)).symm

theorem pairwise_apart (h : ∀ x ∈ rs, Inside x) (hbefore : rs.Pairwise Before) :
    (rs.map Range.interval).Pairwise Interval.Apart := by
  refine List.pairwise_map.mpr (hbefore.imp_of_mem fun {x y} hx hy hxy => Or.inl ?_)
  have hlx := (h x hx).le
  have hax := (h x hx).above
  simp only [Range.interval]
  rw [Before] at hxy
  omega

theorem apart_of_mem (hapart : (rs.map Range.interval).Pairwise Interval.Apart) (ha : a ∈ rs)
    (hb : b ∈ rs) (hne : a ≠ b) : Interval.Apart a.interval b.interval := by
  have hsymm : Std.Symm fun a b : Range => Interval.Apart a.interval b.interval :=
    ⟨fun a b => Interval.Apart.symm⟩
  exact (List.pairwise_map.mp hapart).forall ha hb hne

theorem sort_before (h : ∀ x ∈ rs, Inside x)
    (hapart : (rs.map Range.interval).Pairwise Interval.Apart) :
    (rs.insertionSort fun r1 r2 => rangeCompare r1 r2 ≤ 0).Pairwise Before := by
  have hsorted : ((rs.insertionSort fun r1 r2 => rangeCompare r1 r2 ≤ 0).map
      Range.fromValue).Pairwise (· ≤ ·) := by
    rw [List.map_insertionSort _ (· ≤ ·)]
    · exact List.pairwise_insertionSort _ _
    · intro a ha b hb
      apply compare_le_zero_iff (h a ha) (h b hb)
      by_cases heq : a = b
      · exact .inl heq
      · exact .inr (apart_of_mem hapart ha hb heq)
  have hperm := List.perm_insertionSort (fun r1 r2 => rangeCompare r1 r2 ≤ 0) rs
  have hsame := (List.Perm.pairwise_iff Interval.Apart.symm (hperm.map Range.interval)).mpr hapart
  rw [List.pairwise_map] at hsorted hsame
  refine (hsorted.and hsame).imp_of_mem fun {x y} hx hy hxy => ?_
  have hlx := (h x (hperm.mem_iff.mp hx)).le
  have hly := (h y (hperm.mem_iff.mp hy)).le
  have hax := (h x (hperm.mem_iff.mp hx)).above
  simp only [Interval.Apart, Range.interval] at hxy
  rw [Before]
  omega

theorem addRangeLoop_spec (hrs : ∀ x ∈ rs, Inside x) (hr : Inside r) (work : Rangelist) :
    ∃ kept, (addRangeLoop rs work r).1.array = work.array ++ kept ∧ (∀ x ∈ kept, x ∈ rs) ∧
      Inside (addRangeLoop rs work r).2 ∧
      kept.map Range.interval = (Interval.absorb (rs.map Range.interval) r.interval).1 ∧
      (addRangeLoop rs work r).2.interval =
        (Interval.absorb (rs.map Range.interval) r.interval).2 := by
  induction rs generalizing work r with
  | nil => exact ⟨[], (List.append_nil _).symm, fun x hx => hx, hr, rfl, rfl⟩
  | cons x rs ih =>
    obtain ⟨hx, hrs⟩ := List.forall_mem_cons.mp hrs
    rw [addRangeLoop, List.map_cons, Interval.absorb]
    by_cases hapart : Interval.Apart x.interval r.interval
    · rw [if_pos ((apart_interval_iff hx hr).mpr hapart), if_pos hapart]
      obtain ⟨kept, harray, hmem, hinside, hkept, hrest⟩ := ih hrs hr (append work x)
      refine ⟨x :: kept, ?_, ?_, hinside, ?_, hrest⟩
      · rw [harray, append, List.append_assoc, List.singleton_append]
      · intro y hy
        rcases List.mem_cons.mp hy with rfl | hy
        · exact .head _
        · exact .tail _ (hmem y hy)
      · rw [List.map_cons, hkept]
    · rw [if_neg fun h => hapart ((apart_interval_iff hx hr).mp h), if_neg hapart]
      obtain ⟨hunion, hhull⟩ := union_spec hx hr hapart
      obtain ⟨kept, harray, hmem, hinside, hkept, hrest⟩ := ih hrs hunion work
      rw [hhull] at hkept hrest
      exact ⟨kept, harray, fun y hy => List.mem_cons_of_mem _ (hmem y hy), hinside, hkept, hrest⟩

theorem Roomy.append (h : Roomy work) (r : Range) : Roomy (append work r) := by
  have hroom := h.room
  have hfits := h.fits
  refine ⟨?_, ?_⟩
  · simp only [RangeList.append]
    split <;> omega
  · simp only [RangeList.append, List.length_append, List.length_singleton]
    split <;> omega

theorem Roomy.addRangeLoop (h : Roomy work) : Roomy (addRangeLoop rs work r).1 := by
  induction rs generalizing work r with
  | nil => exact h
  | cons x rs ih =>
    rw [RangeList.addRangeLoop]
    split
    · exact ih (h.append x)
    · exact ih h

theorem canonical_init : Canonical rangelistInit :=
  ⟨⟨by decide, by decide⟩, fun x hx => absurd hx List.not_mem_nil, List.Pairwise.nil⟩

theorem walk_spec (h : Canonical l) (hr : Inside r) :
    let work := addRangeLoop l.array rangelistInit r
    Roomy (append work.1 work.2) ∧ (∀ x ∈ (append work.1 work.2).array, Inside x) ∧
      (append work.1 work.2).array.map Range.interval =
        (Interval.absorb (l.array.map Range.interval) r.interval).1 ++
          [(Interval.absorb (l.array.map Range.interval) r.interval).2] := by
  obtain ⟨kept, harray, hmem, hinside, hkept, hrest⟩ :=
    addRangeLoop_spec h.inside hr rangelistInit
  refine ⟨canonical_init.toRoomy.addRangeLoop.append _, fun x hx => ?_, ?_⟩
  · rw [append, harray] at hx
    rcases List.mem_append.mp hx with hx | hx
    · exact h.inside x (hmem x hx)
    · exact List.mem_singleton.mp hx ▸ hinside
  · rw [append, harray, List.map_append, List.map_singleton, hrest, ← hkept]
    rfl

theorem add_spec (h : Canonical l) (hr : Inside r) :
    Canonical (rangelistAddRange l r) ∧
      covered (rangelistAddRange l r).array = covered l.array ∪ {n | n ∈ r} := by
  rw [rangelistAddRange]
  split
  next hempty =>
    rw [hempty]
    refine ⟨⟨⟨h.room, h.room⟩, ?_, List.pairwise_singleton _ _⟩, ?_⟩
    · intro x hx
      exact List.mem_singleton.mp hx ▸ hr
    · ext n
      simp [covered]
  next =>
  split
  next hany =>
    refine ⟨h, (Set.union_eq_self_of_subset_right fun n hn => ?_).symm⟩
    obtain ⟨x, hx, hincludes⟩ := List.any_eq_true.mp hany
    have hends := (includes_eq_one_iff (h.inside x hx) hr).mp (of_decide_eq_true hincludes)
    exact ⟨x, hx, le_trans hends.1 hn.1, le_trans hn.2 hends.2⟩
  obtain ⟨hroomy, hall, hintervals⟩ := walk_spec h hr
  have hapart := Interval.absorb_apart (pairwise_apart h.inside h.before) r.interval
  rw [← hintervals] at hapart
  refine ⟨⟨⟨hroomy.room, ?_⟩, fun x hx => ?_, sort_before hall hapart⟩, ?_⟩
  · exact (List.length_insertionSort ..).trans_le hroomy.fits
  · exact hall x ((List.mem_insertionSort _).mp hx)
  · refine (covered_congr fun x => List.mem_insertionSort _).trans ?_
    ext n
    rw [mem_covered_iff hall, hintervals, Interval.mem_absorb, mem_interval_iff hr,
      ← mem_covered_iff h.inside]
    exact or_comm

/-- **Adding a range to the array does what adding it to a list of intervals does.** -/
theorem addRange_interval (h : Canonical l) (hr : Inside r) :
    (rangelistAddRange l r).array.map Range.interval =
      NodeList.rangelistAddRange (l.array.map Range.interval) r.interval := by
  have hincludes : (l.array.map Range.interval).any (NodeList.rangeIncludes · r.interval) =
      l.array.any fun x => rangeIncludes x r = 1 := by
    rw [List.any_map, Bool.eq_iff_iff, List.any_eq_true, List.any_eq_true]
    refine exists_congr fun x => and_congr_right fun hx => ?_
    rw [decide_eq_true_iff, includes_eq_one_iff (h.inside x hx) hr]
    have hax := (h.inside x hx).above
    have hlx := (h.inside x hx).le
    have har := hr.above
    have hlr := hr.le
    rw [Function.comp_apply, NodeList.rangeIncludes, decide_eq_true_iff]
    simp only [Range.interval]
    omega
  rw [rangelistAddRange, NodeList.rangelistAddRange, hincludes, NodeList.addRangeLoop_eq]
  simp only [List.map_eq_nil_iff]
  split
  next => rfl
  next =>
  split
  next => rfl
  obtain ⟨-, hall, hintervals⟩ := walk_spec h hr
  have hapart := Interval.absorb_apart (pairwise_apart h.inside h.before) r.interval
  rw [← hintervals] at hapart ⊢
  refine List.map_insertionSort _ _ _ _ fun a ha b hb => ?_
  rw [NodeList.RangeLe]
  by_cases heq : a = b
  · subst heq
    exact iff_of_true ((compare_le_zero_iff (hall a ha) (hall a ha) (.inl rfl)).mpr le_rfl)
      (.inl rfl)
  have hab := apart_of_mem hapart ha hb heq
  rw [compare_le_zero_iff (hall a ha) (hall b hb) (.inr hab)]
  have haa := (hall a ha).above
  have hla := (hall a ha).le
  have hba := (hall b hb).above
  have hlb := (hall b hb).le
  simp only [Interval.Apart, Range.interval, Interval.mk.injEq] at hab ⊢
  omega

theorem addLeft_spec (h : Canonical work) (hr : Inside r) (hx : Inside x)
    (hmeet : r.fromValue ≤ x.toValue) :
    let left := if x.fromValue < r.fromValue then
      rangelistAddRange work (rangeSet x.fromValue (long (r.fromValue - 1))) else work
    Canonical left ∧ covered left.array = covered work.array ∪ {n | n ∈ x ∧ n < r.fromValue} := by
  have hax := hx.above
  have hbx := hx.below
  have hlr := hr.le
  have hbr := hr.below
  simp only
  split
  next hlt =>
    rw [long_eq (by omega) (by omega), rangeSet, if_pos (by omega)]
    obtain ⟨hcanonical, hcovered⟩ :=
      add_spec h (r := ⟨x.fromValue, r.fromValue - 1⟩)
        ⟨hax, by simp only; omega, by simp only; omega⟩
    refine ⟨hcanonical, hcovered.trans ?_⟩
    congr 1
    ext n
    simp only [Set.mem_ofPred_eq, mem_iff]
    omega
  next hge =>
    refine ⟨h, (Set.union_eq_self_of_subset_right ?_).symm⟩
    rintro n ⟨hn, hlt⟩
    have := hn.1
    omega

theorem addRight_spec (h : Canonical work) (hr : Inside r) (hx : Inside x)
    (hmeet : x.fromValue ≤ r.toValue) :
    let right := if x.toValue > r.toValue then
      rangelistAddRange work (rangeSet (long (r.toValue + 1)) x.toValue) else work
    Canonical right ∧ covered right.array = covered work.array ∪ {n | n ∈ x ∧ r.toValue < n} := by
  have hax := hx.above
  have hbx := hx.below
  have hlr := hr.le
  have har := hr.above
  simp only
  split
  next hlt =>
    rw [long_eq (by omega) (by omega), rangeSet, if_pos (by omega)]
    obtain ⟨hcanonical, hcovered⟩ :=
      add_spec h (r := ⟨r.toValue + 1, x.toValue⟩)
        ⟨by simp only; omega, by simp only; omega, hbx⟩
    refine ⟨hcanonical, hcovered.trans ?_⟩
    congr 1
    ext n
    simp only [Set.mem_ofPred_eq, mem_iff]
    omega
  next hge =>
    refine ⟨h, (Set.union_eq_self_of_subset_right ?_).symm⟩
    rintro n ⟨hn, hlt⟩
    have := hn.2
    omega

theorem removeRangeStep_spec (h : Canonical work) (hr : Inside r) (hx : Inside x) :
    Canonical (removeRangeStep r work x) ∧
      covered (removeRangeStep r work x).array =
        covered work.array ∪ {n | n ∈ x ∧ n ∉ r} := by
  rw [removeRangeStep]
  by_cases hmeet : rangeIntersects x r = true
  · rw [if_neg (by simpa using hmeet)]
    rw [intersects_iff hx hr] at hmeet
    by_cases hparts : x.fromValue ≠ x.toValue ∧ rangeIncludes r x ≠ 1
    · rw [if_pos hparts]
      obtain ⟨hleft, hcovered⟩ := addLeft_spec h hr hx hmeet.2
      obtain ⟨hright, hall⟩ := addRight_spec hleft hr hx hmeet.1
      refine ⟨hright, hall.trans ?_⟩
      rw [hcovered, Set.union_assoc]
      congr 1
      ext n
      simp only [Set.mem_union, Set.mem_ofPred_eq, mem_iff]
      omega
    · -- nothing of the range is left
      rw [if_neg hparts]
      refine ⟨h, (Set.union_eq_self_of_subset_right ?_).symm⟩
      rintro n ⟨hn, hnot⟩
      refine absurd ?_ hnot
      rw [mem_iff] at hn ⊢
      by_cases hone : x.fromValue = x.toValue
      · omega
      · have hincludes := (includes_eq_one_iff hr hx).mp (by simpa [hone] using hparts)
        omega
  · rw [if_pos (by simpa using hmeet)]
    rw [intersects_iff hx hr] at hmeet
    obtain ⟨hcanonical, hcovered⟩ := add_spec h hx
    refine ⟨hcanonical, ?_⟩
    rw [hcovered]
    congr 1
    ext n
    refine ⟨fun hn => ⟨hn, fun hnr => hmeet ?_⟩, fun hn => hn.1⟩
    exact ⟨le_trans hn.1 hnr.2, le_trans hnr.1 hn.2⟩

theorem removeRange_foldl (h : Canonical work) (hr : Inside r) (hrs : ∀ x ∈ rs, Inside x) :
    Canonical (rs.foldl (removeRangeStep r) work) ∧
      covered (rs.foldl (removeRangeStep r) work).array =
        covered work.array ∪ covered rs \ {n | n ∈ r} := by
  induction rs generalizing work with
  | nil => exact ⟨h, by simp [covered]⟩
  | cons x rs ih =>
    obtain ⟨hx, hrs⟩ := List.forall_mem_cons.mp hrs
    obtain ⟨hstep, hcovered⟩ := removeRangeStep_spec h hr hx
    obtain ⟨hrest, hall⟩ := ih hstep hrs
    refine ⟨hrest, ?_⟩
    rw [List.foldl_cons, hall, hcovered]
    ext n
    simp only [Set.mem_union, Set.mem_sdiff, Set.mem_ofPred_eq, mem_covered,
      List.exists_mem_cons_iff]
    rw [or_assoc, ← or_and_right]

/-- **Removing a range**: the list stays canonical and loses the numbers of the range. -/
theorem remove_spec (h : Canonical l) (hr : Inside r) :
    Canonical (rangelistRemoveRange l r) ∧
      covered (rangelistRemoveRange l r).array = covered l.array \ {n | n ∈ r} := by
  rw [rangelistRemoveRange]
  split
  next hempty =>
    refine ⟨h, ?_⟩
    rw [hempty]
    simp [covered]
  next =>
    obtain ⟨hcanonical, hcovered⟩ := removeRange_foldl canonical_init hr h.inside
    refine ⟨hcanonical, hcovered.trans ?_⟩
    simp [rangelistInit, covered]

/-! ## What the numbers of two lists have to do with each other -/

theorem rangelistIntersects_iff {l l' : Rangelist} (h : Canonical l) (h' : Canonical l') :
    rangelistIntersects l l' = true ↔ (covered l.array ∩ covered l'.array).Nonempty := by
  simp only [rangelistIntersects, List.any_eq_true]
  refine ⟨?_, ?_⟩
  · rintro ⟨a, ha, b, hb, hmeet⟩
    rw [intersects_iff (h.inside a ha) (h'.inside b hb)] at hmeet
    -- the greater of the first numbers is in both
    refine ⟨max a.fromValue b.fromValue, ⟨a, ha, le_max_left .., ?_⟩, b, hb, le_max_right .., ?_⟩
    · exact max_le (h.inside a ha).le hmeet.2
    · exact max_le hmeet.1 (h'.inside b hb).le
  · rintro ⟨n, ⟨a, ha, hna⟩, b, hb, hnb⟩
    refine ⟨a, ha, b, hb, (intersects_iff (h.inside a ha) (h'.inside b hb)).mpr ?_⟩
    exact ⟨le_trans hna.1 hnb.2, le_trans hnb.1 hna.2⟩

theorem exists_includes (h : Canonical l) (hb : Inside b) (hsub : ∀ n ∈ b, n ∈ covered l.array) :
    ∃ a ∈ l.array, rangeIncludes a b = 1 := by
  obtain ⟨a, ha, hfirst⟩ := hsub b.fromValue ⟨le_refl _, hb.le⟩
  refine ⟨a, ha, (includes_eq_one_iff (h.inside a ha) hb).mpr ⟨hfirst.1, ?_⟩⟩
  by_contra hlt
  -- the number after `a` is in `b`, and no range of the list may have it
  obtain ⟨c, hc, hnext⟩ := hsub (a.toValue + 1) ⟨by have := hfirst.2; omega, by omega⟩
  have hne : a ≠ c := by
    rintro rfl
    have := hnext.2
    omega
  have hapart := apart_of_mem (pairwise_apart h.inside h.before) ha hc hne
  have haa := (h.inside a ha).above
  have hac := (h.inside c hc).above
  have hla := (h.inside a ha).le
  have hlc := (h.inside c hc).le
  rw [mem_iff] at hnext
  simp only [Interval.Apart, Range.interval] at hapart
  omega

theorem rangelistIncludes_iff {l l' : Rangelist} (h : Canonical l) (h' : Canonical l') :
    rangelistIncludes l l' = true ↔ covered l'.array ⊆ covered l.array := by
  rw [rangelistIncludes, decide_eq_true_iff, List.countP_eq_length]
  simp only [List.any_eq_true, decide_eq_true_iff]
  refine ⟨?_, ?_⟩
  · rintro hall n ⟨b, hb, hn⟩
    obtain ⟨a, ha, hincludes⟩ := hall b hb
    rw [includes_eq_one_iff (h.inside a ha) (h'.inside b hb)] at hincludes
    exact ⟨a, ha, le_trans hincludes.1 hn.1, le_trans hn.2 hincludes.2⟩
  · intro hsub b hb
    exact exists_includes h (h'.inside b hb) fun n hn => hsub ⟨b, hb, hn⟩

/-! ## Any calls -/

inductive Call where
  | addRange (r : Range)
  | removeRange (r : Range)

def Call.range : Call → Range
  | .addRange r => r
  | .removeRange r => r

def step (l : Rangelist) : Call → Rangelist
  | .addRange r => rangelistAddRange l r
  | .removeRange r => rangelistRemoveRange l r

def run (calls : List Call) : Rangelist := calls.foldl step rangelistInit

def setStep (s : Set ℤ) : Call → Set ℤ
  | .addRange r => s ∪ {n | n ∈ r}
  | .removeRange r => s \ {n | n ∈ r}

/-- The added numbers without those that were removed later. -/
def numbers (calls : List Call) : Set ℤ := calls.foldl setStep ∅

theorem step_spec (h : Canonical l) (call : Call) (hcall : Inside call.range) :
    Canonical (step l call) ∧ covered (step l call).array = setStep (covered l.array) call := by
  cases call with
  | addRange r => exact add_spec h hcall
  | removeRange r => exact remove_spec h hcall

theorem foldl_spec (h : Canonical l) (calls : List Call) (hcalls : ∀ c ∈ calls, Inside c.range) :
    Canonical (calls.foldl step l) ∧
      covered (calls.foldl step l).array = calls.foldl setStep (covered l.array) := by
  induction calls generalizing l with
  | nil => exact ⟨h, rfl⟩
  | cons c calls ih =>
    obtain ⟨hc, hcalls⟩ := List.forall_mem_cons.mp hcalls
    obtain ⟨hstep, hcovered⟩ := step_spec h c hc
    rw [List.foldl_cons, List.foldl_cons, ← hcovered]
    exact ih hstep hcalls

theorem canonical_run (calls : List Call) (hcalls : ∀ c ∈ calls, Inside c.range) :
    Canonical (run calls) ∧ covered (run calls).array = numbers calls := by
  obtain ⟨hcanonical, hcovered⟩ := foldl_spec canonical_init calls hcalls
  refine ⟨hcanonical, hcovered.trans ?_⟩
  rw [numbers, rangelistInit, covered]
  simp

/-- **Range lists are canonical sets of numbers**, whatever the calls. The arrays have fewer than
`2 ^ 31` ranges, which an `int` counts. -/
theorem rangelists_are_sets (calls : List Call) (hcalls : ∀ c ∈ calls, Inside c.range) :
    (Canonical (run calls) ∧ covered (run calls).array = numbers calls) ∧
      ∀ others : List Call, (∀ c ∈ others, Inside c.range) →
        (rangelistIncludes (run calls) (run others) = true ↔ numbers others ⊆ numbers calls) ∧
        (rangelistIntersects (run calls) (run others) = true ↔
          (numbers calls ∩ numbers others).Nonempty) := by
  have hrun := canonical_run calls hcalls
  refine ⟨hrun, fun others hothers => ?_⟩
  have hrun' := canonical_run others hothers
  rw [← hrun.2, ← hrun'.2]
  exact ⟨rangelistIncludes_iff hrun.1 hrun'.1, rangelistIntersects_iff hrun.1 hrun'.1⟩

/-- Three calls; the last one cuts the range of the second in two. -/
def threeCalls : List Call := [.addRange ⟨1, 4⟩, .addRange ⟨5, 20⟩, .removeRange ⟨7, 9⟩]

theorem inside_threeCalls : ∀ c ∈ threeCalls, Inside c.range := by
  intro c hc
  simp only [threeCalls, List.mem_cons, List.not_mem_nil, or_false] at hc
  rcases hc with rfl | rfl | rfl <;> exact ⟨by decide, by decide, by decide⟩

theorem inside_oneCall : ∀ c ∈ [Call.addRange ⟨12, 15⟩], Inside c.range := by
  intro c hc
  obtain rfl := List.mem_singleton.mp hc
  exact ⟨by decide, by decide, by decide⟩

/-- The three calls and the one: the range of the one is included. -/
theorem rangelists_are_sets_threeCalls :
    (Canonical (run threeCalls) ∧ covered (run threeCalls).array = numbers threeCalls) ∧
      numbers [Call.addRange ⟨12, 15⟩] ⊆ numbers threeCalls :=
  have h := rangelists_are_sets threeCalls inside_threeCalls
  ⟨h.1, (h.2 [.addRange ⟨12, 15⟩] inside_oneCall).1.mp (by decide)⟩

example : run threeCalls = ⟨[⟨1, 6⟩, ⟨10, 20⟩], 16⟩ := by decide

/-- Both ranges are in the way of `4-12` and are merged with it. -/
theorem addRange_interval_threeCalls :
    (rangelistAddRange (run threeCalls) ⟨4, 12⟩).array.map Range.interval =
      NodeList.rangelistAddRange ((run threeCalls).array.map Range.interval)
        (Range.interval ⟨4, 12⟩) :=
  addRange_interval (canonical_run threeCalls inside_threeCalls).1
    (r := ⟨4, 12⟩) ⟨by decide, by decide, by decide⟩

end

end CloudNfs.RangeList
