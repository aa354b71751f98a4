import CloudNfs.NodeList

/-!
# The sublists of a node list

A node list has one sublist for each pattern: the ranges of all the entries with this pattern, kept
apart, and the largest padding that one of them asks for.

* `HasNumbers.addRange`: to add a range is to add its numbers.
* `Groups.addSublist`: what a node list holds when one more sublist has been added.
-/

namespace CloudNfs

namespace NodeList

/-! ### Ranges are kept apart -/

theorem not_intersects_iff (a b : Interval) :
    (!rangeIntersects a b && !rangeContiguous a b) = true ↔ a.Apart b := by
  have ha := a.le
  have hb := b.le
  simp only [rangeIntersects, rangeContiguous, Interval.Apart, Bool.and_eq_true, Bool.not_eq_true',
    decide_eq_false_iff_not]
  omega

theorem addRangeLoop_eq (array : List Interval) (r : Interval) :
    addRangeLoop array r = Interval.absorb array r := by
  induction array generalizing r with
  | nil => rfl
  | cons x array ih =>
    rw [addRangeLoop, Interval.absorb]
    by_cases hapart : x.Apart r
    · rw [if_pos hapart, if_pos ((not_intersects_iff x r).mpr hapart), ih]
    · rw [if_neg hapart, if_neg (fun h => hapart ((not_intersects_iff x r).mp h)), ih]

/-- Ranges that stay apart, with these numbers. -/
structure HasNumbers (array : List Interval) (numbers : ℕ → Prop) : Prop where
  apart : array.Pairwise Interval.Apart
  mem : ∀ n, (∃ x ∈ array, n ∈ x) ↔ numbers n

theorem hasNumbers_nil : HasNumbers [] fun _ => False :=
  ⟨List.Pairwise.nil, fun n => by simp⟩

theorem HasNumbers.congr {array : List Interval} {p q : ℕ → Prop} (h : HasNumbers array p)
    (hpq : ∀ n, p n ↔ q n) : HasNumbers array q :=
  ⟨h.apart, fun n => (h.mem n).trans (hpq n)⟩

theorem HasNumbers.addRange {array : List Interval} {p : ℕ → Prop} (h : HasNumbers array p)
    (r : Interval) : HasNumbers (rangelistAddRange array r) fun n => p n ∨ n ∈ r := by
  rw [rangelistAddRange]
  by_cases hnil : array = []
  · rw [if_pos hnil]
    subst hnil
    refine ⟨List.pairwise_singleton _ _, fun n => ?_⟩
    rw [← h.mem n]
    simp
  by_cases hincl : array.any (fun x => rangeIncludes x r) = true
  · -- the numbers are there
    rw [if_neg hnil, if_pos hincl]
    obtain ⟨x, hx, hxr⟩ := List.any_eq_true.mp hincl
    simp only [rangeIncludes, decide_eq_true_eq] at hxr
    refine h.congr fun n => ⟨.inl, fun hn => hn.elim id fun hr => (h.mem n).mp ⟨x, hx, ?_⟩⟩
    rw [Interval.mem_iff] at hr ⊢
    omega
  · rw [if_neg hnil, if_neg hincl, addRangeLoop_eq]
    have hperm := List.perm_insertionSort RangeLe
      ((Interval.absorb array r).1 ++ [(Interval.absorb array r).2])
    constructor
    · exact (hperm.pairwise_iff fun hab => Interval.Apart.symm hab).mpr
        (Interval.absorb_apart h.apart r)
    · intro n
      have hmem := Interval.mem_absorb array r n
      rw [h.mem n, or_comm] at hmem
      rw [← hmem]
      simp only [hperm.mem_iff]

theorem HasNumbers.addRanges {array : List Interval} {p : ℕ → Prop} (h : HasNumbers array p)
    (rs : List Interval) :
    HasNumbers (rangelistAddRangelist array rs) fun n => p n ∨ ∃ r ∈ rs, n ∈ r := by
  induction rs generalizing array p with
  | nil => exact h.congr fun n => by simp
  | cons r rs ih =>
    rw [rangelistAddRangelist, List.foldl_cons, ← rangelistAddRangelist]
    refine (ih (h.addRange r)).congr fun n => ?_
    rw [List.exists_mem_cons_iff, or_assoc]

/-! ### Sublists of one pattern are put together -/

theorem nodepatternEquals_symm {a b : NodePattern} (h : nodepatternEquals a b) :
    nodepatternEquals b a :=
  ⟨h.1.symm, h.2.1.symm, h.2.2.symm⟩

theorem nodepatternEquals_trans {a b c : NodePattern} (h : nodepatternEquals a b)
    (h' : nodepatternEquals b c) : nodepatternEquals a c :=
  ⟨h.1.trans h'.1, h.2.1.trans h'.2.1, h.2.2.trans h'.2.2⟩

theorem isEmpty_eq_of_equals {a b : Sublist} (h : nodepatternEquals a.pattern b.pattern) :
    a.isEmpty = b.isEmpty := by
  rw [Sublist.isEmpty, Sublist.isEmpty, h.2.1, h.2.2]

/-- What a sublist holds of those that were added: the largest padding of its pattern, and all the
numbers. -/
structure GroupOf (srcs : List Sublist) (g : Sublist) : Prop where
  padding : ∃ x ∈ srcs, nodepatternEquals g.pattern x.pattern ∧
    x.pattern.padding = g.pattern.padding
  le : ∀ x ∈ srcs, nodepatternEquals g.pattern x.pattern → x.pattern.padding ≤ g.pattern.padding
  numbers : HasNumbers g.rangelist fun n =>
    ∃ x ∈ srcs, nodepatternEquals g.pattern x.pattern ∧ ∃ r ∈ x.rangelist, n ∈ r

/-- **The node list after sublists were added**: one sublist for each of their patterns. -/
structure Groups (srcs nodelist : List Sublist) : Prop where
  distinct : nodelist.Pairwise fun a b => ¬ nodepatternEquals a.pattern b.pattern
  group : ∀ g ∈ nodelist, GroupOf srcs g
  cover : ∀ x ∈ srcs, ∃ g ∈ nodelist, nodepatternEquals g.pattern x.pattern

def Sublist.add (dest src : Sublist) : Sublist :=
  ⟨{ dest.pattern with
      padding :=
        if dest.pattern.padding < src.pattern.padding then src.pattern.padding
        else dest.pattern.padding },
    rangelistAddRangelist dest.rangelist src.rangelist⟩

theorem addSublist_cases (src : Sublist) (nodelist : List Sublist) :
    (∃ before dest after, nodelist = before ++ dest :: after ∧
      nodepatternEquals dest.pattern src.pattern ∧
      addSublist src nodelist = before ++ dest.add src :: after) ∨
    (∀ g ∈ nodelist, ¬ nodepatternEquals g.pattern src.pattern) ∧
      addSublist src nodelist =
        nodelist ++ [⟨src.pattern, rangelistAddRangelist [] src.rangelist⟩] := by
  induction nodelist with
  | nil => exact .inr ⟨fun g hg => absurd hg List.not_mem_nil, rfl⟩
  | cons dest rest ih =>
    rw [addSublist]
    by_cases hequals : nodepatternEquals dest.pattern src.pattern
    · exact .inl ⟨[], dest, rest, rfl, hequals, by rw [if_pos hequals]; rfl⟩
    rw [if_neg hequals]
    rcases ih with ⟨before, dest', after, rfl, hdest, heq⟩ | ⟨hnone, heq⟩
    · exact .inl ⟨dest :: before, dest', after, rfl, hdest, by rw [heq, List.cons_append]⟩
    · refine .inr ⟨fun g hg => ?_, by rw [heq, List.cons_append]⟩
      rcases List.mem_cons.mp hg with rfl | hg
      · exact hequals
      · exact hnone g hg

theorem GroupOf.other {srcs : List Sublist} {g src : Sublist} (h : GroupOf srcs g)
    (hother : ¬ nodepatternEquals g.pattern src.pattern) : GroupOf (srcs ++ [src]) g := by
  have hiff : ∀ x, x ∈ srcs ++ [src] ∧ nodepatternEquals g.pattern x.pattern ↔
      x ∈ srcs ∧ nodepatternEquals g.pattern x.pattern := by
    intro x
    rw [List.mem_append, List.mem_singleton]
    constructor
    · rintro ⟨hx | rfl, hequals⟩
      · exact ⟨hx, hequals⟩
      · exact absurd hequals hother
    · rintro ⟨hx, hequals⟩
      exact ⟨.inl hx, hequals⟩
  obtain ⟨x, hx, hequals, hpadding⟩ := h.padding
  refine ⟨⟨x, List.mem_append_left _ hx, hequals, hpadding⟩, fun x hx hequals => ?_,
    h.numbers.congr fun n => ?_⟩
  · exact h.le x ((hiff x).mp ⟨hx, hequals⟩).1 hequals
  · refine exists_congr fun x => ?_
    rw [← and_assoc, ← and_assoc, hiff x]

theorem GroupOf.add {srcs : List Sublist} {g src : Sublist} (h : GroupOf srcs g)
    (hsame : nodepatternEquals g.pattern src.pattern) : GroupOf (srcs ++ [src]) (g.add src) := by
  obtain ⟨x, hx, hequals, hpadding⟩ := h.padding
  have hmax : (g.add src).pattern.padding = max g.pattern.padding src.pattern.padding := by
    simp only [Sublist.add]
    split
    · rw [max_eq_right (by omega)]
    · rw [max_eq_left (by omega)]
  refine ⟨?_, fun y hy hkey => ?_, (h.numbers.addRanges src.rangelist).congr fun n => ?_⟩
  · rw [hmax]
    rcases le_total g.pattern.padding src.pattern.padding with hle | hle
    · exact ⟨src, by simp, hsame, (max_eq_right hle).symm⟩
    · exact ⟨x, List.mem_append_left _ hx, hequals, by rw [max_eq_left hle, hpadding]⟩
  · rw [hmax]
    rcases List.mem_append.mp hy with hy | hy
    · exact (h.le y hy hkey).trans (le_max_left _ _)
    · rw [List.mem_singleton.mp hy]
      exact le_max_right _ _
  · constructor
    · rintro (⟨y, hy, hkey, hn⟩ | hn)
      · exact ⟨y, List.mem_append_left _ hy, hkey, hn⟩
      · exact ⟨src, by simp, hsame, hn⟩
    · rintro ⟨y, hy, hkey, hn⟩
      rcases List.mem_append.mp hy with hy | hy
      · exact .inl ⟨y, hy, hkey, hn⟩
      · rw [List.mem_singleton.mp hy] at hn
        exact .inr hn

theorem GroupOf.new {srcs : List Sublist} {src : Sublist} {g : Sublist}
    (hsrcs : ∀ x ∈ srcs, ¬ nodepatternEquals src.pattern x.pattern)
    (hpattern : g.pattern = src.pattern)
    (hnumbers : HasNumbers g.rangelist fun n => ∃ r ∈ src.rangelist, n ∈ r) :
    GroupOf (srcs ++ [src]) g := by
  have honly : ∀ x ∈ srcs ++ [src], nodepatternEquals src.pattern x.pattern → x = src := by
    intro x hx hequals
    rcases List.mem_append.mp hx with hx | hx
    · exact absurd hequals (hsrcs x hx)
    · exact List.mem_singleton.mp hx
  refine ⟨⟨src, by simp, by rw [hpattern]; exact ⟨rfl, rfl, rfl⟩, by rw [hpattern]⟩,
    fun x hx hequals => ?_, hnumbers.congr fun n => ⟨fun hn => ?_, ?_⟩⟩
  · rw [hpattern] at hequals ⊢
    rw [honly x hx hequals]
  · exact ⟨src, by simp, by rw [hpattern]; exact ⟨rfl, rfl, rfl⟩, hn⟩
  · rintro ⟨x, hx, hequals, hn⟩
    rw [hpattern] at hequals
    rwa [honly x hx hequals] at hn

theorem Groups.addSublist {srcs nodelist : List Sublist} (h : Groups srcs nodelist)
    (src : Sublist) : Groups (srcs ++ [src]) (addSublist src nodelist) := by
  rcases addSublist_cases src nodelist with ⟨before, dest, after, rfl, hdest, heq⟩ | ⟨hnone, heq⟩
  · rw [heq]
    obtain ⟨hbefore, hrest, hcross⟩ := List.pairwise_append.mp h.distinct
    obtain ⟨hafter, hafter'⟩ := List.pairwise_cons.mp hrest
    have hother : ∀ g ∈ before ++ after, ¬ nodepatternEquals g.pattern src.pattern := by
      intro g hg hequals
      rcases List.mem_append.mp hg with hg | hg
      · exact hcross g hg dest List.mem_cons_self
          (nodepatternEquals_trans hequals (nodepatternEquals_symm hdest))
      · exact hafter g hg (nodepatternEquals_trans hdest (nodepatternEquals_symm hequals))
    refine ⟨?_, fun g hg => ?_, fun x hx => ?_⟩
    · refine List.pairwise_append.mpr ⟨hbefore, List.pairwise_cons.mpr ⟨hafter, hafter'⟩, ?_⟩
      intro a ha b hb
      rcases List.mem_cons.mp hb with rfl | hb
      · exact hcross a ha dest List.mem_cons_self
      · exact hcross a ha b (.tail _ hb)
    · rcases List.mem_append.mp hg with hg' | hg'
      · exact (h.group g (List.mem_append_left _ hg')).other (hother g (List.mem_append_left _ hg'))
      · rcases List.mem_cons.mp hg' with rfl | hg'
        · exact (h.group dest (by simp)).add hdest
        · exact (h.group g (by simp [hg'])).other (hother g (List.mem_append_right _ hg'))
    · rcases List.mem_append.mp hx with hx | hx
      · obtain ⟨g, hg, hequals⟩ := h.cover x hx
        rcases List.mem_append.mp hg with hg' | hg'
        · exact ⟨g, List.mem_append_left _ hg', hequals⟩
        · rcases List.mem_cons.mp hg' with rfl | hg'
          · exact ⟨g.add src, by simp, hequals⟩
          · exact ⟨g, by simp [hg'], hequals⟩
      · rw [List.mem_singleton.mp hx]
        exact ⟨dest.add src, by simp, hdest⟩
  · rw [heq]
    have hsrcs : ∀ x ∈ srcs, ¬ nodepatternEquals src.pattern x.pattern := by
      intro x hx hequals
      obtain ⟨g, hg, hequals'⟩ := h.cover x hx
      exact hnone g hg (nodepatternEquals_trans hequals' (nodepatternEquals_symm hequals))
    refine ⟨?_, fun g hg => ?_, fun x hx => ?_⟩
    · refine List.pairwise_append.mpr ⟨h.distinct, List.pairwise_singleton _ _, ?_⟩
      intro a ha b hb
      rw [List.mem_singleton.mp hb]
      exact hnone a ha
    · rcases List.mem_append.mp hg with hg | hg
      · exact (h.group g hg).other (hnone g hg)
      · rw [List.mem_singleton.mp hg]
        refine GroupOf.new hsrcs rfl ((hasNumbers_nil.addRanges src.rangelist).congr fun n => ?_)
        rw [false_or]
    · rcases List.mem_append.mp hx with hx | hx
      · obtain ⟨g, hg, hequals⟩ := h.cover x hx
        exact ⟨g, List.mem_append_left _ hg, hequals⟩
      · rw [List.mem_singleton.mp hx]
        exact ⟨⟨src.pattern, rangelistAddRangelist [] src.rangelist⟩, by simp, ⟨rfl, rfl, rfl⟩⟩

end NodeList

end CloudNfs
