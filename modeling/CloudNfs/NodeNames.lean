import CloudNfs.NodeGroups
import CloudNfs.NodeTokens
import Mathlib.Data.List.Dedup
import Mathlib.Data.Bool.AllAny

/-!
# The hosts that a list names

The code expands a list to the names of its tokens if no plain name is read as a range, and if the
tokens that share a pattern agree on the zeros (`expands_of_expandable`):

* digits and dashes of a plain name are one number, and something stands around it;
* numbers fit in 32 bits, and the buffer of a name is large enough;
* no number is written in fewer digits than a number of the same pattern with zeros before it;
* two patterns do not name the same host, and there are less than `2 ^ 31` names.
-/

namespace CloudNfs

namespace NodeList

/-! ### The node list of a list of tokens -/

theorem orNull_eq_none_iff {s : List Char} : orNull s = none ↔ s = [] := by
  rw [orNull]
  split <;> simp [*]

theorem orNull_getD (s : List Char) : (orNull s).getD [] = s := by
  rw [orNull]
  split
  · exact (by assumption : s = []).symm
  · rfl

theorem orNull_injective : Function.Injective orNull := by
  intro s s' h
  rw [← orNull_getD s, h, orNull_getD]

theorem Token.sublist_isEmpty {t : Token} (hclear : t.Clear) : t.sublist.isEmpty = false := by
  have haround : ∀ e ∈ t.entry, e.before ≠ [] ∨ e.after ≠ [] := by
    cases t with
    | plain t => exact fun e he => (hclear e he).1
    | bracketed t =>
      intro e he
      cases he
      exact hclear
  rw [Token.sublist]
  cases hentry : t.entry with
  | none => rfl
  | some e =>
    simp only [Sublist.isEmpty, Bool.and_eq_false_imp, Option.isNone_iff_eq_none,
      orNull_eq_none_iff, Option.isNone_eq_false_iff]
    intro hbefore
    rw [Option.isSome_iff_ne_none, ne_eq, orNull_eq_none_iff]
    exact (haround e hentry).resolve_left (fun h => h hbefore)

theorem Token.groups_copy (t : Token) : Groups [t.sublist] [t.sublist.copy] := by
  have hnumbers : HasNumbers t.sublist.copy.rangelist
      fun n => ∃ r ∈ t.sublist.rangelist, n ∈ r := by
    rw [Sublist.copy, Token.sublist]
    cases t.entry with
    | none => exact hasNumbers_nil.congr fun n => by simp
    | some e => exact ⟨(hasNumbers_nil.addRanges _).apart, fun n => Iff.rfl⟩
  refine ⟨List.pairwise_singleton _ _, fun g hg => ?_, fun x hx => ?_⟩
  · obtain rfl := List.mem_singleton.mp hg
    exact @GroupOf.new [] t.sublist t.sublist.copy (fun x hx => absurd hx List.not_mem_nil) rfl
      hnumbers
  · obtain rfl := List.mem_singleton.mp hx
    exact ⟨t.sublist.copy, by simp, ⟨rfl, rfl, rfl⟩⟩

theorem Groups.addNodelist {srcs nodelist : List Sublist} (h : Groups srcs nodelist)
    (hne : nodelist ≠ []) (hsrcs : ∀ x ∈ srcs, x.isEmpty = false) {src : Sublist}
    (hsrc : src.isEmpty = false) :
    Groups (srcs ++ [src]) (nodelistAddNodelist nodelist src) ∧
      nodelistAddNodelist nodelist src ≠ [] := by
  obtain ⟨first, rest, rfl⟩ := List.exists_cons_of_ne_nil hne
  have hfirst : first.isEmpty = false := by
    obtain ⟨x, hx, hequals, -⟩ := (h.group first (.head _)).padding
    rw [isEmpty_eq_of_equals hequals, hsrcs x hx]
  have heq : nodelistAddNodelist (first :: rest) src = NodeList.addSublist src (first :: rest) := by
    rw [nodelistAddNodelist, hsrc, if_neg (by simp), List.headD_cons, hfirst, if_neg (by simp)]
  rw [heq]
  refine ⟨h.addSublist src, ?_⟩
  rw [NodeList.addSublist]
  split <;> simp

/-- **The node list of a list of tokens** has one sublist for each of their patterns. -/
theorem groups_listText {ts : List Token} (hts : ts ≠ []) (hclear : ∀ t ∈ ts, t.Clear)
    (hfits : ∀ t ∈ ts, ∀ e ∈ t.entry, ∀ r ∈ e.ranges, r.interval.hi < 2 ^ 32) :
    Groups (ts.map Token.sublist) (nodelistAddNodes (listText ts)) := by
  have hfold : ∀ rest : List Token, (∀ t ∈ rest, t ∈ ts) → ∀ srcs nodelist,
      Groups srcs nodelist → nodelist ≠ [] → (∀ x ∈ srcs, x.isEmpty = false) →
      Groups (srcs ++ rest.map Token.sublist)
        ((rest.map Token.text).foldl
          (fun nodelist token => nodelistAddNodelist nodelist (entrySublist token)) nodelist) := by
    intro rest
    induction rest with
    | nil =>
      intro _ srcs nodelist h _ _
      rwa [List.map_nil, List.append_nil]
    | cons t rest ih =>
      intro hrest srcs nodelist h hne hsrcs
      have ht := hrest t List.mem_cons_self
      have hempty := Token.sublist_isEmpty (hclear t ht)
      obtain ⟨hgroups, hne'⟩ := h.addNodelist hne hsrcs hempty
      rw [List.map_cons, List.map_cons, List.foldl_cons,
        entrySublist_text (hclear t ht) (hfits t ht), List.append_cons]
      refine ih (fun t' ht' => hrest t' (.tail _ ht')) _ _ hgroups hne' ?_
      intro x hx
      rcases List.mem_append.mp hx with hx | hx
      · exact hsrcs x hx
      · rw [List.mem_singleton.mp hx, hempty]
  obtain ⟨t, rest, rfl⟩ := List.exists_cons_of_ne_nil hts
  have ht : t ∈ t :: rest := List.mem_cons_self
  have hempty := Token.sublist_isEmpty (hclear t ht)
  have hfirst : nodelistAddNodelist [nodelistInit] (entrySublist t.text) = [t.sublist.copy] := by
    rw [entrySublist_text (hclear t ht) (hfits t ht), nodelistAddNodelist, hempty,
      if_neg (by simp)]
    rfl
  rw [nodelistAddNodes, tokensFrom_listText hts, List.map_cons, List.map_cons, List.foldl_cons,
    hfirst]
  refine hfold rest (fun t' ht' => List.mem_cons_of_mem _ ht') _ _ t.groups_copy (by simp) ?_
  intro x hx
  rw [List.mem_singleton.mp hx, hempty]

/-! ### Numbers are printed as they are written -/

theorem le_maxPadding (padding : ℕ) (rs : List WrittenRange) :
    padding ≤ maxPadding padding rs ∧ ∀ r ∈ rs, r.padding ≤ maxPadding padding rs := by
  induction rs generalizing padding with
  | nil => exact ⟨le_rfl, fun r hr => absurd hr List.not_mem_nil⟩
  | cons r rs ih =>
    obtain ⟨hle, hrs⟩ := ih (max padding r.padding)
    rw [maxPadding, List.foldl_cons, ← maxPadding]
    refine ⟨(le_max_left _ _).trans hle, fun r' hr' => ?_⟩
    rcases List.mem_cons.mp hr' with rfl | hr'
    · exact (le_max_right _ _).trans hle
    · exact hrs r' hr'

theorem maxPadding_mem (padding : ℕ) (rs : List WrittenRange) :
    maxPadding padding rs = padding ∨ ∃ r ∈ rs, r.padding = maxPadding padding rs := by
  induction rs generalizing padding with
  | nil => exact .inl rfl
  | cons r rs ih =>
    rw [maxPadding, List.foldl_cons, ← maxPadding]
    rcases ih (max padding r.padding) with heq | ⟨r', hr', heq⟩
    · rcases le_total padding r.padding with hle | hle
      · refine .inr ⟨r, List.mem_cons_self, ?_⟩
        rw [heq, max_eq_right hle]
      · exact .inl (by rw [heq, max_eq_left hle])
    · exact .inr ⟨r', List.mem_cons_of_mem _ hr', heq⟩

theorem WrittenNumber.paddedDigits_eq (w : WrittenNumber) :
    paddedDigits w.padding w.value = w.digits := by
  rw [padding, value]
  split
  · exact paddedDigits_ofDigitChars w.ne w.isDigit
  · rw [CloudNfs.paddedDigits_eq, Nat.zero_sub, List.replicate_zero, List.nil_append]
    exact paddedDigits_of_head_ne w.ne w.isDigit ‹_›

theorem WrittenNumber.padding_pos {w : WrittenNumber} (h : w.value = 0) : 0 < w.padding := by
  rw [padding]
  split
  · exact List.length_pos_iff.mpr w.ne
  rename_i hhead
  have hdigits := paddedDigits_of_head_ne w.ne w.isDigit hhead
  rw [← value, h] at hdigits
  rw [← hdigits] at hhead
  exact absurd rfl hhead

theorem WrittenRange.padding_pos {r : WrittenRange} (h : 0 ∈ r.interval) : 0 < r.padding := by
  have hlo : r.interval.lo = 0 := Nat.le_zero.mp h.1
  cases r with
  | single n =>
    have hn : n.value = 0 := by simpa [interval, rangeSet] using hlo
    exact n.padding_pos hn
  | span a b =>
    have hab : a.value = 0 ∨ b.value = 0 := by
      simp only [interval, rangeSet] at hlo
      omega
    rcases hab with ha | hb
    · exact lt_of_lt_of_le (a.padding_pos ha) (le_max_left _ _)
    · exact lt_of_lt_of_le (b.padding_pos hb) (le_max_right _ _)

theorem length_toDigits_le {n : ℕ} (hn : n < 2 ^ 32) : (Nat.toDigits 10 n).length ≤ 10 :=
  (Nat.length_toDigits_le_iff (by decide) (by decide)).mpr (by omega)

/-- **A number of a group is printed as it is written**: the padding of the group adds nothing that
is not written. -/
theorem printId_eq {r : WrittenRange} {n padding : ℕ} (hn : n ∈ r.interval)
    (hfits : r.interval.hi < 2 ^ 32) (hsmall : padding < 128) (hle : r.padding ≤ padding)
    (hzeros : padding ≤ (paddedDigits r.padding n).length) :
    printId padding n = paddedDigits r.padding n ∧ (paddedDigits r.padding n).length ≤ 127 := by
  have hlt : n < 2 ^ 32 := lt_of_le_of_lt hn.2 hfits
  have hprecision : ((padding : ℤ) % 2 ^ 32).toNat = padding := by omega
  have hvalue : n % 2 ^ 32 = n := Nat.mod_eq_of_lt hlt
  have hzero : ¬ (padding = 0 ∧ n = 0) := by
    rintro ⟨rfl, rfl⟩
    exact absurd (r.padding_pos hn) (by omega)
  refine ⟨?_, ?_⟩
  · simp only [printId, hprecision, hvalue, hzero, if_false]
    refine paddedDigits_eq_of_le hzeros ?_
    rw [length_paddedDigits]
    exact hle.trans (le_max_left _ _)
  · have hten := length_toDigits_le hlt
    rw [length_paddedDigits]
    omega

/-! ### The names of a sublist -/

theorem mem_entries {ts : List Token} {t : Token} {e : Entry} (ht : t ∈ ts)
    (he : t.entry = some e) : e ∈ entries ts :=
  List.mem_filterMap.mpr ⟨t, ht, he⟩

theorem Token.names_of_none {t : Token} (h : t.entry = none) : t.names = [t.text] := by
  cases t with
  | plain t => rfl
  | bracketed t => cases h

theorem Token.names_of_some {t : Token} {e : Entry} (h : t.entry = some e) : t.names = e.names := by
  cases t with
  | bracketed t =>
    cases h
    rfl
  | plain t =>
    rw [Token.entry] at h
    split at h
    · cases h
    rename_i hdigits
    cases h
    have hinterval : (rangeSet (Nat.ofDigitChars 10 (firstDigits t.name) 0)
        (Nat.ofDigitChars 10 (firstDigits t.name) 0)).numbers =
        [Nat.ofDigitChars 10 (firstDigits t.name) 0] := by
      simp [rangeSet, Interval.numbers]
    have hdigitsEq := WrittenNumber.paddedDigits_eq
      ⟨firstDigits t.name, hdigits, fun _ hc => List.mem_takeWhile_imp hc⟩
    rw [WrittenNumber.value] at hdigitsEq
    rw [Token.names, Entry.names, PlainName.firstEntry, rangeNames, List.flatMap_singleton,
      WrittenRange.interval, WrittenNumber.value, hinterval, List.map_singleton,
      WrittenRange.padding, hdigitsEq, List.append_assoc, ← plain_eq]

section

variable {ts : List Token} {nodelist : List Sublist} {g : Sublist}

theorem nodeStrings_of_none {t : Token} (hkey : nodepatternEquals g.pattern t.sublist.pattern)
    (he : t.entry = none) : nodeStrings g = [t.text] := by
  have hsub : t.sublist = ⟨⟨0, some t.text, none, true⟩, []⟩ := by rw [Token.sublist, he]
  rw [hsub] at hkey
  obtain ⟨hbasic, hprefix, hsuffix⟩ := hkey
  dsimp only at hbasic hprefix hsuffix
  have hlen : t.text.length ≤ t.text.length + 0 + 128 - 1 := by omega
  rw [nodeStrings, hbasic, hprefix, hsuffix, if_pos rfl, Option.getD_some, Option.getD_none,
    List.append_nil, List.length_nil, List.take_of_length_le hlen]

theorem nodeStrings_of_some {t : Token} {e : Entry}
    (hkey : nodepatternEquals g.pattern t.sublist.pattern) (he : t.entry = some e) :
    nodeStrings g = (g.rangelist.flatMap Interval.numbers).map fun n =>
      (e.before ++ printId g.pattern.padding n ++ e.after).take
        (e.before.length + e.after.length + 127) := by
  have hsub : t.sublist = ⟨⟨(maxPadding 0 e.ranges : ℤ), orNull e.before, orNull e.after, false⟩,
      addRanges [] e.ranges⟩ := by rw [Token.sublist, he]
  rw [hsub] at hkey
  obtain ⟨hbasic, hprefix, hsuffix⟩ := hkey
  dsimp only at hbasic hprefix hsuffix
  rw [nodeStrings, hbasic, hprefix, hsuffix, orNull_getD, orNull_getD]
  rfl

theorem entry_of_equals {t t' : Token} {e : Entry}
    (hkey : nodepatternEquals t.sublist.pattern t'.sublist.pattern) (he : t.entry = some e) :
    ∃ e', t'.entry = some e' ∧ e'.before = e.before ∧ e'.after = e.after := by
  rw [Token.sublist, Token.sublist, he] at hkey
  obtain ⟨hbasic, hprefix, hsuffix⟩ := hkey
  cases he' : t'.entry with
  | none =>
    rw [he'] at hbasic
    cases hbasic
  | some e' =>
    rw [he'] at hprefix hsuffix
    exact ⟨e', rfl, (orNull_injective hprefix).symm, (orNull_injective hsuffix).symm⟩

theorem printed_eq (hexp : Expandable ts) (hg : GroupOf (ts.map Token.sublist) g) {t : Token}
    {e : Entry} {r : WrittenRange} {n : ℕ} (ht : t ∈ ts)
    (hkey : nodepatternEquals g.pattern t.sublist.pattern) (he : t.entry = some e)
    (hr : r ∈ e.ranges) (hn : n ∈ r.interval) :
    (e.before ++ printId g.pattern.padding n ++ e.after).take
        (e.before.length + e.after.length + 127) =
      e.before ++ paddedDigits r.padding n ++ e.after := by
  -- the padding of the group is the one of some token
  obtain ⟨x, hx, hxkey, hpadding⟩ := hg.padding
  obtain ⟨t0, ht0, rfl⟩ := List.mem_map.mp hx
  obtain ⟨e0, he0, hbefore, hafter⟩ :=
    entry_of_equals (nodepatternEquals_trans (nodepatternEquals_symm hkey) hxkey) he
  have hpadding0 : g.pattern.padding = (maxPadding 0 e0.ranges : ℤ) := by
    rw [← hpadding, Token.sublist, he0]
  have hle : r.padding ≤ maxPadding 0 e0.ranges := by
    have hmax := hg.le t.sublist (List.mem_map_of_mem ht) hkey
    rw [hpadding0, Token.sublist, he] at hmax
    exact ((le_maxPadding 0 e.ranges).2 r hr).trans (Int.ofNat_le.mp hmax)
  have hsmall : maxPadding 0 e0.ranges < 128 ∧
      maxPadding 0 e0.ranges ≤ (paddedDigits r.padding n).length := by
    rcases maxPadding_mem 0 e0.ranges with hzero | ⟨r0, hr0, heq⟩
    · rw [hzero]
      exact ⟨by decide, Nat.zero_le _⟩
    · rw [← heq]
      exact ⟨(hexp.fits e0 (mem_entries ht0 he0) r0 hr0).2,
        hexp.zeros e (mem_entries ht he) e0 (mem_entries ht0 he0) hbefore.symm hafter.symm r hr r0
          hr0 n hn⟩
  obtain ⟨hprint, hlen⟩ :=
    printId_eq hn (hexp.fits e (mem_entries ht he) r hr).1 hsmall.1 hle hsmall.2
  rw [hpadding0, hprint, List.take_of_length_le]
  rw [List.length_append, List.length_append]
  omega

theorem mem_sublist_rangelist (t : Token) (n : ℕ) :
    (∃ r ∈ t.sublist.rangelist, n ∈ r) ↔ ∃ e ∈ t.entry, ∃ r ∈ e.ranges, n ∈ r.interval := by
  rw [Token.sublist]
  cases t.entry with
  | none => simp
  | some e =>
    dsimp only
    rw [addRanges, (hasNumbers_nil.addRanges _).mem n]
    simp

theorem mem_group_numbers (hg : GroupOf (ts.map Token.sublist) g) (n : ℕ) :
    n ∈ g.rangelist.flatMap Interval.numbers ↔
      ∃ t ∈ ts, nodepatternEquals g.pattern t.sublist.pattern ∧
        ∃ e ∈ t.entry, ∃ r ∈ e.ranges, n ∈ r.interval := by
  rw [List.mem_flatMap]
  simp only [Interval.mem_numbers]
  rw [hg.numbers.mem n]
  constructor
  · rintro ⟨x, hx, hkey, hn⟩
    obtain ⟨t, ht, rfl⟩ := List.mem_map.mp hx
    exact ⟨t, ht, hkey, (mem_sublist_rangelist t n).mp hn⟩
  · rintro ⟨t, ht, hkey, hn⟩
    exact ⟨t.sublist, List.mem_map_of_mem ht, hkey, (mem_sublist_rangelist t n).mpr hn⟩

theorem mem_nodeStrings (hexp : Expandable ts) (hg : GroupOf (ts.map Token.sublist) g)
    (name : List Char) :
    name ∈ nodeStrings g ↔
      ∃ t ∈ ts, nodepatternEquals g.pattern t.sublist.pattern ∧ name ∈ t.names := by
  obtain ⟨x, hx, hxkey, -⟩ := hg.padding
  obtain ⟨t, ht, rfl⟩ := List.mem_map.mp hx
  cases he : t.entry with
  | none =>
    rw [nodeStrings_of_none hxkey he]
    constructor
    · intro hname
      exact ⟨t, ht, hxkey, Token.names_of_none he ▸ hname⟩
    · rintro ⟨t', ht', hkey, hname⟩
      have hsame := nodepatternEquals_trans (nodepatternEquals_symm hkey) hxkey
      cases he' : t'.entry with
      | none =>
        rw [Token.names_of_none he'] at hname
        have htext := hsame.2.1
        rw [Token.sublist, Token.sublist, he, he'] at htext
        rwa [Option.some.inj htext] at hname
      | some e' =>
        obtain ⟨e, hcontra, -⟩ := entry_of_equals hsame he'
        rw [he] at hcontra
        cases hcontra
  | some e =>
    rw [nodeStrings_of_some hxkey he, List.mem_map]
    constructor
    · rintro ⟨n, hn, rfl⟩
      obtain ⟨t', ht', hkey, e', he', r, hr, hmem⟩ := (mem_group_numbers hg n).mp hn
      obtain ⟨e'', he'', hbefore, hafter⟩ :=
        entry_of_equals (nodepatternEquals_trans (nodepatternEquals_symm hxkey) hkey) he
      cases he'.symm.trans he''
      refine ⟨t', ht', hkey, ?_⟩
      rw [Token.names_of_some he', ← hbefore, ← hafter, printed_eq hexp hg ht' hkey he' hr hmem]
      exact List.mem_flatMap.mpr ⟨r, hr, List.mem_map.mpr ⟨n, Interval.mem_numbers.mpr hmem, rfl⟩⟩
    · rintro ⟨t', ht', hkey, hname⟩
      obtain ⟨e', he', hbefore, hafter⟩ :=
        entry_of_equals (nodepatternEquals_trans (nodepatternEquals_symm hxkey) hkey) he
      rw [Token.names_of_some he'] at hname
      obtain ⟨r, hr, hname⟩ := List.mem_flatMap.mp hname
      obtain ⟨n, hn, rfl⟩ := List.mem_map.mp hname
      rw [Interval.mem_numbers] at hn
      refine ⟨n, (mem_group_numbers hg n).mpr ⟨t', ht', hkey, e', he', r, hr, hn⟩, ?_⟩
      rw [← hbefore, ← hafter, printed_eq hexp hg ht' hkey he' hr hn]

theorem nodup_nodeStrings (hexp : Expandable ts) (hg : GroupOf (ts.map Token.sublist) g) :
    (nodeStrings g).Nodup := by
  obtain ⟨x, hx, hxkey, -⟩ := hg.padding
  obtain ⟨t, ht, rfl⟩ := List.mem_map.mp hx
  cases he : t.entry with
  | none =>
    rw [nodeStrings_of_none hxkey he]
    exact List.nodup_singleton _
  | some e =>
    rw [nodeStrings_of_some hxkey he]
    refine List.Nodup.map_on ?_ (Interval.nodup_numbers hg.numbers.apart)
    intro n hn m hm heq
    obtain ⟨t1, ht1, hkey1, e1, he1, r1, hr1, hn⟩ := (mem_group_numbers hg n).mp hn
    obtain ⟨t2, ht2, hkey2, e2, he2, r2, hr2, hm⟩ := (mem_group_numbers hg m).mp hm
    obtain ⟨e1', he1', hbefore1, hafter1⟩ :=
      entry_of_equals (nodepatternEquals_trans (nodepatternEquals_symm hxkey) hkey1) he
    cases he1.symm.trans he1'
    obtain ⟨e2', he2', hbefore2, hafter2⟩ :=
      entry_of_equals (nodepatternEquals_trans (nodepatternEquals_symm hxkey) hkey2) he
    cases he2.symm.trans he2'
    have hn' := printed_eq hexp hg ht1 hkey1 he1 hr1 hn
    have hm' := printed_eq hexp hg ht2 hkey2 he2 hr2 hm
    rw [hbefore1, hafter1] at hn'
    rw [hbefore2, hafter2] at hm'
    rw [hn', hm', List.append_cancel_right_eq, List.append_cancel_left_eq] at heq
    rw [← ofDigitChars_paddedDigits r1.padding n, heq, ofDigitChars_paddedDigits]

theorem length_nodeStrings (g : Sublist) :
    (nodeStrings g).length = nonRecursiveNodesQuantity g := by
  rw [nodeStrings, nonRecursiveNodesQuantity]
  split
  · rfl
  rw [List.length_map, List.length_flatMap]
  congr 1
  refine List.map_congr_left fun r _ => ?_
  have hr := r.le
  rw [Interval.length_numbers]
  omega

end

/-! ### The string and the count -/

theorem foldl_appendsAndExtends {names : List (List Char)} {string : List Char}
    (hstring : string ≠ []) :
    names.foldl appendsAndExtends string = string ++ names.flatMap fun name => ',' :: name := by
  induction names generalizing string with
  | nil => rw [List.foldl_nil, List.flatMap_nil, List.append_nil]
  | cons name names ih =>
    rw [List.foldl_cons, appendsAndExtends, if_neg hstring, ih (by simp), List.flatMap_cons,
      List.append_assoc]

theorem intercalate_eq (name : List Char) (names : List (List Char)) :
    [','].intercalate (name :: names) = name ++ names.flatMap fun name => ',' :: name := by
  induction names generalizing name with
  | nil => simp
  | cons name' names ih =>
    have hcons : [','].intercalate (name :: name' :: names) =
        name ++ ',' :: [','].intercalate (name' :: names) := by
      simp [List.intercalate]
    rw [hcons, ih, List.flatMap_cons, List.cons_append]

theorem splitOn_names {names : List (List Char)} (hne : names ≠ [])
    (hnames : ∀ name ∈ names, name ≠ [] ∧ ',' ∉ name) :
    (names.foldl appendsAndExtends []).splitOn ',' = names := by
  obtain ⟨name, rest, rfl⟩ := List.exists_cons_of_ne_nil hne
  rw [List.foldl_cons, appendsAndExtends, if_pos rfl,
    foldl_appendsAndExtends (hnames name (.head _)).1, ← intercalate_eq,
    List.splitOn_intercalate ',' (fun name hname => (hnames name hname).2) hne]

theorem Token.text_ne_nil (t : Token) : t.text ≠ [] := by
  cases t with
  | plain t => exact t.ne
  | bracketed t => simp [text]

theorem Token.names_ne_nil (t : Token) : t.names ≠ [] := by
  cases t with
  | plain t => exact List.cons_ne_nil _ _
  | bracketed t =>
    obtain ⟨r, rest, hranges⟩ := List.exists_cons_of_ne_nil t.ne
    have hmem : r.interval.lo ∈ r.interval.numbers :=
      Interval.mem_numbers.mpr ⟨le_rfl, r.interval.le⟩
    refine List.ne_nil_of_mem (List.mem_flatMap.mpr ⟨r, ?_, List.mem_map_of_mem hmem⟩)
    rw [hranges]
    exact .head _

theorem Token.names_chars {t : Token} {name : List Char} (h : name ∈ t.names) :
    name ≠ [] ∧ ',' ∉ name := by
  cases t with
  | plain t =>
    obtain rfl := List.mem_singleton.mp h
    exact ⟨t.ne, fun hcomma => (t.chars ',' hcomma).1 rfl⟩
  | bracketed t =>
    obtain ⟨r, -, h⟩ := List.mem_flatMap.mp h
    obtain ⟨n, -, rfl⟩ := List.mem_map.mp h
    refine ⟨by simp [paddedDigits_ne_nil], fun hcomma => ?_⟩
    rw [List.mem_append, List.mem_append] at hcomma
    rcases hcomma with (hcomma | hcomma) | hcomma
    · exact (t.beforeChars ',' hcomma).1.1 rfl
    · exact absurd (isDigit_of_mem_paddedDigits hcomma) (by decide)
    · exact (t.afterChars ',' hcomma).1 rfl

theorem names_disjoint {ts : List Token} (hexp : Expandable ts) {t t' : Token} (ht : t ∈ ts)
    (ht' : t' ∈ ts) (hkey : ¬ nodepatternEquals t.sublist.pattern t'.sublist.pattern)
    {name : List Char} (hname : name ∈ t.names) : name ∉ t'.names := by
  intro hname'
  have hmixed : ∀ {t t' : Token} {e : Entry}, t.entry = none → t'.entry = some e →
      name ∈ t.names → name ∈ t'.names → False := by
    intro t t' e hnone hsome hname hname'
    cases t with
    | bracketed t => cases hnone
    | plain t =>
      have hdigits : firstDigits t.name = [] := by
        by_contra hdigits
        rw [Token.entry, dif_neg hdigits] at hnone
        cases hnone
      obtain rfl := List.mem_singleton.mp hname
      rw [Token.names_of_some hsome] at hname'
      obtain ⟨r, -, hmem⟩ := List.mem_flatMap.mp hname'
      obtain ⟨n, -, heq⟩ := List.mem_map.mp hmem
      obtain ⟨c, hc⟩ := List.exists_mem_of_ne_nil _ (paddedDigits_ne_nil r.padding n)
      have hcname : c ∈ t.name := by
        rw [← heq]
        simp [hc]
      have hisDigit := isDigit_of_mem_paddedDigits hc
      rw [notDigit_of_firstDigits hdigits c hcname] at hisDigit
      cases hisDigit
  cases he : t.entry with
  | none =>
    cases he' : t'.entry with
    | none =>
      rw [Token.names_of_none he] at hname
      rw [Token.names_of_none he'] at hname'
      have htext : t.text = t'.text :=
        (List.mem_singleton.mp hname).symm.trans (List.mem_singleton.mp hname')
      refine hkey ?_
      rw [Token.sublist, Token.sublist, he, he']
      exact ⟨rfl, congrArg some htext, rfl⟩
    | some e' => exact hmixed he he' hname hname'
  | some e =>
    cases he' : t'.entry with
    | none => exact hmixed he' he hname' hname
    | some e' =>
      have hne : e.before ≠ e'.before ∨ e.after ≠ e'.after := by
        by_contra hboth
        rw [not_or, not_not, not_not] at hboth
        refine hkey ?_
        rw [Token.sublist, Token.sublist, he, he']
        exact ⟨rfl, congrArg orNull hboth.1, congrArg orNull hboth.2⟩
      rw [Token.names_of_some he] at hname
      rw [Token.names_of_some he'] at hname'
      exact hexp.apart e (mem_entries ht he) e' (mem_entries ht' he') hne name hname hname'

/-- **A list that meets the condition is expanded to the hosts that it names.** -/
theorem expands_of_expandable {ts : List Token} (hts : ts ≠ []) (hexp : Expandable ts) :
    ExpandsTo ts (condensed2extendedNodelist (listText ts)) := by
  have hfits : ∀ t ∈ ts, ∀ e ∈ t.entry, ∀ r ∈ e.ranges, r.interval.hi < 2 ^ 32 :=
    fun t ht e he r hr => (hexp.fits e (mem_entries ht he) r hr).1
  have hgroups := groups_listText hts hexp.clear hfits
  have hempty : listText ts ≠ [] := by
    intro hnil
    obtain ⟨t, rest, rfl⟩ := List.exists_cons_of_ne_nil hts
    have htokens := tokensFrom_listText hts
    rw [hnil, tokensFrom, List.map_cons] at htokens
    exact t.text_ne_nil (List.cons.inj htokens).1.symm
  generalize hnl : nodelistAddNodes (listText ts) = nodelist at hgroups
  have hmem : ∀ name, name ∈ nodelist.flatMap nodeStrings ↔ ∃ t ∈ ts, name ∈ t.names := by
    intro name
    rw [List.mem_flatMap]
    constructor
    · rintro ⟨g, hg, hname⟩
      obtain ⟨t, ht, -, hname⟩ := (mem_nodeStrings hexp (hgroups.group g hg) name).mp hname
      exact ⟨t, ht, hname⟩
    · rintro ⟨t, ht, hname⟩
      obtain ⟨g, hg, hkey⟩ := hgroups.cover t.sublist (List.mem_map_of_mem ht)
      exact ⟨g, hg, (mem_nodeStrings hexp (hgroups.group g hg) name).mpr ⟨t, ht, hkey, hname⟩⟩
  have hnodup : (nodelist.flatMap nodeStrings).Nodup := by
    rw [List.nodup_flatMap]
    refine ⟨fun g hg => nodup_nodeStrings hexp (hgroups.group g hg),
      hgroups.distinct.imp_of_mem fun {g g'} hg hg' hkey name hname hname' => ?_⟩
    obtain ⟨t, ht, hkey1, hname⟩ := (mem_nodeStrings hexp (hgroups.group g hg) name).mp hname
    obtain ⟨t', ht', hkey2, hname'⟩ := (mem_nodeStrings hexp (hgroups.group g' hg') name).mp hname'
    refine names_disjoint hexp ht ht' (fun hsame => hkey ?_) hname hname'
    exact nodepatternEquals_trans hkey1
      (nodepatternEquals_trans hsame (nodepatternEquals_symm hkey2))
  have hsplit : (getExtendedString nodelist).splitOn ',' = nodelist.flatMap nodeStrings := by
    refine splitOn_names ?_ fun name hname => ?_
    · obtain ⟨t, rest, rfl⟩ := List.exists_cons_of_ne_nil hts
      obtain ⟨name, hname⟩ := List.exists_mem_of_ne_nil _ t.names_ne_nil
      exact List.ne_nil_of_mem ((hmem name).mpr ⟨t, List.mem_cons_self, hname⟩)
    · obtain ⟨t, -, ht⟩ := (hmem name).mp hname
      exact Token.names_chars ht
  have hlength : nodesQuantity nodelist = (nodelist.flatMap nodeStrings).length := by
    rw [nodesQuantity, List.length_flatMap]
    exact congrArg List.sum (List.map_congr_left fun g _ => (length_nodeStrings g).symm)
  have hcount : (nodelist.flatMap nodeStrings).length = (ts.flatMap Token.names).dedup.length := by
    refine List.Perm.length_eq ((List.perm_ext_iff_of_nodup hnodup (List.nodup_dedup _)).mpr ?_)
    intro name
    rw [hmem, List.mem_dedup, List.mem_flatMap]
  refine ⟨getExtendedString nodelist, Int32.ofNat (nodesQuantity nodelist), ?_, ?_, ?_, ?_⟩
  · rw [condensed2extendedNodelist, if_neg (not_or.mpr hexp.sign), if_neg hempty, hnl]
  · rw [hsplit]
    exact hmem
  · rw [hsplit]
    exact hnodup
  · rw [hsplit, hlength, Int32.toInt_ofNat_of_lt]
    rw [hcount]
    exact hexp.count

/-! ### Two lists -/

def login : Token := .plain ⟨"login".toList, by decide, List.all_iff_forall_prop.mp (by decide)⟩

/-- `08-11` -/
def webRange : WrittenRange :=
  .span ⟨"08".toList, by decide, List.all_iff_forall_prop.mp (by decide)⟩
    ⟨"11".toList, by decide, List.all_iff_forall_prop.mp (by decide)⟩

/-- `web[08-11].lab` -/
def web : Token :=
  .bracketed
    { before := "web".toList
      ranges := [webRange]
      after := ".lab".toList
      ne := by decide
      beforeChars := List.all_iff_forall_prop.mp (by decide)
      afterChars := List.all_iff_forall_prop.mp (by decide) }

/-- `node1-2` -/
def nodeDash : Token := .plain
  ⟨"node1-2".toList, by decide, List.all_iff_forall_prop.mp (by decide)⟩

/-- `login,web[08-11].lab` is expanded. -/
theorem expands_login_web :
    ExpandsTo [login, web] (condensed2extendedNodelist "login,web[08-11].lab".toList) := by
  have hentries : entries [login, web] = [⟨"web".toList, [webRange], ".lab".toList⟩] := rfl
  have hentry : ∀ e ∈ entries [login, web], e = ⟨"web".toList, [webRange], ".lab".toList⟩ :=
    fun e he => List.mem_singleton.mp (hentries ▸ he)
  refine expands_of_expandable (by simp) ⟨by decide +kernel, ?_, ?_, ?_, ?_, by decide +kernel⟩
  · intro t ht
    rcases List.mem_cons.mp ht with rfl | ht
    · intro e he
      cases he
    · obtain rfl := List.mem_singleton.mp ht
      exact .inl (by decide +kernel)
  · intro e he r hr
    obtain rfl := hentry e he
    obtain rfl := List.mem_singleton.mp hr
    decide
  · intro e he e' he' _ _ r hr r' hr' n hn
    obtain rfl := hentry e he
    obtain rfl := hentry e' he'
    obtain rfl := List.mem_singleton.mp hr
    obtain rfl := List.mem_singleton.mp hr'
    rw [length_paddedDigits]
    exact le_max_left _ _
  · intro e he e' he' hne
    rw [hentry e he, hentry e' he'] at hne
    exact absurd hne (by simp)

/-- The host `node1-2` is taken for the two hosts `node1` and `node2`. -/
theorem nodeDash_not_expanded :
    ¬ ExpandsTo [nodeDash] (condensed2extendedNodelist "node1-2".toList) := by
  rintro ⟨string, count, hresult, hnames, -⟩
  have hstring : condensed2extendedNodelist "node1-2".toList = some ("node1,node2".toList, 2) := by
    decide
  rw [hstring] at hresult
  cases hresult
  have hmem := (hnames "node1-2".toList).mpr ⟨nodeDash, by simp, by decide +kernel⟩
  exact absurd hmem (by decide +kernel)

end NodeList

end CloudNfs
