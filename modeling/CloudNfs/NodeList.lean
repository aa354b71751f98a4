import CloudNfs.DecimalText
import CloudNfs.Intervals
import Mathlib.Data.List.DropRight
import Mathlib.Data.List.Sort

/-!
# Lists of nodes

The clients of an export are given as a list such as `node[1-4,7],login.site,*.lab`.
`nodelist_common_condensed2extended_nodelist` gives the names that it stands for.

* Every entry is split where its first digits are, also when it has no brackets. Entries with the
  same text before and after the digits share one sublist, which is a list of ranges and one
  padding; an entry without digits is a basic node.
* `nodelist_range_set` puts the ends of a range in order, so a range is an `Interval`. Digits make
  no negative number.
* A character is any `Char`, and the digits are the ten of ASCII. Memory is always there.
-/

namespace CloudNfs

namespace NodeList

/-! ### Ranges -/

/-- `nodelist_range_set` -/
def rangeSet (v1 v2 : ℕ) : Interval where
  lo := min v1 v2
  hi := max v1 v2
  le := le_trans (min_le_left _ _) (le_max_left _ _)

/-- `nodelist_range_intersects` -/
def rangeIntersects (r1 r2 : Interval) : Bool :=
  (r2.hi = r2.lo ∧ r1.lo ≤ r2.hi ∧ r2.hi ≤ r1.hi) ∨
    (r1.hi = r1.lo ∧ r2.lo ≤ r1.hi ∧ r1.hi ≤ r2.hi) ∨
    (r2.hi ≥ r1.lo ∧ r2.lo ≤ r1.hi) ∨
    (r1.hi ≥ r2.lo ∧ r1.lo ≤ r2.hi)

/-- `nodelist_range_contiguous`, when it is not 0. -/
def rangeContiguous (r1 r2 : Interval) : Bool := ¬ (r1.hi + 1 ≠ r2.lo ∧ r1.lo ≠ r2.hi + 1)

/-- `nodelist_range_includes`, when it is 1. -/
def rangeIncludes (r1 r2 : Interval) : Bool := r2.lo ≥ r1.lo ∧ r2.hi ≤ r1.hi

/-- `nodelist_range_compare`, when it is not 1. -/
def RangeLe (r1 r2 : Interval) : Prop := r1 = r2 ∨ r1.hi < r2.lo

instance (r1 r2 : Interval) : Decidable (RangeLe r1 r2) := by
  unfold RangeLe
  infer_instance

/-- The loop of `nodelist_rangelist_add_range`: the ranges of `work_array`, and the range to add. -/
def addRangeLoop : List Interval → Interval → List Interval × Interval
  | [], r => ([], r)
  | x :: array, r =>
    if !rangeIntersects x r && !rangeContiguous x r then
      (x :: (addRangeLoop array r).1, (addRangeLoop array r).2)
    else addRangeLoop array (x.hull r)

/-- `nodelist_rangelist_add_range` -/
def rangelistAddRange (array : List Interval) (r : Interval) : List Interval :=
  if array = [] then [r]
  else if array.any fun x => rangeIncludes x r then array
  else
    let work := addRangeLoop array r
    (work.1 ++ [work.2]).insertionSort RangeLe

/-- `nodelist_rangelist_add_rangelist` -/
def rangelistAddRangelist (array rlin : List Interval) : List Interval :=
  rlin.foldl rangelistAddRange array

/-- The variables of `nodelist_rangelist_add_list`. -/
structure AddList where
  array : List Interval
  /-- `start_val`, when `start_flag` is set -/
  start : Option ℕ
  padding : ℕ

/-- The body of the loop of `nodelist_rangelist_add_list` for the digits read and the character
after them. An error leaves the ranges added so far. -/
def addLemme (st : AddList) (digits : List Char) (next : Option Char) :
    Except (List Interval) AddList :=
  if digits = [] then .ok st
  else
    let value := Nat.ofDigitChars 10 digits 0
    if 2 ^ 63 - 1 ≤ value then .error st.array
    else
      let padding :=
        if digits.head? = some '0' then max st.padding digits.length else st.padding
      if next = none ∨ next = some ',' ∨ next = some ']' then
        .ok ⟨rangelistAddRange st.array (rangeSet (st.start.getD value) value), none, padding⟩
      else if next = some '-' then .ok ⟨st.array, some value, padding⟩
      else .error st.array

/-- The loop of `nodelist_rangelist_add_list`. -/
def addListLoop : List Char → List Char → AddList → List Interval × ℤ
  | [], digits, st =>
    match addLemme st digits none with
    | .error array => (array, -1)
    | .ok st => (st.array, st.padding)
  | c :: list, digits, st =>
    if c.isDigit then addListLoop list (digits ++ [c]) st
    else
      match addLemme st digits (some c) with
      | .error array => (array, -1)
      | .ok st => addListLoop list [] st

/-- `nodelist_rangelist_add_list`, and the padding that it returns. -/
def rangelistAddList (array : List Interval) (list : List Char) : List Interval × ℤ :=
  addListLoop (if list.head? = some '[' then list.drop 1 else list) [] ⟨array, none, 0⟩

/-! ### Entries -/

/-- `get_next_token` and `nodelist_common_string_get_token`: the tokens between commas that are not
in brackets. -/
def tokensFrom (inBracket : Bool) (token : List Char) : List Char → List (List Char)
  | [] => [token]
  | c :: string =>
    if inBracket = false ∧ c = '[' then tokensFrom true (token ++ [c]) string
    else if inBracket ∧ c = ']' then tokensFrom false (token ++ [c]) string
    else if inBracket = false ∧ c = ',' then token :: tokensFrom false [] string
    else tokensFrom inBracket (token ++ [c]) string

/-- A string, or `NULL` for an empty one. -/
def orNull (s : List Char) : Option (List Char) := if s = [] then none else some s

/-- What `nodelist_common_split_nodelist_entry` gives. -/
structure SplitEntry where
  /-- `*p_prefix` -/
  nodePrefix : Option (List Char)
  /-- `*p_idlist` -/
  idlist : Option (List Char)
  /-- `*p_suffix` -/
  nodeSuffix : Option (List Char)

/-- `nodelist_common_split_nodelist_entry` -/
def splitNodelistEntry (list : List Char) : SplitEntry :=
  let before := list.takeWhile fun c => c ≠ '[' && !c.isDigit
  let rest := (list.drop before.length).dropWhile (· = '[')
  -- digits, commas and dashes, without the dashes at the end
  let ids := (rest.takeWhile fun c => c.isDigit || c = ',' || c = '-').rdropWhile (· = '-')
  { nodePrefix := orNull before
    idlist := if rest = [] then none else some ids
    nodeSuffix := orNull ((rest.drop ids.length).dropWhile (· = ']')) }

/-- `nodelist_nodepattern_t` -/
structure NodePattern where
  padding : ℤ
  nodePrefix : Option (List Char)
  nodeSuffix : Option (List Char)
  basic : Bool
  deriving DecidableEq

/-- `nodelist_nodelist_t`, one sublist. -/
structure Sublist where
  pattern : NodePattern
  rangelist : List Interval

/-- `nodelist_nodepattern_equals` -/
def nodepatternEquals (np1 np2 : NodePattern) : Prop :=
  np1.basic = np2.basic ∧ np1.nodePrefix = np2.nodePrefix ∧ np1.nodeSuffix = np2.nodeSuffix

instance (np1 np2 : NodePattern) : Decidable (nodepatternEquals np1 np2) := by
  unfold nodepatternEquals
  infer_instance

/-- `nodelist_nodelist_init` without lists. -/
def nodelistInit : Sublist := ⟨⟨0, none, none, true⟩, []⟩

/-- `nodelist_nodelist_is_empty`, of the first sublist. -/
def Sublist.isEmpty (s : Sublist) : Bool :=
  s.pattern.nodePrefix.isNone && s.pattern.nodeSuffix.isNone

/-- `nodelist_nodelist_copy` of one sublist. -/
def Sublist.copy (s : Sublist) : Sublist :=
  ⟨s.pattern, if s.pattern.basic then [] else s.rangelist⟩

/-- Adds to the sublist with the same pattern, or to a new one. -/
def addSublist (src : Sublist) : List Sublist → List Sublist
  | [] => [⟨src.pattern, rangelistAddRangelist [] src.rangelist⟩]
  | dest :: rest =>
    if nodepatternEquals dest.pattern src.pattern then
      ⟨{ dest.pattern with
          padding :=
            if dest.pattern.padding < src.pattern.padding then src.pattern.padding
            else dest.pattern.padding },
        rangelistAddRangelist dest.rangelist src.rangelist⟩ :: rest
    else dest :: addSublist src rest

/-- `nodelist_nodelist_add_nodelist` of one sublist. -/
def nodelistAddNodelist (nodelist : List Sublist) (src : Sublist) : List Sublist :=
  if src.isEmpty then nodelist
  else if (nodelist.headD nodelistInit).isEmpty then [src.copy]
  else addSublist src nodelist

/-- The sublist of an entry, in `nodelist_nodelist_add_nodes`. -/
def entrySublist (token : List Char) : Sublist :=
  let entry := splitNodelistEntry token
  match entry.idlist with
  | none => ⟨⟨0, entry.nodePrefix, entry.nodeSuffix, true⟩, []⟩
  | some ids =>
    let added := rangelistAddList [] ids
    ⟨⟨added.2, entry.nodePrefix, entry.nodeSuffix, false⟩, added.1⟩

/-- `nodelist_nodelist_add_nodes` on an empty node list. -/
def nodelistAddNodes (list : List Char) : List Sublist :=
  (tokensFrom false [] list).foldl
    (fun nodelist token => nodelistAddNodelist nodelist (entrySublist token)) [nodelistInit]

/-! ### The extended list -/

/-- `%0.<padding>u`: the padding is taken without its sign, and so are the low 32 bits of the
number. -/
def printId (padding : ℤ) (id : ℕ) : List Char :=
  let precision := (padding % 2 ^ 32).toNat
  let value := id % 2 ^ 32
  if precision = 0 ∧ value = 0 then [] else paddedDigits precision value

/-- The node strings of a sublist; each is cut where its buffer ends. -/
def nodeStrings (s : Sublist) : List (List Char) :=
  let before := s.pattern.nodePrefix.getD []
  let after := s.pattern.nodeSuffix.getD []
  let size := before.length + after.length + 128
  if s.pattern.basic then [(before ++ after).take (size - 1)]
  else
    (s.rangelist.flatMap Interval.numbers).map fun id =>
      (before ++ printId s.pattern.padding id ++ after).take (size - 1)

/-- `nodelist_common_string_appends_and_extends` with a comma. -/
def appendsAndExtends (string string2append : List Char) : List Char :=
  if string = [] then string2append else string ++ ',' :: string2append

/-- `nodelist_nodelist_get_extended_string` -/
def getExtendedString (nodelist : List Sublist) : List Char :=
  (nodelist.flatMap nodeStrings).foldl appendsAndExtends []

/-- `nodelist_nodelist_non_recursive_nodes_quantity` -/
def nonRecursiveNodesQuantity (s : Sublist) : ℕ :=
  if s.pattern.basic then 1 else (s.rangelist.map fun r => r.hi - r.lo + 1).sum

/-- `nodelist_nodelist_nodes_quantity` -/
def nodesQuantity (nodelist : List Sublist) : ℕ :=
  (nodelist.map nonRecursiveNodesQuantity).sum

/-- `nodelist_common_condensed2extended_nodelist`: the string and the count, or nothing for an
error. A list that is a single sign only chooses what is done with the next one. -/
def condensed2extendedNodelist (srcList : List Char) : Option (List Char × Int32) :=
  if srcList = ['-'] ∨ srcList = ['+'] then
    some (getExtendedString [nodelistInit], Int32.ofNat (nodesQuantity [nodelistInit]))
  else if srcList = [] then none
  else
    let nodelist := nodelistAddNodes srcList
    some (getExtendedString nodelist, Int32.ofNat (nodesQuantity nodelist))

end NodeList

end CloudNfs
