import CloudNfs.NodeList

/-!
# The tokens of a client list

A token of a client list is a plain name, or a name with ranges of numbers in brackets. What it
names is defined here from its text alone: a plain name names itself, and a name with ranges names
what it is with each number in place of the brackets, with zeros before it if the ends of the range
are written with zeros.

The code splits a list into its tokens (`tokensFrom_listText`), and reads a token as it was meant
(`entrySublist_text`) if something stands around its numbers, and if in a plain name no dash after
the first number is followed by a digit.
-/

namespace CloudNfs

namespace NodeList

/-! ### Tokens and what they name -/

/-- A number as it is written. -/
structure WrittenNumber where
  digits : List Char
  ne : digits ≠ []
  isDigit : ∀ c ∈ digits, c.isDigit = true

def WrittenNumber.value (w : WrittenNumber) : ℕ := Nat.ofDigitChars 10 w.digits 0

/-- How many digits a number with zeros before it has. -/
def WrittenNumber.padding (w : WrittenNumber) : ℕ :=
  if w.digits.head? = some '0' then w.digits.length else 0

inductive WrittenRange where
  | single (n : WrittenNumber)
  | span (a b : WrittenNumber)

def WrittenRange.text : WrittenRange → List Char
  | single n => n.digits
  | span a b => a.digits ++ '-' :: b.digits

def WrittenRange.interval : WrittenRange → Interval
  | single n => rangeSet n.value n.value
  | span a b => rangeSet a.value b.value

/-- In how many digits the numbers of a range are written, at least. -/
def WrittenRange.padding : WrittenRange → ℕ
  | single n => n.padding
  | span a b => max a.padding b.padding

def NameChar (c : Char) : Prop := c ≠ ',' ∧ c ≠ '[' ∧ c ≠ ']'

instance (c : Char) : Decidable (NameChar c) := by
  unfold NameChar
  infer_instance

/-- A name without brackets. -/
structure PlainName where
  name : List Char
  ne : name ≠ []
  chars : ∀ c ∈ name, NameChar c

structure Bracketed where
  before : List Char
  ranges : List WrittenRange
  after : List Char
  ne : ranges ≠ []
  /-- no digit stands before the brackets -/
  beforeChars : ∀ c ∈ before, NameChar c ∧ c.isDigit = false
  /-- what stands after the brackets -/
  afterChars : ∀ c ∈ after, NameChar c

inductive Token where
  /-- a name without brackets -/
  | plain (t : PlainName)
  | bracketed (t : Bracketed)

def idsText (ranges : List WrittenRange) : List Char :=
  [','].intercalate (ranges.map WrittenRange.text)

def Token.text : Token → List Char
  | plain t => t.name
  | bracketed t => t.before ++ '[' :: (idsText t.ranges ++ ']' :: t.after)

def listText (ts : List Token) : List Char := [','].intercalate (ts.map Token.text)

def rangeNames (before : List Char) (ranges : List WrittenRange) (after : List Char) :
    List (List Char) :=
  ranges.flatMap fun r =>
    r.interval.numbers.map fun n => before ++ paddedDigits r.padding n ++ after

def Token.names : Token → List (List Char)
  | plain t => [t.name]
  | bracketed t => rangeNames t.before t.ranges t.after

/-- **The list is expanded to the hosts that it names**: the string is made of their names, each
once, and the count is the number of names in the string. -/
def ExpandsTo (ts : List Token) (result : Option (List Char × Int32)) : Prop :=
  ∃ string count, result = some (string, count) ∧
    (∀ name, name ∈ string.splitOn ',' ↔ ∃ t ∈ ts, name ∈ t.names) ∧
    (string.splitOn ',').Nodup ∧ count.toInt = (string.splitOn ',').length

/-! ### How the code reads a token -/

/-- Ranges between two texts. -/
structure Entry where
  before : List Char
  ranges : List WrittenRange
  after : List Char

def firstDigits (name : List Char) : List Char :=
  (name.dropWhile fun c => !c.isDigit).takeWhile Char.isDigit

/-- The first number of a plain name, and what is around it. -/
def PlainName.firstEntry (t : PlainName) (h : firstDigits t.name ≠ []) : Entry where
  before := t.name.takeWhile fun c => !c.isDigit
  ranges := [.single ⟨firstDigits t.name, h, fun _ hc => List.mem_takeWhile_imp hc⟩]
  after := (t.name.dropWhile fun c => !c.isDigit).dropWhile Char.isDigit

/-- The ranges of a token, and what is around them: of a plain name, its first number, if there is
one. -/
def Token.entry : Token → Option Entry
  | plain t => if h : firstDigits t.name = [] then none else some (t.firstEntry h)
  | bracketed t => some ⟨t.before, t.ranges, t.after⟩

def Entry.names (e : Entry) : List (List Char) := rangeNames e.before e.ranges e.after

/-- What is read as ranges is what was meant, and there is something around it: after the first
number of a plain name no dash is followed by a digit. -/
def Token.Clear : Token → Prop
  | plain t =>
    ∀ e ∈ (plain t).entry, (e.before ≠ [] ∨ e.after ≠ []) ∧
      ∀ c ∈ (e.after.dropWhile (· = '-')).head?, c.isDigit = false
  | bracketed t => t.before ≠ [] ∨ t.after ≠ []

/-- The entries of a list that have numbers. -/
def entries (ts : List Token) : List Entry := ts.filterMap Token.entry

/-- **What a list must meet** to be expanded to the hosts that it names. -/
structure Expandable (ts : List Token) : Prop where
  sign : listText ts ≠ ['-'] ∧ listText ts ≠ ['+']
  /-- each token is read as it was meant -/
  clear : ∀ t ∈ ts, t.Clear
  /-- the numbers fit in 32 bits, and a name in its buffer -/
  fits : ∀ e ∈ entries ts, ∀ r ∈ e.ranges, r.interval.hi < 2 ^ 32 ∧ r.padding < 128
  /-- no number is written in fewer digits than one of its pattern with zeros before it -/
  zeros : ∀ e ∈ entries ts, ∀ e' ∈ entries ts, e.before = e'.before → e.after = e'.after →
    ∀ r ∈ e.ranges, ∀ r' ∈ e'.ranges, ∀ n ∈ r.interval,
      r'.padding ≤ (paddedDigits r.padding n).length
  /-- two patterns do not name the same host -/
  apart : ∀ e ∈ entries ts, ∀ e' ∈ entries ts, e.before ≠ e'.before ∨ e.after ≠ e'.after →
    ∀ name ∈ e.names, name ∉ e'.names
  count : (ts.flatMap Token.names).dedup.length < 2 ^ 31

/-! ### Texts -/

theorem isDigit_nameChar {c : Char} (hc : c.isDigit = true) : NameChar c := by
  refine ⟨?_, ?_, ?_⟩ <;> rintro rfl <;> exact absurd hc (by decide)

theorem WrittenRange.text_chars (r : WrittenRange) :
    r.text ≠ [] ∧ (∀ c ∈ r.text, c.isDigit = true ∨ c = '-') ∧
      (∀ c ∈ r.text.head?, c.isDigit = true) ∧ ∀ c ∈ r.text.getLast?, c.isDigit = true := by
  cases r with
  | single n =>
    exact ⟨n.ne, fun c hc => .inl (n.isDigit c hc), fun c hc => n.isDigit c (List.mem_of_head? hc),
      fun c hc => n.isDigit c (List.mem_of_getLast? hc)⟩
  | span a b =>
    refine ⟨by simp [text], fun c hc => ?_, fun c hc => ?_, fun c hc => ?_⟩
    · rcases List.mem_append.mp hc with hc | hc
      · exact .inl (a.isDigit c hc)
      · rcases List.mem_cons.mp hc with rfl | hc
        · exact .inr rfl
        · exact .inl (b.isDigit c hc)
    · rw [text, List.head?_append_of_ne_nil _ a.ne] at hc
      exact a.isDigit c (List.mem_of_head? hc)
    · rw [text, List.getLast?_append_cons, List.getLast?_cons_of_ne_nil b.ne] at hc
      exact b.isDigit c (List.mem_of_getLast? hc)

theorem idsText_cons_cons (r r' : WrittenRange) (rs : List WrittenRange) :
    idsText (r :: r' :: rs) = r.text ++ ',' :: idsText (r' :: rs) := by
  simp [idsText, List.intercalate]

theorem idsText_singleton (r : WrittenRange) : idsText [r] = r.text := by
  simp [idsText]

variable {rs : List WrittenRange} {w s : List Char} {p : Char → Bool}

theorem idsText_chars (hrs : rs ≠ []) :
    idsText rs ≠ [] ∧ (∀ c ∈ idsText rs, c.isDigit = true ∨ c = ',' ∨ c = '-') ∧
      (∀ c ∈ (idsText rs).head?, c.isDigit = true) ∧
      ∀ c ∈ (idsText rs).getLast?, c.isDigit = true := by
  induction rs with
  | nil => exact absurd rfl hrs
  | cons r rs ih =>
    obtain ⟨hne, hchars, hhead, hlast⟩ := r.text_chars
    cases rs with
    | nil =>
      rw [idsText_singleton]
      exact ⟨hne, fun c hc => (hchars c hc).imp_right .inr, hhead, hlast⟩
    | cons r' rs =>
      obtain ⟨hne', hchars', -, hlast'⟩ := ih (by simp)
      rw [idsText_cons_cons]
      refine ⟨by simp, fun c hc => ?_, fun c hc => ?_, fun c hc => ?_⟩
      · rcases List.mem_append.mp hc with hc | hc
        · exact (hchars c hc).imp_right .inr
        · rcases List.mem_cons.mp hc with rfl | hc
          · exact .inr (.inl rfl)
          · exact hchars' c hc
      · rw [List.head?_append_of_ne_nil _ hne] at hc
        exact hhead c hc
      · rw [List.getLast?_append_cons, List.getLast?_cons_of_ne_nil hne'] at hc
        exact hlast' c hc

/-! ### The list is split into its tokens -/

theorem tokensFrom_names (hw : ∀ c ∈ w, NameChar c) (token s : List Char) :
    tokensFrom false token (w ++ s) = tokensFrom false (token ++ w) s := by
  induction w generalizing token with
  | nil => rw [List.nil_append, List.append_nil]
  | cons c w ih =>
    obtain ⟨hcomma, hopen, hclose⟩ := hw c List.mem_cons_self
    rw [List.cons_append, tokensFrom, if_neg (by simp [hopen]), if_neg (by simp),
      if_neg (by simp [hcomma]), ih (fun c' hc' => hw c' (.tail _ hc')),
        List.append_assoc,
      List.singleton_append]

theorem tokensFrom_ids {w : List Char} (hw : ∀ c ∈ w, c ≠ ']') (token s : List Char) :
    tokensFrom true token (w ++ s) = tokensFrom true (token ++ w) s := by
  induction w generalizing token with
  | nil => rw [List.nil_append, List.append_nil]
  | cons c w ih =>
    have hclose := hw c List.mem_cons_self
    rw [List.cons_append, tokensFrom, if_neg (by simp), if_neg (by simp [hclose]), if_neg (by simp),
      ih (fun c' hc' => hw c' (.tail _ hc')), List.append_assoc,
      List.singleton_append]

theorem tokensFrom_text (t : Token) (token s : List Char) :
    tokensFrom false token (t.text ++ s) = tokensFrom false (token ++ t.text) s := by
  cases t with
  | plain t => exact tokensFrom_names t.chars token s
  | bracketed t =>
    have hids : ∀ c ∈ idsText t.ranges, c ≠ ']' := by
      intro c hc
      rcases (idsText_chars t.ne).2.1 c hc with hdigit | rfl | rfl
      · exact (isDigit_nameChar hdigit).2.2
      · decide
      · decide
    simp only [Token.text, List.append_assoc, List.cons_append]
    rw [tokensFrom_names fun c hc => (t.beforeChars c hc).1, tokensFrom, if_pos (by simp),
      tokensFrom_ids hids, tokensFrom, if_neg (by simp), if_pos (by simp),
      tokensFrom_names t.afterChars]
    simp only [List.append_assoc, List.cons_append, List.nil_append]

theorem listText_cons_cons (t t' : Token) (ts : List Token) :
    listText (t :: t' :: ts) = t.text ++ ',' :: listText (t' :: ts) := by
  simp [listText, List.intercalate]

theorem tokensFrom_listText {ts : List Token} (hts : ts ≠ []) :
    tokensFrom false [] (listText ts) = ts.map Token.text := by
  induction ts with
  | nil => exact absurd rfl hts
  | cons t ts ih =>
    cases ts with
    | nil =>
      have htext := tokensFrom_text t [] []
      rw [List.append_nil, List.nil_append, tokensFrom] at htext
      simpa [listText] using htext
    | cons t' ts =>
      rw [listText_cons_cons, tokensFrom_text, List.nil_append, tokensFrom, if_neg (by simp),
        if_neg (by simp), if_pos (by simp), ih (by simp)]
      rfl

/-! ### A token is split -/

theorem takeWhile_append_of_head (hw : ∀ c ∈ w, p c = true) (hs : ∀ c ∈ s.head?, p c = false) :
    (w ++ s).takeWhile p = w := by
  rw [List.takeWhile_append_of_pos hw]
  cases s with
  | nil => exact List.append_nil w
  | cons c s =>
    rw [List.takeWhile_cons_of_neg (by simpa using hs c rfl), List.append_nil]

theorem dropWhile_of_head (hs : ∀ c ∈ s.head?, p c = false) : s.dropWhile p = s := by
  cases s with
  | nil => rfl
  | cons c s => exact List.dropWhile_cons_of_neg (by simpa using hs c rfl)

theorem rdropWhile_of_getLast {t : List Char} (hs : ∀ c ∈ s.getLast?, p c = false)
    (ht : ∀ c ∈ t, p c = true) : (s ++ t).rdropWhile p = s := by
  rw [List.rdropWhile, List.reverse_append, List.dropWhile_append_of_pos (by simpa using ht),
    dropWhile_of_head (by simpa using hs), List.reverse_reverse]

/-- The text around numbers is found, whatever stands around the brackets or instead of them. -/
theorem splitNodelistEntry_eq {before opened ids dashes after : List Char}
    (hbefore : ∀ c ∈ before, NameChar c ∧ c.isDigit = false)
    (hopened : ∀ c ∈ opened, c = '[') (hne : ids ≠ [])
    (hids : ∀ c ∈ ids, c.isDigit = true ∨ c = ',' ∨ c = '-')
    (hhead : ∀ c ∈ ids.head?, c.isDigit = true) (hlast : ∀ c ∈ ids.getLast?, c.isDigit = true)
    (hdashes : ∀ c ∈ dashes, c = '-')
    (hafter : ∀ c ∈ after.head?, c.isDigit = false ∧ c ≠ ',' ∧ c ≠ '-') :
    splitNodelistEntry (before ++ (opened ++ (ids ++ (dashes ++ after)))) =
      ⟨orNull before, some ids, orNull ((dashes ++ after).dropWhile (· = ']'))⟩ := by
  have hrest : (opened ++ (ids ++ (dashes ++ after))).head? ≠ none := by
    intro hnone
    rw [List.head?_eq_none_iff] at hnone
    simp [hne] at hnone
  have htake : (before ++ (opened ++ (ids ++ (dashes ++ after)))).takeWhile
      (fun c => c ≠ '[' && !c.isDigit) = before := by
    refine takeWhile_append_of_head (fun c hc => ?_) fun c hc => ?_
    · obtain ⟨⟨-, hopen, -⟩, hdigit⟩ := hbefore c hc
      simp [hopen, hdigit]
    · cases opened with
      | nil =>
        rw [List.nil_append, List.head?_append_of_ne_nil _ hne] at hc
        simp [hhead c hc]
      | cons c' opened =>
        obtain rfl := Option.some.inj hc
        simp [hopened c' List.mem_cons_self]
  have hopen : (opened ++ (ids ++ (dashes ++ after))).dropWhile (· = '[') =
      ids ++ (dashes ++ after) := by
    rw [List.dropWhile_append_of_pos (by simpa using hopened), dropWhile_of_head]
    intro c hc
    rw [List.head?_append_of_ne_nil _ hne] at hc
    simp [(isDigit_nameChar (hhead c hc)).2.1]
  have hrun : (ids ++ (dashes ++ after)).takeWhile
      (fun c => c.isDigit || c = ',' || c = '-') = ids ++ dashes := by
    rw [← List.append_assoc]
    refine takeWhile_append_of_head (fun c hc => ?_) fun c hc => ?_
    · rcases List.mem_append.mp hc with hc | hc
      · rcases hids c hc with hc | rfl | rfl <;> simp [*]
      · simp [hdashes c hc]
    · obtain ⟨hdigit, hcomma, hdash⟩ := hafter c hc
      simp [hdigit, hcomma, hdash]
  have hstrip : (ids ++ dashes).rdropWhile (· = '-') = ids := by
    refine rdropWhile_of_getLast (fun c hc => ?_) fun c hc => by simpa using hdashes c hc
    rw [decide_eq_false_iff_not]
    rintro rfl
    exact absurd (hlast _ hc) (by decide)
  rw [splitNodelistEntry]
  simp only [htake, List.drop_left, hopen, hrun, hstrip]
  rw [if_neg (by simp [hne])]

/-- What a list of ranges is added to: each range, in order. -/
def addRanges (array : List Interval) (rs : List WrittenRange) : List Interval :=
  rangelistAddRangelist array (rs.map WrittenRange.interval)

def maxPadding (padding : ℕ) (rs : List WrittenRange) : ℕ :=
  rs.foldl (fun padding r => max padding r.padding) padding

theorem addListLoop_digits (hw : ∀ c ∈ w, c.isDigit = true) (s digits : List Char) (st : AddList) :
    addListLoop (w ++ s) digits st = addListLoop s (digits ++ w) st := by
  induction w generalizing digits with
  | nil => rw [List.nil_append, List.append_nil]
  | cons c w ih =>
    rw [List.cons_append, addListLoop, if_pos (hw c (.head _)),
      ih (fun c' hc' => hw c' (.tail _ hc')), List.append_assoc,
      List.singleton_append]

theorem max_padding (w : WrittenNumber) (padding : ℕ) :
    (if w.digits.head? = some '0' then max padding w.digits.length else padding) =
      max padding w.padding := by
  rw [WrittenNumber.padding]
  split
  · rfl
  · exact (max_eq_left (Nat.zero_le _)).symm

theorem addLemme_end {w : WrittenNumber} (hw : w.value < 2 ^ 32) (st : AddList)
    {next : Option Char} (hnext : next = none ∨ next = some ',' ∨ next = some ']') :
    addLemme st w.digits next =
      .ok ⟨rangelistAddRange st.array (rangeSet (st.start.getD w.value) w.value), none,
        max st.padding w.padding⟩ := by
  have hsmall : ¬ 2 ^ 63 - 1 ≤ Nat.ofDigitChars 10 w.digits 0 := by
    rw [← WrittenNumber.value]
    omega
  rw [addLemme, if_neg w.ne, if_neg hsmall, if_pos hnext, max_padding]
  rfl

theorem addLemme_dash {w : WrittenNumber} (hw : w.value < 2 ^ 32) (st : AddList) :
    addLemme st w.digits (some '-') =
      .ok ⟨st.array, some w.value, max st.padding w.padding⟩ := by
  have hsmall : ¬ 2 ^ 63 - 1 ≤ Nat.ofDigitChars 10 w.digits 0 := by
    rw [← WrittenNumber.value]
    omega
  rw [addLemme, if_neg w.ne, if_neg hsmall, if_neg (by simp), if_pos rfl, max_padding]
  rfl

theorem addListLoop_range {r : WrittenRange} (hr : r.interval.hi < 2 ^ 32) (s : List Char)
    (array : List Interval) (padding : ℕ) :
    ∃ w : WrittenNumber, ∃ st : AddList, w.value < 2 ^ 32 ∧
      addListLoop (r.text ++ s) [] ⟨array, none, padding⟩ = addListLoop s w.digits st ∧
      st.array = array ∧ rangeSet (st.start.getD w.value) w.value = r.interval ∧
      max st.padding w.padding = max padding r.padding := by
  cases r with
  | single n =>
    refine ⟨n, ⟨array, none, padding⟩, ?_, ?_, rfl, rfl, rfl⟩
    · simpa [WrittenRange.interval, rangeSet] using hr
    · exact addListLoop_digits n.isDigit s [] _
  | span a b =>
    obtain ⟨ha, hb⟩ : a.value < 2 ^ 32 ∧ b.value < 2 ^ 32 := by
      simpa [WrittenRange.interval, rangeSet] using hr
    refine ⟨b, ⟨array, some a.value, max padding a.padding⟩, hb, ?_, rfl, rfl, max_assoc _ _ _⟩
    rw [WrittenRange.text, List.append_assoc, addListLoop_digits a.isDigit, List.nil_append,
      List.cons_append, addListLoop, if_neg (by decide), addLemme_dash ha]
    exact addListLoop_digits b.isDigit s [] _

theorem addListLoop_idsText (hrs : rs ≠ []) (hfits : ∀ r ∈ rs, r.interval.hi < 2 ^ 32)
    (array : List Interval) (padding : ℕ) :
    addListLoop (idsText rs) [] ⟨array, none, padding⟩ =
      (addRanges array rs, (maxPadding padding rs : ℤ)) := by
  induction rs generalizing array padding with
  | nil => exact absurd rfl hrs
  | cons r rs ih =>
    have hr := hfits r List.mem_cons_self
    cases rs with
    | nil =>
      obtain ⟨w, st, hw, hloop, harray, hinterval, hpadding⟩ :=
        addListLoop_range hr [] array padding
      rw [List.append_nil] at hloop
      rw [idsText_singleton, hloop, addListLoop, addLemme_end hw st (.inl rfl), harray, hinterval,
        hpadding]
      rfl
    | cons r' rs =>
      obtain ⟨w, st, hw, hloop, harray, hinterval, hpadding⟩ :=
        addListLoop_range hr (',' :: idsText (r' :: rs)) array padding
      rw [idsText_cons_cons, hloop, addListLoop, if_neg (by decide),
        addLemme_end hw st (.inr (.inl rfl)), harray, hinterval, hpadding]
      exact ih (by simp) (fun x hx => hfits x (.tail _ hx)) _ _

/-! ### The sublist of a token -/

def Token.sublist (t : Token) : Sublist :=
  match t.entry with
  | none => ⟨⟨0, some t.text, none, true⟩, []⟩
  | some e =>
    ⟨⟨(maxPadding 0 e.ranges : ℤ), orNull e.before, orNull e.after, false⟩, addRanges [] e.ranges⟩

theorem head?_idsText_ne (hrs : rs ≠ []) : (idsText rs).head? ≠ some '[' := by
  intro hhead
  exact absurd ((idsText_chars hrs).2.2.1 '[' hhead) (by decide)

theorem entrySublist_of_split {text : List Char} {e : Entry} (hranges : e.ranges ≠ [])
    (hfits : ∀ r ∈ e.ranges, r.interval.hi < 2 ^ 32)
    (hsplit : splitNodelistEntry text =
      ⟨orNull e.before, some (idsText e.ranges), orNull e.after⟩) :
    entrySublist text = ⟨⟨(maxPadding 0 e.ranges : ℤ), orNull e.before, orNull e.after, false⟩,
      addRanges [] e.ranges⟩ := by
  have hadd : rangelistAddList [] (idsText e.ranges) =
      (addRanges [] e.ranges, (maxPadding 0 e.ranges : ℤ)) := by
    rw [rangelistAddList, if_neg (head?_idsText_ne hranges), addListLoop_idsText hranges hfits]
  simp only [entrySublist, hsplit, hadd]

theorem dropWhile_close (hs : ∀ c ∈ s, NameChar c) : s.dropWhile (· = ']') = s :=
  dropWhile_of_head fun c hc => by simpa using (hs c (List.mem_of_head? hc)).2.2

theorem plain_eq (name : List Char) :
    name = (name.takeWhile fun c => !c.isDigit) ++ (firstDigits name ++
      (name.dropWhile fun c => !c.isDigit).dropWhile Char.isDigit) := by
  rw [firstDigits, List.takeWhile_append_dropWhile, List.takeWhile_append_dropWhile]

theorem notDigit_of_firstDigits {name : List Char} (h : firstDigits name = []) :
    ∀ c ∈ name, c.isDigit = false := by
  have hdrop : (name.dropWhile fun c => !c.isDigit) = [] := by
    rw [firstDigits] at h
    cases hrest : name.dropWhile fun c => !c.isDigit with
    | nil => rfl
    | cons c rest =>
      have hc := List.head?_dropWhile_not (fun c => !c.isDigit) name
      rw [hrest, List.head?_cons] at hc
      rw [hrest, List.takeWhile_cons_of_pos (by simpa using hc)] at h
      cases h
  intro c hc
  simpa using List.dropWhile_eq_nil_iff.mp hdrop c hc

theorem splitNodelistEntry_of_notDigit {name : List Char} (hname : ∀ c ∈ name, NameChar c)
    (hdigit : ∀ c ∈ name, c.isDigit = false) :
    splitNodelistEntry name = ⟨orNull name, none, none⟩ := by
  have htake : name.takeWhile (fun c => c ≠ '[' && !c.isDigit) = name := by
    rw [List.takeWhile_eq_self_iff]
    intro c hc
    simp [(hname c hc).2.1, hdigit c hc]
  simp only [splitNodelistEntry, htake, List.drop_length]
  rfl

theorem entrySublist_text {t : Token} (hclear : t.Clear)
    (hfits : ∀ e ∈ t.entry, ∀ r ∈ e.ranges, r.interval.hi < 2 ^ 32) :
    entrySublist t.text = t.sublist := by
  cases t with
  | bracketed t =>
    have hids := idsText_chars t.ne
    have hsplit : splitNodelistEntry (Token.bracketed t).text =
        ⟨orNull t.before, some (idsText t.ranges),
          orNull (([] ++ (']' :: t.after)).dropWhile (· = ']'))⟩ := by
      have hsplit := @splitNodelistEntry_eq t.before ['['] (idsText t.ranges) [] (']' :: t.after)
      refine hsplit t.beforeChars (by simp) hids.1 hids.2.1 hids.2.2.1 hids.2.2.2 (by simp) ?_
      intro c hc
      cases hc
      decide
    rw [List.nil_append, List.dropWhile_cons_of_pos (by simp), dropWhile_close t.afterChars]
      at hsplit
    exact entrySublist_of_split (e := ⟨t.before, t.ranges, t.after⟩) t.ne (hfits _ rfl) hsplit
  | plain t =>
    by_cases hdigits : firstDigits t.name = []
    · have hentry : (Token.plain t).entry = none := by rw [Token.entry, dif_pos hdigits]
      have hsplit := splitNodelistEntry_of_notDigit t.chars (notDigit_of_firstDigits hdigits)
      simp only [entrySublist, Token.text, hsplit, Token.sublist, hentry, orNull, t.ne, if_false]
    have hentry : (Token.plain t).entry = some (t.firstEntry hdigits) := by
      rw [Token.entry, dif_neg hdigits]
    obtain ⟨-, hdash⟩ := hclear _ hentry
    rw [Token.sublist, hentry]
    refine entrySublist_of_split (List.cons_ne_nil _ _) (hfits _ hentry) ?_
    have hafter : ∀ c ∈ (t.firstEntry hdigits).after, NameChar c := fun c hc =>
      t.chars c (plain_eq t.name ▸ List.mem_append_right _ (List.mem_append_right _ hc))
    -- the dashes after the number are taken with it, and given back
    have hsplit := @splitNodelistEntry_eq (t.firstEntry hdigits).before [] (firstDigits t.name)
      ((t.firstEntry hdigits).after.takeWhile (· = '-'))
      ((t.firstEntry hdigits).after.dropWhile (· = '-'))
    rw [List.takeWhile_append_dropWhile, List.nil_append, dropWhile_close hafter] at hsplit
    have htext : (t.firstEntry hdigits).before ++
        (firstDigits t.name ++ (t.firstEntry hdigits).after) = t.name :=
      (plain_eq t.name).symm
    rw [htext] at hsplit
    have hisDigit : ∀ c ∈ firstDigits t.name, c.isDigit = true := fun c hc =>
      List.mem_takeWhile_imp hc
    have hids : idsText (t.firstEntry hdigits).ranges = firstDigits t.name :=
      idsText_singleton _
    rw [hids]
    refine hsplit (fun c hc => ⟨?_, ?_⟩) (by simp) hdigits (fun c hc => .inl (hisDigit c hc))
      (fun c hc => hisDigit c (List.mem_of_head? hc))
      (fun c hc => hisDigit c (List.mem_of_getLast? hc)) (fun c hc => ?_) fun c hc => ⟨?_, ?_, ?_⟩
    · exact t.chars c (List.takeWhile_subset _ hc)
    · simpa using List.mem_takeWhile_imp hc
    · simpa using List.mem_takeWhile_imp hc
    · exact hdash c hc
    · exact (hafter c (List.dropWhile_subset _ (List.mem_of_head? hc))).1
    · have hnot := List.head?_dropWhile_not (fun c => decide (c = '-'))
        (t.firstEntry hdigits).after
      rw [hc] at hnot
      simpa using hnot

end NodeList

end CloudNfs
