import CloudNfs.Run
import Mathlib.Data.List.TakeWhile

/-!
# Strings that grow (`NodeList/nodelist_common.c`)

`nodelist_common_string_appends_and_extends` appends to a string and makes its block larger when the
recorded length does not suffice. `nodelist_nodelist_get_extended_string` starts with a block of
1024 bytes and records the length 1024, while every growth records one less than it allocates.

* A block is what was written to it from its start on, and the number of bytes allocated.
* A string in memory is shorter than the user's part of the address space, which is as much as
  `realloc` can give; it may also refuse.
* A `size_t` has 64 bits and wraps around. The loop ends whatever it adds (`growLoop_spec`).

The terminating 0 of a string of exactly 1024 characters is written behind the block unless it has
grown before; everything else stays inside (`allCorrect_iff`).
-/

namespace CloudNfs.AppendString

/-! ## The code -/

/-- The character that ends a string. -/
abbrev nul : Char := Char.ofNat 0

/-- The user's part of the address space -/
abbrev addressSpace : ℕ := 2 ^ 47

/-- A string that a pointer designates. -/
structure Str where
  chars : List Char
  noNul : nul ∉ chars
  short : chars.length < addressSpace

/-- What was written to a block from its start on, and its size -/
structure Block where
  bytes : List Char
  alloc : ℕ

/-- `*p_io_string`, which may be `NULL`, and `*p_current_length` -/
structure State where
  ioString : Option Block
  currentLength : UInt64

/-- The string in a block -/
def Block.text (b : Block) : List Char := b.bytes.takeWhile fun c => c ≠ nul

/-- `strlen` -/
def Block.strlen (b : Block) : UInt64 := UInt64.ofNat b.text.length

/-- `strlen` -/
def Str.strlen (s : Str) : UInt64 := UInt64.ofNat s.chars.length

/-- Characters are written from an offset on. -/
def Block.write (b : Block) (off : UInt64) (cs : List Char) : Block :=
  { b with bytes := b.bytes.take off.toNat ++ cs ++ b.bytes.drop (off.toNat + cs.length) }

/-- What `strncpy(target, s, n)` writes. -/
def strncpy (s : Str) (n : UInt64) : List Char :=
  s.chars.take n.toNat ++ List.replicate (n.toNat - s.chars.length) nul

/-- `realloc`, which has an answer of its own where the size is possible -/
def realloc (answer : Bool) (b : Block) (size : UInt64) : Option Block :=
  if answer = true ∧ size ≠ 0 ∧ size.toNat ≤ addressSpace then
    some ⟨b.bytes.take (min b.alloc size.toNat), size.toNat⟩
  else none

/-- `while(new_string_length > new_output_length) new_output_length += inc_length`; there are only
`2 ^ 64` lengths. -/
def growLoop (newStringLength incLength : UInt64) : ℕ → UInt64 → Option UInt64
  | 0, _ => none
  | fuel + 1, newOutputLength =>
    if newStringLength > newOutputLength then
      growLoop newStringLength incLength fuel (newOutputLength + incLength)
    else some newOutputLength

/-- `default_separator` -/
def defaultSeparator : Str := ⟨[' '], by decide, by decide⟩

/-- `""` -/
def noSeparator : Str := ⟨[], by decide, by decide⟩

/-- `local_separator` -/
def localSeparator (b : Block) (separator : Option Str) : Str :=
  if b.strlen = 0 then noSeparator
  else
    match separator with
    | some separator => separator
    | none => defaultSeparator

/-- What a call returns (`none` if it does not return), what it leaves, and the offsets and numbers
of the bytes that it writes. -/
structure Result where
  fstatus : Option Int32
  state : State
  writes : List (ℕ × ℕ)

/-- The second part, behind `if(*p_io_string != NULL)`. -/
def appends (s : State) (outputStringLength : UInt64) (localSeparator string2append : Str) :
    Result :=
  match s.ioString with
  | none => ⟨some (-1), s, []⟩
  | some b =>
    let separator := strncpy localSeparator localSeparator.strlen
    let text := strncpy string2append string2append.strlen
    let atText := outputStringLength + localSeparator.strlen
    let atNul := atText + string2append.strlen
    ⟨some 0,
      { s with
        ioString := some (((b.write outputStringLength separator).write atText text).write atNul
          [nul]) },
      [(outputStringLength.toNat, separator.length), (atText.toNat, text.length),
        (atNul.toNat, 1)]⟩

/-- `nodelist_common_string_appends_and_extends` -/
def stringAppendsAndExtends (s : State) (incLength : UInt64) (string2append separator : Option Str)
    (answer : Bool) : Result :=
  match s.ioString, string2append with
  | some b, some string2append =>
    let outputStringLength := b.strlen
    let separator := localSeparator b separator
    let newStringLength := outputStringLength + separator.strlen + string2append.strlen
    if newStringLength > s.currentLength then
      match growLoop newStringLength incLength (2 ^ 64) s.currentLength with
      | none => ⟨none, s, []⟩
      | some newOutputLength =>
        match realloc answer b (newOutputLength + 1) with
        | none => appends ⟨none, 0⟩ outputStringLength separator string2append
        | some b =>
          appends ⟨some b, newOutputLength⟩ outputStringLength separator string2append
    else appends s outputStringLength separator string2append
  | _, _ => ⟨some (-1), s, []⟩

/-- The block of `nodelist_nodelist_get_extended_string` -/
def init : State := ⟨some ⟨[nul], 1024⟩, 1024⟩

/-! ## The contract -/

/-- A call, and how `realloc` will answer it. -/
structure Call where
  incLength : UInt64
  string2append : Str
  separator : Option Str
  answer : Bool
  incPos : incLength ≠ 0
  nonempty : string2append.chars ≠ []

def Call.result (c : Call) (s : State) : Result :=
  stringAppendsAndExtends s c.incLength (some c.string2append) c.separator c.answer

def step (s : State) (c : Call) : Option State := some (c.result s).state

/-- The string is in the block, with its terminating 0. -/
structure Holds (b : Block) (str : List Char) : Prop where
  chars : str ++ [nul] <+: b.bytes
  noNul : nul ∉ str

/-- The content that a call has to leave. -/
def Call.content (c : Call) (b : Block) : List Char :=
  b.text ++ (localSeparator b c.separator).chars ++ c.string2append.chars

/-- **An append succeeds and stays inside of the block.** -/
def Correct (s : State) (c : Call) : Prop :=
  ∃ b b', s.ioString = some b ∧ (c.result s).fstatus = some 0 ∧
    (c.result s).state.ioString = some b' ∧ Holds b' (c.content b) ∧
      ∀ w ∈ (c.result s).writes, w.1 + w.2 ≤ b'.alloc

/-- The length suffices after some steps of the loop, and the block still fits memory. -/
def Reaches (n length inc : ℕ) : Prop :=
  ∃ k, n ≤ length + k * inc ∧ length + k * inc < addressSpace ∧ ∀ j < k, length + j * inc < n

/-- **What a call needs**: a content that does not grow the block is shorter than the block, and a
growth is granted. -/
def Fits (s : State) (c : Call) : Prop :=
  ∃ b, s.ioString = some b ∧
    ((c.content b).length ≤ s.currentLength.toNat → (c.content b).length < b.alloc) ∧
      (s.currentLength.toNat < (c.content b).length →
        c.answer = true ∧
          Reaches (c.content b).length s.currentLength.toNat c.incLength.toNat)

/-! ## The loop -/

variable {n inc length : UInt64} {fuel : ℕ}

structure Climbs (n length inc r : UInt64) (k : ℕ) : Prop where
  value : r.toNat = length.toNat + k * inc.toNat
  enough : n.toNat ≤ r.toNat
  first : ∀ j < k, length.toNat + j * inc.toNat < n.toNat

theorem growLoop_up (hn : n.toNat < 2 ^ 62) (hinc : 0 < inc.toNat) (hsmall : inc.toNat < 2 ^ 63)
    (hfuel : n.toNat - length.toNat < fuel) :
    ∃ r k, growLoop n inc fuel length = some r ∧ Climbs n length inc r k := by
  induction fuel generalizing length with
  | zero => exact absurd hfuel (Nat.not_lt_zero _)
  | succ fuel ih =>
    rw [growLoop]
    split
    · next hlt =>
      have hlt : length.toNat < n.toNat := hlt
      have hadd : (length + inc).toNat = length.toNat + inc.toNat := by
        rw [UInt64.toNat_add]
        omega
      obtain ⟨r, k, hr, hval, henough, hfirst⟩ :=
        @ih (length + inc) (by rw [hadd]; omega)
      refine ⟨r, k + 1, hr, ?_, henough, ?_⟩
      · rw [hval, hadd, Nat.add_one_mul]
        omega
      · intro j hj
        cases j with
        | zero => omega
        | succ j =>
          have := hfirst j (by omega)
          rw [hadd] at this
          rw [Nat.add_one_mul]
          omega
    · next hge =>
      have hge : n.toNat ≤ length.toNat := Nat.le_of_not_lt hge
      exact ⟨length, 0, rfl, by omega, hge, fun j hj => absurd hj (Nat.not_lt_zero j)⟩

theorem growLoop_down (hn : n.toNat < 2 ^ 62) (hlarge : 2 ^ 63 ≤ inc.toNat) (hlt : length < n)
    (hfuel : length.toNat + 1 < fuel) :
    ∃ r, growLoop n inc fuel length = some r ∧ 2 ^ 63 ≤ r.toNat := by
  induction fuel generalizing length with
  | zero => exact absurd hfuel (Nat.not_lt_zero _)
  | succ fuel ih =>
    rw [growLoop, if_pos hlt]
    have hlt : length.toNat < n.toNat := hlt
    have hinc := inc.toNat_lt
    have hadd : (length + inc).toNat = (length.toNat + inc.toNat) % 2 ^ 64 := UInt64.toNat_add ..
    by_cases hwrap : length.toNat + inc.toNat < 2 ^ 64
    · rw [Nat.mod_eq_of_lt hwrap] at hadd
      obtain ⟨fuel, rfl⟩ := Nat.exists_eq_succ_of_ne_zero (n := fuel) (by omega)
      have hge : ¬ n > length + inc := by
        intro h
        have h : (length + inc).toNat < n.toNat := h
        omega
      rw [growLoop, if_neg hge]
      exact ⟨length + inc, rfl, by omega⟩
    · refine ih ?_ (by omega)
      change (length + inc).toNat < n.toNat
      omega

/-- **The loop always ends**, at the first length that suffices or at one that no block can have. -/
theorem growLoop_spec (hn : n.toNat < 2 ^ 62) (hinc : inc ≠ 0) (hlt : length < n) :
    ∃ r, growLoop n inc (2 ^ 64) length = some r ∧
      ((∃ k, Climbs n length inc r k) ∨ 2 ^ 63 ≤ inc.toNat ∧ 2 ^ 63 ≤ r.toNat) := by
  have hpos : 0 < inc.toNat :=
    Nat.pos_of_ne_zero fun h => hinc (UInt64.toNat.inj (h.trans UInt64.toNat_zero.symm))
  have hl : length.toNat < n.toNat := hlt
  rcases Nat.lt_or_ge inc.toNat (2 ^ 63) with hsmall | hlarge
  · obtain ⟨r, k, hr, hclimbs⟩ := growLoop_up hn hpos hsmall (by omega : _ < 2 ^ 64)
    exact ⟨r, hr, .inl ⟨k, hclimbs⟩⟩
  · obtain ⟨r, hr, hlast⟩ := growLoop_down hn hlarge hlt (by omega : _ < 2 ^ 64)
    exact ⟨r, hr, .inr ⟨hlarge, hlast⟩⟩

/-! ## Writing -/

variable {b b' : Block} {str cs : List Char} {off : UInt64} {s t : State} {c : Call}
  {sep app : Str} {answer : Bool}

theorem Str.toNat_strlen (s : Str) : s.strlen.toNat = s.chars.length :=
  UInt64.toNat_ofNat_of_lt' (s.short.trans (by decide))

theorem strncpy_strlen (s : Str) : strncpy s s.strlen = s.chars := by
  rw [strncpy, s.toNat_strlen, List.take_length, Nat.sub_self, List.replicate_zero,
    List.append_nil]

theorem Holds.text_eq (h : Holds b str) : b.text = str := by
  obtain ⟨rest, hrest⟩ := h.chars
  have hno : ∀ c ∈ str, decide (c ≠ nul) = true := fun c hc =>
    decide_eq_true fun heq => h.noNul (heq ▸ hc)
  rw [Block.text, ← hrest, List.append_assoc, List.takeWhile_append_of_pos hno]
  simp

theorem Block.write_starts (h : str <+: b.bytes) (hoff : off.toNat = str.length) :
    str ++ cs <+: (b.write off cs).bytes := by
  rw [Block.write, hoff, ← List.prefix_iff_eq_take.mp h]
  exact List.prefix_append ..

/-- What `appends` does to a block. -/
structure Appended (r : Result) (size : ℕ) (length : UInt64) (content : List Char) (b' : Block) :
    Prop where
  fstatus : r.fstatus = some 0
  state : r.state = ⟨some b', length⟩
  holds : Holds b' content
  alloc : b'.alloc = size
  inside : (∀ w ∈ r.writes, w.1 + w.2 ≤ size) ↔ content.length < size

/-- **Three writes** leave the content and its terminating 0, which is the last byte written. -/
theorem appends_spec (b : Block) (length : UInt64) (sep app : Str) (h : str <+: b.bytes)
    (hnul : nul ∉ str) (hoff : off.toNat = str.length) (hlen : str.length < 2 ^ 47) :
    ∃ b', Appended (appends ⟨some b, length⟩ off sep app) b.alloc length
      (str ++ sep.chars ++ app.chars) b' := by
  have hsep := sep.toNat_strlen
  have happ := app.toNat_strlen
  have hs : sep.chars.length < 2 ^ 47 := sep.short
  have ha : app.chars.length < 2 ^ 47 := app.short
  have htext : (off + sep.strlen).toNat = (str ++ sep.chars).length := by
    rw [UInt64.toNat_add, List.length_append]
    omega
  have hend : (off + sep.strlen + app.strlen).toNat = (str ++ sep.chars ++ app.chars).length := by
    rw [UInt64.toNat_add, htext]
    simp only [List.length_append]
    omega
  refine ⟨_, rfl, rfl, ⟨?_, ?_⟩, rfl, ?_⟩
  · rw [strncpy_strlen, strncpy_strlen]
    exact Block.write_starts (Block.write_starts (Block.write_starts h hoff) htext) hend
  · simp only [List.mem_append, hnul, sep.noNul, app.noNul, or_self, not_false_eq_true]
  · simp only [appends, strncpy_strlen, List.forall_mem_cons, List.not_mem_nil, false_implies,
      implies_true, and_true, htext, hend, hoff, List.length_append]
    omega

/-! ## One call -/

structure Sound (s : State) (b : Block) : Prop where
  ioString : s.ioString = some b
  holds : Holds b b.text
  inside : b.text.length < b.alloc
  recorded : b.alloc = s.currentLength.toNat + 1 ∨ b.alloc = 1024 ∧ s.currentLength.toNat = 1024
  small : s.currentLength.toNat < addressSpace

/-- `realloc` grants the length that the loop ends at exactly if the length suffices in memory. -/
theorem granted_iff (answer : Bool) {r : UInt64} (hlt : length.toNat < n.toNat)
    (hr : (∃ k, Climbs n length inc r k) ∨ 2 ^ 63 ≤ inc.toNat ∧ 2 ^ 63 ≤ r.toNat) :
    (answer = true ∧ r + 1 ≠ 0 ∧ (r + 1).toNat ≤ 2 ^ 47) ↔
      answer = true ∧ Reaches n.toNat length.toNat inc.toNat := by
  refine and_congr_right fun _ => ?_
  have hsucc : (r + 1).toNat = (r.toNat + 1) % 2 ^ 64 := by
    rw [UInt64.toNat_add]
    rfl
  have hone : r + 1 ≠ 0 ↔ (r + 1).toNat ≠ 0 := by
    rw [ne_eq, ← UInt64.toNat_inj]
    rfl
  have hrlt := r.toNat_lt
  rw [hone]
  obtain ⟨k, hval, henough, hfirst⟩ | ⟨hlarge, hlast⟩ := hr
  · constructor
    · intro h
      have hspace : length.toNat + k * inc.toNat < 2 ^ 47 := by omega
      exact ⟨k, hval ▸ henough, hspace, hfirst⟩
    · rintro ⟨k', henough', hspace, hfirst'⟩
      have hspace : length.toNat + k' * inc.toNat < 2 ^ 47 := hspace
      have hk : k = k' := by
        rcases Nat.lt_trichotomy k k' with hlt | heq | hlt
        · have := hfirst' k hlt
          omega
        · exact heq
        · have := hfirst k' hlt
          omega
      subst hk
      omega
  · constructor
    · intro h
      omega
    · rintro ⟨k, henough, hspace, -⟩
      have hspace : length.toNat + k * inc.toNat < 2 ^ 47 := hspace
      have hk : 0 < k := by
        rcases Nat.eq_zero_or_pos k with rfl | hpos
        · omega
        · exact hpos
      have := Nat.le_mul_of_pos_left inc.toNat hk
      omega

theorem Appended.sound {r : Result} {size : ℕ} {content : List Char}
    (h : Appended r size length content b') (hlt : content.length < size)
    (hrecorded : size = length.toNat + 1 ∨ size = 1024 ∧ length.toNat = 1024)
    (hsmall : length.toNat < addressSpace) : Sound r.state b' := by
  have htext := h.holds.text_eq
  rw [h.state]
  refine ⟨rfl, ?_, ?_, ?_, hsmall⟩
  · rw [htext]
    exact h.holds
  · rwa [htext, h.alloc]
  · rwa [h.alloc]

theorem Appended.correct_iff {size : ℕ} (hb : s.ioString = some b)
    (h : Appended (c.result s) size length (c.content b) b') :
    Correct s c ↔ (c.content b).length < size := by
  rw [← h.inside, ← h.alloc]
  constructor
  · rintro ⟨-, b2, -, -, hb2, -, hin⟩
    rw [h.state] at hb2
    cases hb2
    exact hin
  · exact fun hin => ⟨b, b', hb, h.fstatus, by rw [h.state], h.holds, hin⟩

/-- **A call** from a sound buffer is correct exactly if it fits, and leaves a sound buffer then. -/
theorem Sound.call (h : Sound s b) (c : Call) :
    (Correct s c ↔ Fits s c) ∧ (Fits s c → ∃ b', Sound (c.result s).state b') := by
  obtain ⟨ioString, currentLength⟩ := s
  obtain ⟨hio, hholds, hinside, hrecorded, hsmall⟩ := h
  obtain rfl : ioString = some b := hio
  simp only at hrecorded hsmall
  have hsmall : currentLength.toNat < 2 ^ 47 := hsmall
  have htext : b.text.length < 2 ^ 47 := by omega
  set sep := localSeparator b c.separator with hsep
  have hlen : (c.content b).length =
      b.text.length + sep.chars.length + c.string2append.chars.length := by
    rw [Call.content, List.length_append, List.length_append]
  have hs : sep.chars.length < 2 ^ 47 := sep.short
  have ha : c.string2append.chars.length < 2 ^ 47 := c.string2append.short
  have hstrlen : b.strlen.toNat = b.text.length :=
    UInt64.toNat_ofNat_of_lt' (htext.trans (by decide))
  have hn : (b.strlen + sep.strlen + c.string2append.strlen).toNat = (c.content b).length := by
    rw [UInt64.toNat_add, UInt64.toNat_add, hstrlen, sep.toNat_strlen,
      c.string2append.toNat_strlen, hlen]
    omega
  have hstart : b.text <+: b.bytes := (List.prefix_append ..).trans hholds.chars
  have hfits : Fits ⟨some b, currentLength⟩ c ↔
      ((c.content b).length ≤ currentLength.toNat → (c.content b).length < b.alloc) ∧
      (currentLength.toNat < (c.content b).length → c.answer = true ∧
        Reaches (c.content b).length currentLength.toNat c.incLength.toNat) := by
    simp only [Fits, Option.some.injEq, exists_eq_left']
  by_cases hgrow : currentLength < b.strlen + sep.strlen + c.string2append.strlen
  · have hlt : currentLength.toNat < (c.content b).length := hn ▸ hgrow
    obtain ⟨r, hr, hend⟩ := growLoop_spec (by omega) c.incPos hgrow
    have hres : c.result ⟨some b, currentLength⟩ =
        match realloc c.answer b (r + 1) with
        | none => appends ⟨none, 0⟩ b.strlen sep c.string2append
        | some b1 => appends ⟨some b1, r⟩ b.strlen sep c.string2append := by
      simp only [Call.result, stringAppendsAndExtends, ← hsep, gt_iff_lt, if_pos hgrow, hr]
    have hgranted := granted_iff c.answer (hn ▸ hlt) hend
    rw [hn] at hgranted
    have hfits' : Fits ⟨some b, currentLength⟩ c ↔
        c.answer = true ∧ r + 1 ≠ 0 ∧ (r + 1).toNat ≤ 2 ^ 47 := by
      rw [hfits, hgranted]
      exact ⟨fun h => h.2 hlt, fun h => ⟨fun hle => absurd hlt (Nat.not_lt_of_le hle), fun _ => h⟩⟩
    by_cases hgrant : c.answer = true ∧ r + 1 ≠ 0 ∧ (r + 1).toNat ≤ 2 ^ 47
    · have hsucc : (r + 1).toNat = r.toNat + 1 := by
        have hone : (r + 1).toNat ≠ 0 := fun h =>
          hgrant.2.1 (UInt64.toNat.inj (h.trans UInt64.toNat_zero.symm))
        have hadd : (r + 1).toNat = (r.toNat + 1) % 2 ^ 64 := UInt64.toNat_add ..
        have := r.toNat_lt
        omega
      have henough : (c.content b).length ≤ r.toNat := by
        obtain ⟨k, hclimbs⟩ | ⟨-, hlarge⟩ := hend
        · exact hn ▸ hclimbs.enough
        · omega
      have hspace : r.toNat < 2 ^ 47 := by omega
      simp only [realloc, if_pos hgrant] at hres
      have hstart' : b.text <+: b.bytes.take (min b.alloc (r + 1).toNat) :=
        List.prefix_take_iff.mpr ⟨hstart, by omega⟩
      obtain ⟨b', hap⟩ := appends_spec ⟨_, (r + 1).toNat⟩ r sep c.string2append hstart'
        hholds.noNul hstrlen htext
      rw [← hres, hsep, ← Call.content] at hap
      rw [hap.correct_iff rfl, hfits']
      have hlast : (c.content b).length < (r + 1).toNat := by omega
      exact ⟨iff_of_true hlast hgrant, fun _ => ⟨b', hap.sound hlast (.inl hsucc) hspace⟩⟩
    · rw [hfits']
      rw [realloc, if_neg hgrant] at hres
      refine ⟨iff_of_false ?_ hgrant, fun h => absurd h hgrant⟩
      rintro ⟨-, -, -, hstatus, -⟩
      rw [hres] at hstatus
      cases hstatus
  · have hle : (c.content b).length ≤ currentLength.toNat := by
      rw [← hn]
      exact Nat.le_of_not_lt hgrow
    have hres : c.result ⟨some b, currentLength⟩ =
        appends ⟨some b, currentLength⟩ b.strlen sep c.string2append := by
      simp only [Call.result, stringAppendsAndExtends, ← hsep, gt_iff_lt, if_neg hgrow]
    obtain ⟨b', hap⟩ := appends_spec b currentLength sep c.string2append hstart hholds.noNul
      hstrlen htext
    rw [← hres, hsep, ← Call.content] at hap
    rw [hap.correct_iff rfl, hfits]
    exact ⟨⟨fun h => ⟨fun _ => h, fun hlt => absurd hle (Nat.not_le_of_lt hlt)⟩,
      fun h => h.1 hle⟩, fun h => ⟨b', hap.sound (h.1 hle) hrecorded hsmall⟩⟩

theorem sound_init : Sound init ⟨[nul], 1024⟩ :=
  ⟨rfl, ⟨List.prefix_refl _, List.not_mem_nil⟩, by decide, .inr ⟨rfl, rfl⟩, by decide⟩

/-- **Every append is correct** exactly if every one fits. -/
theorem allCorrect_iff (calls : List Call) :
    AllSteps step (fun s c _ => Correct s c) init calls ↔
      AllSteps step (fun s c _ => Fits s c) init calls := by
  refine allSteps_iff_of_invariant (I := fun s => ∃ b, Sound s b) ⟨_, sound_init⟩ ?_ ?_
  · rintro s c t ⟨b, h⟩ ht hfits
    cases ht
    exact (h.call c).2 hfits
  · rintro s c t ⟨b, h⟩ -
    exact (h.call c).1

/-- **1024 characters** are written to the new buffer, and the terminating 0 behind it. -/
theorem not_allCorrect : ¬ ∀ calls, AllSteps step (fun s c _ => Correct s c) init calls := by
  intro h
  have hlen : (List.replicate 1024 'n').length = 1024 := List.length_replicate
  let c : Call :=
    { incLength := 1
      string2append :=
        { chars := List.replicate 1024 'n'
          noNul := fun h => absurd (List.eq_of_mem_replicate h) (by decide)
          short := hlen.trans_lt (by decide) }
      separator := none
      answer := true
      incPos := by decide
      nonempty := List.ne_nil_of_length_pos (by rw [hlen]; decide) }
  obtain ⟨b, hb, hfits, -⟩ := (sound_init.call c).1.mp (h [c] _ rfl).1
  cases hb
  have hcontent : (c.content ⟨[nul], 1024⟩).length = 1024 := hlen
  rw [hcontent] at hfits
  exact absurd (hfits (by decide)) (Nat.lt_irrefl _)

end CloudNfs.AppendString
