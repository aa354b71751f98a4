import Mathlib.Algebra.Order.Ring.Int
import Mathlib.Data.List.Basic

/-!
# Numbers in the configuration (`Common/common_utils.c`)

`s_read_int`, `s_read_octal`, `s_read_int64` and `s_read_size` read a number from a string. All four
go through the characters, and multiply and add in the type of the result.

* A string is the list of its characters before the terminating 0, fewer than `2 ^ 31`, which the
  `int` index counts.
* `unsigned long long` and `size_t` have 64 bits; an `int` that is too large wraps around.
* No function looks whether the number still fits, so a number that does not is taken modulo
  `2 ^ 32` or `2 ^ 64` (`readsExactly_iff`). An `int` may come out negative then, which is an error.
-/

namespace CloudNfs.ReadNumber

/-! ## The code -/

section

variable {α : Type}

/-- The loop that the four functions share: the digits go up to `last`, and `push` multiplies and
adds one. -/
def readLoop (last : Char) (push : α → ℕ → α) : α → List Char → Option α
  | out, [] => some out
  | out, c :: str =>
    if c < '0' ∨ last < c then none
    else readLoop last push (push out (c.toNat - '0'.toNat)) str

/-- The loop, with the test for the empty string behind it. -/
def readDigits (last : Char) (push : α → ℕ → α) (zero : α) (str : List Char) : Option α :=
  match readLoop last push zero str with
  | none => none
  | some out => if str = [] then none else some out

end

/-- `out *= 10; out += digit` of an `int` -/
def pushInt (base : Int32) (out : Int32) (digit : ℕ) : Int32 := out * base + Int32.ofNat digit

/-- The same of an `unsigned long long` or a `size_t`. -/
def pushInt64 (out : UInt64) (digit : ℕ) : UInt64 := out * 10 + UInt64.ofNat digit

/-- `s_read_int` -/
def sReadInt (str : List Char) : Int32 := (readDigits '9' (pushInt 10) 0 str).getD (-1)

/-- `s_read_octal` -/
def sReadOctal (str : List Char) : Int32 := (readDigits '7' (pushInt 8) 0 str).getD (-1)

/-- What `s_read_int64` and `s_read_size` return and what they leave at their pointer, which is
`NULL` or has something there. -/
def sRead64 (str : List Char) : Option UInt64 → Int32 × Option UInt64
  | none => (-1, none)
  | some old =>
    match readDigits '9' pushInt64 0 str with
    | none => (-1, some old)
    | some out => (0, some out)

/-- `s_read_int64` -/
def sReadInt64 (str : List Char) (out64 : Option UInt64) : Int32 × Option UInt64 :=
  sRead64 str out64

/-- `s_read_size` -/
def sReadSize (str : List Char) (pSize : Option UInt64) : Int32 × Option UInt64 :=
  sRead64 str pSize

/-! ## The contract -/

/-- The whole string stands for the number. -/
structure Denotes (base : ℕ) (str : List Char) (n : ℕ) : Prop where
  nonempty : str ≠ []
  digits : ∀ c ∈ str, '0' ≤ c ∧ c.toNat < '0'.toNat + base
  value : Nat.ofDigitChars base str 0 = n

/-- **A number is read exactly, or refused.** -/
structure ReadsExactly (str : List Char) : Prop where
  int : (sReadInt str).toInt < 0 ∨ ∃ n : ℕ, Denotes 10 str n ∧ (sReadInt str).toInt = n
  octal : (sReadOctal str).toInt < 0 ∨ ∃ n : ℕ, Denotes 8 str n ∧ (sReadOctal str).toInt = n
  int64 : ∀ out64, (sReadInt64 str out64).1 ≠ 0 ∨
    ∃ v, (sReadInt64 str out64).2 = some v ∧ Denotes 10 str v.toNat
  size : ∀ pSize, (sReadSize str pSize).1 ≠ 0 ∨
    ∃ v, (sReadSize str pSize).2 = some v ∧ Denotes 10 str v.toNat

/-- The number is in the range of an `int`, or comes out negative. -/
def FitsInt (n : ℕ) : Prop := n < 2 ^ 31 ∨ 2 ^ 31 ≤ n % 2 ^ 32

/-- What the string stands for fits the four results. -/
structure Fits (str : List Char) : Prop where
  int : ∀ n, Denotes 10 str n → FitsInt n
  octal : ∀ n, Denotes 8 str n → FitsInt n
  int64 : ∀ n, Denotes 10 str n → n < 2 ^ 64

/-! ## The loop -/

section

variable {α : Type} {last : Char} {push : α → ℕ → α} {cast : ℕ → α} {base n : ℕ}
  {str : List Char} {v : α}

theorem readLoop_eq_some_iff (hlast : last.toNat + 1 = '0'.toNat + base)
    (hpush : ∀ n d, push (cast n) d = cast (base * n + d)) :
    readLoop last push (cast n) str = some v ↔
      (∀ c ∈ str, '0' ≤ c ∧ c.toNat < '0'.toNat + base) ∧
        v = cast (Nat.ofDigitChars base str n) := by
  induction str generalizing n with
  | nil => simp [readLoop, Nat.ofDigitChars_nil, eq_comm]
  | cons c str ih =>
    have hdigit : ¬ (c < '0' ∨ last < c) ↔ '0' ≤ c ∧ c.toNat < '0'.toNat + base := by
      rw [not_or, Char.not_lt, Char.not_lt]
      refine and_congr_right fun _ => ?_
      rw [Char.le_def, UInt32.le_iff_toNat_le]
      have hc : c.val.toNat = c.toNat := rfl
      have hl : last.val.toNat = last.toNat := rfl
      omega
    rw [readLoop, List.forall_mem_cons, ← hdigit, Nat.ofDigitChars_cons]
    split
    · next hbad =>
      constructor
      · intro h
        cases h
      · exact fun h => absurd hbad h.1.1
    · next hgood =>
      rw [hpush, ih]
      exact ⟨fun h => ⟨⟨hgood, h.1⟩, h.2⟩, fun h => ⟨h.1.2, h.2⟩⟩

/-- **What is read** is the number that the string stands for, in the type of the result. -/
theorem readDigits_eq_some_iff (hlast : last.toNat + 1 = '0'.toNat + base)
    (hpush : ∀ n d, push (cast n) d = cast (base * n + d)) :
    readDigits last push (cast 0) str = some v ↔ ∃ n, Denotes base str n ∧ v = cast n := by
  have hloop : ∀ v, readLoop last push (cast 0) str = some v ↔ _ :=
    fun v => readLoop_eq_some_iff hlast hpush
  rw [readDigits]
  constructor
  · intro h
    split at h
    · cases h
    rename_i out hout
    obtain ⟨hdigits, rfl⟩ := (hloop out).mp hout
    split at h
    · cases h
    · next hne =>
      cases h
      exact ⟨_, ⟨hne, hdigits, rfl⟩, rfl⟩
  · rintro ⟨n, ⟨hne, hdigits, rfl⟩, rfl⟩
    rw [(hloop _).mpr ⟨hdigits, rfl⟩]
    simp only [if_neg hne]

end

/-! ## The four functions -/

variable {str : List Char}

theorem pushInt_ofNat (base n d : ℕ) :
    pushInt (Int32.ofNat base) (Int32.ofNat n) d = Int32.ofNat (base * n + d) := by
  rw [pushInt, Nat.mul_comm, Int32.ofNat_add, Int32.ofNat_mul]

theorem pushInt64_ofNat (n d : ℕ) : pushInt64 (UInt64.ofNat n) d = UInt64.ofNat (10 * n + d) := by
  rw [pushInt64, Nat.mul_comm, UInt64.ofNat_add, UInt64.ofNat_mul]
  rfl

/-- An `int` is exact or negative exactly if the number is in its range or comes out negative. -/
theorem judged_iff (n : ℕ) :
    ((Int32.ofNat n).toInt < 0 ∨ (Int32.ofNat n).toInt = n) ↔ FitsInt n := by
  have hsize : (Int32.size : ℤ) = 2 ^ 32 := rfl
  rw [Int32.toInt_ofNat', FitsInt, Int.bmod_def, hsize]
  split <;> omega

theorem Denotes.unique {base n m : ℕ} (h : Denotes base str n) (h' : Denotes base str m) : n = m :=
  h.value.symm.trans h'.value

theorem int_iff {last : Char} {base : ℕ} (hlast : last.toNat + 1 = '0'.toNat + base) {r : Int32}
    (hr : (readDigits last (pushInt (Int32.ofNat base)) 0 str).getD (-1) = r) :
    (r.toInt < 0 ∨ ∃ n : ℕ, Denotes base str n ∧ r.toInt = n) ↔
      ∀ n, Denotes base str n → FitsInt n := by
  have hread : ∀ v, readDigits last (pushInt (Int32.ofNat base)) 0 str = some v ↔ _ := fun v =>
    readDigits_eq_some_iff hlast (pushInt_ofNat base)
  by_cases hdenotes : ∃ n, Denotes base str n
  · obtain ⟨n, hn⟩ := hdenotes
    rw [(hread _).mpr ⟨n, hn, rfl⟩, Option.getD_some] at hr
    subst hr
    constructor
    · intro h m hm
      rw [hm.unique hn]
      obtain hneg | ⟨m', hm', hval⟩ := h
      · exact (judged_iff n).mp (.inl hneg)
      · rw [hm'.unique hn] at hval
        exact (judged_iff n).mp (.inr hval)
    · exact fun h => ((judged_iff n).mpr (h n hn)).imp_right fun hval => ⟨n, hn, hval⟩
  · have hnone : readDigits last (pushInt (Int32.ofNat base)) 0 str = none := by
      cases h : readDigits last (pushInt (Int32.ofNat base)) 0 str with
      | none => rfl
      | some v =>
        obtain ⟨n, hn, -⟩ := (hread v).mp h
        exact absurd ⟨n, hn⟩ hdenotes
    rw [hnone, Option.getD_none] at hr
    subst hr
    exact iff_of_true (.inl (by decide)) fun n hn => absurd ⟨n, hn⟩ hdenotes

theorem read64_iff : (∀ out, (sRead64 str out).1 ≠ 0 ∨
      ∃ v, (sRead64 str out).2 = some v ∧ Denotes 10 str v.toNat) ↔
    ∀ n, Denotes 10 str n → n < 2 ^ 64 := by
  have hread : ∀ v, readDigits '9' pushInt64 0 str = some v ↔
      ∃ n, Denotes 10 str n ∧ v = UInt64.ofNat n := fun v =>
    readDigits_eq_some_iff (by decide) pushInt64_ofNat
  constructor
  · intro h n hn
    have hres := h (some 0)
    simp only [sRead64, (hread _).mpr ⟨n, hn, rfl⟩, ne_eq, not_true, false_or,
      Option.some.injEq, exists_eq_left'] at hres
    rw [hn.unique hres]
    exact UInt64.toNat_lt _
  · intro h out
    cases out with
    | none => exact .inl (by decide : (-1 : Int32) ≠ 0)
    | some old =>
      rw [sRead64]
      split
      · exact .inl (by decide : (-1 : Int32) ≠ 0)
      · next out hout =>
        obtain ⟨n, hn, rfl⟩ := (hread out).mp hout
        refine .inr ⟨_, rfl, ?_⟩
        rw [UInt64.toNat_ofNat_of_lt' (h n hn)]
        exact hn

/-- **Numbers are read exactly or refused** exactly if what the string stands for is less than
`2 ^ 64` and an `int` that it does not fit comes out negative. -/
theorem readsExactly_iff (str : List Char) : ReadsExactly str ↔ Fits str := by
  have hint : ((sReadInt str).toInt < 0 ∨
      ∃ n : ℕ, Denotes 10 str n ∧ (sReadInt str).toInt = n) ↔ _ := int_iff (by decide) rfl
  have hoctal : ((sReadOctal str).toInt < 0 ∨
      ∃ n : ℕ, Denotes 8 str n ∧ (sReadOctal str).toInt = n) ↔ _ := int_iff (by decide) rfl
  exact ⟨fun h => ⟨hint.mp h.int, hoctal.mp h.octal, read64_iff.mp h.int64⟩,
    fun h => ⟨hint.mpr h.int, hoctal.mpr h.octal, read64_iff.mpr h.int64, read64_iff.mpr h.int64⟩⟩

/-- **`4294967296` is read as 0** by `s_read_int`. -/
theorem not_readsExactly : ¬ ∀ str, ReadsExactly str := by
  intro h
  have hzero : sReadInt ['4', '2', '9', '4', '9', '6', '7', '2', '9', '6'] = 0 := by decide
  obtain hneg | ⟨n, hn, hval⟩ := (h ['4', '2', '9', '4', '9', '6', '7', '2', '9', '6']).int
  · rw [hzero] at hneg
    exact absurd hneg (by decide)
  · rw [hzero, ← hn.value] at hval
    exact absurd hval (by decide)

end CloudNfs.ReadNumber
