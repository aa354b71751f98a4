import Mathlib.Data.List.Induction
import Mathlib.Tactic.IntervalCases

/-!
# Numbers as decimal text

What a program sees of a number that it has printed in base 10, with zeros before it if they are
asked for, and of a number that it reads.

* `paddedDigits p n` is what is printed for `n` in at least `p` digits, and `Nat.ofDigitChars 10`
  reads it back (`ofDigitChars_paddedDigits`).
* Text made of digits is what is printed for its number in as many digits as it has
  (`paddedDigits_ofDigitChars`), or in any number of digits if it does not begin with a zero
  (`paddedDigits_of_head_ne`).
-/

namespace CloudNfs

/-- The digits of a number, at least `p` of them. -/
def paddedDigits (p n : ℕ) : List Char := (Nat.toDigits 10 n).leftpad p '0'

theorem length_paddedDigits (p n : ℕ) :
    (paddedDigits p n).length = max p (Nat.toDigits 10 n).length :=
  List.length_leftpad

theorem paddedDigits_ne_nil (p n : ℕ) : paddedDigits p n ≠ [] := by
  have hpos : 0 < (Nat.toDigits 10 n).length := Nat.length_toDigits_pos
  have hlen := length_paddedDigits p n
  intro hnil
  rw [hnil, List.length_nil] at hlen
  omega

theorem paddedDigits_eq (p n : ℕ) :
    paddedDigits p n = List.replicate (p - (Nat.toDigits 10 n).length) '0' ++ Nat.toDigits 10 n :=
  rfl

theorem ofDigitChars_paddedDigits (p n : ℕ) : Nat.ofDigitChars 10 (paddedDigits p n) 0 = n := by
  rw [paddedDigits_eq, Nat.ofDigitChars_append, Nat.ofDigitChars_replicate_zero, Nat.mul_zero,
    Nat.ofDigitChars_ten_toDigits]

theorem isDigit_of_mem_paddedDigits {p n : ℕ} {c : Char} (hc : c ∈ paddedDigits p n) :
    c.isDigit = true := by
  rw [paddedDigits_eq, List.mem_append] at hc
  rcases hc with hc | hc
  · rw [List.eq_of_mem_replicate hc]
    rfl
  · exact Nat.isDigit_of_mem_toDigits (by decide) (by decide) hc

theorem paddedDigits_eq_of_le {p q n : ℕ} (hp : p ≤ (paddedDigits q n).length)
    (hq : q ≤ (paddedDigits p n).length) : paddedDigits p n = paddedDigits q n := by
  rw [length_paddedDigits] at hp hq
  have heq : p - (Nat.toDigits 10 n).length = q - (Nat.toDigits 10 n).length := by omega
  rw [paddedDigits_eq, paddedDigits_eq, heq]

theorem digitChar_toNat_sub {c : Char} (hc : c.isDigit = true) :
    c.toNat - '0'.toNat < 10 ∧ (c.toNat - '0'.toNat).digitChar = c := by
  obtain ⟨hlo, hhi⟩ : 48 ≤ c.toNat ∧ c.toNat ≤ 57 := by
    simpa [Char.isDigit, UInt32.le_iff_toNat_le] using hc
  have hof : c = Char.ofNat c.toNat := (Char.ofNat_toNat c).symm
  generalize c.toNat = n at hlo hhi hof
  subst hof
  interval_cases n <;> decide

theorem paddedDigits_ofDigitChars {w : List Char} (hw : w ≠ [])
    (hdigit : ∀ c ∈ w, c.isDigit = true) :
    paddedDigits w.length (Nat.ofDigitChars 10 w 0) = w := by
  induction w using List.reverseRecOn with
  | nil => exact absurd rfl hw
  | append_singleton w c ih =>
    obtain ⟨hlt, hchar⟩ := digitChar_toNat_sub (hdigit c (by simp))
    have hvalue : Nat.ofDigitChars 10 (w ++ [c]) 0 =
        10 * Nat.ofDigitChars 10 w 0 + (c.toNat - '0'.toNat) := by
      rw [Nat.ofDigitChars_append, Nat.ofDigitChars_cons, Nat.ofDigitChars_nil]
    rw [hvalue]
    generalize c.toNat - '0'.toNat = d at hlt hchar
    rcases Nat.eq_zero_or_pos (Nat.ofDigitChars 10 w 0) with hzero | hpos
    · -- only zeros come before
      have hprev : w = List.replicate w.length '0' := by
        rcases eq_or_ne w [] with rfl | hne
        · rfl
        · have hih := ih hne fun c' hc' => hdigit c' (List.mem_append_left _ hc')
          rw [hzero, paddedDigits_eq] at hih
          have hone : Nat.toDigits 10 0 = List.replicate 1 '0' := rfl
          rw [hone, List.replicate_append_replicate, List.length_replicate] at hih
          have hlen := congrArg List.length hih
          rw [List.length_replicate] at hlen
          rw [hlen] at hih
          exact hih.symm
      rw [hzero, Nat.mul_zero, Nat.zero_add, paddedDigits_eq, Nat.toDigits_of_lt_base hlt, hchar,
        List.length_append, List.length_singleton, Nat.add_sub_cancel, ← hprev]
    · have hne : w ≠ [] := by
        rintro rfl
        exact absurd hpos (lt_irrefl 0)
      have hih := ih hne fun c' hc' => hdigit c' (List.mem_append_left _ hc')
      rw [paddedDigits_eq] at hih
      rw [paddedDigits_eq, ← Nat.toDigits_append_toDigits (by decide) hpos hlt,
        Nat.toDigits_of_lt_base hlt, hchar, List.length_append, List.length_append,
        List.length_singleton, Nat.add_sub_add_right, ← List.append_assoc, hih]

theorem paddedDigits_of_head_ne {w : List Char} (hw : w ≠ []) (hdigit : ∀ c ∈ w, c.isDigit = true)
    (hhead : w.head? ≠ some '0') : Nat.toDigits 10 (Nat.ofDigitChars 10 w 0) = w := by
  have hpad := paddedDigits_ofDigitChars hw hdigit
  rw [paddedDigits_eq] at hpad
  rcases Nat.eq_zero_or_pos (w.length - (Nat.toDigits 10 (Nat.ofDigitChars 10 w 0)).length)
    with hzero | hpos
  · rw [hzero] at hpad
    exact hpad
  · obtain ⟨k, hk⟩ := Nat.exists_eq_succ_of_ne_zero (Nat.ne_of_gt hpos)
    rw [hk, List.replicate_succ, List.cons_append] at hpad
    rw [← hpad] at hhead
    exact absurd rfl hhead

end CloudNfs
