import Mathlib.Data.Nat.Digits.Defs
import Mathlib.Tactic.IntervalCases

/-!
# Numbers as hexadecimal text

What a program sees of a number that it has printed in base 16 and reads again.

* `Nat.toDigits 16 n` is the text that is printed; its letters are small.
* `hexPrefix` takes the digits at the start of a text, and `hexValue` is the number they stand for.
  Both cases of a letter are read.
* `hexPrefix_toDigits` and `hexValue_toDigits` say that the number comes back from any text that
  starts with it and goes on with something else.
-/

namespace CloudNfs

def hexVal (c : Char) : Option ℕ :=
  if '0' ≤ c ∧ c ≤ '9' then some (c.toNat - '0'.toNat)
  else if 'a' ≤ c ∧ c ≤ 'f' then some (c.toNat - 'a'.toNat + 10)
  else if 'A' ≤ c ∧ c ≤ 'F' then some (c.toNat - 'A'.toNat + 10)
  else none

def hexPrefix (s : List Char) : List Char := s.takeWhile fun c => (hexVal c).isSome

def hexValue (s : List Char) : ℕ := s.foldl (fun n c => 16 * n + (hexVal c).getD 0) 0

theorem hexVal_digitChar {d : ℕ} (hd : d < 16) : hexVal d.digitChar = some d := by
  interval_cases d <;> rfl

theorem hexValue_append_singleton (s : List Char) (c : Char) :
    hexValue (s ++ [c]) = 16 * hexValue s + (hexVal c).getD 0 := by
  rw [hexValue, List.foldl_append, List.foldl_cons, List.foldl_nil, ← hexValue]

theorem hexValue_toDigits (n : ℕ) : hexValue (Nat.toDigits 16 n) = n := by
  induction n using Nat.strongRecOn with
  | _ n ih =>
    rcases Nat.lt_or_ge n 16 with hn | hn
    · rw [Nat.toDigits_of_lt_base hn]
      simp [hexValue, hexVal_digitChar hn]
    · -- the last digit is read on top of what the others give
      have hmod : n % 16 < 16 := Nat.mod_lt n (by omega)
      rw [Nat.toDigits_of_base_le (by omega) hn, hexValue_append_singleton,
        ih (n / 16) (by omega), hexVal_digitChar hmod, Option.getD_some]
      omega

theorem toDigits_injective : Function.Injective (Nat.toDigits 16) :=
  Function.LeftInverse.injective hexValue_toDigits

theorem isSome_hexVal_of_mem_toDigits {n : ℕ} {c : Char} (hc : c ∈ Nat.toDigits 16 n) :
    (hexVal c).isSome = true := by
  induction n using Nat.strongRecOn with
  | _ n ih =>
    rcases Nat.lt_or_ge n 16 with hn | hn
    · rw [Nat.toDigits_of_lt_base hn, List.mem_singleton] at hc
      rw [hc, hexVal_digitChar hn, Option.isSome_some]
    · have hmod : n % 16 < 16 := Nat.mod_lt n (by omega)
      rw [Nat.toDigits_of_base_le (by omega) hn, List.mem_append, List.mem_singleton] at hc
      rcases hc with hc | hc
      · exact ih (n / 16) (by omega) hc
      · rw [hc, hexVal_digitChar hmod, Option.isSome_some]

theorem hexPrefix_toDigits (n : ℕ) {c : Char} (hc : hexVal c = none) (s : List Char) :
    hexPrefix (Nat.toDigits 16 n ++ c :: s) = Nat.toDigits 16 n := by
  rw [hexPrefix, List.takeWhile_append_of_pos fun d hd => isSome_hexVal_of_mem_toDigits hd,
    List.takeWhile_cons_of_neg (by simp [hc]), List.append_nil]

end CloudNfs
