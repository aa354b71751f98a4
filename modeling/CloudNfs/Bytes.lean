import Mathlib.Algebra.Order.Ring.Nat
import Mathlib.Tactic.Ring

/-!
# Numbers as bytes

What a program sees of a number once it is stored in a buffer: a fixed count of
bytes, in one of two orders.

* `leBytes w v` are the `w` bytes of `v`, least significant first, and `leValue` is
  the number such bytes stand for. Storing keeps a number modulo `256 ^ w`
  (`leValue_leBytes`).
* `beBytes` and `beValue` are the same in the other order, the order of the network.
* `field off w b` is what a program reads `w` bytes wide at offset `off`.
-/

namespace CloudNfs

/-- The `w` bytes of `v`, least significant first. -/
def leBytes : ℕ → ℕ → List UInt8
  | 0, _ => []
  | w + 1, v => UInt8.ofNat v :: leBytes w (v / 256)

/-- The number whose bytes are given, least significant first. -/
def leValue : List UInt8 → ℕ
  | [] => 0
  | b :: bs => b.toNat + 256 * leValue bs

/-- The `w` bytes of `v`, most significant first. -/
def beBytes (w v : ℕ) : List UInt8 := (leBytes w v).reverse

/-- The number whose bytes are given, most significant first. -/
def beValue (bs : List UInt8) : ℕ := leValue bs.reverse

/-- The `w` bytes found at offset `off`. -/
def field (off w : ℕ) (b : List UInt8) : List UInt8 := (b.drop off).take w

@[simp] theorem length_leBytes (w v : ℕ) : (leBytes w v).length = w := by
  induction w generalizing v with
  | zero => rfl
  | succ w ih => simp [leBytes, ih]

@[simp] theorem length_beBytes (w v : ℕ) : (beBytes w v).length = w := by simp [beBytes]

theorem leValue_leBytes (w v : ℕ) : leValue (leBytes w v) = v % 256 ^ w := by
  induction w generalizing v with
  | zero => simp [leBytes, leValue, Nat.mod_one]
  | succ w ih =>
    have hpow : 256 ^ (w + 1) = 256 * 256 ^ w := by ring
    rw [leBytes, leValue, ih, hpow, Nat.mod_mul]
    simp

theorem leBytes_add (m n v : ℕ) : leBytes (m + n) v = leBytes m v ++ leBytes n (v / 256 ^ m) := by
  induction m generalizing v with
  | zero => simp [leBytes]
  | succ m ih =>
    have hpow : 256 ^ (m + 1) = 256 * 256 ^ m := by ring
    rw [show m + 1 + n = m + n + 1 by omega, leBytes, leBytes, ih, hpow, Nat.div_div_eq_div_mul]
    rfl

end CloudNfs
