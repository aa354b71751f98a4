import Mathlib.Algebra.Order.Ring.Nat

/-!
# Files as byte arrays

The content of a file is its size and its bytes, all zero from the size on. A write
puts some bytes of memory at an offset; a hole it leaves before them reads as zeros,
and a write of no bytes changes nothing.

The lemmas say when two writes may be exchanged or made at once:

* `write_comm`: writes that agree where they overlap may be made in either order;
* `write_absorb`: a write within the bytes that are written next is lost;
* `read_write_iff`: a write does not change what is read if it brings nothing new;
* `write_overlay`: a write followed by another that begins inside it or right behind
  it, and reaches at least as far, is one write.
-/

namespace CloudNfs

/-- The content of a file. -/
@[ext]
structure ByteFile where
  size : ℕ
  byte : ℕ → UInt8
  /-- nothing behind the end -/
  beyond : ∀ i, size ≤ i → byte i = 0

namespace ByteFile

def empty : ByteFile := ⟨0, fun _ => 0, fun _ _ => rfl⟩

theorem eq_empty_iff {f : ByteFile} : f = empty ↔ f.size = 0 := by
  refine ⟨fun h => h ▸ rfl, fun h => ByteFile.ext h (funext fun i => ?_)⟩
  exact f.beyond i (by omega)

/-- The file cut, or filled with zeros, to a length. -/
def truncate (f : ByteFile) (length : ℕ) : ByteFile where
  size := length
  byte i := if i < length then f.byte i else 0
  beyond _ hi := if_neg (Nat.not_lt.mpr hi)

/-- The file with the `n` bytes at `d` written at offset `off`. -/
def write (f : ByteFile) (off n : ℕ) (d : ℕ → UInt8) : ByteFile where
  size := if n = 0 then f.size else max f.size (off + n)
  byte i := if off ≤ i ∧ i < off + n then d (i - off) else f.byte i
  beyond i hi := by
    have hout : ¬ (off ≤ i ∧ i < off + n) := by
      split at hi <;> omega
    rw [if_neg hout]
    refine f.beyond i ?_
    split at hi <;> omega

variable (f : ByteFile) {off n off' n' : ℕ} {d d' : ℕ → UInt8}

@[simp] theorem write_zero : f.write off 0 d = f := by
  refine ByteFile.ext ?_ (funext fun i => ?_)
  · rfl
  · have hout : ¬ (off ≤ i ∧ i < off + 0) := by omega
    simp only [write, if_neg hout]

theorem write_congr (h : ∀ i, i < n → d i = d' i) : f.write off n d = f.write off n d' := by
  refine ByteFile.ext ?_ (funext fun i => ?_)
  · rfl
  · simp only [write]
    split
    · rw [h (i - off) (by omega)]
    · rfl

theorem write_comm (h : ∀ i, off ≤ i → i < off + n → off' ≤ i → i < off' + n' →
    d (i - off) = d' (i - off')) :
    (f.write off n d).write off' n' d' = (f.write off' n' d').write off n d := by
  refine ByteFile.ext ?_ (funext fun i => ?_)
  · simp only [write]
    split <;> split <;> omega
  · simp only [write]
    split
    · next h1 =>
      split
      · next h2 => exact (h i h2.1 h2.2 h1.1 h1.2).symm
      · rfl
    · rfl

theorem write_absorb (hoff : off' ≤ off) (hend : off + n ≤ off' + n') :
    (f.write off n d).write off' n' d' = f.write off' n' d' := by
  refine ByteFile.ext ?_ (funext fun i => ?_)
  · simp only [write]
    split <;> split <;> omega
  · simp only [write]
    split
    · rfl
    · rw [if_neg]
      omega

/-- **Overlay**: the second write begins inside the first one or right behind it and reaches at
least as far. -/
theorem write_overlay (hoff : off ≤ off') (hin : off' ≤ off + n) (hend : off + n ≤ off' + n') :
    (f.write off n d).write off' n' d' =
      f.write off (off' - off + n')
        fun i => if off' - off ≤ i then d' (i - (off' - off)) else d i := by
  refine ByteFile.ext ?_ (funext fun i => ?_)
  · simp only [write]
    split <;> split <;> split <;> omega
  · simp only [write]
    by_cases h1 : off' ≤ i ∧ i < off' + n'
    · have h2 : off ≤ i ∧ i < off + (off' - off + n') := by omega
      have h3 : off' - off ≤ i - off := by omega
      have hidx : i - off - (off' - off) = i - off' := by omega
      rw [if_pos h1, if_pos h2, if_pos h3, hidx]
    · rw [if_neg h1]
      by_cases h2 : off ≤ i ∧ i < off + n
      · have h3 : off ≤ i ∧ i < off + (off' - off + n') := by omega
        have h4 : ¬ off' - off ≤ i - off := by omega
        rw [if_pos h2, if_pos h3, if_neg h4]
      · have h3 : ¬ (off ≤ i ∧ i < off + (off' - off + n')) := by omega
        rw [if_neg h2, if_neg h3]

/-- The bytes that a read of `n` bytes at offset `off` gives: it ends at the end of the file. -/
def read (f : ByteFile) (off n : ℕ) : List UInt8 :=
  (List.range (min n (f.size - off))).map fun i => f.byte (off + i)

/-- **Two files read the same** if they end at the same place, as far as the read goes, and have the
same bytes before it. -/
theorem read_eq_iff {f g : ByteFile} :
    f.read off n = g.read off n ↔
      min n (f.size - off) = min n (g.size - off) ∧
        ∀ i, i < min n (f.size - off) → f.byte (off + i) = g.byte (off + i) := by
  constructor
  · intro h
    have hlen : min n (f.size - off) = min n (g.size - off) := by
      simpa [read] using congrArg List.length h
    refine ⟨hlen, fun i hi => ?_⟩
    rw [read, read, ← hlen] at h
    exact List.map_inj_left.mp h i (List.mem_range.mpr hi)
  · rintro ⟨hlen, hbyte⟩
    rw [read, read, ← hlen]
    exact List.map_congr_left fun i hi => hbyte i (List.mem_range.mp hi)

/-- **A write does not change a read** exactly if it brings nothing new where the two meet, and does
not move the end of the file into the read. -/
theorem read_write_iff (hn : n ≠ 0) :
    f.read off' n' = (f.write off n d).read off' n' ↔
      (∀ i, off' ≤ i → i < off' + n' → off ≤ i → i < off + n → d (i - off) = f.byte i) ∧
        min (off' + n') (off + n) ≤ max off' f.size := by
  rw [read_eq_iff]
  simp only [write, if_neg hn]
  constructor
  · rintro ⟨hlen, hbyte⟩
    refine ⟨fun i h₁ h₂ h₃ h₄ => ?_, by omega⟩
    have hi := hbyte (i - off') (by omega)
    rw [show off' + (i - off') = i by omega, if_pos ⟨h₃, h₄⟩] at hi
    exact hi.symm
  · rintro ⟨hbyte, hend⟩
    refine ⟨by omega, fun i hi => ?_⟩
    split
    · next hin => exact (hbyte (off' + i) (by omega) (by omega) hin.1 hin.2).symm
    · rfl

end ByteFile

end CloudNfs
