import Mathlib.Data.Set.Basic

/-!
# Byte ranges

A lock covers the bytes from an offset on, either a given number of them or all
of them up to the end of the file. Offsets and lengths are natural numbers here:
this is what a range *means*, to be compared with the ends the protocols compute
in 64-bit arithmetic.

The one fact used over and over is `overlap_iff`: two ranges that are not empty
have a common byte exactly when each begins before the other ends.
-/

namespace CloudNfs

/-- A range of bytes: its first byte, and its size unless it goes on to the end of
the file. -/
structure ByteRange where
  first : ℕ
  /-- the number of bytes; `none` means to the end of the file -/
  size : Option ℕ

namespace ByteRange

def bytes (r : ByteRange) : Set ℕ := {b | r.first ≤ b ∧ ∀ n, r.size = some n → b < r.first + n}

instance (r : ByteRange) (b : ℕ) : Decidable (b ∈ r.bytes) :=
  inferInstanceAs (Decidable (r.first ≤ b ∧ ∀ n, n ∈ r.size → b < r.first + n))

def Inhabited (r : ByteRange) : Prop := r.size ≠ some 0

def Overlap (r r' : ByteRange) : Prop := ∃ b, b ∈ r.bytes ∧ b ∈ r'.bytes

variable {r r' r1 r2 : ByteRange} {b : ℕ}

theorem mem_bytes : b ∈ r.bytes ↔ r.first ≤ b ∧ ∀ n, r.size = some n → b < r.first + n :=
  Iff.rfl

theorem Inhabited.first_mem (h : r.Inhabited) : r.first ∈ r.bytes := by
  refine ⟨le_refl _, fun n hn => ?_⟩
  have hpos : n ≠ 0 := fun h0 => h (h0 ▸ hn)
  omega

theorem Overlap.symm (h : Overlap r r') : Overlap r' r := by
  obtain ⟨b, hb, hb'⟩ := h
  exact ⟨b, hb', hb⟩

theorem Overlap.mono (h : Overlap r1 r2) (h1 : r1.bytes ⊆ r.bytes) (h2 : r2.bytes ⊆ r'.bytes) :
    Overlap r r' := by
  obtain ⟨b, hb, hb'⟩ := h
  exact ⟨b, h1 hb, h2 hb'⟩

/-- `r` begins before `r'` ends. -/
def BeginsBeforeEndOf (r r' : ByteRange) : Prop :=
  ∀ n, r'.size = some n → r.first < r'.first + n

/-- **Overlap**: ranges that are not empty share a byte exactly when each of them
begins before the other ends; the later of the two first bytes is then common. -/
theorem overlap_iff (hr : r.Inhabited) (hr' : r'.Inhabited) :
    Overlap r r' ↔ r.BeginsBeforeEndOf r' ∧ r'.BeginsBeforeEndOf r := by
  constructor
  · rintro ⟨b, ⟨hb, hend⟩, ⟨hb', hend'⟩⟩
    constructor
    · intro n hn
      have := hend' n hn
      omega
    · intro n hn
      have := hend n hn
      omega
  · rintro ⟨h, h'⟩
    refine ⟨max r.first r'.first, ⟨le_max_left _ _, fun n hn => ?_⟩,
      ⟨le_max_right _ _, fun n hn => ?_⟩⟩
    · have hlt := h' n hn
      have hpos : n ≠ 0 := fun h0 => hr (h0 ▸ hn)
      omega
    · have hlt := h n hn
      have hpos : n ≠ 0 := fun h0 => hr' (h0 ▸ hn)
      omega

end ByteRange

end CloudNfs
