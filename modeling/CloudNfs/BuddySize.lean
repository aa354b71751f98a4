import CloudNfs.BuddyMalloc

/-!
# Sizes of blocks

`BuddyMalloc` adds the size of the header to the size that is asked for, and takes the logarithm.
The sum is a `size_t`, and `1 << sizelog2` is an `int`, so what comes out is right only for sizes
that are not too large.
-/

namespace CloudNfs.BuddyMalloc

section

variable {k s n K : ℕ} {size : UInt64} {config : BuddyParameter}

/-! ## Logarithms -/

/-- `k` is the logarithm of `n`, rounded up. -/
structure IsLog2Ceil (n k : ℕ) : Prop where
  le : n ≤ 2 ^ k
  lt : ∀ j < k, 2 ^ j < n
  /-- it is an index of `MemDesc` -/
  bound : k < buddyMaxLog2Size

theorem log2CeilLoop_spec (hn : n ≤ 2 ^ 63) : ∀ (fuel k : ℕ), k + fuel = buddyMaxLog2Size →
    k < buddyMaxLog2Size → (∀ j < k, 2 ^ j < n) → IsLog2Ceil n (log2CeilLoop n fuel k (2 ^ k)) := by
  intro fuel
  induction fuel with
  | zero =>
    intro k hfuel hk _
    omega
  | succ fuel ih =>
    intro k hfuel hk hlt
    rw [log2CeilLoop]
    split
    next hsmall =>
      -- `n` is at most `2 ^ 63`, so the loop stops before the last index
      have hk63 : k < 63 := by
        by_contra hge
        have : 2 ^ 63 ≤ 2 ^ k := Nat.pow_le_pow_right (by decide) (by omega)
        omega
      have hshift : (2 ^ k <<< 1) % 2 ^ 64 = 2 ^ (k + 1) := by
        rw [Nat.shiftLeft_eq, pow_one, ← Nat.pow_succ]
        exact Nat.mod_eq_of_lt (Nat.pow_lt_pow_right (by decide) (by omega))
      have hmax : ¬ k + 1 ≥ buddyMaxLog2Size := by
        rw [buddyMaxLog2Size]
        omega
      rw [if_neg hmax, hshift]
      refine ih (k + 1) (by omega) (by omega) fun j hj => ?_
      rcases Nat.lt_succ_iff_lt_or_eq.mp hj with hj | rfl
      · exact hlt j hj
      · exact hsmall
    next hlarge => exact ⟨Nat.le_of_not_lt hlarge, hlt, hk⟩

theorem log2Ceil_spec (hn : size.toNat ≤ 2 ^ 63) : IsLog2Ceil size.toNat (log2Ceil size) :=
  log2CeilLoop_spec hn buddyMaxLog2Size 0 rfl (by decide) nofun

theorem log2CeilLoop_le : ∀ (fuel k : ℕ), k + fuel = buddyMaxLog2Size → k < buddyMaxLog2Size →
    log2CeilLoop n fuel k (2 ^ k) = 0 ∨ n ≤ 2 ^ log2CeilLoop n fuel k (2 ^ k) := by
  intro fuel
  induction fuel with
  | zero =>
    intro k hfuel hk
    exact .inl rfl
  | succ fuel ih =>
    intro k hfuel hk
    rw [log2CeilLoop]
    split
    next hsmall =>
      split
      next => exact .inl rfl
      rename_i hmax
      have hk : k + 1 < buddyMaxLog2Size := Nat.lt_of_not_le hmax
      have hshift : (2 ^ k <<< 1) % 2 ^ 64 = 2 ^ (k + 1) := by
        rw [Nat.shiftLeft_eq, pow_one, ← Nat.pow_succ]
        exact Nat.mod_eq_of_lt (Nat.pow_lt_pow_right (by decide) hk)
      rw [hshift]
      exact ih (k + 1) (by omega) hk
    next hlarge => exact .inr (Nat.le_of_not_lt hlarge)

theorem log2Ceil_le (h : log2Ceil size ≠ 0) : size.toNat ≤ 2 ^ log2Ceil size :=
  (log2CeilLoop_le buddyMaxLog2Size 0 rfl (by decide)).resolve_left h

theorem IsLog2Ceil.lt_of_lt (h : IsLog2Ceil n s) (hn : 2 ^ k < n) : k < s := by
  have hpow : 2 ^ k < 2 ^ s := Nat.lt_of_lt_of_le hn h.le
  exact (Nat.pow_lt_pow_iff_right (by decide)).mp hpow

theorem IsLog2Ceil.le_of_le (h : IsLog2Ceil n s) (hn : n ≤ 2 ^ k) : s ≤ k := by
  by_contra hgt
  have := h.lt k (by omega)
  omega

/-! ## What is asked for -/

/-- What has to be in the block. -/
def totalSize (size : UInt64) : ℕ := max size.toNat minAllocSize + sizeHeader64

theorem sizeLog2_spec (hn : size.toNat + sizeHeader64 ≤ 2 ^ 63) :
    IsLog2Ceil (totalSize size) (sizeLog2 size) := by
  rw [sizeLog2, totalSize]
  split
  next hsmall =>
    have hlt : size.toNat < minAllocSize := UInt64.lt_iff_toNat_lt.mp hsmall
    rw [Nat.max_eq_right (Nat.le_of_lt hlt)]
    have hsum : (minAllocSize.toUInt64 + sizeHeader64.toUInt64).toNat ≤ 2 ^ 63 := by decide
    exact log2Ceil_spec hsum
  rename_i hlarge
  have hge : minAllocSize ≤ size.toNat :=
    Nat.le_of_not_lt fun hlt => hlarge (UInt64.lt_iff_toNat_lt.mpr hlt)
  have hsum : (size + sizeHeader64.toUInt64).toNat = size.toNat + sizeHeader64 := by
    rw [UInt64.toNat_add]
    exact Nat.mod_eq_of_lt (Nat.lt_of_le_of_lt hn (by decide))
  rw [Nat.max_eq_left hge]
  have hspec := log2Ceil_spec (hsum ▸ hn)
  rw [hsum] at hspec
  exact hspec

theorem intShift_of_le (hk : k ≤ 30) : intShift k = 2 ^ k := by
  have hmod : k % 32 = k := Nat.mod_eq_of_lt (by omega)
  rw [intShift, hmod, if_neg (by omega)]

/-- The sizes for which `BuddyMalloc` finds enough room, or nothing: an `int` can hold the size of
the block, or `1 << sizelog2` is larger than a page all the same, or there are no new pages. -/
def Sized (config : BuddyParameter) (K : ℕ) (size : UInt64) : Prop :=
  size.toNat + sizeHeader64 ≤ 2 ^ 31 ∨
    size.toNat + sizeHeader64 ≤ 2 ^ 63 ∧
      (2 ^ (32 + K) < size.toNat + sizeHeader64 ∨ config.onDemandAlloc = false)

instance : Decidable (Sized config K size) := inferInstanceAs (Decidable (_ ∨ _))

/-- **What is asked for** fits into the block, and the block is an extra block, or a page is large
enough for it, or it has to be taken from larger pages than there are. -/
theorem Sized.cases (h : Sized config K size) (hK : K ≤ 30) :
    IsLog2Ceil (totalSize size) (sizeLog2 size) ∧
      (intShift (sizeLog2 size) > 2 ^ K ∨ sizeLog2 size ≤ K ∨
        K < sizeLog2 size ∧ config.onDemandAlloc = false) := by
  have hn : size.toNat + sizeHeader64 ≤ 2 ^ 63 := by
    rcases h with h | h
    · exact Nat.le_trans h (by decide)
    · exact h.1
  have hlog := sizeLog2_spec hn
  refine ⟨hlog, ?_⟩
  have hbound := hlog.bound
  rw [buddyMaxLog2Size] at hbound
  rcases h with h | ⟨-, h | h⟩
  · have hle : sizeLog2 size ≤ 31 := by
      refine hlog.le_of_le ?_
      rw [totalSize, minAllocSize, sizeHeader64] at *
      omega
    rcases Nat.lt_or_ge K (sizeLog2 size) with hlt | hge
    · left
      by_cases h31 : sizeLog2 size = 31
      · have hpow : 2 ^ K ≤ 2 ^ 30 := Nat.pow_le_pow_right (by decide) hK
        rw [h31]
        exact Nat.lt_of_le_of_lt hpow (by decide)
      · rw [intShift_of_le (by omega)]
        exact Nat.pow_lt_pow_right (by decide) hlt
    · exact .inr (.inl hge)
  · left
    have hlt : 32 + K < sizeLog2 size := by
      refine hlog.lt_of_lt (Nat.lt_of_lt_of_le h ?_)
      rw [totalSize]
      omega
    rw [intShift]
    split
    · have hpow : 2 ^ K ≤ 2 ^ 30 := Nat.pow_le_pow_right (by decide) hK
      exact Nat.lt_of_le_of_lt hpow (by decide)
    next h31 => exact Nat.pow_lt_pow_right (by decide) (by omega)
  · rcases Nat.lt_or_ge K (sizeLog2 size) with hlt | hge
    · exact .inr (.inr ⟨hlt, h⟩)
    · exact .inr (.inl hge)

theorem Sized.room (h : Sized config K size) (hK : K ≤ 30) :
    sizeHeader64 + size.toNat ≤ 2 ^ sizeLog2 size ∧
      (¬ intShift (sizeLog2 size) > 2 ^ K → config.onDemandAlloc = true →
        sizeHeader64 + size.toNat ≤ 2 ^ K) := by
  obtain ⟨hlog, hcases⟩ := h.cases hK
  have hle := hlog.le
  rw [totalSize] at hle
  have hroom : sizeHeader64 + size.toNat ≤ 2 ^ sizeLog2 size := by omega
  refine ⟨hroom, fun hsmall hdemand => ?_⟩
  rcases hcases with hgt | hle | ⟨-, hnone⟩
  · exact absurd hgt hsmall
  · exact Nat.le_trans hroom (Nat.pow_le_pow_right (by decide) hle)
  · cases hdemand.symm.trans hnone

end

end CloudNfs.BuddyMalloc
