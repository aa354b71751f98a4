import Mathlib.Data.UInt
import Mathlib.Data.Nat.Bitwise
import Mathlib.Logic.Function.Basic
import Mathlib.Tactic.Ring

/-!
# Blocks of a binary buddy system

A region of `2 ^ K` bytes is divided into blocks whose sizes are powers of two, each of them at a
multiple of its size. The **buddy** of a block is the other half of the block of twice the size that
it is a part of; its offset differs in one bit. A block is split into two buddies, and two buddies
of the same size are merged into one block.

* `Layout` — which blocks there are, each with a status.
* `Partition` — the blocks are aligned and do not overlap, and every byte is in one of them.
* `Partition.buddy_exists` — where the buddy of a block should be, a block starts that is not
  larger.
* `Partition.split`, `Partition.merge`, `Partition.setStatus` — the operations keep a partition.
* `Walk`, `Partition.walk_iff` — the blocks are those that are found by going from each block to the
  end of it.
* `Unpaired` — no two buddies of the same size have a given status.
-/

namespace CloudNfs.BuddyBlocks

open Function (update update_self update_of_ne)

universe u

/-- A block of `2 ^ k` bytes. -/
structure Block (S : Type u) where
  k : ℕ
  status : S
  deriving DecidableEq

/-- The block that starts at each offset, if there is one. -/
abbrev Layout (S : Type u) := ℕ → Option (Block S)

/-- The offset of the buddy of the block of `2 ^ k` bytes at `o`. -/
def buddy (o k : ℕ) : ℕ := o ^^^ (1 <<< k)

/-- The byte `x` is in the block of `2 ^ k` bytes at `o`. -/
def Inside (o k x : ℕ) : Prop := o ≤ x ∧ x < o + 2 ^ k

/-! ## Offsets -/

section

variable {o o' k k' x K : ℕ}

theorem inside_self : Inside o k o := ⟨le_refl o, Nat.lt_add_of_pos_right (Nat.two_pow_pos k)⟩

theorem le_of_dvd_of_lt_add {n a b : ℕ} (ha : n ∣ a) (hb : n ∣ b) (h : a < b + n) : a ≤ b := by
  obtain ⟨i, rfl⟩ := ha
  obtain ⟨j, rfl⟩ := hb
  have hlt : n * i < n * (j + 1) := h
  exact Nat.mul_le_mul_left n (Nat.lt_succ_iff.mp (Nat.lt_of_mul_lt_mul_left hlt))

theorem nested (ho : 2 ^ k ∣ o) (ho' : 2 ^ k' ∣ o') (hk : k ≤ k') (hx : Inside o k x)
    (hx' : Inside o' k' x) : o' ≤ o ∧ o + 2 ^ k ≤ o' + 2 ^ k' := by
  have hdvd : 2 ^ k ∣ 2 ^ k' := Nat.pow_dvd_pow 2 hk
  constructor
  · exact le_of_dvd_of_lt_add (hdvd.trans ho') ho (Nat.lt_of_le_of_lt hx'.1 hx.2)
  · refine le_of_dvd_of_lt_add (Nat.dvd_add ho (dvd_refl _))
      (Nat.dvd_add (hdvd.trans ho') hdvd) ?_
    have hlt : o < o' + 2 ^ k' := Nat.lt_of_le_of_lt hx.1 hx'.2
    omega

theorem buddy_halves (ho : 2 ^ k ∣ o) : ∃ m, 2 ^ (k + 1) ∣ m ∧
    (o = m ∧ buddy o k = m + 2 ^ k ∨ o = m + 2 ^ k ∧ buddy o k = m) := by
  obtain ⟨q, rfl⟩ := ho
  have hbuddy : buddy (2 ^ k * q) k = 2 ^ k * (q ^^^ 1) := by
    rw [buddy, Nat.mul_comm, ← Nat.shiftLeft_eq, ← Nat.shiftLeft_xor_distrib, Nat.shiftLeft_eq,
      Nat.mul_comm]
  rcases Nat.even_or_odd' q with ⟨r, rfl | rfl⟩
  · refine ⟨2 ^ k * (2 * r), ⟨r, by ring⟩, .inl ⟨rfl, ?_⟩⟩
    rw [hbuddy, Nat.xor_one_of_even (even_two_mul r)]
    ring
  · refine ⟨2 ^ k * (2 * r), ⟨r, by ring⟩, .inr ⟨by ring, ?_⟩⟩
    rw [hbuddy, Nat.xor_one_of_odd (odd_two_mul_add_one r), Nat.add_sub_cancel]

theorem buddy_of_dvd (ho : 2 ^ (k + 1) ∣ o) : buddy o k = o + 2 ^ k := by
  have hdvd : 2 ^ k ∣ o := (Nat.pow_dvd_pow 2 (Nat.le_succ k)).trans ho
  obtain ⟨m, hm, ⟨rfl, hb⟩ | ⟨rfl, -⟩⟩ := buddy_halves hdvd
  · exact hb
  · -- then the difference of two multiples of `2 ^ (k + 1)` would be `2 ^ k`
    have hpow : 2 ^ (k + 1) ∣ 2 ^ k := (Nat.dvd_add_right hm).mp ho
    have hle := Nat.le_of_dvd (Nat.two_pow_pos k) hpow
    rw [Nat.pow_succ] at hle
    have := Nat.two_pow_pos k
    omega

theorem buddy_buddy : buddy (buddy o k) k = o := by
  rw [buddy, buddy, Nat.xor_assoc, Nat.xor_self, Nat.xor_zero]

theorem dvd_buddy (ho : 2 ^ k ∣ o) : 2 ^ k ∣ buddy o k := by
  obtain ⟨m, hm, ⟨-, hb⟩ | ⟨-, hb⟩⟩ := buddy_halves ho
  · rw [hb]
    exact Nat.dvd_add ((Nat.pow_dvd_pow 2 (Nat.le_succ k)).trans hm) (dvd_refl _)
  · rw [hb]
    exact (Nat.pow_dvd_pow 2 (Nat.le_succ k)).trans hm

theorem buddy_ne (ho : 2 ^ k ∣ o) : buddy o k ≠ o := by
  have := Nat.two_pow_pos k
  obtain ⟨m, -, ⟨ho, hb⟩ | ⟨ho, hb⟩⟩ := buddy_halves ho <;> omega

end

/-! ## Partitions -/

section

variable {S : Type u} {L L' : Layout S} {K o o' k x m : ℕ} {b b' : Block S} {s s' st : S}

/-- The blocks are aligned, and every byte of the region is in exactly one of them. -/
structure Partition (K : ℕ) (L : Layout S) : Prop where
  aligned : ∀ {o b}, L o = some b → 2 ^ b.k ∣ o
  inside : ∀ {o b}, L o = some b → o + 2 ^ b.k ≤ 2 ^ K
  cover : ∀ {x}, x < 2 ^ K → ∃ o b, L o = some b ∧ Inside o b.k x
  disjoint : ∀ {o b o' b' x}, L o = some b → L o' = some b' → Inside o b.k x →
    Inside o' b'.k x → o = o'

def whole (K : ℕ) (st : S) : Layout S := fun o => if o = 0 then some ⟨K, st⟩ else none

theorem whole_eq_some : whole K st o = some b ↔ o = 0 ∧ b = ⟨K, st⟩ := by
  rw [whole]
  by_cases ho : o = 0
  · rw [if_pos ho]
    exact ⟨fun h => ⟨ho, (Option.some.inj h).symm⟩, fun h => congrArg some h.2.symm⟩
  · rw [if_neg ho]
    exact iff_of_false nofun fun h => ho h.1

theorem partition_whole (K : ℕ) (st : S) : Partition K (whole K st) := by
  refine ⟨fun h => ?_, fun h => ?_, fun hx => ?_, fun h h' _ _ => ?_⟩
  · rw [(whole_eq_some.mp h).1]
    exact Nat.dvd_zero _
  · obtain ⟨rfl, rfl⟩ := whole_eq_some.mp h
    exact (Nat.zero_add _).le
  · exact ⟨0, ⟨K, st⟩, rfl, Nat.zero_le _, by simpa using hx⟩
  · rw [(whole_eq_some.mp h).1, (whole_eq_some.mp h').1]

theorem Partition.k_le (h : Partition K L) (hb : L o = some b) : b.k ≤ K := by
  have hle : 2 ^ b.k ≤ 2 ^ K := Nat.le_trans (Nat.le_add_left _ _) (h.inside hb)
  exact (Nat.pow_le_pow_iff_right (by omega)).mp hle

theorem Partition.offset_eq_zero (h : Partition K L) (hb : L o = some b) (hk : b.k = K) :
    o = 0 := by
  have hinside := h.inside hb
  rw [hk] at hinside
  omega

theorem Partition.buddy_exists (h : Partition K L) (hb : L o = some b) (hk : b.k < K) :
    ∃ b', L (buddy o b.k) = some b' ∧ b'.k ≤ b.k := by
  obtain ⟨m, hm, halves⟩ := buddy_halves (h.aligned hb)
  -- the block of twice the size is in the region
  have hK : 2 ^ (b.k + 1) ∣ 2 ^ K := Nat.pow_dvd_pow 2 hk
  have hpos := Nat.two_pow_pos b.k
  have hinside := h.inside hb
  have hdouble : 2 ^ (b.k + 1) = 2 ^ b.k + 2 ^ b.k := by ring
  have hregion : m + 2 ^ (b.k + 1) ≤ 2 ^ K :=
    le_of_dvd_of_lt_add (Nat.dvd_add hm (dvd_refl _)) hK (by omega)
  obtain ⟨o', b', hb', hcover⟩ := h.cover (x := buddy o b.k) (by omega)
  by_cases hsmall : b'.k ≤ b.k
  · have hdvd : 2 ^ b'.k ∣ buddy o b.k :=
      (Nat.pow_dvd_pow 2 hsmall).trans (dvd_buddy (h.aligned hb))
    have hle := le_of_dvd_of_lt_add hdvd (h.aligned hb') hcover.2
    have heq : o' = buddy o b.k := Nat.le_antisymm hcover.1 hle
    exact ⟨b', heq ▸ hb', hsmall⟩
  -- a larger block would have the block itself in it
  have hx : Inside m (b.k + 1) (buddy o b.k) := by
    rw [Inside]
    omega
  have hnested := nested hm (h.aligned hb') (by omega) hx hcover
  have hself : Inside o' b'.k o := by
    rw [Inside]
    omega
  have heq := h.disjoint hb hb' inside_self hself
  rw [heq, hb'] at hb
  exact absurd (congrArg Block.k (Option.some.inj hb)).le hsmall

theorem Partition.buddy_eq_none (h : Partition K L) (hb : L o = some b) (hk : K ≤ b.k) :
    L (buddy o b.k) = none := by
  have hkK : b.k = K := Nat.le_antisymm (h.k_le hb) hk
  have ho := h.offset_eq_zero hb hkK
  refine Option.eq_none_iff_forall_ne_some.mpr fun b' hb' => ?_
  rw [hkK, ho, buddy_of_dvd (Nat.dvd_zero _)] at hb'
  have hinside := h.inside hb'
  have := Nat.two_pow_pos b'.k
  omega

theorem update_update_cases {o1 o2 : ℕ} {v1 v2 : Option (Block S)}
    (h : update (update L o1 v1) o2 v2 o = some b) :
    o = o2 ∧ v2 = some b ∨ o = o1 ∧ v1 = some b ∨ o ≠ o1 ∧ o ≠ o2 ∧ L o = some b := by
  by_cases h2 : o = o2
  · subst h2
    rw [update_self] at h
    exact .inl ⟨rfl, h⟩
  rw [update_of_ne h2] at h
  by_cases h1 : o = o1
  · subst h1
    rw [update_self] at h
    exact .inr (.inl ⟨rfl, h⟩)
  · rw [update_of_ne h1] at h
    exact .inr (.inr ⟨h1, h2, h⟩)

def splitAt (L : Layout S) (o k : ℕ) (s s' : S) : Layout S :=
  update (update L o (some ⟨k, s⟩)) (o + 2 ^ k) (some ⟨k, s'⟩)

theorem splitAt_apply : splitAt L o k s s' x =
    if x = o + 2 ^ k then some ⟨k, s'⟩ else if x = o then some ⟨k, s⟩ else L x := by
  rw [splitAt, Function.update_apply, Function.update_apply]

theorem Partition.split (h : Partition K L) (hb : L o = some ⟨k + 1, st⟩) :
    Partition K (splitAt L o k s s') := by
  have hpos := Nat.two_pow_pos k
  have hdouble : 2 ^ (k + 1) = 2 ^ k + 2 ^ k := by ring
  have haligned : 2 ^ k ∣ o := (Nat.pow_dvd_pow 2 (Nat.le_succ k)).trans (h.aligned hb)
  have hinside : o + 2 ^ (k + 1) ≤ 2 ^ K := h.inside hb
  -- every new block is a part of an old one, and another one only if that one was split
  have hpart : ∀ {o1 b1}, splitAt L o k s s' o1 = some b1 →
      (o1 = o ∨ o1 = o + 2 ^ k) ∧ b1.k = k ∨ o1 ≠ o ∧ L o1 = some b1 := by
    intro o1 b1 h1
    rcases update_update_cases h1 with ⟨ho, hv⟩ | ⟨ho, hv⟩ | ⟨hne, -, hold⟩
    · cases hv
      exact .inl ⟨.inr ho, rfl⟩
    · cases hv
      exact .inl ⟨.inl ho, rfl⟩
    · exact .inr ⟨hne, hold⟩
  refine ⟨fun h1 => ?_, fun h1 => ?_, fun {x} hx => ?_, fun {o1 b1 o2 b2 x} h1 h2 hx1 hx2 => ?_⟩
  · rcases hpart h1 with ⟨rfl | rfl, hk⟩ | ⟨-, hold⟩
    · rw [hk]
      exact haligned
    · rw [hk]
      exact Nat.dvd_add haligned (dvd_refl _)
    · exact h.aligned hold
  · rcases hpart h1 with ⟨ho, hk⟩ | ⟨-, hold⟩
    · rw [hk]
      omega
    · exact h.inside hold
  · obtain ⟨o', b', hb', hin⟩ := h.cover hx
    by_cases ho : o' = o
    · subst ho
      rw [hb] at hb'
      cases hb'
      rw [Inside, hdouble] at hin
      by_cases hlow : x < o' + 2 ^ k
      · refine ⟨o', ⟨k, s⟩, ?_, hin.1, hlow⟩
        rw [splitAt, update_of_ne (by omega), update_self]
      refine ⟨o' + 2 ^ k, ⟨k, s'⟩, ?_, Nat.le_of_not_lt hlow, ?_⟩
      · rw [splitAt, update_self]
      · show x < o' + 2 ^ k + 2 ^ k
        omega
    · refine ⟨o', b', ?_, hin⟩
      have hne : o' ≠ o + 2 ^ k := by
        rintro rfl
        have := h.disjoint hb hb' (x := o + 2 ^ k) ⟨by omega, by rw [hdouble]; omega⟩ inside_self
        omega
      rw [splitAt, update_of_ne hne, update_of_ne ho]
      exact hb'
  · -- bytes of the two halves are bytes of the block
    have hblock : ∀ {o3 k3}, (o3 = o ∨ o3 = o + 2 ^ k) → k3 = k → Inside o3 k3 x →
        Inside o (k + 1) x := by
      intro o3 k3 ho hk hin
      rw [Inside, hk] at hin
      rw [Inside, hdouble]
      omega
    rcases hpart h1 with ⟨ho1, hk1⟩ | ⟨hne1, hold1⟩
    · rcases hpart h2 with ⟨ho2, hk2⟩ | ⟨hne2, hold2⟩
      · rw [Inside, hk1] at hx1
        rw [Inside, hk2] at hx2
        omega
      · exact absurd (h.disjoint hb hold2 (hblock ho1 hk1 hx1) hx2).symm hne2
    · rcases hpart h2 with ⟨ho2, hk2⟩ | ⟨hne2, hold2⟩
      · exact absurd (h.disjoint hb hold1 (hblock ho2 hk2 hx2) hx1).symm hne1
      · exact h.disjoint hold1 hold2 hx1 hx2

/-- The layout after the two halves at `m` were merged. -/
def mergeAt (L : Layout S) (m k : ℕ) (s : S) : Layout S :=
  update (update L (m + 2 ^ k) none) m (some ⟨k + 1, s⟩)

theorem mergeAt_apply : mergeAt L m k s x =
    if x = m then some ⟨k + 1, s⟩ else if x = m + 2 ^ k then none else L x := by
  rw [mergeAt, Function.update_apply, Function.update_apply]

theorem Partition.merge (h : Partition K L) (hm : 2 ^ (k + 1) ∣ m) (hlow : L m = some ⟨k, s⟩)
    (hhigh : L (m + 2 ^ k) = some ⟨k, s'⟩) : Partition K (mergeAt L m k st) := by
  have hpos := Nat.two_pow_pos k
  have hdouble : 2 ^ (k + 1) = 2 ^ k + 2 ^ k := by ring
  have hinside : m + 2 ^ k + 2 ^ k ≤ 2 ^ K := h.inside hhigh
  have hpart : ∀ {o1 b1}, mergeAt L m k st o1 = some b1 →
      o1 = m ∧ b1 = ⟨k + 1, st⟩ ∨ o1 ≠ m + 2 ^ k ∧ o1 ≠ m ∧ L o1 = some b1 := by
    intro o1 b1 h1
    rcases update_update_cases h1 with ⟨ho, hv⟩ | ⟨-, hv⟩ | hold
    · exact .inl ⟨ho, (Option.some.inj hv).symm⟩
    · cases hv
    · exact .inr hold
  -- a byte of the merged block is in one of the halves
  have hhalf : ∀ {o1 b1 x}, L o1 = some b1 → Inside m (k + 1) x → Inside o1 b1.k x →
      o1 = m ∨ o1 = m + 2 ^ k := by
    intro o1 b1 x h1 hx hx1
    rw [Inside, hdouble] at hx
    by_cases hlt : x < m + 2 ^ k
    · exact .inl (h.disjoint h1 hlow hx1 ⟨hx.1, hlt⟩)
    · refine .inr (h.disjoint h1 hhigh hx1 ⟨Nat.le_of_not_lt hlt, ?_⟩)
      show x < m + 2 ^ k + 2 ^ k
      omega
  refine ⟨fun h1 => ?_, fun h1 => ?_, fun {x} hx => ?_, fun {o1 b1 o2 b2 x} h1 h2 hx1 hx2 => ?_⟩
  · rcases hpart h1 with ⟨rfl, rfl⟩ | ⟨-, -, hold⟩
    · exact hm
    · exact h.aligned hold
  · rcases hpart h1 with ⟨rfl, rfl⟩ | ⟨-, -, hold⟩
    · rw [hdouble]
      omega
    · exact h.inside hold
  · obtain ⟨o', b', hb', hin⟩ := h.cover hx
    have hmerged : mergeAt L m k st m = some ⟨k + 1, st⟩ := update_self _ _ _
    by_cases hlo : o' = m
    · subst hlo
      rw [hlow] at hb'
      cases hb'
      refine ⟨o', ⟨k + 1, st⟩, hmerged, hin.1, ?_⟩
      have hlt : x < o' + 2 ^ k := hin.2
      rw [hdouble]
      omega
    · by_cases hhi : o' = m + 2 ^ k
      · subst hhi
        rw [hhigh] at hb'
        cases hb'
        have hlt : x < m + 2 ^ k + 2 ^ k := hin.2
        refine ⟨m, ⟨k + 1, st⟩, hmerged, Nat.le_trans (Nat.le_add_right _ _) hin.1, ?_⟩
        rw [hdouble]
        omega
      · refine ⟨o', b', ?_, hin⟩
        rw [mergeAt, update_of_ne hlo, update_of_ne hhi]
        exact hb'
  · rcases hpart h1 with ⟨rfl, rfl⟩ | ⟨hhi1, hlo1, hold1⟩
    · rcases hpart h2 with ⟨rfl, -⟩ | ⟨hhi2, hlo2, hold2⟩
      · rfl
      · exact absurd (hhalf hold2 hx1 hx2) (not_or.mpr ⟨hlo2, hhi2⟩)
    · rcases hpart h2 with ⟨rfl, rfl⟩ | ⟨-, -, hold2⟩
      · exact absurd (hhalf hold1 hx2 hx1) (not_or.mpr ⟨hlo1, hhi1⟩)
      · exact h.disjoint hold1 hold2 hx1 hx2

theorem Partition.setStatus (h : Partition K L) (hb : L o = some ⟨k, s⟩) :
    Partition K (update L o (some ⟨k, st⟩)) := by
  -- the same blocks, whatever their status
  have hsame : ∀ {o1 b1}, update L o (some ⟨k, st⟩) o1 = some b1 →
      ∃ b2, L o1 = some b2 ∧ b2.k = b1.k := by
    intro o1 b1 h1
    by_cases ho : o1 = o
    · subst ho
      rw [update_self] at h1
      cases h1
      exact ⟨⟨k, s⟩, hb, rfl⟩
    · rw [update_of_ne ho] at h1
      exact ⟨b1, h1, rfl⟩
  refine ⟨fun h1 => ?_, fun h1 => ?_, fun {x} hx => ?_, fun h1 h2 hx1 hx2 => ?_⟩
  · obtain ⟨b2, hold, hk⟩ := hsame h1
    exact hk ▸ h.aligned hold
  · obtain ⟨b2, hold, hk⟩ := hsame h1
    exact hk ▸ h.inside hold
  · obtain ⟨o', b', hb', hin⟩ := h.cover hx
    by_cases ho : o' = o
    · subst ho
      rw [hb] at hb'
      cases hb'
      exact ⟨o', ⟨k, st⟩, update_self _ _ _, hin⟩
    · exact ⟨o', b', by rw [update_of_ne ho, hb'], hin⟩
  · obtain ⟨b3, hold1, hk1⟩ := hsame h1
    obtain ⟨b4, hold2, hk2⟩ := hsame h2
    exact h.disjoint hold1 hold2 (hk1 ▸ hx1) (hk2 ▸ hx2)

/-! ## From block to block -/

/-- The offsets that are reached from the start of a region of `n` bytes, when the block at each
offset has the size `size`. -/
inductive Walk (size : ℕ → ℕ) (n : ℕ) : ℕ → Prop where
  | start : Walk size n 0
  /-- the block after a block -/
  | next {o : ℕ} (h : Walk size n o) (hlt : o + size o < n) : Walk size n (o + size o)

theorem Partition.next (h : Partition K L) (hb : L o = some b) (hlt : o + 2 ^ b.k < 2 ^ K) :
    ∃ b', L (o + 2 ^ b.k) = some b' := by
  obtain ⟨o', b', hb', hin⟩ := h.cover hlt
  have hpos := Nat.two_pow_pos b.k
  by_cases heq : o' = o + 2 ^ b.k
  · exact ⟨b', heq ▸ hb'⟩
  -- otherwise that block would have the last byte of the first one
  have hle := hin.1
  have hlast : Inside o' b'.k (o + 2 ^ b.k - 1) := by
    have := hin.2
    rw [Inside]
    omega
  have hself : Inside o b.k (o + 2 ^ b.k - 1) := by
    rw [Inside]
    omega
  have hsame := h.disjoint hb hb' hself hlast
  subst hsame
  rw [hb] at hb'
  cases hb'
  exact absurd hin.2 (Nat.lt_irrefl _)

theorem Partition.prev (h : Partition K L) (hb : L o = some b) (ho : 0 < o) :
    ∃ o' b', L o' = some b' ∧ o' + 2 ^ b'.k = o := by
  have hpos := Nat.two_pow_pos b.k
  have hinside := h.inside hb
  obtain ⟨o', b', hb', hin⟩ := h.cover (x := o - 1) (by omega)
  refine ⟨o', b', hb', ?_⟩
  by_contra hne
  -- otherwise that block would have the first byte of this one
  have hle := hin.1
  have hlt := hin.2
  have hfirst : Inside o' b'.k o := by
    rw [Inside]
    omega
  have hsame := h.disjoint hb' hb hfirst inside_self
  omega

theorem Partition.walk_iff {size : ℕ → ℕ} (h : Partition K L)
    (hsize : ∀ o b, L o = some b → size o = 2 ^ b.k) : Walk size (2 ^ K) o ↔ ∃ b, L o = some b := by
  constructor
  · intro hwalk
    induction hwalk with
    | start =>
      obtain ⟨o', b', hb', hin⟩ := h.cover (Nat.two_pow_pos K)
      have ho : o' = 0 := Nat.le_zero.mp hin.1
      exact ⟨b', ho ▸ hb'⟩
    | next hwalk hlt ih =>
      obtain ⟨b, hb⟩ := ih
      rw [hsize _ b hb] at hlt ⊢
      exact h.next hb hlt
  · rintro ⟨b, hb⟩
    induction o using Nat.strong_induction_on generalizing b with
    | _ o ih =>
      rcases Nat.eq_zero_or_pos o with rfl | ho
      · exact .start
      · obtain ⟨o', b', hb', hend⟩ := h.prev hb ho
        have hpos := Nat.two_pow_pos b'.k
        have hlt : o < 2 ^ K := by
          have := h.inside hb
          have := Nat.two_pow_pos b.k
          omega
        have hwalk := ih o' (by omega) b' hb'
        have hnext := Walk.next hwalk (by rw [hsize o' b' hb']; omega)
        rw [hsize o' b' hb', hend] at hnext
        exact hnext

/-! ## Buddies with the same status -/

/-- No two buddies of the same size both have the status `st`. -/
def Unpaired (st : S) (L : Layout S) : Prop :=
  ∀ o k, L o = some ⟨k, st⟩ → L (buddy o k) ≠ some ⟨k, st⟩

theorem unpaired_whole : Unpaired st (whole K s) := by
  intro o k ho hbuddy
  obtain ⟨rfl, -⟩ := whole_eq_some.mp ho
  exact buddy_ne (Nat.dvd_zero _) (whole_eq_some.mp hbuddy).1

theorem Unpaired.exists_other (h : Unpaired st L) {K : ℕ} (hpart : Partition K L) :
    ∀ {k o : ℕ}, L o = some ⟨k, st⟩ → k < K → ∃ o' b', L o' = some b' ∧ b'.status ≠ st := by
  intro k
  induction k using Nat.strong_induction_on with
  | _ k ih =>
    intro o ho hk
    obtain ⟨⟨k', s⟩, hb, hle⟩ := hpart.buddy_exists ho hk
    by_cases hs : s = st
    · -- the buddy is smaller, or the two could be merged
      subst hs
      have hlt : k' < k := by
        refine Nat.lt_of_le_of_ne hle fun heq => h o k ho ?_
        rw [hb, heq]
      exact ih k' hlt hb (Nat.lt_trans hlt hk)
    · exact ⟨_, _, hb, hs⟩

theorem Unpaired.mono (h : Unpaired st L) (hL : ∀ o k, L' o = some ⟨k, st⟩ → L o = some ⟨k, st⟩) :
    Unpaired st L' :=
  fun o k ho hbuddy => h o k (hL o k ho) (hL _ k hbuddy)

theorem Unpaired.insert (h : Unpaired st L) (ho : buddy o k ≠ o)
    (hbuddy : L (buddy o k) ≠ some ⟨k, st⟩) : Unpaired st (update L o (some ⟨k, st⟩)) := by
  intro o1 k1 h1 h2
  by_cases ho1 : o1 = o
  · subst ho1
    rw [update_self] at h1
    obtain rfl := congrArg Block.k (Option.some.inj h1)
    rw [update_of_ne ho] at h2
    exact hbuddy h2
  · rw [update_of_ne ho1] at h1
    by_cases ho2 : buddy o1 k1 = o
    · subst ho2
      rw [update_self] at h2
      obtain rfl := congrArg Block.k (Option.some.inj h2)
      rw [buddy_buddy] at hbuddy
      exact hbuddy h1
    · rw [update_of_ne ho2] at h2
      exact h o1 k1 h1 h2

end

end CloudNfs.BuddyBlocks
