import Mathlib.Data.List.Sort
import Mathlib.Logic.Function.Basic
import Mathlib.Algebra.Order.Ring.Nat

/-!
# Bitmaps of attributes (`NFS_Protocols/nfs_proto_tools.c`)

A `bitmap4` has a bit for every attribute, in words of 32 bits. The server works with lists of
attributes and converts them in both directions.

* `conversions_iff` — nothing is lost exactly when there is no attribute behind the second word.

The words are memory, of which `bitmap4_len` says how much belongs to the bitmap.
-/

namespace CloudNfs.Attributes

open Function (update update_self update_of_ne)

/-! ## The code -/

/-- `bitmap4`. -/
structure Bitmap4 where
  len : UInt32
  val : ℕ → BitVec 32

/-- The entries of `fattr4tab`: those of NFSv4.0, and in the other build those of NFSv4.1. -/
def fattr4tabLength (useNfs41 : Bool) : ℕ := if useNfs41 then 77 else 56

def wordToList (word : BitVec 32) (offset : ℕ) : List ℕ :=
  ((List.range 32).filter fun i => word &&& (1#32 <<< i) ≠ 0#32).map fun i =>
    (i + 32 * offset) % 2 ^ 32

/-- `nfs4_bitmap4_to_list`. -/
def bitmap4ToList (b : Bitmap4) : List ℕ :=
  (List.range b.len.toNat).flatMap fun offset => wordToList (b.val offset) offset

/-- One turn of the loop of `nfs4_list_to_bitmap4`. -/
def setAttr (b : Bitmap4) (attr : ℕ) : Bitmap4 where
  len := if attr / 32 ≠ 0 then 2 else b.len
  val := update b.val (attr / 32) (b.val (attr / 32) ||| 1#32 <<< (attr % 32))

/-- `nfs4_list_to_bitmap4`, with any words in memory. -/
def listToBitmap4 (val : ℕ → BitVec 32) (attrs : List ℕ) : Bitmap4 :=
  attrs.foldl setAttr ⟨1, update (update val 0 0) 1 0⟩

/-! ## The property -/

def Bitmap4.Has (b : Bitmap4) (attr : ℕ) : Prop :=
  attr / 32 < b.len.toNat ∧ (b.val (attr / 32)).getLsbD (attr % 32) = true

/-- A list is the same after both conversions, and no bit is set for anything else. -/
structure ListFaithful (val : ℕ → BitVec 32) (attrs : List ℕ) : Prop where
  back : bitmap4ToList (listToBitmap4 val attrs) = attrs
  only : ∀ attr, (listToBitmap4 val attrs).Has attr → attr ∈ attrs

/-- A bitmap has the same bits after both conversions. -/
def BitmapFaithful (val : ℕ → BitVec 32) (b : Bitmap4) : Prop :=
  ∀ attr, (listToBitmap4 val (bitmap4ToList b)).Has attr ↔ b.Has attr

section

variable {b : Bitmap4} {val : ℕ → BitVec 32} {attr a : ℕ} {attrs : List ℕ} {useNfs41 : Bool}

/-! ## From bits to a list -/

theorem and_ne_zero (word : BitVec 32) {i : ℕ} (hi : i < 32) :
    word &&& (1#32 <<< i) ≠ 0#32 ↔ word.getLsbD i = true := by
  constructor
  · intro hne
    by_contra hbit
    apply hne
    apply BitVec.eq_of_getLsbD_eq
    intro j hj
    by_cases hij : j = i
    · subst hij
      simp [Bool.eq_false_of_not_eq_true hbit]
    have hshift : (1#32 <<< i).getLsbD j = false := by
      rw [← BitVec.twoPow_eq, BitVec.getLsbD_twoPow]
      simp [Ne.symm hij]
    rw [BitVec.getLsbD_and, hshift]
    simp
  · intro hbit hzero
    have hand : (word &&& BitVec.twoPow 32 i).getLsbD i = false := by
      rw [BitVec.twoPow_eq, hzero, BitVec.getLsbD_zero]
    rw [BitVec.getLsbD_and, BitVec.getLsbD_twoPow, hbit] at hand
    simp [hi] at hand

theorem mem_wordToList {word : BitVec 32} {offset : ℕ} :
    attr ∈ wordToList word offset ↔
      ∃ i < 32, word.getLsbD i = true ∧ attr = (i + 32 * offset) % 2 ^ 32 := by
  rw [wordToList, List.mem_map]
  constructor
  · rintro ⟨i, hi, rfl⟩
    obtain ⟨hlt, hbit⟩ := List.mem_filter.mp hi
    have hlt := List.mem_range.mp hlt
    exact ⟨i, hlt, (and_ne_zero word hlt).mp (of_decide_eq_true hbit), rfl⟩
  · rintro ⟨i, hlt, hbit, rfl⟩
    refine ⟨i, List.mem_filter.mpr ⟨List.mem_range.mpr hlt, ?_⟩, rfl⟩
    exact decide_eq_true ((and_ne_zero word hlt).mpr hbit)

theorem mem_bitmap4ToList (hb : ∀ a, b.Has a → a < 2 ^ 32) :
    attr ∈ bitmap4ToList b ↔ b.Has attr := by
  rw [bitmap4ToList, List.mem_flatMap]
  have hbit : ∀ {i offset}, i < 32 → offset < b.len.toNat → (b.val offset).getLsbD i = true →
      b.Has (i + 32 * offset) := by
    intro i offset hi hoffset hbit
    have hword : (i + 32 * offset) / 32 = offset := by omega
    have hpos : (i + 32 * offset) % 32 = i := by omega
    rw [Bitmap4.Has, hword, hpos]
    exact ⟨hoffset, hbit⟩
  constructor
  · rintro ⟨offset, hoffset, hattr⟩
    obtain ⟨i, hi, hset, rfl⟩ := mem_wordToList.mp hattr
    have hhas := hbit hi (List.mem_range.mp hoffset) hset
    rwa [Nat.mod_eq_of_lt (hb _ hhas)]
  · intro hhas
    refine ⟨attr / 32, List.mem_range.mpr hhas.1, mem_wordToList.mpr ?_⟩
    refine ⟨attr % 32, Nat.mod_lt _ (by decide), hhas.2, ?_⟩
    rw [Nat.mod_add_div, Nat.mod_eq_of_lt (hb _ hhas)]

theorem pairwise_bitmap4ToList (hlen : b.len.toNat ≤ 2 ^ 27) :
    (bitmap4ToList b).Pairwise (· < ·) := by
  rw [bitmap4ToList, List.pairwise_flatMap]
  have hvalue : ∀ {i offset}, i < 32 → offset < b.len.toNat →
      (i + 32 * offset) % 2 ^ 32 = i + 32 * offset :=
    fun hi hoffset => Nat.mod_eq_of_lt (by omega)
  constructor
  · intro offset hoffset
    have hoffset := List.mem_range.mp hoffset
    rw [wordToList, List.pairwise_map]
    apply (List.pairwise_lt_range.filter _).imp_of_mem
    intro i j hi hj hlt
    rw [hvalue (List.mem_range.mp (List.mem_of_mem_filter hi)) hoffset,
      hvalue (List.mem_range.mp (List.mem_of_mem_filter hj)) hoffset]
    omega
  · apply List.pairwise_lt_range.imp_of_mem
    intro offset offset' hoffset hoffset' hlt x hx y hy
    obtain ⟨i, hi, -, rfl⟩ := mem_wordToList.mp hx
    obtain ⟨j, hj, -, rfl⟩ := mem_wordToList.mp hy
    rw [hvalue hi (List.mem_range.mp hoffset), hvalue hj (List.mem_range.mp hoffset')]
    omega

/-! ## From a list to bits -/

theorem getLsbD_foldl {w i : ℕ} (hi : i < 32) :
    ((attrs.foldl setAttr b).val w).getLsbD i = true ↔
      (b.val w).getLsbD i = true ∨ i + 32 * w ∈ attrs := by
  induction attrs generalizing b with
  | nil => simp
  | cons a attrs ih =>
    rw [List.foldl_cons, ih, List.mem_cons]
    have hset : ((setAttr b a).val w).getLsbD i = true ↔
        (b.val w).getLsbD i = true ∨ i + 32 * w = a := by
      rw [setAttr]
      dsimp only
      by_cases hw : w = a / 32
      · subst hw
        rw [update_self, BitVec.getLsbD_or, ← BitVec.twoPow_eq, BitVec.getLsbD_twoPow,
          Bool.or_eq_true]
        simp only [Nat.mod_lt a (by decide : 32 > 0), decide_true, Bool.true_and, decide_eq_true_eq]
        apply or_congr_right
        omega
      · rw [update_of_ne hw]
        refine ⟨Or.inl, fun hbit => hbit.resolve_right ?_⟩
        rintro rfl
        exact hw (by omega)
    rw [hset, or_assoc]

theorem len_foldl : (attrs.foldl setAttr b).len =
    if ∃ a ∈ attrs, a / 32 ≠ 0 then 2 else b.len := by
  induction attrs generalizing b with
  | nil => simp
  | cons a attrs ih =>
    rw [List.foldl_cons, ih, setAttr]
    dsimp only
    by_cases hrest : ∃ x ∈ attrs, x / 32 ≠ 0
    · obtain ⟨x, hx, hne⟩ := hrest
      rw [if_pos ⟨x, hx, hne⟩, if_pos ⟨x, List.mem_cons_of_mem a hx, hne⟩]
    rw [if_neg hrest]
    refine if_congr ⟨fun hne => ⟨a, List.mem_cons_self, hne⟩, ?_⟩ rfl rfl
    rintro ⟨x, hx, hne⟩
    rcases List.mem_cons.mp hx with rfl | hx
    · exact hne
    · exact absurd ⟨x, hx, hne⟩ hrest

theorem has_listToBitmap4 : (listToBitmap4 val attrs).Has attr ↔ attr ∈ attrs ∧ attr < 64 := by
  have hlen : (listToBitmap4 val attrs).len.toNat = if ∃ a ∈ attrs, a / 32 ≠ 0 then 2 else 1 := by
    rw [listToBitmap4, len_foldl]
    split <;> rfl
  have hbit := @getLsbD_foldl ⟨1, update (update val 0 0) 1 0⟩ attrs (attr / 32)
    (attr % 32) (Nat.mod_lt attr (by decide : 32 > 0))
  rw [Nat.mod_add_div] at hbit
  rw [Bitmap4.Has, hlen, listToBitmap4, hbit]
  -- the first two words are empty before the loop
  have hstart : attr / 32 < 2 →
      (update (update val 0 0) 1 0 (attr / 32)).getLsbD (attr % 32) = false := by
    intro hlt
    have hcases : attr / 32 = 0 ∨ attr / 32 = 1 := by omega
    rcases hcases with hw | hw
    · rw [hw, Function.update_of_ne Nat.zero_ne_one, Function.update_self]
      exact BitVec.getLsbD_zero
    · simp [hw]
  dsimp only
  constructor
  · rintro ⟨hlt, hset⟩
    have hword : attr / 32 < 2 := by
      split at hlt <;> omega
    rw [hstart hword] at hset
    exact ⟨hset.resolve_left (by decide), by omega⟩
  · rintro ⟨hmem, hlt⟩
    refine ⟨?_, .inr hmem⟩
    split
    next => omega
    rename_i hnone
    have hword : attr / 32 = 0 := by
      by_contra hne
      exact hnone ⟨attr, hmem, hne⟩
    omega

/-! ## Both directions -/

/-- **A list** is the same again exactly when it has no attribute behind the second word. -/
theorem listFaithful_iff (hsorted : attrs.Pairwise (· < ·)) :
    ListFaithful val attrs ↔ ∀ a ∈ attrs, a < 64 := by
  have hsmall : ∀ a, (listToBitmap4 val attrs).Has a → a < 2 ^ 32 := by
    intro a ha
    have hlt := (has_listToBitmap4.mp ha).2
    omega
  constructor
  · intro hfaithful a ha
    rw [← hfaithful.back, mem_bitmap4ToList hsmall] at ha
    exact (has_listToBitmap4.mp ha).2
  · intro hlt
    refine ⟨?_, fun a ha => (has_listToBitmap4.mp ha).1⟩
    apply (pairwise_bitmap4ToList ?_).eq_of_mem_iff hsorted
    · intro a
      rw [mem_bitmap4ToList hsmall, has_listToBitmap4]
      exact ⟨fun ha => ha.1, fun ha => ⟨ha, hlt a ha⟩⟩
    · rw [listToBitmap4, len_foldl]
      split
      · decide
      · show (1 : UInt32).toNat ≤ 2 ^ 27
        decide

/-- **A bitmap** has the same bits again exactly when it has none behind the second word. -/
theorem bitmapFaithful_iff (hb : ∀ a, b.Has a → a < 2 ^ 32) :
    BitmapFaithful val b ↔ ∀ a, b.Has a → a < 64 := by
  have hhas : ∀ a, (listToBitmap4 val (bitmap4ToList b)).Has a ↔ b.Has a ∧ a < 64 := by
    intro a
    rw [has_listToBitmap4, mem_bitmap4ToList hb]
  constructor
  · intro hfaithful a ha
    exact ((hhas a).mp ((hfaithful a).mpr ha)).2
  · intro hlt a
    rw [hhas a]
    exact ⟨fun ha => ha.1, fun ha => ⟨ha, hlt a ha⟩⟩

theorem lt_of_table (ha : a < fattr4tabLength useNfs41) : a < 2 ^ 32 := by
  apply Nat.lt_of_lt_of_le ha
  rw [fattr4tabLength]
  split <;> decide

/-- **Both conversions are faithful** exactly for the attributes of the first two words, whatever
the words in memory are. -/
theorem conversions_iff (useNfs41 : Bool) (val : ℕ → BitVec 32) :
    (∀ attrs : List ℕ, attrs.Pairwise (· < ·) → (∀ a ∈ attrs, a < fattr4tabLength useNfs41) →
      (ListFaithful val attrs ↔ ∀ a ∈ attrs, a < 64)) ∧
    ∀ b : Bitmap4, (∀ a, b.Has a → a < fattr4tabLength useNfs41) →
      (BitmapFaithful val b ↔ ∀ a, b.Has a → a < 64) := by
  refine ⟨fun attrs hsorted _ => listFaithful_iff hsorted, fun b hb => ?_⟩
  apply bitmapFaithful_iff
  intro a ha
  exact lt_of_table (hb a ha)

end

/-- Attributes of both words: the link support, the support of symbolic links, the mode and the
owner. -/
theorem conversions_iff_bothWords : ListFaithful (fun _ => 7#32) [5, 6, 33, 36] ∧
    BitmapFaithful (fun _ => 7#32) (listToBitmap4 (fun _ => 7#32) [5, 6, 33, 36]) := by
  have hlt : ∀ a, (listToBitmap4 (fun _ => 7#32) [5, 6, 33, 36]).Has a → a < 56 := by
    intro a ha
    exact (by decide : ∀ a ∈ [5, 6, 33, 36], a < 56) a (has_listToBitmap4.mp ha).1
  obtain ⟨hlist, hbitmap⟩ := conversions_iff false fun _ => 7#32
  refine ⟨(hlist [5, 6, 33, 36] (by decide) (by decide)).mpr (by decide), ?_⟩
  exact (hbitmap _ hlt).mpr fun a ha => Nat.lt_of_lt_of_le (hlt a ha) (by decide)

/-- The support of attributes for exclusive creation is in the third word, and it is lost. -/
theorem suppattrExclcreat_lost : ¬ ListFaithful (fun _ => 0#32) [0, 75] := by
  rw [listFaithful_iff (by decide)]
  decide

end CloudNfs.Attributes
