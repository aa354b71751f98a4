import CloudNfs.BuddyStats
import Mathlib.Data.Finset.Card
import Mathlib.Algebra.BigOperators.Group.List.Basic

/-!
# The statistics of the buddy allocator are exact

The reserved blocks of the pages are listed, with their sizes. Every operation of the allocator adds
a block to this list or takes one off it, and what it does to the counters is compared with that.

* `exact_iff` — the statistics are exact throughout a run exactly when the sizes that `BuddyMalloc`
  counts are those of its blocks.
-/

namespace CloudNfs.BuddyMalloc.Stats

open BuddyBlocks DoublyLinked
open Destroy (roomOf Complete complete_buddyInit)

/-! ## The reserved blocks -/

/-- The reserved blocks of the pages and the logarithms of their sizes, each of them once. -/
structure Listed (h : Heap) (R : List (Addr × ℕ)) : Prop where
  nodup : R.Nodup
  mem : ∀ a k, (a, k) ∈ R ↔
    IsBlock h a ∧ (h.header a).status = .reservedBlock ∧ (h.header a).kSize = k

def bytes (R : List (Addr × ℕ)) : ℕ := (R.map fun e => 2 ^ e.2).sum

def areas (R : List (Addr × ℕ)) : Finset ℕ := (R.map fun e => e.1.area).toFinset

/-- The bytes of the extra blocks. -/
def extraBytes (h : Heap) : ℕ := (h.extras.map fun p => (h.header ⟨p, 0⟩).extraInfo.toNat).sum

section

variable {h h' : Heap} {L L' L1 : Layouts} {a : Addr} {k : ℕ} {T : List Addr} {U : List Allocation}
  {R R' : List (Addr × ℕ)} {u : Allocation}

theorem mem_areas {p : ℕ} : p ∈ areas R ↔ ∃ a k, (a, k) ∈ R ∧ a.area = p := by
  rw [areas, List.mem_toFinset, List.mem_map]
  constructor
  · rintro ⟨⟨a, k⟩, he, hp⟩
    exact ⟨a, k, he, hp⟩
  · rintro ⟨a, k, he, hp⟩
    exact ⟨(a, k), he, hp⟩

@[simp] theorem bytes_cons : bytes ((a, k) :: R) = 2 ^ k + bytes R := by
  rw [bytes, List.map_cons, List.sum_cons, bytes]

@[simp] theorem areas_cons : areas ((a, k) :: R) = insert a.area (areas R) := by
  rw [areas, List.map_cons, List.toFinset_cons, areas]

theorem bytes_perm (hperm : R.Perm R') : bytes R = bytes R' := (hperm.map _).sum_eq

theorem areas_perm (hperm : R.Perm R') : areas R = areas R' :=
  List.toFinset_eq_of_perm _ _ (hperm.map _)

theorem reserved_iff (r : Represents h L) (hheld : NoHeld L) :
    (IsBlock h a ∧ (h.header a).status = .reservedBlock ∧ (h.header a).kSize = k) ↔
      L.at a = some ⟨k, .reserved⟩ := by
  constructor
  · rintro ⟨hblock, hstatus, rfl⟩
    obtain ⟨⟨j, s⟩, hb⟩ := r.isBlock.mp hblock
    have hj : (h.header a).kSize = j := (r.header hb).kSize
    cases s with
    | reserved => rw [hb, hj]
    | held => exact absurd hb (hheld a j)
    | free => cases ((r.status hheld hb).mpr rfl).symm.trans hstatus
  · intro ha
    exact ⟨r.isBlock.mpr ⟨_, ha⟩, ((r.header ha).reserved rfl).1, (r.header ha).kSize⟩

theorem Listed.mem_iff (hR : Listed h R) (r : Represents h L) (hheld : NoHeld L) :
    (a, k) ∈ R ↔ L.at a = some ⟨k, .reserved⟩ :=
  (hR.mem a k).trans (reserved_iff r hheld)

theorem listed_of_layout (r : Represents h L) (hheld : NoHeld L) (hnodup : R.Nodup)
    (hmem : ∀ a k, (a, k) ∈ R ↔ L.at a = some ⟨k, .reserved⟩) : Listed h R :=
  ⟨hnodup, fun a k => (hmem a k).trans (reserved_iff r hheld).symm⟩

theorem Listed.congr (hR : Listed h R) (hpages : h'.pages = h.pages) (hkSize : h'.kSize = h.kSize)
    (hheader : h'.header = h.header) : Listed h' R := by
  refine ⟨hR.nodup, fun a k => ?_⟩
  rw [hR.mem, IsBlock, IsBlock, hpages, hkSize, hheader]

theorem Listed.areas_subset (hR : Listed h R) : areas R ⊆ h.pages.toFinset := by
  intro p hp
  obtain ⟨a, k, he, rfl⟩ := mem_areas.mp hp
  rw [List.mem_toFinset]
  exact ((hR.mem a k).mp he).1.1

theorem Listed.card_le (hR : Listed h R) : (areas R).card ≤ h.pages.length :=
  Nat.le_trans (Finset.card_le_card hR.areas_subset) h.pages.toFinset_card_le

/-- **Reserved blocks do not overlap**, so that they have no more bytes than the pages. -/
theorem Listed.bytes_le (hR : Listed h R) (r : Represents h L) (hheld : NoHeld L) :
    bytes R ≤ h.pages.length * 2 ^ h.kSize := by
  -- the addresses of the bytes of a block
  let inside : Addr × ℕ → List (ℕ × ℕ) := fun e =>
    (List.range (2 ^ e.2)).map fun i => (e.1.area, e.1.offset + i)
  have hmem : ∀ {e : Addr × ℕ} {y : ℕ × ℕ}, y ∈ inside e ↔
      y.1 = e.1.area ∧ Inside e.1.offset e.2 y.2 := by
    rintro e ⟨p, x⟩
    rw [List.mem_map]
    constructor
    · rintro ⟨i, hi, heq⟩
      rw [List.mem_range] at hi
      obtain ⟨rfl, rfl⟩ := Prod.ext_iff.mp heq
      exact ⟨rfl, Nat.le_add_right _ _, Nat.add_lt_add_left hi _⟩
    · rintro ⟨rfl, hle, hlt⟩
      refine ⟨x - e.1.offset, List.mem_range.mpr (by omega), ?_⟩
      rw [Nat.add_sub_cancel' hle]
  have hlength : (R.flatMap inside).length = bytes R := by
    rw [List.length_flatMap, bytes]
    simp [inside]
  have hnodup : (R.flatMap inside).Nodup := by
    rw [List.nodup_flatMap]
    refine ⟨fun e _ => ?_, ?_⟩
    · refine List.nodup_range.map fun i j heq => ?_
      exact Nat.add_left_cancel (congrArg Prod.snd heq)
    · refine hR.nodup.imp_of_mem fun {e e'} he he' hne => ?_
      intro y hy hy'
      obtain ⟨harea, hin⟩ := hmem.mp hy
      obtain ⟨harea', hin'⟩ := hmem.mp hy'
      have hat := (hR.mem_iff r hheld).mp he
      have hat' := (hR.mem_iff r hheld).mp he'
      have hsame : e'.1.area = e.1.area := harea'.symm.trans harea
      have hat'' : L e.1.area e'.1.offset = some ⟨e'.2, .reserved⟩ := by
        rw [← hsame]
        exact hat'
      have hoffset := (r.partition _ (r.paged hat)).disjoint hat hat'' hin hin'
      have heq : e.1 = e'.1 := Addr.ext hsame.symm hoffset
      rw [heq] at hat
      exact hne (Prod.ext heq (congrArg Block.k (Option.some.inj (hat.symm.trans hat'))))
  have hsub : R.flatMap inside ⊆ h.pages ×ˢ List.range (2 ^ h.kSize) := by
    rintro ⟨p, x⟩ hy
    obtain ⟨e, he, hy⟩ := List.mem_flatMap.mp hy
    obtain ⟨harea, hin⟩ := hmem.mp hy
    have hat := (hR.mem_iff r hheld).mp he
    have hpaged := r.paged hat
    have hinside := (r.partition _ hpaged).inside hat
    have hlt := hin.2
    dsimp only at harea hinside hlt
    refine List.mem_product.mpr ⟨?_, List.mem_range.mpr (by omega)⟩
    rw [harea]
    exact hpaged
  have hle := (List.subperm_of_subset hnodup hsub).length_le
  rwa [hlength, List.length_product, List.length_range] at hle

/-- **A page with a free block that is not the page** has a reserved block, and a page that is one
free block has none. -/
theorem Listed.mem_areas_iff (hR : Listed h R) (r : Represents h L) (hheld : NoHeld L)
    (ha : L.at a = some ⟨k, .free⟩) : a.area ∈ areas R ↔ k ≠ h.kSize := by
  have hpart := r.partition _ (r.paged ha)
  rw [mem_areas]
  constructor
  · rintro ⟨x, j, he, harea⟩ rfl
    have hx := (hR.mem_iff r hheld).mp he
    obtain rfl := r.eq_of_page ha hx harea
    cases ha.symm.trans hx
  · intro hne
    have hlt : k < h.kSize := Nat.lt_of_le_of_ne (hpart.k_le ha) hne
    obtain ⟨o, ⟨j, s⟩, hb, hs⟩ := (r.unpaired a.area).exists_other hpart ha hlt
    have hat : L.at ⟨a.area, o⟩ = some ⟨j, s⟩ := hb
    cases s with
    | free => exact absurd rfl hs
    | held => exact absurd hat (hheld _ _)
    | reserved => exact ⟨_, j, (hR.mem_iff r hheld).mpr hat, rfl⟩

/-! ## Going from header to header -/

theorem reservedFrom_spec (r : Represents h L) (hheld : NoHeld L) {p : ℕ} (hp : p ∈ h.pages) :
    ∀ fuel o : ℕ, 2 ^ h.kSize ≤ o + fuel → (o = 2 ^ h.kSize ∨ ∃ b, L.at ⟨p, o⟩ = some b) →
      (reservedFrom h p fuel o).Nodup ∧ ∀ a, a ∈ reservedFrom h p fuel o ↔
        a.area = p ∧ o ≤ a.offset ∧ ∃ k, L.at a = some ⟨k, .reserved⟩ := by
  have hpart := r.partition p hp
  -- behind the last byte there is no block
  have hend : ∀ {o : ℕ} {a : Addr}, 2 ^ h.kSize ≤ o →
      ¬ (a.area = p ∧ o ≤ a.offset ∧ ∃ k, L.at a = some ⟨k, .reserved⟩) := by
    rintro o a ho ⟨rfl, hle, k, hk⟩
    have hinside := hpart.inside hk
    have := Nat.two_pow_pos k
    dsimp only at hinside
    omega
  intro fuel
  induction fuel with
  | zero =>
    intro o ho _
    exact ⟨List.nodup_nil, fun a => iff_of_false nofun (hend ho)⟩
  | succ fuel ih =>
    intro o hfuel ho
    rw [reservedFrom]
    by_cases hlt : o < 2 ^ h.kSize
    case neg =>
      rw [if_neg hlt]
      exact ⟨List.nodup_nil, fun a => iff_of_false nofun (hend (Nat.le_of_not_lt hlt))⟩
    rw [if_pos hlt]
    obtain ⟨b, hb⟩ := ho.resolve_left (Nat.ne_of_lt hlt)
    have hpos := Nat.two_pow_pos b.k
    have hinside := hpart.inside hb
    rw [(r.header hb).kSize]
    obtain ⟨hnodup, hmem⟩ := ih (o + 2 ^ b.k) (by omega) (by
      rcases Nat.lt_or_ge (o + 2 ^ b.k) (2 ^ h.kSize) with hnext | hlast
      · exact .inr (hpart.next hb hnext)
      · exact .inl (Nat.le_antisymm hinside hlast))
    -- the block itself, or one that comes after it
    have hsplit : ∀ a : Addr, (a.area = p ∧ o ≤ a.offset ∧ ∃ k, L.at a = some ⟨k, .reserved⟩) ↔
        (a = ⟨p, o⟩ ∧ b.status = .reserved) ∨
          a.area = p ∧ o + 2 ^ b.k ≤ a.offset ∧ ∃ k, L.at a = some ⟨k, .reserved⟩ := by
      intro a
      constructor
      · rintro ⟨rfl, hle, k, hk⟩
        by_cases hin : a.offset < o + 2 ^ b.k
        · have heq := hpart.disjoint hb hk ⟨hle, hin⟩ inside_self
          subst heq
          exact .inl ⟨rfl, congrArg Block.status (Option.some.inj (hb.symm.trans hk))⟩
        · exact .inr ⟨rfl, Nat.le_of_not_lt hin, k, hk⟩
      · rintro (⟨rfl, hs⟩ | ⟨rfl, hle, hk⟩)
        · refine ⟨rfl, Nat.le_refl _, b.k, ?_⟩
          rw [hb, ← hs]
        · exact ⟨rfl, by omega, hk⟩
    have hstatus : (h.header ⟨p, o⟩).status = .reservedBlock ↔ b.status = .reserved := by
      have hfree := r.status hheld hb
      obtain ⟨j, s⟩ := b
      cases s with
      | free => exact iff_of_false (by rw [hfree.mpr rfl]; exact nofun) nofun
      | held => exact absurd hb (hheld _ j)
      | reserved => exact iff_of_true ((r.header hb).reserved rfl).1 rfl
    dsimp only
    split
    next hreserved =>
      have hs := hstatus.mp hreserved
      refine ⟨List.nodup_cons.mpr ⟨fun hx => ?_, hnodup⟩, fun a => ?_⟩
      · have hle := ((hmem _).mp hx).2.1
        dsimp only at hle
        omega
      · rw [List.mem_cons, hmem, hsplit a, and_iff_left hs]
    next hnot =>
      refine ⟨hnodup, fun a => ?_⟩
      rw [hmem, hsplit a, or_iff_right fun hx => hnot (hstatus.mpr hx.2)]

theorem reservedIn_spec (r : Represents h L) (hheld : NoHeld L) {p : ℕ} (hp : p ∈ h.pages) :
    (reservedIn h p).Nodup ∧ ∀ a, a ∈ reservedIn h p ↔
      a.area = p ∧ ∃ k, L.at a = some ⟨k, .reserved⟩ := by
  -- the first block is at the start of the page
  obtain ⟨o, b, hb, hin⟩ := (r.partition p hp).cover (Nat.two_pow_pos h.kSize)
  obtain rfl : o = 0 := Nat.le_zero.mp hin.1
  obtain ⟨hnodup, hmem⟩ := reservedFrom_spec r hheld hp (2 ^ h.kSize) 0 (by omega) (.inr ⟨b, hb⟩)
  refine ⟨hnodup, fun a => (hmem a).trans ?_⟩
  rw [and_iff_right (Nat.zero_le _)]

theorem Listed.sum_eq (hR : Listed h R) (g : Good h L T U) :
    ((h.pages.flatMap (reservedIn h)).map fun a => 2 ^ (h.header a).kSize).sum = bytes R := by
  have r := g.represents
  have hperm : (h.pages.flatMap (reservedIn h)).Perm (R.map Prod.fst) := by
    refine (List.perm_ext_iff_of_nodup ?_ ?_).mpr fun a => ?_
    · rw [List.nodup_flatMap]
      refine ⟨fun p hp => (reservedIn_spec r g.noHeld hp).1, ?_⟩
      refine g.pages.imp_of_mem fun {p q} hp hq hne a ha ha' => hne ?_
      have harea := (((reservedIn_spec r g.noHeld hp).2 a).mp ha).1
      exact harea.symm.trans (((reservedIn_spec r g.noHeld hq).2 a).mp ha').1
    · refine hR.nodup.map_on fun e he e' he' heq => Prod.ext heq ?_
      rw [← ((hR.mem e.1 e.2).mp he).2.2, ← ((hR.mem e'.1 e'.2).mp he').2.2, heq]
    · rw [List.mem_flatMap, List.mem_map]
      constructor
      · rintro ⟨p, hp, ha⟩
        obtain ⟨-, k, hk⟩ := ((reservedIn_spec r g.noHeld hp).2 a).mp ha
        exact ⟨(a, k), (hR.mem_iff r g.noHeld).mpr hk, rfl⟩
      · rintro ⟨⟨a, k⟩, he, rfl⟩
        have hk := (hR.mem_iff r g.noHeld).mp he
        exact ⟨a.area, r.paged hk, ((reservedIn_spec r g.noHeld (r.paged hk)).2 a).mpr ⟨rfl, k, hk⟩⟩
  rw [(hperm.map _).sum_eq, bytes, List.map_map]
  congr 1
  refine List.map_congr_left fun e he => ?_
  exact congrArg (2 ^ ·) ((hR.mem e.1 e.2).mp he).2.2

theorem Listed.card_eq (hR : Listed h R) (g : Good h L T U) :
    (h.pages.filter fun p => reservedIn h p ≠ []).length = (areas R).card := by
  have r := g.represents
  rw [← List.toFinset_card_of_nodup (g.pages.filter _)]
  congr 1
  ext p
  rw [List.mem_toFinset, List.mem_filter, decide_eq_true_iff, mem_areas]
  constructor
  · rintro ⟨hp, hne⟩
    obtain ⟨a, ha⟩ := List.exists_mem_of_ne_nil _ hne
    obtain ⟨harea, k, hk⟩ := ((reservedIn_spec r g.noHeld hp).2 a).mp ha
    exact ⟨a, k, (hR.mem_iff r g.noHeld).mpr hk, harea⟩
  · rintro ⟨a, k, he, rfl⟩
    have hk := (hR.mem_iff r g.noHeld).mp he
    have ha := ((reservedIn_spec r g.noHeld (r.paged hk)).2 a).mpr ⟨rfl, k, hk⟩
    exact ⟨r.paged hk, List.ne_nil_of_mem ha⟩

/-! ## What the operations do to the heap -/

theorem splitLoop_counters (sizelog2 fuel : ℕ) :
    (splitLoop sizelog2 fuel h a).nbStdPages = h.nbStdPages ∧
      (splitLoop sizelog2 fuel h a).nbStdUsed = h.nbStdUsed := by
  induction fuel generalizing h with
  | zero => exact ⟨rfl, rfl⟩
  | succ fuel ih =>
    rw [splitLoop]
    split
    · have hsplit : (splitBlock h a).nbStdPages = h.nbStdPages ∧
          (splitBlock h a).nbStdUsed = h.nbStdUsed := by
        rw [splitBlock, insertFreeBlock_eq]
        exact ⟨rfl, rfl⟩
      exact ⟨ih.1.trans hsplit.1, ih.2.trans hsplit.2⟩
    · exact ⟨rfl, rfl⟩

theorem mergeLoop_counters (fuel : ℕ) : (mergeLoop fuel h a).1.nbStdPages = h.nbStdPages ∧
    (mergeLoop fuel h a).1.nbStdUsed = h.nbStdUsed := by
  induction fuel generalizing h a with
  | zero => exact ⟨rfl, rfl⟩
  | succ fuel ih =>
    rw [mergeLoop]
    split
    · dsimp only
      split
      · exact ⟨rfl, rfl⟩
      · rw [removeFreeBlock_eq]
        exact ih
    · exact ⟨rfl, rfl⟩

theorem mergedBlock_counters : (mergedBlock h a).1.nbStdPages = h.nbStdPages ∧
    (mergedBlock h a).1.nbStdUsed = h.nbStdUsed := by
  rw [mergedBlock]
  dsimp only
  rw [insertFreeBlock_eq]
  exact mergeLoop_counters buddyMaxLog2Size

theorem extraBytes_congr (hextras : h'.extras = h.extras)
    (hheader : ∀ p ∈ h.extras, h'.header ⟨p, 0⟩ = h.header ⟨p, 0⟩) :
    extraBytes h' = extraBytes h := by
  rw [extraBytes, extraBytes, hextras]
  refine congrArg List.sum (List.map_congr_left fun p hp => ?_)
  rw [hheader p hp]

theorem extraBytes_of_leaves (g : Good h L T U) (hleaves : Leaves h L' h' L1) :
    extraBytes h' = extraBytes h :=
  extraBytes_congr hleaves.extras fun p hp =>
    (hleaves.outside (g.extras_lt p hp) fun hpage => g.disjoint p hpage hp).1

theorem reserveBlock_tally (g : Good h L T U) (hR : Listed h R) (ha : L.at a = some ⟨k, .free⟩)
    (hk : k ≤ buddyMaxLog2Size) (sizelog2 : ℕ) : let h' := (BuddyMalloc.reserveBlock h sizelog2 a).1
    Listed h' ((a, min k sizelog2) :: R) ∧
      bytes ((a, min k sizelog2) :: R) ≤ h.pages.length * 2 ^ h.kSize ∧
      SameAreas h h' ∧ h'.kSize = h.kSize ∧
      extraBytes h' = extraBytes h ∧ h'.nbStdPages = h.nbStdPages ∧
      h'.nbStdUsed = if isPage (removeFreeBlock h a) a then h.nbStdUsed + 1 else h.nbStdUsed := by
  obtain ⟨L', r', hheld, ha', hleaves, hareas, hnew, -⟩ :=
    reserveBlock_spec g.represents g.noHeld ha sizelog2 (by omega)
  have hold : ∀ j, (a, j) ∉ R := by
    intro j he
    cases ((hR.mem_iff g.represents g.noHeld).mp he).symm.trans ha
  have hlisted : Listed (BuddyMalloc.reserveBlock h sizelog2 a).1 ((a, min k sizelog2) :: R) := by
    refine listed_of_layout r' hheld (List.nodup_cons.mpr ⟨hold _, hR.nodup⟩) fun x j => ?_
    rw [List.mem_cons, hR.mem_iff g.represents g.noHeld]
    constructor
    · rintro (heq | hx)
      · cases heq
        exact ha'
      · exact (hleaves.reserved hx).1
    · intro hx
      refine (hnew x j hx).imp_left fun hxa => ?_
      subst hxa
      exact Prod.ext rfl (congrArg Block.k (Option.some.inj (hx.symm.trans ha')))
  refine ⟨hlisted, ?_, hareas, hleaves.kSize, extraBytes_of_leaves g hleaves, ?_, ?_⟩
  · rw [← hareas.pages, ← hleaves.kSize]
    exact hlisted.bytes_le r' hheld
  · rw [BuddyMalloc.reserveBlock]
    dsimp only
    have hpages : (removeFreeBlock h a).nbStdPages = h.nbStdPages := by rw [removeFreeBlock_eq]
    rw [(splitLoop_counters sizelog2 buddyMaxLog2Size).1, apply_ite Heap.nbStdPages, hpages,
      ite_self]
  · rw [BuddyMalloc.reserveBlock]
    dsimp only
    rw [(splitLoop_counters sizelog2 buddyMaxLog2Size).2]
    have hused : (removeFreeBlock h a).nbStdUsed = h.nbStdUsed := by rw [removeFreeBlock_eq]
    rw [apply_ite Heap.nbStdUsed, hused]

theorem isPage_removeFreeBlock (r : Represents h L) (ha : L.at a = some ⟨k, .free⟩) :
    isPage (removeFreeBlock h a) a = true ↔ k = h.kSize := by
  rw [(r.remove ha).isPage at_set_self, removeFreeBlock_eq]

theorem newStdPage_tally (g : Good h L T U) (hR : Listed h R) :
    let h' := (BuddyMalloc.newStdPage h true).1
    Listed h' R ∧ h'.pages = h.fresh :: h.pages ∧ h'.extras = h.extras ∧ h'.kSize = h.kSize ∧
      extraBytes h' = extraBytes h ∧ h'.nbStdPages = h.nbStdPages + 1 ∧
      h'.nbStdUsed = h.nbStdUsed := by
  obtain ⟨h₁, L1, heq, g1, -, -, hkSize, hleaves, hkeeps, -⟩ := g.newStdPage
  rw [newStdPage_eq, insertFreeBlock_eq] at heq ⊢
  obtain rfl : _ = h₁ := congrArg Prod.fst heq
  refine ⟨listed_of_layout g1.represents g1.noHeld hR.nodup fun x j => ?_, rfl, rfl, rfl,
    extraBytes_congr rfl fun p hp => ?_, rfl, rfl⟩
  · rw [hR.mem_iff g.represents g.noHeld]
    exact ⟨fun hx => (hleaves.reserved hx).1, hkeeps x j⟩
  · have hne : (⟨p, 0⟩ : Addr) ≠ ⟨h.fresh, 0⟩ := by
      intro heq
      exact Nat.ne_of_lt (g.extras_lt p hp) (congrArg Addr.area heq)
    exact Function.update_of_ne hne _ _

structure FreedTally (h h' : Heap) (R : List (Addr × ℕ)) : Prop where
  listed : Listed h' R
  extras : h'.extras = h.extras
  kSize : h'.kSize = h.kSize
  extraBytes : extraBytes h' = extraBytes h

theorem releasePage_tally (r : Represents h L) (hheld : NoHeld L) (hnodup : h.pages.Nodup)
    (hR : Listed h R) (ha : L.at a = some ⟨h.kSize, .free⟩) :
    FreedTally h (releasePage h a) R ∧ (releasePage h a).pages = h.pages.erase a.area ∧
      (releasePage h a).nbStdPages = h.nbStdPages - 1 ∧
      (releasePage h a).nbStdUsed = h.nbStdUsed := by
  obtain ⟨L', r', hheld', hleaves, hpages, -, hkeeps, -⟩ := releasePage_spec r hheld ha hnodup
  refine ⟨⟨listed_of_layout r' hheld' hR.nodup fun x j => ?_, hleaves.extras, hleaves.kSize,
    extraBytes_congr hleaves.extras fun p _ => ?_⟩, hpages, ?_, ?_⟩
  · rw [hR.mem_iff r hheld]
    exact ⟨fun hx => (hleaves.reserved hx).1, hkeeps x j⟩
  · rw [releasePage, removeFreeBlock_eq]
  · rw [releasePage, removeFreeBlock_eq]
  · rw [releasePage, removeFreeBlock_eq]

/-- **A block is merged with its buddies**: the others stay as they are, and when it has become a
page, there are none in that page. -/
theorem mergedBlock_tally (g : Good h L T U) (hR : Listed h ((a, k) :: R)) :
    ∃ L' k', Merged h L a k (mergedBlock h a) L' k' ∧ FreedTally h (mergedBlock h a).1 R ∧
      (isPage (mergedBlock h a).1 (mergedBlock h a).2 = true ↔ k' = (mergedBlock h a).1.kSize) ∧
      (a.area ∈ areas R ↔ k' ≠ (mergedBlock h a).1.kSize) := by
  have ha := (hR.mem_iff g.represents g.noHeld).mp List.mem_cons_self
  obtain ⟨L', k', hm⟩ := mergedBlock_spec g.represents g.noHeld ha g.kSize
  have hnew : ∀ j, (a, j) ∉ R := by
    intro j he
    have hj := (hR.mem_iff g.represents g.noHeld).mp (.tail _ he)
    obtain rfl := congrArg Block.k (Option.some.inj (ha.symm.trans hj))
    exact (List.nodup_cons.mp hR.nodup).1 he
  have hlisted : Listed (mergedBlock h a).1 R := by
    refine listed_of_layout hm.represents hm.noHeld (List.nodup_cons.mp hR.nodup).2 fun x j => ?_
    constructor
    · intro he
      have hx := (hR.mem_iff g.represents g.noHeld).mp (.tail _ he)
      have hne : x ≠ a := by
        rintro rfl
        exact hnew j he
      exact (hm.leaves.reserved ((at_set_of_ne hne).trans hx)).1
    · intro hx
      have hx := hm.keeps x j hx
      rw [at_set] at hx
      split at hx
      · cases hx
      next hne =>
        have he := (hR.mem_iff g.represents g.noHeld).mpr hx
        exact (List.mem_cons.mp he).resolve_left fun heq => hne (congrArg Prod.fst heq)
  refine ⟨L', k', hm, ⟨hlisted, hm.areas.extras, hm.leaves.kSize,
    extraBytes_of_leaves g hm.leaves⟩, hm.represents.isPage hm.free, ?_⟩
  rw [← hm.area]
  exact hlisted.mem_areas_iff hm.represents hm.noHeld hm.free

/-- What `__BuddyFree` does to a standard block: its page stays in use; or it is not in use any
more, and then the page is kept or given back. -/
inductive Frees (c : ThreadContext) (a : Addr) (R : List (Addr × ℕ)) (s : BuddyStats) :
    ThreadContext → Prop where
  | used {h₁ : Heap} (htally : FreedTally c.heap h₁ R) (hpages : h₁.pages = c.heap.pages)
      (hstd : h₁.nbStdPages = c.heap.nbStdPages) (hused : h₁.nbStdUsed = c.heap.nbStdUsed)
      (harea : a.area ∈ areas R) : Frees c a R s ⟨h₁, s⟩
  | kept {h₁ : Heap} (htally : FreedTally c.heap h₁ R) (hpages : h₁.pages = c.heap.pages)
      (hstd : h₁.nbStdPages = c.heap.nbStdPages) (hused : h₁.nbStdUsed = c.heap.nbStdUsed - 1)
      (harea : a.area ∉ areas R) : Frees c a R s ⟨h₁, s⟩
  | collected {h₁ : Heap} (htally : FreedTally c.heap h₁ R)
      (hpages : h₁.pages = c.heap.pages.erase a.area)
      (hstd : h₁.nbStdPages = c.heap.nbStdPages - 1)
      (hused : h₁.nbStdUsed = c.heap.nbStdUsed - 1)
      (harea : a.area ∉ areas R) : Frees c a R s ⟨h₁, s.removeStdPage⟩

theorem buddyFreeBlock_frees {c : ThreadContext} (g : Good c.heap L T U)
    (hR : Listed c.heap ((a, k) :: R)) :
    Frees c a R (c.stats.freeStdMemSpace (UInt64.ofNat (intShift k))) (buddyFreeBlock c a) := by
  have ha := (hR.mem_iff g.represents g.noHeld).mp List.mem_cons_self
  obtain ⟨hbase, hinside, -⟩ := buddyFreeBlock_eq g.represents ha g.kSize
  obtain ⟨L', k', hm, htally, hpage, harea⟩ := mergedBlock_tally g hR
  obtain ⟨hstd, hused⟩ := mergedBlock_counters (h := c.heap) (a := a)
  have hk : (c.heap.header a).kSize = k := (g.represents.header ha).kSize
  have hbody : buddyFreeBlock c a =
      let s := c.stats.freeStdMemSpace (UInt64.ofNat (intShift k))
      let h := (mergedBlock c.heap a).1
      if isPage h (mergedBlock c.heap a).2 then
        let h := { h with nbStdUsed := h.nbStdUsed - 1 }
        if h.config.freeAreas then garbageStdPages ⟨h, s⟩ (mergedBlock c.heap a).2 else ⟨h, s⟩
      else ⟨h, s⟩ := by
    subst hk
    rw [buddyFreeBlock]
    dsimp only
    rw [if_neg hbase, if_neg hinside]
    rfl
  rw [hbody]
  clear hbody
  generalize mergedBlock c.heap a = m at hm htally hpage harea hstd hused ⊢
  obtain ⟨h₁, a1⟩ := m
  dsimp only at hm htally hpage harea hstd hused ⊢
  by_cases hp : isPage h₁ a1 = true
  case neg =>
    rw [if_neg hp]
    exact .used htally hm.areas.pages hstd hused (harea.mpr fun hk' => hp (hpage.mpr hk'))
  rw [if_pos hp]
  have hnot : a.area ∉ areas R := fun hmem => harea.mp hmem (hpage.mp hp)
  have hused' : h₁.nbStdUsed - 1 = c.heap.nbStdUsed - 1 := by rw [hused]
  have r1 := hm.represents.setUsed (h₁.nbStdUsed - 1)
  have htally1 : FreedTally c.heap { h₁ with nbStdUsed := h₁.nbStdUsed - 1 } R :=
    ⟨htally.listed.congr rfl rfl rfl, htally.extras, htally.kSize, htally.extraBytes⟩
  have hkept : Frees c a R (c.stats.freeStdMemSpace (UInt64.ofNat (intShift k)))
      ⟨{ h₁ with nbStdUsed := h₁.nbStdUsed - 1 },
        c.stats.freeStdMemSpace (UInt64.ofNat (intShift k))⟩ :=
    .kept htally1 hm.areas.pages hstd hused' hnot
  split
  case isFalse => exact hkept
  rw [garbageStdPages]
  split
  · exact hkept
  split
  · exact hkept
  split
  · exact hkept
  -- the page is given back
  have hfree : L'.at a1 = some ⟨h₁.kSize, .free⟩ := by
    rw [← hpage.mp hp]
    exact hm.free
  have hnodup : h₁.pages.Nodup := hm.areas.pages.symm ▸ g.pages
  obtain ⟨htally2, hpages2, hstd2, hused2⟩ :=
    releasePage_tally r1 hm.noHeld hnodup htally1.listed hfree
  have harea1 : a1.area = a.area := hm.area
  have hpages1 : h₁.pages = c.heap.pages := hm.areas.pages
  refine .collected ⟨htally2.listed, htally2.extras.trans htally.extras,
    htally2.kSize.trans htally.kSize, htally2.extraBytes.trans htally.extraBytes⟩ ?_ ?_ ?_ hnot
  · rw [hpages2, harea1, ← hpages1]
  · rw [hstd2, ← hstd]
  · rw [hused2, ← hused']

end

/-! ## Counters and watermarks -/

/-- The counters agree with the blocks and the pages. -/
structure Counted (c : ThreadContext) (R : List (Addr × ℕ)) : Prop where
  listed : Listed c.heap R
  nbStdPages : c.heap.nbStdPages.toNat = c.heap.pages.length
  nbStdUsed : c.heap.nbStdUsed.toNat = (areas R).card
  stdMemSpace : c.stats.stdMemSpace.toNat = c.heap.pages.length * 2 ^ c.heap.kSize
  stdUsedSpace : c.stats.stdUsedSpace.toNat = bytes R
  extraMemSpace : c.stats.extraMemSpace.toNat = extraBytes c.heap
  totalMemSpace : c.stats.totalMemSpace.toNat =
    c.stats.stdMemSpace.toNat + c.stats.extraMemSpace.toNat
  stdPageSize : c.stats.stdPageSize.toNat = 2 ^ c.heap.kSize
  nbExtraPages : c.stats.nbExtraPages.toNat = c.heap.extras.length % 2 ^ 32
  wmNbExtraPages : 2 ^ 32 - 1 ≤ c.heap.extras.length →
    c.stats.wmNbExtraPages.toNat = 2 ^ 32 - 1

def Marked (c : ThreadContext) : Prop := ∀ m : Counter, m.value c ≤ m.watermark c

def Raised (c c' : ThreadContext) : Prop :=
  ∀ m : Counter, m.watermark c' = max (m.watermark c) (m.value c')

section

variable {c c' c'' : ThreadContext} {h h' : Heap} {L : Layouts} {a : Addr} {k : ℕ} {T : List Addr}
  {U : List Allocation} {R : List (Addr × ℕ)}

theorem toNat_raise64 (x wm : UInt64) :
    (if x > wm then x else wm).toNat = max wm.toNat x.toNat := by
  split
  next hgt => exact (max_eq_right (Nat.le_of_lt (UInt64.lt_iff_toNat_lt.mp hgt))).symm
  rename_i hle
  have hle : x.toNat ≤ wm.toNat :=
    Nat.le_of_not_lt fun hlt => hle (UInt64.lt_iff_toNat_lt.mpr hlt)
  exact (max_eq_left hle).symm

theorem toNat_raise32 (x wm : UInt32) :
    (if x > wm then x else wm).toNat = max wm.toNat x.toNat := by
  split
  next hgt => exact (max_eq_right (Nat.le_of_lt (UInt32.lt_iff_toNat_lt.mp hgt))).symm
  rename_i hle
  have hle : x.toNat ≤ wm.toNat :=
    Nat.le_of_not_lt fun hlt => hle (UInt32.lt_iff_toNat_lt.mpr hlt)
  exact (max_eq_left hle).symm

theorem toNat_add64 {x y : UInt64} (hlt : x.toNat + y.toNat < 2 ^ 64) :
    (x + y).toNat = x.toNat + y.toNat := by
  rw [UInt64.toNat_add, Nat.mod_eq_of_lt hlt]

theorem toNat_sub64 {x y : UInt64} (hle : y.toNat ≤ x.toNat) : (x - y).toNat = x.toNat - y.toNat :=
  UInt64.toNat_sub_of_le _ _ (UInt64.le_iff_toNat_le.mpr hle)

theorem Raised.marked (hr : Raised c c') : Marked c' := fun m => (hr m).symm ▸ le_max_right _ _

theorem Raised.trans (h₁ : Raised c c') (h2 : Raised c' c'')
    (hmid : ∀ m : Counter, m.value c' ≤ max (m.watermark c) (m.value c'')) : Raised c c'' := by
  intro m
  have hle := hmid m
  rw [h2 m, h₁ m]
  omega

theorem raised_of_le (hwm : ∀ m : Counter, m.watermark c' = m.watermark c)
    (hle : ∀ m : Counter, m.value c' ≤ m.watermark c) : Raised c c' :=
  fun m => (hwm m).trans (max_eq_left (hle m)).symm

theorem raised_insertStdPage (hm : Marked c) (hused : h'.nbStdUsed = c.heap.nbStdUsed) :
    Raised c ⟨h', c.stats.insertStdPage⟩ := by
  intro m
  cases m with
  | totalMemSpace => exact toNat_raise64 _ _
  | stdMemSpace => exact toNat_raise64 _ _
  | stdUsedSpace => exact (max_eq_left (hm .stdUsedSpace)).symm
  | nbStdUsed =>
    show _ = max _ h'.nbStdUsed.toNat
    rw [hused]
    exact (max_eq_left (hm .nbStdUsed)).symm
  | extraMemSpace => exact (max_eq_left (hm .extraMemSpace)).symm
  | nbExtraPages => exact (max_eq_left (hm .nbExtraPages)).symm

theorem raised_reserveBlock (hm : Marked c) {sizelog2 : ℕ} {allocation : UInt64}
    (hused : (BuddyMalloc.reserveBlock c.heap sizelog2 a).1.nbStdUsed =
      if isPage (removeFreeBlock c.heap a) a then c.heap.nbStdUsed + 1 else c.heap.nbStdUsed) :
    Raised c (reserveBlock c sizelog2 allocation a).1 := by
  have hsame : (removeFreeBlock c.heap a).nbStdUsed = c.heap.nbStdUsed := by
    rw [removeFreeBlock_eq]
  have heq : (reserveBlock c sizelog2 allocation a).1 =
      ⟨(BuddyMalloc.reserveBlock c.heap sizelog2 a).1,
        (if isPage (removeFreeBlock c.heap a) a then c.stats.useStdPage (c.heap.nbStdUsed + 1)
          else c.stats).useStdMemSpace allocation⟩ := by
    rw [reserveBlock, hsame]
  rw [heq]
  generalize (BuddyMalloc.reserveBlock c.heap sizelog2 a).1 = h' at hused ⊢
  generalize isPage (removeFreeBlock c.heap a) a = page at hused ⊢
  cases page with
  | false =>
    rw [if_neg Bool.false_ne_true] at hused ⊢
    intro m
    have hkept := (max_eq_left (hm m)).symm
    cases m with
    | stdUsedSpace => exact toNat_raise64 _ _
    | nbStdUsed =>
      show _ = max _ h'.nbStdUsed.toNat
      rw [hused]
      exact hkept
    | _ => exact hkept
  | true =>
    rw [if_pos rfl] at hused ⊢
    intro m
    have hkept := (max_eq_left (hm m)).symm
    cases m with
    | stdUsedSpace => exact toNat_raise64 _ _
    | nbStdUsed =>
      show _ = max _ h'.nbStdUsed.toNat
      rw [hused]
      exact toNat_raise32 _ _
    | _ => exact hkept

theorem raised_addExtraPage (hm : Marked c) (hused : h'.nbStdUsed = c.heap.nbStdUsed)
    (n : UInt64) : Raised c ⟨h', c.stats.addExtraPage n⟩ := by
  intro m
  cases m with
  | totalMemSpace => exact toNat_raise64 _ _
  | stdMemSpace => exact (max_eq_left (hm .stdMemSpace)).symm
  | stdUsedSpace => exact (max_eq_left (hm .stdUsedSpace)).symm
  | nbStdUsed =>
    show _ = max _ h'.nbStdUsed.toNat
    rw [hused]
    exact (max_eq_left (hm .nbStdUsed)).symm
  | extraMemSpace => exact toNat_raise64 _ _
  | nbExtraPages => exact toNat_raise32 _ _

/-! ## The operations -/

theorem Counted.newStdPage (t : Counted c R) (g : Good c.heap L T U)
    (hbytes : (c.heap.pages.length + 1) * 2 ^ c.heap.kSize + extraBytes c.heap < 2 ^ 64) :
    let c' : ThreadContext := ⟨(BuddyMalloc.newStdPage c.heap true).1, c.stats.insertStdPage⟩
    c'.stats.stdMemSpace.toNat = (c.heap.pages.length + 1) * 2 ^ c.heap.kSize ∧
      (c.heap.pages.length + 1 < 2 ^ 32 → Counted c' R) := by
  obtain ⟨hlisted, hpages, hextras, hkSize, hextra, hstd, hused⟩ := newStdPage_tally g t.listed
  have hsum : (c.heap.pages.length + 1) * 2 ^ c.heap.kSize =
      c.heap.pages.length * 2 ^ c.heap.kSize + 2 ^ c.heap.kSize := by ring
  have hmem : (c.stats.stdMemSpace + c.stats.stdPageSize).toNat =
      c.heap.pages.length * 2 ^ c.heap.kSize + 2 ^ c.heap.kSize := by
    rw [toNat_add64, t.stdMemSpace, t.stdPageSize]
    rw [t.stdMemSpace, t.stdPageSize]
    omega
  refine ⟨hmem.trans hsum.symm, fun hlt => ?_⟩
  refine ⟨hlisted, ?_, ?_, ?_, t.stdUsedSpace, ?_, ?_, ?_, ?_, ?_⟩
  · have hone : (c.heap.nbStdPages + 1).toNat = c.heap.nbStdPages.toNat + 1 := by
      rw [UInt32.toNat_add]
      exact Nat.mod_eq_of_lt (t.nbStdPages.symm ▸ hlt)
    dsimp only
    rw [hstd, hone, t.nbStdPages, hpages, List.length_cons]
  · dsimp only
    rw [hused, t.nbStdUsed]
  · dsimp only
    rw [hpages, List.length_cons, hkSize, hsum]
    exact hmem
  · dsimp only
    rw [hextra]
    exact t.extraMemSpace
  · show (c.stats.totalMemSpace + c.stats.stdPageSize).toNat =
      (c.stats.stdMemSpace + c.stats.stdPageSize).toNat + c.stats.extraMemSpace.toNat
    have htotal := t.totalMemSpace
    rw [t.stdMemSpace, t.extraMemSpace] at htotal
    rw [hmem, t.extraMemSpace, toNat_add64, htotal, t.stdPageSize]
    · omega
    · rw [htotal, t.stdPageSize]
      omega
  · dsimp only
    rw [hkSize]
    exact t.stdPageSize
  · dsimp only
    rw [hextras]
    exact t.nbExtraPages
  · dsimp only
    rw [hextras]
    exact t.wmNbExtraPages

theorem Counted.reserveBlock (t : Counted c R) (g : Good c.heap L T U)
    (ha : L.at a = some ⟨k, .free⟩) (hk : k ≤ buddyMaxLog2Size) (sizelog2 : ℕ)
    (allocation : UInt64) :
    let c' := (reserveBlock c sizelog2 allocation a).1
    Listed c'.heap ((a, min k sizelog2) :: R) ∧
      (allocation.toNat ≤ 2 ^ min k sizelog2 →
        c'.stats.stdUsedSpace.toNat = bytes R + allocation.toNat) ∧
      (allocation.toNat = 2 ^ min k sizelog2 → Counted c' ((a, min k sizelog2) :: R)) := by
  obtain ⟨hlisted, hle, hareas, hkSize, hextra, hstd, hused⟩ :=
    reserveBlock_tally g t.listed ha hk sizelog2
  have hpage := isPage_removeFreeBlock g.represents ha
  -- only these two of the other counters change
  obtain ⟨w, hw⟩ : ∃ w, (if isPage (removeFreeBlock c.heap a) a then
      c.stats.useStdPage ((removeFreeBlock c.heap a).nbStdUsed + 1) else c.stats) =
      { c.stats with wmNbStdUsed := w } := by
    split
    · exact ⟨_, rfl⟩
    · exact ⟨_, rfl⟩
  have heq : (Stats.reserveBlock c sizelog2 allocation a).1 =
      ⟨(BuddyMalloc.reserveBlock c.heap sizelog2 a).1,
        BuddyStats.useStdMemSpace { c.stats with wmNbStdUsed := w } allocation⟩ := by
    rw [Stats.reserveBlock, hw]
  rw [heq]
  clear heq hw
  generalize (BuddyMalloc.reserveBlock c.heap sizelog2 a).1 = h' at *
  have hmem : c.heap.pages.length * 2 ^ c.heap.kSize < 2 ^ 64 := by
    rw [← t.stdMemSpace]
    exact c.stats.stdMemSpace.toNat_lt
  have hadd : allocation.toNat ≤ 2 ^ min k sizelog2 →
      (c.stats.stdUsedSpace + allocation).toNat = bytes R + allocation.toNat := by
    intro halloc
    rw [bytes_cons] at hle
    rw [toNat_add64, t.stdUsedSpace]
    rw [t.stdUsedSpace]
    omega
  refine ⟨hlisted, hadd, fun halloc => ⟨hlisted, ?_, ?_, ?_, ?_, ?_, t.totalMemSpace, ?_, ?_, ?_⟩⟩
  · dsimp only
    rw [hstd, hareas.pages]
    exact t.nbStdPages
  · -- the page counts as used now, if it did not before
    dsimp only
    rw [hused, areas_cons]
    have hiff := t.listed.mem_areas_iff g.represents g.noHeld ha
    split
    next hp =>
      have hnot : a.area ∉ areas R := fun hmem => hiff.mp hmem (hpage.mp hp)
      have hcard := hlisted.card_le
      rw [areas_cons, Finset.card_insert_of_notMem hnot, hareas.pages, ← t.nbStdPages] at hcard
      have hlt := c.heap.nbStdPages.toNat_lt
      rw [Finset.card_insert_of_notMem hnot, UInt32.toNat_add, t.nbStdUsed]
      exact Nat.mod_eq_of_lt (Nat.lt_of_le_of_lt hcard hlt)
    next hp =>
      have hmem : a.area ∈ areas R := hiff.mpr fun hk' => hp (hpage.mpr hk')
      rw [Finset.insert_eq_self.mpr hmem]
      exact t.nbStdUsed
  · dsimp only
    rw [hareas.pages, hkSize]
    exact t.stdMemSpace
  · rw [bytes_cons, Nat.add_comm, ← halloc]
    exact hadd (Nat.le_of_eq halloc)
  · dsimp only
    rw [hextra]
    exact t.extraMemSpace
  · dsimp only
    rw [hkSize]
    exact t.stdPageSize
  · dsimp only
    rw [hareas.extras]
    exact t.nbExtraPages
  · dsimp only
    rw [hareas.extras]
    exact t.wmNbExtraPages

theorem extraBytes_cons (hd : BuddyHeader) (hnew : h.fresh ∉ h.extras) : extraBytes
    { h with
      extras := h.fresh :: h.extras
      fresh := h.fresh + 1
      header := Function.update h.header ⟨h.fresh, 0⟩ hd } = hd.extraInfo.toNat + extraBytes h := by
  rw [extraBytes, extraBytes]
  dsimp only
  rw [List.map_cons, List.sum_cons, Function.update_self]
  congr 2
  refine List.map_congr_left fun p hp => ?_
  rw [Function.update_of_ne]
  intro heq
  have harea : p = h.fresh := congrArg Addr.area heq
  exact hnew (harea ▸ hp)

theorem Counted.addExtraPage (t : Counted c R) (g : Good c.heap L T U) {hd : BuddyHeader}
    (hok : ExtraOk c.heap.self hd)
    (hbytes : c.heap.pages.length * 2 ^ c.heap.kSize +
      (hd.extraInfo.toNat + extraBytes c.heap) < 2 ^ 64) :
    Counted
      ⟨{ c.heap with
          extras := c.heap.fresh :: c.heap.extras
          fresh := c.heap.fresh + 1
          header := Function.update c.heap.header ⟨c.heap.fresh, 0⟩ hd },
        c.stats.addExtraPage hd.extraInfo⟩ R := by
  have hnew : c.heap.fresh ∉ c.heap.extras := fun hp => Nat.lt_irrefl _ (g.extras_lt _ hp)
  have g' := g.newExtra hok 0
  have hextra : (c.stats.extraMemSpace + hd.extraInfo).toNat =
      hd.extraInfo.toNat + extraBytes c.heap := by
    rw [toNat_add64, t.extraMemSpace, Nat.add_comm]
    rw [t.extraMemSpace]
    omega
  have hone : (c.stats.nbExtraPages + 1).toNat = (c.heap.extras.length + 1) % 2 ^ 32 := by
    rw [UInt32.toNat_add, t.nbExtraPages]
    exact Nat.mod_add_mod _ _ _
  refine ⟨listed_of_layout g'.represents g'.noHeld t.listed.nodup fun x j =>
    t.listed.mem_iff g.represents g.noHeld, t.nbStdPages, t.nbStdUsed, t.stdMemSpace,
    t.stdUsedSpace, ?_, ?_, t.stdPageSize, ?_, fun hlength => ?_⟩
  · rw [extraBytes_cons hd hnew]
    exact hextra
  · show (c.stats.totalMemSpace + hd.extraInfo).toNat =
      c.stats.stdMemSpace.toNat + (c.stats.extraMemSpace + hd.extraInfo).toNat
    have htotal := t.totalMemSpace
    rw [t.stdMemSpace, t.extraMemSpace] at htotal
    rw [hextra, t.stdMemSpace, toNat_add64, htotal]
    · omega
    · rw [htotal]
      omega
  · exact hone
  · show (if c.stats.nbExtraPages + 1 > c.stats.wmNbExtraPages then c.stats.nbExtraPages + 1
      else c.stats.wmNbExtraPages).toNat = 2 ^ 32 - 1
    have hlength : 2 ^ 32 - 1 ≤ c.heap.extras.length + 1 := hlength
    rw [toNat_raise32, hone]
    have hmod := Nat.mod_lt (c.heap.extras.length + 1) (Nat.two_pow_pos 32)
    have hwm := c.stats.wmNbExtraPages.toNat_lt
    by_cases hfull : 2 ^ 32 - 1 ≤ c.heap.extras.length
    · rw [t.wmNbExtraPages hfull]
      omega
    · omega

theorem toNat_pred32 {x : UInt32} {n : ℕ} (hx : x.toNat = n % 2 ^ 32) (hn : 0 < n) :
    (x - 1).toNat = (n - 1) % 2 ^ 32 := by
  rw [UInt32.toNat_sub, hx]
  have hone : (1 : UInt32).toNat = 1 := rfl
  rw [hone]
  omega

theorem Counted.freeLargeBlock (t : Counted c R) (hm : Marked c) (hoffset : a.offset = 0)
    (hmem : a.area ∈ c.heap.extras) :
    Counted (freeLargeBlock c a) R ∧ Raised c (freeLargeBlock c a) := by
  have ha : a = ⟨a.area, 0⟩ := Addr.ext rfl hoffset
  have hsum : (c.heap.header a).extraInfo.toNat +
      extraBytes (BuddyMalloc.freeLargeBlock c.heap a) = extraBytes c.heap := by
    have hsum := List.sum_map_erase (fun p => (c.heap.header ⟨p, 0⟩).extraInfo.toNat) hmem
    rw [← ha] at hsum
    exact hsum
  have hlength : (c.heap.extras.erase a.area).length = c.heap.extras.length - 1 :=
    List.length_erase_of_mem hmem
  have hpos : 0 < c.heap.extras.length := List.length_pos_of_mem hmem
  have hextra : (c.stats.extraMemSpace - (c.heap.header a).extraInfo).toNat =
      c.stats.extraMemSpace.toNat - (c.heap.header a).extraInfo.toNat := by
    refine toNat_sub64 ?_
    rw [t.extraMemSpace]
    omega
  have htotal : (c.stats.totalMemSpace - (c.heap.header a).extraInfo).toNat =
      c.stats.totalMemSpace.toNat - (c.heap.header a).extraInfo.toNat := by
    refine toNat_sub64 ?_
    rw [t.totalMemSpace, t.extraMemSpace]
    omega
  have hone := toNat_pred32 t.nbExtraPages hpos
  constructor
  · refine ⟨t.listed.congr rfl rfl rfl, t.nbStdPages, t.nbStdUsed, t.stdMemSpace, t.stdUsedSpace,
      ?_, ?_, t.stdPageSize, ?_, fun hle => ?_⟩
    · refine hextra.trans ?_
      rw [t.extraMemSpace]
      show _ = extraBytes (BuddyMalloc.freeLargeBlock c.heap a)
      omega
    · refine htotal.trans ?_
      have hboth := t.totalMemSpace
      have hbytes := t.extraMemSpace
      show _ = c.stats.stdMemSpace.toNat +
        (c.stats.extraMemSpace - (c.heap.header a).extraInfo).toNat
      rw [hextra]
      omega
    · show (c.stats.nbExtraPages - 1).toNat = (c.heap.extras.erase a.area).length % 2 ^ 32
      rw [hlength]
      exact hone
    · have hle : 2 ^ 32 - 1 ≤ (c.heap.extras.erase a.area).length := hle
      exact t.wmNbExtraPages (by omega)
  · refine raised_of_le (fun m => by cases m <;> rfl) fun m => ?_
    cases m with
    | totalMemSpace =>
      refine Nat.le_trans ?_ (hm .totalMemSpace)
      exact Nat.le_of_eq htotal |>.trans (Nat.sub_le _ _)
    | stdMemSpace => exact hm .stdMemSpace
    | stdUsedSpace => exact hm .stdUsedSpace
    | nbStdUsed => exact hm .nbStdUsed
    | extraMemSpace =>
      refine Nat.le_trans ?_ (hm .extraMemSpace)
      exact Nat.le_of_eq hextra |>.trans (Nat.sub_le _ _)
    | nbExtraPages =>
      -- a counter that has wrapped around goes back to the highest value there is
      show (c.stats.nbExtraPages - 1).toNat ≤ c.stats.wmNbExtraPages.toNat
      have hle : c.stats.nbExtraPages.toNat ≤ c.stats.wmNbExtraPages.toNat := hm .nbExtraPages
      rw [t.nbExtraPages] at hle
      rw [hone]
      by_cases hfull : 2 ^ 32 - 1 ≤ c.heap.extras.length
      · rw [t.wmNbExtraPages hfull]
        have := Nat.mod_lt (c.heap.extras.length - 1) (Nat.two_pow_pos 32)
        omega
      · omega


theorem toNat_dec32 {x : UInt32} (hx : 1 ≤ x.toNat) : (x - 1).toNat = x.toNat - 1 :=
  UInt32.toNat_sub_of_le _ _ (UInt32.le_iff_toNat_le.mpr hx)

theorem Counted.freed {R' : List (Addr × ℕ)} (t : Counted c R') (htally : FreedTally c.heap h R)
    {s : BuddyStats} (hstd : h.nbStdPages.toNat = h.pages.length)
    (hused : h.nbStdUsed.toNat = (areas R).card)
    (hmem : s.stdMemSpace.toNat = h.pages.length * 2 ^ c.heap.kSize)
    (hspace : s.stdUsedSpace.toNat = bytes R)
    (htotal : s.totalMemSpace.toNat = s.stdMemSpace.toNat + c.stats.extraMemSpace.toNat)
    (hextra : s.extraMemSpace = c.stats.extraMemSpace) (hsize : s.stdPageSize = c.stats.stdPageSize)
    (hextras : s.nbExtraPages = c.stats.nbExtraPages ∧
      s.wmNbExtraPages = c.stats.wmNbExtraPages) : Counted ⟨h, s⟩ R := by
  refine ⟨htally.listed, hstd, hused, ?_, hspace, ?_, ?_, ?_, ?_, ?_⟩
  · dsimp only
    rw [hmem, htally.kSize]
  · dsimp only
    rw [hextra, t.extraMemSpace, htally.extraBytes]
  · dsimp only
    rw [htotal, hextra]
  · dsimp only
    rw [hsize, t.stdPageSize, htally.kSize]
  · dsimp only
    rw [hextras.1, t.nbExtraPages, htally.extras]
  · dsimp only
    rw [hextras.2, htally.extras]
    exact t.wmNbExtraPages

theorem Counted.frees (t : Counted c ((a, k) :: R)) (hm : Marked c) (hk : k ≤ 30)
    (hf : Frees c a R (c.stats.freeStdMemSpace (UInt64.ofNat (intShift k))) c') :
    Counted c' R ∧ Raised c c' := by
  have hshift : (UInt64.ofNat (intShift k)).toNat = 2 ^ k := by
    have hlt : 2 ^ k < 2 ^ 64 := Nat.pow_lt_pow_right Nat.one_lt_two (by omega)
    rw [intShift_of_le hk]
    exact UInt64.toNat_ofNat_of_lt' hlt
  have hspace : (c.stats.stdUsedSpace - UInt64.ofNat (intShift k)).toNat = bytes R := by
    rw [toNat_sub64, hshift, t.stdUsedSpace, bytes_cons, Nat.add_sub_cancel_left]
    rw [hshift, t.stdUsedSpace, bytes_cons]
    exact Nat.le_add_right _ _
  have hless : (c.stats.stdUsedSpace - UInt64.ofNat (intShift k)).toNat ≤
      c.stats.wmStdUsedSpace.toNat := by
    refine Nat.le_trans ?_ (hm .stdUsedSpace)
    show _ ≤ c.stats.stdUsedSpace.toNat
    rw [hspace, t.stdUsedSpace, bytes_cons]
    exact Nat.le_add_left _ _
  -- a page that is not in use any more was counted
  have hcount : a.area ∉ areas R → (c.heap.nbStdUsed - 1).toNat = (areas R).card ∧
      (c.heap.nbStdUsed - 1).toNat ≤ c.stats.wmNbStdUsed.toNat := by
    intro hnot
    have hcard := t.nbStdUsed
    have hle : c.heap.nbStdUsed.toNat ≤ c.stats.wmNbStdUsed.toNat := hm .nbStdUsed
    rw [areas_cons, Finset.card_insert_of_notMem hnot] at hcard
    rw [toNat_dec32 (by omega)]
    omega
  cases hf with
  | used htally hpages hstd hnb harea =>
    constructor
    · refine t.freed htally ?_ ?_ ?_ hspace t.totalMemSpace rfl rfl ⟨rfl, rfl⟩
      · rw [hstd, hpages]
        exact t.nbStdPages
      · rw [hnb, t.nbStdUsed, areas_cons, Finset.insert_eq_self.mpr harea]
      · rw [hpages]
        exact t.stdMemSpace
    · refine raised_of_le (fun m => by cases m <;> rfl) fun m => ?_
      have hmark := hm m
      cases m with
      | nbStdUsed =>
        show UInt32.toNat _ ≤ _
        rw [hnb]
        exact hm .nbStdUsed
      | stdUsedSpace => exact hless
      | _ => exact hmark
  | kept htally hpages hstd hnb harea =>
    obtain ⟨hcard, hle⟩ := hcount harea
    constructor
    · refine t.freed htally ?_ ?_ ?_ hspace t.totalMemSpace rfl rfl ⟨rfl, rfl⟩
      · rw [hstd, hpages]
        exact t.nbStdPages
      · rw [hnb, hcard]
      · rw [hpages]
        exact t.stdMemSpace
    · refine raised_of_le (fun m => by cases m <;> rfl) fun m => ?_
      have hmark := hm m
      cases m with
      | nbStdUsed =>
        show UInt32.toNat _ ≤ _
        rw [hnb]
        exact hle
      | stdUsedSpace => exact hless
      | _ => exact hmark
  | collected htally hpages hstd hnb harea =>
    obtain ⟨hcard, hle⟩ := hcount harea
    have hpaged : a.area ∈ c.heap.pages := ((t.listed.mem a k).mp (.head _)).1.1
    have hlength := List.length_erase_of_mem hpaged
    have hpos := List.length_pos_of_mem hpaged
    have hsum : c.heap.pages.length * 2 ^ c.heap.kSize =
        (c.heap.pages.length - 1) * 2 ^ c.heap.kSize + 2 ^ c.heap.kSize := by
      rw [← Nat.succ_mul, Nat.succ_eq_add_one, Nat.sub_add_cancel hpos]
    have hmem : (c.stats.stdMemSpace - c.stats.stdPageSize).toNat =
        (c.heap.pages.length - 1) * 2 ^ c.heap.kSize := by
      rw [toNat_sub64, t.stdMemSpace, t.stdPageSize, hsum, Nat.add_sub_cancel]
      rw [t.stdMemSpace, t.stdPageSize, hsum]
      exact Nat.le_add_left _ _
    have htotal : (c.stats.totalMemSpace - c.stats.stdPageSize).toNat =
        (c.stats.stdMemSpace - c.stats.stdPageSize).toNat + c.stats.extraMemSpace.toNat := by
      have hall := t.totalMemSpace
      rw [t.stdMemSpace, hsum] at hall
      rw [hmem, toNat_sub64, hall, t.stdPageSize]
      · omega
      · rw [hall, t.stdPageSize]
        omega
    constructor
    · refine t.freed htally ?_ ?_ ?_ hspace htotal rfl rfl ⟨rfl, rfl⟩
      · rw [hstd, hpages, hlength, toNat_dec32, t.nbStdPages]
        rw [t.nbStdPages]
        exact hpos
      · rw [hnb, hcard]
      · rw [hpages, hlength]
        exact hmem
    · refine raised_of_le (fun m => by cases m <;> rfl) fun m => ?_
      cases m with
      | nbStdUsed =>
        show UInt32.toNat _ ≤ _
        rw [hnb]
        exact hle
      | stdUsedSpace => exact hless
      | totalMemSpace =>
        refine Nat.le_trans ?_ (hm .totalMemSpace)
        refine Nat.le_trans (Nat.le_of_eq htotal) ?_
        show _ ≤ c.stats.totalMemSpace.toNat
        rw [t.totalMemSpace, hmem, t.stdMemSpace, hsum]
        exact Nat.add_le_add_right (Nat.le_add_right _ _) _
      | stdMemSpace =>
        refine Nat.le_trans ?_ (hm .stdMemSpace)
        refine Nat.le_trans (Nat.le_of_eq hmem) ?_
        show _ ≤ c.stats.stdMemSpace.toNat
        rw [t.stdMemSpace, hsum]
        exact Nat.le_add_right _ _
      | extraMemSpace => exact hm .extraMemSpace
      | nbExtraPages => exact hm .nbExtraPages

end

/-! ## Every run -/

structure Inv (s : State) : Prop where
  intact : s.overwritten = false
  complete : ∃ L T, Complete s.now.heap L T s.given
  counted : ∃ R, Counted s.now R
  watermark : ∀ m : Counter,
    IsGreatest (m.value '' {c | c ∈ s.now :: s.before}) (m.watermark s.now)

section

variable {s t : State} {c : ThreadContext} {given : List Allocation} {R : List (Addr × ℕ)}
  {L : Layouts} {T : List Addr} {a : Addr} {size : UInt64} {env : MallocEnv}

theorem Inv.marked (hs : Inv s) : Marked s.now :=
  fun m => (hs.watermark m).2 (Set.mem_image_of_mem _ (.head _))

theorem Inv.next (hs : Inv s) (hcomplete : ∃ L T, Complete c.heap L T given)
    (hcounted : ∃ R, Counted c R) (hraised : Raised s.now c) : Inv (s.next c given) := by
  refine ⟨hs.intact, hcomplete, hcounted, fun m => ?_⟩
  have himage : m.value '' {x | x ∈ c :: s.now :: s.before} =
      insert (m.value c) (m.value '' {x | x ∈ s.now :: s.before}) := by
    rw [← Set.image_insert_eq]
    congr 1
    ext x
    exact List.mem_cons
  show IsGreatest (m.value '' {x | x ∈ c :: s.now :: s.before}) (m.watermark c)
  rw [himage, hraised m, max_comm]
  exact (hs.watermark m).insert _

theorem Inv.exact (hs : Inv s) : Exact s := by
  obtain ⟨L, T, hc⟩ := hs.complete
  obtain ⟨R, t⟩ := hs.counted
  refine ⟨hs.intact, ?_, ?_, t.totalMemSpace, ?_, hs.watermark⟩
  · rw [t.listed.sum_eq hc.good]
    exact t.stdUsedSpace
  · rw [t.nbStdPages]
    exact t.stdMemSpace
  · rw [t.listed.card_eq hc.good]
    exact t.nbStdUsed

theorem Counted.free (t : Counted c R) {u : Allocation} {U : List Allocation}
    (hc : Complete c.heap L T (u :: U)) (hm : Marked c) :
    (∃ R', Counted (buddyFreeBlock c u.block) R') ∧ Raised c (buddyFreeBlock c u.block) := by
  have g := hc.good
  rcases (g.given u (.head _)).2 with ⟨k, hk, -⟩ | ⟨hoffset, hextra⟩
  · -- a standard block: it is put in front
    have hmem := (t.listed.mem_iff g.represents g.noHeld).mpr hk
    have hperm := List.perm_cons_erase hmem
    have t' : Counted c ((u.block, k) :: R.erase (u.block, k)) := by
      refine { t with listed := ⟨hperm.nodup_iff.mp t.listed.nodup, fun x j => ?_⟩, nbStdUsed := ?_,
                      stdUsedSpace := ?_ }
      · rw [← hperm.mem_iff]
        exact t.listed.mem x j
      · rw [← areas_perm hperm]
        exact t.nbStdUsed
      · rw [← bytes_perm hperm]
        exact t.stdUsedSpace
    have hle : k ≤ c.heap.kSize := (g.represents.partition _ (g.represents.paged hk)).k_le hk
    obtain ⟨t1, hr⟩ := t'.frees hm (Nat.le_trans hle g.kSize) (buddyFreeBlock_frees g t'.listed)
    exact ⟨⟨_, t1⟩, hr⟩
  · have hfree : Stats.buddyFreeBlock c u.block = Stats.freeLargeBlock c u.block := by
      rw [Stats.buddyFreeBlock]
      exact if_pos (g.extra_at hoffset hextra).basePtr
    rw [hfree]
    obtain ⟨t1, hr⟩ := t.freeLargeBlock hm hoffset hextra
    exact ⟨⟨_, t1⟩, hr⟩

theorem Counted.congr (t : Counted c R) {h : Heap} (hlisted : Listed h R)
    (hpages : h.pages = c.heap.pages) (hkSize : h.kSize = c.heap.kSize)
    (hextras : h.extras = c.heap.extras) (hstd : h.nbStdPages = c.heap.nbStdPages)
    (hused : h.nbStdUsed = c.heap.nbStdUsed) (hextra : extraBytes h = extraBytes c.heap) :
    Counted ⟨h, c.stats⟩ R := by
  refine ⟨hlisted, ?_, ?_, ?_, t.stdUsedSpace, ?_, t.totalMemSpace, ?_, ?_, ?_⟩
  · dsimp only
    rw [hstd, hpages]
    exact t.nbStdPages
  · dsimp only
    rw [hused]
    exact t.nbStdUsed
  · dsimp only
    rw [hpages, hkSize]
    exact t.stdMemSpace
  · dsimp only
    rw [hextra]
    exact t.extraMemSpace
  · dsimp only
    rw [hkSize]
    exact t.stdPageSize
  · dsimp only
    rw [hextras]
    exact t.nbExtraPages
  · dsimp only
    rw [hextras]
    exact t.wmNbExtraPages

theorem Marked.congr (hm : Marked c) {h : Heap} (hused : h.nbStdUsed = c.heap.nbStdUsed) :
    Raised c ⟨h, c.stats⟩ := by
  refine raised_of_le (fun m => by cases m <;> rfl) fun m => ?_
  have hmark := hm m
  cases m with
  | nbStdUsed =>
    show h.nbStdUsed.toNat ≤ _
    rw [hused]
    exact hmark
  | _ => exact hmark

theorem toNat_allocation (k : ℕ) : (UInt64.ofNat (intShift k)).toNat = intShift k := by
  refine UInt64.toNat_ofNat_of_lt' ?_
  rw [intShift]
  split
  · decide
  · have hlt : k % 32 < 64 := Nat.lt_trans (Nat.mod_lt k (by decide)) (by decide)
    exact Nat.pow_lt_pow_right Nat.one_lt_two hlt

theorem Inv.mallocBlock (hs : Inv s) {i : ℕ} (hle : sizeLog2 size ≤ i)
    (hlt : i < buddyMaxLog2Size) (ha : s.now.heap.memDesc i = some a) :
    let c := (reserveBlock s.now (sizeLog2 size) (UInt64.ofNat (intShift (sizeLog2 size))) a).1
    (∃ R, Counted c R) ∧ Raised s.now c ∧
      intShift (sizeLog2 size) = 2 ^ min (sizeLog2 size) s.now.heap.kSize := by
  obtain ⟨L, T, hc⟩ := hs.complete
  obtain ⟨R, t⟩ := hs.counted
  have g := hc.good
  have hat := g.represents.memDesc ha
  have hi : i ≤ s.now.heap.kSize := (g.represents.partition _ (g.represents.paged hat)).k_le hat
  have hK := g.kSize
  have hshift : intShift (sizeLog2 size) = 2 ^ sizeLog2 size := intShift_of_le (by omega)
  obtain ⟨-, -, -, -, -, -, hused⟩ :=
    reserveBlock_tally g t.listed hat (Nat.le_of_lt hlt) (sizeLog2 size)
  obtain ⟨-, -, hcounted⟩ := t.reserveBlock g hat (Nat.le_of_lt hlt) (sizeLog2 size)
    (UInt64.ofNat (intShift (sizeLog2 size)))
  refine ⟨⟨_, hcounted ?_⟩, raised_reserveBlock hs.marked hused, ?_⟩
  · rw [toNat_allocation, hshift, Nat.min_eq_right hle]
  · rw [hshift, Nat.min_eq_left (Nat.le_trans hle hi)]

theorem reserveBlock_memSpace (c : ThreadContext) (sizelog2 : ℕ) (allocation : UInt64) (a : Addr) :
    (reserveBlock c sizelog2 allocation a).1.stats.stdMemSpace = c.stats.stdMemSpace ∧
      (reserveBlock c sizelog2 allocation a).1.stats.totalMemSpace = c.stats.totalMemSpace := by
  rw [reserveBlock]
  dsimp only
  split
  · exact ⟨rfl, rfl⟩
  · exact ⟨rfl, rfl⟩

/-- **A new page** is counted, unless there are too many, and a block of it with its size, unless
that was computed wrongly. -/
theorem Inv.mallocPage (hs : Inv s) (hsmall : ¬ intShift (sizeLog2 size) > 2 ^ s.now.heap.kSize)
    (hc : c = (reserveBlock ⟨(BuddyMalloc.newStdPage s.now.heap true).1,
      s.now.stats.insertStdPage⟩ (sizeLog2 size) (UInt64.ofNat (intShift (sizeLog2 size)))
      ⟨s.now.heap.fresh, 0⟩).1)
    (hgood : ∃ L T, Complete c.heap L T given) (hbytes : systemBytes c.heap < 2 ^ 64) :
    (intShift (sizeLog2 size) = 2 ^ min (sizeLog2 size) s.now.heap.kSize →
      s.now.heap.pages.length + 1 < 2 ^ 32 → (∃ R, Counted c R) ∧ Raised s.now c) ∧
    (Exact (s.next c given) → intShift (sizeLog2 size) = 2 ^ min (sizeLog2 size) s.now.heap.kSize ∧
      s.now.heap.pages.length + 1 < 2 ^ 32) := by
  obtain ⟨L, T, hcomplete⟩ := hs.complete
  obtain ⟨R, t⟩ := hs.counted
  have g := hcomplete.good
  obtain ⟨h₁, L1, hnew, g1, hat, -, hkSize, -⟩ := g.newStdPage
  obtain ⟨hlisted1, hpages1, hextras1, -, hextra1, hstd1, hused1⟩ := newStdPage_tally g t.listed
  have hall := t.newStdPage g
  rw [hnew] at hc hlisted1 hpages1 hextras1 hextra1 hstd1 hused1 hall
  dsimp only at hc hlisted1 hpages1 hextras1 hextra1 hstd1 hused1 hall
  have hk : h₁.kSize ≤ buddyMaxLog2Size := Nat.le_trans g1.kSize (by decide)
  obtain ⟨-, -, hareas2, hkSize2, hextra2, hstd2, hused2⟩ :=
    reserveBlock_tally g1 hlisted1 hat hk (sizeLog2 size)
  have hmem := reserveBlock_memSpace ⟨h₁, s.now.stats.insertStdPage⟩ (sizeLog2 size)
    (UInt64.ofNat (intShift (sizeLog2 size))) ⟨s.now.heap.fresh, 0⟩
  have hheap : c.heap = (BuddyMalloc.reserveBlock h₁ (sizeLog2 size) ⟨s.now.heap.fresh, 0⟩).1 := by
    rw [hc]
    rfl
  have hpages : c.heap.pages.length = s.now.heap.pages.length + 1 := by
    rw [hheap, hareas2.pages, hpages1, List.length_cons]
  have hK : c.heap.kSize = s.now.heap.kSize := by rw [hheap, hkSize2, hkSize]
  obtain ⟨hstdMem, hcounted1⟩ := hall (by
    have hsystem : systemBytes c.heap = c.heap.pages.length * 2 ^ c.heap.kSize +
      extraBytes c.heap := rfl
    rw [hsystem, hpages, hK, hheap, hextra2, hextra1] at hbytes
    exact hbytes)
  have hmin : min h₁.kSize (sizeLog2 size) = min (sizeLog2 size) s.now.heap.kSize := by
    rw [hkSize, Nat.min_comm]
  constructor
  · intro hshift hlt
    have t1 := hcounted1 hlt
    obtain ⟨-, -, hcounted⟩ := t1.reserveBlock g1 hat hk (sizeLog2 size)
      (UInt64.ofNat (intShift (sizeLog2 size)))
    have hraised1 : Raised s.now ⟨h₁, s.now.stats.insertStdPage⟩ :=
      raised_insertStdPage hs.marked hused1
    have halloc : (UInt64.ofNat (intShift (sizeLog2 size))).toNat =
        2 ^ min h₁.kSize (sizeLog2 size) := by rw [toNat_allocation, hshift, hmin]
    refine ⟨⟨_, hc ▸ hcounted halloc⟩,
      hraised1.trans (hc ▸ raised_reserveBlock hraised1.marked hused2) fun m => ?_⟩
    -- every counter changes only once
    have hmark := hs.marked m
    cases m with
    | totalMemSpace =>
      refine Nat.le_trans (Nat.le_of_eq ?_) (Nat.le_max_right _ _)
      rw [hc]
      exact congrArg UInt64.toNat hmem.2.symm
    | stdMemSpace =>
      refine Nat.le_trans (Nat.le_of_eq ?_) (Nat.le_max_right _ _)
      rw [hc]
      exact congrArg UInt64.toNat hmem.1.symm
    | nbStdUsed =>
      refine Nat.le_trans ?_ (Nat.le_max_left _ _)
      show h₁.nbStdUsed.toNat ≤ _
      rw [hused1]
      exact hmark
    | _ => exact Nat.le_trans hmark (Nat.le_max_left _ _)
  · intro hexact
    have hlt : s.now.heap.pages.length + 1 < 2 ^ 32 := by
      by_contra hnot
      -- the number of pages has wrapped around
      have hold := s.now.heap.nbStdPages.toNat_lt
      have hlength : s.now.heap.pages.length + 1 = 2 ^ 32 := by
        rw [t.nbStdPages] at hold
        omega
      have hstd : c.heap.nbStdPages.toNat = 0 := by
        rw [hheap, hstd2, hstd1, UInt32.toNat_add, t.nbStdPages]
        show (s.now.heap.pages.length + 1) % 2 ^ 32 = 0
        rw [hlength, Nat.mod_self]
      have hzero : c.stats.stdMemSpace.toNat = c.heap.nbStdPages.toNat * 2 ^ c.heap.kSize :=
        hexact.stdMemSpace
      rw [hstd, Nat.zero_mul, hc, hmem.1, hstdMem, hlength] at hzero
      exact absurd hzero (Nat.mul_pos (by decide) (Nat.two_pow_pos _)).ne'
    refine ⟨?_, hlt⟩
    obtain ⟨L2, T2, hcomplete2⟩ := hgood
    obtain ⟨hlisted, hspace, -⟩ := (hcounted1 hlt).reserveBlock g1 hat hk (sizeLog2 size)
      (UInt64.ofNat (intShift (sizeLog2 size)))
    rw [← hc] at hlisted hspace
    have hle : intShift (sizeLog2 size) ≤ 2 ^ min h₁.kSize (sizeLog2 size) := by
      rcases Nat.le_total h₁.kSize (sizeLog2 size) with hmin | hmin
      · rw [Nat.min_eq_left hmin, hkSize]
        exact Nat.le_of_not_lt hsmall
      · rw [Nat.min_eq_right hmin, intShift_of_le (Nat.le_trans hmin g1.kSize)]
    have hsum : c.stats.stdUsedSpace.toNat = _ := hexact.stdUsedSpace
    have hbytes' : bytes R + intShift (sizeLog2 size) =
        2 ^ min h₁.kSize (sizeLog2 size) + bytes R := by
      rw [← bytes_cons (a := ⟨s.now.heap.fresh, 0⟩), ← hlisted.sum_eq hcomplete2.good]
      refine Eq.trans ?_ hsum
      rw [hspace (by rw [toNat_allocation]; exact hle), toNat_allocation]
    rw [← hmin]
    omega

theorem Inv.malloc (hs : Inv s) {res : Option Addr} (hm : Mallocs s.now size env c res)
    (hgood : ∃ L T, Complete c.heap L T given) (hbytes : systemBytes c.heap < 2 ^ 64) :
    (CountsMalloc s.now.heap size env → Inv (s.next c given)) ∧
      (Exact (s.next c given) → CountsMalloc s.now.heap size env) := by
  obtain ⟨L, T, hcomplete⟩ := hs.complete
  obtain ⟨R, t⟩ := hs.counted
  have g := hcomplete.good
  cases hm with
  | nothing e hnothing =>
    refine ⟨fun _ => hs.next hgood ⟨R, ?_⟩ (hs.marked.congr rfl), fun _ => Or.inl hnothing⟩
    exact t.congr (t.listed.congr rfl rfl rfl) rfl rfl rfl rfl rfl rfl
  | extra hlarge hallowed =>
    refine ⟨fun _ => ?_, fun _ => Or.inr (.inl hlarge)⟩
    obtain ⟨hd, hok, hinfo, hheap⟩ : ∃ hd : BuddyHeader, ExtraOk s.now.heap.self hd ∧
        hd.extraInfo = size + sizeHeader64.toUInt64 ∧
        (BuddyMalloc.allocLargeBlock s.now.heap size true).1 =
          { s.now.heap with
            extras := s.now.heap.fresh :: s.now.heap.extras
            fresh := s.now.heap.fresh + 1
            header := Function.update s.now.heap.header ⟨s.now.heap.fresh, 0⟩ hd } := by
      rw [BuddyMalloc.allocLargeBlock, hallowed]
      exact ⟨_, ⟨rfl, rfl, rfl, rfl⟩, rfl, rfl⟩
    rw [hheap] at hgood hbytes ⊢
    rw [← hinfo]
    have hnew : s.now.heap.fresh ∉ s.now.heap.extras :=
      fun hp => Nat.lt_irrefl _ (g.extras_lt _ hp)
    refine hs.next hgood ⟨R, t.addExtraPage g hok ?_⟩ ?_
    · rw [← extraBytes_cons hd hnew]
      exact hbytes
    · apply raised_addExtraPage hs.marked
      rfl
  | block i a hsmall hle hlt ha hroom =>
    obtain ⟨hcounted, hraised, hshift⟩ := hs.mallocBlock hle hlt ha
    refine ⟨fun _ => hs.next hgood hcounted hraised, fun _ => ?_⟩
    exact .inr (.inr ⟨hroom, hshift, .inl ⟨i, hle, hlt, by rw [ha]; rintro ⟨⟩⟩⟩)
  | page hsmall hnone hroom hpage =>
    obtain ⟨hkeep, hback⟩ := hs.mallocPage hsmall rfl hgood hbytes
    constructor
    · rintro (hnothing | hlarge | ⟨-, hshift, ⟨i, hle, hlt, hsome⟩ | hlength⟩)
      · exact absurd hnothing hpage
      · exact absurd hlarge hsmall
      · exact absurd (hnone i hle hlt) hsome
      · obtain ⟨hcounted, hraised⟩ := hkeep hshift hlength
        exact hs.next hgood hcounted hraised
    · intro hexact
      obtain ⟨hshift, hlength⟩ := hback hexact
      exact .inr (.inr ⟨hroom, hshift, .inr hlength⟩)

/-- **A step** keeps the invariant, if it meets the condition, and otherwise the statistics are not
exact after it. -/
theorem Inv.step (hs : Inv s) {act : Action} (hstep : Stats.step s act = some t) :
    (Counts s act t → Inv t) ∧ (Exact t → Counts s act t) := by
  obtain ⟨L, T, hc⟩ := hs.complete
  obtain ⟨R, tR⟩ := hs.counted
  unfold Stats.step at hstep
  rw [hs.intact, if_neg nofun] at hstep
  cases act with
  | giveBack =>
    refine ⟨fun _ => ?_, fun _ => trivial⟩
    dsimp only at hstep
    cases T with
    | nil =>
      rw [hc.good.check_nil] at hstep
      cases hstep
    | cons a T =>
      obtain ⟨hcheck, -⟩ := hc.good.check_cons
      have hblock : Allocation.block ⟨userSpace a, 0⟩ = a := blockOf_userSpace
      have c1 := hc.check_cons
      rw [hcheck] at hstep
      cases hstep
      -- the list is not counted
      have tR1 : Counted ⟨{ s.now.heap with toBeFreedList := s.now.heap.content.next a },
          s.now.stats⟩ R := tR.congr (tR.listed.congr rfl rfl rfl) rfl rfl rfl rfl rfl rfl
      have hraised1 := hs.marked.congr
        (h := { s.now.heap with toBeFreedList := s.now.heap.content.next a }) rfl
      obtain ⟨hcounted, hraised⟩ := tR1.free c1 hraised1.marked
      obtain ⟨L', c', -⟩ := c1.free
      rw [hblock] at hcounted hraised c'
      refine hs.next ⟨L', T, ?_⟩ hcounted ?_
      · rw [buddyFreeBlock_heap]
        exact c'
      · refine hraised1.trans hraised fun m => Nat.le_trans ?_ (Nat.le_max_left _ _)
        have hmark := hs.marked m
        cases m <;> exact hmark
  | malloc size env =>
    dsimp only at hstep
    rcases buddyMalloc_cases s.now size env with
      ⟨c, res, heq, hheap, hm⟩ | ⟨heq, hnot⟩
    · rw [heq] at hstep
      dsimp only at hstep
      split at hstep
      next hbytes =>
        cases hstep
        obtain ⟨L', c', -⟩ := hc.malloc hheap
        exact hs.malloc hm ⟨L', T, c'⟩ hbytes
      next => cases hstep
    · rw [heq] at hstep
      cases hstep
      exact ⟨fun hcounts => absurd hcounts hnot, fun hexact => nomatch hexact.intact⟩
  | free w ptr =>
    refine ⟨fun _ => ?_, fun _ => trivial⟩
    dsimp only at hstep
    split at hstep
    next u hfind =>
      cases hstep
      have hptr : u.ptr = ptr := by simpa using List.find?_some hfind
      subst hptr
      have hperm := List.perm_cons_erase (List.mem_of_find?_eq_some hfind)
      have cu := hc.perm hperm
      rw [buddyFree_eq cu.good]
      split
      next =>
        refine hs.next ⟨L, u.block :: T, cu.push⟩ ⟨R, ?_⟩ (hs.marked.congr rfl)
        exact tR.congr (tR.listed.congr rfl rfl rfl) rfl rfl rfl rfl rfl rfl
      obtain ⟨hcounted, hraised⟩ := tR.free cu hs.marked
      obtain ⟨L', c', -⟩ := cu.free
      refine hs.next ⟨L', T, ?_⟩ hcounted hraised
      rw [buddyFreeBlock_heap]
      exact c'
    next => cases hstep
  | write ptr x hd next prev =>
    refine ⟨fun _ => ?_, fun _ => trivial⟩
    dsimp only at hstep
    split at hstep
    next u hfind =>
      split at hstep
      next hx =>
        cases hstep
        have hu := List.mem_of_find?_eq_some hfind
        have g' := hc.good.write hu hx hd next prev
        refine hs.next ⟨L, T, hc.write hu hx hd next prev⟩ ⟨R, ?_⟩ (hs.marked.congr rfl)
        refine tR.congr ?_ rfl rfl rfl rfl rfl (extraBytes_congr rfl fun p hp => ?_)
        · exact listed_of_layout g'.represents g'.noHeld tR.listed.nodup fun y j =>
            tR.listed.mem_iff hc.good.represents hc.good.noHeld
        · -- an extra block has its header in front of what the user has
          rw [userWrite]
          dsimp only
          split
          · rfl
          rename_i hne
          refine Function.update_of_ne (fun heq => hne ?_) _ _
          subst heq
          exact hc.good.eq_block_of_inUse hu hx (n := 0) (.inr ⟨rfl, hp⟩)
      next => cases hstep
    next => cases hstep

theorem counted_empty {h : Heap} {stats : BuddyStats} (hpages : h.pages = [])
    (hextras : h.extras = []) (hstd : h.nbStdPages = 0) (hused : h.nbStdUsed = 0)
    (hstats : stats = ⟨0, 0, 0, 0, 0, 0, UInt64.ofNat (intShift h.kSize), 0, 0, 0, 0, 0, 0, 0⟩)
    (hk : h.kSize ≤ 30) : Counted ⟨h, stats⟩ [] := by
  subst hstats
  refine ⟨⟨List.nodup_nil, fun a k => iff_of_false nofun fun hblock => ?_⟩, ?_, ?_, ?_, rfl, ?_,
    rfl, ?_, ?_, fun hle => ?_⟩
  · have hpaged := hblock.1.1
    rw [hpages] at hpaged
    cases hpaged
  · dsimp only
    rw [hstd, hpages]
    rfl
  · dsimp only
    rw [hused]
    rfl
  · dsimp only
    rw [hpages, List.length_nil, Nat.zero_mul]
    rfl
  · dsimp only
    rw [extraBytes, hextras]
    rfl
  · dsimp only
    rw [toNat_allocation, intShift_of_le hk]
  · dsimp only
    rw [hextras]
    rfl
  · dsimp only at hle
    rw [hextras] at hle
    exact absurd hle (by decide)

theorem inv_buddyInit {self : ℕ} {config : BuddyParameter} {header : Addr → BuddyHeader}
    {content : Links Addr} {page : Bool}
    (hinit : Stats.buddyInit self config header content page = some c)
    (hk : c.heap.kSize ≤ 30) : Inv ⟨c, [], [], false⟩ := by
  -- it is enough to look at the counters
  have hstart : BuddyMalloc.buddyInit self config header content page = some c.heap →
      (∃ R, Counted c R) → (∀ m : Counter, m.watermark c = m.value c) →
      Inv ⟨c, [], [], false⟩ := by
    intro hheap hcounted hmarks
    obtain ⟨L, c⟩ := complete_buddyInit hheap hk
    refine ⟨rfl, ⟨L, [], c⟩, hcounted, fun m => ?_⟩
    rw [hmarks m]
    refine ⟨Set.mem_image_of_mem _ List.mem_cons_self, ?_⟩
    rintro n ⟨x, hx, rfl⟩
    obtain rfl := List.mem_singleton.mp hx
    exact Nat.le_refl _
  rw [Stats.buddyInit] at hinit
  rw [BuddyMalloc.buddyInit] at hstart
  split at hinit
  · cases hinit
  next hsize =>
  rw [if_neg hsize] at hstart
  dsimp only at hinit hstart
  split at hinit
  · cases hinit
  next hlog =>
  rw [if_neg hlog] at hstart
  cases page with
  | false =>
    cases hinit
    exact hstart rfl ⟨[], counted_empty rfl rfl rfl rfl rfl hk⟩ fun m => by cases m <;> rfl
  | true =>
    -- the context before its first page
    let h : Heap := ⟨self, config, log2Ceil config.memoryAreaSize, fun _ => none, none, 0, 0,
      .success, header, content, [], [], 0⟩
    let empty : ThreadContext :=
      ⟨h, ⟨0, 0, 0, 0, 0, 0, UInt64.ofNat (intShift h.kSize), 0, 0, 0, 0, 0, 0, 0⟩⟩
    have hc : c = (Stats.newStdPage empty true).1 := (Option.some.inj hinit).symm
    have hk0 : h.kSize ≤ 30 := by
      rw [hc] at hk
      exact hk
    have hinit0 : BuddyMalloc.buddyInit self config header content false = some h := by
      rw [BuddyMalloc.buddyInit, if_neg hsize]
      dsimp only
      rw [if_neg hlog]
      rfl
    obtain ⟨L, g, -⟩ := good_buddyInit hinit0 hk0
    have t : Counted empty [] := counted_empty rfl rfl rfl rfl rfl hk0
    have hbytes : 1 * 2 ^ h.kSize + 0 < 2 ^ 64 := by
      rw [Nat.one_mul]
      exact Nat.pow_lt_pow_right Nat.one_lt_two (by omega)
    obtain ⟨-, hcounted⟩ := t.newStdPage g hbytes
    have hmarked : Marked empty := fun m => by cases m <;> exact Nat.le_refl _
    have hraised : Raised empty c := by
      rw [hc]
      apply raised_insertStdPage hmarked
      rfl
    refine hstart (by rw [hc]; rfl) ⟨[], hc ▸ hcounted (show 0 + 1 < 2 ^ 32 by decide)⟩ fun m => ?_
    refine (hraised m).trans ?_
    cases m <;> exact Nat.max_eq_right (Nat.zero_le _)

/-- **The statistics are exact** throughout a run exactly when every allocation of the run counts
what it gives. -/
theorem exact_iff {self : ℕ} {config : BuddyParameter} {header : Addr → BuddyHeader}
    {content : Links Addr} {page : Bool}
    (hinit : Stats.buddyInit self config header content page = some c)
    (hk : c.heap.kSize ≤ 30) (acts : List Action) :
    Always Stats.step Exact ⟨c, [], [], false⟩ acts ↔
      AllSteps Stats.step Counts ⟨c, [], [], false⟩ acts := by
  apply always_iff_allSteps (I := Inv) (inv_buddyInit hinit hk)
  · exact fun s hs => hs.exact
  · exact fun s act t hs hstep hcounts => (hs.step hstep).1 hcounts
  · exact fun s act t hs hstep hexact => (hs.step hstep).2 hexact

end

/-! ## Two runs -/

def smallContext : ThreadContext :=
  (Stats.buddyInit 1 smallPages (fun _ => blankHeader) ⟨fun _ => none, fun _ => none⟩ true).get rfl

/-- A block, a block that is a page, and an extra block, and all of them are freed, one of them by
another thread. -/
theorem exact_iff_threeBlocks : Always Stats.step Exact ⟨smallContext, [], [], false⟩
    [.malloc 16 ⟨true, true⟩, .malloc 100 ⟨true, true⟩, .malloc 300 ⟨true, true⟩,
      .free 2 ⟨0, 48⟩, .free 1 ⟨1, 48⟩, .giveBack, .free 1 ⟨2, 48⟩] :=
  have hinit : Stats.buddyInit 1 smallPages (fun _ => blankHeader)
      ⟨fun _ => none, fun _ => none⟩ true = some smallContext := (Option.some_get rfl).symm
  (exact_iff hinit (by decide +kernel) _).mpr (by decide +kernel)

/-- `1 << 32` is `1`, so that a page is reserved and one byte is counted. -/
theorem hugeSize_not_exact : ¬ Always Stats.step Exact ⟨smallContext, [], [], false⟩
    [.malloc (2 ^ 32 - 48) ⟨true, true⟩] := by
  have hrun : (exec Stats.step ⟨smallContext, [], [], false⟩
      [.malloc (2 ^ 32 - 48) ⟨true, true⟩]).map (fun s => (s.now.stats.stdUsedSpace.toNat,
        ((s.now.heap.pages.flatMap (reservedIn s.now.heap)).map fun a =>
          2 ^ (s.now.heap.header a).kSize).sum)) = some (1, 256) := by
    decide +kernel
  intro hexact
  obtain ⟨s, hs, heq⟩ := Option.map_eq_some_iff.mp hrun
  obtain ⟨hone, hpage⟩ := Prod.mk.inj heq
  have hused := (hexact.exec hs).stdUsedSpace
  rw [hone, hpage] at hused
  exact absurd hused (by decide)

end CloudNfs.BuddyMalloc.Stats
