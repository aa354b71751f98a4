import CloudNfs.BuddyUse

/-!
# Blocks in use

The blocks that are in use are those that a user has, and those that another thread has freed: they
are chained behind `ToBeFreed_list` and still count as reserved, until the thread they belong to
looks at the list.
-/

namespace CloudNfs.BuddyMalloc

open Function (update update_self update_of_ne)

open BuddyBlocks DoublyLinked

structure Allocation where
  /-- the address that `BuddyMalloc` has returned -/
  ptr : Addr
  size : ℕ
  deriving DecidableEq

def Allocation.block (u : Allocation) : Addr := blockOf u.ptr

/-- There is a block in use at an address, with room for `n` bytes. -/
def InUse (h : Heap) (L : Layouts) (a : Addr) (n : ℕ) : Prop :=
  (∃ k, L.at a = some ⟨k, .reserved⟩ ∧ sizeHeader64 + n ≤ 2 ^ k) ∨
    (a.offset = 0 ∧ a.area ∈ h.extras)

structure ExtraOk (owner : ℕ) (hd : BuddyHeader) : Prop where
  basePtr : hd.basePtr = none
  status : hd.status = .reservedBlock
  magicNumber : hd.magicNumber = .used
  ownerThread : hd.ownerThread = owner

/-- A heap between two calls. `T` are the blocks that wait to be freed, and `U` is what users
have. -/
structure Good (h : Heap) (L : Layouts) (T : List Addr) (U : List Allocation) : Prop where
  represents : Represents h L
  noHeld : NoHeld L
  kSize : h.kSize ≤ 30
  pages : h.pages.Nodup
  extras : h.extras.Nodup
  pages_lt : ∀ p ∈ h.pages, p < h.fresh
  extras_lt : ∀ p ∈ h.extras, p < h.fresh
  disjoint : ∀ p ∈ h.pages, p ∉ h.extras
  extra : ∀ p ∈ h.extras, ExtraOk h.self (h.header ⟨p, 0⟩)
  pending : Chain h.content.next h.toBeFreedList T
  waiting : ∀ a ∈ T, InUse h L a 0
  given : ∀ u ∈ U, sizeHeader64 ≤ u.ptr.offset ∧ InUse h L u.block u.size
  nodup : (T ++ U.map Allocation.block).Nodup

section

variable {h h' : Heap} {L L' L1 : Layouts} {a a' x : Addr} {b : Block Role} {k p n : ℕ}
  {T : List Addr} {U U' : List Allocation} {u : Allocation}

theorem blockOf_userSpace : blockOf (userSpace a) = a := by
  rw [blockOf, userSpace, Nat.add_sub_cancel]

/-! ## What does not touch the blocks -/

theorem Represents.congr (r : Represents h L) (hself : h'.self = h.self)
    (hkSize : h'.kSize = h.kSize) (hpages : h'.pages = h.pages) (hmemDesc : h'.memDesc = h.memDesc)
    (hheader : ∀ {x b}, L.at x = some b → h'.header x = h.header x)
    (hcontent : ∀ {x k}, L.at x = some ⟨k, .free⟩ →
      h'.content.next x = h.content.next x ∧ h'.content.prev x = h.content.prev x) :
    Represents h' L := by
  refine ⟨fun q hq => ?_, r.unpaired, fun hx => ?_, fun hx => ?_, fun k => ?_⟩
  · rw [hkSize]
    exact r.partition q (hpages ▸ hq)
  · rw [hpages]
    exact r.paged hx
  · rw [hkSize, hself, hheader hx]
    exact r.header hx
  · obtain ⟨l, hl, hnodup, hmem⟩ := r.lists k
    refine ⟨l, ?_, hnodup, hmem⟩
    rw [hmemDesc]
    exact hl.frame fun x hx => hcontent ((hmem x).mp hx)

theorem Good.not_free (g : Good h L T U) (ha : InUse h L a n) : L.at a ≠ some ⟨k, .free⟩ := by
  intro hfree
  rcases ha with ⟨j, hreserved, -⟩ | ⟨-, hextra⟩
  · cases hreserved.symm.trans hfree
  · exact g.disjoint _ (g.represents.paged hfree) hextra

theorem InUse.mono (ha : InUse h L a n) {m : ℕ} (hm : m ≤ n) : InUse h L a m := by
  rcases ha with ⟨k, hk, hroom⟩ | hextra
  · exact .inl ⟨k, hk, by omega⟩
  · exact .inr hextra

theorem Good.inUse (g : Good h L T U) (ha : a ∈ T ++ U.map Allocation.block) : InUse h L a 0 := by
  rcases List.mem_append.mp ha with ha | ha
  · exact g.waiting a ha
  · obtain ⟨u, hu, rfl⟩ := List.mem_map.mp ha
    exact (g.given u hu).2.mono (Nat.zero_le _)

/-- **The frame rule**: an operation on the pages leaves alone what is in use, apart from the blocks
that it was made for. -/
theorem Good.frame (g : Good h L T U) (hU : U'.Sublist U)
    (hL1 : ∀ a ∈ T ++ U'.map Allocation.block, L1.at a = L.at a) (hleaves : Leaves h L1 h' L')
    (r' : Represents h' L') (hheld : NoHeld L') (hpages : h'.pages.Nodup)
    (hlt : ∀ p ∈ h'.pages, p < h'.fresh) : Good h' L' T U' := by
  have hsub : (T ++ U'.map Allocation.block).Sublist (T ++ U.map Allocation.block) :=
    (hU.map _).append_left T
  -- what is in use stays in use, with its header and its link
  have hkeep : ∀ a ∈ T ++ U'.map Allocation.block, ∀ n, InUse h L a n →
      InUse h' L' a n ∧ h'.content.next a = h.content.next a := by
    intro a ha n huse
    rcases huse with ⟨k, hk, hroom⟩ | ⟨hoffset, hextra⟩
    · obtain ⟨hk', -, hnext⟩ := hleaves.reserved ((hL1 a ha).trans hk)
      exact ⟨.inl ⟨k, hk', hroom⟩, hnext⟩
    · refine ⟨.inr ⟨hoffset, hleaves.extras ▸ hextra⟩, ?_⟩
      exact (hleaves.outside (g.extras_lt _ hextra) fun hp => g.disjoint _ hp hextra).2
  refine ⟨r', hheld, hleaves.kSize ▸ g.kSize, hpages, hleaves.extras ▸ g.extras, hlt,
    fun q hq => ?_, fun q hq hextra => ?_, fun q hq => ?_, ?_, fun a ha => ?_, fun u hu => ?_,
    g.nodup.sublist hsub⟩
  · rw [hleaves.extras] at hq
    exact Nat.lt_of_lt_of_le (g.extras_lt q hq) hleaves.fresh
  · rw [hleaves.extras] at hextra
    exact hleaves.pages q (g.extras_lt q hextra) (fun hp => g.disjoint q hp hextra) hq
  · rw [hleaves.extras] at hq
    rw [hleaves.self,
      (hleaves.outside (a := ⟨q, 0⟩) (g.extras_lt q hq) fun hp => g.disjoint q hp hq).1]
    exact g.extra q hq
  · rw [hleaves.toBeFreedList]
    refine g.pending.frame fun a ha => ?_
    exact (hkeep a (List.mem_append_left _ ha) 0 (g.waiting a ha)).2
  · exact (hkeep a (List.mem_append_left _ ha) 0 (g.waiting a ha)).1
  · obtain ⟨hoffset, huse⟩ := g.given u (hU.subset hu)
    have hmem : u.block ∈ T ++ U'.map Allocation.block :=
      List.mem_append_right _ (List.mem_map_of_mem hu)
    exact ⟨hoffset, (hkeep u.block hmem u.size huse).1⟩

theorem Good.perm (g : Good h L T U) (hperm : U.Perm U') : Good h L T U' :=
  { g with
    given := fun u hu => g.given u (hperm.mem_iff.mpr hu)
    nodup := ((hperm.map Allocation.block).append_left T).nodup_iff.mp g.nodup }

theorem Good.block_notMem (g : Good h L T (u :: U)) : u.block ∉ T ++ U.map Allocation.block :=
  (List.nodup_cons.mp (List.nodup_middle.mp g.nodup)).1

theorem Good.nodup_tail (g : Good h L T (u :: U)) : (T ++ U.map Allocation.block).Nodup :=
  (List.nodup_cons.mp (List.nodup_middle.mp g.nodup)).2

theorem Good.extra_at (g : Good h L T U) (hoffset : a.offset = 0) (hextra : a.area ∈ h.extras) :
    ExtraOk h.self (h.header a) := by
  have ha : a = ⟨a.area, 0⟩ := Addr.ext rfl hoffset
  rw [ha]
  exact g.extra _ hextra

theorem Good.offset_of_extra (g : Good h L T U) (hu : u ∈ U) (hextra : u.block.area ∈ h.extras) :
    u.block.offset = 0 := by
  rcases (g.given u hu).2 with ⟨k, hk, -⟩ | ⟨hoffset, -⟩
  · exact absurd hextra (g.disjoint _ (g.represents.paged hk))
  · exact hoffset

theorem Good.header (g : Good h L T U) (ha : InUse h L a n) :
    (h.header a).status = .reservedBlock ∧ (h.header a).magicNumber = .used ∧
      (h.header a).ownerThread = h.self := by
  rcases ha with ⟨k, hk, -⟩ | ⟨hoffset, hextra⟩
  · exact (g.represents.header hk).reserved rfl
  · have hok := g.extra_at hoffset hextra
    exact ⟨hok.status, hok.magicNumber, hok.ownerThread⟩

/-! ## Freeing -/

/-- What has become of a block that was in use: its bytes are free, or the system has them. -/
def Freed (h : Heap) (L : Layouts) (h' : Heap) (L' : Layouts) (a : Addr) : Prop :=
  (∃ k, L.at a = some ⟨k, .reserved⟩ ∧ Returned h' L' a k) ∨
    (a.offset = 0 ∧ a.area ∈ h.extras ∧ h'.extras = h.extras.erase a.area)

/-- No byte of what is in use at an address is written. -/
def Kept (h : Heap) (L : Layouts) (h' : Heap) (a : Addr) : Prop :=
  (∀ k, L.at a = some ⟨k, .reserved⟩ → ∀ y, ¬ Apart a k y → SameAt h h' y) ∧
    (a.area ∈ h.extras → ∀ y : Addr, y.area = a.area → SameAt h h' y)

theorem Good.kept (g : Good h L T U) (hspares : Spares h L1 h') (ha : L1.at a = L.at a) :
    Kept h L h' a := by
  refine ⟨fun k hk y hy => hspares.reserved (ha.trans hk) hy, fun hextra y hy => ?_⟩
  rw [← hy] at hextra
  exact hspares.outside (g.extras_lt _ hextra) fun hp => g.disjoint _ hp hextra

theorem Kept.refl (h : Heap) (L : Layouts) (a : Addr) : Kept h L h a :=
  ⟨fun _ _ y _ => .refl h y, fun _ y _ => .refl h y⟩

theorem Kept.trans {h'' : Heap} (hkept : Kept h L h' a)
    (hL : ∀ k, L.at a = some ⟨k, .reserved⟩ → L'.at a = some ⟨k, .reserved⟩)
    (hextras : a.area ∈ h.extras → a.area ∈ h'.extras) (hkept' : Kept h' L' h'' a) :
    Kept h L h'' a := by
  obtain ⟨hpage, hextra⟩ := hkept
  obtain ⟨hpage', hextra'⟩ := hkept'
  exact ⟨fun k hk y hy => (hpage k hk y hy).trans (hpage' k (hL k hk) y hy),
    fun ha y hy => (hextra ha y hy).trans (hextra' (hextras ha) y hy)⟩

theorem Good.extra_of_inUse (g : Good h L T U)
    (hL : ∀ k, L'.at a = some ⟨k, .reserved⟩ → L.at a = some ⟨k, .reserved⟩)
    (huse : InUse h' L' a n) (hextra : a.area ∈ h.extras) : a.area ∈ h'.extras := by
  rcases huse with ⟨k, hk, -⟩ | ⟨-, hextra'⟩
  · exact absurd hextra (g.disjoint _ (g.represents.paged (hL k hk)))
  · exact hextra'

theorem Good.freeLarge (g : Good h L T (u :: U)) (hoffset : u.block.offset = 0) :
    Good (freeLargeBlock h u.block) L T U := by
  have hother : ∀ a ∈ T ++ U.map Allocation.block, ∀ n, InUse h L a n →
      InUse (freeLargeBlock h u.block) L a n := by
    intro a ha n huse
    rcases huse with hk | ⟨hzero, hmem⟩
    · exact .inl hk
    · refine .inr ⟨hzero, g.extras.mem_erase_iff.mpr ⟨fun harea => ?_, hmem⟩⟩
      have heq : a = u.block := Addr.ext harea (hzero.trans hoffset.symm)
      exact g.block_notMem (heq ▸ ha)
  refine ⟨g.represents.congr rfl rfl rfl rfl (fun _ => rfl) fun _ => ⟨rfl, rfl⟩, g.noHeld, g.kSize,
    g.pages, g.extras.erase _, g.pages_lt, fun q hq => g.extras_lt q (List.mem_of_mem_erase hq),
    fun q hq hmem => g.disjoint q hq (List.mem_of_mem_erase hmem),
    fun q hq => g.extra q (List.mem_of_mem_erase hq), g.pending, fun a ha => ?_, fun v hv => ?_,
    g.nodup_tail⟩
  · exact hother a (List.mem_append_left _ ha) 0 (g.waiting a ha)
  · obtain ⟨hle, huse⟩ := g.given v (.tail u hv)
    exact ⟨hle, hother v.block (List.mem_append_right _ (List.mem_map_of_mem hv)) _ huse⟩

theorem Good.free (g : Good h L T (u :: U)) :
    ∃ L', Good (buddyFreeBlock h u.block) L' T U ∧
      Freed h L (buddyFreeBlock h u.block) L' u.block ∧
      (buddyFreeBlock h u.block).self = h.self ∧
      (buddyFreeBlock h u.block).kSize = h.kSize ∧
      (∀ x j, L'.at x = some ⟨j, .reserved⟩ ↔ x ≠ u.block ∧ L.at x = some ⟨j, .reserved⟩) ∧
      (∀ p ∈ h.extras, (buddyFreeBlock h u.block).header ⟨p, 0⟩ = h.header ⟨p, 0⟩) ∧
      (buddyFreeBlock h u.block).extras.Sublist h.extras ∧
      (Roomy L → Roomy L' ∧ ∀ x ≠ u.block, Kept h L (buddyFreeBlock h u.block) x) := by
  rcases (g.given u (.head _)).2 with ⟨k, hk, -⟩ | ⟨hoffset, hextra⟩
  · obtain ⟨L', r', hheld, hleaves, hpages, hfresh, hreturned, hkeeps, hcareful⟩ :=
      buddyFreeBlock_spec g.represents g.noHeld hk g.kSize g.pages
    refine ⟨L', ?_, .inl ⟨k, hk, hreturned⟩, hleaves.self, hleaves.kSize, fun x j => ?_,
      fun p hp => ?_, hleaves.extras ▸ List.Sublist.refl _, fun hL => ?_⟩
    case refine_3 =>
      exact (hleaves.outside (a := ⟨p, 0⟩) (g.extras_lt p hp) fun hq => g.disjoint p hq hp).1
    case refine_4 =>
      obtain ⟨hL', hspares⟩ := hcareful (roomy_set hL hk)
      exact ⟨hL', fun x hx => g.kept hspares (at_set_of_ne hx)⟩
    case refine_2 =>
      constructor
      · intro hx
        have hx := hkeeps x j hx
        rw [at_set] at hx
        split at hx
        · cases hx
        next hne => exact ⟨hne, hx⟩
      · rintro ⟨hne, hx⟩
        exact (hleaves.reserved ((at_set_of_ne hne).trans hx)).1
    refine g.frame (List.sublist_cons_self u U) (fun a ha => ?_) hleaves r' hheld
      (g.pages.sublist hpages) fun q hq => ?_
    · exact at_set_of_ne fun heq => g.block_notMem (heq ▸ ha)
    · rw [hfresh]
      exact g.pages_lt q (hpages.subset hq)
  · rw [buddyFreeBlock, if_pos (g.extra_at hoffset hextra).basePtr]
    refine ⟨L, g.freeLarge hoffset, .inr ⟨hoffset, hextra, rfl⟩, rfl, rfl, fun x j =>
      ⟨fun hx => ⟨?_, hx⟩, fun hx => hx.2⟩, fun _ _ => rfl, List.erase_sublist, fun hL =>
      ⟨hL, fun _ _ => ⟨fun _ _ _ _ => ⟨rfl, rfl, rfl⟩, fun _ _ _ => ⟨rfl, rfl, rfl⟩⟩⟩⟩
    rintro rfl
    exact g.disjoint _ (g.represents.paged hx) hextra

theorem Good.buddyFree_eq (g : Good h L T (u :: U)) (w : ℕ) : buddyFree h w u.ptr =
    if h.self ≠ w then
      { h with
        content := h.content.setNext (some u.block) h.toBeFreedList
        toBeFreedList := some u.block }
    else buddyFreeBlock h u.block := by
  obtain ⟨hstatus, hmagic, howner⟩ := g.header (g.given u (.head _)).2
  have hblock : blockOf u.ptr = u.block := rfl
  simp only [buddyFree, hblock, hstatus, hmagic, howner, ne_eq, not_true_eq_false, if_false]

/-! ## Blocks of other threads -/

theorem Good.push (g : Good h L T (u :: U)) :
    Good
      { h with
        content := h.content.setNext (some u.block) h.toBeFreedList
        toBeFreedList := some u.block } L (u.block :: T) U := by
  have huse := (g.given u (.head _)).2
  have hnext : ∀ x, x ≠ u.block →
      (h.content.setNext (some u.block) h.toBeFreedList).next x = h.content.next x := by
    intro x hx
    rw [next_setNext, update_of_ne hx]
  have hprev : (h.content.setNext (some u.block) h.toBeFreedList).prev = h.content.prev :=
    prev_setNext
  refine ⟨?_, g.noHeld, g.kSize, g.pages, g.extras, g.pages_lt, g.extras_lt, g.disjoint, g.extra,
    ⟨rfl, ?_⟩, fun a ha => ?_, fun v hv => g.given v (.tail u hv),
    List.nodup_middle.mp g.nodup⟩
  · refine g.represents.congr rfl rfl rfl rfl (fun _ => rfl) fun {x k} hx => ?_
    have hne : x ≠ u.block := by
      rintro rfl
      exact g.not_free huse hx
    exact ⟨hnext x hne, congrFun hprev x⟩
  · show Chain _ ((h.content.setNext (some u.block) h.toBeFreedList).next u.block) T
    rw [next_setNext, update_self]
    refine g.pending.frame fun a ha => update_of_ne ?_ _ _
    rintro rfl
    exact g.block_notMem (List.mem_append_left _ ha)
  · rcases List.mem_cons.mp ha with rfl | ha
    · exact huse.mono (Nat.zero_le _)
    · exact g.waiting a ha

theorem Good.check_nil (g : Good h L [] U) : checkBlocksToBeFreed h = none := by
  have hnone : h.toBeFreedList = none := g.pending
  rw [checkBlocksToBeFreed, hnone]

theorem Good.check_cons (g : Good h L (a :: T) U) :
    checkBlocksToBeFreed h = some ({ h with toBeFreedList := h.content.next a }, a) ∧
      Good { h with toBeFreedList := h.content.next a } L T (⟨userSpace a, 0⟩ :: U) := by
  have hsome : h.toBeFreedList = some a := g.pending.1
  refine ⟨?_, ?_⟩
  · rw [checkBlocksToBeFreed, hsome]
  · refine ⟨g.represents.congr rfl rfl rfl rfl (fun _ => rfl) fun _ => ⟨rfl, rfl⟩, g.noHeld,
      g.kSize,
      g.pages, g.extras, g.pages_lt, g.extras_lt, g.disjoint, g.extra, g.pending.2,
      fun b hb => g.waiting b (.tail a hb), fun v hv => ?_, ?_⟩
    · rcases List.mem_cons.mp hv with rfl | hv
      · refine ⟨Nat.le_add_left _ _, ?_⟩
        rw [Allocation.block, blockOf_userSpace]
        exact g.waiting a List.mem_cons_self
      · exact g.given v hv
    · rw [List.map_cons, Allocation.block, blockOf_userSpace]
      exact List.nodup_middle.mpr g.nodup

/-! ## What users write -/

/-- An address in the memory of a user, or the block it is in. -/
def Within (u : Allocation) (x : Addr) : Prop :=
  x.area = u.ptr.area ∧ u.block.offset ≤ x.offset ∧ x.offset < u.ptr.offset + u.size

instance : Decidable (Within u x) := inferInstanceAs (Decidable (_ ∧ _))

/-- A user writes something. Only the header of the block itself is not in the memory of the
user. -/
def userWrite (h : Heap) (u : Allocation) (x : Addr) (hd : BuddyHeader) (next prev : Option Addr) :
    Heap :=
  { h with
    header := if x = u.block then h.header else update h.header x hd
    content := (h.content.setNext (some x) next).setPrev (some x) prev }

theorem Good.eq_block (g : Good h L T U) (hu : u ∈ U) (hx : Within u x) (hb : L.at x = some b) :
    x = u.block := by
  obtain ⟨harea, hfirst, hlast⟩ := hx
  obtain ⟨hheader, ⟨k, hk, hroom⟩ | ⟨-, hextra⟩⟩ := g.given u hu
  · have hblock : u.block.offset = u.ptr.offset - sizeHeader64 := rfl
    have hin : Inside u.block.offset k x.offset := by
      rw [Inside]
      omega
    have hb' : L u.block.area x.offset = some b := by
      have harea' : x.area = u.block.area := harea
      rw [← harea']
      exact hb
    have hpart := g.represents.partition _ (g.represents.paged hk)
    exact Addr.ext harea (hpart.disjoint hb' hk inside_self hin)
  · have harea' : x.area = u.block.area := harea
    exact absurd (harea' ▸ hextra) (g.disjoint _ (g.represents.paged hb))

theorem Good.eq_block_of_inUse (g : Good h L T U) (hu : u ∈ U) (hx : Within u x)
    (huse : InUse h L x n) : x = u.block := by
  rcases huse with ⟨k, hk, -⟩ | ⟨hoffset, -⟩
  · exact g.eq_block hu hx hk
  · obtain ⟨harea, hfirst, -⟩ := hx
    exact Addr.ext harea (by omega)

theorem Good.write (g : Good h L T U) (hu : u ∈ U) (hx : Within u x) (hd : BuddyHeader)
    (next prev : Option Addr) : Good (userWrite h u x hd next prev) L T U := by
  have hheader : ∀ {y}, (y = x → x = u.block) → (userWrite h u x hd next prev).header y =
      h.header y := by
    intro y hy
    rw [userWrite]
    dsimp only
    split
    · rfl
    next hne =>
      refine update_of_ne (fun heq => hne (hy heq)) _ _
  have hnext : ∀ {y}, y ≠ x → (userWrite h u x hd next prev).content.next y =
      h.content.next y := by
    intro y hy
    rw [userWrite]
    dsimp only
    rw [next_setPrev, next_setNext, update_of_ne hy]
  have hprev : ∀ {y}, y ≠ x → (userWrite h u x hd next prev).content.prev y =
      h.content.prev y := by
    intro y hy
    rw [userWrite]
    dsimp only
    rw [prev_setPrev, update_of_ne hy, prev_setNext]
  refine ⟨?_, g.noHeld, g.kSize, g.pages, g.extras, g.pages_lt, g.extras_lt, g.disjoint,
    fun q hq => ?_, ?_, g.waiting, g.given, g.nodup⟩
  · refine g.represents.congr rfl rfl rfl rfl (fun {y b} hy => ?_) fun {y k} hy => ?_
    · refine hheader fun heq => ?_
      subst heq
      exact g.eq_block hu hx hy
    · have hne : y ≠ x := by
        rintro rfl
        obtain rfl := g.eq_block hu hx hy
        exact g.not_free (g.given u hu).2 hy
      exact ⟨hnext hne, hprev hne⟩
  · rw [hheader fun heq => ?_]
    · exact g.extra q hq
    · subst heq
      exact g.eq_block_of_inUse hu hx (n := 0) (.inr ⟨rfl, hq⟩)
  · refine g.pending.frame fun a ha => hnext ?_
    rintro rfl
    have heq := g.eq_block_of_inUse hu hx (g.waiting a ha)
    subst heq
    have hdisj := (List.nodup_append.mp g.nodup).2.2
    exact hdisj _ ha _ (List.mem_map_of_mem hu) rfl

/-! ## Allocation -/

theorem Good.add (g : Good h L T U) (huse : InUse h L a n)
    (hnew : a ∉ T ++ U.map Allocation.block) : Good h L T (⟨userSpace a, n⟩ :: U) := by
  have hblock : Allocation.block ⟨userSpace a, n⟩ = a := blockOf_userSpace
  refine { g with given := fun v hv => ?_, nodup := ?_ }
  · rcases List.mem_cons.mp hv with rfl | hv
    · rw [hblock]
      exact ⟨Nat.le_add_left _ _, huse⟩
    · exact g.given v hv
  · rw [List.map_cons, hblock]
    exact List.nodup_middle.mpr (List.nodup_cons.mpr ⟨hnew, g.nodup⟩)

theorem Good.setErrno (g : Good h L T U) (e : BuddyErr) : Good { h with errno := e } L T U :=
  { g with represents := g.represents.congr rfl rfl rfl rfl (fun _ => rfl) fun _ => ⟨rfl, rfl⟩ }

theorem Good.reserve (g : Good h L T U) (ha : L.at a = some ⟨k, .free⟩) {sizelog2 : ℕ}
    (hk : k ≤ buddyMaxLog2Size) (hroom : sizeHeader64 + n ≤ 2 ^ min k sizelog2) :
    ∃ L', Good (reserveBlock h sizelog2 a).1 L' T (⟨userSpace a, n⟩ :: U) ∧
      (reserveBlock h sizelog2 a).1.self = h.self ∧
      (reserveBlock h sizelog2 a).1.kSize = h.kSize ∧
      L'.at a = some ⟨min k sizelog2, .reserved⟩ ∧
      (∀ x j, L'.at x = some ⟨j, .reserved⟩ → x = a ∨ L.at x = some ⟨j, .reserved⟩) ∧
      Leaves h L (reserveBlock h sizelog2 a).1 L' ∧
      (6 ≤ sizelog2 → Careful h L (reserveBlock h sizelog2 a).1 L') := by
  obtain ⟨L', r', hheld, ha', hleaves, hareas, hnew, hcareful⟩ :=
    reserveBlock_spec g.represents g.noHeld ha sizelog2 (by omega)
  have g' : Good (reserveBlock h sizelog2 a).1 L' T U := by
    refine g.frame (List.Sublist.refl U) (fun _ _ => rfl) hleaves r' hheld ?_ fun q hq => ?_
    · rw [hareas.pages]
      exact g.pages
    · rw [hareas.fresh]
      rw [hareas.pages] at hq
      exact g.pages_lt q hq
  refine ⟨L', g'.add (.inl ⟨min k sizelog2, ha', hroom⟩) fun hmem => ?_, hleaves.self,
    hleaves.kSize, ha', hnew, hleaves, hcareful⟩
  exact g.not_free (g.inUse hmem) ha

theorem Good.newStdPage (g : Good h L T U) :
    ∃ h' L', newStdPage h true = (h', some ⟨h.fresh, 0⟩) ∧ Good h' L' T U ∧
      L'.at ⟨h.fresh, 0⟩ = some ⟨h'.kSize, .free⟩ ∧ h'.self = h.self ∧ h'.kSize = h.kSize ∧
      Leaves h L h' L' ∧ Keeps L L' ∧ (6 ≤ h.kSize → Careful h L h' L') := by
  have hfresh : h.fresh ∉ h.pages := fun hp => Nat.lt_irrefl _ (g.pages_lt _ hp)
  have r1 := g.represents.newPage hfresh
  have ha1 : (L.addPage h.fresh h.kSize .held).at ⟨h.fresh, 0⟩ = some ⟨h.kSize, .held⟩ := by
    rw [at_addPage, if_pos rfl]
    exact whole_eq_some.mpr ⟨rfl, rfl⟩
  have hbuddy : (L.addPage h.fresh h.kSize .held) h.fresh (buddy 0 h.kSize) ≠
      some ⟨h.kSize, .free⟩ := by
    rw [(r1.partition _ (r1.paged ha1)).buddy_eq_none ha1 (Nat.le_refl _)]
    exact nofun
  have r2 := r1.insert ha1 hbuddy
  have hleaves := (g.represents.leaves_newPage hfresh).trans (r1.leaves_insert ha1)
  have hpages : (insertFreeBlock (newPage h) ⟨h.fresh, 0⟩).pages = h.fresh :: h.pages := by
    rw [insertFreeBlock_eq]
    rfl
  have hfresh' : (insertFreeBlock (newPage h) ⟨h.fresh, 0⟩).fresh = h.fresh + 1 := by
    rw [insertFreeBlock_eq]
    rfl
  have hheld : NoHeld ((L.addPage h.fresh h.kSize .held).set ⟨h.fresh, 0⟩ ⟨h.kSize, .free⟩) := by
    intro x k hx
    rw [at_set, at_addPage] at hx
    split at hx
    · cases hx
    rename_i hne
    split at hx
    next harea => exact hne (Addr.ext harea (whole_eq_some.mp hx).1)
    next => exact g.noHeld x k hx
  have hleaves' : Leaves h L
      { insertFreeBlock (newPage h) ⟨h.fresh, 0⟩ with
        nbStdPages := (insertFreeBlock (newPage h) ⟨h.fresh, 0⟩).nbStdPages + 1 }
      ((L.addPage h.fresh h.kSize .held).set ⟨h.fresh, 0⟩ ⟨h.kSize, .free⟩) :=
    ⟨hleaves.self, hleaves.config, hleaves.kSize, hleaves.toBeFreedList, hleaves.extras,
      hleaves.fresh, hleaves.pages, hleaves.reserved, hleaves.outside⟩
  refine ⟨_, (L.addPage h.fresh h.kSize .held).set ⟨h.fresh, 0⟩ ⟨h.kSize, .free⟩, newStdPage_eq, ?_,
    ?_, hleaves.self, hleaves.kSize, hleaves', fun x k hx => ?_, fun hk => ?_⟩
  · refine g.frame (List.Sublist.refl U) (fun _ _ => rfl) hleaves'
      (r2.congr rfl rfl rfl rfl (fun _ => rfl) fun _ => ⟨rfl, rfl⟩) hheld ?_ fun q hq => ?_
    · rw [hpages]
      exact List.nodup_cons.mpr ⟨hfresh, g.pages⟩
    · rw [hpages] at hq
      rw [hfresh']
      rcases List.mem_cons.mp hq with rfl | hq
      · exact Nat.lt_succ_self _
      · exact Nat.lt_succ_of_lt (g.pages_lt q hq)
  · rw [at_set_self]
    exact congrArg (fun k => some (Block.mk k Role.free)) hleaves.kSize.symm
  · rw [at_set, at_addPage] at hx
    split at hx
    · cases hx
    rename_i hne
    split at hx
    next harea => exact absurd (Addr.ext harea (whole_eq_some.mp hx).1) hne
    next => exact hx
  · have hnew := (g.represents.careful_newPage g.pages_lt hk).trans
      (g.represents.leaves_newPage hfresh) (r1.careful_insert ha1)
    exact hnew.trans hleaves (careful_same rfl rfl id)

theorem Good.newExtra (g : Good h L T U) {hd : BuddyHeader} (hok : ExtraOk h.self hd) (n : ℕ) :
    Good
      { h with
        extras := h.fresh :: h.extras
        fresh := h.fresh + 1
        header := update h.header ⟨h.fresh, 0⟩ hd } L T
      (⟨userSpace ⟨h.fresh, 0⟩, n⟩ :: U) := by
  have hpage : h.fresh ∉ h.pages := fun hp => Nat.lt_irrefl _ (g.pages_lt _ hp)
  have hextra : h.fresh ∉ h.extras := fun hp => Nat.lt_irrefl _ (g.extras_lt _ hp)
  have hheader : ∀ x : Addr, x.area ≠ h.fresh →
      update h.header ⟨h.fresh, 0⟩ hd x = h.header x :=
    fun x hx => update_of_ne (fun heq => hx (congrArg Addr.area heq)) _ _
  -- what is in use is not new
  have huse : ∀ {a n}, InUse h L a n → InUse
      { h with
        extras := h.fresh :: h.extras
        fresh := h.fresh + 1
        header := update h.header ⟨h.fresh, 0⟩ hd } L a n := by
    rintro a n (hk | ⟨hoffset, hmem⟩)
    · exact .inl hk
    · exact .inr ⟨hoffset, List.mem_cons_of_mem _ hmem⟩
  refine Good.add ⟨?_, g.noHeld, g.kSize, g.pages, List.nodup_cons.mpr ⟨hextra, g.extras⟩,
    fun q hq => Nat.lt_succ_of_lt (g.pages_lt q hq), fun q hq => ?_, fun q hq hmem => ?_,
    fun q hq => ?_, g.pending, fun a ha => huse (g.waiting a ha),
    fun u hu => ⟨(g.given u hu).1, huse (g.given u hu).2⟩, g.nodup⟩
    (.inr ⟨rfl, List.mem_cons_self⟩) fun hmem => ?_
  · refine g.represents.congr rfl rfl rfl rfl (fun {x b} hx => hheader x fun harea => ?_)
      fun _ => ⟨rfl, rfl⟩
    exact hpage (harea ▸ g.represents.paged hx)
  · rcases List.mem_cons.mp hq with rfl | hq
    · exact Nat.lt_succ_self _
    · exact Nat.lt_succ_of_lt (g.extras_lt q hq)
  · rcases List.mem_cons.mp hmem with rfl | hmem
    · exact hpage hq
    · exact g.disjoint q hq hmem
  · rcases List.mem_cons.mp hq with rfl | hq
    · show ExtraOk h.self (update h.header ⟨h.fresh, 0⟩ hd ⟨h.fresh, 0⟩)
      rw [update_self]
      exact hok
    · show ExtraOk h.self (update h.header ⟨h.fresh, 0⟩ hd ⟨q, 0⟩)
      rw [hheader ⟨q, 0⟩ fun heq => hextra (heq ▸ hq)]
      exact g.extra q hq
  · rcases g.inUse hmem with ⟨k, hk, -⟩ | ⟨-, hold⟩
    · exact hpage (g.represents.paged hk)
    · exact hextra hold

theorem Good.spares_newExtra (g : Good h L T U) {hd : BuddyHeader} : Spares h L
    { h with
      extras := h.fresh :: h.extras
      fresh := h.fresh + 1
      header := update h.header ⟨h.fresh, 0⟩ hd } := by
  have hsame : ∀ {y : Addr}, y.area < h.fresh →
      update h.header ⟨h.fresh, 0⟩ hd y = h.header y := by
    rintro y hy
    apply update_of_ne
    rintro rfl
    exact Nat.lt_irrefl _ hy
  refine ⟨fun {a k} ha y hy => ⟨hsame ?_, rfl, rfl⟩, fun hy _ => ⟨hsame hy, rfl, rfl⟩⟩
  obtain ⟨harea, -⟩ := Classical.not_imp.mp hy
  rw [harea]
  exact g.pages_lt _ (g.represents.paged ha)

theorem firstList_spec (memDesc : ℕ → Option Addr) : ∀ n i : ℕ,
    i ≤ firstList memDesc n i ∧ (firstList memDesc n i < i + n →
      ∃ a, memDesc (firstList memDesc n i) = some a) := by
  intro n
  induction n with
  | zero =>
    intro i
    exact ⟨Nat.le_refl i, fun hlt => absurd hlt (Nat.lt_irrefl i)⟩
  | succ n ih =>
    intro i
    rw [firstList]
    split
    next =>
      obtain ⟨hle, hfound⟩ := ih (i + 1)
      exact ⟨by omega, fun hlt => hfound (by omega)⟩
    next hsome => exact ⟨Nat.le_refl i, fun _ => Option.ne_none_iff_exists'.mp hsome⟩

theorem six_le_of_room (hroom : ¬ 2 ^ k < sizeHeader64 + minAllocSize) : 6 ≤ k :=
  (Nat.pow_le_pow_iff_right (by decide : 1 < 2)).mp (Nat.le_of_not_lt hroom)

/-- What users have after a call of `BuddyMalloc`. -/
def give (res : Option Addr) (n : ℕ) (U : List Allocation) : List Allocation :=
  match res with
  | some ptr => ⟨ptr, n⟩ :: U
  | none => U

/-- **`BuddyMalloc`**, for any size: what it gives to the user is in use, with as much room as its
block has. -/
theorem Good.malloc_of_room (g : Good h L T U) {size : UInt64} {env : MallocEnv} {res : Option Addr}
    (heq : buddyMalloc h size env = some (h', res))
    (hroom : ∀ ptr, res = some ptr → sizeHeader64 + n ≤ 2 ^ sizeLog2 size)
    (hpage : ¬ intShift (sizeLog2 size) > 2 ^ h.kSize → h.config.onDemandAlloc = true →
      sizeHeader64 + n ≤ 2 ^ h.kSize) :
    ∃ L', Good h' L' T (give res n U) ∧ h'.self = h.self ∧ h'.kSize = h.kSize ∧
      (∀ x j, L'.at x = some ⟨j, .reserved⟩ →
        (∃ ptr, res = some ptr ∧ x = blockOf ptr) ∨ L.at x = some ⟨j, .reserved⟩) ∧
      (∀ ptr, res = some ptr → ¬ intShift (sizeLog2 size) > 2 ^ h.kSize →
        ∃ k ≤ sizeLog2 size, L'.at (blockOf ptr) = some ⟨k, .reserved⟩ ∧
          sizeHeader64 + n ≤ 2 ^ k) ∧
      (6 ≤ h.kSize → Careful h L h' L') ∧
      (∀ p ∈ h'.extras, p ∈ h.extras ∨ intShift (sizeLog2 size) > 2 ^ h.kSize ∧
        res = some (userSpace ⟨p, 0⟩)) ∧
      (∀ ptr, res = some ptr → intShift (sizeLog2 size) > 2 ^ h.kSize →
        ptr = userSpace ⟨ptr.area, 0⟩ ∧
          (h'.header (blockOf ptr)).extraInfo = size + sizeHeader64.toUInt64) := by
  rw [buddyMalloc] at heq
  split at heq
  · cases heq
    exact ⟨L, g, rfl, rfl, fun _ _ => Or.inr, nofun, fun _ => Careful.refl _ _, fun _ => Or.inl,
      nofun⟩
  dsimp only at heq
  split at heq
  next hlarge =>
    -- an extra block
    split at heq
    next hallowed =>
      rw [allocLargeBlock, if_neg (by rw [hallowed]; exact Bool.noConfusion)] at heq
      split at heq
      · cases heq
        exact ⟨L, g.setErrno .malloc, rfl, rfl, fun _ _ => Or.inr, nofun,
          fun _ => careful_same rfl rfl id, fun _ => Or.inl, nofun⟩
      cases heq
      refine ⟨L, g.newExtra ⟨rfl, rfl, rfl, rfl⟩ n, rfl, rfl, fun _ _ => Or.inr,
        fun _ _ hsmall => absurd hlarge hsmall, fun _ hL => ⟨hL, ?_⟩, fun p hp => ?_,
        fun ptr hptr _ => ?_⟩
      · exact g.spares_newExtra
      · rcases List.mem_cons.mp hp with rfl | hp
        · exact .inr ⟨hlarge, rfl⟩
        · exact .inl hp
      · cases hptr
        refine ⟨rfl, ?_⟩
        rw [blockOf_userSpace]
        dsimp only
        rw [update_self]
    next =>
      cases heq
      exact ⟨L, g.setErrno .outofmem, rfl, rfl, fun _ _ => Or.inr, nofun,
        fun _ => careful_same rfl rfl id, fun _ => Or.inl, nofun⟩
  next hsmall =>
    obtain ⟨hle, -⟩ := firstList_spec h.memDesc (buddyMaxLog2Size - sizeLog2 size) (sizeLog2 size)
    generalize firstList h.memDesc _ _ = i at hle heq
    split at heq
    next hlt =>
      split at heq
      next a ha =>
        rw [takeBlock] at heq
        split at heq
        · cases heq
        next hmin =>
        cases heq
        have hfits : sizeHeader64 + n ≤ 2 ^ min i (sizeLog2 size) := by
          rw [Nat.min_eq_right hle]
          exact hroom _ rfl
        obtain ⟨L', g', hself, hkSize, ha', hnew, hleaves, hcareful⟩ :=
          g.reserve (g.represents.memDesc ha) (Nat.le_of_lt hlt) hfits
        refine ⟨L', g', hself, hkSize, fun x j hx => (hnew x j hx).imp_left fun hxa => ?_, ?_,
          fun _ => hcareful (six_le_of_room hmin), fun p hp => Or.inl (hleaves.extras ▸ hp),
          fun _ _ hlarge => absurd hlarge hsmall⟩
        · exact ⟨_, rfl, hxa.trans blockOf_userSpace.symm⟩
        · rintro _ hptr -
          cases hptr
          exact ⟨_, Nat.min_le_right _ _, blockOf_userSpace.symm ▸ ha', hfits⟩
      next => cases heq
    next =>
      split at heq
      next hdemand =>
        -- a new page
        cases halloc : env.page with
        | false =>
          rw [halloc] at heq
          cases heq
          exact ⟨L, g.setErrno .malloc, rfl, rfl, fun _ _ => Or.inr, nofun,
            fun _ => careful_same rfl rfl id, fun _ => Or.inl, nofun⟩
        | true =>
          obtain ⟨h1, L1, heq1, g1, ha, hself, hkSize, hleaves1, hkeeps, hcareful1⟩ :=
            g.newStdPage
          have hk : h1.kSize ≤ buddyMaxLog2Size := Nat.le_trans g1.kSize (by decide)
          rw [halloc, heq1] at heq
          dsimp only at heq
          rw [takeBlock] at heq
          split at heq
          · cases heq
          next hmin =>
          cases heq
          have hroom1 : sizeHeader64 + n ≤ 2 ^ min h1.kSize (sizeLog2 size) := by
            rcases Nat.le_total h1.kSize (sizeLog2 size) with hmin | hmin
            · rw [Nat.min_eq_left hmin, hkSize]
              exact hpage hsmall hdemand
            · rw [Nat.min_eq_right hmin]
              exact hroom _ rfl
          obtain ⟨L', g', hself', hkSize', ha', hnew, hleaves, hcareful⟩ :=
            g1.reserve ha hk hroom1
          refine ⟨L', g', hself'.trans hself, hkSize'.trans hkSize, fun x j hx => ?_, ?_,
            fun hK => (hcareful1 hK).trans hleaves1 (hcareful (six_le_of_room hmin)),
            fun p hp => Or.inl (hleaves1.extras ▸ hleaves.extras ▸ hp),
            fun _ _ hlarge => absurd hlarge hsmall⟩
          · rcases hnew x j hx with hxa | hx
            · exact .inl ⟨_, rfl, hxa.trans blockOf_userSpace.symm⟩
            · exact .inr (hkeeps x j hx)
          · rintro _ hptr -
            cases hptr
            exact ⟨_, Nat.min_le_right _ _, blockOf_userSpace.symm ▸ ha', hroom1⟩
      next =>
        cases heq
        exact ⟨L, g.setErrno .outofmem, rfl, rfl, fun _ _ => Or.inr, nofun,
          fun _ => careful_same rfl rfl id, fun _ => Or.inl, nofun⟩

theorem buddyMalloc_returns {size : UInt64} (env : MallocEnv)
    (hmin : sizeHeader64 + minAllocSize ≤ 2 ^ sizeLog2 size)
    (hbound : sizeLog2 size < buddyMaxLog2Size) :
    ∃ h' res, buddyMalloc h size env = some (h', res) := by
  rw [buddyMalloc]
  split
  · exact ⟨_, _, rfl⟩
  dsimp only
  split
  · split
    · exact ⟨_, _, rfl⟩
    · exact ⟨_, _, rfl⟩
  have htake : ∀ h a, ∃ h' res, takeBlock h (sizeLog2 size) a = some (h', res) := by
    intro h a
    rw [takeBlock, if_neg (Nat.not_lt.mpr hmin)]
    exact ⟨_, _, rfl⟩
  obtain ⟨-, hfound⟩ := firstList_spec h.memDesc (buddyMaxLog2Size - sizeLog2 size) (sizeLog2 size)
  generalize firstList h.memDesc _ _ = i at hfound ⊢
  split
  next hlt =>
    obtain ⟨a, ha⟩ := hfound (by omega)
    rw [ha]
    exact htake _ _
  next =>
    split
    · split
      · exact htake _ _
      · exact ⟨_, _, rfl⟩
    · exact ⟨_, _, rfl⟩

theorem Good.malloc (g : Good h L T U) {size : UInt64} (hsized : Sized h.config h.kSize size)
    (env : MallocEnv) :
    ∃ h' res L', buddyMalloc h size env = some (h', res) ∧
      Good h' L' T (give res size.toNat U) ∧ h'.self = h.self := by
  have hlog := (hsized.cases g.kSize).1
  have hle := hlog.le
  rw [totalSize] at hle
  obtain ⟨h', res, heq⟩ := buddyMalloc_returns (h := h) env (by omega) hlog.bound
  obtain ⟨hroom, hpage⟩ := hsized.room g.kSize
  obtain ⟨L', g', hself, -, -⟩ := g.malloc_of_room heq (fun _ _ => hroom) hpage
  exact ⟨h', res, L', heq, g', hself⟩

/-! ## Start -/

theorem good_buddyInit {self : ℕ} {config : BuddyParameter} {header : Addr → BuddyHeader}
    {content : Links Addr} {page : Bool}
    (hinit : buddyInit self config header content page = some h) (hk : h.kSize ≤ 30) :
    ∃ L, Good h L [] [] ∧ h.self = self ∧ 6 ≤ h.kSize ∧
      (∀ x k, L.at x ≠ some ⟨k, .reserved⟩) ∧ Roomy L ∧ h.extras = [] := by
  rw [buddyInit] at hinit
  split at hinit
  · cases hinit
  next hlarge =>
  dsimp only at hinit
  split at hinit
  · cases hinit
  next hlog =>
  -- a page is larger than the smallest block
  have hroom : 6 ≤ log2Ceil config.memoryAreaSize := by
    by_contra hlt
    have hle := log2Ceil_le hlog
    have hpow : 2 ^ log2Ceil config.memoryAreaSize ≤ 2 ^ 5 :=
      Nat.pow_le_pow_right (by decide) (by omega)
    rw [UInt64.le_iff_toNat_le] at hlarge
    exact hlarge (Nat.le_trans hle (Nat.le_trans hpow (by decide)))
  -- before the first page there are no blocks
  have hempty : ∀ m ≤ 30, Good
      ⟨self, config, m, fun _ => none, none, 0, 0, .success, header, content,
      [], [], 0⟩ (fun _ _ => none) [] [] := by
    intro m hm
    refine ⟨⟨nofun, fun _ => nofun, nofun, nofun, fun k => ⟨[], ?_, List.nodup_nil, fun a => ?_⟩⟩,
      fun _ _ => nofun, hm, List.nodup_nil, List.nodup_nil, nofun, nofun, nofun, nofun, rfl, nofun,
      nofun, List.nodup_nil⟩
    · exact isList_nil.mpr rfl
    · exact iff_of_false nofun nofun
  cases hinit
  cases page with
  | false => exact ⟨_, hempty _ hk, rfl, hroom, fun _ _ => nofun, fun _ _ => nofun, rfl⟩
  | true =>
    have hsize : log2Ceil config.memoryAreaSize ≤ 30 := by
      rw [newStdPage_eq, insertFreeBlock_eq] at hk
      exact hk
    obtain ⟨h1, L1, heq, g1, -, hself, hkSize, hleaves, hkeeps, hcareful⟩ :=
      (hempty _ hsize).newStdPage
    rw [heq]
    refine ⟨L1, g1, hself, hkSize ▸ hroom, fun x k hx => ?_, ?_, hleaves.extras⟩
    · cases hkeeps x k hx
    · exact (hcareful hroom fun _ _ => nofun).1

end

end CloudNfs.BuddyMalloc
