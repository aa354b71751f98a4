import CloudNfs.BuddyMalloc

/-!
# The heap of the buddy allocator represents a layout of blocks

A layout says for every page which blocks there are, and whether they are free, reserved, or held by
the operation that is just being made: a block that was taken off its list, or is about to be put
on one. The headers in memory agree with the layout, and the list `MemDesc[k]` has exactly the free
blocks of `2 ^ k` bytes.
-/

namespace CloudNfs.BuddyMalloc

open Function (update update_self update_of_ne)

open BuddyBlocks DoublyLinked

/-! ## Layouts -/

inductive Role where
  | free
  | reserved
  | held
  deriving DecidableEq

abbrev Layouts := ℕ → Layout Role

def Layouts.at (L : Layouts) (a : Addr) : Option (Block Role) := L a.area a.offset

def Layouts.set (L : Layouts) (a : Addr) (b : Block Role) : Layouts :=
  update L a.area (update (L a.area) a.offset (some b))

structure HeaderOk (K area owner : ℕ) (b : Block Role) (hd : BuddyHeader) : Prop where
  basePtr : hd.basePtr = some area
  baseKSize : hd.baseKSize = K
  kSize : hd.kSize = b.k
  free : b.status ≠ .reserved → hd.status = .freeBlock
  reserved : b.status = .reserved →
    hd.status = .reservedBlock ∧ hd.magicNumber = .used ∧ hd.ownerThread = owner

/-- A list has exactly the free blocks of its size. -/
def ListOk (h : Heap) (L : Layouts) (k : ℕ) : Prop :=
  ∃ l, IsList h.content (h.memDesc k) l ∧ l.Nodup ∧ ∀ a, a ∈ l ↔ L.at a = some ⟨k, .free⟩

/-- The heap represents layouts of its pages. -/
structure Represents (h : Heap) (L : Layouts) : Prop where
  partition : ∀ p ∈ h.pages, Partition h.kSize (L p)
  unpaired : ∀ p, Unpaired .free (L p)
  paged : ∀ {a b}, L.at a = some b → a.area ∈ h.pages
  header : ∀ {a b}, L.at a = some b → HeaderOk h.kSize a.area h.self b (h.header a)
  lists : ∀ k, ListOk h L k

structure Leaves (h : Heap) (L : Layouts) (h' : Heap) (L' : Layouts) : Prop where
  self : h'.self = h.self
  config : h'.config = h.config
  kSize : h'.kSize = h.kSize
  toBeFreedList : h'.toBeFreedList = h.toBeFreedList
  extras : h'.extras = h.extras
  fresh : h.fresh ≤ h'.fresh
  pages : ∀ p < h.fresh, p ∉ h.pages → p ∉ h'.pages
  reserved : ∀ {a k}, L.at a = some ⟨k, .reserved⟩ → L'.at a = some ⟨k, .reserved⟩ ∧
    h'.header a = h.header a ∧ h'.content.next a = h.content.next a
  outside : ∀ {a : Addr}, a.area < h.fresh → a.area ∉ h.pages →
    h'.header a = h.header a ∧ h'.content.next a = h.content.next a

structure SameAt (h h' : Heap) (y : Addr) : Prop where
  header : h'.header y = h.header y
  next : h'.content.next y = h.content.next y
  prev : h'.content.prev y = h.content.prev y

/-- A header at `y`, with links, has no byte in a block. -/
def Apart (a : Addr) (k : ℕ) (y : Addr) : Prop :=
  y.area = a.area →
    y.offset + (sizeHeader64 + minAllocSize) ≤ a.offset ∨ a.offset + 2 ^ k ≤ y.offset

/-- No byte of a reserved block is written, and none outside of pages. -/
structure Spares (h : Heap) (L : Layouts) (h' : Heap) : Prop where
  reserved : ∀ {a k}, L.at a = some ⟨k, .reserved⟩ → ∀ {y}, ¬ Apart a k y → SameAt h h' y
  outside : ∀ {y : Addr}, y.area < h.fresh → y.area ∉ h.pages → SameAt h h' y

/-- Every block has room for its header and the links. -/
def Roomy (L : Layouts) : Prop := ∀ x b, L.at x = some b → 6 ≤ b.k

/-- With blocks that have room for this, an operation writes no byte of a reserved block. -/
def Careful (h : Heap) (L : Layouts) (h' : Heap) (L' : Layouts) : Prop :=
  Roomy L → Roomy L' ∧ Spares h L h'

/-- No block becomes reserved. -/
def Keeps (L L' : Layouts) : Prop :=
  ∀ x k, L'.at x = some ⟨k, .reserved⟩ → L.at x = some ⟨k, .reserved⟩

section

variable {h h' h'' : Heap} {L L' L'' : Layouts} {a a' : Addr} {b b' : Block Role} {k p : ℕ}

theorem Keeps.refl (L : Layouts) : Keeps L L := fun _ _ hx => hx

theorem Keeps.trans (h1 : Keeps L L') (h2 : Keeps L' L'') : Keeps L L'' :=
  fun x k hx => h1 x k (h2 x k hx)

theorem Leaves.refl (h : Heap) (L : Layouts) : Leaves h L h L :=
  ⟨rfl, rfl, rfl, rfl, rfl, le_refl _, fun _ _ hp => hp, fun ha => ⟨ha, rfl, rfl⟩,
    fun _ _ => ⟨rfl, rfl⟩⟩

theorem Leaves.trans (h1 : Leaves h L h' L') (h2 : Leaves h' L' h'' L'') : Leaves h L h'' L'' := by
  refine ⟨h2.self.trans h1.self, h2.config.trans h1.config, h2.kSize.trans h1.kSize,
    h2.toBeFreedList.trans h1.toBeFreedList, h2.extras.trans h1.extras,
    Nat.le_trans h1.fresh h2.fresh, fun p hp hnot => ?_, fun ha => ?_, fun hp hnot => ?_⟩
  · exact h2.pages p (Nat.lt_of_lt_of_le hp h1.fresh) (h1.pages p hp hnot)
  · obtain ⟨ha1, hheader1, hnext1⟩ := h1.reserved ha
    obtain ⟨ha2, hheader2, hnext2⟩ := h2.reserved ha1
    exact ⟨ha2, hheader2.trans hheader1, hnext2.trans hnext1⟩
  · obtain ⟨hheader1, hnext1⟩ := h1.outside hp hnot
    obtain ⟨hheader2, hnext2⟩ :=
      h2.outside (Nat.lt_of_lt_of_le hp h1.fresh) (h1.pages _ hp hnot)
    exact ⟨hheader2.trans hheader1, hnext2.trans hnext1⟩

theorem SameAt.refl (h : Heap) (y : Addr) : SameAt h h y := ⟨rfl, rfl, rfl⟩

theorem SameAt.trans {y : Addr} (h1 : SameAt h h' y) (h2 : SameAt h' h'' y) : SameAt h h'' y :=
  ⟨h2.header.trans h1.header, h2.next.trans h1.next, h2.prev.trans h1.prev⟩

theorem Spares.refl (h : Heap) (L : Layouts) : Spares h L h :=
  ⟨fun _ _ _ => .refl h _, fun _ _ => .refl h _⟩

theorem Spares.trans (h1 : Spares h L h') (hleaves : Leaves h L h' L') (h2 : Spares h' L' h'') :
    Spares h L h'' := by
  refine ⟨fun ha y hy => ?_, fun hy hnot => ?_⟩
  · exact (h1.reserved ha hy).trans (h2.reserved (hleaves.reserved ha).1 hy)
  · refine (h1.outside hy hnot).trans (h2.outside ?_ (hleaves.pages _ hy hnot))
    exact Nat.lt_of_lt_of_le hy hleaves.fresh

theorem Careful.refl (h : Heap) (L : Layouts) : Careful h L h L := fun hL => ⟨hL, .refl h L⟩

theorem Careful.trans (h1 : Careful h L h' L') (hleaves : Leaves h L h' L')
    (h2 : Careful h' L' h'' L'') : Careful h L h'' L'' := by
  intro hL
  obtain ⟨hL', hspares⟩ := h1 hL
  obtain ⟨hL'', hspares'⟩ := h2 hL'
  exact ⟨hL'', hspares.trans hleaves hspares'⟩

@[simp] theorem at_set_self : (L.set a b).at a = some b := by
  rw [Layouts.at, Layouts.set, update_self, update_self]

theorem at_set_of_ne (hne : a' ≠ a) : (L.set a b).at a' = L.at a' := by
  rw [Layouts.at, Layouts.set, Layouts.at]
  by_cases harea : a'.area = a.area
  · have hoffset : a'.offset ≠ a.offset := fun heq => hne (by cases a; cases a'; simp_all)
    rw [harea, update_self, update_of_ne hoffset]
  · rw [update_of_ne harea]

theorem at_set : (L.set a b).at a' = if a' = a then some b else L.at a' := by
  by_cases ha : a' = a
  · subst ha
    rw [if_pos rfl, at_set_self]
  · rw [if_neg ha, at_set_of_ne ha]

theorem set_set : (L.set a b).set a b' = L.set a b' := by
  rw [Layouts.set, Layouts.set, update_self, Function.update_idem, Function.update_idem,
    Layouts.set]

theorem set_page_self : (L.set a b) a.area = update (L a.area) a.offset (some b) :=
  update_self _ _ _

theorem set_page_of_ne (hp : p ≠ a.area) : (L.set a b) p = L p := update_of_ne hp _ _

theorem Represents.getBuddyBlock (r : Represents h L) (ha : L.at a = some b) :
    getBuddyBlock h a = ⟨a.area, buddy a.offset b.k⟩ := by
  have hok := r.header ha
  rw [BuddyMalloc.getBuddyBlock, hok.basePtr, hok.kSize]
  rfl

theorem Represents.aligned (r : Represents h L) (ha : L.at a = some b) : 2 ^ b.k ∣ a.offset :=
  (r.partition _ (r.paged ha)).aligned ha

theorem Represents.isPage (r : Represents h L) (ha : L.at a = some b) :
    isPage h a = true ↔ b.k = h.kSize := by
  have hok := r.header ha
  rw [BuddyMalloc.isPage, decide_eq_true_iff, hok.basePtr, hok.baseKSize, hok.kSize]
  constructor
  · exact fun hpage => hpage.2.2.symm
  · intro hk
    exact ⟨rfl, (r.partition _ (r.paged ha)).offset_eq_zero ha hk, hk.symm⟩

/-! ## Lists -/

theorem insertFreeBlock_eq (h : Heap) (a : Addr) : insertFreeBlock h a =
    { h with
      memDesc := update h.memDesc (h.header a).kSize (some a)
      content := ((h.content.setNext (some a) (h.memDesc (h.header a).kSize)).setPrev (some a)
        none).setPrev (h.memDesc (h.header a).kSize) (some a) } := by
  rw [insertFreeBlock]
  cases h.memDesc (h.header a).kSize <;> rfl

theorem removeFreeBlock_eq (h : Heap) (a : Addr) : removeFreeBlock h a =
    { h with
      memDesc := if h.content.prev a = none then
          update h.memDesc (h.header a).kSize (h.content.next a)
        else h.memDesc
      content := (((h.content.setNext (h.content.prev a) (h.content.next a)).setPrev
        (h.content.next a) (h.content.prev a)).setPrev (some a) none).setNext (some a) none } := by
  rw [removeFreeBlock]
  cases h.content.prev a <;> cases h.content.next a <;> rfl

theorem Represents.memDesc (r : Represents h L) (ha : h.memDesc k = some a) :
    L.at a = some ⟨k, .free⟩ := by
  obtain ⟨l, hl, -, hmem⟩ := r.lists k
  rw [hl.head] at ha
  exact (hmem a).mp (List.mem_of_mem_head? ha)

theorem Represents.neighbours (r : Represents h L) (ha : L.at a = some ⟨k, .free⟩) :
    (∀ x, h.content.next a = some x → L.at x = some ⟨k, .free⟩) ∧
      ∀ x, h.content.prev a = some x → L.at x = some ⟨k, .free⟩ := by
  obtain ⟨l, hl, -, hmem⟩ := r.lists k
  have hal := (hmem a).mpr ha
  constructor
  · intro x hx
    rcases Segment.next_mem hl hal with hnone | ⟨y, hy, hnext⟩
    · rw [hnone] at hx
      cases hx
    · cases hx.symm.trans hnext
      exact (hmem x).mp (List.mem_of_mem_tail hy)
  · intro x hx
    rcases Segment.prev_mem hl hal with hnone | ⟨y, hy, hprev⟩
    · rw [hnone] at hx
      cases hx
    · cases hx.symm.trans hprev
      exact (hmem x).mp hy

variable {s s' : Role}

theorem Represents.partition_set (r : Represents h L) (ha : L.at a = some ⟨k, s⟩) :
    ∀ p ∈ h.pages, Partition h.kSize ((L.set a ⟨k, s'⟩) p) := by
  intro p hp
  by_cases harea : p = a.area
  · subst harea
    rw [set_page_self]
    exact (r.partition _ hp).setStatus ha
  · rw [set_page_of_ne harea]
    exact r.partition p hp

theorem Represents.paged_set (r : Represents h L) (ha : L.at a = some ⟨k, s⟩)
    (hx : (L.set a ⟨k, s'⟩).at a' = some b) : a'.area ∈ h.pages := by
  rw [at_set] at hx
  split at hx
  next heq =>
    rw [heq]
    exact r.paged ha
  next => exact r.paged hx

theorem Represents.header_set (r : Represents h L) (ha : L.at a = some ⟨k, s⟩)
    (hx : (L.set a ⟨k, s'⟩).at a' = some b) (hs : s ≠ .reserved) (hs' : s' ≠ .reserved) :
    HeaderOk h.kSize a'.area h.self b (h.header a') := by
  rw [at_set] at hx
  split at hx
  next heq =>
    subst heq
    cases hx
    have hok := r.header ha
    exact ⟨hok.basePtr, hok.baseKSize, hok.kSize, fun _ => hok.free hs, fun heq => absurd heq hs'⟩
  next => exact r.header hx

theorem Represents.spares (r : Represents h L) (hwritten : ∀ y, ¬ SameAt h h' y →
    ∃ x b, L.at x = some b ∧ b.status ≠ .reserved ∧ y.area = x.area ∧ x.offset ≤ y.offset ∧
      y.offset + (sizeHeader64 + minAllocSize) ≤ x.offset + 2 ^ b.k) : Spares h L h' := by
  refine ⟨fun {a k} ha y hy => ?_, fun {y} _ hnot => ?_⟩
  · by_contra hsame
    obtain ⟨x, b, hx, hs, harea, hfirst, hlast⟩ := hwritten y hsame
    refine hy fun harea' => ?_
    have hx' : L a.area x.offset = some b := by
      rw [← harea', harea]
      exact hx
    have hpart := r.partition _ (r.paged ha)
    have hpos := Nat.two_pow_pos k
    have hpos' := Nat.two_pow_pos b.k
    by_contra hnot
    -- otherwise the two blocks have a byte in common
    have hin : Inside x.offset b.k (max x.offset a.offset) := by
      rw [Inside]
      omega
    have hin' : Inside a.offset k (max x.offset a.offset) := by
      rw [Inside]
      omega
    have heq := hpart.disjoint hx' ha hin hin'
    rw [heq] at hx'
    rw [Option.some.inj (hx'.symm.trans ha)] at hs
    exact hs rfl
  · by_contra hsame
    obtain ⟨x, b, hx, -, harea, -, -⟩ := hwritten y hsame
    exact hnot (harea ▸ r.paged hx)

theorem roomy_set (hL : Roomy L) (ha : L.at a = some ⟨k, s⟩) : Roomy (L.set a ⟨k, s'⟩) := by
  intro x b hx
  rw [at_set] at hx
  split at hx
  · cases hx
    exact (hL a ⟨k, s⟩ ha :)
  · exact hL x b hx

theorem Roomy.written (hL : Roomy L) {y : Addr} (hy : L.at y = some ⟨k, s⟩) (hs : s ≠ .reserved) :
    ∃ x b, L.at x = some b ∧ b.status ≠ .reserved ∧ y.area = x.area ∧ x.offset ≤ y.offset ∧
      y.offset + (sizeHeader64 + minAllocSize) ≤ x.offset + 2 ^ b.k := by
  refine ⟨y, _, hy, hs, rfl, Nat.le_refl _, ?_⟩
  have hpow : 2 ^ 6 ≤ 2 ^ k := Nat.pow_le_pow_right (by decide) (hL y _ hy)
  exact Nat.add_le_add_left hpow _

theorem Represents.insert (r : Represents h L) (ha : L.at a = some ⟨k, .held⟩)
    (hbuddy : L a.area (buddy a.offset k) ≠ some ⟨k, .free⟩) :
    Represents (insertFreeBlock h a) (L.set a ⟨k, .free⟩) := by
  have hk : (h.header a).kSize = k := (r.header ha).kSize
  rw [insertFreeBlock_eq, hk]
  refine ⟨r.partition_set ha, fun p => ?_, fun hx => r.paged_set ha hx,
    fun hx => r.header_set ha hx nofun nofun, fun j => ?_⟩
  · by_cases harea : p = a.area
    · subst harea
      rw [set_page_self]
      exact (r.unpaired _).insert (buddy_ne (r.aligned ha)) hbuddy
    · rw [set_page_of_ne harea]
      exact r.unpaired p
  · obtain ⟨l, hl, hnodup, hmem⟩ := r.lists j
    have hal : a ∉ l := fun hal => by cases ha.symm.trans ((hmem a).mp hal)
    by_cases hj : j = k
    · subst hj
      refine ⟨a :: l, ?_, List.nodup_cons.mpr ⟨hal, hnodup⟩, fun x => ?_⟩
      · dsimp only
        rw [update_self]
        have hfirst : h.memDesc j ≠ some a := by
          intro hfirst
          cases ha.symm.trans (r.memDesc hfirst)
        refine hl.push hnodup ⟨?_, ?_⟩ fun x hx => ?_
        · simp
        · rw [prev_setPrev_apply, if_neg hfirst]
          simp
        · have hxa : x ≠ a := by
            rintro rfl
            exact hal hx
          simp [prev_setPrev_apply, update_of_ne hxa, Ne.symm hxa]
      · rw [List.mem_cons, hmem x, at_set]
        by_cases hx : x = a
        · simp [hx]
        · simp [hx]
    · refine ⟨l, ?_, hnodup, fun x => ?_⟩
      · dsimp only
        rw [update_of_ne hj]
        refine hl.frame fun x hx => ?_
        have hfree := (hmem x).mp hx
        have hxa : x ≠ a := by
          rintro rfl
          exact hal hx
        have hfirst : h.memDesc k ≠ some x := by
          intro hfirst
          cases hfree.symm.trans (r.memDesc hfirst)
          exact hj rfl
        rw [prev_setPrev_apply, if_neg hfirst]
        simp [update_of_ne hxa]
      · rw [hmem x, at_set]
        by_cases hx : x = a
        · subst hx
          rw [if_pos rfl, ha]
          exact iff_of_false nofun fun heq => hj (congrArg Block.k (Option.some.inj heq)).symm
        · rw [if_neg hx]

theorem Represents.remove (r : Represents h L) (ha : L.at a = some ⟨k, .free⟩) :
    Represents (removeFreeBlock h a) (L.set a ⟨k, .held⟩) := by
  have hk : (h.header a).kSize = k := (r.header ha).kSize
  rw [removeFreeBlock_eq, hk]
  refine ⟨r.partition_set ha, fun p => ?_, fun hx => r.paged_set ha hx,
    fun hx => r.header_set ha hx nofun nofun, fun j => ?_⟩
  · by_cases harea : p = a.area
    · subst harea
      rw [set_page_self]
      refine (r.unpaired a.area).mono fun o j ho => ?_
      by_cases hoffset : o = a.offset
      · subst hoffset
        rw [update_self] at ho
        cases ho
      · rw [update_of_ne hoffset] at ho
        exact ho
    · rw [set_page_of_ne harea]
      exact r.unpaired p
  · obtain ⟨l, hl, hnodup, hmem⟩ := r.lists j
    obtain ⟨hnext, hprev⟩ := r.neighbours ha
    by_cases hj : j = k
    · subst hj
      obtain ⟨l1, l2, rfl⟩ := List.append_of_mem ((hmem a).mpr ha)
      have hal : a ∉ l1 ++ l2 := (List.nodup_middle.mp hnodup).notMem
      refine ⟨l1 ++ l2, ?_, (List.nodup_middle.mp hnodup).of_cons, fun x => ?_⟩
      · -- the block before it is missing exactly when it is the first one
        have hhead : h.content.prev a = none ↔ h.memDesc j = some a := by
          rw [hl.neighbours.2, hl.head]
          cases l1 with
          | nil => simp
          | cons c l1 =>
            have hca : c ≠ a := by
              rintro rfl
              exact hal (List.mem_append_left _ (.head _))
            simp [hca]
        have hdesc : (if h.content.prev a = none then update h.memDesc j
              (h.content.next a) else h.memDesc) j =
            if h.memDesc j = some a then h.content.next a else h.memDesc j := by
          by_cases hnone : h.content.prev a = none
          · rw [if_pos hnone, if_pos (hhead.mp hnone), update_self]
          · rw [if_neg hnone, if_neg fun heq => hnone (hhead.mpr heq)]
        dsimp only
        rw [hdesc]
        refine hl.unlink hnodup fun x hx => ?_
        have hxa : some a ≠ some x := by
          rintro ⟨⟩
          exact hal hx
        rw [next_setNext_apply, if_neg hxa, prev_setNext, prev_setPrev_apply, if_neg hxa,
          next_setPrev, next_setPrev, prev_setPrev_apply, prev_setPrev_apply, prev_setNext]
        exact ⟨rfl, rfl⟩
      · have hiff := hmem x
        rw [at_set]
        by_cases hx : x = a
        · subst hx
          rw [if_pos rfl]
          exact iff_of_false hal nofun
        · rw [if_neg hx, ← hiff]
          simp [hx]
    · refine ⟨l, ?_, hnodup, fun x => ?_⟩
      · have hdesc : (if h.content.prev a = none then update h.memDesc k
              (h.content.next a) else h.memDesc) j = h.memDesc j := by
          split
          · rw [update_of_ne hj]
          · rfl
        dsimp only
        rw [hdesc]
        refine hl.frame fun x hx => ?_
        -- the nodes of the other list have another size
        have hfree := (hmem x).mp hx
        have hne : L.at x ≠ some ⟨k, .free⟩ := by
          intro hkfree
          cases hfree.symm.trans hkfree
          exact hj rfl
        have hxa : some a ≠ some x := by
          rintro ⟨⟩
          exact hne ha
        have hxprev : h.content.prev a ≠ some x := fun heq => hne (hprev x heq)
        have hxnext : h.content.next a ≠ some x := fun heq => hne (hnext x heq)
        rw [next_setNext_apply, if_neg hxa, prev_setNext, prev_setPrev_apply, if_neg hxa,
          next_setPrev, next_setPrev, next_setNext_apply, if_neg hxprev, prev_setPrev_apply,
          if_neg hxnext, prev_setNext]
        exact ⟨rfl, rfl⟩
      · rw [hmem x, at_set]
        by_cases hx : x = a
        · subst hx
          rw [if_pos rfl, ha]
          exact iff_of_false (fun heq => hj (congrArg Block.k (Option.some.inj heq)).symm) nofun
        · rw [if_neg hx]

theorem at_set_reserved {j : ℕ} (ha : L.at a = some ⟨k, s⟩) (hs : s ≠ .reserved)
    (hx : L.at a' = some ⟨j, .reserved⟩) : (L.set a b).at a' = some ⟨j, .reserved⟩ := by
  have hne : a' ≠ a := by
    rintro rfl
    cases ha.symm.trans hx
    exact hs rfl
  rw [at_set_of_ne hne]
  exact hx

theorem Represents.leaves_insert (r : Represents h L) (ha : L.at a = some ⟨k, .held⟩) :
    Leaves h L (insertFreeBlock h a) (L.set a ⟨k, .free⟩) := by
  rw [insertFreeBlock_eq]
  -- only the link of the block itself is written
  have hnext : ∀ x, x ≠ a → (((h.content.setNext (some a)
      (h.memDesc (h.header a).kSize)).setPrev (some a) none).setPrev
        (h.memDesc (h.header a).kSize) (some a)).next x = h.content.next x := by
    intro x hx
    simp [update_of_ne hx]
  refine ⟨rfl, rfl, rfl, rfl, rfl, le_refl _, fun _ _ hp => hp, fun {x j} hx => ?_,
    fun {x} _ hp => ⟨rfl, hnext x fun heq => hp (heq ▸ r.paged ha)⟩⟩
  have hne : x ≠ a := by
    rintro rfl
    cases ha.symm.trans hx
  exact ⟨at_set_reserved ha nofun hx, rfl, hnext x hne⟩

theorem Represents.leaves_remove (r : Represents h L) (ha : L.at a = some ⟨k, .free⟩) :
    Leaves h L (removeFreeBlock h a) (L.set a ⟨k, .held⟩) := by
  rw [removeFreeBlock_eq]
  -- only the links of free blocks are written
  have hnext : ∀ x, L.at x ≠ some ⟨k, .free⟩ →
      ((((h.content.setNext (h.content.prev a) (h.content.next a)).setPrev (h.content.next a)
        (h.content.prev a)).setPrev (some a) none).setNext (some a) none).next x =
          h.content.next x := by
    intro x hx
    have hxa : some a ≠ some x := by
      rintro ⟨⟩
      exact hx ha
    have hxprev : h.content.prev a ≠ some x := fun heq => hx ((r.neighbours ha).2 x heq)
    rw [next_setNext_apply, if_neg hxa, next_setPrev, next_setPrev, next_setNext_apply,
      if_neg hxprev]
  refine ⟨rfl, rfl, rfl, rfl, rfl, le_refl _, fun _ _ hp => hp, fun {x j} hx => ?_,
    fun {x} _ hp => ⟨rfl, hnext x fun hfree => hp (r.paged hfree)⟩⟩
  refine ⟨at_set_reserved ha nofun hx, rfl, hnext x fun hfree => ?_⟩
  cases hx.symm.trans hfree

theorem Represents.careful_insert (r : Represents h L) (ha : L.at a = some ⟨k, .held⟩) :
    Careful h L (insertFreeBlock h a) (L.set a ⟨k, .free⟩) := by
  intro hL
  refine ⟨roomy_set hL ha, r.spares fun y hy => ?_⟩
  -- the block and the first one of its list
  by_cases hya : y = a
  · subst hya
    exact hL.written ha nofun
  have hk : (h.header a).kSize = k := (r.header ha).kSize
  by_cases hfirst : h.memDesc k = some y
  · exact hL.written (r.memDesc hfirst) nofun
  refine absurd ?_ hy
  rw [insertFreeBlock_eq, hk]
  refine ⟨rfl, ?_, ?_⟩
  · simp [update_of_ne hya]
  · dsimp only
    rw [prev_setPrev_apply, if_neg hfirst]
    simp [update_of_ne hya]

theorem Represents.careful_remove (r : Represents h L) (ha : L.at a = some ⟨k, .free⟩) :
    Careful h L (removeFreeBlock h a) (L.set a ⟨k, .held⟩) := by
  intro hL
  refine ⟨roomy_set hL ha, r.spares fun y hy => ?_⟩
  -- the block and its neighbours
  by_cases hfree : L.at y = some ⟨k, .free⟩
  · exact hL.written hfree nofun
  refine absurd ?_ hy
  have hya : some a ≠ some y := by
    rintro ⟨⟩
    exact hfree ha
  have hprev : h.content.prev a ≠ some y := fun heq => hfree ((r.neighbours ha).2 y heq)
  have hnext : h.content.next a ≠ some y := fun heq => hfree ((r.neighbours ha).1 y heq)
  rw [removeFreeBlock_eq]
  refine ⟨rfl, ?_, ?_⟩
  · dsimp only
    rw [next_setNext_apply, if_neg hya, next_setPrev, next_setPrev, next_setNext_apply,
      if_neg hprev]
  · dsimp only
    rw [prev_setNext, prev_setPrev_apply, if_neg hya, prev_setPrev_apply, if_neg hnext,
      prev_setNext]

/-! ## Headers -/

theorem Represents.careful_header (r : Represents h L) (ha : L.at a = some ⟨k, s⟩)
    (hs : s ≠ .reserved) (hd : BuddyHeader) :
    Careful h L { h with header := update h.header a hd } (L.set a ⟨k, s'⟩) := by
  intro hL
  refine ⟨roomy_set hL ha, r.spares fun y hy => ?_⟩
  have hya : y = a := by
    by_contra hne
    exact hy ⟨update_of_ne hne _ _, rfl, rfl⟩
  subst hya
  exact hL.written ha hs

/-- A page gets another layout with the same free blocks, and only headers in the page are
written. -/
theorem Represents.setPage (r : Represents h L) (hp : p ∈ h.pages) {M : Layout Role}
    {header : Addr → BuddyHeader} (hpart : Partition h.kSize M)
    (hfree : ∀ o k, M o = some ⟨k, .free⟩ ↔ L p o = some ⟨k, .free⟩)
    (hheader : ∀ o b, M o = some b → HeaderOk h.kSize p h.self b (header ⟨p, o⟩))
    (hother : ∀ x : Addr, x.area ≠ p → header x = h.header x) :
    Represents { h with header := header } (update L p M) := by
  have hat : ∀ x : Addr, x.area ≠ p → Layouts.at (update L p M) x = L.at x := by
    intro x hx
    rw [Layouts.at, update_of_ne hx, Layouts.at]
  have hself : ∀ o, Layouts.at (update L p M) ⟨p, o⟩ = M o := by
    intro o
    rw [Layouts.at, update_self]
  refine ⟨fun q hq => ?_, fun q => ?_, fun {x b} hx => ?_, fun {x b} hx => ?_, fun k => ?_⟩
  · by_cases hqp : q = p
    · subst hqp
      rw [update_self]
      exact hpart
    · rw [update_of_ne hqp]
      exact r.partition q hq
  · by_cases hqp : q = p
    · subst hqp
      rw [update_self]
      exact (r.unpaired q).mono fun o k ho => (hfree o k).mp ho
    · rw [update_of_ne hqp]
      exact r.unpaired q
  · by_cases hxp : x.area = p
    · rw [hxp]
      exact hp
    · rw [hat x hxp] at hx
      exact r.paged hx
  · by_cases hxp : x.area = p
    · obtain ⟨area, o⟩ := x
      obtain rfl : area = p := hxp
      rw [hself] at hx
      exact hheader o b hx
    · rw [hat x hxp] at hx
      dsimp only
      rw [hother x hxp]
      exact r.header hx
  · obtain ⟨l, hl, hnodup, hmem⟩ := r.lists k
    refine ⟨l, hl, hnodup, fun x => ?_⟩
    rw [hmem x]
    by_cases hxp : x.area = p
    · obtain ⟨area, o⟩ := x
      obtain rfl : area = p := hxp
      rw [hself, hfree o k]
      rfl
    · rw [hat x hxp]

theorem leaves_setPage (hp : p ∈ h.pages) {M : Layout Role} {header : Addr → BuddyHeader}
    (hreserved : ∀ o k, L p o = some ⟨k, .reserved⟩ →
      M o = some ⟨k, .reserved⟩ ∧ header ⟨p, o⟩ = h.header ⟨p, o⟩)
    (hother : ∀ x : Addr, x.area ≠ p → header x = h.header x) :
    Leaves h L { h with header := header } (update L p M) := by
  refine ⟨rfl, rfl, rfl, rfl, rfl, le_refl _, fun _ _ hp => hp, fun {x k} hx => ?_,
    fun {x} _ hx => ⟨hother x fun heq => hx (heq ▸ hp), rfl⟩⟩
  by_cases hxp : x.area = p
  · obtain ⟨area, o⟩ := x
    obtain rfl : area = p := hxp
    obtain ⟨hM, hheader⟩ := hreserved o k hx
    refine ⟨?_, hheader, rfl⟩
    rw [Layouts.at, update_self]
    exact hM
  · refine ⟨?_, hother x hxp, rfl⟩
    rw [Layouts.at, update_of_ne hxp]
    exact hx

theorem Represents.setRole (r : Represents h L) (ha : L.at a = some ⟨k, s⟩) (hs : s ≠ .free)
    (hs' : s' ≠ .free) {hd : BuddyHeader} (hok : HeaderOk h.kSize a.area h.self ⟨k, s'⟩ hd) :
    Represents { h with header := update h.header a hd } (L.set a ⟨k, s'⟩) := by
  refine r.setPage (r.paged ha) ((r.partition _ (r.paged ha)).setStatus ha) (fun o j => ?_)
    (fun o b hb => ?_) fun x hx => ?_
  · by_cases ho : o = a.offset
    · subst ho
      rw [update_self]
      refine iff_of_false (fun heq => ?_) fun heq => ?_
      · exact hs' (congrArg Block.status (Option.some.inj heq))
      · exact hs (congrArg Block.status (Option.some.inj (ha.symm.trans heq)))
    · rw [update_of_ne ho]
  · by_cases ho : o = a.offset
    · subst ho
      rw [update_self] at hb ⊢
      cases hb
      exact hok
    · rw [update_of_ne ho] at hb
      have hne : (⟨a.area, o⟩ : Addr) ≠ a := fun heq => ho (congrArg Addr.offset heq)
      have hat : L.at ⟨a.area, o⟩ = some b := hb
      rw [update_of_ne hne]
      exact r.header hat
  · rw [update_of_ne fun heq => hx (congrArg Addr.area heq)]

theorem Represents.reserve (r : Represents h L) (ha : L.at a = some ⟨k, .held⟩) :
    Represents
      { h with
        header := update h.header a
          { h.header a with
            status := .reservedBlock, magicNumber := .used, ownerThread := h.self } }
      (L.set a ⟨k, .reserved⟩) := by
  have hok := r.header ha
  refine r.setRole ha nofun ?_ ?_
  · exact Role.noConfusion
  · exact ⟨hok.basePtr, hok.baseKSize, hok.kSize, fun hne => absurd rfl hne,
      fun _ => ⟨rfl, rfl, rfl⟩⟩

theorem Represents.release (r : Represents h L) (ha : L.at a = some ⟨k, .reserved⟩) :
    Represents
      { h with
        header := update h.header a
          { h.header a with status := .freeBlock, magicNumber := .free } }
      (L.set a ⟨k, .held⟩) := by
  have hok := r.header ha
  refine r.setRole ha nofun ?_ ?_
  · exact Role.noConfusion
  · exact ⟨hok.basePtr, hok.baseKSize, hok.kSize, fun _ => rfl, nofun⟩

theorem leaves_header (hp : a.area ∈ h.pages) (hd : BuddyHeader) (b : Block Role)
    (ha : ∀ k, L.at a ≠ some ⟨k, .reserved⟩) :
    Leaves h L { h with header := update h.header a hd } (L.set a b) := by
  refine leaves_setPage hp (fun o k hok => ?_) fun x hx => ?_
  · have ho : o ≠ a.offset := by
      rintro rfl
      exact ha k hok
    refine ⟨?_, ?_⟩
    · rw [update_of_ne ho]
      exact hok
    · rw [update_of_ne fun heq => ho (congrArg Addr.offset heq)]
  · rw [update_of_ne fun heq => hx (congrArg Addr.area heq)]

/-! ## Splits and merges -/

/-- The layouts after the block at `a` was split into two of `2 ^ k` bytes. -/
def Layouts.split (L : Layouts) (a : Addr) (k : ℕ) (s s' : Role) : Layouts :=
  update L a.area (splitAt (L a.area) a.offset k s s')

/-- The layouts after the block of `2 ^ k` bytes at `m` was merged with the next one. -/
def Layouts.merge (L : Layouts) (m : Addr) (k : ℕ) (s : Role) : Layouts :=
  update L m.area (mergeAt (L m.area) m.offset k s)

def upper (a : Addr) (k : ℕ) : Addr := ⟨a.area, a.offset + 2 ^ k⟩

theorem upper_ne : upper a k ≠ a := by
  intro heq
  have hoffset : a.offset + 2 ^ k = a.offset := congrArg Addr.offset heq
  have := Nat.two_pow_pos k
  omega

theorem at_split : (L.split a k s s').at a' =
    if a' = upper a k then some ⟨k, s'⟩ else if a' = a then some ⟨k, s⟩ else L.at a' := by
  obtain ⟨p, o⟩ := a'
  rw [Layouts.at, Layouts.split, Layouts.at]
  by_cases hp : p = a.area
  · subst hp
    rw [update_self, splitAt_apply]
    simp [upper, Addr.ext_iff]
  · rw [update_of_ne hp, if_neg fun heq => hp (congrArg Addr.area heq),
      if_neg fun heq => hp (congrArg Addr.area heq)]

theorem at_merge : (L.merge a k s).at a' =
    if a' = a then some ⟨k + 1, s⟩ else if a' = upper a k then none else L.at a' := by
  obtain ⟨p, o⟩ := a'
  rw [Layouts.at, Layouts.merge, Layouts.at]
  by_cases hp : p = a.area
  · subst hp
    rw [update_self, mergeAt_apply]
    simp [upper, Addr.ext_iff]
  · rw [update_of_ne hp, if_neg fun heq => hp (congrArg Addr.area heq),
      if_neg fun heq => hp (congrArg Addr.area heq)]

/-- The headers after a block of `2 ^ (k + 1)` bytes was split. -/
def splitHeader (h : Heap) (a : Addr) (k : ℕ) : Addr → BuddyHeader :=
  update (update h.header a { h.header a with kSize := k }) (upper a k)
    { h.header (upper a k) with
      basePtr := (h.header a).basePtr
      baseKSize := (h.header a).baseKSize
      status := .freeBlock
      magicNumber := .free
      kSize := k }

theorem splitHeader_of_ne (hupper : a' ≠ upper a k) (hne : a' ≠ a) :
    splitHeader h a k a' = h.header a' := by
  rw [splitHeader, update_of_ne hupper, update_of_ne hne]

theorem splitHeader_of_area_ne (harea : a'.area ≠ a.area) : splitHeader h a k a' = h.header a' := by
  refine splitHeader_of_ne ?_ ?_
  · rintro rfl
    exact harea rfl
  · rintro rfl
    exact harea rfl

theorem Represents.splitBlock_eq (r : Represents h L) (ha : L.at a = some ⟨k + 1, s⟩) :
    splitBlock h a = insertFreeBlock { h with header := splitHeader h a k } (upper a k) := by
  have hok := r.header ha
  have hbuddy : buddy a.offset k = a.offset + 2 ^ k := buddy_of_dvd (r.aligned ha)
  have hk : (h.header a).kSize - 1 = k := by
    rw [hok.kSize]
    rfl
  have hupper : BuddyMalloc.getBuddyBlock
      { h with header := update h.header a { h.header a with kSize := k } } a =
        upper a k := by
    rw [BuddyMalloc.getBuddyBlock]
    simp [hok.basePtr, hbuddy, upper]
  rw [splitBlock]
  simp only [update_self, hk]
  rw [hupper, update_of_ne upper_ne]
  rfl

theorem Represents.at_upper (r : Represents h L) (ha : L.at a = some ⟨k + 1, s⟩) :
    L.at (upper a k) = none := by
  refine Option.eq_none_iff_forall_ne_some.mpr fun b hb => ?_
  have hpos := Nat.two_pow_pos k
  have hin : Inside a.offset (k + 1) (a.offset + 2 ^ k) := by
    rw [Inside, Nat.pow_succ]
    omega
  have hsame := (r.partition _ (r.paged ha)).disjoint ha hb hin inside_self
  have hoffset : a.offset = a.offset + 2 ^ k := hsame
  omega

theorem Represents.splitHeader (r : Represents h L) (ha : L.at a = some ⟨k + 1, .held⟩) :
    Represents { h with header := splitHeader h a k } (L.split a k .held .held) := by
  have hok := r.header ha
  have hnone : L a.area (a.offset + 2 ^ k) = none := r.at_upper ha
  have hheld : L a.area a.offset = some ⟨k + 1, .held⟩ := ha
  refine r.setPage (r.paged ha) ((r.partition _ (r.paged ha)).split ha) (fun o j => ?_)
    (fun o b hb => ?_) fun x hx => splitHeader_of_area_ne hx
  · -- the two halves are held, and nothing free was there before
    rw [splitAt_apply]
    split
    next ho =>
      rw [ho, hnone]
      exact iff_of_false nofun nofun
    split
    next ho =>
      rw [ho, hheld]
      exact iff_of_false nofun nofun
    next => exact Iff.rfl
  · rw [splitAt_apply] at hb
    split at hb
    next ho =>
      cases hb
      have hx : (⟨a.area, o⟩ : Addr) = upper a k := by rw [ho, upper]
      rw [hx, BuddyMalloc.splitHeader, update_self]
      exact ⟨hok.basePtr, hok.baseKSize, rfl, fun _ => rfl, nofun⟩
    rename_i hupper
    split at hb
    next ho =>
      cases hb
      have hx : (⟨a.area, o⟩ : Addr) = a := by rw [ho]
      rw [hx, BuddyMalloc.splitHeader, update_of_ne upper_ne.symm,
        update_self]
      exact ⟨hok.basePtr, hok.baseKSize, rfl, fun _ => hok.free nofun, nofun⟩
    next ho =>
      have hat : L.at ⟨a.area, o⟩ = some b := hb
      rw [splitHeader_of_ne (fun heq => hupper (congrArg Addr.offset heq))
        fun heq => ho (congrArg Addr.offset heq)]
      exact r.header hat

theorem Represents.leaves_splitHeader (r : Represents h L) (ha : L.at a = some ⟨k + 1, .held⟩) :
    Leaves h L { h with header := BuddyMalloc.splitHeader h a k } (L.split a k .held .held) := by
  have hnone : L a.area (a.offset + 2 ^ k) = none := r.at_upper ha
  have hheld : L a.area a.offset = some ⟨k + 1, .held⟩ := ha
  refine leaves_setPage (r.paged ha) (fun o j ho => ?_) fun x hx => splitHeader_of_area_ne hx
  have hupper : o ≠ a.offset + 2 ^ k := by
    rintro rfl
    cases hnone.symm.trans ho
  have hlower : o ≠ a.offset := by
    rintro rfl
    cases hheld.symm.trans ho
  refine ⟨?_, splitHeader_of_ne (fun heq => hupper (congrArg Addr.offset heq))
    fun heq => hlower (congrArg Addr.offset heq)⟩
  rw [splitAt_apply, if_neg hupper, if_neg hlower]
  exact ho

theorem Represents.careful_splitHeader (r : Represents h L) (ha : L.at a = some ⟨k + 1, .held⟩)
    (hk : 6 ≤ k) :
    Careful h L { h with header := BuddyMalloc.splitHeader h a k } (L.split a k .held .held) := by
  have hpow : 2 ^ 6 ≤ 2 ^ k := Nat.pow_le_pow_right (by decide) hk
  have hdouble : 2 ^ (k + 1) = 2 ^ k + 2 ^ k := by ring
  have hsize : sizeHeader64 + minAllocSize = 2 ^ 6 := rfl
  intro hL
  refine ⟨fun x b hx => ?_, r.spares fun y hy => ⟨a, _, ha, nofun, ?_⟩⟩
  · rw [at_split] at hx
    split at hx
    · cases hx
      exact hk
    split at hx
    · cases hx
      exact hk
    · exact hL x b hx
  · -- both headers are in the block
    dsimp only
    by_cases hupper : y = upper a k
    · subst hupper
      refine ⟨rfl, Nat.le_add_right _ _, ?_⟩
      rw [hsize, hdouble]
      show a.offset + 2 ^ k + 2 ^ 6 ≤ _
      omega
    by_cases hlower : y = a
    · subst hlower
      refine ⟨rfl, Nat.le_refl _, ?_⟩
      rw [hsize, hdouble]
      omega
    · exact absurd ⟨splitHeader_of_ne hupper hlower, rfl, rfl⟩ hy

theorem Represents.split (r : Represents h L) (ha : L.at a = some ⟨k + 1, .held⟩) :
    Represents (splitBlock h a) ((L.split a k .held .held).set (upper a k) ⟨k, .free⟩) ∧
      Leaves h L (splitBlock h a) ((L.split a k .held .held).set (upper a k) ⟨k, .free⟩) ∧
      (6 ≤ k →
        Careful h L (splitBlock h a) ((L.split a k .held .held).set (upper a k) ⟨k, .free⟩)) := by
  rw [r.splitBlock_eq ha]
  have hupper : (L.split a k .held .held).at (upper a k) = some ⟨k, .held⟩ := by
    rw [at_split, if_pos rfl]
  have hlower : (L.split a k .held .held).at a = some ⟨k, .held⟩ := by
    rw [at_split, if_neg upper_ne.symm, if_pos rfl]
  -- the buddy of the upper half is the lower half, which is held
  have hbuddy : buddy (a.offset + 2 ^ k) k = a.offset := by
    rw [← buddy_of_dvd (r.aligned ha), buddy_buddy]
  refine ⟨(r.splitHeader ha).insert hupper ?_,
    (r.leaves_splitHeader ha).trans ((r.splitHeader ha).leaves_insert hupper), fun hk =>
    (r.careful_splitHeader ha hk).trans (r.leaves_splitHeader ha)
      ((r.splitHeader ha).careful_insert hupper)⟩
  intro hfree
  have hat : (L.split a k .held .held).at ⟨a.area, buddy (a.offset + 2 ^ k) k⟩ =
      some ⟨k, .free⟩ := hfree
  rw [hbuddy] at hat
  cases hlower.symm.trans hat

theorem Represents.merge {m : Addr} (r : Represents h L) (hm : 2 ^ (k + 1) ∣ m.offset)
    (hlow : L.at m = some ⟨k, .held⟩) (hhigh : L.at (upper m k) = some ⟨k, .held⟩) :
    Represents
        { h with
          header := update h.header m
            { h.header m with kSize := (h.header m).kSize + 1 } }
        (L.merge m k .held) ∧
      Leaves h L
        { h with
          header := update h.header m
            { h.header m with kSize := (h.header m).kSize + 1 } }
        (L.merge m k .held) ∧
      Careful h L
        { h with
          header := update h.header m
            { h.header m with kSize := (h.header m).kSize + 1 } }
        (L.merge m k .held) := by
  have hok := r.header hlow
  have hlow' : L m.area m.offset = some ⟨k, .held⟩ := hlow
  have hhigh' : L m.area (m.offset + 2 ^ k) = some ⟨k, .held⟩ := hhigh
  have hpart := r.partition _ (r.paged hlow)
  have hother : ∀ hd : BuddyHeader, ∀ x : Addr, x.area ≠ m.area →
      update h.header m hd x = h.header x :=
    fun hd x hx => update_of_ne (fun heq => hx (congrArg Addr.area heq)) _ _
  refine ⟨r.setPage (r.paged hlow) (hpart.merge hm hlow' hhigh') (fun o j => ?_) (fun o b hb => ?_)
    (hother _), leaves_setPage (r.paged hlow) (fun o j ho => ?_) (hother _), fun hL => ?_⟩
  · rw [mergeAt_apply]
    split
    next ho =>
      rw [ho, hlow']
      exact iff_of_false nofun nofun
    split
    next ho =>
      rw [ho, hhigh']
      exact iff_of_false nofun nofun
    next => exact Iff.rfl
  · rw [mergeAt_apply] at hb
    split at hb
    next ho =>
      cases hb
      have hx : (⟨m.area, o⟩ : Addr) = m := by rw [ho]
      rw [hx, update_self]
      exact ⟨hok.basePtr, hok.baseKSize, congrArg (· + 1) hok.kSize, fun _ => hok.free nofun,
        nofun⟩
    next ho =>
      split at hb
      · cases hb
      · have hat : L.at ⟨m.area, o⟩ = some b := hb
        rw [update_of_ne fun heq => ho (congrArg Addr.offset heq)]
        exact r.header hat
  · have hne : o ≠ m.offset := by
      rintro rfl
      cases hlow'.symm.trans ho
    have hne' : o ≠ m.offset + 2 ^ k := by
      rintro rfl
      cases hhigh'.symm.trans ho
    refine ⟨?_, update_of_ne (fun heq => hne (congrArg Addr.offset heq)) _ _⟩
    rw [mergeAt_apply, if_neg hne, if_neg hne']
    exact ho
  · have hcareful : Careful h L
        { h with
          header := update h.header m
            { h.header m with kSize := (h.header m).kSize + 1 } }
        (L.set m ⟨k, .held⟩) := r.careful_header hlow nofun _
    refine ⟨fun x b hx => ?_, (hcareful hL).2⟩
    rw [at_merge] at hx
    split at hx
    · cases hx
      exact Nat.le_succ_of_le (hL m _ hlow)
    split at hx
    · cases hx
    · exact hL x b hx

/-! ## The loops -/

structure SameAreas (h h' : Heap) : Prop where
  pages : h'.pages = h.pages
  extras : h'.extras = h.extras
  fresh : h'.fresh = h.fresh

theorem SameAreas.refl (h : Heap) : SameAreas h h := ⟨rfl, rfl, rfl⟩

theorem SameAreas.trans (h1 : SameAreas h h') (h2 : SameAreas h' h'') : SameAreas h h'' :=
  ⟨h2.pages.trans h1.pages, h2.extras.trans h1.extras, h2.fresh.trans h1.fresh⟩

def OnlyHeld (L : Layouts) (a : Addr) : Prop := ∀ x k, L.at x = some ⟨k, .held⟩ → x = a

theorem splitLoop_spec (sizelog2 : ℕ) : ∀ (fuel : ℕ) {h : Heap} {L : Layouts} {k : ℕ},
    Represents h L → L.at a = some ⟨k, .held⟩ → OnlyHeld L a → k ≤ sizelog2 + fuel →
    ∃ L', Represents (splitLoop sizelog2 fuel h a) L' ∧
      L'.at a = some ⟨min k sizelog2, .held⟩ ∧ OnlyHeld L' a ∧
      Leaves h L (splitLoop sizelog2 fuel h a) L' ∧
      SameAreas h (splitLoop sizelog2 fuel h a) ∧ Keeps L L' ∧
      (6 ≤ sizelog2 → Careful h L (splitLoop sizelog2 fuel h a) L') := by
  intro fuel
  induction fuel with
  | zero =>
    intro h L k r ha honly hk
    rw [Nat.min_eq_left (Nat.le_trans hk (Nat.le_refl sizelog2))]
    exact ⟨L, r, ha, honly, .refl h L, .refl h, .refl L, fun _ => .refl h L⟩
  | succ fuel ih =>
    intro h L k r ha honly hk
    rw [splitLoop, (r.header ha).kSize]
    by_cases hgt : k > sizelog2
    · obtain ⟨n, rfl⟩ : ∃ n, k = n + 1 := ⟨k - 1, by omega⟩
      rw [if_pos hgt]
      obtain ⟨r', hleaves, hcareful⟩ := r.split ha
      have hat : ((L.split a n .held .held).set (upper a n) ⟨n, .free⟩).at a =
          some ⟨n, .held⟩ := by
        rw [at_set_of_ne upper_ne.symm, at_split, if_neg upper_ne.symm, if_pos rfl]
      have honly' : OnlyHeld ((L.split a n .held .held).set (upper a n) ⟨n, .free⟩) a := by
        intro x j hx
        rw [at_set, at_split] at hx
        split at hx
        · cases hx
        split at hx
        next heq => exact heq
        next => exact honly x j hx
      have hkeeps : Keeps L ((L.split a n .held .held).set (upper a n) ⟨n, .free⟩) := by
        intro x j hx
        rw [at_set, at_split] at hx
        split at hx
        · cases hx
        split at hx
        · cases hx
        next => exact hx
      obtain ⟨L', r'', ha', honly'', hleaves', hpages, hkeeps', hcareful'⟩ :=
        ih r' hat honly' (by omega)
      refine ⟨L', r'', ?_, honly'', hleaves.trans hleaves', ?_, hkeeps.trans hkeeps', fun hmin =>
        (hcareful (by omega)).trans hleaves (hcareful' hmin)⟩
      · rw [ha']
        congr 2
        omega
      · refine SameAreas.trans ?_ hpages
        rw [r.splitBlock_eq ha, insertFreeBlock_eq]
        exact ⟨rfl, rfl, rfl⟩
    · rw [if_neg hgt, Nat.min_eq_left (by omega)]
      exact ⟨L, r, ha, honly, .refl h L, .refl h, .refl L, fun _ => .refl h L⟩

/-- One turn of the loop that merges: the block and its free buddy become one block, which is
held. -/
theorem Represents.mergeBuddy (r : Represents h L) (ha : L.at a = some ⟨k, .held⟩)
    (honly : OnlyHeld L a) {c m : Addr} (hc : c = ⟨a.area, buddy a.offset k⟩)
    (hfree : L.at c = some ⟨k, .free⟩) (hm : m = if c.offset < a.offset then c else a)
    (hh' : h' =
      { removeFreeBlock h c with
        header := update (removeFreeBlock h c).header m
          { (removeFreeBlock h c).header m with
            kSize := ((removeFreeBlock h c).header m).kSize + 1 } }) :
    ∃ L', Represents h' L' ∧ L'.at m = some ⟨k + 1, .held⟩ ∧ OnlyHeld L' m ∧ Leaves h L h' L' ∧
      Keeps L L' ∧ Careful h L h' L' ∧ m.area = a.area ∧ m.offset ≤ a.offset ∧
        a.offset + 2 ^ k ≤ m.offset + 2 ^ (k + 1) := by
  subst hh'
  have hpos := Nat.two_pow_pos k
  have hdouble : 2 ^ (k + 1) = 2 ^ k + 2 ^ k := by ring
  have hca : c ≠ a := by
    rintro rfl
    cases ha.symm.trans hfree
  have hheld : (L.set c ⟨k, .held⟩).at a = some ⟨k, .held⟩ := by
    rw [at_set_of_ne hca.symm]
    exact ha
  -- which of the two is the lower one
  have hhalves : 2 ^ (k + 1) ∣ m.offset ∧ (m = a ∧ c = upper m k ∨ m = c ∧ a = upper m k) := by
    have haligned : 2 ^ k ∣ a.offset := r.aligned ha
    obtain ⟨o, ho, ⟨hao, hbo⟩ | ⟨hao, hbo⟩⟩ := buddy_halves haligned
    · have hma : m = a := by
        rw [hm, if_neg]
        rw [hc]
        simp only
        omega
      refine ⟨by rw [hma, hao]; exact ho, .inl ⟨hma, ?_⟩⟩
      rw [hma, hc, upper, hbo, hao]
    · have hmc : m = c := by
        rw [hm, if_pos]
        rw [hc]
        simp only
        omega
      have hco : c.offset = o := by rw [hc, hbo]
      refine ⟨by rw [hmc, hco]; exact ho, .inr ⟨hmc, ?_⟩⟩
      rw [hmc, upper, hco, ← hao, hc]
  obtain ⟨hdvd, hsides⟩ := hhalves
  have hlow : (L.set c ⟨k, .held⟩).at m = some ⟨k, .held⟩ := by
    rcases hsides with ⟨rfl, -⟩ | ⟨rfl, -⟩
    · exact hheld
    · exact at_set_self
  have hhigh : (L.set c ⟨k, .held⟩).at (upper m k) = some ⟨k, .held⟩ := by
    rcases hsides with ⟨-, hup⟩ | ⟨-, hup⟩
    · rw [← hup]
      exact at_set_self
    · rw [← hup]
      exact hheld
  obtain ⟨r', hleaves, hcareful⟩ := (r.remove hfree).merge hdvd hlow hhigh
  refine ⟨(L.set c ⟨k, .held⟩).merge m k .held, r', ?_, ?_, (r.leaves_remove hfree).trans hleaves,
    fun x j hx => ?_, (r.careful_remove hfree).trans (r.leaves_remove hfree) hcareful, ?_⟩
  · rw [at_merge, if_pos rfl]
  · intro x j hx
    rw [at_merge] at hx
    split at hx
    next heq => exact heq
    rename_i hxm
    split at hx
    · cases hx
    rename_i hxu
    -- another block that was held would be one of the two
    rw [at_set] at hx
    split at hx
    next hxc =>
      rcases hsides with ⟨-, hup⟩ | ⟨hmc, -⟩
      · exact absurd (hxc.trans hup) hxu
      · exact absurd (hxc.trans hmc.symm) hxm
    next =>
      have hxa := honly x j hx
      rcases hsides with ⟨hma, -⟩ | ⟨-, hup⟩
      · exact absurd (hxa.trans hma.symm) hxm
      · exact absurd (hxa.trans hup) hxu
  · rw [at_merge] at hx
    split at hx
    · cases hx
    split at hx
    · cases hx
    rw [at_set] at hx
    split at hx
    · cases hx
    next => exact hx
  · rcases hsides with ⟨rfl, -⟩ | ⟨-, hup⟩
    · refine ⟨rfl, le_refl _, ?_⟩
      omega
    · have harea : a.area = m.area := by
        rw [hup]
        rfl
      have hoffset : a.offset = m.offset + 2 ^ k := by
        rw [hup]
        rfl
      refine ⟨harea.symm, ?_, ?_⟩
      · omega
      · omega

/-- The block at `a` was merged into the one at `a'`, which is held and cannot be merged further. -/
structure MergedInto (h : Heap) (L : Layouts) (a : Addr) (k : ℕ) (h' : Heap) (L' : Layouts)
    (a' : Addr) (k' : ℕ) : Prop where
  represents : Represents h' L'
  held : L'.at a' = some ⟨k', .held⟩
  only : OnlyHeld L' a'
  buddy : L' a'.area (buddy a'.offset k') ≠ some ⟨k', .free⟩
  leaves : Leaves h L h' L'
  areas : SameAreas h h'
  area : a'.area = a.area
  first : a'.offset ≤ a.offset
  last : a.offset + 2 ^ k ≤ a'.offset + 2 ^ k'

/-- **The loop that merges** stops at a block that cannot be merged further, with the block it has
started from in it. -/
theorem mergeLoop_spec : ∀ (fuel : ℕ) {h : Heap} {L : Layouts} {a : Addr} {k : ℕ},
    Represents h L → L.at a = some ⟨k, .held⟩ → OnlyHeld L a → h.kSize ≤ k + fuel →
    ∃ L' k', MergedInto h L a k (mergeLoop fuel h a).1 L' (mergeLoop fuel h a).2 k' ∧
      Keeps L L' ∧ Careful h L (mergeLoop fuel h a).1 L' := by
  -- the loop stops here
  have hstop : ∀ {h : Heap} {L : Layouts} {a : Addr} {k : ℕ}, Represents h L →
      L.at a = some ⟨k, .held⟩ → OnlyHeld L a →
      L a.area (BuddyBlocks.buddy a.offset k) ≠ some ⟨k, .free⟩ →
      ∃ L' k', MergedInto h L a k h L' a k' ∧ Keeps L L' ∧ Careful h L h L' :=
    fun r ha honly hbuddy => ⟨_, _, ⟨r, ha, honly, hbuddy, .refl _ _, .refl _, rfl, le_refl _,
      le_refl _⟩, .refl _, .refl _ _⟩
  -- a whole page has no buddy
  have hpage : ∀ {h : Heap} {L : Layouts} {a : Addr} {k : ℕ}, Represents h L →
      L.at a = some ⟨k, .held⟩ → h.kSize ≤ k →
      L a.area (BuddyBlocks.buddy a.offset k) ≠ some ⟨k, .free⟩ := by
    intro h L a k r ha hk hbuddy
    cases ((r.partition _ (r.paged ha)).buddy_eq_none ha hk).symm.trans hbuddy
  intro fuel
  induction fuel with
  | zero =>
    intro h L a k r ha honly hk
    exact hstop r ha honly (hpage r ha hk)
  | succ fuel ih =>
    intro h L a k r ha honly hk
    have hok := r.header ha
    rw [mergeLoop, hok.kSize, hok.baseKSize, r.getBuddyBlock ha]
    dsimp only
    by_cases hlt : k < h.kSize
    · rw [if_pos hlt]
      obtain ⟨b, hb, -⟩ := (r.partition _ (r.paged ha)).buddy_exists ha hlt
      have hat : L.at ⟨a.area, BuddyBlocks.buddy a.offset k⟩ = some b := hb
      have hokb := r.header hat
      by_cases hdone : (h.header ⟨a.area, BuddyBlocks.buddy a.offset k⟩).status = .reservedBlock ∨
          (h.header ⟨a.area, BuddyBlocks.buddy a.offset k⟩).kSize ≠ k
      · rw [if_pos hdone]
        refine hstop r ha honly fun hfree => ?_
        have hokfree := r.header (a := ⟨a.area, BuddyBlocks.buddy a.offset k⟩) hfree
        rcases hdone with hreserved | hsize
        · rw [hokfree.free nofun] at hreserved
          cases hreserved
        · exact hsize hokfree.kSize
      rw [if_neg hdone]
      -- the buddy is free: it is not reserved, and no other block is held
      have hfree : L.at ⟨a.area, BuddyBlocks.buddy a.offset k⟩ = some ⟨k, .free⟩ := by
        have hsize : b.k = k := by
          rw [← hokb.kSize]
          exact not_not.mp fun hne => hdone (.inr hne)
        obtain ⟨j, status⟩ := b
        obtain rfl : j = k := hsize
        cases status with
        | free => exact hat
        | reserved => exact absurd (.inl (hokb.reserved rfl).1) hdone
        | held =>
          have heq := honly _ _ hat
          have hoffset : BuddyBlocks.buddy a.offset j = a.offset := congrArg Addr.offset heq
          exact absurd hoffset (buddy_ne (r.aligned ha))
      obtain ⟨L1, r1, ha1, honly1, hleaves1, hkeeps1, hcareful1, harea1, hfirst1, hlast1⟩ :=
        r.mergeBuddy ha honly rfl hfree rfl rfl
      obtain ⟨L', k', hmerged, hkeeps, hcareful⟩ :=
        ih r1 ha1 honly1 (by rw [hleaves1.kSize]; omega)
      refine ⟨L', k', ⟨hmerged.represents, hmerged.held, hmerged.only, hmerged.buddy,
        hleaves1.trans hmerged.leaves, SameAreas.trans ?_ hmerged.areas,
        hmerged.area.trans harea1, Nat.le_trans hmerged.first hfirst1,
        Nat.le_trans hlast1 hmerged.last⟩, hkeeps1.trans hkeeps,
        hcareful1.trans hleaves1 hcareful⟩
      rw [removeFreeBlock_eq]
      exact ⟨rfl, rfl, rfl⟩
    · rw [if_neg hlt]
      exact hstop r ha honly (hpage r ha (by omega))

end

end CloudNfs.BuddyMalloc
