import CloudNfs.BuddyHeap
import CloudNfs.BuddySize

/-!
# Allocation and freeing of a block

What the operations of the allocator do to a heap that represents a layout: a new page, a page that
is given back to the system, a block that is reserved, and a block that is freed.
-/

namespace CloudNfs.BuddyMalloc

open Function (update update_self update_of_ne)

open BuddyBlocks DoublyLinked

section

variable {h h' : Heap} {L L' : Layouts} {a a' : Addr} {b : Block Role} {k p : ℕ}

def NoHeld (L : Layouts) : Prop := ∀ x k, L.at x ≠ some ⟨k, .held⟩

theorem careful_same (hheader : h'.header = h.header) (hcontent : h'.content = h.content)
    (hL : Roomy L → Roomy L') : Careful h L h' L' := by
  intro hroomy
  have hsame : ∀ y, SameAt h h' y := fun y =>
    ⟨congrFun hheader y, congrArg (Links.next · y) hcontent, congrArg (Links.prev · y) hcontent⟩
  exact ⟨hL hroomy, fun _ y _ => hsame y, fun _ _ => hsame _⟩

theorem Represents.setUsed (r : Represents h L) (n : UInt32) :
    Represents { h with nbStdUsed := n } L :=
  ⟨r.partition, r.unpaired, r.paged, r.header, r.lists⟩

theorem leaves_setUsed (h : Heap) (L : Layouts) (n : UInt32) :
    Leaves h L { h with nbStdUsed := n } L :=
  ⟨rfl, rfl, rfl, rfl, rfl, le_refl _, fun _ _ hp => hp, fun ha => ⟨ha, rfl, rfl⟩,
    fun _ _ => ⟨rfl, rfl⟩⟩

/-! ## Pages -/

def Layouts.addPage (L : Layouts) (p K : ℕ) (s : Role) : Layouts :=
  update L p (whole K s)

theorem at_addPage {K : ℕ} {s : Role} : (L.addPage p K s).at a =
    if a.area = p then whole K s a.offset else L.at a := by
  rw [Layouts.at, Layouts.addPage, Function.update_apply, Layouts.at]
  split <;> rfl

def pageHeader (h : Heap) : BuddyHeader :=
  { h.header ⟨h.fresh, 0⟩ with
    basePtr := some h.fresh
    baseKSize := h.kSize
    status := .freeBlock
    kSize := h.kSize
    magicNumber := .free }

def newPage (h : Heap) : Heap :=
  { h with
    pages := h.fresh :: h.pages
    fresh := h.fresh + 1
    header := update h.header ⟨h.fresh, 0⟩ (pageHeader h) }

theorem newStdPage_eq : newStdPage h true =
    ({ insertFreeBlock (newPage h) ⟨h.fresh, 0⟩ with
        nbStdPages := (insertFreeBlock (newPage h) ⟨h.fresh, 0⟩).nbStdPages + 1 },
      some ⟨h.fresh, 0⟩) :=
  rfl

theorem Represents.newPage (r : Represents h L) (hfresh : h.fresh ∉ h.pages) :
    Represents (newPage h) (L.addPage h.fresh h.kSize .held) := by
  -- nothing was in the area before
  have hnone : ∀ {x : Addr} {b}, L.at x = some b → x.area ≠ h.fresh := by
    intro x b hx heq
    exact hfresh (heq ▸ r.paged hx)
  refine ⟨fun q hq => ?_, fun q => ?_, fun {x b} hx => ?_, fun {x b} hx => ?_, fun k => ?_⟩
  · by_cases hqp : q = h.fresh
    · subst hqp
      rw [Layouts.addPage, update_self]
      exact partition_whole _ _
    · rw [Layouts.addPage, update_of_ne hqp]
      exact r.partition q ((List.mem_cons.mp hq).resolve_left hqp)
  · by_cases hqp : q = h.fresh
    · subst hqp
      rw [Layouts.addPage, update_self]
      exact unpaired_whole
    · rw [Layouts.addPage, update_of_ne hqp]
      exact r.unpaired q
  · rw [at_addPage] at hx
    split at hx
    next harea =>
      rw [harea]
      exact .head _
    next => exact .tail _ (r.paged hx)
  · rw [at_addPage] at hx
    split at hx
    next harea =>
      obtain ⟨hoffset, rfl⟩ := whole_eq_some.mp hx
      have hxa : x = ⟨h.fresh, 0⟩ := Addr.ext harea hoffset
      subst hxa
      rw [BuddyMalloc.newPage]
      dsimp only
      rw [update_self]
      exact ⟨rfl, rfl, rfl, fun _ => rfl, nofun⟩
    next =>
      rw [BuddyMalloc.newPage]
      dsimp only
      rw [update_of_ne fun heq => hnone hx (congrArg Addr.area heq)]
      exact r.header hx
  · obtain ⟨l, hl, hnodup, hmem⟩ := r.lists k
    refine ⟨l, hl, hnodup, fun x => ?_⟩
    rw [hmem x, at_addPage]
    split
    next harea =>
      refine iff_of_false (fun hx => hnone hx harea) fun hx => ?_
      cases (whole_eq_some.mp hx).2
    next => exact Iff.rfl

theorem Represents.leaves_newPage (r : Represents h L) (hfresh : h.fresh ∉ h.pages) :
    Leaves h L (BuddyMalloc.newPage h) (L.addPage h.fresh h.kSize .held) := by
  have hheader : ∀ x : Addr, x.area ≠ h.fresh → (BuddyMalloc.newPage h).header x = h.header x :=
    fun x hx => update_of_ne (fun heq => hx (congrArg Addr.area heq)) _ _
  refine ⟨rfl, rfl, rfl, rfl, rfl, Nat.le_succ _, fun q hq hnot hmem => ?_, fun {x j} hx => ?_,
    fun {x} hx _ => ⟨hheader x (Nat.ne_of_lt hx), rfl⟩⟩
  · rcases List.mem_cons.mp hmem with rfl | hmem
    · exact Nat.lt_irrefl _ hq
    · exact hnot hmem
  · have harea : x.area ≠ h.fresh := fun heq => hfresh (heq ▸ r.paged hx)
    refine ⟨?_, hheader x harea, rfl⟩
    rw [at_addPage, if_neg harea]
    exact hx

theorem Represents.careful_newPage (r : Represents h L) (hlt : ∀ p ∈ h.pages, p < h.fresh)
    (hk : 6 ≤ h.kSize) : Careful h L (BuddyMalloc.newPage h) (L.addPage h.fresh h.kSize .held) := by
  intro hL
  have hsame : ∀ y : Addr, y.area ≠ h.fresh → SameAt h (BuddyMalloc.newPage h) y := fun y hy =>
    ⟨update_of_ne (fun heq => hy (congrArg Addr.area heq)) _ _, rfl, rfl⟩
  refine ⟨fun x b hx => ?_, fun {a k} ha y hy => hsame y ?_,
    fun {y} hy _ => hsame y (Nat.ne_of_lt hy)⟩
  · rw [at_addPage] at hx
    split at hx
    · obtain ⟨-, rfl⟩ := whole_eq_some.mp hx
      exact hk
    · exact hL x b hx
  · intro heq
    refine hy fun harea => ?_
    exact absurd (hlt _ (r.paged ha)) (by rw [← harea, heq]; exact Nat.lt_irrefl _)

theorem Represents.eq_of_page (r : Represents h L) (ha : L.at a = some ⟨h.kSize, s⟩)
    (hx : L.at a' = some b) (harea : a'.area = a.area) : a' = a := by
  have hpart := r.partition _ (r.paged ha)
  have hx' : L a.area a'.offset = some b := harea ▸ hx
  have hzero : a.offset = 0 := hpart.offset_eq_zero ha rfl
  have hin : Inside a.offset h.kSize a'.offset := by
    have hinside := hpart.inside hx'
    have := Nat.two_pow_pos b.k
    rw [Inside]
    omega
  exact Addr.ext harea (hpart.disjoint hx' ha inside_self hin)

def Layouts.dropPage (L : Layouts) (p : ℕ) : Layouts := update L p fun _ => none

theorem at_dropPage : (L.dropPage p).at a = if a.area = p then none else L.at a := by
  rw [Layouts.at, Layouts.dropPage, Function.update_apply, Layouts.at]
  split <;> rfl

theorem Represents.dropPage (r : Represents h L) (ha : L.at a = some ⟨h.kSize, .held⟩)
    (hnodup : h.pages.Nodup) (n : UInt32) :
    Represents { h with pages := h.pages.erase a.area, nbStdPages := n } (L.dropPage a.area) := by
  refine ⟨fun q hq => ?_, fun q => ?_, fun {x b} hx => ?_, fun {x b} hx => ?_, fun k => ?_⟩
  · obtain ⟨hne, hmem⟩ := hnodup.mem_erase_iff.mp hq
    rw [Layouts.dropPage, update_of_ne hne]
    exact r.partition q hmem
  · by_cases hqp : q = a.area
    · subst hqp
      rw [Layouts.dropPage, update_self]
      exact nofun
    · rw [Layouts.dropPage, update_of_ne hqp]
      exact r.unpaired q
  · rw [at_dropPage] at hx
    split at hx
    · cases hx
    next hne => exact hnodup.mem_erase_iff.mpr ⟨hne, r.paged hx⟩
  · rw [at_dropPage] at hx
    split at hx
    · cases hx
    next => exact r.header hx
  · obtain ⟨l, hl, hl', hmem⟩ := r.lists k
    refine ⟨l, hl, hl', fun x => ?_⟩
    rw [hmem x, at_dropPage]
    split
    next harea =>
      refine iff_of_false (fun hx => ?_) nofun
      obtain rfl := r.eq_of_page ha hx harea
      cases ha.symm.trans hx
    next => exact Iff.rfl

theorem Represents.leaves_dropPage (r : Represents h L) (ha : L.at a = some ⟨h.kSize, .held⟩)
    (n : UInt32) : Leaves h L { h with pages := h.pages.erase a.area, nbStdPages := n }
      (L.dropPage a.area) := by
  refine ⟨rfl, rfl, rfl, rfl, rfl, le_refl _,
    fun q _ hnot hmem => hnot (List.mem_of_mem_erase hmem),
    fun {x j} hx => ⟨?_, rfl, rfl⟩, fun _ _ => ⟨rfl, rfl⟩⟩
  have harea : x.area ≠ a.area := by
    intro harea
    obtain rfl := r.eq_of_page ha hx harea
    cases ha.symm.trans hx
  rw [at_dropPage, if_neg harea]
  exact hx

def releasePage (h : Heap) (a : Addr) : Heap :=
  { removeFreeBlock h a with
    pages := (removeFreeBlock h a).pages.erase a.area
    nbStdPages := (removeFreeBlock h a).nbStdPages - 1 }

theorem releasePage_spec (r : Represents h L) (hheld : NoHeld L)
    (ha : L.at a = some ⟨h.kSize, .free⟩) (hnodup : h.pages.Nodup) :
    ∃ L', Represents (releasePage h a) L' ∧ NoHeld L' ∧ Leaves h L (releasePage h a) L' ∧
      (releasePage h a).pages = h.pages.erase a.area ∧ (releasePage h a).fresh = h.fresh ∧
      Keeps L L' ∧ Careful h L (releasePage h a) L' := by
  have hremoved : (L.set a ⟨h.kSize, .held⟩).at a =
      some ⟨(removeFreeBlock h a).kSize, .held⟩ := by
    rw [at_set_self, removeFreeBlock_eq]
  have hpages : (removeFreeBlock h a).pages = h.pages := by rw [removeFreeBlock_eq]
  have hfresh : (removeFreeBlock h a).fresh = h.fresh := by rw [removeFreeBlock_eq]
  have r' := r.remove ha
  refine ⟨(L.set a ⟨h.kSize, .held⟩).dropPage a.area, ?_, ?_, ?_, ?_, hfresh, fun x k hx => ?_,
    (r.careful_remove ha).trans (r.leaves_remove ha) (careful_same rfl rfl fun hL x b hx => ?_)⟩
  · exact r'.dropPage hremoved (hpages ▸ hnodup) _
  · intro x k hx
    rw [at_dropPage] at hx
    split at hx
    · cases hx
    next hne =>
      rw [at_set_of_ne fun heq => hne (congrArg Addr.area heq)] at hx
      exact hheld x k hx
  · exact (r.leaves_remove ha).trans (r'.leaves_dropPage hremoved _)
  · show (removeFreeBlock h a).pages.erase a.area = _
    rw [hpages]
  · rw [at_dropPage] at hx
    split at hx
    · cases hx
    next hne =>
      rw [at_set_of_ne fun heq => hne (congrArg Addr.area heq)] at hx
      exact hx
  · rw [at_dropPage] at hx
    split at hx
    · cases hx
    · exact hL x b hx

theorem garbageStdPages_spec (r : Represents h L) (hheld : NoHeld L)
    (ha : L.at a = some ⟨h.kSize, .free⟩) (hnodup : h.pages.Nodup) :
    garbageStdPages h a = h ∨
      ∃ L', Represents (garbageStdPages h a) L' ∧ NoHeld L' ∧ Leaves h L (garbageStdPages h a) L' ∧
        (garbageStdPages h a).pages = h.pages.erase a.area ∧
        (garbageStdPages h a).fresh = h.fresh ∧ Keeps L L' ∧
        Careful h L (garbageStdPages h a) L' := by
  rw [garbageStdPages]
  split
  · exact .inl rfl
  split
  · exact .inl rfl
  split
  · exact .inl rfl
  exact .inr (releasePage_spec r hheld ha hnodup)

/-! ## Allocation -/

theorem reserveBlock_spec (r : Represents h L) (hheld : NoHeld L)
    (ha : L.at a = some ⟨k, .free⟩) (sizelog2 : ℕ) (hk : k ≤ sizelog2 + buddyMaxLog2Size) :
    ∃ L', Represents (reserveBlock h sizelog2 a).1 L' ∧ NoHeld L' ∧
      L'.at a = some ⟨min k sizelog2, .reserved⟩ ∧
      Leaves h L (reserveBlock h sizelog2 a).1 L' ∧
      SameAreas h (reserveBlock h sizelog2 a).1 ∧
      (∀ x j, L'.at x = some ⟨j, .reserved⟩ → x = a ∨ L.at x = some ⟨j, .reserved⟩) ∧
      (6 ≤ sizelog2 → Careful h L (reserveBlock h sizelog2 a).1 L') := by
  have r1 := r.remove ha
  have hleaves1 := r.leaves_remove ha
  -- the page may count as used now
  have hused : ∃ n, (if isPage (removeFreeBlock h a) a then
      { removeFreeBlock h a with nbStdUsed := (removeFreeBlock h a).nbStdUsed + 1 }
      else removeFreeBlock h a) = { removeFreeBlock h a with nbStdUsed := n } := by
    split
    · exact ⟨_, rfl⟩
    · exact ⟨_, rfl⟩
  obtain ⟨n, hn⟩ := hused
  have r2 := r1.setUsed n
  have honly : OnlyHeld (L.set a ⟨k, .held⟩) a := by
    intro x j hx
    rw [at_set] at hx
    split at hx
    next heq => exact heq
    next => exact absurd hx (hheld x j)
  obtain ⟨L3, r3, ha3, honly3, hleaves3, hareas3, hkeeps3, hcareful3⟩ :=
    splitLoop_spec sizelog2 buddyMaxLog2Size r2 at_set_self honly hk
  have hareas : SameAreas h { removeFreeBlock h a with nbStdUsed := n } := by
    rw [removeFreeBlock_eq]
    exact ⟨rfl, rfl, rfl⟩
  have hleaves2 := hleaves1.trans (leaves_setUsed _ _ n)
  rw [reserveBlock, hn]
  refine ⟨L3.set a ⟨min k sizelog2, .reserved⟩, r3.reserve ha3, fun x j hx => ?_, at_set_self,
    (hleaves2.trans hleaves3).trans (leaves_header (r3.paged ha3) _ _ fun j hj => ?_),
    hareas.trans ⟨hareas3.pages, hareas3.extras, hareas3.fresh⟩, fun x j hx => ?_, fun hmin => ?_⟩
  · rw [at_set] at hx
    split at hx
    · cases hx
    next hne => exact hne (honly3 x j hx)
  · cases ha3.symm.trans hj
  · rw [at_set] at hx
    split at hx
    next heq => exact .inl heq
    rename_i hne
    have hx := hkeeps3 x j hx
    rw [at_set_of_ne hne] at hx
    exact .inr hx
  · have hcareful2 : Careful h L { removeFreeBlock h a with nbStdUsed := n }
        (L.set a ⟨k, .held⟩) :=
      (r.careful_remove ha).trans hleaves1 (careful_same rfl rfl id)
    refine (hcareful2.trans hleaves2 (hcareful3 hmin)).trans (hleaves2.trans hleaves3) ?_
    exact r3.careful_header ha3 nofun _

/-! ## Freeing -/

/-- The bytes of a block are in a free block, or its page was given back to the system. -/
def Returned (h : Heap) (L : Layouts) (a : Addr) (k : ℕ) : Prop :=
  (∃ o j, L.at ⟨a.area, o⟩ = some ⟨j, .free⟩ ∧ o ≤ a.offset ∧ a.offset + 2 ^ k ≤ o + 2 ^ j) ∨
    a.area ∉ h.pages

/-- A block that is freed, when it is on a list again, merged with its buddies. -/
def mergedBlock (h : Heap) (a : Addr) : Heap × Addr :=
  let m := mergeLoop buddyMaxLog2Size
    { h with
      header := update h.header a
        { h.header a with status := .freeBlock, magicNumber := .free } } a
  (insertFreeBlock m.1 m.2, m.2)

/-- The block is part of the one that is on the list. -/
structure Merged (h : Heap) (L : Layouts) (a : Addr) (k : ℕ) (m : Heap × Addr) (L' : Layouts)
    (k' : ℕ) : Prop where
  represents : Represents m.1 L'
  noHeld : NoHeld L'
  free : L'.at m.2 = some ⟨k', .free⟩
  leaves : Leaves h (L.set a ⟨k, .held⟩) m.1 L'
  areas : SameAreas h m.1
  area : m.2.area = a.area
  first : m.2.offset ≤ a.offset
  last : a.offset + 2 ^ k ≤ m.2.offset + 2 ^ k'
  keeps : Keeps (L.set a ⟨k, .held⟩) L'
  careful : Careful h (L.set a ⟨k, .held⟩) m.1 L'

theorem careful_release (r : Represents h L) (ha : L.at a = some ⟨k, .reserved⟩) :
    Careful h (L.set a ⟨k, .held⟩)
      { h with
        header := update h.header a
          { h.header a with status := .freeBlock, magicNumber := .free } }
      (L.set a ⟨k, .held⟩) := by
  intro hL
  -- the layout is that of the heap after it, so that the difference is looked at from there
  have hback : Spares _ _ h := (r.release ha).spares fun y hy => by
    have hya : y = a := by
      by_contra hne
      exact hy ⟨(update_of_ne hne _ _).symm, rfl, rfl⟩
    subst hya
    exact hL.written at_set_self nofun
  refine ⟨hL, fun hx y hy => ?_, fun hy hnot => ?_⟩
  · have hsame := hback.reserved hx hy
    exact ⟨hsame.header.symm, hsame.next.symm, hsame.prev.symm⟩
  · have hsame := hback.outside hy hnot
    exact ⟨hsame.header.symm, hsame.next.symm, hsame.prev.symm⟩

theorem mergedBlock_spec (r : Represents h L) (hheld : NoHeld L) (ha : L.at a = some ⟨k, .reserved⟩)
    (hsize : h.kSize ≤ 30) : ∃ L' k', Merged h L a k (mergedBlock h a) L' k' := by
  have r1 := r.release ha
  have honly : OnlyHeld (L.set a ⟨k, .held⟩) a := by
    intro x j hx
    rw [at_set] at hx
    split at hx
    next heq => exact heq
    next => exact absurd hx (hheld x j)
  obtain ⟨L2, k2, hmerged, hkeeps, hcareful⟩ :=
    mergeLoop_spec buddyMaxLog2Size r1 at_set_self honly (by
      show h.kSize ≤ k + 64
      omega)
  -- the header was written, and then only what the loop writes
  have hleaves1 : Leaves h (L.set a ⟨k, .held⟩)
      { h with
        header := update h.header a
          { h.header a with status := .freeBlock, magicNumber := .free } }
      (L.set a ⟨k, .held⟩) := by
    have hset := leaves_header (L := L.set a ⟨k, .held⟩) (r.paged ha)
      { h.header a with status := .freeBlock, magicNumber := .free } ⟨k, .held⟩ (fun j hj => by
        rw [at_set_self] at hj
        cases hj)
    rwa [set_set] at hset
  have hleaves2 := hleaves1.trans hmerged.leaves
  have hareas := hmerged.areas
  have hcareful2 := (careful_release r ha).trans hleaves1 hcareful
  rw [mergedBlock]
  dsimp only
  generalize mergeLoop buddyMaxLog2Size _ a = m at hmerged hleaves2 hareas hcareful2 ⊢
  obtain ⟨h2, a2⟩ := m
  dsimp only at hmerged hleaves2 hareas hcareful2 ⊢
  refine ⟨L2.set a2 ⟨k2, .free⟩, k2, hmerged.represents.insert hmerged.held hmerged.buddy,
    fun x j hx => ?_, at_set_self,
    hleaves2.trans (hmerged.represents.leaves_insert hmerged.held), ?_, hmerged.area,
    hmerged.first, hmerged.last, fun x j hx => ?_,
    hcareful2.trans hleaves2 (hmerged.represents.careful_insert hmerged.held)⟩
  · rw [at_set] at hx
    split at hx
    · cases hx
    next hne => exact hne (hmerged.only x j hx)
  · dsimp only
    rw [insertFreeBlock_eq]
    exact ⟨hareas.pages, hareas.extras, hareas.fresh⟩
  · rw [at_set] at hx
    split at hx
    · cases hx
    next => exact hkeeps x j hx

theorem buddyFreeBlock_eq (r : Represents h L) (ha : L.at a = some ⟨k, .reserved⟩)
    (hsize : h.kSize ≤ 30) : (h.header a).basePtr ≠ none ∧
      ¬ a.offset > intShift (h.header a).baseKSize ∧
      buddyFreeBlock h a =
        if isPage (mergedBlock h a).1 (mergedBlock h a).2 then
          if (mergedBlock h a).1.config.freeAreas then
            garbageStdPages { (mergedBlock h a).1 with
              nbStdUsed := (mergedBlock h a).1.nbStdUsed - 1 } (mergedBlock h a).2
          else { (mergedBlock h a).1 with nbStdUsed := (mergedBlock h a).1.nbStdUsed - 1 }
        else (mergedBlock h a).1 := by
  have hok := r.header ha
  have hpart := r.partition _ (r.paged ha)
  have hbase : (h.header a).basePtr ≠ none := by
    rw [hok.basePtr]
    exact nofun
  have hinside : ¬ a.offset > intShift (h.header a).baseKSize := by
    have hin : a.offset + 2 ^ k ≤ 2 ^ h.kSize := hpart.inside ha
    have hpos := Nat.two_pow_pos k
    rw [hok.baseKSize, intShift_of_le hsize]
    omega
  refine ⟨hbase, hinside, ?_⟩
  rw [buddyFreeBlock, if_neg hbase, if_neg hinside]
  rfl

theorem buddyFreeBlock_spec (r : Represents h L) (hheld : NoHeld L)
    (ha : L.at a = some ⟨k, .reserved⟩) (hsize : h.kSize ≤ 30) (hnodup : h.pages.Nodup) :
    ∃ L', Represents (buddyFreeBlock h a) L' ∧ NoHeld L' ∧
      Leaves h (L.set a ⟨k, .held⟩) (buddyFreeBlock h a) L' ∧
      (buddyFreeBlock h a).pages.Sublist h.pages ∧ (buddyFreeBlock h a).fresh = h.fresh ∧
      Returned (buddyFreeBlock h a) L' a k ∧ Keeps (L.set a ⟨k, .held⟩) L' ∧
      Careful h (L.set a ⟨k, .held⟩) (buddyFreeBlock h a) L' := by
  obtain ⟨-, -, heq⟩ := buddyFreeBlock_eq r ha hsize
  obtain ⟨L3, k3, hmerged⟩ := mergedBlock_spec r hheld ha hsize
  rw [heq]
  clear heq
  generalize mergedBlock h a = m at hmerged ⊢
  obtain ⟨h3, a3⟩ := m
  have hpages3 : h3.pages = h.pages := hmerged.areas.pages
  have hfresh3 : h3.fresh = h.fresh := hmerged.areas.fresh
  have harea3 : a3.area = a.area := hmerged.area
  have hsublist : h3.pages.Sublist h.pages := hpages3 ▸ List.Sublist.refl _
  have hreturned : ∃ o j, L3.at ⟨a.area, o⟩ = some ⟨j, .free⟩ ∧ o ≤ a.offset ∧
      a.offset + 2 ^ k ≤ o + 2 ^ j := by
    refine ⟨a3.offset, k3, ?_, hmerged.first, hmerged.last⟩
    rw [← harea3]
    exact hmerged.free
  dsimp only
  split
  next hpage =>
    -- the block is a whole page, which counts as unused now
    have hk3 : k3 = h3.kSize := (hmerged.represents.isPage hmerged.free).mp hpage
    have r4 := hmerged.represents.setUsed (h3.nbStdUsed - 1)
    have hleaves4 := hmerged.leaves.trans (leaves_setUsed _ _ (h3.nbStdUsed - 1))
    have hat4 : L3.at a3 = some ⟨h3.kSize, .free⟩ := by
      rw [← hk3]
      exact hmerged.free
    have hcareful4 : Careful h (L.set a ⟨k, .held⟩)
        { h3 with nbStdUsed := h3.nbStdUsed - 1 } L3 :=
      hmerged.careful.trans hmerged.leaves (careful_same rfl rfl id)
    split
    · rcases garbageStdPages_spec r4 hmerged.noHeld hat4 (hpages3 ▸ hnodup) with hsame | hdrop
      · rw [hsame]
        exact ⟨_, r4, hmerged.noHeld, hleaves4, hsublist, hfresh3, .inl hreturned,
          hmerged.keeps, hcareful4⟩
      · obtain ⟨L5, r5, hheld5, hleaves5, hpages5, hfresh5, hkeeps5, hcareful5⟩ := hdrop
        have hpages : (garbageStdPages { h3 with nbStdUsed := h3.nbStdUsed - 1 } a3).pages =
            h.pages.erase a.area := by
          rw [hpages5, ← harea3, ← hpages3]
        refine ⟨L5, r5, hheld5, hleaves4.trans hleaves5, ?_, hfresh5.trans hfresh3, .inr ?_,
          hmerged.keeps.trans hkeeps5, hcareful4.trans hleaves4 hcareful5⟩
        · rw [hpages]
          exact List.erase_sublist
        · rw [hpages]
          exact hnodup.not_mem_erase
    · exact ⟨_, r4, hmerged.noHeld, hleaves4, hsublist, hfresh3, .inl hreturned,
        hmerged.keeps, hcareful4⟩
  next =>
    exact ⟨_, hmerged.represents, hmerged.noHeld, hmerged.leaves, hsublist, hfresh3,
      Or.inl hreturned, hmerged.keeps, hmerged.careful⟩

end

end CloudNfs.BuddyMalloc
