import CloudNfs.BuddySafe

/-!
# The end of a context (`BuddyMalloc/BuddyMalloc.c`)

`TryContextCleanup` gives the pages of a context back to the system and then the context itself.
Blocks that are still reserved are not counted. That there are any is inferred from the lists of
free blocks: what is left in them, when the pages that are one free block are gone, are parts of
pages with reserved blocks. An extra block leaves nothing there, and neither does a page that is
reserved to its last byte.

* `onlyEmpty_iff` — the contexts that are released are empty exactly under the condition.
-/

namespace CloudNfs.BuddyMalloc.Destroy

open BuddyBlocks DoublyLinked

/-! ## The code -/

/-- What `TryContextCleanup` reports. -/
inductive CleanupStatus where
  | success
  | efault
  | inuse

/-- The loop of `CheckBlocksToBeFreed`. -/
def freeDeferred : ℕ → Heap → Heap
  | 0, h => h
  | fuel + 1, h =>
    match checkBlocksToBeFreed h with
    | none => h
    | some (h, a) => freeDeferred fuel (buddyFreeBlock h a)

/-- There cannot be more blocks than this. -/
def maxBlocks (h : Heap) : ℕ := h.fresh * 2 ^ h.kSize

def releasePages : ℕ → Heap → Heap × Bool
  | 0, h => (h, true)
  | fuel + 1, h =>
    match h.memDesc h.kSize with
    | none => (h, true)
    | some a => if isPage h a then releasePages fuel (releasePage h a) else (h, false)

def tryContextCleanup (h : Heap) : Heap × CleanupStatus :=
  let h := freeDeferred (maxBlocks h) h
  let (h, ok) := releasePages h.pages.length h
  if ok = false then (h, .efault)
  else if (List.range buddyMaxLog2Size).any fun i => (h.memDesc i).isSome then (h, .inuse)
  else (h, .success)

/-! ## Runs -/

structure Context where
  heap : Heap
  /-- what `BuddyMalloc` has returned for it and was not freed since -/
  given : List Allocation
  destroyPending : Bool
  /-- it was given back, and `BUDDY_SUCCESS` reported -/
  released : Bool

/-- A step of the thread that the context belongs to, or of another thread. -/
inductive Action where
  /-- the thread takes a block off the list of other threads and frees it -/
  | giveBack
  /-- the rest of `BuddyMalloc` -/
  | malloc (size : UInt64) (env : MallocEnv)
  /-- `BuddyFree` by a thread -/
  | free (w : ℕ) (ptr : Addr)
  /-- somebody writes to memory that is in use -/
  | write (ptr x : Addr) (hd : BuddyHeader) (next prev : Option Addr)
  | destroy

/-- How much of what was asked for the block has room for. It is everything, unless the size of the
block was computed wrongly. -/
def roomOf (h : Heap) (size : UInt64) : ℕ := if Sized h.config h.kSize size then size.toNat else 0

/-- `TryContextCleanup`, with what it does to the context. -/
def cleanup (s : Context) : Context :=
  match tryContextCleanup s.heap with
  | (h, .success) => { s with heap := h, released := true }
  | (h, .inuse) => { s with heap := h, destroyPending := true }
  | (h, .efault) => { s with heap := h }

/-- A step. What is freed or written to was returned by `BuddyMalloc` and not freed since, and
nothing happens to a context that was released. -/
def step (s : Context) (act : Action) : Option Context :=
  if s.released then none
  else
    match act with
    | .giveBack =>
      match checkBlocksToBeFreed s.heap with
      | some (h, a) => some { s with heap := buddyFreeBlock h a }
      | none => none
    | .malloc size env =>
      (buddyMalloc s.heap size env).map fun r =>
        { s with heap := r.1, given := give r.2 (roomOf s.heap size) s.given }
    | .free w ptr =>
      match s.given.find? fun u => decide (u.ptr = ptr) with
      | some u =>
        let s := { s with heap := buddyFree s.heap w ptr, given := s.given.erase u }
        if s.heap.self ≠ w ∧ s.destroyPending then some (cleanup s) else some s
      | none => none
    | .write ptr x hd next prev =>
      match s.given.find? fun u => decide (u.ptr = ptr) with
      | some u =>
        if Within u x then some { s with heap := userWrite s.heap u x hd next prev } else none
      | none => none
    | .destroy => some (cleanup s)

/-! ## The property -/

/-- A context that was released has no reserved blocks. -/
def OnlyEmpty (s : Context) : Prop := s.released = true → s.given = []

/-- Some page has a reserved block, and a byte that is not in a reserved block. -/
def PartlyReserved (h : Heap) (given : List Allocation) : Prop :=
  ∃ u ∈ given, u.block.area ∈ h.pages ∧ ∃ x < 2 ^ h.kSize, ∀ v ∈ given,
    v.block.area = u.block.area → ¬ Inside v.block.offset (h.header v.block).kSize x

instance (h : Heap) (given : List Allocation) : Decidable (PartlyReserved h given) :=
  inferInstanceAs (Decidable (∃ u ∈ given, u.block.area ∈ h.pages ∧ ∃ x < 2 ^ h.kSize, ∀ v ∈ given,
    v.block.area = u.block.area → ¬ (v.block.offset ≤ x ∧
      x < v.block.offset + 2 ^ (h.header v.block).kSize)))

/-- When a cleanup is right. -/
def Detectable (h : Heap) (given : List Allocation) : Prop := given = [] ∨ PartlyReserved h given

instance (h : Heap) (given : List Allocation) : Decidable (Detectable h given) :=
  inferInstanceAs (Decidable (given = [] ∨ PartlyReserved h given))

/-- The condition of a step. `BuddyDestroy`, and `BuddyFree` by another thread after it, find no
reserved block, or a page that is reserved in part. -/
def DetectableAt (s : Context) : Action → Context → Prop
  | .destroy, _ => Detectable s.heap s.given
  | .free w ptr, _ => s.heap.self ≠ w → s.destroyPending = true →
      ∀ u, s.given.find? (fun u => decide (u.ptr = ptr)) = some u →
        Detectable s.heap (s.given.erase u)
  | _, _ => True

instance (s t : Context) : ∀ act, Decidable (DetectableAt s act t)
  | .destroy => inferInstanceAs (Decidable (Detectable s.heap s.given))
  | .free w ptr => inferInstanceAs (Decidable (s.heap.self ≠ w → s.destroyPending = true →
      ∀ u ∈ s.given.find? (fun u => decide (u.ptr = ptr)), Detectable s.heap (s.given.erase u)))
  | .giveBack => isTrue trivial
  | .malloc _ _ => isTrue trivial
  | .write _ _ _ _ _ => isTrue trivial

/-! ## Blocks that are accounted for -/

/-- Every reserved block waits to be freed, or a user has it. -/
def Accounted (L : Layouts) (T : List Addr) (U : List Allocation) : Prop :=
  ∀ x k, L.at x = some ⟨k, .reserved⟩ → x ∈ T ++ U.map Allocation.block

section

variable {h h' : Heap} {L L' : Layouts} {a : Addr} {k n : ℕ} {T : List Addr}
  {U : List Allocation} {u : Allocation}

theorem Accounted.free (hacc : Accounted L T (u :: U))
    (hL : ∀ x j, L'.at x = some ⟨j, .reserved⟩ ↔ x ≠ u.block ∧ L.at x = some ⟨j, .reserved⟩) :
    Accounted L' T U := by
  intro x k hx
  obtain ⟨hne, hx⟩ := (hL x k).mp hx
  have hmem := hacc x k hx
  rw [List.map_cons] at hmem
  exact (List.mem_cons.mp (List.perm_middle.mem_iff.mp hmem)).resolve_left hne

variable {U' : List Allocation} {size : UInt64}

theorem Accounted.perm (hacc : Accounted L T U) {T' : List Addr}
    (hperm : (T ++ U.map Allocation.block).Perm (T' ++ U'.map Allocation.block)) :
    Accounted L T' U' := fun x k hx => hperm.mem_iff.mp (hacc x k hx)

/-- Every block has room for a header and for what is behind it, and an extra block also for what
the user has. -/
structure Measured (h : Heap) (L : Layouts) (U : List Allocation) : Prop where
  roomy : Roomy L
  extraInfo : ∀ p ∈ h.extras, sizeHeader64 ≤ (h.header ⟨p, 0⟩).extraInfo.toNat
  extraRoom : ∀ u ∈ U, u.block.area ∈ h.extras →
    sizeHeader64 + u.size ≤ (h.header ⟨u.block.area, 0⟩).extraInfo.toNat

theorem Measured.frame (m : Measured h L U) (hU : U' ⊆ U) (hL : Roomy L')
    (hextras : h'.extras ⊆ h.extras) (hheader : ∀ p ∈ h.extras, h'.header ⟨p, 0⟩ = h.header ⟨p, 0⟩)
    : Measured h' L' U' := by
  refine ⟨hL, fun p hp => ?_, fun u hu hextra => ?_⟩
  · rw [hheader p (hextras hp)]
    exact m.extraInfo p (hextras hp)
  · rw [hheader _ (hextras hextra)]
    exact m.extraRoom u (hU hu) (hextras hextra)

theorem Measured.perm (m : Measured h L U) (hperm : U.Perm U') : Measured h L U' :=
  m.frame (fun _ hu => hperm.mem_iff.mpr hu) m.roomy (List.Subset.refl _) fun _ _ => rfl

/-- A heap with all its reserved blocks. -/
structure Complete (h : Heap) (L : Layouts) (T : List Addr) (U : List Allocation) : Prop where
  good : Good h L T U
  accounted : Accounted L T U
  kSize : 6 ≤ h.kSize
  measured : Measured h L U

theorem complete_buddyInit {self : ℕ} {config : BuddyParameter} {header : Addr → BuddyHeader}
    {content : Links Addr} {page : Bool}
    (hinit : buddyInit self config header content page = some h) (hk : h.kSize ≤ 30) :
    ∃ L, Complete h L [] [] := by
  obtain ⟨L, g, -, hroom, hempty, hroomy, hextras⟩ := good_buddyInit hinit hk
  refine ⟨L, g, fun x k hx => absurd hx (hempty x k), hroom, hroomy, ?_, nofun⟩
  rw [hextras]
  exact nofun

theorem Complete.perm (c : Complete h L T U) (hperm : U.Perm U') : Complete h L T U' :=
  ⟨c.good.perm hperm, c.accounted.perm ((hperm.map Allocation.block).append_left T), c.kSize,
    c.measured.perm hperm⟩

theorem Complete.push (c : Complete h L T (u :: U)) :
    Complete
      { h with
        content := h.content.setNext (some u.block) h.toBeFreedList
        toBeFreedList := some u.block } L (u.block :: T) U :=
  ⟨c.good.push, c.accounted.perm List.perm_middle, c.kSize,
    c.measured.frame (List.subset_cons_self u U) c.measured.roomy (fun _ hp => hp) fun _ _ => rfl⟩

theorem Complete.check_cons (c : Complete h L (a :: T) U) :
    Complete { h with toBeFreedList := h.content.next a } L T (⟨userSpace a, 0⟩ :: U) := by
  obtain ⟨-, g1⟩ := c.good.check_cons
  refine ⟨g1, c.accounted.perm ?_, c.kSize, c.measured.roomy, c.measured.extraInfo,
    fun v hv hextra => ?_⟩
  · rw [List.map_cons, Allocation.block, blockOf_userSpace]
    exact List.perm_middle.symm
  · rcases List.mem_cons.mp hv with rfl | hv
    · exact c.measured.extraInfo _ hextra
    · exact c.measured.extraRoom v hv hextra

theorem Complete.write (c : Complete h L T U) (hu : u ∈ U) {x : Addr} (hx : Within u x)
    (hd : BuddyHeader) (next prev : Option Addr) :
    Complete (userWrite h u x hd next prev) L T U := by
  refine ⟨c.good.write hu hx hd next prev, c.accounted, c.kSize, ?_⟩
  refine c.measured.frame (List.Subset.refl U) c.measured.roomy (fun _ hp => hp) fun p hp => ?_
  rw [userWrite]
  dsimp only
  split
  · rfl
  rename_i hne
  apply Function.update_of_ne
  rintro rfl
  exact hne (c.good.eq_block_of_inUse hu hx (n := 0) (.inr ⟨rfl, hp⟩))

theorem Complete.free (c : Complete h L T (u :: U)) :
    ∃ L', Complete (buddyFreeBlock h u.block) L' T U ∧
      (buddyFreeBlock h u.block).self = h.self ∧ (buddyFreeBlock h u.block).kSize = h.kSize ∧
      (∀ x j, L'.at x = some ⟨j, .reserved⟩ ↔ x ≠ u.block ∧ L.at x = some ⟨j, .reserved⟩) ∧
      ∀ x ≠ u.block, Kept h L (buddyFreeBlock h u.block) x := by
  obtain ⟨L', g', -, hself, hkSize, hL, hheader, hextras, hkept⟩ := c.good.free
  obtain ⟨hroomy, hkept⟩ := hkept c.measured.roomy
  exact ⟨L', ⟨g', c.accounted.free hL, hkSize ▸ c.kSize,
    c.measured.frame (List.subset_cons_self u U) hroomy hextras.subset hheader⟩, hself, hkSize, hL,
    hkept⟩

theorem Complete.giveBack (c : Complete h L (a :: T) U) :
    ∃ h1, checkBlocksToBeFreed h = some (h1, a) ∧
      ∃ L', Complete (buddyFreeBlock h1 a) L' T U ∧ (buddyFreeBlock h1 a).self = h.self ∧
        (buddyFreeBlock h1 a).kSize = h.kSize ∧
        (∀ x j, L'.at x = some ⟨j, .reserved⟩ ↔ x ≠ a ∧ L.at x = some ⟨j, .reserved⟩) ∧
        ∀ x ≠ a, Kept h L (buddyFreeBlock h1 a) x := by
  obtain ⟨hcheck, -⟩ := c.good.check_cons
  have hblock : Allocation.block ⟨userSpace a, 0⟩ = a := blockOf_userSpace
  obtain ⟨L', c', hself, hkSize, hL, hkept⟩ := c.check_cons.free
  rw [hblock] at c' hself hkSize hL hkept
  refine ⟨_, hcheck, L', c', hself, hkSize, hL, fun x hx => ?_⟩
  obtain ⟨hpage, hextra⟩ := hkept x hx
  -- the head of the list is not in a block
  have hsame : ∀ {h' : Heap} {y : Addr},
      SameAt { h with toBeFreedList := h.content.next a } h' y → SameAt h h' y :=
    fun hy => ⟨hy.header, hy.next, hy.prev⟩
  exact ⟨fun k hk y hy => hsame (hpage k hk y hy), fun ha y hy => hsame (hextra ha y hy)⟩

/-! ## The list of other threads -/

theorem Complete.length_le (c : Complete h L T U) : T.length ≤ maxBlocks h := by
  have hnodup : T.Nodup := (List.nodup_append.mp c.good.nodup).1
  have hsub : T ⊆ (List.range h.fresh ×ˢ List.range (2 ^ h.kSize)).map fun x => ⟨x.1, x.2⟩ := by
    intro a ha
    have hlt : a.area < h.fresh ∧ a.offset < 2 ^ h.kSize := by
      rcases c.good.waiting a ha with ⟨k, hk, -⟩ | ⟨hoffset, hextra⟩
      · have hpaged := c.good.represents.paged hk
        have hinside := (c.good.represents.partition _ hpaged).inside hk
        have := Nat.two_pow_pos k
        exact ⟨c.good.pages_lt _ hpaged, by dsimp only at hinside; omega⟩
      · exact ⟨c.good.extras_lt _ hextra, hoffset ▸ Nat.two_pow_pos _⟩
    refine List.mem_map.mpr ⟨⟨a.area, a.offset⟩, List.mem_product.mpr ⟨?_, ?_⟩, rfl⟩
    · exact List.mem_range.mpr hlt.1
    · exact List.mem_range.mpr hlt.2
  have hle := (List.subperm_of_subset hnodup hsub).length_le
  rwa [List.length_map, List.length_product, List.length_range, List.length_range] at hle

theorem Complete.freeDeferred (c : Complete h L T U) {fuel : ℕ} (hfuel : T.length ≤ fuel) :
    ∃ L', Complete (freeDeferred fuel h) L' [] U ∧ (freeDeferred fuel h).kSize = h.kSize ∧
      (∀ x j, L'.at x = some ⟨j, .reserved⟩ ↔ x ∉ T ∧ L.at x = some ⟨j, .reserved⟩) ∧
      ∀ u ∈ U, Kept h L (freeDeferred fuel h) u.block := by
  induction T generalizing h L fuel with
  | nil =>
    have hstop : Destroy.freeDeferred fuel h = h := by
      cases fuel with
      | zero => rfl
      | succ fuel => rw [Destroy.freeDeferred, c.good.check_nil]
    rw [hstop]
    exact ⟨L, c, rfl, fun x j => ⟨fun hx => ⟨nofun, hx⟩, fun hx => hx.2⟩,
      fun u _ => .refl h L u.block⟩
  | cons a T ih =>
    obtain ⟨n, rfl⟩ : ∃ n, fuel = n + 1 := ⟨fuel - 1, by rw [List.length_cons] at hfuel; omega⟩
    obtain ⟨h1, hcheck, L1, c1, -, hkSize1, hL1, hkept1⟩ := c.giveBack
    obtain ⟨L', c', hkSize, hL, hkept⟩ := ih c1 (Nat.le_of_succ_le_succ hfuel)
    rw [Destroy.freeDeferred, hcheck]
    refine ⟨L', c', hkSize.trans hkSize1, fun x j => ?_, fun u hu => ?_⟩
    · rw [hL x j, hL1 x j, List.mem_cons, not_or]
      tauto
    · have hne : u.block ≠ a := by
        rintro rfl
        exact (List.disjoint_of_nodup_append c.good.nodup) List.mem_cons_self
          (List.mem_map_of_mem hu)
      apply (hkept1 u.block hne).trans (fun k hk => (hL1 _ k).mpr ⟨hne, hk⟩) ?_ (hkept u hu)
      exact c.good.extra_of_inUse (fun k hk => ((hL1 _ k).mp hk).2) (c1.good.given u hu).2

/-! ## Pages that are reserved in part -/

/-- `PartlyReserved`, in the layout. -/
def Shared (L : Layouts) (K : ℕ) (U : List Allocation) : Prop :=
  ∃ u ∈ U, (∃ k, L.at u.block = some ⟨k, .reserved⟩) ∧ ∃ x < 2 ^ K, ∀ v ∈ U,
    v.block.area = u.block.area → ∀ j, L.at v.block = some ⟨j, .reserved⟩ →
      ¬ Inside v.block.offset j x

theorem Good.reserved_of_paged (g : Good h L T U) (hu : u ∈ U) (hpage : u.block.area ∈ h.pages) :
    ∃ k, L.at u.block = some ⟨k, .reserved⟩ ∧ (h.header u.block).kSize = k := by
  rcases (g.given u hu).2 with ⟨k, hk, -⟩ | ⟨-, hextra⟩
  · exact ⟨k, hk, (g.represents.header hk).kSize⟩
  · exact absurd hextra (g.disjoint _ hpage)

theorem Good.partlyReserved_iff (g : Good h L T U) : PartlyReserved h U ↔ Shared L h.kSize U := by
  constructor
  · rintro ⟨u, hu, hpage, x, hx, hfree⟩
    obtain ⟨k, hk, -⟩ := Good.reserved_of_paged g hu hpage
    refine ⟨u, hu, ⟨k, hk⟩, x, hx, fun v hv harea j hj => ?_⟩
    have hkSize : (h.header v.block).kSize = j := (g.represents.header hj).kSize
    rw [← hkSize]
    exact hfree v hv harea
  · rintro ⟨u, hu, ⟨k, hk⟩, x, hx, hfree⟩
    have hpage := g.represents.paged hk
    refine ⟨u, hu, hpage, x, hx, fun v hv harea => ?_⟩
    obtain ⟨j, hj, hkSize⟩ := Good.reserved_of_paged g hv (harea ▸ hpage)
    rw [hkSize]
    exact hfree v hv harea j hj

theorem Shared.congr {K : ℕ}
    (hL : ∀ u ∈ U, ∀ j, L'.at u.block = some ⟨j, .reserved⟩ ↔ L.at u.block = some ⟨j, .reserved⟩) :
    Shared L' K U ↔ Shared L K U := by
  refine exists_congr fun u => and_congr_right fun hu => and_congr ?_ ?_
  · exact exists_congr fun k => hL u hu k
  · refine exists_congr fun x => and_congr_right fun _ => forall_congr' fun v => ?_
    refine forall_congr' fun hv => forall_congr' fun _ => forall_congr' fun j => ?_
    rw [hL v hv j]

/-- **A page that is reserved in part** has a free block, and when there are no free pages, nothing
else has. -/
theorem Complete.shared_iff (c : Complete h L [] U) (hpage : h.memDesc h.kSize = none) :
    Shared L h.kSize U ↔ ∃ a k, L.at a = some ⟨k, .free⟩ := by
  have r := c.good.represents
  constructor
  · rintro ⟨u, hu, ⟨k, hk⟩, x, hx, hfree⟩
    obtain ⟨o, ⟨j, s⟩, hb, hin⟩ := (r.partition _ (r.paged hk)).cover hx
    have hat : L.at ⟨u.block.area, o⟩ = some ⟨j, s⟩ := hb
    cases s with
    | free => exact ⟨_, j, hat⟩
    | held => exact absurd hat (c.good.noHeld _ _)
    | reserved =>
      obtain ⟨v, hv, hblock⟩ := List.mem_map.mp (c.accounted _ j hat)
      have hj : L.at v.block = some ⟨j, .reserved⟩ := by
        rw [hblock]
        exact hat
      refine absurd ?_ (hfree v hv (by rw [hblock]) j hj)
      rw [hblock]
      exact hin
  · rintro ⟨a, k, ha⟩
    have hpart := r.partition _ (r.paged ha)
    -- a free block that is a page would be in the list of pages
    have hlt : k < h.kSize := by
      refine Nat.lt_of_le_of_ne (hpart.k_le ha) fun hk => ?_
      subst hk
      obtain ⟨l, hl, -, hmem⟩ := r.lists h.kSize
      rw [hpage] at hl
      have hnil : l = [] := List.head?_eq_none_iff.mp hl.head.symm
      have := (hmem a).mpr ha
      rw [hnil] at this
      cases this
    obtain ⟨o, ⟨j, s⟩, hb, hs⟩ := (r.unpaired a.area).exists_other hpart ha hlt
    have hat : L.at ⟨a.area, o⟩ = some ⟨j, s⟩ := hb
    have hreserved : s = .reserved := by
      cases s with
      | free => exact absurd rfl hs
      | held => exact absurd hat (c.good.noHeld _ _)
      | reserved => rfl
    subst hreserved
    obtain ⟨u, hu, hblock⟩ := List.mem_map.mp (c.accounted _ j hat)
    have harea : u.block.area = a.area := by rw [hblock]
    refine ⟨u, hu, ⟨j, hblock ▸ hat⟩, a.offset, ?_, fun v hv hv' i hi hin => ?_⟩
    · have hinside := hpart.inside ha
      have := Nat.two_pow_pos k
      dsimp only at hinside
      omega
    · -- two blocks with a byte in common are the same
      have hi' : L a.area v.block.offset = some ⟨i, .reserved⟩ := by
        rw [← harea, ← hv']
        exact hi
      have heq := hpart.disjoint hi' ha hin inside_self
      rw [heq] at hi'
      cases hi'.symm.trans ha

/-! ## Free pages -/

theorem Complete.releasePage (c : Complete h L T U) (ha : L.at a = some ⟨h.kSize, .free⟩) :
    ∃ L', Complete (releasePage h a) L' T U ∧ (releasePage h a).kSize = h.kSize ∧
      (releasePage h a).pages = h.pages.erase a.area ∧
      ∀ x j, L'.at x = some ⟨j, .reserved⟩ ↔ L.at x = some ⟨j, .reserved⟩ := by
  have g := c.good
  obtain ⟨L', r', hheld, hleaves, hpages, hfresh, hkeeps, hcareful⟩ :=
    releasePage_spec g.represents g.noHeld ha g.pages
  have hL : ∀ x j, L'.at x = some ⟨j, .reserved⟩ ↔ L.at x = some ⟨j, .reserved⟩ :=
    fun x j => ⟨hkeeps x j, fun hx => (hleaves.reserved hx).1⟩
  obtain ⟨hroomy, hspares⟩ := hcareful c.measured.roomy
  refine ⟨L', ⟨?_, fun x j hx => c.accounted x j ((hL x j).mp hx), hleaves.kSize ▸ c.kSize,
    c.measured.frame (List.Subset.refl U) hroomy (fun _ hp => hleaves.extras ▸ hp)
      fun p hp => ?_⟩, hleaves.kSize, hpages, hL⟩
  case refine_2 => exact (hspares.outside (y := ⟨p, 0⟩) (g.extras_lt p hp) fun hq =>
    g.disjoint p hq hp).header
  refine g.frame (List.Sublist.refl U) (fun _ _ => rfl) hleaves r' hheld ?_ fun p hp => ?_
  · rw [hpages]
    exact g.pages.erase _
  · rw [hpages] at hp
    rw [hfresh]
    exact g.pages_lt p (List.mem_of_mem_erase hp)

/-- **The loop that frees pages** passes all its checks, and then there are no free pages. -/
theorem Complete.releasePages (c : Complete h L T U) {fuel : ℕ} (hfuel : h.pages.length ≤ fuel) :
    ∃ L', Complete (releasePages fuel h).1 L' T U ∧ (releasePages fuel h).2 = true ∧
      (releasePages fuel h).1.kSize = h.kSize ∧
      (releasePages fuel h).1.memDesc (releasePages fuel h).1.kSize = none ∧
      ∀ x j, L'.at x = some ⟨j, .reserved⟩ ↔ L.at x = some ⟨j, .reserved⟩ := by
  induction fuel generalizing h L with
  | zero =>
    refine ⟨L, c, rfl, rfl, ?_, fun x j => Iff.rfl⟩
    -- without pages there is nothing in the lists
    refine Option.eq_none_iff_forall_ne_some.mpr fun a ha => ?_
    have hpaged := c.good.represents.paged (c.good.represents.memDesc ha)
    rw [List.length_eq_zero_iff.mp (Nat.le_zero.mp hfuel)] at hpaged
    cases hpaged
  | succ fuel ih =>
    rw [Destroy.releasePages]
    split
    next hnone => exact ⟨L, c, rfl, rfl, hnone, fun x j => Iff.rfl⟩
    rename_i a hsome
    have ha : L.at a = some ⟨h.kSize, .free⟩ := c.good.represents.memDesc hsome
    rw [if_pos ((c.good.represents.isPage ha).mpr rfl)]
    obtain ⟨L1, c1, hkSize1, hpages1, hL1⟩ := c.releasePage ha
    have hlength : (BuddyMalloc.releasePage h a).pages.length ≤ fuel := by
      rw [hpages1, List.length_erase_of_mem (c.good.represents.paged ha)]
      omega
    obtain ⟨L', c', hok, hkSize, hnone, hL⟩ := ih c1 hlength
    exact ⟨L', c', hok, hkSize.trans hkSize1, hnone, fun x j => (hL x j).trans (hL1 x j)⟩

/-! ## The cleanup -/

/-- **`TryContextCleanup`** leaves the blocks of users alone, and reports success exactly when no
page is reserved in part. -/
theorem Complete.tryContextCleanup (c : Complete h L T U) :
    (∃ L', Complete (tryContextCleanup h).1 L' [] U) ∧ (tryContextCleanup h).2 ≠ .efault ∧
      ((tryContextCleanup h).2 = .success ↔ ¬ PartlyReserved h U) := by
  obtain ⟨L1, c1, hkSize1, hL1, -⟩ := c.freeDeferred c.length_le
  obtain ⟨L2, c2, hok, hkSize2, hnone, hL2⟩ := c1.releasePages (Nat.le_refl _)
  have hshared : PartlyReserved h U ↔ ∃ a k, L2.at a = some ⟨k, .free⟩ := by
    rw [← c2.shared_iff hnone, hkSize2, hkSize1, Good.partlyReserved_iff c.good]
    refine (Shared.congr fun u hu j => ?_).symm
    rw [hL2, hL1, and_iff_right]
    intro hmem
    exact (List.disjoint_of_nodup_append c.good.nodup) hmem (List.mem_map_of_mem hu)
  have hlists : ((List.range buddyMaxLog2Size).any fun i =>
      ((Destroy.releasePages (Destroy.freeDeferred (maxBlocks h) h).pages.length
        (Destroy.freeDeferred (maxBlocks h) h)).1.memDesc i).isSome) = true ↔
      PartlyReserved h U := by
    rw [hshared, List.any_eq_true]
    constructor
    · rintro ⟨i, -, hi⟩
      obtain ⟨a, ha⟩ := Option.isSome_iff_exists.mp hi
      exact ⟨a, i, c2.good.represents.memDesc ha⟩
    · rintro ⟨a, k, ha⟩
      have hle := (c2.good.represents.partition _ (c2.good.represents.paged ha)).k_le ha
      have hk := c2.good.kSize
      refine ⟨k, List.mem_range.mpr ?_, ?_⟩
      · dsimp only at hle
        rw [buddyMaxLog2Size]
        omega
      · obtain ⟨l, hl, -, hmem⟩ := c2.good.represents.lists k
        have hal := (hmem a).mpr ha
        rw [hl.head]
        cases l with
        | nil => cases hal
        | cons => rfl
  rw [Destroy.tryContextCleanup]
  generalize Destroy.releasePages _ _ = p at c2 hok hlists
  obtain ⟨h2, ok⟩ := p
  dsimp only at c2 hok hlists ⊢
  rw [hok, if_neg (by decide), ← hlists]
  split
  next hany => exact ⟨⟨L2, c2⟩, by rintro ⟨⟩, iff_of_false (by rintro ⟨⟩) (not_not.mpr hany)⟩
  next hany => exact ⟨⟨L2, c2⟩, by rintro ⟨⟩, iff_of_true rfl hany⟩

/-! ## Allocation, for any size -/

theorem header_le_of_buddyMalloc {env : MallocEnv} {ptr : Addr}
    (heq : buddyMalloc h size env = some (h', some ptr)) (hK : 6 ≤ h.kSize) :
    sizeHeader64 ≤ 2 ^ sizeLog2 size := by
  by_contra hlt
  have hlog : sizeLog2 size < 6 := by
    by_contra hge
    have : 2 ^ 6 ≤ 2 ^ sizeLog2 size := Nat.pow_le_pow_right (by decide) (Nat.le_of_not_lt hge)
    rw [sizeHeader64] at hlt
    omega
  have hpow : 2 ^ sizeLog2 size < sizeHeader64 := Nat.lt_of_not_le hlt
  have hzero : size ≠ 0 := by
    rintro rfl
    exact absurd hlog (by decide)
  have hsmall : ¬ intShift (sizeLog2 size) > 2 ^ h.kSize := by
    have : 2 ^ 6 ≤ 2 ^ h.kSize := Nat.pow_le_pow_right (by decide) hK
    rw [intShift_of_le (by omega)]
    rw [sizeHeader64] at hpow
    omega
  have htake : ∀ h a, takeBlock h (sizeLog2 size) a = none := by
    intro h a
    rw [takeBlock, if_pos (by omega)]
  rw [buddyMalloc, if_neg hzero] at heq
  dsimp only at heq
  rw [if_neg hsmall] at heq
  simp only [htake] at heq
  split at heq
  · split at heq <;> cases heq
  · split at heq
    · split at heq <;> cases heq
    · cases heq

theorem log2Ceil_le_six : ∀ n < 48, log2Ceil (UInt64.ofNat n) ≤ 6 := by decide +kernel

theorem toNat_sum_of_large (hK : 6 ≤ h.kSize) (hlarge : intShift (sizeLog2 size) > 2 ^ h.kSize) :
    (size + sizeHeader64.toUInt64).toNat = size.toNat + sizeHeader64 := by
  have hsum : (size + sizeHeader64.toUInt64).toNat = (size.toNat + sizeHeader64) % 2 ^ 64 :=
    UInt64.toNat_add _ _
  by_contra hwrap
  rw [hsum] at hwrap
  have hsize := size.toNat_lt
  have hlt : (size + sizeHeader64.toUInt64).toNat < 48 := by
    rw [hsum, sizeHeader64]
    rw [sizeHeader64] at hwrap
    omega
  -- what is left of the sum is less than a header
  have hlog : sizeLog2 size ≤ 6 := by
    rw [sizeLog2]
    split
    · decide
    · have heq := log2Ceil_le_six _ hlt
      rwa [UInt64.ofNat_toNat] at heq
  have hpow : 2 ^ 6 ≤ 2 ^ h.kSize := Nat.pow_le_pow_right (by decide) hK
  have hpow' : 2 ^ sizeLog2 size ≤ 2 ^ 6 := Nat.pow_le_pow_right (by decide) hlog
  rw [intShift_of_le (by omega)] at hlarge
  omega

theorem roomOf_le (h : Heap) (size : UInt64) : roomOf h size ≤ size.toNat := by
  rw [roomOf]
  split
  · exact Nat.le_refl _
  · exact Nat.zero_le _

theorem Complete.malloc (c : Complete h L T U) {env : MallocEnv} {res : Option Addr}
    (heq : buddyMalloc h size env = some (h', res)) :
    ∃ L', Complete h' L' T (give res (roomOf h size) U) ∧
      (∀ u ∈ U, Kept h L h' u.block) ∧
      ∀ ptr, res = some ptr → ¬ intShift (sizeLog2 size) > 2 ^ h.kSize →
        ∃ k ≤ sizeLog2 size, L'.at (blockOf ptr) = some ⟨k, .reserved⟩ := by
  have hroom : (∀ ptr, res = some ptr → sizeHeader64 + roomOf h size ≤ 2 ^ sizeLog2 size) ∧
      (¬ intShift (sizeLog2 size) > 2 ^ h.kSize → h.config.onDemandAlloc = true →
        sizeHeader64 + roomOf h size ≤ 2 ^ h.kSize) := by
    rw [roomOf]
    split
    next hsized => exact (hsized.room c.good.kSize).imp_left fun hroom _ _ => hroom
    refine ⟨fun ptr hptr => header_le_of_buddyMalloc (hptr ▸ heq) c.kSize, fun _ _ => ?_⟩
    have : 2 ^ 6 ≤ 2 ^ h.kSize := Nat.pow_le_pow_right (by decide) c.kSize
    rw [sizeHeader64]
    omega
  obtain ⟨L', g', -, hkSize, hnew, hstd, hcareful, hextras, hinfo⟩ :=
    c.good.malloc_of_room heq hroom.1 hroom.2
  obtain ⟨hroomy, hspares⟩ := hcareful c.kSize c.measured.roomy
  have hheader : ∀ p ∈ h.extras, h'.header ⟨p, 0⟩ = h.header ⟨p, 0⟩ := fun p hp =>
    (hspares.outside (y := ⟨p, 0⟩) (c.good.extras_lt p hp) fun hq =>
      c.good.disjoint p hq hp).header
  refine ⟨L', ⟨g', fun x j hx => ?_, hkSize ▸ c.kSize, hroomy, fun p hp => ?_, fun u hu hp => ?_⟩,
    fun u _ => c.good.kept hspares rfl, fun ptr hptr hsmall => ?_⟩
  · rcases hnew x j hx with ⟨ptr, rfl, hblock⟩ | hx
    · rw [give, List.map_cons, Allocation.block, hblock]
      exact List.mem_append_right _ List.mem_cons_self
    · have hmem := c.accounted x j hx
      cases res with
      | none => exact hmem
      | some ptr =>
        rw [give, List.map_cons]
        exact List.perm_middle.mem_iff.mpr (.tail _ hmem)
  · rcases hextras p hp with hp | ⟨hlarge, hptr⟩
    · rw [hheader p hp]
      exact c.measured.extraInfo p hp
    · have hsum := (hinfo _ hptr hlarge).2
      rw [blockOf_userSpace] at hsum
      rw [hsum, toNat_sum_of_large c.kSize hlarge]
      exact Nat.le_add_left _ _
  · -- what the user had before is no new block
    have hold : u ∈ U → sizeHeader64 + u.size ≤ (h'.header ⟨u.block.area, 0⟩).extraInfo.toNat := by
      intro hold
      rcases hextras _ hp with hp | ⟨-, rfl⟩
      · rw [hheader _ hp]
        exact c.measured.extraRoom u hold hp
      · have hblock : u.block = ⟨u.block.area, 0⟩ := Addr.ext rfl (g'.offset_of_extra hu hp)
        refine absurd (List.mem_append_right _ (List.mem_map_of_mem hold)) (?_ : u.block ∉ T ++ _)
        have hnot := g'.block_notMem
        rwa [Allocation.block, blockOf_userSpace, ← hblock] at hnot
    cases res with
    | none => exact hold hu
    | some ptr =>
      rcases List.mem_cons.mp hu with rfl | hu
      · have hlarge : intShift (sizeLog2 size) > 2 ^ h.kSize := by
          by_contra hsmall
          obtain ⟨k, -, hat, -⟩ := hstd ptr rfl hsmall
          exact g'.disjoint _ (g'.represents.paged hat) hp
        obtain ⟨hptr, hsum⟩ := hinfo ptr rfl hlarge
        have hblock : blockOf ptr = ⟨ptr.area, 0⟩ := (congrArg blockOf hptr).trans blockOf_userSpace
        rw [hblock] at hsum
        refine Nat.le_trans ?_ (Nat.le_of_eq (congrArg UInt64.toNat hsum).symm)
        rw [toNat_sum_of_large c.kSize hlarge, Nat.add_comm]
        exact Nat.add_le_add_right (roomOf_le h size) _
      · exact hold hu
  · obtain ⟨k, hk, hat, -⟩ := hstd ptr hptr hsmall
    exact ⟨k, hk, hat⟩

theorem Complete.buddyFree (c : Complete h L T (u :: U)) (w : ℕ) :
    ∃ L' T', Complete (buddyFree h w u.ptr) L' T' U ∧ (buddyFree h w u.ptr).self = h.self := by
  rw [c.good.buddyFree_eq]
  split
  next =>
    exact ⟨L, u.block :: T, c.push, rfl⟩
  next =>
    obtain ⟨L', c', hself, -⟩ := c.free
    exact ⟨L', T, c', hself⟩

end

/-! ## Every run -/

/-- What is kept: a context that was released is empty, and one that was not is complete. -/
structure Inv (s : Context) : Prop where
  onlyEmpty : OnlyEmpty s
  complete : s.released = false → ∃ L T, Complete s.heap L T s.given

section

variable {s t : Context} {L : Layouts} {T : List Addr} {act : Action}

theorem Complete.cleanup (c : Complete s.heap L T s.given) (hs : s.released = false) :
    (Detectable s.heap s.given → Inv (cleanup s)) ∧
      (OnlyEmpty (cleanup s) → Detectable s.heap s.given) := by
  obtain ⟨⟨L', c'⟩, hefault, hsuccess⟩ := c.tryContextCleanup
  rw [Destroy.cleanup]
  generalize Destroy.tryContextCleanup s.heap = r at c' hefault hsuccess
  obtain ⟨h, status⟩ := r
  dsimp only at c' hefault hsuccess ⊢
  cases status with
  | efault => exact absurd rfl hefault
  | success =>
    have hnot := hsuccess.mp rfl
    refine ⟨fun hd => ⟨fun _ => hd.resolve_right hnot, fun hfalse => ?_⟩, fun hempty => ?_⟩
    · cases hfalse
    · exact .inl (hempty rfl)
  | inuse =>
    have hpartly : PartlyReserved s.heap s.given := by
      by_contra hnot
      cases hsuccess.mpr hnot
    refine ⟨fun _ => ⟨fun htrue => ?_, fun _ => ⟨L', [], c'⟩⟩, fun _ => Or.inr hpartly⟩
    cases hs.symm.trans htrue

theorem Complete.find (c : Complete s.heap L T s.given) {u : Allocation} {ptr : Addr}
    (hfind : s.given.find? (fun u => decide (u.ptr = ptr)) = some u) :
    u.ptr = ptr ∧ Complete s.heap L T (u :: s.given.erase u) := by
  have hperm := List.perm_cons_erase (List.mem_of_find?_eq_some hfind)
  exact ⟨by simpa using List.find?_some hfind, c.perm hperm⟩

/-- **A call** keeps the invariant under the condition, and the property needs the condition. -/
theorem Inv.step (hs : Inv s) (hstep : Destroy.step s act = some t) :
    (DetectableAt s act t → Inv t) ∧ (OnlyEmpty t → DetectableAt s act t) := by
  unfold Destroy.step at hstep
  split at hstep
  · cases hstep
  rename_i hreleased
  have hreleased : s.released = false := Bool.eq_false_of_not_eq_true hreleased
  obtain ⟨L, T, c⟩ := hs.complete hreleased
  -- a step that does not release the context
  have hkeep : ∀ {h' : Heap} {L' : Layouts} {T' : List Addr} {U' : List Allocation},
      Complete h' L' T' U' → Inv { s with heap := h', given := U' } := by
    intro h' L' T' U' c'
    refine ⟨fun htrue => ?_, fun _ => ⟨L', T', c'⟩⟩
    cases hreleased.symm.trans htrue
  cases act with
  | giveBack =>
    refine ⟨fun _ => ?_, fun _ => trivial⟩
    cases T with
    | nil =>
      rw [c.good.check_nil] at hstep
      cases hstep
    | cons a T =>
      obtain ⟨h1, hcheck, L', c', -⟩ := c.giveBack
      rw [hcheck] at hstep
      cases hstep
      exact hkeep c'
  | malloc size env =>
    refine ⟨fun _ => ?_, fun _ => trivial⟩
    obtain ⟨⟨h', res⟩, heq, rfl⟩ := Option.map_eq_some_iff.mp hstep
    obtain ⟨L', c', -⟩ := c.malloc heq
    exact hkeep c'
  | free w ptr =>
    dsimp only at hstep
    split at hstep
    next u hfind =>
      obtain ⟨rfl, cu⟩ := c.find hfind
      obtain ⟨L', T', c', hself⟩ := cu.buddyFree w
      -- a block that waits is not freed yet, so its header is the same
      have hsame : s.heap.self ≠ w →
          (Detectable (buddyFree s.heap w u.ptr) (s.given.erase u) ↔
            Detectable s.heap (s.given.erase u)) := by
        intro hw
        rw [cu.good.buddyFree_eq, if_pos hw]
        exact Iff.rfl
      rw [hself] at hstep
      split at hstep
      next hpending =>
        obtain ⟨hw, hpending⟩ := hpending
        cases hstep
        obtain ⟨hinv, hback⟩ := Complete.cleanup
          (s := { s with heap := buddyFree s.heap w u.ptr, given := s.given.erase u }) c'
          hreleased
        refine ⟨fun hd => hinv ((hsame hw).mpr (hd hw hpending u hfind)), ?_⟩
        intro hempty _ _ v hv
        cases hfind.symm.trans hv
        exact (hsame hw).mp (hback hempty)
      next hpending =>
        cases hstep
        exact ⟨fun _ => hkeep c', fun _ hw hp => absurd ⟨hw, hp⟩ hpending⟩
    next => cases hstep
  | write ptr x hd next prev =>
    refine ⟨fun _ => ?_, fun _ => trivial⟩
    dsimp only at hstep
    split at hstep
    next u hfind =>
      split at hstep
      next hx =>
        cases hstep
        exact hkeep (c.write (List.mem_of_find?_eq_some hfind) hx hd next prev)
      next => cases hstep
    next => cases hstep
  | destroy =>
    cases hstep
    exact c.cleanup hreleased

/-- **The contexts that are released are empty** throughout a run exactly when every cleanup finds
no reserved block, or a page that is reserved in part. -/
theorem onlyEmpty_iff {self : ℕ} {config : BuddyParameter} {header : Addr → BuddyHeader}
    {content : Links Addr} {page : Bool} {h : Heap}
    (hinit : buddyInit self config header content page = some h) (hk : h.kSize ≤ 30)
    (acts : List Action) :
    Always step OnlyEmpty ⟨h, [], false, false⟩ acts ↔
      AllSteps step DetectableAt ⟨h, [], false, false⟩ acts := by
  obtain ⟨L, c⟩ := complete_buddyInit hinit hk
  refine always_iff_allSteps (I := Inv) ⟨nofun, fun _ => ⟨L, [], c⟩⟩ (fun s hs => hs.onlyEmpty)
    (fun s act t hs hstep hd => (hs.step hstep).1 hd)
    fun s act t hs hstep hempty => (hs.step hstep).2 hempty

end

/-! ## Two runs -/

def smallContext : Context := ⟨smallHeap.get rfl, [], false, false⟩

/-- The context ends while a block of 64 bytes is in use, which another thread frees later. -/
theorem onlyEmpty_iff_partOfPage : Always step OnlyEmpty smallContext
    [.malloc 16 ⟨true, true⟩, .destroy, .free 2 ⟨0, 48⟩] :=
  (onlyEmpty_iff (h := smallHeap.get rfl) (Option.some_get (x := smallHeap) rfl).symm
    (by decide +kernel) _).mpr (by decide +kernel)

/-- An extra block, and a block that is a page, are not noticed: the context ends while a block is
in use. -/
theorem released_not_empty :
    ¬ Always step OnlyEmpty smallContext [.malloc 300 ⟨true, true⟩, .destroy] ∧
      ¬ Always step OnlyEmpty smallContext [.malloc 208 ⟨true, true⟩, .destroy] := by
  have hextra : (exec step smallContext [.malloc 300 ⟨true, true⟩, .destroy]).map
      (fun s => (s.released, s.given)) = some (true, [⟨⟨1, 48⟩, 300⟩]) := by
    decide +kernel
  have hpage : (exec step smallContext [.malloc 208 ⟨true, true⟩, .destroy]).map
      (fun s => (s.released, s.given)) = some (true, [⟨⟨0, 48⟩, 208⟩]) := by
    decide +kernel
  constructor
  · intro hempty
    obtain ⟨t, ht, heq⟩ := Option.map_eq_some_iff.mp hextra
    obtain ⟨hreleased, hgiven⟩ := Prod.ext_iff.mp heq
    cases hgiven.symm.trans (hempty.exec ht hreleased)
  · intro hempty
    obtain ⟨t, ht, heq⟩ := Option.map_eq_some_iff.mp hpage
    obtain ⟨hreleased, hgiven⟩ := Prod.ext_iff.mp heq
    cases hgiven.symm.trans (hempty.exec ht hreleased)

end CloudNfs.BuddyMalloc.Destroy
