import CloudNfs.BuddyRoom
import Mathlib.Order.Bounds.Basic

/-!
# The statistics of the buddy allocator (`BuddyMalloc/BuddyMalloc.c`)

Every context counts its pages, the bytes of them that are in use, and what the system has given to
it. The counters are kept up to date in passing, wherever a page is added, reserved, freed or given
back, and every counter has a watermark.

* `newStdPage`, `garbageStdPages`, `allocLargeBlock`, `reserveBlock`, `buddyMalloc`,
  `buddyFreeBlock` — the allocator, with its counters.
-/

namespace CloudNfs.BuddyMalloc.Stats

open BuddyBlocks DoublyLinked
open Destroy (roomOf)

/-! ## Counters -/

/-- `buddy_stats_t`, without `NbStdPages` and `NbStdUsed`. -/
structure BuddyStats where
  /-- `TotalMemSpace`: what the system has given -/
  totalMemSpace : UInt64
  wmTotalMemSpace : UInt64
  /-- `StdMemSpace`: the standard pages -/
  stdMemSpace : UInt64
  wmStdMemSpace : UInt64
  /-- `StdUsedSpace`: the reserved blocks of standard pages -/
  stdUsedSpace : UInt64
  wmStdUsedSpace : UInt64
  stdPageSize : UInt64
  wmNbStdUsed : UInt32
  /-- `ExtraMemSpace`: the extra blocks -/
  extraMemSpace : UInt64
  wmExtraMemSpace : UInt64
  minExtraPageSize : UInt64
  maxExtraPageSize : UInt64
  nbExtraPages : UInt32
  wmNbExtraPages : UInt32

structure ThreadContext where
  /-- the heap, with `NbStdPages` and `NbStdUsed` -/
  heap : Heap
  stats : BuddyStats

/-- `UpdateStats_InsertStdPage`. -/
def BuddyStats.insertStdPage (s : BuddyStats) : BuddyStats :=
  { s with
    totalMemSpace := s.totalMemSpace + s.stdPageSize
    wmTotalMemSpace := if s.totalMemSpace + s.stdPageSize > s.wmTotalMemSpace then
      s.totalMemSpace + s.stdPageSize else s.wmTotalMemSpace
    stdMemSpace := s.stdMemSpace + s.stdPageSize
    wmStdMemSpace := if s.stdMemSpace + s.stdPageSize > s.wmStdMemSpace then
      s.stdMemSpace + s.stdPageSize else s.wmStdMemSpace }

/-- `UpdateStats_RemoveStdPage`. -/
def BuddyStats.removeStdPage (s : BuddyStats) : BuddyStats :=
  { s with
    totalMemSpace := s.totalMemSpace - s.stdPageSize
    stdMemSpace := s.stdMemSpace - s.stdPageSize }

/-- `UpdateStats_UseStdPage`, with the new `NbStdUsed`. -/
def BuddyStats.useStdPage (s : BuddyStats) (nbStdUsed : UInt32) : BuddyStats :=
  { s with wmNbStdUsed := if nbStdUsed > s.wmNbStdUsed then nbStdUsed else s.wmNbStdUsed }

/-- `UpdateStats_UseStdMemSpace`. -/
def BuddyStats.useStdMemSpace (s : BuddyStats) (amount : UInt64) : BuddyStats :=
  { s with
    stdUsedSpace := s.stdUsedSpace + amount
    wmStdUsedSpace := if s.stdUsedSpace + amount > s.wmStdUsedSpace then
      s.stdUsedSpace + amount else s.wmStdUsedSpace }

/-- `UpdateStats_FreeStdMemSpace`. -/
def BuddyStats.freeStdMemSpace (s : BuddyStats) (amount : UInt64) : BuddyStats :=
  { s with stdUsedSpace := s.stdUsedSpace - amount }

/-- `UpdateStats_AddExtraPage`. -/
def BuddyStats.addExtraPage (s : BuddyStats) (allocSize : UInt64) : BuddyStats :=
  { s with
    totalMemSpace := s.totalMemSpace + allocSize
    wmTotalMemSpace := if s.totalMemSpace + allocSize > s.wmTotalMemSpace then
      s.totalMemSpace + allocSize else s.wmTotalMemSpace
    extraMemSpace := s.extraMemSpace + allocSize
    wmExtraMemSpace := if s.extraMemSpace + allocSize > s.wmExtraMemSpace then
      s.extraMemSpace + allocSize else s.wmExtraMemSpace
    minExtraPageSize := if s.minExtraPageSize > allocSize ∨ s.minExtraPageSize = 0 then
      allocSize else s.minExtraPageSize
    maxExtraPageSize := if s.maxExtraPageSize < allocSize then allocSize else s.maxExtraPageSize
    nbExtraPages := s.nbExtraPages + 1
    wmNbExtraPages := if s.nbExtraPages + 1 > s.wmNbExtraPages then
      s.nbExtraPages + 1 else s.wmNbExtraPages }

/-- `UpdateStats_RemoveExtraPage`. -/
def BuddyStats.removeExtraPage (s : BuddyStats) (allocSize : UInt64) : BuddyStats :=
  { s with
    totalMemSpace := s.totalMemSpace - allocSize
    extraMemSpace := s.extraMemSpace - allocSize
    nbExtraPages := s.nbExtraPages - 1 }

/-! ## The allocator -/

def newStdPage (c : ThreadContext) (alloc : Bool) : ThreadContext × Option Addr :=
  match BuddyMalloc.newStdPage c.heap alloc with
  | (h, some a) => (⟨h, c.stats.insertStdPage⟩, some a)
  | (h, none) => (⟨h, c.stats⟩, none)

def garbageStdPages (c : ThreadContext) (a : Addr) : ThreadContext :=
  if c.heap.config.freeAreas = false then c
  else if c.heap.nbStdPages ≤ c.heap.config.keepMinimum then c
  else if c.heap.nbStdPages ≤ c.heap.config.keepFactor * c.heap.nbStdUsed then c
  else ⟨releasePage c.heap a, c.stats.removeStdPage⟩

def allocLargeBlock (c : ThreadContext) (size : UInt64) (alloc : Bool) :
    ThreadContext × Option Addr :=
  let totalSize := size + sizeHeader64.toUInt64
  match BuddyMalloc.allocLargeBlock c.heap size alloc with
  | (h, some ptr) => (⟨h, c.stats.addExtraPage totalSize⟩, some ptr)
  | (h, none) => (⟨h, c.stats⟩, none)

def freeLargeBlock (c : ThreadContext) (a : Addr) : ThreadContext :=
  ⟨BuddyMalloc.freeLargeBlock c.heap a, c.stats.removeExtraPage (c.heap.header a).extraInfo⟩

/-- The end of `BuddyMalloc`, with a free block that is large enough. -/
def reserveBlock (c : ThreadContext) (sizelog2 : ℕ) (allocation : UInt64) (a : Addr) :
    ThreadContext × Option Addr :=
  let h := removeFreeBlock c.heap a
  let stats := if isPage h a then c.stats.useStdPage (h.nbStdUsed + 1) else c.stats
  let (h, ptr) := BuddyMalloc.reserveBlock c.heap sizelog2 a
  (⟨h, stats.useStdMemSpace allocation⟩, ptr)

/-- `reserveBlock`, for the block that `BuddyMalloc` has found. -/
def takeBlock (c : ThreadContext) (sizelog2 : ℕ) (allocation : UInt64) (a : Addr) :
    Option (ThreadContext × Option Addr) :=
  if 2 ^ sizelog2 < sizeHeader64 + minAllocSize then none
  else some (reserveBlock c sizelog2 allocation a)

/-- `BuddyMalloc`, when nothing is to be freed for other threads. -/
def buddyMalloc (c : ThreadContext) (size : UInt64) (env : MallocEnv) :
    Option (ThreadContext × Option Addr) :=
  if size = 0 then some (c, none)
  else
    let sizelog2 := sizeLog2 size
    let allocation := intShift sizelog2
    if allocation > 2 ^ c.heap.kSize then
      if c.heap.config.extraAlloc then some (allocLargeBlock c size env.extra)
      else some (⟨{ c.heap with errno := .outofmem }, c.stats⟩, none)
    else
      let i := firstList c.heap.memDesc (buddyMaxLog2Size - sizelog2) sizelog2
      if i < buddyMaxLog2Size then
        match c.heap.memDesc i with
        | some a => takeBlock c sizelog2 (UInt64.ofNat allocation) a
        | none => none
      else if c.heap.config.onDemandAlloc then
        match newStdPage c env.page with
        | (c, some a) => takeBlock c sizelog2 (UInt64.ofNat allocation) a
        | (c, none) => some (⟨{ c.heap with errno := .malloc }, c.stats⟩, none)
      else some (⟨{ c.heap with errno := .outofmem }, c.stats⟩, none)

/-- `__BuddyFree`. -/
def buddyFreeBlock (c : ThreadContext) (a : Addr) : ThreadContext :=
  let h := c.heap
  if (h.header a).basePtr = none then freeLargeBlock c a
  else if a.offset > intShift (h.header a).baseKSize then ⟨{ h with errno := .einval }, c.stats⟩
  else
    let stats := c.stats.freeStdMemSpace (UInt64.ofNat (intShift (h.header a).kSize))
    let h :=
      { h with
        header := Function.update h.header a
          { h.header a with status := .freeBlock, magicNumber := .free } }
    let (h, a) := mergeLoop buddyMaxLog2Size h a
    let h := insertFreeBlock h a
    if isPage h a then
      let h := { h with nbStdUsed := h.nbStdUsed - 1 }
      if h.config.freeAreas then garbageStdPages ⟨h, stats⟩ a else ⟨h, stats⟩
    else ⟨h, stats⟩

/-- `BuddyFree` by the thread `w`. -/
def buddyFree (c : ThreadContext) (w : ℕ) (ptr : Addr) : ThreadContext :=
  let a := blockOf ptr
  let hd := c.heap.header a
  match hd.status with
  | .freeBlock => c
  | .reservedBlock =>
    if hd.magicNumber ≠ .used then c
    else if hd.ownerThread ≠ w then
      ⟨{ c.heap with
          content := c.heap.content.setNext (some a) c.heap.toBeFreedList
          toBeFreedList := some a }, c.stats⟩
    else buddyFreeBlock c a

def buddyInit (self : ℕ) (config : BuddyParameter) (header : Addr → BuddyHeader)
    (content : Links Addr) (page : Bool) : Option ThreadContext :=
  if config.memoryAreaSize ≤ (sizeHeader64 + minAllocSize).toUInt64 then none
  else
    let m := log2Ceil config.memoryAreaSize
    if m = 0 then none
    else
      let h : Heap :=
        ⟨self, config, m, fun _ => none, none, 0, 0, .success, header, content, [], [], 0⟩
      let stats : BuddyStats :=
        ⟨0, 0, 0, 0, 0, 0, UInt64.ofNat (intShift m), 0, 0, 0, 0, 0, 0, 0⟩
      some (newStdPage ⟨h, stats⟩ page).1

/-! ## Runs -/

/-- A context between two steps. -/
structure State where
  now : ThreadContext
  /-- what `BuddyMalloc` has returned for it and was not freed since -/
  given : List Allocation
  before : List ThreadContext
  /-- a block was so small that its buddy was written over its size -/
  overwritten : Bool

/-- A step of the thread that the context belongs to, or of another thread. -/
inductive Action where
  /-- the thread takes a block off the list of other threads and frees it -/
  | giveBack
  /-- the rest of `BuddyMalloc` -/
  | malloc (size : UInt64) (env : MallocEnv)
  /-- `BuddyFree` by a thread -/
  | free (w : ℕ) (ptr : Addr)
  /-- somebody writes to memory that is in use -/
  | write (ptr x : Addr) (hd : BuddyHeader) (next prev : Option Addr)

def systemBytes (h : Heap) : ℕ :=
  h.pages.length * 2 ^ h.kSize + (h.extras.map fun p => (h.header ⟨p, 0⟩).extraInfo.toNat).sum

def State.next (s : State) (c : ThreadContext) (given : List Allocation) : State :=
  { s with now := c, given, before := s.now :: s.before }

/-- A step. What is freed or written to was returned by `BuddyMalloc` and not freed since. The
system has less than `2 ^ 64` bytes, and nothing is known about a context after a header was
overwritten. -/
def step (s : State) (act : Action) : Option State :=
  if s.overwritten then none
  else
    match act with
    | .giveBack =>
      match checkBlocksToBeFreed s.now.heap with
      | some (h, a) => some (s.next (buddyFreeBlock ⟨h, s.now.stats⟩ a) s.given)
      | none => none
    | .malloc size env =>
      match buddyMalloc s.now size env with
      | some (c, res) =>
        if systemBytes c.heap < 2 ^ 64 then
          some (s.next c (give res (roomOf s.now.heap size) s.given))
        else none
      | none => some { s with overwritten := true }
    | .free w ptr =>
      match s.given.find? fun u => decide (u.ptr = ptr) with
      | some u => some (s.next (buddyFree s.now w ptr) (s.given.erase u))
      | none => none
    | .write ptr x hd next prev =>
      match s.given.find? fun u => decide (u.ptr = ptr) with
      | some u =>
        if Within u x then
          some (s.next ⟨userWrite s.now.heap u x hd next prev, s.now.stats⟩ s.given)
        else none
      | none => none

/-! ## The property -/

/-- The reserved blocks of a page from an offset on, which are met by going from header to
header. -/
def reservedFrom (h : Heap) (p : ℕ) : ℕ → ℕ → List Addr
  | 0, _ => []
  | fuel + 1, o =>
    if o < 2 ^ h.kSize then
      let rest := reservedFrom h p fuel (o + 2 ^ (h.header ⟨p, o⟩).kSize)
      if (h.header ⟨p, o⟩).status = .reservedBlock then ⟨p, o⟩ :: rest else rest
    else []

/-- The reserved blocks of a page. -/
def reservedIn (h : Heap) (p : ℕ) : List Addr := reservedFrom h p (2 ^ h.kSize) 0

/-- The counters that have a watermark. -/
inductive Counter where
  | totalMemSpace
  | stdMemSpace
  | stdUsedSpace
  | nbStdUsed
  | extraMemSpace
  | nbExtraPages

def Counter.value : Counter → ThreadContext → ℕ
  | .totalMemSpace, c => c.stats.totalMemSpace.toNat
  | .stdMemSpace, c => c.stats.stdMemSpace.toNat
  | .stdUsedSpace, c => c.stats.stdUsedSpace.toNat
  | .nbStdUsed, c => c.heap.nbStdUsed.toNat
  | .extraMemSpace, c => c.stats.extraMemSpace.toNat
  | .nbExtraPages, c => c.stats.nbExtraPages.toNat

def Counter.watermark : Counter → ThreadContext → ℕ
  | .totalMemSpace, c => c.stats.wmTotalMemSpace.toNat
  | .stdMemSpace, c => c.stats.wmStdMemSpace.toNat
  | .stdUsedSpace, c => c.stats.wmStdUsedSpace.toNat
  | .nbStdUsed, c => c.stats.wmNbStdUsed.toNat
  | .extraMemSpace, c => c.stats.wmExtraMemSpace.toNat
  | .nbExtraPages, c => c.stats.wmNbExtraPages.toNat

structure Exact (s : State) : Prop where
  intact : s.overwritten = false
  /-- the reserved blocks -/
  stdUsedSpace : s.now.stats.stdUsedSpace.toNat =
    ((s.now.heap.pages.flatMap (reservedIn s.now.heap)).map fun a =>
      2 ^ (s.now.heap.header a).kSize).sum
  stdMemSpace : s.now.stats.stdMemSpace.toNat =
    s.now.heap.nbStdPages.toNat * 2 ^ s.now.heap.kSize
  totalMemSpace : s.now.stats.totalMemSpace.toNat =
    s.now.stats.stdMemSpace.toNat + s.now.stats.extraMemSpace.toNat
  /-- the pages with a reserved block -/
  nbStdUsed : s.now.heap.nbStdUsed.toNat =
    (s.now.heap.pages.filter fun p => reservedIn s.now.heap p ≠ []).length
  watermark : ∀ m : Counter,
    IsGreatest (m.value '' {c | c ∈ s.now :: s.before}) (m.watermark s.now)

/-! ## The condition -/

/-- `BuddyMalloc` finds a block in its lists, or adds a page, and what it counts is the size of the
block: `1 << sizelog2`, as an `int`, is that of the block, or of the page if this is smaller. The
number of pages is an `unsigned int`. -/
def CountsMalloc (h : Heap) (size : UInt64) (env : MallocEnv) : Prop :=
  Room.GivesNothing h size env ∨ intShift (sizeLog2 size) > 2 ^ h.kSize ∨
    (sizeHeader64 + minAllocSize ≤ 2 ^ sizeLog2 size ∧
      intShift (sizeLog2 size) = 2 ^ min (sizeLog2 size) h.kSize ∧
      ((∃ i, sizeLog2 size ≤ i ∧ i < buddyMaxLog2Size ∧ h.memDesc i ≠ none) ∨
        h.pages.length + 1 < 2 ^ 32))

/-- Whether a list from `MemDesc[k]` on has a block can be computed. -/
instance (h : Heap) (k : ℕ) :
    Decidable (∀ i, k ≤ i → i < buddyMaxLog2Size → h.memDesc i = none) :=
  decidable_of_iff (∀ i ∈ List.range buddyMaxLog2Size, k ≤ i → h.memDesc i = none)
    ⟨fun hall i hi hlt => hall i (List.mem_range.mpr hlt) hi,
      fun hall i hmem hi => hall i hi (List.mem_range.mp hmem)⟩

instance (h : Heap) (k : ℕ) :
    Decidable (∃ i, k ≤ i ∧ i < buddyMaxLog2Size ∧ h.memDesc i ≠ none) :=
  decidable_of_iff (∃ i ∈ List.range buddyMaxLog2Size, k ≤ i ∧ h.memDesc i ≠ none)
    ⟨fun ⟨i, hmem, hi, hsome⟩ => ⟨i, hi, List.mem_range.mp hmem, hsome⟩,
      fun ⟨i, hi, hlt, hsome⟩ => ⟨i, List.mem_range.mpr hlt, hi, hsome⟩⟩

instance (h : Heap) (size : UInt64) (env : MallocEnv) : Decidable (CountsMalloc h size env) :=
  inferInstanceAs (Decidable ((size = 0 ∨ _ ∧ _ ∨ _ ∧ _ ∧ _) ∨ _ ∨ _ ∧ _ ∧ (_ ∨ _)))

/-- The condition of a step. -/
def Counts (s : State) : Action → State → Prop
  | .malloc size env, _ => CountsMalloc s.now.heap size env
  | _, _ => True

instance (s t : State) : ∀ act, Decidable (Counts s act t)
  | .malloc size env => inferInstanceAs (Decidable (CountsMalloc s.now.heap size env))
  | .giveBack => isTrue trivial
  | .free _ _ => isTrue trivial
  | .write _ _ _ _ _ => isTrue trivial

section

variable {c c' : ThreadContext} {a : Addr} {size : UInt64} {env : MallocEnv}

/-! ## The counters do not change what the allocator does -/

@[simp] theorem garbageStdPages_heap :
    (garbageStdPages c a).heap = BuddyMalloc.garbageStdPages c.heap a := by
  rw [garbageStdPages, BuddyMalloc.garbageStdPages]
  split
  · rfl
  split
  · rfl
  split
  · rfl
  · rfl

theorem buddyFreeBlock_heap : (buddyFreeBlock c a).heap = BuddyMalloc.buddyFreeBlock c.heap a := by
  rw [buddyFreeBlock, BuddyMalloc.buddyFreeBlock]
  dsimp only
  split
  · rfl
  split
  · rfl
  split
  · split
    · exact garbageStdPages_heap
    · rfl
  · rfl

theorem buddyFree_eq {L : Layouts} {T : List Addr} {U : List Allocation} {u : Allocation}
    (g : Good c.heap L T (u :: U)) (w : ℕ) : buddyFree c w u.ptr =
      if c.heap.self ≠ w then
        ⟨{ c.heap with
            content := c.heap.content.setNext (some u.block) c.heap.toBeFreedList
            toBeFreedList := some u.block }, c.stats⟩
      else buddyFreeBlock c u.block := by
  obtain ⟨hstatus, hmagic, howner⟩ := g.header (g.given u (.head _)).2
  have hblock : blockOf u.ptr = u.block := rfl
  simp only [buddyFree, hblock, hstatus, hmagic, howner, ne_eq, not_true_eq_false, if_false]

/-- What `BuddyMalloc` can do: nothing, or it finds an extra block, a block of a list, or a page. -/
inductive Mallocs (c : ThreadContext) (size : UInt64) (env : MallocEnv) :
    ThreadContext → Option Addr → Prop where
  | nothing (e : BuddyErr) (h : Room.GivesNothing c.heap size env) :
    Mallocs c size env ⟨{ c.heap with errno := e }, c.stats⟩ none
  | extra (hlarge : intShift (sizeLog2 size) > 2 ^ c.heap.kSize)
      (hallowed : c.heap.config.extraAlloc = true) :
    Mallocs c size env
      ⟨(BuddyMalloc.allocLargeBlock c.heap size true).1,
        c.stats.addExtraPage (size + sizeHeader64.toUInt64)⟩
      (some (userSpace ⟨c.heap.fresh, 0⟩))
  | block (i : ℕ) (a : Addr) (hsmall : ¬ intShift (sizeLog2 size) > 2 ^ c.heap.kSize)
      (hle : sizeLog2 size ≤ i) (hlt : i < buddyMaxLog2Size) (ha : c.heap.memDesc i = some a)
      (hroom : sizeHeader64 + minAllocSize ≤ 2 ^ sizeLog2 size) :
    Mallocs c size env
      (reserveBlock c (sizeLog2 size) (UInt64.ofNat (intShift (sizeLog2 size))) a).1
      (some (userSpace a))
  | page (hsmall : ¬ intShift (sizeLog2 size) > 2 ^ c.heap.kSize)
      (hnone : ∀ i, sizeLog2 size ≤ i → i < buddyMaxLog2Size → c.heap.memDesc i = none)
      (hroom : sizeHeader64 + minAllocSize ≤ 2 ^ sizeLog2 size)
      (hpage : ¬ Room.GivesNothing c.heap size env) :
    Mallocs c size env
      (reserveBlock ⟨(BuddyMalloc.newStdPage c.heap true).1, c.stats.insertStdPage⟩
        (sizeLog2 size) (UInt64.ofNat (intShift (sizeLog2 size))) ⟨c.heap.fresh, 0⟩).1
      (some (userSpace ⟨c.heap.fresh, 0⟩))

/-- **`BuddyMalloc`** does one of these, to the heap it does what it does without counters, and it
breaks off only when a block would be too small for its header. -/
theorem buddyMalloc_cases (c : ThreadContext) (size : UInt64) (env : MallocEnv) :
    (∃ c' res, buddyMalloc c size env = some (c', res) ∧
      BuddyMalloc.buddyMalloc c.heap size env = some (c'.heap, res) ∧
      Mallocs c size env c' res) ∨
    (buddyMalloc c size env = none ∧ ¬ CountsMalloc c.heap size env) := by
  rw [buddyMalloc, BuddyMalloc.buddyMalloc]
  by_cases hzero : size = 0
  · rw [if_pos hzero, if_pos hzero]
    exact .inl ⟨c, none, rfl, rfl, .nothing c.heap.errno (.inl hzero)⟩
  rw [if_neg hzero, if_neg hzero]
  dsimp only
  by_cases hlarge : intShift (sizeLog2 size) > 2 ^ c.heap.kSize
  · -- an extra block
    rw [if_pos hlarge, if_pos hlarge]
    cases hallowed : c.heap.config.extraAlloc with
    | false =>
      exact .inl ⟨_, none, rfl, rfl, .nothing _ (.inr (.inl ⟨hlarge, .inl hallowed⟩))⟩
    | true =>
      rw [allocLargeBlock, BuddyMalloc.allocLargeBlock, hallowed]
      cases hextra : env.extra with
      | false =>
        exact .inl ⟨_, none, rfl, rfl, .nothing _ (.inr (.inl ⟨hlarge, .inr hextra⟩))⟩
      | true =>
        have hcase : Mallocs c size env _ _ := .extra hlarge hallowed
        rw [BuddyMalloc.allocLargeBlock, hallowed] at hcase
        exact .inl ⟨_, _, rfl, rfl, hcase⟩
  rw [if_neg hlarge, if_neg hlarge]
  have hlists := Room.firstList_none c.heap.memDesc (buddyMaxLog2Size - sizeLog2 size)
    (sizeLog2 size)
  obtain ⟨hle, hfound⟩ :=
    firstList_spec c.heap.memDesc (buddyMaxLog2Size - sizeLog2 size) (sizeLog2 size)
  generalize firstList c.heap.memDesc _ _ = i at hlists hle hfound ⊢
  -- what is found is too small for its header
  have hbreak : 2 ^ sizeLog2 size < sizeHeader64 + minAllocSize →
      ¬ Room.GivesNothing c.heap size env → ¬ CountsMalloc c.heap size env := by
    rintro hlt hgives (hnothing | hextra | ⟨hroom, -⟩)
    · exact hgives hnothing
    · exact hlarge hextra
    · exact absurd hroom (Nat.not_le.mpr hlt)
  by_cases hi : i < buddyMaxLog2Size
  · -- a block of a list
    rw [if_pos hi, if_pos hi]
    obtain ⟨a, ha⟩ := hfound (by omega)
    have hgives : ¬ Room.GivesNothing c.heap size env := by
      rintro (hnothing | hnothing | ⟨-, hnothing, -⟩)
      · exact hzero hnothing
      · exact hlarge hnothing.1
      · cases (hnothing i hle hi).symm.trans ha
    simp only [ha, takeBlock, BuddyMalloc.takeBlock]
    by_cases hroom : 2 ^ sizeLog2 size < sizeHeader64 + minAllocSize
    · rw [if_pos hroom]
      exact .inr ⟨rfl, hbreak hroom hgives⟩
    · rw [if_neg hroom, if_neg hroom]
      exact .inl ⟨_, _, rfl, rfl, .block i a hlarge hle hi ha (Nat.not_lt.mp hroom)⟩
  rw [if_neg hi, if_neg hi]
  have hnone : ∀ j, sizeLog2 size ≤ j → j < buddyMaxLog2Size → c.heap.memDesc j = none :=
    fun j hj hlt => hlists (by omega) j hj (by omega)
  cases hdemand : c.heap.config.onDemandAlloc with
  | false =>
    exact .inl ⟨_, none, rfl, rfl,
      .nothing _ (.inr (.inr ⟨hlarge, hnone, .inl hdemand⟩))⟩
  | true =>
    rw [newStdPage]
    cases hpage : env.page with
    | false =>
      exact .inl ⟨_, none, rfl, rfl,
        .nothing _ (.inr (.inr ⟨hlarge, hnone, .inr hpage⟩))⟩
    | true =>
      -- a new page
      have hgives : ¬ Room.GivesNothing c.heap size env := by
        rintro (hnothing | hnothing | ⟨-, -, hnothing | hnothing⟩)
        · exact hzero hnothing
        · exact hlarge hnothing.1
        · cases hdemand.symm.trans hnothing
        · cases hpage.symm.trans hnothing
      simp only [newStdPage_eq, takeBlock, BuddyMalloc.takeBlock, if_true]
      by_cases hroom : 2 ^ sizeLog2 size < sizeHeader64 + minAllocSize
      · rw [if_pos hroom]
        exact .inr ⟨rfl, hbreak hroom hgives⟩
      · rw [if_neg hroom, if_neg hroom]
        exact .inl ⟨_, _, rfl, rfl, .page hlarge hnone (Nat.not_lt.mp hroom) hgives⟩

end

end CloudNfs.BuddyMalloc.Stats
