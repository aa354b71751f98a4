import CloudNfs.BuddyBlocks
import CloudNfs.DoublyLinked

/-!
# The buddy allocator (`BuddyMalloc/BuddyMalloc.c`)

Every thread has a context of its own, with standard pages of `2 ^ k_size` bytes that the system has
given to it. A block starts with a header, and what comes after the header is given to the user.
While a block is free, the links of its list are there. The free blocks of `2 ^ k` bytes are in the
list `MemDesc[k]`. What is too large for a page is an extra block, which the system gives and takes.

A block that is freed by another thread is put on a list of the thread it belongs to. That thread
frees the blocks of the list the next time it allocates something.

Addresses are pairs of an area that the system has given and an offset in it, so that areas do not
overlap. Statistics are in `BuddyStats`, except for those that the garbage collection looks at. The
messages about overwritten blocks are left out.
-/

namespace CloudNfs.BuddyMalloc

open Function (update)

open BuddyBlocks DoublyLinked

/-! ## Data -/

/-- `size_header64`, for 64 bits and without the fields for debugging. -/
def sizeHeader64 : ℕ := 48

/-- `MIN_ALLOC_SIZE`: the two links of a free block. -/
def minAllocSize : ℕ := 16

def buddyMaxLog2Size : ℕ := 64

@[ext]
structure Addr where
  area : ℕ
  offset : ℕ
  deriving DecidableEq

/-- `BuddyBlockStatus_t`. -/
inductive BuddyBlockStatus where
  | freeBlock
  | reservedBlock
  deriving DecidableEq

inductive MagicNumber where
  | free
  | used
  | other
  deriving DecidableEq

/-- `BuddyHeader_t`. -/
structure BuddyHeader where
  /-- `Base_ptr`: the page the block is in; `none` for an extra block -/
  basePtr : Option ℕ
  magicNumber : MagicNumber
  /-- the thread that has allocated the block -/
  ownerThread : ℕ
  /-- `StdInfo.Base_kSize`: the size of the page -/
  baseKSize : ℕ
  /-- `StdInfo.k_size`: the size of the block -/
  kSize : ℕ
  /-- `ExtraInfo`: the size of an extra block -/
  extraInfo : UInt64
  status : BuddyBlockStatus

/-- `buddy_parameter_t`. -/
structure BuddyParameter where
  /-- the size of a standard page -/
  memoryAreaSize : UInt64
  /-- whether more pages may be allocated -/
  onDemandAlloc : Bool
  /-- whether extra blocks may be allocated -/
  extraAlloc : Bool
  /-- whether pages are given back -/
  freeAreas : Bool
  /-- how many pages are kept for each page that is used -/
  keepFactor : UInt32
  /-- how many pages are kept -/
  keepMinimum : UInt32

inductive BuddyErr where
  | success
  | einval
  | malloc
  | outofmem

/-- `BuddyThreadContext_t` of a thread, and the memory of the areas that the system has given to it.
In `content`, the field `NextToBeFreed` is the same as `NextBlock`. -/
structure Heap where
  self : ℕ
  config : BuddyParameter
  kSize : ℕ
  memDesc : ℕ → Option Addr
  toBeFreedList : Option Addr
  nbStdPages : UInt32
  nbStdUsed : UInt32
  errno : BuddyErr
  header : Addr → BuddyHeader
  /-- the links behind the headers -/
  content : Links Addr
  pages : List ℕ
  extras : List ℕ
  /-- areas from here on are new -/
  fresh : ℕ

/-! ## Sizes -/

/-- The loop of `Log2Ceil`; `k` and `fuel` add up to `BUDDY_MAX_LOG2_SIZE`. -/
def log2CeilLoop (iSize : ℕ) : ℕ → ℕ → ℕ → ℕ
  | 0, _, _ => 0
  | fuel + 1, k, localSize =>
    if localSize < iSize then
      if k + 1 ≥ buddyMaxLog2Size then 0
      else log2CeilLoop iSize fuel (k + 1) ((localSize <<< 1) % 2 ^ 64)
    else k

def log2Ceil (iSize : UInt64) : ℕ := log2CeilLoop iSize.toNat buddyMaxLog2Size 0 1

/-- `1 << k` as an `int` that becomes a `size_t`: the processor takes the lower five bits of `k`. -/
def intShift (k : ℕ) : ℕ := if k % 32 = 31 then 2 ^ 64 - 2 ^ 31 else 2 ^ (k % 32)

/-- `sizelog2` in `BuddyMalloc`. The sum of the size and the header may wrap around. -/
def sizeLog2 (size : UInt64) : ℕ :=
  if size < minAllocSize.toUInt64 then log2Ceil (minAllocSize.toUInt64 + sizeHeader64.toUInt64)
  else log2Ceil (size + sizeHeader64.toUInt64)

/-! ## Lists of free blocks -/

def insertFreeBlock (h : Heap) (a : Addr) : Heap :=
  let k := (h.header a).kSize
  match h.memDesc k with
  | some next =>
    { h with
      memDesc := update h.memDesc k (some a)
      content :=
        ((h.content.setNext (some a) (some next)).setPrev (some a) none).setPrev (some next)
          (some a) }
  | none =>
    { h with
      memDesc := update h.memDesc k (some a)
      content := (h.content.setNext (some a) none).setPrev (some a) none }

def removeFreeBlock (h : Heap) (a : Addr) : Heap :=
  let prev := h.content.prev a
  let next := h.content.next a
  let h :=
    match prev with
    | some prev => { h with content := h.content.setNext (some prev) next }
    | none => { h with memDesc := update h.memDesc (h.header a).kSize next }
  let h :=
    match next with
    | some next => { h with content := h.content.setPrev (some next) prev }
    | none => h
  { h with content := (h.content.setPrev (some a) none).setNext (some a) none }

def getBuddyBlock (h : Heap) (a : Addr) : Addr :=
  ⟨(h.header a).basePtr.getD a.area, buddy a.offset (h.header a).kSize⟩

def isPage (h : Heap) (a : Addr) : Bool :=
  decide ((h.header a).basePtr = some a.area ∧ a.offset = 0 ∧
    (h.header a).baseKSize = (h.header a).kSize)

/-! ## Pages and extra blocks -/

/-- `NewStdPage`; `alloc` says whether the system has memory. -/
def newStdPage (h : Heap) (alloc : Bool) : Heap × Option Addr :=
  if alloc = false then (h, none)
  else
    let a : Addr := ⟨h.fresh, 0⟩
    let h :=
      { h with
        pages := h.fresh :: h.pages
        fresh := h.fresh + 1
        header := update h.header a
          { h.header a with
            basePtr := some h.fresh
            baseKSize := h.kSize
            status := .freeBlock
            kSize := h.kSize
            magicNumber := .free } }
    let h := insertFreeBlock h a
    ({ h with nbStdPages := h.nbStdPages + 1 }, some a)

def garbageStdPages (h : Heap) (a : Addr) : Heap :=
  if h.config.freeAreas = false then h
  else if h.nbStdPages ≤ h.config.keepMinimum then h
  else if h.nbStdPages ≤ h.config.keepFactor * h.nbStdUsed then h
  else
    let h := removeFreeBlock h a
    { h with pages := h.pages.erase a.area, nbStdPages := h.nbStdPages - 1 }

/-- The address that the user gets. -/
def userSpace (a : Addr) : Addr := ⟨a.area, a.offset + sizeHeader64⟩

/-- The block of an address that a user has. -/
def blockOf (ptr : Addr) : Addr := ⟨ptr.area, ptr.offset - sizeHeader64⟩

/-- `AllocLargeBlock`; `alloc` says whether the system has memory. -/
def allocLargeBlock (h : Heap) (size : UInt64) (alloc : Bool) : Heap × Option Addr :=
  let totalSize := size + sizeHeader64.toUInt64
  if h.config.extraAlloc = false then ({ h with errno := .einval }, none)
  else if alloc = false then ({ h with errno := .malloc }, none)
  else
    let a : Addr := ⟨h.fresh, 0⟩
    ({ h with
        extras := h.fresh :: h.extras
        fresh := h.fresh + 1
        header := update h.header a
          { h.header a with
            basePtr := none
            extraInfo := totalSize
            status := .reservedBlock
            magicNumber := .used
            ownerThread := h.self } },
      some (userSpace a))

def freeLargeBlock (h : Heap) (a : Addr) : Heap := { h with extras := h.extras.erase a.area }

/-! ## Allocation -/

/-- The first list from `MemDesc[i]` on that is not empty, among `n` lists. -/
def firstList (memDesc : ℕ → Option Addr) : ℕ → ℕ → ℕ
  | 0, i => i
  | n + 1, i => if memDesc i = none then firstList memDesc n (i + 1) else i

def splitBlock (h : Heap) (a : Addr) : Heap :=
  let hd := h.header a
  let h := { h with header := update h.header a { hd with kSize := hd.kSize - 1 } }
  let hd := h.header a
  let b := getBuddyBlock h a
  let h :=
    { h with
      header := update h.header b
        { h.header b with
          basePtr := hd.basePtr
          baseKSize := hd.baseKSize
          status := .freeBlock
          magicNumber := .free
          kSize := hd.kSize } }
  insertFreeBlock h b

def splitLoop (sizelog2 : ℕ) : ℕ → Heap → Addr → Heap
  | 0, h, _ => h
  | fuel + 1, h, a =>
    if (h.header a).kSize > sizelog2 then splitLoop sizelog2 fuel (splitBlock h a) a else h

/-- The end of `BuddyMalloc`, with a free block that is large enough. -/
def reserveBlock (h : Heap) (sizelog2 : ℕ) (a : Addr) : Heap × Option Addr :=
  let h := removeFreeBlock h a
  let h := if isPage h a then { h with nbStdUsed := h.nbStdUsed + 1 } else h
  let h := splitLoop sizelog2 buddyMaxLog2Size h a
  ({ h with
      header := update h.header a
        { h.header a with
          status := .reservedBlock, magicNumber := .used, ownerThread := h.self } },
    some (userSpace a))

/-- `reserveBlock`, for the block that `BuddyMalloc` has found. There is no heap after it when a
block would be so small that its header and that of its buddy overwrite each other. -/
def takeBlock (h : Heap) (sizelog2 : ℕ) (a : Addr) : Option (Heap × Option Addr) :=
  if 2 ^ sizelog2 < sizeHeader64 + minAllocSize then none else some (reserveBlock h sizelog2 a)

structure MallocEnv where
  page : Bool
  extra : Bool

/-- `BuddyMalloc`, when nothing is to be freed for other threads. -/
def buddyMalloc (h : Heap) (size : UInt64) (env : MallocEnv) : Option (Heap × Option Addr) :=
  if size = 0 then some (h, none)
  else
    let sizelog2 := sizeLog2 size
    let allocation := intShift sizelog2
    if allocation > 2 ^ h.kSize then
      if h.config.extraAlloc then some (allocLargeBlock h size env.extra)
      else some ({ h with errno := .outofmem }, none)
    else
      let i := firstList h.memDesc (buddyMaxLog2Size - sizelog2) sizelog2
      if i < buddyMaxLog2Size then
        match h.memDesc i with
        | some a => takeBlock h sizelog2 a
        | none => none
      else if h.config.onDemandAlloc then
        match newStdPage h env.page with
        | (h, some a) => takeBlock h sizelog2 a
        | (h, none) => some ({ h with errno := .malloc }, none)
      else some ({ h with errno := .outofmem }, none)

/-! ## Freeing -/

/-- The loop that merges a block with its buddies: the heap, and the block that it has become. -/
def mergeLoop : ℕ → Heap → Addr → Heap × Addr
  | 0, h, a => (h, a)
  | fuel + 1, h, a =>
    if (h.header a).kSize < (h.header a).baseKSize then
      let b := getBuddyBlock h a
      if (h.header b).status = .reservedBlock ∨ (h.header b).kSize ≠ (h.header a).kSize then (h, a)
      else
        let h := removeFreeBlock h b
        let a := if b.offset < a.offset then b else a
        let hd := h.header a
        mergeLoop fuel
          { h with header := update h.header a { hd with kSize := hd.kSize + 1 } } a
    else (h, a)

/-- `__BuddyFree`. -/
def buddyFreeBlock (h : Heap) (a : Addr) : Heap :=
  if (h.header a).basePtr = none then freeLargeBlock h a
  else if a.offset > intShift (h.header a).baseKSize then { h with errno := .einval }
  else
    let h :=
      { h with
        header := update h.header a
          { h.header a with status := .freeBlock, magicNumber := .free } }
    let (h, a) := mergeLoop buddyMaxLog2Size h a
    let h := insertFreeBlock h a
    if isPage h a then
      let h := { h with nbStdUsed := h.nbStdUsed - 1 }
      if h.config.freeAreas then garbageStdPages h a else h
    else h

/-- The section of `CheckBlocksToBeFreed` under the mutex, which takes a block off the list. With it
goes `buddyFreeBlock`, until there is nothing left. -/
def checkBlocksToBeFreed (h : Heap) : Option (Heap × Addr) :=
  match h.toBeFreedList with
  | none => none
  | some a => some ({ h with toBeFreedList := h.content.next a }, a)

/-- `BuddyFree` of a block of this heap by the thread `w`. -/
def buddyFree (h : Heap) (w : ℕ) (ptr : Addr) : Heap :=
  let a := blockOf ptr
  let hd := h.header a
  match hd.status with
  -- a double free, or something else that is not right
  | .freeBlock => h
  | .reservedBlock =>
    if hd.magicNumber ≠ .used then h
    else if hd.ownerThread ≠ w then
      { h with
        content := h.content.setNext (some a) h.toBeFreedList
        toBeFreedList := some a }
    else buddyFreeBlock h a

/-! ## Start -/

/-- `BuddyInit` of the thread `self`; memory has any contents. The context is there even if there is
no memory for a first page. -/
def buddyInit (self : ℕ) (config : BuddyParameter) (header : Addr → BuddyHeader)
    (content : Links Addr) (page : Bool) : Option Heap :=
  if config.memoryAreaSize ≤ (sizeHeader64 + minAllocSize).toUInt64 then none
  else
    let m := log2Ceil config.memoryAreaSize
    if m = 0 then none
    else
      some (newStdPage ⟨self, config, m, fun _ => none, none, 0, 0, .success, header,
        content, [], [],
        0⟩ page).1

end CloudNfs.BuddyMalloc
