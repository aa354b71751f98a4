import CloudNfs.BuddyOwned
import CloudNfs.Run

/-!
# What one thread gets from the allocator

A thread calls `BuddyMalloc` and `BuddyFree` as it likes, and writes to the memory that it has. The
blocks of a page are found by going from header to header.

* `safe_of_sized` — every run is safe if the sizes are `Sized`.

A size close to `2 ^ 64` is not: with the size of the header it wraps around, and the user gets a
small block.
-/

namespace CloudNfs.BuddyMalloc

open BuddyBlocks DoublyLinked

/-! ## Runs -/

structure Client where
  heap : Heap
  /-- what `BuddyMalloc` has returned and was not freed since -/
  given : List Allocation

inductive Call where
  | malloc (size : UInt64) (env : MallocEnv)
  | free (ptr : Addr)
  /-- write to the memory at `ptr` -/
  | write (ptr x : Addr) (hd : BuddyHeader) (next prev : Option Addr)

/-- A call. Only this thread frees something, so `CheckBlocksToBeFreed` finds nothing. What is freed
or written to was returned by `BuddyMalloc` and not freed since. -/
def step (s : Client) : Call → Option Client
  | .malloc size env =>
    match checkBlocksToBeFreed s.heap with
    | some _ => none
    | none =>
      (buddyMalloc s.heap size env).map fun r => ⟨r.1, give r.2 size.toNat s.given⟩
  | .free ptr =>
    match s.given.find? fun u => decide (u.ptr = ptr) with
    | some u => some ⟨buddyFree s.heap s.heap.self ptr, s.given.erase u⟩
    | none => none
  | .write ptr x hd next prev =>
    match s.given.find? fun u => decide (u.ptr = ptr) with
    | some u => if Within u x then some ⟨userWrite s.heap u x hd next prev, s.given⟩ else none
    | none => none

/-! ## The property -/

/-- There is a block at an address: it is met by going from header to header. -/
def IsBlock (h : Heap) (a : Addr) : Prop :=
  a.area ∈ h.pages ∧
    Walk (fun o => 2 ^ (h.header ⟨a.area, o⟩).kSize) (2 ^ h.kSize) a.offset

structure PagesOk (h : Heap) : Prop where
  /-- every byte of a page is in exactly one block -/
  partition : ∀ p ∈ h.pages, ∀ x < 2 ^ h.kSize,
    ∃! o, IsBlock h ⟨p, o⟩ ∧ Inside o (h.header ⟨p, o⟩).kSize x
  inside : ∀ a, IsBlock h a → a.offset + 2 ^ (h.header a).kSize ≤ 2 ^ h.kSize
  aligned : ∀ a, IsBlock h a → 2 ^ (h.header a).kSize ∣ a.offset
  /-- a list has exactly the free blocks of its size, each of them once -/
  lists : ∀ k, ∃ l, IsList h.content (h.memDesc k) l ∧ l.Nodup ∧
    ∀ a, a ∈ l ↔ IsBlock h a ∧ (h.header a).status = .freeBlock ∧ (h.header a).kSize = k
  /-- the list of other threads is empty -/
  toBeFreedList : h.toBeFreedList = none
  merged : ∀ a b, IsBlock h a → IsBlock h b → b = ⟨a.area, buddy a.offset (h.header a).kSize⟩ →
    (h.header a).status = .freeBlock → (h.header b).status = .freeBlock →
    (h.header b).kSize ≠ (h.header a).kSize

def Byte (u : Allocation) (x : Addr) : Prop :=
  x.area = u.ptr.area ∧ u.ptr.offset ≤ x.offset ∧ x.offset < u.ptr.offset + u.size

/-- The pages are right, and the memory that was returned does not overlap. -/
structure Safe (s : Client) : Prop where
  pages : PagesOk s.heap
  apart : s.given.Pairwise fun u v => ∀ x, ¬ (Byte u x ∧ Byte v x)

section

variable {h : Heap} {L : Layouts} {a b : Addr} {T : List Addr} {U : List Allocation}
  {u v : Allocation}

theorem Represents.isBlock (r : Represents h L) : IsBlock h a ↔ ∃ b, L.at a = some b := by
  constructor
  · rintro ⟨harea, hwalk⟩
    refine ((r.partition _ harea).walk_iff fun o b hb => ?_).mp hwalk
    rw [(r.header (a := ⟨a.area, o⟩) hb).kSize]
  · rintro ⟨b, hb⟩
    refine ⟨r.paged hb, ((r.partition _ (r.paged hb)).walk_iff fun o b hb => ?_).mpr ⟨b, hb⟩⟩
    rw [(r.header (a := ⟨a.area, o⟩) hb).kSize]

theorem Represents.status (r : Represents h L) (hheld : NoHeld L) {b : Block Role}
    (ha : L.at a = some b) : (h.header a).status = .freeBlock ↔ b.status = .free := by
  have hok := r.header ha
  obtain ⟨k, s⟩ := b
  cases s with
  | free => exact iff_of_true (hok.free nofun) rfl
  | reserved =>
    refine iff_of_false (fun hfree => ?_) nofun
    cases (hok.reserved rfl).1.symm.trans hfree
  | held => exact absurd ha (hheld a k)

theorem Good.pagesOk (g : Good h L [] U) : PagesOk h := by
  have r := g.represents
  refine ⟨fun p hp x hx => ?_, fun a ha => ?_, fun a ha => ?_, fun k => ?_, g.pending, ?_⟩
  · obtain ⟨o, b, hb, hin⟩ := (r.partition p hp).cover hx
    have hk : (h.header ⟨p, o⟩).kSize = b.k := (r.header (a := ⟨p, o⟩) hb).kSize
    refine ⟨o, ⟨r.isBlock.mpr ⟨b, hb⟩, hk ▸ hin⟩, ?_⟩
    rintro o' ⟨hblock, hin'⟩
    obtain ⟨b', hb'⟩ := r.isBlock.mp hblock
    rw [(r.header hb').kSize] at hin'
    exact (r.partition p hp).disjoint hb' hb hin' hin
  · obtain ⟨b, hb⟩ := r.isBlock.mp ha
    rw [(r.header hb).kSize]
    exact (r.partition _ (r.paged hb)).inside hb
  · obtain ⟨b, hb⟩ := r.isBlock.mp ha
    rw [(r.header hb).kSize]
    exact r.aligned hb
  · obtain ⟨l, hl, hnodup, hmem⟩ := r.lists k
    refine ⟨l, hl, hnodup, fun a => ?_⟩
    rw [hmem a]
    constructor
    · intro ha
      exact ⟨r.isBlock.mpr ⟨_, ha⟩, (r.status g.noHeld ha).mpr rfl, (r.header ha).kSize⟩
    · rintro ⟨hblock, hstatus, hk⟩
      obtain ⟨⟨j, s⟩, hb⟩ := r.isBlock.mp hblock
      obtain rfl : s = .free := (r.status g.noHeld hb).mp hstatus
      obtain rfl : j = k := (r.header hb).kSize.symm.trans hk
      exact hb
  · rintro a b ha hb rfl hfree hfree' hsame
    obtain ⟨⟨k, s⟩, hblock⟩ := r.isBlock.mp ha
    obtain ⟨⟨j, s'⟩, hblock'⟩ := r.isBlock.mp hb
    obtain rfl : s = .free := (r.status g.noHeld hblock).mp hfree
    obtain rfl : s' = .free := (r.status g.noHeld hblock').mp hfree'
    have hk : (h.header a).kSize = k := (r.header hblock).kSize
    have hj : j = k := (r.header hblock').kSize.symm.trans (hsame.trans hk)
    rw [hk] at hblock'
    exact r.unpaired _ _ _ hblock (hj ▸ hblock')

theorem Good.eq_of_byte (g : Good h L T U) (hu : u ∈ U) (hv : v ∈ U) {x : Addr} (hx : Byte u x)
    (hx' : Byte v x) : u.block = v.block := by
  obtain ⟨harea, hfirst, hlast⟩ := hx
  obtain ⟨harea', hfirst', hlast'⟩ := hx'
  have hoffset : u.block.offset = u.ptr.offset - sizeHeader64 := rfl
  have hoffset' : v.block.offset = v.ptr.offset - sizeHeader64 := rfl
  have hsame : u.block.area = v.block.area := harea.symm.trans harea'
  obtain ⟨hheader, ⟨k, hk, hroom⟩ | ⟨hzero, hextra⟩⟩ := g.given u hu
  · obtain ⟨hheader', ⟨k', hk', hroom'⟩ | ⟨-, hextra'⟩⟩ := g.given v hv
    · have hin : Inside u.block.offset k x.offset := by
        rw [Inside]
        omega
      have hin' : Inside v.block.offset k' x.offset := by
        rw [Inside]
        omega
      have hpart := g.represents.partition _ (g.represents.paged hk)
      have hk'' : L u.block.area v.block.offset = some ⟨k', .reserved⟩ := by
        rw [hsame]
        exact hk'
      exact Addr.ext hsame (hpart.disjoint hk hk'' hin hin')
    · exact absurd (hsame ▸ hextra') (g.disjoint _ (g.represents.paged hk))
  · obtain ⟨hheader', ⟨k', hk', -⟩ | ⟨hzero', -⟩⟩ := g.given v hv
    · exact absurd (hsame ▸ hextra) (g.disjoint _ (g.represents.paged hk'))
    · exact Addr.ext hsame (hzero.trans hzero'.symm)

theorem Good.safe (g : Good h L [] U) : Safe ⟨h, U⟩ := by
  refine ⟨g.pagesOk, ?_⟩
  have hblocks : U.Pairwise fun u v => u.block ≠ v.block := List.pairwise_map.mp g.nodup
  refine hblocks.imp_of_mem fun {u v} hu hv hne x hx => ?_
  exact hne (g.eq_of_byte hu hv hx.1 hx.2)

/-! ## Every run -/

/-- The sizes of a call are `Sized`. -/
def SizedCall (s : Client) : Call → Prop
  | .malloc size _ => Sized s.heap.config s.heap.kSize size
  | .free _ => True
  | .write .. => True

instance (s : Client) : ∀ c : Call, Decidable (SizedCall s c)
  | .malloc size _ => inferInstanceAs (Decidable (Sized s.heap.config s.heap.kSize size))
  | .free _ => isTrue trivial
  | .write .. => isTrue trivial

def Invariant (s : Client) : Prop := ∃ L, Good s.heap L [] s.given

theorem Invariant.malloc {s : Client} (hs : Invariant s) {size : UInt64}
    (hsized : Sized s.heap.config s.heap.kSize size) (env : MallocEnv) :
    ∃ t, step s (.malloc size env) = some t ∧ Invariant t := by
  obtain ⟨L, g⟩ := hs
  obtain ⟨h', res, L', heq, g', -⟩ := g.malloc hsized env
  refine ⟨⟨h', give res size.toNat s.given⟩, ?_, L', g'⟩
  rw [step, g.check_nil, heq]
  rfl

/-- **A call** keeps the invariant, if its size is small enough. -/
theorem Invariant.step {s t : Client} {c : Call} (hs : Invariant s) (hstep : step s c = some t)
    (hsized : SizedCall s c) : Invariant t := by
  cases c with
  | malloc size env =>
    obtain ⟨t', hstep', ht'⟩ := hs.malloc hsized env
    cases hstep'.symm.trans hstep
    exact ht'
  | free ptr =>
    obtain ⟨L, g⟩ := hs
    rw [BuddyMalloc.step] at hstep
    split at hstep
    next u hfind =>
      cases hstep
      have hptr : u.ptr = ptr := by simpa using List.find?_some hfind
      have g' := g.perm (List.perm_cons_erase (List.mem_of_find?_eq_some hfind))
      obtain ⟨L', g'', -⟩ := g'.free
      refine ⟨L', ?_⟩
      show Good (buddyFree s.heap s.heap.self ptr) L' [] (s.given.erase u)
      rw [← hptr, g'.buddyFree_eq, if_neg (not_not.mpr rfl)]
      exact g''
    next => cases hstep
  | write ptr x hd next prev =>
    obtain ⟨L, g⟩ := hs
    rw [BuddyMalloc.step] at hstep
    split at hstep
    next u hfind =>
      split at hstep
      next hx =>
        cases hstep
        exact ⟨L, g.write (List.mem_of_find?_eq_some hfind) hx hd next prev⟩
      next => cases hstep
    next => cases hstep

/-- **Every run is safe** if the sizes that are asked for are `Sized`, and then `BuddyMalloc`
always returns. -/
theorem safe_of_sized {self : ℕ} {config : BuddyParameter} {header : Addr → BuddyHeader}
    {content : Links Addr} {page : Bool} {h : Heap}
    (hinit : buddyInit self config header content page = some h) (hk : h.kSize ≤ 30)
    (calls : List Call) (hsized : AllSteps step (fun s c _ => SizedCall s c) ⟨h, []⟩ calls) :
    Always step (fun s => Safe s ∧ ∀ size env, Sized s.heap.config s.heap.kSize size →
      ∃ t, step s (.malloc size env) = some t) ⟨h, []⟩ calls := by
  obtain ⟨L, g, -⟩ := good_buddyInit hinit hk
  have hinv : Always step Invariant ⟨h, []⟩ calls :=
    always_of_allSteps ⟨L, g⟩ (fun s c t hs ht hc => hs.step ht hc) hsized
  refine hinv.mono fun s hs => ⟨?_, fun size env hsize => ?_⟩
  · obtain ⟨L, g⟩ := hs
    exact g.safe
  · obtain ⟨t, ht, -⟩ := hs.malloc hsize env
    exact ⟨t, ht⟩

def smallPages : BuddyParameter := ⟨256, true, true, true, 0, 0⟩

def blankHeader : BuddyHeader := ⟨none, .other, 0, 0, 0, 0, .freeBlock⟩

def smallHeap : Option Heap :=
  buddyInit 1 smallPages (fun _ => blankHeader) ⟨fun _ => none, fun _ => none⟩ true

/-- Two buddies and an extra block are allocated, one of the buddies is written to, and both are
freed and merged. -/
def twoBlocks : List Call :=
  [.malloc 16 ⟨true, true⟩, .malloc 16 ⟨true, true⟩, .malloc 300 ⟨true, true⟩,
    .write ⟨0, 48⟩ ⟨0, 48⟩ blankHeader none none, .free ⟨0, 112⟩, .free ⟨0, 48⟩]

theorem safe_of_sized_twoBlocks :
    Always step (fun s => Safe s ∧ ∀ size env, Sized s.heap.config s.heap.kSize size →
      ∃ t, step s (.malloc size env) = some t) ⟨smallHeap.get rfl, []⟩ twoBlocks :=
  safe_of_sized (h := smallHeap.get rfl) (Option.some_get (x := smallHeap) rfl).symm
    (by decide +kernel) twoBlocks (by decide +kernel)

/-- The sum with the size of the header wraps around to 40 bytes, so the user gets a block of 64
bytes, and the next block is within the memory that was asked for. -/
theorem wrappedSize_breaks_safe :
    ∃ h, smallHeap = some h ∧ h.kSize ≤ 30 ∧
      ¬ Always step Safe ⟨h, []⟩
        [.malloc (2 ^ 64 - 8) ⟨true, true⟩, .malloc 16 ⟨true, true⟩] := by
  refine ⟨smallHeap.get rfl, (Option.some_get _).symm, by decide +kernel, fun hsafe => ?_⟩
  have hgiven : (exec step ⟨smallHeap.get rfl, []⟩
      [.malloc (2 ^ 64 - 8) ⟨true, true⟩, .malloc 16 ⟨true, true⟩]).map Client.given =
      some [⟨⟨0, 112⟩, 16⟩, ⟨⟨0, 48⟩, 2 ^ 64 - 8⟩] := by
    decide +kernel
  obtain ⟨t, ht, hlist⟩ := Option.map_eq_some_iff.mp hgiven
  have hapart := (hsafe.exec ht).apart
  rw [hlist] at hapart
  have hfirst := (List.pairwise_cons.mp hapart).1 _ List.mem_cons_self ⟨0, 112⟩
  exact hfirst ⟨⟨rfl, by decide, by decide⟩, ⟨rfl, by decide, by decide⟩⟩

end

end CloudNfs.BuddyMalloc
