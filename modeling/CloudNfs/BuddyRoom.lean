import CloudNfs.BuddyDestroy

/-!
# The room of a block (`BuddyMalloc/BuddyMalloc.c`)

`BuddyMalloc` adds the size of the header to what is asked for, takes the logarithm, and compares
`1 << sizelog2` with the size of a page. The sum is a `size_t` and can wrap around. The logarithm is
`0` when there is none. The shift is one of an `int`.

* `enoughRoom_iff` — the block is large enough exactly for sizes up to `2 ^ 30`, with the header.
-/

namespace CloudNfs.BuddyMalloc.Room

open BuddyBlocks DoublyLinked Destroy

/-! ## The property -/

/-- The bytes behind the header of a block. An extra block is as long as what the system was asked
for. Another one ends with its buddy, and its page is as long as `1 << k_size`. -/
def userRoom (h : Heap) (a : Addr) : ℕ :=
  match (h.header a).basePtr with
  | none => (h.header a).extraInfo.toNat - sizeHeader64
  | some _ => min (2 ^ (h.header a).kSize) (intShift h.kSize - a.offset) - sizeHeader64

structure NoWrap (h : Heap) (size : UInt64) : Prop where
  sum : size.toNat + sizeHeader64 < 2 ^ 64
  /-- `Log2Ceil` -/
  log : totalSize size ≤ 2 ^ sizeLog2 size
  shift : intShift (sizeLog2 size) = 2 ^ sizeLog2 size
  /-- `1 << k_size`, for the page of a standard block -/
  page : ¬ intShift (sizeLog2 size) > 2 ^ h.kSize → intShift h.kSize = 2 ^ h.kSize

/-- What `BuddyMalloc` returns is large enough, and was computed without wrapping around. -/
def EnoughRoom (h : Heap) (size : UInt64) (env : MallocEnv) : Prop :=
  ∃ r, buddyMalloc h size env = some r ∧
    ∀ ptr, r.2 = some ptr → size.toNat ≤ userRoom r.1 (blockOf ptr) ∧ NoWrap r.1 size

/-- `BuddyMalloc` returns `NULL`: nothing is asked for, or there is no memory for an extra block, or
no list has a block and there is no memory for a page. -/
def GivesNothing (h : Heap) (size : UInt64) (env : MallocEnv) : Prop :=
  size = 0 ∨
    (intShift (sizeLog2 size) > 2 ^ h.kSize ∧ (h.config.extraAlloc = false ∨ env.extra = false)) ∨
    (¬ intShift (sizeLog2 size) > 2 ^ h.kSize ∧
      (∀ i, sizeLog2 size ≤ i → i < buddyMaxLog2Size → h.memDesc i = none) ∧
      (h.config.onDemandAlloc = false ∨ env.page = false))

/-! ## The size of a page does not change -/

section

variable {h h' : Heap} {a : Addr} {s t : Context} {act : Action}

@[simp] theorem insertFreeBlock_kSize : (insertFreeBlock h a).kSize = h.kSize := by
  rw [insertFreeBlock_eq]

@[simp] theorem removeFreeBlock_kSize : (removeFreeBlock h a).kSize = h.kSize := by
  rw [removeFreeBlock]
  cases h.content.prev a <;> cases h.content.next a <;> rfl

@[simp] theorem splitLoop_kSize (sizelog2 fuel : ℕ) :
    (splitLoop sizelog2 fuel h a).kSize = h.kSize := by
  induction fuel generalizing h with
  | zero => rfl
  | succ fuel ih =>
    rw [splitLoop]
    split
    · rw [ih, splitBlock, insertFreeBlock_kSize]
    · rfl

@[simp] theorem mergeLoop_kSize (fuel : ℕ) : (mergeLoop fuel h a).1.kSize = h.kSize := by
  induction fuel generalizing h a with
  | zero => rfl
  | succ fuel ih =>
    rw [mergeLoop]
    split
    · dsimp only
      split
      · rfl
      · rw [ih]
        exact removeFreeBlock_kSize
    · rfl

@[simp] theorem reserveBlock_kSize (sizelog2 : ℕ) :
    (reserveBlock h sizelog2 a).1.kSize = h.kSize := by
  rw [reserveBlock]
  dsimp only
  split
  · rw [splitLoop_kSize]
    exact removeFreeBlock_kSize
  · rw [splitLoop_kSize, removeFreeBlock_kSize]

@[simp] theorem newStdPage_kSize (alloc : Bool) : (newStdPage h alloc).1.kSize = h.kSize := by
  rw [newStdPage]
  split
  · rfl
  · dsimp only
    rw [insertFreeBlock_kSize]

@[simp] theorem garbageStdPages_kSize : (garbageStdPages h a).kSize = h.kSize := by
  rw [garbageStdPages]
  split
  · rfl
  split
  · rfl
  split
  · rfl
  · exact removeFreeBlock_kSize

@[simp] theorem buddyFreeBlock_kSize : (buddyFreeBlock h a).kSize = h.kSize := by
  rw [buddyFreeBlock]
  split
  · rfl
  split
  · rfl
  dsimp only
  split
  · split
    · rw [garbageStdPages_kSize]
      simp only [insertFreeBlock_kSize, mergeLoop_kSize]
    · simp only [insertFreeBlock_kSize, mergeLoop_kSize]
  · simp only [insertFreeBlock_kSize, mergeLoop_kSize]

theorem takeBlock_kSize {sizelog2 : ℕ} {res : Option Addr}
    (heq : takeBlock h sizelog2 a = some (h', res)) : h'.kSize = h.kSize ∧ res ≠ none := by
  rw [takeBlock] at heq
  split at heq
  · cases heq
  · cases heq
    exact ⟨reserveBlock_kSize sizelog2, by rintro ⟨⟩⟩

theorem buddyMalloc_kSize {size : UInt64} {env : MallocEnv} {res : Option Addr}
    (heq : buddyMalloc h size env = some (h', res)) : h'.kSize = h.kSize := by
  rw [buddyMalloc] at heq
  split at heq
  · cases heq
    rfl
  dsimp only at heq
  split at heq
  · split at heq
    · rw [allocLargeBlock] at heq
      dsimp only at heq
      split at heq
      · cases heq
        rfl
      · split at heq <;> cases heq <;> rfl
    · cases heq
      rfl
  split at heq
  · split at heq
    · exact (takeBlock_kSize heq).1
    · cases heq
  split at heq
  · split at heq
    next hnew =>
      have hkSize : (newStdPage h env.page).1.kSize = h.kSize := newStdPage_kSize env.page
      rw [hnew] at hkSize
      exact (takeBlock_kSize heq).1.trans hkSize
    next hnew =>
      have hkSize : (newStdPage h env.page).1.kSize = h.kSize := newStdPage_kSize env.page
      rw [hnew] at hkSize
      cases heq
      exact hkSize
  · cases heq
    rfl

@[simp] theorem buddyFree_kSize (w : ℕ) (ptr : Addr) : (buddyFree h w ptr).kSize = h.kSize := by
  rw [buddyFree]
  split
  · rfl
  split
  · rfl
  split
  · rfl
  · exact buddyFreeBlock_kSize

theorem checkBlocksToBeFreed_kSize (heq : checkBlocksToBeFreed h = some (h', a)) :
    h'.kSize = h.kSize := by
  rw [checkBlocksToBeFreed] at heq
  split at heq
  · cases heq
  · cases heq
    rfl

@[simp] theorem freeDeferred_kSize (fuel : ℕ) : (freeDeferred fuel h).kSize = h.kSize := by
  induction fuel generalizing h with
  | zero => rfl
  | succ fuel ih =>
    rw [freeDeferred]
    split
    · rfl
    next hcheck => rw [ih, buddyFreeBlock_kSize, checkBlocksToBeFreed_kSize hcheck]

@[simp] theorem releasePages_kSize (fuel : ℕ) : (releasePages fuel h).1.kSize = h.kSize := by
  induction fuel generalizing h with
  | zero => rfl
  | succ fuel ih =>
    rw [releasePages]
    split
    · rfl
    split
    · rw [ih, releasePage]
      exact removeFreeBlock_kSize
    · rfl

theorem cleanup_kSize : (cleanup s).heap.kSize = s.heap.kSize := by
  have hkSize : (tryContextCleanup s.heap).1.kSize = s.heap.kSize := by
    rw [tryContextCleanup]
    dsimp only
    split
    · simp only [releasePages_kSize, freeDeferred_kSize]
    · split <;> simp only [releasePages_kSize, freeDeferred_kSize]
  rw [cleanup]
  generalize tryContextCleanup s.heap = r at hkSize ⊢
  obtain ⟨h', status⟩ := r
  cases status <;> exact hkSize

theorem step_kSize (hstep : Destroy.step s act = some t) : t.heap.kSize = s.heap.kSize := by
  unfold Destroy.step at hstep
  split at hstep
  · cases hstep
  cases act with
  | giveBack =>
    dsimp only at hstep
    split at hstep
    next hcheck =>
      cases hstep
      exact buddyFreeBlock_kSize.trans (checkBlocksToBeFreed_kSize hcheck)
    next => cases hstep
  | malloc size env =>
    obtain ⟨⟨h', res⟩, heq, rfl⟩ := Option.map_eq_some_iff.mp hstep
    exact buddyMalloc_kSize heq
  | free w ptr =>
    dsimp only at hstep
    split at hstep
    · split at hstep
      · cases hstep
        exact cleanup_kSize.trans (buddyFree_kSize w ptr)
      · cases hstep
        exact buddyFree_kSize w ptr
    · cases hstep
  | write ptr x hd next prev =>
    dsimp only at hstep
    split at hstep
    · split at hstep
      · cases hstep
        rfl
      · cases hstep
    · cases hstep
  | destroy =>
    cases hstep
    exact cleanup_kSize

theorem exec_kSize {acts : List Action} (hexec : exec Destroy.step s acts = some t) :
    t.heap.kSize = s.heap.kSize := by
  induction acts generalizing s with
  | nil =>
    cases hexec
    rfl
  | cons act acts ih =>
    obtain ⟨u, hu, hrest⟩ := Option.bind_eq_some_iff.mp hexec
    exact (ih hrest).trans (step_kSize hu)

/-! ## A context that was not released -/

theorem released_of_step (hstep : Destroy.step s act = some t) : s.released = false := by
  unfold Destroy.step at hstep
  split at hstep
  · cases hstep
  next hreleased => exact Bool.eq_false_of_not_eq_true hreleased

/-- **The heap of a context that was not released** is complete, whatever has happened. -/
theorem complete_of_exec {acts : List Action} (hs : s.released = false → Inv s)
    (hexec : exec Destroy.step s acts = some t) (ht : t.released = false) :
    ∃ L T, Complete t.heap L T t.given := by
  induction acts generalizing s with
  | nil =>
    cases hexec
    exact (hs ht).complete ht
  | cons act acts ih =>
    obtain ⟨u, hu, hrest⟩ := Option.bind_eq_some_iff.mp hexec
    refine ih (fun hreleased => ?_) hrest
    obtain ⟨hinv, hback⟩ := (hs (released_of_step hu)).step hu
    refine hinv (hback fun htrue => ?_)
    cases hreleased.symm.trans htrue

end

/-! ## What is computed -/

section

variable {h : Heap} {k : ℕ} {size : UInt64} {env : MallocEnv}

theorem le_of_intShift (hk : intShift k = 2 ^ k) : k ≤ 30 := by
  rw [intShift] at hk
  split at hk
  next =>
    -- the sign is extended, and what comes out is no power
    have hlow : 63 < k :=
      (Nat.pow_lt_pow_iff_right (by decide)).mp (hk ▸ by decide : 2 ^ 63 < 2 ^ k)
    have hhigh : k < 64 :=
      (Nat.pow_lt_pow_iff_right (by decide)).mp (hk ▸ by decide : 2 ^ k < 2 ^ 64)
    omega
  next hmod =>
    have hkmod : k % 32 = k := Nat.pow_right_injective (Nat.le_refl 2) hk
    omega

theorem NoWrap.le (hw : NoWrap h size) : size.toNat + sizeHeader64 ≤ 2 ^ 30 ∧ h.kSize ≤ 30 := by
  have hlog := le_of_intShift hw.shift
  have hpow : 2 ^ sizeLog2 size ≤ 2 ^ 30 := Nat.pow_le_pow_right (by decide) hlog
  have hsize := hw.log
  rw [totalSize] at hsize
  refine ⟨by omega, ?_⟩
  by_cases hlarge : intShift (sizeLog2 size) > 2 ^ h.kSize
  · rw [hw.shift] at hlarge
    have hlt : h.kSize < sizeLog2 size := (Nat.pow_lt_pow_iff_right (by decide)).mp hlarge
    omega
  · exact le_of_intShift (hw.page hlarge)

theorem noWrap_of_le (hsize : size.toNat + sizeHeader64 ≤ 2 ^ 30) (hk : h.kSize ≤ 30) :
    NoWrap h size := by
  have hlog := sizeLog2_spec (Nat.le_trans hsize (by decide))
  have hle : sizeLog2 size ≤ 30 := by
    refine hlog.le_of_le ?_
    rw [totalSize, minAllocSize, sizeHeader64] at *
    omega
  refine ⟨by omega, hlog.le, intShift_of_le hle, fun _ => intShift_of_le hk⟩

/-! ## No block -/

theorem firstList_none (memDesc : ℕ → Option Addr) : ∀ n i : ℕ, ¬ firstList memDesc n i < i + n →
    ∀ j, i ≤ j → j < i + n → memDesc j = none := by
  intro n
  induction n with
  | zero =>
    intro i _ j hi hj
    omega
  | succ n ih =>
    intro i hnot j hi hj
    rw [firstList] at hnot
    split at hnot
    next hnone =>
      rcases Nat.eq_or_lt_of_le hi with rfl | hlt
      · exact hnone
      · exact ih (i + 1) (by omega) j hlt (by omega)
    next => exact absurd (by omega) hnot

theorem givesNothing_iff :
    GivesNothing h size env ↔ ∃ h', buddyMalloc h size env = some (h', none) := by
  rw [GivesNothing, buddyMalloc]
  by_cases hzero : size = 0
  · rw [if_pos hzero]
    exact iff_of_true (.inl hzero) ⟨h, rfl⟩
  rw [if_neg hzero, or_iff_right hzero]
  dsimp only
  by_cases hlarge : intShift (sizeLog2 size) > 2 ^ h.kSize
  · rw [if_pos hlarge, allocLargeBlock]
    dsimp only
    cases h.config.extraAlloc with
    | false => simp [hlarge]
    | true =>
      cases env.extra with
      | false => simp [hlarge]
      | true => simp [hlarge]
  rw [if_neg hlarge]
  have hlists := firstList_none h.memDesc (buddyMaxLog2Size - sizeLog2 size) (sizeLog2 size)
  obtain ⟨hle, hfound⟩ :=
    firstList_spec h.memDesc (buddyMaxLog2Size - sizeLog2 size) (sizeLog2 size)
  generalize firstList h.memDesc _ _ = i at hlists hle hfound ⊢
  have hnever : ∀ {x : Heap} {a : Addr}, ¬ ∃ h', takeBlock x (sizeLog2 size) a = some (h', none) :=
    fun hex => hex.elim fun _ htake => (takeBlock_kSize htake).2 rfl
  by_cases hi : i < buddyMaxLog2Size
  · rw [if_pos hi]
    obtain ⟨a, ha⟩ := hfound (by omega)
    rw [ha]
    refine iff_of_false (fun hnone => ?_) hnever
    rcases hnone with hnone | hnone
    · exact hlarge hnone.1
    · cases (hnone.2.1 i hle hi).symm.trans ha
  rw [if_neg hi]
  have hempty : ∀ j, sizeLog2 size ≤ j → j < buddyMaxLog2Size → h.memDesc j = none :=
    fun j hj hlt => hlists (by omega) j hj (by omega)
  cases h.config.onDemandAlloc with
  | false => exact iff_of_true (.inr ⟨hlarge, hempty, .inl rfl⟩) ⟨_, rfl⟩
  | true =>
    cases env.page with
    | false => exact iff_of_true (.inr ⟨hlarge, hempty, .inr rfl⟩) ⟨_, rfl⟩
    | true =>
      refine iff_of_false (fun hnone => ?_) ?_
      · rcases hnone with hnone | ⟨-, -, hnone | hnone⟩
        · exact hlarge hnone.1
        · cases hnone
        · cases hnone
      · rw [if_pos rfl]
        exact hnever

/-! ## A block -/

theorem room_of_large {h' : Heap} {ptr : Addr} (hsize : size.toNat + sizeHeader64 < 2 ^ 64)
    (heq : buddyMalloc h size env = some (h', some ptr))
    (hlarge : intShift (sizeLog2 size) > 2 ^ h.kSize) : size.toNat ≤ userRoom h' (blockOf ptr) := by
  have hsum : (size + sizeHeader64.toUInt64).toNat = size.toNat + sizeHeader64 := by
    rw [UInt64.toNat_add]
    exact Nat.mod_eq_of_lt hsize
  rw [buddyMalloc] at heq
  split at heq
  · cases heq
  dsimp only at heq
  rw [if_pos hlarge] at heq
  split at heq
  next =>
    rw [allocLargeBlock] at heq
    dsimp only at heq
    split at heq
    · cases heq
    split at heq
    · cases heq
    cases heq
    rw [blockOf_userSpace, userRoom]
    simp only [Function.update_self]
    rw [hsum, Nat.add_sub_cancel]
  next => cases heq

theorem room_of_complete {h' : Heap} {L : Layouts} {T : List Addr} {U : List Allocation}
    {ptr : Addr} (c : Complete h L T U) (hsize : size.toNat + sizeHeader64 ≤ 2 ^ 30)
    (heq : buddyMalloc h size env = some (h', some ptr)) :
    size.toNat ≤ userRoom h' (blockOf ptr) := by
  by_cases hlarge : intShift (sizeLog2 size) > 2 ^ h.kSize
  · exact room_of_large (by omega) heq hlarge
  have hsized : Sized h.config h.kSize size := Or.inl (Nat.le_trans hsize (by decide))
  obtain ⟨hroom, hpage⟩ := hsized.room c.good.kSize
  obtain ⟨L', g', -, -, -, hblock, -⟩ := c.good.malloc_of_room heq (fun _ _ => hroom) hpage
  obtain ⟨k, -, hk, hle⟩ := hblock ptr rfl hlarge
  have hok := g'.represents.header hk
  have hinside := (g'.represents.partition _ (g'.represents.paged hk)).inside hk
  dsimp only at hinside
  have hkSize : (h'.header (blockOf ptr)).kSize = k := hok.kSize
  rw [userRoom, hok.basePtr, intShift_of_le g'.kSize, hkSize]
  dsimp only
  omega

end

/-! ## Every run -/

/-- **A block is large enough**, and no computation wraps around, exactly when nothing is given, or
the size with the header is at most `2 ^ 30` and so is that of a page. -/
theorem enoughRoom_iff {self : ℕ} {config : BuddyParameter} {header : Addr → BuddyHeader}
    {content : Links Addr} {page : Bool} {h : Heap}
    (hinit : buddyInit self config header content page = some h) (acts : List Action) {s : Context}
    (hexec : exec Destroy.step ⟨h, [], false, false⟩ acts = some s) (hlive : s.released = false)
    (size : UInt64) (env : MallocEnv) :
    EnoughRoom s.heap size env ↔
      GivesNothing s.heap size env ∨
        size.toNat + sizeHeader64 ≤ 2 ^ 30 ∧ s.heap.kSize ≤ 30 := by
  constructor
  · rintro ⟨⟨h', res⟩, heq, hroom⟩
    cases res with
    | none => exact Or.inl (givesNothing_iff.mpr ⟨h', heq⟩)
    | some ptr =>
      obtain ⟨hsize, hk⟩ := (hroom ptr rfl).2.le
      exact Or.inr ⟨hsize, buddyMalloc_kSize heq ▸ hk⟩
  · rintro (hnothing | ⟨hsize, hk⟩)
    · obtain ⟨h', heq⟩ := givesNothing_iff.mp hnothing
      exact ⟨(h', none), heq, nofun⟩
    have hk0 : h.kSize ≤ 30 := exec_kSize hexec ▸ hk
    obtain ⟨L0, c0⟩ := complete_buddyInit hinit hk0
    have hinv : Inv ⟨h, [], false, false⟩ := ⟨nofun, fun _ => ⟨L0, [], c0⟩⟩
    obtain ⟨L, T, c⟩ := complete_of_exec (fun _ => hinv) hexec hlive
    have hlog := sizeLog2_spec (Nat.le_trans hsize (by decide))
    have hmin : sizeHeader64 + minAllocSize ≤ 2 ^ sizeLog2 size := by
      have hle := hlog.le
      rw [totalSize] at hle
      omega
    obtain ⟨h', res, heq⟩ := buddyMalloc_returns (h := s.heap) env hmin hlog.bound
    refine ⟨(h', res), heq, fun ptr hptr => ?_⟩
    obtain rfl : res = some ptr := hptr
    exact ⟨room_of_complete c hsize heq, noWrap_of_le hsize (buddyMalloc_kSize heq ▸ hk)⟩

/-- A block of 64 bytes is in use, and 100 bytes more are asked for. -/
theorem enoughRoom_iff_small :
    ∃ s, exec Destroy.step smallContext [.malloc 16 ⟨true, true⟩] = some s ∧
      EnoughRoom s.heap 100 ⟨true, true⟩ := by
  have hrun : (exec Destroy.step smallContext [.malloc 16 ⟨true, true⟩]).map
      (fun s => (s.released, s.heap.kSize)) = some (false, 8) := by
    decide +kernel
  obtain ⟨s, hexec, heq⟩ := Option.map_eq_some_iff.mp hrun
  obtain ⟨hreleased, hkSize⟩ := Prod.ext_iff.mp heq
  have hk : s.heap.kSize ≤ 30 := Nat.le_trans (Nat.le_of_eq hkSize) (by decide)
  refine ⟨s, hexec, ?_⟩
  refine (enoughRoom_iff (h := smallHeap.get rfl) (Option.some_get (x := smallHeap) rfl).symm
    [.malloc 16 ⟨true, true⟩] hexec hreleased 100 ⟨true, true⟩).mpr (Or.inr ⟨by decide, hk⟩)

/-- All of memory is asked for: the sum with the header wraps around to 47 bytes, and the user gets
a block with room for 16. -/
theorem wrappedSize_not_enoughRoom :
    ¬ EnoughRoom smallContext.heap (2 ^ 64 - 1) ⟨true, true⟩ := by
  have hroom : (buddyMalloc smallContext.heap (2 ^ 64 - 1) ⟨true, true⟩).map
      (fun r => r.2.map fun ptr => userRoom r.1 (blockOf ptr)) = some (some 16) := by
    decide +kernel
  rintro ⟨r, heq, henough⟩
  rw [heq] at hroom
  obtain ⟨ptr, hptr, hsixteen⟩ := Option.map_eq_some_iff.mp (Option.some.inj hroom)
  have hle := (henough ptr hptr).1
  rw [hsixteen] at hle
  exact absurd hle (by decide +kernel)

end CloudNfs.BuddyMalloc.Room
