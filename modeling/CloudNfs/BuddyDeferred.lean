import CloudNfs.BuddySafe

/-!
# Blocks that another thread frees

Every thread has a heap of its own, but a block may be freed by any thread. A thread that does not
own the block puts it on the list of the owner. The owner looks at the list at the start of
`BuddyMalloc`: it takes a block, under the mutex, frees it, and goes on until the list is empty.
Other threads may put blocks on the list at any time.

* `deferred_of_sized` — nothing is lost, nothing is given back twice.

An extra block is given back to the system, and so may be a page that has become one free block, so
a block does not always come to a list of free blocks.
-/

namespace CloudNfs.BuddyMalloc

open BuddyBlocks DoublyLinked

/-! ## Threads -/

inductive Phase where
  | idle
  /-- in the loop of `CheckBlocksToBeFreed` -/
  | checking (size : UInt64)
  /-- in the same loop, with a block in its hands -/
  | freeing (size : UInt64) (a : Addr)
  /-- behind the loop -/
  | allocating (size : UInt64)
  deriving DecidableEq

/-- A thread. What it has put on record is not in the source. -/
structure Thread where
  heap : Heap
  /-- what `BuddyMalloc` has returned for this heap and was not freed since, by any thread -/
  given : List Allocation
  phase : Phase
  /-- on record: the blocks that other threads have put on the list -/
  handed : List Addr
  /-- on record: the blocks of the list that it has given back -/
  returned : List Addr

abbrev Pool := ℕ → Thread

def Pool.set (s : Pool) (i : ℕ) (t : Thread) : Pool := fun j => if j = i then t else s j

inductive PoolAction where
  /-- the thread calls `BuddyMalloc` -/
  | call (i : ℕ) (size : UInt64)
  /-- it looks at its list -/
  | check (i : ℕ)
  /-- it frees the block that it has taken off the list -/
  | giveBack (i : ℕ)
  | allocate (i : ℕ) (env : MallocEnv)
  /-- the thread `w` calls `BuddyFree` for something from the heap of `i` -/
  | free (w i : ℕ) (ptr : Addr)
  /-- somebody writes to memory from the heap of `i` -/
  | write (i : ℕ) (ptr x : Addr) (hd : BuddyHeader) (next prev : Option Addr)

def poolStep (s : Pool) : PoolAction → Option Pool
  | .call i size =>
    match (s i).phase with
    | .idle => some (s.set i { s i with phase := .checking size })
    | _ => none
  | .check i =>
    match (s i).phase with
    | .checking size =>
      match checkBlocksToBeFreed (s i).heap with
      | some (h, a) => some (s.set i { s i with heap := h, phase := .freeing size a })
      | none => some (s.set i { s i with phase := .allocating size })
    | _ => none
  | .giveBack i =>
    match (s i).phase with
    | .freeing size a =>
      some (s.set i
        { s i with
          heap := buddyFreeBlock (s i).heap a
          phase := .checking size
          returned := a :: (s i).returned })
    | _ => none
  | .allocate i env =>
    match (s i).phase with
    | .allocating size =>
      (buddyMalloc (s i).heap size env).map fun r =>
        s.set i { s i with heap := r.1, given := give r.2 size.toNat (s i).given, phase := .idle }
    | _ => none
  | .free w i ptr =>
    if (s w).phase ≠ .idle then none
    else
      match (s i).given.find? fun u => decide (u.ptr = ptr) with
      | some u =>
        some (s.set i
          { s i with
            heap := buddyFree (s i).heap w ptr
            given := (s i).given.erase u
            handed := if w = i then (s i).handed else blockOf ptr :: (s i).handed })
      | none => none
  | .write i ptr x hd next prev =>
    match (s i).given.find? fun u => decide (u.ptr = ptr) with
    | some u =>
      if Within u x then
        some (s.set i { s i with heap := userWrite (s i).heap u x hd next prev })
      else none
    | none => none

def Started (i : ℕ) (t : Thread) : Prop :=
  (∃ config header content page, buddyInit i config header content page = some t.heap) ∧
    t.heap.kSize ≤ 30 ∧ t.given = [] ∧ t.phase = .idle ∧ t.handed = [] ∧ t.returned = []

/-- The sizes that are asked for are `Sized`. -/
def SizedAction (s : Pool) : PoolAction → Prop
  | .allocate i _ =>
    match (s i).phase with
    | .allocating size => Sized (s i).heap.config (s i).heap.kSize size
    | _ => True
  | _ => True

instance (s : Pool) (c : PoolAction) : Decidable (SizedAction s c) :=
  match c with
  | .allocate i _ =>
    match h : (s i).phase with
    | .allocating size =>
      decidable_of_iff (Sized (s i).heap.config (s i).heap.kSize size) (by rw [SizedAction, h])
    | .idle => isTrue (by rw [SizedAction, h]; trivial)
    | .checking _ => isTrue (by rw [SizedAction, h]; trivial)
    | .freeing _ _ => isTrue (by rw [SizedAction, h]; trivial)
  | .call .. => isTrue trivial
  | .check _ => isTrue trivial
  | .giveBack _ => isTrue trivial
  | .free .. => isTrue trivial
  | .write .. => isTrue trivial

/-! ## The properties -/

/-- A block is in a list of free blocks. -/
def InList (h : Heap) (k : ℕ) (a : Addr) : Prop :=
  ∃ l, IsList h.content (h.memDesc k) l ∧ a ∈ l

def Phase.hand : Phase → List Addr
  | .freeing _ a => [a]
  | _ => []

/-- The list of a thread: its blocks are reserved and not free, and what was put on it is what was
given back, what is in the hands of the thread, and what is still on the list. -/
def DeferredOk (t : Thread) : Prop :=
  ∃ T, Chain t.heap.content.next t.heap.toBeFreedList T ∧ T.Nodup ∧
    (∀ a ∈ T, (t.heap.header a).status = .reservedBlock ∧ ∀ k, ¬ InList t.heap k a) ∧
    t.handed.Perm (t.returned ++ (t.phase.hand ++ T))

/-- The turns of the loop of `CheckBlocksToBeFreed`. -/
def turns (i : ℕ) : ℕ → List PoolAction
  | 0 => [.check i]
  | n + 1 => .check i :: .giveBack i :: turns i n

/-- A thread that looks at its list comes to the end of it, and then everything was given back. -/
def Processes (s : Pool) (i : ℕ) : Prop :=
  ∀ size, (s i).phase = .checking size →
    ∃ n t, exec poolStep s (turns i n) = some t ∧ (t i).phase = .allocating size ∧
      (t i).handed = (s i).handed ∧ (t i).handed.Perm (t i).returned

/-- The bytes of a block are in a list of free blocks. -/
def ToFreeList (h h' : Heap) (a : Addr) : Prop :=
  ∃ o j, InList h' j ⟨a.area, o⟩ ∧ o ≤ a.offset ∧
    a.offset + 2 ^ (h.header a).kSize ≤ o + 2 ^ j

/-- Where a block goes: to a list of free blocks, or back to the system with its page; and back to
the system if it is an extra block. -/
def GivenBack (h h' : Heap) (a : Addr) : Prop :=
  match (h.header a).basePtr with
  | some _ => ToFreeList h h' a ∨ a.area ∉ h'.pages
  | none => a.area ∉ h'.extras

def GivesBack (s : Pool) (c : PoolAction) (t : Pool) : Prop :=
  match c with
  | .giveBack i => ∀ size a, (s i).phase = .freeing size a →
    GivenBack (s i).heap (t i).heap a
  | _ => True

/-! ## What the layout says about the lists -/

section

variable {h h' : Heap} {L L' : Layouts} {a : Addr} {k : ℕ} {T : List Addr} {U : List Allocation}

theorem Represents.inList_iff (r : Represents h L) : InList h k a ↔ L.at a = some ⟨k, .free⟩ := by
  obtain ⟨l, hl, -, hmem⟩ := r.lists k
  constructor
  · rintro ⟨l', hl', ha⟩
    exact (hmem a).mp (hl'.unique hl ▸ ha)
  · exact fun ha => ⟨l, hl, (hmem a).mpr ha⟩

theorem Good.givenBack (g : Good h L T U) (g' : Good h' L' T U') (hfreed : Freed h L h' L' a) :
    GivenBack h h' a := by
  rw [GivenBack]
  rcases hfreed with ⟨k, hk, hreturned⟩ | ⟨hoffset, hextra, herase⟩
  · have hok := g.represents.header hk
    rw [hok.basePtr]
    rcases hreturned with ⟨o, j, hfree, hfirst, hlast⟩ | hpage
    · refine .inl ⟨o, j, g'.represents.inList_iff.mpr hfree, hfirst, ?_⟩
      rw [hok.kSize]
      exact hlast
    · exact .inr hpage
  · rw [(g.extra_at hoffset hextra).basePtr, herase]
    exact g.extras.not_mem_erase

end

/-! ## The invariant -/

/-- What a thread has in its hands counts as used. -/
def Phase.used (p : Phase) : List Allocation := p.hand.map fun a => ⟨userSpace a, 0⟩

structure ThreadOk (i : ℕ) (t : Thread) (L : Layouts) (T : List Addr) : Prop where
  good : Good t.heap L T (t.phase.used ++ t.given)
  self : t.heap.self = i
  account : t.handed.Perm (t.returned ++ (t.phase.hand ++ T))

def PoolOk (s : Pool) : Prop := ∀ i, ∃ L T, ThreadOk i (s i) L T

section

variable {s t : Pool} {i w : ℕ} {c : PoolAction} {x : Thread} {L : Layouts} {T : List Addr}
  {size : UInt64} {a : Addr} {u : Allocation}

@[simp] theorem set_self : s.set i x i = x := if_pos rfl

theorem PoolOk.set (hs : PoolOk s) (hx : ThreadOk i x L T) : PoolOk (s.set i x) := by
  intro j
  by_cases hj : j = i
  · subst hj
    rw [set_self]
    exact ⟨L, T, hx⟩
  · rw [Pool.set, if_neg hj]
    exact hs j

theorem ThreadOk.call (hx : ThreadOk i x L T) (hphase : x.phase = .idle) :
    ThreadOk i { x with phase := .checking size } L T := by
  have hgood := hx.good
  have haccount := hx.account
  rw [hphase] at hgood haccount
  exact ⟨hgood, hx.self, haccount⟩

theorem ThreadOk.check_nil (hx : ThreadOk i x L []) (hphase : x.phase = .checking size) :
    checkBlocksToBeFreed x.heap = none ∧ ThreadOk i { x with phase := .allocating size } L [] := by
  have hgood := hx.good
  have haccount := hx.account
  rw [hphase] at hgood haccount
  exact ⟨hgood.check_nil, hgood, hx.self, haccount⟩

theorem ThreadOk.check_cons (hx : ThreadOk i x L (a :: T)) (hphase : x.phase = .checking size) :
    checkBlocksToBeFreed x.heap =
        some ({ x.heap with toBeFreedList := x.heap.content.next a }, a) ∧
      ThreadOk i
        { x with
          heap := { x.heap with toBeFreedList := x.heap.content.next a }
          phase := .freeing size a } L T := by
  have hgood := hx.good
  have haccount := hx.account
  rw [hphase] at hgood haccount
  obtain ⟨heq, hgood'⟩ := hgood.check_cons
  exact ⟨heq, hgood', hx.self, haccount⟩

theorem ThreadOk.giveBack (hx : ThreadOk i x L T) (hphase : x.phase = .freeing size a) :
    ∃ L', ThreadOk i
        { x with
          heap := buddyFreeBlock x.heap a
          phase := .checking size
          returned := a :: x.returned } L' T ∧
      GivenBack x.heap (buddyFreeBlock x.heap a) a := by
  have hgood := hx.good
  have haccount := hx.account
  rw [hphase] at hgood haccount
  have hblock : Allocation.block ⟨userSpace a, 0⟩ = a := blockOf_userSpace
  obtain ⟨L', hgood', hfreed, hself, -, -⟩ := Good.free (u := ⟨userSpace a, 0⟩) hgood
  rw [hblock] at hgood' hfreed hself
  refine ⟨L', ⟨hgood', hself.trans hx.self, ?_⟩, hgood.givenBack hgood' hfreed⟩
  exact haccount.trans List.perm_middle

theorem ThreadOk.allocate (hx : ThreadOk i x L T) (hphase : x.phase = .allocating size)
    (hsized : Sized x.heap.config x.heap.kSize size) {env : MallocEnv} {h : Heap}
    {res : Option Addr} (heq : buddyMalloc x.heap size env = some (h, res)) :
    ∃ L', ThreadOk i { x with heap := h, given := give res size.toNat x.given, phase := .idle }
      L' T := by
  have hgood := hx.good
  have haccount := hx.account
  rw [hphase] at hgood haccount
  obtain ⟨h', res', L', heq', hgood', hself⟩ := hgood.malloc hsized env
  cases heq.symm.trans heq'
  exact ⟨L', hgood', hself.trans hx.self, haccount⟩

theorem ThreadOk.used (hx : ThreadOk i x L T) (hu : u ∈ x.given) :
    Good x.heap L T (u :: (x.phase.used ++ x.given.erase u)) := by
  refine hx.good.perm ?_
  exact ((List.perm_cons_erase hu).append_left _).trans List.perm_middle

theorem ThreadOk.free (hx : ThreadOk i x L T) (hu : u ∈ x.given) (w : ℕ) :
    ∃ L' T', ThreadOk i
      { x with
        heap := buddyFree x.heap w u.ptr
        given := x.given.erase u
        handed := if w = i then x.handed else blockOf u.ptr :: x.handed } L' T' := by
  have hgood := hx.used hu
  rw [hgood.buddyFree_eq w]
  by_cases hw : w = i
  · have hself : ¬ x.heap.self ≠ w := not_not.mpr (hx.self.trans hw.symm)
    rw [if_neg hself, if_pos hw]
    obtain ⟨L', hgood', -, hself', -, -⟩ := hgood.free
    exact ⟨L', T, hgood', hself'.trans hx.self, hx.account⟩
  have hself : x.heap.self ≠ w := fun heq => hw (heq.symm.trans hx.self)
  rw [if_pos hself, if_neg hw]
  refine ⟨L, u.block :: T, hgood.push, hx.self, ?_⟩
  -- the block is on record, and it is on the list
  have hmiddle : (x.returned ++ (x.phase.hand ++ u.block :: T)).Perm
      (u.block :: (x.returned ++ (x.phase.hand ++ T))) :=
    (List.perm_middle.append_left x.returned).trans List.perm_middle
  exact (hx.account.cons u.block).trans hmiddle.symm

theorem ThreadOk.write (hx : ThreadOk i x L T) (hu : u ∈ x.given) {y : Addr} (hy : Within u y)
    (hd : BuddyHeader) (next prev : Option Addr) :
    ThreadOk i { x with heap := userWrite x.heap u y hd next prev } L T :=
  ⟨hx.good.write (List.mem_append_right _ hu) hy hd next prev, hx.self, hx.account⟩

/-- **Every step keeps the invariant**, and a block that is given back goes where it should. -/
theorem PoolOk.step (hs : PoolOk s) (hstep : poolStep s c = some t) (hsized : SizedAction s c) :
    PoolOk t ∧ GivesBack s c t := by
  cases c with
  | call i size =>
    rw [poolStep] at hstep
    split at hstep
    next hphase =>
      obtain ⟨L, T, hx⟩ := hs i
      cases hstep
      exact ⟨hs.set (hx.call hphase), trivial⟩
    next => cases hstep
  | check i =>
    rw [poolStep] at hstep
    split at hstep
    next size hphase =>
      obtain ⟨L, T, hx⟩ := hs i
      cases T with
      | nil =>
        obtain ⟨heq, hx'⟩ := hx.check_nil hphase
        rw [heq] at hstep
        cases hstep
        exact ⟨hs.set hx', trivial⟩
      | cons a T =>
        obtain ⟨heq, hx'⟩ := hx.check_cons hphase
        rw [heq] at hstep
        cases hstep
        exact ⟨hs.set hx', trivial⟩
    next => cases hstep
  | giveBack i =>
    rw [poolStep] at hstep
    split at hstep
    next size a hphase =>
      obtain ⟨L, T, hx⟩ := hs i
      cases hstep
      obtain ⟨L', hx', hback⟩ := hx.giveBack hphase
      refine ⟨hs.set hx', fun size' a' hphase' => ?_⟩
      cases hphase.symm.trans hphase'
      rw [set_self]
      exact hback
    next => cases hstep
  | allocate i env =>
    rw [poolStep] at hstep
    split at hstep
    next size hphase =>
      obtain ⟨L, T, hx⟩ := hs i
      obtain ⟨⟨h, res⟩, heq, rfl⟩ := Option.map_eq_some_iff.mp hstep
      rw [SizedAction, hphase] at hsized
      obtain ⟨L', hx'⟩ := hx.allocate hphase hsized heq
      exact ⟨hs.set hx', trivial⟩
    next => cases hstep
  | free w i ptr =>
    rw [poolStep] at hstep
    split at hstep
    next => cases hstep
    split at hstep
    next u hfind =>
      obtain ⟨L, T, hx⟩ := hs i
      cases hstep
      obtain rfl : u.ptr = ptr := by simpa using List.find?_some hfind
      obtain ⟨L', T', hx'⟩ := hx.free (List.mem_of_find?_eq_some hfind) w
      exact ⟨hs.set hx', trivial⟩
    next => cases hstep
  | write i ptr x hd next prev =>
    rw [poolStep] at hstep
    split at hstep
    next u hfind =>
      split at hstep
      next hin =>
        obtain ⟨L, T, hx⟩ := hs i
        cases hstep
        exact ⟨hs.set (hx.write (List.mem_of_find?_eq_some hfind) hin hd next prev), trivial⟩
      next => cases hstep
    next => cases hstep

/-! ## The properties hold -/

theorem ThreadOk.deferredOk (hx : ThreadOk i x L T) : DeferredOk x := by
  refine ⟨T, hx.good.pending, (List.nodup_append.mp hx.good.nodup).1, fun a ha => ?_, hx.account⟩
  have huse := hx.good.waiting a ha
  refine ⟨(hx.good.header huse).1, fun k hlist => ?_⟩
  exact hx.good.not_free huse (hx.good.represents.inList_iff.mp hlist)

theorem exec_turns : ∀ (T : List Addr) {s : Pool} {L : Layouts}, ThreadOk i (s i) L T →
    (s i).phase = .checking size → ∃ t, exec poolStep s (turns i T.length) = some t ∧
      (t i).phase = .allocating size ∧ (t i).handed = (s i).handed ∧
      (t i).handed.Perm (t i).returned := by
  intro T
  induction T with
  | nil =>
    intro s L hx hphase
    obtain ⟨heq, hx'⟩ := hx.check_nil hphase
    refine ⟨s.set i { s i with phase := .allocating size }, ?_, ?_, ?_, ?_⟩
    · rw [List.length_nil, turns, exec_cons, poolStep, hphase]
      dsimp only
      rw [heq]
      rfl
    · rw [set_self]
    · rw [set_self]
    · rw [set_self]
      have haccount : (s i).handed.Perm ((s i).returned ++ []) := hx'.account
      rw [List.append_nil] at haccount
      exact haccount
  | cons a T ih =>
    intro s L hx hphase
    obtain ⟨heq, hx1⟩ := hx.check_cons hphase
    obtain ⟨L2, hx2, -⟩ := hx1.giveBack rfl
    -- the threads after one turn
    generalize hs1 : s.set i
      { s i with
        heap := { (s i).heap with toBeFreedList := (s i).heap.content.next a }
        phase := .freeing size a } = s1
    have hcheck : poolStep s (.check i) = some s1 := by
      rw [poolStep, hphase]
      dsimp only
      rw [heq, ← hs1]
    have hi1 : s1 i =
        { s i with
          heap := { (s i).heap with toBeFreedList := (s i).heap.content.next a }
          phase := .freeing size a } := by rw [← hs1, set_self]
    generalize hs2 : s1.set i
      { s1 i with
        heap := buddyFreeBlock (s1 i).heap a
        phase := .checking size
        returned := a :: (s1 i).returned } = s2
    have hgiveBack : poolStep s1 (.giveBack i) = some s2 := by
      rw [poolStep, hi1]
      dsimp only
      rw [← hs2, hi1]
    have hi2 : s2 i =
        { s1 i with
          heap := buddyFreeBlock (s1 i).heap a
          phase := .checking size
          returned := a :: (s1 i).returned } := by rw [← hs2, set_self]
    have hhanded : (s2 i).handed = (s i).handed := by rw [hi2, hi1]
    obtain ⟨t, hexec, hphase', hsame, hperm⟩ := ih (s := s2) (L := L2)
      (by rw [hi2, hi1]; exact hx2) (by rw [hi2])
    refine ⟨t, ?_, hphase', hsame.trans hhanded, hperm⟩
    rw [List.length_cons, turns, exec_cons, hcheck, Option.bind_some, exec_cons, hgiveBack,
      Option.bind_some]
    exact hexec

theorem PoolOk.processes (hs : PoolOk s) (i : ℕ) : Processes s i := by
  intro size hphase
  obtain ⟨L, T, hx⟩ := hs i
  exact ⟨T.length, exec_turns T hx hphase⟩

theorem poolOk_started (hs : ∀ i, Started i (s i)) : PoolOk s := by
  intro i
  obtain ⟨⟨config, header, content, page, hinit⟩, hk, hgiven, hphase, hhanded, hreturned⟩ := hs i
  obtain ⟨L, hgood, hself, -⟩ := good_buddyInit hinit hk
  refine ⟨L, [], ?_, hself, ?_⟩
  · rw [hphase, hgiven]
    exact hgood
  · rw [hphase, hhanded, hreturned]
    exact List.Perm.nil

/-- **Nothing is lost and nothing is given back twice.** In every run, whatever was put on the list
of a thread was given back once, or is in its hands, or is on the list, and then it is not free. A
thread that looks at its list gives everything back, to its lists of free blocks or to the
system. -/
theorem deferred_of_sized (hs : ∀ i, Started i (s i)) (acts : List PoolAction)
    (hsized : AllSteps poolStep (fun s c _ => SizedAction s c) s acts) :
    Always poolStep (fun s => ∀ i, DeferredOk (s i) ∧ Processes s i) s acts ∧
      AllSteps poolStep GivesBack s acts := by
  have hok : Always poolStep PoolOk s acts :=
    always_of_allSteps (poolOk_started hs) (fun s c t hs ht hc => (hs.step ht hc).1) hsized
  refine ⟨hok.mono fun s hs i => ⟨?_, hs.processes i⟩, ?_⟩
  · obtain ⟨L, T, hx⟩ := hs i
    exact hx.deferredOk
  · exact hsized.imp hok fun s c t hs ht hc => (hs.step ht hc).2

def smallPool : Pool := fun i =>
  ⟨(buddyInit i smallPages (fun _ => blankHeader) ⟨fun _ => none, fun _ => none⟩ true).get rfl, [],
    .idle, [], []⟩

/-- A thread frees a block of another thread, which then allocates again. -/
def freedByAnother : List PoolAction :=
  [.call 1 16, .check 1, .allocate 1 ⟨true, true⟩, .free 2 1 ⟨0, 48⟩, .call 1 20, .check 1,
    .giveBack 1, .check 1, .allocate 1 ⟨true, true⟩]

theorem smallPool_started (i : ℕ) : Started i (smallPool i) := by
  refine ⟨⟨smallPages, fun _ => blankHeader, ⟨fun _ => none, fun _ => none⟩, true, ?_⟩, ?_,
    rfl, rfl,
    rfl, rfl⟩
  · exact (Option.some_get rfl).symm
  · show log2Ceil smallPages.memoryAreaSize ≤ 30
    decide +kernel

theorem deferred_of_sized_freedByAnother :
    Always poolStep (fun s => ∀ i, DeferredOk (s i) ∧ Processes s i) smallPool freedByAnother ∧
      AllSteps poolStep GivesBack smallPool freedByAnother :=
  deferred_of_sized smallPool_started freedByAnother (by decide +kernel)

/-- The list of a thread with an extra block, which another thread has freed. -/
def extraFreedByAnother : List PoolAction :=
  [.call 1 300, .check 1, .allocate 1 ⟨true, true⟩, .free 2 1 ⟨1, 48⟩, .call 1 20, .check 1]

/-- An extra block is not returned to any list of free blocks. -/
theorem extraBlock_not_inList :
    ∃ s t size a, exec poolStep smallPool extraFreedByAnother = some s ∧
      (s 1).phase = .freeing size a ∧ poolStep s (.giveBack 1) = some t ∧
      ∀ k x, InList (t 1).heap k x → x.area ≠ a.area := by
  -- the invariant says that what is in a list is in a page
  have hok : Always poolStep PoolOk smallPool extraFreedByAnother :=
    always_of_allSteps (poolOk_started smallPool_started)
      (fun s c t hs ht hc => (hs.step ht hc).1) (C := fun s c _ => SizedAction s c)
      (by decide +kernel)
  have hexec : ((exec poolStep smallPool extraFreedByAnother).bind fun s =>
      (poolStep s (.giveBack 1)).map fun t => ((s 1).phase, (t 1).heap.pages)) =
      some (.freeing 20 ⟨1, 0⟩, [0]) := by
    decide +kernel
  obtain ⟨s, hs, hmap⟩ := Option.bind_eq_some_iff.mp hexec
  obtain ⟨t, ht, hpair⟩ := Option.map_eq_some_iff.mp hmap
  obtain ⟨hphase, hpages⟩ := Prod.mk.inj hpair
  refine ⟨s, t, 20, ⟨1, 0⟩, hs, hphase, ht, fun k x hlist => ?_⟩
  obtain ⟨L, T, hx⟩ := ((hok.exec hs).step ht trivial).1 1
  have hpaged := hx.good.represents.paged (hx.good.represents.inList_iff.mp hlist)
  rw [hpages, List.mem_singleton] at hpaged
  rw [hpaged]
  exact Nat.zero_ne_one

end

end CloudNfs.BuddyMalloc
