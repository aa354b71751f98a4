import CloudNfs.UnstableWrite

/-!
# Reads between the writes

`cache_inode_rdwr` with `CACHE_INODE_READ` and `stable = TRUE` goes to the FSAL, and does not look
at the unstable buffer. So what an unstable write has put there is read only after a commit.

* `readsBack_iff` — as long as the buffer handles the writes and commits, a read gives what the
  writes before it give, if and only if nothing that is pending matters to it.
-/

namespace CloudNfs

namespace ReadBack

open UnstableWrite

inductive Op where
  /-- `cache_inode_rdwr` with `CACHE_INODE_WRITE`, or `cache_inode_commit` -/
  | call (c : Call)
  /-- `cache_inode_rdwr` with `CACHE_INODE_READ` and `stable = TRUE` -/
  | read (offset : UInt64) (size : ℕ)

/-- `cache_inode_rdwr` for a read: the one of the FSAL, which always succeeds in full. -/
def cacheInodeRead (e : Entry) (offset : UInt64) (size : ℕ) : List UInt8 :=
  e.fsal.read offset.toNat size

def step (s : State) : Op → Option State
  | .call c => UnstableWrite.step s c
  | .read .. => some s

/-- **A read gives what the writes give.** -/
def ReadsBack (s : State) : Op → State → Prop
  | .call _, _ => True
  | .read offset size, _ => cacheInodeRead s.entry offset size = s.made.read offset.toNat size

/-- Nothing that is pending matters to a read: where the two meet the FSAL has the same bytes, and
the file does not end before them. -/
def NothingPending (e : Entry) (offset : UInt64) (size : ℕ) : Prop :=
  ∀ buffer, e.buffer = some buffer → e.length.toNat ≠ 0 →
    (∀ i, offset.toNat ≤ i → i < offset.toNat + size →
      e.offset.toNat ≤ i → i < e.offset.toNat + e.length.toNat →
      buffer (i - e.offset.toNat) = e.fsal.byte i) ∧
    min (offset.toNat + size) (e.offset.toNat + e.length.toNat) ≤ max offset.toNat e.fsal.size

/-- The writes and commits are those that the buffer handles. -/
def CallsHandled (s : State) : Op → State → Prop
  | .call c, t => Handled s c t
  | .read .., _ => True

/-- Nothing that is pending matters to the reads. -/
def ReadsApart (s : State) : Op → State → Prop
  | .call _, _ => True
  | .read offset size, _ => NothingPending s.entry offset size

theorem read_flushed_iff (e : Entry) (offset : UInt64) (size : ℕ) :
    cacheInodeRead e offset size = e.flushed.read offset.toNat size ↔
      NothingPending e offset size := by
  unfold cacheInodeRead Entry.flushed NothingPending
  cases hb : e.buffer with
  | none => simp
  | some buffer =>
    simp only [Option.some.injEq, forall_eq']
    by_cases hlen : e.length.toNat = 0
    · simp [hlen]
    · rw [ByteFile.read_write_iff _ hlen]
      exact ⟨fun h _ => h, fun h => h hlen⟩

theorem readsBack_iff_apart {s t : State} (hs : Kept s) (op : Op) :
    ReadsBack s op t ↔ ReadsApart s op t := by
  cases op with
  | call c => exact Iff.rfl
  | read offset size =>
    simp only [ReadsBack, ReadsApart]
    rw [← (kept_iff.mp hs).1]
    exact read_flushed_iff s.entry offset size

theorem kept_step {s t : State} {op : Op} (hs : Kept s) (ht : step s op = some t)
    (h : CallsHandled s op t) : Kept t := by
  cases op with
  | call c =>
    cases c with
    | write offset data stable alloc => exact hs.write ht h
    | commit offset count => exact hs.commit ht h
  | read offset size =>
    cases ht
    exact hs

/-- **Reads see earlier writes**, in a run whose writes and commits the buffer handles, exactly if
nothing that is pending ever matters to a read. -/
theorem readsBack_iff (f : ByteFile) (offset : UInt64) (length : UInt32) (ops : List Op)
    (h : AllSteps step CallsHandled (start f offset length) ops) :
    AllSteps step ReadsBack (start f offset length) ops ↔
      AllSteps step ReadsApart (start f offset length) ops := by
  have hkept : Always step Kept (start f offset length) ops :=
    always_of_allSteps (kept_iff.mpr ⟨rfl, rfl⟩) (fun _ _ _ hs ht hC => kept_step hs ht hC) h
  constructor
  · exact fun hr => hr.imp hkept fun s op t hs _ => (readsBack_iff_apart hs op).mp
  · exact fun hr => hr.imp hkept fun s op t hs _ => (readsBack_iff_apart hs op).mpr

/-- A write, its commit, and then a read. -/
def committedRead : List Op :=
  [.call (.write 0 ⟨[1, 2], two_le_bufferSize⟩ false freshBuffer), .call (.commit 0 0), .read 0 2]

theorem readsBack_committedRead :
    AllSteps step ReadsBack (start emptyFile 0 0) committedRead ↔
      AllSteps step ReadsApart (start emptyFile 0 0) committedRead := by
  refine readsBack_iff _ _ _ _ ?_
  rintro s hs
  cases hs
  refine ⟨fun buffer hb => absurd hb (Option.some_ne_none buffer).symm, ?_⟩
  rintro t ht
  refine ⟨fun _ hc => absurd (Or.inl rfl) hc, ?_⟩
  exact fun u hu => ⟨trivial, trivial⟩

/-- **The stale read**: an unstable write, and a read before its commit. -/
theorem pendingWrite_not_read :
    ¬ AllSteps step ReadsBack (start emptyFile 0 0)
      [.call (.write 0 ⟨[1], by decide⟩ false freshBuffer), .read 0 1] := by
  intro h
  obtain ⟨-, h⟩ := h _ rfl
  obtain ⟨hread, -⟩ := h _ rfl
  have hlength := congrArg List.length (show cacheInodeRead _ 0 1 = ByteFile.read _ 0 1 from hread)
  exact absurd hlength (by decide)

end ReadBack

end CloudNfs
