import CloudNfs.ByteFile
import CloudNfs.Run

/-!
# Unstable writes and their commit

`cache_inode_rdwr` may keep the data of a write in memory instead of giving it to the
FSAL, and `cache_inode_commit` writes it out later. One buffer, one offset and one
length stand for all the writes kept so far:

* the first unstable write allocates the buffer and starts it at its own offset;
* a later one is copied at *its offset in the file*, whatever the offset of the buffer
  is, when a test on that offset says that it fits, and becomes a direct write if not;
* a commit of everything writes `length` bytes of the buffer at the buffer's offset and
  frees it; a commit of a part writes the bytes asked for and keeps the buffer.

The FSAL's file is a byte array. The state also carries the file that all the writes
made so far, in their order, should give (`made`), and whether every copy into the
buffer stayed inside it (`within`).
-/

namespace CloudNfs

namespace UnstableWrite

/-- `CACHE_INODE_UNSTABLE_BUFFERSIZE`. -/
def bufferSize : ℕ := 100 * 1024 * 1024

/-- A regular file without data cache entry: what the FSAL holds of it, and
`cache_inode_unstable_data_t`. -/
structure Entry where
  fsal : ByteFile
  /-- `buffer`; `none` is `NULL` -/
  buffer : Option (ℕ → UInt8)
  offset : UInt64
  length : UInt32

/-- What `cache_inode_rdwr` does with the data of a write. -/
inductive Outcome where
  /-- copied into the unstable buffer at this position -/
  | stored (pos : ℕ)
  /-- given to `FSAL_write` -/
  | direct
  | mallocError
  deriving DecidableEq

/-- `memcpy(buffer + pos, data, n)`. -/
def memcpy (buffer : ℕ → UInt8) (pos n : ℕ) (data : ℕ → UInt8) : ℕ → UInt8 :=
  fun i => if pos ≤ i ∧ i < pos + n then data (i - pos) else buffer i

/-- The write of `cache_inode_rdwr` through the FSAL, which always succeeds in full. -/
def fsalWrite (e : Entry) (offset : UInt64) (size : ℕ) (data : ℕ → UInt8) : Entry × Outcome :=
  ({ e with fsal := e.fsal.write offset.toNat size data }, .direct)

/-- The test on a further unstable write: the sum is one of `uint64_t`. -/
def FitsTest (e : Entry) (offset : UInt64) (size : ℕ) : Prop :=
  e.offset < offset ∧ (size + offset.toNat) % 2 ^ 64 < bufferSize

instance (e : Entry) (offset : UInt64) (size : ℕ) : Decidable (FitsTest e offset size) :=
  inferInstanceAs (Decidable (_ ∧ _))

/-- `cache_inode_rdwr` for a write; `alloc` is what `Mem_Alloc` returns, a buffer with whatever
bytes it holds. -/
def cacheInodeRdwr (e : Entry) (offset : UInt64) (size : ℕ) (data : ℕ → UInt8) (stable : Bool)
    (alloc : Option (ℕ → UInt8)) : Entry × Outcome :=
  if stable = false then
    match e.buffer with
    | none =>
      match alloc with
      | none => (e, .mallocError)
      | some fresh =>
        ({ e with
            buffer := some (memcpy fresh 0 size data)
            offset := offset
            length := UInt32.ofNat size }, .stored 0)
    | some buffer =>
      if FitsTest e offset size then
        ({ e with
            buffer := some (memcpy buffer offset.toNat size data)
            length := UInt32.ofNat ((size + offset.toNat) % 2 ^ 64) }, .stored offset.toNat)
      else fsalWrite e offset size data
  else fsalWrite e offset size data

/-- The counts that mean everything. -/
def CommitsAll (count : UInt64) : Prop := count = 0 ∨ count = 0xFFFFFFFF

instance (count : UInt64) : Decidable (CommitsAll count) :=
  inferInstanceAs (Decidable (_ ∨ _))

/-- `cache_inode_commit`; a part that begins before the buffer is refused. -/
def cacheInodeCommit (e : Entry) (offset count : UInt64) : Entry :=
  match e.buffer with
  | none => e
  | some buffer =>
    if CommitsAll count then
      { (cacheInodeRdwr e e.offset e.length.toNat buffer true none).1 with buffer := none }
    else if offset < e.offset then e
    else
      (cacheInodeRdwr e offset count.toNat
        (fun i => buffer (offset.toNat - e.offset.toNat + i)) true none).1

/-- The data of a write: at most 100 MB. -/
abbrev Data := {d : List UInt8 // d.length ≤ bufferSize}

/-- The bytes a pointer to the data leads to. -/
def Data.bytes (d : Data) : ℕ → UInt8 := fun i => d.1.getD i 0

inductive Call where
  /-- `cache_inode_rdwr` with `CACHE_INODE_WRITE` -/
  | write (offset : UInt64) (data : Data) (stable : Bool) (alloc : Option (ℕ → UInt8))
  | commit (offset count : UInt64)

/-- The file, with the record of what should have happened to it. -/
structure State where
  /-- the cache entry and the FSAL's file -/
  entry : Entry
  /-- all the writes made, in their order, on the file as it was at first -/
  made : ByteFile
  /-- every copy into the unstable buffer stayed inside it -/
  within : Bool

def step (s : State) : Call → Option State
  | .write offset data stable alloc =>
    let r := cacheInodeRdwr s.entry offset data.1.length data.bytes stable alloc
    some
      { entry := r.1
        made := if r.2 = .mallocError then s.made
          else s.made.write offset.toNat data.1.length data.bytes
        within := s.within && match r.2 with
          | .stored pos => decide (pos + data.1.length ≤ bufferSize)
          | _ => true }
  | .commit offset count => some { s with entry := cacheInodeCommit s.entry offset count }

/-- A file nobody has written to yet: no buffer, with what an earlier one left in the two other
fields. -/
def start (f : ByteFile) (offset : UInt64) (length : UInt32) : State :=
  ⟨⟨f, none, offset, length⟩, f, true⟩

/-- A commit of everything, made now, leaves in the FSAL what all the writes give, and no write
has left the buffer. -/
def Kept (s : State) : Prop :=
  (∀ offset, (cacheInodeCommit s.entry offset 0).fsal = s.made) ∧ s.within = true

/-- The bytes of a direct write that are also pending in the buffer are the same there: above
all, when there are none. -/
def AgreesWithPending (e : Entry) (offset : UInt64) (data : Data) : Prop :=
  ∀ buffer, e.buffer = some buffer → ∀ i,
    offset.toNat ≤ i → i < offset.toNat + data.1.length →
    e.offset.toNat ≤ i → i < e.offset.toNat + e.length.toNat →
    data.bytes (i - offset.toNat) = buffer (i - e.offset.toNat)

/-- A further unstable write that the buffer, with its one offset and length, can hold. -/
structure Continues (e : Entry) (offset : UInt64) (size : ℕ) : Prop where
  /-- the sum of the test does not wrap around -/
  noWrap : size + offset.toNat < 2 ^ 64
  /-- it leaves no gap behind the bytes already there -/
  noGap : offset.toNat ≤ e.length.toNat
  /-- it reaches at least as far as they do -/
  reaches : e.length.toNat ≤ offset.toNat + size
  /-- positions in the buffer are positions in the file -/
  fromZero : e.offset = 0 ∨ size = 0

/-- The calls that the buffer handles. -/
def Handled (s : State) : Call → State → Prop
  | .write offset data stable _, _ =>
    if stable = false ∧ s.entry.buffer.isSome = true ∧ FitsTest s.entry offset data.1.length then
      Continues s.entry offset data.1.length
    else AgreesWithPending s.entry offset data
  | .commit offset count, _ =>
    s.entry.buffer.isSome = true → ¬ CommitsAll count → s.entry.offset ≤ offset →
      offset.toNat + count.toNat ≤ s.entry.offset.toNat + s.entry.length.toNat

/-! ### What is pending -/

/-- The file as a commit of everything leaves it. -/
def Entry.flushed (e : Entry) : ByteFile :=
  match e.buffer with
  | none => e.fsal
  | some buffer => e.fsal.write e.offset.toNat e.length.toNat buffer

variable {count offset : UInt64} {e : Entry} {data : Data} {s t : State}

theorem commit_all_fsal (e : Entry) (offset : UInt64) (h : CommitsAll count) :
    (cacheInodeCommit e offset count).fsal = e.flushed := by
  unfold cacheInodeCommit Entry.flushed
  cases e.buffer with
  | none => rfl
  | some buffer =>
    simp only [if_pos h]
    rfl

theorem commit_all_buffer (e : Entry) (offset : UInt64) (h : CommitsAll count) :
    (cacheInodeCommit e offset count).buffer = none := by
  unfold cacheInodeCommit
  cases hb : e.buffer with
  | none => exact hb
  | some buffer => simp only [if_pos h]

theorem fsalWrite_flushed (h : AgreesWithPending e offset data) :
    (fsalWrite e offset data.1.length data.bytes).1.flushed =
      e.flushed.write offset.toNat data.1.length data.bytes := by
  unfold fsalWrite Entry.flushed
  cases hb : e.buffer with
  | none => rfl
  | some buffer => exact ByteFile.write_comm _ (h buffer hb)

theorem first_flushed (e : Entry) (he : e.buffer = none) (offset : UInt64) (data : Data)
    (fresh : ℕ → UInt8) :
    Entry.flushed
      { e with
        buffer := some (memcpy fresh 0 data.1.length data.bytes)
        offset := offset
        length := UInt32.ofNat data.1.length } =
      e.flushed.write offset.toNat data.1.length data.bytes := by
  have hlt : data.1.length < 2 ^ 32 := by
    have h := data.2
    simp only [bufferSize] at h
    omega
  simp only [Entry.flushed, he, UInt32.toNat_ofNat_of_lt' hlt]
  refine ByteFile.write_congr _ fun i hi => ?_
  simp only [memcpy]
  rw [if_pos (by omega)]
  rfl

theorem further_flushed {buffer : ℕ → UInt8} (hb : e.buffer = some buffer)
    (hfits : FitsTest e offset data.1.length) (h : Continues e offset data.1.length) :
    Entry.flushed
      { e with
        buffer := some (memcpy buffer offset.toNat data.1.length data.bytes)
        length := UInt32.ofNat ((data.1.length + offset.toNat) % 2 ^ 64) } =
      e.flushed.write offset.toNat data.1.length data.bytes := by
  have hmod : (data.1.length + offset.toNat) % 2 ^ 64 = data.1.length + offset.toNat :=
    Nat.mod_eq_of_lt h.noWrap
  have hlt : data.1.length + offset.toNat < 2 ^ 32 := by
    have hsmall := hfits.2
    rw [hmod] at hsmall
    simp only [bufferSize] at hsmall
    omega
  have hgap := h.noGap
  have hreach := h.reaches
  simp only [Entry.flushed, hb, hmod, UInt32.toNat_ofNat_of_lt' hlt]
  rcases h.fromZero with h0 | h0
  · rw [h0]
    simp only [UInt64.toNat_zero]
    rw [ByteFile.write_overlay _ (Nat.zero_le _) (by omega) (by omega)]
    rw [show offset.toNat - 0 + data.1.length = data.1.length + offset.toNat by omega]
    refine ByteFile.write_congr _ fun i hi => ?_
    simp only [memcpy, Nat.sub_zero]
    by_cases hin : offset.toNat ≤ i
    · rw [if_pos ⟨hin, by omega⟩, if_pos hin]
    · rw [if_neg (fun hc => hin hc.1), if_neg hin]
  · have hlen : data.1.length + offset.toNat = e.length.toNat := by omega
    rw [hlen, h0, ByteFile.write_zero]
    refine ByteFile.write_congr _ fun i hi => ?_
    simp only [memcpy]
    rw [if_neg (by omega)]

theorem commit_part_flushed (hc : ¬ CommitsAll count)
    (h : e.buffer.isSome = true → e.offset ≤ offset →
      offset.toNat + count.toNat ≤ e.offset.toNat + e.length.toNat) :
    (cacheInodeCommit e offset count).flushed = e.flushed := by
  unfold cacheInodeCommit
  cases hb : e.buffer with
  | none => rfl
  | some buffer =>
    simp only [if_neg hc]
    by_cases hoff : offset < e.offset
    · rw [if_pos hoff]
    have hle : e.offset ≤ offset := UInt64.not_lt.mp hoff
    have hend := h (by simp [hb]) hle
    rw [if_neg hoff]
    simp only [cacheInodeRdwr, fsalWrite, Entry.flushed, hb]
    exact ByteFile.write_absorb _ (UInt64.le_iff_toNat_le.mp hle) hend

/-! ### Runs -/

theorem kept_iff : Kept s ↔ s.entry.flushed = s.made ∧ s.within = true := by
  unfold Kept
  refine and_congr_left fun _ => ⟨fun h => ?_, fun h offset => ?_⟩
  · rw [← h 0, commit_all_fsal _ _ (.inl rfl)]
  · rw [← h, commit_all_fsal _ _ (.inl rfl)]

/-- What a write that the buffer handles does: it fails and changes nothing, or a commit of
everything now leaves it in the file, and a copy into the buffer stays inside it. -/
structure WriteKept (e : Entry) (offset : UInt64) (data : Data) (r : Entry × Outcome) : Prop where
  failed : r.2 = .mallocError → r.1 = e
  made : r.2 ≠ .mallocError → r.1.flushed = e.flushed.write offset.toNat data.1.length data.bytes
  within : ∀ pos, r.2 = .stored pos → pos + data.1.length ≤ bufferSize

theorem fsalWrite_writeKept (h : AgreesWithPending e offset data) :
    WriteKept e offset data (fsalWrite e offset data.1.length data.bytes) where
  failed hr := by cases hr
  made _ := fsalWrite_flushed h
  within pos hr := by cases hr

theorem rdwr_writeKept {stable : Bool} {alloc : Option (ℕ → UInt8)}
    (h : Handled s (.write offset data stable alloc) t) :
    WriteKept s.entry offset data
      (cacheInodeRdwr s.entry offset data.1.length data.bytes stable alloc) := by
  simp only [Handled] at h
  cases stable with
  | true =>
    rw [if_neg (fun hc => Bool.noConfusion hc.1)] at h
    exact fsalWrite_writeKept h
  | false =>
    simp only [cacheInodeRdwr, if_true]
    split
    · next hb =>
      cases alloc with
      | none => exact ⟨fun _ => rfl, fun hne => absurd rfl hne, fun pos hr => by cases hr⟩
      | some fresh =>
        refine ⟨fun hr => Outcome.noConfusion hr,
          fun _ => first_flushed s.entry hb offset data fresh, ?_⟩
        rintro pos hr
        obtain rfl := Outcome.stored.inj hr
        simpa using data.2
    · next buffer hb =>
      by_cases hfits : FitsTest s.entry offset data.1.length
      · rw [if_pos ⟨rfl, by simp [hb], hfits⟩] at h
        rw [if_pos hfits]
        refine ⟨fun hr => Outcome.noConfusion hr, fun _ => further_flushed hb hfits h, ?_⟩
        rintro pos hr
        obtain rfl := Outcome.stored.inj hr
        have hsmall := hfits.2
        rw [Nat.mod_eq_of_lt h.noWrap] at hsmall
        omega
      · rw [if_neg (fun hc => hfits hc.2.2)] at h
        rw [if_neg hfits]
        exact fsalWrite_writeKept h

theorem Kept.write {stable : Bool} {alloc : Option (ℕ → UInt8)} (hs : Kept s)
    (ht : step s (.write offset data stable alloc) = some t)
    (h : Handled s (.write offset data stable alloc) t) : Kept t := by
  obtain ⟨hmade, hwithin⟩ := kept_iff.mp hs
  have hw := rdwr_writeKept h
  cases ht
  rw [kept_iff]
  simp only
  generalize cacheInodeRdwr s.entry offset data.1.length data.bytes stable alloc = r at hw ⊢
  refine ⟨?_, ?_⟩
  · split
    · next hr => rw [hw.failed hr, hmade]
    · next hr => rw [hw.made hr, hmade]
  · rw [hwithin, Bool.true_and]
    split
    · next pos hr => exact decide_eq_true (hw.within pos hr)
    · rfl

theorem Kept.commit (hs : Kept s) (ht : step s (.commit offset count) = some t)
    (h : Handled s (.commit offset count) t) : Kept t := by
  obtain ⟨hmade, hwithin⟩ := kept_iff.mp hs
  cases ht
  rw [kept_iff]
  refine ⟨?_, hwithin⟩
  by_cases hc : CommitsAll count
  · have hbuf := commit_all_buffer s.entry offset hc
    have hfsal := commit_all_fsal s.entry offset hc
    simp only [Entry.flushed, hbuf]
    rw [hfsal, hmade]
  · rw [← hmade]
    exact commit_part_flushed hc fun hsome hle => h hsome hc hle

/-- **WRITE then COMMIT.** In a run whose calls the buffer all handles, a commit of everything
leaves at any time what all the writes give in their order, and no unstable write leaves the
buffer. -/
theorem kept_of_handled (f : ByteFile) (offset : UInt64) (length : UInt32) (calls : List Call)
    (h : AllSteps step Handled (start f offset length) calls) :
    Always step Kept (start f offset length) calls := by
  refine always_of_allSteps (kept_iff.mpr ⟨rfl, rfl⟩) (fun s a t hs ht hC => ?_) h
  cases a with
  | write offset data stable alloc => exact hs.write ht hC
  | commit offset count => exact hs.commit ht hC

def emptyFile : ByteFile := ⟨0, fun _ => 0, ByteFile.empty.beyond⟩

theorem two_le_bufferSize : [(1 : UInt8), 2].length ≤ bufferSize := by decide

/-- A buffer as the allocator hands it out. -/
def freshBuffer : Option (ℕ → UInt8) := some fun _ => 0

/-- Two unstable writes from the start of the file on, the second right behind the first. -/
def sequentialWrites : List Call :=
  [.write 0 ⟨[1, 2], two_le_bufferSize⟩ false freshBuffer, .write 2 ⟨[3], by decide⟩ false none]

theorem kept_sequentialWrites :
    Always step Kept (start emptyFile 0 0) sequentialWrites := by
  refine kept_of_handled _ _ _ _ ?_
  rintro s hs
  cases hs
  refine ⟨fun buffer hb => absurd hb (Option.some_ne_none buffer).symm, ?_⟩
  rintro t ht
  cases ht
  refine ⟨?_, trivial⟩
  exact ⟨by decide, by decide, by decide, Or.inl rfl⟩

/-- **The slip**: two unstable writes side by side, the first at offset 10. The second is copied at
position 11 of the buffer, not at position 1, so the commit puts it at offset 21 of the file. -/
theorem offsetWrites_not_kept :
    ¬ Always step Kept (start emptyFile 0 0)
      [.write 10 ⟨[1], by decide⟩ false freshBuffer, .write 11 ⟨[2], by decide⟩ false none] := by
  intro h
  have hkept := h.exec rfl
  have hbyte := congrArg (fun f => f.byte 11) (hkept.1 0)
  exact absurd hbyte (by decide)

end UnstableWrite

end CloudNfs
