import CloudNfs.ReadOnly

/-!
# The limits of an export

An export may have a greatest offset and a greatest size for READ and for WRITE. Each of the four
operations of NFSv3 and NFSv4 tests the offset, and then puts the size down to its limit.

* The sum of the offset and the count wraps at `2 ^ 64`, and `fsal_off_t` is signed: the test passes
  from `2 ^ 63` on.
* NFSv4 tests the option 1 for the limit of the size, which is `EXPORT_OPTION_NOSUID`.
* What reaches `cache_inode_rdwr` is within the limits exactly if neither of the two matters
  (`keepsLimits_iff`).
-/

namespace CloudNfs.IoLimits

open Nfs4 (IoExport IoData IoEnv IoStatus IoRes ReadArgs WriteArgs States Config)
open ReadOnly (Request Version nfsWriteSize exportOptionMaxwrite)
open Compound (FileType)

/-! ## The code -/

def exportOptionMaxread : UInt32 := 0x00000200

/-- What `nfs_Read` and `nfs_Write` share, as far as `cache_inode_rdwr`: the offset and the size, if
it is called. -/
def nfsIo (refused : Bool) (size : Option UInt64) (alloc : Bool) (req : Request)
    (env : ReadOnly.Env) : Option (UInt64 × UInt64) :=
  match env.entry with
  | .error _ => none
  | .ok type =>
    if req.vers = .v3 ∧ req.fh.xattrPos ≠ 0 then none
    else if type ≠ .regularFile then none
    else if refused then none
    else
      match size with
      | none => none
      | some size =>
        if size = 0 then none
        else if !alloc then none
        else
          match env.dataCache with
          | some _ => none
          | none => some (req.offset, size)

/-- `nfs_Write` -/
def nfsWriteIo (pexport : IoExport) (req : Request) (env : ReadOnly.Env) :
    Option (UInt64 × UInt64) :=
  nfsIo (pexport.accessType = .mdonly) (nfsWriteSize pexport req env).toOption true req env

/-- The size that `nfs_Read` reads; no size where it fails. -/
def nfsReadSize (pexport : IoExport) (req : Request) : Option UInt64 :=
  match req.vers with
  | .v2 => some req.count.toUInt64
  | .v3 =>
    if pexport.options &&& Nfs4.maxoffsetread = Nfs4.maxoffsetread ∧
        pexport.maxOffsetRead < (req.offset + req.count.toUInt64).toInt64 then none
    else if pexport.options &&& exportOptionMaxread = exportOptionMaxread ∧
        pexport.maxRead < req.count.toUInt64 then some pexport.maxRead
    else some req.count.toUInt64

/-- `nfs_Read`; `alloc` says whether there is memory for the data. -/
def nfsReadIo (pexport : IoExport) (req : Request) (env : ReadOnly.Env) (alloc : Bool) :
    Option (UInt64 × UInt64) :=
  nfsIo (pexport.accessType = .mdonly ∨ pexport.accessType = .mdonlyRo) (nfsReadSize pexport req)
    alloc req env

/-- The offset and the size of the call, for NFSv4. -/
def reached : IoRes → Option (UInt64 × UInt64)
  | .rdwr offset size _ => some (offset, size)
  | _ => none

/-- A READ or a WRITE of NFSv3 or NFSv4. -/
inductive Io where
  /-- `nfs_Read` -/
  | read3 (pexport : IoExport) (req : Request) (env : ReadOnly.Env) (alloc : Bool)
  /-- `nfs_Write` -/
  | write3 (pexport : IoExport) (req : Request) (env : ReadOnly.Env)
  /-- `nfs4_op_read` -/
  | read4 (cfg : Config) (s : States) (data : IoData) (args : ReadArgs) (st : IoStatus)
    (env : IoEnv)
  /-- `nfs4_op_write` -/
  | write4 (cfg : Config) (s : States) (data : IoData) (args : WriteArgs) (st : IoStatus)
    (env : IoEnv)

/-- What goes to `cache_inode_rdwr`. -/
def Io.reached : Io → Option (UInt64 × UInt64)
  | .read3 pexport req env alloc => nfsReadIo pexport { req with vers := .v3 } env alloc
  | .write3 pexport req env => nfsWriteIo pexport { req with vers := .v3 } env
  | .read4 cfg s data args st env => IoLimits.reached (Nfs4.nfs4OpRead cfg s data args st env)
  | .write4 cfg s data args st env => IoLimits.reached (Nfs4.nfs4OpWrite cfg s data args st env)

/-! ## The limits -/

/-- The limits of an export for one kind of request. -/
structure Limits where
  offsetSet : Bool
  maxOffset : Int64
  sizeSet : Bool
  maxSize : UInt64

/-- `MaxOffsetRead` and `MaxRead` -/
def readLimits (x : IoExport) : Limits where
  offsetSet := x.options &&& Nfs4.maxoffsetread = Nfs4.maxoffsetread
  maxOffset := x.maxOffsetRead
  sizeSet := x.options &&& exportOptionMaxread = exportOptionMaxread
  maxSize := x.maxRead

/-- `MaxOffsetWrite` and `MaxWrite` -/
def writeLimits (x : IoExport) : Limits where
  offsetSet := x.options &&& Nfs4.maxoffsetwrite = Nfs4.maxoffsetwrite
  maxOffset := x.maxOffsetWrite
  sizeSet := x.options &&& exportOptionMaxwrite = exportOptionMaxwrite
  maxSize := x.maxWrite

namespace Io

/-- The limits that hold for a request. -/
def limits : Io → Limits
  | .read3 pexport _ _ _ => readLimits pexport
  | .write3 pexport _ _ => writeLimits pexport
  | .read4 _ _ data _ _ _ => readLimits data.pexport
  | .write4 _ _ data _ _ _ => writeLimits data.pexport

/-- Its count. -/
def count : Io → UInt32
  | .read3 _ req _ _ => req.count
  | .write3 _ req _ => req.count
  | .read4 _ _ _ args _ _ => args.count
  | .write4 _ _ _ args _ _ => args.dataLen

/-- Its offset. -/
def offset : Io → UInt64
  | .read3 _ req _ _ => req.offset
  | .write3 _ req _ => req.offset
  | .read4 _ _ _ args _ _ => args.offset
  | .write4 _ _ _ args _ _ => args.offset

/-- Whether its size is put down to the limit: NFSv4 looks at `EXPORT_OPTION_NOSUID`. -/
def limitsSize : Io → Bool
  | .read3 pexport _ _ _ => (readLimits pexport).sizeSet
  | .write3 pexport _ _ => (writeLimits pexport).sizeSet
  | .read4 _ _ data _ _ _ => Nfs4.has data.pexport.options 1
  | .write4 _ _ data _ _ _ => Nfs4.has data.pexport.options 1

end Io

/-- The seek offset as a number: as the request has it, or as an `fsal_off_t`. -/
def SeekOffset (offset : UInt64) (o : ℤ) : Prop := o = offset.toNat ∨ o = offset.toInt64.toInt

/-- **What goes to `cache_inode_rdwr` is within the limits.** -/
structure Within (l : Limits) (count : UInt32) (o : ℤ) (s : UInt64) : Prop where
  offset : l.offsetSet = true → o + s.toNat ≤ l.maxOffset.toInt
  /-- the size where it has a limit, -/
  size : l.sizeSet = true → s ≤ l.maxSize
  /-- and where it has none, it is what was asked for -/
  unlimited : l.sizeSet = false → s = count.toUInt64

/-- The end of the request is a number for `fsal_off_t`, or the size is put down and the new end is
below the limit. -/
def OffsetFits (l : Limits) (limitsSize : Bool) (count : UInt32) (o : ℤ) : Prop :=
  l.offsetSet = true → o + count.toNat < 2 ^ 63 ∨
    limitsSize = true ∧ l.maxSize < count.toUInt64 ∧ o + l.maxSize.toNat ≤ l.maxOffset.toInt

/-- The request does not ask for more than the limit, or the limit counts exactly if it is set. -/
def SizeFits (l : Limits) (limitsSize : Bool) (count : UInt32) : Prop :=
  count.toUInt64 ≤ l.maxSize ∨ limitsSize = l.sizeSet

/-- The size after the test. -/
def limitedSize (limitsSize : Bool) (maxSize : UInt64) (count : UInt32) : UInt64 :=
  if limitsSize = true ∧ maxSize < count.toUInt64 then maxSize else count.toUInt64

structure Passed (l : Limits) (limitsSize : Bool) (offset : UInt64) (count : UInt32)
    (r : UInt64 × UInt64) : Prop where
  eq : r = (offset, limitedSize limitsSize l.maxSize count)
  test : ¬ (l.offsetSet = true ∧ l.maxOffset < (offset + count.toUInt64).toInt64)

section

variable {l : Limits} {limitsSize : Bool} {pexport : IoExport} {req : Request} {env : ReadOnly.Env}
  {r : UInt64 × UInt64} {offset size : UInt64} {count : UInt32} {o : ℤ}

theorem nfsIo_eq_some {refused alloc : Bool} {size : Option UInt64}
    (h : nfsIo refused size alloc req env = some r) : size = some r.2 ∧ r.1 = req.offset := by
  unfold nfsIo at h
  cases hentry : env.entry with
  | error answer => simp [hentry] at h
  | ok type =>
    cases size with
    | none => simp [hentry] at h
    | some size =>
      cases hcache : env.dataCache with
      | some f => simp [hentry, hcache] at h
      | none =>
        simp only [hentry, hcache, Option.ite_none_left_eq_some] at h
        cases h.2.2.2.2.2
        exact ⟨rfl, rfl⟩

theorem passed_read3 {alloc : Bool}
    (h : nfsReadIo pexport { req with vers := .v3 } env alloc = some r) :
    Passed (readLimits pexport) (readLimits pexport).sizeSet req.offset req.count r := by
  obtain ⟨hsize, hoffset⟩ := nfsIo_eq_some h
  simp only [nfsReadSize, Option.ite_none_left_eq_some] at hsize
  refine ⟨Prod.ext hoffset ?_, by simpa [readLimits] using hsize.1⟩
  have hlimited := hsize.2
  rw [← apply_ite some] at hlimited
  rw [← Option.some.inj hlimited]
  simp [limitedSize, readLimits]

theorem passed_write3 (h : nfsWriteIo pexport { req with vers := .v3 } env = some r) :
    Passed (writeLimits pexport) (writeLimits pexport).sizeSet req.offset req.count r := by
  obtain ⟨hsize, hoffset⟩ := nfsIo_eq_some h
  simp only [nfsWriteSize] at hsize
  by_cases hlen : req.dataLen < req.count
  · simp [hlen, Except.toOption] at hsize
  rw [if_neg hlen] at hsize
  by_cases htest : (writeLimits pexport).offsetSet = true ∧
      (writeLimits pexport).maxOffset < (req.offset + req.count.toUInt64).toInt64
  · rw [if_pos (by simpa [writeLimits, UInt64.add_comm] using htest)] at hsize
    cases hsize
  rw [if_neg (by simpa [writeLimits, UInt64.add_comm] using htest), ← apply_ite Except.ok] at hsize
  refine ⟨Prod.ext hoffset ?_, htest⟩
  rw [← Option.some.inj hsize]
  simp [limitedSize, writeLimits]

variable {cfg : Config} {s : States} {data : IoData} {st : IoStatus}

theorem reached_withState {stateid : Nfs4.Stateid4} {refuses : Nfs4.StateData → Bool}
    {deny : UInt32} {k : IoRes}
    (h : reached (Nfs4.withState cfg s data stateid st refuses deny k) = some r) :
    reached k = some r := by
  unfold Nfs4.withState at h
  split at h
  · cases h
  · split at h
    · cases h
    · exact h

theorem eq_of_reached (alloc : Bool) {outside : Prop} [Decidable outside] {type : FileType}
    {dataCache stable : Bool} {status : Nfs4.Nfsstat4} {size : UInt64}
    (h : reached (if type ≠ .regularFile then .fail status
      else if outside then .fail .dquot
      else if size = 0 then .empty
      else if dataCache then .fail .serverfault
      else if !alloc then .fail .serverfault
      else .rdwr offset size stable) = some r) : r = (offset, size) ∧ ¬ outside := by
  split_ifs at h with htype htest hzero hcache halloc
  case neg => exact ⟨(Option.some.inj h).symm, htest⟩
  all_goals cases h

theorem passed_read4 {args : ReadArgs} {env : IoEnv}
    (h : reached (Nfs4.nfs4OpRead cfg s data args st env) = some r) :
    Passed (readLimits data.pexport) (Nfs4.has data.pexport.options 1) args.offset args.count
      r := by
  have hdo : reached (Nfs4.doRead data args env) = some r := by
    unfold Nfs4.nfs4OpRead at h
    split at h
    · cases h
    split_ifs at h
    · cases h
    · cases h
    · exact reached_withState h
  obtain ⟨heq, htest⟩ := eq_of_reached env.alloc hdo
  exact ⟨heq, by simpa [readLimits] using htest⟩

theorem passed_write4 {args : WriteArgs} {env : IoEnv}
    (h : reached (Nfs4.nfs4OpWrite cfg s data args st env) = some r) :
    Passed (writeLimits data.pexport) (Nfs4.has data.pexport.options 1) args.offset args.dataLen
      r := by
  have hdo : reached (Nfs4.doWrite data args env) = some r := by
    unfold Nfs4.nfs4OpWrite at h
    split at h
    · cases h
    split_ifs at h
    · cases h
    · cases h
    · exact reached_withState h
  obtain ⟨heq, htest⟩ := eq_of_reached true hdo
  exact ⟨heq, by simpa [writeLimits] using htest⟩

theorem passed {io : Io} (h : io.reached = some r) :
    Passed io.limits io.limitsSize io.offset io.count r := by
  cases io with
  | read3 => exact passed_read3 h
  | write3 => exact passed_write3 h
  | read4 => exact passed_read4 h
  | write4 => exact passed_write4 h

theorem toInt_toInt64 (x : UInt64) : x.toInt64.toInt = (x.toNat : ℤ).bmod (2 ^ 64) := by
  rw [← Int64.toInt_toBitVec, UInt64.toBitVec_toInt64, BitVec.toInt_eq_toNat_bmod,
    UInt64.toNat_toBitVec]

theorem toInt_sum (ho : SeekOffset offset o) (hend : o + count.toNat < 2 ^ 63) :
    (offset + count.toUInt64).toInt64.toInt = o + count.toNat := by
  have hsum : (offset + count.toUInt64).toInt64.toInt = (o + count.toNat).bmod (2 ^ 64) := by
    rw [toInt_toInt64, UInt64.toNat_add, Int.natCast_mod, Int.emod_bmod, UInt32.toNat_toUInt64,
      Nat.cast_add]
    rcases ho with rfl | rfl
    · rfl
    · rw [toInt_toInt64, Int.bmod_add_bmod]
  have hlow : -2 ^ 63 ≤ o := by
    rcases ho with rfl | rfl
    · omega
    · exact Int64.le_toInt _
  rw [hsum, Int.bmod_eq_of_le] <;> omega

theorem offset_le_iff (ho : SeekOffset offset o)
    (htest : ¬ (l.offsetSet = true ∧ l.maxOffset < (offset + count.toUInt64).toInt64)) :
    (l.offsetSet = true →
      o + (limitedSize limitsSize l.maxSize count).toNat ≤ l.maxOffset.toInt) ↔
      OffsetFits l limitsSize count o := by
  have hmax : l.maxOffset.toInt < 2 ^ 63 := Int64.toInt_lt _
  refine forall_congr' fun hset => ?_
  have hbelow : o + count.toNat < 2 ^ 63 → o + count.toNat ≤ l.maxOffset.toInt := by
    intro hend
    rw [← toInt_sum ho hend]
    exact Int64.le_iff_toInt_le.mp (Int64.not_lt.mp fun hlt => htest ⟨hset, hlt⟩)
  rw [limitedSize]
  by_cases hput : limitsSize = true ∧ l.maxSize < count.toUInt64
  · have hless : l.maxSize.toNat < count.toNat := UInt64.lt_iff_toNat_lt.mp hput.2
    rw [if_pos hput]
    refine ⟨fun hle => Or.inr ⟨hput.1, hput.2, hle⟩, ?_⟩
    rintro (hend | ⟨-, -, hle⟩)
    · have := hbelow hend
      omega
    · exact hle
  · rw [if_neg hput, UInt32.toNat_toUInt64]
    refine ⟨fun hle => Or.inl (by omega), ?_⟩
    rintro (hend | ⟨hlimits, hless, -⟩)
    · exact hbelow hend
    · exact absurd ⟨hlimits, hless⟩ hput

theorem size_iff :
    (l.sizeSet = true → limitedSize limitsSize l.maxSize count ≤ l.maxSize) ∧
        (l.sizeSet = false → limitedSize limitsSize l.maxSize count = count.toUInt64) ↔
      SizeFits l limitsSize count := by
  rw [SizeFits, limitedSize]
  by_cases hless : l.maxSize < count.toUInt64
  · have hne : l.maxSize ≠ count.toUInt64 := UInt64.ne_of_lt hless
    have hnot : ¬ count.toUInt64 ≤ l.maxSize := UInt64.not_le.mpr hless
    cases limitsSize <;> cases l.sizeSet <;> simp [hless, hne, hnot]
  · have hle : count.toUInt64 ≤ l.maxSize := UInt64.not_lt.mp hless
    simp [hless, hle]

/-- **What reaches the call is within the limits** exactly if the offset fits, whichever of the two
numbers the seek offset is, and the size does. -/
theorem keepsLimits_iff (io : Io) (h : io.reached = some (offset, size))
    (ho : SeekOffset offset o) :
    Within io.limits io.count o size ↔
      OffsetFits io.limits io.limitsSize io.count o ∧
        SizeFits io.limits io.limitsSize io.count := by
  obtain ⟨heq, htest⟩ := passed h
  cases heq
  rw [← offset_le_iff ho htest, ← size_iff]
  exact ⟨fun hwithin => ⟨hwithin.offset, hwithin.size, hwithin.unlimited⟩,
    fun hfits => ⟨hfits.1, hfits.2.1, hfits.2.2⟩⟩

end

def short : IoExport where
  accessType := .rw
  options := Nfs4.maxoffsetread
  maxRead := 0
  maxWrite := 0
  maxOffsetRead := 1000
  maxOffsetWrite := 0

def readAt (offset : UInt64) : Io :=
  .read3 short
    { vers := .v3, rqProc := 6, fh := ⟨1, 0⟩, toDir := ⟨1, 0⟩, name := [], toName := [],
      offset := offset, count := 2, dataLen := 0, unstable := false }
    { ReadOnly.stale with entry := .ok .regularFile } true

/-- At the greatest number of an `fsal_off_t` the sum is negative, and the test passes. -/
theorem not_within_readAt :
    (readAt 0x7FFFFFFFFFFFFFFF).reached = some (0x7FFFFFFFFFFFFFFF, 2) ∧
      SeekOffset (readAt 0x7FFFFFFFFFFFFFFF).offset (2 ^ 63 - 1) ∧
      ¬ Within (readAt 0x7FFFFFFFFFFFFFFF).limits (readAt 0x7FFFFFFFFFFFFFFF).count (2 ^ 63 - 1)
        2 := by
  refine ⟨by decide, Or.inl (by decide), fun hwithin => ?_⟩
  exact absurd (hwithin.offset (by decide)) (by decide)

theorem keepsLimits_iff_readAt :
    Within (readAt 100).limits (readAt 100).count 100 2 ↔
      OffsetFits (readAt 100).limits (readAt 100).limitsSize (readAt 100).count 100 ∧
        SizeFits (readAt 100).limits (readAt 100).limitsSize (readAt 100).count :=
  keepsLimits_iff (readAt 100) (show (readAt 100).reached = some (100, 2) by decide)
    (Or.inl (by decide))

end CloudNfs.IoLimits
