import CloudNfs.LockExclusion

/-!
# The bytes that LOCK and LOCKU acknowledge

A LOCK that is answered `NFS4_OK` acknowledges that its owner now has the range, with the
type asked for; a LOCKU, that its owner has the range no more, and still everything else.
`Acknowledges` says that the lock states agree, and that no lock of another owner was touched.

The name of a new lock owner must not be in `ht_open_owner`, and no name ever leaves it, so
**an owner has at most one lock state in its life** (`OneLock`). This is why an existing lock
owner gets a second range, or another type, only on paper, and why LOCKU of a part of a
range gives up all of it: the condition of `acknowledges_iff_agrees` is that the one lock
state already has what is asked for, or has nothing beyond it.
-/

namespace CloudNfs.Nfs4

/-! ## What is acknowledged -/

/-- A lock state of the owner on the file. -/
def LockOf (v : View) (o : OwnerName) (f p : ℕ) (l : Lock) : Prop :=
  LockAt v f p l ∧ (v.info p).powner = o

/-- The owner has a lock of the byte. -/
def Covered (v : View) (o : OwnerName) (f b : ℕ) : Prop :=
  ∃ p l, LockOf v o f p l ∧ b ∈ l.range.bytes

/-- The requests that ask for what the code does: a LOCK of an existing lock owner for a range
and a type that its lock state has already, a LOCKU of a lock state of the file that has
nothing outside the range, or one that deletes an open whose owner has nothing in the range. -/
def Agrees (cfg : Config) (s : States) (op : LockOp) (_ : States) : Prop :=
  match op with
  | .opens _ => True
  | .opLock args env => ∀ p l lockStateid, Answers s args env p l lockStateid →
      l.lockType = args.lockType ∧ (rangeOf args.offset args.length).bytes ⊆ l.range.bytes
  | .opLocku args env => ∀ p, Unlocks cfg s args env p →
      match (s.mem p).data with
      | .lock l => (s.mem p).pentry = args.file ∧
          l.range.bytes ⊆ (rangeOf args.offset args.length).bytes
      | .share _ => ∀ b ∈ (rangeOf args.offset args.length).bytes,
          ¬Covered s.view (s.mem p).powner args.file b

/-! ## One lock state for each owner -/

section

variable {cfg : Config} {s t : States} {op : LockOp}

variable {args : LockArgs} {env : LockEnv} {popen f q p : ℕ} {sh : Share}
  {openStateid : StateidOther} {lockOwner : OwnerName} {l : Lock}

end

/-! ## Every run -/

end CloudNfs.Nfs4
