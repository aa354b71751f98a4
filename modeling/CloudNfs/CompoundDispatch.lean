import Mathlib.Data.List.Basic

/-!
# The operations of a COMPOUND (`NFS_Protocols/nfs4_Compound.c`)

`nfs4_Compound` finds the function for an operation in two steps: `optab4index` maps the number of
the operation to a position in the table of operations of the minor version. There is one
`optab4index` for a build, and it is made for the largest table.

* `dispatched_iff` — which operations are found where they should be.
-/

namespace CloudNfs.Nfs4.Compound4

/-! ## The tables -/

/-- Whether the server is built with `_USE_NFS4_1`. -/
inductive Build where
  | nfs40
  | nfs41
  deriving DecidableEq

/-- The functions of the operations. -/
inductive OpFunct where
  | nfs4OpAccess | nfs4OpClose | nfs4OpCommit | nfs4OpCreate | nfs4OpDelegpurge | nfs4OpDelegreturn
  | nfs4OpGetattr | nfs4OpGetfh | nfs4OpLink | nfs4OpLock | nfs4OpLockt | nfs4OpLocku | nfs4OpLookup
  | nfs4OpLookupp | nfs4OpNverify | nfs4OpOpen | nfs4OpOpenattr | nfs4OpOpenConfirm
  | nfs4OpOpenDowngrade | nfs4OpPutfh | nfs4OpPutpubfh | nfs4OpPutrootfh | nfs4OpRead
  | nfs4OpReaddir | nfs4OpReadlink | nfs4OpRemove | nfs4OpRename | nfs4OpRenew | nfs4OpRestorefh
  | nfs4OpSavefh | nfs4OpSecinfo | nfs4OpSetattr | nfs4OpSetclientid | nfs4OpSetclientidConfirm
  | nfs4OpVerify | nfs4OpWrite | nfs4OpReleaseLockowner | nfs4OpIllegal | nfs41OpClose | nfs41OpLock
  | nfs41OpLockt | nfs41OpLocku | nfs41OpOpen | nfs41OpRead | nfs41OpWrite | nfs41OpExchangeId
  | nfs41OpCreateSession | nfs41OpDestroySession | nfs41OpGetdeviceinfo | nfs41OpGetdevicelist
  | nfs41OpLayoutcommit | nfs41OpLayoutget | nfs41OpLayoutreturn | nfs41OpSequence | nfs41OpSetSsv
  | nfs41OpReclaimComplete
  deriving DecidableEq

/-- `nfs4_op_desc_t`. -/
structure OpDesc where
  name : String
  val : UInt32
  funct : OpFunct

def optab4v0 : List OpDesc :=
  [ ⟨"OP_ACCESS", 3, .nfs4OpAccess⟩,
    ⟨"OP_CLOSE", 4, .nfs4OpClose⟩,
    ⟨"OP_COMMIT", 5, .nfs4OpCommit⟩,
    ⟨"OP_CREATE", 6, .nfs4OpCreate⟩,
    ⟨"OP_DELEGPURGE", 7, .nfs4OpDelegpurge⟩,
    ⟨"OP_DELEGRETURN", 8, .nfs4OpDelegreturn⟩,
    ⟨"OP_GETATTR", 9, .nfs4OpGetattr⟩,
    ⟨"OP_GETFH", 10, .nfs4OpGetfh⟩,
    ⟨"OP_LINK", 11, .nfs4OpLink⟩,
    ⟨"OP_LOCK", 12, .nfs4OpLock⟩,
    ⟨"OP_LOCKT", 13, .nfs4OpLockt⟩,
    ⟨"OP_LOCKU", 14, .nfs4OpLocku⟩,
    ⟨"OP_LOOKUP", 15, .nfs4OpLookup⟩,
    ⟨"OP_LOOKUPP", 16, .nfs4OpLookupp⟩,
    ⟨"OP_NVERIFY", 17, .nfs4OpNverify⟩,
    ⟨"OP_OPEN", 18, .nfs4OpOpen⟩,
    ⟨"OP_OPENATTR", 19, .nfs4OpOpenattr⟩,
    ⟨"OP_OPEN_CONFIRM", 20, .nfs4OpOpenConfirm⟩,
    ⟨"OP_OPEN_DOWNGRADE", 21, .nfs4OpOpenDowngrade⟩,
    ⟨"OP_PUTFH", 22, .nfs4OpPutfh⟩,
    ⟨"OP_PUTPUBFH", 23, .nfs4OpPutpubfh⟩,
    ⟨"OP_PUTROOTFH", 24, .nfs4OpPutrootfh⟩,
    ⟨"OP_READ", 25, .nfs4OpRead⟩,
    ⟨"OP_READDIR", 26, .nfs4OpReaddir⟩,
    ⟨"OP_READLINK", 27, .nfs4OpReadlink⟩,
    ⟨"OP_REMOVE", 28, .nfs4OpRemove⟩,
    ⟨"OP_RENAME", 29, .nfs4OpRename⟩,
    ⟨"OP_RENEW", 30, .nfs4OpRenew⟩,
    ⟨"OP_RESTOREFH", 31, .nfs4OpRestorefh⟩,
    ⟨"OP_SAVEFH", 32, .nfs4OpSavefh⟩,
    ⟨"OP_SECINFO", 33, .nfs4OpSecinfo⟩,
    ⟨"OP_SETATTR", 34, .nfs4OpSetattr⟩,
    ⟨"OP_SETCLIENTID", 35, .nfs4OpSetclientid⟩,
    ⟨"OP_SETCLIENTID_CONFIRM", 36, .nfs4OpSetclientidConfirm⟩,
    ⟨"OP_VERIFY", 37, .nfs4OpVerify⟩,
    ⟨"OP_WRITE", 38, .nfs4OpWrite⟩,
    ⟨"OP_RELEASE_LOCKOWNER", 39, .nfs4OpReleaseLockowner⟩,
    ⟨"OP_ILLEGAL", 10044, .nfs4OpIllegal⟩ ]

def optab4v1 : List OpDesc :=
  [ ⟨"OP_ACCESS", 3, .nfs4OpAccess⟩,
    ⟨"OP_CLOSE", 4, .nfs41OpClose⟩,
    ⟨"OP_COMMIT", 5, .nfs4OpCommit⟩,
    ⟨"OP_CREATE", 6, .nfs4OpCreate⟩,
    ⟨"OP_DELEGPURGE", 7, .nfs4OpDelegpurge⟩,
    ⟨"OP_DELEGRETURN", 8, .nfs4OpDelegreturn⟩,
    ⟨"OP_GETATTR", 9, .nfs4OpGetattr⟩,
    ⟨"OP_GETFH", 10, .nfs4OpGetfh⟩,
    ⟨"OP_LINK", 11, .nfs4OpLink⟩,
    ⟨"OP_LOCK", 12, .nfs41OpLock⟩,
    ⟨"OP_LOCKT", 13, .nfs41OpLockt⟩,
    ⟨"OP_LOCKU", 14, .nfs41OpLocku⟩,
    ⟨"OP_LOOKUP", 15, .nfs4OpLookup⟩,
    ⟨"OP_LOOKUPP", 16, .nfs4OpLookupp⟩,
    ⟨"OP_NVERIFY", 17, .nfs4OpNverify⟩,
    ⟨"OP_OPEN", 18, .nfs41OpOpen⟩,
    ⟨"OP_OPENATTR", 19, .nfs4OpOpenattr⟩,
    ⟨"OP_OPEN_CONFIRM", 20, .nfs4OpIllegal⟩,
    ⟨"OP_OPEN_DOWNGRADE", 21, .nfs4OpOpenDowngrade⟩,
    ⟨"OP_PUTFH", 22, .nfs4OpPutfh⟩,
    ⟨"OP_PUTPUBFH", 23, .nfs4OpPutpubfh⟩,
    ⟨"OP_PUTROOTFH", 24, .nfs4OpPutrootfh⟩,
    ⟨"OP_READ", 25, .nfs41OpRead⟩,
    ⟨"OP_READDIR", 26, .nfs4OpReaddir⟩,
    ⟨"OP_READLINK", 27, .nfs4OpReadlink⟩,
    ⟨"OP_REMOVE", 28, .nfs4OpRemove⟩,
    ⟨"OP_RENAME", 29, .nfs4OpRename⟩,
    ⟨"OP_RENEW", 30, .nfs4OpRenew⟩,
    ⟨"OP_RESTOREFH", 31, .nfs4OpRestorefh⟩,
    ⟨"OP_SAVEFH", 32, .nfs4OpSavefh⟩,
    ⟨"OP_SECINFO", 33, .nfs4OpSecinfo⟩,
    ⟨"OP_SETATTR", 34, .nfs4OpSetattr⟩,
    ⟨"OP_SETCLIENTID", 35, .nfs4OpSetclientid⟩,
    ⟨"OP_SETCLIENTID_CONFIRM", 36, .nfs4OpSetclientidConfirm⟩,
    ⟨"OP_VERIFY", 37, .nfs4OpVerify⟩,
    ⟨"OP_WRITE", 38, .nfs41OpWrite⟩,
    ⟨"OP_RELEASE_LOCKOWNER", 39, .nfs4OpReleaseLockowner⟩,
    ⟨"OP_BACKCHANNEL_CTL", 40, .nfs4OpIllegal⟩,
    ⟨"OP_BIND_CONN_TO_SESSION", 41, .nfs4OpIllegal⟩,
    ⟨"OP_EXCHANGE_ID", 42, .nfs41OpExchangeId⟩,
    ⟨"OP_CREATE_SESSION", 43, .nfs41OpCreateSession⟩,
    ⟨"OP_DESTROY_SESSION", 44, .nfs41OpDestroySession⟩,
    ⟨"OP_FREE_STATEID", 45, .nfs4OpIllegal⟩,
    ⟨"OP_GET_DIR_DELEGATION", 46, .nfs4OpIllegal⟩,
    ⟨"OP_GETDEVICEINFO", 47, .nfs41OpGetdeviceinfo⟩,
    ⟨"OP_GETDEVICELIST", 48, .nfs41OpGetdevicelist⟩,
    ⟨"OP_LAYOUTCOMMIT", 49, .nfs41OpLayoutcommit⟩,
    ⟨"OP_LAYOUTGET", 50, .nfs41OpLayoutget⟩,
    ⟨"OP_LAYOUTRETURN", 51, .nfs41OpLayoutreturn⟩,
    ⟨"OP_SECINFO_NO_NAME", 52, .nfs4OpIllegal⟩,
    ⟨"OP_SEQUENCE", 53, .nfs41OpSequence⟩,
    ⟨"OP_SET_SSV", 54, .nfs41OpSetSsv⟩,
    ⟨"OP_TEST_STATEID", 55, .nfs4OpIllegal⟩,
    ⟨"OP_WANT_DELEGATION", 56, .nfs4OpIllegal⟩,
    ⟨"OP_DESTROY_CLIENTID", 57, .nfs4OpIllegal⟩,
    ⟨"OP_RECLAIM_COMPLETE", 58, .nfs41OpReclaimComplete⟩,
    ⟨"OP_ILLEGAL", 10044, .nfs4OpIllegal⟩ ]

def optabvers : Build → List (List OpDesc)
  | .nfs40 => [optab4v0]
  | .nfs41 => [optab4v0, optab4v1]

def optab4index : Build → List ℕ
  | .nfs40 =>
    [ 0, 0, 0, 0, 1, 2, 3, 4, 5, 6, 7, 8, 9, 10, 11, 12, 13, 14, 15, 16, 17, 18, 19, 20, 21, 22, 23,
      24, 25, 26, 27, 28, 29, 30, 31, 32, 33, 34, 35, 36, 37, 38, 39]
  | .nfs41 =>
    [ 0, 0, 0, 0, 1, 2, 3, 4, 5, 6, 7, 8, 9, 10, 11, 12, 13, 14, 15, 16, 17, 18, 19, 20, 21, 22, 23,
      24, 25, 26, 27, 28, 29, 30, 31, 32, 33, 34, 35, 36, 37, 38, 39, 40, 41, 42, 43, 44, 45, 46,
      47, 48, 49, 50, 51, 52, 53, 54, 55, 56, 57, 58]

def posIllegal : Build → ℕ
  | .nfs40 => 40
  | .nfs41 => 59

/-- `NFS4_OP_RELEASE_LOCKOWNER`, the last operation of NFSv4.0. -/
def releaseLockowner : UInt32 := 39

/-- `NFS4_OP_EXCHANGE_ID`. -/
def exchangeId : UInt32 := 42

/-- `NFS4_OP_CREATE_SESSION`. -/
def createSession : UInt32 := 43

/-- `NFS4_OP_SEQUENCE`. -/
def sequence : UInt32 := 53

/-- `NFS4_OP_RECLAIM_COMPLETE`, the last operation of NFSv4.1. -/
def reclaimComplete : UInt32 := 58

/-! ## The lookups -/

def entry (b : Build) (minorversion : ℕ) (index : Option ℕ) : Option OpDesc := do
  let optab ← (optabvers b)[minorversion]?
  optab[← index]?

def acceptsMinor : Build → UInt32 → Bool
  | .nfs40, minorversion => minorversion = 0
  | .nfs41, minorversion => minorversion ≤ 1

def inOptab : Build → UInt32 → UInt32 → Bool
  | .nfs40, _, argop => argop ≤ releaseLockowner
  | .nfs41, minorversion, argop =>
    (argop ≤ releaseLockowner ∧ minorversion = 0) ∨ (argop ≤ reclaimComplete ∧ minorversion = 1)

/-- `opindex`, as the loop computes it. -/
def opindex (b : Build) (minorversion argop : UInt32) : Option ℕ :=
  (optab4index b)[if inOptab b minorversion argop then argop.toNat else posIllegal b]?

def opdesc (b : Build) (minorversion argop : UInt32) : Option OpDesc :=
  entry b minorversion.toNat (opindex b minorversion argop)

/-- The entry that is found without a check, in the table of a minor version: before the loop for
the log and for `NFS4ERR_NOT_ONLY_OP`, and in the loop for the replay. -/
def uncheckedDesc (b : Build) (minorversion argop : UInt32) : Option OpDesc :=
  entry b minorversion.toNat (optab4index b)[argop.toNat]?

/-! ## The property -/

/-- An operation of a COMPOUND that was received. -/
structure Received where
  /-- how the server is built -/
  build : Build
  minorversion : UInt32
  /-- how many operations there are -/
  argarrayLen : ℕ
  i : ℕ
  argop : UInt32
  fullDebug : Bool

namespace Received

/-- The operation is compared with `NFS4_OP_EXCHANGE_ID`: it is the first one of several. -/
def comparedFirst (r : Received) : Prop := r.build = .nfs41 ∧ r.i = 0 ∧ 1 < r.argarrayLen

/-- `NFS4ERR_NOT_ONLY_OP`: no operation is dispatched. -/
def notOnlyOp (r : Received) : Prop :=
  r.comparedFirst ∧ ∃ desc, uncheckedDesc r.build 1 r.argop = some desc ∧ desc.val = exchangeId

/-- The operation is compared with `NFS4_OP_SEQUENCE` and `NFS4_OP_CREATE_SESSION` when it has
succeeded; `nfs4_op_illegal` does not. -/
def comparedLater (r : Received) : Prop :=
  r.build = .nfs41 ∧ r.minorversion = 1 ∧ r.i = 0 ∧ ¬ r.notOnlyOp ∧
    ∃ desc, opdesc r.build r.minorversion r.argop = some desc ∧ desc.funct ≠ .nfs4OpIllegal

end Received

/-- The operations of a minor version. -/
def IsOp (minorversion argop : UInt32) : Prop :=
  3 ≤ argop ∧ argop ≤ if minorversion = 0 then releaseLockowner else reclaimComplete

/-- What the loop has to find. -/
def Faithful (minorversion argop : UInt32) (desc : OpDesc) : Prop :=
  (IsOp minorversion argop → desc.val = argop) ∧
  (¬ IsOp minorversion argop → desc.funct = .nfs4OpIllegal)

/-- Every lookup for the operation is inside the tables, and the loop finds its entry. -/
structure Dispatched (r : Received) : Prop where
  log : r.fullDebug = true → (uncheckedDesc r.build r.minorversion r.argop).isSome
  /-- for `NFS4ERR_NOT_ONLY_OP` -/
  first : r.comparedFirst → (uncheckedDesc r.build 1 r.argop).isSome
  loop : ¬ r.notOnlyOp →
    ∃ desc, opdesc r.build r.minorversion r.argop = some desc ∧
      Faithful r.minorversion r.argop desc
  replay : r.comparedLater → (uncheckedDesc r.build 1 r.argop).isSome

/-- The last operation that the table of a minor version has an entry for, and one more. -/
def lastIndex (minorversion : UInt32) : UInt32 := if minorversion = 0 then 40 else 59

/-- The condition. The loop is right for all operations but 0, 1 and 2, and those that are too large
for NFSv4.0 on a server that is built with NFSv4.1. -/
structure InRange (r : Received) : Prop where
  log : r.fullDebug = true → r.argop ≤ lastIndex r.minorversion
  /-- for `NFS4ERR_NOT_ONLY_OP` -/
  first : r.comparedFirst → r.argop ≤ lastIndex 1
  loop : r.comparedFirst ∧ r.argop = exchangeId ∨
    3 ≤ r.argop ∧ (r.build = .nfs41 → r.minorversion = 0 → r.argop ≤ releaseLockowner)

/-! ## The tables, entry by entry -/

section

variable {b : Build} {minorversion argop : UInt32} {r : Received} {n : ℕ}

theorem optab4index_eq :
    (optab4index b)[n]? = if n < posIllegal b + 3 then some (n - 3) else none := by
  have hlow : ∀ n < posIllegal b + 3, (optab4index b)[n]? = some (n - 3) := by
    cases b with
    | nfs40 => decide
    | nfs41 => decide
  have hlength : (optab4index b).length = posIllegal b + 3 := by
    cases b with
    | nfs40 => rfl
    | nfs41 => rfl
  split
  next h => exact hlow n h
  next h => exact List.getElem?_eq_none (by omega)

def optab (minorversion : UInt32) : List OpDesc := if minorversion = 0 then optab4v0 else optab4v1

def lastOp (minorversion : UInt32) : UInt32 :=
  if minorversion = 0 then releaseLockowner else reclaimComplete

theorem acceptsMinor_cases (h : acceptsMinor b minorversion = true) :
    minorversion = 0 ∨ (minorversion = 1 ∧ b = .nfs41) := by
  cases b with
  | nfs40 =>
    left
    simpa [acceptsMinor] using h
  | nfs41 =>
    have hle : minorversion ≤ 1 := by simpa [acceptsMinor] using h
    have : minorversion = 0 ∨ minorversion = 1 := by
      rw [UInt32.le_iff_toNat_le] at hle
      rw [← UInt32.toNat_inj, ← UInt32.toNat_inj]
      exact Nat.le_one_iff_eq_zero_or_eq_one.mp hle
    exact this.imp_right fun h => ⟨h, rfl⟩

theorem entry_eq (h : acceptsMinor b minorversion = true) (index : Option ℕ) :
    entry b minorversion.toNat index = index.bind ((optab minorversion)[·]?) := by
  rcases acceptsMinor_cases h with rfl | ⟨rfl, rfl⟩
  · cases b with
    | nfs40 => rfl
    | nfs41 => rfl
  · rfl

theorem optab_val (hle : n + 3 ≤ (lastOp minorversion).toNat) :
    ((optab minorversion)[n]?).map (fun desc => desc.val.toNat) = some (n + 3) := by
  have hv0 : ∀ n < 37, (optab4v0[n]?).map (fun desc => desc.val.toNat) = some (n + 3) := by
    decide
  have hv1 : ∀ n < 56, (optab4v1[n]?).map (fun desc => desc.val.toNat) = some (n + 3) := by
    decide
  by_cases hminor : minorversion = 0
  · rw [optab, if_pos hminor]
    rw [lastOp, if_pos hminor] at hle
    exact hv0 n (Nat.lt_succ_of_le (by simpa [releaseLockowner] using hle))
  · rw [optab, if_neg hminor]
    rw [lastOp, if_neg hminor] at hle
    exact hv1 n (Nat.lt_succ_of_le (by simpa [reclaimComplete] using hle))

theorem length_optab : (optab minorversion).length = (lastIndex minorversion).toNat - 2 := by
  by_cases hminor : minorversion = 0
  · rw [optab, if_pos hminor, lastIndex, if_pos hminor]
    rfl
  · rw [optab, if_neg hminor, lastIndex, if_neg hminor]
    rfl

theorem isSome_uncheckedDesc (h : acceptsMinor b minorversion = true) :
    (uncheckedDesc b minorversion argop).isSome = true ↔ argop ≤ lastIndex minorversion := by
  have hlast : (lastIndex minorversion).toNat < posIllegal b + 3 ∧
      3 ≤ (lastIndex minorversion).toNat := by
    rcases acceptsMinor_cases h with rfl | ⟨rfl, rfl⟩
    · cases b with
      | nfs40 => decide
      | nfs41 => decide
    · decide
  rw [uncheckedDesc, entry_eq h, optab4index_eq, UInt32.le_iff_toNat_le]
  split
  next hlt =>
    rw [Option.bind_some, isSome_getElem?, length_optab]
    omega
  next hge =>
    refine iff_of_false nofun ?_
    omega

theorem inOptab_iff (h : acceptsMinor b minorversion = true) :
    inOptab b minorversion argop = true ↔ argop ≤ lastOp minorversion := by
  rcases acceptsMinor_cases h with rfl | ⟨rfl, rfl⟩
  · cases b with
    | nfs40 => simp [inOptab, lastOp]
    | nfs41 => simp [inOptab, lastOp]
  · simp [inOptab, lastOp]

theorem opdesc_of_le (h : acceptsMinor b minorversion = true) (hle : argop ≤ lastOp minorversion) :
    opdesc b minorversion argop = (optab minorversion)[argop.toNat - 3]? := by
  have hlast : (lastOp minorversion).toNat < posIllegal b := by
    rcases acceptsMinor_cases h with rfl | ⟨rfl, rfl⟩
    · cases b with
      | nfs40 => decide
      | nfs41 => decide
    · decide
  rw [UInt32.le_iff_toNat_le] at hle
  rw [opdesc, entry_eq h, opindex, if_pos ((inOptab_iff h).mpr (UInt32.le_iff_toNat_le.mpr hle)),
    optab4index_eq, if_pos (by omega), Option.bind_some]

theorem opdesc_of_lt (h : acceptsMinor b minorversion = true)
    (hlt : ¬ argop ≤ lastOp minorversion) :
    opdesc b minorversion argop =
      if b = .nfs41 ∧ minorversion = 0 then none
      else some ⟨"OP_ILLEGAL", 10044, .nfs4OpIllegal⟩ := by
  rw [opdesc, entry_eq h, opindex, if_neg (fun hin => hlt ((inOptab_iff h).mp hin)), optab4index_eq,
    if_pos (by omega)]
  rcases acceptsMinor_cases h with rfl | ⟨rfl, rfl⟩
  · cases b with
    | nfs40 => rfl
    | nfs41 => rfl
  · rfl

/-! ## The theorem -/

theorem faithful_iff (h : acceptsMinor b minorversion = true) :
    (∃ desc, opdesc b minorversion argop = some desc ∧ Faithful minorversion argop desc) ↔
      3 ≤ argop ∧ (b = .nfs41 → minorversion = 0 → argop ≤ releaseLockowner) := by
  by_cases hle : argop ≤ lastOp minorversion
  · have hlockowner : b = .nfs41 → minorversion = 0 → argop ≤ releaseLockowner := by
      intro _ hminor
      rwa [lastOp, if_pos hminor] at hle
    rw [opdesc_of_le h hle, and_iff_left hlockowner]
    by_cases hthree : 3 ≤ argop
    · refine iff_of_true ?_ hthree
      have hle' := UInt32.le_iff_toNat_le.mp hle
      have hthree' : 3 ≤ argop.toNat := UInt32.le_iff_toNat_le.mp hthree
      have hval : (optab minorversion)[argop.toNat - 3]?.map (fun desc => desc.val.toNat) =
          some (argop.toNat - 3 + 3) := optab_val (by omega)
      obtain ⟨desc, hdesc, hval⟩ := Option.map_eq_some_iff.mp hval
      refine ⟨desc, hdesc, fun _ => ?_, fun hop => absurd ⟨hthree, hle⟩ hop⟩
      rw [← UInt32.toNat_inj]
      omega
    · -- the first entry of the table stands in for 0, 1 and 2
      refine iff_of_false ?_ hthree
      rintro ⟨desc, hdesc, -, hillegal⟩
      have hfunct := hillegal fun hop => hthree hop.1
      have hlt : argop.toNat < 3 := by
        rw [UInt32.le_iff_toNat_le] at hthree
        exact Nat.lt_of_not_le hthree
      rw [Nat.sub_eq_zero_of_le (Nat.le_of_lt hlt)] at hdesc
      have haccess : (optab minorversion)[0]? = some ⟨"OP_ACCESS", 3, .nfs4OpAccess⟩ := by
        rw [optab]
        split
        next => rfl
        next => rfl
      rw [haccess] at hdesc
      cases hdesc
      cases hfunct
  · have hnot : ¬ IsOp minorversion argop := fun hop => hle hop.2
    have hthree : 3 ≤ argop := by
      have : (3 : UInt32) ≤ lastOp minorversion := by
        rw [lastOp]
        split
        next => decide
        next => decide
      exact UInt32.le_trans this (UInt32.le_of_lt (UInt32.not_le.mp hle))
    rw [opdesc_of_lt h hle, and_iff_right hthree]
    by_cases hb : b = .nfs41 ∧ minorversion = 0
    · rw [if_pos hb]
      refine iff_of_false nofun fun hlockowner => hle ?_
      rw [lastOp, if_pos hb.2]
      exact hlockowner hb.1 hb.2
    · rw [if_neg hb]
      refine iff_of_true ⟨_, rfl, fun hop => absurd hop hnot, fun _ => rfl⟩ ?_
      exact fun hb' hminor => absurd ⟨hb', hminor⟩ hb

theorem acceptsMinor_one : acceptsMinor .nfs41 1 = true := rfl

theorem notOnlyOp_iff : r.notOnlyOp ↔ r.comparedFirst ∧ r.argop = exchangeId := by
  have hval : ∀ n < 62, (optab4v1[n - 3]?).map (fun desc => desc.val) = some exchangeId ↔
      n = 42 := by
    decide
  refine and_congr_right fun hfirst => ?_
  rw [hfirst.1, ← Option.map_eq_some_iff, uncheckedDesc, optab4index_eq, ← UInt32.toNat_inj]
  split
  next hlt => exact hval _ hlt
  rename_i hge
  refine iff_of_false nofun fun heq => hge ?_
  rw [heq]
  decide

theorem Received.comparedLater.le (h : r.comparedLater) : r.argop ≤ lastOp 1 := by
  obtain ⟨hb, hminor, -, -, desc, hdesc, hfunct⟩ := h
  by_contra hlt
  rw [hb, hminor, opdesc_of_lt acceptsMinor_one hlt, if_neg (by decide)] at hdesc
  cases hdesc
  exact hfunct rfl

/-- **The dispatch of a COMPOUND**: the lookups for an operation are inside the tables and lead to
its entry exactly under the condition. -/
theorem dispatched_iff (h : acceptsMinor r.build r.minorversion = true) :
    Dispatched r ↔ InRange r := by
  have hfirst : r.comparedFirst →
      ((uncheckedDesc r.build 1 r.argop).isSome = true ↔ r.argop ≤ lastIndex 1) := by
    intro hfirst
    rw [hfirst.1]
    exact isSome_uncheckedDesc acceptsMinor_one
  constructor
  · intro hd
    refine ⟨fun hlog => (isSome_uncheckedDesc h).mp (hd.log hlog),
      fun hf => (hfirst hf).mp (hd.first hf), ?_⟩
    by_cases hnot : r.notOnlyOp
    · exact Or.inl (notOnlyOp_iff.mp hnot)
    · exact Or.inr ((faithful_iff h).mp (hd.loop hnot))
  · intro hr
    refine ⟨fun hlog => (isSome_uncheckedDesc h).mpr (hr.log hlog),
      fun hf => (hfirst hf).mpr (hr.first hf), fun hnot => ?_, fun hlater => ?_⟩
    · exact (faithful_iff h).mpr (hr.loop.resolve_left fun hex => hnot (notOnlyOp_iff.mpr hex))
    · rw [hlater.1]
      exact (isSome_uncheckedDesc acceptsMinor_one).mpr
        (UInt32.le_trans hlater.le (by decide))

end

/-- `READ` on a server that is built with NFSv4.1. -/
theorem dispatched_read : Dispatched ⟨.nfs41, 0, 2, 0, 25, false⟩ := by
  apply (dispatched_iff (by decide)).mpr
  exact ⟨nofun, fun _ => by decide, Or.inr ⟨by decide, fun _ _ => by decide⟩⟩

/-- `BACKCHANNEL_CTL` in a COMPOUND of NFSv4.0, on a server that is built with NFSv4.1: the index of
`nfs4_op_illegal` is behind the end of the smaller table. -/
theorem not_dispatched_backchannelCtl : ¬ ∀ r : Received,
    acceptsMinor r.build r.minorversion = true → Dispatched r := by
  intro h
  have hd := h ⟨.nfs41, 0, 1, 0, 40, false⟩ rfl
  obtain ⟨desc, hdesc, -⟩ := hd.loop fun hnot => absurd hnot.1.2.2 (by decide)
  cases hdesc

end CloudNfs.Nfs4.Compound4
