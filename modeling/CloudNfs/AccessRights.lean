import CloudNfs.AttrBitmap
import CloudNfs.RenameAnswer

/-!
# Access rights (`fsal_internal_testAccess`, `nfs3_Access.c`, `nfs4_op_access.c`)

The FSAL tests the access flags that are asked for against the mode of an object: what the class of
the caller (the owner, the group, others) is granted is cleared from the flags, and nothing may be
left. ACCESS reduces the bits of a request to these flags.

* `fsalInternalTestAccess_iff` — the decision, bit by bit. A bit of the flags and the bit of the
  mode that grants it are at the same place of their group of three.
* `access_agree` — `nfs3_Access` tests all flags at once, and one by one if that is refused. NFSv4
  grants what it tests and nothing else, and of what both protocols test both grant the same.

The function is the one of FSAL_GPFS and FSAL_POSIX.
-/

namespace CloudNfs.AccessRights

open Nfs4 (Nfsstat4)
open Nfs4.OpenFile (CacheError CacheStatus FileType nfs4Errno)
open RenameAnswer (Config errno3 nfsRetryableError)

/-! ## The FSAL -/

/-- `fsal_accessflags_t` -/
abbrev AccessFlags := BitVec 16

def fsalOwnerOk : AccessFlags := 8
def fsalROk : AccessFlags := 4
def fsalWOk : AccessFlags := 2
def fsalXOk : AccessFlags := 1
def fsalFOk : AccessFlags := 0

/-- The major number of a `fsal_status_t`. -/
inductive FsalStatus where
  | noError
  | noent
  | exist
  | access
  | perm
  | nospc
  | notempty
  | rofs
  | notdir
  | io
  | stale
  | inval
  | dquot
  | sec
  | notsupp
  | delay
  | fault
  | other
  deriving DecidableEq

structure Credential where
  user : UInt32
  group : UInt32
  /-- the first `nbgroups` of `alt_groups` -/
  altGroups : List UInt32

/-- What is used of a `struct stat`. -/
structure Stat where
  stUid : UInt32
  stGid : UInt32
  stMode : BitVec 32

/-- What is used of a `fsal_attrib_list_t`. -/
structure Attributes where
  owner : UInt32
  group : UInt32
  mode : BitVec 32
  type : FileType

/-- `unix2fsal_mode`: the twelve bits have the same values on both sides. -/
def unix2fsalMode (unixMode : BitVec 32) : BitVec 32 := unixMode &&& 0o7777

/-- `if(mode & bit) missing_access &= ~flag` -/
def clear (mode bit : BitVec 32) (flag missingAccess : AccessFlags) : AccessFlags :=
  if mode &&& bit ≠ 0 then missingAccess &&& ~~~flag else missingAccess

/-- The three tests for a class, by the bits of the mode for it. -/
def clearClass (mode r w x : BitVec 32) (missingAccess : AccessFlags) : AccessFlags :=
  clear mode x fsalXOk (clear mode w fsalWOk (clear mode r fsalROk missingAccess))

/-- The tests of `fsal_internal_testAccess`, for the owner, the group and the mode. -/
def testAccess (cred : Credential) (accessType : AccessFlags) (uid gid : UInt32)
    (mode : BitVec 32) : FsalStatus :=
  -- FSAL_F_OK is zero, so this never happens
  if accessType &&& fsalFOk ≠ 0 then .inval
  else if cred.user = 0 then .noError
  else if cred.user = uid then
    let missingAccess := clearClass mode 0o400 0o200 0o100 accessType
    let missingAccess := if missingAccess &&& fsalOwnerOk ≠ 0 then 0 else missingAccess
    if missingAccess = 0 then .noError else .access
  else if cred.group = gid ∨ gid ∈ cred.altGroups then
    if clearClass mode 0o40 0o20 0o10 accessType = 0 then .noError else .access
  else if clearClass mode 0o4 0o2 0o1 accessType = 0 then .noError
  else .access

def fsalInternalTestAccess (pContext : Option Credential) (accessType : AccessFlags)
    (pBuffstat : Option Stat) (pObjectAttributes : Option Attributes) : FsalStatus :=
  match pContext, pObjectAttributes, pBuffstat with
  | some cred, some attr, _ => testAccess cred accessType attr.owner attr.group attr.mode
  | some cred, none, some stat =>
    testAccess cred accessType stat.stUid stat.stGid (unix2fsalMode stat.stMode)
  | _, _, _ => .fault

def fsalTestAccess (cred : Credential) (accessType : AccessFlags) (attr : Attributes) :
    FsalStatus :=
  fsalInternalTestAccess (some cred) accessType none (some attr)

/-- Where the bits of the mode begin that count for a caller. -/
def classShift (cred : Credential) (owner group : UInt32) : ℕ :=
  if cred.user = owner then 6 else if cred.group = group ∨ group ∈ cred.altGroups then 3 else 0

/-- **What is granted**: everything to root, everything to the owner who asks for `FSAL_OWNER_OK`,
and to others the flags that the mode has for their class. -/
def Grants (cred : Credential) (owner group : UInt32) (mode : BitVec 32)
    (accessType : AccessFlags) : Prop :=
  cred.user = 0 ∨ cred.user = owner ∧ accessType.getLsbD 3 ∨
    ∀ i, accessType.getLsbD i → i < 3 ∧ mode.getLsbD (classShift cred owner group + i)

variable {cred : Credential} {mode bit : BitVec 32} {flag m : AccessFlags} {b i j : ℕ}

theorem getLsbD_clear (hbit : bit = 1#32 <<< b) (hb : b < 32) (hflag : flag = 1#16 <<< j)
    (hj : j < 16) :
    (clear mode bit flag m).getLsbD i = (m.getLsbD i && !(decide (i = j) && mode.getLsbD b)) := by
  subst hbit hflag
  have hflag : (1#16 <<< j).getLsbD i = decide (i = j) := by
    rw [← BitVec.twoPow_eq, BitVec.getLsbD_twoPow]
    simp [hj, eq_comm]
  have hset : mode &&& 1#32 <<< b ≠ 0 ↔ mode.getLsbD b = true := Attributes.and_ne_zero mode hb
  by_cases hm : mode.getLsbD b = true
  · rw [clear, if_pos (hset.mpr hm), BitVec.getLsbD_and, BitVec.getLsbD_not, hflag, hm]
    by_cases hi : i < 16
    · simp only [hi, decide_true, Bool.true_and, Bool.and_true]
    · rw [BitVec.getLsbD_of_ge m i (by omega), Bool.false_and, Bool.false_and]
  · rw [clear, if_neg (mt hset.mp hm)]
    simp [hm]

theorem getLsbD_clearClass {r w x : BitVec 32} {s : ℕ} (hr : r = 1#32 <<< (s + 2))
    (hw : w = 1#32 <<< (s + 1)) (hx : x = 1#32 <<< s) (hs : s < 30) (i : ℕ) :
    (clearClass mode r w x m).getLsbD i =
      (m.getLsbD i && !(decide (i < 3) && mode.getLsbD (s + i))) := by
  have hxOk : fsalXOk = 1#16 <<< 0 := rfl
  have hwOk : fsalWOk = 1#16 <<< 1 := rfl
  have hrOk : fsalROk = 1#16 <<< 2 := rfl
  rw [clearClass, getLsbD_clear hx (by omega) hxOk (by omega),
    getLsbD_clear hw (by omega) hwOk (by omega), getLsbD_clear hr (by omega) hrOk (by omega)]
  rcases i with _ | _ | _ | i <;> simp

/-- Nothing is left of the flags when the mode has all of them. -/
theorem clearClass_eq_zero {r w x : BitVec 32} {s : ℕ} (hr : r = 1#32 <<< (s + 2))
    (hw : w = 1#32 <<< (s + 1)) (hx : x = 1#32 <<< s) (hs : s < 30) :
    clearClass mode r w x m = 0 ↔ ∀ i, m.getLsbD i → i < 3 ∧ mode.getLsbD (s + i) := by
  constructor
  · intro hzero i hi
    have hleft : (clearClass mode r w x m).getLsbD i =
        (m.getLsbD i && !(decide (i < 3) && mode.getLsbD (s + i))) :=
      getLsbD_clearClass hr hw hx hs i
    rw [hzero, hi] at hleft
    simpa using hleft
  · intro hall
    apply BitVec.eq_of_getLsbD_eq
    intro i _
    rw [getLsbD_clearClass hr hw hx hs]
    cases hi : m.getLsbD i with
    | false => simp
    | true => simp [hall i hi]

theorem ownerOk_iff : m &&& fsalOwnerOk ≠ 0 ↔ m.getLsbD 3 = true := by
  have hand : m &&& fsalOwnerOk = if m.getLsbD 3 = true then BitVec.twoPow 16 3 else 0 :=
    BitVec.and_twoPow m 3
  rw [hand]
  split
  next hbit => exact iff_of_true (by decide) hbit
  next hbit => exact iff_of_false (not_not.mpr rfl) hbit

variable {accessType : AccessFlags} {uid gid : UInt32}

theorem granted_or_refused (P : Prop) [Decidable P] :
    (if P then FsalStatus.noError else .access) = .noError ∧ P ∨
      (if P then FsalStatus.noError else .access) = .access ∧ ¬ P := by
  by_cases hP : P
  · exact .inl ⟨if_pos hP, hP⟩
  · exact .inr ⟨if_neg hP, hP⟩

/-- The test grants the access, or refuses it. -/
theorem testAccess_cases :
    testAccess cred accessType uid gid mode = .noError ∧ Grants cred uid gid mode accessType ∨
    testAccess cred accessType uid gid mode = .access ∧
      ¬ Grants cred uid gid mode accessType := by
  have hFOk : ¬ accessType &&& fsalFOk ≠ 0 := not_not.mpr BitVec.and_zero
  rw [testAccess, if_neg hFOk]
  by_cases hroot : cred.user = 0
  · exact .inl ⟨if_pos hroot, .inl hroot⟩
  rw [if_neg hroot]
  by_cases howner : cred.user = uid
  · have hgrants : Grants cred uid gid mode accessType ↔ accessType.getLsbD 3 = true ∨
        clearClass mode 0o400 0o200 0o100 accessType = 0 := by
      rw [clearClass_eq_zero (s := 6) (r := 0o400) (w := 0o200) (x := 0o100) rfl rfl rfl (by omega),
        Grants, classShift, if_pos howner, or_iff_right hroot, and_iff_right howner]
    have hthree : (clearClass mode 0o400 0o200 0o100 accessType).getLsbD 3 =
        accessType.getLsbD 3 := by
      rw [getLsbD_clearClass (s := 6) (r := 0o400) (w := 0o200) (x := 0o100) rfl rfl rfl (by omega)]
      simp
    rw [if_pos howner, hgrants, ← hthree, ← ownerOk_iff]
    generalize clearClass mode 0o400 0o200 0o100 accessType = missingAccess
    dsimp only
    by_cases hownerOk : missingAccess &&& fsalOwnerOk ≠ 0
    · rw [if_pos hownerOk]
      exact .inl ⟨if_pos rfl, .inl hownerOk⟩
    · rw [if_neg hownerOk, or_iff_right hownerOk]
      exact granted_or_refused _
  have hgrants : Grants cred uid gid mode accessType ↔ ∀ i, accessType.getLsbD i →
      i < 3 ∧ mode.getLsbD (classShift cred uid gid + i) := by
    rw [Grants, or_iff_right hroot, or_iff_right fun h => howner h.1]
  rw [if_neg howner, hgrants, classShift, if_neg howner]
  by_cases hgroup : cred.group = gid ∨ gid ∈ cred.altGroups
  · rw [if_pos hgroup, if_pos hgroup,
      ← clearClass_eq_zero (s := 3) (r := 0o40) (w := 0o20) (x := 0o10) rfl rfl rfl (by omega)]
    exact granted_or_refused _
  · rw [if_neg hgroup, if_neg hgroup,
      ← clearClass_eq_zero (s := 0) (r := 0o4) (w := 0o2) (x := 0o1) rfl rfl rfl (by omega)]
    exact granted_or_refused _

theorem testAccess_status :
    testAccess cred accessType uid gid mode ≠ .fault ∧
      (testAccess cred accessType uid gid mode = .noError ↔ Grants cred uid gid mode accessType) ∧
      (testAccess cred accessType uid gid mode = .access ↔
        ¬ Grants cred uid gid mode accessType) := by
  obtain ⟨hstatus, hgrants⟩ | ⟨hstatus, hgrants⟩ := @testAccess_cases cred mode accessType uid gid
  · simp [hstatus, hgrants]
  · simp [hstatus, hgrants]

/-- The owner, the group and the mode that are tested. The attributes come first. -/
def tested (pBuffstat : Option Stat) (pObjectAttributes : Option Attributes) :
    Option (UInt32 × UInt32 × BitVec 32) :=
  (pObjectAttributes.map fun attr => (attr.owner, attr.group, attr.mode)).or
    (pBuffstat.map fun stat => (stat.stUid, stat.stGid, stat.stMode))

/-- The conversion of the mode leaves the bits that count. -/
theorem grants_unix2fsalMode :
    Grants cred uid gid (unix2fsalMode mode) accessType ↔ Grants cred uid gid mode accessType := by
  have hbits : ∀ j < 12, (unix2fsalMode mode).getLsbD j = mode.getLsbD j := by
    intro j hj
    have hmask : ∀ j < 12, (0o7777#32).getLsbD j = true := by decide
    have hand : (unix2fsalMode mode).getLsbD j = (mode.getLsbD j && (0o7777#32).getLsbD j) :=
      BitVec.getLsbD_and
    rw [hand, hmask j hj, Bool.and_true]
  have hshift : classShift cred uid gid ≤ 6 := by
    unfold classShift
    split_ifs <;> omega
  have hflags : ∀ i, (accessType.getLsbD i → i < 3 ∧
        (unix2fsalMode mode).getLsbD (classShift cred uid gid + i)) ↔
      (accessType.getLsbD i → i < 3 ∧ mode.getLsbD (classShift cred uid gid + i)) := fun i =>
    imp_congr_right fun _ => and_congr_right fun hi => by rw [hbits _ (by omega)]
  rw [Grants, Grants, forall_congr' hflags]

/-- **The decision of the FSAL**, for every caller, object and access. With a `struct stat` it is
that of the mode in there. -/
theorem fsalInternalTestAccess_iff (pContext : Option Credential) (accessType : AccessFlags)
    (pBuffstat : Option Stat) (pObjectAttributes : Option Attributes) :
    let status := fsalInternalTestAccess pContext accessType pBuffstat pObjectAttributes
    (status = .fault ↔ pContext = none ∨ tested pBuffstat pObjectAttributes = none) ∧
      ∀ cred uid gid mode, pContext = some cred →
        tested pBuffstat pObjectAttributes = some (uid, gid, mode) →
        (status = .noError ↔ Grants cred uid gid mode accessType) ∧
          (status = .access ↔ ¬ Grants cred uid gid mode accessType) := by
  cases pContext with
  | none => simp [fsalInternalTestAccess]
  | some cred =>
    cases pObjectAttributes with
    | some attr =>
      refine ⟨by simp [fsalInternalTestAccess, tested, testAccess_status.1], ?_⟩
      rintro _ _ _ _ ⟨⟩ ⟨⟩
      exact testAccess_status.2
    | none =>
      cases pBuffstat with
      | none => simp [fsalInternalTestAccess, tested]
      | some stat =>
        refine ⟨by simp [fsalInternalTestAccess, tested, testAccess_status.1], ?_⟩
        rintro _ _ _ _ ⟨⟩ ⟨⟩
        rw [← grants_unix2fsalMode]
        exact testAccess_status.2

/-! ## The cache -/

def cacheInodeErrorConvert : FsalStatus → CacheStatus
  | .noError => none
  | .noent => some .notFound
  | .exist => some .entryExists
  | .access => some .fsalEacces
  | .perm => some .fsalEperm
  | .nospc => some .noSpaceLeft
  | .notempty => some .dirNotEmpty
  | .rofs => some .readOnlyFs
  | .notdir => some .notADirectory
  | .io => some .ioError
  | .stale => some .fsalEstale
  | .inval => some .invalidArgument
  | .dquot => some .quotaExceeded
  | .sec => some .fsalErrSec
  | .notsupp => some .notSupported
  | .delay => some .fsalDelay
  | .fault | .other => some .fsalError

structure AccessEnv where
  useTestAccess : Bool
  /-- the error of `cache_inode_get_fsal_handle`, when there is no handle -/
  handleError : CacheStatus
  fsalAccess : AccessFlags → FsalStatus

/-- `cache_inode_access`. An entry that is stale is also killed. -/
def cacheInodeAccess (env : AccessEnv) (cred : Credential) (attr : Attributes)
    (accessType : AccessFlags) : CacheStatus :=
  if accessType = fsalFOk then none
  else
    let usedAccessType := accessType &&& ~~~fsalFOk
    if env.useTestAccess then cacheInodeErrorConvert (fsalTestAccess cred usedAccessType attr)
    else
      match env.handleError with
      | some e => some e
      | none => cacheInodeErrorConvert (env.fsalAccess usedAccessType)

/-! ## ACCESS -/

/-- The bits of ACCESS, which are the same in both protocols. -/
def accessRead : BitVec 32 := 0x01
def accessLookup : BitVec 32 := 0x02
def accessModify : BitVec 32 := 0x04
def accessExtend : BitVec 32 := 0x08
def accessDelete : BitVec 32 := 0x10
def accessExecute : BitVec 32 := 0x20

inductive Answer3 where
  | drop
  | fail (status : ℕ)
  /-- `NFS3_OK`, with `resok.access` -/
  | ok (access : BitVec 32)

structure Env3 extends AccessEnv where
  /-- what `nfs3_Access_Xattr` answers, if the handle is one of an extended attribute -/
  xattr : Option Answer3
  /-- `nfs3_FhandleToFSAL` -/
  fhandle : Bool
  get : Except CacheError Attributes

def failed3 (cfg : Config) (e : CacheError) : Answer3 :=
  if nfsRetryableError cfg e then .drop else .fail (errno3 e)

/-- `access_mode` -/
def accessMode (filetype : FileType) (request : BitVec 32) : AccessFlags :=
  (if request &&& accessRead ≠ 0 then fsalROk else 0) |||
    (if request &&& (accessModify ||| accessExtend) ≠ 0 then fsalWOk else 0) |||
    if filetype = .regularFile then if request &&& accessExecute ≠ 0 then fsalXOk else 0
    else if request &&& accessLookup ≠ 0 then fsalXOk else 0

/-- "We have to determine which access bits are good one by one" -/
def oneByOne (env : AccessEnv) (cred : Credential) (attr : Attributes) : BitVec 32 :=
  (if cacheInodeAccess env cred attr fsalROk = none then accessRead else 0) |||
    (if cacheInodeAccess env cred attr fsalWOk = none then accessModify ||| accessExtend else 0) |||
    if cacheInodeAccess env cred attr fsalXOk = none then
      if attr.type = .regularFile then accessExecute else accessLookup
    else 0

def nfs3Access (cfg : Config) (env : Env3) (cred : Credential) (request : BitVec 32) : Answer3 :=
  match env.xattr with
  | some answer => answer
  | none =>
    if !env.fhandle then .drop
    else
      match env.get with
      | .error e => failed3 cfg e
      | .ok attr =>
        match cacheInodeAccess env.toAccessEnv cred attr (accessMode attr.type request) with
        | none => .ok (if attr.type = .directory then request else request &&& ~~~accessDelete)
        | some .fsalEacces => .ok (oneByOne env.toAccessEnv cred attr)
        | some e => failed3 cfg e

structure Access4Res where
  status : Nfsstat4
  supported : BitVec 32
  access : BitVec 32

/-- A bit of the request that goes into a mask. -/
def asked (request bit : BitVec 32) (p : Prop) [Decidable p] : BitVec 32 :=
  if request &&& bit ≠ 0 ∧ p then bit else 0

/-- A test of `nfs4_op_access`, which is made if its mask has a bit. -/
def testRight (cred : Credential) (attr : Attributes) (mask : BitVec 32) (flag : AccessFlags)
    (res : Access4Res) : Except Access4Res Access4Res :=
  if mask = 0 then .ok res
  else
    match fsalTestAccess cred flag attr with
    | .noError => .ok { res with access := res.access ||| mask }
    | .access => .ok res
    | st => .error { res with status := nfs4Errno (cacheInodeErrorConvert st) }

/-- `nfs4_op_access`; `special` is what is answered for a handle that does not pass the checks, or
is of the pseudo file system or of an extended attribute. -/
def nfs4OpAccess (special : Option Access4Res) (cred : Credential) (attr : Attributes)
    (request : BitVec 32) : Access4Res :=
  match special with
  | some res => res
  | none =>
    if request > 0x3f then ⟨.inval, 0, 0⟩
    else
      let dir := attr.type = .directory
      let readMask := asked request accessRead True
      let writeMask := asked request accessModify True ||| asked request accessExtend True |||
        asked request accessDelete dir
      let execMask := asked request accessLookup dir ||| asked request accessExecute ¬dir
      let result := do
        let res ← testRight cred attr readMask fsalROk ⟨.ok, readMask ||| writeMask ||| execMask, 0⟩
        let res ← testRight cred attr writeMask fsalWOk res
        testRight cred attr execMask fsalXOk res
      match result with
      | .ok res => res
      | .error res => res

/-! ## What is tested -/

/-- The flag that `nfs3_Access` tests for a bit. -/
def tests3 (type : FileType) : ℕ → Option AccessFlags
  | 0 => some fsalROk
  | 1 => if type = .regularFile then none else some fsalXOk
  | 2 | 3 => some fsalWOk
  | 5 => if type = .regularFile then some fsalXOk else none
  | _ => none

/-- The flag that `nfs4_op_access` tests for a bit. -/
def tests4 (type : FileType) : ℕ → Option AccessFlags
  | 0 => some fsalROk
  | 1 => if type = .directory then some fsalXOk else none
  | 2 | 3 => some fsalWOk
  | 4 => if type = .directory then some fsalWOk else none
  | 5 => if type = .directory then none else some fsalXOk
  | _ => none

/-- The mode of the object grants a flag to the caller. -/
def Granted (cred : Credential) (attr : Attributes) (flag : AccessFlags) : Prop :=
  Grants cred attr.owner attr.group attr.mode flag

section Bits

variable {attr : Attributes} {request : BitVec 32} {p : Prop} [Decidable p] {k : ℕ}

theorem getLsbD_asked (hbit : bit = 1#32 <<< j) (hj : j < 32) :
    (asked request bit p).getLsbD k = true ↔ k = j ∧ request.getLsbD j = true ∧ p := by
  subst hbit
  have hset : request &&& 1#32 <<< j ≠ 0 ↔ request.getLsbD j = true :=
    Attributes.and_ne_zero request hj
  by_cases h : request.getLsbD j = true ∧ p
  · rw [asked, if_pos ⟨hset.mpr h.1, h.2⟩, ← BitVec.twoPow_eq, BitVec.getLsbD_twoPow]
    simp only [hj, decide_true, Bool.true_and, decide_eq_true_eq, h.1, h.2, and_true]
    exact eq_comm
  · rw [asked, if_neg fun hp => h ⟨hset.mp hp.1, hp.2⟩]
    simp [h]

/-- The masks of `nfs4_op_access` have the bits of the request for which their flag is tested. -/
theorem getLsbD_readMask : (asked request accessRead True).getLsbD k = true ↔
    request.getLsbD k = true ∧ tests4 attr.type k = some fsalROk := by
  have hread : accessRead = 1#32 <<< 0 := rfl
  rw [getLsbD_asked hread (by omega)]
  rcases k with _ | _ | _ | _ | _ | _ | k <;> simp [tests4, fsalROk, fsalWOk, fsalXOk]

theorem getLsbD_writeMask : (asked request accessModify True ||| asked request accessExtend True |||
      asked request accessDelete (attr.type = .directory)).getLsbD k = true ↔
    request.getLsbD k = true ∧ tests4 attr.type k = some fsalWOk := by
  have hmodify : accessModify = 1#32 <<< 2 := rfl
  have hextend : accessExtend = 1#32 <<< 3 := rfl
  have hdelete : accessDelete = 1#32 <<< 4 := rfl
  rw [BitVec.getLsbD_or, BitVec.getLsbD_or, Bool.or_eq_true, Bool.or_eq_true,
    getLsbD_asked hmodify (by omega), getLsbD_asked hextend (by omega),
    getLsbD_asked hdelete (by omega)]
  rcases k with _ | _ | _ | _ | _ | _ | k <;> simp [tests4, fsalROk, fsalWOk, fsalXOk]

theorem getLsbD_execMask : (asked request accessLookup (attr.type = .directory) |||
      asked request accessExecute (¬ attr.type = .directory)).getLsbD k = true ↔
    request.getLsbD k = true ∧ tests4 attr.type k = some fsalXOk := by
  have hlookup : accessLookup = 1#32 <<< 1 := rfl
  have hexecute : accessExecute = 1#32 <<< 5 := rfl
  rw [BitVec.getLsbD_or, Bool.or_eq_true, getLsbD_asked hlookup (by omega),
    getLsbD_asked hexecute (by omega)]
  rcases k with _ | _ | _ | _ | _ | _ | k <;> simp [tests4, fsalROk, fsalWOk, fsalXOk]

/-- A test adds its mask when the flag is granted. -/
theorem testRight_spec (cred : Credential) (attr : Attributes) (mask : BitVec 32)
    (flag : AccessFlags) (res : Access4Res) :
    ∃ access, testRight cred attr mask flag res = .ok { res with access } ∧
      ∀ k, access.getLsbD k = true ↔
        res.access.getLsbD k = true ∨ mask.getLsbD k = true ∧ Granted cred attr flag := by
  by_cases hmask : mask = 0
  · refine ⟨res.access, by rw [testRight, if_pos hmask], fun k => ?_⟩
    rw [hmask]
    simp
  rw [testRight, if_neg hmask]
  obtain ⟨hstatus, hgrants⟩ | ⟨hstatus, hgrants⟩ :=
    @testAccess_cases cred attr.mode flag attr.owner attr.group
  · have htest : fsalTestAccess cred flag attr = .noError := hstatus
    rw [htest]
    refine ⟨_, rfl, fun k => ?_⟩
    rw [BitVec.getLsbD_or, Bool.or_eq_true, Granted, and_iff_left hgrants]
  · have htest : fsalTestAccess cred flag attr = .access := hstatus
    rw [htest]
    exact ⟨_, rfl, fun k => by rw [or_iff_left fun h => hgrants h.2]⟩

theorem tests4_cases {type : FileType} (h : tests4 type k = some flag) :
    flag = fsalROk ∨ flag = fsalWOk ∨ flag = fsalXOk := by
  unfold tests4 at h
  split at h <;> (try split at h) <;> cases h <;> simp

/-- NFSv4 grants what is asked for, tested and granted by the mode. -/
theorem nfs4OpAccess_spec (cred : Credential) (attr : Attributes) (hrequest : request ≤ 0x3f) :
    ∃ supported access, nfs4OpAccess none cred attr request = ⟨.ok, supported, access⟩ ∧
      (∀ k, supported.getLsbD k = true ↔ request.getLsbD k = true ∧ tests4 attr.type k ≠ none) ∧
      ∀ k, access.getLsbD k = true ↔ request.getLsbD k = true ∧
        ∃ flag, tests4 attr.type k = some flag ∧ Granted cred attr flag := by
  rw [nfs4OpAccess]
  simp only [if_neg (BitVec.not_lt.mpr hrequest)]
  have hread := fun k => @getLsbD_readMask attr request k
  have hwrite := fun k => @getLsbD_writeMask attr request k
  have hexec := fun k => @getLsbD_execMask attr request k
  generalize asked request accessRead True = readMask at hread ⊢
  generalize asked request accessModify True ||| asked request accessExtend True |||
    asked request accessDelete (attr.type = .directory) = writeMask at hwrite ⊢
  generalize asked request accessLookup (attr.type = .directory) |||
    asked request accessExecute (¬ attr.type = .directory) = execMask at hexec ⊢
  obtain ⟨access1, h1, hget1⟩ := testRight_spec cred attr readMask fsalROk
    ⟨.ok, readMask ||| writeMask ||| execMask, 0⟩
  obtain ⟨access2, h2, hget2⟩ := testRight_spec cred attr writeMask fsalWOk
    ⟨.ok, readMask ||| writeMask ||| execMask, access1⟩
  obtain ⟨access3, h3, hget3⟩ := testRight_spec cred attr execMask fsalXOk
    ⟨.ok, readMask ||| writeMask ||| execMask, access2⟩
  simp only [h1, h2, h3, bind, Except.bind]
  refine ⟨_, _, rfl, fun k => ?_, fun k => ?_⟩
  · rw [BitVec.getLsbD_or, BitVec.getLsbD_or, Bool.or_eq_true, Bool.or_eq_true, hread, hwrite,
      hexec]
    cases htests : tests4 attr.type k with
    | none => simp
    | some flag =>
      obtain rfl | rfl | rfl := tests4_cases htests <;> simp [fsalROk, fsalWOk, fsalXOk]
  · rw [hget3, hget2, hget1, hread, hwrite, hexec]
    cases htests : tests4 attr.type k with
    | none => simp
    | some flag =>
      obtain rfl | rfl | rfl := tests4_cases htests <;> simp [fsalROk, fsalWOk, fsalXOk]

theorem cacheInodeAccess_cases {env : AccessEnv} (htest : env.useTestAccess = true)
    (cred : Credential) (attr : Attributes) (flags : AccessFlags) :
    cacheInodeAccess env cred attr flags = none ∧ Granted cred attr flags ∨
      cacheInodeAccess env cred attr flags = some .fsalEacces ∧ ¬ Granted cred attr flags := by
  by_cases hflags : flags = fsalFOk
  · rw [cacheInodeAccess, if_pos hflags, hflags]
    exact .inl ⟨rfl, .inr (.inr fun i hi => absurd hi (by simp [fsalFOk]))⟩
  have hused : flags &&& ~~~fsalFOk = flags := BitVec.and_allOnes
  rw [cacheInodeAccess, if_neg hflags, if_pos htest, hused]
  obtain ⟨hstatus, hgrants⟩ | ⟨hstatus, hgrants⟩ :=
    @testAccess_cases cred attr.mode flags attr.owner attr.group
  · exact .inl ⟨congrArg cacheInodeErrorConvert hstatus, hgrants⟩
  · exact .inr ⟨congrArg cacheInodeErrorConvert hstatus, hgrants⟩

theorem granted_or {a b : AccessFlags} (ha : a.getLsbD 3 = false) (hb : b.getLsbD 3 = false) :
    Granted cred attr (a ||| b) ↔ Granted cred attr a ∧ Granted cred attr b := by
  simp only [Granted, Grants, BitVec.getLsbD_or, ha, hb, Bool.or_eq_true, or_imp, forall_and]
  simp only [Bool.false_eq_true, and_false, false_or, or_and_left]
  exact and_and_and_comm

theorem granted_ite {c : Prop} [Decidable c] :
    Granted cred attr (if c then flag else 0) ↔ (c → Granted cred attr flag) := by
  by_cases hc : c
  · rw [if_pos hc, forall_prop_of_true hc]
  · rw [if_neg hc]
    exact iff_of_true (.inr (.inr fun i hi => absurd hi (by simp))) fun h => absurd h hc

/-- All flags at once are granted exactly when each of them is. -/
theorem granted_accessMode : Granted cred attr (accessMode attr.type request) ↔
    ∀ k flag, request.getLsbD k = true → tests3 attr.type k = some flag →
      Granted cred attr flag := by
  have hread : request &&& accessRead ≠ 0 ↔ request.getLsbD 0 = true :=
    Attributes.and_ne_zero request (i := 0) (by omega)
  have hlookup : request &&& accessLookup ≠ 0 ↔ request.getLsbD 1 = true :=
    Attributes.and_ne_zero request (i := 1) (by omega)
  have hmodify : request &&& accessModify ≠ 0 ↔ request.getLsbD 2 = true :=
    Attributes.and_ne_zero request (i := 2) (by omega)
  have hextend : request &&& accessExtend ≠ 0 ↔ request.getLsbD 3 = true :=
    Attributes.and_ne_zero request (i := 3) (by omega)
  have hexecute : request &&& accessExecute ≠ 0 ↔ request.getLsbD 5 = true :=
    Attributes.and_ne_zero request (i := 5) (by omega)
  have hwrite : request &&& (accessModify ||| accessExtend) ≠ 0 ↔
      request.getLsbD 2 = true ∨ request.getLsbD 3 = true := by
    rw [← hmodify, ← hextend, BitVec.and_or_distrib_left, ne_eq, ne_eq, ne_eq, ← not_and_or]
    exact not_congr BitVec.or_eq_zero_iff
  have hmode : Granted cred attr (accessMode attr.type request) ↔
      (request.getLsbD 0 = true → Granted cred attr fsalROk) ∧
        (request.getLsbD 2 = true ∨ request.getLsbD 3 = true → Granted cred attr fsalWOk) ∧
        ((if attr.type = .regularFile then request.getLsbD 5 = true
          else request.getLsbD 1 = true) → Granted cred attr fsalXOk) := by
    rw [← hwrite, ← hread, ← hlookup, ← hexecute, ← granted_ite, ← granted_ite, accessMode]
    by_cases htype : attr.type = .regularFile
    · rw [if_pos htype, if_pos htype, ← granted_ite, granted_or, granted_or, and_assoc] <;>
        (try split) <;> (try split) <;> rfl
    · rw [if_neg htype, if_neg htype, ← granted_ite, granted_or, granted_or, and_assoc] <;>
        (try split) <;> (try split) <;> rfl
  rw [hmode]
  constructor
  · rintro ⟨hr, hw, hx⟩ k flag hk htests
    unfold tests3 at htests
    split at htests
    · cases htests
      exact hr hk
    · split at htests <;> cases htests
      exact hx (by rwa [if_neg ‹_›])
    · cases htests
      exact hw (.inl hk)
    · cases htests
      exact hw (.inr hk)
    · split at htests <;> cases htests
      exact hx (by rwa [if_pos ‹_›])
    · cases htests
  · intro h
    refine ⟨fun hk => h 0 _ hk rfl, ?_, ?_⟩
    · rintro (hk | hk)
      · exact h 2 _ hk rfl
      · exact h 3 _ hk rfl
    · intro hk
      split at hk
      next htype => exact h 5 _ hk (if_pos htype)
      next htype => exact h 1 _ hk (if_neg htype)

theorem getLsbD_ite {c : Prop} [Decidable c] : (if c then bit else 0).getLsbD k = true ↔
    c ∧ bit.getLsbD k = true := by
  split <;> simp [*]

/-- One by one, NFSv3 grants every bit that it tests and the mode grants. -/
theorem getLsbD_oneByOne {env : AccessEnv} (htest : env.useTestAccess = true) :
    (oneByOne env cred attr).getLsbD k = true ↔
      ∃ flag, tests3 attr.type k = some flag ∧ Granted cred attr flag := by
  have hgranted : ∀ flags, cacheInodeAccess env cred attr flags = none ↔
      Granted cred attr flags := fun flags => by
    obtain ⟨haccess, hgrants⟩ | ⟨haccess, hgrants⟩ := cacheInodeAccess_cases htest cred attr flags
    · exact iff_of_true haccess hgrants
    · exact iff_of_false (by rw [haccess]; nofun) hgrants
  rw [oneByOne, BitVec.getLsbD_or, BitVec.getLsbD_or, Bool.or_eq_true, Bool.or_eq_true, getLsbD_ite,
    getLsbD_ite, getLsbD_ite, hgranted, hgranted, hgranted]
  have hlarge : ∀ b : BitVec 32, b.toNat < 2 ^ 6 → ∀ n, b.getLsbD (n + 6) = false := by
    intro b hb n
    have hpow : 2 ^ 6 ≤ 2 ^ (n + 6) := Nat.pow_le_pow_right (by omega) (by omega)
    exact Nat.testBit_lt_two_pow (lt_of_lt_of_le hb hpow)
  by_cases htype : attr.type = .regularFile <;>
    rcases k with _ | _ | _ | _ | _ | _ | k <;>
    simp [tests3, htype, accessRead, accessModify, accessExtend, accessLookup, accessExecute,
      hlarge]

/-- NFSv3 grants what is asked for if the mode grants all flags that are tested for it, and
otherwise every bit that it tests and the mode grants. -/
theorem nfs3Access_spec (cfg : Config) {env : Env3} (cred : Credential) (request : BitVec 32)
    (hxattr : env.xattr = none) (hfhandle : env.fhandle = true) (hget : env.get = .ok attr)
    (htest : env.useTestAccess = true) :
    ∃ access, nfs3Access cfg env cred request = .ok access ∧
      ((∀ k flag, request.getLsbD k = true → tests3 attr.type k = some flag →
          Granted cred attr flag) ∧
        (∀ k, access.getLsbD k = true ↔ request.getLsbD k = true ∧
          (k = 4 → attr.type = .directory)) ∨
      (∃ k flag, request.getLsbD k = true ∧ tests3 attr.type k = some flag ∧
          ¬ Granted cred attr flag) ∧
        ∀ k, access.getLsbD k = true ↔
          ∃ flag, tests3 attr.type k = some flag ∧ Granted cred attr flag) := by
  rw [nfs3Access, hxattr]
  simp only [hfhandle, hget, Bool.not_true, Bool.false_eq_true, if_false]
  obtain ⟨haccess, hgrants⟩ | ⟨haccess, hgrants⟩ :=
    cacheInodeAccess_cases htest cred attr (accessMode attr.type request)
  · rw [haccess]
    refine ⟨_, rfl, .inl ⟨granted_accessMode.mp hgrants, fun k => ?_⟩⟩
    by_cases htype : attr.type = .directory
    · simp [htype]
    have hdelete : accessDelete = BitVec.twoPow 32 4 := rfl
    rw [if_neg htype, BitVec.getLsbD_and, BitVec.getLsbD_not, hdelete, BitVec.getLsbD_twoPow]
    by_cases hk : k < 32
    · obtain rfl | hne := eq_or_ne k 4
      · simp [htype]
      · simp [hk, hne, hne.symm]
    · rw [BitVec.getLsbD_of_ge request k (by omega)]
      simp
  · rw [haccess]
    have hrefused := mt granted_accessMode.mpr hgrants
    push Not at hrefused
    exact ⟨_, rfl, .inr ⟨hrefused, fun k => getLsbD_oneByOne htest⟩⟩

end Bits

/-- **Both protocols grant what the mode grants.** NFSv4 supports the bits that are asked for and
mean something for the type of the object, and grants those whose flag is granted. Of the bits that
are asked for NFSv3 grants the same, as far as both test one flag for them. -/
theorem access_agree (cfg : Config) (env : Env3) (cred : Credential) (attr : Attributes)
    (request : BitVec 32) (hxattr : env.xattr = none) (hfhandle : env.fhandle = true)
    (hget : env.get = .ok attr) (htest : env.useTestAccess = true) (hrequest : request ≤ 0x3f) :
    ∃ access3 supported access4, nfs3Access cfg env cred request = .ok access3 ∧
      nfs4OpAccess none cred attr request = ⟨.ok, supported, access4⟩ ∧
      (∀ k, supported.getLsbD k = true ↔ request.getLsbD k = true ∧ tests4 attr.type k ≠ none) ∧
      (∀ k, access4.getLsbD k = true ↔ request.getLsbD k = true ∧
        ∃ flag, tests4 attr.type k = some flag ∧ Granted cred attr flag) ∧
      ∀ k flag, request.getLsbD k = true → tests3 attr.type k = some flag →
        (access3.getLsbD k = true ↔ Granted cred attr flag) ∧
          (tests4 attr.type k = some flag → access3.getLsbD k = access4.getLsbD k) := by
  obtain ⟨access3, h3, hbits3⟩ := nfs3Access_spec cfg cred request hxattr hfhandle hget htest
  obtain ⟨supported, access4, h4, hsupported, hbits4⟩ := nfs4OpAccess_spec cred attr hrequest
  refine ⟨access3, supported, access4, h3, h4, hsupported, hbits4, fun k flag hk htests => ?_⟩
  have hgrants : access3.getLsbD k = true ↔ Granted cred attr flag := by
    obtain ⟨hall, hbits⟩ | ⟨-, hbits⟩ := hbits3
    · have h4 : k = 4 → attr.type = .directory := by
        rintro rfl
        cases htests
      exact iff_of_true ((hbits k).mpr ⟨hk, h4⟩) (hall k flag hk htests)
    · rw [hbits, htests]
      simp
  refine ⟨hgrants, fun htests4 => ?_⟩
  rw [Bool.eq_iff_iff, hgrants, hbits4, htests4]
  simp [hk]

/-- A file with the mode 0640. -/
def ownFile : Attributes := ⟨5, 5, 0o640, .regularFile⟩

def ownEnv : Env3 := ⟨⟨true, none, fun _ => .other⟩, none, true, .ok ownFile⟩

/-- The owner asks for everything. -/
theorem access_agree_ownFile : ∃ access3 supported access4,
    nfs3Access ⟨255, false, false⟩ ownEnv ⟨5, 5, []⟩ 0x3f = .ok access3 ∧
      nfs4OpAccess none ⟨5, 5, []⟩ ownFile 0x3f = ⟨.ok, supported, access4⟩ ∧
      access3.getLsbD 0 = access4.getLsbD 0 := by
  obtain ⟨access3, supported, access4, h3, h4, -, -, h⟩ :=
    access_agree ⟨255, false, false⟩ ownEnv ⟨5, 5, []⟩ ownFile 0x3f rfl rfl rfl rfl (by decide)
  exact ⟨access3, supported, access4, h3, h4, (h 0 fsalROk (by decide) rfl).2 rfl⟩

end CloudNfs.AccessRights
