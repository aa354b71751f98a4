import CloudNfs.Compound
import CloudNfs.Nfs4Open

/-!
# READ and WRITE of NFSv4

READ and WRITE look up the state of the stateid, test its mode, and look through the states of the
file for one that denies the access, before they call `cache_inode_rdwr`.

* What is modelled ends at this call. What comes from outside is in `IoStatus` (the answers that
  the checks of the states depend on) and `IoEnv` (the others).
* The fields of a share are read from **any** state: in a lock state the length of the range is at
  their place in the union.
* `cache_inode_state_iterate` sets its status only when it fails. With one of the two special
  stateids nothing else sets it, and the scan begins with whatever it holds.
-/

namespace CloudNfs.Nfs4

open Compound (FileType)

/-! ## The code -/

/-- `NFS4ERR_ISDIR` -/
def Nfsstat4.isdir : Nfsstat4 := .other 21

/-- `NFS4ERR_DQUOT` -/
def Nfsstat4.dquot : Nfsstat4 := .other 69

/-- `NFS4ERR_LOCKED` -/
def Nfsstat4.locked : Nfsstat4 := .other 10012

/-- `exportlist_access_type_t` -/
inductive AccessType where
  /-- `ACCESSTYPE_RW` -/
  | rw
  /-- `ACCESSTYPE_RO` -/
  | ro
  | mdonly
  | mdonlyRo
  deriving DecidableEq

/-- What READ and WRITE use of `exportlist_t`. -/
structure IoExport where
  accessType : AccessType
  options : UInt32
  maxRead : UInt64
  maxWrite : UInt64
  maxOffsetRead : Int64
  maxOffsetWrite : Int64

/-- `EXPORT_OPTION_USE_DATACACHE` -/
def useDatacache : UInt32 := 0x00008000

/-- `EXPORT_OPTION_MAXOFFSETWRITE` -/
def maxoffsetwrite : UInt32 := 0x04000000

/-- `EXPORT_OPTION_MAXOFFSETREAD` -/
def maxoffsetread : UInt32 := 0x08000000

/-- What READ and WRITE use of `compound_data_t`. -/
structure IoData where
  checks : Option Failure
  xattr : Bool
  currentEntry : ℕ
  /-- `current_filetype`, which is also the type of the entry -/
  currentFiletype : FileType
  pexport : IoExport

/-- What `cache_status` holds before it is set. -/
inductive StatusWord where
  | stateError
  | invalidArgument
  | other

/-- What the checks of the states depend on, besides the states. -/
structure IoStatus where
  /-- `nfs_client_id_get` knows the client of the state -/
  clientKnown : Bool
  /-- `FSAL_DigestHandle` succeeds in `cache_inode_state_iterate` -/
  digest : Bool
  /-- `cache_status` at the beginning -/
  statusWord : StatusWord

/-- What else is answered from outside. -/
structure IoEnv where
  /-- `pentry_content` is `NULL` -/
  contentNull : Bool
  /-- `cache_content_cache_behaviour` gives `CACHE_CONTENT_FULLY_CACHED` -/
  fullyCached : Bool
  /-- `cache_inode_add_data_cache` gives success or `CACHE_INODE_CACHE_CONTENT_EXISTS` -/
  addDataCache : Bool
  /-- there is memory for the data -/
  alloc : Bool
  useNfsCommit : Bool

/-- `READ4args` -/
structure ReadArgs where
  stateid : Stateid4
  offset : UInt64
  count : UInt32

/-- `WRITE4args`, the data by their length. -/
structure WriteArgs where
  stateid : Stateid4
  offset : UInt64
  /-- `stable` is `UNSTABLE4` -/
  unstable : Bool
  dataLen : UInt32

/-- How far an operation comes. -/
inductive IoRes where
  | fail (status : Nfsstat4)
  /-- it is about an extended attribute -/
  | xattr
  /-- there is nothing to read or to write -/
  | empty
  /-- it calls `cache_inode_rdwr` -/
  | rdwr (offset size : UInt64) (stable : Bool)

/-- `state_data.share.share_access` of any state: in a lock state the low half of the length is at
its place in the union. -/
def StateData.shareAccessWord : StateData → UInt32
  | .share sh => sh.shareAccess
  | .lock l => l.length.toUInt32

/-- `state_data.share.share_deny` of any state, in a lock state the high half of the length. -/
def StateData.shareDenyWord : StateData → UInt32
  | .share sh => sh.shareDeny
  | .lock l => (l.length >>> 32).toUInt32

/-- The stateid is all zeros or all ones. -/
def isSpecial (stateid : Stateid4) : Bool :=
  decide (stateid = ⟨0, ⟨0, 0, 0⟩⟩) ||
    decide (stateid = ⟨0xFFFFFFFF, ⟨0xFFFF, 0xFFFFFFFFFFFFFFFF, 0xFFFF⟩⟩)

/-- The state that the stateid designates, if its mode is not refused; none for the special
stateids. -/
def foundState (cfg : Config) (s : States) (data : IoData) (stateid : Stateid4) (st : IoStatus)
    (refuses : StateData → Bool) : Except Nfsstat4 (Option ℕ) :=
  if isSpecial stateid then .ok none
  else if data.currentFiletype ≠ .regularFile then .error .serverfault
  else if nfs4CheckStateid cfg s stateid.other st.clientKnown ≠ .ok then
    .error (nfs4CheckStateid cfg s stateid.other st.clientKnown)
  else
    match cacheInodeGetState s stateid.other with
    | none => .error .noent
    | some p => if refuses (s.mem p).data then .error .openmode else .ok (some p)

/-- The loop over the states of the file: one that denies the access is found. It ends at a state
of another file. -/
def scanLoop (s : States) (file : ℕ) (found : Option ℕ) (deny : UInt32) : List ℕ → Bool
  | [] => false
  | p :: rest =>
    (match (s.mem p).data with
      | .share sh => decide (found ≠ some p) && has sh.shareDeny deny
      | .lock _ => false) ||
    (decide ((s.mem p).pentry = file) && scanLoop s file found deny rest)

/-- The scan, with the status that it begins with. -/
def scanStates (s : States) (file : ℕ) (found : Option ℕ) (deny : UInt32) (word : StatusWord)
    (digest : Bool) : Option Nfsstat4 :=
  if !digest then none
  else
    match word with
    | .stateError => none
    | .invalidArgument => some .inval
    | .other => if scanLoop s file found deny (s.lists file) then some .locked else none

/-- `cache_status` before the scan: `cache_inode_get_state` sets it. -/
def wordBeforeScan (stateid : Stateid4) (st : IoStatus) : StatusWord :=
  if isSpecial stateid then st.statusWord else .other

/-- Only files can be read or written. -/
def notRegular (filetype : FileType) : Nfsstat4 :=
  if filetype = .dirBeginning ∨ filetype = .dirContinue then .isdir else .inval

/-- A file that should be in the data cache cannot be put there. -/
def dataCacheFails (data : IoData) (env : IoEnv) : Bool :=
  has data.pexport.options useDatacache && env.contentNull && env.fullyCached && !env.addDataCache

/-- The mode test of READ. -/
def readRefuses (d : StateData) : Bool := !has d.shareAccessWord shareRead

/-- The mode test of WRITE. -/
def writeRefuses (d : StateData) : Bool :=
  has d.shareDenyWord shareWrite && !has d.shareAccessWord shareWrite

/-- READ, after the states. The test for `EXPORT_OPTION_MAXREAD` tests the option 1. -/
def doRead (data : IoData) (args : ReadArgs) (env : IoEnv) : IoRes :=
  if data.currentFiletype ≠ .regularFile then .fail (notRegular data.currentFiletype)
  else
    let size := args.count.toUInt64
    if data.pexport.options &&& maxoffsetread = maxoffsetread ∧
        data.pexport.maxOffsetRead < (args.offset + size).toInt64 then .fail .dquot
    else
      let size := if has data.pexport.options 1 ∧ data.pexport.maxRead < size then
        data.pexport.maxRead else size
      if size = 0 then .empty
      else if dataCacheFails data env then .fail .serverfault
      else if !env.alloc then .fail .serverfault
      else .rdwr args.offset size true

/-- WRITE, after the states. The test for `EXPORT_OPTION_MAXWRITE` tests the option 1. -/
def doWrite (data : IoData) (args : WriteArgs) (env : IoEnv) : IoRes :=
  if data.currentFiletype ≠ .regularFile then .fail (notRegular data.currentFiletype)
  else
    let size := args.dataLen.toUInt64
    if data.pexport.options &&& maxoffsetwrite = maxoffsetwrite ∧
        data.pexport.maxOffsetWrite < (args.offset + size).toInt64 then .fail .dquot
    else
      let size := if has data.pexport.options 1 ∧ data.pexport.maxWrite < size then
        data.pexport.maxWrite else size
      if size = 0 then .empty
      else if dataCacheFails data env then .fail .serverfault
      else .rdwr args.offset size (!(env.useNfsCommit && args.unstable))

/-- The part that READ and WRITE share: the state, and the states of the file. -/
def withState (cfg : Config) (s : States) (data : IoData) (stateid : Stateid4) (st : IoStatus)
    (refuses : StateData → Bool) (deny : UInt32) (k : IoRes) : IoRes :=
  match foundState cfg s data stateid st refuses with
  | .error e => .fail e
  | .ok found =>
    match scanStates s data.currentEntry found deny (wordBeforeScan stateid st) st.digest with
    | some e => .fail e
    | none => k

def nfs4OpRead (cfg : Config) (s : States) (data : IoData) (args : ReadArgs) (st : IoStatus)
    (env : IoEnv) : IoRes :=
  match data.checks with
  | some e => .fail e.1
  | none =>
    if data.xattr then .xattr
    else if data.pexport.accessType = .mdonly then .fail .dquot
    else withState cfg s data args.stateid st readRefuses shareRead (doRead data args env)

def nfs4OpWrite (cfg : Config) (s : States) (data : IoData) (args : WriteArgs) (st : IoStatus)
    (env : IoEnv) : IoRes :=
  match data.checks with
  | some e => .fail e.1
  | none =>
    if data.xattr then .xattr
    else if data.pexport.accessType = .mdonly then .fail .dquot
    else withState cfg s data args.stateid st writeRefuses shareWrite (doWrite data args env)

/-- A call of `cache_inode_add_state`. -/
structure AddArgs where
  file : ℕ
  data : StateData
  owner : OpenOwner
  ok : Bool

/-- The states after calls of `cache_inode_add_state`. -/
def addStates (cfg : Config) (s : States) (adds : List AddArgs) : States :=
  adds.foldl (fun s a => (cacheInodeAddState cfg s a.file a.data a.owner a.ok).1) s

/-! ## The contract -/

/-- The operation calls `cache_inode_rdwr`. -/
def IoRes.Calls : IoRes → Prop
  | .rdwr _ _ _ => True
  | _ => False

/-- The share state of a state: itself, or the open of a lock. -/
def States.shareStateOf (s : States) (p : ℕ) : ℕ :=
  match (s.mem p).data with
  | .share _ => p
  | .lock l => l.popenstate

/-- The state is a share state with the access. -/
def States.HasAccess (s : States) (p : ℕ) (access : UInt32) : Prop :=
  ∃ sh, (s.mem p).data = .share sh ∧ has sh.shareAccess access = true

/-- No share state of the file denies the access, with one exception. -/
def States.NoDeny (s : States) (file : ℕ) (deny : UInt32) (except : Option ℕ) : Prop :=
  ∀ q ∈ s.lists file, except ≠ some q → ∀ sh, (s.mem q).data = .share sh →
    has sh.shareDeny deny = false

/-- **What the open states of a file allow**: a special stateid, or that of a live state of the file
whose share state has the access, and no other share state of the file denies it. -/
def Allows (s : States) (file : ℕ) (stateid : Stateid4) (bit : UInt32) : Prop :=
  if isSpecial stateid then s.NoDeny file bit none
  else ∃ p, s.stateIds stateid.other = some p ∧ p ∈ s.lists file ∧
    s.HasAccess (s.shareStateOf p) bit ∧ s.NoDeny file bit (some (s.shareStateOf p))

/-- READ with the stateid obeys the open states of the file. -/
def ReadObeys (cfg : Config) (s : States) (file : ℕ) (stateid : Stateid4) (st : IoStatus) : Prop :=
  ∀ (data : IoData) (args : ReadArgs) (env : IoEnv), data.currentEntry = file →
    args.stateid = stateid → (nfs4OpRead cfg s data args st env).Calls →
      Allows s file stateid shareRead

/-- WRITE with the stateid obeys the open states of the file. -/
def WriteObeys (cfg : Config) (s : States) (file : ℕ) (stateid : Stateid4) (st : IoStatus) :
    Prop :=
  ∀ (data : IoData) (args : WriteArgs) (env : IoEnv), data.currentEntry = file →
    args.stateid = stateid → (nfs4OpWrite cfg s data args st env).Calls →
      Allows s file stateid shareWrite

/-- The scan stops before it begins: the digest fails, or a special stateid comes with a status word
that is `CACHE_INODE_STATE_ERROR`. -/
def ScanStops (stateid : Stateid4) (st : IoStatus) : Prop :=
  st.digest = false ∨ wordBeforeScan stateid st = .stateError

/-- When the code is right: a scan that stops misses no state that denies the access, and a state
that passes the checks and the mode test, while no other state denies the access or the scan stops,
is a state of the file whose share state has the access. -/
structure StateFits (cfg : Config) (s : States) (file : ℕ) (stateid : Stateid4) (st : IoStatus)
    (refuses : StateData → Bool) (bit : UInt32) : Prop where
  special : isSpecial stateid = true → ScanStops stateid st → s.NoDeny file bit none
  state : isSpecial stateid = false → ∀ p, s.stateIds stateid.other = some p →
    nfs4CheckStateid cfg s stateid.other st.clientKnown = .ok → refuses (s.mem p).data = false →
    ScanStops stateid st ∨ s.NoDeny file bit (some p) →
    (s.mem p).pentry = file ∧ s.HasAccess (s.shareStateOf p) bit ∧
      (ScanStops stateid st → s.NoDeny file bit (some (s.shareStateOf p)))

/-! ## What passes -/

section

variable {cfg : Config} {s : States} {file p : ℕ} {stateid : Stateid4} {st : IoStatus}
  {refuses : StateData → Bool} {bit : UInt32} {data : IoData} {k : IoRes} {found : Option ℕ}

theorem wellFormed_addStates (adds : List AddArgs) (h : s.view.WellFormed) :
    (addStates cfg s adds).view.WellFormed := by
  induction adds generalizing s with
  | nil => exact h
  | cons a adds ih =>
    refine ih ?_
    simp only [cacheInodeAddState_eq]
    split
    · rw [view_link]
      exact h.link
    · exact h

/-- A regular file in an export without limits. -/
def regularData (file : ℕ) : IoData := ⟨none, false, file, .regularFile, ⟨.rw, 0, 0, 0, 0, 0⟩⟩

theorem doRead_regularData :
    (doRead (regularData file) ⟨stateid, 0, 1⟩ ⟨false, false, true, true, false⟩).Calls := by
  simp [doRead, regularData, dataCacheFails, has, maxoffsetread, IoRes.Calls]

theorem doWrite_regularData :
    (doWrite (regularData file) ⟨stateid, 0, false, 1⟩
      ⟨false, false, true, true, false⟩).Calls := by
  simp [doWrite, regularData, dataCacheFails, has, maxoffsetwrite, IoRes.Calls]

/-- The stateid passes the checks and the scan. -/
def Passes (cfg : Config) (s : States) (file : ℕ) (stateid : Stateid4) (st : IoStatus)
    (refuses : StateData → Bool) (bit : UInt32) : Prop :=
  ∃ found, foundState cfg s (regularData file) stateid st refuses = .ok found ∧
    scanStates s file found bit (wordBeforeScan stateid st) st.digest = none

theorem passes_of_calls (hentry : data.currentEntry = file)
    (hfile : k.Calls → data.currentFiletype = .regularFile)
    (h : (withState cfg s data stateid st refuses bit k).Calls) :
    Passes cfg s file stateid st refuses bit := by
  rw [withState] at h
  split at h
  · cases h
  rename_i found hfound
  split at h
  · cases h
  rename_i hscan
  refine ⟨found, ?_, hentry ▸ hscan⟩
  rw [← hfound, foundState, foundState, hfile h]
  rfl

theorem calls_of_passes (h : Passes cfg s file stateid st refuses bit) (hk : k.Calls) :
    (withState cfg s (regularData file) stateid st refuses bit k).Calls := by
  obtain ⟨found, hfound, hscan⟩ := h
  rw [withState, hfound]
  simp only [show (regularData file).currentEntry = file from rfl, hscan]
  exact hk

theorem readObeys_iff : ReadObeys cfg s file stateid st ↔
    (Passes cfg s file stateid st readRefuses shareRead → Allows s file stateid shareRead) := by
  constructor
  · intro h hpasses
    refine h (regularData file) ⟨stateid, 0, 1⟩ ⟨false, false, true, true, false⟩ rfl rfl ?_
    exact calls_of_passes hpasses doRead_regularData
  · rintro h data args env hentry rfl hcalls
    rw [nfs4OpRead] at hcalls
    split at hcalls
    · cases hcalls
    split at hcalls
    · cases hcalls
    split at hcalls
    · cases hcalls
    refine h (passes_of_calls hentry (fun hk => ?_) hcalls)
    by_contra hne
    rw [doRead, if_pos hne] at hk
    cases hk

theorem writeObeys_iff : WriteObeys cfg s file stateid st ↔
    (Passes cfg s file stateid st writeRefuses shareWrite →
      Allows s file stateid shareWrite) := by
  constructor
  · intro h hpasses
    refine h (regularData file) ⟨stateid, 0, false, 1⟩ ⟨false, false, true, true, false⟩ rfl rfl ?_
    exact calls_of_passes hpasses doWrite_regularData
  · rintro h data args env hentry rfl hcalls
    rw [nfs4OpWrite] at hcalls
    split at hcalls
    · cases hcalls
    split at hcalls
    · cases hcalls
    split at hcalls
    · cases hcalls
    refine h (passes_of_calls hentry (fun hk => ?_) hcalls)
    by_contra hne
    rw [doWrite, if_pos hne] at hk
    cases hk

theorem scanLoop_eq_false (found : Option ℕ) (bit : UInt32) (l : List ℕ)
    (h : ∀ q ∈ l, (s.mem q).pentry = file) :
    scanLoop s file found bit l = false ↔
      ∀ q ∈ l, found ≠ some q → ∀ sh, (s.mem q).data = .share sh →
        has sh.shareDeny bit = false := by
  induction l with
  | nil => simp [scanLoop]
  | cons q l ih =>
    have hrest := ih fun q' hq' => h q' (.tail q hq')
    rw [scanLoop, Bool.or_eq_false_iff, decide_eq_true (h q (.head _)), Bool.true_and,
      hrest, List.forall_mem_cons]
    refine and_congr_left fun _ => ?_
    cases (s.mem q).data with
    | lock l => simp
    | share sh =>
      simp only [Bool.and_eq_false_iff, decide_eq_false_iff_not, not_not, StateData.share.injEq]
      constructor
      · rintro hdeny hne sh' rfl
        exact hdeny.resolve_left hne
      · intro hdeny
        by_cases hfound : found = some q
        · exact .inl hfound
        · exact .inr (hdeny hfound sh rfl)

theorem scanStates_eq_none (hwf : s.view.WellFormed) :
    scanStates s file found bit (wordBeforeScan stateid st) st.digest = none ↔
      ScanStops stateid st ∨
        wordBeforeScan stateid st = .other ∧ s.NoDeny file bit found := by
  have hloop := scanLoop_eq_false found bit (s.lists file) fun q hq =>
    hwf.pentry file q hq
  simp only [scanStates, ScanStops]
  cases st.digest with
  | false => simp
  | true =>
    cases wordBeforeScan stateid st with
    | stateError => simp
    | invalidArgument => simp
    | other =>
      simp only [Bool.not_true, Bool.false_eq_true, if_false, reduceCtorEq, or_self, false_or,
        true_and, ite_eq_right_iff, imp_false, Bool.not_eq_true]
      exact hloop

theorem foundState_special (h : isSpecial stateid = true) :
    foundState cfg s data stateid st refuses = .ok none := by
  rw [foundState, if_pos h]

theorem foundState_regularData (h : isSpecial stateid = false) :
    foundState cfg s (regularData file) stateid st refuses = .ok found ↔
      ∃ p, found = some p ∧ s.stateIds stateid.other = some p ∧
        nfs4CheckStateid cfg s stateid.other st.clientKnown = .ok ∧
        refuses (s.mem p).data = false := by
  rw [foundState, if_neg (by simp [h]), if_neg (by simp [regularData])]
  by_cases hcheck : nfs4CheckStateid cfg s stateid.other st.clientKnown = .ok
  · rw [if_neg (not_not.mpr hcheck), cacheInodeGetState]
    cases s.stateIds stateid.other with
    | none => simp
    | some p =>
      cases hrefuses : refuses (s.mem p).data with
      | false =>
        simp only [hrefuses, Bool.false_eq_true, if_false, Except.ok.injEq]
        constructor
        · rintro rfl
          exact ⟨p, rfl, rfl, hcheck, hrefuses⟩
        · rintro ⟨q, rfl, hq, -⟩
          exact hq
      | true => simp [hrefuses]
  · rw [if_pos hcheck]
    simp [hcheck]

theorem passes_special (hwf : s.view.WellFormed) (h : isSpecial stateid = true) :
    Passes cfg s file stateid st refuses bit ↔
      ScanStops stateid st ∨ wordBeforeScan stateid st = .other ∧ s.NoDeny file bit none := by
  simp only [Passes, foundState_special h, scanStates_eq_none hwf, Except.ok.injEq,
    exists_eq_left']

theorem passes_state (hwf : s.view.WellFormed) (h : isSpecial stateid = false) :
    Passes cfg s file stateid st refuses bit ↔
      ∃ p, s.stateIds stateid.other = some p ∧
        nfs4CheckStateid cfg s stateid.other st.clientKnown = .ok ∧
        refuses (s.mem p).data = false ∧
        (ScanStops stateid st ∨ s.NoDeny file bit (some p)) := by
  have hword : wordBeforeScan stateid st = .other := by
    rw [wordBeforeScan, if_neg (by simp [h])]
  simp only [Passes, foundState_regularData h, scanStates_eq_none hwf]
  simp only [hword, true_and]
  constructor
  · rintro ⟨-, ⟨p, rfl, hp, hcheck, hrefuses⟩, hscan⟩
    exact ⟨p, hp, hcheck, hrefuses, hscan⟩
  · rintro ⟨p, hp, hcheck, hrefuses, hscan⟩
    exact ⟨some p, ⟨p, rfl, hp, hcheck, hrefuses⟩, hscan⟩

theorem States.NoDeny.shareStateOf (h : s.NoDeny file bit (some p)) :
    s.NoDeny file bit (some (s.shareStateOf p)) := by
  intro q hq hne sh hsh
  refine h q hq ?_ sh hsh
  rintro ⟨⟩
  simp only [States.shareStateOf, hsh] at hne
  exact hne rfl

theorem passes_imp_allows_iff (hwf : s.view.WellFormed) :
    (Passes cfg s file stateid st refuses bit → Allows s file stateid bit) ↔
      StateFits cfg s file stateid st refuses bit := by
  cases hspecial : isSpecial stateid with
  | true =>
    rw [passes_special hwf hspecial, Allows, if_pos hspecial]
    constructor
    · intro h
      exact ⟨fun _ hstops => h (.inl hstops), by simp [hspecial]⟩
    · rintro h (hstops | ⟨-, hnodeny⟩)
      · exact h.special hspecial hstops
      · exact hnodeny
  | false =>
    rw [passes_state hwf hspecial, Allows, if_neg (by simp [hspecial])]
    constructor
    · intro h
      refine ⟨by simp [hspecial], fun _ p hp hcheck hrefuses hscan => ?_⟩
      obtain ⟨q, hq, hmem, haccess, hnodeny⟩ := h ⟨p, hp, hcheck, hrefuses, hscan⟩
      obtain rfl : p = q := Option.some.inj (hp.symm.trans hq)
      exact ⟨hwf.pentry file p hmem, haccess, fun _ => hnodeny⟩
    · rintro h ⟨p, hp, hcheck, hrefuses, hscan⟩
      obtain ⟨hpentry, haccess, hnodeny⟩ := h.state hspecial p hp hcheck hrefuses hscan
      have hmem : p ∈ s.lists (s.mem p).pentry := hwf.listed _ p hp
      refine ⟨p, hp, hpentry ▸ hmem, haccess, ?_⟩
      rcases hscan with hstops | hfound
      · exact hnodeny hstops
      · exact hfound.shareStateOf

end

/-! ## The result -/

/-- **READ and WRITE obey the open states of the file**, as calls of `cache_inode_add_state` leave
them. -/
def ObeysOpenState (cfg : Config) (present : ℕ → Bool) (adds : List AddArgs) (file : ℕ)
    (stateid : Stateid4) (st : IoStatus) : Prop :=
  ReadObeys cfg (addStates cfg (States.init present) adds) file stateid st ∧
    WriteObeys cfg (addStates cfg (States.init present) adds) file stateid st

/-- **READ and WRITE obey the open states exactly when the state of the stateid fits**, by the mode
test of each. -/
theorem obeysOpenState_iff (cfg : Config) (present : ℕ → Bool) (adds : List AddArgs) (file : ℕ)
    (stateid : Stateid4) (st : IoStatus) :
    ObeysOpenState cfg present adds file stateid st ↔
      StateFits cfg (addStates cfg (States.init present) adds) file stateid st readRefuses
          shareRead ∧
        StateFits cfg (addStates cfg (States.init present) adds) file stateid st writeRefuses
          shareWrite := by
  have hwf : (addStates cfg (States.init present) adds).view.WellFormed :=
    wellFormed_addStates adds (View.WellFormed.init present)
  rw [ObeysOpenState, readObeys_iff, writeObeys_iff]
  exact and_congr (passes_imp_allows_iff hwf) (passes_imp_allows_iff hwf)

/-- A file is open for reading, and nothing is denied. -/
def openForReading : List AddArgs :=
  [⟨0, .share ⟨[], shareRead, 0, 0⟩, ⟨⟨0, []⟩, true, 0, 0, none⟩, true⟩]

/-- The stateid of this open is good for writing. -/
theorem not_obeysOpenState :
    ¬ ObeysOpenState ⟨false, 1, fun _ => 0, true⟩ (fun _ => true) openForReading 0
      ⟨0, ⟨1, 0, 0⟩⟩ ⟨true, true, .other⟩ := by
  rintro ⟨-, hwrite⟩
  have hallows := hwrite (regularData 0) ⟨⟨0, ⟨1, 0, 0⟩⟩, 0, false, 1⟩
    ⟨false, false, true, true, false⟩ rfl rfl trivial
  rw [Allows, if_neg (by decide)] at hallows
  obtain ⟨p, hp, -, ⟨sh, hsh, haccess⟩, -⟩ := hallows
  cases hp
  cases hsh
  exact absurd haccess (by decide)

end CloudNfs.Nfs4
