import CloudNfs.OpenParts

/-!
# OPEN is safe but for its owner (`NFS_Protocols/nfs4_op_open.c`)

`nfs_convert_open_owner` copies the string of the owner to `owner_val[MAXNAMLEN]` with the length
that the client sent, up to 1024 bytes; `nfs4_op_open` does it again for a new owner and writes a
zero behind the string. A longer string overruns the array on the stack. The four pointers are
followed only where they are set, on every way through the function. One more pointer is followed
without a check, inside `cache_inode_lookup`: the parent of `..`.

* `nfs4OpOpen_returns_iff` — the function returns exactly then.
-/

namespace CloudNfs.Nfs4.OpenFile

open Pointers CloudNfs.Flow

def Listed (s : StateStore) : Prop := ∀ file, ∃ l, FileList s file l

def Reaches {A : Type} (fsalMaxNameLen : ℕ) (s : Server A) (req : OpenRequest) (env : Calls A)
    (file : List UInt8) : Prop :=
  env.currentFH = .plain ∧ env.currentEntry = true ∧ req.claim = .null file ∧
    checkClaimNull fsalMaxNameLen s req env file = none

def LooksUp {A : Type} (s : Server A) (req : OpenRequest) (env : Calls A) : Prop :=
  OwnerTaken s req env ∧ env.getattrBefore = none ∧ convertFattr req.openhow env = none ∧
    ∀ opentype, req.openhow ≠ .other opentype

/-- The condition: where the request gets to the owner, the owner fits, and where it gets to the
lookup, a name `..` has a parent. -/
def SafeArgs {A : Type} (fsalMaxNameLen : ℕ) (s : Server A) (req : OpenRequest) (env : Calls A) :
    Prop :=
  ∀ file, Reaches fsalMaxNameLen s req env file →
    OwnerFits s req env ∧ (LooksUp s req env → ParentFound env file)

/-- No fault, and what a piece goes on with satisfies `N`. -/
abbrev Sound {A α : Type} (m : Open A α) (N : α → Prop) : Prop :=
  m.Ends N (fun _ => True) fun _ => False

section

variable {A : Type} {s : Server A} {req : OpenRequest} {env : Calls A} {o : OwnerName}
  {e fsalMaxNameLen : ℕ} {file : List UInt8}

theorem addState_sound (hl : Listed s.states) (pentry : Option ℕ) (oexclVerifier : List UInt8) :
    Sound (addState s req env pentry (some o) oexclVerifier) fun r => ∃ p, r.val = some p := by
  cases pentry with
  | none => trivial
  | some e =>
    obtain ⟨l, hl⟩ := hl e
    have hend : AddEnd s env e o (addState s req env (some e) (some o) oexclVerifier) :=
      addState_end hl oexclVerifier
    cases h : addState s req env (some e) (some o) oexclVerifier with
    | next r =>
      rw [h] at hend
      cases hend
      exact ⟨_, rfl⟩
    | ret r => trivial
    | fault f =>
      rw [h] at hend
      cases hend

theorem Sound.mono {α : Type} {m : Open A α} {N N' : α → Prop} (h : Sound m N)
    (hN : ∀ a, N a → N' a) : Sound m N' :=
  Ends.mono h hN (fun _ => id) fun _ => id

theorem openUnchecked_sound (hl : Listed s.states) :
    Sound (openUnchecked s req env (some o) (some e)) fun _ => True := by
  simp only [openUnchecked, uncheckedEnd, ends_bind, ends_checkAccess, ends_setattr,
    ends_openByName, ends_leaveIf, ends_deref, ends_makeFhandle, ends_ret, implies_true, true_and]
  refine fun _ _ _ _ => (addState_sound (s := s.setAttrs e _) hl _ _).mono ?_
  rintro added ⟨p, hp⟩ - -
  simp [hp]

theorem resend_sound (p : ℕ) : Sound (resend s env (some o) (some e) p) fun _ => True := by
  simp [resend]

theorem openExclusive_sound (hl : Listed s.states) {looked : Looked} (hgoes : Goes looked.status)
    (createverf : List UInt8) :
    Sound (openExclusive s req env (some o) looked createverf) fun _ => True := by
  rw [openExclusive]
  split
  next e he =>
    split
    next =>
      obtain ⟨l, hl⟩ := hl e
      rw [he]
      obtain ⟨status, hloop⟩ := stateLoop_eq hgoes hl env.digest
        (bumpAndLeave s (some o) 1 .inval)
        (visitExclusive s req env (some o) (some e) createverf) ()
      rw [hloop, bind_assoc]
      have hvisit : ∀ x : Unit, True → ∀ p ∈ visited s.states env.digest e l,
          Sound (visitExclusive s req env (some o) (some e) createverf x p) fun _ => True := by
        intro x _ p _
        rw [visitExclusive]
        split
        next =>
          split
          next => exact ends_stop.mpr (resend_sound p)
          next => trivial
        next => trivial
      exact ends_bind.mpr (Sound.mono (ends_foldlM hvisit trivial) fun _ _ => trivial)
    next => trivial
  next => trivial

theorem openExisting_sound (hl : Listed s.states) (hparent : ParentFound env file)
    (how : CreateHow) :
    Sound (openExisting s req env (some o) (lookedUp env file) how) fun _ => True := by
  obtain ⟨e, he⟩ | ⟨err, herr⟩ := lookedUp_cases hparent
  · rw [he]
    unfold openExisting
    split
    next => exact openUnchecked_sound hl
    next => exact openExclusive_sound hl goes_validStatus _
    next => trivial
  · rw [herr]
    unfold openExisting
    split
    next hnone => cases hnone
    next => trivial
    next => trivial

theorem listed_addFile (hl : Listed s.states) (attrs : A) : Listed (s.addFile e attrs).states := by
  intro file
  obtain ⟨l, h⟩ := hl file
  by_cases hfile : file = e
  · subst hfile
    refine ⟨[], ?_, List.nodup_nil, h.apart.mono nofun⟩
    exact DoublyLinked.isList_nil.mpr (Function.update_self ..)
  refine ⟨l, ?_, h.nodup, h.apart⟩
  rw [Server.addFile]
  dsimp only
  rw [Function.update_of_ne hfile]
  exact h.list

theorem openEnd_sound {pfileState : Option ℕ} (hp : ∃ p, pfileState = some p)
    (pentryNewfile : Option ℕ) :
    Sound (openEnd s env (some o) pentryNewfile pfileState) fun _ => True := by
  obtain ⟨p, rfl⟩ := hp
  simp [openEnd]

theorem parentFound_of_sound {α : Type} {k : Looked → Open A α} {N : α → Prop}
    (h : Sound (cacheInodeLookup env file >>= k) N) : ParentFound env file := by
  rw [Sound, ends_bind, ends_cacheInodeLookup] at h
  exact not_not.mp h.1

theorem openCreated_sound (hl : Listed s.states) (how : CreateHow) (pentry : Option ℕ) :
    Sound (openCreated s req env (some o) how pentry) fun opened =>
      ∃ p, opened.pfileState = some p := by
  cases pentry with
  | none => trivial
  | some e =>
    simp only [openCreated, Sound, ends_bind, ends_setattr, ends_openByName, ends_next,
      implies_true, true_and]
    refine (addState_sound hl _ _).mono ?_
    rintro added ⟨p, hp⟩
    simp [hp]

theorem openCreate_sound (hl : Listed s.states) (hparent : ParentFound env file) (how : CreateHow) :
    Sound (openCreate s req env (some o) file how) fun opened =>
      ∃ p, opened.pfileState = some p := by
  rw [openCreate, Sound, ends_bind, ends_cacheInodeLookup]
  refine ⟨fun h => h hparent, fun _ => ?_⟩
  split
  next hnotFound =>
    -- the server that the file is created on
    have hlmade : Listed (cacheInodeCreate s env).server.states := by
      unfold cacheInodeCreate
      split
      next => exact hl
      next => exact hl
      next => exact hl
      next => exact listed_addFile hl _
    generalize cacheInodeCreate s env = made at hlmade ⊢
    dsimp only
    split
    next e he => exact openCreated_sound hlmade how (some e)
    split
    next => exact openCreated_sound hlmade how _
    next => trivial
  next => exact ends_stop.mpr (openExisting_sound hl hparent how)

theorem reuseOrAdd_sound (hl : Listed s.states) (pentryNewfile sameOwner : Option ℕ) :
    Sound (reuseOrAdd s req env (some o) pentryNewfile sameOwner) fun r =>
      ∃ p, r.val = some p := by
  cases sameOwner with
  | none => exact addState_sound hl _ _
  | some p => exact ⟨p, rfl⟩

theorem openNoCreate_sound (hl : Listed s.states) (hparent : ParentFound env file) :
    Sound (openNoCreate s req env (some o) file) fun opened =>
      ∃ p, opened.pfileState = some p := by
  rw [openNoCreate, Sound, ends_bind, ends_cacheInodeLookup]
  refine ⟨fun h => h hparent, fun _ => ?_⟩
  obtain ⟨e, he⟩ | ⟨err, herr⟩ := lookedUp_cases hparent
  · rw [he]
    simp only [ends_bind, ends_deref, ends_leaveOn, ends_checkAccess, ends_leaveIf,
      ends_openByName, ends_next, implies_true, true_and, Option.some.injEq, forall_eq']
    refine ⟨by rintro ⟨⟩, fun _ _ _ _ _ => ?_⟩
    obtain ⟨l, hle⟩ := hl e
    obtain ⟨status, hloop⟩ := stateLoop_eq goes_validStatus hle env.digest
      (.ret (s, .fail .inval)) (visitNoCreate s req env (some o)) none
    rw [hloop, ends_bind]
    have hvisit : ∀ x : Option ℕ, True → ∀ p ∈ visited s.states env.digest e l,
        Sound (visitNoCreate s req env (some o) x p) fun _ => True := by
      intro x _ p _
      rw [visitNoCreate]
      split
      next =>
        dsimp only
        split
        next => trivial
        split
        next => trivial
        next => split <;> trivial
      next => trivial
    refine Sound.mono (ends_foldlM hvisit trivial) fun sameOwner _ => ?_
    refine (reuseOrAdd_sound hl _ _).mono ?_
    rintro added ⟨p, hp⟩ -
    exact ⟨p, hp⟩
  · rw [herr]
    trivial

/-! ## The function -/

theorem openHow_sound_iff (hl : Listed s.states) :
    (Sound (openHow s req env (some o) file) fun _ => True) ↔
      ((∀ opentype, req.openhow ≠ .other opentype) → ParentFound env file) := by
  rw [openHow]
  cases hopen : req.openhow with
  | create how =>
    constructor
    · intro h _
      simp only [openCreate, bind_assoc] at h
      exact parentFound_of_sound h
    · intro h
      refine ends_bind.mpr ((openCreate_sound hl (h (by rintro _ ⟨⟩)) how).mono fun opened hp => ?_)
      exact openEnd_sound hp _
  | noCreate =>
    constructor
    · intro h _
      simp only [openNoCreate, bind_assoc] at h
      exact parentFound_of_sound h
    · intro h
      refine ends_bind.mpr ((openNoCreate_sound hl (h (by rintro _ ⟨⟩))).mono fun opened hp => ?_)
      exact openEnd_sound hp _
  | other opentype => exact iff_of_true trivial fun h => absurd rfl (h opentype)

theorem openClaimNull_sound_iff (hl : Listed s.states) :
    (Sound (openClaimNull fsalMaxNameLen s req env file) fun _ => True) ↔
      (checkClaimNull fsalMaxNameLen s req env file = none →
        OwnerFits s req env ∧ (LooksUp s req env → ParentFound env file)) := by
  have hltake : Listed (takeOwner s req).states := by rwa [states_takeOwner]
  have hways : (Sound (openHow (takeOwner s req) req env (some req.owner) file) fun _ => True) ↔
      ((∀ opentype, req.openhow ≠ .other opentype) → ParentFound env file) :=
    openHow_sound_iff hltake
  rw [openClaimNull, Sound, ends_bind, ends_leaveOn, ends_bind, ends_openOwner]
  simp only [implies_true, true_and, ends_bind, ends_leaveOn]
  refine imp_congr_right fun _ => ?_
  rw [imp_false, not_not]
  refine and_congr_right fun hfits => ?_
  constructor
  · rintro h ⟨htaken, hbefore, hconvert, hopen⟩
    exact hways.mp (h hfits htaken hbefore hconvert) hopen
  · intro h _ htaken hbefore hconvert
    exact hways.mpr fun hopen => h ⟨htaken, hbefore, hconvert, hopen⟩

/-- **OPEN returns exactly under the condition**: no string is copied behind the end of an
`owner_val`, no pointer is followed that is `NULL`, and the loops end. -/
theorem nfs4OpOpen_returns_iff (hl : Listed s.states) :
    (∃ r, nfs4OpOpen fsalMaxNameLen s req env = .ret r) ↔ SafeArgs fsalMaxNameLen s req env := by
  rw [exists_ret_iff, nfs4OpOpen]
  by_cases hplain : env.currentFH = .plain ∧ env.currentEntry = true
  · simp only [hplain, if_true, SafeArgs, Reaches, true_and]
    rw [openClaim]
    cases hclaim : req.claim with
    | null file =>
      simp only [OpenClaim.null.injEq, and_imp, forall_eq']
      exact openClaimNull_sound_iff hl
    | _ => exact iff_of_true trivial nofun
  · refine iff_of_true ?_ fun file hreach => absurd ⟨hreach.1, hreach.2.1⟩ hplain
    split
    next => trivial
    next => trivial
    next => trivial
    next => trivial
    next => trivial
    rename_i hfh
    split
    next hentry => exact absurd ⟨hfh, hentry⟩ hplain
    next => trivial

end

/-! ## Requests -/

/-- A server without states and owners; the file 0 is a directory, the others are regular files. -/
def idleServer : Server ℕ :=
  { states := (init zeroed).store
    owners := fun _ => none
    ownerCounter := 0
    types := fun e => if e = 0 then .directory else .regularFile
    attrs := fun _ => 0 }

theorem listed_idleServer : Listed idleServer.states :=
  fun file => ⟨[], fileList_init zeroed file⟩

def callsSucceed : Calls ℕ :=
  { currentFH := .plain
    xattr := .fail .inval
    currentEntry := true
    pentryParent := 0
    fattrSupported := true
    fattrCheckAccess := true
    filename := none
    clientConfirmed := true
    ownerAlloc := true
    ownerNameAlloc := true
    ownerSet := true
    getattrBefore := none
    fattrToFsal := .converted
    looked := .ok 1
    lookupp := some 0
    parentValid := true
    createAccess := none
    createLooked := none
    created := .ok 2
    newAttrs := 0
    denyWriteAccess := true
    readAccess := true
    writeAccess := true
    mode0 := false
    setattr := fun attrs => (attrs, none)
    digest := true
    ownerTail := []
    verifierBytes := []
    add := ⟨true, 1, some ⟨0, 0, 1⟩, true⟩
    client := 0
    opened := true
    allocateFH := true
    fsalToFhandle := true
    getattrAfter := none
    attrsetAlloc := true }

/-- An OPEN of `x` for writing, by an owner with the string. -/
def openWrite (openhow : OpenFlag) (ownerVal : List UInt8)
    (ownerLimit : ownerVal.length ≤ nfs4OpaqueLimit) : OpenRequest :=
  { seqid := 0, shareAccess := shareWrite, shareDeny := 0, owner := ⟨1, ownerVal⟩,
    openhow := openhow, claim := .null [120], ownerLimit := ownerLimit }

/-- An owner with a string of one byte. -/
theorem returns_shortOwner :
    ∃ r, nfs4OpOpen 255 idleServer (openWrite .noCreate [97] (by decide)) callsSucceed =
      .ret r := by
  refine (nfs4OpOpen_returns_iff listed_idleServer).mpr ?_
  rintro file ⟨-, -, hclaim, -⟩
  cases hclaim
  exact ⟨⟨by decide, fun _ _ _ => by decide⟩, fun _ => nofun⟩

theorem not_returns_of_long {ownerVal : List UInt8} (hlimit : ownerVal.length ≤ nfs4OpaqueLimit)
    (hlong : maxNamLen < ownerVal.length) :
    ¬ ∃ r, nfs4OpOpen 255 idleServer (openWrite .noCreate ownerVal hlimit) callsSucceed =
      .ret r := by
  intro hreturns
  -- the request passes all checks before the owner
  have hsound := (openClaimNull_sound_iff listed_idleServer).mp (exists_ret_iff.mp hreturns) rfl
  exact absurd hsound.1.1 (Nat.not_le_of_lt hlong)

/-- An owner with a string of 256 bytes. -/
theorem longOwner_overruns :
    ¬ ∀ (fsalMaxNameLen : ℕ) (s : Server ℕ) (req : OpenRequest) (env : Calls ℕ), Listed s.states →
      ∃ r, nfs4OpOpen fsalMaxNameLen s req env = .ret r := by
  intro h
  have hlength : (List.replicate 256 (97 : UInt8)).length = 256 := List.length_replicate
  have hlimit : (List.replicate 256 (97 : UInt8)).length ≤ nfs4OpaqueLimit := by
    rw [hlength]
    decide
  refine not_returns_of_long hlimit ?_ (h 255 idleServer _ callsSucceed listed_idleServer)
  rw [hlength]
  decide

end CloudNfs.Nfs4.OpenFile
