import CloudNfs.OpenSafe

/-!
# What a failed OPEN leaves behind (`NFS_Protocols/nfs4_op_open.c`)

OPEN of a file that exists sets its attributes, adds a share state and opens the file, in an order
that differs between the create modes, and answers an error as soon as one of the steps fails. No
way undoes a step. With UNCHECKED4 the attributes, the size among them, are set before the caller's
right to write is checked.

* `leavesAlone_iff` — the property holds exactly then.
-/

namespace CloudNfs.Nfs4.OpenFile

open Pointers CloudNfs.Flow

/-! ## The property -/

/-- The entry that is there under the name before the request. -/
def existing {A : Type} (env : Calls A) (filename : List UInt8) : Option ℕ :=
  match (lookedUp env filename).pentry with
  | some e => some e
  | none => if (lookedUp env filename).status = some .notFound then env.createLooked else none

/-- The attributes and the states of a file are as before. -/
structure Keeps {A : Type} (s t : Server A) (e : ℕ) : Prop where
  attrs : t.attrs e = s.attrs e
  states : SameStates s.states t.states e

/-- A failed OPEN leaves the file alone. -/
def LeavesAlone {A : Type} (fsalMaxNameLen : ℕ) (s : Server A) (req : OpenRequest)
    (env : Calls A) : Prop :=
  ∀ filename e, req.claim = .null filename → existing env filename = some e →
    ∀ t res, nfs4OpOpen fsalMaxNameLen s req env = .ret (t, res) →
      res.status ≠ .ok → Keeps s t e

/-! ## The condition -/

/-- One of the checks of `cache_inode_access` that come first with UNCHECKED4 refuses. -/
def AccessRefused {A : Type} (req : OpenRequest) (env : Calls A) : Prop :=
  (has req.shareDeny shareWrite = true ∧ env.denyWriteAccess = false) ∨
    (has req.shareAccess shareRead = true ∧ env.readAccess = false)

def WriteRefused {A : Type} (req : OpenRequest) (env : Calls A) : Prop :=
  has req.shareAccess shareWrite = true ∧ env.writeAccess = false

/-- The filehandle and the result are made, after the file is opened. -/
def Answered {A : Type} (env : Calls A) : Prop :=
  env.opened = true ∧ env.allocateFH = true ∧ env.fsalToFhandle = true ∧ env.attrsetAlloc = true

/-- OPEN4_CREATE, UNCHECKED4, of a file that is found: an early check refuses; or everything
succeeds; or it stops before a state is linked, and the attributes are what they were. -/
def CleanUnchecked {A : Type} (s : Server A) (req : OpenRequest) (env : Calls A) (e : ℕ) : Prop :=
  let r := setattrResult env req.openhow.attrProvided (s.attrs e)
  AccessRefused req env ∨
    (r.2 = none ∧ ¬ WriteRefused req env ∧ AddDone s env e ∧ Answered env) ∨
    ((r.2 ≠ none ∨ WriteRefused req env ∨ AddRefused s env e) ∧ r.1 = s.attrs e)

/-- OPEN4_CREATE of a file that is not found at first: no state is linked, or everything
succeeds. -/
def CleanCreate {A : Type} (s : Server A) (req : OpenRequest) (env : Calls A) (e : ℕ) : Prop :=
  AddRefused s env e ∨
    (AddDone s env e ∧
      (setattrResult env req.openhow.attrProvided (s.attrs e)).2 = none ∧ Answered env ∧
      env.getattrAfter = none)

/-- A state of the file that the loop of OPEN4_NOCREATE visits. -/
def Visits {A : Type} (s : Server A) (env : Calls A) (e p : ℕ) : Prop :=
  ∃ l, FileList s.states e l ∧ p ∈ visited s.states env.digest e l

/-- The state is in the way of the share. -/
def denies {A : Type} (s : Server A) (req : OpenRequest) (env : Calls A) (p : ℕ) : Bool :=
  match (s.states.mem p).typed with
  | .data (.share sh) =>
    (decide ((s.states.mem p).powner ≠ req.owner) &&
      !sameOwnerVal req env (s.states.mem p).powner &&
      has sh.shareAccess shareWrite && has req.shareDeny shareWrite) ||
    (has sh.shareDeny shareRead && has req.shareAccess shareRead) ||
    (has sh.shareDeny shareWrite && has req.shareAccess shareWrite)
  | _ => false

/-- The share is one of the owner of the request. -/
def ownedBy {A : Type} (s : Server A) (req : OpenRequest) (p : ℕ) : Bool :=
  match (s.states.mem p).typed with
  | .data (.share _) => decide ((s.states.mem p).powner = req.owner)
  | _ => false

/-- OPEN4_NOCREATE of a file: a check refuses; or a share is in the way; or everything succeeds; or
there is no share of the owner and no state is linked. -/
def CleanNoCreate {A : Type} (s : Server A) (req : OpenRequest) (env : Calls A) (e : ℕ) : Prop :=
  s.types e ≠ .regularFile ∨ AccessRefused req env ∨ WriteRefused req env ∨ env.mode0 = true ∨
    (∃ p, Visits s env e p ∧ denies s req env p = true) ∨
    (((∃ p, Visits s env e p ∧ ownedBy s req p = true) ∨ AddDone s env e) ∧ Answered env ∧
      env.getattrAfter = none) ∨
    ((∀ p, Visits s env e p → ownedBy s req p = false) ∧ AddRefused s env e)

/-- What has to go well for the file. -/
def CleanHow {A : Type} (s : Server A) (req : OpenRequest) (env : Calls A)
    (filename : List UInt8) (e : ℕ) : Prop :=
  match req.openhow, (lookedUp env filename).pentry, (lookedUp env filename).status with
  | .create _, none, some .notFound => env.createAccess = none → CleanCreate s req env e
  | .create (.unchecked _), some _, none => CleanUnchecked s req env e
  | .noCreate, some _, _ => CleanNoCreate s req env e
  | _, _, _ => True

/-- The condition: where the request gets to the file. -/
def Clean {A : Type} (fsalMaxNameLen : ℕ) (s : Server A) (req : OpenRequest) (env : Calls A) :
    Prop :=
  ∀ filename e, Reaches fsalMaxNameLen s req env filename → OwnerFits s req env →
    LooksUp s req env → ParentFound env filename → existing env filename = some e →
    CleanHow s req env filename e

/-! ## The ways -/

section

variable {A : Type} {s t : Server A} {req : OpenRequest} {env : Calls A} {o : OwnerName}
  {e fsalMaxNameLen : ℕ} {filename : List UInt8} {l : List ℕ}

def Undone (s : Server A) (e : ℕ) (r : Server A × OpRes) : Prop := r.2.status ≠ .ok → Keeps s r.1 e

variable {status : Nfsstat4}

theorem undone_fail (hstatus : status ≠ .ok) :
    Undone s e (t, .fail status) ↔ Keeps s t e := imp_iff_right hstatus

@[simp] theorem undone_errno (err : CacheError) :
    Undone s e (t, .fail err.errno) ↔ Keeps s t e := undone_fail err.errno_ne_ok

@[simp] theorem undone_access : Undone s e (t, .fail .access) ↔ Keeps s t e := undone_fail nofun

@[simp] theorem undone_serverfault : Undone s e (t, .fail .serverfault) ↔ Keeps s t e :=
  undone_fail (by rintro ⟨⟩)

@[simp] theorem undone_shareDenied : Undone s e (t, .fail .shareDenied) ↔ Keeps s t e :=
  undone_fail nofun

@[simp] theorem undone_inval : Undone s e (t, .fail .inval) ↔ Keeps s t e :=
  undone_fail (by rintro ⟨⟩)

@[simp] theorem undone_other (code : ℕ) : Undone s e (t, .fail (.other code)) ↔ Keeps s t e :=
  undone_fail (by rintro ⟨⟩)

@[simp] theorem undone_ok (stateid : Option Stateid4) : Undone s e (t, ⟨.ok, stateid⟩) :=
  fun h => absurd rfl h

@[simp] theorem undone_existStatus (cacheStatus : CacheStatus) :
    Undone s e (t, .fail (existStatus cacheStatus)) ↔ Keeps s t e := by
  refine undone_fail ?_
  cases cacheStatus with
  | none => nofun
  | some err => exact err.errno_ne_ok

theorem keeps_refl (h : FileList s.states e l) : Keeps s s e := ⟨rfl, sameStates_refl h⟩

/-- The sequence id of an owner is not part of the file. -/
@[simp] theorem keeps_bumpOwner {n : UInt32} : Keeps s (t.bumpOwner o n) e ↔ Keeps s t e :=
  ⟨fun h => ⟨h.attrs, h.states⟩, fun h => ⟨h.attrs, h.states⟩⟩

theorem not_keeps (h : ¬ SameStates s.states t.states e) : ¬ Keeps s t e := fun hk => h hk.states

theorem keeps_setAttrs_iff (h : FileList s.states e l) {attrs : A} :
    Keeps s (s.setAttrs e attrs) e ↔ attrs = s.attrs e := by
  constructor
  · intro hk
    have := hk.attrs
    simpa only [Server.setAttrs, Function.update_self] using this
  · intro heq
    refine ⟨?_, sameStates_refl h⟩
    simpa only [Server.setAttrs, Function.update_self] using heq

/-! ### Once a state was added -/

variable {k : Unit → Open A Empty} {Q : Prop} {p : ℕ} {N : Option ℕ → Prop} {type : FileType}

theorem openByName_iff (htype : t.types e = .regularFile) (hk : ¬ Keeps s t e)
    (hend : Ends (k ()) (fun _ => True) (Undone s e) (fun _ => True) ↔ Q) :
    (Ends (openByName t env (some e) (some o) >>= k) (fun _ => True) (Undone s e) fun _ => True) ↔
      env.opened = true ∧ Q := by
  have hopens : cacheInodeOpenByName t env (some e) = env.opened := by
    rw [cacheInodeOpenByName, Server.regular, htype, decide_eq_true rfl, Bool.true_and]
  rw [← hend, ends_bind, ends_openByName, hopens, undone_access, keeps_bumpOwner]
  cases env.opened with
  | true => simp
  | false => simp [hk]

theorem makeFhandle_iff (htype : t.types e = .regularFile) (hk : ¬ Keeps s t e)
    (hend : Ends (k ()) (fun _ => True) (Undone s e) (fun _ => True) ↔ Q) :
    (Ends (makeFhandle t env (some e) >>= k) (fun _ => True) (Undone s e) fun _ => True) ↔
      env.allocateFH = true ∧ env.fsalToFhandle = true ∧ Q := by
  have hhandle : cacheInodeGetFsalHandle t (some e) = none := by
    rw [cacheInodeGetFsalHandle, htype, if_neg nofun]
  rw [← hend, ends_bind, ends_makeFhandle, hhandle]
  cases env.allocateFH <;> cases env.fsalToFhandle <;> simp [hk]

theorem openEnd_iff (htype : t.types e = .regularFile) (hk : ¬ Keeps s t e) (p : ℕ) :
    (Ends (openEnd t env (some o) (some e) (some p)) (fun _ => True) (Undone s e) fun _ => True) ↔
      env.allocateFH = true ∧ env.fsalToFhandle = true ∧ env.getattrAfter = none ∧
        env.attrsetAlloc = true := by
  refine makeFhandle_iff htype hk ?_
  cases env.getattrAfter <;> cases env.attrsetAlloc <;> simp [hk]

theorem openByName_openEnd_iff (htype : t.types e = .regularFile) (hk : ¬ Keeps s t e) (p : ℕ) :
    Ends (openByName t env (some e) (some o) >>= fun _ =>
        openEnd t env (some o) (some e) (some p)) (fun _ => True) (Undone s e) (fun _ => True) ↔
      Answered env ∧ env.getattrAfter = none := by
  rw [openByName_iff htype hk (openEnd_iff htype hk p), Answered]
  constructor
  · rintro ⟨hopened, hfh, hfsal, hgetattr, halloc⟩
    exact ⟨⟨hopened, hfh, hfsal, halloc⟩, hgetattr⟩
  · rintro ⟨⟨hopened, hfh, hfsal, halloc⟩, hgetattr⟩
    exact ⟨hopened, hfh, hfsal, hgetattr, halloc⟩

/-- **A state is added**: the rest has to go well, or no state is linked and the attributes are as
before. -/
theorem addState_iff {t : Server A} (h : FileList s.states e l) (hstates : t.states = s.states)
    (oexclVerifier : List UInt8) {k : With A (Option ℕ) → Open A Empty} {Q : Prop}
    (hk : ∀ states p, t.types e = .regularFile → ¬ SameStates s.states states e →
      (Ends (k ⟨{ t with states := states }, some p⟩) (fun _ => True) (Undone s e)
        (fun _ => True) ↔ Q)) :
    Ends (addState t req env (some e) (some o) oexclVerifier >>= k) (fun _ => True) (Undone s e)
        (fun _ => True) ↔
      (AddDone t env e ∧ Q) ∨ (AddRefused t env e ∧ t.attrs e = s.attrs e) := by
  have hend : AddEnd t env e o (addState t req env (some e) (some o) oexclVerifier) :=
    addState_end (hstates.symm ▸ h) oexclVerifier
  rw [ends_bind]
  generalize addState t req env (some e) (some o) oexclVerifier = m at hend ⊢
  cases hend with
  | refused hrefused hsame =>
    rw [hstates] at hsame
    rw [ends_ret, undone_shareDenied, keeps_bumpOwner, or_iff_right fun hd =>
      hd.1.not_addRefused hrefused, and_iff_right hrefused]
    exact ⟨fun hk => hk.attrs, fun hattrs => ⟨hattrs, hsame⟩⟩
  | late hrefused hdone hsame =>
    rw [hstates] at hsame
    rw [ends_ret, undone_shareDenied, keeps_bumpOwner]
    refine iff_of_false (not_keeps hsame) ?_
    rintro (hd | hr)
    · exact hdone hd.1
    · exact hrefused hr.1
  | done hdone hsame =>
    rw [hstates] at hsame
    rw [ends_next, or_iff_left fun hr => hdone.not_addRefused hr.1, and_iff_right hdone]
    exact hk _ _ hdone.1 hsame

/-! ### OPEN4_CREATE of a file that is found -/

theorem uncheckedEnd_iff (htype : t.types e = .regularFile) (hk : ¬ Keeps s t e) (p : ℕ) :
    Ends (uncheckedEnd t env (some o) (some e) (some p)) (fun _ => True) (Undone s e)
        (fun _ => True) ↔
      Answered env := by
  rw [uncheckedEnd, Answered]
  refine openByName_iff htype hk ?_
  have hmake : Ends (makeFhandle t env (some e) >>= fun _ =>
      .ret (t, ⟨.ok, some ⟨(t.states.mem p).seqid, (t.states.mem p).stateidOther⟩⟩))
      (fun _ => True) (Undone s e) (fun _ => True) ↔
        env.allocateFH = true ∧ env.fsalToFhandle = true ∧ True :=
    makeFhandle_iff htype hk (iff_true_intro (undone_ok _))
  rw [ends_bind, ends_leaveIf, undone_serverfault]
  simp only [deref_some, next_bind]
  rw [hmake]
  cases env.attrsetAlloc <;> simp [hk]

theorem openUnchecked_iff (h : FileList s.states e l) :
    (Ends (openUnchecked s req env (some o) (some e)) (fun _ => True) (Undone s e) fun _ => True) ↔
      CleanUnchecked s req env e := by
  have hrefl : Keeps s s e := keeps_refl h
  rw [openUnchecked, CleanUnchecked, ends_bind, ends_checkAccess, ends_bind, ends_checkAccess,
    ends_bind, ends_setattr, ends_bind, ends_checkAccess]
  generalize setattrResult env req.openhow.attrProvided (s.attrs e) = r
  have hadd : Ends (addState (s.setAttrs e r.1) req env (some e) (some o) env.verifierBytes >>=
        fun added => uncheckedEnd added.server env (some o) (some e) added.val) (fun _ => True)
      (Undone s e) (fun _ => True) ↔
        (AddDone (s.setAttrs e r.1) env e ∧ Answered env) ∨
          (AddRefused (s.setAttrs e r.1) env e ∧ (s.setAttrs e r.1).attrs e = s.attrs e) :=
    addState_iff (t := s.setAttrs e r.1) h rfl env.verifierBytes fun states p htype hsame =>
      uncheckedEnd_iff (t := { s.setAttrs e r.1 with states := states }) htype
        (not_keeps hsame) p
  have hattrs : (s.setAttrs e r.1).attrs e = r.1 := Function.update_self ..
  have hdone : AddDone (s.setAttrs e r.1) env e ↔ AddDone s env e := Iff.rfl
  have hrefused : AddRefused (s.setAttrs e r.1) env e ↔ AddRefused s env e := Iff.rfl
  rw [hadd, hattrs, hdone, hrefused, undone_access, undone_access, keeps_setAttrs_iff h]
  simp only [undone_errno, keeps_setAttrs_iff h, hrefl, implies_true, true_and]
  by_cases haccess : AccessRefused req env
  · refine iff_of_true (fun hdeny hread => ?_) (.inl haccess)
    exact absurd haccess (not_or.mpr ⟨hdeny, hread⟩)
  obtain ⟨hdeny, hread⟩ := not_or.mp haccess
  rw [or_iff_right haccess, imp_iff_right hdeny, imp_iff_right hread, ← WriteRefused]
  by_cases hwrite : WriteRefused req env
  · cases hstatus : r.2 <;> simp [hwrite]
  · cases hstatus : r.2 <;> simp [hwrite]

theorem openExclusive_undone (h : FileList s.states e l) {cacheStatus : CacheStatus}
    (hgoes : Goes cacheStatus) (createverf : List UInt8) :
    Ends (openExclusive s req env (some o) ⟨some e, cacheStatus⟩ createverf) (fun _ => True)
      (Undone s e) fun _ => True := by
  have hrefl : Keeps s s e := keeps_refl h
  unfold openExclusive
  dsimp only
  split
  next =>
    obtain ⟨status, hloop⟩ := stateLoop_eq hgoes h env.digest (bumpAndLeave s (some o) 1 .inval)
      (visitExclusive s req env (some o) (some e) createverf) ()
    rw [hloop, bind_assoc, ends_bind]
    have hvisit : ∀ x : Unit, True → ∀ p ∈ visited s.states env.digest e l,
        Ends (visitExclusive s req env (some o) (some e) createverf x p) (fun _ => True)
          (Undone s e) fun _ => True := by
      intro x _ p _
      rw [visitExclusive]
      split
      next =>
        split
        next => simp [resend, hrefl]
        next => trivial
      next => trivial
    exact (ends_foldlM hvisit trivial).mono (fun _ _ => (undone_existStatus _).mpr hrefl)
      (fun _ => id) fun _ => id
  next => exact (undone_existStatus _).mpr hrefl

theorem openExisting_iff (h : FileList s.states e l) (how : CreateHow) :
    Ends (openExisting s req env (some o) ⟨some e, env.validStatus⟩ how) (fun _ => True)
      (Undone s e) (fun _ => True) ↔
      match how, env.validStatus with
      | .unchecked _, none => CleanUnchecked s req env e
      | _, _ => True := by
  have hrefl : Keeps s s e := keeps_refl h
  unfold openExisting
  dsimp only
  cases how with
  | unchecked attrmask =>
    cases hvalid : env.validStatus with
    | none => exact openUnchecked_iff h
    | some err => exact iff_of_true ((undone_existStatus _).mpr hrefl) trivial
  | guarded attrmask => exact iff_of_true ((undone_existStatus _).mpr hrefl) trivial
  | exclusive createverf =>
    exact iff_of_true (openExclusive_undone h goes_validStatus createverf) trivial
  | exclusive41 => exact iff_of_true ((undone_existStatus _).mpr hrefl) trivial

/-! ### OPEN4_CREATE of a file that is not found at first -/

theorem openCreated_iff (h : FileList s.states e l) (how : CreateHow) :
    Ends (openCreated s req env (some o) how (some e) >>= fun opened =>
        openEnd opened.server env (some o) opened.pentryNewfile opened.pfileState) (fun _ => True)
      (Undone s e) (fun _ => True) ↔ CleanCreate s req env e := by
  rw [openCreated, bind_assoc, CleanCreate]
  generalize hr : setattrResult env req.openhow.attrProvided (s.attrs e) = r
  refine (addState_iff h rfl _ (Q := r.2 = none ∧ Answered env ∧ env.getattrAfter = none)
    fun states p htype hsame => ?_).trans ?_
  · have hk : ¬ Keeps s ({ s with states := states }.setAttrs e r.1) e := not_keeps hsame
    have hend : Ends (openByName ({ s with states := states }.setAttrs e r.1) env (some e) (some o)
          >>= fun _ => openEnd ({ s with states := states }.setAttrs e r.1) env (some o) (some e)
            (some p)) (fun _ => True) (Undone s e) (fun _ => True) ↔
        Answered env ∧ env.getattrAfter = none :=
      openByName_openEnd_iff (t := { s with states := states }.setAttrs e r.1) htype hk p
    rw [bind_assoc, ends_bind, ends_setattr, hr]
    simp only [undone_errno, bind_assoc, next_bind, hend, hk]
    cases r.2 <;> simp
  · rw [and_iff_left rfl, or_comm]

theorem openCreate_iff (h : FileList s.states e l) (how : CreateHow)
    (hlooked : lookedUp env filename = ⟨none, some .notFound⟩) (hparent : ParentFound env filename)
    (hcreate : env.createLooked = some e) :
    Ends (openCreate s req env (some o) filename how >>= fun opened =>
        openEnd opened.server env (some o) opened.pentryNewfile opened.pfileState) (fun _ => True)
      (Undone s e) (fun _ => True) ↔ (env.createAccess = none → CleanCreate s req env e) := by
  have hrefl : Keeps s s e := keeps_refl h
  have hnone : ∀ how, Ends (openCreated s req env (some o) how none >>= fun opened =>
      openEnd opened.server env (some o) opened.pentryNewfile opened.pfileState) (fun _ => True)
      (Undone s e) fun _ => True := by
    intro how
    rw [openCreated, addState_none]
    exact undone_shareDenied.mpr (keeps_bumpOwner.mpr hrefl)
  rw [openCreate, bind_assoc, ends_bind, ends_cacheInodeLookup, hlooked]
  simp only [hparent, implies_true, if_true, true_implies, true_and]
  cases haccess : env.createAccess with
  | some err =>
    refine iff_of_true ?_ (by rintro ⟨⟩)
    simp only [cacheInodeCreate, haccess]
    by_cases herr : err = .entryExists
    · subst herr
      exact hnone how
    · rw [if_neg (by simpa using herr), ret_bind]
      exact (undone_errno err).mpr hrefl
  | none =>
    simp only [cacheInodeCreate, haccess, hcreate, true_implies]
    by_cases htype : s.types e = .regularFile
    · simp only [htype, if_true, next_bind]
      exact openCreated_iff h how
    · -- an entry of another type is not returned
      simp only [htype, if_false, if_true, next_bind]
      exact iff_of_true (hnone how) (.inl (.inl htype))

/-! ### OPEN4_NOCREATE -/

theorem visits_iff (h : FileList s.states e l) (p : ℕ) :
    Visits s env e p ↔ p ∈ visited s.states env.digest e l := by
  constructor
  · rintro ⟨l', h', hp⟩
    rwa [h.list.unique h'.list]
  · exact fun hp => ⟨l, h, hp⟩

theorem mem_of_mem_visited {states : StateStore} {digest : Bool}
    (hp : p ∈ visited states digest e l) : p ∈ l := by
  have hseen : ∀ l, p ∈ seen states.mem e l → p ∈ l := by
    intro l hp
    induction l with
    | nil => exact hp
    | cons q rest ih =>
      obtain rfl | hp := List.mem_cons.mp hp
      · exact .head _
      · split at hp
        next => exact .tail q (ih hp)
        next => cases hp
  cases digest with
  | true => exact hseen l hp
  | false => cases hp

/-- The state of the owner that the loop has seen last. -/
def lastOwned (s : Server A) (req : OpenRequest) (v : List ℕ) (x : Option ℕ) : Option ℕ :=
  v.foldl (fun x p => if ownedBy s req p then some p else x) x

theorem lastOwned_cases (v : List ℕ) :
    (∃ p ∈ v, ownedBy s req p = true ∧ lastOwned s req v none = some p) ∨
      ((∀ p ∈ v, ownedBy s req p = false) ∧ lastOwned s req v none = none) := by
  induction v using List.reverseRecOn with
  | nil => exact .inr ⟨nofun, rfl⟩
  | append_singleton v p ih =>
    have hlast : lastOwned s req (v ++ [p]) none =
        if ownedBy s req p then some p else lastOwned s req v none := by
      rw [lastOwned, List.foldl_append]
      rfl
    rw [hlast]
    cases howned : ownedBy s req p with
    | true => exact .inl ⟨p, by simp, howned, rfl⟩
    | false =>
      obtain ⟨q, hq, hown, hlast⟩ | ⟨hnone, hlast⟩ := ih
      · exact .inl ⟨q, List.mem_append_left _ hq, hown, hlast⟩
      · refine .inr ⟨fun q hq => ?_, hlast⟩
        obtain hq | hq := List.mem_append.mp hq
        · exact hnone q hq
        · rwa [List.mem_singleton.mp hq]

theorem visitNoCreate_iff (hrefl : Keeps s s e) (x : Option ℕ) (p : ℕ) :
    Ends (visitNoCreate s req env (some o) x p) N (Undone s e) (fun _ => True) ↔
      (denies s req env p = false → N (if ownedBy s req p then some p else x)) := by
  rw [visitNoCreate, denies, ownedBy]
  cases htyped : (s.states.mem p).typed with
  | data data =>
    cases data with
    | share sh =>
      dsimp only
      generalize (has sh.shareDeny shareRead && has req.shareAccess shareRead) = read
      generalize (has sh.shareDeny shareWrite && has req.shareAccess shareWrite) = write
      split
      next hdeny =>
        -- the access that is recorded is denied by the request
        simp [hdeny, hrefl]
      rename_i hdeny
      have hfalse : (decide ((s.states.mem p).powner ≠ req.owner) &&
          !sameOwnerVal req env (s.states.mem p).powner && has sh.shareAccess shareWrite &&
          has req.shareDeny shareWrite) = false := by
        simpa using hdeny
      rw [hfalse]
      cases read <;> cases write <;> simp [hrefl]
    | lock lock => simp
  | none => simp
  | deleg => simp
  | layout => simp

theorem scan_iff (hrefl : Keeps s s e) (v : List ℕ) (x : Option ℕ) :
    Ends (v.foldlM (visitNoCreate s req env (some o)) x) N (Undone s e) (fun _ => True) ↔
      ((∀ p ∈ v, denies s req env p = false) → N (lastOwned s req v x)) := by
  induction v generalizing x with
  | nil => simp [lastOwned]
  | cons p v ih =>
    rw [List.foldlM_cons, ends_bind, visitNoCreate_iff hrefl]
    simp only [ih, List.forall_mem_cons, and_imp]
    rfl

theorem notRegular_ne_ok (h : notRegular type = some status) : status ≠ .ok := by
  cases type <;> cases h <;> rintro ⟨⟩

theorem notRegular_eq_none_iff : notRegular type = none ↔ type = .regularFile := by
  cases type <;> simp [notRegular]

theorem not_sameStates_modify (h : FileList s.states e l) (hp : p ∈ l) :
    ¬ SameStates s.states (s.states.modify p fun st => { st with seqid := st.seqid + 1 }) e := by
  rintro ⟨l', hlist, -, hmem⟩
  have hsame := hmem p (h.list.unique hlist ▸ hp)
  rw [mem_modify, if_pos rfl] at hsame
  have hseqid : (s.states.mem p).seqid + 1 = (s.states.mem p).seqid :=
    congrArg StateNode.seqid hsame
  have hnat := congrArg UInt32.toNat hseqid
  rw [UInt32.toNat_add, UInt32.toNat_one] at hnat
  omega

theorem reuseOrAdd_iff (h : FileList s.states e l) (htype : s.types e = .regularFile)
    {sameOwner : Option ℕ} (hmem : ∀ p, sameOwner = some p → p ∈ l) :
    Ends (reuseOrAdd s req env (some o) (some e) sameOwner >>= fun added => do
        openByName added.server env (some e) (some o)
        openEnd added.server env (some o) (some e) added.val) (fun _ => True)
      (Undone s e) (fun _ => True) ↔
      ((sameOwner ≠ none ∨ AddDone s env e) ∧ Answered env ∧ env.getattrAfter = none) ∨
        (sameOwner = none ∧ AddRefused s env e) := by
  cases sameOwner with
  | some p =>
    have hk := not_sameStates_modify h (hmem p rfl)
    simp only [reuseOrAdd, next_bind]
    rw [openByName_openEnd_iff (t := { s with
      states := s.states.modify p fun st => { st with seqid := st.seqid + 1 } }) htype
      (not_keeps hk) p]
    simp
  | none =>
    rw [reuseOrAdd, addState_iff h rfl _ fun states p htype hsame =>
      openByName_openEnd_iff (t := { s with states := states }) htype (not_keeps hsame) p]
    simp

theorem afterScan_iff (h : FileList s.states e l) (htype : s.types e = .regularFile) {v : List ℕ}
    (hv : ∀ p ∈ v, p ∈ l) :
    Ends (reuseOrAdd s req env (some o) (some e) (lastOwned s req v none) >>= fun added => do
        openByName added.server env (some e) (some o)
        openEnd added.server env (some o) (some e) added.val) (fun _ => True)
      (Undone s e) (fun _ => True) ↔
      (((∃ p, p ∈ v ∧ ownedBy s req p = true) ∨ AddDone s env e) ∧ Answered env ∧
        env.getattrAfter = none) ∨
        ((∀ p, p ∈ v → ownedBy s req p = false) ∧ AddRefused s env e) := by
  obtain ⟨p, hp, howned, hlast⟩ | ⟨hnone, hlast⟩ := lastOwned_cases v
  · rw [hlast, reuseOrAdd_iff h htype]
    · have hforall : ¬ ∀ p, p ∈ v → ownedBy s req p = false := by
        intro hnone
        rw [hnone p hp] at howned
        cases howned
      have hexists : ∃ p, p ∈ v ∧ ownedBy s req p = true := ⟨p, hp, howned⟩
      simp [hexists, hforall]
    · rintro q hq
      cases hq
      exact hv p hp
  · have hexists : ¬ ∃ p, p ∈ v ∧ ownedBy s req p = true := by
      rintro ⟨p, hp, howned⟩
      rw [hnone p hp] at howned
      cases howned
    rw [hlast, reuseOrAdd_iff h htype (by simp), and_iff_right hnone, or_iff_right hexists]
    simp

theorem openNoCreate_iff (h : FileList s.states e l)
    (hlooked : lookedUp env filename = ⟨some e, env.validStatus⟩)
    (hparent : ParentFound env filename) :
    Ends (openNoCreate s req env (some o) filename >>= fun opened =>
        openEnd opened.server env (some o) opened.pentryNewfile opened.pfileState) (fun _ => True)
      (Undone s e) (fun _ => True) ↔ CleanNoCreate s req env e := by
  have hrefl : Keeps s s e := keeps_refl h
  rw [openNoCreate, bind_assoc, ends_bind, ends_cacheInodeLookup, hlooked]
  simp only [hparent, implies_true, true_implies, true_and, deref_some, next_bind]
  have hgoes : Goes env.validStatus := goes_validStatus
  obtain ⟨status, hloop⟩ := stateLoop_eq hgoes h env.digest
    (.ret (s, .fail .inval)) (visitNoCreate s req env (some o)) none
  simp only [hloop, bind_assoc, next_bind]
  rw [ends_bind, ends_leaveOn, ends_bind, ends_checkAccess, ends_bind, ends_checkAccess, ends_bind,
    ends_checkAccess, ends_bind, ends_leaveIf, ends_bind, scan_iff hrefl, undone_access]
  simp only [hrefl, implies_true, true_and]
  rw [and_iff_right fun err herr => (undone_fail (notRegular_ne_ok herr)).mpr hrefl,
    notRegular_eq_none_iff, CleanNoCreate]
  simp only [visits_iff h]
  generalize hv : visited s.states env.digest e l = v
  by_cases htype : s.types e = .regularFile
  · rw [imp_iff_right htype, or_iff_right (not_not_intro htype)]
    by_cases haccess : AccessRefused req env
    · refine iff_of_true (fun hdeny hread => ?_) (.inl haccess)
      exact absurd haccess (not_or.mpr ⟨hdeny, hread⟩)
    obtain ⟨hdeny, hread⟩ := not_or.mp haccess
    rw [imp_iff_right hdeny, imp_iff_right hread, or_iff_right haccess, ← WriteRefused]
    by_cases hwrite : WriteRefused req env
    · exact iff_of_true (fun h => absurd hwrite h) (.inl hwrite)
    rw [imp_iff_right hwrite, or_iff_right hwrite]
    by_cases hmode : env.mode0 = true
    · exact iff_of_true (fun h => absurd hmode h) (.inl hmode)
    rw [imp_iff_right hmode, or_iff_right hmode]
    by_cases hdenied : ∃ p, p ∈ v ∧ denies s req env p = true
    · refine iff_of_true (fun hpass => ?_) (.inl hdenied)
      obtain ⟨p, hp, hdenies⟩ := hdenied
      rw [hpass p hp] at hdenies
      cases hdenies
    · have hpass : ∀ p ∈ v, denies s req env p = false := fun p hp =>
        Bool.eq_false_of_not_eq_true fun hdenies => hdenied ⟨p, hp, hdenies⟩
      rw [imp_iff_right hpass, or_iff_right hdenied]
      exact afterScan_iff h htype fun p hp => mem_of_mem_visited (hv ▸ hp)
  · exact iff_of_true (fun h => absurd h htype) (.inl htype)

/-! ## The function -/

theorem existing_cases (hparent : ParentFound env filename) (he : existing env filename = some e) :
    lookedUp env filename = ⟨some e, env.validStatus⟩ ∨
      (lookedUp env filename = ⟨none, some .notFound⟩ ∧ env.createLooked = some e) := by
  rw [existing] at he
  obtain ⟨e', hlooked⟩ | ⟨err, hlooked⟩ := lookedUp_cases hparent
  · rw [hlooked] at he ⊢
    cases he
    exact .inl rfl
  · rw [hlooked] at he ⊢
    dsimp only at he
    split at he
    next hnotFound =>
      cases hnotFound
      exact .inr ⟨rfl, he⟩
    next => cases he

theorem openHow_iff (h : FileList s.states e l) (he : existing env filename = some e) :
    Ends (openHow s req env (some o) filename) (fun _ => True) (Undone s e) (fun _ => True) ↔
      (ParentFound env filename → CleanHow s req env filename e) := by
  by_cases hparent : ParentFound env filename
  · rw [imp_iff_right hparent, openHow, CleanHow]
    obtain hlooked | ⟨hlooked, hcreate⟩ := existing_cases hparent he
    · cases hopen : req.openhow with
      | create how =>
        dsimp only
        rw [openCreate, bind_assoc, ends_bind, ends_cacheInodeLookup, hlooked]
        simp only [hparent, implies_true, true_implies, true_and, validStatus_ne_notFound, if_false]
        rw [ends_bind, ends_stop, openExisting_iff h how]
        cases how <;> cases env.validStatus <;> rfl
      | noCreate =>
        dsimp only
        rw [openNoCreate_iff h hlooked hparent, hlooked]
      | other opentype =>
        exact iff_of_true (undone_inval.mpr (keeps_bumpOwner.mpr (keeps_refl h))) trivial
    · cases hopen : req.openhow with
      | create how =>
        dsimp only
        rw [openCreate_iff h how hlooked hparent hcreate, hlooked]
      | noCreate =>
        dsimp only
        rw [openNoCreate, bind_assoc, ends_bind, ends_cacheInodeLookup, hlooked]
        simp [hparent, nfs4Errno, keeps_refl h]
      | other opentype =>
        exact iff_of_true (undone_inval.mpr (keeps_bumpOwner.mpr (keeps_refl h))) trivial
  · refine iff_of_true ?_ fun h => absurd h hparent
    rw [openHow]
    cases req.openhow with
    | create how =>
      dsimp only
      rw [openCreate, bind_assoc, ends_bind, ends_cacheInodeLookup]
      exact ⟨fun _ => trivial, fun h => absurd h hparent⟩
    | noCreate =>
      dsimp only
      rw [openNoCreate, bind_assoc, ends_bind, ends_cacheInodeLookup]
      exact ⟨fun _ => trivial, fun h => absurd h hparent⟩
    | other opentype => exact undone_inval.mpr (keeps_bumpOwner.mpr (keeps_refl h))

theorem exists_takeOwner :
    ∃ owners ownerCounter, takeOwner s req =
      { s with
        owners := owners
        ownerCounter := ownerCounter } := by
  rw [takeOwner]
  split
  next => exact ⟨_, _, rfl⟩
  split
  next => exact ⟨_, _, rfl⟩
  next => exact ⟨_, _, rfl⟩

theorem some_of_orElse {first second : Option Nfsstat4} (h : (first <|> second) = some status) :
    first = some status ∨ second = some status := by
  cases first with
  | none => exact .inr h
  | some _ => exact .inl h

theorem checkClaimNull_ne_ok (h : checkClaimNull fsalMaxNameLen s req env filename = some status) :
    status ≠ .ok := by
  obtain h | h := some_of_orElse h
  · rw [checkNameLength] at h
    split at h
    next => cases h; rintro ⟨⟩
    next => split at h <;> cases h; rintro ⟨⟩
  obtain h | h := some_of_orElse h
  · rw [checkFattr] at h
    split at h
    next => cases h
    split at h
    next => cases h; rintro ⟨⟩
    next => split at h <;> cases h; rintro ⟨⟩
  obtain h | h := some_of_orElse h
  · obtain ⟨err, -, rfl⟩ := Option.map_eq_some_iff.mp h
    exact err.errno_ne_ok
  obtain h | h := some_of_orElse h
  · unfold checkParent at h
    split at h <;> cases h <;> rintro ⟨⟩
  · split at h <;> cases h
    rintro ⟨⟩

theorem convertFattr_ne_ok {openhow : OpenFlag} (h : convertFattr openhow env = some status) :
    status ≠ .ok := by
  rw [convertFattr] at h
  split at h
  next => split at h <;> cases h <;> nofun
  next => cases h

theorem openClaimNull_iff (h : FileList s.states e l) (he : existing env filename = some e) :
    Ends (openClaimNull fsalMaxNameLen s req env filename) (fun _ => True) (Undone s e)
      (fun _ => True) ↔
      (checkClaimNull fsalMaxNameLen s req env filename = none → OwnerFits s req env →
        LooksUp s req env → ParentFound env filename → CleanHow s req env filename e) := by
  have hrefl : Keeps s s e := keeps_refl h
  have hrefuse : Keeps s (refuseOwner s env) e := by
    refine ⟨by rw [attrs_refuseOwner], ?_⟩
    rw [states_refuseOwner]
    exact hrefl.states
  obtain ⟨owners, ownerCounter, htake⟩ :
    ∃ owners ownerCounter, takeOwner s req =
      { s with
        owners := owners
        ownerCounter := ownerCounter } := exists_takeOwner
  have hhow : Ends (openHow { s with owners := owners, ownerCounter := ownerCounter } req env
      (some req.owner) filename) (fun _ => True)
      (Undone { s with owners := owners, ownerCounter := ownerCounter } e) (fun _ => True) ↔
        (ParentFound env filename → CleanHow { s with
          owners := owners
          ownerCounter := ownerCounter } req env filename e) :=
    openHow_iff h he
  have hundone : Undone { s with owners := owners, ownerCounter := ownerCounter } e =
      Undone s e := by
    funext r
    exact propext (imp_congr_right fun _ =>
      ⟨fun h => ⟨h.attrs, h.states⟩, fun h => ⟨h.attrs, h.states⟩⟩)
  have hclean : CleanHow { s with owners := owners, ownerCounter := ownerCounter } req env
      filename e ↔ CleanHow s req env filename e := Iff.rfl
  rw [hundone, hclean] at hhow
  rw [openClaimNull, ends_bind, ends_leaveOn, ends_bind, ends_openOwner, htake,
    and_iff_right fun status h => (undone_fail (checkClaimNull_ne_ok h)).mpr hrefl]
  refine imp_congr_right fun _ => ?_
  dsimp only
  rw [ends_bind, ends_leaveOn, ends_bind, ends_leaveOn, hhow]
  have hkeep : Keeps s { s with owners := owners, ownerCounter := ownerCounter } e :=
    ⟨rfl, hrefl.states⟩
  constructor
  · rintro ⟨-, -, hrest⟩ hfits ⟨htaken, hbefore, hconvert, -⟩
    exact ((hrest hfits htaken).2 hbefore).2 hconvert
  · intro h
    refine ⟨fun _ => trivial, fun _ _ => undone_serverfault.mpr hrefuse, fun hfits htaken =>
      ⟨fun err _ => (undone_errno err).mpr hkeep, fun hbefore =>
        ⟨fun status hstatus => (undone_fail (convertFattr_ne_ok hstatus)).mpr hkeep,
          fun hconvert hparent => ?_⟩⟩⟩
    by_cases hopen : ∀ opentype, req.openhow ≠ .other opentype
    · exact h hfits ⟨htaken, hbefore, hconvert, hopen⟩ hparent
    · obtain ⟨opentype, hopen⟩ := not_forall.mp hopen
      rw [CleanHow, not_not.mp hopen]
      trivial

/-- **A failed OPEN leaves the file alone exactly under the condition.** -/
theorem leavesAlone_iff (hl : Listed s.states) :
    LeavesAlone fsalMaxNameLen s req env ↔ Clean fsalMaxNameLen s req env := by
  rw [LeavesAlone, Clean]
  refine forall_congr' fun filename => forall_congr' fun e => ?_
  obtain ⟨l, h⟩ := hl e
  by_cases he : existing env filename = some e
  · have hends : (∀ t res, nfs4OpOpen fsalMaxNameLen s req env = .ret (t, res) →
        res.status ≠ .ok → Keeps s t e) ↔
        Ends (nfs4OpOpen fsalMaxNameLen s req env) (fun _ => True) (Undone s e) fun _ => True := by
      rw [ends_iff_forall_ret, Prod.forall]
      rfl
    rw [imp_iff_right he, hends, Reaches, nfs4OpOpen]
    simp only [he, true_implies]
    by_cases hplain : env.currentFH = .plain ∧ env.currentEntry = true
    · simp only [hplain, if_true, true_and]
      by_cases hclaim : req.claim = .null filename
      · simp only [hclaim, true_implies, true_and, openClaim]
        exact openClaimNull_iff h he
      · exact iff_of_true (fun h => absurd h hclaim) fun hreach => absurd hreach.1 hclaim
    refine iff_of_true (fun _ => ?_) fun hreach => absurd ⟨hreach.1, hreach.2.1⟩ hplain
    have hsame : ∀ res, Undone s e (s, res) := fun _ _ => keeps_refl h
    split
    next => exact hsame _
    next => exact hsame _
    next => exact hsame _
    next => exact hsame _
    next => exact hsame _
    rename_i hfh
    split
    next hentry => exact absurd ⟨hfh, hentry⟩ hplain
    next => exact hsame _
  · exact iff_of_true (fun _ h => absurd h he) fun _ _ _ _ h => absurd h he

end

/-! ## Requests -/

/-- An OPEN that sets the size to zero, of a file that the caller may not write. -/
def truncates : OpenRequest := openWrite (.create (.unchecked [16])) [97] (by decide)

/-- The caller may not write the file, whose attributes are its size. -/
def mayNotWrite : Calls ℕ :=
  { callsSucceed with
    writeAccess := false
    setattr := fun _ => (0, none) }

/-- The file 1 has a size of 5 bytes. -/
def fiveBytes : Server ℕ := { idleServer with attrs := fun _ => 5 }

/-- The file 7 has a size of 5 bytes, and two owners have opened it. -/
def openedFile : Server ℕ :=
  { idleServer with states := twoShares.store, attrs := fun _ => 5 }

theorem ownedBy_openedFile (p : ℕ) :
    ownedBy openedFile (openWrite .noCreate [97] (by decide)) p = false :=
  match p with
  | 0 => rfl
  | 1 => rfl
  | _ + 2 => rfl

/-- Without memory for a state a third owner is refused, and the file is as before. -/
theorem leavesAlone_noCreate :
    LeavesAlone 255 openedFile (openWrite .noCreate [97] (by decide))
      { callsSucceed with looked := .ok 7, add := ⟨false, 1, some ⟨1, 7, 3⟩, true⟩ } := by
  refine (leavesAlone_iff (s := openedFile) fun file => ⟨_, fileList_twoShares file⟩).mpr ?_
  rintro filename e ⟨-, -, hclaim, -⟩ - - - he
  cases hclaim
  cases he
  refine Or.inr (Or.inr (Or.inr (Or.inr (Or.inr (Or.inr ⟨fun p _ => ownedBy_openedFile p, ?_⟩)))))
  exact Or.inr (Or.inl ⟨rfl, Or.inr rfl⟩)

/-- The file is truncated, and then the caller is refused. -/
theorem truncates_not_leavesAlone :
    ¬ ∀ (fsalMaxNameLen : ℕ) (s : Server ℕ) (req : OpenRequest) (env : Calls ℕ), Listed s.states →
      LeavesAlone fsalMaxNameLen s req env := by
  intro h
  have hkeeps := h 255 fiveBytes truncates mayNotWrite listed_idleServer [120] 1 rfl rfl
    _ _ rfl nofun
  exact absurd hkeeps.attrs (by decide)

end CloudNfs.Nfs4.OpenFile
