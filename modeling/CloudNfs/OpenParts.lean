import CloudNfs.OpenFile

/-!
# The parts of `nfs4_op_open`

What the pieces of `nfs4_op_open` do, each said once for the results about the whole.

* `ends_openOwner`, `ends_cacheInodeLookup`, … — the pieces without a loop, as rules for
  `Flow.Ends`.
* `AddEnd`, `addState_end` — a share is refused and the states of the file are as before, it is
  refused and the states are different, or it is added.
-/

namespace CloudNfs.Nfs4.OpenFile

open DoublyLinked Pointers CloudNfs.Flow

section

variable {A α : Type} {s : Server A} {req : OpenRequest} {env : Calls A} {N : α → Prop}
  {R : Server A × OpRes → Prop} {F : Fault → Prop} {f : Pointer} {e : ℕ} {o : OwnerName}

/-! ## The owner -/

/-- The string of the owner fits, and if the owner is new, so does a zero behind it. -/
def OwnerFits (s : Server A) (req : OpenRequest) (env : Calls A) : Prop :=
  req.owner.ownerVal.length ≤ maxNamLen ∧
    (s.owners req.owner = none → env.ownerAlloc = true → env.ownerNameAlloc = true →
      req.owner.ownerVal.length < maxNamLen)

def OwnerTaken (s : Server A) (req : OpenRequest) (env : Calls A) : Prop :=
  s.owners req.owner = none →
    env.ownerAlloc = true ∧ env.ownerNameAlloc = true ∧ env.ownerSet = true

def takeOwner (s : Server A) (req : OpenRequest) : Server A :=
  match s.owners req.owner with
  | none =>
    { s with
      ownerCounter := s.ownerCounter + 1
      owners := Function.update s.owners req.owner (some
        { name := req.owner, confirmed := false, seqid := 0, counter := s.ownerCounter + 1,
          relatedOwner := none }) }
  | some o =>
    if req.seqid = 0 then
      { s with
        owners := Function.update s.owners req.owner (some
          { o with seqid := 0, confirmed := false }) }
    else s

def refuseOwner (s : Server A) (env : Calls A) : Server A :=
  if env.ownerAlloc = false ∨ env.ownerNameAlloc = false then s
  else { s with ownerCounter := s.ownerCounter + 1 }

@[simp] theorem states_takeOwner : (takeOwner s req).states = s.states := by
  rw [takeOwner]
  split
  next => rfl
  next => split <;> rfl

@[simp] theorem states_refuseOwner : (refuseOwner s env).states = s.states := by
  rw [refuseOwner]
  split <;> rfl

@[simp] theorem attrs_refuseOwner : (refuseOwner s env).attrs = s.attrs := by
  rw [refuseOwner]
  split <;> rfl

/-- **The open owner**: the string overruns `owner_val`, or the owner is taken or refused. -/
theorem ends_openOwner {N : With A (Option OwnerName) → Prop} :
    (openOwner s req env).Ends N R F ↔
      (¬ OwnerFits s req env → F .ownerOverrun) ∧
      (OwnerFits s req env → ¬ OwnerTaken s req env →
        R (refuseOwner s env, .fail .serverfault)) ∧
      (OwnerFits s req env → OwnerTaken s req env → N ⟨takeOwner s req, some req.owner⟩) := by
  simp only [OwnerFits, OwnerTaken, openOwner, takeOwner, refuseOwner, ends_bind, copyToOwnerVal,
    endOwnerVal]
  by_cases hle : req.owner.ownerVal.length ≤ maxNamLen
  · cases howner : s.owners req.owner with
    | none =>
      by_cases halloc : env.ownerAlloc = false ∨ env.ownerNameAlloc = false
      · obtain h | h := halloc
        · simp [hle, h]
        · simp [hle, h]
      obtain ⟨h, h'⟩ : env.ownerAlloc = true ∧ env.ownerNameAlloc = true := by
        simpa using halloc
      by_cases hlt : req.owner.ownerVal.length < maxNamLen
      · simp [hle, h, h', hlt]
      · simp [hle, h, h', hlt]
    | some o =>
      by_cases hseqid : req.seqid = 0
      · simp [hle, hseqid]
      · simp [hle, hseqid]
  · simp [hle]

/-! ## The pieces without loops -/

@[simp] theorem ends_bumpAndLeave {n : UInt32} {status : Nfsstat4} :
    (bumpAndLeave s (some o) n status : Open A α).Ends N R F ↔
      R (s.bumpOwner o n, .fail status) := by
  simp [bumpAndLeave]

@[simp] theorem ends_checkAccess {made allowed : Bool} {N : Unit → Prop} :
    (checkAccess s f (some e) made allowed).Ends N R F ↔
      (made = true ∧ allowed = false → R (s, .fail .access)) ∧
      (¬ (made = true ∧ allowed = false) → N ()) := by
  cases made <;> cases allowed <;> simp [checkAccess, deref]

/-- What `cache_inode_setattr` makes of the attributes, where it is called. -/
def setattrResult (env : Calls A) (provided : Bool) (attrs : A) : A × CacheStatus :=
  if provided then env.setattr attrs else (attrs, none)

@[simp] theorem ends_setattr {provided : Bool} {N : Server A → Prop} :
    (setattr s f (some e) provided env).Ends N R F ↔
      (∀ err, (setattrResult env provided (s.attrs e)).2 = some err →
        R (s.setAttrs e (setattrResult env provided (s.attrs e)).1, .fail err.errno)) ∧
      ((setattrResult env provided (s.attrs e)).2 = none →
        N (s.setAttrs e (setattrResult env provided (s.attrs e)).1)) := by
  have hself : s.setAttrs e (s.attrs e) = s := by
    rw [Server.setAttrs, Function.update_eq_self]
  cases provided <;> simp [setattr, setattrResult, deref, hself]

variable {pentry : Option ℕ} {filename : List UInt8}

@[simp] theorem ends_openByName {N : Unit → Prop} :
    (openByName s env pentry (some o)).Ends N R F ↔
      (cacheInodeOpenByName s env pentry = false → R (s.bumpOwner o 1, .fail .access)) ∧
      (cacheInodeOpenByName s env pentry = true → N ()) := by
  cases h : cacheInodeOpenByName s env pentry <;> simp [openByName, h]

@[simp] theorem ends_makeFhandle {N : Unit → Prop} :
    (makeFhandle s env pentry).Ends N R F ↔
      (∀ err, cacheInodeGetFsalHandle s pentry = some err → R (s, .fail err.errno)) ∧
      (cacheInodeGetFsalHandle s pentry = none →
        (env.allocateFH = false → R (s, .fail (.other 10018))) ∧
        (env.allocateFH = true → (env.fsalToFhandle = false → R (s, .fail .serverfault)) ∧
          (env.fsalToFhandle = true → N ()))) := by
  simp [makeFhandle]

/-! ## The lookup -/

/-- What `cache_inode_lookup` gives when it goes well. -/
def lookedUp (env : Calls A) (filename : List UInt8) : Looked :=
  if filename = [46] then ⟨some env.pentryParent, env.validStatus⟩
  else if filename = [46, 46] then ⟨env.lookupp, env.validStatus⟩
  else
    match env.looked with
    | .ok e => ⟨some e, env.validStatus⟩
    | .error err => ⟨none, some err⟩

/-- The name is not `..`, or the parent is found. -/
def ParentFound (env : Calls A) (filename : List UInt8) : Prop :=
  filename = [46, 46] → env.lookupp ≠ none

theorem ends_cacheInodeLookup {N : Looked → Prop} :
    (cacheInodeLookup env filename).Ends N R F ↔
      (¬ ParentFound env filename → F .nullAttributes) ∧
      (ParentFound env filename → N (lookedUp env filename)) := by
  rw [cacheInodeLookup, lookedUp, ParentFound]
  by_cases hdot : filename = [46]
  · simp [hdot]
  · by_cases hdotdot : filename = [46, 46]
    · cases hlookupp : env.lookupp <;> simp [hdotdot, deref]
    · cases hlooked : env.looked <;> simp [hdot, hdotdot]

/-- A status with which a loop does not end at once. -/
def Goes (cacheStatus : CacheStatus) : Prop :=
  cacheStatus ≠ some .stateError ∧ cacheStatus ≠ some .invalidArgument

theorem goes_validStatus : Goes env.validStatus := by
  rw [Calls.validStatus]
  split
  next => exact ⟨nofun, nofun⟩
  next => exact ⟨by decide, by decide⟩

theorem validStatus_ne_notFound : env.validStatus ≠ some .notFound := by
  rw [Calls.validStatus]
  split
  next => nofun
  next => decide

theorem lookedUp_cases (h : ParentFound env filename) :
    (∃ e, lookedUp env filename = ⟨some e, env.validStatus⟩) ∨
      ∃ err, lookedUp env filename = ⟨none, some err⟩ := by
  rw [lookedUp]
  split
  next => exact .inl ⟨_, rfl⟩
  split
  next hdotdot =>
    obtain ⟨e, he⟩ := Option.ne_none_iff_exists'.mp (h hdotdot)
    exact .inl ⟨e, by rw [he]⟩
  split
  next e _ => exact .inl ⟨e, rfl⟩
  next err _ => exact .inr ⟨err, rfl⟩

end

section

variable {A σ : Type} {s s' : StateStore} {file : ℕ} {l : List ℕ}

/-! ## The loops -/

/-- The states that a loop visits: it stops behind one that does not know the file. -/
def seen (mem : ℕ → StateNode) (file : ℕ) : List ℕ → List ℕ
  | [] => []
  | p :: rest => p :: if (mem p).pentry = some file then seen mem file rest else []

/-- `cache_status` behind a loop. -/
def seenStatus (mem : ℕ → StateNode) (file : ℕ) (cacheStatus : CacheStatus) : List ℕ → CacheStatus
  | [] => cacheStatus
  | p :: rest =>
    if (mem p).pentry = some file then seenStatus mem file cacheStatus rest else some .stateError

/-- The states that the loops of `nfs4_op_open` visit. -/
def visited (s : StateStore) (digest : Bool) (file : ℕ) (l : List ℕ) : List ℕ :=
  if digest then seen s.mem file l else []

variable {cacheStatus : CacheStatus} {env : Calls A} {req : OpenRequest} {powner : OwnerName}

theorem stateLoop_segment {invalid : Open A Empty} {visit : σ → ℕ → Open A σ} {n : ℕ}
    {before first last : Option ℕ} (hgoes : Goes cacheStatus)
    (h : Segment (links s.mem) before first l last none)
    (hfirst : cacheInodeStateIterate s true (some file) before = .ok first) (hn : l.length < n)
    (x : σ) :
    stateLoop s true (some file) invalid visit n cacheStatus before x =
      (do
        let x ← (seen s.mem file l).foldlM visit x
        .next (seenStatus s.mem file cacheStatus l, x)) := by
  induction l generalizing n before first x with
  | nil =>
    obtain ⟨n, rfl⟩ := Nat.exists_eq_succ_of_ne_zero (Nat.ne_zero_of_lt hn)
    obtain ⟨-, hnone⟩ := segment_nil.mp h
    simp only [stateLoop, hfirst, ← hnone, if_neg hgoes.1, if_neg hgoes.2, seen, seenStatus,
      List.foldlM_nil, pure_eq, next_bind]
  | cons p rest ih =>
    obtain ⟨n, rfl⟩ := Nat.exists_eq_succ_of_ne_zero (Nat.ne_zero_of_lt hn)
    obtain ⟨rfl, -, hrest⟩ := segment_cons.mp h
    simp only [stateLoop, hfirst, if_neg hgoes.1, if_neg hgoes.2, seen, seenStatus,
      List.foldlM_cons, bind_assoc]
    congr 1
    funext y
    have hlength : rest.length < n := Nat.lt_of_succ_lt_succ hn
    by_cases hp : (s.mem p).pentry = some file
    · rw [ih hrest (by simp [cacheInodeStateIterate, hp, links]) hlength]
      simp only [hp, if_true]
    · -- the next call finds that the state is not one of the file
      obtain ⟨n, rfl⟩ := Nat.exists_eq_succ_of_ne_zero (Nat.ne_zero_of_lt hlength)
      simp [stateLoop, cacheInodeStateIterate, hp]

theorem stateLoop_eq (hgoes : Goes cacheStatus) (h : FileList s file l) (digest : Bool)
    (invalid : Open A Empty) (visit : σ → ℕ → Open A σ) (x : σ) :
    ∃ cacheStatus', stateLoop s digest (some file) invalid visit (loopFuel s) cacheStatus none x =
      (do
        let x ← (visited s digest file l).foldlM visit x
        .next (cacheStatus', x)) := by
  cases digest with
  | true =>
    exact ⟨_, stateLoop_segment hgoes h.list rfl (Nat.lt_succ_of_le h.length_le) x⟩
  | false => exact ⟨some .stateError, rfl⟩

/-! ## A state more -/

/-- The list of states of a file and what they record are as before. -/
def SameStates (s s' : StateStore) (file : ℕ) : Prop :=
  ∃ l, IsList (links s.mem) (s.head file) l ∧ IsList (links s'.mem) (s'.head file) l ∧
    ∀ p ∈ l, s'.mem p = s.mem p

theorem sameStates_of_eq (h : FileList s file l) (hhead : s'.head file = s.head file)
    (hmem : ∀ p ∈ l, s'.mem p = s.mem p) : SameStates s s' file := by
  refine ⟨l, h.list, ?_, hmem⟩
  rw [hhead]
  refine h.list.frame fun p hp => ?_
  simp only [links, hmem p hp, and_self]

theorem sameStates_refl (h : FileList s file l) : SameStates s s file :=
  sameStates_of_eq h rfl fun _ _ => rfl

theorem not_sameStates_of_linked {s1 : StateStore} {p : ℕ} (hl : Linked s1 s' l file p)
    (h : FileList s file l) (hframe : SameBut s s1) (hp : p ∉ l) : ¬ SameStates s s' file := by
  rintro ⟨l', hlist, hlist', hmem⟩
  obtain rfl := h.list.unique hlist
  by_cases hnil : l = []
  · have hhead := hlist'.head
    rw [hl.head, Function.update_self, if_pos hnil, hnil] at hhead
    cases hhead
  obtain ⟨l1, q, rfl⟩ := (List.eq_nil_or_concat' l).resolve_left hnil
  have hq : (l1 ++ [q]).getLast? = some q := List.getLast?_concat
  have hql : q ∈ l1 ++ [q] := List.mem_of_getLast? hq
  have hqp : q ≠ p := fun hqp => hp (hqp ▸ hql)
  have hnext : (s.mem q).next = none := (IsList.neighbours h.list).1
  have hsame := hmem q hql
  rw [hl.old q hqp, if_pos hq, hframe.mem] at hsame
  have := congrArg StateNode.next hsame
  rw [hnext] at this
  cases this

/-- No state is linked: the entry is no regular file, there is no state to take, or the stateid of
the first state cannot be built. -/
def AddRefused (s : Server A) (env : Calls A) (file : ℕ) : Prop :=
  s.types file ≠ .regularFile ∨ NoState s.states env.client env.add ∨
    (s.states.head file = none ∧ env.add.other = none)

def AddDone (s : Server A) (env : Calls A) (file : ℕ) : Prop :=
  s.types file = .regularFile ∧ ¬ NoState s.states env.client env.add ∧
    env.add.other ≠ none ∧ env.add.stored = true

theorem AddDone.not_addRefused {s : Server A} (h : AddDone s env file) :
    ¬ AddRefused s env file := by
  rintro (htype | hno | ⟨-, hother⟩)
  · exact htype h.1
  · exact h.2.1 hno
  · exact h.2.2.1 hother

/-- The ways through `cache_inode_add_state` in `nfs4_op_open`. -/
inductive AddEnd (s : Server A) (env : Calls A) (file : ℕ) (powner : OwnerName) :
    Open A (With A (Option ℕ)) → Prop where
  | refused {states : StateStore} : AddRefused s env file → SameStates s.states states file →
    AddEnd s env file powner
      (.ret ({ s with states := states }.bumpOwner powner 1, .fail .shareDenied))
  | late {states : StateStore} : ¬ AddRefused s env file → ¬ AddDone s env file →
    ¬ SameStates s.states states file →
    AddEnd s env file powner
      (.ret ({ s with states := states }.bumpOwner powner 1, .fail .shareDenied))
  | done {states : StateStore} {p : ℕ} : AddDone s env file →
    ¬ SameStates s.states states file →
    AddEnd s env file powner (.next ⟨{ s with states := states }, some p⟩)

theorem addState_end {s : Server A} (h : FileList s.states file l) (oexclVerifier : List UInt8) :
    AddEnd s env file powner
      (addState s req env (some file) (some powner) oexclVerifier) := by
  rw [addState, cacheInodeAddStateCall]
  by_cases htype : s.types file = .regularFile
  · have hchecked : (addCall req env (some file) (some powner) oexclVerifier).checked s.regular =
        some ⟨file, .data (.share ⟨oexclVerifier, req.shareAccess, req.shareDeny, 0⟩), powner,
          env.client⟩ := by
      simp [AddCall.checked, addCall, Server.regular, htype]
    rw [hchecked]
    generalize hargs : Pointers.AddArgs.mk file _ powner env.client = args
    have hfile : args.pentry = file := by rw [← hargs]
    have hclient : args.client = env.client := by rw [← hargs]
    have hdeleg : args.typed ≠ .deleg := by
      rw [← hargs]
      rintro ⟨⟩
    subst hfile
    obtain ⟨⟨states, status, r⟩, hadd⟩ :
      ∃ r, Pointers.cacheInodeAddState s.states args env.add = some r := h.returns
    simp only [hadd, Option.bind_eq_bind, Option.bind_some]
    have hsome : ∀ {q states'}, s.states.getPrealloc args.client env.add = some (q, states') →
        ¬ NoState s.states env.client env.add := by
      intro q states' hget hno
      rw [← hclient, ← getPrealloc_eq_none_iff, hget] at hno
      cases hno
    cases FileList.addCases (t := ⟨s.states, fun _ => l⟩) h hadd with
    | noMemory hnone =>
      refine .refused (.inr (.inl ?_)) (sameStates_refl h)
      rw [← hclient]
      exact getPrealloc_eq_none_iff.mp (Option.isNone_iff_eq_none.mp hnone)
    | conflict _ _ hconflict => exact absurd hconflict hdeleg
    | noStateid hget hnone hother =>
      have hframe := getPrealloc_frame hget
      refine .refused (.inr (.inr ⟨hnone, hother⟩)) ?_
      refine sameStates_of_eq h (congrFun hframe.head _) fun q hq => ?_
      rw [mem_modify, if_neg, hframe.mem]
      rintro rfl
      exact (h.getPrealloc hget).2 hq
    | late hget hlinked _ hother hstored =>
      refine .late ?_ ?_ ?_
      · rintro (hirregular | hno | ⟨hnone, hno⟩)
        · exact hirregular htype
        · exact hsome hget hno
        · exact hother hnone hno
      · rintro ⟨-, -, hne, hset⟩
        rw [hstored hne] at hset
        cases hset
      · exact not_sameStates_of_linked hlinked h (getPrealloc_frame hget) (h.getPrealloc hget).2
    | whole hget hother hstored hadded =>
      refine .done ⟨htype, hsome hget, ?_, hstored⟩ ?_
      · rw [hother]
        rintro ⟨⟩
      · exact not_sameStates_of_linked hadded.linked h (getPrealloc_frame hget)
          (h.getPrealloc hget).2
  · have hchecked : (addCall req env (some file) (some powner) oexclVerifier).checked s.regular =
        none := by
      simp [AddCall.checked, addCall, Server.regular, htype]
    rw [hchecked]
    exact .refused (.inl htype) (sameStates_refl h)

theorem addState_none {s : Server A} (oexclVerifier : List UInt8) :
    addState s req env none (some powner) oexclVerifier =
      .ret (s.bumpOwner powner 1, .fail .shareDenied) := rfl

end

end CloudNfs.Nfs4.OpenFile
