import CloudNfs.StateList

/-!
# A failed `cache_inode_add_state` (`Cache_inode/cache_inode_state.c`)

`cache_inode_add_state` has four places where it can fail after it took a state from the pool of the
client, and undoes nothing at any of them. A conflict and a stateid that cannot be built for the
first state of a file lose the state, which is in no pool and on no list afterwards. The later
failures leave it on the list of the file.

* `failsCleanly_iff` — when a failure leaves them as they were.
-/

namespace CloudNfs.Nfs4.Pointers

open DoublyLinked Prealloc

/-! ## The function with its checks -/

/-- What `cache_inode_add_state` answers. -/
inductive AddStatus where
  | invalidArgument
  | status (status : CacheInodeStatus)

/-- The arguments of `cache_inode_add_state` as they are passed; `none` is `NULL`. -/
structure AddCall where
  pentry : Option ℕ
  /-- `state_type` and `pstate_data` -/
  typed : Option TypedState
  /-- `powner_input` -/
  powner : Option OwnerName
  client : Option ℕ
  /-- `pcontext` is not `NULL` -/
  pcontext : Bool
  /-- `ppstate` is not `NULL` -/
  ppstate : Bool
  /-- `pstatus` is not `NULL` -/
  pstatus : Bool

/-- The checks of the arguments; `regular` says which entries are regular files. -/
def AddCall.checked (regular : ℕ → Bool) (call : AddCall) : Option AddArgs :=
  match call.pentry, call.typed, call.powner, call.client with
  | some pentry, some typed, some powner, some client =>
    if call.pstatus ∧ call.pcontext ∧ call.ppstate ∧ regular pentry then
      some ⟨pentry, typed, powner, client⟩
    else none
  | _, _, _, _ => none

/-- `cache_inode_add_state` with its checks. -/
def cacheInodeAddStateCall (s : StateStore) (regular : ℕ → Bool) (call : AddCall) (env : AddEnv) :
    Option (StateStore × AddStatus × Option ℕ) :=
  match call.checked regular with
  | none => some (s, .invalidArgument, none)
  | some args => do
    let (s, status, p) ← cacheInodeAddState s args env
    some (s, .status status, p)

/-! ## The property -/

/-- The list of a file, the table and the number of states in the pool of a client are as before. -/
structure Unchanged (s s' : StateStore) (file client : ℕ) : Prop where
  head : s'.head file = s.head file
  tail : s'.tail file = s.tail file
  states : ∀ l, IsList (links s.mem) (s.head file) l → ∀ p ∈ l, s'.mem p = s.mem p
  stateIds : s'.stateIds = s.stateIds
  pool : (s'.pools.pool client).length = (s.pools.pool client).length

theorem Unchanged.refl (s : StateStore) (file client : ℕ) : Unchanged s s file client :=
  ⟨rfl, rfl, fun _ _ _ _ => rfl, rfl, rfl⟩

/-- The call returns, and when it fails, everything is as before. -/
def FailsCleanly (s : StateStore) (regular : ℕ → Bool) (call : AddCall) (env : AddEnv) : Prop :=
  ∃ s' status p, cacheInodeAddStateCall s regular call env = some (s', status, p) ∧
    (status ≠ .status .success →
      ∀ file client, call.pentry = some file → call.client = some client →
        Unchanged s s' file client)

/-- The pool is empty and no state can be allocated. -/
def NoState (s : StateStore) (client : ℕ) (env : AddEnv) : Prop :=
  s.pools.pool client = [] ∧ (env.preferedPool = 0 ∨ env.alloc = false)

/-- The pool is empty and states are allocated one at a time. -/
def OnlyState (s : StateStore) (client : ℕ) (env : AddEnv) : Prop :=
  s.pools.pool client = [] ∧ env.preferedPool = 1 ∧ env.alloc = true

/-- The new state is in conflict with a state of the file. -/
def Conflict (s : StateStore) (args : AddArgs) : Prop :=
  s.head args.pentry ≠ none ∧ args.typed = .deleg

/-- There is no state to take, or nothing fails, or what fails comes before the state is linked and
the pool had to be filled with this one state. -/
def CleanArgs (s : StateStore) (args : AddArgs) (env : AddEnv) : Prop :=
  NoState s args.client env ∨
  (¬ Conflict s args ∧ env.other ≠ none ∧ env.stored = true) ∨
  ((Conflict s args ∨ (s.head args.pentry = none ∧ env.other = none)) ∧
    OnlyState s args.client env)

/-- The condition: an argument is refused, or the rest of the function meets its condition. -/
def Clean (s : StateStore) (regular : ℕ → Bool) (call : AddCall) (env : AddEnv) : Prop :=
  ∀ args, call.checked regular = some args → CleanArgs s args env

section

variable {s s' : StateStore} {regular : ℕ → Bool} {call : AddCall} {args : AddArgs} {env : AddEnv}
  {file client p : ℕ} {l : List ℕ}

/-! ## The pool -/

theorem getPrealloc_eq_none_iff : s.getPrealloc client env = none ↔ NoState s client env := by
  simp only [StateStore.getPrealloc, Pools.get, NoState, Pools.stuff]
  by_cases hpool : s.pools.pool client = []
  · by_cases hstuff : env.preferedPool ≠ 0 ∧ env.alloc = true
    · obtain ⟨n, hn⟩ := Nat.exists_eq_succ_of_ne_zero hstuff.1
      simp [hpool, hstuff.2, hn, List.range'_succ]
    · have hnone : env.preferedPool = 0 ∨ env.alloc = false := by
        rw [Decidable.not_and_iff_or_not] at hstuff
        exact hstuff.imp not_not.mp Bool.eq_false_of_not_eq_true
      simp [hpool, hstuff, hnone]
  · obtain ⟨q, rest, hq⟩ := List.exists_cons_of_ne_nil hpool
    simp [hq]

theorem length_getPrealloc (hget : s.getPrealloc client env = some (p, s')) :
    (s'.pools.pool client).length = (s.pools.pool client).length ↔ OnlyState s client env := by
  simp only [StateStore.getPrealloc, Pools.get, Pools.stuff] at hget
  simp only [OnlyState]
  by_cases hpool : s.pools.pool client = []
  · by_cases hstuff : env.preferedPool ≠ 0 ∧ env.alloc = true
    · obtain ⟨n, hn⟩ := Nat.exists_eq_succ_of_ne_zero hstuff.1
      simp only [hpool, hstuff.2, hn, List.range'_succ, Nat.succ_ne_zero, ne_eq, not_false_eq_true,
        and_self, if_true, Function.update_self, Option.some.injEq, Prod.mk.injEq] at hget
      rw [← hget.2]
      simp [hpool, hstuff.2, hn]
    · simp [hpool, hstuff] at hget
  · obtain ⟨q, rest, hq⟩ := List.exists_cons_of_ne_nil hpool
    simp only [hq, reduceCtorEq, false_and, if_false, Option.some.injEq, Prod.mk.injEq] at hget
    rw [← hget.2]
    simp [hq]

/-! ## The list -/

theorem FileList.returns (h : FileList s args.pentry l) :
    ∃ r, cacheInodeAddState s args env = some r := by
  rw [cacheInodeAddState]
  split
  next => exact ⟨_, rfl⟩
  rename_i q s1 hget
  obtain ⟨hfile, -⟩ := h.getPrealloc hget
  split
  next =>
    split
    next => exact ⟨_, rfl⟩
    next => exact ⟨_, rfl⟩
  rename_i head hsome
  have hbrowse : ∃ r, browse s1.mem args.typed (s1.pools.fresh + 1) none (some head) =
      some r := by
    by_cases hdeleg : args.typed = .deleg
    · rw [browse, hdeleg, cacheInodeStateConflict, if_pos rfl]
      exact ⟨_, rfl⟩
    · rw [← hsome, browse_eq hdeleg hfile.list (Nat.lt_succ_of_le hfile.length_le)]
      exact ⟨_, rfl⟩
  obtain ⟨⟨conflictFound, piterSaved⟩, hbrowse⟩ := hbrowse
  rw [hbrowse]
  dsimp only [Option.bind_eq_bind, Option.bind_some]
  split
  next => exact ⟨_, rfl⟩
  split
  next => exact ⟨_, rfl⟩
  next => exact ⟨_, rfl⟩

theorem Linked.not_unchanged {s1 : StateStore} (hl : Linked s1 s' l file p) (h : FileList s file l)
    (hmem : s1.mem = s.mem) (hp : p ∉ l) : ¬ Unchanged s s' file client := by
  intro hsame
  by_cases hnil : l = []
  · -- the first state of the file: the head is different
    have hnone : s.head file = none := by
      rw [h.list.head, hnil]
      rfl
    have := hsame.head
    rw [hl.head, Function.update_self, if_pos hnil, hnone] at this
    cases this
  · -- the last state points to the new one
    obtain ⟨l1, q, rfl⟩ := (List.eq_nil_or_concat' l).resolve_left hnil
    have hq : (l1 ++ [q]).getLast? = some q := List.getLast?_concat
    have hql : q ∈ l1 ++ [q] := List.mem_of_getLast? hq
    have hqp : q ≠ p := fun hqp => hp (hqp ▸ hql)
    have hnext : (s.mem q).next = none := (IsList.neighbours h.list).1
    have hsame := hsame.states _ h.list q hql
    rw [hl.old q hqp, if_pos hq, hmem] at hsame
    have := congrArg StateNode.next hsame
    rw [hnext] at this
    cases this

/-! ## The theorem -/

theorem unchanged_iff_of_unlinked (h : FileList s file l)
    (hget : s.getPrealloc client env = some (p, s')) (mem : ℕ → StateNode)
    (hwrite : ∀ q, q ≠ p → mem q = s'.mem q) :
    Unchanged s { s' with mem := mem } file client ↔ OnlyState s client env := by
  obtain ⟨-, hp⟩ := h.getPrealloc hget
  have hframe := getPrealloc_frame hget
  rw [← length_getPrealloc hget]
  constructor
  · exact fun hsame => hsame.pool
  · intro hpool
    refine ⟨congrFun hframe.head file, congrFun hframe.tail file, fun l' hl' q hq => ?_,
      hframe.stateIds, hpool⟩
    have hqp : q ≠ p := by
      rintro rfl
      exact hp (h.list.unique hl' ▸ hq)
    exact (hwrite q hqp).trans (congrFun hframe.mem q)

theorem cleanArgs_iff_of_unlinked (hget : s.getPrealloc args.client env = some (p, s'))
    (hfail : Conflict s args ∨ (s.head args.pentry = none ∧ env.other = none)) :
    CleanArgs s args env ↔ OnlyState s args.client env := by
  have hstate : ¬ NoState s args.client env := by
    rw [← getPrealloc_eq_none_iff, hget]
    nofun
  rw [CleanArgs, or_iff_right hstate, or_iff_right, and_iff_right hfail]
  rintro ⟨hconflict, hother, -⟩
  exact hfail.elim hconflict fun h => hother h.2

theorem conflict_ne_success {status : CacheInodeStatus} {r : Option ℕ} (h : Conflict s args)
    (hadd : cacheInodeAddState s args env = some (s', status, r)) : status ≠ .success := by
  rw [cacheInodeAddState] at hadd
  split at hadd
  next =>
    cases hadd
    rintro ⟨⟩
  rename_i q s1 hget
  split at hadd
  next hnone => exact absurd ((getPrealloc_frame hget).head ▸ hnone) h.1
  rename_i head hsome
  -- every state of the file conflicts with a delegation, the first one does
  rw [browse, h.2, cacheInodeStateConflict, if_pos rfl] at hadd
  cases hadd
  rintro ⟨⟩

theorem unchanged_iff_cleanArgs {status : CacheInodeStatus} {r : Option ℕ}
    (h : FileList s args.pentry l) (hadd : cacheInodeAddState s args env = some (s', status, r)) :
    (status ≠ .success → Unchanged s s' args.pentry args.client) ↔ CleanArgs s args env := by
  cases FileList.addCases (t := ⟨s, fun _ => l⟩) h hadd with
  | noMemory hnone =>
    refine iff_of_true (fun _ => Unchanged.refl s _ _) (.inl ?_)
    exact getPrealloc_eq_none_iff.mp (Option.isNone_iff_eq_none.mp hnone)
  | conflict hget hstates hdeleg =>
    rw [cleanArgs_iff_of_unlinked hget (.inl ⟨hstates, hdeleg⟩)]
    exact (imp_iff_right nofun).trans (unchanged_iff_of_unlinked h hget _ fun _ _ => rfl)
  | noStateid hget hnone hother =>
    rw [cleanArgs_iff_of_unlinked hget (.inr ⟨hnone, hother⟩)]
    exact (imp_iff_right nofun).trans
      (unchanged_iff_of_unlinked h hget _ fun q hq => Function.update_of_ne hq _ _)
  | late hget hlinked hdeleg hother hstored =>
    refine iff_of_false (fun hsame => ?_) ?_
    · exact hlinked.not_unchanged h (getPrealloc_frame hget).mem (h.getPrealloc hget).2
        (hsame nofun)
    · rintro (hno | ⟨-, hne, hset⟩ | ⟨hconflict | ⟨hnone, hno⟩, -⟩)
      · rw [getPrealloc_eq_none_iff.mpr hno] at hget
        cases hget
      · rw [hstored hne] at hset
        cases hset
      · exact hdeleg hconflict.1 hconflict.2
      · exact hother hnone hno
  | whole hget hother hstored hadded =>
    refine iff_of_true (fun hne => absurd rfl hne) (.inr (.inl ⟨?_, ?_, hstored⟩))
    · exact fun hconflict => conflict_ne_success hconflict hadd rfl
    · rw [hother]
      nofun

/-- **A failed `cache_inode_add_state`**: everything is as before exactly under the condition. -/
theorem failsCleanly_iff (h : ∀ file, call.pentry = some file → ∃ l, FileList s file l) :
    FailsCleanly s regular call env ↔ Clean s regular call env := by
  rw [FailsCleanly, cacheInodeAddStateCall, Clean]
  cases hchecked : call.checked regular with
  | none =>
    refine iff_of_true ⟨s, _, none, rfl, ?_⟩ nofun
    exact fun _ file client _ _ => Unchanged.refl s file client
  | some args =>
    obtain ⟨hpentry, hclient⟩ :
        call.pentry = some args.pentry ∧ call.client = some args.client := by
      rw [AddCall.checked] at hchecked
      split at hchecked
      next hpentry _ _ hclient =>
        split at hchecked
        next =>
          cases hchecked
          exact ⟨hpentry, hclient⟩
        next => cases hchecked
      next => cases hchecked
    obtain ⟨l, h⟩ := h args.pentry hpentry
    obtain ⟨⟨s', status, r⟩, hadd⟩ : ∃ r, cacheInodeAddState s args env = some r := h.returns
    simp only [hadd, Option.bind_eq_bind, Option.bind_some, Option.some.injEq, forall_eq',
      Prod.mk.injEq, hpentry, hclient, ← unchanged_iff_cleanArgs h hadd]
    constructor
    · rintro ⟨_, _, _, ⟨rfl, rfl, rfl⟩, hsame⟩ hne
      exact hsame (fun hstatus => hne (AddStatus.status.inj hstatus)) _ _ rfl rfl
    · intro hsame
      refine ⟨s', _, r, ⟨rfl, rfl, rfl⟩, fun hne file client hfile hclient => ?_⟩
      rw [← hfile, ← hclient]
      exact hsame fun hstatus => hne (congrArg _ hstatus)


end

/-! ## Runs -/

/-- A share of the file 7, for the owner `a`. -/
def shareCall : AddCall :=
  ⟨some 7, some (.data (.share ⟨[], 1, 0, 0⟩)), some ⟨0, [97]⟩, some 0, true, true, true⟩

theorem fileList_init (mem : ℕ → StateNode) (file : ℕ) : FileList (init mem).store file [] :=
  (inv_init mem).fileList file

/-- Two owners open the file 7, and each state is allocated alone. -/
def openedTwice : List StateOp :=
  [.add ⟨7, .data (.share ⟨[], 1, 0, 0⟩), ⟨0, [97]⟩, 0⟩ ⟨true, 1, some ⟨1, 7, 1⟩, true⟩,
    .add ⟨7, .data (.share ⟨[], 1, 0, 0⟩), ⟨0, [98]⟩, 0⟩ ⟨true, 1, some ⟨1, 7, 2⟩, true⟩]

def twoShares : Tracked := (exec step (init zeroed) openedTwice).getD (init zeroed)

theorem fileList_twoShares (file : ℕ) : FileList twoShares.store file (twoShares.added file) := by
  have hinv : Always step Inv (init zeroed) openedTwice := always_of_allSteps
    (C := fun t op t' => DistinctStateid t op t' ∧ AddsWhole t op t') (inv_init zeroed)
    (fun _ _ _ h hstep hC => h.step hstep hC.1 hC.2) (by decide)
  exact (hinv.exec (t := twoShares) rfl).fileList file

/-- A delegation is in conflict with the shares, after a state was allocated for it. A share whose
stateid cannot be built fails later, when the state is on the list. -/
theorem failsCleanly_twoShares :
    FailsCleanly twoShares.store (fun _ => true)
        { shareCall with typed := some .deleg } ⟨true, 1, some ⟨1, 7, 3⟩, true⟩ ∧
      ¬ FailsCleanly twoShares.store (fun _ => true) shareCall ⟨true, 1, none, true⟩ := by
  have hlist : ∀ file, ∃ l, FileList twoShares.store file l := fun file =>
    ⟨_, fileList_twoShares file⟩
  rw [failsCleanly_iff fun file _ => hlist file, failsCleanly_iff fun file _ => hlist file]
  constructor
  · intro args hargs
    cases hargs
    exact .inr (.inr ⟨.inl ⟨by decide, rfl⟩, by decide, rfl, rfl⟩)
  · intro hclean
    rcases hclean _ rfl with hno | ⟨-, hother, -⟩ | ⟨hconflict | ⟨hhead, -⟩, -⟩
    · rcases hno.2 with h | h <;> cases h
    · exact hother rfl
    · cases hconflict.2
    · exact absurd hhead (by decide)

/-- The allocation of the key fails in `nfs4_State_Set`; the state stays on the list. -/
theorem not_failsCleanly : ¬ ∀ s regular call env,
    (∀ file, call.pentry = some file → ∃ l, FileList s file l) →
      FailsCleanly s regular call env := by
  intro h
  obtain ⟨s', status, p, hcall, hsame⟩ := h (init zeroed).store (fun _ => true) shareCall
    ⟨true, 2, some ⟨1, 7, 1⟩, false⟩ fun file _ => ⟨[], fileList_init zeroed file⟩
  cases hcall
  have hhead := (hsame nofun 7 0 rfl rfl).head
  cases hhead

end CloudNfs.Nfs4.Pointers
