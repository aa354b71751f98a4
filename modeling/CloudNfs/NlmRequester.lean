import CloudNfs.NlmGrant

/-!
# Whose blocked request is queued

`nlm_add_to_locklist` first looks for a blocked entry that repeats the request, so that a client
may ask again and again. The search compares the file, the range and the mode, but **not the
requester**: `caller_name`, `oh` and `svid` are left out, which `nlm_find_lock_entry` compares.

An entry keeps what it says about its requester for as long as the server runs (`keeps_exec`), so
the message of a later grant goes to whoever the entry was made for. That is the client that asked
exactly when the search finds no entry of somebody else (`queuedForRequester_iff`).
-/

namespace CloudNfs.Nlm

/-! ## The contract -/

/-- The arguments of the `NLMPROC4_GRANTED_MSG` call, and the host it goes to. -/
structure GrantedMsg where
  host : List UInt8
  cookie : NetObj
  exclusive : Bool
  alock : Nlm4Lock

/-- The call that `nlm4_send_grant_msg` makes for an entry. -/
def grantedMsg (e : LockInfo) : GrantedMsg where
  host := e.callerName
  cookie := e.cookie
  exclusive := e.exclusive
  alock :=
    { callerName := e.callerName, fh := e.fh, oh := e.oh, svid := e.svid, lOffset := e.start,
      lLen := e.len }

/-- The entry is for the lock that was asked for, and for its requester. -/
structure Carries (e : LockInfo) (arg : Nlm4LockArgs) : Prop where
  /-- the host and the owner on it, the file and the range -/
  alock : (grantedMsg e).alock = arg.alock
  exclusive : e.exclusive = arg.exclusive

/-- **The contract of `nlm_add_to_locklist`**, with `ok` the result of its allocation. -/
structure QueuedForRequester (n : NlmState) (arg : Nlm4LockArgs) (ok : Bool) : Prop where
  /-- the entry that is returned carries the request -/
  carries : ∀ p, (nlmAddToLocklist n arg ok).2 = some p →
    Carries ((nlmAddToLocklist n arg ok).1.info p) arg
  /-- when the answer is `NLM4_BLOCKED` the entry is on the list, and blocked -/
  listed : ∀ p, (nlmAddToLocklist n arg ok).2 = some p →
    ((nlmAddToLocklist n arg ok).1.info p).state.stat = .blocked →
    p ∈ (nlmAddToLocklist n arg ok).1.lockList ∧
      ((nlmAddToLocklist n arg ok).1.info p).state = .blocked
  /-- whenever it is granted later, the requester is told -/
  told : ∀ p, (nlmAddToLocklist n arg ok).2 = some p →
    ∀ (s t : Server) (as : List Action), s.nlm = (nlmAddToLocklist n arg ok).1 →
      exec serverStep s as = some t → t.async.announced = some p →
      (grantedMsg (t.nlm.info p)).host = arg.alock.callerName ∧
        (grantedMsg (t.nlm.info p)).alock = arg.alock

/-! ## An entry keeps its requester -/

/-- No address is used again, and no entry changes but for being granted. -/
structure Keeps (n n' : NlmState) : Prop where
  fresh_le : n.fresh ≤ n'.fresh
  same : ∀ p < n.fresh, SameLock (n.info p) (n'.info p)
  below : (∀ p ∈ n.lockList, p < n.fresh) → ∀ p ∈ n'.lockList, p < n'.fresh

theorem Keeps.refl (n : NlmState) : Keeps n n :=
  ⟨Nat.le_refl _, fun p _ => SameLock.refl (n.info p), id⟩

theorem Keeps.trans {n n' n'' : NlmState} (h : Keeps n n') (h' : Keeps n' n'') : Keeps n n'' := by
  refine ⟨h.fresh_le.trans h'.fresh_le, fun p hp => ?_, fun hbelow => h'.below (h.below hbelow)⟩
  exact (h.same p hp).trans (h'.same p (Nat.lt_of_lt_of_le hp h.fresh_le))

theorem Evolves.keeps {Gone : ℕ → Prop} {n n' : NlmState} (h : Evolves Gone n n') : Keeps n n' := by
  refine ⟨h.fresh_le, h.same, fun hbelow p hp => ?_⟩
  rcases h.listed p hp with hold | hnew
  · exact Nat.lt_of_lt_of_le (hbelow p hold) h.fresh_le
  · exact hnew.2

section Add

variable {n : NlmState} {arg : Nlm4LockArgs} {ok : Bool} {p : ℕ}

theorem nlmAddToLocklist_cases (n : NlmState) (arg : Nlm4LockArgs) (ok : Bool) :
    (∃ q, n.lockList.find? (fun p => matchesBlocked (n.info p) arg) = some q ∧
      nlmAddToLocklist n arg ok = (n.incRef q, some q)) ∨
    (n.lockList.find? (fun p => matchesBlocked (n.info p) arg) = none ∧
      ((∃ allow, nlmAddToLocklist n arg ok =
        ({ n.alloc (nlm4LockToNlmLockEntry arg allow) with lockList := n.lockList ++ [n.fresh] },
          some n.fresh)) ∨
      nlmAddToLocklist n arg ok = (n, none))) := by
  rw [nlmAddToLocklist]
  split
  next q hfind => exact .inl ⟨q, hfind, rfl⟩
  rename_i hfind
  refine .inr ⟨hfind, ?_⟩
  cases ok with
  | true => exact .inl ⟨_, rfl⟩
  | false => exact .inr rfl

theorem keeps_add (n : NlmState) (arg : Nlm4LockArgs) (ok : Bool) :
    Keeps n (nlmAddToLocklist n arg ok).1 := by
  rcases nlmAddToLocklist_cases n arg ok with ⟨q, -, heq⟩ | ⟨-, ⟨allow, heq⟩ | heq⟩
  · rw [heq]
    refine ⟨Nat.le_refl _, fun p _ => ?_, id⟩
    rw [NlmState.info_incRef]
    exact SameLock.refl (n.info p)
  · rw [heq]
    refine ⟨Nat.le_succ _, fun p hp => ?_, fun hbelow p hp => ?_⟩
    · have hinfo : (n.alloc (nlm4LockToNlmLockEntry arg allow)).info p = n.info p := by
        rw [NlmState.info_alloc, Function.update_of_ne (Nat.ne_of_lt hp)]
      exact hinfo ▸ SameLock.refl (n.info p)
    · rcases List.mem_append.mp hp with hp | hp
      · exact Nat.lt_succ_of_lt (hbelow p hp)
      · rw [List.mem_singleton.mp hp]
        exact Nat.lt_succ_self _
  · rw [heq]
    exact Keeps.refl n

theorem mem_of_added (h : (nlmAddToLocklist n arg ok).2 = some p) :
    p ∈ (nlmAddToLocklist n arg ok).1.lockList := by
  rcases nlmAddToLocklist_cases n arg ok with ⟨q, hfind, heq⟩ | ⟨-, ⟨allow, heq⟩ | heq⟩
  · rw [heq] at h ⊢
    cases h
    exact List.mem_of_find?_eq_some hfind
  · rw [heq] at h ⊢
    cases h
    exact List.mem_append_right _ (List.mem_singleton_self _)
  · rw [heq] at h
    cases h

end Add

theorem keeps_start {s : Server} (hbelow : ∀ p ∈ s.nlm.lockList, p < s.nlm.fresh) (r : Request) :
    Keeps s.nlm (start s r).nlm := by
  cases r with
  | lock arg reclaim env =>
    simp only [start, nlm4Lock]
    split_ifs
    iterate 5 exact Keeps.refl s.nlm
    have hadd := keeps_add s.nlm arg env.allocated
    simp only [Server.found]
    split
    next heq =>
      rw [heq] at hadd
      exact hadd
    next heq =>
      rw [heq] at hadd
      exact hadd
  | unlock alock env => exact (evolves_start (r := .unlock alock env) hbelow trivial).keeps
  | cancel alock exclusive env =>
    exact (evolves_start (r := .cancel alock exclusive env) hbelow trivial).keeps
  | grantedRes cookie stat =>
    exact (evolves_start (r := .grantedRes cookie stat) hbelow trivial).keeps
  | nodeRecovery name => exact (evolves_start (r := .nodeRecovery name) hbelow trivial).keeps

/-- **A step** leaves every entry its requester. -/
theorem keeps_step {s t : Server} {a : Action} (hbelow : ∀ p ∈ s.nlm.lockList, p < s.nlm.fresh)
    (hst : serverStep s a = some t) : Keeps s.nlm t.nlm := by
  cases a with
  | request r =>
    obtain ⟨-, ⟨r', heq, rfl⟩ | ⟨h, heq, -⟩ | ⟨ok, result, heq, -⟩⟩ := serverStep_cases hst
    · exact keeps_start hbelow r'
    · cases heq
    · cases heq
  | handler h => exact (evolves_step (a := .handler h) hbelow trivial hst).keeps
  | async ok result => exact (evolves_step (a := .async ok result) hbelow trivial hst).keeps

theorem keeps_exec {s t : Server} {as : List Action}
    (hbelow : ∀ p ∈ s.nlm.lockList, p < s.nlm.fresh) (hrun : exec serverStep s as = some t) :
    Keeps s.nlm t.nlm := by
  have hkeeps : Always serverStep (fun u => Keeps s.nlm u.nlm) s as := by
    refine always_of_step (Keeps.refl s.nlm) fun u a v hu huv => ?_
    exact hu.trans (keeps_step (hu.below hbelow) huv)
  exact hkeeps.exec hrun

/-! ## The result -/

section Result

variable {n : NlmState} {arg : Nlm4LockArgs} {ok : Bool}

theorem SameLock.grantedMsg_eq {e e' : LockInfo} (h : SameLock e e') :
    grantedMsg e' = grantedMsg e := by
  rw [h.eq]
  rfl

theorem carries_iff_sameOwner {e : LockInfo} (hmatch : matchesBlocked e arg = true) :
    Carries e arg ↔ sameOwner e arg.alock = true := by
  simp only [matchesBlocked, Bool.and_eq_true, decide_eq_true_eq] at hmatch
  obtain ⟨⟨⟨⟨hfh, -⟩, hstart⟩, hlen⟩, hexclusive⟩ := hmatch
  constructor
  · intro h
    rw [← h.alock]
    simp [sameOwner, grantedMsg]
  · intro h
    simp only [sameOwner, Bool.and_eq_true, decide_eq_true_eq] at h
    refine ⟨?_, hexclusive⟩
    rw [grantedMsg, h.1.1.1, hfh, h.1.2, h.2, hstart, hlen]

/-- **A blocked request is queued for its requester** if and only if the blocked entry that the
search finds, if it finds one, belongs to the requester. -/
theorem queuedForRequester_iff (hbelow : ∀ p ∈ n.lockList, p < n.fresh) :
    QueuedForRequester n arg ok ↔
      ∀ p, n.lockList.find? (fun q => matchesBlocked (n.info q) arg) = some p →
        sameOwner (n.info p) arg.alock = true := by
  constructor
  · intro h p hfind
    rcases nlmAddToLocklist_cases n arg ok with ⟨q, hfind', heq⟩ | ⟨hnone, -⟩
    · obtain rfl := Option.some.inj (hfind'.symm.trans hfind)
      have hcarries := h.carries q (by rw [heq])
      rw [heq, NlmState.info_incRef] at hcarries
      have hmatch : matchesBlocked (n.info q) arg = true := by simpa using List.find?_some hfind
      exact (carries_iff_sameOwner hmatch).mp hcarries
    · rw [hfind] at hnone
      cases hnone
  · intro h
    have hcarries : ∀ p, (nlmAddToLocklist n arg ok).2 = some p →
        Carries ((nlmAddToLocklist n arg ok).1.info p) arg := by
      intro p hp
      rcases nlmAddToLocklist_cases n arg ok with ⟨q, hfind, heq⟩ | ⟨-, ⟨allow, heq⟩ | heq⟩
      · rw [heq] at hp ⊢
        obtain rfl := Option.some.inj hp
        have hmatch : matchesBlocked (n.info q) arg = true := by simpa using List.find?_some hfind
        rw [NlmState.info_incRef]
        exact (carries_iff_sameOwner hmatch).mpr (h q hfind)
      · rw [heq] at hp ⊢
        cases hp
        have hinfo : (n.alloc (nlm4LockToNlmLockEntry arg allow)).info n.fresh =
            (nlm4LockToNlmLockEntry arg allow).toLockInfo := by
          rw [NlmState.info_alloc, Function.update_self]
        have hnew : Carries (nlm4LockToNlmLockEntry arg allow).toLockInfo arg := ⟨rfl, rfl⟩
        exact hinfo ▸ hnew
      · rw [heq] at hp
        cases hp
    refine ⟨hcarries, fun p hp hblocked => ⟨mem_of_added hp, ?_⟩,
      fun p hp s t as hs hrun _ => ?_⟩
    · cases hstate : ((nlmAddToLocklist n arg ok).1.info p).state with
      | blocked => rfl
      | granted =>
        rw [hstate] at hblocked
        cases hblocked
    · have hbelow' := (keeps_add n arg ok).below hbelow
      have hsame := (keeps_exec (hs ▸ hbelow') hrun).same p (hs ▸ hbelow' p (mem_of_added hp))
      rw [hsame.grantedMsg_eq, hs]
      have halock := (hcarries p hp).alock
      exact ⟨congrArg Nlm4Lock.callerName halock, halock⟩

/-- Host 1 holds a lock and host 2 waits for it. -/
def oneWaits : NlmState :=
  (nlmAddToLocklist (nlmAddToLocklist nlmInitLocklist (exclusiveRequest 1 0 10) true).1
    (exclusiveRequest 2 0 10) true).1

/-- Host 2 may ask again. -/
theorem queuedForRequester_again : QueuedForRequester oneWaits (exclusiveRequest 2 0 10) true :=
  (queuedForRequester_iff (by decide)).mpr (by
    intro p hfind
    have hfound : oneWaits.lockList.find?
        (fun q => matchesBlocked (oneWaits.info q) (exclusiveRequest 2 0 10)) = some 1 := by
      decide
    obtain rfl := Option.some.inj (hfound.symm.trans hfind)
    decide)

/-- When host 3 asks for the same range it is given the entry of host 2. -/
theorem third_not_queuedForRequester :
    (∀ p ∈ oneWaits.lockList, p < oneWaits.fresh) ∧
      ¬ QueuedForRequester oneWaits (exclusiveRequest 3 0 10) true := by
  refine ⟨by decide, fun h => ?_⟩
  have hcarries := h.carries 1 (by decide)
  have hhost : ((nlmAddToLocklist oneWaits (exclusiveRequest 3 0 10) true).1.info 1).callerName =
      [3] := congrArg Nlm4Lock.callerName hcarries.alock
  exact absurd hhost (by decide)

end Result

end CloudNfs.Nlm
