import CloudNfs.Run
import CloudNfs.NlmServer

/-!
# Reference counts of lock entries

Every reference to an entry is held by somebody: the lock list, a running handler, a
queued callback or the asynchronous thread. `Counted n R` says that the reference
counts are right when, besides the list and the queue, exactly the references of the
list `R` are held, that an entry is allocated exactly as long as somebody holds it, and
that nothing was unlinked twice.

Each operation of `nlm_util.c` has one lemma that says which references it makes and
drops. Two things the code does are outside them, and they are all that can go wrong:

* `nlm4_Cancel` and the clean-up of `nlm4_send_grant_msg` remove the entry they hold a
  reference to without looking whether it is **still on the list**;
* `nlm_delete_lock_entry` loses its piece when the unlock leaves **exactly one**.

So the counts are right in a run exactly when neither of the two happens in it
(`refsExact_iff_keepsRefs`).
-/

namespace CloudNfs.Nlm

open Function (update_self update_of_ne)

/-! ## References and who holds them -/

/-- The references to `p` held by the list, the queue and the holders `R`. -/
def held (n : NlmState) (R : List ℕ) (p : ℕ) : ℕ :=
  n.lockList.count p + (n.queue.filterMap Callback.entry).count p + R.count p

/-- The reference counts are right when the references `R` are held besides those of
the list and of the queue. -/
structure Counted (n : NlmState) (R : List ℕ) : Prop where
  running : n.crashed = false
  nodup : n.lockList.Nodup
  alive_iff : ∀ p, n.alive p = true ↔ 0 < held n R p
  count : ∀ p, n.alive p = true → (n.mem p).refCount = held n R p
  /-- only addresses below `fresh` were allocated -/
  below : ∀ p, n.alive p = true → p < n.fresh

namespace Counted

variable {n : NlmState} {R R' : List ℕ} {p : ℕ} {e : NlmLockEntry} {c : Callback}

theorem alive_of_mem (h : Counted n R) (hp : p ∈ n.lockList) : n.alive p = true := by
  rw [h.alive_iff]
  have := List.count_pos_iff.mpr hp
  simp only [held]
  omega

theorem alive_of_held (h : Counted n (p :: R)) : n.alive p = true := by
  rw [h.alive_iff]
  simp only [held, List.count_cons_self]
  omega

theorem fresh_notMem (h : Counted n R) : n.fresh ∉ n.lockList :=
  fun hp => Nat.lt_irrefl _ (h.below _ (h.alive_of_mem hp))

theorem held_fresh (h : Counted n R) : held n R n.fresh = 0 := by
  have hdead : ¬ 0 < held n R n.fresh := fun hpos =>
    Nat.lt_irrefl _ (h.below _ ((h.alive_iff _).mpr hpos))
  omega

theorem move (h : Counted n R) {l : List ℕ} {q : List Callback} (hl : l.Nodup)
    (hheld : ∀ p, held { n with lockList := l, queue := q } R' p = held n R p) :
    Counted { n with lockList := l, queue := q } R' := by
  refine ⟨h.running, hl, fun p => ?_, fun p hp => ?_, h.below⟩
  · rw [hheld p]
    exact h.alive_iff p
  · rw [hheld p]
    exact h.count p hp

theorem perm (h : Counted n R) (hR : R.Perm R') : Counted n R' := by
  refine h.move (l := n.lockList) (q := n.queue) h.nodup fun p => ?_
  simp only [held, hR.count_eq p]

theorem setSucc (h : Counted n R) (hp : n.alive p = true)
    (he : e.refCount = (n.mem p).refCount + 1) : Counted (n.set p e) (p :: R) := by
  have hheld : ∀ q, held (n.set p e) (p :: R) q = held n R q + if p = q then 1 else 0 := by
    intro q
    simp only [held, NlmState.set, List.count_cons, beq_iff_eq]
    omega
  refine ⟨h.running, h.nodup, fun q => ?_, fun q hq => ?_, h.below⟩
  · rw [hheld q]
    by_cases hpq : p = q
    · subst hpq
      simp [NlmState.set, hp]
    · rw [if_neg hpq]
      exact h.alive_iff q
  · rw [hheld q]
    by_cases hpq : p = q
    · subst hpq
      rw [if_pos rfl, NlmState.set]
      simp only [update_self, he, h.count p hp]
      omega
    · rw [if_neg hpq, NlmState.set]
      simp only [update_of_ne (Ne.symm hpq), h.count q hq]
      omega

theorem incRef (h : Counted n R) (hp : n.alive p = true) : Counted (n.incRef p) (p :: R) :=
  h.setSucc hp rfl

theorem decRef (h : Counted n (p :: R)) : Counted (n.decRef p) R := by
  have hheld : ∀ q, held n (p :: R) q = held n R q + if p = q then 1 else 0 := by
    intro q
    simp only [held, List.count_cons, beq_iff_eq]
    omega
  have hcount : (n.mem p).refCount - 1 = held n R p := by
    rw [h.count p h.alive_of_held, hheld p, if_pos rfl]
    omega
  -- the entries other than `p` are as they were
  have hother : ∀ q, p ≠ q → (n.alive q = true ↔ 0 < held n R q) ∧
      (n.alive q = true → (n.mem q).refCount = held n R q) := by
    intro q hpq
    have halive := h.alive_iff q
    have hq := h.count q
    rw [hheld q, if_neg hpq] at halive hq
    exact ⟨halive, hq⟩
  simp only [NlmState.decRef, NlmState.set, update_self, hcount]
  split
  next hzero =>
    refine ⟨h.running, h.nodup, fun q => ?_, fun q hq => ?_, fun q hq => ?_⟩
    · by_cases hpq : p = q
      · subst hpq
        have hnone : held n R p = 0 := by exact_mod_cast hzero
        simp only [NlmState.free, update_self]
        refine ⟨fun hf => ?_, fun hf => ?_⟩
        · cases hf
        · exact absurd (Nat.ne_of_gt hf) (not_not.mpr hnone)
      · simp only [NlmState.free, update_of_ne (Ne.symm hpq)]
        exact (hother q hpq).1
    · by_cases hpq : p = q
      · subst hpq
        simp [NlmState.free] at hq
      · simp only [NlmState.free, update_of_ne (Ne.symm hpq)] at hq ⊢
        exact (hother q hpq).2 hq
    · by_cases hpq : p = q
      · subst hpq
        simp [NlmState.free] at hq
      · simp only [NlmState.free, update_of_ne (Ne.symm hpq)] at hq ⊢
        exact h.below q hq
  next hpos =>
    refine ⟨h.running, h.nodup, fun q => ?_, fun q hq => ?_, h.below⟩
    · by_cases hpq : p = q
      · subst hpq
        have halive := h.alive_of_held
        simp only [held] at hpos ⊢
        simp only [halive, true_iff]
        omega
      · exact (hother q hpq).1
    · by_cases hpq : p = q
      · subst hpq
        simp only [update_self]
        rfl
      · simp only [update_of_ne (Ne.symm hpq)]
        exact (hother q hpq).2 hq

theorem remove (h : Counted n R) (hp : p ∈ n.lockList) :
    Counted (doNlmRemoveFromLocklist n p) R := by
  rw [doNlmRemoveFromLocklist, if_pos hp]
  apply decRef
  refine h.move (q := n.queue) (h.nodup.erase p) fun q => ?_
  have hpos := List.count_pos_iff.mpr hp
  simp only [held, List.count_erase, List.count_cons, beq_iff_eq]
  by_cases hpq : p = q
  · subst hpq
    simp only [if_true]
    omega
  · simp only [if_neg hpq]
    omega

theorem queueEntry (hc : c.entry = some p) (h : Counted n (p :: R)) :
    Counted (n.nlmAsyncCallback c) R := by
  refine h.move (l := n.lockList) h.nodup fun q => ?_
  simp only [held, List.filterMap_append, List.filterMap_cons, List.filterMap_nil, hc,
    List.count_append, List.count_cons, List.count_nil]
  omega

theorem queueScan (h : Counted n R) (fh : NetObj) :
    Counted (n.nlmAsyncCallback (.grantBlockedLocks fh)) R := by
  refine h.move (l := n.lockList) h.nodup fun q => ?_
  simp only [held, List.filterMap_append, List.filterMap_cons, List.filterMap_nil,
    Callback.entry, List.append_nil]

theorem alloc (h : Counted n R) {k : ℕ} (he : e.refCount = (k + 1 : ℕ)) :
    Counted (n.alloc e) (List.replicate (k + 1) n.fresh ++ R) := by
  have hheld : ∀ q, held (n.alloc e) (List.replicate (k + 1) n.fresh ++ R) q =
      held n R q + if n.fresh = q then k + 1 else 0 := by
    intro q
    simp only [held, NlmState.alloc, List.count_append, List.count_replicate, beq_iff_eq]
    omega
  refine ⟨h.running, h.nodup, fun q => ?_, fun q hq => ?_, fun q hq => ?_⟩
  · rw [hheld q]
    by_cases hq : n.fresh = q
    · subst hq
      simp [NlmState.alloc]
    · rw [if_neg hq]
      simp only [NlmState.alloc, update_of_ne (Ne.symm hq)]
      exact h.alive_iff q
  · rw [hheld q]
    by_cases hqf : n.fresh = q
    · subst hqf
      rw [h.held_fresh, if_pos rfl]
      simp only [NlmState.alloc, update_self, he]
      omega
    · rw [if_neg hqf]
      simp only [NlmState.alloc, update_of_ne (Ne.symm hqf)] at hq ⊢
      exact h.count q hq
  · by_cases hqf : n.fresh = q
    · subst hqf
      exact Nat.lt_succ_self _
    · simp only [NlmState.alloc, update_of_ne (Ne.symm hqf)] at hq
      exact Nat.lt_succ_of_lt (h.below q hq)

theorem list (h : Counted n (p :: R)) (hp : p ∉ n.lockList) :
    Counted { n with lockList := n.lockList ++ [p] } R := by
  refine h.move (q := n.queue) ?_ fun q => ?_
  · rw [List.nodup_append]
    refine ⟨h.nodup, List.nodup_singleton p, fun a ha b hb => ?_⟩
    rw [List.mem_singleton.mp hb]
    exact fun hab => hp (hab ▸ ha)
  · simp only [held, List.count_append, List.count_cons, List.count_nil]
    omega

end Counted

/-! ## The operations of the lock list -/

section Operations

variable {n : NlmState} {R : List ℕ}

/-- The references after a search: one more if an entry was found. -/
def foundRefs (r : NlmState × Option ℕ) (R : List ℕ) : List ℕ := r.2.toList ++ R

theorem counted_find (h : Counted n R) {f : ℕ → Bool} {r : NlmState × Option ℕ}
    (hr : r = match n.lockList.find? f with
      | none => (n, none)
      | some p => (n.incRef p, some p)) : Counted r.1 (foundRefs r R) := by
  subst hr
  cases hfind : n.lockList.find? f with
  | none => exact h
  | some p => exact h.incRef (h.alive_of_mem (List.mem_of_find?_eq_some hfind))

theorem counted_nlmFindLockEntry (h : Counted n R) (lock : Nlm4Lock) (exclusive : Bool)
    (state : LockState) : Counted (nlmFindLockEntry n lock exclusive state).1
      (foundRefs (nlmFindLockEntry n lock exclusive state) R) :=
  counted_find h rfl

theorem counted_nlmFindLockEntryByCookie (h : Counted n R) (cookie : NetObj) :
    Counted (nlmFindLockEntryByCookie n cookie).1
      (foundRefs (nlmFindLockEntryByCookie n cookie) R) :=
  counted_find h rfl

theorem counted_nlmAddToLocklist (h : Counted n R) (arg : Nlm4LockArgs) (ok : Bool) :
    Counted (nlmAddToLocklist n arg ok).1 (foundRefs (nlmAddToLocklist n arg ok) R) := by
  rw [nlmAddToLocklist]
  split
  next p hfind => exact h.incRef (h.alive_of_mem (List.mem_of_find?_eq_some hfind))
  cases ok with
  | false => exact h
  | true =>
    -- one of the two references of the new entry is the one of the list
    have halloc := h.alloc (k := 1)
      (e := nlm4LockToNlmLockEntry arg (!n.lockList.any fun p =>
        decide ((n.mem p).fh = arg.alock.fh) &&
          conflicts (n.mem p).toLockInfo arg.alock arg.exclusive)) rfl
    exact Counted.list (R := n.fresh :: R) halloc h.fresh_notMem

/-- What holds in a scan of the list that drops entries and queues callbacks. -/
def ScanInv (R : List ℕ) (rest : List ℕ) (n : NlmState) : Prop := Counted n R ∧ OnList rest n

theorem scanInv_grantStep {fh : NetObj} {ok : ℕ → Bool} {p : ℕ} {rest : List ℕ}
    (h : ScanInv R (p :: rest) n) : ScanInv R rest (grantStep fh ok n p) := by
  obtain ⟨hc, hl⟩ := h
  rcases grantStep_cases fh ok n p with heq | ⟨q, hq, heq⟩ | ⟨-, heq⟩ | ⟨-, -, heq⟩
  · rw [heq]
    exact ⟨hc, hl.tail rfl⟩
  · rw [heq]
    exact ⟨(hc.incRef (hc.alive_of_mem hq)).decRef, hl.tail NlmState.lockList_decRef⟩
  · rw [heq]
    exact ⟨hc.remove hl.head, hl.tail_erase NlmState.lockList_remove⟩
  · rw [heq]
    have hset : Counted (n.set p (n.mem p).grant) (p :: R) :=
      hc.setSucc (hc.alive_of_mem hl.head) rfl
    exact ⟨hset.queueEntry rfl, hl.tail rfl⟩

theorem counted_doNlmGrantBlockedLocks (h : Counted n R) (fh : NetObj) (ok : ℕ → Bool) :
    Counted (doNlmGrantBlockedLocks n fh ok) R :=
  (foldl_rest (I := ScanInv R) (fun _ _ _ h => scanInv_grantStep h) n.lockList n
    ⟨h, h.nodup, List.Subset.refl _⟩).1

theorem scanInv_recoveryStep {name : List UInt8} {p : ℕ} {rest : List ℕ}
    (h : ScanInv R (p :: rest) n) : ScanInv R rest (recoveryStep name n p) := by
  obtain ⟨hc, hl⟩ := h
  have hremove : Counted (doNlmRemoveFromLocklist (n.incRef p) p) (p :: R) :=
    (hc.incRef (hc.alive_of_mem hl.head)).remove hl.head
  have hlist : (doNlmRemoveFromLocklist (n.incRef p) p).lockList = n.lockList.erase p :=
    NlmState.lockList_remove
  simp only [recoveryStep]
  split
  · split
    · refine ⟨(hremove.queueScan _).decRef, hl.tail_erase ?_⟩
      rw [NlmState.lockList_decRef]
      exact hlist
    · refine ⟨hremove.decRef, hl.tail_erase ?_⟩
      rw [NlmState.lockList_decRef]
      exact hlist
  · exact ⟨hc, hl.tail rfl⟩

theorem counted_nlmNodeRecovery (h : Counted n R) (name : List UInt8) :
    Counted (nlmNodeRecovery n name) R :=
  (foldl_rest (I := ScanInv R) (fun _ _ _ h => scanInv_recoveryStep h) n.lockList n
    ⟨h, h.nodup, List.Subset.refl _⟩).1

end Operations

/-! ## Splitting -/

/-- How many pieces `do_nlm_delete_lock_entry` makes of an entry. -/
def entryPieces (e : LockInfo) (lock : Nlm4Lock) : ℕ :=
  if outOfReach e lock || fullyOverlaps e lock then 0
  else (if e.start < lock.lOffset then 1 else 0) +
    if rangeEnd lock.lOffset lock.lLen < rangeEnd e.start e.len then 1 else 0

/-- How many pieces an unlock leaves of all the entries of its owner. -/
def splitCount (n : NlmState) (lock : Nlm4Lock) : ℕ :=
  (n.lockList.map fun p =>
    if sameOwner (n.info p) lock then entryPieces (n.info p) lock else 0).sum

section Delete

variable {n : NlmState} {R : List ℕ} {lock : Nlm4Lock}

/-- What holds in the loop of `nlm_delete_lock_entry`: the pieces are held by
`split_list`. -/
structure SplitInv (R : List ℕ) (acc : DeleteAcc) : Prop where
  counted : Counted acc.st (acc.split ++ R)
  nodup : (acc.st.lockList ++ acc.split).Nodup

variable {acc : DeleteAcc}

theorem SplitInv.addPiece (h : SplitInv R acc) (e : NlmLockEntry) (start len : UInt64) :
    SplitInv R (acc.addPiece e start len) := by
  have halloc := h.counted.alloc (k := 0)
    (e := { e with start := start, len := len, refCount := 1 }) rfl
  have hfresh := h.counted.held_fresh
  simp only [held, List.count_append, Nat.add_eq_zero_iff, List.count_eq_zero] at hfresh
  refine ⟨halloc.perm ?_, ?_⟩
  · simp only [DeleteAcc.addPiece, List.append_assoc]
    exact (List.perm_append_comm_assoc [acc.st.fresh] acc.split R)
  · simp only [DeleteAcc.addPiece, NlmState.lockList_alloc, ← List.append_assoc]
    rw [List.nodup_append]
    refine ⟨h.nodup, List.nodup_singleton _, fun a ha b hb hab => ?_⟩
    rw [List.mem_singleton.mp hb] at hab
    subst hab
    rcases List.mem_append.mp ha with ha | ha
    · exact hfresh.1.1 ha
    · exact hfresh.2.1 ha

theorem SplitInv.addPieces (h : SplitInv R acc) (lock : Nlm4Lock) (e : NlmLockEntry) :
    SplitInv R ((acc.addLeft e lock).addRight e lock) ∧
      ((acc.addLeft e lock).addRight e lock).split.length = acc.split.length +
        ((if e.start < lock.lOffset then 1 else 0) +
          if rangeEnd lock.lOffset lock.lLen < rangeEnd e.start e.len then 1 else 0) ∧
      ∀ q < acc.st.fresh,
        ((acc.addLeft e lock).addRight e lock).st.info q = acc.st.info q := by
  have hold : ∀ {acc : DeleteAcc} {start len : UInt64}, ∀ q < acc.st.fresh,
      (acc.addPiece e start len).st.info q = acc.st.info q := by
    intro acc start len q hq
    rw [DeleteAcc.addPiece, NlmState.info_alloc, update_of_ne (Nat.ne_of_lt hq)]
  simp only [DeleteAcc.addRight, DeleteAcc.addLeft]
  split
  · split
    · refine ⟨(h.addPiece _ _ _).addPiece _ _ _, ?_, fun q hq => ?_⟩
      · simp [DeleteAcc.addPiece]
      · rw [hold q (Nat.lt_succ_of_lt hq), hold q hq]
    · refine ⟨h.addPiece _ _ _, ?_, hold⟩
      simp [DeleteAcc.addPiece]
  · split
    · refine ⟨h.addPiece _ _ _, ?_, hold⟩
      simp [DeleteAcc.addPiece]
    · exact ⟨h, rfl, fun _ _ => rfl⟩

theorem SplitInv.remove {p : ℕ} {cnt : ℤ} (h : SplitInv R acc) (hp : p ∈ acc.st.lockList) :
    SplitInv R ⟨doNlmRemoveFromLocklist acc.st p, acc.split, cnt⟩ := by
  refine ⟨h.counted.remove hp, ?_⟩
  simp only [NlmState.lockList_remove]
  exact h.nodup.sublist (List.Sublist.append_right (List.erase_sublist ..) _)

/-- The loop of `nlm_delete_lock_entry` with the entries `rest` still to come. -/
structure DeleteCounted (n : NlmState) (lock : Nlm4Lock) (R rest : List ℕ) (acc : DeleteAcc) :
    Prop extends SplitInv R acc where
  onList : OnList rest acc.st
  info : ∀ p ∈ rest, acc.st.info p = n.info p
  pieces : acc.split.length + (rest.map fun p =>
    if sameOwner (n.info p) lock then entryPieces (n.info p) lock else 0).sum = splitCount n lock

theorem deleteCounted_step {p : ℕ} {rest : List ℕ} (h : DeleteCounted n lock R (p :: rest) acc) :
    DeleteCounted n lock R rest (deleteStep lock acc p) := by
  have hpieces := h.pieces
  rw [List.map_cons, List.sum_cons] at hpieces
  have hinfo : ∀ q ∈ rest, acc.st.info q = n.info q := fun q hq =>
    h.info q (.tail p hq)
  have hp : (acc.st.mem p).toLockInfo = n.info p := h.info p List.mem_cons_self
  have hbelow : ∀ q ∈ rest, q < acc.st.fresh := fun q hq =>
    h.counted.below q (h.counted.alive_of_mem (h.onList.subset (.tail p hq)))
  rw [deleteStep, hp]
  split
  next howner =>
    rw [if_pos howner, entryPieces] at hpieces
    simp only [doNlmDeleteLockEntry, hp]
    split
    next hreach =>
      rw [hreach, Bool.true_or, if_pos rfl] at hpieces
      exact ⟨h.toSplitInv, h.onList.tail rfl, hinfo, by omega⟩
    rename_i hreach
    split
    next hfull =>
      rw [hfull, Bool.or_true, if_pos rfl] at hpieces
      refine ⟨h.toSplitInv.remove h.onList.head, h.onList.tail_erase NlmState.lockList_remove,
        ?_, ?_⟩
      · simp only [NlmState.info_remove]
        exact hinfo
      · simp only
        omega
    next hfull =>
      rw [if_neg (by simp [hreach, hfull])] at hpieces
      obtain ⟨hsplit, hlength, hsame⟩ := h.toSplitInv.addPieces lock (acc.st.mem p)
      have hlist := lockList_addPieces acc (acc.st.mem p) lock
      have hstart : (acc.st.mem p).start = (n.info p).start := congrArg LockInfo.start hp
      have hlen : (acc.st.mem p).len = (n.info p).len := congrArg LockInfo.len hp
      refine ⟨hsplit.remove (hlist ▸ h.onList.head), h.onList.tail_erase ?_, fun q hq => ?_, ?_⟩
      · simp only [NlmState.lockList_remove, hlist]
      · simp only [NlmState.info_remove, hsame q (hbelow q hq)]
        exact hinfo q hq
      · simp only [hlength, hstart, hlen]
        omega
  next howner =>
    rw [if_neg howner] at hpieces
    exact ⟨h.toSplitInv, h.onList.tail rfl, hinfo, by omega⟩

theorem deleteCounted_loop (h : Counted n R) (lock : Nlm4Lock) :
    DeleteCounted n lock R [] (deleteLoop n lock) := by
  refine foldl_rest (I := DeleteCounted n lock R) (fun _ _ _ h => deleteCounted_step h)
    n.lockList _ ⟨⟨h, ?_⟩, ⟨h.nodup, List.Subset.refl _⟩, fun _ _ => rfl, ?_⟩
  · rw [List.append_nil]
    exact h.nodup
  · simp [splitCount]

theorem counted_nlmDeleteLockEntry (h : Counted n R) (hsplit : splitCount n lock ≠ 1) :
    Counted (nlmDeleteLockEntry n lock).1 R := by
  have hloop := deleteCounted_loop h lock
  have hlength : (deleteLoop n lock).split.length = splitCount n lock := by
    simpa using hloop.pieces
  simp only [nlmDeleteLockEntry, glistAddListTail]
  split
  next hshort =>
    have hnil : (deleteLoop n lock).split = [] := List.length_eq_zero_iff.mp (by omega)
    have hcounted := hloop.counted
    rw [hnil] at hcounted
    exact hcounted
  next =>
    refine hloop.counted.move (q := (deleteLoop n lock).st.queue) hloop.nodup fun q => ?_
    simp only [held, List.count_append]
    omega

theorem nodup_nlmDeleteLockEntry (h : Counted n R) :
    (nlmDeleteLockEntry n lock).1.lockList.Nodup := by
  have hloop := deleteCounted_loop h lock
  simp only [nlmDeleteLockEntry, glistAddListTail]
  split
  · exact hloop.counted.nodup
  · exact hloop.nodup

theorem not_counted_nlmDeleteLockEntry (h : Counted n R) (hsplit : splitCount n lock = 1) :
    ∃ p, (nlmDeleteLockEntry n lock).1.alive p = true ∧
      ((nlmDeleteLockEntry n lock).1.mem p).refCount ≠ held (nlmDeleteLockEntry n lock).1 R p := by
  have hloop := deleteCounted_loop h lock
  have hlength : (deleteLoop n lock).split.length = 1 := by
    rw [← hsplit]
    simpa using hloop.pieces
  obtain ⟨p, hp⟩ := List.length_eq_one_iff.mp hlength
  have hcounted : Counted (deleteLoop n lock).st (p :: R) := by
    have := hloop.counted
    rw [hp] at this
    exact this
  refine ⟨p, hcounted.alive_of_held, ?_⟩
  have hcount := hcounted.count p hcounted.alive_of_held
  simp only [nlmDeleteLockEntry, glistAddListTail, hlength, le_refl, if_true]
  simp only [held, List.count_cons_self] at hcount ⊢
  omega

end Delete

/-! ## The server -/

namespace Server

/-- The references that are neither of the list nor of the queue. -/
def holders (s : Server) : List ℕ :=
  s.handlers.map Handler.entry ++ s.tmpQueue.filterMap Callback.entry ++ s.async.entry.toList

/-- The number of references to `p` held by running handlers and queued callbacks, the
one that the asynchronous thread is at included. -/
def refs (s : Server) (p : ℕ) : ℕ :=
  (s.handlers.map Handler.entry).count p + (s.nlm.queue.filterMap Callback.entry).count p +
    (s.tmpQueue.filterMap Callback.entry).count p + s.async.entry.toList.count p

/-- The count of every allocated entry is the number of references to it, it is
allocated exactly as long as there is one, and nothing was unlinked when it was not on
the list. -/
structure RefsExact (s : Server) : Prop where
  count : ∀ p, s.nlm.alive p = true →
    (s.nlm.mem p).refCount = ((if p ∈ s.nlm.lockList then 1 else 0) + s.refs p : ℕ)
  /-- an entry is freed when its count becomes zero, and not before -/
  alive : ∀ p, s.nlm.alive p = true ↔ 0 < (if p ∈ s.nlm.lockList then 1 else 0) + s.refs p
  running : s.nlm.crashed = false

def Counted (s : Server) : Prop := Nlm.Counted s.nlm s.holders

variable {s : Server}

theorem held_eq (hnodup : s.nlm.lockList.Nodup) (p : ℕ) :
    held s.nlm s.holders p = (if p ∈ s.nlm.lockList then 1 else 0) + s.refs p := by
  rw [held, holders, refs, hnodup.count]
  simp only [List.count_append]
  omega

theorem Counted.refsExact (h : s.Counted) : s.RefsExact := by
  refine ⟨fun p hp => ?_, fun p => ?_, h.running⟩
  · rw [← held_eq h.nodup]
    exact h.count p hp
  · rw [← held_eq h.nodup]
    exact h.alive_iff p

theorem RefsExact.count_held (h : s.RefsExact) (hnodup : s.nlm.lockList.Nodup) {p : ℕ}
    (hp : s.nlm.alive p = true) : (s.nlm.mem p).refCount = held s.nlm s.holders p := by
  rw [held_eq hnodup]
  exact h.count p hp

theorem Counted.spawn {n : NlmState} {h : Handler} (hc : Nlm.Counted n (h.entry :: s.holders)) :
    ({ s with nlm := n }.spawn h).Counted := hc

theorem Counted.found {r : NlmState × Option ℕ} {h : ℕ → Handler} {stat : Nlm4Stats}
    (hentry : ∀ p, (h p).entry = p) (hc : Nlm.Counted r.1 (foundRefs r s.holders)) :
    (s.found r h stat).Counted := by
  obtain ⟨n, o⟩ := r
  cases o with
  | none => exact hc
  | some p =>
    apply Counted.spawn
    rw [hentry]
    exact hc

end Server

/-! ## Runs -/

/-- The action unlinks no entry that is not on the list, and loses no piece of an
unlocked range. -/
def KeepsRefs (s : Server) : Action → Prop
  | .handler (.cancelFound _ p) => p ∈ s.nlm.lockList
  | .handler (.unlockRead alock _ _) => splitCount s.nlm alock ≠ 1
  | .async _ _ => ∀ p, s.async = .sendRemove p → p ∈ s.nlm.lockList
  | _ => True

variable {s t : Server}

theorem counted_start (h : s.Counted) (r : Request) : (start s r).Counted := by
  cases r with
  | lock arg reclaim env =>
    simp only [start, nlm4Lock]
    split_ifs
    iterate 5 exact h
    exact Server.Counted.found (fun _ => rfl) (counted_nlmAddToLocklist h arg env.allocated)
  | unlock alock env =>
    simp only [start, nlm4Unlock]
    split_ifs
    iterate 3 exact h
    exact Server.Counted.found (fun _ => rfl) (counted_nlmFindLockEntry h alock false .granted)
  | cancel alock exclusive env =>
    simp only [start, nlm4Cancel]
    split_ifs
    iterate 3 exact h
    exact Server.Counted.found (fun _ => rfl) (counted_nlmFindLockEntry h alock exclusive .blocked)
  | grantedRes cookie stat =>
    have hfind := counted_nlmFindLockEntryByCookie h cookie
    simp only [start, nlm4GrantedRes]
    split
    next heq =>
      rw [heq] at hfind
      exact Server.Counted.spawn hfind
    next heq =>
      rw [heq] at hfind
      exact hfind
  | nodeRecovery name => exact counted_nlmNodeRecovery h name

theorem counted_resume {h : Handler} (hc : Nlm.Counted s.nlm (h.entry :: s.holders))
    (hkeep : KeepsRefs s (.handler h)) : (resume s h).Counted := by
  cases h with
  | unlockFound alock p => exact hc
  | unlockRead alock p lckState => exact counted_nlmDeleteLockEntry hc hkeep
  | unlockDeleted alock p lckState =>
    cases lckState with
    | granted => exact hc.queueScan alock.fh
    | blocked => exact hc
  | cancelFound alock p => exact hc.remove hkeep
  | lockAdded p | unlockQueued p | cancelRemoved p => exact hc.decRef
  | grantedResFound p stat =>
    cases stat with
    | deniedGracePeriod => exact hc.queueEntry rfl
    | _ => exact hc.decRef

theorem counted_takeHandler {h : Handler} (hc : s.Counted) (hh : h ∈ s.handlers) :
    Nlm.Counted s.nlm (h.entry :: { s with handlers := s.handlers.erase h }.holders) := by
  refine Nlm.Counted.perm hc ?_
  have hperm := (List.perm_cons_erase hh).map Handler.entry
  exact ((hperm.append_right _).append_right _)

theorem counted_asyncEntry {p : ℕ} (hc : s.Counted) (hp : s.async.entry = some p) :
    Nlm.Counted s.nlm (p :: (s.handlers.map Handler.entry ++
      s.tmpQueue.filterMap Callback.entry)) := by
  refine Nlm.Counted.perm hc ?_
  rw [Server.holders, hp]
  exact List.perm_append_singleton ..

theorem counted_asyncStep {ok : ℕ → Bool} {result : SendResult} (hc : s.Counted)
    (hkeep : KeepsRefs s (.async ok result)) (hst : asyncStep s ok result = some t) :
    t.Counted := by
  obtain ⟨nlm, handlers, tmpQueue, async, replies⟩ := s
  cases async with
  | idle =>
    cases tmpQueue with
    | cons c rest =>
      -- the callback moves from `nlm_async_tmp_queue` to the thread
      cases hst
      refine Nlm.Counted.perm hc ?_
      simp only [Server.holders, AsyncPc.entry, Option.toList_none, List.append_nil,
        List.append_assoc]
      apply List.Perm.append_left
      cases hentry : c.entry with
      | none => simp [hentry]
      | some p =>
        rw [List.filterMap_cons_some hentry]
        exact (List.perm_append_singleton ..).symm
    | nil =>
      simp only [asyncStep] at hst
      split at hst
      · cases hst
      -- the queue moves to `nlm_async_tmp_queue`
      cases hst
      refine Nlm.Counted.move hc (l := nlm.lockList) hc.nodup fun p => ?_
      simp only [held, Server.holders, List.filterMap_nil, List.count_nil, List.count_append,
        List.filterMap_reverse, List.count_reverse]
      omega
  | callback c =>
    cases c with
    | grantBlockedLocks fh =>
      cases hst
      exact counted_doNlmGrantBlockedLocks hc fh ok
    | sendGrantMsg p =>
      cases hst
      cases result <;> exact hc
    | resendGrantMsg p =>
      cases hst
      cases result <;> exact hc
  | sendRemove p =>
    cases hst
    exact Nlm.Counted.remove hc (hkeep p rfl)
  | sendQueue p =>
    cases hst
    exact Nlm.Counted.queueScan hc _
  | sendDecRef p =>
    cases hst
    have hdec := (counted_asyncEntry hc rfl).decRef
    simpa [Server.Counted, Server.holders, AsyncPc.entry] using hdec

/-- **A step** keeps the reference counts, if it meets the condition. -/
theorem counted_step {a : Action} (hc : s.Counted) (hst : serverStep s a = some t)
    (hkeep : KeepsRefs s a) : t.Counted := by
  obtain ⟨-, ⟨r, rfl, rfl⟩ | ⟨h, rfl, hh, rfl⟩ | ⟨ok, result, rfl, hasync⟩⟩ :=
    serverStep_cases hst
  · exact counted_start hc r
  · refine counted_resume (counted_takeHandler hc hh) ?_
    cases h <;> exact hkeep
  · exact counted_asyncStep hc hkeep hasync

theorem crashed_of_notMem {n : NlmState} {p : ℕ} (hp : p ∉ n.lockList) :
    (doNlmRemoveFromLocklist n p).crashed = true := by
  rw [doNlmRemoveFromLocklist, if_neg hp]

theorem keepsRefs_of_refsExact {a : Action} (hc : s.Counted) (hst : serverStep s a = some t)
    (ht : t.RefsExact) : KeepsRefs s a := by
  obtain ⟨-, ⟨r, rfl, rfl⟩ | ⟨h, rfl, hh, rfl⟩ | ⟨ok, result, rfl, hasync⟩⟩ :=
    serverStep_cases hst
  · exact trivial
  · cases h with
    | cancelFound alock p =>
      by_contra hp
      exact absurd ht.running (by simp [resume, Server.spawn, crashed_of_notMem hp])
    | unlockRead alock p lckState =>
      intro hsplit
      have htake := counted_takeHandler hc hh
      obtain ⟨q, halive, hne⟩ := not_counted_nlmDeleteLockEntry htake hsplit
      exact hne (ht.count_held (nodup_nlmDeleteLockEntry htake) halive)
    | _ => exact trivial
  · intro p hp
    by_contra hmem
    simp only [asyncStep, hp, Option.some.injEq] at hasync
    subst hasync
    exact absurd ht.running (by simp [crashed_of_notMem hmem])

theorem counted_nlmInit : nlmInit.Counted := by
  refine ⟨rfl, List.nodup_nil, fun p => ?_, fun p hp => ?_, fun p hp => ?_⟩
  · simp [nlmInit, nlmInitLocklist, held, Server.holders, AsyncPc.entry]
  · cases hp
  · cases hp

/-- **Reference counts are exact** throughout a run exactly when no step of it unlinks an
entry that is not on the list and no unlock leaves exactly one piece. -/
theorem refsExact_iff_keepsRefs (as : List Action) :
    Always serverStep Server.RefsExact nlmInit as ↔
      AllSteps serverStep (fun s a _ => KeepsRefs s a) nlmInit as :=
  always_iff_allSteps (I := Server.Counted) counted_nlmInit (fun _ hc => hc.refsExact)
    (fun _ _ _ hc hst hkeep => counted_step hc hst hkeep)
    (fun _ _ _ hc hst ht => keepsRefs_of_refsExact hc hst ht)

/-- Host 1 holds a lock, host 2 waits for it, and two cancellations of host 2 find its
entry before one of them removes it. -/
def cancelTwice : List Action :=
  [.request (.lock (exclusiveRequest 1 0 10) false clearEnv), .handler (.lockAdded 0),
    .request (.lock (exclusiveRequest 2 0 10) false clearEnv), .handler (.lockAdded 1),
    .request (.cancel (exclusiveRequest 2 0 10).alock true clearEnv),
    .request (.cancel (exclusiveRequest 2 0 10).alock true clearEnv),
    .handler (.cancelFound (exclusiveRequest 2 0 10).alock 1),
    .handler (.cancelFound (exclusiveRequest 2 0 10).alock 1)]

/-- The second of two cancellations unlinks an entry that is no longer on the list. -/
theorem cancelTwice_breaks_refsExact :
    ¬ Always serverStep Server.RefsExact nlmInit cancelTwice := by
  intro h
  have hcrash : (exec serverStep nlmInit cancelTwice).map (·.nlm.crashed) = some true := by
    decide +kernel
  obtain ⟨s, hs, hcrashed⟩ := Option.map_eq_some_iff.mp hcrash
  rw [(h.exec hs).running] at hcrashed
  cases hcrashed

end CloudNfs.Nlm
