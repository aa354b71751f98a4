import CloudNfs.Run
import CloudNfs.NlmList

/-!
# Granted NLM locks do not conflict

The contract of the lock list: no two granted entries of one file cover a common
byte while one of them is exclusive. The functions of `nlm_util.c` that touch
granted entries (adding, granting a blocked entry, splitting on unlock, removing)
keep it in any order, **as long as no requested range runs past the end of 64-bit
arithmetic**: a range that wraps has an end below its start, and the overlap test
then answers no.

The contract is stated about an abstract view of the list (`Safe`): the `LockInfo` at
each address, the addresses on the list and the next fresh address. One lemma for
each way the list changes (`Safe.sublist`, `Safe.add`, `Safe.grant`) carries all the
operations.
-/

namespace CloudNfs.Nlm

open Function (update update_self update_of_ne)

/-! ## What a range means, and when the 64-bit test agrees -/

/-- The bytes a range stands for; a length of zero means the rest of the file. -/
def nlmRange (start len : UInt64) : ByteRange :=
  ⟨start.toNat, if len = 0 then none else some len.toNat⟩

def LockInfo.range (e : LockInfo) : ByteRange := nlmRange e.start e.len

/-- The range ends, and its last byte stays, below `2 ^ 64`: computing its end neither
wraps nor meets the value that stands for the end of the file. -/
def Fits (start len : UInt64) : Prop := start.toNat + max len.toNat 1 < 2 ^ 64

instance (start len : UInt64) : Decidable (Fits start len) :=
  inferInstanceAs (Decidable (_ < _))

variable {start len : UInt64} {e : LockInfo} {s : NlmState} {l rest : List ℕ} {lock : Nlm4Lock}
  {p : ℕ} {acc : DeleteAcc}

theorem rangeEnd_zero : (rangeEnd start 0).toNat = 2 ^ 64 - 1 := by
  simp [rangeEnd]

theorem rangeEnd_toNat (hlen : len ≠ 0) (h : start.toNat + len.toNat < 2 ^ 64) :
    (rangeEnd start len).toNat = start.toNat + len.toNat := by
  rw [rangeEnd, if_pos hlen, UInt64.toNat_add, Nat.mod_eq_of_lt h]

theorem toNat_pos (h : len ≠ 0) : 0 < len.toNat :=
  Nat.pos_of_ne_zero fun h0 => h (UInt64.toNat_inj.mp h0)

theorem nlmRange_inhabited (start len : UInt64) : (nlmRange start len).Inhabited := by
  by_cases hlen : len = 0
  · simp [ByteRange.Inhabited, nlmRange, hlen]
  · have := toNat_pos hlen
    simp only [ByteRange.Inhabited, nlmRange, if_neg hlen, ne_eq, Option.some.injEq]
    omega

variable {offset llen lo hi : UInt64} {b : ℕ} {info : ℕ → LockInfo}

theorem beginsBefore_iff (h : Fits start len) (h' : Fits offset llen) :
    (nlmRange offset llen).BeginsBeforeEndOf (nlmRange start len) ↔
      offset < rangeEnd start len := by
  rw [UInt64.lt_iff_toNat_lt]
  by_cases hlen : len = 0
  · -- the rest of the file: the 64-bit end is `UINT64_MAX`, above every fitting start
    subst hlen
    rw [rangeEnd_zero]
    simp only [Fits] at h'
    simp only [ByteRange.BeginsBeforeEndOf, nlmRange, if_true]
    constructor
    · intro _
      omega
    · intro _ n hn
      cases hn
  · rw [rangeEnd_toNat hlen (by simp only [Fits] at h; omega)]
    simp [ByteRange.BeginsBeforeEndOf, nlmRange, hlen]

theorem rangesOverlap_iff (h : Fits start len) (h' : Fits offset llen) :
    rangesOverlap start len offset llen = true ↔
      (nlmRange start len).Overlap (nlmRange offset llen) := by
  rw [ByteRange.overlap_iff (nlmRange_inhabited _ _) (nlmRange_inhabited _ _),
    beginsBefore_iff h h', beginsBefore_iff h' h, rangesOverlap, Bool.and_eq_true,
    decide_eq_true_eq, decide_eq_true_eq]
  exact and_comm

/-- Two locks that must not both be granted. -/
def Conflict (e e' : LockInfo) : Prop :=
  e.fh = e'.fh ∧ e.range.Overlap e'.range ∧ (e.exclusive = true ∨ e'.exclusive = true)

theorem Conflict.symm {e' : LockInfo} (h : Conflict e e') : Conflict e' e :=
  ⟨h.1.symm, h.2.1.symm, h.2.2.symm⟩

/-! ## The contract, over an abstract view of the list -/

/-- No two different granted entries of the list conflict. -/
def Compatible (info : ℕ → LockInfo) (l : List ℕ) : Prop :=
  ∀ p ∈ l, ∀ q ∈ l, p ≠ q → (info p).state = .granted → (info q).state = .granted →
    ¬ Conflict (info p) (info q)

/-- The contract with what keeps it: the addresses are distinct and allocated, and
every range fits. -/
structure Safe (info : ℕ → LockInfo) (l : List ℕ) (fresh : ℕ) : Prop where
  nodup : l.Nodup
  below : ∀ p ∈ l, p < fresh
  fits : ∀ p ∈ l, Fits (info p).start (info p).len
  compatible : Compatible info l

namespace Safe

variable {info info' : ℕ → LockInfo} {l l' : List ℕ} {fresh : ℕ}

theorem sublist (h : Safe info l fresh) (hl : l'.Sublist l) : Safe info l' fresh :=
  ⟨h.nodup.sublist hl, fun p hp => h.below p (hl.subset hp), fun p hp => h.fits p (hl.subset hp),
    fun p hp q hq => h.compatible p (hl.subset hp) q (hl.subset hq)⟩

theorem add (h : Safe info l fresh) {e : LockInfo} (hfits : Fits e.start e.len)
    (hnew : e.state = .granted → ∀ q ∈ l, (info q).state = .granted → ¬ Conflict e (info q)) :
    Safe (update info fresh e) (l ++ [fresh]) (fresh + 1) := by
  have hold : ∀ q ∈ l, update info fresh e q = info q := fun q hq =>
    update_of_ne (Nat.ne_of_lt (h.below q hq)) _ _
  have hself : update info fresh e fresh = e := update_self ..
  refine ⟨?_, ?_, ?_, ?_⟩
  · rw [List.nodup_append]
    refine ⟨h.nodup, List.nodup_singleton _, fun p hp q hq => ?_⟩
    obtain rfl := List.mem_singleton.mp hq
    exact Nat.ne_of_lt (h.below p hp)
  · intro p hp
    rcases List.mem_append.mp hp with hp | hp
    · exact Nat.lt_succ_of_lt (h.below p hp)
    · obtain rfl := List.mem_singleton.mp hp
      exact Nat.lt_succ_self _
  · intro p hp
    rcases List.mem_append.mp hp with hp | hp
    · rw [hold p hp]
      exact h.fits p hp
    · obtain rfl := List.mem_singleton.mp hp
      rw [hself]
      exact hfits
  · intro p hp q hq hne hgp hgq
    rcases List.mem_append.mp hp with hpl | hpn <;> rcases List.mem_append.mp hq with hql | hqn
    · rw [hold p hpl] at hgp ⊢
      rw [hold q hql] at hgq ⊢
      exact h.compatible p hpl q hql hne hgp hgq
    · rw [List.mem_singleton.mp hqn, hself] at hgq ⊢
      rw [hold p hpl] at hgp ⊢
      exact fun hc => hnew hgq p hpl hgp hc.symm
    · rw [List.mem_singleton.mp hpn, hself] at hgp ⊢
      rw [hold q hql] at hgq ⊢
      exact hnew hgp q hql hgq
    · exact absurd ((List.mem_singleton.mp hpn).trans (List.mem_singleton.mp hqn).symm) hne

theorem grant (h : Safe info l fresh) {p : ℕ}
    (hfree : ∀ q ∈ l, q ≠ p → (info q).state = .granted → ¬ Conflict (info p) (info q)) :
    Safe (update info p { info p with state := .granted }) l fresh := by
  have hself : update info p { info p with state := .granted } p =
      { info p with state := .granted } := update_self ..
  have hold : ∀ q, q ≠ p →
      update info p { info p with state := .granted } q = info q := fun q hq =>
    update_of_ne hq _ _
  refine ⟨h.nodup, h.below, ?_, ?_⟩
  · intro q hq
    by_cases hqp : q = p
    · subst hqp
      rw [hself]
      exact h.fits q hq
    · rw [hold q hqp]
      exact h.fits q hq
  · intro x hx y hy hne hgx hgy
    by_cases hxp : x = p
    · subst hxp
      rw [hself, hold y (Ne.symm hne)]
      rw [hold y (Ne.symm hne)] at hgy
      exact hfree y hy (Ne.symm hne) hgy
    · rw [hold x hxp] at hgx ⊢
      by_cases hyp : y = p
      · subst hyp
        rw [hself]
        exact fun hc => hfree x hx hne hgx hc.symm
      · rw [hold y hyp] at hgy ⊢
        exact h.compatible x hx y hy hne hgx hgy

end Safe

/-! ## The contract of a state -/

namespace NlmState

def Safe (s : NlmState) : Prop := Nlm.Safe s.info s.lockList s.fresh

end NlmState

theorem Safe.alloc (h : Safe s.info l s.fresh) {e : NlmLockEntry} (hfits : Fits e.start e.len)
    (hnew : e.state = .granted → ∀ q ∈ l, (s.info q).state = .granted →
      ¬ Conflict e.toLockInfo (s.info q)) :
    Safe (s.alloc e).info (l ++ [s.fresh]) (s.alloc e).fresh := by
  rw [NlmState.info_alloc]
  exact h.add hfits hnew

/-! ## Each operation keeps the contract -/

theorem safe_remove (hs : s.Safe) (p : ℕ) : (doNlmRemoveFromLocklist s p).Safe := by
  rw [NlmState.Safe, NlmState.info_remove, NlmState.lockList_remove, NlmState.fresh_remove]
  exact Safe.sublist hs (List.erase_sublist ..)

theorem conflicts_of_conflict {exclusive : Bool} (hfits : Fits e.start e.len)
    (hlock : Fits lock.lOffset lock.lLen) (hov : e.range.Overlap (nlmRange lock.lOffset lock.lLen))
    (hex : e.exclusive = true ∨ exclusive = true) : conflicts e lock exclusive = true := by
  rw [conflicts, Bool.and_eq_true, Bool.or_eq_true]
  exact ⟨(rangesOverlap_iff hfits hlock).mpr hov, hex⟩

theorem safe_add (hs : s.Safe) (arg : Nlm4LockArgs) (ok : Bool)
    (hfits : Fits arg.alock.lOffset arg.alock.lLen) : (nlmAddToLocklist s arg ok).1.Safe := by
  rw [nlmAddToLocklist]
  split
  · -- an equal blocked entry is found again
    rw [NlmState.Safe, NlmState.info_incRef]
    exact hs
  cases ok with
  | false => exact hs
  | true =>
    refine Safe.alloc hs hfits fun hgranted q hq _ hc => ?_
    -- a granted new entry passed the test against every entry of its file
    have hseen : conflicts (s.info q) arg.alock arg.exclusive = true :=
      conflicts_of_conflict (hs.fits q hq) hfits hc.2.1.symm hc.2.2.symm
    have hany : (s.lockList.any fun p => decide ((s.mem p).fh = arg.alock.fh) &&
        conflicts (s.mem p).toLockInfo arg.alock arg.exclusive) = true := by
      rw [List.any_eq_true]
      refine ⟨q, hq, ?_⟩
      rw [Bool.and_eq_true, decide_eq_true_eq]
      exact ⟨hc.1.symm, hseen⟩
    simp only [nlm4LockToNlmLockEntry, hany] at hgranted
    cases hgranted

theorem safe_grantStep {fh : NetObj} {ok : ℕ → Bool} (hs : s.Safe)
    (hfits : Fits (s.mem p).start (s.mem p).len) : (grantStep fh ok s p).Safe := by
  rcases grantStep_cases fh ok s p with heq | ⟨q, -, heq⟩ | ⟨-, heq⟩ | ⟨-, hfree, heq⟩
  · rw [heq]
    exact hs
  · rw [heq, NlmState.Safe, NlmState.info_decRef, NlmState.info_incRef,
      NlmState.lockList_decRef, NlmState.fresh_decRef]
    exact hs
  · rw [heq]
    exact safe_remove hs p
  · rw [heq, NlmState.Safe, NlmState.info_nlmAsyncCallback, NlmState.info_set]
    refine Safe.grant hs fun q hq _ hgq hc => ?_
    have hseen : conflicts (s.info q) (dummyLock (s.info p)) (s.info p).exclusive = true :=
      conflicts_of_conflict (hs.fits q hq) hfits hc.2.1.symm hc.2.2.symm
    have hblocks : blocks (s.info q) (dummyLock (s.info p)) (s.info p).exclusive = true := by
      rw [blocks, hseen]
      simp [hc.1, hgq, dummyLock]
    rw [NlmState.info, NlmState.info, hfree q hq] at hblocks
    cases hblocks

theorem grantStep_range (fh : NetObj) (ok : ℕ → Bool) (s : NlmState) (p q : ℕ) :
    ((grantStep fh ok s p).info q).start = (s.info q).start ∧
      ((grantStep fh ok s p).info q).len = (s.info q).len := by
  rcases grantStep_cases fh ok s p with heq | ⟨r, -, heq⟩ | ⟨-, heq⟩ | ⟨-, -, heq⟩
  · rw [heq]
    exact ⟨rfl, rfl⟩
  · rw [heq, NlmState.info_decRef, NlmState.info_incRef]
    exact ⟨rfl, rfl⟩
  · rw [heq, NlmState.info_remove]
    exact ⟨rfl, rfl⟩
  · rw [heq, NlmState.info_nlmAsyncCallback, NlmState.info_set]
    by_cases hq : q = p
    · subst hq
      rw [update_self]
      exact ⟨rfl, rfl⟩
    · rw [update_of_ne hq]
      exact ⟨rfl, rfl⟩

theorem safe_grant (hs : s.Safe) (fh : NetObj) (ok : ℕ → Bool) :
    (doNlmGrantBlockedLocks s fh ok).Safe := by
  -- the entries still to be visited keep the ranges they had when the scan began
  refine (foldl_rest (I := fun rest t => t.Safe ∧ ∀ p ∈ rest, Fits (t.info p).start (t.info p).len)
    ?_ s.lockList s ⟨hs, hs.fits⟩).1
  rintro p rest t ⟨ht, hrest⟩
  refine ⟨safe_grantStep ht (hrest p (.head _)), fun q hq => ?_⟩
  obtain ⟨hstart, hlen⟩ := grantStep_range fh ok t p q
  rw [hstart, hlen]
  exact hrest q (.tail p hq)

theorem safe_recoveryStep {name : List UInt8} (hs : s.Safe) (p : ℕ) :
    (recoveryStep name s p).Safe := by
  have hremove : (doNlmRemoveFromLocklist (s.incRef p) p).Safe := by
    apply safe_remove
    rw [NlmState.Safe, NlmState.info_incRef]
    exact hs
  simp only [recoveryStep]
  split
  · rw [NlmState.Safe, NlmState.info_decRef, NlmState.lockList_decRef, NlmState.fresh_decRef]
    split
    · exact hremove
    · exact hremove
  · exact hs

theorem safe_recovery (hs : s.Safe) (name : List UInt8) : (nlmNodeRecovery s name).Safe :=
  foldl_rest (I := fun _ t => NlmState.Safe t)
    (fun p _ _ ht => safe_recoveryStep ht p) s.lockList s hs

/-! ## Splitting an entry -/

/-- The end of the unlocked range does not come before its start. -/
def EndsAfterStart (lock : Nlm4Lock) : Prop :=
  lock.lLen = 0 ∨ lock.lOffset.toNat + lock.lLen.toNat < 2 ^ 64

instance (lock : Nlm4Lock) : Decidable (EndsAfterStart lock) :=
  inferInstanceAs (Decidable (_ ∨ _))

theorem EndsAfterStart.le (h : EndsAfterStart lock) :
    lock.lOffset ≤ rangeEnd lock.lOffset lock.lLen := by
  rw [UInt64.le_iff_toNat_le]
  by_cases hlen : lock.lLen = 0
  · rw [hlen, rangeEnd_zero]
    have := lock.lOffset.toNat_lt
    omega
  · rw [rangeEnd_toNat hlen (h.resolve_left hlen)]
    omega

theorem mem_bytes_of_lt_rangeEnd (h : Fits start len) (hb : start.toNat ≤ b)
    (hend : b < (rangeEnd start len).toNat) : b ∈ (nlmRange start len).bytes := by
  rw [ByteRange.mem_bytes]
  refine ⟨hb, fun n hn => ?_⟩
  by_cases hlen : len = 0
  · simp [nlmRange, hlen] at hn
  · rw [rangeEnd_toNat hlen (by simp only [Fits] at h; omega)] at hend
    simp only [nlmRange, if_neg hlen, Option.some.injEq] at hn ⊢
    omega

theorem piece_fits (h : lo < hi) : Fits lo (hi - lo) := by
  rw [UInt64.lt_iff_toNat_lt] at h
  have hsub : (hi - lo).toNat = hi.toNat - lo.toNat := UInt64.toNat_sub_of_le _ _ (by
    rw [UInt64.le_iff_toNat_le]
    omega)
  have := hi.toNat_lt
  simp only [Fits, hsub]
  omega

theorem mem_piece (h : lo < hi) :
    b ∈ (nlmRange lo (hi - lo)).bytes ↔ lo.toNat ≤ b ∧ b < hi.toNat := by
  rw [UInt64.lt_iff_toNat_lt] at h
  have hsub : (hi - lo).toNat = hi.toNat - lo.toNat := UInt64.toNat_sub_of_le _ _ (by
    rw [UInt64.le_iff_toNat_le]
    omega)
  have hne : hi - lo ≠ 0 := fun h0 => by
    rw [h0, UInt64.toNat_zero] at hsub
    omega
  rw [ByteRange.mem_bytes]
  simp only [nlmRange, if_neg hne, Option.some.injEq, forall_eq', hsub]
  omega

/-- The entry may be granted beside the entries of the list. -/
def FreeAmong (e : LockInfo) (info : ℕ → LockInfo) (l : List ℕ) : Prop :=
  e.state = .granted → ∀ q ∈ l, (info q).state = .granted → ¬ Conflict e (info q)

/-- The lock of an entry on another range. -/
def LockInfo.withRange (e : LockInfo) (start len : UInt64) : LockInfo :=
  { e with start := start, len := len }

theorem FreeAmong.piece (h : FreeAmong e info l) (hsub : (nlmRange start len).bytes ⊆ e.range.bytes)
    : FreeAmong (e.withRange start len) info l :=
  fun hg q hq hgq hc => h hg q hq hgq ⟨hc.1, hc.2.1.mono hsub subset_rfl, hc.2.2⟩

theorem safe_addPiece {e : NlmLockEntry} (h : Safe acc.st.info (l ++ acc.split) acc.st.fresh)
    (hfits : Fits start len)
    (hfree : FreeAmong (e.toLockInfo.withRange start len) acc.st.info (l ++ acc.split)) :
    Safe (acc.addPiece e start len).st.info (l ++ (acc.addPiece e start len).split)
      (acc.addPiece e start len).st.fresh := by
  simp only [DeleteAcc.addPiece, ← List.append_assoc]
  exact Safe.alloc h hfits hfree

section Split

variable {acc : DeleteAcc} {e : NlmLockEntry} {lock : Nlm4Lock} {l : List ℕ}

theorem left_subset (hfits : Fits e.start e.len) (hleft : e.start < lock.lOffset)
    (hreach : lock.lOffset ≤ rangeEnd e.start e.len) :
    (nlmRange e.start (lock.lOffset - e.start)).bytes ⊆ e.range.bytes := by
  intro b hb
  rw [mem_piece hleft] at hb
  rw [UInt64.le_iff_toNat_le] at hreach
  exact mem_bytes_of_lt_rangeEnd hfits hb.1 (by omega)

theorem right_subset (hfits : Fits e.start e.len)
    (hright : rangeEnd lock.lOffset lock.lLen < rangeEnd e.start e.len)
    (hreach : e.start ≤ rangeEnd lock.lOffset lock.lLen) :
    (nlmRange (rangeEnd lock.lOffset lock.lLen)
      (rangeEnd e.start e.len - rangeEnd lock.lOffset lock.lLen)).bytes ⊆ e.range.bytes := by
  intro b hb
  rw [mem_piece hright] at hb
  rw [UInt64.le_iff_toNat_le] at hreach
  exact mem_bytes_of_lt_rangeEnd hfits (by omega) hb.2

theorem pieces_disjoint (hlock : EndsAfterStart lock) (hleft : e.start < lock.lOffset)
    (hright : rangeEnd lock.lOffset lock.lLen < rangeEnd e.start e.len) :
    ¬ (nlmRange (rangeEnd lock.lOffset lock.lLen)
        (rangeEnd e.start e.len - rangeEnd lock.lOffset lock.lLen)).Overlap
      (nlmRange e.start (lock.lOffset - e.start)) := by
  rintro ⟨b, hb, hb'⟩
  rw [mem_piece hright] at hb
  rw [mem_piece hleft] at hb'
  have hle := hlock.le
  rw [UInt64.le_iff_toNat_le] at hle
  omega

theorem safe_addRight (h : Safe acc.st.info (l ++ acc.split) acc.st.fresh)
    (hfree : rangeEnd lock.lOffset lock.lLen < rangeEnd e.start e.len →
      FreeAmong (e.toLockInfo.withRange (rangeEnd lock.lOffset lock.lLen)
        (rangeEnd e.start e.len - rangeEnd lock.lOffset lock.lLen)) acc.st.info
        (l ++ acc.split)) :
    Safe (acc.addRight e lock).st.info (l ++ (acc.addRight e lock).split)
      (acc.addRight e lock).st.fresh := by
  simp only [DeleteAcc.addRight]
  split
  next hr => exact safe_addPiece h (piece_fits hr) (hfree hr)
  · exact h

theorem safe_addPieces (h : Safe acc.st.info (l ++ acc.split) acc.st.fresh)
    (hlock : EndsAfterStart lock) (hfits : Fits e.start e.len)
    (hreach : outOfReach e.toLockInfo lock = false)
    (hfree : FreeAmong e.toLockInfo acc.st.info (l ++ acc.split)) :
    Safe ((acc.addLeft e lock).addRight e lock).st.info
      (l ++ ((acc.addLeft e lock).addRight e lock).split)
      ((acc.addLeft e lock).addRight e lock).st.fresh := by
  simp only [outOfReach, Bool.or_eq_false_iff, decide_eq_false_iff_not, UInt64.not_lt] at hreach
  rw [DeleteAcc.addLeft]
  split
  next hleft =>
    have hpiece := hfree.piece (left_subset hfits hleft hreach.2)
    apply safe_addRight (safe_addPiece h (piece_fits hleft) hpiece)
    -- the right piece meets the other entries as the whole entry does, and not the left piece
    intro hr hg q hq hgq hc
    simp only [DeleteAcc.addPiece, NlmState.info_alloc, ← List.append_assoc] at hq hgq hc
    rcases List.mem_append.mp hq with hq | hq
    · rw [update_of_ne (Nat.ne_of_lt (h.below q hq))] at hgq hc
      exact hfree.piece (right_subset hfits hr hreach.1) hg q hq hgq hc
    · rw [List.mem_singleton.mp hq, update_self] at hc
      exact pieces_disjoint hlock hleft hr hc.2.1
  · exact safe_addRight h fun hr => hfree.piece (right_subset hfits hr hreach.1)

end Split

/-- What holds in the loop of `nlm_delete_lock_entry`: the contract, of the list
together with `split_list`, and the entries still to be visited are on the list. -/
structure DeleteInv (rest : List ℕ) (acc : DeleteAcc) : Prop where
  safe : Safe acc.st.info (acc.st.lockList ++ acc.split) acc.st.fresh
  nodup : rest.Nodup
  subset : rest ⊆ acc.st.lockList

theorem DeleteInv.tail (h : DeleteInv (p :: rest) acc) : DeleteInv rest acc :=
  ⟨h.safe, h.nodup.of_cons, fun _ hq => h.subset (.tail p hq)⟩

theorem Safe.freeAmong {l' : List ℕ} {fresh : ℕ} (h : Safe info (l ++ l') fresh) (hp : p ∈ l) :
    FreeAmong (info p) info (l.erase p ++ l') := by
  intro hg q hq hgq
  have hnodup := List.nodup_append.mp h.nodup
  have hne : p ≠ q := by
    rcases List.mem_append.mp hq with hq | hq
    · exact fun heq => (hnodup.1.mem_erase_iff.mp hq).1 heq.symm
    · exact hnodup.2.2 p hp q hq
  refine h.compatible p (List.mem_append_left _ hp) q ?_ hne hg hgq
  rcases List.mem_append.mp hq with hq | hq
  · exact List.mem_append_left _ (List.mem_of_mem_erase hq)
  · exact List.mem_append_right _ hq

theorem deleteInv_doNlmDeleteLockEntry (hlock : EndsAfterStart lock) (h : DeleteInv (p :: rest) acc)
    : DeleteInv rest (doNlmDeleteLockEntry lock acc p) := by
  have hp : p ∈ acc.st.lockList := h.subset List.mem_cons_self
  have hsafe : Safe acc.st.info (acc.st.lockList.erase p ++ acc.split) acc.st.fresh :=
    h.safe.sublist (List.Sublist.append_right (List.erase_sublist ..) _)
  have hrest : rest ⊆ acc.st.lockList.erase p := by
    intro q hq
    have hne : q ≠ p := fun heq => (List.nodup_cons.mp h.nodup).1 (heq ▸ hq)
    exact (List.mem_erase_of_ne hne).mpr (h.subset (.tail p hq))
  simp only [doNlmDeleteLockEntry]
  split
  · exact h.tail
  rename_i hreach
  split
  · refine ⟨?_, h.nodup.of_cons, ?_⟩
    · simp only [NlmState.info_remove, NlmState.lockList_remove, NlmState.fresh_remove]
      exact hsafe
    · simp only [NlmState.lockList_remove]
      exact hrest
  · refine ⟨?_, h.nodup.of_cons, ?_⟩
    · simp only [NlmState.info_remove, NlmState.lockList_remove, NlmState.fresh_remove,
        lockList_addPieces]
      exact safe_addPieces hsafe hlock (h.safe.fits p (List.mem_append_left _ hp))
        (Bool.eq_false_iff.mpr hreach) (h.safe.freeAmong hp)
    · simp only [NlmState.lockList_remove, lockList_addPieces]
      exact hrest

theorem deleteInv_deleteStep (hlock : EndsAfterStart lock) (h : DeleteInv (p :: rest) acc) :
    DeleteInv rest (deleteStep lock acc p) := by
  rw [deleteStep]
  split
  · exact deleteInv_doNlmDeleteLockEntry hlock h
  · exact h.tail

theorem safe_delete (hs : s.Safe) (hlock : EndsAfterStart lock) :
    (nlmDeleteLockEntry s lock).1.Safe := by
  have hinit : DeleteInv s.lockList ⟨s, [], 0⟩ :=
    ⟨by simpa [NlmState.Safe] using hs, hs.nodup, List.Subset.refl _⟩
  have hend : DeleteInv [] (deleteLoop s lock) :=
    foldl_rest (I := DeleteInv) (fun _ _ _ h => deleteInv_deleteStep hlock h) s.lockList _ hinit
  -- `glist_add_list_tail` lists all the pieces or none of them
  have hsub : (glistAddListTail (deleteLoop s lock).st.lockList (deleteLoop s lock).split).Sublist
      ((deleteLoop s lock).st.lockList ++ (deleteLoop s lock).split) := by
    rw [glistAddListTail]
    split
    · exact List.sublist_append_left ..
    · exact List.Sublist.refl _
  exact hend.safe.sublist hsub

/-! ## Runs -/

inductive ListOp where
  /-- `nlm_add_to_locklist`, with the result of its allocation -/
  | add (arg : Nlm4LockArgs) (ok : Bool)
  /-- `nlm_delete_lock_entry` -/
  | delete (lock : Nlm4Lock)
  /-- `nlm_remove_from_locklist` -/
  | remove (p : ℕ)
  /-- `do_nlm_grant_blocked_locks`, with the results of its allocations -/
  | grantBlocked (fh : NetObj) (ok : ℕ → Bool)
  | nodeRecovery (name : List UInt8)

def runListOp (s : NlmState) : ListOp → NlmState
  | .add arg ok => (nlmAddToLocklist s arg ok).1
  | .delete lock => (nlmDeleteLockEntry s lock).1
  | .remove p => doNlmRemoveFromLocklist s p
  | .grantBlocked fh ok => doNlmGrantBlockedLocks s fh ok
  | .nodeRecovery name => nlmNodeRecovery s name

def listStep (s : NlmState) (op : ListOp) : Option NlmState :=
  if s.crashed then none else some (runListOp s op)

/-- The ranges of the call do not run past the end of 64-bit arithmetic. -/
def ListOp.RangeFits : ListOp → Prop
  | .add arg _ => Fits arg.alock.lOffset arg.alock.lLen
  | .delete lock => EndsAfterStart lock
  | _ => True

theorem safe_init : nlmInitLocklist.Safe :=
  ⟨List.nodup_nil, fun _ h => absurd h List.not_mem_nil, fun _ h => absurd h List.not_mem_nil,
    fun _ h => absurd h List.not_mem_nil⟩

theorem safe_runListOp (hs : s.Safe) {op : ListOp} (hop : op.RangeFits) :
    (runListOp s op).Safe := by
  cases op with
  | add arg ok => exact safe_add hs arg ok hop
  | delete lock => exact safe_delete hs hop
  | remove p => exact safe_remove hs p
  | grantBlocked fh ok => exact safe_grant hs fh ok
  | nodeRecovery name => exact safe_recovery hs name

/-- **Granted locks do not conflict**: in every run of the calls in which no requested
and no unlocked range wraps, no two granted entries of a file share a byte while one of
them is exclusive. -/
theorem compatible_of_rangeFits (ops : List ListOp)
    (h : AllSteps listStep (fun _ op _ => op.RangeFits) nlmInitLocklist ops) :
    Always listStep (fun s => Compatible s.info s.lockList) nlmInitLocklist ops := by
  have hsafe : Always listStep NlmState.Safe nlmInitLocklist ops := by
    refine always_of_allSteps safe_init (fun s op t hs hst hop => ?_) h
    rw [listStep] at hst
    split at hst
    · cases hst
    · cases hst
      exact safe_runListOp hs hop
  exact hsafe.mono fun _ hs => Safe.compatible hs

/-- Two hosts lock, the first one unlocks the middle of its range, and the second one's
blocked request is looked at again. -/
theorem compatible_of_rangeFits_run :
    Always listStep (fun s => Compatible s.info s.lockList) nlmInitLocklist
      [.add (exclusiveRequest 1 0 100) true, .add (exclusiveRequest 2 40 20) true,
        .delete (exclusiveRequest 1 30 40).alock, .grantBlocked [7] fun _ => true] := by
  apply compatible_of_rangeFits
  refine fun _ _ => ⟨?_, fun _ _ => ⟨?_, fun _ _ => ⟨?_, fun _ _ => ⟨trivial, trivial⟩⟩⟩⟩
  · show Fits 0 100
    decide
  · show Fits 40 20
    decide
  · show EndsAfterStart (exclusiveRequest 1 30 40).alock
    decide

/-- A lock from byte 10 with the length `UINT64_MAX` wraps to the end 9, and an
exclusive lock on the bytes 20 to 29 is granted beside it. -/
theorem wrappedRange_breaks_compatible :
    ¬ Always listStep (fun s => Compatible s.info s.lockList) nlmInitLocklist
      [.add (exclusiveRequest 1 10 0xffffffffffffffff) true,
        .add (exclusiveRequest 2 20 10) true] := by
  intro h
  have hc := (h.2 _ rfl).2 _ rfl
  refine hc 0 (by decide) 1 (by decide) (by decide) (by decide) (by decide) ⟨by decide, ?_,
    Or.inl (by decide)⟩
  refine ⟨20, ⟨by decide, fun n hn => ?_⟩, ⟨by decide, fun n hn => ?_⟩⟩
  · obtain rfl : n = 0xffffffffffffffff := (Option.some.inj hn).symm
    decide
  · obtain rfl : n = 10 := (Option.some.inj hn).symm
    decide

end CloudNfs.Nlm
