import CloudNfs.NlmUnlock

/-!
# A granted lock stays recorded

A client whose blocked request was granted is told so by a `GRANTED_MSG` call. From
then on each byte of the lock should stay on the lock list until its owner unlocks or
cancels it or its host is recovered.

The history of a run (`History`) records what the list does not say: which entries a
scan has granted, whose client was told, which ranges were released, and which locks the
code itself has dropped. It is kept beside the server and never read by it.

`Evolves Gone n n'` is what every operation of `nlm_util.c` does to the list: addresses
are never reused, an entry never changes but for being granted, and an entry that leaves
the list is one of `Gone`. `LeftAt` says besides what an unlock leaves of the entries it
takes apart. With them the contract is reduced to one look at each action, and what remains
is **the clean-up of `nlm4_send_grant_msg`**, which removes the entry it has just announced,
and an unlock that leaves a single piece, which `glist_add_list_tail` loses.
-/

namespace CloudNfs.Nlm

/-! ## What the operations do to the list -/

structure SameLock (e e' : LockInfo) : Prop where
  eq : e' = { e with state := e'.state }
  granted : e.state = .granted → e'.state = .granted

theorem SameLock.refl (e : LockInfo) : SameLock e e := ⟨rfl, id⟩

variable {e e' : LockInfo} {r : NlmState × Option ℕ} {n : NlmState} {ok : ℕ → Bool}
  {result : SendResult}

theorem SameLock.trans {e'' : LockInfo} (h : SameLock e e') (h' : SameLock e' e'') :
    SameLock e e'' := by
  refine ⟨?_, h'.granted ∘ h.granted⟩
  rw [h'.eq, h.eq]

theorem SameLock.sameOwner (h : SameLock e e') (lock : Nlm4Lock) :
    Nlm.sameOwner e' lock = Nlm.sameOwner e lock := by
  rw [h.eq]
  rfl

/-- What an operation may do: `Gone` are the entries that may leave the list. -/
structure Evolves (Gone : ℕ → Prop) (n n' : NlmState) : Prop where
  fresh_le : n.fresh ≤ n'.fresh
  same : ∀ p < n.fresh, SameLock (n.info p) (n'.info p)
  listed : ∀ p ∈ n'.lockList, p ∈ n.lockList ∨ (n.fresh ≤ p ∧ p < n'.fresh)
  /-- entries that leave the list are `Gone` -/
  left : ∀ p ∈ n.lockList, p ∈ n'.lockList ∨ Gone p
  fits : ∀ p, n.fresh ≤ p → p < n'.fresh → Fits (n'.info p).start (n'.info p).len

namespace Evolves

variable {Gone Gone' : ℕ → Prop} {n n' n'' : NlmState} {p : ℕ}

theorem mono (h : Evolves Gone n n') (hG : ∀ p, Gone p → Gone' p) : Evolves Gone' n n' :=
  ⟨h.fresh_le, h.same, h.listed, fun p hp => (h.left p hp).imp_right (hG p), h.fits⟩

theorem trans (h : Evolves Gone n n') (h' : Evolves Gone n' n'') : Evolves Gone n n'' := by
  refine ⟨h.fresh_le.trans h'.fresh_le, fun p hp => ?_, fun p hp => ?_, fun p hp => ?_,
    fun p hge hlt => ?_⟩
  · exact (h.same p hp).trans (h'.same p (hp.trans_le h.fresh_le))
  · rcases h'.listed p hp with hp' | ⟨hge, hlt⟩
    · rcases h.listed p hp' with hp'' | ⟨hge, hlt⟩
      · exact .inl hp''
      · exact .inr ⟨hge, hlt.trans_le h'.fresh_le⟩
    · exact .inr ⟨h.fresh_le.trans hge, hlt⟩
  · rcases h.left p hp with hp' | hG
    · exact h'.left p hp'
    · exact .inr hG
  · rcases Nat.lt_or_ge p n'.fresh with hlt' | hge'
    · have hsame := (h'.same p hlt').eq
      rw [hsame]
      exact h.fits p hge hlt'
    · exact h'.fits p hge' hlt

theorem of_eq (hfresh : n'.fresh = n.fresh) (hinfo : n'.info = n.info)
    (hlist : n'.lockList = n.lockList) : Evolves Gone n n' := by
  refine ⟨hfresh.ge, fun p _ => ?_, fun p hp => ?_, fun p hp => ?_, fun p hge hlt => ?_⟩
  · rw [hinfo]
    exact SameLock.refl _
  · rw [hlist] at hp
    exact .inl hp
  · rw [hlist]
    exact .inl hp
  · rw [hfresh] at hlt
    exact absurd hlt (Nat.not_lt.mpr hge)

theorem remove (hp : Gone p) : Evolves Gone n (doNlmRemoveFromLocklist n p) := by
  refine ⟨NlmState.fresh_remove.ge, fun q _ => ?_, fun q hq => ?_, fun q hq => ?_,
    fun q hge hlt => ?_⟩
  · rw [NlmState.info_remove]
    exact SameLock.refl _
  · rw [NlmState.lockList_remove] at hq
    exact .inl (List.mem_of_mem_erase hq)
  · rw [NlmState.lockList_remove]
    by_cases hqp : q = p
    · exact .inr (hqp ▸ hp)
    · exact .inl ((List.mem_erase_of_ne hqp).mpr hq)
  · rw [NlmState.fresh_remove] at hlt
    exact absurd hlt (Nat.not_lt.mpr hge)

theorem alloc {e : NlmLockEntry} {l : List ℕ} (hfits : Fits e.start e.len)
    (hl : ∀ p ∈ l, p ∈ n.lockList ∨ p = n.fresh) (hkeep : n.lockList ⊆ l) :
    Evolves Gone n { n.alloc e with lockList := l } := by
  refine ⟨Nat.le_succ _, fun p hp => ?_, fun p hp => ?_, fun p hp => Or.inl (hkeep hp),
    fun p hge hlt => ?_⟩
  · have hinfo : NlmState.info { n.alloc e with lockList := l } p = n.info p := by
      rw [show NlmState.info { n.alloc e with lockList := l } = (n.alloc e).info from rfl,
        NlmState.info_alloc, Function.update_of_ne (Nat.ne_of_lt hp)]
    rw [hinfo]
    exact SameLock.refl _
  · rcases hl p hp with hp | rfl
    · exact .inl hp
    · exact .inr ⟨Nat.le_refl _, Nat.lt_succ_self _⟩
  · obtain rfl : p = n.fresh := Nat.le_antisymm (Nat.lt_succ_iff.mp hlt) hge
    have hinfo : NlmState.info { n.alloc e with lockList := l } n.fresh = e.toLockInfo := by
      rw [show NlmState.info { n.alloc e with lockList := l } = (n.alloc e).info from rfl,
        NlmState.info_alloc, Function.update_self]
    rw [hinfo]
    exact hfits

end Evolves

section Operations

variable {n : NlmState}

theorem evolves_add (arg : Nlm4LockArgs) (ok : Bool)
    (hfits : Fits arg.alock.lOffset arg.alock.lLen) :
    Evolves (fun _ => False) n (nlmAddToLocklist n arg ok).1 := by
  rw [nlmAddToLocklist]
  split
  · exact Evolves.of_eq rfl NlmState.info_incRef rfl
  cases ok with
  | false => exact Evolves.of_eq rfl rfl rfl
  | true =>
    refine Evolves.alloc hfits (fun p hp => ?_) (List.subset_append_left _ _)
    rcases List.mem_append.mp hp with hp | hp
    · exact .inl hp
    · exact .inr (List.mem_singleton.mp hp)

variable {Gone : ℕ → Prop} {rest : List ℕ} {acc : DeleteAcc}

theorem evolves_grantStep (fh : NetObj) (ok : ℕ → Bool) (p : ℕ)
    (hp : (n.info p).state = .blocked → Gone p) : Evolves Gone n (grantStep fh ok n p) := by
  rcases grantStep_cases fh ok n p with heq | ⟨q, -, heq⟩ | ⟨hb, heq⟩ | ⟨-, -, heq⟩
  · rw [heq]
    exact Evolves.of_eq rfl rfl rfl
  · rw [heq]
    refine Evolves.of_eq ?_ ?_ ?_
    · rw [NlmState.fresh_decRef, NlmState.fresh_incRef]
    · rw [NlmState.info_decRef, NlmState.info_incRef]
    · rw [NlmState.lockList_decRef, NlmState.lockList_incRef]
  · rw [heq]
    exact Evolves.remove (hp hb)
  · rw [heq]
    refine ⟨Nat.le_refl _, fun q _ => ?_, fun q hq => Or.inl hq, fun q hq => Or.inl hq,
      fun q hge hlt => absurd hlt (Nat.not_lt.mpr hge)⟩
    rw [NlmState.info_nlmAsyncCallback, NlmState.info_set]
    by_cases hq : q = p
    · subst hq
      rw [Function.update_self]
      exact ⟨rfl, fun _ => rfl⟩
    · rw [Function.update_of_ne hq]
      exact SameLock.refl _

theorem evolves_grant (fh : NetObj) (ok : ℕ → Bool) (hbelow : ∀ p ∈ n.lockList, p < n.fresh) :
    Evolves (fun p => (n.info p).state = .blocked) n (doNlmGrantBlockedLocks n fh ok) := by
  refine (foldl_rest (I := fun rest t => Evolves (fun p => (n.info p).state = .blocked) n t ∧
      ∀ p ∈ rest, p < n.fresh) ?_ n.lockList n ⟨Evolves.of_eq rfl rfl rfl, hbelow⟩).1
  rintro p rest t ⟨ht, hrest⟩
  refine ⟨ht.trans (evolves_grantStep fh ok p fun hb => ?_),
    fun q hq => hrest q (.tail p hq)⟩
  -- an entry that is blocked now was blocked when the scan began
  cases hstate : (n.info p).state with
  | blocked => rfl
  | granted =>
    rw [(ht.same p (hrest p (.head _))).granted hstate] at hb
    cases hb

theorem evolves_recoveryStep (name : List UInt8) (p : ℕ)
    (hp : (n.info p).callerName = name → Gone p) : Evolves Gone n (recoveryStep name n p) := by
  simp only [recoveryStep]
  split
  next hname =>
    have hinc : Evolves Gone n (n.incRef p) := Evolves.of_eq rfl NlmState.info_incRef rfl
    have hremove : Evolves Gone n (doNlmRemoveFromLocklist (n.incRef p) p) :=
      hinc.trans (Evolves.remove (hp hname))
    split
    · exact hremove.trans (Evolves.of_eq NlmState.fresh_decRef NlmState.info_decRef
        NlmState.lockList_decRef)
    · exact hremove.trans (Evolves.of_eq NlmState.fresh_decRef NlmState.info_decRef
        NlmState.lockList_decRef)
  · exact Evolves.of_eq rfl rfl rfl

theorem evolves_recovery (name : List UInt8) (hbelow : ∀ p ∈ n.lockList, p < n.fresh) :
    Evolves (fun p => (n.info p).callerName = name) n (nlmNodeRecovery n name) := by
  refine (foldl_rest (I := fun rest t => Evolves (fun p => (n.info p).callerName = name) n t ∧
      ∀ p ∈ rest, p < n.fresh) ?_ n.lockList n ⟨Evolves.of_eq rfl rfl rfl, hbelow⟩).1
  rintro p rest t ⟨ht, hrest⟩
  refine ⟨ht.trans (evolves_recoveryStep name p fun hname => ?_),
    fun q hq => hrest q (.tail p hq)⟩
  have hsame := (ht.same p (hrest p (.head _))).eq
  rw [hsame] at hname
  exact hname

/-- What holds in the loop of `nlm_delete_lock_entry`. -/
structure DeleteEvolves (Gone : ℕ → Prop) (n : NlmState) (rest : List ℕ) (acc : DeleteAcc) :
    Prop where
  evolves : Evolves Gone n acc.st
  split : ∀ p ∈ acc.split, n.fresh ≤ p ∧ p < acc.st.fresh
  rest : ∀ p ∈ rest, p < n.fresh

theorem DeleteEvolves.addPiece (h : DeleteEvolves Gone n rest acc) (e : NlmLockEntry)
    {start len : UInt64} (hfits : Fits start len) :
    DeleteEvolves Gone n rest (acc.addPiece e start len) := by
  refine ⟨h.evolves.trans ?_, fun p hp => ?_, h.rest⟩
  · exact Evolves.alloc (n := acc.st) (l := acc.st.lockList) hfits (fun _ hp => Or.inl hp)
      (List.Subset.refl _)
  · rcases List.mem_append.mp hp with hp | hp
    · obtain ⟨hge, hlt⟩ := h.split p hp
      exact ⟨hge, Nat.lt_succ_of_lt hlt⟩
    · obtain rfl := List.mem_singleton.mp hp
      exact ⟨h.evolves.fresh_le, Nat.lt_succ_self _⟩

theorem DeleteEvolves.addPieces (h : DeleteEvolves Gone n rest acc) (e : NlmLockEntry)
    (lock : Nlm4Lock) : DeleteEvolves Gone n rest ((acc.addLeft e lock).addRight e lock) := by
  have hleft : DeleteEvolves Gone n rest (acc.addLeft e lock) := by
    rw [DeleteAcc.addLeft]
    split
    next hlt => exact h.addPiece e (piece_fits hlt)
    · exact h
  simp only [DeleteAcc.addRight]
  split
  next hlt => exact hleft.addPiece e (piece_fits hlt)
  · exact hleft

theorem deleteEvolves_step {lock : Nlm4Lock} {p : ℕ}
    (h : DeleteEvolves (fun p => sameOwner (n.info p) lock = true) n (p :: rest) acc) :
    DeleteEvolves (fun p => sameOwner (n.info p) lock = true) n rest
      (deleteStep lock acc p) := by
  have htail : DeleteEvolves (fun p => sameOwner (n.info p) lock = true) n rest acc :=
    ⟨h.evolves, h.split, fun q hq => h.rest q (.tail p hq)⟩
  rw [deleteStep]
  split
  next howner =>
    have hgone : sameOwner (n.info p) lock = true := by
      rw [← (h.evolves.same p (h.rest p (.head _))).sameOwner]
      exact howner
    have hremove : ∀ {acc : DeleteAcc} {cnt : ℤ},
        DeleteEvolves (fun p => sameOwner (n.info p) lock = true) n rest acc →
        DeleteEvolves (fun p => sameOwner (n.info p) lock = true) n rest
          ⟨doNlmRemoveFromLocklist acc.st p, acc.split, cnt⟩ := by
      intro acc cnt h
      refine ⟨h.evolves.trans (Evolves.remove hgone), ?_, h.rest⟩
      simp only [NlmState.fresh_remove]
      exact h.split
    simp only [doNlmDeleteLockEntry]
    split
    · exact htail
    · split
      · exact hremove htail
      · exact hremove (htail.addPieces _ lock)
  · exact htail

theorem evolves_delete (lock : Nlm4Lock) (hbelow : ∀ p ∈ n.lockList, p < n.fresh) :
    Evolves (fun p => sameOwner (n.info p) lock = true) n (nlmDeleteLockEntry n lock).1 := by
  have hloop : DeleteEvolves (fun p => sameOwner (n.info p) lock = true) n []
      (deleteLoop n lock) := by
    refine foldl_rest (I := DeleteEvolves (fun p => sameOwner (n.info p) lock = true) n)
      (fun _ _ _ h => deleteEvolves_step h) n.lockList _ ⟨Evolves.of_eq rfl rfl rfl, ?_, hbelow⟩
    exact fun p hp => absurd hp List.not_mem_nil
  have hev := hloop.evolves
  simp only [nlmDeleteLockEntry, glistAddListTail]
  refine ⟨hev.fresh_le, hev.same, fun p hp => ?_, fun p hp => ?_, hev.fits⟩
  · split at hp
    · exact hev.listed p hp
    · rcases List.mem_append.mp hp with hp | hp
      · exact hev.listed p hp
      · exact .inr (hloop.split p hp)
  · refine (hev.left p hp).imp_left fun hp => ?_
    split
    · exact hp
    · exact List.mem_append_left _ hp

end Operations

/-! ## What an unlock leaves of an entry -/

/-- A lock of the same owner, on the same file and in the same mode. -/
def Kin (e e' : LockInfo) : Prop :=
  e.callerName = e'.callerName ∧ e.fh = e'.fh ∧ e.oh = e'.oh ∧ e.svid = e'.svid ∧
    e.exclusive = e'.exclusive

instance (e e' : LockInfo) : Decidable (Kin e e') := inferInstanceAs (Decidable (_ ∧ _))

theorem Kin.refl (e : LockInfo) : Kin e e := ⟨rfl, rfl, rfl, rfl, rfl⟩

theorem Kin.trans {e'' : LockInfo} (h : Kin e e') (h' : Kin e' e'') : Kin e e'' :=
  ⟨h.1.trans h'.1, h.2.1.trans h'.2.1, h.2.2.1.trans h'.2.2.1, h.2.2.2.1.trans h'.2.2.2.1,
    h.2.2.2.2.trans h'.2.2.2.2⟩

theorem Kin.sameOwner (h : Kin e e') (lock : Nlm4Lock) :
    Nlm.sameOwner e lock = Nlm.sameOwner e' lock := by
  rw [Nlm.sameOwner, Nlm.sameOwner, h.1, h.2.1, h.2.2.1, h.2.2.2.1]

theorem SameLock.kin (h : SameLock e e') : Kin e' e := by
  rw [h.eq]
  exact Kin.refl e

theorem SameLock.heldBytes (h : SameLock e e') : e'.heldBytes = e.heldBytes := by
  rw [h.eq]
  rfl

/-- Among the entries `l` there is one that is left of the lock `e` at a byte. -/
def LeftAt (info : ℕ → LockInfo) (l : List ℕ) (e : LockInfo) (b : ℕ) : Prop :=
  ∃ q ∈ l, Kin (info q) e ∧ (info q).state = .granted ∧ b ∈ (info q).heldBytes

section Delete

variable {lock : Nlm4Lock} {b p : ℕ} {acc : DeleteAcc} {entry : NlmLockEntry} {start len : UInt64}
  {Gone : ℕ → Prop} {rest : List ℕ}

theorem noWrap_of_fits (h : Fits start len) : NoWrap start len := by
  unfold Fits at h
  unfold NoWrap
  omega

/-- A byte outside of the unlocked range is before its start or behind the end that the code
computes, which is not above the real one. -/
theorem outside_bytes (hout : b ∉ lock.bytes) :
    b < lock.lOffset.toNat ∨ (rangeEnd lock.lOffset lock.lLen).toNat ≤ b := by
  by_contra hcon
  obtain ⟨hstart, hend⟩ := not_or.mp hcon
  refine hout ⟨Nat.le_of_not_lt hstart, fun m hm => ?_⟩
  by_cases hlen : lock.lLen = 0
  · simp [nlmRange, hlen] at hm
  · obtain rfl : lock.lLen.toNat = m := by simpa [nlmRange, hlen] using hm
    rw [rangeEnd, if_pos hlen, UInt64.toNat_add] at hend
    have hle := Nat.mod_le (lock.lOffset.toNat + lock.lLen.toNat) (2 ^ 64)
    show b < lock.lOffset.toNat + lock.lLen.toNat
    omega

theorem LeftAt.addPiece (hbelow : ∀ q ∈ acc.split, q < acc.st.fresh)
    (h : LeftAt acc.st.info acc.split e b) :
    LeftAt (acc.addPiece entry start len).st.info (acc.addPiece entry start len).split e b := by
  obtain ⟨q, hq, hleft⟩ := h
  refine ⟨q, List.mem_append_left _ hq, ?_⟩
  simp only [DeleteAcc.addPiece, NlmState.info_alloc,
    Function.update_of_ne (Nat.ne_of_lt (hbelow q hq))]
  exact hleft

theorem leftAt_addPiece {lo hi : UInt64} (h : lo < hi) (hstate : entry.state = .granted)
    (hb : lo.toNat ≤ b ∧ b < hi.toNat) :
    LeftAt (acc.addPiece entry lo (hi - lo)).st.info (acc.addPiece entry lo (hi - lo)).split
      entry.toLockInfo b := by
  refine ⟨acc.st.fresh, List.mem_append_right _ (List.mem_singleton_self _), ?_⟩
  simp only [DeleteAcc.addPiece, NlmState.info_alloc, Function.update_self]
  exact ⟨Kin.refl _, hstate, (mem_heldBytes_piece (e := entry.toLockInfo) h).mpr hb⟩

theorem leftAt_addPieces (h : DeleteEvolves Gone n rest acc) (hstate : entry.state = .granted)
    (hfits : Fits entry.start entry.len) (hb : b ∈ entry.heldBytes) (hout : b ∉ lock.bytes) :
    LeftAt ((acc.addLeft entry lock).addRight entry lock).st.info
      ((acc.addLeft entry lock).addRight entry lock).split entry.toLockInfo b := by
  obtain ⟨hstart, hend⟩ := (mem_heldBytes (noWrap_of_fits hfits)).mp hb
  rcases outside_bytes hout with hleft | hright
  · -- before the range
    have hlt : entry.start < lock.lOffset := by
      rw [UInt64.lt_iff_toNat_lt]
      omega
    rw [DeleteAcc.addLeft, if_pos hlt]
    have hpiece := @leftAt_addPiece b acc entry entry.start lock.lOffset hlt hstate ⟨hstart, hleft⟩
    simp only [DeleteAcc.addRight]
    split
    · exact hpiece.addPiece fun q hq => ((h.addPiece entry (piece_fits hlt)).split q hq).2
    · exact hpiece
  · -- behind it
    have hlt : rangeEnd lock.lOffset lock.lLen < rangeEnd entry.start entry.len := by
      rw [UInt64.lt_iff_toNat_lt]
      omega
    simp only [DeleteAcc.addRight, if_pos hlt]
    exact leftAt_addPiece hlt hstate ⟨hright, hend⟩

theorem LeftAt.addPieces (h : DeleteEvolves Gone n rest acc)
    (hleft : LeftAt acc.st.info acc.split e b) :
    LeftAt ((acc.addLeft entry lock).addRight entry lock).st.info
      ((acc.addLeft entry lock).addRight entry lock).split e b := by
  have hfirst : LeftAt (acc.addLeft entry lock).st.info (acc.addLeft entry lock).split e b ∧
      DeleteEvolves Gone n rest (acc.addLeft entry lock) := by
    rw [DeleteAcc.addLeft]
    split
    next hlt => exact ⟨hleft.addPiece fun q hq => (h.split q hq).2, h.addPiece _ (piece_fits hlt)⟩
    · exact ⟨hleft, h⟩
  simp only [DeleteAcc.addRight]
  split
  · exact hfirst.1.addPiece fun q hq => (hfirst.2.split q hq).2
  · exact hfirst.1

theorem length_addPieces : ((acc.addLeft entry lock).addRight entry lock).split.length =
    acc.split.length + ((if entry.start < lock.lOffset then 1 else 0) +
      if rangeEnd lock.lOffset lock.lLen < rangeEnd entry.start entry.len then 1 else 0) := by
  simp only [DeleteAcc.addLeft, DeleteAcc.addRight]
  split_ifs <;> simp [DeleteAcc.addPiece]

/-- The loop of `nlm_delete_lock_entry`: what was granted outside of the range is on the list as it
was, or in a piece. -/
structure DeleteLeaves (n : NlmState) (lock : Nlm4Lock) (pending : List ℕ) (acc : DeleteAcc) : Prop
    extends DeleteEvolves (fun p => sameOwner (n.info p) lock = true) n pending acc where
  left : ∀ q ∈ n.lockList, (n.info q).state = .granted → ∀ b ∈ (n.info q).heldBytes,
    (sameOwner (n.info q) lock = true → b ∉ lock.bytes) →
      q ∈ acc.st.lockList ∨ LeftAt acc.st.info acc.split (n.info q) b
  pieces : acc.split.length + (pending.map fun p =>
    if sameOwner (n.info p) lock then entryPieces (n.info p) lock else 0).sum = splitCount n lock

theorem deleteLeaves_step (hfits : ∀ p ∈ n.lockList, Fits (n.info p).start (n.info p).len)
    (h : DeleteLeaves n lock (p :: rest) acc) :
    DeleteLeaves n lock rest (deleteStep lock acc p) := by
  have hevolves := deleteEvolves_step h.toDeleteEvolves
  have hsame : SameLock (n.info p) (acc.st.mem p).toLockInfo :=
    h.evolves.same p (h.rest p (.head _))
  have howner : sameOwner (acc.st.mem p).toLockInfo lock = sameOwner (n.info p) lock :=
    hsame.sameOwner lock
  have hpieces := h.pieces
  rw [List.map_cons, List.sum_cons, ← howner] at hpieces
  have hentry : entryPieces (n.info p) lock = entryPieces (acc.st.mem p).toLockInfo lock := by
    rw [hsame.eq]
    rfl
  rw [hentry, entryPieces] at hpieces
  refine ⟨hevolves, ?_, ?_⟩
  · intro q hq hgranted b hb hout
    have hold := h.left q hq hgranted b hb hout
    rw [deleteStep]
    split
    next hmine =>
      simp only [doNlmDeleteLockEntry]
      split
      · exact hold
      split
      next hfull =>
        -- the whole entry is inside of the range
        simp only [NlmState.info_remove, NlmState.lockList_remove]
        refine hold.imp_left fun hmem => (List.mem_erase_of_ne ?_).mpr hmem
        rintro rfl
        obtain ⟨hstart, hend⟩ := (mem_heldBytes (noWrap_of_fits (hfits q hq))).mp hb
        rw [hsame.eq] at hfull
        simp only [fullyOverlaps, Bool.and_eq_true, decide_eq_true_eq, UInt64.le_iff_toNat_le]
          at hfull
        rcases outside_bytes (hout (howner ▸ hmine)) with hlt | hge
        · omega
        · omega
      · simp only [NlmState.info_remove, NlmState.lockList_remove, lockList_addPieces]
        rcases hold with hmem | hleft
        · by_cases hqp : q = p
          · subst hqp
            right
            have hstate : (acc.st.mem q).state = .granted := hsame.granted hgranted
            have hrange : Fits (acc.st.mem q).start (acc.st.mem q).len := by
              rw [hsame.eq]
              exact hfits q hq
            obtain ⟨r, hr, hkin, hleft⟩ := leftAt_addPieces h.toDeleteEvolves hstate hrange
              (hsame.heldBytes.symm ▸ hb) (hout (howner ▸ hmine))
            exact ⟨r, hr, hkin.trans hsame.kin, hleft⟩
          · exact .inl ((List.mem_erase_of_ne hqp).mpr hmem)
        · exact .inr (hleft.addPieces h.toDeleteEvolves)
    · exact hold
  · rw [deleteStep]
    split
    next hmine =>
      rw [if_pos hmine] at hpieces
      simp only [doNlmDeleteLockEntry]
      split
      next hreach =>
        rw [hreach, Bool.true_or, if_pos rfl] at hpieces
        omega
      next hreach =>
        split
        next hfull =>
          rw [hfull, Bool.or_true, if_pos rfl] at hpieces
          simp only
          omega
        next hfull =>
          rw [if_neg (by simp [hreach, hfull])] at hpieces
          simp only [length_addPieces]
          omega
    next hmine =>
      rw [if_neg hmine] at hpieces
      omega

/-- **What an unlock leaves**: unless it leaves a single piece, a granted entry stays or what it had
outside of the range is in other entries. -/
theorem delete_leaves (hbelow : ∀ p ∈ n.lockList, p < n.fresh)
    (hfits : ∀ p ∈ n.lockList, Fits (n.info p).start (n.info p).len)
    (hsplit : splitCount n lock ≠ 1) (hp : p ∈ n.lockList) (hgranted : (n.info p).state = .granted)
    (hb : b ∈ (n.info p).heldBytes) (hout : sameOwner (n.info p) lock = true → b ∉ lock.bytes) :
    p ∈ (nlmDeleteLockEntry n lock).1.lockList ∨ LeftAt (nlmDeleteLockEntry n lock).1.info
      (nlmDeleteLockEntry n lock).1.lockList (n.info p) b := by
  have hloop : DeleteLeaves n lock [] (deleteLoop n lock) := by
    refine foldl_rest (I := DeleteLeaves n lock) (fun _ _ _ h => deleteLeaves_step hfits h)
      n.lockList _ ⟨⟨Evolves.of_eq rfl rfl rfl, fun p hp => absurd hp List.not_mem_nil, hbelow⟩,
        fun q hq _ _ _ _ => .inl hq, ?_⟩
    simp [splitCount]
  have hlength : (deleteLoop n lock).split.length = splitCount n lock := by
    simpa using hloop.pieces
  simp only [nlmDeleteLockEntry, glistAddListTail]
  rcases hloop.left p hp hgranted b hb hout with hmem | ⟨q, hq, hleft⟩
  · left
    split
    · exact hmem
    · exact List.mem_append_left _ hmem
  · right
    have hpos := List.length_pos_of_mem hq
    rw [if_neg (by omega)]
    exact ⟨q, List.mem_append_right _ hq, hleft⟩

end Delete

/-! ## What an action does to the list -/

/-- The range of a lock request does not wrap. -/
def Action.LockFits : Action → Prop
  | .request (.lock arg _ _) => Fits arg.alock.lOffset arg.alock.lLen
  | _ => True

instance : (a : Action) → Decidable a.LockFits
  | .request (.lock _ _ _) => inferInstanceAs (Decidable (Fits _ _))
  | .request (.unlock _ _) => isTrue trivial
  | .request (.cancel _ _ _) => isTrue trivial
  | .request (.grantedRes _ _) => isTrue trivial
  | .request (.nodeRecovery _) => isTrue trivial
  | .handler _ => isTrue trivial
  | .async _ _ => isTrue trivial

/-- The entries that an action may take off the list. -/
def MayLeave (s : Server) : Action → ℕ → Prop
  | .request (.nodeRecovery name), p => (s.nlm.info p).callerName = name
  | .handler (.unlockRead alock _ _), p => sameOwner (s.nlm.info p) alock = true
  | .handler (.cancelFound _ q), p => p = q
  | .async _ _, p => s.async = .sendRemove p ∨ (s.nlm.info p).state = .blocked
  | _, _ => False

variable {Gone : ℕ → Prop} {s t : Server} {p : ℕ} {a : Action}

theorem evolves_found {h : ℕ → Handler} {stat : Nlm4Stats} (hr : Evolves Gone s.nlm r.1) :
    Evolves Gone s.nlm (s.found r h stat).nlm := by
  obtain ⟨n, o⟩ := r
  cases o with
  | none => exact hr
  | some p => exact hr

theorem evolves_find {f : ℕ → Bool}
    (hr : r = match n.lockList.find? f with
      | none => (n, none)
      | some p => (n.incRef p, some p)) : Evolves Gone n r.1 := by
  subst hr
  cases n.lockList.find? f with
  | none => exact Evolves.of_eq rfl rfl rfl
  | some p => exact Evolves.of_eq rfl NlmState.info_incRef rfl

theorem evolves_start (hbelow : ∀ p ∈ s.nlm.lockList, p < s.nlm.fresh) {r : Request}
    (hfits : (Action.request r).LockFits) :
    Evolves (MayLeave s (.request r)) s.nlm (start s r).nlm := by
  have hsame : ∀ {Gone : ℕ → Prop}, Evolves Gone s.nlm s.nlm := Evolves.of_eq rfl rfl rfl
  cases r with
  | lock arg reclaim env =>
    simp only [start, nlm4Lock]
    split_ifs
    iterate 5 exact hsame
    exact evolves_found ((evolves_add arg env.allocated hfits).mono fun _ hf => hf.elim)
  | unlock alock env =>
    simp only [start, nlm4Unlock]
    split_ifs
    iterate 3 exact hsame
    exact evolves_found (evolves_find rfl)
  | cancel alock exclusive env =>
    simp only [start, nlm4Cancel]
    split_ifs
    iterate 3 exact hsame
    exact evolves_found (evolves_find rfl)
  | grantedRes cookie stat =>
    have hfind : Evolves (MayLeave s (.request (.grantedRes cookie stat))) s.nlm
        (nlmFindLockEntryByCookie s.nlm cookie).1 := evolves_find rfl
    simp only [start, nlm4GrantedRes]
    split
    next heq =>
      rw [heq] at hfind
      exact hfind
    next heq =>
      rw [heq] at hfind
      exact hfind
  | nodeRecovery name => exact evolves_recovery name hbelow

theorem evolves_decRef : Evolves Gone n (n.decRef p) :=
  Evolves.of_eq NlmState.fresh_decRef NlmState.info_decRef NlmState.lockList_decRef

theorem evolves_resume (hbelow : ∀ p ∈ s.nlm.lockList, p < s.nlm.fresh) (h : Handler) :
    Evolves (MayLeave s (.handler h)) s.nlm (resume s h).nlm := by
  cases h with
  | unlockFound alock p => exact Evolves.of_eq rfl rfl rfl
  | unlockRead alock p lckState => exact evolves_delete alock hbelow
  | unlockDeleted alock p lckState =>
    cases lckState with
    | granted | blocked => exact Evolves.of_eq rfl rfl rfl
  | cancelFound alock p => exact Evolves.remove rfl
  | lockAdded p | unlockQueued p | cancelRemoved p => exact evolves_decRef
  | grantedResFound p stat =>
    cases stat with
    | deniedGracePeriod => exact Evolves.of_eq rfl rfl rfl
    | _ => exact evolves_decRef

theorem evolves_asyncStep (hbelow : ∀ p ∈ s.nlm.lockList, p < s.nlm.fresh)
    (hst : asyncStep s ok result = some t) :
    Evolves (MayLeave s (.async ok result)) s.nlm t.nlm := by
  obtain ⟨nlm, handlers, tmpQueue, async, replies⟩ := s
  cases async with
  | idle =>
    cases tmpQueue with
    | cons c rest =>
      cases hst
      exact Evolves.of_eq rfl rfl rfl
    | nil =>
      simp only [asyncStep] at hst
      split at hst
      · cases hst
      · cases hst
        exact Evolves.of_eq rfl rfl rfl
  | callback c =>
    cases c with
    | grantBlockedLocks fh =>
      cases hst
      exact (evolves_grant fh ok hbelow).mono fun _ hb => Or.inr hb
    | sendGrantMsg p =>
      cases hst
      exact Evolves.of_eq rfl rfl rfl
    | resendGrantMsg p =>
      cases hst
      exact Evolves.of_eq rfl rfl rfl
  | sendRemove p =>
    cases hst
    exact Evolves.remove (.inl rfl)
  | sendQueue p =>
    cases hst
    exact Evolves.of_eq rfl rfl rfl
  | sendDecRef p =>
    cases hst
    exact evolves_decRef

/-- **One look at each action**: entries leave the list only by an unlock or a cancel
of their owner, a recovery of their host, the clean-up after a message, or a scan that
finds them blocked. -/
theorem evolves_step (hbelow : ∀ p ∈ s.nlm.lockList, p < s.nlm.fresh) (hfits : a.LockFits)
    (hst : serverStep s a = some t) : Evolves (MayLeave s a) s.nlm t.nlm := by
  obtain ⟨-, ⟨r, rfl, rfl⟩ | ⟨h, rfl, -, rfl⟩ | ⟨ok, result, rfl, hasync⟩⟩ :=
    serverStep_cases hst
  · exact evolves_start hbelow hfits
  · have hresume := evolves_resume (s := { s with handlers := s.handlers.erase h }) hbelow h
    cases h <;> exact hresume
  · exact evolves_asyncStep hbelow hasync

/-! ## The history of a run -/

/-- The ranges that an action releases of the lock at `p`: that of an unlock of its owner, that of
the entry that a cancel of its owner takes off the list (the lock itself, or another entry when the
lock is not on the list any more), or everything in a recovery of its host. -/
def releasedBy (s : Server) (a : Action) (p : ℕ) : List ByteRange :=
  if p < s.nlm.fresh then
    match a with
    | .handler (.unlockRead alock _ _) =>
      if sameOwner (s.nlm.info p) alock then [nlmRange alock.lOffset alock.lLen] else []
    | .handler (.cancelFound alock q) =>
      if sameOwner (s.nlm.info p) alock ∧ (p = q ∨ p ∉ s.nlm.lockList) then
        [(s.nlm.info q).range]
      else []
    | .request (.nodeRecovery name) =>
      if (s.nlm.info p).callerName = name then [⟨0, none⟩] else []
    | _ => []
  else []

/-- The entry whose message the asynchronous thread is about to send. -/
def AsyncPc.announced : AsyncPc → Option ℕ
  | .callback (.sendGrantMsg p) => some p
  | .callback (.resendGrantMsg p) => some p
  | _ => none

/-- The entry that the clean-up of `nlm4_send_grant_msg` is about to remove. -/
def AsyncPc.cleanedUp : AsyncPc → Option ℕ
  | .sendRemove p => some p
  | _ => none

/-- What happened to the entries so far. -/
structure History where
  /-- entries that `do_nlm_grant_blocked_locks` moved from blocked to granted -/
  scanned : List ℕ
  /-- those of them for which a `GRANTED_MSG` call succeeded -/
  told : List ℕ
  /-- what was released of an entry by its owner, or by a recovery of its host -/
  released : ℕ → List ByteRange
  /-- entries of `scanned` that the code dropped from the list, or a part of them, by itself -/
  dropped : List ℕ

/-- The entries of the list that a step moves from blocked to granted in a scan. -/
def newlyScanned (s : Server) (a : Action) (t : Server) : List ℕ :=
  match a, s.async with
  | .async _ _, .callback (.grantBlockedLocks _) => t.nlm.lockList.filter fun p =>
      decide ((s.nlm.info p).state = .blocked) && decide ((t.nlm.info p).state = .granted)
  | _, _ => []

/-- The entry whose client a step tells that it holds the lock. -/
def newlyTold (g : History) (s : Server) (a : Action) : List ℕ :=
  match a with
  | .async _ .rpcSuccess => s.async.announced.toList.filter fun p => decide (p ∈ g.scanned)
  | _ => []

/-- The locks of which a step drops something: the clean-up of `nlm4_send_grant_msg` takes their
entry off the list, or one of the same owner, file and mode, which may be a piece of them, or an
unlock of their owner leaves a single piece. -/
def newlyDropped (g : History) (s : Server) (a : Action) : List ℕ :=
  match a with
  | .async _ _ =>
    match s.async.cleanedUp with
    | some q =>
      if q ∈ s.nlm.lockList then
        g.scanned.filter fun p => decide (Kin (s.nlm.info q) (s.nlm.info p))
      else []
    | none => []
  | .handler (.unlockRead alock _ _) =>
    if splitCount s.nlm alock = 1 then g.scanned.filter fun p => sameOwner (s.nlm.info p) alock
    else []
  | _ => []

def History.record (g : History) (s : Server) (a : Action) (t : Server) : History where
  scanned := g.scanned ++ newlyScanned s a t
  told := g.told ++ newlyTold g s a
  released := fun p => g.released p ++ releasedBy s a p
  dropped := g.dropped ++ newlyDropped g s a

theorem mem_newlyScanned (h : p ∈ newlyScanned s a t) :
    p ∈ t.nlm.lockList ∧ (t.nlm.info p).state = .granted := by
  rw [newlyScanned.eq_def] at h
  split at h
  · simp only [List.mem_filter, Bool.and_eq_true, decide_eq_true_eq] at h
    exact ⟨h.1, h.2.2⟩
  · cases h

theorem mem_newlyTold {g : History} (h : p ∈ newlyTold g s a) :
    p ∈ g.scanned ∧ s.async.announced = some p ∧ ∃ ok, a = .async ok .rpcSuccess := by
  rw [newlyTold.eq_def] at h
  split at h
  next ok =>
    simp only [List.mem_filter, Option.mem_toList, decide_eq_true_eq] at h
    exact ⟨h.2, h.1, ok, rfl⟩
  · cases h

structure Traced where
  server : Server
  /-- what happened so far -/
  hist : History

def tracedInit : Traced := ⟨nlmInit, ⟨[], [], fun _ => [], []⟩⟩

def tracedStep (x : Traced) (a : Action) : Option Traced :=
  (serverStep x.server a).map fun t => ⟨t, x.hist.record x.server a t⟩

namespace Traced

variable {x : Traced}

/-- The client of the entry was told that it holds the lock, and it has not released this byte of
it. -/
def Holds (x : Traced) (p b : ℕ) : Prop :=
  p ∈ x.hist.told ∧ b ∈ (x.server.nlm.info p).heldBytes ∧ ∀ r ∈ x.hist.released p, b ∉ r.bytes

/-- `nlm_add_to_locklist` answers the request with a blocked entry. -/
def AnswersBlocked (n : NlmState) (arg : Nlm4LockArgs) : Prop :=
  ∃ q, (nlmAddToLocklist n arg true).2 = some q ∧
    ((nlmAddToLocklist n arg true).1.mem q).state = .blocked

/-- **The contract.** -/
structure Recorded (x : Traced) : Prop where
  /-- the entry of a client that was told so is on the list, granted, unless the client or its host
  has released something of it -/
  entry : ∀ p ∈ x.hist.told, (x.hist.released p).isEmpty = true →
    p ∈ x.server.nlm.lockList ∧ (x.server.nlm.info p).state = .granted
  /-- each byte that it has not released is in a granted entry of its owner -/
  bytes : ∀ p b, x.Holds p b →
    LeftAt x.server.nlm.info x.server.nlm.lockList (x.server.nlm.info p) b
  /-- every conflicting request for it (whose range does not wrap) is answered `NLM4_BLOCKED` -/
  blocked : ∀ p b, x.Holds p b → ∀ arg : Nlm4LockArgs,
    Fits arg.alock.lOffset arg.alock.lLen → arg.alock.fh = (x.server.nlm.info p).fh →
      b ∈ arg.alock.bytes → ((x.server.nlm.info p).exclusive = true ∨ arg.exclusive = true) →
        AnswersBlocked x.server.nlm arg

/-- One of the ranges covers the lock. -/
def Covered (e : LockInfo) (released : List ByteRange) : Prop :=
  ∃ r ∈ released, r.first ≤ e.start.toNat ∧
    ∀ m ∈ r.size, (rangeEnd e.start e.len).toNat ≤ r.first + m

instance (e : LockInfo) (released : List ByteRange) : Decidable (Covered e released) :=
  inferInstanceAs (Decidable (∃ r ∈ released, _ ∧ ∀ m ∈ r.size, _))

/-- The action neither drops anything of a lock whose client was told so, nor tells a client so of
which something was dropped, unless the whole lock is released. -/
def KeepsHolds (x : Traced) (a : Action) : Prop :=
  (∀ p ∈ newlyDropped x.hist x.server a, p ∈ x.hist.told →
    Covered (x.server.nlm.info p) (x.hist.released p ++ releasedBy x.server a p)) ∧
  ∀ p ∈ newlyTold x.hist x.server a, p ∈ x.hist.dropped →
    Covered (x.server.nlm.info p) (x.hist.released p)

instance (x : Traced) (a : Action) : Decidable (x.KeepsHolds a) :=
  inferInstanceAs (Decidable ((∀ p ∈ newlyDropped x.hist x.server a, _) ∧
    ∀ p ∈ newlyTold x.hist x.server a, _))

structure Inv (x : Traced) : Prop where
  below : ∀ p ∈ x.server.nlm.lockList, p < x.server.nlm.fresh
  fits : ∀ p < x.server.nlm.fresh,
    Fits (x.server.nlm.info p).start (x.server.nlm.info p).len
  scanned : ∀ p ∈ x.hist.scanned,
    p < x.server.nlm.fresh ∧ (x.server.nlm.info p).state = .granted
  told : x.hist.told ⊆ x.hist.scanned
  dropped : ∀ p ∈ x.hist.told, p ∈ x.hist.dropped →
    Covered (x.server.nlm.info p) (x.hist.released p)
  /-- a byte of a lock that is not dropped and not released is in its entry, or, when something of
  the lock was released, in another one -/
  held : ∀ p ∈ x.hist.scanned, p ∉ x.hist.dropped → ∀ b ∈ (x.server.nlm.info p).heldBytes,
    (∀ r ∈ x.hist.released p, b ∉ r.bytes) → p ∈ x.server.nlm.lockList ∨
      x.hist.released p ≠ [] ∧ p ∉ x.server.nlm.lockList ∧
        LeftAt x.server.nlm.info x.server.nlm.lockList (x.server.nlm.info p) b
  cancel : ∀ alock p, Handler.cancelFound alock p ∈ x.server.handlers →
    p < x.server.nlm.fresh ∧ sameOwner (x.server.nlm.info p) alock = true

theorem answersBlocked_of_conflict {n : NlmState} {arg : Nlm4LockArgs} {p : ℕ} (hp : p ∈ n.lockList)
    (hfits : Fits (n.info p).start (n.info p).len) (harg : Fits arg.alock.lOffset arg.alock.lLen)
    (hc : Conflict (n.info p) (nlm4LockToNlmLockEntry arg false).toLockInfo) :
    AnswersBlocked n arg := by
  have hseen : conflicts (n.info p) arg.alock arg.exclusive = true :=
    conflicts_of_conflict hfits harg hc.2.1 hc.2.2
  have hany : (n.lockList.any fun p => decide ((n.mem p).fh = arg.alock.fh) &&
      conflicts (n.mem p).toLockInfo arg.alock arg.exclusive) = true := by
    rw [List.any_eq_true]
    refine ⟨p, hp, ?_⟩
    rw [Bool.and_eq_true, decide_eq_true_eq]
    exact ⟨hc.1, hseen⟩
  rw [AnswersBlocked, nlmAddToLocklist]
  split
  next q hfind =>
    -- an equal blocked entry is there already
    have hmatch := List.find?_some hfind
    simp only [matchesBlocked, Bool.and_eq_true, decide_eq_true_eq] at hmatch
    refine ⟨q, rfl, ?_⟩
    have hinfo : ((n.incRef q).mem q).state = (n.mem q).state :=
      congrArg LockInfo.state (congrFun (NlmState.info_incRef (s := n) (p := q)) q)
    rw [hinfo]
    exact hmatch.1.1.1.2
  · refine ⟨n.fresh, rfl, ?_⟩
    simp [hany, NlmState.alloc, nlm4LockToNlmLockEntry]

theorem Covered.mem {e : LockInfo} {released : List ByteRange} {b : ℕ} (h : Covered e released)
    (hfits : Fits e.start e.len) (hb : b ∈ e.heldBytes) : ∃ r ∈ released, b ∈ r.bytes := by
  obtain ⟨r, hr, hstart, hend⟩ := h
  obtain ⟨hb, hlt⟩ := (mem_heldBytes (noWrap_of_fits hfits)).mp hb
  exact ⟨r, hr, hstart.trans hb, fun m hm => hlt.trans_le (hend m hm)⟩

theorem Inv.leftAt {p b : ℕ} (h : x.Inv) (hp : x.Holds p b) :
    LeftAt x.server.nlm.info x.server.nlm.lockList (x.server.nlm.info p) b := by
  obtain ⟨htold, hb, hnot⟩ := hp
  obtain ⟨hlt, hgranted⟩ := h.scanned p (h.told htold)
  by_cases hdropped : p ∈ x.hist.dropped
  · obtain ⟨r, hr, hbr⟩ := (h.dropped p htold hdropped).mem (h.fits p hlt) hb
    exact absurd hbr (hnot r hr)
  · rcases h.held p (h.told htold) hdropped b hb hnot with hmem | ⟨-, -, hleft⟩
    · exact ⟨p, hmem, Kin.refl _, hgranted, hb⟩
    · exact hleft

theorem Inv.recorded (h : x.Inv) : x.Recorded where
  entry p htold hnone := by
    obtain ⟨hlt, hgranted⟩ := h.scanned p (h.told htold)
    have hnil : x.hist.released p = [] := List.isEmpty_iff.mp hnone
    have hfits := h.fits p hlt
    have hdropped : p ∉ x.hist.dropped := fun hdropped => by
      obtain ⟨r, hr, -⟩ := h.dropped p htold hdropped
      rw [hnil] at hr
      cases hr
    -- its first byte is not released
    have hfirst : (x.server.nlm.info p).start.toNat ∈ (x.server.nlm.info p).heldBytes := by
      refine ⟨(nlmRange_inhabited _ _).first_mem, ?_⟩
      unfold Fits at hfits
      omega
    refine ⟨?_, hgranted⟩
    rcases h.held p (h.told htold) hdropped _ hfirst (by simp [hnil]) with hmem | ⟨hsome, -⟩
    · exact hmem
    · exact absurd hnil hsome
  bytes p b hp := h.leftAt hp
  blocked p b hp arg harg hfh hb hexclusive := by
    obtain ⟨q, hq, ⟨-, hfile, -, -, hmode⟩, -, hheld⟩ := h.leftAt hp
    refine answersBlocked_of_conflict hq (h.fits q (h.below q hq)) harg
      ⟨hfile.trans hfh.symm, ⟨b, hheld.1, hb⟩, ?_⟩
    rw [hmode]
    exact hexclusive

end Traced

theorem cancelFound_of_step (hst : serverStep s a = some t) {alock : Nlm4Lock}
    (h : Handler.cancelFound alock p ∈ t.handlers) :
    Handler.cancelFound alock p ∈ s.handlers ∨
      (p ∈ s.nlm.lockList ∧ sameOwner (s.nlm.info p) alock = true) := by
  have hfound : ∀ {r : NlmState × Option ℕ} {f : ℕ → Handler} {stat : Nlm4Stats},
      Handler.cancelFound alock p ∈ (s.found r f stat).handlers →
      Handler.cancelFound alock p ∈ s.handlers ∨
        ∃ q, r.2 = some q ∧ Handler.cancelFound alock p = f q := by
    rintro ⟨n, o⟩ f stat hmem
    cases o with
    | none => exact .inl hmem
    | some q => exact (List.mem_cons.mp hmem).symm.imp_right fun heq => ⟨q, rfl, heq⟩
  obtain ⟨-, ⟨r, rfl, rfl⟩ | ⟨h', rfl, -, rfl⟩ | ⟨ok, result, rfl, hasync⟩⟩ :=
    serverStep_cases hst
  · cases r with
    | lock arg reclaim env =>
      simp only [start, nlm4Lock] at h
      split_ifs at h
      iterate 5 exact .inl h
      rcases hfound h with h | ⟨q, -, heq⟩
      · exact .inl h
      · cases heq
    | unlock alock' env =>
      simp only [start, nlm4Unlock] at h
      split_ifs at h
      iterate 3 exact .inl h
      rcases hfound h with h | ⟨q, -, heq⟩
      · exact .inl h
      · cases heq
    | cancel alock' exclusive env =>
      simp only [start, nlm4Cancel] at h
      split_ifs at h
      iterate 3 exact .inl h
      rcases hfound h with h | ⟨q, hq, heq⟩
      · exact .inl h
      · obtain ⟨rfl, rfl⟩ := Handler.cancelFound.inj heq
        exact .inr (nlmFindLockEntry_spec hq)
    | grantedRes cookie stat =>
      simp only [start, nlm4GrantedRes] at h
      split at h
      · exact (List.mem_cons.mp h).elim (fun heq => by cases heq) Or.inl
      · exact .inl h
    | nodeRecovery name => exact .inl h
  · exact .inl (List.mem_of_mem_erase (cancelFound_of_resume h))
  · rw [handlers_asyncStep hasync] at h
    exact .inl h

namespace Traced

theorem inv_init : tracedInit.Inv := by
  refine ⟨fun p hp => ?_, fun p hp => ?_, fun p hp => ?_, fun p hp => ?_, fun p hp => ?_,
    fun p hp => ?_, fun alock p hp => ?_⟩ <;> cases hp

variable {x : Traced} {a : Action} {t : Server} {p q b : ℕ}

/-- **An entry with a byte of a lock leaves the list**: the byte is released, something of the lock
is dropped, or an unlock has put it into another entry. -/
theorem Inv.leaves (h : x.Inv) (hst : serverStep x.server a = some t) (hp : p ∈ x.hist.scanned)
    (hq : q ∈ x.server.nlm.lockList) (hkin : Kin (x.server.nlm.info q) (x.server.nlm.info p))
    (hgranted : (x.server.nlm.info q).state = .granted)
    (hheld : b ∈ (x.server.nlm.info q).heldBytes) (hself : q = p ∨ p ∉ x.server.nlm.lockList)
    (hleave : MayLeave x.server a q) (hnot : ∀ r ∈ releasedBy x.server a p, b ∉ r.bytes)
    (hdropped : p ∉ newlyDropped x.hist x.server a) :
    q ∈ t.nlm.lockList ∨ releasedBy x.server a p ≠ [] ∧
      LeftAt t.nlm.info t.nlm.lockList (x.server.nlm.info q) b := by
  have hlt := (h.scanned p hp).1
  rw [releasedBy.eq_def, if_pos hlt] at hnot ⊢
  obtain ⟨-, ⟨r, rfl, rfl⟩ | ⟨h', rfl, hmem, rfl⟩ | ⟨ok, result, rfl, -⟩⟩ := serverStep_cases hst
  · cases r with
    | nodeRecovery name =>
      have hname : (x.server.nlm.info p).callerName = name := hkin.1.symm.trans hleave
      dsimp only at hnot
      rw [if_pos hname] at hnot
      exact absurd ⟨Nat.zero_le b, nofun⟩ (hnot _ (List.mem_singleton_self _))
    | _ => exact hleave.elim
  · cases h' with
    | unlockRead alock r lckState =>
      have howner : sameOwner (x.server.nlm.info p) alock = true :=
        (hkin.sameOwner alock).symm.trans hleave
      dsimp only at hnot ⊢
      rw [if_pos howner] at hnot ⊢
      have hsplit : splitCount x.server.nlm alock ≠ 1 := fun hone => by
        refine hdropped ?_
        rw [newlyDropped.eq_def]
        dsimp only
        rw [if_pos hone]
        exact List.mem_filter.mpr ⟨hp, howner⟩
      refine (delete_leaves h.below (fun q hq => h.fits q (h.below q hq)) hsplit hq hgranted hheld
        fun _ => hnot _ (List.mem_singleton_self _)).imp_right fun hleft => ⟨?_, hleft⟩
      exact List.cons_ne_nil _ _
    | cancelFound alock r =>
      obtain rfl : q = r := hleave
      have howner : sameOwner (x.server.nlm.info p) alock = true :=
        (hkin.sameOwner alock).symm.trans (h.cancel alock q hmem).2
      dsimp only at hnot
      rw [if_pos ⟨howner, hself.imp_left Eq.symm⟩] at hnot
      exact absurd hheld.1 (hnot _ (List.mem_singleton_self _))
    | _ => exact hleave.elim
  · rcases hleave with hremove | hblocked
    · have hclean : x.server.async.cleanedUp = some q := by rw [hremove]; rfl
      refine absurd ?_ hdropped
      rw [newlyDropped.eq_def, hclean]
      dsimp only
      rw [if_pos hq]
      exact List.mem_filter.mpr ⟨hp, decide_eq_true hkin⟩
    · rw [hgranted] at hblocked
      cases hblocked

/-- What is left of a lock is there in the next state, when its entries are. -/
theorem LeftAt.of_evolves {n n' : NlmState} {Gone : ℕ → Prop} (hev : Evolves Gone n n')
    (hp : p < n.fresh) (hqlt : q < n.fresh) (hq : q ∈ n'.lockList)
    (hkin : Kin (n.info q) (n.info p)) (hgranted : (n.info q).state = .granted)
    (hheld : b ∈ (n.info q).heldBytes) :
    LeftAt n'.info n'.lockList (n'.info p) b := by
  have hsame := hev.same q hqlt
  refine ⟨q, hq, (hsame.kin.trans hkin).trans ?_, hsame.granted hgranted, hsame.heldBytes ▸ hheld⟩
  have hkin' := (hev.same p hp).kin
  exact ⟨hkin'.1.symm, hkin'.2.1.symm, hkin'.2.2.1.symm, hkin'.2.2.2.1.symm, hkin'.2.2.2.2.symm⟩

theorem Inv.held_step (h : x.Inv) (hst : serverStep x.server a = some t)
    (hev : Evolves (MayLeave x.server a) x.server.nlm t.nlm) (hp : p ∈ x.hist.scanned)
    (hdropped : p ∉ (x.hist.record x.server a t).dropped) (hb : b ∈ (t.nlm.info p).heldBytes)
    (hnot : ∀ r ∈ (x.hist.record x.server a t).released p, b ∉ r.bytes) :
    p ∈ t.nlm.lockList ∨ (x.hist.record x.server a t).released p ≠ [] ∧ p ∉ t.nlm.lockList ∧
      LeftAt t.nlm.info t.nlm.lockList (t.nlm.info p) b := by
  obtain ⟨hlt, hgranted⟩ := h.scanned p hp
  have hold : b ∈ (x.server.nlm.info p).heldBytes := (hev.same p hlt).heldBytes ▸ hb
  by_cases hin : p ∈ t.nlm.lockList
  · exact .inl hin
  refine .inr ?_
  -- the entry that has the byte before the step
  obtain ⟨q, hq, hkin, hstate, hheld, hself⟩ : ∃ q ∈ x.server.nlm.lockList,
      Kin (x.server.nlm.info q) (x.server.nlm.info p) ∧
        (x.server.nlm.info q).state = .granted ∧ b ∈ (x.server.nlm.info q).heldBytes ∧
          (q = p ∨ x.hist.released p ≠ [] ∧ p ∉ x.server.nlm.lockList) := by
    rcases h.held p hp (fun hd => hdropped (List.mem_append_left _ hd)) b hold
      (fun r hr => hnot r (List.mem_append_left _ hr)) with hmem | ⟨hsome, hout, q, hq, hleft⟩
    · exact ⟨p, hmem, Kin.refl _, hgranted, hold, .inl rfl⟩
    · exact ⟨q, hq, hleft.1, hleft.2.1, hleft.2.2, .inr ⟨hsome, hout⟩⟩
  have hqlt := h.below q hq
  have hstay : q ∈ t.nlm.lockList → _ := fun hmem =>
    LeftAt.of_evolves hev hlt hqlt hmem hkin hstate hheld
  have hne : q ∈ t.nlm.lockList → x.hist.released p ≠ [] := fun hmem => by
    rcases hself with rfl | ⟨hsome, -⟩
    · exact absurd hmem hin
    · exact hsome
  rcases hev.left q hq with hmem | hleave
  · exact ⟨List.append_ne_nil_of_left_ne_nil (hne hmem) _, hin, hstay hmem⟩
  · rcases h.leaves hst hp hq hkin hstate hheld (hself.imp_right And.right) hleave
      (fun r hr => hnot r (List.mem_append_right _ hr))
      (fun hd => hdropped (List.mem_append_right _ hd)) with hmem | ⟨hsome, r, hr, hleft⟩
    · exact ⟨List.append_ne_nil_of_left_ne_nil (hne hmem) _, hin, hstay hmem⟩
    · refine ⟨List.append_ne_nil_of_right_ne_nil _ hsome, hin, r, hr, ?_, hleft.2⟩
      have hkin' := (hev.same p hlt).kin
      exact (hleft.1.trans hkin).trans ⟨hkin'.1.symm, hkin'.2.1.symm, hkin'.2.2.1.symm,
        hkin'.2.2.2.1.symm, hkin'.2.2.2.2.symm⟩

/-- **A step** keeps the invariant, if it meets the condition. -/
theorem inv_step {y : Traced} (h : x.Inv) (hst : tracedStep x a = some y)
    (hkeep : x.KeepsHolds a) (hfits : a.LockFits) : y.Inv := by
  obtain ⟨t, ht, rfl⟩ := Option.map_eq_some_iff.mp hst
  have hev := evolves_step h.below hfits ht
  have hcovered : ∀ {p l}, p ∈ x.hist.scanned → Covered (x.server.nlm.info p) l →
      (∀ r ∈ l, r ∈ (x.hist.record x.server a t).released p) →
      Covered (t.nlm.info p) ((x.hist.record x.server a t).released p) := by
    rintro p l hp ⟨r, hr, hcov⟩ hsub
    refine ⟨r, hsub r hr, ?_⟩
    rw [(hev.same p (h.scanned p hp).1).eq]
    exact hcov
  have htold : ∀ {p}, p ∈ (x.hist.record x.server a t).told → p ∈ x.hist.scanned := fun hp =>
    (List.mem_append.mp hp).elim (fun hp => h.told hp) fun hp => (mem_newlyTold hp).1
  refine ⟨fun p hp => ?_, fun p hp => ?_, fun p hp => ?_, fun p hp => ?_, fun p hp hd => ?_,
    fun p hp hd b hb hnot => ?_, fun alock p hp => ?_⟩
  · rcases hev.listed p hp with hp | ⟨-, hlt⟩
    · exact (h.below p hp).trans_le hev.fresh_le
    · exact hlt
  · rcases Nat.lt_or_ge p x.server.nlm.fresh with hlt | hge
    · have hsame := (hev.same p hlt).eq
      rw [hsame]
      exact h.fits p hlt
    · exact hev.fits p hge hp
  · rcases List.mem_append.mp hp with hp | hp
    · obtain ⟨hlt, hgranted⟩ := h.scanned p hp
      exact ⟨hlt.trans_le hev.fresh_le, (hev.same p hlt).granted hgranted⟩
    · obtain ⟨hmem, hgranted⟩ := mem_newlyScanned hp
      refine ⟨?_, hgranted⟩
      rcases hev.listed p hmem with hp | ⟨-, hlt⟩
      · exact (h.below p hp).trans_le hev.fresh_le
      · exact hlt
  · exact List.mem_append_left _ (htold hp)
  · have hscanned := htold hp
    rcases List.mem_append.mp hd with hd | hd
    · have hbefore : Covered (x.server.nlm.info p) (x.hist.released p) :=
        (List.mem_append.mp hp).elim (fun hp => h.dropped p hp hd) fun hp => hkeep.2 p hp hd
      exact hcovered hscanned hbefore fun r hr => List.mem_append_left _ hr
    · rcases List.mem_append.mp hp with hp | hp
      · exact hcovered hscanned (hkeep.1 p hd hp) fun r hr => hr
      · -- no step both announces a lock and drops something
        obtain ⟨-, hannounced, ok, rfl⟩ := mem_newlyTold hp
        have hclean : x.server.async.cleanedUp = none := by
          rw [AsyncPc.announced.eq_def] at hannounced
          split at hannounced
          next heq => rw [heq]; rfl
          next heq => rw [heq]; rfl
          · cases hannounced
        rw [newlyDropped.eq_def, hclean] at hd
        cases hd
  · rcases List.mem_append.mp hp with hp | hp
    · exact h.held_step ht hev hp hd hb hnot
    · exact .inl (mem_newlyScanned hp).1
  · rcases cancelFound_of_step ht hp with hp | ⟨hmem, howner⟩
    · obtain ⟨hlt, howner⟩ := h.cancel alock p hp
      refine ⟨hlt.trans_le hev.fresh_le, ?_⟩
      rw [(hev.same p hlt).sameOwner]
      exact howner
    · have hlt := h.below p hmem
      refine ⟨hlt.trans_le hev.fresh_le, ?_⟩
      rw [(hev.same p hlt).sameOwner]
      exact howner

/-- **A granted lock stays recorded**: in every run in which no requested range wraps, and neither a
clean-up of `nlm4_send_grant_msg` nor an unlock that leaves a single piece drops anything of a lock
whose client was told that it holds it, each byte of such a lock stays on the list, granted, until
the client or its host releases it, and conflicting requests are answered `NLM4_BLOCKED`. -/
theorem recorded_of_keepsHolds (as : List Action)
    (h : AllSteps tracedStep (fun x a _ => x.KeepsHolds a ∧ a.LockFits) tracedInit as) :
    Always tracedStep Recorded tracedInit as := by
  have hinv : Always tracedStep Inv tracedInit as := by
    refine always_of_allSteps inv_init (fun x a y hx hst hC => ?_) h
    exact inv_step hx hst hC.1 hC.2
  exact hinv.mono fun _ hx => hx.recorded

/-- Host 1 unlocks the bytes that host 2 waits for; the scan grants them to host 2, and
the call that tells host 2 succeeds. -/
def grantedRun : List Action :=
  [.request (.lock (exclusiveRequest 1 0 10) false clearEnv), .handler (.lockAdded 0),
    .request (.lock (exclusiveRequest 2 0 10) false clearEnv), .handler (.lockAdded 1),
    .request (.unlock (exclusiveRequest 1 0 10).alock clearEnv),
    .handler (.unlockFound (exclusiveRequest 1 0 10).alock 0),
    .handler (.unlockRead (exclusiveRequest 1 0 10).alock 0 .granted),
    .handler (.unlockDeleted (exclusiveRequest 1 0 10).alock 0 .granted),
    .handler (.unlockQueued 0),
    -- the queue is collected, the scan is taken from it and performed, and so is the message
    .async (fun _ => true) .noMemory, .async (fun _ => true) .noMemory,
    .async (fun _ => true) .noMemory, .async (fun _ => true) .noMemory,
    .async (fun _ => true) .noMemory, .async (fun _ => true) .rpcSuccess]

/-- Host 2 unlocks the bytes 3 and 4 then, which leaves two pieces of its lock. -/
def unlockedRun : List Action :=
  grantedRun ++ [.request (.unlock (exclusiveRequest 2 3 2).alock clearEnv),
    .handler (.unlockFound (exclusiveRequest 2 3 2).alock 1),
    .handler (.unlockRead (exclusiveRequest 2 3 2).alock 1 .granted)]

theorem grantedRun_recorded : Always tracedStep Recorded tracedInit unlockedRun := by
  apply recorded_of_keepsHolds
  decide +kernel

/-- The clean-up that follows the message drops the lock of host 2, which has not released it. -/
theorem grantedRun_cleanup_breaks_recorded :
    ¬ Always tracedStep Recorded tracedInit (grantedRun ++ [.async (fun _ => true) .noMemory]) := by
  intro h
  have hlost : (exec tracedStep tracedInit (grantedRun ++ [.async (fun _ => true) .noMemory])).map
      (fun x => decide (1 ∈ x.hist.told ∧ (x.hist.released 1).isEmpty = true ∧
        1 ∉ x.server.nlm.lockList)) = some true := by
    decide +kernel
  obtain ⟨x, hx, hholds⟩ := Option.map_eq_some_iff.mp hlost
  obtain ⟨htold, hnone, hlost⟩ := of_decide_eq_true hholds
  exact hlost ((h.exec hx).entry 1 htold hnone).1

end Traced

end CloudNfs.Nlm
