import CloudNfs.NlmExclusion
import CloudNfs.NlmRefCount

/-!
# What an NLM unlock leaves

The contract of `nlm_delete_lock_entry`: the owner keeps exactly the bytes outside the unlocked
range, nobody else's entries change, and the result counts the entries that are gone.

Each entry of the owner is replaced by what is left of it on the two sides of the range, so the
loop keeps two facts: outside the range the owner holds what it held before, and the entries
already visited hold nothing inside it (`Unlocking`). What goes wrong comes after the loop:
`glist_add_list_tail` takes a list of one piece for an empty one. The contract holds exactly when
the unlock does not leave one single piece (`unlocksExactly_iff`).
-/

namespace CloudNfs.Nlm

/-! ## The contract -/

/-- The bytes of an entry. A file has at most `2 ^ 64 - 1` bytes. -/
def LockInfo.heldBytes (e : LockInfo) : Set ℕ := {b | b ∈ e.range.bytes ∧ b < 2 ^ 64 - 1}

def Nlm4Lock.bytes (lock : Nlm4Lock) : Set ℕ := (nlmRange lock.lOffset lock.lLen).bytes

/-- An entry of the owner holds the byte `x.1`, with the mode and the state `x.2`. -/
def HeldAt (lock : Nlm4Lock) (e : LockInfo) (x : ℕ × Bool × LockState) : Prop :=
  sameOwner e lock = true ∧ x.1 ∈ e.heldBytes ∧ x.2 = (e.exclusive, e.state)

/-- What the owner holds on the file, as bytes with their modes and states. -/
def heldBy (n : NlmState) (lock : Nlm4Lock) : Set (ℕ × Bool × LockState) :=
  {x | ∃ p ∈ n.lockList, HeldAt lock (n.info p) x}

/-- **The contract of `nlm_delete_lock_entry`.** -/
structure UnlocksExactly (n : NlmState) (lock : Nlm4Lock) : Prop where
  /-- the owner keeps the bytes outside the range -/
  held : heldBy (nlmDeleteLockEntry n lock).1 lock = {x ∈ heldBy n lock | x.1 ∉ lock.bytes}
  /-- the other entries stay on the list, as they are -/
  others : ∀ p ∈ n.lockList, sameOwner (n.info p) lock = false →
    p ∈ (nlmDeleteLockEntry n lock).1.lockList ∧ (nlmDeleteLockEntry n lock).1.mem p = n.mem p
  /-- the result is the number of entries that are gone -/
  count : (nlmDeleteLockEntry n lock).2 =
    (n.lockList.length : ℤ) - (nlmDeleteLockEntry n lock).1.lockList.length

/-- The entries of the list are distinct and allocated. -/
structure ListOk (n : NlmState) : Prop where
  /-- no entry is on the list twice -/
  nodup : n.lockList.Nodup
  /-- entries are at allocated addresses -/
  below : ∀ p ∈ n.lockList, p < n.fresh

/-- The range ends at `2 ^ 64 - 1` at most. -/
def NoWrap (start len : UInt64) : Prop := start.toNat + len.toNat ≤ 2 ^ 64 - 1

instance (start len : UInt64) : Decidable (NoWrap start len) :=
  inferInstanceAs (Decidable (_ ≤ _))

/-! ## The bytes of an entry and of its pieces -/

variable {n : NlmState} {lock : Nlm4Lock} {e : LockInfo} {x : ℕ × Bool × LockState}

variable {start len lo hi : UInt64} {b q : ℕ} {s : NlmState}

theorem mem_bytes_iff (h : NoWrap start len) :
    (b ∈ (nlmRange start len).bytes ∧ b < 2 ^ 64 - 1) ↔
      start.toNat ≤ b ∧ b < (rangeEnd start len).toNat := by
  unfold NoWrap at h
  rw [ByteRange.mem_bytes]
  by_cases hlen : len = 0
  · subst hlen
    rw [rangeEnd_zero]
    simp [nlmRange]
  · rw [rangeEnd_toNat hlen (by omega)]
    simp only [nlmRange, if_neg hlen, Option.some.injEq, forall_eq']
    omega

theorem mem_heldBytes (h : NoWrap e.start e.len) :
    b ∈ e.heldBytes ↔ e.start.toNat ≤ b ∧ b < (rangeEnd e.start e.len).toNat :=
  mem_bytes_iff h

theorem mem_lock_bytes (h : NoWrap lock.lOffset lock.lLen) (hb : b < 2 ^ 64 - 1) :
    b ∈ lock.bytes ↔
      lock.lOffset.toNat ≤ b ∧ b < (rangeEnd lock.lOffset lock.lLen).toNat := by
  rw [← mem_bytes_iff h]
  exact ⟨fun hmem => ⟨hmem, hb⟩, fun hmem => hmem.1⟩

theorem rangeEnd_le (h : NoWrap start len) :
    start.toNat ≤ (rangeEnd start len).toNat ∧ (rangeEnd start len).toNat ≤ 2 ^ 64 - 1 := by
  unfold NoWrap at h
  by_cases hlen : len = 0
  · rw [hlen, rangeEnd_zero]
    omega
  · rw [rangeEnd_toNat hlen (by omega)]
    omega

theorem mem_heldBytes_piece (h : lo < hi) :
    b ∈ (e.withRange lo (hi - lo)).heldBytes ↔ lo.toNat ≤ b ∧ b < hi.toNat := by
  have hlt := hi.toNat_lt
  have hmem : b ∈ (e.withRange lo (hi - lo)).range.bytes ↔ lo.toNat ≤ b ∧ b < hi.toNat :=
    mem_piece h
  have hheld : b ∈ (e.withRange lo (hi - lo)).heldBytes ↔
      b ∈ (e.withRange lo (hi - lo)).range.bytes ∧ b < 2 ^ 64 - 1 := Iff.rfl
  rw [hheld, hmem]
  omega

theorem heldAt_piece (h : lo < hi) :
    HeldAt lock (e.withRange lo (hi - lo)) x ↔
      sameOwner e lock = true ∧ (lo.toNat ≤ x.1 ∧ x.1 < hi.toNat) ∧
        x.2 = (e.exclusive, e.state) := by
  unfold HeldAt
  rw [mem_heldBytes_piece h]
  exact Iff.rfl

theorem HeldAt.outside_of_outOfReach (hwrap : NoWrap e.start e.len)
    (hlock : NoWrap lock.lOffset lock.lLen) (hreach : outOfReach e lock = true)
    (hx : HeldAt lock e x) : x.1 ∉ lock.bytes := by
  intro hmem
  rw [mem_lock_bytes hlock hx.2.1.2] at hmem
  have hheld := (mem_heldBytes hwrap).mp hx.2.1
  simp only [outOfReach, Bool.or_eq_true, decide_eq_true_eq, UInt64.lt_iff_toNat_lt] at hreach
  omega

theorem HeldAt.inside_of_fullyOverlaps (hwrap : NoWrap e.start e.len)
    (hlock : NoWrap lock.lOffset lock.lLen) (hfull : fullyOverlaps e lock = true)
    (hx : HeldAt lock e x) : x.1 ∈ lock.bytes := by
  rw [mem_lock_bytes hlock hx.2.1.2]
  have hheld := (mem_heldBytes hwrap).mp hx.2.1
  simp only [fullyOverlaps, Bool.and_eq_true, decide_eq_true_eq, UInt64.le_iff_toNat_le] at hfull
  omega

/-! ## Adding pieces -/

/-- The addresses `news` are put on `split_list`, and `P` is what the owner holds there. -/
structure Adds (lock : Nlm4Lock) (acc acc' : DeleteAcc) (news : List ℕ)
    (P : ℕ × Bool × LockState → Prop) : Prop where
  split : acc'.split = acc.split ++ news
  lockList : acc'.st.lockList = acc.st.lockList
  addresses : news = List.range' acc.st.fresh news.length
  fresh : acc'.st.fresh = acc.st.fresh + news.length
  mem : ∀ q < acc.st.fresh, acc'.st.mem q = acc.st.mem q
  cnt : acc'.cnt = acc.cnt - news.length
  held : ∀ x, (∃ q ∈ news, HeldAt lock (acc'.st.info q) x) ↔ P x

theorem info_of_mem {s' : NlmState} (h : s'.mem q = s.mem q) : s'.info q = s.info q :=
  congrArg NlmLockEntry.toLockInfo h

namespace Adds

variable {acc acc' acc'' : DeleteAcc} {news news' : List ℕ}
  {P Q : ℕ × Bool × LockState → Prop} {q : ℕ}

theorem nil (h : ∀ x, ¬ P x) : Adds lock acc acc [] P where
  split := (List.append_nil _).symm
  lockList := rfl
  addresses := rfl
  fresh := rfl
  mem _ _ := rfl
  cnt := (Int.sub_zero _).symm
  held x := by
    simp only [List.not_mem_nil, false_and, exists_false, false_iff]
    exact h x

theorem piece {entry : NlmLockEntry} {lo hi : UInt64} (h : lo < hi) :
    Adds lock acc (acc.addPiece entry lo (hi - lo)) [acc.st.fresh] fun x =>
      sameOwner entry.toLockInfo lock = true ∧ (lo.toNat ≤ x.1 ∧ x.1 < hi.toNat) ∧
        x.2 = (entry.exclusive, entry.state) where
  split := rfl
  lockList := rfl
  addresses := rfl
  fresh := rfl
  mem q hq := Function.update_of_ne (Nat.ne_of_lt hq) ..
  cnt := rfl
  held x := by
    have hself : (acc.addPiece entry lo (hi - lo)).st.info acc.st.fresh =
        entry.toLockInfo.withRange lo (hi - lo) := by
      rw [DeleteAcc.addPiece, NlmState.info_alloc, Function.update_self]
      rfl
    rw [← heldAt_piece h, ← hself]
    simp only [List.mem_singleton, exists_eq_left]

theorem congr (h : Adds lock acc acc' news P) (hPQ : ∀ x, P x ↔ Q x) : Adds lock acc acc' news Q :=
  { h with held := fun x => (h.held x).trans (hPQ x) }

theorem fresh_le (h : Adds lock acc acc' news P) (hq : q ∈ news) :
    acc.st.fresh ≤ q ∧ q < acc'.st.fresh := by
  rw [h.addresses] at hq
  rw [h.fresh]
  have := List.mem_range'_1.mp hq
  omega

theorem nodup (h : Adds lock acc acc' news P) : news.Nodup := by
  rw [h.addresses]
  exact List.nodup_range' ..

theorem trans (h : Adds lock acc acc' news P) (h' : Adds lock acc' acc'' news' Q) :
    Adds lock acc acc'' (news ++ news') fun x => P x ∨ Q x where
  split := by rw [h'.split, h.split, List.append_assoc]
  lockList := h'.lockList.trans h.lockList
  addresses := by
    have hnews' := h'.addresses
    rw [h.fresh] at hnews'
    conv_lhs => rw [h.addresses, hnews']
    rw [List.length_append, List.range'_append_1]
  fresh := by
    rw [h'.fresh, h.fresh, List.length_append]
    omega
  mem q hq := by
    have hle : q < acc'.st.fresh := by
      rw [h.fresh]
      omega
    rw [h'.mem q hle, h.mem q hq]
  cnt := by
    rw [h'.cnt, h.cnt, List.length_append]
    omega
  held x := by
    rw [← h.held x, ← h'.held x]
    have hold : ∀ q ∈ news, acc''.st.info q = acc'.st.info q := fun q hq =>
      info_of_mem (h'.mem q (h.fresh_le hq).2)
    constructor
    · rintro ⟨q, hq, hx⟩
      rcases List.mem_append.mp hq with hq | hq
      · rw [hold q hq] at hx
        exact .inl ⟨q, hq, hx⟩
      · exact .inr ⟨q, hq, hx⟩
    · rintro (⟨q, hq, hx⟩ | ⟨q, hq, hx⟩)
      · rw [← hold q hq] at hx
        exact ⟨q, List.mem_append_left _ hq, hx⟩
      · exact ⟨q, List.mem_append_right _ hq, hx⟩

end Adds

/-- What is left of an entry outside the range. -/
def LeftOver (lock : Nlm4Lock) (e : LockInfo) (x : ℕ × Bool × LockState) : Prop :=
  HeldAt lock e x ∧ x.1 ∉ lock.bytes

theorem leftOver_iff (hwrap : NoWrap e.start e.len) (hlock : NoWrap lock.lOffset lock.lLen)
    (hreach : outOfReach e lock = false) :
    LeftOver lock e x ↔
      (sameOwner e lock = true ∧ (e.start.toNat ≤ x.1 ∧ x.1 < lock.lOffset.toNat) ∧
        x.2 = (e.exclusive, e.state)) ∨
      (sameOwner e lock = true ∧ ((rangeEnd lock.lOffset lock.lLen).toNat ≤ x.1 ∧
        x.1 < (rangeEnd e.start e.len).toNat) ∧ x.2 = (e.exclusive, e.state)) := by
  have hends := rangeEnd_le hwrap
  have hlockends := rangeEnd_le hlock
  simp only [outOfReach, Bool.or_eq_false_iff, decide_eq_false_iff_not,
    UInt64.lt_iff_toNat_lt] at hreach
  constructor
  · rintro ⟨⟨howner, hbyte, hkind⟩, hout⟩
    rw [mem_lock_bytes hlock hbyte.2] at hout
    have hin := (mem_heldBytes hwrap).mp hbyte
    have hside : x.1 < lock.lOffset.toNat ∨ (rangeEnd lock.lOffset lock.lLen).toNat ≤ x.1 := by
      omega
    rcases hside with hbefore | hafter
    · exact .inl ⟨howner, ⟨hin.1, hbefore⟩, hkind⟩
    · exact .inr ⟨howner, ⟨hafter, hin.2⟩, hkind⟩
  · rintro (⟨howner, hbyte, hkind⟩ | ⟨howner, hbyte, hkind⟩)
    · have hmem : x.1 ∈ e.heldBytes := (mem_heldBytes hwrap).mpr (by omega)
      refine ⟨⟨howner, hmem, hkind⟩, ?_⟩
      rw [mem_lock_bytes hlock hmem.2]
      omega
    · have hmem : x.1 ∈ e.heldBytes := (mem_heldBytes hwrap).mpr (by omega)
      refine ⟨⟨howner, hmem, hkind⟩, ?_⟩
      rw [mem_lock_bytes hlock hmem.2]
      omega

theorem adds_addPieces (acc : DeleteAcc) {entry : NlmLockEntry}
    (hwrap : NoWrap entry.start entry.len) (hlock : NoWrap lock.lOffset lock.lLen)
    (hreach : outOfReach entry.toLockInfo lock = false)
    (hfull : fullyOverlaps entry.toLockInfo lock = false) :
    ∃ news, Adds lock acc ((acc.addLeft entry lock).addRight entry lock) news
        (LeftOver lock entry.toLockInfo) ∧
      news.length = entryPieces entry.toLockInfo lock := by
  have hleft : ∃ news, Adds lock acc (acc.addLeft entry lock) news (fun x =>
        sameOwner entry.toLockInfo lock = true ∧
          (entry.start.toNat ≤ x.1 ∧ x.1 < lock.lOffset.toNat) ∧
          x.2 = (entry.exclusive, entry.state)) ∧
      news.length = if entry.start < lock.lOffset then 1 else 0 := by
    rw [DeleteAcc.addLeft]
    split
    next hlt => exact ⟨[acc.st.fresh], Adds.piece hlt, rfl⟩
    rename_i hge
    refine ⟨[], Adds.nil fun x hx => ?_, rfl⟩
    rw [UInt64.lt_iff_toNat_lt] at hge
    omega
  obtain ⟨news, hnews, hlength⟩ := hleft
  have hright : ∃ news', Adds lock (acc.addLeft entry lock)
        ((acc.addLeft entry lock).addRight entry lock) news' (fun x =>
          sameOwner entry.toLockInfo lock = true ∧
            ((rangeEnd lock.lOffset lock.lLen).toNat ≤ x.1 ∧
              x.1 < (rangeEnd entry.start entry.len).toNat) ∧
            x.2 = (entry.exclusive, entry.state)) ∧
      news'.length =
        if rangeEnd lock.lOffset lock.lLen < rangeEnd entry.start entry.len then 1 else 0 := by
    rw [DeleteAcc.addRight]
    split
    next hlt => exact ⟨[(acc.addLeft entry lock).st.fresh], Adds.piece hlt, rfl⟩
    rename_i hge
    refine ⟨[], Adds.nil fun x hx => ?_, rfl⟩
    rw [UInt64.lt_iff_toNat_lt] at hge
    omega
  obtain ⟨news', hnews', hlength'⟩ := hright
  refine ⟨news ++ news', (hnews.trans hnews').congr fun x => ?_, ?_⟩
  · exact (leftOver_iff hwrap hlock hreach).symm
  · rw [List.length_append, hlength, hlength', entryPieces, hreach, hfull]
    rfl

/-! ## The loop -/

theorem mem_remove {p : ℕ} (hq : q ≠ p) : (doNlmRemoveFromLocklist s p).mem q = s.mem q := by
  rw [doNlmRemoveFromLocklist]
  split
  · rw [NlmState.decRef]
    split <;> exact Function.update_of_ne hq ..
  · rfl

/-- The addresses of the list and of `split_list`. -/
def DeleteAcc.addresses (acc : DeleteAcc) : List ℕ := acc.st.lockList ++ acc.split

/-- What holds in the loop of `nlm_delete_lock_entry` with the entries `rest` still to come. -/
structure Unlocking (n : NlmState) (lock : Nlm4Lock) (rest : List ℕ) (acc : DeleteAcc) :
    Prop where
  nodup : acc.addresses.Nodup
  below : ∀ p ∈ acc.addresses, p < acc.st.fresh
  onList : OnList rest acc.st
  info : ∀ p ∈ rest, acc.st.info p = n.info p
  others : ∀ p ∈ n.lockList, sameOwner (n.info p) lock = false →
    p ∈ acc.st.lockList ∧ acc.st.mem p = n.mem p
  outside : ∀ x, x.1 ∉ lock.bytes →
    ((∃ p ∈ acc.addresses, HeldAt lock (acc.st.info p) x) ↔ x ∈ heldBy n lock)
  inside : ∀ x, x.1 ∈ lock.bytes → ∀ p ∈ acc.addresses, HeldAt lock (acc.st.info p) x → p ∈ rest
  cnt : acc.cnt = (n.lockList.length : ℤ) - acc.addresses.length
  pieces : acc.split.length + (rest.map fun p =>
    if sameOwner (n.info p) lock then entryPieces (n.info p) lock else 0).sum = splitCount n lock

namespace Unlocking

variable {acc acc' : DeleteAcc} {rest news : List ℕ} {p : ℕ}

theorem init (hs : ListOk n) : Unlocking n lock n.lockList ⟨n, [], 0⟩ where
  nodup := by
    rw [DeleteAcc.addresses, List.append_nil]
    exact hs.nodup
  below := by
    rw [DeleteAcc.addresses, List.append_nil]
    exact hs.below
  onList := ⟨hs.nodup, List.Subset.refl _⟩
  info _ _ := rfl
  others _ hp _ := ⟨hp, rfl⟩
  outside x _ := by
    rw [DeleteAcc.addresses, List.append_nil]
    exact Iff.rfl
  inside x _ p hp _ := by
    rw [DeleteAcc.addresses, List.append_nil] at hp
    exact hp
  cnt := by simp [DeleteAcc.addresses]
  pieces := by simp [splitCount]

theorem skip (h : Unlocking n lock (p :: rest) acc)
    (hout : ∀ x, HeldAt lock (n.info p) x → x.1 ∉ lock.bytes)
    (hpieces : (if sameOwner (n.info p) lock then entryPieces (n.info p) lock else 0) = 0) :
    Unlocking n lock rest acc where
  nodup := h.nodup
  below := h.below
  onList := h.onList.tail rfl
  info q hq := h.info q (.tail p hq)
  others := h.others
  outside := h.outside
  inside x hx q hq hheld := by
    rcases List.mem_cons.mp (h.inside x hx q hq hheld) with rfl | hrest
    · rw [h.info q List.mem_cons_self] at hheld
      exact absurd hx (hout x hheld)
    · exact hrest
  cnt := h.cnt
  pieces := by
    have := h.pieces
    rw [List.map_cons, List.sum_cons, hpieces] at this
    omega

theorem replace (h : Unlocking n lock (p :: rest) acc) (howner : sameOwner (n.info p) lock = true)
    (hadds : Adds lock acc acc' news (LeftOver lock (n.info p)))
    (hlength : news.length = entryPieces (n.info p) lock) :
    Unlocking n lock rest
      { acc' with st := doNlmRemoveFromLocklist acc'.st p, cnt := acc'.cnt + 1 } := by
  have hp : p ∈ acc.st.lockList := h.onList.head
  have hnodup : acc.st.lockList.Nodup := (List.nodup_append.mp h.nodup).1
  -- the new addresses are not among the old ones
  have hnew : ∀ q ∈ acc.addresses, q ∉ news := fun q hq hqn => by
    have := h.below q hq
    have := (hadds.fresh_le hqn).1
    omega
  have hold : ∀ q ∈ acc.addresses, acc'.st.info q = acc.st.info q := fun q hq =>
    info_of_mem (hadds.mem q (h.below q hq))
  have haddr : ∀ q, q ∈ DeleteAcc.addresses
      { acc' with st := doNlmRemoveFromLocklist acc'.st p, cnt := acc'.cnt + 1 } ↔
        (q ∈ acc.addresses ∧ q ≠ p) ∨ q ∈ news := by
    intro q
    have hsplit : q ∈ acc.split → q ≠ p := by
      rintro hq rfl
      exact (List.nodup_append.mp h.nodup).2.2 q hp q hq rfl
    simp only [DeleteAcc.addresses, NlmState.lockList_remove, hadds.lockList, hadds.split,
      List.mem_append, hnodup.mem_erase_iff]
    tauto
  refine ⟨?_, fun q hq => ?_, ?_, fun q hq => ?_, fun q hq hother => ?_, fun x hx => ?_,
    fun x hx q hq hheld => ?_, ?_, ?_⟩
  · -- no entry is there twice
    simp only [DeleteAcc.addresses, NlmState.lockList_remove, hadds.lockList, hadds.split,
      ← List.append_assoc]
    rw [List.nodup_append]
    have hsub : (acc.st.lockList.erase p ++ acc.split).Sublist acc.addresses :=
      List.Sublist.append_right List.erase_sublist acc.split
    refine ⟨h.nodup.sublist hsub, hadds.nodup, fun a ha b hb hab => ?_⟩
    exact hnew a (hsub.subset ha) (hab ▸ hb)
  · -- the entries are allocated
    simp only [NlmState.fresh_remove, hadds.fresh]
    rcases (haddr q).mp hq with ⟨hq, -⟩ | hq
    · have := h.below q hq
      omega
    · have := (hadds.fresh_le hq).2
      rw [hadds.fresh] at this
      exact this
  · exact h.onList.tail_erase (by rw [NlmState.lockList_remove, hadds.lockList])
  · -- the entries to come are as they were
    have hmem := h.onList.subset (.tail p hq)
    simp only [NlmState.info_remove]
    rw [hold q (List.mem_append_left _ hmem)]
    exact h.info q (.tail p hq)
  · -- the entries of others stay
    obtain ⟨hmem, hsame⟩ := h.others q hq hother
    have hqp : q ≠ p := by
      rintro rfl
      rw [howner] at hother
      cases hother
    refine ⟨?_, ?_⟩
    · rw [NlmState.lockList_remove, hadds.lockList, hnodup.mem_erase_iff]
      exact ⟨hqp, hmem⟩
    · rw [mem_remove hqp, hadds.mem q (h.below q (List.mem_append_left _ hmem)), hsame]
  · -- outside the range the pieces hold what the entry held
    rw [← h.outside x hx]
    simp only [NlmState.info_remove]
    have hpinfo : acc.st.info p = n.info p := h.info p List.mem_cons_self
    constructor
    · rintro ⟨q, hq, hheld⟩
      rcases (haddr q).mp hq with ⟨hq, -⟩ | hq
      · rw [hold q hq] at hheld
        exact ⟨q, hq, hheld⟩
      · have hleft := (hadds.held x).mp ⟨q, hq, hheld⟩
        rw [← hpinfo] at hleft
        exact ⟨p, List.mem_append_left _ hp, hleft.1⟩
    · rintro ⟨q, hq, hheld⟩
      by_cases hqp : q = p
      · subst hqp
        rw [hpinfo] at hheld
        obtain ⟨r, hr, hheld⟩ := (hadds.held x).mpr ⟨hheld, hx⟩
        exact ⟨r, (haddr r).mpr (.inr hr), hheld⟩
      · rw [← hold q hq] at hheld
        exact ⟨q, (haddr q).mpr (.inl ⟨hq, hqp⟩), hheld⟩
  · -- inside the range the pieces hold nothing
    simp only [NlmState.info_remove] at hheld
    rcases (haddr q).mp hq with ⟨hq, hqp⟩ | hq
    · rw [hold q hq] at hheld
      exact (List.mem_cons.mp (h.inside x hx q hq hheld)).resolve_left hqp
    · exact absurd hx ((hadds.held x).mp ⟨q, hq, hheld⟩).2
  · -- one entry less, and each piece one more
    have hcnt := h.cnt
    have hpos : 0 < acc.st.lockList.length := List.length_pos_of_mem hp
    simp only [DeleteAcc.addresses, List.length_append] at hcnt
    simp only [DeleteAcc.addresses, NlmState.lockList_remove, hadds.lockList, hadds.split,
      hadds.cnt, List.length_append, List.length_erase_of_mem hp]
    omega
  · have hpieces := h.pieces
    rw [List.map_cons, List.sum_cons, if_pos howner] at hpieces
    simp only [hadds.split, List.length_append, hlength]
    omega

theorem step (hlock : NoWrap lock.lOffset lock.lLen)
    (hentry : NoWrap (n.info p).start (n.info p).len) (h : Unlocking n lock (p :: rest) acc) :
    Unlocking n lock rest (deleteStep lock acc p) := by
  have hp : (acc.st.mem p).toLockInfo = n.info p := h.info p List.mem_cons_self
  rw [deleteStep, hp]
  split
  next howner =>
    simp only [doNlmDeleteLockEntry, hp]
    split
    next hreach =>
      refine h.skip (fun x hx => hx.outside_of_outOfReach hentry hlock hreach) ?_
      simp [entryPieces, hreach]
    rename_i hreach
    rw [Bool.not_eq_true] at hreach
    split
    next hfull =>
      have hnone : Adds lock acc acc [] (LeftOver lock (n.info p)) := Adds.nil fun x hx =>
        hx.2 (hx.1.inside_of_fullyOverlaps hentry hlock hfull)
      exact h.replace howner hnone (by simp [entryPieces, hfull])
    next hfull =>
      rw [Bool.not_eq_true] at hfull
      rw [← hp] at hentry hreach hfull
      obtain ⟨news, hadds, hlength⟩ := adds_addPieces acc hentry hlock hreach hfull
      rw [hp] at hadds hlength
      exact h.replace howner hadds hlength
  next howner =>
    refine h.skip (fun x hx => absurd hx.1 howner) ?_
    rw [if_neg howner]

end Unlocking

theorem unlocking_loop (hs : ListOk n) (hlock : NoWrap lock.lOffset lock.lLen)
    (hentries : ∀ p ∈ n.lockList, NoWrap (n.info p).start (n.info p).len) :
    Unlocking n lock [] (deleteLoop n lock) := by
  refine (foldl_rest (I := fun rest acc => rest ⊆ n.lockList ∧ Unlocking n lock rest acc) ?_
    n.lockList _ ⟨List.Subset.refl _, Unlocking.init hs⟩).2
  rintro p rest acc ⟨hsub, h⟩
  refine ⟨List.subset_of_cons_subset hsub, h.step hlock ?_⟩
  exact hentries p (hsub (.head _))

/-! ## The result -/

/-- **An unlock removes exactly its bytes** if and only if it does not leave one single piece. -/
theorem unlocksExactly_iff (hs : ListOk n) (hlock : NoWrap lock.lOffset lock.lLen)
    (hentries : ∀ p ∈ n.lockList, NoWrap (n.info p).start (n.info p).len) :
    UnlocksExactly n lock ↔ splitCount n lock ≠ 1 := by
  have hloop := unlocking_loop hs hlock hentries
  have hlength : (deleteLoop n lock).split.length = splitCount n lock := by
    simpa using hloop.pieces
  have hcnt := hloop.cnt
  constructor
  · -- the piece that is lost was counted
    intro h hone
    have hcount := h.count
    simp only [nlmDeleteLockEntry, glistAddListTail] at hcount
    rw [if_pos (by omega), hcnt, DeleteAcc.addresses, List.length_append] at hcount
    omega
  · intro hne
    have hlist : (nlmDeleteLockEntry n lock).1.lockList = (deleteLoop n lock).addresses := by
      simp only [nlmDeleteLockEntry, glistAddListTail, DeleteAcc.addresses]
      split
      next hshort =>
        rw [List.length_eq_zero_iff.mp (show (deleteLoop n lock).split.length = 0 by omega),
          List.append_nil]
      · rfl
    have hmem : ∀ p, (nlmDeleteLockEntry n lock).1.mem p = (deleteLoop n lock).st.mem p :=
      fun _ => rfl
    have hinfo : ∀ p, (nlmDeleteLockEntry n lock).1.info p = (deleteLoop n lock).st.info p :=
      fun _ => rfl
    refine ⟨?_, fun p hp hother => ?_, ?_⟩
    · ext x
      simp only [heldBy, Set.mem_ofPred_eq, hlist, hinfo]
      by_cases hx : x.1 ∈ lock.bytes
      · constructor
        · rintro ⟨p, hp, hheld⟩
          exact absurd (hloop.inside x hx p hp hheld) List.not_mem_nil
        · rintro ⟨-, hout⟩
          exact absurd hx hout
      · rw [hloop.outside x hx]
        exact ⟨fun h => ⟨h, hx⟩, fun h => h.1⟩
    · obtain ⟨hp', hsame⟩ := hloop.others p hp hother
      rw [hlist, hmem]
      exact ⟨List.mem_append_left _ hp', hsame⟩
    · rw [hlist]
      exact hcnt

/-- Host 1 holds an exclusive lock on `[0, 10)`. -/
def oneLock : NlmState := (nlmAddToLocklist nlmInitLocklist (exclusiveRequest 1 0 10) true).1

theorem listOk_oneLock : ListOk oneLock := by
  have hlist : oneLock.lockList = [0] := by decide
  refine ⟨?_, ?_⟩
  · rw [hlist]
    exact List.nodup_singleton 0
  · rw [hlist]
    decide

theorem noWrap_oneLock :
    ∀ p ∈ oneLock.lockList, NoWrap (oneLock.info p).start (oneLock.info p).len := by
  decide

/-- Unlocking the middle `[3, 5)` leaves two pieces. -/
theorem unlocksExactly_middle : UnlocksExactly oneLock (exclusiveRequest 1 3 2).alock :=
  (unlocksExactly_iff listOk_oneLock (by decide) noWrap_oneLock).mpr (by decide)

/-- Unlocking the first half `[0, 5)` gives up the second half too, and counts nothing. -/
theorem half_not_unlocksExactly :
    ListOk oneLock ∧ NoWrap 0 5 ∧
      (∀ p ∈ oneLock.lockList, NoWrap (oneLock.info p).start (oneLock.info p).len) ∧
      ¬ UnlocksExactly oneLock (exclusiveRequest 1 0 5).alock := by
  refine ⟨listOk_oneLock, by decide, noWrap_oneLock, fun h => ?_⟩
  have hcount := h.count
  have hresult : (nlmDeleteLockEntry oneLock (exclusiveRequest 1 0 5).alock).2 = 0 := by decide
  have hlist : (nlmDeleteLockEntry oneLock (exclusiveRequest 1 0 5).alock).1.lockList = [] := by
    decide
  have hbefore : oneLock.lockList.length = 1 := by decide
  rw [hresult, hlist, hbefore] at hcount
  exact absurd hcount (by decide)

end CloudNfs.Nlm
