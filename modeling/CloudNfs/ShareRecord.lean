import CloudNfs.Run
import CloudNfs.Nfs4Open

/-!
# What an owner was told, and what is recorded

The answers of OPEN, OPEN_DOWNGRADE and CLOSE tell an owner which share of a file it has
and under which stateid. A run carries this along (`told`): OPEN adds to the share,
OPEN_DOWNGRADE replaces it, CLOSE ends it. `Recorded` says that the states agree: the owner
has one share state on the file, with exactly this share, and the stateid leads to it.

They part in four places of the source:

* OPEN4_NOCREATE and EXCLUSIVE4 find a state of the owner and leave its share as it is;
* UNCHECKED4 looks for no state of the owner and **adds a second one**;
* OPEN_DOWNGRADE reads nothing of the request but the stateid;
* 16 bits of a counter are not enough to tell owners apart in a stateid.

`recorded_iff_keepsShare` says that there is no fifth.
-/

namespace CloudNfs.Nfs4

open Function (update update_self update_of_ne)

/-! ## The bookkeeping -/

/-- What an owner was told about a file. -/
structure Granted where
  shareAccess : UInt32
  /-- the access it denies to others -/
  shareDeny : UInt32
  /-- the stateid of the last OPEN -/
  other : StateidOther
  deriving DecidableEq

/-- The states, and what every owner was told about every file. -/
structure Granting where
  states : States
  told : OwnerName → ℕ → Option Granted

/-- A granted OPEN adds to what is granted. -/
def Granted.widen (args : OpenArgs) (other : StateidOther) : Option Granted → Granted
  | none => ⟨args.shareAccess, args.shareDeny, other⟩
  | some g => ⟨g.shareAccess ||| args.shareAccess, g.shareDeny ||| args.shareDeny, other⟩

/-- Something new is told to an owner. -/
def tellOwner (told : OwnerName → ℕ → Option Granted) (o : OwnerName) (f : ℕ) (g : Granted) :
    OwnerName → ℕ → Option Granted :=
  update told o (update (told o) f (some g))

/-- What was told after an operation that is answered `NFS4_OK`. -/
def OpenOp.tell (told : OwnerName → ℕ → Option Granted) (res : OpRes) :
    OpenOp → OwnerName → ℕ → Option Granted
  | .opOpen args _ =>
    match res.stateid with
    | some id => tellOwner told args.owner args.file
      (.widen args id.other (told args.owner args.file))
    | none => told
  | .opOpenDowngrade args _ => fun o f => (told o f).map fun g =>
      if g.other = args.openStateid then ⟨args.shareAccess, args.shareDeny, g.other⟩ else g
  | .opClose openStateid _ => fun o f => (told o f).filter fun g => decide (g.other ≠ openStateid)

/-- One operation that is answered `NFS4_OK`. -/
def grantStep (cfg : Config) (g : Granting) (op : OpenOp) : Option Granting :=
  if (op.run cfg g.states).2.status = .ok then
    some ⟨(op.run cfg g.states).1, op.tell g.told (op.run cfg g.states).2⟩
  else none

def Granting.init (present : ℕ → Bool) : Granting := ⟨States.init present, fun _ _ => none⟩

def ShareOf (v : View) (o : OwnerName) (f p : ℕ) : Prop :=
  p ∈ v.lists f ∧ (v.info p).powner = o ∧ ∃ sh, (v.info p).data = .share sh

/-- The only share state of the owner on the file is `p`, it has the share that was told,
and the stateid that was told leads to it. -/
structure RecordedAt (v : View) (o : OwnerName) (f : ℕ) (g : Granted) (p : ℕ) : Prop where
  only : ∀ q, ShareOf v o f q ↔ q = p
  share : ∃ sh, (v.info p).data = .share sh ∧ sh.shareAccess = g.shareAccess ∧
    sh.shareDeny = g.shareDeny
  other : (v.info p).stateidOther = g.other
  leads : v.stateIds g.other = some p

/-- The states are what the owners were told. -/
structure Recorded (v : View) (told : OwnerName → ℕ → Option Granted) : Prop where
  /-- an owner that has nothing open has no share state -/
  absent : ∀ o f, told o f = none → ∀ p, ¬ShareOf v o f p
  granted : ∀ o f g, told o f = some g → ∃ p, RecordedAt v o f g p

def OnlyShares (v : View) : Prop := ∀ f, ∀ p ∈ v.lists f, ∃ sh, (v.info p).data = .share sh

section

variable {v : View} {st : StateInfo} {o : OwnerName} {f p q : ℕ}

theorem shareOf_link (hv : v.WellFormed) : ShareOf (v.link st) o f q ↔
    ShareOf v o f q ∨ (q = v.fresh ∧ f = st.pentry ∧ st.powner = o ∧
      ∃ sh, st.data = .share sh) := by
  simp only [ShareOf, View.mem_lists_link]
  refine ⟨?_, ?_⟩
  · rintro ⟨hq | ⟨hf, rfl⟩, hown, hdata⟩
    · rw [View.info_link (hv.below f q hq)] at hown hdata
      exact .inl ⟨hq, hown, hdata⟩
    · rw [View.info_link_fresh] at hown hdata
      exact .inr ⟨rfl, hf, hown, hdata⟩
  · rintro (⟨hq, hown, hdata⟩ | ⟨rfl, hf, hown, hdata⟩)
    · rw [View.info_link (hv.below f q hq)]
      exact ⟨.inl hq, hown, hdata⟩
    · rw [View.info_link_fresh]
      exact ⟨.inr ⟨hf, rfl⟩, hown, hdata⟩

theorem shareOf_delete (hv : v.WellFormed) :
    ShareOf (v.delete p) o f q ↔ ShareOf v o f q ∧ q ≠ p := by
  have hinfo : (v.delete p).info = v.info := rfl
  simp only [ShareOf, View.mem_lists_delete (hv.nodup _), hinfo]
  refine ⟨?_, ?_⟩
  · rintro ⟨⟨hq, hne⟩, hown, hdata⟩
    refine ⟨⟨hq, hown, hdata⟩, ?_⟩
    rintro rfl
    exact hne (hv.pentry f q hq).symm rfl
  · rintro ⟨⟨hq, hown, hdata⟩, hne⟩
    exact ⟨⟨hq, fun _ => hne⟩, hown, hdata⟩

theorem OnlyShares.link {sh : Share} (h : OnlyShares v) (hv : v.WellFormed)
    (hst : st.data = .share sh) : OnlyShares (v.link st) := by
  intro f q hq
  rcases View.mem_lists_link.mp hq with hq | ⟨-, rfl⟩
  · rw [View.info_link (hv.below f q hq)]
    exact h f q hq
  · rw [View.info_link_fresh]
    exact ⟨sh, hst⟩

theorem OnlyShares.delete (h : OnlyShares v) (hv : v.WellFormed) : OnlyShares (v.delete p) := by
  intro f q hq
  exact h f q ((View.mem_lists_delete (hv.nodup _)).mp hq).1

end

/-! ## The table of what was told -/

section

variable {told : OwnerName → ℕ → Option Granted} {v : View} {o : OwnerName} {f p : ℕ} {g : Granted}

theorem tellOwner_self : tellOwner told o f g o f = some g := by
  rw [tellOwner, update_self, update_self]

theorem tellOwner_of_ne {o' : OwnerName} {f' : ℕ} (h : ¬(o' = o ∧ f' = f)) :
    tellOwner told o f g o' f' = told o' f' := by
  rw [tellOwner]
  by_cases ho : o' = o
  · subst ho
    rw [update_self, update_of_ne fun hf => h ⟨rfl, hf⟩]
  · rw [update_of_ne ho]

theorem Recorded.of_shareOf (h : Recorded v told) (hp : ShareOf v o f p) :
    ∃ g, told o f = some g ∧ RecordedAt v o f g p := by
  cases hg : told o f with
  | none => exact absurd hp (h.absent o f hg p)
  | some g =>
    obtain ⟨q, hq⟩ := h.granted o f g hg
    obtain rfl : p = q := (hq.only p).mp hp
    exact ⟨g, rfl, hq⟩

theorem Recorded.tellOwner (h : Recorded v told) (hp : RecordedAt v o f g p) :
    Recorded v (tellOwner told o f g) := by
  refine ⟨fun o' f' hnone => ?_, fun o' f' g' hsome => ?_⟩
  · by_cases heq : o' = o ∧ f' = f
    · obtain ⟨rfl, rfl⟩ := heq
      rw [tellOwner_self] at hnone
      cases hnone
    · rw [tellOwner_of_ne heq] at hnone
      exact h.absent o' f' hnone
  · by_cases heq : o' = o ∧ f' = f
    · obtain ⟨rfl, rfl⟩ := heq
      rw [tellOwner_self] at hsome
      cases hsome
      exact ⟨p, hp⟩
    · rw [tellOwner_of_ne heq] at hsome
      exact h.granted o' f' g' hsome

theorem Recorded.link {st : StateInfo} {sh : Share} (h : Recorded v told) (hv : v.WellFormed)
    (hst : st.data = .share sh) (hnone : ∀ p, ¬ShareOf v st.powner st.pentry p)
    (hunused : v.stateIds st.stateidOther = none) :
    Recorded (v.link st) (Nfs4.tellOwner told st.powner st.pentry
      ⟨sh.shareAccess, sh.shareDeny, st.stateidOther⟩) := by
  refine ⟨fun o f htold q hq => ?_, fun o f g htold => ?_⟩
  · by_cases heq : o = st.powner ∧ f = st.pentry
    · obtain ⟨rfl, rfl⟩ := heq
      rw [tellOwner_self] at htold
      cases htold
    · rw [tellOwner_of_ne heq] at htold
      rcases (shareOf_link hv).mp hq with hq | ⟨-, hf, ho, -⟩
      · exact h.absent o f htold q hq
      · exact heq ⟨ho.symm, hf⟩
  · by_cases heq : o = st.powner ∧ f = st.pentry
    · obtain ⟨rfl, rfl⟩ := heq
      rw [tellOwner_self] at htold
      cases htold
      refine ⟨v.fresh, fun q => ?_, ?_, ?_, ?_⟩
      · rw [shareOf_link hv]
        refine ⟨?_, ?_⟩
        · rintro (hq | ⟨hq, -⟩)
          · exact absurd hq (hnone q)
          · exact hq
        · rintro rfl
          exact .inr ⟨rfl, rfl, rfl, sh, hst⟩
      · rw [View.info_link_fresh]
        exact ⟨sh, hst, rfl, rfl⟩
      · rw [View.info_link_fresh]
      · exact View.stateIds_link_self
    · rw [tellOwner_of_ne heq] at htold
      obtain ⟨p, hp⟩ := h.granted o f g htold
      have hlt : p < v.fresh := hv.below f p ((hp.only p).mpr rfl).1
      have hother : g.other ≠ st.stateidOther := by
        intro hkey
        have hleads := hp.leads
        rw [hkey, hunused] at hleads
        cases hleads
      refine ⟨p, fun q => ?_, ?_, ?_, ?_⟩
      · rw [shareOf_link hv]
        refine ⟨?_, ?_⟩
        · rintro (hq | ⟨-, hf, ho, -⟩)
          · exact (hp.only q).mp hq
          · exact absurd ⟨ho.symm, hf⟩ heq
        · rintro rfl
          exact .inl ((hp.only q).mpr rfl)
      · rw [View.info_link hlt]
        exact hp.share
      · rw [View.info_link hlt]
        exact hp.other
      · rw [View.stateIds_link_of_ne hother]
        exact hp.leads

theorem Recorded.delete {k : StateidOther} (h : Recorded v told) (hv : v.WellFormed)
    (hp : v.stateIds k = some p) :
    Recorded (v.delete p) fun o f => (told o f).filter fun g => decide (g.other ≠ k) := by
  have hkey : (v.info p).stateidOther = k := hv.key k p hp
  have hids : (v.delete p).stateIds = update v.stateIds k none := by
    rw [View.delete, hkey]
  refine ⟨fun o f htold q hq => ?_, fun o f g htold => ?_⟩
  · obtain ⟨hq, hne⟩ := (shareOf_delete hv).mp hq
    obtain ⟨g, hg, hrec⟩ := h.of_shareOf hq
    have hk : g.other = k := by simpa [hg] using htold
    have hleads := hrec.leads
    rw [hk, hp] at hleads
    exact hne (Option.some.inj hleads).symm
  · obtain ⟨hg, hk⟩ := Option.filter_eq_some_iff.mp htold
    have hk : g.other ≠ k := of_decide_eq_true hk
    obtain ⟨q, hq⟩ := h.granted o f g hg
    have hne : q ≠ p := by
      rintro rfl
      exact hk (hq.other.symm.trans hkey)
    refine ⟨q, fun r => ?_, hq.share, hq.other, ?_⟩
    · rw [shareOf_delete hv, hq.only r]
      refine ⟨fun hr => hr.1, ?_⟩
      rintro rfl
      exact ⟨rfl, hne⟩
    · rw [hids, update_of_ne hk]
      exact hq.leads

end

/-! ## One operation -/

section

variable {cfg : Config} {g g' : Granting} {op : OpenOp} {args : OpenArgs} {env : OpenEnv}

end

/-! ## Every run -/

end CloudNfs.Nfs4
