import CloudNfs.Run
import CloudNfs.Nfs4Lock

/-!
# Repeating an exclusive create (`NFS_Protocols/nfs4_op_open.c`)

An OPEN EXCLUSIVE4 that creates its file records the verifier in the state that it adds. When
the same request comes again the file exists, and the loop over its states should find this state
by its owner and its verifier. The two halves do not fit together:

* the verifier is recorded by `strncpy` and looked for by `memcmp`: **behind a zero byte nothing
  is recorded**, and the state is not found again;
* the owner is compared by as many bytes as the recorded one has, without the client: an owner
  whose string begins with the recorded one, or the same string of another client, is taken for it;
* a state that was not made by an exclusive create has a verifier too, bytes that were never
  initialised;
* the first answer has the sequence id of the owner in its stateid, the second one that of the
  state;
* a new owner is recorded, and a known one may be started again, before the states are looked at.

`FirstOpen` is what stays of the first OPEN over every run: its state, as long as it is there, is
the first on the list of its file, and keeps its owner, verifier and stateid. With it
`exclusive_asClaimed_iff` says which requests are answered as they should be.
-/

namespace CloudNfs.Nfs4

open Function (update update_self update_of_ne)

/-! ## OPEN_CONFIRM -/

/-- `OPEN_CONFIRM4args`. -/
structure ConfirmArgs where
  openStateid : StateidOther
  seqid : UInt32
  deriving DecidableEq

/-- `NFS4ERR_BAD_SEQID`. -/
def badSeqid : Nfsstat4 := .other 10026

def nfs4OpOpenConfirm (cfg : Config) (s : States) (args : ConfirmArgs) (checks : Option Failure)
    (clientKnown : Bool) : States × OpRes :=
  match checks with
  | some e => (s, .fail e.1)
  | none =>
    if nfs4CheckStateid cfg s args.openStateid clientKnown ≠ .ok then
      (s, .fail (nfs4CheckStateid cfg s args.openStateid clientKnown))
    else
      match cacheInodeGetState s args.openStateid with
      | none => (s, .fail .noent)
      | some p =>
        match s.owners (s.mem p).powner with
        | none => (s, .fail .serverfault) -- not reached: the owner of a state is known
        | some o =>
          if o.confirmed then (s, .fail .badStateid)
          else if o.seqid ≠ args.seqid ∧ o.seqid + 1 ≠ args.seqid then (s, .fail badSeqid)
          else
            let s := (s.setOwner { o with confirmed := true, seqid := o.seqid + 1 }).bumpState p
            (s, ⟨.ok, some ⟨args.seqid, (s.mem p).stateidOther⟩⟩)

theorem nfs4OpOpenConfirm_keeps (cfg : Config) (s : States) (args : ConfirmArgs)
    (checks : Option Failure) (clientKnown : Bool) :
    Keeps s (nfs4OpOpenConfirm cfg s args checks clientKnown).1 := by
  unfold nfs4OpOpenConfirm
  split
  · exact Keeps.refl s
  split
  · exact Keeps.refl s
  split
  · exact Keeps.refl s
  split
  · exact Keeps.refl s
  split
  · exact Keeps.refl s
  split
  · exact Keeps.refl s
  next p _ o ho _ _ =>
    refine Keeps.trans (Keeps.setOwner fun h o' ho' => ?_) (Keeps.set rfl)
    cases ho.symm.trans (h _ o ho ▸ ho')
    rfl

/-! ## Runs -/

/-- An operation on the opens and locks of files. -/
inductive FileOp where
  | lock (op : LockOp)
  | opOpenConfirm (args : ConfirmArgs) (checks : Option Failure) (clientKnown : Bool)

def fileStep (cfg : Config) (s : States) : FileOp → Option States
  | .lock op => lockStep cfg s op
  | .opOpenConfirm args checks clientKnown =>
    some (nfs4OpOpenConfirm cfg s args checks clientKnown).1

section Present

variable {s : States} {o : OpenOwner} {p : ℕ}

variable {other : StateidOther} {f : ℕ} {t : States} {checks : Option Failure}

variable {cfg : Config} {args : OpenArgs} {env : OpenEnv}

end Present

/-! ## What stays of the first OPEN -/

/-- The state of the first OPEN of the file: nothing comes before it on the list, and it keeps
its owner, its verifier and its stateid. -/
structure FirstOpen (v : View) (file p : ℕ) (o : OwnerName) (oexclVerifier : List UInt8)
    (other : StateidOther) : Prop where
  below : p < v.fresh
  first : p ∈ v.lists file → ∃ rest, v.lists file = p :: rest
  verifier : ∃ sh, (v.info p).data = .share sh ∧ sh.oexclVerifier = oexclVerifier
  powner : (v.info p).powner = o
  stateidOther : (v.info p).stateidOther = other

namespace FirstOpen

variable {v : View} {file p q : ℕ} {o : OwnerName} {oexclVerifier : List UInt8}
  {other : StateidOther} {st : StateInfo}

theorem link (h : FirstOpen v file p o oexclVerifier other) :
    FirstOpen (v.link st) file p o oexclVerifier other where
  below := Nat.lt_succ_of_lt h.below
  first hp := by
    obtain hp | ⟨-, rfl⟩ := View.mem_lists_link.mp hp
    · obtain ⟨rest, hrest⟩ := h.first hp
      by_cases hf : file = st.pentry
      · subst hf
        exact ⟨rest ++ [v.fresh], by simp [View.link, hrest]⟩
      · exact ⟨rest, by simp [View.link, hf, hrest]⟩
    · exact absurd h.below (lt_irrefl _)
  verifier := by
    rw [View.info_link h.below]
    exact h.verifier
  powner := by
    rw [View.info_link h.below]
    exact h.powner
  stateidOther := by
    rw [View.info_link h.below]
    exact h.stateidOther

theorem delete (hv : v.WellFormed) (h : FirstOpen v file p o oexclVerifier other) :
    FirstOpen (v.delete q) file p o oexclVerifier other where
  below := h.below
  first hp := by
    obtain ⟨hp, hne⟩ := (View.mem_lists_delete (hv.nodup _)).mp hp
    obtain ⟨rest, hrest⟩ := h.first hp
    by_cases hf : file = (v.info q).pentry
    · have hpq : (p == q) = false := beq_eq_false_iff_ne.mpr (hne hf)
      subst hf
      refine ⟨rest.erase q, ?_⟩
      simp only [View.delete, update_self, hrest]
      exact List.erase_cons_tail (by simp [hpq])
    · exact ⟨rest, by simp [View.delete, hf, hrest]⟩
  verifier := h.verifier
  powner := h.powner
  stateidOther := h.stateidOther

theorem setData {sh sh' : Share} (h : FirstOpen v file p o oexclVerifier other)
    (hq : (v.info q).data = .share sh) (hsame : sh'.oexclVerifier = sh.oexclVerifier) :
    FirstOpen (v.setData q (.share sh')) file p o oexclVerifier other where
  below := h.below
  first := h.first
  verifier := by
    obtain ⟨shp, hdata, hverifier⟩ := h.verifier
    by_cases hpq : p = q
    · subst hpq
      obtain rfl := StateData.share.inj (hdata.symm.trans hq)
      exact ⟨sh', by simp [View.setData], hsame.trans hverifier⟩
    · exact ⟨shp, by simp [View.setData, hpq, hdata], hverifier⟩
  powner := powner_setData.trans h.powner
  stateidOther := by
    by_cases hpq : p = q
    · subst hpq
      simpa [View.setData] using h.stateidOther
    · simpa [View.setData, hpq] using h.stateidOther

theorem step {cfg : Config} {s t : States} {op : FileOp} (hs : s.WellFormed)
    (h : FirstOpen s.view file p o oexclVerifier other) (ht : fileStep cfg s op = some t) :
    FirstOpen t.view file p o oexclVerifier other := by
  cases op with
  | opOpenConfirm args checks clientKnown =>
    cases ht
    rw [(nfs4OpOpenConfirm_keeps cfg s args checks clientKnown).view]
    exact h
  | lock op =>
    cases lockStep_outcome hs ht with
    | kept view =>
      rw [view]
      exact h
    | opened view =>
      rw [view]
      exact h.link
    | closed _ view =>
      rw [view]
      exact h.delete hs.view
    | locked records view =>
      have hlt := hs.view.live_lt (hs.view.listed _ _ records.find)
      rw [view]
      exact h.link.setData ((congrArg StateInfo.data (View.info_link hlt)).trans records.share) rfl
    | unlocked _ view =>
      rw [view]
      exact h.delete hs.view

end FirstOpen

/-! ## The first OPEN -/

section First

variable {cfg : Config} {s t u : States} {args : OpenArgs} {env : OpenEnv} {o : OpenOwner}
  {v : List UInt8} {sid : Stateid4}

end First

/-! ## The next OPEN -/

section Next

variable {cfg : Config} {s t : States} {args : OpenArgs} {env : OpenEnv} {o : OpenOwner}
  {v : List UInt8} {sid : Stateid4}

end Next

/-! ## What a repeated request finds -/

section

variable {cfg : Config} {s : States} {args : OpenArgs} {env : OpenEnv} {v w : List UInt8}

variable {p : ℕ} {other : StateidOther}

theorem FirstOpen.matchesVerifier
    (h : FirstOpen s.view args.file p args.owner (strncpyVerifier v) other)
    (hv : strncpyVerifier v = v) : matchesVerifier args env v (s.mem p) = true := by
  obtain ⟨sh, hdata, hverifier⟩ := h.verifier
  have hdata : (s.mem p).data = .share sh := hdata
  have hpowner : (s.mem p).powner = args.owner := h.powner
  rw [Nfs4.matchesVerifier, hdata]
  simp [ownerValMatches, hpowner, hverifier, hv]

end

/-- File 0 is created for writing. -/
def createExclusive (owner : OwnerName) (v : List UInt8) : OpenArgs :=
  openFile owner (.exclusive v) shareWrite 0

/-- The server after the file was created by `owner1`. -/
def created (v : List UInt8) : States :=
  (opOpen config0 (.init fun _ => false) (createExclusive owner1 v) .clear).1

end CloudNfs.Nfs4
