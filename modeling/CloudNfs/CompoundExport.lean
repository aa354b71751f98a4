import CloudNfs.Compound

/-!
# The export of a COMPOUND

What is in effect belongs together after every operation, and RESTOREFH gives back what was in
effect at the last SAVEFH, **exactly** in the runs whose operations all find no other export than
that of the handle they are about (`keepsTogether_iff`).
-/

namespace CloudNfs.Compound

open FileHandle (Exportlist FileHandleV4 Fsal toShort)

variable {Ctx Handle : Type} {cfg : Config Ctx Handle} {env : Env Handle}
  {s t : CompoundData Ctx Handle} {fh object : FileHandleV4} {x : Exportlist Ctx}
  {e : CacheEntry Handle}

/-! ### Handles -/

theorem exportid_of_ofNat (x : Exportlist Ctx) : (UInt32.ofNat x.id.toNat).toNat = x.id.toNat := by
  have hlt := x.id.toNat_lt
  exact UInt32.toNat_ofNat_of_lt' (by simp only [UInt32.size]; omega)

theorem matches_of_FSALToFhandle (hf : cfg.fsal.DigestUndone)
    (h : nfs4FSALToFhandle cfg env e.handle x = some fh) :
    Matches cfg fh x e e.type ∧ nfs4IsFhPseudo fh = false := by
  obtain ⟨d, hd, rfl⟩ := Option.map_eq_some_iff.mp h
  exact ⟨⟨(exportid_of_ofNat x).symm, hf.undo _ _ _ _ hd, rfl⟩, rfl⟩

theorem Matches.lookedFh {filetype : FileType} (h : Matches cfg fh x e filetype) (b : Bool)
    (e' : CacheEntry Handle) : Matches cfg (lookedFh b e' fh) x e filetype := by
  have hexportid : (Compound.lookedFh b e' fh).exportid = fh.exportid := by
    rw [Compound.lookedFh]
    split <;> split <;> rfl
  have hdigest : (Compound.lookedFh b e' fh).fsopaqueData = fh.fsopaqueData := by
    rw [Compound.lookedFh]
    split <;> split <;> rfl
  refine ⟨?_, ?_, h.filetype⟩
  · rw [hexportid]
    exact h.exportid
  · rw [hdigest]
    exact h.handle

theorem handle_of_FhandleToCache {pcontext : Ctx}
    (h : nfsFhandleToCache cfg env pcontext fh = some e) :
    cfg.fsal.expandHandle .nfsv4 pcontext fh.fsopaqueData = some e.handle := by
  rw [nfsFhandleToCache] at h
  split at h
  · cases h
  split at h
  next handle type hhandle htype =>
    cases h
    exact hhandle
  · cases h

theorem toShort_emod (n : ℕ) : toShort n % 2 ^ 16 = (n : ℤ) % 2 ^ 16 := by
  unfold toShort
  rw [Int.bmod_eq_emod]
  split <;> omega

theorem id_of_getExportById {exports : List (Exportlist Ctx)} (hid : fh.exportid.toNat < 2 ^ 16)
    (h : nfsGetExportById exports (toShort fh.exportid.toNat) = some x) :
    x.id.toNat = fh.exportid.toNat := by
  rw [nfsGetExportById] at h
  have hfound := List.find?_some h
  rw [decide_eq_true_eq, toShort_emod] at hfound
  omega

/-! ### The operations -/

/-- The export is there, or the handle is in the pseudo file system, or the export was found. -/
inductive SetExport (cfg : Config Ctx Handle) (s : CompoundData Ctx Handle) :
    CompoundData Ctx Handle → Prop where
  | there (x : Exportlist Ctx) (hx : s.pexport = some x) : SetExport cfg s s
  | pseudo (fh : FileHandleV4) (hfh : s.currentFH = some fh) (hpseudo : nfs4IsFhPseudo fh = true)
      (hx : s.pexport = none) : SetExport cfg s s
  | found (hnone : s.pexport = none) (fh : FileHandleV4) (hfh : s.currentFH = some fh)
      (hpseudo : nfs4IsFhPseudo fh = false) (x : Exportlist Ctx)
      (hx : nfsGetExportById cfg.pfullexportlist (toShort fh.exportid.toNat) = some x) :
      SetExport cfg s
        { s with pexport := some x, pcontext := x.fsExportContext, credExport := some x }

theorem makeCred_ok (h : nfs4MakeCred env s x = .ok t) :
    t = { s with pcontext := x.fsExportContext, credExport := some x } := by
  rw [nfs4MakeCred] at h
  split at h
  · exact (Except.ok.inj h).symm
  · cases h

theorem setExportIfNull_ok (h : setExportIfNull cfg env s = .ok t) : SetExport cfg s t := by
  rw [setExportIfNull] at h
  split at h
  next hnone =>
    have hnone := Option.isNone_iff_eq_none.mp hnone
    rw [nfs4SetCompoundExport] at h
    split at h
    · cases h
    rename_i fh hfh
    split at h
    next hpseudo =>
      obtain rfl := Except.ok.inj h
      exact .pseudo fh hfh hpseudo hnone
    rename_i hpseudo
    split at h
    · cases h
    split at h
    · cases h
    next x hx =>
      obtain rfl := makeCred_ok h
      exact .found hnone fh hfh (Bool.not_eq_true _ ▸ hpseudo) x hx
  next hsome =>
    obtain rfl := Except.ok.inj h
    obtain ⟨x, hx⟩ := Option.ne_none_iff_exists'.mp (mt Option.isNone_iff_eq_none.mpr hsome)
    exact .there x hx

theorem checkFh_ok {fh? : Option FileHandleV4} {empty : Status}
    (h : checkFh env fh? empty = .ok fh) : fh? = some fh := by
  cases fh? with
  | none => cases h
  | some fh' =>
    simp only [checkFh] at h
    split at h
    · cases h
    · rw [Except.ok.inj h]

theorem bind_ok {ε α β : Type} {m : Except ε α} {f : α → Except ε β} {b : β}
    (h : m.bind f = .ok b) : ∃ a, m = .ok a ∧ f a = .ok b := by
  cases m with
  | error err => cases h
  | ok a => exact ⟨a, rfl, h⟩

theorem putfh_ok (h : nfs4OpPutfh cfg env object s = .ok t) :
    nfs4IsFhPseudo object = true ∧ t = { s with
        currentFH := some object, currentEntry := none, currentFiletype := .dirBeginning,
        pexport := none } ∨
      nfs4IsFhPseudo object = false ∧ ∃ u e, SetExport cfg { s with currentFH := some object } u ∧
        nfsFhandleToCache cfg env u.pcontext object = some e ∧
        t = { u with currentEntry := some e, currentFiletype := e.type } := by
  rw [nfs4OpPutfh] at h
  split at h
  · cases h
  simp only at h
  split at h
  next hpseudo => exact .inl ⟨hpseudo, (Except.ok.inj h).symm⟩
  rename_i hpseudo
  obtain ⟨u, hu, h⟩ := bind_ok h
  split at h
  · cases h
  next e he =>
    exact .inr ⟨Bool.not_eq_true _ ▸ hpseudo, u, e, setExportIfNull_ok hu, he,
      (Except.ok.inj h).symm⟩

theorem setLooked_ok {fhOf : CacheEntry Handle → FileHandleV4 → FileHandleV4}
    (h : setLooked cfg env fhOf s = .ok t) :
    ∃ e x fh, s.pexport = some x ∧ nfs4FSALToFhandle cfg env e.handle x = some fh ∧
      t = { s with currentFH := some (fhOf e fh), currentEntry := some e,
                   currentFiletype := e.type } := by
  rw [setLooked] at h
  split at h
  · cases h
  rename_i e he
  split at h
  · cases h
  rename_i x hx
  split at h
  · cases h
  next fh hfh => exact ⟨e, x, fh, hx, hfh, (Except.ok.inj h).symm⟩

theorem lookupFsal_ok {objname : Name} (h : nfs4OpLookupFsal cfg env objname s = .ok t) :
    ∃ b, setLooked cfg env (lookedFh b) s = .ok t := by
  rw [nfs4OpLookupFsal] at h
  split at h
  · cases h
  split at h
  · cases h
  · split at h
    · exact ⟨_, h⟩
    · split at h <;> cases h

/-! ### The invariant -/

def Made (s : CompoundData Ctx Handle) : Prop :=
  ∀ x ∈ s.pexport, s.credExport = some x ∧ s.pcontext = x.fsExportContext

/-- What is saved is what was in effect at the last SAVEFH. -/
structure Saved (cfg : Config Ctx Handle) (s : CompoundData Ctx Handle) : Prop where
  fh : s.savedFH = s.atSave.bind (·.fh)
  kept : ∀ w ∈ s.atSave, w.Belongs cfg ∧ w.entry = s.savedEntry ∧ w.filetype = s.savedFiletype

/-- **The invariant.** -/
structure Inv (cfg : Config Ctx Handle) (s : CompoundData Ctx Handle) : Prop where
  belongs : s.inEffect.Belongs cfg
  made : Made s
  saved : Saved cfg s

theorem inv_init (pcontext : Ctx) : Inv cfg (initData pcontext) := by
  refine ⟨?_, ?_, rfl, ?_⟩
  · rintro fh hfh
    cases hfh
  · rintro x hx
    cases hx
  · rintro w hw
    cases hw

variable {w : InEffect Ctx Handle}

theorem belongs_of_pseudo (fh : FileHandleV4) (hfh : w.fh = some fh)
    (hpseudo : nfs4IsFhPseudo fh = true) : w.Belongs cfg := by
  intro fh' hfh' hnot
  obtain rfl : fh = fh' := Option.some.inj (hfh.symm.trans hfh')
  rw [hpseudo] at hnot
  cases hnot

theorem belongs_of_matches (hfh : w.fh = some fh) (hx : w.pexport = some x) (he : w.entry = some e)
    (h : Matches cfg fh x e w.filetype) : w.Belongs cfg := by
  intro fh' hfh' _
  obtain rfl : fh = fh' := Option.some.inj (hfh.symm.trans hfh')
  exact ⟨x, e, hx, he, h⟩

theorem Inv.hasCred (h : Inv cfg s) : s.HasCred := by
  intro fh hfh hpseudo
  obtain ⟨x, -, hx, -⟩ := h.belongs fh hfh hpseudo
  rw [(h.made x hx).1]
  exact hx.symm

theorem made_of_some (hx : s.pexport = some x) (hcred : s.credExport = some x)
    (hcontext : s.pcontext = x.fsExportContext) : Made s := by
  intro x' hx'
  obtain rfl : x = x' := Option.some.inj (hx.symm.trans hx')
  exact ⟨hcred, hcontext⟩

theorem SetExport.made (h : SetExport cfg s t) (hmade : Made s) : Made t := by
  cases h with
  | there x hx => exact hmade
  | pseudo fh hfh hpseudo hx => exact hmade
  | found hnone fh hfh hpseudo x hx => exact made_of_some rfl rfl rfl

theorem SetExport.saved (h : SetExport cfg s t) (hsaved : Saved cfg s) : Saved cfg t := by
  cases h with
  | there x hx => exact hsaved
  | pseudo fh hfh hpseudo hx => exact hsaved
  | found hnone fh hfh hpseudo x hx => exact ⟨hsaved.fh, hsaved.kept⟩

section Steps

variable {objname : Name}

theorem inv_putfh (h : Inv cfg s) (hid : object.exportid.toNat < 2 ^ 16)
    (hkeep : nfs4IsFhPseudo object = false → ∀ x ∈ s.pexport,
      x.id.toNat = object.exportid.toNat)
    (hok : nfs4OpPutfh cfg env object s = .ok t) : Inv cfg t := by
  rcases putfh_ok hok with ⟨hpseudo, rfl⟩ | ⟨hpseudo, u, e, hset, he, rfl⟩
  · refine ⟨belongs_of_pseudo object rfl hpseudo, ?_, h.saved.fh, h.saved.kept⟩
    rintro x hx
    cases hx
  · have hmade : Made u := hset.made h.made
    have hsaved : Saved cfg u := hset.saved ⟨h.saved.fh, h.saved.kept⟩
    have hfound := handle_of_FhandleToCache he
    -- the export is that of the handle
    obtain ⟨x, hx, hxid, hfh⟩ : ∃ x, u.pexport = some x ∧ x.id.toNat = object.exportid.toNat ∧
        u.currentFH = some object := by
      cases hset with
      | there x hx => exact ⟨x, hx, hkeep hpseudo x hx, rfl⟩
      | pseudo fh hfh hpseudo' hx =>
        cases hfh
        rw [hpseudo] at hpseudo'
        cases hpseudo'
      | found hnone fh hfh hpseudo' x hx =>
        cases hfh
        exact ⟨x, rfl, id_of_getExportById hid hx, rfl⟩
    rw [(hmade x hx).2] at hfound
    exact ⟨belongs_of_matches hfh hx rfl ⟨hxid, hfound, rfl⟩, hmade, hsaved.fh, hsaved.kept⟩

theorem inv_putrootfh (h : Inv cfg s) : Inv cfg (nfs4OpPutrootfh cfg s) :=
  ⟨belongs_of_pseudo (nfs4PseudoToFhandle (cfg.reverseTab 0)) rfl rfl, h.made,
    h.saved.fh, h.saved.kept⟩

theorem inv_setLooked (hf : cfg.fsal.DigestUndone) (hmade : Made s) (hsaved : Saved cfg s)
    {fhOf : CacheEntry Handle → FileHandleV4 → FileHandleV4}
    (hfhOf : ∀ e fh x filetype, Matches cfg fh x e filetype →
      Matches cfg (fhOf e fh) x e filetype)
    (hok : setLooked cfg env fhOf s = .ok t) : Inv cfg t := by
  obtain ⟨e, x, fh, hx, hfh, rfl⟩ := setLooked_ok hok
  have hmatches := (matches_of_FSALToFhandle hf hfh).1
  exact ⟨belongs_of_matches rfl hx rfl (hfhOf e fh x e.type hmatches), hmade, hsaved.fh,
    hsaved.kept⟩

theorem inv_lookupPseudo (hf : cfg.fsal.DigestUndone) (h : Inv cfg s)
    (hok : nfs4OpLookupPseudo cfg env fh objname s = .ok t) : Inv cfg t := by
  rw [nfs4OpLookupPseudo] at hok
  split at hok
  · cases hok
  rename_i iter hiter
  split at hok
  · obtain rfl := Except.ok.inj hok
    exact ⟨belongs_of_pseudo (nfs4PseudoToFhandle iter) rfl rfl, h.made, h.saved.fh,
      h.saved.kept⟩
  rename_i x hx
  obtain ⟨u, hu, hok⟩ := bind_ok hok
  obtain rfl := makeCred_ok hu
  split at hok
  · cases hok
  rename_i handle type hroot
  split at hok
  · cases hok
  rename_i fh' hfh'
  obtain rfl := Except.ok.inj hok
  have hmatches := (matches_of_FSALToFhandle (e := ⟨handle, type, false⟩) hf hfh').1
  exact ⟨belongs_of_matches rfl rfl rfl hmatches, made_of_some rfl rfl rfl, h.saved.fh,
    h.saved.kept⟩

theorem inv_lookupXattr (h : Inv cfg s) (hfh : s.currentFH = some fh)
    (hpseudo : nfs4IsFhPseudo fh = false) (hok : nfs4OpLookupXattr env fh s = .ok t) :
    Inv cfg t := by
  obtain ⟨x, e, hx, he, hmatches⟩ := h.belongs fh hfh hpseudo
  rw [nfs4OpLookupXattr] at hok
  split at hok
  · cases hok
  · cases hok
  rename_i xattrId
  obtain rfl := Except.ok.inj hok
  exact ⟨belongs_of_matches rfl hx he ⟨hmatches.exportid, hmatches.handle, hmatches.filetype⟩,
    h.made, h.saved.fh, h.saved.kept⟩

theorem inv_lookup (hf : cfg.fsal.DigestUndone) (h : Inv cfg s)
    (hok : nfs4OpLookup cfg env objname s = .ok t) : Inv cfg t := by
  obtain ⟨fh, hfh, hok⟩ := bind_ok hok
  have hfh := checkFh_ok hfh
  split at hok
  · cases hok
  split at hok
  · cases hok
  split at hok
  · exact inv_lookupPseudo hf h hok
  rename_i hpseudo
  split at hok
  · exact inv_lookupXattr h hfh (Bool.not_eq_true _ ▸ hpseudo) hok
  · obtain ⟨b, hok⟩ := lookupFsal_ok hok
    exact inv_setLooked hf h.made h.saved (fun e _ _ _ hmatches => hmatches.lookedFh b e) hok

theorem inv_lookupp (hf : cfg.fsal.DigestUndone) (h : Inv cfg s)
    (hok : nfs4OpLookupp cfg env s = .ok t) : Inv cfg t := by
  obtain ⟨fh, hfh, hok⟩ := bind_ok hok
  split at hok
  · cases hok
  split at hok
  · rw [nfs4OpLookuppPseudo] at hok
    split at hok
    · cases hok
    · obtain rfl := Except.ok.inj hok
      exact ⟨belongs_of_pseudo _ rfl rfl, h.made, h.saved.fh, h.saved.kept⟩
  · split at hok
    · obtain rfl := Except.ok.inj hok
      exact h
    · obtain ⟨u, hu, hok⟩ := bind_ok hok
      have hset := setExportIfNull_ok hu
      split at hok
      · cases hok
      · exact inv_setLooked hf (hset.made h.made) (hset.saved h.saved)
          (fun _ _ _ _ hmatches => hmatches) hok

theorem inv_savefh (h : Inv cfg s) (hok : nfs4OpSavefh env s = .ok t) : Inv cfg t := by
  rw [nfs4OpSavefh] at hok
  cases hcheck : checkFh env s.currentFH .noFileHandle with
  | error err =>
    rw [hcheck] at hok
    cases hok
  | ok fh =>
    rw [hcheck] at hok
    obtain rfl := Except.ok.inj hok
    refine ⟨h.belongs, h.made, (checkFh_ok hcheck).symm, ?_⟩
    rintro w ⟨⟩
    exact ⟨h.belongs, rfl, rfl⟩

theorem restorefh_ok (h : Inv cfg s) (hok : nfs4OpRestorefh cfg env s = .ok t) :
    ∃ w, s.atSave = some w ∧ t.inEffect = { w with pexport := s.pexport } ∧
      t = { s with currentFH := w.fh, currentEntry := w.entry, currentFiletype := w.filetype } := by
  obtain ⟨fh, hcheck, hbind⟩ := bind_ok hok
  obtain ⟨u, hu, hrest⟩ := bind_ok hbind
  -- the current handle is in the pseudo file system, or there is an export
  have hus : u = s := by
    cases setExportIfNull_ok hu with
    | there x hx => rfl
    | pseudo fh hfh hpseudo hx => rfl
    | found hnone fh hfh hpseudo x hx =>
      obtain ⟨x', -, hx', -⟩ := h.belongs fh hfh hpseudo
      rw [show s.pexport = some x' from hx'] at hnone
      cases hnone
  subst hus
  have hfh := checkFh_ok hcheck
  rw [h.saved.fh] at hfh
  obtain ⟨w, hw, hwfh⟩ := Option.bind_eq_some_iff.mp hfh
  obtain ⟨-, hentry, hfiletype⟩ := h.saved.kept w hw
  split at hrest
  · cases hrest
  obtain rfl := Except.ok.inj hrest
  refine ⟨w, hw, ?_, ?_⟩
  · rw [CompoundData.inEffect, ← hentry, ← hfiletype, ← hwfh]
  · rw [hentry, hfiletype, hwfh]

variable {a : Op × Env Handle}

theorem runOp_of_step (h : step cfg s a = some t) : runOp cfg a.2 s a.1 = .ok t := by
  rw [step] at h
  cases hrun : runOp cfg a.2 s a.1 with
  | error err =>
    rw [hrun] at h
    cases h
  | ok u =>
    rw [hrun] at h
    rw [Option.some.inj h]

theorem givesBack_iff (h : Inv cfg s) (hok : nfs4OpRestorefh cfg env s = .ok t) :
    s.atSave = some t.inEffect ↔ ∀ w ∈ s.atSave, s.pexport = w.pexport := by
  obtain ⟨w, hw, heffect, -⟩ := restorefh_ok h hok
  constructor
  · intro hback w' hw'
    obtain rfl : t.inEffect = w' := Option.some.inj (hback.symm.trans hw')
    rw [heffect]
  · intro hkeep
    rw [hw, heffect, hkeep w hw]

/-- **An operation** keeps the invariant, if it keeps to its export. -/
theorem inv_step (hf : cfg.fsal.DigestUndone) (h : Inv cfg s) (hstep : step cfg s a = some t)
    (hkeep : KeepsExport s a.1) : Inv cfg t := by
  have hok := runOp_of_step hstep
  obtain ⟨op, env⟩ := a
  cases op with
  | putfh object => exact inv_putfh h object.exportid hkeep hok
  | putrootfh =>
    obtain rfl := Except.ok.inj hok
    exact inv_putrootfh h
  | lookup objname => exact inv_lookup hf h hok
  | lookupp => exact inv_lookupp hf h hok
  | savefh => exact inv_savefh h hok
  | restorefh =>
    have hback := (givesBack_iff h hok).mpr hkeep
    obtain ⟨w, hw, -, ht⟩ := restorefh_ok h hok
    obtain ⟨hbelongs, -, -⟩ := h.saved.kept t.inEffect hback
    subst ht
    exact ⟨hbelongs, h.made, h.saved.fh, h.saved.kept⟩

theorem keepsTogether_iff_keepsExport (hf : cfg.fsal.DigestUndone) (h : Inv cfg s)
    (hstep : step cfg s a = some t) : KeepsTogether cfg s a t ↔ KeepsExport s a.1 := by
  have hok := runOp_of_step hstep
  constructor
  · intro htogether
    obtain ⟨op, env⟩ := a
    cases op with
    | putfh object =>
      intro hpseudo x hx
      rcases putfh_ok hok with ⟨hpseudo', -⟩ | ⟨-, u, e, hset, -, rfl⟩
      · rw [hpseudo] at hpseudo'
        cases hpseudo'
      · -- the export stays
        have hu : u.pexport = some x ∧ u.currentFH = some object.fh := by
          cases hset with
          | there x' hx' => exact ⟨hx, rfl⟩
          | pseudo fh hfh hpseudo' hnone =>
            rw [show s.pexport = none from hnone] at hx
            cases hx
          | found hnone fh hfh hpseudo' x' hx' =>
            rw [show s.pexport = none from hnone] at hx
            cases hx
        obtain ⟨x', e', hx', -, hmatches⟩ := htogether.belongs object.fh hu.2 hpseudo
        obtain rfl : x = x' := Option.some.inj (hu.1.symm.trans hx')
        exact hmatches.exportid
    | restorefh => exact (givesBack_iff h hok).mp (htogether.givesBack rfl)
    | putrootfh | lookup | lookupp | savefh => trivial
  · intro hkeep
    have hinv := inv_step hf h hstep hkeep
    refine ⟨hinv.belongs, hinv.hasCred, fun hop => ?_⟩
    obtain ⟨op, env⟩ := a
    subst hop
    exact (givesBack_iff h hok).mpr hkeep

end Steps

/-! ### Runs -/

/-- **What is in effect belongs together** after every operation of a COMPOUND, and RESTOREFH gives
back what was in effect at the last SAVEFH, exactly if no PUTFH and no RESTOREFH finds the export
of another handle. -/
theorem keepsTogether_iff (hf : cfg.fsal.DigestUndone) (pcontext : Ctx)
    (as : List (Op × Env Handle)) :
    AllSteps (step cfg) (KeepsTogether cfg) (initData pcontext) as ↔
      AllSteps (step cfg) (fun s a _ => KeepsExport s a.1) (initData pcontext) as :=
  allSteps_iff_of_invariant (inv_init pcontext) (fun _ _ _ h => inv_step hf h)
    fun _ _ _ h => keepsTogether_iff_keepsExport hf h

/-- Two exports, each a junction below the root of the pseudo file system. -/
def twoExports : Config Unit UInt64 where
  fsal := FileHandle.inodeFsal
  pfullexportlist := [⟨1, ()⟩, ⟨2, ()⟩]
  reverseTab
    | 0 => ⟨[], 0, none, [1, 2], 0⟩
    | 1 => ⟨[97], 1, some ⟨1, ()⟩, [], 0⟩
    | _ => ⟨[98], 2, some ⟨2, ()⟩, [], 0⟩
  nfsv4Param := ⟨false, false⟩
  serverBootTime := 7
  fsalMaxNameLen := 255

def inodeFh (exportid : UInt32) : FileHandleV4 :=
  ⟨0, 0, 0, exportid, 0, 0, 0, (FileHandle.inodeFsal.digestHandle .nfsv4 () 5).getD [], 0, 0⟩

/-- Everything succeeds: entries are directories, and lookups find the inode 6. -/
def findsAll : Env UInt64 :=
  ⟨false, true, some .dirBeginning, some ⟨6, .dirBeginning, false⟩, some (5, .dirBeginning),
    some 3, inodeFh 0⟩

/-- From the root through the junction of the first export, and through that of the second one, in
which a handle is saved and restored. -/
theorem keepsTogether_twoExports : AllSteps (step twoExports) (KeepsTogether twoExports)
    (initData ()) [(.putrootfh, findsAll), (.lookup [97], findsAll), (.lookup [120], findsAll),
      (.putrootfh, findsAll), (.lookup [98], findsAll), (.savefh, findsAll),
      (.lookup [120], findsAll), (.lookupp, findsAll), (.restorefh, findsAll)] :=
  (keepsTogether_iff FileHandle.inodeFsal_digestUndone () _).mpr (by decide +kernel)

/-- PUTFH of a handle of the second export, after one of the first, keeps the first export. -/
theorem not_keepsTogether : ¬ ∀ (Ctx Handle : Type) (cfg : Config Ctx Handle),
    cfg.fsal.DigestUndone → ∀ (pcontext : Ctx) (as : List (Op × Env Handle)),
      AllSteps (step cfg) (KeepsTogether cfg) (initData pcontext) as := by
  intro h
  have hall := h Unit UInt64 twoExports FileHandle.inodeFsal_digestUndone ()
    ([(.putfh ⟨inodeFh 1, by decide⟩, findsAll)] ++ [(.putfh ⟨inodeFh 2, by decide⟩, findsAll)])
  have hrun : ((exec (step twoExports) (initData ())
      [(.putfh ⟨inodeFh 1, by decide⟩, findsAll)]).bind fun s =>
        (step twoExports s (.putfh ⟨inodeFh 2, by decide⟩, findsAll)).map fun t =>
          (t.currentFH, t.pexport)) = some (some (inodeFh 2), some ⟨1, ()⟩) := by
    decide +kernel
  obtain ⟨s, hs, hrun⟩ := Option.bind_eq_some_iff.mp hrun
  obtain ⟨t, ht, heq⟩ := Option.map_eq_some_iff.mp hrun
  obtain ⟨hfh, hx⟩ := Prod.mk.inj heq
  obtain ⟨x, e, hx', -, hmatches⟩ := (hall.last hs ht).belongs (inodeFh 2) hfh rfl
  cases hx.symm.trans hx'
  exact absurd hmatches.exportid (by decide)

end CloudNfs.Compound
