import CloudNfs.InodeCache

/-!
# Writing the entries of the inode cache

What the small writes of the cache do to the entries, to the chains of the directories and
to the hash table. The results about whole calls rest on these.

* An entry is written in place, made, or put back to the pool.
* `HashOk` says that the hash table has exactly the entries of the cache, under their
  handles. Every write keeps it, so that two entries never have one handle.
-/

namespace CloudNfs

namespace InodeCache

open DirChain

variable {c c' : Cache} {a d : ℕ} {e : Entry} {dir dir' : Dir} {f : Entry → Entry}

namespace Cache

/-! ### Entries and directories -/

theorem entry_of_dir? (h : c.dir? d = some dir) :
    ∃ e, c.entry d = some e ∧ e.object = .dirBeginning dir := by
  obtain ⟨e, he, hdir⟩ := Option.bind_eq_some_iff.mp h
  refine ⟨e, he, ?_⟩
  cases hobj : e.object <;> rw [hobj] at hdir <;> cases hdir
  rfl

theorem dir?_of_entry (he : c.entry d = some e) (hobj : e.object = .dirBeginning dir) :
    c.dir? d = some dir := by
  simp [dir?, he, hobj, Object.dir?]

/-! ### Writing an entry -/

@[simp] theorem modify_hash : (c.modify a f).hash = c.hash := rfl

theorem modify_entry (x : ℕ) :
    (c.modify a f).entry x = if x = a then (c.entry a).map f else c.entry x := by
  simp [modify, Function.update_apply]

theorem modify_dir? (hf : ∀ e, (f e).object = e.object) (x : ℕ) :
    (c.modify a f).dir? x = c.dir? x := by
  by_cases hx : x = a
  · subst hx
    cases he : c.entry x <;> simp [dir?, modify_entry, he, hf]
  · simp [dir?, modify_entry, hx]

theorem modify_live (b : ℕ) (f : Entry → Entry) (x : ℕ) :
    ((c.modify b f).entry x).isSome = (c.entry x).isSome := by
  by_cases hx : x = b
  · subst hx
    simp [modify_entry]
  · simp [modify_entry, hx]

theorem modify_isValid (hf : ∀ e, (f e).valid = e.valid) : (c.modify a f).isValid = c.isValid := by
  funext x
  by_cases hx : x = a
  · subst hx
    cases he : c.entry x <;> simp [isValid, modify_entry, he, hf]
  · simp [isValid, modify_entry, hx]

theorem mapParents_dir? (g : List Link → List Link) (x : ℕ) :
    (c.mapParents a g).dir? x = c.dir? x :=
  modify_dir? (f := fun e => { e with parents := g e.parents }) (fun _ => rfl) x

theorem setDir_dir? (hdir : c.dir? d = some dir) (x : ℕ) :
    (c.setDir d dir').dir? x = if x = d then some dir' else c.dir? x := by
  obtain ⟨e, he, -⟩ := entry_of_dir? hdir
  by_cases hx : x = d
  · subst hx
    simp [dir?, setDir, modify_entry, he, Object.dir?]
  · simp [dir?, setDir, modify_entry, hx]

theorem setDir_forall_dir? {S : Dir → Prop} (h : ∀ x dx, c.dir? x = some dx → S dx)
    (hdir : c.dir? d = some dir) (hs : S dir') (x : ℕ) (dx : Dir)
    (hx : (c.setDir d dir').dir? x = some dx) : S dx := by
  rw [setDir_dir? hdir] at hx
  split at hx
  · cases hx
    exact hs
  · exact h x dx hx

/-! ### Entries of directories -/

section

variable {start : ℕ} {name : String} {m : Memory} {r : Option ℕ}

theorem addDirent_cases (hdir : c.dir? d = some dir)
    (hr : c.addDirent d start name a m = some (c', r)) :
    ∃ dir' q g, addCachedDirent dir start (some name) a m.chunk m.parent = some (dir', q) ∧
      r = q.map Prod.fst ∧ c' = (c.setDir d dir').mapParents a g := by
  unfold addDirent at hr
  simp only [hdir] at hr
  split at hr
  · cases hr
  · next dir' hadd =>
    cases hr
    refine ⟨dir', none, id, hadd, rfl, ?_⟩
    -- writing back what was read
    simp [mapParents, modify]
  · next dir' i j hadd =>
    split at hr
    · cases hr
    obtain ⟨hc', rfl⟩ := Prod.mk.inj (Option.some.inj hr)
    exact ⟨dir', some (i, j), _, hadd, rfl, hc'.symm⟩

theorem addDirent_none (hdir : c.dir? d = none) (hr : c.addDirent d start name a m = some (c', r)) :
    c' = c ∧ r = none := by
  unfold addDirent at hr
  simp only [hdir] at hr
  cases hr
  exact ⟨rfl, rfl⟩

end

/-! ### Making and dropping an entry -/

variable {x : Found} {fresh : Option ℕ}

theorem newEntry_cases (hr : c.newEntry x fresh = some (c', a)) :
    (c' = c ∧ c.hash x.handle = some a) ∨
      (c.hash x.handle = none ∧ c.entry a = none ∧
        c' = ⟨Function.update c.entry a (some ⟨x.handle, x.kind.object a, true, x.numlinks, []⟩),
          Function.update c.hash x.handle (some a)⟩) := by
  unfold newEntry at hr
  split at hr
  · next b hb =>
    cases hr
    exact .inl ⟨rfl, hb⟩
  rename_i hnone
  split at hr
  · cases hr
  rename_i b
  split at hr
  · cases hr
  rename_i hfree
  simp only [Option.some.injEq, Prod.mk.injEq] at hr
  obtain ⟨rfl, rfl⟩ := hr
  exact .inr ⟨hnone, by simpa using hfree, rfl⟩

theorem newEntry_entry (hr : c.newEntry x fresh = some (c', a)) {b : ℕ} (hb : c.entry b = some e) :
    c'.entry b = some e := by
  obtain ⟨rfl, -⟩ | ⟨-, hfree, rfl⟩ := newEntry_cases hr
  · exact hb
  · have hne : b ≠ a := by
      rintro rfl
      rw [hfree] at hb
      cases hb
    simpa [hne] using hb

theorem newEntry_live (hr : c.newEntry x fresh = some (c', a)) {b : ℕ}
    (hb : (c.entry b).isSome = true) : (c'.entry b).isSome = true := by
  obtain ⟨e, he⟩ := Option.isSome_iff_exists.mp hb
  rw [newEntry_entry hr he]
  rfl

theorem newEntry_dir? (hr : c.newEntry x fresh = some (c', a)) (hdir : c.dir? d = some dir) :
    c'.dir? d = some dir := by
  obtain ⟨e, he, hobj⟩ := entry_of_dir? hdir
  exact dir?_of_entry (newEntry_entry hr he) hobj

theorem clean_eq (he : c.entry a = some e) :
    c.clean a = ⟨Function.update c.entry a none, Function.update c.hash e.handle none⟩ := by
  simp [clean, he]

theorem clean_entry (x : ℕ) : (c.clean a).entry x = if x = a then none else c.entry x := by
  unfold clean
  split
  · next hnone =>
    split
    · next hx => rw [hx, hnone]
    · rfl
  · simp [Function.update_apply]

theorem clean_dir? (x : ℕ) : (c.clean a).dir? x = if x = a then none else c.dir? x := by
  simp only [dir?, clean_entry]
  split <;> rfl

end Cache

theorem object_dir? {k : Kind} {b : ℕ} (h : (k.object b).dir? = some dir) :
    Sound dir ∧ dir.NoEntries ∧ dir.hasBeenReaddir = false := by
  cases k <;> cases h
  exact ⟨newDir_sound b, noEntries_of_inactive fun c hc s hs => by
    obtain rfl : c = ⟨b, emptySlots, 0, true, 0, 0, 0⟩ := by simpa [newDir] using hc
    exact emptySlots_inactive s hs, rfl⟩

/-- An addition to the directory `d` may start from its chunk of index `k`. -/
def StartsIn (c : Cache) (d k : ℕ) : Prop := ∃ dir, c.dir? d = some dir ∧ StartsAt dir k

theorem step_eq_some {call : Call} (hs : step c call = some c') :
    Given c call ∧ perform c call = some c' := by
  unfold step at hs
  split at hs
  · next hgiven => exact ⟨hgiven, hs⟩
  · cases hs

/-! ### The hash table -/

/-- **The hash table has the entries.** -/
def HashOk (c : Cache) : Prop :=
  ∀ h a, c.hash h = some a ↔ ∃ e, c.entry a = some e ∧ e.handle = h

theorem HashOk.eq_of_handle (h : HashOk c) {b : ℕ} {e' : Entry} (he : c.entry a = some e)
    (he' : c.entry b = some e') (hhandle : e.handle = e'.handle) : a = b := by
  have ha := (h e.handle a).mpr ⟨e, he, rfl⟩
  rw [(h e.handle b).mpr ⟨e', he', hhandle.symm⟩] at ha
  exact (Option.some.inj ha).symm

theorem HashOk.modify (h : HashOk c) (hhandle : ∀ e, (f e).handle = e.handle) :
    HashOk (c.modify a f) := by
  intro x b
  rw [Cache.modify_hash, h x b]
  by_cases hb : b = a
  · subst hb
    cases he : c.entry b <;> simp [Cache.modify_entry, he, hhandle]
  · simp [Cache.modify_entry, hb]

theorem HashOk.newEntry (h : HashOk c) {x : Found} {fresh : Option ℕ}
    (hr : c.newEntry x fresh = some (c', a)) : HashOk c' := by
  obtain ⟨rfl, -⟩ | ⟨hnone, hfree, rfl⟩ := Cache.newEntry_cases hr
  · exact h
  · intro y z
    by_cases hz : z = a
    · subst hz
      have hno : ¬ c.hash y = some z := by
        rw [h y z, hfree]
        simp
      by_cases hy : y = x.handle
      · simp [hy]
      · simp [hy, hno, Ne.symm hy]
    · by_cases hy : y = x.handle
      · subst hy
        have hno : ¬ ∃ e, c.entry z = some e ∧ e.handle = x.handle := by
          rw [← h x.handle z, hnone]
          simp
        simpa [hz, Ne.symm hz] using hno
      · simpa [hz, hy] using h y z

theorem HashOk.clean (h : HashOk c) (a : ℕ) : HashOk (c.clean a) := by
  cases he : c.entry a with
  | none =>
    have hkeep : c.clean a = c := by simp [Cache.clean, he]
    rwa [hkeep]
  | some e =>
    rw [Cache.clean_eq he]
    intro x b
    by_cases hb : b = a
    · subst hb
      have hno : ∀ y, y ≠ e.handle → ¬ c.hash y = some b := fun y hy hhash => by
        obtain ⟨e', he', hhandle⟩ := (h y b).mp hhash
        obtain rfl : e = e' := Option.some.inj (he.symm.trans he')
        exact hy hhandle.symm
      by_cases hx : x = e.handle
      · simp [hx]
      · simpa [hx] using hno x hx
    · by_cases hx : x = e.handle
      · subst hx
        have hno : ¬ ∃ e', c.entry b = some e' ∧ e'.handle = e.handle := by
          rw [← h e.handle b, (h e.handle a).mpr ⟨e, he, rfl⟩]
          simpa using Ne.symm hb
        simpa [hb] using hno
      · simpa [hb, hx] using h x b

end InodeCache

end CloudNfs
