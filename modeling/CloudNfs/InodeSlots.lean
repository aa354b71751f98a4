import CloudNfs.DirNames
import CloudNfs.InodeEntries
import CloudNfs.Run

/-!
# Sound slots in the inode cache

`SlotsSound` is the part of the chains that no call breaks, whatever the counters of the
chunks say: sixteen slots in every chunk, an entry in every active slot, and nothing active
behind the end of a directory.

* Every write of a cache keeps it, every operation does, and with that every call.
* So it holds in every state that a run from the empty cache reaches.
-/

namespace CloudNfs

namespace InodeCache

open DirChain

def SlotsSound (c : Cache) : Prop := ∀ d dir, c.dir? d = some dir → Shape SlotsOk dir

namespace SlotsSound

variable {c c' : Cache} {a d : ℕ} {e : Entry} {dir dir' : Dir} {name : String}

/-! ### Writes -/

theorem empty : SlotsSound Cache.empty := fun d dir h => by simp [Cache.empty, Cache.dir?] at h

theorem setDir (h : SlotsSound c) (hdir : c.dir? d = some dir) (hshape : Shape SlotsOk dir') :
    SlotsSound (c.setDir d dir') :=
  Cache.setDir_forall_dir? h hdir hshape

theorem modify (h : SlotsSound c) {g : Entry → Entry} (hg : ∀ e, (g e).object = e.object) :
    SlotsSound (c.modify a g) := fun x dx hx => h x dx (Cache.modify_dir? hg x ▸ hx)

theorem clean (h : SlotsSound c) (a : ℕ) : SlotsSound (c.clean a) := by
  intro x dx hx
  rw [Cache.clean_dir?] at hx
  split at hx
  · cases hx
  · exact h x dx hx

variable {x : Found} {fresh parent next : Option ℕ} {m' : Memory} {added : Bool}

theorem newEntry (h : SlotsSound c) (hr : c.newEntry x fresh = some (c', a)) : SlotsSound c' := by
  obtain ⟨rfl, -⟩ | ⟨-, -, rfl⟩ := Cache.newEntry_cases hr
  · exact h
  · intro y dy hy
    by_cases hya : y = a
    · subst hya
      have hnew : (x.kind.object y).dir? = some dy := by simpa [Cache.dir?] using hy
      have hsound := (object_dir? hnew).1
      exact ⟨fun b hb => (hsound.chunk b hb).slotsOk, hsound.nothingBehind⟩
    · exact h y dy (by simpa [Cache.dir?, hya] using hy)

/-! ### Entries of directories -/

variable {start : ℕ} {m : Memory} {r : Option ℕ} {found : Option Found}

theorem addDirent_added (h : SlotsSound c) (hdir : c.dir? d = some dir)
    (hstart : OpenUpTo dir start) (hr : c.addDirent d start name a m = some (c', r)) :
    ∃ dir' q, r = q.map Prod.fst ∧ Added SlotsOk dir dir' name a q ∧
      ∀ x, c'.dir? x = if x = d then some dir' else c.dir? x := by
  obtain ⟨dir', q, g, hadd, rfl, rfl⟩ := Cache.addDirent_cases hdir hr
  refine ⟨dir', q, rfl, (h d dir hdir).added slotsOk_keeping hstart hadd, fun x => ?_⟩
  rw [Cache.mapParents_dir?, Cache.setDir_dir? hdir]

theorem addDirent (h : SlotsSound c) (hstart : ∀ dir, c.dir? d = some dir → OpenUpTo dir start)
    (hr : c.addDirent d start name a m = some (c', r)) : SlotsSound c' := by
  cases hdir : c.dir? d with
  | none =>
    rw [(Cache.addDirent_none hdir hr).1]
    exact h
  | some dir =>
    obtain ⟨dir', q, -, hadded, hdirs⟩ := h.addDirent_added hdir (hstart dir hdir) hr
    intro x dx hx
    rw [hdirs] at hx
    split at hx
    · cases hx
      exact hadded.shape
    · exact h x dx hx

theorem addDirent_zero (h : SlotsSound c) (hr : c.addDirent d 0 name a m = some (c', r)) :
    SlotsSound c' :=
  h.addDirent (fun dir _ => openUpTo_zero dir) hr

theorem removeDirent_dropped (h : SlotsSound c) (hdir : c.dir? d = some dir)
    (hr : c.removeDirent d start name = some c') :
    c' = c ∨ ∃ dir' i j s, dir.entryAt i j = some s ∧ s.name = name ∧ Shape SlotsOk dir' ∧
      (∀ x, c'.dir? x = if x = d then some dir' else c.dir? x) ∧
      ∀ i' j', dir'.entryAt i' j' = if i' = i ∧ j' = j then none else dir.entryAt i' j' := by
  unfold Cache.removeDirent at hr
  simp only [hdir] at hr
  split at hr
  · cases hr
  · exact .inl (Option.some.inj hr).symm
  rename_i i j hsearch
  split at hr
  · cases hr
  cases hr
  obtain ⟨s, hs, hname⟩ := searchName_entryAt hsearch
  obtain ⟨hshape, hat⟩ :
      Shape SlotsOk { dir with chunks := dir.chunks.modify i fun b => b.drop j } ∧ _ :=
    (h d dir hdir).dropped slotsOk_keeping rfl hs
  refine .inr ⟨_, i, j, s, hs, hname, hshape, fun x => ?_, hat⟩
  rw [Cache.mapParents_dir?, Cache.setDir_dir? hdir]

theorem removeDirent (h : SlotsSound c) (hr : c.removeDirent d start name = some c') :
    SlotsSound c' := by
  cases hdir : c.dir? d with
  | none =>
    simp only [Cache.removeDirent, hdir, Option.some.injEq] at hr
    subst hr
    exact h
  | some dir =>
    obtain rfl | ⟨dir', -, -, -, -, -, hshape, hdirs, -⟩ := h.removeDirent_dropped hdir hr
    · exact h
    · intro x dx hx
      rw [hdirs] at hx
      split at hx
      · cases hx
        exact hshape
      · exact h x dx hx

theorem renameDirent (h : SlotsSound c) {newname : String}
    (hr : c.renameDirent d start name newname = some c') : SlotsSound c' := by
  unfold Cache.renameDirent at hr
  split at hr
  · cases hr
    exact h
  rename_i dir hdir
  split at hr
  · cases hr
  · cases hr
    exact h
  rename_i i j hsearch
  cases hr
  obtain ⟨s, hs, -⟩ := searchName_entryAt hsearch
  exact h.setDir hdir ((h d dir hdir).renamed slotsOk_keeping newname rfl hs).1

/-! ### Looking up and creating -/

theorem lookupp (h : SlotsSound c) (hr : c.lookupp d found m = some (c', r)) : SlotsSound c' := by
  unfold Cache.lookupp at hr
  split at hr
  · cases hr
  split at hr
  · obtain ⟨b, hb, hres⟩ := Option.map_eq_some_iff.mp hr
    cases hres
    exact h
  split at hr
  · cases hr
    exact h
  rename_i x
  have hres := Option.some.inj hr
  cases hnew : c.newEntry x m.entry with
  | none =>
    simp only [hnew, Option.map_none, Option.getD_none, Prod.mk.injEq] at hres
    obtain ⟨rfl, -⟩ := hres
    exact h
  | some q =>
    simp only [hnew, Option.map_some, Option.getD_some, Prod.mk.injEq] at hres
    obtain ⟨rfl, -⟩ := hres
    exact h.newEntry (a := q.2) hnew

theorem lookup (h : SlotsSound c) (hr : c.lookup d name found m = some (c', r)) :
    SlotsSound c' := by
  unfold Cache.lookup at hr
  split at hr
  · cases hr
    exact h
  split at hr
  · cases hr
    exact h
  split at hr
  · exact h.lookupp hr
  split at hr
  · cases hr
  · cases hr
    exact h
  split at hr
  · cases hr
    exact h
  split at hr
  · cases hr
    exact h
  rename_i c1 b hnew
  obtain ⟨q, hq, hres⟩ := Option.map_eq_some_iff.mp hr
  cases hres
  exact (h.newEntry hnew).addDirent_zero (r := q.2) hq

theorem create (h : SlotsSound c) {created : Option Found}
    (hr : c.create d name found m created m' = some c') : SlotsSound c' := by
  unfold Cache.create at hr
  split at hr
  · cases hr
  · next hlookup =>
    cases hr
    exact h.lookup hlookup
  rename_i c1 hlookup
  have h1 := h.lookup hlookup
  split at hr
  · cases hr
    exact h1
  split at hr
  · cases hr
    exact h1
  · next c2 b hnew =>
    obtain ⟨q, hq, rfl⟩ := Option.map_eq_some_iff.mp hr
    exact (h1.newEntry hnew).addDirent_zero (r := q.2) hq

theorem link (h : SlotsSound c) {src : ℕ} {linked : Option ℕ}
    (hr : c.link src d name found m linked m' = some c') : SlotsSound c' := by
  unfold Cache.link at hr
  split at hr
  · cases hr
    exact h
  split at hr
  · cases hr
  · next hlookup =>
    cases hr
    exact h.lookup hlookup
  rename_i c1 hlookup
  have h1 := h.lookup hlookup
  split at hr
  · cases hr
  split at hr
  · cases hr
    exact h1
  split at hr
  · cases hr
    exact h1
  rename_i n
  obtain ⟨q, hq, rfl⟩ := Option.map_eq_some_iff.mp hr
  have h2 : SlotsSound (c1.setNumlinks src n) := h1.modify fun _ => rfl
  exact h2.addDirent_zero (r := q.2) hq

/-! ### Removing and renaming -/

theorem dropLink (h : SlotsSound c) (a : ℕ) (e : Entry) : SlotsSound (c.dropLink a e) := by
  unfold Cache.dropLink
  split
  · exact h.modify fun _ => rfl
  · exact h.clean a

theorem remove (h : SlotsSound c) {unlinked : Bool} {ok : Option Bool}
    (hr : c.remove d name found m unlinked = some (c', ok)) : SlotsSound c' := by
  unfold Cache.remove at hr
  split at hr
  · cases hr
  · next hlookup =>
    cases hr
    exact h.lookup hlookup
  rename_i c1 b hlookup
  split at hr
  · cases hr
    exact h.lookup hlookup
  split at hr
  · cases hr
  rename_i e he
  split at hr
  · cases hr
    exact h.lookup hlookup
  · obtain ⟨c2, hdrop, hres⟩ := Option.map_eq_some_iff.mp hr
    cases hres
    exact ((h.lookup hlookup).removeDirent hdrop).dropLink b e

theorem replace (h : SlotsSound c) {r : RenameCall} {b : ℕ} {ok : Option Bool}
    (hr : c.replace r a b = some (c', ok)) : SlotsSound c' := by
  unfold Cache.replace at hr
  split at hr
  · cases hr
    exact h
  · cases hr
    exact h
  split at hr
  · cases hr
    exact h
  split at hr
  · cases hr
    exact h
  · exact h.remove hr

theorem move (h : SlotsSound c) {r : RenameCall} (hr : c.move r a = some c') : SlotsSound c' := by
  unfold Cache.move at hr
  split at hr
  · exact h.renameDirent hr
  split at hr
  · cases hr
  · next hadd =>
    cases hr
    exact h.addDirent_zero hadd
  · next hadd => exact (h.addDirent_zero hadd).removeDirent hr

theorem rename (h : SlotsSound c) {r : RenameCall} (hr : c.rename r = some c') : SlotsSound c' := by
  unfold Cache.rename at hr
  split at hr
  · cases hr
    exact h
  split at hr
  · cases hr
  · next hsrc =>
    cases hr
    exact h.lookup hsrc
  rename_i c1 a hsrc
  have h1 := h.lookup hsrc
  split at hr
  · cases hr
  · next c2 hdest =>
    split at hr
    · exact (h1.lookup hdest).move hr
    · cases hr
      exact h1.lookup hdest
  · next c2 b hdest =>
    split at hr
    · cases hr
    rename_i c3 goesOn hreplace
    have h3 := (h1.lookup hdest).replace hreplace
    split at hr
    · exact h3.move hr
    · cases hr
      exact h3

/-! ### Reading a directory -/

theorem addOne (h : SlotsSound c) {c1 c2 : Cache} (hstart : StartsIn c d start)
    (hnew : c.newEntry x fresh = some (c1, a)) (hadd : c1.addDirent d start name a m = some (c2, r))
    :
    SlotsSound c2 ∧ (∀ j, StartsIn c d j → StartsIn c2 d j) ∧
      ∀ i, r = some i → StartsIn c2 d i := by
  obtain ⟨dir, hdir, hopen⟩ := hstart
  have hdir1 := Cache.newEntry_dir? hnew hdir
  have h1 := h.newEntry hnew
  obtain ⟨dir', q, hq, hadded, hdirs⟩ := h1.addDirent_added hdir1 hopen.2 hadd
  have hdir' : c2.dir? d = some dir' := by rw [hdirs, if_pos rfl]
  refine ⟨h1.addDirent (fun dir0 hdir0 => ?_) hadd, fun j hj => ?_, fun i hi => ?_⟩
  · cases hdir1.symm.trans hdir0
    exact hopen.2
  · obtain ⟨dir0, hdir0, hat⟩ := hj
    cases hdir.symm.trans hdir0
    exact ⟨dir', hdir', hadded.startsAt j hat⟩
  · obtain ⟨p, rfl, rfl⟩ := Option.map_eq_some_iff.mp (hq.symm.trans hi)
    exact ⟨dir', hdir', (hadded.placed p.1 p.2 rfl).2.1⟩

theorem populateBatch {xs : List Dirent} {next' : Option ℕ} (h : SlotsSound c)
    (hp : ∀ j, parent = some j → StartsIn c d j) (hn : ∀ j, next = some j → StartsIn c d j)
    (hr : Cache.populateBatch c d parent next xs = some (c', next', added)) :
    SlotsSound c' ∧ ∀ j, next' = some j → StartsIn c' d j := by
  induction xs generalizing c next with
  | nil =>
    obtain ⟨rfl, rfl, -⟩ : c = c' ∧ next = next' ∧ true = added := by
      simpa [Cache.populateBatch] using hr
    exact ⟨h, hn⟩
  | cons x xs ih =>
    simp only [Cache.populateBatch] at hr
    split at hr
    · exact ih h hp hn hr
    split at hr
    · cases hr
      exact ⟨h, hn⟩
    split at hr
    · cases hr
      exact ⟨h, hn⟩
    rename_i c1 a hnew
    split at hr
    · cases hr
    rename_i start
    split at hr
    · cases hr
    · next c2 hadd =>
      cases hr
      obtain ⟨h2, hkeep, -⟩ := h.addOne (hp start rfl) hnew hadd
      exact ⟨h2, fun j hj => hkeep j (hn j hj)⟩
    · next c2 i hadd =>
      obtain ⟨h2, hkeep, hplaced⟩ := h.addOne (hp start rfl) hnew hadd
      exact ih h2 (fun j hj => hkeep j (hp j hj)) hplaced hr

theorem populateBatches {bs : List (List Dirent)} (h : SlotsSound c)
    (hp : ∀ j, parent = some j → StartsIn c d j) (hn : ∀ j, next = some j → StartsIn c d j)
    (hr : Cache.populateBatches c d parent next bs = some (c', added)) : SlotsSound c' := by
  induction bs generalizing c parent next with
  | nil =>
    obtain ⟨rfl, -⟩ : c = c' ∧ true = added := by simpa [Cache.populateBatches] using hr
    exact h
  | cons xs bs ih =>
    simp only [Cache.populateBatches] at hr
    split at hr
    · cases hr
    · next c1 next1 hb =>
      cases hr
      exact (h.populateBatch hp hn hb).1
    · next c1 next1 hb =>
      obtain ⟨h1, hstart⟩ := h.populateBatch hp hn hb
      exact ih h1 hstart hstart hr

theorem setHasBeenReaddir (h : SlotsSound c) (d : ℕ) (b : Bool) :
    SlotsSound (c.setHasBeenReaddir d b) := by
  unfold Cache.setHasBeenReaddir
  split
  · exact h
  · next dir hdir =>
    have hshape := h d dir hdir
    exact h.setDir hdir ⟨hshape.chunk, hshape.nothingBehind⟩

theorem populate (h : SlotsSound c) {r : PopulateRun} (hr : c.populate d r = some c') :
    SlotsSound c' := by
  unfold Cache.populate at hr
  split at hr
  · cases hr
    exact h
  rename_i dir hdir
  split at hr
  · cases hr
    exact h
  have h0 := h.setDir hdir ((h d dir hdir).invalidated slotsOk_keeping).1
  split at hr
  · cases hr
    exact h0
  obtain ⟨q, hq, rfl⟩ := Option.map_eq_some_iff.mp hr
  have hdir0 : (c.setDir d (invalidateAllCachedDirent dir)).dir? d =
      some (invalidateAllCachedDirent dir) := by
    rw [Cache.setDir_dir? hdir, if_pos rfl]
  have hloop : Cache.populateBatches (c.setDir d (invalidateAllCachedDirent dir)) d (some 0)
      none r.batches = some (q.1, q.2) := hq
  have hq1 : SlotsSound q.1 := by
    refine h0.populateBatches (fun j hj => ?_) (fun j hj => by cases hj) hloop
    cases hj
    exact ⟨_, hdir0, Nat.zero_le _, openUpTo_zero _⟩
  split
  · exact hq1.setHasBeenReaddir d true
  · exact hq1

theorem readdir (h : SlotsSound c) {renewed : Bool} {r : PopulateRun}
    (hr : c.readdir d renewed r = some c') : SlotsSound c' := by
  unfold Cache.readdir at hr
  refine populate ?_ hr
  split
  · exact h.setHasBeenReaddir d false
  · exact h

/-! ### Dropping entries -/

theorem invalidateRelated (h : SlotsSound c) {ls : List Link} {ok : Bool}
    (hr : Cache.invalidateRelated c ls = some (c', ok)) : SlotsSound c' := by
  induction ls generalizing c with
  | nil =>
    obtain ⟨rfl, -⟩ : c = c' ∧ true = ok := by simpa [Cache.invalidateRelated] using hr
    exact h
  | cons l ls ih =>
    simp only [Cache.invalidateRelated] at hr
    split at hr
    · cases hr
    rename_i e he
    split at hr
    · cases hr
      exact h
    rename_i dir hobj
    have hdir : c.dir? l.dir = some dir := by simp [Cache.dir?, he, hobj]
    split at hr
    · cases hr
    split at hr
    · cases hr
      exact h
    · exact ih (h.setDir hdir ((h l.dir dir hdir).dropSlot _ _)) hr

theorem release (h : SlotsSound c) (a : ℕ) (e : Entry) : SlotsSound (c.release a e) := by
  unfold Cache.release
  split
  · exact h
  · exact h.clean a

theorem gcSuppress (h : SlotsSound c) (hr : c.gcSuppress a = some c') : SlotsSound c' := by
  have hinvalid : SlotsSound (c.setInvalid a) := h.modify fun _ => rfl
  unfold Cache.gcSuppress at hr
  split at hr
  · cases hr
  rename_i e he
  have hdrop : ((c.setInvalid a).invalidateRelated e.parents).map
      (fun q => if q.2 then q.1.release a e else q.1) = some c' → SlotsSound c' := by
    intro hr
    obtain ⟨q, hq, rfl⟩ := Option.map_eq_some_iff.mp hr
    have hloop : (c.setInvalid a).invalidateRelated e.parents = some (q.1, q.2) := hq
    have hq1 : SlotsSound q.1 := hinvalid.invalidateRelated hloop
    split
    · exact hq1.release a e
    · exact hq1
  split at hr
  · cases hr
    exact h
  · split at hr
    · exact hdrop hr
    · cases hr
      exact hinvalid
  · exact hdrop hr

theorem putBack (h : SlotsSound c) (a : ℕ) : SlotsSound (c.putBack a) := by
  intro x dx hx
  by_cases hxa : x = a
  · simp [Cache.dir?, Cache.putBack, hxa] at hx
  · exact h x dx (by simpa [Cache.dir?, Cache.putBack, hxa] using hx)

theorem validate (h : SlotsSound c) (a : ℕ) (lruEntry : Bool) :
    SlotsSound (c.validate a lruEntry) := by
  unfold Cache.validate
  split
  · exact h.modify fun _ => rfl
  · exact h.putBack a

theorem kill (h : SlotsSound c) (hr : c.kill a = some c') : SlotsSound c' := by
  unfold Cache.kill at hr
  split at hr
  · cases hr
  rename_i e he
  obtain ⟨q, hq, rfl⟩ := Option.map_eq_some_iff.mp hr
  have hloop : c.invalidateRelated e.parents = some (q.1, q.2) := hq
  have hq1 : SlotsSound q.1 := h.invalidateRelated hloop
  exact hq1.release a e

/-! ### Runs -/

/-- **Every call** keeps the slots sound. -/
theorem step (h : SlotsSound c) {call : Call} (hs : InodeCache.step c call = some c') :
    SlotsSound c' := by
  replace hs := (step_eq_some hs).2
  cases call with
  | get x m =>
    cases hs
    cases hnew : c.newEntry x m.entry with
    | none => exact h
    | some q => exact h.newEntry (a := q.2) hnew
  | lookup d name found m =>
    obtain ⟨q, hq, rfl⟩ := Option.map_eq_some_iff.mp hs
    exact h.lookup (r := q.2) hq
  | create d name found m created m' => exact h.create hs
  | link src d name found m linked m' => exact h.link hs
  | remove d name found m unlinked =>
    obtain ⟨q, hq, rfl⟩ := Option.map_eq_some_iff.mp hs
    have hremove : c.remove d name found m unlinked = some (q.1, q.2) := hq
    exact h.remove hremove
  | rename r => exact h.rename hs
  | readdir d renewed r => exact h.readdir hs
  | gc a => exact h.gcSuppress hs
  | kill a => exact h.kill hs
  | valid a lruEntry =>
    cases hs
    exact h.validate a lruEntry

end SlotsSound

end InodeCache

end CloudNfs
