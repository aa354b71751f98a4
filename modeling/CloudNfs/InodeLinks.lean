import CloudNfs.BackLinks
import CloudNfs.InodeEntries

/-!
# Parent links and entries of directories

Every entry of the cache keeps a list of the slots that designate it. The two sides are
written by different functions: an addition and a removal of a directory entry write both,
a garbage collection empties the slots of an entry that goes, and the invalidation of a
directory empties its slots and leaves the links.

* `WellLinked` says that links and active slots correspond.
* `Inv` is the invariant behind it, stated with the lists of links as a parameter: while the
  slots of an entry are emptied one by one, its list is ahead of what it says.
* `KeepsLinks` is what a call must meet for both sides to stay together.
-/

namespace CloudNfs

open Function (update update_self update_of_ne)

namespace InodeCache

open DirChain

namespace Cache

/-- The entry that the slot of a link designates, if it is active. -/
def target (c : Cache) (l : Link) : Option ℕ :=
  (c.dir? l.dir).bind fun dir => (dir.entryAt l.chunk l.subdirpos).bind Slot.pentry

def parents (c : Cache) (a : ℕ) : List Link := ((c.entry a).map Entry.parents).getD []

variable {c : Cache} {a d : ℕ} {e : Entry} {dir dir' : Dir} {f : Entry → Entry}

theorem parents_of_entry (h : c.entry a = some e) : c.parents a = e.parents := by
  simp [parents, h]

/-! ### When both sides stay together -/

/-- The entry with this name in the directory, if it is found, has the link of its slot as its first
one into the directory. -/
def firstLink (c : Cache) (d : ℕ) (name : String) : Bool :=
  match c.dir? d with
  | none => true
  | some dir =>
    match searchName c.isValid (some name) 0 dir.chunks with
    | some (some (i, j)) =>
      ((dir.entryAt i j).bind Slot.pentry).all fun a =>
        decide ((c.parents a).find? (fun l => l.dir = d) = some ⟨d, i, j⟩)
    | _ => true

/-- The slot with this name in the directory designates `a`, it is the only one, and `a` itself has
no active slots. -/
def lastLink (c : Cache) (d : ℕ) (name : String) (a : ℕ) : Bool :=
  match c.dir? d with
  | none => false
  | some dir =>
    match searchName c.isValid (some name) 0 dir.chunks with
    | some (some (i, j)) =>
      decide ((dir.entryAt i j).bind Slot.pentry = some a ∧ c.parents a = [⟨d, i, j⟩]) &&
        (c.dir? a).all Dir.allInactive
    | _ => false

/-- The removal of a name keeps both sides together, if it comes to that. -/
def removeKeeps (c : Cache) (d : ℕ) (name : String) (found : Option Found) (m : Memory)
    (unlinked : Bool) : Bool :=
  match c.lookup d name found m with
  | some (c₁, some a) =>
    (c₁.entry a).all fun e =>
      e.isFull || !unlinked || c₁.firstLink d name &&
        (decide (e.object.dir? = none ∧ 1 < e.numlinks) || c₁.lastLink d name a)
  | _ => true

def moveKeeps (c : Cache) (r : RenameCall) (a : ℕ) : Bool :=
  decide (r.dirsrc = r.dirdest) ||
    match c.addDirent r.dirdest 0 r.newname a r.memory with
    | some (c₁, some _) => c₁.firstLink r.dirsrc r.oldname
    | _ => true

def renameKeeps (c : Cache) (r : RenameCall) : Bool :=
  match c.lookup r.dirsrc r.oldname r.foundSrc r.memorySrc with
  | some (c₁, some a) =>
    match c₁.lookup r.dirdest r.newname r.foundDest r.memoryDest with
    | some (c₂, none) => c₂.moveKeeps r a
    | some (c₂, some b) =>
      c₂.removeKeeps r.dirdest r.newname none r.memoryDest r.unlinked &&
        match c₂.replace r a b with
        | some (c₃, some true) => c₃.moveKeeps r a
        | _ => true
    | none => true
  | _ => true

/-! ### Writing an entry -/

theorem modify_target (hf : ∀ e, (f e).object = e.object) : (c.modify a f).target = c.target := by
  funext l
  rw [target, target, modify_dir? hf]

theorem modify_parents (he : c.entry a = some e) :
    (c.modify a f).parents = update c.parents a (f e).parents := by
  funext x
  by_cases hx : x = a
  · subst hx
    simp [parents, modify_entry, he]
  · simp [parents, modify_entry, hx]

theorem mapParents_parents {g : List Link → List Link} (he : (c.entry a).isSome = true) :
    (c.mapParents a g).parents = update c.parents a (g (c.parents a)) := by
  obtain ⟨e, he⟩ := Option.isSome_iff_exists.mp he
  rw [mapParents, modify_parents he, parents_of_entry he]

theorem setDir_target (hdir : c.dir? d = some dir) (l : Link) :
    (c.setDir d dir').target l =
      if l.dir = d then (dir'.entryAt l.chunk l.subdirpos).bind Slot.pentry else c.target l := by
  rw [target, setDir_dir? hdir]
  split
  · rfl
  · rfl

theorem setDir_parents : (c.setDir d dir').parents = c.parents := by
  funext x
  by_cases hx : x = d
  · subst hx
    cases he : c.entry x <;> simp [parents, setDir, modify_entry, he]
  · simp [parents, setDir, modify_entry, hx]

end Cache

/-! ### The invariant -/

/-- **The invariant**, for lists of links that may be ahead of those in the cache. -/
structure Inv (c : Cache) (parents : ℕ → List Link) : Prop where
  paired : Paired c.target parents
  shape : ∀ d dir, c.dir? d = some dir → Shape ChunkOk dir
  hash : HashOk c

section

variable {c c' : Cache} {P P' : ℕ → List Link} {a d : ℕ} {e : Entry} {dir dir' : Dir}
  {name : String}

/-! ### What keeps the invariant -/

theorem Inv.modify (h : Inv c P) {f : Entry → Entry} (hobject : ∀ e, (f e).object = e.object)
    (hhandle : ∀ e, (f e).handle = e.handle) : Inv (c.modify a f) P where
  paired := by
    rw [Cache.modify_target hobject]
    exact h.paired
  shape d dir hdir := by
    rw [Cache.modify_dir? hobject] at hdir
    exact h.shape d dir hdir
  hash := h.hash.modify hhandle

theorem Inv.setDir_of_paired (h : Inv c P) (hdir : c.dir? d = some dir)
    (hshape : Shape ChunkOk dir')
    (hpaired : Paired (c.setDir d dir').target P') : Inv (c.setDir d dir') P' :=
  ⟨hpaired, Cache.setDir_forall_dir? h.shape hdir hshape, h.hash.modify fun _ => rfl⟩

theorem Inv.writeSlot (h : Inv c P) (hdir : c.dir? d = some dir) (hshape : Shape ChunkOk dir')
    {i j : ℕ} {o : Option Slot}
    (hat : ∀ i' j', dir'.entryAt i' j' = if i' = i ∧ j' = j then o else dir.entryAt i' j')
    (hpaired : Paired (update c.target ⟨d, i, j⟩ (o.bind Slot.pentry)) P') :
    Inv (c.setDir d dir') P' := by
  refine h.setDir_of_paired hdir hshape ?_
  have htarget : (c.setDir d dir').target =
      update c.target ⟨d, i, j⟩ (o.bind Slot.pentry) := by
    funext l
    rw [Cache.setDir_target hdir, hat, Function.update_apply]
    by_cases hl : l.dir = d
    · rw [if_pos hl]
      have hiff : (l.chunk = i ∧ l.subdirpos = j) ↔ l = ⟨d, i, j⟩ := by
        subst hl
        cases l
        simp
      by_cases hij : l.chunk = i ∧ l.subdirpos = j
      · rw [if_pos hij, if_pos (hiff.mp hij)]
      · rw [if_neg hij, if_neg fun heq => hij (hiff.mpr heq)]
        simp [Cache.target, hl, hdir]
    · have hne : ¬ l = ⟨d, i, j⟩ := fun heq => hl (by rw [heq])
      rw [if_neg hl, if_neg hne]
  rw [htarget]
  exact hpaired

theorem Inv.setDir (h : Inv c P) (hdir : c.dir? d = some dir) (hshape : Shape ChunkOk dir')
    (hat : ∀ i j, (dir'.entryAt i j).bind Slot.pentry = (dir.entryAt i j).bind Slot.pentry) :
    Inv (c.setDir d dir') P := by
  refine h.setDir_of_paired hdir hshape ?_
  have htarget : (c.setDir d dir').target = c.target := by
    funext l
    rw [Cache.setDir_target hdir]
    split
    · next hl => rw [hat, Cache.target, hl, hdir, Option.bind_some]
    · rfl
  rw [htarget]
  exact h.paired

theorem Inv.newEntry (h : Inv c c.parents) {c' : Cache} {x : Found} {fresh : Option ℕ}
    (hr : c.newEntry x fresh = some (c', a)) : Inv c' c'.parents := by
  have hhash := h.hash.newEntry hr
  obtain ⟨rfl, -⟩ | ⟨-, hfree, rfl⟩ := Cache.newEntry_cases hr
  · exact h
  · set c' : Cache := ⟨update c.entry a
      (some ⟨x.handle, x.kind.object a, true, x.numlinks, []⟩),
      update c.hash x.handle (some a)⟩ with hc'
    have hdir : ∀ y, c'.dir? y = if y = a then (x.kind.object a).dir? else c.dir? y := by
      intro y
      by_cases hy : y = a
      · simp [Cache.dir?, hc', hy]
      · simp [Cache.dir?, hc', hy]
    -- the new entry designates nothing, and nothing designates it
    have htarget : c'.target = c.target := by
      funext l
      by_cases hl : l.dir = a
      · rw [Cache.target, Cache.target, hdir, if_pos hl, Cache.dir?, hl, hfree]
        cases hnew : (x.kind.object a).dir? with
        | none => rfl
        | some dir => simp [(object_dir? hnew).2.1 l.chunk l.subdirpos]
      · rw [Cache.target, Cache.target, hdir, if_neg hl]
    have hparents : c'.parents = c.parents := by
      funext y
      by_cases hy : y = a
      · subst hy
        simp [Cache.parents, hc', hfree]
      · simp [Cache.parents, hc', hy]
    refine ⟨?_, fun y dy hy => ?_, hhash⟩
    · rw [htarget, hparents]
      exact h.paired
    · rw [hdir] at hy
      split at hy
      · exact (object_dir? hy).1.shape
      · exact h.shape y dy hy

theorem Inv.clean (h : Inv c P) (he : c.entry a = some e) (hlinks : P a = [])
    (hslots : ∀ l : Link, l.dir = a → c.target l = none)
    (hP : ∀ b, b ≠ a → P b = c.parents b) : Inv (c.clean a) (c.clean a).parents := by
  have htarget : (c.clean a).target = c.target := by
    funext l
    by_cases hl : l.dir = a
    · rw [hslots l hl, Cache.target, Cache.clean_dir?, if_pos hl, Option.bind_none]
    · rw [Cache.target, Cache.target, Cache.clean_dir?, if_neg hl]
  have hparents : (c.clean a).parents = P := by
    funext x
    by_cases hx : x = a
    · subst hx
      simp [Cache.parents, Cache.clean_entry, hlinks]
    · rw [hP x hx]
      simp [Cache.parents, Cache.clean_entry, hx]
  refine ⟨?_, fun x dx hx => ?_, h.hash.clean a⟩
  · rw [htarget, hparents]
    exact h.paired
  · rw [Cache.clean_dir?] at hx
    split at hx
    · cases hx
    · exact h.shape x dx hx

/-! ### The functions keep the invariant -/

/-- What an addition to a directory does, besides keeping the invariant. -/
structure Extended (c c' : Cache) (d : ℕ) (r : Option ℕ) : Prop where
  inv : Inv c' c'.parents
  dir : ∀ dir, c.dir? d = some dir → ∃ dir', c'.dir? d = some dir' ∧
    (∀ k, StartsAt dir k → StartsAt dir' k) ∧ ∀ i, r = some i → StartsAt dir' i

variable {m : Memory} {r : Option ℕ} {l : Link} {found : Option Found} {ls : List Link} {ok : Bool}

theorem Inv.addDirent (h : Inv c c.parents) {start : ℕ} {name : String}
    (hstart : ∀ dir, c.dir? d = some dir → OpenUpTo dir start)
    (hr : c.addDirent d start name a m = some (c', r)) : Extended c c' d r := by
  unfold Cache.addDirent at hr
  split at hr
  · next hnone =>
    cases hr
    exact ⟨h, fun dir hdir => by
      rw [hnone] at hdir
      cases hdir⟩
  rename_i dir hdir
  have hshape := h.shape d dir hdir
  split at hr
  · cases hr
  · next dir' hadd =>
    cases hr
    have hadded := hshape.added chunkOk_keeping (hstart dir hdir) hadd
    refine ⟨?_, fun dir1 hdir1 => ⟨dir', ?_, ?_, fun i hi => by cases hi⟩⟩
    · rw [Cache.setDir_parents]
      exact h.setDir hdir hadded.shape fun i j => by rw [hadded.failed rfl]
    · rw [Cache.setDir_dir? hdir, if_pos rfl]
    · obtain rfl : dir = dir1 := Option.some.inj (hdir.symm.trans hdir1)
      exact hadded.startsAt
  rename_i dir' i j hadd
  split at hr
  · cases hr
  rename_i hsome
  obtain ⟨e, ha⟩ := Option.ne_none_iff_exists'.mp (by simpa using hsome)
  obtain ⟨hc', rfl⟩ := Prod.mk.inj (Option.some.inj hr)
  have hadded := hshape.added chunkOk_keeping (hstart dir hdir) hadd
  obtain ⟨hfree, hi, hat⟩ := hadded.placed i j rfl
  have htarget : c.target ⟨d, i, j⟩ = none := by
    simp [Cache.target, hdir, hfree]
  have hwritten : Inv (c.setDir d dir')
      (update c.parents a (⟨d, i, j⟩ :: c.parents a)) :=
    h.writeSlot hdir hadded.shape hat (h.paired.link htarget a)
  have ha' : ((c.setDir d dir').entry a).isSome = true := by
    rw [Cache.setDir, Cache.modify_live, ha]
    rfl
  subst hc'
  refine ⟨?_, fun dir1 hdir1 => ⟨dir', ?_, ?_, ?_⟩⟩
  · rw [Cache.mapParents_parents ha', Cache.setDir_parents]
    exact hwritten.modify (fun _ => rfl) fun _ => rfl
  · rw [Cache.mapParents_dir?, Cache.setDir_dir? hdir, if_pos rfl]
  · obtain rfl : dir = dir1 := Option.some.inj (hdir.symm.trans hdir1)
    exact hadded.startsAt
  · rintro i' hi'
    cases hi'
    exact hi

theorem modify_parents_eq {f : Entry → Entry} (hf : ∀ e, (f e).parents = e.parents) :
    (c.modify a f).parents = c.parents := by
  funext x
  by_cases hx : x = a
  · subst hx
    cases he : c.entry x <;> simp [Cache.parents, Cache.modify_entry, he, hf]
  · simp [Cache.parents, Cache.modify_entry, hx]

theorem Inv.setNumlinks (h : Inv c c.parents) (a n : ℕ) :
    Inv (c.setNumlinks a n) (c.setNumlinks a n).parents := by
  have hkeep : (c.setNumlinks a n).parents = c.parents := modify_parents_eq fun _ => rfl
  rw [hkeep]
  exact h.modify (fun _ => rfl) fun _ => rfl

theorem Inv.live_of_target (h : Inv c c.parents) (hl : c.target l = some a) :
    ∃ e, c.entry a = some e := by
  have hmem := (h.paired.mem_iff l a).mpr hl
  cases he : c.entry a with
  | none => simp [Cache.parents, he] at hmem
  | some e => exact ⟨e, rfl⟩

theorem Inv.lookupp (h : Inv c c.parents) (hr : c.lookupp d found m = some (c', r)) :
    Inv c' c'.parents := by
  unfold Cache.lookupp at hr
  split at hr
  · cases hr
  split at hr
  · obtain ⟨b, -, hq⟩ := Option.map_eq_some_iff.mp hr
    cases hq
    exact h
  · split at hr
    · cases hr
      exact h
    · next x =>
      cases hnew : c.newEntry x m.entry with
      | none =>
        obtain ⟨rfl, rfl⟩ : c = c' ∧ none = r := by simpa [hnew] using hr
        exact h
      | some q =>
        obtain ⟨rfl, rfl⟩ : q.1 = c' ∧ some q.2 = r := by simpa [hnew] using hr
        have hnew' : c.newEntry x m.entry = some (q.1, q.2) := hnew
        exact h.newEntry hnew'

theorem Inv.lookup (h : Inv c c.parents) {name : String}
    (hr : c.lookup d name found m = some (c', r)) : Inv c' c'.parents := by
  unfold Cache.lookup at hr
  split at hr
  · cases hr
    exact h
  split at hr
  · cases hr
    exact h
  split at hr
  · exact h.lookupp hr
  split at hr
  · cases hr
  · cases hr
    exact h
  split at hr
  · cases hr
    exact h
  split at hr
  · cases hr
    exact h
  -- a miss that the FSAL resolves
  rename_i c₁ b hnew
  obtain ⟨q, hadd, hq⟩ := Option.map_eq_some_iff.mp hr
  cases hq
  exact ((h.newEntry hnew).addDirent (r := q.2) (fun dir _ => openUpTo_zero dir) hadd).inv

theorem Inv.create (h : Inv c c.parents) {name : String} {created : Option Found} {m' : Memory}
    (hr : c.create d name found m created m' = some c') : Inv c' c'.parents := by
  unfold Cache.create at hr
  split at hr
  · cases hr
  · next c₁ a hlookup =>
    cases hr
    exact h.lookup hlookup
  rename_i c₁ hlookup
  have hinv := h.lookup hlookup
  split at hr
  · cases hr
    exact hinv
  split at hr
  · cases hr
    exact hinv
  rename_i c₂ a hnew
  obtain ⟨q, hadd, rfl⟩ := Option.map_eq_some_iff.mp hr
  exact ((hinv.newEntry hnew).addDirent (r := q.2) (fun dir _ => openUpTo_zero dir) hadd).inv

theorem Inv.link (h : Inv c c.parents) {src : ℕ} {name : String} {m' : Memory} {linked : Option ℕ}
    (hr : c.link src d name found m linked m' = some c') : Inv c' c'.parents := by
  unfold Cache.link at hr
  split at hr
  · cases hr
    exact h
  split at hr
  · cases hr
  · next c₁ a hlookup =>
    cases hr
    exact h.lookup hlookup
  rename_i c₁ hlookup
  have hinv := h.lookup hlookup
  split at hr
  · cases hr
  rename_i e he
  split at hr
  · cases hr
    exact hinv
  split at hr
  · cases hr
    exact hinv
  rename_i n
  obtain ⟨q, hadd, rfl⟩ := Option.map_eq_some_iff.mp hr
  exact ((hinv.setNumlinks src n).addDirent (r := q.2) (fun dir _ => openUpTo_zero dir) hadd).inv

theorem eraseP_eq_erase {p : Link → Bool} (h : ls.find? p = some l) : ls.eraseP p = ls.erase l := by
  induction ls with
  | nil => cases h
  | cons x xs ih =>
    by_cases hx : p x = true
    · obtain rfl : x = l := by simpa [hx] using h
      simp [hx]
    have hne : x ≠ l := by
      rintro rfl
      exact hx (List.find?_some h)
    rw [List.find?_cons_of_neg hx] at h
    rw [List.eraseP_cons_of_neg hx, List.erase_cons_tail (by simpa using hne), ih h]

/-- **Removing an entry of a directory**, when its first link into the directory is the right
one. -/
theorem Inv.removeDirent (h : Inv c c.parents) (hfirst : c.firstLink d name = true)
    (hr : c.removeDirent d 0 name = some c') : Inv c' c'.parents := by
  unfold Cache.removeDirent at hr
  unfold Cache.firstLink at hfirst
  split at hr
  · cases hr
    exact h
  rename_i dir hdir
  simp only [hdir] at hfirst
  split at hr
  · cases hr
  · cases hr
    exact h
  rename_i i j hsearch
  rw [List.drop_zero] at hsearch
  simp only [hsearch] at hfirst
  split at hr
  · cases hr
  rename_i a ha
  cases hr
  obtain ⟨s, hs, hpentry⟩ := Option.bind_eq_some_iff.mp ha
  have htarget : c.target ⟨d, i, j⟩ = some a := by
    simp [Cache.target, hdir, hs, hpentry]
  have hfind : (c.parents a).find? (fun l => l.leadsTo d 0) = some ⟨d, i, j⟩ := by
    simpa [ha, Link.leadsTo] using hfirst
  obtain ⟨hshape, hat⟩ :
      Shape ChunkOk { dir with chunks := dir.chunks.modify i fun b => b.drop j } ∧ _ :=
    (h.shape d dir hdir).dropped chunkOk_keeping rfl hs
  have hwritten := h.writeSlot hdir hshape hat (h.paired.unlink htarget)
  obtain ⟨e, he⟩ := h.live_of_target htarget
  have ha' : ((c.setDir d { dir with
      chunks := dir.chunks.modify i fun b => b.drop j }).entry a).isSome = true := by
    rw [Cache.setDir, Cache.modify_live, he]
    rfl
  rw [Cache.mapParents_parents ha', Cache.setDir_parents, eraseP_eq_erase hfind]
  exact hwritten.modify (fun _ => rfl) fun _ => rfl

theorem Inv.renameDirent (h : Inv c c.parents) {newname : String}
    (hr : c.renameDirent d 0 name newname = some c') : Inv c' c'.parents := by
  unfold Cache.renameDirent at hr
  split at hr
  · cases hr
    exact h
  rename_i dir hdir
  split at hr
  · cases hr
  · cases hr
    exact h
  rename_i i j hsearch
  cases hr
  rw [Cache.setDir_parents]
  obtain ⟨s, hs, -⟩ := searchName_entryAt hsearch
  obtain ⟨hshape, hat⟩ :
      Shape ChunkOk { dir with
        chunks := dir.chunks.modify i fun b => b.rename j (some newname) } ∧ _ :=
    (h.shape d dir hdir).renamed chunkOk_keeping newname rfl hs
  refine h.setDir hdir hshape fun i' j' => ?_
  rw [hat]
  split
  · next hij => rw [hij.1, hij.2, hs]; rfl
  · rfl

theorem target_of_allInactive (h : (c.dir? a).all Dir.allInactive = true) (hl : l.dir = a) :
    c.target l = none := by
  subst hl
  cases hdir : c.dir? l.dir with
  | none => simp [Cache.target, hdir]
  | some dir =>
    rw [hdir, Option.all_some] at h
    simp [Cache.target, hdir, noEntries_of_allInactive h l.chunk l.subdirpos]

theorem firstLink_of_lastLink (h : c.lastLink d name a = true) : c.firstLink d name = true := by
  unfold Cache.lastLink at h
  unfold Cache.firstLink
  split at h
  · cases h
  split at h
  · simp only [Bool.and_eq_true, decide_eq_true_eq] at h
    obtain ⟨⟨ha, hparents⟩, -⟩ := h
    simp [ha, hparents]
  · cases h

theorem Inv.removeLast (h : Inv c c.parents) (hlast : c.lastLink d name a = true)
    (hr : c.removeDirent d 0 name = some c') : Inv (c'.clean a) (c'.clean a).parents := by
  have hinv := h.removeDirent (firstLink_of_lastLink hlast) hr
  unfold Cache.lastLink at hlast
  unfold Cache.removeDirent at hr
  split at hlast
  · cases hlast
  rename_i dir hdir
  simp only [hdir] at hr
  split at hlast
  · next i j hsearch =>
    simp only [Bool.and_eq_true, decide_eq_true_eq] at hlast
    obtain ⟨⟨ha, hparents⟩, hinactive⟩ := hlast
    simp only [List.drop_zero, hsearch, ha, Option.some.injEq] at hr
    obtain ⟨s, hs, hpentry⟩ := Option.bind_eq_some_iff.mp ha
    have htarget : c.target ⟨d, i, j⟩ = some a := by
      simp [Cache.target, hdir, hs, hpentry]
    -- the directory of the slot is another one
    have hne : a ≠ d := by
      rintro rfl
      rw [target_of_allInactive hinactive rfl] at htarget
      cases htarget
    obtain ⟨e, he⟩ := h.live_of_target htarget
    set dir' : Dir := { dir with chunks := dir.chunks.modify i fun b => b.drop j }
    have ha' : ((c.setDir d dir').entry a).isSome = true := by
      rw [Cache.setDir, Cache.modify_live, he]
      rfl
    obtain ⟨e', he'⟩ : ∃ e', c'.entry a = some e' := by
      refine Option.isSome_iff_exists.mp ?_
      rw [← hr, Cache.mapParents, Cache.modify_live, ha']
    refine hinv.clean he' ?_ (fun l hl => ?_) fun _ _ => rfl
    · rw [← hr, Cache.mapParents_parents ha', update_self, Cache.setDir_parents,
        hparents]
      simp [Link.leadsTo]
    · have hkeep : c'.target = (c.setDir d dir').target := by
        rw [← hr]
        exact Cache.modify_target fun _ => rfl
      rw [hkeep, Cache.setDir_target hdir, if_neg fun heq => hne (hl.symm.trans heq)]
      exact target_of_allInactive hinactive hl
  · cases hlast

theorem Inv.remove (h : Inv c c.parents) {unlinked : Bool} {ok : Option Bool}
    (hkeeps : c.removeKeeps d name found m unlinked = true)
    (hr : c.remove d name found m unlinked = some (c', ok)) : Inv c' c'.parents := by
  unfold Cache.remove at hr
  unfold Cache.removeKeeps at hkeeps
  split at hr
  · cases hr
  · next c₁ hlookup =>
    cases hr
    exact h.lookup hlookup
  rename_i c₁ a hlookup
  have hinv := h.lookup hlookup
  simp only [hlookup] at hkeeps
  split at hr
  · cases hr
    exact hinv
  split at hr
  · cases hr
  rename_i e he
  split at hr
  · cases hr
    exact hinv
  rename_i hgoes
  obtain ⟨c₂, hremove, hc'⟩ := Option.map_eq_some_iff.mp hr
  cases hc'
  push Not at hgoes
  have hunlinked : unlinked = true := by simpa using hgoes.2
  have hfull : e.isFull = false := by simpa using hgoes.1
  simp only [he, Option.all_some, hfull, hunlinked, Bool.not_true, Bool.or_self,
    Bool.false_or, Bool.and_eq_true, Bool.or_eq_true, decide_eq_true_eq] at hkeeps
  obtain ⟨hfirst, hlinks⟩ := hkeeps
  unfold Cache.dropLink
  split
  · exact (hinv.removeDirent hfirst hremove).setNumlinks a _
  · next hlast => exact hinv.removeLast (hlinks.resolve_left hlast) hremove

theorem Inv.replace (h : Inv c c.parents) {r : RenameCall} {b : ℕ} {ok : Option Bool}
    (hkeeps : c.removeKeeps r.dirdest r.newname none r.memoryDest r.unlinked = true)
    (hr : c.replace r a b = some (c', ok)) : Inv c' c'.parents := by
  unfold Cache.replace at hr
  split at hr
  · cases hr
    exact h
  · cases hr
    exact h
  split at hr
  · cases hr
    exact h
  split at hr
  · cases hr
    exact h
  · exact h.remove hkeeps hr

theorem Inv.move (h : Inv c c.parents) {r : RenameCall} (hkeeps : c.moveKeeps r a = true)
    (hr : c.move r a = some c') : Inv c' c'.parents := by
  unfold Cache.move at hr
  unfold Cache.moveKeeps at hkeeps
  split at hr
  · exact h.renameDirent hr
  rename_i hne
  have hadd : ∀ {c₁ r'}, c.addDirent r.dirdest 0 r.newname a r.memory = some (c₁, r') →
      Extended c c₁ r.dirdest r' := fun hr' =>
    h.addDirent (fun dir _ => openUpTo_zero dir) hr'
  split at hr
  · cases hr
  · next c₁ hadd1 =>
    cases hr
    exact (hadd hadd1).inv
  · next c₁ i hadd1 =>
    simp only [hne, decide_false, hadd1, Bool.false_or] at hkeeps
    exact (hadd hadd1).inv.removeDirent hkeeps hr

theorem Inv.rename (h : Inv c c.parents) {r : RenameCall} (hkeeps : c.renameKeeps r = true)
    (hr : c.rename r = some c') : Inv c' c'.parents := by
  unfold Cache.rename at hr
  unfold Cache.renameKeeps at hkeeps
  split at hr
  · cases hr
    exact h
  split at hr
  · cases hr
  · next c₁ hsrc =>
    cases hr
    exact h.lookup hsrc
  rename_i c₁ a hsrc
  have hinv1 := h.lookup hsrc
  simp only [hsrc] at hkeeps
  split at hr
  · cases hr
  · next c₂ hdest =>
    have hinv2 := hinv1.lookup hdest
    simp only [hdest] at hkeeps
    split at hr
    · exact hinv2.move hkeeps hr
    · cases hr
      exact hinv2
  rename_i c₂ b hdest
  have hinv2 := hinv1.lookup hdest
  simp only [hdest, Bool.and_eq_true] at hkeeps
  obtain ⟨hremove, hmove⟩ := hkeeps
  split at hr
  · cases hr
  rename_i c₃ ok hreplace
  have hinv3 := hinv2.replace hremove hreplace
  simp only [hreplace] at hmove
  split at hr
  · next hgoes =>
    obtain ⟨rfl, -⟩ := hgoes
    exact hinv3.move hmove hr
  · cases hr
    exact hinv3

/-! ### Reading a directory -/

theorem Inv.populateBatch {xs : List Dirent} {parent next next' : Option ℕ} {added : Bool}
    (h : Inv c c.parents) (hp : ∀ k, parent = some k → StartsIn c d k)
    (hn : ∀ k, next = some k → StartsIn c d k)
    (hr : Cache.populateBatch c d parent next xs = some (c', next', added)) :
    Inv c' c'.parents ∧ ∀ k, next' = some k → StartsIn c' d k := by
  induction xs generalizing c next with
  | nil =>
    obtain ⟨rfl, rfl, -⟩ : c = c' ∧ next = next' ∧ true = added := by
      simpa [Cache.populateBatch] using hr
    exact ⟨h, hn⟩
  | cons x xs ih =>
    simp only [Cache.populateBatch] at hr
    split at hr
    · exact ih h hp hn hr
    split at hr
    · cases hr
      exact ⟨h, hn⟩
    split at hr
    · cases hr
      exact ⟨h, hn⟩
    rename_i c₁ a hnew
    have hinv1 := h.newEntry hnew
    have hkeep : ∀ {k}, StartsIn c d k → StartsIn c₁ d k := fun ⟨dir, hdir, hk⟩ =>
      ⟨dir, Cache.newEntry_dir? hnew hdir, hk⟩
    split at hr
    · cases hr
    rename_i start
    obtain ⟨dir, hdir, hstart⟩ := hkeep (hp start rfl)
    have hadd : ∀ {c₂ r}, c₁.addDirent d start x.name a x.memory = some (c₂, r) →
        Extended c₁ c₂ d r := fun hr' => hinv1.addDirent (fun dir' hdir' => by
      obtain rfl : dir = dir' := Option.some.inj (hdir.symm.trans hdir')
      exact hstart.2) hr'
    have hkeep2 : ∀ {c₂ r}, Extended c₁ c₂ d r → ∀ {k}, StartsIn c d k →
        StartsIn c₂ d k := by
      intro c₂ r hext k hk
      obtain ⟨dir1, hdir1, hk1⟩ := hkeep hk
      obtain ⟨dir2, hdir2, hmono, -⟩ := hext.dir dir1 hdir1
      exact ⟨dir2, hdir2, hmono k hk1⟩
    split at hr
    · cases hr
    · next c₂ hadd2 =>
      cases hr
      exact ⟨(hadd hadd2).inv, fun k hk => hkeep2 (hadd hadd2) (hn k hk)⟩
    rename_i c₂ i hadd2
    have hext := hadd hadd2
    refine ih hext.inv (fun k hk => hkeep2 hext (hp k hk)) (fun k hk => ?_) hr
    cases hk
    obtain ⟨dir2, hdir2, -, hi⟩ := hext.dir dir hdir
    exact ⟨dir2, hdir2, hi i rfl⟩

theorem Inv.populateBatches {bs : List (List Dirent)} {parent next : Option ℕ} {added : Bool}
    (h : Inv c c.parents) (hp : ∀ k, parent = some k → StartsIn c d k)
    (hn : ∀ k, next = some k → StartsIn c d k)
    (hr : Cache.populateBatches c d parent next bs = some (c', added)) : Inv c' c'.parents := by
  induction bs generalizing c parent next with
  | nil =>
    obtain ⟨rfl, -⟩ : c = c' ∧ true = added := by simpa [Cache.populateBatches] using hr
    exact h
  | cons b bs ih =>
    simp only [Cache.populateBatches] at hr
    split at hr
    · cases hr
    · next c₁ next1 hb =>
      cases hr
      exact (h.populateBatch hp hn hb).1
    · next c₁ next1 hb =>
      obtain ⟨hinv, hstart⟩ := h.populateBatch hp hn hb
      exact ih hinv hstart hstart hr

theorem Inv.setHasBeenReaddir (h : Inv c c.parents) (d : ℕ) (b : Bool) :
    Inv (c.setHasBeenReaddir d b) (c.setHasBeenReaddir d b).parents := by
  unfold Cache.setHasBeenReaddir
  split
  · exact h
  rename_i dir hdir
  have hshape := h.shape d dir hdir
  rw [Cache.setDir_parents]
  exact h.setDir hdir ⟨hshape.chunk, hshape.nothingBehind⟩ fun _ _ => rfl

/-- A readdir either finds the directory read or has nothing to invalidate in it. -/
def Cache.readdirKeeps (c : Cache) (d : ℕ) (renewed : Bool) : Bool :=
  (c.dir? d).all fun dir => dir.hasBeenReaddir && !renewed || dir.allInactive

theorem Inv.populate (h : Inv c c.parents) {r : PopulateRun}
    (hkeeps : ∀ dir, c.dir? d = some dir → dir.hasBeenReaddir = false → dir.allInactive = true)
    (hr : c.populate d r = some c') : Inv c' c'.parents := by
  unfold Cache.populate at hr
  split at hr
  · cases hr
    exact h
  rename_i dir hdir
  split at hr
  · cases hr
    exact h
  rename_i hread
  have hnone := noEntries_of_allInactive (hkeeps dir hdir (by simpa using hread))
  obtain ⟨hshape, hempty⟩ := (h.shape d dir hdir).invalidated chunkOk_keeping
  have hinv : Inv (c.setDir d (invalidateAllCachedDirent dir))
      (c.setDir d (invalidateAllCachedDirent dir)).parents := by
    rw [Cache.setDir_parents]
    exact h.setDir hdir hshape fun i j => by rw [hempty i j, hnone i j]
  split at hr
  · cases hr
    exact hinv
  obtain ⟨q, hq, rfl⟩ := Option.map_eq_some_iff.mp hr
  have hstart : StartsIn (c.setDir d (invalidateAllCachedDirent dir)) d 0 := by
    refine ⟨invalidateAllCachedDirent dir, ?_, Nat.zero_le _, openUpTo_zero _⟩
    rw [Cache.setDir_dir? hdir, if_pos rfl]
  have hloop : Cache.populateBatches (c.setDir d (invalidateAllCachedDirent dir)) d (some 0)
      none r.batches = some (q.1, q.2) := hq
  have hfinal : Inv q.1 q.1.parents := hinv.populateBatches
    (fun k hk => by
      cases hk
      exact hstart) (fun k hk => by cases hk) hloop
  split
  · exact hfinal.setHasBeenReaddir d true
  · exact hfinal

theorem Inv.readdir (h : Inv c c.parents) {renewed : Bool} {r : PopulateRun}
    (hkeeps : c.readdirKeeps d renewed = true) (hr : c.readdir d renewed r = some c') :
    Inv c' c'.parents := by
  unfold Cache.readdir at hr
  unfold Cache.readdirKeeps at hkeeps
  cases renewed with
  | true =>
    refine (h.setHasBeenReaddir d false).populate (fun dir' hdir' _ => ?_) hr
    -- the chunks are those from before
    cases hdir : c.dir? d with
    | none => simp [Cache.setHasBeenReaddir, hdir] at hdir'
    | some dir =>
      simp only [if_true, Cache.setHasBeenReaddir, hdir, Cache.setDir_dir? hdir,
        Option.some.injEq] at hdir'
      subst hdir'
      have hall : dir.allInactive = true := by simpa [hdir] using hkeeps
      exact hall
  | false =>
    refine h.populate (fun dir hdir hread => ?_) hr
    simpa [hdir, hread] using hkeeps

/-! ### Dropping entries -/

structure Emptied (c c' : Cache) : Prop where
  parents : c'.parents = c.parents
  handle : ∀ b e, c.entry b = some e → ∃ e', c'.entry b = some e' ∧ e'.handle = e.handle
  target : ∀ l, c.target l = none → c'.target l = none

theorem Emptied.trans {c₁ c₂ c₃ : Cache} (h1 : Emptied c₁ c₂) (h2 : Emptied c₂ c₃) :
    Emptied c₁ c₃ where
  parents := h2.parents.trans h1.parents
  handle b e he := by
    obtain ⟨e2, he2, hhandle2⟩ := h1.handle b e he
    obtain ⟨e3, he3, hhandle3⟩ := h2.handle b e2 he2
    exact ⟨e3, he3, hhandle3.trans hhandle2⟩
  target l hl := h2.target l (h1.target l hl)

theorem Inv.dropSlot (h : Inv c (update P a (l :: ls))) (hdir : c.dir? l.dir = some dir) :
    l.chunk < dir.chunks.length ∧ l.subdirpos < childrenArraySize ∧
      Inv (c.setDir l.dir (dir.dropSlot l.chunk l.subdirpos)) (update P a ls) ∧
      Emptied c (c.setDir l.dir (dir.dropSlot l.chunk l.subdirpos)) := by
  have htarget : c.target l = some a := (h.paired.mem_iff l a).mp (by simp)
  obtain ⟨s, hs, -⟩ : ∃ s, dir.entryAt l.chunk l.subdirpos = some s ∧ s.pentry = some a := by
    rw [Cache.target, hdir, Option.bind_some] at htarget
    exact Option.bind_eq_some_iff.mp htarget
  obtain ⟨chunk, hchunk, hslot, -⟩ := entryAt_eq_some.mp hs
  have hshape := h.shape l.dir dir hdir
  have hlen := (hshape.chunk chunk (List.mem_of_getElem? hchunk)).length
  obtain ⟨hshape', hat⟩ : Shape ChunkOk (dir.dropSlot l.chunk l.subdirpos) ∧ _ :=
    hshape.dropped chunkOk_keeping rfl hs
  refine ⟨(List.getElem?_eq_some_iff.mp hchunk).1,
    hlen ▸ (List.getElem?_eq_some_iff.mp hslot).1, ?_, Cache.setDir_parents, fun b e' he' => ?_,
    fun l' hl' => ?_⟩
  · have hpaired := h.paired.unlink htarget
    have hls : update (update P a (l :: ls)) a
        ((update P a (l :: ls) a).erase l) = update P a ls := by
      simp
    rw [hls] at hpaired
    exact h.writeSlot hdir hshape' hat hpaired
  · by_cases hb : b = l.dir
    · subst hb
      simp [Cache.setDir, Cache.modify_entry, he']
    · exact ⟨e', by simp [Cache.setDir, Cache.modify_entry, hb, he'], rfl⟩
  · rw [Cache.setDir_target hdir, hat]
    split
    · next hl =>
      split
      · rfl
      · rw [Cache.target, hl, hdir, Option.bind_some] at hl'
        exact hl'
    · exact hl'

theorem Inv.invalidateRelated (h : Inv c (update P a ls))
    (hr : Cache.invalidateRelated c ls = some (c', ok)) :
    ok = true ∧ Inv c' (update P a []) ∧ Emptied c c' := by
  induction ls generalizing c with
  | nil =>
    obtain ⟨rfl, rfl⟩ : c = c' ∧ true = ok := by simpa [Cache.invalidateRelated] using hr
    exact ⟨rfl, h, rfl, fun b e he => ⟨e, he, rfl⟩, fun _ hl => hl⟩
  | cons l ls ih =>
    have htarget : c.target l = some a := (h.paired.mem_iff l a).mp (by simp)
    obtain ⟨dir, hdir, -⟩ := Option.bind_eq_some_iff.mp htarget
    obtain ⟨e, he, hobj⟩ := Cache.entry_of_dir? hdir
    obtain ⟨hchunk, hpos, hinv, hemptied⟩ := h.dropSlot hdir
    simp only [Cache.invalidateRelated, he, hobj, Object.dir?] at hr
    rw [if_neg (by omega), if_neg (by omega)] at hr
    obtain ⟨hok, hinv', hemptied'⟩ := ih hinv hr
    exact ⟨hok, hinv', hemptied.trans hemptied'⟩

theorem Emptied.hash_eq {c' : Cache} (hemptied : Emptied c c') (hinv : Inv c' P)
    (he : c.entry a = some e) : c'.hash e.handle = some a := by
  obtain ⟨e', he', hhandle⟩ := hemptied.handle a e he
  exact (hinv.hash e.handle a).mpr ⟨e', he', hhandle⟩

theorem Inv.dropped (h : Inv c c.parents) {c₁ : Cache} (he : c.entry a = some e)
    (hinactive : ∀ l : Link, l.dir = a → c.target l = none)
    (hr : Cache.invalidateRelated c e.parents = some (c₁, ok)) :
    ok = true ∧ Inv (c₁.release a e) (c₁.release a e).parents := by
  have hself : update c.parents a e.parents = c.parents := by
    rw [← Cache.parents_of_entry he, Function.update_eq_self]
  obtain ⟨hok, hinv, hemptied⟩ :=
    Inv.invalidateRelated (P := c.parents) (a := a) (by rwa [hself]) hr
  refine ⟨hok, ?_⟩
  obtain ⟨e1, he1, -⟩ := hemptied.handle a e he
  unfold Cache.release
  rw [hemptied.hash_eq hinv he]
  refine hinv.clean he1 (update_self ..) (fun l hl => hemptied.target l (hinactive l hl))
    fun b hb => ?_
  rw [update_of_ne hb, hemptied.parents]

theorem Inv.setInvalid (h : Inv c c.parents) (a : ℕ) :
    Inv (c.setInvalid a) (c.setInvalid a).parents := by
  have hkeep : (c.setInvalid a).parents = c.parents := modify_parents_eq fun _ => rfl
  rw [hkeep]
  exact h.modify (fun _ => rfl) fun _ => rfl

theorem Inv.gcSuppress (h : Inv c c.parents) (hr : c.gcSuppress a = some c') :
    Inv c' c'.parents := by
  unfold Cache.gcSuppress at hr
  split at hr
  · cases hr
  rename_i e he
  have hinv := h.setInvalid a
  have he' : (c.setInvalid a).entry a = some { e with valid := false } := by
    simp [Cache.setInvalid, Cache.modify_entry, he]
  have htarget : (c.setInvalid a).target = c.target := Cache.modify_target fun _ => rfl
  -- without active slots of its own the entry can go
  have hdrop : (∀ l : Link, l.dir = a → c.target l = none) →
      (Cache.invalidateRelated (c.setInvalid a) e.parents).map
        (fun q => if q.2 then q.1.release a e else q.1) = some c' → Inv c' c'.parents := by
    intro hinactive hr
    obtain ⟨q, hq, rfl⟩ := Option.map_eq_some_iff.mp hr
    have hloop : Cache.invalidateRelated (c.setInvalid a) e.parents = some (q.1, q.2) := hq
    obtain ⟨hok, hinv'⟩ := hinv.dropped he'
      (fun l hl => by rw [htarget]; exact hinactive l hl) hloop
    rw [if_pos hok]
    exact hinv'
  split at hr
  · cases hr
    exact h
  · next dir hobj =>
    have hdir : c.dir? a = some dir := by simp [Cache.dir?, he, hobj, Object.dir?]
    split at hr
    · next hempty =>
      refine hdrop (fun l hl => ?_) hr
      have hnone := (h.shape a dir hdir).noEntries_of_isDirEmpty hempty
      simp [Cache.target, hl, hdir, hnone l.chunk l.subdirpos]
    · cases hr
      exact hinv
  · next hspecial hnodir =>
    refine hdrop (fun l hl => ?_) hr
    have hdir : c.dir? a = none := by
      cases hobj : e.object with
      | dirBeginning dir => exact absurd hobj (hnodir dir)
      | _ => simp [Cache.dir?, he, hobj, Object.dir?]
    simp [Cache.target, hl, hdir]

theorem Inv.kill (h : Inv c c.parents) (hkeeps : (c.dir? a).all Dir.allInactive = true)
    (hr : c.kill a = some c') : Inv c' c'.parents := by
  unfold Cache.kill at hr
  split at hr
  · cases hr
  rename_i e he
  obtain ⟨q, hq, rfl⟩ := Option.map_eq_some_iff.mp hr
  have hloop : Cache.invalidateRelated c e.parents = some (q.1, q.2) := hq
  exact (h.dropped he (fun l hl => target_of_allInactive hkeeps hl) hloop).2

end

/-! ### Runs -/

/-- What a call must meet in the state before it:

* it is defined, given entries and not a `DIR_CONTINUE`, and does not rename `..`;
* when `cache_inode_remove` or `cache_inode_rename` takes a name from a directory, the entry found
  under the name has the link of that slot as its first one into the directory, and when the entry
  is released, it is its only link, and nothing is active in the entry;
* `cache_inode_readdir` finds the directory read, or without active slots;
* `cache_inode_kill_entry` is called for an entry that is no directory, or one without active
  slots;
* there is memory for the LRU entry in `cache_inode_valid`. -/
def Call.keeps (c : Cache) : Call → Bool
  | .remove d name found m unlinked => c.removeKeeps d name found m unlinked
  | .rename r => decide (r.oldname ≠ "..") && c.renameKeeps r
  | .readdir d renewed _ => c.readdirKeeps d renewed
  | .kill a => (c.dir? a).all Dir.allInactive
  | .valid _ lruEntry => lruEntry
  | .get .. | .lookup .. | .create .. | .link .. | .gc _ => true

def KeepsLinks (c : Cache) (call : Call) : Prop := Defined c call ∧ call.keeps c = true

instance (c : Cache) (call : Call) : Decidable (KeepsLinks c call) :=
  inferInstanceAs (Decidable (_ ∧ _))

theorem Inv.setValid (h : Inv c c.parents) (a : ℕ) : Inv (c.setValid a) (c.setValid a).parents := by
  have hkeep : (c.setValid a).parents = c.parents := modify_parents_eq fun _ => rfl
  rw [hkeep]
  exact h.modify (fun _ => rfl) fun _ => rfl

/-- **A call** keeps the links in step with the slots, if it meets the condition. -/
theorem Inv.step {c c' : Cache} (h : Inv c c.parents) {call : Call} (hs : step c call = some c')
    (hkeeps : KeepsLinks c call) : Inv c' c'.parents := by
  replace hs := (step_eq_some hs).2
  replace hkeeps := hkeeps.2
  cases call with
  | get x m =>
    cases hnew : c.newEntry x m.entry with
    | none =>
      obtain rfl : c = c' := by simpa [perform, hnew] using hs
      exact h
    | some q =>
      obtain rfl : q.1 = c' := by simpa [perform, hnew] using hs
      have hnew' : c.newEntry x m.entry = some (q.1, q.2) := hnew
      exact h.newEntry hnew'
  | lookup d name found m =>
    obtain ⟨q, hq, rfl⟩ := Option.map_eq_some_iff.mp hs
    have hlookup : c.lookup d name found m = some (q.1, q.2) := hq
    exact h.lookup hlookup
  | create d name found m created m' => exact h.create hs
  | link src d name found m linked m' => exact h.link hs
  | remove d name found m unlinked =>
    obtain ⟨q, hq, rfl⟩ := Option.map_eq_some_iff.mp hs
    have hremove : c.remove d name found m unlinked = some (q.1, q.2) := hq
    exact h.remove hkeeps hremove
  | rename r => exact h.rename ((Bool.and_eq_true _ _).mp hkeeps).2 hs
  | readdir d renewed r => exact h.readdir hkeeps hs
  | gc a => exact h.gcSuppress hs
  | kill a => exact h.kill hkeeps hs
  | valid a lruEntry =>
    cases hs
    obtain rfl : lruEntry = true := hkeeps
    exact h.setValid a

end InodeCache

end CloudNfs
