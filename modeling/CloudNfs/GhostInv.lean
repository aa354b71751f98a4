import CloudNfs.DotTree
import CloudNfs.GhostFs
import Mathlib.Algebra.Order.BigOperators.Group.Finset
import Mathlib.Data.Set.Card

/-!
# The invariant of the ghost file system

* `Has` — an entry of a directory, with its handle. What an operation does is said by the entries
  there are then (`Lists.addDirEntry`, `Lists.remove`, …).
* `Inv` — the lists are in order, entries designate live items, the directories are a `DotTree`, and
  a link count is the number of places where the item is found. It makes the file system a tree
  (`Inv.isTree`).
* Each change keeps it: a file is created, linked, unlinked and freed, a directory is made and
  removed, and anything is moved (`IsMove`).
-/

namespace CloudNfs.GhostFs

variable {name : Name}

theorem clip_eq_of_length (h : name.length ≤ maxFilename) : clip name = name :=
  List.take_of_length_le h

theorem clip_dot : clip dot = dot := rfl

theorem clip_dotDot : clip dotDot = dotDot := rfl

theorem dot_ne_dotDot : dot ≠ dotDot := by decide

theorem clip_ne {other : Name} (hother : other.length < maxFilename) (hne : name ≠ other) :
    clip name ≠ other := by
  intro heq
  have hlength : min maxFilename name.length = other.length := by
    rw [← heq]
    exact List.length_take.symm
  have hle : name.length ≤ maxFilename := by omega
  exact hne ((clip_eq_of_length hle).symm.trans heq)

theorem clip_of_isNameOk (h : isNameOk name = true) : clip name ≠ dot ∧ clip name ≠ dotDot := by
  simp only [isNameOk, Bool.and_eq_true, decide_eq_true_eq] at h
  exact ⟨clip_ne (by decide) h.1.1.2, clip_ne (by decide) h.1.2⟩

namespace Fs

variable {s t : Fs} {d a p q x : ℕ} {name n b : Name} {handle handle' k : Handle} {type : ItemType}

/-- An entry of a directory, with its handle. -/
def Has (s : Fs) (d : ℕ) (name : Name) (handle : Handle) : Prop :=
  ∃ e ∈ s.entries d, e.name = name ∧ e.handle = handle

theorem entry_iff : s.Entry d name a ↔ ∃ handle, s.Has d name handle ∧ handle.inode = a := by
  constructor
  · rintro ⟨e, he, hname, ha⟩
    exact ⟨e.handle, ⟨e, he, hname, rfl⟩, ha⟩
  · rintro ⟨_, ⟨e, he, hname, rfl⟩, ha⟩
    exact ⟨e, he, hname, ha⟩

def DirEntry (s : Fs) (d : ℕ) (name : Name) (a : ℕ) : Prop := s.Entry d name a ∧ s.IsDir a

/-- The places where an item is found. -/
def places (s : Fs) (a : ℕ) : Set (ℕ × Name) := {place | s.Entry place.1 place.2 a}

theorem mem_places : (d, n) ∈ s.places a ↔ ∃ k, s.Has d n k ∧ k.inode = a := entry_iff

theorem places_congr (h : ∀ d n k, k.inode = a → (t.Has d n k ↔ s.Has d n k)) :
    t.places a = s.places a := by
  ext ⟨d, n⟩
  rw [mem_places, mem_places]
  exact exists_congr fun k => and_congr_left fun hk => h d n k hk

/-! ## Lists -/

def Lists (s : Fs) : Prop := ∀ d, (s.dir d).Ok s.freshDirent

theorem Lists.functional (h : s.Lists) (hhas : s.Has d name handle)
    (hhas' : s.Has d name handle') : handle = handle' := by
  obtain ⟨e, he, hname, rfl⟩ := hhas
  obtain ⟨e', he', hname', rfl⟩ := hhas'
  rw [(h d).eq_of_name he he' (hname.trans hname'.symm)]

theorem Lists.find_eq_some (h : s.Lists) :
    (s.dir d).find name = some handle ↔ s.Has d (clip name) handle := by
  constructor
  · exact Dir.find_eq_some
  · rintro ⟨e, he, hname, rfl⟩
    exact (h d).find he hname

theorem find_eq_none : (s.dir d).find name = none ↔ ∀ handle, ¬ s.Has d (clip name) handle := by
  rw [Dir.find_eq_none]
  constructor
  · rintro h handle ⟨e, he, hname, -⟩
    exact h e he hname
  · exact fun h e he hname => h e.handle ⟨e, he, hname, rfl⟩

theorem isEmpty_iff : (s.dir d).isEmpty = true ↔
    ∀ name handle, s.Has d name handle → name = dot ∨ name = dotDot := by
  simp only [Dir.isEmpty, List.all_eq_true, Bool.or_eq_true, decide_eq_true_eq]
  constructor
  · rintro h _ _ ⟨e, he, rfl, -⟩
    exact h e he
  · exact fun h e he => h e.name e.handle ⟨e, he, rfl, rfl⟩

variable {dir : Dir} {magic c : UInt32}

theorem has_setDir : (s.setDir a dir).Has d n k ↔
    (d = a ∧ ∃ e ∈ dir.direntries, e.name = n ∧ e.handle = k) ∨ d ≠ a ∧ s.Has d n k := by
  by_cases hd : d = a
  · subst hd
    simp [Has, entries, setDir]
  · simp [Has, entries, setDir, hd]

theorem Lists.setDir (h : s.Lists) (hdir : dir.Ok s.freshDirent) : (s.setDir a dir).Lists := by
  intro d
  by_cases hd : d = a
  · subst hd
    simpa [Fs.setDir] using hdir
  · simpa [Fs.setDir, hd] using h d

theorem Lists.addDirEntry (h : s.Lists) (a : ℕ) (handle : Handle) (name : Name)
    (hnew : ∀ k, ¬ s.Has a (clip name) k) :
    (s.addDirEntry a handle name).Lists ∧ ∀ d n k, (s.addDirEntry a handle name).Has d n k ↔
      s.Has d n k ∨ d = a ∧ n = clip name ∧ k = handle := by
  have hname : ∀ e ∈ (s.dir a).direntries, e.name ≠ clip name :=
    fun e he heq => hnew e.handle ⟨e, he, heq, rfl⟩
  obtain ⟨hentries, hok⟩ := (h a).add handle hname
  refine ⟨?_, ?_⟩
  · intro d
    by_cases hd : d = a
    · subst hd
      simpa [Fs.addDirEntry] using hok
    · simpa [Fs.addDirEntry, hd] using (h d).mono (Nat.le_succ _)
  · intro d n k
    by_cases hd : d = a
    · subst hd
      simp only [Has, entries, Fs.addDirEntry, Function.update_self, hentries, List.mem_append,
        List.mem_singleton, true_and]
      constructor
      · rintro ⟨e, he | rfl, hn, hk⟩
        · exact .inl ⟨e, he, hn, hk⟩
        · exact .inr ⟨hn.symm, hk.symm⟩
      · rintro (⟨e, he, hn, hk⟩ | ⟨rfl, rfl⟩)
        · exact ⟨e, .inl he, hn, hk⟩
        · exact ⟨_, .inr rfl, rfl, rfl⟩
    · simp [Has, entries, Fs.addDirEntry, hd]

theorem Lists.remove (h : s.Lists) (hhas : s.Has a (clip name) handle) :
    ∃ dir, (s.dir a).remove name = some dir ∧ (s.setDir a dir).Lists ∧
      ∀ d n k, (s.setDir a dir).Has d n k ↔ s.Has d n k ∧ ¬ (d = a ∧ n = clip name) := by
  obtain ⟨e, he, hname, -⟩ := hhas
  obtain ⟨dir, hremove, hok, hentries⟩ := (h a).remove ⟨e, he, hname⟩
  refine ⟨dir, hremove, h.setDir hok, fun d n k => ?_⟩
  rw [has_setDir, hentries]
  simp only [List.mem_filter, decide_eq_true_eq]
  constructor
  · rintro (⟨rfl, e, ⟨he, hne⟩, rfl, rfl⟩ | ⟨hd, hhas⟩)
    · exact ⟨⟨e, he, rfl, rfl⟩, fun hold => hne hold.2⟩
    · exact ⟨hhas, fun hold => hd hold.1⟩
  · rintro ⟨⟨e', he', rfl, rfl⟩, hold⟩
    by_cases hd : d = a
    · subst hd
      exact .inl ⟨rfl, e', ⟨he', fun hn => hold ⟨rfl, hn⟩⟩, rfl, rfl⟩
    · exact .inr ⟨hd, e', he', rfl, rfl⟩

theorem Lists.rename (h : s.Lists) (hhas : s.Has a (clip name) handle)
    (hnew : ∀ k, ¬ s.Has a (clip b) k) :
    ∃ dir, (s.dir a).rename name b = some dir ∧ (s.setDir a dir).Lists ∧
      ∀ d n k, (s.setDir a dir).Has d n k ↔ s.Has d n k ∧ ¬ (d = a ∧ n = clip name) ∨
        d = a ∧ n = clip b ∧ k = handle := by
  have hfunctional : ∀ k, s.Has a (clip name) k → k = handle :=
    fun k hk => h.functional hk hhas
  obtain ⟨e, he, hname, rfl⟩ := hhas
  have hname' : ∀ e ∈ (s.dir a).direntries, e.name ≠ clip b :=
    fun e he heq => hnew e.handle ⟨e, he, heq, rfl⟩
  obtain ⟨hrename, hok⟩ := (h a).rename ⟨e, he, hname⟩ hname'
  refine ⟨_, hrename, h.setDir hok, fun d n k => ?_⟩
  rw [has_setDir]
  simp only [List.mem_map, renamed]
  constructor
  · rintro (⟨rfl, _, ⟨e', he', rfl⟩, rfl, rfl⟩ | ⟨hd, hhas⟩)
    · split
      next hold => exact .inr ⟨rfl, rfl, hfunctional _ ⟨e', he', hold, rfl⟩⟩
      next hold => exact .inl ⟨⟨e', he', rfl, rfl⟩, fun hn => hold hn.2⟩
    · exact .inl ⟨hhas, fun hold => hd hold.1⟩
  · rintro (⟨⟨e', he', rfl, rfl⟩, hold⟩ | ⟨rfl, rfl, rfl⟩)
    · by_cases hd : d = a
      · subst hd
        refine .inl ⟨rfl, e', ⟨e', he', if_neg fun hn => hold ⟨rfl, hn⟩⟩, rfl, rfl⟩
      · exact .inr ⟨hd, e', he', rfl, rfl⟩
    · exact .inl ⟨rfl, _, ⟨e, he, if_pos hname⟩, rfl, rfl⟩

theorem Lists.changeHandle (handle : Handle) (h : s.Lists) (hhas : s.Has a (clip name) handle') :
    ∃ dir, (s.dir a).changeHandle name handle = some dir ∧ (s.setDir a dir).Lists ∧
      ∀ d n k, (s.setDir a dir).Has d n k ↔ s.Has d n k ∧ ¬ (d = a ∧ n = clip name) ∨
        d = a ∧ n = clip name ∧ k = handle := by
  obtain ⟨e, he, hname, -⟩ := hhas
  obtain ⟨hchange, hok⟩ := (h a).changeHandle handle ⟨e, he, hname⟩
  refine ⟨_, hchange, h.setDir hok, fun d n k => ?_⟩
  rw [has_setDir]
  simp only [List.mem_map, withHandle]
  constructor
  · rintro (⟨rfl, _, ⟨e', he', rfl⟩, rfl, rfl⟩ | ⟨hd, hhas⟩)
    · split
      next hold => exact .inr ⟨rfl, hold, rfl⟩
      next hold => exact .inl ⟨⟨e', he', rfl, rfl⟩, fun hn => hold hn.2⟩
    · exact .inl ⟨hhas, fun hold => hd hold.1⟩
  · rintro (⟨⟨e', he', rfl, rfl⟩, hold⟩ | ⟨rfl, rfl, rfl⟩)
    · by_cases hd : d = a
      · subst hd
        refine .inl ⟨rfl, e', ⟨e', he', if_neg fun hn => hold ⟨rfl, hn⟩⟩, rfl, rfl⟩
      · exact .inr ⟨hd, e', he', rfl, rfl⟩
    · exact .inl ⟨rfl, _, ⟨e, he, if_pos hname⟩, hname, rfl⟩

theorem Lists.empty {dir : ℕ → Dir} (h : s.Lists)
    (hdir : dir = Function.update s.dir a ⟨[], none⟩) (d : ℕ) : (dir d).Ok s.freshDirent := by
  subst hdir
  by_cases hd : d = a
  · subst hd
    simpa using Dir.ok_nil
  · simpa [hd] using h d

theorem has_createNew : (s.createNew type magic).Has d n k ↔ s.Has d n k ∧ d ≠ s.fresh := by
  by_cases hd : d = s.fresh
  · subst hd
    simp [Has, entries, createNew]
  · simp [Has, entries, createNew, hd]

theorem has_free : (s.free a).Has d n k ↔ s.Has d n k ∧ d ≠ a := by
  by_cases hd : d = a
  · subst hd
    simp [Has, entries, free]
  · simp [Has, entries, free, hd]

/-! ## The invariant -/

/-- **The invariant.** -/
structure Inv (s : Fs) : Prop where
  bound : ∀ {a x}, s.live a = some x → 0 < a ∧ a < s.fresh
  lists : s.Lists
  source : ∀ {d name handle}, s.Has d name handle → s.IsDir d
  designates : ∀ {d name handle}, s.Has d name handle →
    ∃ type, s.live handle.inode = some (type, handle.magic)
  /-- and directories as `.` and `..` -/
  special : ∀ {d name handle}, s.Has d name handle → name = dot ∨ name = dotDot →
    s.IsDir handle.inode
  tree : DotTree dot dotDot {d | s.IsDir d} s.root s.DirEntry
  linkcount : ∀ {a type magic}, s.live a = some (type, magic) → type ≠ .dir →
    (s.linkcount a).toNat = (s.places a).ncard

theorem live_of_getEntry (hget : s.getEntry k = some type) :
    s.live k.inode = some (type, k.magic) := by
  rw [getEntry] at hget
  split at hget
  · cases hget
  cases hlive : s.live k.inode with
  | none =>
    rw [hlive] at hget
    cases hget
  | some x =>
    obtain ⟨type', magic⟩ := x
    simp only [hlive] at hget
    split at hget
    next hmagic => rw [← Option.some.inj hget, ← hmagic]
    next => cases hget

theorem not_isDir (hlive : s.live a = some (type, magic)) (htype : type ≠ .dir) : ¬ s.IsDir a := by
  rintro ⟨magic', hdir⟩
  rw [hlive] at hdir
  exact htype (Prod.mk.inj (Option.some.inj hdir)).1

/-- The places in one directory. -/
def placesIn (s : Fs) (a d : ℕ) : Finset (ℕ × Name) :=
  (((s.entries d).filter fun e => e.handle.inode = a).map fun e => (d, e.name)).toFinset

theorem mem_placesIn {place : ℕ × Name} :
    place ∈ s.placesIn a d ↔ place.1 = d ∧ s.Entry d place.2 a := by
  obtain ⟨d', n⟩ := place
  simp only [placesIn, List.mem_toFinset, List.mem_map, List.mem_filter, decide_eq_true_eq,
    Prod.mk.injEq]
  constructor
  · rintro ⟨e, ⟨he, ha⟩, rfl, rfl⟩
    exact ⟨rfl, e, he, rfl, ha⟩
  · rintro ⟨rfl, e, he, rfl, ha⟩
    exact ⟨e, ⟨he, ha⟩, rfl, rfl⟩

theorem card_placesIn (h : s.Lists) : (s.placesIn a d).card =
    (s.entries d).countP fun e => e.handle.inode = a := by
  rw [placesIn, List.toFinset_card_of_nodup, List.length_map, ← List.countP_eq_length_filter]
  refine List.Nodup.map_on ?_ ((h d).names.of_map.filter _)
  intro e he e' he' heq
  exact (h d).eq_of_name (List.mem_filter.mp he).1 (List.mem_filter.mp he').1
    (Prod.mk.inj heq).2

namespace Inv

variable (h : s.Inv)

include h

theorem getEntry_eq_some : s.getEntry k = some type ↔ s.live k.inode = some (type, k.magic) := by
  refine ⟨live_of_getEntry, fun hlive => ?_⟩
  rw [getEntry, if_neg (Nat.ne_of_gt (h.bound hlive).1), hlive]
  exact if_pos rfl

theorem handle_eq (hhas : s.Has d n k) (hlive : s.live handle.inode = some (type, handle.magic))
    (hinode : k.inode = handle.inode) : k = handle := by
  obtain ⟨type', hlive'⟩ := h.designates hhas
  rw [hinode, hlive] at hlive'
  obtain ⟨inode, magic⟩ := k
  obtain ⟨inode', magic'⟩ := handle
  cases hinode
  cases hlive'
  rfl

theorem ne_fresh (hhas : s.Has d n k) : d ≠ s.fresh := by
  obtain ⟨magic, hlive⟩ := h.source hhas
  exact Nat.ne_of_lt (h.bound hlive).2

theorem places_eq : s.places a = ↑((Finset.range s.fresh).biUnion (s.placesIn a)) := by
  ext ⟨d, n⟩
  simp only [Finset.coe_biUnion, Set.mem_iUnion, Finset.mem_coe, mem_placesIn, Finset.mem_range,
    exists_prop]
  constructor
  · intro hentry
    obtain ⟨k, hhas, -⟩ := entry_iff.mp hentry
    obtain ⟨magic, hlive⟩ := h.source hhas
    exact ⟨d, (h.bound hlive).2, rfl, hentry⟩
  · rintro ⟨d', -, rfl, hentry⟩
    exact hentry

theorem places_finite : (s.places a).Finite := by
  rw [h.places_eq]
  exact Finset.finite_toSet _

theorem ncard_places : (s.places a).ncard = s.links a := by
  rw [h.places_eq, Set.ncard_coe_finset, Finset.card_biUnion]
  · exact Finset.sum_congr rfl fun d _ => card_placesIn h.lists
  · intro d _ d' _ hne
    rw [Function.onFun, Finset.disjoint_left]
    intro place hplace hplace'
    exact hne ((mem_placesIn.mp hplace).1.symm.trans (mem_placesIn.mp hplace').1)

theorem isTree : IsTree s := by
  refine ⟨fun d _ => (h.lists d).names, ?_, ?_, ?_, ?_, ?_, ?_, fun d _ => (h.lists d).last⟩
  · intro d _ e he
    obtain ⟨type, hlive⟩ := h.designates ⟨e, he, rfl, rfl⟩
    rw [h.getEntry_eq_some.mpr hlive]
    rfl
  · exact fun d hd => (h.tree.loop d hd).1
  · intro d hd hroot
    obtain ⟨a, ha, -⟩ := h.tree.above d hd hroot
    exact ⟨a, ha⟩
  · intro d a _ hentry
    obtain ⟨k, hhas, hk⟩ := entry_iff.mp hentry
    exact h.tree.parent ⟨hentry, hk ▸ h.special hhas (.inr rfl)⟩
  · exact fun d hd => h.tree.tree.existsUnique_path hd
  · intro a type magic hlive htype
    rw [h.linkcount hlive htype, h.ncard_places]

end Inv

/-! ## Files and links -/

theorem toNat_add_one (h : c.toNat + 1 < 2 ^ 32) : (c + 1).toNat = c.toNat + 1 := by
  rw [UInt32.toNat_add]
  exact Nat.mod_eq_of_lt h

theorem toNat_sub_one (h : 0 < c.toNat) : (c - 1).toNat = c.toNat - 1 :=
  UInt32.toNat_sub_of_le _ _ h

namespace Inv

variable (h : s.Inv)

include h

theorem tree_congr (hroot : t.root = s.root) (hdir : ∀ a, t.IsDir a ↔ s.IsDir a)
    (hhas : ∀ d n k, s.IsDir k.inode → (t.Has d n k ↔ s.Has d n k)) :
    DotTree dot dotDot {d | t.IsDir d} t.root t.DirEntry := by
  rw [hroot]
  refine h.tree.congr hdir fun d n a => ?_
  rw [DirEntry, DirEntry, hdir, entry_iff, entry_iff]
  refine and_congr_left fun ha => exists_congr fun k => ?_
  exact and_congr_left fun hk => hhas d n k (hk ▸ ha)

variable {magic : UInt32}

theorem has_createNew : (s.createNew type magic).Has d n k ↔ s.Has d n k := by
  rw [Fs.has_createNew]
  exact and_iff_left_of_imp h.ne_fresh

theorem live_fresh : s.live s.fresh = none := by
  cases hlive : s.live s.fresh with
  | none => rfl
  | some x => exact absurd (h.bound hlive).2 (Nat.lt_irrefl _)

theorem not_isDir_fresh : ¬ s.IsDir s.fresh := by
  rintro ⟨magic, hlive⟩
  exact Nat.lt_irrefl _ (h.bound hlive).2

variable {y : ItemType × UInt32}

theorem live_createNew (hlive : s.live a = some y) : (s.createNew type magic).live a = some y := by
  have ha : a ≠ s.fresh := Nat.ne_of_lt (h.bound hlive).2
  simpa [Fs.createNew, ha] using hlive

theorem bound_createNew (hpos : 0 < s.fresh) (hlive : (s.createNew type magic).live a = some y) :
    0 < a ∧ a < s.fresh + 1 := by
  by_cases ha : a = s.fresh
  · subst ha
    exact ⟨hpos, Nat.lt_succ_self _⟩
  · simp only [Fs.createNew, Function.update_of_ne ha] at hlive
    exact ⟨(h.bound hlive).1, Nat.lt_succ_of_lt (h.bound hlive).2⟩

theorem fresh_pos : 0 < s.fresh := by
  obtain ⟨magic, hlive⟩ := h.tree.tree.root
  exact Nat.lt_trans (h.bound hlive).1 (h.bound hlive).2

theorem createNew (htype : type ≠ .dir) : (s.createNew type magic).Inv := by
  have hdir : ∀ a, (s.createNew type magic).IsDir a ↔ s.IsDir a := by
    intro a
    by_cases ha : a = s.fresh
    · subst ha
      have hlive : (s.createNew type magic).live s.fresh = some (type, magic) := by
        simp [Fs.createNew]
      exact iff_of_false (not_isDir hlive htype) h.not_isDir_fresh
    · simp [IsDir, Fs.createNew, ha]
  refine ⟨h.bound_createNew h.fresh_pos, h.lists.empty rfl, ?_, ?_, ?_, ?_, ?_⟩
  · intro d n k hhas
    exact (hdir d).mpr (h.source (h.has_createNew.mp hhas))
  · intro d n k hhas
    obtain ⟨type', hlive⟩ := h.designates (h.has_createNew.mp hhas)
    exact ⟨type', h.live_createNew hlive⟩
  · intro d n k hhas hn
    exact (hdir k.inode).mpr (h.special (h.has_createNew.mp hhas) hn)
  · exact h.tree_congr rfl hdir fun d n k _ => h.has_createNew
  · intro a type' magic' hlive htype'
    have hplaces : (s.createNew type magic).places a = s.places a :=
      places_congr fun d n k _ => h.has_createNew
    rw [hplaces]
    by_cases ha : a = s.fresh
    · subst ha
      have hempty : s.places s.fresh = ∅ := by
        refine Set.eq_empty_of_forall_notMem fun place hplace => ?_
        obtain ⟨k, hhas, hk⟩ := entry_iff.mp hplace
        obtain ⟨type'', hlive'⟩ := h.designates hhas
        rw [hk, h.live_fresh] at hlive'
        cases hlive'
      rw [hempty, Set.ncard_empty]
      simp [Fs.createNew]
    · simp only [Fs.createNew, Function.update_of_ne ha] at hlive ⊢
      exact h.linkcount hlive htype'

theorem link (hp : s.IsDir p) (hlive : s.live handle.inode = some (type, handle.magic))
    (htype : type ≠ .dir) (hname : isNameOk name = true) (hnew : ∀ k, ¬ s.Has p (clip name) k)
    (hcount : (s.linkcount handle.inode).toNat + 1 < 2 ^ 32) :
    ((s.addDirEntry p handle name).incLink handle.inode).Inv := by
  obtain ⟨hlists, hhas⟩ := h.lists.addDirEntry p handle name hnew
  have hinode : ¬ s.IsDir handle.inode := not_isDir hlive htype
  refine ⟨h.bound, hlists, ?_, ?_, ?_, ?_, ?_⟩
  · intro d n k hk
    rcases (hhas d n k).mp hk with hk | ⟨rfl, -, -⟩
    · exact h.source hk
    · exact hp
  · intro d n k hk
    rcases (hhas d n k).mp hk with hk | ⟨-, -, rfl⟩
    · exact h.designates hk
    · exact ⟨type, hlive⟩
  · intro d n k hk hn
    rcases (hhas d n k).mp hk with hk | ⟨-, rfl, -⟩
    · exact h.special hk hn
    · rcases hn with hn | hn
      · exact absurd hn (clip_of_isNameOk hname).1
      · exact absurd hn (clip_of_isNameOk hname).2
  · refine h.tree_congr rfl (fun _ => Iff.rfl) fun d n k hk => (hhas d n k).trans ?_
    refine or_iff_left ?_
    rintro ⟨-, -, rfl⟩
    exact hinode hk
  · intro a type' magic' hlive' htype'
    by_cases ha : a = handle.inode
    · subst ha
      have hplaces : ((s.addDirEntry p handle name).incLink handle.inode).places handle.inode =
          insert (p, clip name) (s.places handle.inode) := by
        ext ⟨d, n⟩
        rw [Set.mem_insert_iff, Prod.mk.injEq, mem_places, mem_places]
        constructor
        · rintro ⟨k, hk, hinode⟩
          rcases (hhas d n k).mp hk with hk | ⟨rfl, rfl, -⟩
          · exact .inr ⟨k, hk, hinode⟩
          · exact .inl ⟨rfl, rfl⟩
        · rintro (⟨rfl, rfl⟩ | ⟨k, hk, hinode⟩)
          · exact ⟨handle, (hhas _ _ _).mpr (.inr ⟨rfl, rfl, rfl⟩), rfl⟩
          · exact ⟨k, (hhas d n k).mpr (.inl hk), hinode⟩
      have hnot : (p, clip name) ∉ s.places handle.inode := by
        intro hplace
        obtain ⟨k, hk, -⟩ := entry_iff.mp hplace
        exact hnew k hk
      rw [hplaces, Set.ncard_insert_of_notMem hnot h.places_finite,
        ← h.linkcount hlive htype]
      simpa [incLink, Fs.addDirEntry] using toNat_add_one hcount
    · have hplaces : ((s.addDirEntry p handle name).incLink handle.inode).places a =
          s.places a := by
        refine places_congr fun d n k hk => (hhas d n k).trans (or_iff_left ?_)
        rintro ⟨-, -, rfl⟩
        exact ha hk.symm
      rw [hplaces, ← h.linkcount hlive' htype']
      simp [incLink, Fs.addDirEntry, ha]

theorem unlinkFile {dir : Dir} (hp : s.Has p n handle)
    (hlive : s.live handle.inode = some (type, handle.magic)) (htype : type ≠ .dir)
    (hlists : (s.setDir p dir).Lists)
    (hhas : ∀ d m k, (s.setDir p dir).Has d m k ↔ s.Has d m k ∧ ¬ (d = p ∧ m = n)) :
    ((s.setDir p dir).decLink handle.inode).Inv := by
  have hinode : ¬ s.IsDir handle.inode := not_isDir hlive htype
  refine ⟨h.bound, hlists, fun hk => h.source ((hhas _ _ _).mp hk).1,
    fun hk => h.designates ((hhas _ _ _).mp hk).1,
    fun hk => h.special ((hhas _ _ _).mp hk).1, ?_, ?_⟩
  · refine h.tree_congr rfl (fun _ => Iff.rfl) fun d m k hk => (hhas d m k).trans ?_
    refine and_iff_left_of_imp fun hm => ?_
    rintro ⟨rfl, rfl⟩
    rw [h.lists.functional hm hp] at hk
    exact hinode hk
  · intro a type' magic' hlive' htype'
    by_cases ha : a = handle.inode
    · subst ha
      have hplaces : ((s.setDir p dir).decLink handle.inode).places handle.inode =
          s.places handle.inode \ {(p, n)} := by
        ext ⟨d, m⟩
        rw [Set.mem_sdiff, Set.mem_singleton_iff, Prod.mk.injEq, mem_places, mem_places]
        constructor
        · rintro ⟨k, hk, hinode⟩
          exact ⟨⟨k, ((hhas d m k).mp hk).1, hinode⟩, ((hhas d m k).mp hk).2⟩
        · rintro ⟨⟨k, hk, hinode⟩, hold⟩
          exact ⟨k, (hhas d m k).mpr ⟨hk, hold⟩, hinode⟩
      have hmem : (p, n) ∈ s.places handle.inode := entry_iff.mpr ⟨handle, hp, rfl⟩
      have hpos : 0 < (s.linkcount handle.inode).toNat := by
        rw [h.linkcount hlive htype]
        exact (Set.ncard_pos h.places_finite).mpr ⟨_, hmem⟩
      rw [hplaces, Set.ncard_sdiff_singleton_of_mem hmem, ← h.linkcount hlive htype]
      simpa [decLink, setDir] using toNat_sub_one hpos
    · have hplaces : ((s.setDir p dir).decLink handle.inode).places a = s.places a := by
        refine places_congr fun d m k hk => (hhas d m k).trans ?_
        refine and_iff_left_of_imp fun hm => ?_
        rintro ⟨rfl, rfl⟩
        rw [h.lists.functional hm hp] at hk
        exact ha hk.symm
      rw [hplaces, ← h.linkcount hlive' htype']
      simp [decLink, setDir, ha]

theorem freeFile (hlive : s.live a = some (type, magic)) (htype : type ≠ .dir)
    (hzero : s.linkcount a = 0) : (s.free a).Inv := by
  have hempty : s.places a = ∅ := by
    rw [← Set.ncard_eq_zero h.places_finite, ← h.linkcount hlive htype, hzero]
    rfl
  have hno : ∀ {d n k}, s.Has d n k → k.inode ≠ a := by
    intro d n k hk heq
    have hmem : (d, n) ∈ s.places a := entry_iff.mpr ⟨k, hk, heq⟩
    rw [hempty] at hmem
    exact hmem
  have hhas : ∀ {d n k}, (s.free a).Has d n k ↔ s.Has d n k := by
    intro d n k
    rw [has_free]
    refine and_iff_left_of_imp fun hk => ?_
    rintro rfl
    exact not_isDir hlive htype (h.source hk)
  have hdir : ∀ b, (s.free a).IsDir b ↔ s.IsDir b := by
    intro b
    by_cases hb : b = a
    · subst hb
      refine ⟨?_, fun hdir => absurd hdir (not_isDir hlive htype)⟩
      rintro ⟨magic', hdir⟩
      simp [free] at hdir
    · simp [IsDir, free, hb]
  refine ⟨?_, h.lists.empty rfl, fun hk => (hdir _).mpr (h.source (hhas.mp hk)), ?_,
    fun hk hn => (hdir _).mpr (h.special (hhas.mp hk) hn),
    h.tree_congr rfl hdir fun d n k _ => hhas, ?_⟩
  · intro b y hb
    by_cases hba : b = a
    · subst hba
      simp [free] at hb
    · simp only [free, Function.update_of_ne hba] at hb
      exact h.bound hb
  · intro d n k hk
    have hne := hno (hhas.mp hk)
    simpa [free, hne] using h.designates (hhas.mp hk)
  · intro b type' magic' hb htype'
    have hplaces : (s.free a).places b = s.places b := places_congr fun d n k _ => hhas
    by_cases hba : b = a
    · subst hba
      simp [free] at hb
    · simp only [free, Function.update_of_ne hba] at hb
      rw [hplaces]
      exact h.linkcount hb htype'

end Inv

/-! ## Directories -/

def withDir (s : Fs) (parent : Handle) (name : Name) (magic : UInt32) : Fs :=
  let s' := ((s.createNew .dir magic).addDirEntry s.fresh ⟨s.fresh, magic⟩ dot).incLink s.fresh
  let s' := (s'.addDirEntry s.fresh parent dotDot).incLink parent.inode
  (s'.addDirEntry parent.inode ⟨s.fresh, magic⟩ name).incLink s.fresh

theorem Lists.withDir (h : s.Lists) (magic : UInt32) (hname : isNameOk name = true)
    (hnew : ∀ k, ¬ s.Has handle.inode (clip name) k) :
    (s.withDir handle name magic).Lists ∧ ∀ d n k, (s.withDir handle name magic).Has d n k ↔
      s.Has d n k ∧ d ≠ s.fresh ∨
        d = s.fresh ∧ (n = dot ∧ k = ⟨s.fresh, magic⟩ ∨ n = dotDot ∧ k = handle) ∨
        d = handle.inode ∧ n = clip name ∧ k = ⟨s.fresh, magic⟩ := by
  let x : Handle := ⟨s.fresh, magic⟩
  obtain ⟨hdot, hdotDot⟩ := clip_of_isNameOk hname
  have hcreate : (s.createNew .dir magic).Lists := h.empty rfl
  obtain ⟨hlists, hhas⟩ := hcreate.addDirEntry s.fresh x dot
    fun k hk => (has_createNew.mp hk).2 rfl
  obtain ⟨hlists', hhas'⟩ := Lists.addDirEntry
    (s := ((s.createNew .dir magic).addDirEntry s.fresh x dot).incLink s.fresh)
    hlists s.fresh handle dotDot (by
      intro k hk
      rcases (hhas _ _ _).mp hk with hk | ⟨-, hname, -⟩
      · exact (has_createNew.mp hk).2 rfl
      · exact dot_ne_dotDot hname.symm)
  obtain ⟨hlists'', hhas''⟩ := Lists.addDirEntry
    (s := ((((s.createNew .dir magic).addDirEntry s.fresh x dot).incLink s.fresh).addDirEntry
      s.fresh handle dotDot).incLink handle.inode)
    hlists' handle.inode x name (by
      intro k hk
      rcases (hhas' _ _ _).mp hk with hk | ⟨-, heq, -⟩
      · rcases (hhas _ _ _).mp hk with hk | ⟨-, heq, -⟩
        · exact hnew k (has_createNew.mp hk).1
        · exact hdot heq
      · exact hdotDot heq)
  refine ⟨hlists'', fun d n k => (hhas'' d n k).trans ?_⟩
  have hstep := (hhas' d n k).trans (or_congr_left ((hhas d n k).trans
    (or_congr_left has_createNew)))
  rw [clip_dot, clip_dotDot] at hstep
  refine (or_congr_left hstep).trans ?_
  constructor
  · rintro (((hk | ⟨rfl, hdot⟩) | ⟨rfl, hdotDot⟩) | hname)
    · exact .inl hk
    · exact .inr (.inl ⟨rfl, .inl hdot⟩)
    · exact .inr (.inl ⟨rfl, .inr hdotDot⟩)
    · exact .inr (.inr hname)
  · rintro (hk | ⟨rfl, hdot | hdotDot⟩ | hname)
    · exact .inl (.inl (.inl hk))
    · exact .inl (.inl (.inr ⟨rfl, hdot⟩))
    · exact .inl (.inr ⟨rfl, hdotDot⟩)
    · exact .inr hname

namespace Inv

variable (h : s.Inv)

include h

theorem has_withDir (magic : UInt32) (hname : isNameOk name = true)
    (hnew : ∀ k, ¬ s.Has handle.inode (clip name) k) :
    (s.withDir handle name magic).Lists ∧ ∀ d n k, (s.withDir handle name magic).Has d n k ↔
      s.Has d n k ∨ d = s.fresh ∧ (n = dot ∧ k = ⟨s.fresh, magic⟩ ∨ n = dotDot ∧ k = handle) ∨
        d = handle.inode ∧ n = clip name ∧ k = ⟨s.fresh, magic⟩ := by
  obtain ⟨hlists, hhas⟩ := h.lists.withDir magic hname hnew
  refine ⟨hlists, fun d n k => (hhas d n k).trans (or_congr_left ?_)⟩
  exact and_iff_left_of_imp h.ne_fresh

theorem withDir {magic : UInt32} (hp : s.live handle.inode = some (.dir, handle.magic))
    (hname : isNameOk name = true) (hnew : ∀ k, ¬ s.Has handle.inode (clip name) k) :
    (s.withDir handle name magic).Inv := by
  obtain ⟨hlists, hhas⟩ := h.has_withDir magic hname hnew
  have hlive : (s.withDir handle name magic).live = (s.createNew .dir magic).live := rfl
  have hdir : ∀ a, (s.withDir handle name magic).IsDir a ↔ a = s.fresh ∨ s.IsDir a := by
    intro a
    rw [IsDir, hlive]
    by_cases ha : a = s.fresh
    · subst ha
      simp [Fs.createNew]
    · simp [IsDir, Fs.createNew, ha]
  refine ⟨h.bound_createNew h.fresh_pos, hlists, ?_, ?_, ?_, ?_, ?_⟩
  · intro d n k hk
    rw [hdir]
    rcases (hhas d n k).mp hk with hk | ⟨rfl, -⟩ | ⟨rfl, -, -⟩
    · exact .inr (h.source hk)
    · exact .inl rfl
    · exact .inr ⟨_, hp⟩
  · intro d n k hk
    rw [hlive]
    have hself : (s.createNew .dir magic).live s.fresh = some (.dir, magic) := by
      simp [Fs.createNew]
    rcases (hhas d n k).mp hk with hk | ⟨-, ⟨-, rfl⟩ | ⟨-, rfl⟩⟩ | ⟨-, -, rfl⟩
    · obtain ⟨type', hlive'⟩ := h.designates hk
      exact ⟨type', h.live_createNew hlive'⟩
    · exact ⟨.dir, hself⟩
    · exact ⟨.dir, h.live_createNew hp⟩
    · exact ⟨.dir, hself⟩
  · intro d n k hk hn
    rw [hdir]
    rcases (hhas d n k).mp hk with hk | ⟨-, ⟨-, rfl⟩ | ⟨-, rfl⟩⟩ | ⟨-, -, rfl⟩
    · exact .inr (h.special hk hn)
    · exact .inl rfl
    · exact .inr ⟨_, hp⟩
    · exact .inl rfl
  · have hfree : ∀ w, ¬ s.DirEntry handle.inode (clip name) w := by
      intro w hw
      obtain ⟨k, hk, -⟩ := entry_iff.mp hw.1
      exact hnew k hk
    have htree := h.tree.insert ⟨_, hp⟩ h.not_isDir_fresh dot_ne_dotDot
      (clip_of_isNameOk hname).1 (clip_of_isNameOk hname).2 hfree
    refine htree.congr hdir fun d n a => ?_
    rw [DirEntry, entry_iff, hdir]
    constructor
    · rintro ⟨⟨k, hk, rfl⟩, ha⟩
      rcases (hhas d n k).mp hk with hk | ⟨rfl, ⟨rfl, rfl⟩ | ⟨rfl, rfl⟩⟩ | ⟨rfl, rfl, rfl⟩
      · obtain ⟨type', hlive'⟩ := h.designates hk
        have hne : k.inode ≠ s.fresh := Nat.ne_of_lt (h.bound hlive').2
        exact .inl ⟨entry_iff.mpr ⟨k, hk, rfl⟩, ha.resolve_left hne⟩
      · exact .inr (.inl ⟨rfl, .inl ⟨rfl, rfl⟩⟩)
      · exact .inr (.inl ⟨rfl, .inr ⟨rfl, rfl⟩⟩)
      · exact .inr (.inr ⟨rfl, rfl, rfl⟩)
    · rintro (⟨hentry, ha⟩ | ⟨rfl, ⟨rfl, rfl⟩ | ⟨rfl, rfl⟩⟩ | ⟨rfl, rfl, rfl⟩)
      · obtain ⟨k, hk, hinode⟩ := entry_iff.mp hentry
        exact ⟨⟨k, (hhas d n k).mpr (.inl hk), hinode⟩, .inr ha⟩
      · exact ⟨⟨_, (hhas _ _ _).mpr (.inr (.inl ⟨rfl, .inl ⟨rfl, rfl⟩⟩)), rfl⟩, .inl rfl⟩
      · exact ⟨⟨_, (hhas _ _ _).mpr (.inr (.inl ⟨rfl, .inr ⟨rfl, rfl⟩⟩)), rfl⟩,
          Or.inr ⟨_, hp⟩⟩
      · exact ⟨⟨_, (hhas _ _ _).mpr (.inr (.inr ⟨rfl, rfl, rfl⟩)), rfl⟩, .inl rfl⟩
  · intro a type magic' ha htype
    have hfile : ¬ (s.withDir handle name magic).IsDir a := not_isDir ha htype
    rw [hdir, not_or] at hfile
    have hplaces : (s.withDir handle name magic).places a = s.places a := by
      refine places_congr fun d n k hk => (hhas d n k).trans (or_iff_left ?_)
      rintro (⟨-, ⟨-, rfl⟩ | ⟨-, rfl⟩⟩ | ⟨-, -, rfl⟩)
      · exact hfile.1 hk.symm
      · exact hfile.2 (hk ▸ ⟨_, hp⟩)
      · exact hfile.1 hk.symm
    have hparent : a ≠ handle.inode := by
      rintro rfl
      exact hfile.2 ⟨_, hp⟩
    have hlive' : s.live a = some (type, magic') := by
      rw [hlive] at ha
      simpa [Fs.createNew, hfile.1] using ha
    rw [hplaces, ← h.linkcount hlive' htype]
    simp [Fs.withDir, incLink, Fs.addDirEntry, Fs.createNew, hfile.1, hparent]

theorem removeDir {dir : Dir} (hp : s.Has p n handle) (hx : s.IsDir handle.inode) (hn : n ≠ dot)
    (hn' : n ≠ dotDot) (hempty : ∀ m k, s.Has handle.inode m k → m = dot ∨ m = dotDot)
    (hlists : (s.setDir p dir).Lists)
    (hhas : ∀ d m k, (s.setDir p dir).Has d m k ↔ s.Has d m k ∧ ¬ (d = p ∧ m = n)) :
    (((s.setDir p dir).decLink p).free handle.inode).Inv ∧
      ∀ d m k, (((s.setDir p dir).decLink p).free handle.inode).Has d m k ↔
        s.Has d m k ∧ d ≠ handle.inode ∧ k.inode ≠ handle.inode := by
  have hchild : Named dot dotDot s.DirEntry p n handle.inode :=
    ⟨⟨entry_iff.mpr ⟨handle, hp, rfl⟩, hx⟩, hn, hn'⟩
  have hleaf : ∀ m w, ¬ Named dot dotDot s.DirEntry handle.inode m w := by
    rintro m w ⟨⟨hentry, -⟩, hm, hm'⟩
    obtain ⟨k, hk, -⟩ := entry_iff.mp hentry
    rcases hempty m k hk with rfl | rfl
    · exact hm rfl
    · exact hm' rfl
  have hroot : handle.inode ≠ s.root := by
    intro heq
    rw [heq] at hchild
    exact h.tree.tree.noParent hchild
  -- where the directory is found
  have hfound : ∀ {d m k}, s.Has d m k → k.inode = handle.inode → d ≠ handle.inode →
      d = p ∧ m = n := by
    intro d m k hk hinode hd
    have hentry : s.DirEntry d m handle.inode := ⟨entry_iff.mpr ⟨k, hk, hinode⟩, hx⟩
    by_cases hm : m = dot
    · rw [hm] at hentry
      exact absurd (h.tree.functional (h.tree.loop d (h.source hk)) hentry) hd
    by_cases hm' : m = dotDot
    · rw [hm'] at hentry
      rcases h.tree.parent hentry with ⟨l, hl⟩ | ⟨-, heq⟩
      · exact absurd hl (hleaf l d)
      · exact absurd heq hroot
    · exact h.tree.tree.parent ⟨hentry, hm, hm'⟩ hchild
  have hhas' : ∀ d m k, (((s.setDir p dir).decLink p).free handle.inode).Has d m k ↔
      s.Has d m k ∧ d ≠ handle.inode ∧ k.inode ≠ handle.inode := by
    intro d m k
    refine has_free.trans ((and_congr_left' (hhas d m k)).trans ?_)
    constructor
    · rintro ⟨⟨hk, hold⟩, hd⟩
      exact ⟨hk, hd, fun hinode => hold (hfound hk hinode hd)⟩
    · rintro ⟨hk, hd, hinode⟩
      refine ⟨⟨hk, ?_⟩, hd⟩
      rintro ⟨rfl, rfl⟩
      rw [h.lists.functional hk hp] at hinode
      exact hinode rfl
  have hlive : ∀ {a}, a ≠ handle.inode →
      (((s.setDir p dir).decLink p).free handle.inode).live a = s.live a := by
    intro a ha
    simp [free, decLink, setDir, ha]
  have hgone : (((s.setDir p dir).decLink p).free handle.inode).live handle.inode = none := by
    simp [free]
  have hdir : ∀ a, (((s.setDir p dir).decLink p).free handle.inode).IsDir a ↔
      s.IsDir a ∧ a ≠ handle.inode := by
    intro a
    by_cases ha : a = handle.inode
    · rw [IsDir, ha, hgone]
      simp
    · rw [IsDir, hlive ha]
      exact (and_iff_left ha).symm
  refine ⟨⟨?_, Lists.empty (s := (s.setDir p dir).decLink p) hlists rfl, ?_, ?_, ?_, ?_, ?_⟩,
    hhas'⟩
  · intro a y ha
    by_cases hax : a = handle.inode
    · rw [hax, hgone] at ha
      cases ha
    · rw [hlive hax] at ha
      exact h.bound ha
  · intro d m k hk
    obtain ⟨hk, hd, -⟩ := (hhas' d m k).mp hk
    exact (hdir d).mpr ⟨h.source hk, hd⟩
  · intro d m k hk
    obtain ⟨hk, -, hinode⟩ := (hhas' d m k).mp hk
    rw [hlive hinode]
    exact h.designates hk
  · intro d m k hk hm
    obtain ⟨hk, -, hinode⟩ := (hhas' d m k).mp hk
    exact (hdir k.inode).mpr ⟨h.special hk hm, hinode⟩
  · refine (h.tree.erase hroot hleaf).congr hdir fun d m a => ?_
    rw [DirEntry, entry_iff, hdir, DirEntry, entry_iff]
    constructor
    · rintro ⟨⟨k, hk, rfl⟩, ha⟩
      obtain ⟨hk, hd, hinode⟩ := (hhas' d m k).mp hk
      exact ⟨⟨⟨k, hk, rfl⟩, ha.1⟩, hd, hinode⟩
    · rintro ⟨⟨⟨k, hk, rfl⟩, ha⟩, hd, hinode⟩
      exact ⟨⟨k, (hhas' d m k).mpr ⟨hk, hd, hinode⟩, rfl⟩, ha, hinode⟩
  · intro a type magic ha htype
    have hax : a ≠ handle.inode := by
      rintro rfl
      rw [hgone] at ha
      cases ha
    rw [hlive hax] at ha
    have hfile : ¬ s.IsDir a := not_isDir ha htype
    have hplaces : (((s.setDir p dir).decLink p).free handle.inode).places a = s.places a := by
      refine places_congr fun d m k hk => (hhas' d m k).trans ?_
      refine and_iff_left_of_imp fun hm => ⟨?_, hk ▸ hax⟩
      rintro rfl
      exact hfile (hk ▸ h.special hm (hempty m k hm))
    have hap : a ≠ p := by
      rintro rfl
      exact hfile (h.source hp)
    rw [hplaces, ← h.linkcount ha htype]
    simp [free, decLink, setDir, hap]

end Inv

end Fs

end CloudNfs.GhostFs
