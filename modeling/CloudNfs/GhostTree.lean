import CloudNfs.GhostInv
import CloudNfs.Run

/-!
# The ghost file system stays a tree

* `staysTree_iff` — **the file system is a tree in every state of a run if and only if each call of
  the run is `Safe`**.
* `not_staysTree` — a directory is moved below itself.
-/

namespace CloudNfs
namespace GhostFs
namespace Fs

variable {s t : Fs} {d p : ℕ} {a b name : Name} {q x k handle src tgt : Handle} {type : ItemType}

/-! ## Moves -/

/-- The entry `a` of `p` for `x` becomes the entry `b` of `q`. For a directory, `..` is `q` then. -/
structure IsMove (s t : Fs) (p : ℕ) (a : Name) (q : Handle) (b : Name) (x : Handle)
    (type : ItemType) : Prop where
  root : t.root = s.root
  live : t.live = s.live
  fresh : t.fresh = s.fresh
  lists : t.Lists
  linkcount : ∀ f, ¬ s.IsDir f → t.linkcount f = s.linkcount f
  has : ∀ d n k, t.Has d n k ↔
    s.Has d n k ∧ ¬ (d = p ∧ n = a) ∧ ¬ (type = .dir ∧ d = x.inode ∧ n = dotDot) ∨
      d = q.inode ∧ n = b ∧ k = x ∨ type = .dir ∧ d = x.inode ∧ n = dotDot ∧ k = q

namespace IsMove

variable (hmove : IsMove s t p a q b x type) (h : s.Inv) (hfound : s.Has p a x)
  (hx : s.live x.inode = some (type, x.magic)) (hq : s.live q.inode = some (.dir, q.magic))

include hmove

theorem isDir (d : ℕ) : t.IsDir d ↔ s.IsDir d := by
  rw [IsDir, IsDir, hmove.live]

include h hx hq

theorem source (hk : t.Has d name k) : t.IsDir d := by
  rw [hmove.isDir]
  rcases (hmove.has d name k).mp hk with ⟨hk, -⟩ | ⟨rfl, -⟩ | ⟨htype, rfl, -⟩
  · exact h.source hk
  · exact ⟨_, hq⟩
  · exact ⟨_, htype ▸ hx⟩

omit h in
theorem dirEntry (htype : type = .dir) (d : ℕ) (n : Name) (w : ℕ) :
    t.DirEntry d n w ↔ DotMoved dotDot s.DirEntry p a q.inode b x.inode d n w := by
  rw [DirEntry, entry_iff, hmove.isDir]
  constructor
  · rintro ⟨⟨k, hk, rfl⟩, hw⟩
    rcases (hmove.has d n k).mp hk with ⟨hk, hold, hup⟩ | ⟨rfl, rfl, rfl⟩ | ⟨-, rfl, rfl, rfl⟩
    · exact .inl ⟨⟨entry_iff.mpr ⟨k, hk, rfl⟩, hw⟩, hold, fun hd => hup ⟨htype, hd⟩⟩
    · exact .inr (.inl ⟨rfl, rfl, rfl⟩)
    · exact .inr (.inr ⟨rfl, rfl, rfl⟩)
  · rintro (⟨⟨hentry, hw⟩, hold, hup⟩ | ⟨rfl, rfl, rfl⟩ | ⟨rfl, rfl, rfl⟩)
    · obtain ⟨k, hk, hinode⟩ := entry_iff.mp hentry
      exact ⟨⟨k, (hmove.has d n k).mpr (.inl ⟨hk, hold, fun hd => hup hd.2⟩), hinode⟩, hw⟩
    · exact ⟨⟨x, (hmove.has _ _ _).mpr (.inr (.inl ⟨rfl, rfl, rfl⟩)), rfl⟩, _, htype ▸ hx⟩
    · exact ⟨⟨q, (hmove.has _ _ _).mpr (.inr (.inr ⟨htype, rfl, rfl, rfl⟩)), rfl⟩, _, hq⟩

include hfound

theorem places_of_ne {f : ℕ} (hf : ¬ s.IsDir f) (hne : f ≠ x.inode) : t.places f = s.places f := by
  refine places_congr fun d n k hk => (hmove.has d n k).trans ?_
  constructor
  · rintro (⟨hhas, -⟩ | ⟨-, -, rfl⟩ | ⟨-, -, -, rfl⟩)
    · exact hhas
    · exact absurd hk.symm hne
    · exact absurd (hk ▸ ⟨_, hq⟩) hf
  · intro hhas
    refine .inl ⟨hhas, ?_, ?_⟩
    · rintro ⟨rfl, rfl⟩
      rw [h.lists.functional hhas hfound] at hk
      exact hne hk.symm
    · rintro ⟨-, -, rfl⟩
      exact hf (hk ▸ h.special hhas (.inr rfl))

omit h hx hq in
theorem ncard_places (htype : type ≠ .dir) (hfree : ∀ k, ¬ s.Has q.inode b k) :
    (t.places x.inode).ncard = (s.places x.inode).ncard := by
  have hplaces : t.places x.inode = insert (q.inode, b) (s.places x.inode \ {(p, a)}) := by
    ext ⟨d, n⟩
    rw [Set.mem_insert_iff, Set.mem_sdiff, Set.mem_singleton_iff, Prod.mk.injEq, Prod.mk.injEq,
      mem_places, mem_places]
    constructor
    · rintro ⟨k, hk, hinode⟩
      rcases (hmove.has d n k).mp hk with ⟨hk, hold, -⟩ | ⟨rfl, rfl, -⟩ | ⟨hdir, -⟩
      · exact .inr ⟨⟨k, hk, hinode⟩, hold⟩
      · exact .inl ⟨rfl, rfl⟩
      · exact absurd hdir htype
    · rintro (⟨rfl, rfl⟩ | ⟨⟨k, hk, hinode⟩, hold⟩)
      · exact ⟨x, (hmove.has _ _ _).mpr (.inr (.inl ⟨rfl, rfl, rfl⟩)), rfl⟩
      · exact ⟨k, (hmove.has d n k).mpr (.inl ⟨hk, hold, fun hup => htype hup.1⟩), hinode⟩
  rw [hplaces]
  refine Set.ncard_exchange ?_ (mem_places.mpr ⟨x, hfound, rfl⟩)
  intro hplace
  obtain ⟨k, hk, -⟩ := mem_places.mp hplace
  exact hfree k hk

theorem inv (ha : a ≠ dot ∧ a ≠ dotDot) (hb : b ≠ dot ∧ b ≠ dotDot)
    (hfree : ∀ k, ¬ s.Has q.inode b k)
    (hbelow : type = .dir → ∀ names, ¬ Path s.Child x.inode names q.inode) : t.Inv := by
  refine ⟨?_, hmove.lists, hmove.source h hx hq, ?_, ?_, ?_, ?_⟩
  · intro f y hf
    rw [hmove.live] at hf
    rw [hmove.fresh]
    exact h.bound hf
  · intro d n k hk
    rw [hmove.live]
    rcases (hmove.has d n k).mp hk with ⟨hk, -⟩ | ⟨-, -, rfl⟩ | ⟨-, -, -, rfl⟩
    · exact h.designates hk
    · exact ⟨_, hx⟩
    · exact ⟨_, hq⟩
  · intro d n k hk hn
    rw [hmove.isDir]
    rcases (hmove.has d n k).mp hk with ⟨hk, -⟩ | ⟨-, rfl, -⟩ | ⟨-, -, -, rfl⟩
    · exact h.special hk hn
    · exact absurd hn (not_or.mpr hb)
    · exact ⟨_, hq⟩
  · by_cases htype : type = .dir
    · have hdir : s.IsDir x.inode := ⟨_, htype ▸ hx⟩
      have hchild : Named dot dotDot s.DirEntry p a x.inode :=
        ⟨⟨entry_iff.mpr ⟨x, hfound, rfl⟩, hdir⟩, ha⟩
      have hnew : ∀ w, s.DirEntry q.inode b w → q.inode = p ∧ b = a := by
        intro w hw
        obtain ⟨k, hk, -⟩ := entry_iff.mp hw.1
        exact absurd hk (hfree k)
      rw [hmove.root]
      exact (h.tree.move hchild ⟨_, hq⟩ dot_ne_dotDot hb.1 hb.2 hnew (hbelow htype)).congr
        hmove.isDir (hmove.dirEntry hx hq htype)
    · refine h.tree_congr hmove.root hmove.isDir fun d n k hk => (hmove.has d n k).trans ?_
      have hfile : ¬ s.IsDir x.inode := not_isDir hx htype
      constructor
      · rintro (⟨hhas, -⟩ | ⟨-, -, rfl⟩ | ⟨hdir, -⟩)
        · exact hhas
        · exact absurd hk hfile
        · exact absurd hdir htype
      · intro hhas
        refine .inl ⟨hhas, ?_, fun hup => htype hup.1⟩
        rintro ⟨rfl, rfl⟩
        rw [h.lists.functional hhas hfound] at hk
        exact hfile hk
  · intro f type' magic hf htype'
    rw [hmove.live] at hf
    have hfile : ¬ s.IsDir f := not_isDir hf htype'
    rw [hmove.linkcount f hfile, h.linkcount hf htype']
    by_cases hfx : f = x.inode
    · subst hfx
      rw [hx] at hf
      have htype : type ≠ .dir := by
        rw [(Prod.mk.inj (Option.some.inj hf)).1]
        exact htype'
      exact (hmove.ncard_places hfound htype hfree).symm
    · rw [hmove.places_of_ne h hfound hx hq hfile hfx]

end IsMove

/-! ## The three ends of a rename -/

namespace Lists

variable (h : s.Lists) (hfound : s.Has src.inode (clip a) x)

include h hfound

theorem renameHere (hfree : ∀ k, ¬ s.Has src.inode (clip b) k) :
    ∃ dir, s.renameHere src a b = (s.setDir src.inode dir, .noError none) ∧
      (s.setDir src.inode dir).Lists ∧ ∀ d n k, (s.setDir src.inode dir).Has d n k ↔
        s.Has d n k ∧ ¬ (d = src.inode ∧ n = clip a) ∨ d = src.inode ∧ n = clip b ∧ k = x := by
  obtain ⟨dir, hrename, hdir⟩ := h.rename hfound hfree
  exact ⟨dir, by rw [Fs.renameHere, hrename], hdir⟩

variable (hfree : ∀ k, ¬ s.Has tgt.inode (clip b) k)

include hfree

theorem moveFile (htype : type ≠ .dir) :
    ∃ t, s.moveFile src tgt a b x = (t, .noError none) ∧
      IsMove s t src.inode (clip a) tgt (clip b) x type := by
  obtain ⟨dir, hremove, hlists, hhas⟩ := h.remove hfound
  obtain ⟨hlists', hhas'⟩ := hlists.addDirEntry tgt.inode x b
    fun k hk => hfree k ((hhas _ _ _).mp hk).1
  rw [Fs.moveFile, hremove]
  refine ⟨_, rfl, rfl, rfl, rfl, hlists', fun _ _ => rfl, fun d n k => (hhas' d n k).trans ?_⟩
  rw [hhas]
  constructor
  · rintro (⟨hk, hold⟩ | hnew)
    · exact .inl ⟨hk, hold, fun hup => htype hup.1⟩
    · exact .inr (.inl hnew)
  · rintro (⟨hk, hold, -⟩ | hnew | ⟨hdir, -⟩)
    · exact .inl ⟨hk, hold⟩
    · exact .inr hnew
    · exact absurd hdir htype

theorem moveDir (hup : s.Has x.inode dotDot k) (hsrc : s.live src.inode = some (.dir, src.magic))
    (htgt : s.live tgt.inode = some (.dir, tgt.magic))
    (hne : ¬ (x.inode = src.inode ∨ x.inode = tgt.inode)) :
    ∃ t, s.moveDir src tgt a b x = (t, .noError none) ∧
      IsMove s t src.inode (clip a) tgt (clip b) x .dir := by
  obtain ⟨dir, hremove, hlists, hhas⟩ := h.remove hfound
  have hup' : (s.setDir src.inode dir).Has x.inode (clip dotDot) k :=
    (hhas _ _ _).mpr ⟨hup, fun hold => hne (.inl hold.1)⟩
  obtain ⟨dir', hchange, hlists', hhas'⟩ := hlists.changeHandle tgt hup'
  have hnew : ∀ k, ¬ ((s.setDir src.inode dir).setDir x.inode dir').Has tgt.inode (clip b) k := by
    intro k hk
    rcases (hhas' _ _ _).mp hk with ⟨hk, -⟩ | ⟨heq, -⟩
    · exact hfree k ((hhas _ _ _).mp hk).1
    · exact hne (.inr heq.symm)
  obtain ⟨hlists'', hhas''⟩ := hlists'.addDirEntry tgt.inode x b hnew
  rw [Fs.moveDir, if_neg hne, hremove]
  simp only [hchange]
  refine ⟨_, rfl, rfl, rfl, rfl, hlists'', ?_, fun d n k => (hhas'' d n k).trans ?_⟩
  · intro f hf
    have hfs : f ≠ src.inode := by
      rintro rfl
      exact hf ⟨_, hsrc⟩
    have hft : f ≠ tgt.inode := by
      rintro rfl
      exact hf ⟨_, htgt⟩
    simp [Fs.addDirEntry, incLink, decLink, Fs.setDir, hfs, hft]
  · rw [hhas', hhas, clip_dotDot]
    constructor
    · rintro ((⟨⟨hk, hold⟩, hup⟩ | hup) | hnew)
      · exact .inl ⟨hk, hold, fun hd => hup hd.2⟩
      · exact .inr (.inr ⟨rfl, hup⟩)
      · exact .inr (.inl hnew)
    · rintro (⟨hk, hold, hup⟩ | hnew | ⟨-, hup⟩)
      · exact .inl (.inl ⟨⟨hk, hold⟩, fun hd => hup ⟨rfl, hd⟩⟩)
      · exact .inr hnew
      · exact .inl (.inr hup)

end Lists

namespace Inv

variable (h : s.Inv)

include h

theorem has_dotDot (hfound : s.Has src.inode name x) (hdir : s.IsDir x.inode)
    (hname : name ≠ dot ∧ name ≠ dotDot)
    (hsrc : s.live src.inode = some (.dir, src.magic)) : s.Has x.inode dotDot src := by
  obtain ⟨hup, -⟩ := h.tree.up_of_named ⟨⟨entry_iff.mpr ⟨x, hfound, rfl⟩, hdir⟩, hname⟩
  obtain ⟨k, hk, hinode⟩ := entry_iff.mp hup
  rw [← h.handle_eq hk hsrc hinode]
  exact hk

theorem renameHere (hfound : s.Has src.inode (clip a) x)
    (hx : s.live x.inode = some (type, x.magic)) (hsrc : s.live src.inode = some (.dir, src.magic))
    (hfree : ∀ k, ¬ s.Has src.inode (clip b) k) (ha : clip a ≠ dot ∧ clip a ≠ dotDot) :
    IsMove s (s.renameHere src a b).1 src.inode (clip a) src (clip b) x type := by
  obtain ⟨dir, hrename, hlists, hhas⟩ := h.lists.renameHere hfound hfree
  rw [hrename]
  refine ⟨rfl, rfl, rfl, hlists, fun _ _ => rfl, fun d n k => (hhas d n k).trans ?_⟩
  constructor
  · rintro (⟨hk, hold⟩ | hnew)
    · by_cases hup : type = .dir ∧ d = x.inode ∧ n = dotDot
      · obtain ⟨htype, rfl, rfl⟩ := hup
        have hdotDot := h.has_dotDot hfound ⟨_, htype ▸ hx⟩ ha hsrc
        exact .inr (.inr ⟨htype, rfl, rfl, h.lists.functional hk hdotDot⟩)
      · exact .inl ⟨hk, hold, hup⟩
    · exact .inr (.inl hnew)
  · rintro (⟨hk, hold, -⟩ | hnew | ⟨htype, rfl, rfl, rfl⟩)
    · exact .inl ⟨hk, hold⟩
    · exact .inr hnew
    · exact .inl ⟨h.has_dotDot hfound ⟨_, htype ▸ hx⟩ ha hsrc, fun hold => ha.2 hold.2.symm⟩

end Inv

/-! ## Removal -/

/-- The entry `n` of `p` for `x` is removed, and what is left of `x` is no directory. -/
structure Removed (s t : Fs) (p : ℕ) (n : Name) (x : Handle) : Prop where
  inv : t.Inv
  live : ∀ f, f ≠ x.inode → t.live f = s.live f
  old : ∀ f y, t.live f = some y → s.live f = some y
  has : ∀ d m k, d ≠ x.inode → (t.Has d m k ↔ s.Has d m k ∧ ¬ (d = p ∧ m = n))
  leaf : ∀ l w, ¬ s.Child x.inode l w
  child : ∀ v l w, t.Child v l w ↔ s.Child v l w ∧ w ≠ x.inode

theorem Removed.path {u w : ℕ} {ls : List Name} (h : Removed s t p name x) (hw : w ≠ x.inode) :
    Path s.Child u ls w ↔ Path t.Child u ls w := by
  constructor
  · intro hpath
    exact (RootedTree.path_erase h.leaf hpath hw).mono fun v l w => (h.child v l w).mpr
  · exact fun hpath => hpath.mono fun v l w hchild => ((h.child v l w).mp hchild).1

namespace Inv

variable (h : s.Inv) (hhas : s.Has p (clip name) x)
  (hlive : s.live x.inode = some (type, x.magic))

include h hhas hlive

theorem removeFile (htype : type ≠ .dir) :
    ∃ t, s.removeObject p name x.inode type = (t, none) ∧ Removed s t p (clip name) x := by
  obtain ⟨dir, hremove, hlists, hset⟩ := h.lists.remove hhas
  have hinv := h.unlinkFile hhas hlive htype hlists hset
  have hfile : ¬ s.IsDir x.inode := not_isDir hlive htype
  have hnone : ∀ m k, ¬ s.Has x.inode m k := fun m k hk => hfile (h.source hk)
  have hleaf : ∀ l w, ¬ s.Child x.inode l w := by
    rintro l w ⟨⟨hentry, -⟩, -⟩
    obtain ⟨k, hk, -⟩ := entry_iff.mp hentry
    exact hnone l k hk
  have hremoved : Removed s ((s.setDir p dir).decLink x.inode) p (clip name) x := by
    refine ⟨hinv, fun _ _ => rfl, fun _ _ hy => hy, fun d m k _ => hset d m k, hleaf, ?_⟩
    intro v l w
    constructor
    · rintro ⟨⟨hentry, hw⟩, hl⟩
      obtain ⟨k, hk, rfl⟩ := entry_iff.mp hentry
      refine ⟨⟨⟨entry_iff.mpr ⟨k, ((hset v l k).mp hk).1, rfl⟩, hw⟩, hl⟩, ?_⟩
      intro heq
      exact hfile (heq ▸ hw)
    · rintro ⟨⟨⟨hentry, hw⟩, hl⟩, hne⟩
      obtain ⟨k, hk, rfl⟩ := entry_iff.mp hentry
      refine ⟨⟨entry_iff.mpr ⟨k, (hset v l k).mpr ⟨hk, ?_⟩, rfl⟩, hw⟩, hl⟩
      rintro ⟨rfl, rfl⟩
      exact hne (congrArg Handle.inode (h.lists.functional hk hhas))
  by_cases hzero : ((s.setDir p dir).decLink x.inode).linkcount x.inode = 0
  · refine ⟨((s.setDir p dir).decLink x.inode).free x.inode, ?_, hinv.freeFile hlive htype hzero,
      ?_, ?_, ?_, hleaf, ?_⟩
    · rw [removeObject, hremove]
      simp only [if_neg htype, if_pos hzero]
    · intro f hf
      simp [free, decLink, setDir, hf]
    · intro f y hy
      by_cases hf : f = x.inode
      · rw [hf] at hy
        simp [free] at hy
      · simpa [free, decLink, setDir, hf] using hy
    · intro d m k hd
      exact has_free.trans ((and_iff_left hd).trans (hset d m k))
    · intro v l w
      rw [← hremoved.child]
      have hdir : (((s.setDir p dir).decLink x.inode).free x.inode).IsDir w ↔
          ((s.setDir p dir).decLink x.inode).IsDir w := by
        by_cases hw : w = x.inode
        · rw [hw]
          refine iff_of_false ?_ hfile
          rintro ⟨magic, hdir⟩
          simp [free] at hdir
        · simp [IsDir, free, hw]
      rw [Child, Child, hdir, entry_iff, entry_iff]
      refine and_congr_left' (and_congr_left' (exists_congr fun k => and_congr_left' ?_))
      refine has_free.trans (and_iff_left_of_imp fun hk => ?_)
      rintro rfl
      exact hnone l k ((hset _ _ _).mp hk).1
  · refine ⟨(s.setDir p dir).decLink x.inode, ?_, hremoved⟩
    rw [removeObject, hremove]
    simp only [if_neg htype, if_neg hzero]

theorem removeEmptyDir (htype : type = .dir) (hname : clip name ≠ dot ∧ clip name ≠ dotDot)
    (hempty : (s.dir x.inode).isEmpty = true) :
    ∃ t, s.removeObject p name x.inode type = (t, none) ∧ Removed s t p (clip name) x := by
  subst htype
  obtain ⟨dir, hremove, hlists, hset⟩ := h.lists.remove hhas
  have hdots := isEmpty_iff.mp hempty
  obtain ⟨hinv, hhas'⟩ := h.removeDir hhas ⟨_, hlive⟩ hname.1 hname.2 hdots hlists hset
  refine ⟨((s.setDir p dir).decLink p).free x.inode, ?_, hinv, ?_, ?_, ?_, ?_, ?_⟩
  · rw [removeObject, hremove]
    simp only [if_pos]
  · intro f hf
    simp [free, decLink, setDir, hf]
  · intro f y hy
    by_cases hf : f = x.inode
    · rw [hf] at hy
      simp [free] at hy
    · simpa [free, decLink, setDir, hf] using hy
  · intro d m k hd
    exact has_free.trans ((and_iff_left hd).trans (hset d m k))
  · rintro l w ⟨⟨hentry, -⟩, hl, hl'⟩
    obtain ⟨k, hk, -⟩ := entry_iff.mp hentry
    rcases hdots l k hk with rfl | rfl
    · exact hl rfl
    · exact hl' rfl
  · intro v l w
    have hdir : w ≠ x.inode → ((((s.setDir p dir).decLink p).free x.inode).IsDir w ↔
        s.IsDir w) := by
      intro hw
      simp [IsDir, free, decLink, setDir, hw]
    constructor
    · rintro ⟨⟨hentry, hw⟩, hl⟩
      obtain ⟨k, hk, rfl⟩ := entry_iff.mp hentry
      obtain ⟨hk, -, hne⟩ := (hhas' v l k).mp hk
      exact ⟨⟨⟨entry_iff.mpr ⟨k, hk, rfl⟩, (hdir hne).mp hw⟩, hl⟩, hne⟩
    · rintro ⟨⟨⟨hentry, hw⟩, hl⟩, hne⟩
      obtain ⟨k, hk, rfl⟩ := entry_iff.mp hentry
      refine ⟨⟨entry_iff.mpr ⟨k, (hhas' v l k).mpr ⟨hk, ?_, hne⟩, rfl⟩, (hdir hne).mpr hw⟩, hl⟩
      rintro rfl
      rcases hdots l k hk with rfl | rfl
      · exact hl.1 rfl
      · exact hl.2 rfl

theorem removeObject (hname : clip name ≠ dot ∧ clip name ≠ dotDot)
    (hempty : type = .dir → (s.dir x.inode).isEmpty = true) :
    ∃ t, s.removeObject p name x.inode type = (t, none) ∧ Removed s t p (clip name) x := by
  by_cases htype : type = .dir
  · exact h.removeEmptyDir hhas hlive htype hname (hempty htype)
  · exact h.removeFile hhas hlive htype

end Inv

/-! ## The calls but Rename -/

theorem links_pos {f : ℕ} (hhas : s.Has d name k) (hd : d < s.fresh) (hk : k.inode = f) :
    0 < s.links f := by
  obtain ⟨e, he, -, rfl⟩ := hhas
  refine Finset.sum_pos' (fun _ _ => Nat.zero_le _) ⟨d, Finset.mem_range.mpr hd, ?_⟩
  exact List.countP_pos_iff.mpr ⟨e, he, by simpa using hk⟩

theorem link_of_links (hlinks : Links s handle name x type) :
    s.link handle name x =
      ((s.addDirEntry handle.inode x name).incLink x.inode, .noError none) := by
  simp [Fs.link, inParent, hlinks.nameOk, hlinks.parentDir, hlinks.new, hlinks.live, hlinks.notDir]

theorem link_of_not (hlinks : ∀ type, ¬ Links s handle name x type) :
    (s.link handle name x).1 = s := by
  rw [Fs.link, inParent]
  split
  next => rfl
  rename_i hname
  cases hparent : s.getEntry handle with
  | none => rfl
  | some type =>
    simp only
    split
    next => rfl
    rename_i hdir
    split
    next => rfl
    rename_i hfind
    cases hget : s.getEntry x with
    | none => rfl
    | some type' =>
      simp only
      split
      next => rfl
      rename_i htype
      refine absurd ⟨by simpa using hname, ?_, ?_, hget, htype⟩ (hlinks type')
      · rw [hparent, not_not.mp hdir]
      · simpa using hfind

section

variable {P : Fs → Prop} (h : P s)

include h

theorem inParent_keeps {r : Fs × Rc} (hend : isNameOk name = true →
    s.getEntry handle = some .dir → (∀ k, ¬ s.Has handle.inode (clip name) k) → P r.1) :
    P (s.inParent handle name r).1 := by
  rw [Fs.inParent]
  split
  next => exact h
  rename_i hname
  cases hparent : s.getEntry handle with
  | none => exact h
  | some type =>
    simp only
    split
    next => exact h
    rename_i hdir
    split
    next => exact h
    rename_i hfind
    refine hend (by simpa using hname) ?_ (find_eq_none.mp ?_)
    · rw [hparent, not_not.mp hdir]
    · simpa using hfind

theorem unlink_keeps (hend : ∀ x type, isNameOk name = true →
    (s.dir handle.inode).find name = some x → s.getEntry x = some type →
    (type = .dir → (s.dir x.inode).isEmpty = true) →
    P (s.removeObject handle.inode name x.inode type).1) : P (s.unlink handle name).1 := by
  rw [Fs.unlink]
  split
  next => exact h
  rename_i hname
  cases s.getEntry handle with
  | none => exact h
  | some type =>
    simp only
    split
    next => exact h
    cases hfind : (s.dir handle.inode).find name with
    | none => exact h
    | some x =>
      simp only
      cases hget : s.getEntry x with
      | none => exact h
      | some type' =>
        simp only
        split
        next => exact h
        split
        next => exact h
        rename_i hempty
        have hkeeps := hend x type' (by simpa using hname) hfind hget
          fun htype => by simpa [htype] using hempty
        split
        next heq => rwa [heq] at hkeeps
        next heq => rwa [heq] at hkeeps

end

namespace Inv

variable (h : s.Inv)

include h

theorem mkDir {magic : UInt32} : (s.mkDir handle name magic).1.Inv :=
  inParent_keeps h fun hname hparent hnew => h.withDir (live_of_getEntry hparent) hname hnew

theorem createLeaf {magic : UInt32} (htype : type ≠ .dir) :
    (s.createLeaf type handle name magic).1.Inv := by
  refine inParent_keeps h fun hname hparent hnew => ?_
  have hlive : (s.createNew type magic).live s.fresh = some (type, magic) := by
    simp [Fs.createNew]
  have hcount : ((s.createNew type magic).linkcount s.fresh).toNat + 1 < 2 ^ 32 := by
    simp [Fs.createNew]
  exact Inv.link (s := s.createNew type magic) (h.createNew htype)
    ⟨_, h.live_createNew (live_of_getEntry hparent)⟩ hlive htype hname
    (fun k hk => hnew k (h.has_createNew.mp hk)) hcount

theorem link_inv {parent target : Handle} (hsafe : Safe s (.link parent name target)) :
    (s.link parent name target).1.Inv := by
  by_cases hlinks : ∃ type, Links s parent name target type
  · obtain ⟨type, hlinks⟩ := hlinks
    rw [link_of_links hlinks]
    exact h.link ⟨_, live_of_getEntry hlinks.parentDir⟩ (live_of_getEntry hlinks.live)
      hlinks.notDir hlinks.nameOk (find_eq_none.mp hlinks.new) (hsafe type hlinks)
  · rw [link_of_not (not_exists.mp hlinks)]
    exact h

theorem safe_link {parent target : Handle} (htree : IsTree (s.link parent name target).1) :
    Safe s (.link parent name target) := by
  intro type hlinks
  rw [link_of_links hlinks] at htree
  have hlive := live_of_getEntry hlinks.live
  obtain ⟨magic, hparent⟩ : s.IsDir parent.inode := ⟨_, live_of_getEntry hlinks.parentDir⟩
  obtain ⟨-, hhas⟩ := h.lists.addDirEntry parent.inode target name (find_eq_none.mp hlinks.new)
  have hpos := links_pos (s := (s.addDirEntry parent.inode target name).incLink target.inode)
    ((hhas _ _ _).mpr (.inr ⟨rfl, rfl, rfl⟩)) (h.bound hparent).2 rfl
  rw [← htree.linkcount target.inode type target.magic hlive hlinks.notDir] at hpos
  have hlt := (s.linkcount target.inode).toNat_lt
  by_contra hoverflow
  have hmax : (s.linkcount target.inode).toNat = 2 ^ 32 - 1 := by omega
  simp [incLink, Fs.addDirEntry, UInt32.toNat_add, hmax] at hpos

theorem unlink : (s.unlink handle name).1.Inv := by
  refine unlink_keeps h fun x type hok hfind hget hempty => ?_
  obtain ⟨t, hremove, ht⟩ := h.removeObject (h.lists.find_eq_some.mp hfind)
    (live_of_getEntry hget) (clip_of_isNameOk hok) hempty
  rw [hremove]
  exact ht.inv

end Inv

/-! ## Rename -/

/-- What step 4 leaves: there is no target any more. -/
structure Dropped (s t : Fs) (src tgt : Handle) (b : Name) : Prop where
  inv : t.Inv
  old : ∀ f y, t.live f = some y → s.live f = some y
  srcLive : t.live src.inode = s.live src.inode
  tgtLive : t.live tgt.inode = s.live tgt.inode
  has : ∀ n k, t.Has src.inode n k ↔ s.Has src.inode n k ∧ ¬ (src.inode = tgt.inode ∧ n = b)
  free : ∀ k, ¬ t.Has tgt.inode b k
  path : ∀ u names, Path s.Child u names tgt.inode ↔ Path t.Child u names tgt.inode

section

variable {srcName tgtName : Name} {tmphandle object : Handle}

theorem Inv.dropped (h : s.Inv) (hmoves : Moves s src tgt srcName tgtName tmphandle object type) :
    ∃ t, s.removeTarget src tgt tgtName type = (t, none) ∧
      Dropped s t src tgt (clip tgtName) := by
  cases hfind : (s.dir tgt.inode).find tgtName with
  | none =>
    have hfree := find_eq_none.mp hfind
    refine ⟨s, by rw [removeTarget, hfind], h, fun _ _ hy => hy, rfl, rfl, fun n k => ?_, hfree,
      fun _ _ => Iff.rfl⟩
    refine (and_iff_left_of_imp fun hk => ?_).symm
    rintro ⟨heq, rfl⟩
    rw [heq] at hk
    exact hfree k hk
  | some target =>
    obtain ⟨hsrc, htgt, type2, hget, hcompat, hempty⟩ := hmoves.compatible target hfind
    have hhas := h.lists.find_eq_some.mp hfind
    obtain ⟨t, hremove, ht⟩ := h.removeObject hhas (live_of_getEntry hget)
      (clip_of_isNameOk hmoves.nameOk) hempty
    refine ⟨t, ?_, ht.inv, ht.old, ht.live _ hsrc.symm, ht.live _ htgt.symm,
      fun n k => ht.has _ n k hsrc.symm, fun k hk => ?_, fun u names => ht.path htgt.symm⟩
    · rw [removeTarget, hfind]
      simp only [hget]
      rw [if_neg (not_or.mpr ⟨hsrc, htgt⟩)]
      by_cases htype : type = .dir
      · have htype2 := hcompat.mp htype
        rw [if_pos ⟨htype, htype2⟩, if_pos (hempty htype2), hremove]
      · have htype2 : type2 ≠ .dir := fun htype2 => htype (hcompat.mpr htype2)
        rw [if_neg fun hdirs => htype hdirs.1, if_pos ⟨htype, htype2⟩, hremove]
    · exact ((ht.has _ _ k htgt.symm).mp hk).2 ⟨rfl, rfl⟩

theorem rename_of_removeTarget (hmoves : Moves s src tgt srcName tgtName tmphandle object type)
    (hremove : s.removeTarget src tgt tgtName type = (t, none)) :
    s.rename src tgt srcName tgtName tmphandle = t.move src tgt srcName tgtName object type := by
  simp [Fs.rename, hmoves.nameOk, hmoves.srcDir, hmoves.tgtDir, hmoves.found, hmoves.live,
    hmoves.notSame, hremove]

theorem Inv.rename_of_moves (h : s.Inv)
    (hmoves : Moves s src tgt srcName tgtName tmphandle object type) :
    ∃ t, Dropped s t src tgt (clip tgtName) ∧
      s.rename src tgt srcName tgtName tmphandle = t.move src tgt srcName tgtName object type := by
  obtain ⟨t, hremove, ht⟩ := h.dropped hmoves
  exact ⟨t, ht, rename_of_removeTarget hmoves hremove⟩

/-- Step 4 leaves all as it is when it stops: it fails, or waits for the lock of a directory. -/
theorem removeTarget_of_not
    (hcompat : ¬ ∀ target, (s.dir tgt.inode).find tgtName = some target →
      target.inode ≠ src.inode ∧ target.inode ≠ tgt.inode ∧ ∃ type2,
        s.getEntry target = some type2 ∧ (type = .dir ↔ type2 = .dir) ∧
          (type2 = .dir → (s.dir target.inode).isEmpty = true)) :
    ∃ rc, s.removeTarget src tgt tgtName type = (s, some rc) ∧ (∀ k, rc ≠ .noError k) ∧
      (rc.Fails ↔ ∀ target type2, (s.dir tgt.inode).find tgtName = some target →
        s.getEntry target = some type2 → target.inode ≠ src.inode ∧ target.inode ≠ tgt.inode) := by
  push Not at hcompat
  obtain ⟨target, hfind, hnot⟩ := hcompat
  rw [removeTarget, hfind]
  simp only
  cases hget : s.getEntry target with
  | none =>
    refine ⟨_, rfl, nofun, iff_of_true trivial ?_⟩
    rintro _ type2 ⟨⟩ hget'
    cases hget.symm.trans hget'
  | some type2 =>
    simp only
    split
    next hblocks =>
      refine ⟨_, rfl, nofun, iff_of_false id fun hfree => ?_⟩
      obtain ⟨hsrc, htgt⟩ := hfree target type2 rfl hget
      exact hblocks.elim hsrc htgt
    rename_i hblocks
    rw [not_or] at hblocks
    have hfree : ∀ target' type2', some target = some target' → s.getEntry target' = some type2' →
        target'.inode ≠ src.inode ∧ target'.inode ≠ tgt.inode := by
      rintro _ _ ⟨⟩ -
      exact hblocks
    have hnot' := hnot hblocks.1 hblocks.2 type2 hget
    split
    next hdirs =>
      obtain ⟨-, hempty⟩ := hnot' (iff_of_true hdirs.1 hdirs.2)
      rw [if_neg hempty]
      exact ⟨_, rfl, nofun, iff_of_true trivial hfree⟩
    next hdirs =>
      split
      next hfiles =>
        obtain ⟨hdir, -⟩ := hnot' (iff_of_false hfiles.1 hfiles.2)
        exact absurd hdir hfiles.2
      next => exact ⟨_, rfl, nofun, iff_of_true trivial hfree⟩

theorem rename_of_not
    (hmoves : ∀ object type, ¬ Moves s src tgt srcName tgtName tmphandle object type) :
    (s.rename src tgt srcName tgtName tmphandle).1 = s := by
  rw [rename]
  split
  next => rfl
  rename_i hname
  split
  next type1 type2 hsrc htgt =>
    split
    next => rfl
    rename_i hdirs
    rw [not_or, not_not, not_not] at hdirs
    cases hfind : (s.dir src.inode).find srcName with
    | none => rfl
    | some object =>
      simp only
      cases hget : s.getEntry object with
      | none => rfl
      | some type =>
        simp only
        split
        next => rfl
        rename_i hsame
        have hcompat := fun hcompat => hmoves object type ⟨by simpa using hname,
          hdirs.1 ▸ hsrc, hdirs.2 ▸ htgt, hfind, hget, by simpa using hsame, hcompat⟩
        obtain ⟨rc, hrc, -⟩ := removeTarget_of_not hcompat
        rw [hrc]
  next => rfl

end

/-! ## The move, when there is no target -/

theorem entry_unique {v w w' : ℕ} {l : Name} (h : IsTree s) (hv : s.IsDir v)
    (hw : s.Entry v l w) (hw' : s.Entry v l w') : w = w' := by
  obtain ⟨e, he, hname, rfl⟩ := hw
  obtain ⟨e', he', hname', rfl⟩ := hw'
  rw [List.inj_on_of_nodup_map (h.names v hv) he he' (hname.trans hname'.symm)]

theorem rootedTree_of_isTree (h : IsTree s) (hroot : s.IsDir s.root)
    (hsource : ∀ {d n k}, s.Has d n k → s.IsDir d) : RootedTree {d | s.IsDir d} s.root s.Child := by
  have hsource' : ∀ {v l w}, s.Child v l w → s.IsDir v := by
    rintro v l w ⟨⟨hentry, -⟩, -⟩
    obtain ⟨k, hk, -⟩ := entry_iff.mp hentry
    exact hsource hk
  have hlabel : ∀ {v l w w'}, s.Child v l w → s.Child v l w' → w = w' := fun hchild hchild' =>
    entry_unique h (hsource' hchild) hchild.1.1 hchild'.1.1
  exact (rootedTree_iff (E := s.Child) (N := {d | s.IsDir d}) (fun hchild => hsource' hchild)
    (fun hchild => hchild.1.2) (fun hchild => hlabel hchild)).mpr ⟨hroot, h.reached⟩

section

variable (h : s.Inv) (hfound : s.Has src.inode (clip a) x)
  (hx : s.live x.inode = some (type, x.magic))
  (hsrc : s.live src.inode = some (.dir, src.magic))
  (htgt : s.live tgt.inode = some (.dir, tgt.magic))
  (hfree : ∀ k, ¬ s.Has tgt.inode (clip b) k) (hb : clip b ≠ dot ∧ clip b ≠ dotDot)

include h hfound hx hsrc htgt hfree

theorem Inv.isMove (ha : clip a ≠ dot ∧ clip a ≠ dotDot) (hblocks : ¬ Blocks src tgt x type) :
    IsMove s (s.move src tgt a b x type).1 src.inode (clip a) tgt (clip b) x type := by
  rw [move]
  split
  next heq =>
    subst heq
    exact h.renameHere hfound hx hsrc hfree ha
  next hne =>
    split
    next htype =>
      subst htype
      obtain ⟨t, hmove, ht⟩ := h.lists.moveDir hfound hfree
        (h.has_dotDot hfound ⟨_, hx⟩ ha hsrc) hsrc htgt fun heq => hblocks ⟨rfl, hne, heq⟩
      rw [hmove]
      exact ht
    next htype =>
      obtain ⟨t, hmove, ht⟩ := h.lists.moveFile hfound hfree htype
      rw [hmove]
      exact ht

include hb

theorem Inv.move (hsafe : ¬ Blocks src tgt x type → clip a ≠ dot ∧ clip a ≠ dotDot ∧
      (type = .dir → src ≠ tgt → ∀ names, ¬ Path s.Child x.inode names tgt.inode)) :
    (s.move src tgt a b x type).1.Inv := by
  by_cases hblocks : Blocks src tgt x type
  · obtain ⟨htype, hne, heq⟩ := hblocks
    rw [Fs.move, if_neg hne, if_pos htype, Fs.moveDir, if_pos heq]
    exact h
  obtain ⟨hdot, hdotDot, hbelow⟩ := hsafe hblocks
  refine (h.isMove hfound hx hsrc htgt hfree ⟨hdot, hdotDot⟩ hblocks).inv h hfound hx htgt
    ⟨hdot, hdotDot⟩ hb hfree fun htype names hpath => ?_
  by_cases heq : src = tgt
  · -- a directory is not below itself
    subst heq
    have hchild : s.Child src.inode (clip a) x.inode :=
      ⟨⟨entry_iff.mpr ⟨x, hfound, rfl⟩, _, htype ▸ hx⟩, hdot, hdotDot⟩
    have hcycle := h.tree.tree.acyclic ⟨_, htype ▸ hx⟩ (hpath.step hchild)
    exact absurd hcycle (by simp)
  · exact hbelow htype heq names hpath

omit hfound hx hsrc htgt hfree hb in
theorem Inv.isDir_of_special (hfound : s.Has src.inode name x)
    (hx : s.live x.inode = some (type, x.magic)) (hname : name = dot ∨ name = dotDot) :
    type = .dir := by
  by_contra htype
  exact not_isDir hx htype (h.special hfound hname)

theorem Inv.ne_dot (htree : IsTree (s.move src tgt a b x type).1)
    (hblocks : ¬ Blocks src tgt x type) : clip a ≠ dot := by
  intro ha
  by_cases heq : src = tgt
  · subst heq
    obtain ⟨dir, hrename, -, hhas⟩ := h.lists.renameHere hfound hfree
    rw [Fs.move, if_pos rfl, hrename] at htree
    obtain ⟨k, hk, -⟩ := entry_iff.mp (htree.dot src.inode ⟨_, hsrc⟩)
    rcases (hhas _ _ _).mp hk with ⟨-, hold⟩ | ⟨-, hdot, -⟩
    · exact hold ⟨rfl, ha.symm⟩
    · exact hb.1 hdot.symm
  · have htype := h.isDir_of_special hfound hx (.inl ha)
    have hloop := h.tree.loop src.inode ⟨_, hsrc⟩
    rw [← ha] at hloop
    have hentry : s.DirEntry src.inode (clip a) x.inode :=
      ⟨entry_iff.mpr ⟨x, hfound, rfl⟩, _, htype ▸ hx⟩
    exact hblocks ⟨htype, heq, .inl (h.tree.functional hentry hloop)⟩

theorem Inv.not_has_dotDot (ha : clip a = dotDot) (hblocks : ¬ Blocks src tgt x type) :
    (s.move src tgt a b x type).1.live = s.live ∧
      (s.move src tgt a b x type).1.root = s.root ∧
      ∀ k, ¬ (s.move src tgt a b x type).1.Has src.inode dotDot k := by
  have htype := h.isDir_of_special hfound hx (.inr ha)
  by_cases heq : src = tgt
  · subst heq
    obtain ⟨dir, hrename, -, hhas⟩ := h.lists.renameHere hfound hfree
    rw [Fs.move, if_pos rfl, hrename]
    refine ⟨rfl, rfl, fun k hk => ?_⟩
    rcases (hhas _ _ _).mp hk with ⟨-, hold⟩ | ⟨-, hdotDot, -⟩
    · exact hold ⟨rfl, ha.symm⟩
    · exact hb.2 hdotDot.symm
  have hne : ¬ (x.inode = src.inode ∨ x.inode = tgt.inode) :=
    fun hor => hblocks ⟨htype, heq, hor⟩
  have hnodes : src.inode ≠ tgt.inode := by
    intro hinode
    rw [hinode, htgt] at hsrc
    obtain ⟨inode, magic⟩ := src
    obtain ⟨inode', magic'⟩ := tgt
    cases hinode
    cases hsrc
    exact heq rfl
  obtain ⟨dir, hremove, -, hhas⟩ := h.lists.remove hfound
  have hnone : ∀ k, ¬ (s.setDir src.inode dir).Has src.inode dotDot k := by
    intro k hk
    exact ((hhas _ _ _).mp hk).2 ⟨rfl, ha.symm⟩
  rw [Fs.move, if_neg heq, if_pos htype, Fs.moveDir, if_neg hne, hremove]
  simp only
  cases ((s.setDir src.inode dir).dir x.inode).changeHandle dotDot tgt with
  | none => exact ⟨rfl, rfl, hnone⟩
  | some dir' =>
    refine ⟨rfl, rfl, fun k hk => hnone k ?_⟩
    have hxs : src.inode ≠ x.inode := fun hinode => hne (.inl hinode.symm)
    simpa [Has, entries, addDirEntry, incLink, decLink, setDir, hnodes, hxs] using hk

theorem Inv.ne_dotDot (htree : IsTree (s.move src tgt a b x type).1)
    (hblocks : ¬ Blocks src tgt x type) : clip a ≠ dotDot := by
  intro ha
  obtain ⟨hlive, hroot, hnone⟩ :=
    h.not_has_dotDot hfound hx hsrc htgt hfree hb ha hblocks
  have htype := h.isDir_of_special hfound hx (.inr ha)
  by_cases hsr : src.inode = s.root
  · -- in the root, it becomes another name of the root
    have hup : s.DirEntry src.inode dotDot x.inode :=
      ⟨entry_iff.mpr ⟨x, ha ▸ hfound, rfl⟩, _, htype ▸ hx⟩
    have hxr : x.inode = s.root := by
      rcases h.tree.parent hup with ⟨l, hchild⟩ | ⟨-, hxr⟩
      · rw [hsr] at hchild
        exact absurd hchild h.tree.tree.noParent
      · exact hxr
    have heq : src = tgt := by
      by_contra hne
      exact hblocks ⟨htype, hne, .inl (hxr.trans hsr.symm)⟩
    subst heq
    obtain ⟨dir, hrename, -, hhas⟩ := h.lists.renameHere hfound hfree
    rw [Fs.move, if_pos rfl, hrename] at htree
    have hchild : (s.setDir src.inode dir).Child s.root (clip b) s.root := by
      refine ⟨⟨entry_iff.mpr ⟨x, ?_, hxr⟩, src.magic, hsr ▸ hsrc⟩, hb⟩
      exact (hhas _ _ _).mpr (.inr ⟨hsr.symm, rfl, rfl⟩)
    have hcycle := (htree.reached s.root ⟨src.magic, hsr ▸ hsrc⟩).unique
      (Path.nil.step hchild) .nil
    exact absurd hcycle (by simp)
  · have hdir : (s.move src tgt a b x type).1.IsDir src.inode := ⟨src.magic, by rw [hlive, hsrc]⟩
    obtain ⟨w, hw⟩ := htree.dotDot src.inode hdir (by rwa [hroot])
    obtain ⟨k, hk, -⟩ := entry_iff.mp hw
    exact hnone k hk

theorem Inv.not_below (htree : IsTree (s.move src tgt a b x type).1)
    (hblocks : ¬ Blocks src tgt x type) (htype : type = .dir) (names : List Name) :
    ¬ Path s.Child x.inode names tgt.inode := by
  intro hpath
  have hdot := h.ne_dot hfound hx hsrc htgt hfree hb htree hblocks
  have hdotDot := h.ne_dotDot hfound hx hsrc htgt hfree hb htree hblocks
  have hmove := h.isMove hfound hx hsrc htgt hfree ⟨hdot, hdotDot⟩ hblocks
  have hchild : Named dot dotDot s.DirEntry src.inode (clip a) x.inode :=
    ⟨⟨entry_iff.mpr ⟨x, hfound, rfl⟩, _, htype ▸ hx⟩, hdot, hdotDot⟩
  have hroot : (s.move src tgt a b x type).1.IsDir (s.move src tgt a b x type).1.root := by
    rw [hmove.isDir, hmove.root]
    exact h.tree.tree.root
  have hrooted := rootedTree_of_isTree htree hroot (hmove.source h hx htgt)
  refine h.tree.not_move hchild hb.1 hb.2 hpath (hrooted.congr rfl fun v l w => ?_)
  exact and_congr_left' (hmove.dirEntry hx htgt htype v l w)

end

theorem Dropped.found {srcName tgtName : Name} {tmphandle object : Handle}
    (hdropped : Dropped s t src tgt (clip tgtName)) (h : s.Inv)
    (hmoves : Moves s src tgt srcName tgtName tmphandle object type) :
    t.live src.inode = some (.dir, src.magic) ∧ t.live tgt.inode = some (.dir, tgt.magic) ∧
      (src = tgt ∧ clip srcName = clip tgtName ∨ t.Has src.inode (clip srcName) object ∧
        t.live object.inode = some (type, object.magic)) := by
  have hsrc := live_of_getEntry hmoves.srcDir
  have htgt := live_of_getEntry hmoves.tgtDir
  refine ⟨hdropped.srcLive.trans hsrc, hdropped.tgtLive.trans htgt, ?_⟩
  by_cases hsame : src.inode = tgt.inode ∧ clip srcName = clip tgtName
  · obtain ⟨hinode, hname⟩ := hsame
    rw [hinode, htgt] at hsrc
    obtain ⟨inode, magic⟩ := src
    obtain ⟨inode', magic'⟩ := tgt
    cases hinode
    cases hsrc
    exact .inl ⟨rfl, hname⟩
  · have hhas := (hdropped.has _ _).mpr ⟨h.lists.find_eq_some.mp hmoves.found, hsame⟩
    obtain ⟨type', hlive⟩ := hdropped.inv.designates hhas
    have hold := hdropped.old _ _ hlive
    rw [live_of_getEntry hmoves.live] at hold
    rw [hold]
    exact .inr ⟨hhas, hlive⟩

theorem move_of_not_has (hnot : ∀ k, ¬ s.Has src.inode (clip a) k) :
    (s.move src tgt a b x type).1 = s ∧ ∀ k, (s.move src tgt a b x type).2 ≠ .noError k := by
  have hname : ∀ e ∈ (s.dir src.inode).direntries, e.name ≠ clip a :=
    fun e he heq => hnot e.handle ⟨e, he, heq, rfl⟩
  rw [Fs.move, Fs.renameHere, Fs.moveDir, Fs.moveFile, Dir.rename_eq_none hname,
    Dir.remove_eq_none hname]
  split
  · exact ⟨rfl, nofun⟩
  split
  · split <;> exact ⟨rfl, nofun⟩
  · exact ⟨rfl, nofun⟩

section

variable {srcName tgtName : Name} {tmphandle : Handle} (h : s.Inv)

include h

theorem Inv.rename_inv (hsafe : Safe s (.rename src tgt srcName tgtName tmphandle)) :
    (s.rename src tgt srcName tgtName tmphandle).1.Inv := by
  by_cases hmoves : ∃ object type, Moves s src tgt srcName tgtName tmphandle object type
  · obtain ⟨object, type, hmoves⟩ := hmoves
    obtain ⟨t, hdropped, hrename⟩ := h.rename_of_moves hmoves
    rw [hrename]
    obtain ⟨hsrc, htgt, ⟨rfl, hname⟩ | ⟨hfound, hx⟩⟩ := hdropped.found h hmoves
    · rw [(move_of_not_has fun k hk => hdropped.free k (hname ▸ hk)).1]
      exact hdropped.inv
    · refine hdropped.inv.move hfound hx hsrc htgt hdropped.free
        (clip_of_isNameOk hmoves.nameOk) fun hblocks => ?_
      obtain ⟨hdot, hdotDot, hbelow⟩ := hsafe object type hmoves hblocks
      refine ⟨hdot, hdotDot, fun htype hne names hpath => ?_⟩
      exact hbelow htype hne names ((hdropped.path _ _).mpr hpath)
  · rw [rename_of_not fun object type hm => hmoves ⟨object, type, hm⟩]
    exact h

theorem Inv.safe_rename (htree : IsTree (s.rename src tgt srcName tgtName tmphandle).1) :
    Safe s (.rename src tgt srcName tgtName tmphandle) := by
  intro object type hmoves hblocks
  obtain ⟨t, hdropped, hrename⟩ := h.rename_of_moves hmoves
  rw [hrename] at htree
  have hb := clip_of_isNameOk hmoves.nameOk
  obtain ⟨hsrc, htgt, ⟨rfl, hname⟩ | ⟨hfound, hx⟩⟩ := hdropped.found h hmoves
  · rw [hname]
    exact ⟨hb.1, hb.2, fun _ hne => absurd rfl hne⟩
  · refine ⟨hdropped.inv.ne_dot hfound hx hsrc htgt hdropped.free hb htree hblocks,
      hdropped.inv.ne_dotDot hfound hx hsrc htgt hdropped.free hb htree hblocks, ?_⟩
    intro htype _ names hpath
    exact hdropped.inv.not_below hfound hx hsrc htgt hdropped.free hb htree hblocks htype names
      ((hdropped.path _ _).mp hpath)

end

/-! ## The beginning -/

theorem init_spec (magic : UInt32) (dotDotRoot : Bool) : (Fs.init magic dotDotRoot).Lists ∧
    ∀ d n k, (Fs.init magic dotDotRoot).Has d n k ↔
      d = 1 ∧ k = ⟨1, magic⟩ ∧ (n = dot ∨ dotDotRoot = true ∧ n = dotDot) := by
  let s : Fs := ⟨1, fun _ => none, fun _ => 0, fun _ => ⟨[], none⟩, 1, 0⟩
  have hnone : ∀ {d n k}, ¬ (s.createNew .dir magic).Has d n k := by
    intro d n k hk
    obtain ⟨⟨e, he, -⟩, -⟩ := has_createNew.mp hk
    cases he
  have hcreate : (s.createNew .dir magic).Lists :=
    Lists.empty (s := s) (fun _ => Dir.ok_nil) rfl
  obtain ⟨hlists, hhas⟩ := hcreate.addDirEntry 1 ⟨1, magic⟩ dot fun _ => hnone
  cases dotDotRoot with
  | false =>
    refine ⟨hlists, fun d n k => (hhas d n k).trans ?_⟩
    constructor
    · rintro (hk | ⟨rfl, rfl, rfl⟩)
      · exact absurd hk hnone
      · exact ⟨rfl, rfl, .inl rfl⟩
    · rintro ⟨rfl, rfl, rfl | ⟨hfalse, -⟩⟩
      · exact .inr ⟨rfl, rfl, rfl⟩
      · cases hfalse
  | true =>
    obtain ⟨hlists', hhas'⟩ := Lists.addDirEntry
      (s := ((s.createNew .dir magic).addDirEntry 1 ⟨1, magic⟩ dot).incLink 1)
      hlists 1 ⟨1, magic⟩ dotDot (by
        intro k hk
        rcases (hhas _ _ _).mp hk with hk | ⟨-, hname, -⟩
        · exact hnone hk
        · exact dot_ne_dotDot hname.symm)
    refine ⟨hlists', fun d n k => (hhas' d n k).trans ((or_congr_left (hhas d n k)).trans ?_)⟩
    constructor
    · rintro ((hk | ⟨rfl, rfl, rfl⟩) | ⟨rfl, rfl, rfl⟩)
      · exact absurd hk hnone
      · exact ⟨rfl, rfl, .inl rfl⟩
      · exact ⟨rfl, rfl, .inr ⟨rfl, rfl⟩⟩
    · rintro ⟨rfl, rfl, rfl | ⟨-, rfl⟩⟩
      · exact .inl (.inr ⟨rfl, rfl, rfl⟩)
      · exact .inr ⟨rfl, rfl, rfl⟩

theorem inv_init (magic : UInt32) (dotDotRoot : Bool) : (Fs.init magic dotDotRoot).Inv := by
  obtain ⟨hlists, hhas⟩ := init_spec magic dotDotRoot
  have hlive : ∀ a, (Fs.init magic dotDotRoot).live a =
      if a = 1 then some (.dir, magic) else none := by
    intro a
    cases dotDotRoot <;> exact Function.update_apply _ _ _ _
  have hroot : (Fs.init magic dotDotRoot).root = 1 := by cases dotDotRoot <;> rfl
  have hfresh : (Fs.init magic dotDotRoot).fresh = 2 := by cases dotDotRoot <;> rfl
  have hdir : ∀ a, (Fs.init magic dotDotRoot).IsDir a ↔ a = 1 := by
    intro a
    rw [IsDir, hlive]
    by_cases ha : a = 1
    · simp [ha]
    · simp [ha]
  have hentry : ∀ d n a, (Fs.init magic dotDotRoot).DirEntry d n a ↔
      d = 1 ∧ a = 1 ∧ (n = dot ∨ dotDotRoot = true ∧ n = dotDot) := by
    intro d n a
    rw [DirEntry, hdir, entry_iff]
    constructor
    · rintro ⟨⟨k, hk, -⟩, ha⟩
      obtain ⟨hd, -, hn⟩ := (hhas d n k).mp hk
      exact ⟨hd, ha, hn⟩
    · rintro ⟨hd, rfl, hn⟩
      exact ⟨⟨⟨1, magic⟩, (hhas _ _ _).mpr ⟨hd, rfl, hn⟩, rfl⟩, rfl⟩
  have hnamed : ∀ {v l w},
      ¬ Named dot dotDot (Fs.init magic dotDotRoot).DirEntry v l w := by
    rintro v l w ⟨hedge, hl, hl'⟩
    rcases ((hentry v l w).mp hedge).2.2 with hdot | ⟨-, hdotDot⟩
    · exact hl hdot
    · exact hl' hdotDot
  refine ⟨?_, hlists, ?_, ?_, ?_, ?_, ?_⟩
  · intro a y ha
    rw [hlive] at ha
    split at ha
    next h => rw [h, hfresh]; exact ⟨Nat.one_pos, Nat.one_lt_two⟩
    next => cases ha
  · intro d n k hk
    exact (hdir d).mpr ((hhas d n k).mp hk).1
  · intro d n k hk
    obtain ⟨-, rfl, -⟩ := (hhas d n k).mp hk
    exact ⟨.dir, by rw [hlive, if_pos rfl]⟩
  · intro d n k hk _
    obtain ⟨-, rfl, -⟩ := (hhas d n k).mp hk
    exact (hdir 1).mpr rfl
  · rw [hroot]
    refine ⟨fun hedge => (hdir _).mpr ((hentry _ _ _).mp hedge).1, ?_, ?_, ?_, ?_, ?_⟩
    · intro v l w w' hedge hedge'
      rw [((hentry _ _ _).mp hedge).2.1, ((hentry _ _ _).mp hedge').2.1]
    · intro v hv
      have hv' := (hdir v).mp hv
      exact (hentry _ _ _).mpr ⟨hv', hv', .inl rfl⟩
    · intro v hv hne
      exact absurd ((hdir v).mp hv) hne
    · intro v w hedge
      obtain ⟨hv, hw, -⟩ := (hentry _ _ _).mp hedge
      exact .inr ⟨hv, hw⟩
    · refine ⟨(hdir 1).mpr rfl, fun hedge => absurd hedge hnamed, fun hedge => absurd hedge hnamed,
        hnamed, fun hedge => absurd hedge hnamed, fun w hw => ?_⟩
      rw [(hdir w).mp hw]
      exact ⟨[], .nil⟩
  · intro a type magic' ha htype
    rw [hlive] at ha
    split at ha
    next => exact absurd (Prod.mk.inj (Option.some.inj ha)).1.symm htype
    next => cases ha

end Fs

/-! ## Runs -/

section

open Fs

variable {s t : Fs} {a : Call × (Handle → Bool)}

theorem step_eq_some (h : step s a = some t) : s.Defined a ∧ t = (s.run a.1).1 := by
  obtain ⟨hdef, h⟩ := Option.ite_none_right_eq_some.mp h
  exact ⟨hdef, (Option.some.inj h).symm⟩

/-- **A call** that is safe keeps the invariant. -/
theorem inv_run (h : s.Inv) (hsafe : Safe s a.1) : (s.run a.1).1.Inv := by
  cases hcall : a.1 with
  | mkDir parent name magic => exact h.mkDir
  | create parent name magic | symlink parent name magic => exact h.createLeaf (by decide)
  | unlink parent name => exact h.unlink
  | link parent name target => exact h.link_inv (hcall ▸ hsafe)
  | rename src tgt srcName tgtName tmphandle => exact h.rename_inv (hcall ▸ hsafe)

theorem safe_of_isTree (h : s.Inv) (htree : IsTree (s.run a.1).1) : Safe s a.1 := by
  cases hcall : a.1 with
  | mkDir | create | symlink | unlink => trivial
  | link parent name target =>
    rw [hcall] at htree
    exact h.safe_link htree
  | rename src tgt srcName tgtName tmphandle =>
    rw [hcall] at htree
    exact h.safe_rename htree

/-- **The file system is a tree at first and after every call of a run, each of which has a next
state, if and only if no call takes memory for an item and each call is `Safe`.** -/
theorem staysTree_iff (magic : UInt32) (dotDotRoot : Bool) (as : List (Call × (Handle → Bool))) :
    (IsTree (Fs.init magic dotDotRoot) ∧
        Safely step (fun _ _ t => IsTree t) (Fs.init magic dotDotRoot) as) ↔
      AllMeet step (fun s a => s.Defined a ∧ Safe s a.1) (Fs.init magic dotDotRoot) as := by
  have hinit := inv_init magic dotDotRoot
  rw [and_iff_right hinit.isTree]
  refine safely_iff_allMeet hinit (fun s a h hcall => ?_) fun s a t h hstep htree => ?_
  · have hinv := inv_run h hcall.2
    exact ⟨_, if_pos hcall.1, hinv, hinv.isTree⟩
  · obtain ⟨hdef, rfl⟩ := step_eq_some hstep
    exact ⟨hdef, safe_of_isTree h htree⟩

/-- `mkdir a`, `mkdir a/b`, `rename a a/b/c`. -/
def belowItself : List (Call × (Handle → Bool)) :=
  [(.mkDir ⟨1, 7⟩ [97] 8, fun _ => false), (.mkDir ⟨2, 8⟩ [98] 9, fun _ => false),
    (.rename ⟨1, 7⟩ ⟨3, 9⟩ [97] [99] ⟨0, 0⟩, fun _ => false)]

/-- A directory that was moved below itself is not reached any more. -/
theorem not_staysTree : ¬ Safely step (fun _ _ t => IsTree t) (Fs.init 7 true) belowItself := by
  rintro ⟨s₁, h₁, -, s₂, h₂, -, s₃, h₃, h, -⟩
  cases h₁
  cases h₂
  cases h₃
  let s : Fs := (((Fs.init 7 true).mkDir ⟨1, 7⟩ [97] 8).1.mkDir ⟨2, 8⟩ [98] 9).1
  have hinv : s.Inv := (inv_init 7 true).mkDir.mkDir
  have htree : IsTree (s.rename ⟨1, 7⟩ ⟨3, 9⟩ [97] [99] ⟨0, 0⟩).1 := h
  have hmoves : Moves s ⟨1, 7⟩ ⟨3, 9⟩ [97] [99] ⟨0, 0⟩ ⟨2, 8⟩ .dir := by
    refine ⟨by decide, by decide +kernel, by decide +kernel, by decide +kernel, by decide +kernel,
      by decide +kernel, fun target htarget => ?_⟩
    have hnone : (s.dir 3).find [99] = none := by decide +kernel
    cases hnone.symm.trans htarget
  obtain ⟨-, -, hbelow⟩ := hinv.safe_rename htree _ _ hmoves (by rintro ⟨-, -, h | h⟩ <;> cases h)
  have hchild : s.Child 2 [98] 3 := by
    refine ⟨⟨⟨⟨7, ⟨3, 9⟩, [98]⟩, by decide +kernel, rfl, rfl⟩, 9, by decide +kernel⟩, ?_⟩
    decide
  exact hbelow rfl (by decide) _ (Path.nil.step hchild)

end

end GhostFs
end CloudNfs
