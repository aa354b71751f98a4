import CloudNfs.GhostTree

/-!
# GHOSTFS_Rename is not atomic (`ghost_fs.c`)

A rename is all or nothing (`Atomic`): it gives the object the new name and leaves all else as it
was, or it fails and leaves every directory as it was; and it releases its locks, once.

* `Right` — when the code is right: step 3 takes the source for the target only if it is, in one
  directory; the target is not one of the two directories, and has another name if it is the source;
  and a directory goes to another one with its `..`, not being one of the two itself.
* `atomic_iff_right` — **in every state of every run, a rename is `Atomic` if and only if it is
  `Right`**. The lists of entries are in order (`Lists.run`); there need not be a tree.
* `not_atomic` — a file is renamed to its own name, and is gone.
-/

namespace CloudNfs.GhostFs

/-! ## Locks -/

/-- What a call does with the lock of an item. -/
inductive LockEvent where
  /-- `P_w` -/
  | lock (a : ℕ)
  /-- `V_w`, or `rw_lock_destroy` by its holder -/
  | unlock (a : ℕ)

/-- The locks that are held then: a call does not wait for a lock that it holds, and does not
release one that it does not hold. -/
def lockStep (held : List ℕ) : LockEvent → Option (List ℕ)
  | .lock a => if a ∈ held then none else some (a :: held)
  | .unlock a => if a ∈ held then some (held.erase a) else none

/-- Every lock that was taken is released, once. -/
def Released (events : List LockEvent) : Prop := exec lockStep [] events = some []

/-- The directories are locked, one that is both only once. -/
def lockParents (src tgt : Handle) : List LockEvent :=
  if src = tgt then [.lock src.inode]
  else if src.inode > tgt.inode then [.lock src.inode, .lock tgt.inode]
  else [.lock tgt.inode, .lock src.inode]

def unlockParents (src tgt : Handle) : List LockEvent :=
  .unlock src.inode :: if src = tgt then [] else [.unlock tgt.inode]

namespace Fs

variable (s : Fs)

/-- The lock of a target that exists, in step 4. -/
def targetLocks (tgt : Handle) (tgtName : Name) : List LockEvent :=
  match (s.dir tgt.inode).find tgtName with
  | none => []
  | some handle =>
    if (s.getEntry handle).isSome then [.lock handle.inode, .unlock handle.inode] else []

/-- The locks at the end, when there is no target any more. A file is unlocked that was not locked
if the entry is not there. -/
def moveLocks (src tgt : Handle) (srcName : Name) (object : Handle) (type : ItemType) :
    List LockEvent :=
  if src = tgt then [.unlock src.inode]
  else if type = .dir then .lock object.inode :: .unlock object.inode :: unlockParents src tgt
  else
    match (s.dir src.inode).remove srcName with
    | none => .unlock object.inode :: unlockParents src tgt
    | some _ => unlockParents src tgt

/-- The locks of `GHOSTFS_Rename`. The exit of step 3 unlocks one directory. -/
def renameLocks (src tgt : Handle) (srcName tgtName : Name) (tmphandle : Handle) :
    List LockEvent :=
  if !isNameOk tgtName then []
  else
    match s.getEntry src, s.getEntry tgt with
    | some type1, some type2 =>
      if type1 ≠ .dir ∨ type2 ≠ .dir then []
      else
        lockParents src tgt ++
          match (s.dir src.inode).find srcName with
          | none => unlockParents src tgt
          | some object =>
            match s.getEntry object with
            | none => unlockParents src tgt
            | some type =>
              if s.takenForSame tgt tgtName object tmphandle then [.unlock src.inode]
              else
                s.targetLocks tgt tgtName ++
                  match s.removeTarget src tgt tgtName type with
                  | (_, some _) => unlockParents src tgt
                  | (s, none) => s.moveLocks src tgt srcName object type
    | _, _ => []

end Fs

/-! ## The contract -/

section

open Fs

variable (s : Fs) (src tgt : Handle) (srcName tgtName : Name) (tmphandle : Handle)

/-- What a rename that succeeds leaves. -/
structure Renamed (t : Fs) (object : Handle) (type : ItemType) : Prop where
  /-- the new name designates the object -/
  target : t.Has tgt.inode (clip tgtName) object
  /-- the old one is gone, unless both designated it -/
  source : ∀ k, t.Has src.inode (clip srcName) k →
    k = object ∧ s.Has tgt.inode (clip tgtName) object
  /-- other entries are as they were, but in a target that was replaced, and `..` of a directory
  that goes to another one -/
  others : ∀ d n k, ¬ (d = src.inode ∧ n = clip srcName) →
    ¬ (d = tgt.inode ∧ n = clip tgtName) →
    (∀ target, s.Has tgt.inode (clip tgtName) target → target.inode = d → target = object) →
    ¬ (type = .dir ∧ src ≠ tgt ∧ d = object.inode ∧ n = dotDot) → (t.Has d n k ↔ s.Has d n k)
  up : type = .dir → src ≠ tgt → ∀ k, t.Has object.inode dotDot k ↔ k = tgt

/-- **A rename is all or nothing.** An entry whose item was freed is stale: its memory no longer has
the magic number. -/
structure Atomic : Prop where
  /-- it succeeds, or it fails and every directory is as it was -/
  outcome :
    ((s.rename src tgt srcName tgtName tmphandle).2 = .noError none ∧ ∃ object type,
      (s.dir src.inode).find srcName = some object ∧ s.getEntry object = some type ∧
      Renamed s src tgt srcName tgtName (s.rename src tgt srcName tgtName tmphandle).1 object
        type) ∨
    (s.rename src tgt srcName tgtName tmphandle).2.Fails ∧
      (s.rename src tgt srcName tgtName tmphandle).1.dir = s.dir
  /-- the object is not freed -/
  keeps : ∀ object, (s.dir src.inode).find srcName = some object →
    (s.rename src tgt srcName tgtName tmphandle).1.live object.inode = s.live object.inode
  released : Released (s.renameLocks src tgt srcName tgtName tmphandle)

/-- The rename finds its object. -/
structure Found (object : Handle) (type : ItemType) : Prop where
  nameOk : isNameOk tgtName = true
  srcDir : s.getEntry src = some .dir
  tgtDir : s.getEntry tgt = some .dir
  found : (s.dir src.inode).find srcName = some object
  live : s.getEntry object = some type

/-- When the code is right about an object that it finds. -/
structure RightFor (object : Handle) (type : ItemType) : Prop where
  /-- what step 3 takes for the same is the same, in one directory -/
  same : s.takenForSame tgt tgtName object tmphandle = true →
    src = tgt ∧ (s.dir tgt.inode).find tgtName = some object
  /-- the target is not one of the two directories -/
  target : s.takenForSame tgt tgtName object tmphandle = false → ∀ target type2,
    (s.dir tgt.inode).find tgtName = some target → s.getEntry target = some type2 →
    target.inode ≠ src.inode ∧ target.inode ≠ tgt.inode
  /-- an object that is its own target is a file with another link -/
  link : Moves s src tgt srcName tgtName tmphandle object type →
    (s.dir tgt.inode).find tgtName = some object →
    type ≠ .dir ∧ s.linkcount object.inode ≠ 1 ∧ ¬ (src = tgt ∧ clip srcName = clip tgtName)
  /-- a directory that goes to another one is none of the two, and has a `..` -/
  dir : Moves s src tgt srcName tgtName tmphandle object type → type = .dir → src ≠ tgt →
    object.inode ≠ src.inode ∧ object.inode ≠ tgt.inode ∧
      ((s.dir object.inode).find dotDot).isSome = true

/-- **When the code is right.** -/
def Right : Prop := ∀ object type, Found s src tgt srcName tgtName object type →
  RightFor s src tgt srcName tgtName tmphandle object type

end

namespace Fs

variable {s t : Fs} {p : ℕ} {a b name srcName tgtName : Name} {tmphandle : Handle}
  {handle x k src tgt object target : Handle} {type type2 : ItemType} {events : List LockEvent}
  {held : List ℕ}

/-! ## The locks of the two directories -/

/-- The locks of the directories are held, the last one first. -/
def parents (src tgt : Handle) : List ℕ :=
  if src = tgt then [src.inode]
  else if src.inode > tgt.inode then [tgt.inode, src.inode] else [src.inode, tgt.inode]

theorem mem_parents {f : ℕ} : f ∈ parents src tgt ↔ f = src.inode ∨ f = tgt.inode := by
  rw [parents]
  split
  next heq => simp [heq]
  split
  next => simp [or_comm]
  next => simp

theorem exec_lock_unlock {f : ℕ} (hf : f ∉ held) :
    exec lockStep held (.lock f :: .unlock f :: events) = exec lockStep held events := by
  simp [lockStep, hf]

section

variable (hne : src ≠ tgt → src.inode ≠ tgt.inode)

include hne

theorem exec_lockParents : exec lockStep [] (lockParents src tgt) = some (parents src tgt) := by
  rw [lockParents, parents]
  split
  next => simp [lockStep]
  rename_i heq
  split
  next => simp [lockStep, (hne heq).symm]
  next => simp [lockStep, hne heq]

theorem exec_unlockParents : exec lockStep (parents src tgt) (unlockParents src tgt) = some [] := by
  rw [unlockParents, parents]
  split
  next => simp [lockStep]
  rename_i heq
  split
  next => simp [lockStep, (hne heq).symm]
  next => simp [lockStep]

theorem exec_unlock :
    exec lockStep (parents src tgt) [.unlock src.inode] = some [] ↔ src = tgt := by
  rw [parents]
  split
  next heq => simp [lockStep, heq]
  rename_i heq
  split
  next => simp [lockStep, heq, (hne heq).symm]
  next => simp [lockStep, heq]

theorem released_iff : Released (lockParents src tgt ++ events) ↔
    exec lockStep (parents src tgt) events = some [] := by
  rw [Released, exec_append, exec_lockParents hne, Option.bind_some]

end

theorem exec_targetLocks (hne : ∀ target type2, (s.dir tgt.inode).find name = some target →
      s.getEntry target = some type2 → target.inode ≠ src.inode ∧ target.inode ≠ tgt.inode) :
    exec lockStep (parents src tgt) (s.targetLocks tgt name ++ events) =
      exec lockStep (parents src tgt) events := by
  rw [targetLocks]
  cases hfind : (s.dir tgt.inode).find name with
  | none => rfl
  | some target =>
    cases hget : s.getEntry target with
    | none => simp [hget]
    | some type2 =>
      obtain ⟨hsrc, htgt⟩ := hne target type2 hfind hget
      have hnot : target.inode ∉ parents src tgt := by
        rw [mem_parents, not_or]
        exact ⟨hsrc, htgt⟩
      simpa [hget] using exec_lock_unlock hnot

theorem handle_eq_of_getEntry (hx : s.getEntry x = some type) (hk : s.getEntry k = some type2)
    (hinode : x.inode = k.inode) : x = k := by
  have hlive := live_of_getEntry hx
  rw [hinode, live_of_getEntry hk] at hlive
  obtain ⟨inode, magic⟩ := x
  obtain ⟨inode', magic'⟩ := k
  cases hinode
  cases hlive
  rfl

/-! ## Lists are kept -/

def Frees (s : Fs) (object : ℕ) (type : ItemType) : Prop :=
  type = .dir ∨ s.linkcount object = 1

/-- An object is removed from a directory. -/
theorem Lists.removeObject (type : ItemType) (h : s.Lists) (hhas : s.Has p (clip name) x) :
    ∃ t, s.removeObject p name x.inode type = (t, none) ∧ t.Lists ∧
      (∀ f, ¬ (f = x.inode ∧ s.Frees f type) → t.live f = s.live f) ∧
      (s.Frees x.inode type → t.live x.inode = none) ∧
      ∀ d n k, t.Has d n k ↔ s.Has d n k ∧ ¬ (d = p ∧ n = clip name) ∧
        ¬ (d = x.inode ∧ s.Frees d type) := by
  obtain ⟨dir, hremove, hlists, hhas'⟩ := h.remove hhas
  rw [Fs.removeObject, hremove]
  simp only
  have hfree : ∀ u : Fs, u.Lists → u.live = s.live →
      (∀ d n k, u.Has d n k ↔ s.Has d n k ∧ ¬ (d = p ∧ n = clip name)) → s.Frees x.inode type →
      (u.free x.inode).Lists ∧
      (∀ f, ¬ (f = x.inode ∧ s.Frees f type) → (u.free x.inode).live f = s.live f) ∧
      (s.Frees x.inode type → (u.free x.inode).live x.inode = none) ∧
      ∀ d n k, (u.free x.inode).Has d n k ↔ s.Has d n k ∧ ¬ (d = p ∧ n = clip name) ∧
        ¬ (d = x.inode ∧ s.Frees d type) := by
    intro u hu hlive hhas hfrees
    refine ⟨hu.empty rfl, fun f hf => ?_, fun _ => by simp [free], fun d n k => ?_⟩
    · have hne : f ≠ x.inode := fun heq => hf ⟨heq, heq ▸ hfrees⟩
      simp [free, hlive, hne]
    · rw [has_free, hhas, and_assoc]
      refine and_congr_right fun _ => and_congr_right fun _ => not_congr ?_
      exact ⟨fun heq => ⟨heq, heq ▸ hfrees⟩, And.left⟩
  by_cases htype : type = .dir
  · rw [if_pos htype]
    exact ⟨_, rfl, hfree ((s.setDir p dir).decLink p) hlists rfl hhas' (.inl htype)⟩
  rw [if_neg htype]
  have hcount : ((s.setDir p dir).decLink x.inode).linkcount x.inode = 0 ↔
      s.linkcount x.inode = 1 := by
    simp only [decLink, Fs.setDir, Function.update_self]
    grind
  by_cases hzero : ((s.setDir p dir).decLink x.inode).linkcount x.inode = 0
  · rw [if_pos hzero]
    exact ⟨_, rfl, hfree ((s.setDir p dir).decLink x.inode) hlists rfl hhas'
      (.inr (hcount.mp hzero))⟩
  rw [if_neg hzero]
  have hfrees : ¬ s.Frees x.inode type := not_or.mpr ⟨htype, fun h => hzero (hcount.mpr h)⟩
  refine ⟨_, rfl, hlists, fun _ _ => rfl, fun h => absurd h hfrees, fun d n k => ?_⟩
  refine (hhas' d n k).trans (and_congr_right fun _ => (and_iff_left ?_).symm)
  rintro ⟨rfl, h⟩
  exact hfrees h

/-- Step 4 leaves no target. -/
structure Cleared (s t : Fs) (tgt : Handle) (b : Name) (type : ItemType) : Prop where
  lists : t.Lists
  live : ∀ f, (∀ target, s.Has tgt.inode b target → target.inode = f → ¬ s.Frees f type) →
    t.live f = s.live f
  freed : ∀ target, s.Has tgt.inode b target → s.Frees target.inode type →
    t.live target.inode = none
  has : ∀ d n k, t.Has d n k ↔ s.Has d n k ∧ ¬ (d = tgt.inode ∧ n = b) ∧
    ∀ target, s.Has tgt.inode b target → target.inode = d → ¬ s.Frees d type

theorem Lists.cleared (h : s.Lists)
    (hmoves : Moves s src tgt srcName tgtName tmphandle object type) :
    ∃ t, s.removeTarget src tgt tgtName type = (t, none) ∧ Cleared s t tgt (clip tgtName) type := by
  cases hfind : (s.dir tgt.inode).find tgtName with
  | none =>
    have hfree := find_eq_none.mp hfind
    refine ⟨s, by rw [removeTarget, hfind], h, fun _ _ => rfl, fun target ht => absurd ht
      (hfree target), fun d n k => (and_iff_left_of_imp fun hk => ⟨?_, fun target ht => absurd ht
      (hfree target)⟩).symm⟩
    rintro ⟨rfl, rfl⟩
    exact hfree k hk
  | some target =>
    have hhas := h.find_eq_some.mp hfind
    obtain ⟨hsrc, htgt, type2, hget, hcompat, hempty⟩ := hmoves.compatible target hfind
    have hfrees : ∀ f, s.Frees f type2 ↔ s.Frees f type := fun f => or_congr_left hcompat.symm
    obtain ⟨t, hremove, hlists, hlive, hfreed, hhas'⟩ := h.removeObject type2 hhas
    simp only [hfrees] at hlive hfreed hhas'
    have honly : ∀ k, s.Has tgt.inode (clip tgtName) k → k = target :=
      fun k hk => h.functional hk hhas
    refine ⟨t, ?_, hlists, fun f hf => hlive f ?_, fun k hk hfrees => ?_, fun d n k => ?_⟩
    · rw [removeTarget, hfind]
      simp only [hget]
      rw [if_neg (not_or.mpr ⟨hsrc, htgt⟩)]
      by_cases htype : type = .dir
      · have htype2 := hcompat.mp htype
        rw [if_pos ⟨htype, htype2⟩, if_pos (hempty htype2), hremove]
      · have htype2 : type2 ≠ .dir := fun htype2 => htype (hcompat.mpr htype2)
        rw [if_neg fun hdirs => htype hdirs.1, if_pos ⟨htype, htype2⟩, hremove]
    · rintro ⟨rfl, hfrees⟩
      exact hf target hhas rfl hfrees
    · rw [honly k hk] at hfrees ⊢
      exact hfreed hfrees
    · rw [hhas']
      refine and_congr_right fun _ => and_congr_right fun _ => ?_
      constructor
      · rintro hold k hk rfl hfrees
        exact hold ⟨congrArg Handle.inode (honly k hk), hfrees⟩
      · rintro hold ⟨rfl, hfrees⟩
        exact hold target hhas rfl hfrees

/-! ## The move -/

theorem move_live : (s.move src tgt a b x type).1.live = s.live := by
  rw [move]
  split
  · rw [renameHere]
    cases (s.dir src.inode).rename a b <;> rfl
  split
  · rw [moveDir]
    split
    · rfl
    cases (s.dir src.inode).remove a with
    | none => rfl
    | some dir =>
      simp only
      cases ((s.setDir src.inode dir).dir x.inode).changeHandle dotDot tgt <;> rfl
  · rw [moveFile]
    cases (s.dir src.inode).remove a <;> rfl

section

variable (h : s.Lists)

include h

theorem Lists.moveDir_of_not (hfound : s.Has src.inode (clip a) x)
    (hup : ∀ k, ¬ s.Has x.inode dotDot k) (hne : ¬ (x.inode = src.inode ∨ x.inode = tgt.inode)) :
    ∃ t, s.moveDir src tgt a b x = (t, .internal) ∧ t.Lists ∧
      ∀ k, ¬ t.Has src.inode (clip a) k := by
  obtain ⟨dir, hremove, hlists, hhas⟩ := h.remove hfound
  have hchange : ((s.setDir src.inode dir).dir x.inode).changeHandle dotDot tgt = none :=
    Dir.changeHandle_eq_none fun e he heq =>
      hup e.handle ((hhas _ _ _).mp ⟨e, he, heq, rfl⟩).1
  rw [Fs.moveDir, if_neg hne, hremove]
  simp only [hchange]
  exact ⟨_, rfl, hlists, fun k hk => ((hhas _ _ _).mp hk).2 ⟨rfl, rfl⟩⟩

variable (hsrc : s.live src.inode = some (.dir, src.magic))
  (htgt : s.live tgt.inode = some (.dir, tgt.magic))
  (hfree : ∀ k, ¬ s.Has tgt.inode (clip b) k)

include hsrc htgt hfree

/-- **The move succeeds** if the object is there, and a directory can go. -/
theorem Lists.move_spec (hfound : s.Has src.inode (clip a) x)
    (hgo : type = .dir → src ≠ tgt → ¬ (x.inode = src.inode ∨ x.inode = tgt.inode) ∧
      ∃ k, s.Has x.inode dotDot k) :
    ∃ t, s.move src tgt a b x type = (t, .noError none) ∧ t.Lists ∧ t.live = s.live ∧
      ∀ d n k, t.Has d n k ↔ s.Has d n k ∧ ¬ (d = src.inode ∧ n = clip a) ∧
          ¬ ((type = .dir ∧ src ≠ tgt) ∧ d = x.inode ∧ n = dotDot) ∨
        d = tgt.inode ∧ n = clip b ∧ k = x ∨
        (type = .dir ∧ src ≠ tgt) ∧ d = x.inode ∧ n = dotDot ∧ k = tgt := by
  rw [Fs.move]
  split
  next heq =>
    subst heq
    obtain ⟨dir, hrename, hlists, hhas⟩ := h.renameHere hfound hfree
    refine ⟨_, hrename, hlists, rfl, fun d n k => (hhas d n k).trans ?_⟩
    simp
  next hne =>
    simp only [ne_eq, hne, not_false_eq_true, and_true]
    split
    next htype =>
      subst htype
      obtain ⟨hnot, k, hup⟩ := hgo rfl hne
      obtain ⟨t, hmove, ht⟩ := h.moveDir hfound hfree hup hsrc htgt hnot
      exact ⟨t, hmove, ht.lists, ht.live, ht.has⟩
    next htype =>
      obtain ⟨t, hmove, ht⟩ := h.moveFile hfound hfree htype
      exact ⟨t, hmove, ht.lists, ht.live, ht.has⟩

theorem Lists.move (hfound : ∀ k, s.Has src.inode (clip a) k → k = x) :
    (s.move src tgt a b x type).1.Lists := by
  by_cases hhas : ∃ k, s.Has src.inode (clip a) k
  · obtain ⟨k, hhas⟩ := hhas
    rw [hfound k hhas] at hhas
    by_cases hgo : type = .dir → src ≠ tgt → ¬ (x.inode = src.inode ∨ x.inode = tgt.inode) ∧
        ∃ k, s.Has x.inode dotDot k
    · obtain ⟨t, hmove, hlists, -⟩ := h.move_spec hsrc htgt hfree hhas hgo
      rw [hmove]
      exact hlists
    push Not at hgo
    obtain ⟨htype, hne, hup⟩ := hgo
    rw [Fs.move, if_neg hne, if_pos htype]
    by_cases hblocks : x.inode = src.inode ∨ x.inode = tgt.inode
    · rw [Fs.moveDir, if_pos hblocks]
      exact h
    · obtain ⟨t, hmove, hlists, -⟩ := h.moveDir_of_not hhas (hup (not_or.mp hblocks)) hblocks
      rw [hmove]
      exact hlists
  · rw [(move_of_not_has (not_exists.mp hhas)).1]
    exact h

end

/-! ## Step 4 and the move -/

section

variable (h : s.Lists) (hmoves : Moves s src tgt srcName tgtName tmphandle object type)

include hmoves

theorem Cleared.parents (hc : Cleared s t tgt (clip tgtName) type) (h : s.Lists) :
    t.live src.inode = some (.dir, src.magic) ∧ t.live tgt.inode = some (.dir, tgt.magic) := by
  have hkept : ∀ f, f = src.inode ∨ f = tgt.inode → t.live f = s.live f := by
    refine fun f hf => hc.live f fun target hk hinode => ?_
    obtain ⟨hsrc, htgt, -⟩ := hmoves.compatible target (h.find_eq_some.mpr hk)
    rcases hf with rfl | rfl
    · exact absurd hinode hsrc
    · exact absurd hinode htgt
  exact ⟨(hkept _ (.inl rfl)).trans (live_of_getEntry hmoves.srcDir),
    (hkept _ (.inr rfl)).trans (live_of_getEntry hmoves.tgtDir)⟩

include h

theorem Lists.target_eq (htarget : s.Has tgt.inode (clip tgtName) target)
    (hinode : target.inode = object.inode) : target = object := by
  obtain ⟨-, -, type2, hget, -⟩ := hmoves.compatible target (h.find_eq_some.mpr htarget)
  exact handle_eq_of_getEntry hget hmoves.live hinode

theorem Lists.rename_moves : (s.rename src tgt srcName tgtName tmphandle).1.Lists := by
  obtain ⟨t, hremove, hc⟩ := h.cleared hmoves
  obtain ⟨hsrc, htgt⟩ := hc.parents hmoves h
  rw [rename_of_removeTarget hmoves hremove]
  refine hc.lists.move hsrc htgt (fun k hk => ((hc.has _ _ _).mp hk).2.1 ⟨rfl, rfl⟩) fun k hk => ?_
  exact h.functional ((hc.has _ _ _).mp hk).1 (h.find_eq_some.mp hmoves.found)

end

/-- **Every call** keeps the lists of all directories. -/
theorem Lists.run (h : s.Lists) (c : Call) : (s.run c).1.Lists := by
  have hleaf : ∀ type parent name magic, (s.createLeaf type parent name magic).1.Lists := by
    intro type parent name magic
    refine inParent_keeps h fun _ _ hnew => (Lists.addDirEntry (s := s.createNew type magic)
      (h.empty rfl) _ _ _ fun k hk => hnew k (has_createNew.mp hk).1).1
  cases c with
  | mkDir parent name magic =>
    exact inParent_keeps h fun hname _ hnew => (h.withDir magic hname hnew).1
  | create parent name magic => exact hleaf .file parent name magic
  | symlink parent name magic => exact hleaf .lnk parent name magic
  | link parent name target =>
    refine inParent_keeps h fun _ _ hnew => ?_
    split
    · exact h
    split
    · exact h
    · exact (h.addDirEntry parent.inode target name hnew).1
  | unlink parent name =>
    refine unlink_keeps h fun x type _ hfind _ _ => ?_
    obtain ⟨t, hremove, hlists, -⟩ := h.removeObject type (h.find_eq_some.mp hfind)
    rw [hremove]
    exact hlists
  | rename src tgt srcName tgtName tmphandle =>
    by_cases hmoves : ∃ object type, Moves s src tgt srcName tgtName tmphandle object type
    · obtain ⟨object, type, hmoves⟩ := hmoves
      exact h.rename_moves hmoves
    · rw [Fs.run, rename_of_not fun object type hm => hmoves ⟨object, type, hm⟩]
      exact h

theorem lists_init (magic : UInt32) (dotDotRoot : Bool) : (Fs.init magic dotDotRoot).Lists :=
  (init_spec magic dotDotRoot).1

end Fs

/-! ## All or nothing -/

section

open Fs

variable {s t : Fs} {src tgt object target : Handle} {srcName tgtName : Name} {tmphandle : Handle}
  {type type2 : ItemType} {rc : Rc}

theorem Found.inode_ne (hf : Found s src tgt srcName tgtName object type) (hne : src ≠ tgt) :
    src.inode ≠ tgt.inode :=
  fun hinode => hne (handle_eq_of_getEntry hf.srcDir hf.tgtDir hinode)

theorem Found.unique {object' : Handle} {type' : ItemType}
    (hf : Found s src tgt srcName tgtName object type)
    (hf' : Found s src tgt srcName tgtName object' type') : object = object' ∧ type = type' := by
  obtain rfl : object = object' := Option.some.inj (hf.found.symm.trans hf'.found)
  exact ⟨rfl, Option.some.inj (hf.live.symm.trans hf'.live)⟩

theorem Moves.toFound (hm : Moves s src tgt srcName tgtName tmphandle object type) :
    Found s src tgt srcName tgtName object type :=
  ⟨hm.nameOk, hm.srcDir, hm.tgtDir, hm.found, hm.live⟩

theorem atomic_of_fails (hfails : rc.Fails)
    (hrename : s.rename src tgt srcName tgtName tmphandle = (s, rc))
    (hreleased : Released (s.renameLocks src tgt srcName tgtName tmphandle)) :
    Atomic s src tgt srcName tgtName tmphandle := by
  refine ⟨.inr ?_, fun object _ => ?_, hreleased⟩
  · rw [hrename]
    exact ⟨hfails, rfl⟩
  · rw [hrename]

theorem released_unlockParents (hsrc : s.getEntry src = some type)
    (htgt : s.getEntry tgt = some type2) :
    Released (lockParents src tgt ++ unlockParents src tgt) := by
  have hne : src ≠ tgt → src.inode ≠ tgt.inode :=
    fun hne hinode => hne (handle_eq_of_getEntry hsrc htgt hinode)
  rw [released_iff hne, exec_unlockParents hne]

/-- When no object is found, nothing is done. -/
theorem atomic_of_not_found (hf : ∀ object type, ¬ Found s src tgt srcName tgtName object type) :
    Atomic s src tgt srcName tgtName tmphandle := by
  have hargs : Rc.args.Fails := trivial
  have hstale : Rc.stale.Fails := trivial
  have hnotdir : Rc.notdir.Fails := trivial
  have hnoent : Rc.noent.Fails := trivial
  by_cases hname : isNameOk tgtName = true
  swap
  · refine atomic_of_fails hargs ?_ ?_
    · simp [rename, hname]
    · simp [renameLocks, hname, Released]
  cases hsrc : s.getEntry src with
  | none =>
    refine atomic_of_fails hstale ?_ ?_
    · simp [rename, hname, hsrc]
    · simp [renameLocks, hname, hsrc, Released]
  | some type1 =>
    cases htgt : s.getEntry tgt with
    | none =>
      refine atomic_of_fails hstale ?_ ?_
      · simp [rename, hname, hsrc, htgt]
      · simp [renameLocks, hname, hsrc, htgt, Released]
    | some type2 =>
      by_cases hdirs : type1 ≠ .dir ∨ type2 ≠ .dir
      · refine atomic_of_fails hnotdir ?_ ?_
        · simp [rename, hname, hsrc, htgt, hdirs]
        · simp [renameLocks, hname, hsrc, htgt, hdirs, Released]
      have hunlock := released_unlockParents hsrc htgt
      cases hfind : (s.dir src.inode).find srcName with
      | none =>
        refine atomic_of_fails hnoent ?_ ?_
        · simp [rename, hname, hsrc, htgt, hdirs, hfind]
        · simpa [renameLocks, hname, hsrc, htgt, hdirs, hfind] using hunlock
      | some object =>
        cases hget : s.getEntry object with
        | none =>
          refine atomic_of_fails hstale ?_ ?_
          · simp [rename, hname, hsrc, htgt, hdirs, hfind, hget]
          · simpa [renameLocks, hname, hsrc, htgt, hdirs, hfind, hget] using hunlock
        | some type =>
          rw [not_or, not_not, not_not] at hdirs
          exact absurd ⟨hname, hdirs.1 ▸ hsrc, hdirs.2 ▸ htgt, hfind, hget⟩ (hf object type)

section

variable (hf : Found s src tgt srcName tgtName object type)

include hf

theorem Found.atomic_iff_same (h : s.Lists)
    (hsame : s.takenForSame tgt tgtName object tmphandle = true) :
    Atomic s src tgt srcName tgtName tmphandle ↔
      src = tgt ∧ (s.dir tgt.inode).find tgtName = some object := by
  have hrename : s.rename src tgt srcName tgtName tmphandle = (s, .noError none) := by
    simp [rename, hf.nameOk, hf.srcDir, hf.tgtDir, hf.found, hf.live, hsame]
  have hlocks : s.renameLocks src tgt srcName tgtName tmphandle =
      lockParents src tgt ++ [.unlock src.inode] := by
    simp [renameLocks, hf.nameOk, hf.srcDir, hf.tgtDir, hf.found, hf.live, hsame]
  have hreleased : Released (s.renameLocks src tgt srcName tgtName tmphandle) ↔ src = tgt := by
    rw [hlocks, released_iff hf.inode_ne, exec_unlock hf.inode_ne]
  constructor
  · intro hatomic
    have heq := hreleased.mp hatomic.released
    refine ⟨heq, ?_⟩
    obtain ⟨-, object', type', hfound, hlive, hrenamed⟩ | ⟨hfails, -⟩ := hatomic.outcome
    · cases hf.found.symm.trans hfound
      have htarget := hrenamed.target
      rw [hrename] at htarget
      exact h.find_eq_some.mpr htarget
    · rw [hrename] at hfails
      exact hfails.elim
  · rintro ⟨heq, htarget⟩
    refine ⟨.inl ?_, fun object _ => by rw [hrename], hreleased.mpr heq⟩
    rw [hrename]
    refine ⟨rfl, object, type, hf.found, hf.live, h.find_eq_some.mp htarget, fun k hk => ?_,
      fun _ _ _ _ _ _ _ => Iff.rfl, fun _ hne => absurd heq hne⟩
    exact ⟨h.functional hk (h.find_eq_some.mp hf.found), h.find_eq_some.mp htarget⟩

variable (hsame : s.takenForSame tgt tgtName object tmphandle = false)

include hsame

theorem Found.atomic_iff_target (hm : ¬ Moves s src tgt srcName tgtName tmphandle object type) :
    Atomic s src tgt srcName tgtName tmphandle ↔ ∀ target type2,
      (s.dir tgt.inode).find tgtName = some target → s.getEntry target = some type2 →
      target.inode ≠ src.inode ∧ target.inode ≠ tgt.inode := by
  have hcompat := fun hcompat => hm ⟨hf.nameOk, hf.srcDir, hf.tgtDir, hf.found, hf.live, hsame,
    hcompat⟩
  obtain ⟨rc, hremove, hnot, hfails⟩ := removeTarget_of_not hcompat
  have hrename : s.rename src tgt srcName tgtName tmphandle = (s, rc) := by
    simp [rename, hf.nameOk, hf.srcDir, hf.tgtDir, hf.found, hf.live, hsame, hremove]
  rw [← hfails]
  constructor
  · intro hatomic
    obtain ⟨hok, -⟩ | ⟨hfails, -⟩ := hatomic.outcome
    · rw [hrename] at hok
      exact absurd hok (hnot none)
    · rwa [hrename] at hfails
  · intro hrc
    refine atomic_of_fails hrc hrename ?_
    have hlocks : s.renameLocks src tgt srcName tgtName tmphandle =
        lockParents src tgt ++ (s.targetLocks tgt tgtName ++ unlockParents src tgt) := by
      simp [renameLocks, hf.nameOk, hf.srcDir, hf.tgtDir, hf.found, hf.live, hsame, hremove]
    rw [hlocks, released_iff hf.inode_ne, exec_targetLocks (hfails.mp hrc),
      exec_unlockParents hf.inode_ne]

end

/-! ## The object is moved -/

section

variable (h : s.Lists) (hmoves : Moves s src tgt srcName tgtName tmphandle object type)
  (hremove : s.removeTarget src tgt tgtName type = (t, none))
  (hc : Cleared s t tgt (clip tgtName) type)

include h hmoves hc

theorem Fs.Cleared.has_object
    (hother : (s.dir tgt.inode).find tgtName = some object →
      ¬ (src = tgt ∧ clip srcName = clip tgtName)) : t.Has src.inode (clip srcName) object := by
  have hfound := h.find_eq_some.mp hmoves.found
  refine (hc.has _ _ _).mpr ⟨hfound, ?_, fun target htarget hinode => ?_⟩
  · rintro ⟨hinode, hname⟩
    have hsame : src = tgt := handle_eq_of_getEntry hmoves.srcDir hmoves.tgtDir hinode
    rw [hinode, hname] at hfound
    exact hother (h.find_eq_some.mpr hfound) ⟨hsame, hname⟩
  · exact absurd hinode (hmoves.compatible target (h.find_eq_some.mpr htarget)).1

include hremove

theorem RightFor.atomic_of_moves
    (hright : RightFor s src tgt srcName tgtName tmphandle object type) :
    Atomic s src tgt srcName tgtName tmphandle := by
  obtain ⟨hsrc, htgt⟩ := hc.parents hmoves h
  have hlink := hright.link hmoves
  have hhas := hc.has_object h hmoves fun htarget => (hlink htarget).2.2
  -- the object is not freed
  have hkept : ∀ target, s.Has tgt.inode (clip tgtName) target → target.inode = object.inode →
      ¬ s.Frees object.inode type := by
    intro target htarget hinode
    rw [h.target_eq hmoves htarget hinode] at htarget
    obtain ⟨htype, hcount, -⟩ := hlink (h.find_eq_some.mpr htarget)
    exact not_or.mpr ⟨htype, hcount⟩
  have hgo : type = .dir → src ≠ tgt → ¬ (object.inode = src.inode ∨ object.inode = tgt.inode) ∧
      ∃ k, t.Has object.inode dotDot k := by
    intro htype hne
    obtain ⟨hnsrc, hntgt, hup⟩ := hright.dir hmoves htype hne
    obtain ⟨k, hk⟩ := Option.isSome_iff_exists.mp hup
    refine ⟨not_or.mpr ⟨hnsrc, hntgt⟩, k, (hc.has _ _ _).mpr ⟨h.find_eq_some.mp hk, ?_, hkept⟩⟩
    exact fun hnew => hntgt hnew.1
  obtain ⟨u, hmove, -, hlive, huhas⟩ := hc.lists.move_spec hsrc htgt
    (fun k hk => ((hc.has _ _ _).mp hk).2.1 ⟨rfl, rfl⟩) hhas hgo
  have hrename := rename_of_removeTarget hmoves hremove
  rw [hmove] at hrename
  have hrenamed : Renamed s src tgt srcName tgtName u object type := by
    refine ⟨(huhas _ _ _).mpr (.inr (.inl ⟨rfl, rfl, rfl⟩)), fun k hk => ?_,
      fun d n k hold hnew hother hup => ?_, fun htype hne k => ?_⟩
    · rcases (huhas _ _ _).mp hk with ⟨-, hold, -⟩ | ⟨hinode, hname, -⟩ | ⟨⟨htype, hne⟩, hinode, -⟩
      · exact absurd ⟨rfl, rfl⟩ hold
      · exact absurd ⟨hinode, hname⟩ ((hc.has _ _ _).mp hhas).2.1
      · exact absurd (.inl hinode.symm) (hgo htype hne).1
    · constructor
      · intro hk
        rcases (huhas d n k).mp hk with ⟨hk, -⟩ | ⟨hd, hn, -⟩ | ⟨⟨htype, hne⟩, hd, hn, -⟩
        · exact ((hc.has _ _ _).mp hk).1
        · exact absurd ⟨hd, hn⟩ hnew
        · exact absurd ⟨htype, hne, hd, hn⟩ hup
      · intro hk
        have hk' : t.Has d n k := by
          refine (hc.has _ _ _).mpr ⟨hk, hnew, fun target htarget hinode => ?_⟩
          have heq := congrArg Handle.inode (hother target htarget hinode)
          rw [← hinode, heq]
          exact hkept target htarget heq
        exact (huhas d n k).mpr (.inl ⟨hk', hold, fun hnew => hup (and_assoc.mp hnew)⟩)
    · constructor
      · intro hk
        rcases (huhas _ _ _).mp hk with ⟨-, -, hup⟩ | ⟨-, hname, -⟩ | ⟨-, -, -, hk⟩
        · exact absurd ⟨⟨htype, hne⟩, rfl, rfl⟩ hup
        · exact absurd hname.symm (clip_of_isNameOk hmoves.nameOk).2
        · exact hk
      · exact fun hk => (huhas _ _ _).mpr (.inr (.inr ⟨⟨htype, hne⟩, rfl, rfl, hk⟩))
  refine ⟨.inl ?_, fun object' hobject => ?_, ?_⟩
  · rw [hrename]
    exact ⟨rfl, object, type, hmoves.found, hmoves.live, hrenamed⟩
  · cases hmoves.found.symm.trans hobject
    rw [hrename, hlive]
    exact hc.live _ hkept
  · have hne := hmoves.toFound.inode_ne
    have hlocks : s.renameLocks src tgt srcName tgtName tmphandle =
        lockParents src tgt ++ (s.targetLocks tgt tgtName ++
          t.moveLocks src tgt srcName object type) := by
      simp [renameLocks, hmoves.nameOk, hmoves.srcDir, hmoves.tgtDir, hmoves.found, hmoves.live,
        hmoves.notSame, hremove]
    rw [hlocks, released_iff hne, exec_targetLocks fun target type2 hfind _ => ⟨
      (hmoves.compatible target hfind).1, (hmoves.compatible target hfind).2.1⟩, moveLocks]
    split
    next heq => exact (exec_unlock hne).mpr heq
    rename_i hdiff
    split
    next htype =>
      have hnot : object.inode ∉ parents src tgt := by
        rw [mem_parents]
        exact (hgo htype hdiff).1
      rw [exec_lock_unlock hnot, exec_unlockParents hne]
    next =>
      obtain ⟨dir, hdir, -⟩ := hc.lists.remove hhas
      rw [hdir]
      exact exec_unlockParents hne

theorem RightFor.of_atomic (hatomic : Atomic s src tgt srcName tgtName tmphandle) :
    RightFor s src tgt srcName tgtName tmphandle object type := by
  have hrename := rename_of_removeTarget hmoves hremove
  obtain ⟨hsrc, htgt⟩ := hc.parents hmoves h
  have hfound := h.find_eq_some.mp hmoves.found
  -- the object is there when the move fails
  have hstays : ∀ u, (t.move src tgt srcName tgtName object type).1 = u →
      (∀ k, (t.move src tgt srcName tgtName object type).2 ≠ .noError k) →
      u.Has src.inode (clip srcName) object := by
    rintro u rfl hrc
    rw [← hrename] at hrc ⊢
    obtain ⟨hok, -⟩ | ⟨-, hdir⟩ := hatomic.outcome
    · exact absurd hok (hrc none)
    · rw [Has, entries, hdir]
      exact hfound
  have hmoved : ∀ k, t.Has src.inode (clip srcName) k → k = object :=
    fun k hk => h.functional ((hc.has _ _ _).mp hk).1 hfound
  have hhas : t.Has src.inode (clip srcName) object := by
    by_contra hnot
    obtain ⟨heq, hrc⟩ := move_of_not_has fun k hk => hnot (hmoved k hk ▸ hk)
    exact hnot (hstays t heq hrc)
  have hfrees : (s.dir tgt.inode).find tgtName = some object → ¬ s.Frees object.inode type := by
    intro htarget hfrees
    have hlive := hatomic.keeps object hmoves.found
    rw [hrename, move_live, hc.freed object (h.find_eq_some.mp htarget) hfrees,
      live_of_getEntry hmoves.live] at hlive
    cases hlive
  refine ⟨fun hsame => ?_, fun _ target type2 hfind _ => ?_, fun _ htarget => ⟨?_, ?_, ?_⟩,
    fun _ htype hne => ?_⟩
  · rw [hmoves.notSame] at hsame
    cases hsame
  · exact ⟨(hmoves.compatible target hfind).1, (hmoves.compatible target hfind).2.1⟩
  · exact fun htype => hfrees htarget (.inl htype)
  · exact fun hcount => hfrees htarget (.inr hcount)
  · rintro ⟨rfl, hname⟩
    exact ((hc.has _ _ _).mp hhas).2.1 ⟨rfl, hname⟩
  · have hblocks : ¬ (object.inode = src.inode ∨ object.inode = tgt.inode) := by
      intro hblocks
      have hmove : (t.move src tgt srcName tgtName object type).2 = .blocked := by
        rw [move, if_neg hne, if_pos htype, moveDir, if_pos hblocks]
      rw [← hrename] at hmove
      obtain ⟨hok, -⟩ | ⟨hfails, -⟩ := hatomic.outcome
      · cases hok.symm.trans hmove
      · rw [hmove] at hfails
        exact hfails
    refine ⟨(not_or.mp hblocks).1, (not_or.mp hblocks).2, Option.isSome_iff_ne_none.mpr ?_⟩
    intro hfind
    obtain ⟨u, hmove, -, hgone⟩ := hc.lists.moveDir_of_not hhas
      (fun k hk => find_eq_none.mp hfind k ((hc.has _ _ _).mp hk).1) hblocks
    have heq : t.move src tgt srcName tgtName object type = (u, .internal) := by
      rw [move, if_neg hne, if_pos htype, hmove]
    refine hgone object (hstays u (by rw [heq]) ?_)
    rw [heq]
    rintro _ ⟨⟩

end

/-! ## Runs -/

/-- **A rename is all or nothing if and only if it is `Right`.** -/
theorem Fs.Lists.atomic_right (h : s.Lists) :
    Atomic s src tgt srcName tgtName tmphandle ↔ Right s src tgt srcName tgtName tmphandle := by
  by_cases hfound : ∃ object type, Found s src tgt srcName tgtName object type
  swap
  · have hnot : ∀ object type, ¬ Found s src tgt srcName tgtName object type :=
      fun object type hf => hfound ⟨object, type, hf⟩
    exact iff_of_true (atomic_of_not_found hnot) fun object type hf => absurd hf (hnot object type)
  obtain ⟨object, type, hf⟩ := hfound
  have hright : Right s src tgt srcName tgtName tmphandle ↔
      RightFor s src tgt srcName tgtName tmphandle object type := by
    refine ⟨fun hright => hright object type hf, fun hright object' type' hf' => ?_⟩
    obtain ⟨rfl, rfl⟩ := hf.unique hf'
    exact hright
  rw [hright]
  cases hsame : s.takenForSame tgt tgtName object tmphandle with
  | true =>
    rw [hf.atomic_iff_same h hsame]
    have hnot : ¬ Moves s src tgt srcName tgtName tmphandle object type := by
      intro hm
      cases hsame.symm.trans hm.notSame
    refine ⟨fun hsame' => ⟨fun _ => hsame', fun hsame' => ?_, fun hm => absurd hm hnot,
      fun hm => absurd hm hnot⟩, fun hright => hright.same hsame⟩
    cases hsame.symm.trans hsame'
  | false =>
    by_cases hm : Moves s src tgt srcName tgtName tmphandle object type
    · obtain ⟨t, hremove, hc⟩ := h.cleared hm
      exact ⟨RightFor.of_atomic h hm hremove hc, RightFor.atomic_of_moves h hm hremove hc⟩
    · rw [hf.atomic_iff_target hsame hm]
      refine ⟨fun htarget => ⟨fun hsame' => ?_, fun _ => htarget, fun hm' => absurd hm' hm,
        fun hm' => absurd hm' hm⟩, fun hright => hright.target hsame⟩
      cases hsame.symm.trans hsame'

/-- **In every state of every run, a rename is all or nothing if and only if it is `Right`.** -/
theorem atomic_iff_right (magic : UInt32) (dotDotRoot : Bool)
    (as : List (Call × (Handle → Bool))) :
    Always step (fun s => ∀ src tgt srcName tgtName tmphandle,
      Atomic s src tgt srcName tgtName tmphandle ↔ Right s src tgt srcName tgtName tmphandle)
      (Fs.init magic dotDotRoot) as := by
  have hlists : Always step Fs.Lists (Fs.init magic dotDotRoot) as := by
    refine always_of_step (lists_init magic dotDotRoot) fun s a t h hstep => ?_
    obtain ⟨-, rfl⟩ := step_eq_some hstep
    exact h.run a.1
  exact hlists.mono fun s h src tgt srcName tgtName tmphandle => h.atomic_right

/-- **The lists of all directories stay in order in every run**, also by calls that are not
`Safe`. A run ends where a call takes freed memory for an item. -/
theorem lists_always (magic : UInt32) (dotDotRoot : Bool) (as : List (Call × (Handle → Bool))) :
    Always step (fun s => ∀ d, (s.dir d).Ok s.freshDirent) (Fs.init magic dotDotRoot) as := by
  refine always_of_step (lists_init magic dotDotRoot) fun s a t h hstep => ?_
  obtain ⟨-, rfl⟩ := step_eq_some hstep
  exact Lists.run h a.1

/-- A file is created, and renamed to its own name: step 4 removes it. -/
theorem not_atomic : ¬ ∀ as, Always step (fun s => ∀ src tgt srcName tgtName tmphandle,
    Atomic s src tgt srcName tgtName tmphandle) (Fs.init 7 true) as := by
  intro h
  have hatomic := (h [(.create ⟨1, 7⟩ [97] 8, fun _ => false)]).2 _ rfl ⟨1, 7⟩ ⟨1, 7⟩ [97] [97]
    ⟨0, 0⟩
  have hlive := hatomic.keeps ⟨2, 8⟩ (by decide +kernel)
  revert hlive
  decide +kernel

end

end CloudNfs.GhostFs
