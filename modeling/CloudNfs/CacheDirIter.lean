import Mathlib.Data.List.Nodup
import Mathlib.Algebra.Order.Ring.Nat

/-!
# Walking through the data cache with several threads

The data cache keeps its files in directories on two levels. When it is flushed by `mod` threads,
each of them walks through all of the first level, and of the directories in there it opens those
whose turn it is: `cache_content_local_cache_dir_iter` counts what it reads, and takes what has a
count that is `index` modulo `mod`.

* `.`, `..` and the end of the directory are counted too. Every thread counts alike, so each
  directory has its turn with one of them; a thread that finds the end at another's turn reads on
  until it is its own.
* So each file is returned once, by one thread (`flush_visits_once`).
* A directory gives its names in the same order to each thread, and nothing fails. `d_name` of a
  result is made of three names (`Found`). `level1_cnt` is an `unsigned int`.
-/

namespace CloudNfs.CacheDirIter

/-! ## The code -/

structure Tree where
  /-- what is read in the directory of the export -/
  level0 : List String
  level1 : String → List String
  level2 : String → String → List String
  /-- the names in a directory are different -/
  nodup0 : level0.Nodup
  nodup1 : ∀ name1, (level1 name1).Nodup
  nodup2 : ∀ name1 name2, (level2 name1 name2).Nodup

/-- `cache_content_dirinfo_t`. A directory that is open still has some names to give. -/
structure DirInfo where
  level0Dir : Option (List String)
  level1Dir : Option (List String)
  level2Dir : Option (List String)
  level1Cnt : ℕ
  level1Name : String
  level2Name : String

/-- A file, by the names that `d_name` is made of. -/
structure Found where
  level1Name : String
  level2Name : String
  /-- `d_name_save` -/
  dName : String
  deriving DecidableEq

/-- `.` and `..` -/
def IsDot (name : String) : Prop := name = "." ∨ name = ".."

instance (name : String) : Decidable (IsDot name) := by
  unfold IsDot
  infer_instance

/-- `cache_content_local_cache_opendir` -/
def localCacheOpendir (T : Tree) : DirInfo := ⟨some T.level0, none, none, 0, "", ""⟩

/-- What one pass through the loop of `cache_content_local_cache_dir_iter` ends with. -/
inductive Pass where
  /-- the next pass -/
  | again (d : DirInfo)
  /-- a result, `TRUE` or `FALSE`, perhaps with a file -/
  | result (rc : Bool) (entry : Option Found) (d : DirInfo)

/-- One pass through the loop of `cache_content_local_cache_dir_iter`. -/
def pass (T : Tree) (index mod : ℕ) (d : DirInfo) : Pass :=
  match d.level2Dir with
  | some (name :: rest) =>
    let d := { d with level2Dir := some rest }
    if IsDot name then .again d else .result true (some ⟨d.level1Name, d.level2Name, name⟩) d
  | some [] => .again { d with level2Dir := none }
  | none =>
    match d.level1Dir with
    | some names =>
      let d := { d with
        level1Dir := some names.tail
        level1Cnt := (d.level1Cnt + 1) % 2 ^ 32 }
      if ¬ mod ≤ 1 ∧ d.level1Cnt % mod ≠ index then .again d
      else
        match names with
        | name :: _ =>
          if IsDot name then .again d
          else
            .again { d with
              level2Name := name
              level2Dir := some (T.level2 d.level1Name name) }
        | [] => .again { d with level1Dir := none }
    | none =>
      match d.level0Dir with
      | some (name :: rest) =>
        let d := { d with level0Dir := some rest }
        if IsDot name then .again d
        else
          .again { d with
            level1Name := name
            level1Cnt := 0
            level1Dir := some (T.level1 name) }
      | some [] => .result false none d
      -- `EINVAL`
      | none => .result true none d

/-- `cache_content_local_cache_dir_iter`, as far as its loop gets in a number of passes. -/
def localCacheDirIter (T : Tree) (index mod : ℕ) :
    ℕ → DirInfo → Option (Bool × Option Found × DirInfo)
  | 0, _ => none
  | fuel + 1, d =>
    match pass T index mod d with
    | .again d => localCacheDirIter T index mod fuel d
    | .result rc entry d => some (rc, entry, d)

/-- What a thread gets until `cache_content_local_cache_dir_iter` returns `FALSE`. -/
def flush (T : Tree) (index mod : ℕ) : ℕ → DirInfo → Option (List Found)
  | 0, _ => none
  | fuel + 1, d =>
    match localCacheDirIter T index mod (fuel + 1) d with
    | none => none
    | some (false, _, _) => some []
    | some (true, entry, d) => (flush T index mod fuel d).map fun found => entry.toList ++ found

/-! ## Enough passes -/

section

variable {T : Tree} {index mod fuel : ℕ} {d d' : DirInfo} {files : List Found}

theorem dirIter_succ {r : Bool × Option Found × DirInfo}
    (h : localCacheDirIter T index mod fuel d = some r) :
    localCacheDirIter T index mod (fuel + 1) d = some r := by
  induction fuel generalizing d with
  | zero => cases h
  | succ fuel ih =>
    rw [localCacheDirIter] at h ⊢
    cases hpass : pass T index mod d with
    | again d' =>
      rw [hpass] at h
      exact ih h
    | result rc entry d' =>
      rw [hpass] at h
      exact h

theorem flush_succ (h : flush T index mod fuel d = some files) :
    flush T index mod (fuel + 1) d = some files := by
  induction fuel generalizing d files with
  | zero => cases h
  | succ fuel ih =>
    rw [flush] at h ⊢
    cases hiter : localCacheDirIter T index mod (fuel + 1) d with
    | none =>
      rw [hiter] at h
      cases h
    | some r =>
      obtain ⟨rc, entry, d'⟩ := r
      rw [dirIter_succ hiter]
      rw [hiter] at h
      cases rc with
      | false => exact h
      | true =>
        obtain ⟨rest, hrest, rfl⟩ := Option.map_eq_some_iff.mp h
        simp only [ih hrest, Option.map_some]

/-- The thread that is at `d` ends, and these are the files it still gets. -/
def Yields (T : Tree) (index mod : ℕ) (d : DirInfo) (files : List Found) : Prop :=
  ∃ fuel, ∀ more, fuel ≤ more → flush T index mod more d = some files

theorem yields_of_flush (fuel : ℕ) (h : flush T index mod fuel d = some files) :
    Yields T index mod d files := by
  refine ⟨fuel, fun more hmore => ?_⟩
  induction hmore with
  | refl => exact h
  | step _ ih => exact flush_succ ih

theorem Yields.again (hpass : pass T index mod d = .again d') (h : Yields T index mod d' files) :
    Yields T index mod d files := by
  obtain ⟨fuel, h⟩ := h
  have hd' := h (fuel + 1) (Nat.le_succ fuel)
  have hd : localCacheDirIter T index mod (fuel + 2) d =
      localCacheDirIter T index mod (fuel + 1) d' := by
    rw [localCacheDirIter, hpass]
  refine yields_of_flush (fuel + 2) ?_
  rw [flush] at hd' ⊢
  rw [hd]
  cases hiter : localCacheDirIter T index mod (fuel + 1) d' with
  | none =>
    rw [hiter] at hd'
    cases hd'
  | some r =>
    obtain ⟨rc, entry, d''⟩ := r
    rw [hiter] at hd'
    cases rc with
    | false => exact hd'
    | true =>
      obtain ⟨rest, hrest, rfl⟩ := Option.map_eq_some_iff.mp hd'
      simp only [flush_succ hrest, Option.map_some]

theorem Yields.found {f : Found} (hpass : pass T index mod d = .result true (some f) d')
    (h : Yields T index mod d' files) : Yields T index mod d (f :: files) := by
  obtain ⟨fuel, h⟩ := h
  refine yields_of_flush (fuel + 1) ?_
  rw [flush, localCacheDirIter, hpass]
  simp only [h fuel (Nat.le_refl fuel), Option.map_some, Option.toList_some, List.singleton_append]

theorem yields_nil (hpass : pass T index mod d = .result false none d') :
    Yields T index mod d [] := by
  refine yields_of_flush 1 ?_
  rw [flush, localCacheDirIter, hpass]

/-! ## The files of a thread -/

/-- The files among the names in a directory of the second level. -/
def filesOf (name1 name2 : String) (names : List String) : List Found :=
  (names.filter fun name => ¬ IsDot name).map fun name => ⟨name1, name2, name⟩

def Mine (index mod count : ℕ) : Prop := count % 2 ^ 32 % mod = index

instance (index mod count : ℕ) : Decidable (Mine index mod count) := by
  unfold Mine
  infer_instance

/-- The files of the thread in a directory of the first level. -/
def share1 (T : Tree) (index mod : ℕ) (name1 : String) : ℕ → List String → List Found
  | _, [] => []
  | count, name2 :: names =>
    (if Mine index mod (count + 1) ∧ ¬ IsDot name2 then
      filesOf name1 name2 (T.level2 name1 name2) else []) ++
    share1 T index mod name1 (count + 1) names

/-- The files of the thread in some directories of the first level. -/
def share0 (T : Tree) (index mod : ℕ) (names : List String) : List Found :=
  (names.filter fun name => ¬ IsDot name).flatMap fun name1 =>
    share1 T index mod name1 0 (T.level1 name1)

def share (T : Tree) (index mod : ℕ) : List Found := share0 T index mod T.level0

variable {level0Dir level1Dir : Option (List String)} {name1 name2 : String} {count : ℕ}

theorem yields_level2 (names : List String)
    (h : Yields T index mod ⟨level0Dir, level1Dir, none, count, name1, name2⟩ files) :
    Yields T index mod ⟨level0Dir, level1Dir, some names, count, name1, name2⟩
      (filesOf name1 name2 names ++ files) := by
  induction names with
  | nil => exact h.again rfl
  | cons name names ih =>
    by_cases hdot : IsDot name
    · have heq : filesOf name1 name2 (name :: names) = filesOf name1 name2 names := by
        simp [filesOf, hdot]
      rw [heq]
      refine ih.again ?_
      simp only [pass, if_pos hdot]
    · have heq : filesOf name1 name2 (name :: names) =
          ⟨name1, name2, name⟩ :: filesOf name1 name2 names := by
        simp [filesOf, hdot]
      rw [heq, List.cons_append]
      refine ih.found ?_
      simp only [pass, if_neg hdot]

theorem not_mine_iff (hindex : index < mod) (count : ℕ) :
    (¬ mod ≤ 1 ∧ (count % 2 ^ 32) % mod ≠ index) ↔ ¬ Mine index mod count := by
  rw [Mine]
  refine ⟨fun h => h.2, fun h => ⟨fun hle => h ?_, h⟩⟩
  obtain rfl : mod = 1 := by omega
  rw [Nat.mod_one]
  omega

theorem exists_mine (hindex : index < mod) (hmod : mod < 2 ^ 32) (count : ℕ) :
    ∃ k, Mine index mod (count + k + 1) := by
  refine ⟨2 ^ 32 * (count + 1) + index - (count + 1), ?_⟩
  have hsum : count + (2 ^ 32 * (count + 1) + index - (count + 1)) + 1 =
      2 ^ 32 * (count + 1) + index := by
    omega
  rw [hsum, Mine, Nat.mul_add_mod, Nat.mod_eq_of_lt (Nat.lt_trans hindex hmod),
    Nat.mod_eq_of_lt hindex]

theorem yields_end (hindex : index < mod)
    (h : ∀ count, Yields T index mod ⟨level0Dir, none, none, count, name1, name2⟩ files)
    (k count : ℕ) (hk : Mine index mod (count + k + 1)) :
    Yields T index mod ⟨level0Dir, some [], none, count % 2 ^ 32, name1, name2⟩ files := by
  induction k generalizing count with
  | zero =>
    refine (h ((count + 1) % 2 ^ 32)).again ?_
    simp only [pass, Nat.mod_add_mod]
    rw [if_neg fun hnot => (not_mine_iff hindex (count + 1)).mp hnot hk]
  | succ k ih =>
    by_cases hmine : Mine index mod (count + 1)
    · refine (h ((count + 1) % 2 ^ 32)).again ?_
      simp only [pass, Nat.mod_add_mod]
      rw [if_neg fun hnot => (not_mine_iff hindex (count + 1)).mp hnot hmine]
    have hnext : count + 1 + k + 1 = count + (k + 1) + 1 := by omega
    refine (ih (count + 1) (hnext ▸ hk)).again ?_
    simp only [pass, Nat.mod_add_mod, List.tail_nil]
    rw [if_pos ((not_mine_iff hindex (count + 1)).mpr hmine)]

theorem yields_level1 (hindex : index < mod) (hmod : mod < 2 ^ 32) (names : List String)
    (count : ℕ) (name2 : String)
    (h : ∀ count name2, Yields T index mod ⟨level0Dir, none, none, count, name1, name2⟩ files) :
    Yields T index mod ⟨level0Dir, some names, none, count % 2 ^ 32, name1, name2⟩
      (share1 T index mod name1 count names ++ files) := by
  induction names generalizing count name2 with
  | nil =>
    obtain ⟨k, hk⟩ := exists_mine hindex hmod count
    exact yields_end hindex (fun count => h count name2) k count hk
  | cons name names ih =>
    rw [share1, List.append_assoc]
    by_cases hmine : Mine index mod (count + 1)
    · by_cases hdot : IsDot name
      · rw [if_neg fun hand => hand.2 hdot]
        refine (ih (count + 1) name2).again ?_
        simp only [pass, Nat.mod_add_mod, List.tail_cons]
        rw [if_neg fun hnot => (not_mine_iff hindex (count + 1)).mp hnot hmine, if_pos hdot]
      · rw [if_pos ⟨hmine, hdot⟩]
        refine (yields_level2 (T.level2 name1 name) (ih (count + 1) name)).again ?_
        simp only [pass, Nat.mod_add_mod, List.tail_cons]
        rw [if_neg fun hnot => (not_mine_iff hindex (count + 1)).mp hnot hmine, if_neg hdot]
    · rw [if_neg fun hand => hmine hand.1]
      refine (ih (count + 1) name2).again ?_
      simp only [pass, Nat.mod_add_mod, List.tail_cons]
      rw [if_pos ((not_mine_iff hindex (count + 1)).mpr hmine)]

/-- **In the directory of the export** the thread returns its share of each directory. -/
theorem yields_level0 (hindex : index < mod) (hmod : mod < 2 ^ 32) (names : List String)
    (count : ℕ) (name1 name2 : String) :
    Yields T index mod ⟨some names, none, none, count, name1, name2⟩
      (share0 T index mod names) := by
  induction names generalizing count name1 name2 with
  | nil => exact yields_nil rfl
  | cons name names ih =>
    by_cases hdot : IsDot name
    · have heq : share0 T index mod (name :: names) = share0 T index mod names := by
        simp [share0, hdot]
      rw [heq]
      refine (ih count name1 name2).again ?_
      simp only [pass, if_pos hdot]
    · have heq : share0 T index mod (name :: names) =
          share1 T index mod name 0 (T.level1 name) ++ share0 T index mod names := by
        simp [share0, hdot]
      rw [heq]
      refine (yields_level1 hindex hmod _ 0 name2 fun count name2 => ih count name name2).again ?_
      simp only [pass, if_neg hdot, Nat.zero_mod]

theorem yields_share (hindex : index < mod) (hmod : mod < 2 ^ 32) :
    Yields T index mod (localCacheOpendir T) (share T index mod) :=
  yields_level0 hindex hmod _ 0 "" ""

/-! ## The threads together -/

structure IsFile (T : Tree) (f : Found) : Prop where
  /-- its directory on the first level -/
  level1 : f.level1Name ∈ T.level0 ∧ ¬ IsDot f.level1Name
  level2 : f.level2Name ∈ T.level1 f.level1Name ∧ ¬ IsDot f.level2Name
  name : f.dName ∈ T.level2 f.level1Name f.level2Name ∧ ¬ IsDot f.dName

variable {f : Found} {names : List String}

theorem mem_filesOf : f ∈ filesOf name1 name2 names ↔
    f.level1Name = name1 ∧ f.level2Name = name2 ∧ f.dName ∈ names ∧ ¬ IsDot f.dName := by
  simp only [filesOf, List.mem_map, List.mem_filter, decide_eq_true_iff]
  refine ⟨?_, ?_⟩
  · rintro ⟨name, hname, rfl⟩
    exact ⟨rfl, rfl, hname⟩
  · rintro ⟨rfl, rfl, hname⟩
    exact ⟨f.dName, hname, rfl⟩

theorem mem_share1 : f ∈ share1 T index mod name1 count names ↔
    (∃ i, names[i]? = some f.level2Name ∧ Mine index mod (count + i + 1)) ∧
      ¬ IsDot f.level2Name ∧ f ∈ filesOf name1 f.level2Name (T.level2 name1 f.level2Name) := by
  induction names generalizing count with
  | nil => simp [share1]
  | cons name names ih =>
    rw [share1, List.mem_append, ih]
    refine ⟨?_, ?_⟩
    · rintro (hf | ⟨⟨i, hi, hmine⟩, hrest⟩)
      · split at hf
        next hand =>
          obtain ⟨hmine, hdot⟩ := hand
          obtain rfl := (mem_filesOf.mp hf).2.1
          exact ⟨⟨0, rfl, hmine⟩, hdot, hf⟩
        next => cases hf
      · refine ⟨⟨i + 1, hi, ?_⟩, hrest⟩
        rwa [show count + (i + 1) + 1 = count + 1 + i + 1 by omega]
    · rintro ⟨⟨i, hi, hmine⟩, hdot, hf⟩
      cases i with
      | zero =>
        cases hi
        rw [if_pos ⟨hmine, hdot⟩]
        exact .inl hf
      | succ i =>
        refine .inr ⟨⟨i, hi, ?_⟩, hdot, hf⟩
        rwa [show count + 1 + i + 1 = count + (i + 1) + 1 by omega]

theorem mem_share : f ∈ share T index mod ↔
    IsFile T f ∧ Mine index mod ((T.level1 f.level1Name).idxOf f.level2Name + 1) := by
  simp only [share, share0, List.mem_flatMap, List.mem_filter, decide_eq_true_iff, mem_share1,
    mem_filesOf]
  refine ⟨?_, ?_⟩
  · rintro ⟨name1, hname1, ⟨i, hi, hmine⟩, hdot, rfl, -, hname⟩
    have hmem := List.mem_of_getElem? hi
    have hidx : (T.level1 f.level1Name).idxOf f.level2Name = i := by
      obtain ⟨hlt, hget⟩ := List.getElem?_eq_some_iff.mp hi
      rw [← hget, (T.nodup1 f.level1Name).idxOf_getElem]
    refine ⟨⟨hname1, ⟨hmem, hdot⟩, hname⟩, ?_⟩
    rwa [hidx, ← Nat.zero_add i]
  · rintro ⟨hfile, hmine⟩
    refine ⟨f.level1Name, hfile.level1, ⟨_, List.getElem?_idxOf hfile.level2.1, ?_⟩,
      hfile.level2.2, rfl, trivial, hfile.name⟩
    rwa [Nat.zero_add]

theorem nodup_filesOf (hnames : names.Nodup) : (filesOf name1 name2 names).Nodup := by
  refine (hnames.filter _).map fun a b hab => ?_
  exact congrArg Found.dName hab

theorem nodup_share1 (hnames : names.Nodup) : (share1 T index mod name1 count names).Nodup := by
  induction names generalizing count with
  | nil => exact List.nodup_nil
  | cons name names ih =>
    obtain ⟨hnot, hnames⟩ := List.nodup_cons.mp hnames
    rw [share1]
    refine List.Nodup.append ?_ (ih hnames) ?_
    · split
      · exact nodup_filesOf (T.nodup2 name1 name)
      · exact List.nodup_nil
    · intro f hf hrest
      split at hf
      · obtain rfl := (mem_filesOf.mp hf).2.1
        obtain ⟨⟨i, hi, -⟩, -⟩ := mem_share1.mp hrest
        exact hnot (List.mem_of_getElem? hi)
      · cases hf

theorem nodup_share : (share T index mod).Nodup := by
  refine List.nodup_flatMap.mpr ⟨fun name1 _ => nodup_share1 (T.nodup1 name1), ?_⟩
  refine (T.nodup0.filter _).imp fun {a b} hne f ha hb => hne ?_
  have hfa := (mem_filesOf.mp (mem_share1.mp ha).2.2).1
  have hfb := (mem_filesOf.mp (mem_share1.mp hb).2.2).1
  exact hfa.symm.trans hfb

/-- **A flush by several threads visits every file once**: each thread ends, and each file is
returned once, by one of them. -/
theorem flush_visits_once (T : Tree) (mod : ℕ) (hpos : 1 ≤ mod) (hmod : mod < 2 ^ 32) :
    ∃ returned : ℕ → List Found,
      (∀ index, index < mod → Yields T index mod (localCacheOpendir T) (returned index)) ∧
      (∀ index, index < mod → ∀ f ∈ returned index, IsFile T f) ∧
      ∀ f, IsFile T f → ∃ index, index < mod ∧ (returned index).count f = 1 ∧
        ∀ other, other < mod → other ≠ index → f ∉ returned other := by
  refine ⟨fun index => share T index mod, fun index hindex => yields_share hindex hmod,
    fun index _ f hf => (mem_share.mp hf).1, fun f hfile => ?_⟩
  refine ⟨_, Nat.mod_lt _ hpos, List.count_eq_one_of_mem nodup_share (mem_share.mpr ⟨hfile, rfl⟩),
    fun other _ hother hf => hother ?_⟩
  exact (mem_share.mp hf).2.symm

/-- Three directories on the second level, after the two dots. -/
def smallTree : Tree where
  level0 := [".", "00", ".."]
  level1 := fun _ => [".", "..", "0A", "1B", "2C"]
  level2 := fun _ _ => ["node=1.data", ".", "node=1.index", ".."]
  nodup0 := by decide
  nodup1 := fun _ => by decide
  nodup2 := fun _ _ => by decide

/-- Two threads walk through the small tree. -/
theorem flush_visits_once_smallTree :
    ∃ returned : ℕ → List Found,
      (∀ index, index < 2 → Yields smallTree index 2 (localCacheOpendir smallTree)
        (returned index)) ∧
      (∀ index, index < 2 → ∀ f ∈ returned index, IsFile smallTree f) ∧
      ∀ f, IsFile smallTree f → ∃ index, index < 2 ∧ (returned index).count f = 1 ∧
        ∀ other, other < 2 → other ≠ index → f ∉ returned other :=
  flush_visits_once smallTree 2 (by decide) (by decide)

example : (flush smallTree 0 2 40 (localCacheOpendir smallTree)).map (·.map Found.level2Name) =
    some ["1B", "1B"] := by decide

end

end CloudNfs.CacheDirIter
