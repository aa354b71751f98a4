import CloudNfs.HexText
import Mathlib.Data.Set.Basic
import Mathlib.Logic.Function.Basic

/-!
# The emergency flush of the data cache

`cache_content_emergency_flush` walks through the directory of the data cache, where a file with
the id `x` has an index file `node=x.index`, which names its FSAL handle, and a data file
`node=x.data`. It copies each data file to the FSAL and may then remove both.

* The handle comes from the text of the index file. The path of the data file is built again from
  the number in the name of the index file, and this number is held in an `int`: what is left of an
  id of 64 bits is its low half, with its sign.
* A path is relative to the directory of the cache. The entries come in any order, and any
  number of times; each call that may fail has its outcome in a `Visit`.
* The copies are kept in the order in which they were tried.
-/

namespace CloudNfs

namespace EmergencyFlush

/-! ### Names of files -/

def hashFileID4 (fileid4 : UInt64) : Int16 :=
  ([0, 8, 16, 24, 32, 40, 48, 56] : List UInt64).foldl
    (fun hashVal i =>
      ((hashVal.toInt64.toUInt64 * 16 + ((fileid4 >>> i) &&& 0xFF)) % 65521).toUInt16.toInt16) 0

/-- `%02hhX` -/
def printByte (b : UInt8) : List Char :=
  [(b.toNat / 16).digitChar.toUpper, (b.toNat % 16).digitChar.toUpper]

/-- `%llx` -/
def printLlx (n : UInt64) : List Char := Nat.toDigits 16 n.toNat

/-- `%llx` for `sscanf`, if there is a number. -/
def scanLlx (s : List Char) : Option UInt64 :=
  let s := s.dropWhile Char.isWhitespace
  let negative : Bool := s.head? = some '-'
  let s := if s.head? = some '-' ∨ s.head? = some '+' then s.drop 1 else s
  let s := if s.head? = some '0' ∧ (s[1]? = some 'x' ∨ s[1]? = some 'X') then s.drop 2 else s
  let digits := hexPrefix s
  if digits = [] then none
  else if 2 ^ 64 ≤ hexValue digits then some (UInt64.ofNat (2 ^ 64 - 1))
  else if negative then some (-UInt64.ofNat (hexValue digits))
  else some (UInt64.ofNat (hexValue digits))

/-- `cache_content_nametype_t` -/
inductive NameType where
  | dataFile
  | indexFile
  deriving DecidableEq

/-- What the name of a file ends with. -/
def NameType.suffix : NameType → List Char
  | dataFile => ".data".toList
  | indexFile => ".index".toList

/-- `cache_content_create_name`, below `export_id=0`. -/
def cacheContentCreateName (type : NameType) (fileid4 : UInt64) : List Char :=
  let hashVal := hashFileID4 fileid4
  printByte hashVal.toUInt16.toUInt8 ++ '/' :: (printByte (hashVal.toUInt16 >>> 8).toUInt8 ++
    '/' :: ("node=".toList ++ printLlx fileid4 ++ type.suffix))

/-- `cache_content_get_datapath`, below `basepath`. -/
def cacheContentGetDatapath (inum : UInt64) : List Char :=
  let hashVal := hashFileID4 inum
  printByte hashVal.toUInt16.toUInt8 ++ '/' :: (printByte (hashVal.toUInt16 >>> 8).toUInt8 ++
    '/' :: ("node=".toList ++ printLlx inum ++ ".data".toList))

def basename (path : List Char) : List Char := (path.reverse.takeWhile (· ≠ '/')).reverse

/-- Whether a name ends in `index`. -/
def endsInIndex (name : List Char) : Bool := name.drop (name.length - 5) = "index".toList

def cacheContentGetInum (filename : List Char) : UInt64 :=
  let bname := basename filename
  if bname.take 5 ≠ "node=".toList then 0
  else if endsInIndex bname = false then 0
  else (scanLlx (bname.drop 5)).getD 0

/-! ### The flush -/

/-- `cache_content_flush_behaviour_t` -/
inductive FlushBehaviour where
  | flushAndDelete
  | flushSyncOnly
  deriving DecidableEq

/-- `major` of the status of `FSAL_rcp`, as far as it is looked at. -/
inductive RcpStatus where
  | noError
  | noent
  | stale
  | error
  deriving DecidableEq

structure Rcp (Handle : Type) where
  handle : Handle
  /-- the local file -/
  source : List Char
  status : RcpStatus

/-- The times that `stat` gives. -/
structure Stat where
  atime : ℤ
  mtime : ℤ
  ctime : ℤ

/-- One entry of the directory, and what the calls made for it give. -/
structure Visit where
  dName : List Char
  /-- `statfs`: whether the use is below `lwmark_df` -/
  statfs : Option Bool
  fopen : Bool
  /-- `stat`, when the file is there -/
  stat : Option Stat
  /-- `time(NULL)` -/
  now : ℤ
  path : Bool
  rcp : RcpStatus
  /-- `unlink` of the index file, when it is there -/
  unlinkIndex : Bool
  /-- `unlink` of the data file, when it is there -/
  unlinkData : Bool

/-- The arguments of a flush that do not change, and how an index file is read. -/
structure Flush (Handle Content : Type) where
  lwMarkTriggerFlag : Bool
  gracePeriod : ℤ
  /-- what the four `fscanf` read; fewer than four when the text stops before -/
  fscanf : Content → List String
  sscanHandle : String → Option Handle

/-- The directory of the cache, and the variables of the function. -/
structure State (Handle Content : Type) where
  files : List Char → Option Content
  /-- the copies tried so far -/
  copies : List (Rcp Handle)
  localFlushhow : FlushBehaviour
  passcounter : ℕ
  buff : String
  /-- `*p_nb_flushed` -/
  nbFlushed : UInt32
  /-- `*p_nb_too_young` -/
  nbTooYoung : UInt32
  /-- `*p_nb_errors` -/
  nbErrors : UInt32
  /-- `*p_nb_orphans` -/
  nbOrphans : UInt32

section

variable {Handle Content : Type}

/-- `unlink`, if it succeeds. -/
def unlink (s : State Handle Content) (path : List Char) (ok : Bool) :
    Option (State Handle Content) :=
  if ok ∧ (s.files path).isSome then some { s with files := Function.update s.files path none }
  else none

/-- Removes the two files of an entry. The flag says that the function returns an error. -/
def removeEntry (s : State Handle Content) (v : Visit) (indexpath datapath : List Char) :
    State Handle Content × Bool :=
  match unlink s indexpath v.unlinkIndex with
  | none => (s, true)
  | some s =>
    match unlink s datapath v.unlinkData with
    | none => (s, true)
    | some s => (s, false)

/-- What is done after `FSAL_rcp`. -/
def afterRcp (s : State Handle Content) (v : Visit) (indexpath datapath : List Char) :
    State Handle Content × Bool :=
  match v.rcp with
  | .noent | .stale => removeEntry { s with nbOrphans := s.nbOrphans + 1 } v indexpath datapath
  | .error => ({ s with nbErrors := s.nbErrors + 1 }, false)
  | .noError =>
    match s.localFlushhow with
    | .flushAndDelete =>
      removeEntry { s with nbFlushed := s.nbFlushed + 1 } v indexpath datapath
    | .flushSyncOnly => ({ s with nbFlushed := s.nbFlushed + 1 }, false)

def maxAcmtime (st : Stat) : ℤ := max (max (max 0 st.atime) st.mtime) st.ctime

def flushData (f : Flush Handle Content) (s : State Handle Content) (v : Visit) (handle : Handle)
    (datapath : List Char) : State Handle Content × Bool :=
  match s.files datapath, v.stat with
  | some _, some st =>
    if v.now - maxAcmtime st < f.gracePeriod then ({ s with nbTooYoung := s.nbTooYoung + 1 }, false)
    else if v.path = false then ({ s with nbErrors := s.nbErrors + 1 }, false)
    else
      afterRcp { s with copies := s.copies ++ [⟨handle, datapath, v.rcp⟩] } v v.dName datapath
  | _, _ => (s, false)

def flushIndex (f : Flush Handle Content) (s : State Handle Content) (v : Visit) :
    State Handle Content × Bool :=
  let inum : Int32 := (cacheContentGetInum v.dName).toUInt32.toInt32
  if inum = -1 then (s, false)
  else
    match s.files v.dName with
    | none => (s, true)
    | some content =>
      if v.fopen = false then (s, true)
      else
        let s := { s with buff := (f.fscanf content).getLast?.getD s.buff }
        match f.sscanHandle s.buff with
        | none => (s, false)
        | some handle => flushData f s v handle (cacheContentGetDatapath inum.toInt64.toUInt64)

/-- The look at the use of the local file system, at every hundredth entry. -/
def checkLowWater (f : Flush Handle Content) (s : State Handle Content) (v : Visit) :
    State Handle Content × Bool :=
  if f.lwMarkTriggerFlag ∧ s.localFlushhow = .flushAndDelete then
    if s.passcounter + 1 = 100 then
      match v.statfs with
      | none => ({ s with passcounter := 0 }, true)
      | some true => ({ s with passcounter := 0, localFlushhow := .flushSyncOnly }, false)
      | some false => ({ s with passcounter := 0 }, false)
    else ({ s with passcounter := s.passcounter + 1 }, false)
  else (s, false)

def flushEntry (f : Flush Handle Content) (s : State Handle Content) (v : Visit) :
    State Handle Content × Bool :=
  match checkLowWater f s v with
  | (s, true) => (s, true)
  | (s, false) => if endsInIndex v.dName then flushIndex f s v else (s, false)

def flushEntries (f : Flush Handle Content) : State Handle Content → List Visit →
    State Handle Content × Bool
  | s, [] => (s, false)
  | s, v :: vs =>
    match flushEntry f s v with
    | (s, true) => (s, true)
    | (s, false) => flushEntries f s vs

/-- `cache_content_emergency_flush` on a directory that can be opened, and whether it returns
`CACHE_CONTENT_LOCAL_CACHE_ERROR`. What was in the buffer at first is given. -/
def cacheContentEmergencyFlush (f : Flush Handle Content) (flushhow : FlushBehaviour)
    (files : List Char → Option Content) (buff : String) (visits : List Visit) :
    State Handle Content × Bool :=
  flushEntries f ⟨files, [], flushhow, 0, buff, 0, 0, 0, 0⟩ visits

end

/-! ### Names come back -/

theorem getDatapath_eq (inum : UInt64) :
    cacheContentGetDatapath inum = cacheContentCreateName .dataFile inum :=
  rfl

theorem createName_eq (type : NameType) (fileid4 : UInt64) :
    ∃ dir : List Char, dir.length = 5 ∧
      cacheContentCreateName type fileid4 =
        dir ++ '/' :: ("node=".toList ++ printLlx fileid4 ++ type.suffix) := by
  refine ⟨printByte (hashFileID4 fileid4).toUInt16.toUInt8 ++ '/' ::
    printByte ((hashFileID4 fileid4).toUInt16 >>> 8).toUInt8, ?_, ?_⟩
  · simp [printByte]
  · simp [cacheContentCreateName]

theorem endsInIndex_append (s : List Char) :
    endsInIndex (s ++ ".index".toList) = true ∧ endsInIndex (s ++ ".data".toList) = false := by
  constructor
  · have hdrop : (s ++ ".index".toList).drop ((s ++ ".index".toList).length - 5) =
        "index".toList := by
      have hlen : (s ++ ".index".toList).length - 5 = (s ++ ['.']).length := by simp
      have happ : s ++ ".index".toList = (s ++ ['.']) ++ "index".toList := by simp
      rw [hlen, happ, List.drop_left]
    simp only [endsInIndex, hdrop, decide_true]
  · have hdrop : (s ++ ".data".toList).drop ((s ++ ".data".toList).length - 5) =
        ".data".toList := by
      have hlen : (s ++ ".data".toList).length - 5 = s.length := by simp
      rw [hlen, List.drop_left]
    simp only [endsInIndex, hdrop]
    decide

theorem endsInIndex_createName (type : NameType) (fileid4 : UInt64) :
    endsInIndex (cacheContentCreateName type fileid4) = decide (type = .indexFile) := by
  obtain ⟨dir, -, hname⟩ := createName_eq type fileid4
  have happ : cacheContentCreateName type fileid4 =
      (dir ++ '/' :: ("node=".toList ++ printLlx fileid4)) ++ type.suffix := by
    simp only [hname, List.append_assoc, List.cons_append]
  rw [happ]
  cases type with
  | dataFile => exact (endsInIndex_append _).2
  | indexFile => exact (endsInIndex_append _).1

theorem createName_injective {type type' : NameType} {fileid4 fileid4' : UInt64}
    (h : cacheContentCreateName type fileid4 = cacheContentCreateName type' fileid4') :
    type = type' ∧ fileid4 = fileid4' := by
  have htype : type = type' := by
    have hends := congrArg endsInIndex h
    rw [endsInIndex_createName, endsInIndex_createName, decide_eq_decide] at hends
    cases type <;> cases type' <;> simp_all
  subst htype
  obtain ⟨dir, hlen, hname⟩ := createName_eq type fileid4
  obtain ⟨dir', hlen', hname'⟩ := createName_eq type fileid4'
  rw [hname, hname'] at h
  have hnode := (List.cons.inj (List.append_inj h (hlen.trans hlen'.symm)).2).2
  have hdigits : printLlx fileid4 = printLlx fileid4' :=
    List.append_cancel_left (List.append_cancel_right hnode)
  exact ⟨rfl, UInt64.toNat_inj.mp (toDigits_injective hdigits)⟩

theorem slash_notMem_node (type : NameType) (fileid4 : UInt64) :
    '/' ∉ "node=".toList ++ printLlx fileid4 ++ type.suffix := by
  intro hmem
  rw [List.mem_append, List.mem_append] at hmem
  rcases hmem with (hmem | hmem) | hmem
  · exact absurd hmem (by decide)
  · have hdigit := isSome_hexVal_of_mem_toDigits hmem
    exact absurd hdigit (by decide)
  · cases type <;> exact absurd hmem (by decide)

theorem basename_createName (type : NameType) (fileid4 : UInt64) :
    basename (cacheContentCreateName type fileid4) =
      "node=".toList ++ printLlx fileid4 ++ type.suffix := by
  obtain ⟨dir, -, hname⟩ := createName_eq type fileid4
  rw [hname, basename, List.reverse_append, List.reverse_cons, List.append_assoc,
    List.takeWhile_append_of_pos ?_, List.singleton_append,
    List.takeWhile_cons_of_neg (by simp), List.append_nil, List.reverse_reverse]
  intro c hc
  have hne : c ≠ '/' := by
    rintro rfl
    exact slash_notMem_node type fileid4 (List.mem_reverse.mp hc)
  exact decide_eq_true hne

theorem scanLlx_printLlx (n : UInt64) (s : List Char) :
    scanLlx (printLlx n ++ '.' :: s) = some n := by
  have hprefix : hexPrefix (printLlx n ++ '.' :: s) = printLlx n :=
    hexPrefix_toDigits n.toNat (by decide) s
  obtain ⟨c, t, hdigits⟩ :=
    List.exists_cons_of_ne_nil (Nat.toDigits_ne_nil (n := n.toNat) (b := 16))
  have hall : ∀ d ∈ c :: t, (hexVal d).isSome = true := fun d hd =>
    isSome_hexVal_of_mem_toDigits (n := n.toNat) (hdigits ▸ hd)
  have hne : ∀ d, (hexVal d).isSome = false → d ≠ c := by
    rintro d hd rfl
    rw [hall d List.mem_cons_self] at hd
    cases hd
  -- what comes before the digits is skipped by name, and is no digit
  have hspace : c.isWhitespace = false := by
    have h1 := hne ' ' (by decide)
    have h2 := hne '\t' (by decide)
    have h3 := hne '\r' (by decide)
    have h4 := hne '\n' (by decide)
    simp [Char.isWhitespace, h1.symm, h2.symm, h3.symm, h4.symm]
  have hsecond : ∀ d, (hexVal d).isSome = false → d ≠ '.' →
      (printLlx n ++ '.' :: s)[1]? ≠ some d := by
    intro d hd hdot
    rw [printLlx, hdigits, List.cons_append, List.getElem?_cons_succ]
    cases t with
    | nil => simpa using hdot.symm
    | cons c' t =>
      rw [List.cons_append, List.getElem?_cons_zero]
      rintro ⟨⟩
      rw [hall d (by simp)] at hd
      cases hd
  have hhead : (printLlx n ++ '.' :: s).head? = some c := by
    rw [printLlx, hdigits, List.cons_append, List.head?_cons]
  have hdrop : (printLlx n ++ '.' :: s).dropWhile Char.isWhitespace = printLlx n ++ '.' :: s := by
    rw [printLlx, hdigits, List.cons_append, List.dropWhile_cons_of_neg (by simp [hspace])]
  have hne' : printLlx n ≠ [] := Nat.toDigits_ne_nil
  have hvalue : hexValue (printLlx n) = n.toNat := hexValue_toDigits n.toNat
  have hlt : ¬ 2 ^ 64 ≤ n.toNat := Nat.not_le.mpr n.toNat_lt
  have hminus : some c ≠ some '-' := fun h => hne '-' (by decide) (Option.some.inj h).symm
  have hplus : some c ≠ some '+' := fun h => hne '+' (by decide) (Option.some.inj h).symm
  have hx := hsecond 'x' (by decide) (by decide)
  have hX := hsecond 'X' (by decide) (by decide)
  simp only [scanLlx, hdrop, hhead, hminus, hplus, or_self, if_false, hx, hX, and_false, hprefix,
    hne', hvalue, hlt, decide_false, Bool.false_eq_true, UInt64.ofNat_toNat]

theorem getInum_createName (fileid4 : UInt64) :
    cacheContentGetInum (cacheContentCreateName .indexFile fileid4) = fileid4 := by
  have hbname := basename_createName .indexFile fileid4
  have htake : ("node=".toList ++ printLlx fileid4 ++ NameType.indexFile.suffix).take 5 =
      "node=".toList := by
    rw [List.append_assoc]
    exact List.take_left' rfl
  have hdrop : ("node=".toList ++ printLlx fileid4 ++ NameType.indexFile.suffix).drop 5 =
      printLlx fileid4 ++ '.' :: "index".toList := by
    rw [List.append_assoc]
    exact List.drop_left' rfl
  have hends : ¬ endsInIndex ("node=".toList ++ printLlx fileid4 ++ NameType.indexFile.suffix) =
      false :=
    fun h => Bool.noConfusion
      ((endsInIndex_append ("node=".toList ++ printLlx fileid4)).1.symm.trans h)
  rw [cacheContentGetInum, hbname, htake, if_neg (fun h => h rfl), if_neg hends, hdrop,
    scanLlx_printLlx, Option.getD_some]

/-! ### What a turn of the loop does -/

/-- An outcome of a copy after which the file may go. -/
def RcpStatus.Settled (status : RcpStatus) : Prop :=
  status = .noError ∨ status = .noent ∨ status = .stale

section

variable {Handle Content : Type} {f : Flush Handle Content} {s : State Handle Content} {v : Visit}

theorem unlink_files {s' : State Handle Content} {path : List Char} {ok : Bool}
    (h : unlink s path ok = some s') :
    s'.copies = s.copies ∧ s'.files = Function.update s.files path none := by
  unfold unlink at h
  split at h
  · cases h
    exact ⟨rfl, rfl⟩
  · cases h

theorem removeEntry_files (s : State Handle Content) (v : Visit) (indexpath datapath : List Char) :
    (removeEntry s v indexpath datapath).1.copies = s.copies ∧
      ∀ p, (removeEntry s v indexpath datapath).1.files p = s.files p ∨
        (removeEntry s v indexpath datapath).1.files p = none ∧ (p = indexpath ∨ p = datapath) := by
  cases hindex : unlink s indexpath v.unlinkIndex with
  | none =>
    have heq : removeEntry s v indexpath datapath = (s, true) := by simp only [removeEntry, hindex]
    rw [heq]
    exact ⟨rfl, fun p => .inl rfl⟩
  | some s1 =>
    obtain ⟨hcopies1, hfiles1⟩ := unlink_files hindex
    have hp1 : ∀ p, s1.files p = s.files p ∨
        s1.files p = none ∧ (p = indexpath ∨ p = datapath) := by
      intro p
      rw [hfiles1]
      by_cases hp : p = indexpath
      · exact .inr ⟨by rw [hp, Function.update_self], .inl hp⟩
      · exact .inl (Function.update_of_ne hp _ _)
    cases hdata : unlink s1 datapath v.unlinkData with
    | none =>
      simp only [removeEntry, hindex, hdata]
      exact ⟨hcopies1, hp1⟩
    | some s2 =>
      obtain ⟨hcopies2, hfiles2⟩ := unlink_files hdata
      simp only [removeEntry, hindex, hdata]
      refine ⟨hcopies2.trans hcopies1, fun p => ?_⟩
      rw [hfiles2]
      by_cases hp : p = datapath
      · exact .inr ⟨by rw [hp, Function.update_self], .inr hp⟩
      · rw [Function.update_of_ne hp]
        exact hp1 p

theorem afterRcp_cases (s : State Handle Content) (v : Visit) (indexpath datapath : List Char) :
    ∃ s' : State Handle Content, s'.copies = s.copies ∧ s'.files = s.files ∧
      (v.rcp.Settled ∧ afterRcp s v indexpath datapath = removeEntry s' v indexpath datapath ∨
        afterRcp s v indexpath datapath = (s', false)) := by
  cases hrcp : v.rcp with
  | noent =>
    exact ⟨{ s with nbOrphans := s.nbOrphans + 1 }, rfl, rfl,
      .inl ⟨.inr (.inl rfl), by simp only [afterRcp, hrcp]⟩⟩
  | stale =>
    exact ⟨{ s with nbOrphans := s.nbOrphans + 1 }, rfl, rfl,
      .inl ⟨.inr (.inr rfl), by simp only [afterRcp, hrcp]⟩⟩
  | error =>
    exact ⟨{ s with nbErrors := s.nbErrors + 1 }, rfl, rfl, .inr (by simp only [afterRcp, hrcp])⟩
  | noError =>
    cases hhow : s.localFlushhow with
    | flushAndDelete =>
      exact ⟨{ s with nbFlushed := s.nbFlushed + 1 }, rfl, rfl,
        .inl ⟨.inl rfl, by simp only [afterRcp, hrcp, hhow]⟩⟩
    | flushSyncOnly =>
      exact ⟨{ s with nbFlushed := s.nbFlushed + 1 }, rfl, rfl,
        .inr (by simp only [afterRcp, hrcp, hhow])⟩

theorem afterRcp_files (s : State Handle Content) (v : Visit) (indexpath datapath : List Char) :
    (afterRcp s v indexpath datapath).1.copies = s.copies ∧
      ∀ p, (afterRcp s v indexpath datapath).1.files p = s.files p ∨
        (afterRcp s v indexpath datapath).1.files p = none ∧ v.rcp.Settled ∧
          (p = indexpath ∨ p = datapath) := by
  obtain ⟨s', hcopies, hfiles, ⟨hsettled, heq⟩ | heq⟩ := afterRcp_cases s v indexpath datapath
  · obtain ⟨hcopies', hfiles'⟩ := removeEntry_files s' v indexpath datapath
    rw [heq]
    refine ⟨hcopies'.trans hcopies, fun p => ?_⟩
    rcases hfiles' p with hp | ⟨hnone, hp⟩
    · exact .inl (hp.trans (congrFun hfiles p))
    · exact .inr ⟨hnone, hsettled, hp⟩
  · rw [heq]
    exact ⟨hcopies, fun p => .inl (congrFun hfiles p)⟩

/-- What a turn of the loop does to the files: nothing, or it tries the copy of the data file whose
number is in the name of an index file, to the object that this index file names. -/
inductive TurnFiles (f : Flush Handle Content) (s : State Handle Content) (v : Visit)
    (s' : State Handle Content) : Prop where
  | skip (files : s'.files = s.files) (copies : s'.copies = s.copies)
  | copy (content : Content) (handle : Handle) (data : Content)
      (isIndex : endsInIndex v.dName = true)
      (inum : (cacheContentGetInum v.dName).toUInt32.toInt32 ≠ -1)
      (index : s.files v.dName = some content)
      (names : f.sscanHandle ((f.fscanf content).getLast?.getD s.buff) = some handle)
      (found : s.files (cacheContentGetDatapath
        (cacheContentGetInum v.dName).toUInt32.toInt32.toInt64.toUInt64) = some data)
      (copies : s'.copies = s.copies ++ [⟨handle, cacheContentGetDatapath
        (cacheContentGetInum v.dName).toUInt32.toInt32.toInt64.toUInt64, v.rcp⟩])
      (files : ∀ p, s'.files p = s.files p ∨ s'.files p = none ∧ v.rcp.Settled ∧
        (p = v.dName ∨ p = cacheContentGetDatapath
          (cacheContentGetInum v.dName).toUInt32.toInt32.toInt64.toUInt64))

theorem flushData_cases (f : Flush Handle Content) (s : State Handle Content) (v : Visit)
    (handle : Handle) (datapath : List Char) :
    ((flushData f s v handle datapath).1.files = s.files ∧
      (flushData f s v handle datapath).1.copies = s.copies) ∨
    ∃ data, s.files datapath = some data ∧
      flushData f s v handle datapath =
        afterRcp { s with copies := s.copies ++ [⟨handle, datapath, v.rcp⟩] } v v.dName
          datapath := by
  unfold flushData
  split
  · rename_i data st hdata hstat
    split
    · exact .inl ⟨rfl, rfl⟩
    split
    · exact .inl ⟨rfl, rfl⟩
    · exact .inr ⟨data, hdata, rfl⟩
  · exact .inl ⟨rfl, rfl⟩

theorem flushIndex_files (hv : endsInIndex v.dName = true) :
    TurnFiles f s v (flushIndex f s v).1 := by
  by_cases hinum : (cacheContentGetInum v.dName).toUInt32.toInt32 = -1
  · simp only [flushIndex, hinum, if_true]
    exact .skip rfl rfl
  cases hindex : s.files v.dName with
  | none =>
    simp only [flushIndex, hinum, if_false, hindex]
    exact .skip rfl rfl
  | some content =>
    by_cases hopen : v.fopen = false
    · simp only [flushIndex, hinum, if_false, hindex, hopen, if_true]
      exact .skip rfl rfl
    cases hhandle : f.sscanHandle ((f.fscanf content).getLast?.getD s.buff) with
    | none =>
      simp only [flushIndex, hinum, if_false, hindex, hopen, hhandle]
      exact .skip rfl rfl
    | some handle =>
      have heq : flushIndex f s v =
          flushData f { s with buff := (f.fscanf content).getLast?.getD s.buff } v handle
            (cacheContentGetDatapath
              (cacheContentGetInum v.dName).toUInt32.toInt32.toInt64.toUInt64) := by
        simp only [flushIndex, hinum, if_false, hindex, hopen, hhandle, Bool.true_eq_false]
      rw [heq]
      rcases flushData_cases f _ v handle _ with ⟨hfiles, hcopies⟩ | ⟨data, hdata, heq⟩
      · exact .skip hfiles hcopies
      · rw [heq]
        obtain ⟨hcopies, hfiles⟩ := afterRcp_files _ v v.dName _
        exact .copy content handle data hv hinum hindex hhandle hdata hcopies hfiles

theorem checkLowWater_files :
    (checkLowWater f s v).1.files = s.files ∧ (checkLowWater f s v).1.copies = s.copies ∧
      (checkLowWater f s v).1.buff = s.buff := by
  unfold checkLowWater
  split
  · split
    · split <;> exact ⟨rfl, rfl, rfl⟩
    · exact ⟨rfl, rfl, rfl⟩
  · exact ⟨rfl, rfl, rfl⟩

theorem flushEntry_files : TurnFiles f s v (flushEntry f s v).1 := by
  obtain ⟨hfiles, hcopies, hbuff⟩ := checkLowWater_files (f := f) (s := s) (v := v)
  unfold flushEntry
  rcases hlow : checkLowWater f s v with ⟨s1, _ | _⟩
  · rw [hlow] at hfiles hcopies hbuff
    dsimp only at hfiles hcopies hbuff ⊢
    cases hv : endsInIndex v.dName with
    | false => exact .skip hfiles hcopies
    | true =>
      rw [if_pos rfl]
      cases flushIndex_files (f := f) (s := s1) hv with
      | skip hfiles' hcopies' => exact .skip (hfiles'.trans hfiles) (hcopies'.trans hcopies)
      | copy content handle data _ hinum hindex hnames hfound hcopies' hfiles' =>
        rw [hfiles] at hindex hfound hfiles'
        rw [hbuff] at hnames
        rw [hcopies] at hcopies'
        exact .copy content handle data hv hinum hindex hnames hfound hcopies' hfiles'
  · rw [hlow] at hfiles hcopies
    exact .skip hfiles hcopies

end

/-! ### Nothing is lost -/

section

variable {Handle Content : Type}

/-- The directory holds an index file and a data file for each of the ids, and nothing else. The
index file names the handle of the id, which is the one whose file id gave the names. -/
structure HoldsPairs (f : Flush Handle Content) (digest : Handle → UInt64) (ids : Set UInt64)
    (handle : UInt64 → Handle) (files : List Char → Option Content) : Prop where
  index : ∀ id ∈ ids, ∃ content text,
    files (cacheContentCreateName .indexFile id) = some content ∧
      (f.fscanf content).getLast? = some text ∧ f.sscanHandle text = some (handle id)
  data : ∀ id ∈ ids, (files (cacheContentCreateName .dataFile id)).isSome
  only : ∀ p, (files p).isSome → ∃ id ∈ ids, ∃ type, p = cacheContentCreateName type id
  /-- `FSAL_DigestHandle` for `FSAL_DIGEST_FILEID4` -/
  digest : ∀ id ∈ ids, digest (handle id) = id

/-- **Nothing is lost by a flush**, as far as the state `s` shows it: each data file that is gone
was copied to the object of its index file, or this object is gone, and no object was given the
data file of another file id. -/
structure NothingLost (digest : Handle → UInt64) (ids : Set UInt64) (handle : UInt64 → Handle)
    (s : State Handle Content) : Prop where
  gone : ∀ id ∈ ids, s.files (cacheContentCreateName .dataFile id) = none →
    ∃ c ∈ s.copies, c.handle = handle id ∧ c.source = cacheContentCreateName .dataFile id ∧
      c.status.Settled
  own : ∀ c ∈ s.copies, c.source = cacheContentCreateName .dataFile (digest c.handle)

/-- The id that is left of `id` once it was an `int`. -/
def throughInt (id : UInt64) : UInt64 := id.toUInt32.toInt32.toInt64.toUInt64

/-- No id of the directory is taken for another one. -/
def NoneTaken (ids : Set UInt64) : Prop :=
  ∀ id ∈ ids, id.toUInt32.toInt32 ≠ -1 → throughInt id ∈ ids → throughInt id = id

variable {f : Flush Handle Content} {digest : Handle → UInt64} {ids : Set UInt64}
  {handle : UInt64 → Handle} {files : List Char → Option Content}

theorem HoldsPairs.eq_indexFile (hold : HoldsPairs f digest ids handle files) {p : List Char}
    (hp : (files p).isSome) (hindex : endsInIndex p = true) :
    ∃ id ∈ ids, p = cacheContentCreateName .indexFile id := by
  obtain ⟨id, hid, type, rfl⟩ := hold.only p hp
  rw [endsInIndex_createName, decide_eq_true_iff] at hindex
  exact ⟨id, hid, by rw [hindex]⟩

theorem HoldsPairs.mem_of_data (hold : HoldsPairs f digest ids handle files) {id : UInt64}
    (hp : (files (cacheContentCreateName .dataFile id)).isSome) : id ∈ ids := by
  obtain ⟨id', hid', type, hname⟩ := hold.only _ hp
  rw [(createName_injective hname).2]
  exact hid'

/-- What holds before each turn of the loop: files are only removed, and nothing is lost. -/
structure FlushInv (digest : Handle → UInt64) (ids : Set UInt64) (handle : UInt64 → Handle)
    (files : List Char → Option Content) (s : State Handle Content) : Prop where
  sub : ∀ p, s.files p = files p ∨ s.files p = none
  lost : NothingLost digest ids handle s

theorem FlushInv.initial (hold : HoldsPairs f digest ids handle files) (how : FlushBehaviour)
    (buff : String) : FlushInv digest ids handle files ⟨files, [], how, 0, buff, 0, 0, 0, 0⟩ where
  sub p := .inl rfl
  lost := by
    constructor
    · intro id hid hnone
      have hsome := hold.data id hid
      rw [show files _ = none from hnone] at hsome
      cases hsome
    · intro c hc
      cases hc

/-- The step: where no id is taken for another, a copy takes the data file of the index file. -/
theorem FlushInv.flushEntry (hold : HoldsPairs f digest ids handle files) (hids : NoneTaken ids)
    {s : State Handle Content} (h : FlushInv digest ids handle files s) (v : Visit) :
    FlushInv digest ids handle files (flushEntry f s v).1 := by
  cases flushEntry_files (f := f) (s := s) (v := v) with
  | skip hfiles hcopies =>
    constructor
    · rw [hfiles]
      exact h.sub
    · constructor
      · rw [hfiles, hcopies]
        exact h.lost.gone
      · rw [hcopies]
        exact h.lost.own
  | copy content handle' data hindex hinum hcontent hnames hfound hcopies hfiles =>
    -- the entry is the index file of an id of the directory
    have hfiles0 : ∀ p c, s.files p = some c → files p = some c := by
      intro p c hp
      rcases h.sub p with hsame | hnone
      · exact hsame.symm.trans hp
      · rw [hnone] at hp
        cases hp
    have hname := hfiles0 _ _ hcontent
    obtain ⟨id, hid, hv⟩ := hold.eq_indexFile (by rw [hname]; rfl) hindex
    rw [hv] at hname hinum hfound hcopies hfiles
    rw [getInum_createName] at hinum hfound hcopies hfiles
    rw [getDatapath_eq] at hfound hcopies hfiles
    -- its handle is the one of this id
    obtain ⟨content', text, hcontent', htext, hhandle⟩ := hold.index id hid
    cases hcontent'.symm.trans hname
    rw [htext, Option.getD_some] at hnames
    cases hnames.symm.trans hhandle
    -- and its data file too
    have hthrough : throughInt id = id := by
      refine hids id hid hinum (hold.mem_of_data ?_)
      rw [throughInt, hfiles0 _ _ hfound]
      rfl
    rw [← throughInt, hthrough] at hcopies hfiles
    constructor
    · intro p
      rcases hfiles p with hp | ⟨hp, -⟩
      · rw [hp]
        exact h.sub p
      · exact .inr hp
    constructor
    · intro id' hid' hgone
      rw [hcopies]
      rcases hfiles (cacheContentCreateName .dataFile id') with hp | ⟨-, hsettled, hp | hp⟩
      · rw [hp] at hgone
        obtain ⟨c, hc, hrest⟩ := h.lost.gone id' hid' hgone
        exact ⟨c, List.mem_append_left _ hc, hrest⟩
      · cases (createName_injective hp).1
      · obtain rfl := (createName_injective hp).2
        exact ⟨_, List.mem_append_right _ List.mem_cons_self, rfl, rfl, hsettled⟩
    · intro c hc
      rw [hcopies, List.mem_append, List.mem_singleton] at hc
      rcases hc with hc | rfl
      · exact h.lost.own c hc
      · dsimp only
        rw [hold.digest id hid]

theorem FlushInv.flushEntries (hold : HoldsPairs f digest ids handle files) (hids : NoneTaken ids)
    {s : State Handle Content} (h : FlushInv digest ids handle files s) (vs : List Visit) :
    FlushInv digest ids handle files (flushEntries f s vs).1 := by
  induction vs generalizing s with
  | nil => exact h
  | cons v vs ih =>
    have hstep := h.flushEntry hold hids v
    rw [EmergencyFlush.flushEntries]
    rcases hturn : EmergencyFlush.flushEntry f s v with ⟨s', _ | _⟩
    · rw [hturn] at hstep
      exact ih hstep
    · rw [hturn] at hstep
      exact hstep

/-- A visit of the index file of `id` at which everything succeeds. -/
def visitOk (id : UInt64) (gracePeriod : ℤ) : Visit where
  dName := cacheContentCreateName .indexFile id
  statfs := some false
  fopen := true
  stat := some ⟨0, 0, 0⟩
  now := gracePeriod
  path := true
  rcp := .noError
  unlinkIndex := true
  unlinkData := true

theorem flushEntries_singleton (s : State Handle Content) (v : Visit) :
    (flushEntries f s [v]).1 = (flushEntry f s v).1 := by
  rw [flushEntries]
  rcases flushEntry f s v with ⟨s', _ | _⟩ <;> rfl

/-- The index file of an id leads to the data file of what is left of the id in an `int`. -/
theorem flush_visitOk (hold : HoldsPairs f digest ids handle files) {id : UInt64} (hid : id ∈ ids)
    (hinum : id.toUInt32.toInt32 ≠ -1) (hthrough : throughInt id ∈ ids) (how : FlushBehaviour)
    (buff : String) :
    (cacheContentEmergencyFlush f how files buff [visitOk id f.gracePeriod]).1.copies =
      [⟨handle id, cacheContentCreateName .dataFile (throughInt id), .noError⟩] := by
  obtain ⟨content, text, hcontent, htext, hhandle⟩ := hold.index id hid
  obtain ⟨data, hdata⟩ := Option.isSome_iff_exists.mp (hold.data _ hthrough)
  have hindex : endsInIndex (visitOk id f.gracePeriod).dName = true := by
    rw [visitOk, endsInIndex_createName]
    rfl
  have hnum : cacheContentGetInum (visitOk id f.gracePeriod).dName = id := getInum_createName id
  have hmax : ¬ (visitOk id f.gracePeriod).now - maxAcmtime ⟨0, 0, 0⟩ < f.gracePeriod := by
    simp [visitOk, maxAcmtime]
  rw [cacheContentEmergencyFlush, flushEntries_singleton]
  generalize hs : (⟨files, [], how, 0, buff, 0, 0, 0, 0⟩ : State Handle Content) = s
  have hfiles : s.files = files := by rw [← hs]
  have hcopies : s.copies = [] := by rw [← hs]
  have hlow : checkLowWater f s (visitOk id f.gracePeriod) =
      ((checkLowWater f s (visitOk id f.gracePeriod)).1, false) := by
    rw [← hs, checkLowWater]
    split <;> rfl
  obtain ⟨hlowFiles, hlowCopies, -⟩ :=
    checkLowWater_files (f := f) (s := s) (v := visitOk id f.gracePeriod)
  generalize (checkLowWater f s (visitOk id f.gracePeriod)).1 = s1 at hlow hlowFiles hlowCopies
  rw [hfiles] at hlowFiles
  rw [hcopies] at hlowCopies
  have hturn : flushEntry f s (visitOk id f.gracePeriod) =
      flushData f { s1 with buff := text } (visitOk id f.gracePeriod) (handle id)
        (cacheContentCreateName .dataFile (throughInt id)) := by
    simp only [flushEntry, hlow, hindex, if_true, flushIndex, hnum, hinum, if_false]
    simp only [visitOk, hlowFiles, hcontent, htext, hhandle, Option.getD_some, Bool.true_eq_false,
      if_false]
    rfl
  have hcopy : flushData f { s1 with buff := text } (visitOk id f.gracePeriod) (handle id)
      (cacheContentCreateName .dataFile (throughInt id)) =
      afterRcp { s1 with
        buff := text
        copies := s1.copies ++
          [⟨handle id, cacheContentCreateName .dataFile (throughInt id), .noError⟩] }
        (visitOk id f.gracePeriod) (visitOk id f.gracePeriod).dName
        (cacheContentCreateName .dataFile (throughInt id)) := by
    have hstat : (visitOk id f.gracePeriod).stat = some ⟨0, 0, 0⟩ := rfl
    have hpath : (visitOk id f.gracePeriod).path = true := rfl
    have hrcp : (visitOk id f.gracePeriod).rcp = .noError := rfl
    simp only [flushData, hlowFiles, hdata, hstat, hmax, if_false, hpath, Bool.true_eq_false, hrcp]
  rw [hturn, hcopy, (afterRcp_files _ _ _ _).1]
  dsimp only
  rw [hlowCopies, List.nil_append]

end

/-! ### Directories of the cache -/

/-- A flush where a handle is a file id, and its text the digits of it. A file is the fields that
`fscanf` reads. -/
def digitsFlush : Flush UInt64 (List String) where
  lwMarkTriggerFlag := false
  gracePeriod := 0
  fscanf := id
  sscanHandle text :=
    if text.toList.all fun c => (hexVal c).isSome then some (UInt64.ofNat (hexValue text.toList))
    else none

/-- The files of some ids. -/
def filesOf (ids : List UInt64) (p : List Char) : Option (List String) :=
  ids.findSome? fun id =>
    if p = cacheContentCreateName .indexFile id then some [String.ofList (printLlx id)]
    else if p = cacheContentCreateName .dataFile id then some []
    else none

theorem filesOf_createName {ids : List UInt64} {id : UInt64} (hid : id ∈ ids) (type : NameType) :
    filesOf ids (cacheContentCreateName type id) =
      some (if type = .indexFile then [String.ofList (printLlx id)] else []) := by
  induction ids with
  | nil => cases hid
  | cons a ids ih =>
    rw [filesOf, List.findSome?_cons, ← filesOf]
    by_cases ha : id = a
    · subst ha
      cases type with
      | indexFile => simp
      | dataFile =>
        have hne : cacheContentCreateName .dataFile id ≠ cacheContentCreateName .indexFile id :=
          fun h => NameType.noConfusion (createName_injective h).1
        simp [hne]
    · have hne : ∀ type', cacheContentCreateName type id ≠ cacheContentCreateName type' a :=
        fun type' h => ha (createName_injective h).2
      simp only [hne, if_false]
      exact ih ((List.mem_cons.mp hid).resolve_left ha)

theorem filesOf_holdsPairs (ids : List UInt64) :
    HoldsPairs digitsFlush id {x | x ∈ ids} id (filesOf ids) where
  index x hx := by
    refine ⟨_, String.ofList (printLlx x), filesOf_createName hx .indexFile, rfl, ?_⟩
    have hall : (printLlx x).all (fun c => (hexVal c).isSome) = true :=
      List.all_eq_true.mpr fun c hc => isSome_hexVal_of_mem_toDigits hc
    have hvalue : hexValue (printLlx x) = x.toNat := hexValue_toDigits x.toNat
    simp only [digitsFlush, String.toList_ofList, hall, if_true, hvalue, UInt64.ofNat_toNat, id]
  data x hx := by
    rw [filesOf_createName hx]
    rfl
  only p hp := by
    obtain ⟨content, hcontent⟩ := Option.isSome_iff_exists.mp hp
    obtain ⟨x, hx, hcase⟩ := List.exists_of_findSome?_eq_some hcontent
    split at hcase
    · exact ⟨x, hx, .indexFile, ‹_›⟩
    split at hcase
    · exact ⟨x, hx, .dataFile, ‹_›⟩
    · cases hcase
  digest x hx := rfl

section

variable {Handle Content : Type} {f : Flush Handle Content} {digest : Handle → UInt64}
  {ids : Set UInt64} {handle : UInt64 → Handle} {files : List Char → Option Content}

/-- **A flush loses nothing if and only if no id is taken for another**: whatever the entries and
the outcome of every call, each data file that is gone was copied to the object of its own index
file, or this object is gone, and no object received another file's data, exactly if no id of the
directory becomes another id of the directory when it is held in an `int`. -/
theorem nothingLost_iff (hold : HoldsPairs f digest ids handle files) :
    (∀ how buff visits, NothingLost digest ids handle
      (cacheContentEmergencyFlush f how files buff visits).1) ↔ NoneTaken ids := by
  constructor
  · intro h id hid hinum hthrough
    have hown := (h .flushAndDelete "" [visitOk id f.gracePeriod]).own
    rw [flush_visitOk hold hid hinum hthrough] at hown
    have hsource := hown _ List.mem_cons_self
    dsimp only at hsource
    rw [hold.digest id hid] at hsource
    exact (createName_injective hsource).2
  · intro hids how buff visits
    exact ((FlushInv.initial hold how buff).flushEntries hold hids visits).lost

end

/-- Two files whose ids differ in the low half are safe. -/
theorem nothingLost_smallIds :
    NothingLost id {x | x ∈ [(5 : UInt64), 0x100000006]} id
      (cacheContentEmergencyFlush digitsFlush .flushAndDelete (filesOf [5, 0x100000006]) ""
        [visitOk 0x100000006 0, visitOk 5 0]).1 := by
  refine (nothingLost_iff (filesOf_holdsPairs [5, 0x100000006])).mpr ?_ _ _ _
  intro x hx
  rcases List.mem_cons.mp hx with rfl | hx
  · decide
  · obtain rfl := List.mem_singleton.mp hx
    decide

/-- The data file of 5 is copied to the object of `0x100000005`, whose index file leads to it, and
removed. -/
theorem dataFile_goes_to_other_object :
    HoldsPairs digitsFlush id {x | x ∈ [(5 : UInt64), 0x100000005]} id (filesOf [5, 0x100000005]) ∧
    ¬ NothingLost id {x | x ∈ [(5 : UInt64), 0x100000005]} id
      (cacheContentEmergencyFlush digitsFlush .flushAndDelete (filesOf [5, 0x100000005]) ""
        [visitOk 0x100000005 0]).1 := by
  refine ⟨filesOf_holdsPairs _, fun h => ?_⟩
  have hgone : (cacheContentEmergencyFlush digitsFlush .flushAndDelete (filesOf [5, 0x100000005]) ""
      [visitOk 0x100000005 0]).1.files (cacheContentCreateName .dataFile 5) = none := by
    decide +kernel
  have hcopies : ∀ c ∈ (cacheContentEmergencyFlush digitsFlush .flushAndDelete
      (filesOf [5, 0x100000005]) "" [visitOk 0x100000005 0]).1.copies, c.handle ≠ 5 := by
    decide +kernel
  obtain ⟨c, hc, hhandle, -⟩ := h.gone 5 List.mem_cons_self hgone
  exact hcopies c hc hhandle

end EmergencyFlush

end CloudNfs
