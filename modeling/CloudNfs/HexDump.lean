import CloudNfs.HexText
import Mathlib.Data.Int.Notation

/-!
# Hexadecimal dumps (`Common/common_utils.c`)

`snprintmem` prints a block of memory as hexadecimal digits, and `sscanmem` reads it back.

* The target is given by what was written to it, by the offset: a write outside of it is seen.
* A string is read from the memory behind a pointer, and the offsets that are read are noted.
* An `int` has 32 bits and wraps around, a `size_t` has 64.

`snprintmem` counts two characters for each byte, also those that `snprintf` did not write. The
count passes the largest `int` if the target has exactly that size and the block more than `2 ^ 30`
bytes; everything is right otherwise (`hexInverse_iff`).
-/

namespace CloudNfs.HexDump

/-! ## The code -/

/-- The two digits that `%.2X` stands for. -/
def printed (c : UInt8) : List Char :=
  [(c.toNat / 16).digitChar.toUpper, (c.toNat % 16).digitChar.toUpper]

abbrev nul : Char := Char.ofNat 0

/-- What `snprintf(str, size, "%.2X", c)` writes; it returns 2 in any case. -/
def snprintf (size : ℕ) (c : UInt8) : List Char :=
  if size = 0 then [] else (printed c).take (size - 1) ++ [nul]

abbrev Target := ℤ → Option Char

/-- Characters are written from an offset on. -/
def Target.put (target : Target) (off : ℤ) (cs : List Char) : Target := fun i =>
  if off ≤ i ∧ i < off + cs.length then cs[(i - off).toNat]? else target i

/-- An `int` as a `size_t`. -/
def sizeT (n : Int32) : ℕ := (n.toInt % 2 ^ 64).toNat

/-- The loop of `snprintmem`. -/
def printLoop (tgtSize : Int32) : List UInt8 → ℤ → Int32 → Target → Target × Int32
  | [], _, wrote, target => (target, wrote)
  | c :: source, str, wrote, target =>
    if tgtSize ≤ wrote then (target.put (tgtSize.toInt - 1) [nul], wrote)
    else
      printLoop tgtSize source (str + 2) (wrote + 2)
        (target.put str (snprintf (sizeT (tgtSize - wrote)) c))

/-- `snprintmem`: what it writes, and what it returns -/
def snprintmem (tgtSize : Int32) (source : List UInt8) : Target × Int32 :=
  printLoop tgtSize source 0 0 fun _ => none

/-- `IS_HEXA` -/
def isHexa (c : Char) : Bool := (hexVal c).isSome

/-- `HEXA2BYTE` -/
def hexa2byte (c : Char) : UInt8 := UInt8.ofNat ((hexVal c).getD 0)

/-- What `sscanmem` returns, the bytes that it sets, and the offsets that it reads. -/
structure Scan where
  read : Int32
  target : List UInt8
  reads : List ℕ

/-- The loop of `sscanmem`, for the bytes that are left to be set. -/
def scanLoop (mem : ℕ → Char) : ℕ → ℕ → Scan → Scan
  | 0, _, s => s
  | n + 1, src, s =>
    if mem src = nul then ⟨-1, s.target, src :: s.reads⟩
    else if mem (src + 1) = nul ∨ isHexa (mem src) = false ∨ isHexa (mem (src + 1)) = false then
      ⟨-1, s.target, src :: (src + 1) :: s.reads⟩
    else
      scanLoop mem n (src + 2)
        ⟨s.read + 2, s.target ++ [(hexa2byte (mem src) <<< 4) + hexa2byte (mem (src + 1))],
          src :: (src + 1) :: s.reads⟩

/-- `sscanmem` -/
def sscanmem (tgtSize : ℕ) (mem : ℕ → Char) : Scan := scanLoop mem tgtSize 0 ⟨0, [], []⟩

/-! ## The contract -/

/-- The string and its terminating 0 were written, and nothing else. -/
def Holds (target : Target) (str : List Char) : Prop :=
  ∀ i, target i = if 0 ≤ i then (str ++ [nul])[i.toNat]? else none

/-- The string is in memory, with its terminating 0. -/
structure IsString (mem : ℕ → Char) (str : List Char) : Prop where
  chars : ∀ i c, str[i]? = some c → mem i = c
  stop : mem str.length = nul
  noZero : nul ∉ str

/-- The first `2 * n` characters are hexadecimal digits. -/
def StartsHexa (n : ℕ) (str : List Char) : Prop :=
  2 * n ≤ str.length ∧ ∀ c ∈ str.take (2 * n), isHexa c = true

/-- **Dump and scan are inverse**, and stay inside of the target and of the string. -/
structure HexInverse (source : List UInt8) (tgtSize : Int32) : Prop where
  /-- a target that is large enough -/
  full : source ≠ [] → 2 * source.length + 1 ≤ tgtSize.toInt →
    ∃ str, Holds (snprintmem tgtSize source).1 str ∧ str.length = 2 * source.length ∧
      (∀ c ∈ str, isHexa c = true) ∧
        ∀ mem, IsString mem str → (sscanmem source.length mem).read.toInt = 2 * source.length ∧
          (sscanmem source.length mem).target = source
  /-- a shorter one -/
  short : source ≠ [] → 1 ≤ tgtSize.toInt → tgtSize.toInt < 2 * source.length + 1 →
    ∃ str, Holds (snprintmem tgtSize source).1 str ∧ nul ∉ str ∧ str.length + 1 ≤ tgtSize.toInt
  /-- success -/
  scan : ∀ mem str, IsString mem str →
    ((sscanmem source.length mem).read ≠ -1 ↔ StartsHexa source.length str)
  /-- nothing behind the terminating 0 is read -/
  reads : ∀ mem str, IsString mem str → ∀ i ∈ (sscanmem source.length mem).reads, i ≤ str.length

/-! ## Printing -/

variable {c : UInt8} {source : List UInt8} {str : List Char} {target : Target} {tgtSize : Int32}

def text (source : List UInt8) : List Char := source.flatMap printed

theorem length_text (source : List UInt8) : (text source).length = 2 * source.length := by
  induction source with
  | nil => rfl
  | cons c source ih =>
    rw [text, List.flatMap_cons, List.length_append, ← text, ih, List.length_cons]
    simp only [printed, List.length_cons, List.length_nil]
    omega

theorem text_append_singleton : text (source ++ [c]) = text source ++ printed c := by
  simp [text]

/-- The string was written, and nothing else but one character behind it. -/
def Begins (target : Target) (str : List Char) : Prop :=
  ∀ i : ℤ, i ≠ str.length → target i = if 0 ≤ i then str[i.toNat]? else none

theorem Holds.begins (h : Holds target str) : Begins target str := by
  intro i hi
  rw [h]
  split
  · rcases Nat.lt_or_ge i.toNat str.length with hlt | hge
    · exact List.getElem?_append_left hlt
    · rw [List.getElem?_eq_none hge, List.getElem?_eq_none]
      rw [List.length_append, List.length_singleton]
      omega
  · rfl

theorem Begins.put (h : Begins target str) (cs : List Char) :
    Holds (target.put str.length (cs ++ [nul])) (str ++ cs) := by
  intro i
  have hlen : (cs ++ [nul]).length = cs.length + 1 := List.length_append
  rw [Target.put, List.append_assoc, hlen]
  split
  · have happend : (str ++ (cs ++ [nul]))[i.toNat]? = (cs ++ [nul])[i.toNat - str.length]? :=
      List.getElem?_append_right (by omega)
    rw [if_pos (by omega), happend]
    congr 1
    omega
  rw [h i (by omega)]
  split
  · next hpos =>
    rcases Nat.lt_or_ge i.toNat str.length with hlt | hge
    · exact (List.getElem?_append_left hlt).symm
    · rw [List.getElem?_eq_none hge, List.getElem?_eq_none]
      simp only [List.length_append, List.length_singleton]
      omega
  · rfl

theorem toInt_ofNat {n : ℕ} (h : n < 2 ^ 31) : (Int32.ofNat n).toInt = n :=
  Int32.toInt_ofNat_of_lt h

theorem sizeT_sub {t w : ℕ} (ht : tgtSize.toInt = t) (hw : w < 2 ^ 31) (hlt : w < t) :
    sizeT (tgtSize - Int32.ofNat w) = t - w := by
  have hbound := tgtSize.toInt_lt
  rw [sizeT, Int32.toInt_sub, ht, toInt_ofNat hw, Int.bmod_def]
  split <;> omega

/-- **The loop** of `snprintmem`, when the count stays in the range of an `int`: as much of the
digits as there is room for is in the target, `p` being what was printed before. -/
theorem printLoop_holds {t : ℕ} (ht : tgtSize.toInt = t) (hpos : 1 ≤ t) {p : List UInt8}
    (hcount : 2 * p.length ≤ t + 1)
    (hfit : t + 1 < 2 ^ 31 ∨ 2 * (p.length + source.length) ≤ 2 ^ 31)
    (hprinted : p = [] ∧ target = (fun _ => none) ∨ Holds target ((text p).take (t - 1)))
    (hne : p ++ source ≠ []) :
    Holds (printLoop tgtSize source (2 * p.length : ℕ) (Int32.ofNat (2 * p.length)) target).1
      ((text (p ++ source)).take (t - 1)) := by
  induction source generalizing p target with
  | nil =>
    rw [List.append_nil] at hne ⊢
    exact hprinted.resolve_left fun h => hne h.1
  | cons c source ih =>
    have hw : 2 * p.length < 2 ^ 31 := by
      rw [List.length_cons] at hfit
      omega
    have htext : (text p).length = 2 * p.length := length_text p
    rw [printLoop]
    split
    · next hle =>
      -- there is no room any more
      rw [Int32.le_iff_toInt_le, ht, toInt_ofNat hw] at hle
      have hholds : Holds target ((text p).take (t - 1)) := hprinted.resolve_left fun h => by
        rw [h.1, List.length_nil] at hle
        omega
      have hlen : ((text p).take (t - 1)).length = t - 1 := by
        rw [List.length_take]
        omega
      have hput := hholds.begins.put []
      rw [hlen, List.append_nil, List.nil_append] at hput
      have htake : (text (p ++ c :: source)).take (t - 1) = (text p).take (t - 1) := by
        rw [text, List.flatMap_append, ← text, List.take_append_of_le_length (by omega)]
      rw [htake, ht]
      have hcast : ((t : ℤ) - 1) = ((t - 1 : ℕ) : ℤ) := by omega
      rw [hcast]
      exact hput
    · next hlt =>
      rw [Int32.not_le, Int32.lt_iff_toInt_lt, ht, toInt_ofNat hw] at hlt
      have hbegins : Begins target (text p) := by
        rcases hprinted with ⟨rfl, rfl⟩ | h
        · intro i _
          simp [text]
        · rw [List.take_of_length_le (by omega)] at h
          exact h.begins
      have hput := hbegins.put ((printed c).take (t - 2 * p.length - 1))
      have hprint : snprintf (sizeT (tgtSize - Int32.ofNat (2 * p.length))) c =
          (printed c).take (t - 2 * p.length - 1) ++ [nul] := by
        rw [sizeT_sub ht hw (by omega), snprintf, if_neg (by omega)]
      have htake : text p ++ (printed c).take (t - 2 * p.length - 1) =
          (text (p ++ [c])).take (t - 1) := by
        have hsub : t - 2 * p.length - 1 = t - 1 - 2 * p.length := by omega
        rw [text_append_singleton, List.take_append, htext, hsub,
          List.take_of_length_le (show (text p).length ≤ t - 1 by omega)]
      have hnext : Int32.ofNat (2 * p.length) + 2 = Int32.ofNat (2 * (p ++ [c]).length) := by
        rw [List.length_append, List.length_singleton, Nat.mul_add, Int32.ofNat_add]
        rfl
      have hstr : ((2 * p.length : ℕ) : ℤ) + 2 = ((2 * (p ++ [c]).length : ℕ) : ℤ) := by
        rw [List.length_append, List.length_singleton]
        omega
      rw [htext, htake] at hput
      rw [hprint, hnext, hstr, List.append_cons p c source]
      refine ih ?_ ?_ (.inr hput) (by simp)
      · rw [List.length_append, List.length_singleton]
        omega
      · rw [List.length_cons] at hfit
        rw [List.length_append, List.length_singleton]
        omega

/-! ## The count passes the largest `int` -/

theorem printLoop_mono {i str : ℤ} {wrote : Int32} (h : target i ≠ none) :
    (printLoop tgtSize source str wrote target).1 i ≠ none := by
  have hput : ∀ {target : Target} (off : ℤ) (cs : List Char), target i ≠ none →
      target.put off cs i ≠ none := by
    intro target off cs h
    rw [Target.put]
    split
    · rw [ne_eq, List.getElem?_eq_none_iff]
      omega
    · exact h
  induction source generalizing str wrote target with
  | nil => exact h
  | cons c source ih =>
    rw [printLoop]
    split
    · exact hput _ _ h
    · exact ih (hput _ _ h)

/-- **Past the largest `int`** the count is negative, and the loop goes on behind the target. -/
theorem printLoop_beyond (ht : tgtSize.toInt = 2 ^ 31 - 1) {w : ℕ} (heven : w % 2 = 0)
    (hw : w ≤ 2 ^ 31) (hlong : 2 ^ 31 + 2 ≤ w + 2 * source.length) :
    (printLoop tgtSize source w (Int32.ofNat w) target).1 (2 ^ 31) ≠ none := by
  induction source generalizing w target with
  | nil =>
    rw [List.length_nil] at hlong
    omega
  | cons c source ih =>
    rw [List.length_cons] at hlong
    rcases Nat.lt_or_ge w (2 ^ 31) with hlt | hge
    · have hroom : ¬ tgtSize ≤ Int32.ofNat w := by
        rw [Int32.le_iff_toInt_le, ht, toInt_ofNat hlt]
        omega
      have hnext : Int32.ofNat w + 2 = Int32.ofNat (w + 2) := (Int32.ofNat_add w 2).symm
      rw [printLoop, if_neg hroom, hnext]
      exact ih (w := w + 2) (by omega) (by omega) (by omega)
    · obtain rfl : w = 2 ^ 31 := by omega
      have hmin : (Int32.ofNat (2 ^ 31)).toInt = -2 ^ 31 := by decide
      have hroom : ¬ tgtSize ≤ Int32.ofNat (2 ^ 31) := by
        rw [Int32.le_iff_toInt_le, ht, hmin]
        omega
      have hsize : sizeT (tgtSize - Int32.ofNat (2 ^ 31)) = 2 ^ 64 - 1 := by
        rw [sizeT, Int32.toInt_sub, ht, hmin]
        decide
      rw [printLoop, if_neg hroom, hsize]
      refine printLoop_mono ?_
      simp [Target.put, snprintf, printed]

/-! ## Reading -/

theorem hexVal_digit {d : ℕ} (hd : d < 16) : hexVal d.digitChar.toUpper = some d := by
  interval_cases d <;> rfl

theorem isHexa_of_mem_text {d : Char} (hd : d ∈ text source) : isHexa d = true := by
  obtain ⟨c, -, hd⟩ := List.mem_flatMap.mp hd
  have hc := c.toNat_lt
  simp only [printed, List.mem_cons, List.not_mem_nil, or_false] at hd
  rcases hd with rfl | rfl
  · rw [isHexa, hexVal_digit (by omega), Option.isSome_some]
  · rw [isHexa, hexVal_digit (by omega), Option.isSome_some]

theorem hexa2byte_printed (c : UInt8) :
    (hexa2byte (c.toNat / 16).digitChar.toUpper <<< 4) +
      hexa2byte (c.toNat % 16).digitChar.toUpper = c := by
  have hc := c.toNat_lt
  rw [hexa2byte, hexa2byte, hexVal_digit (by omega), hexVal_digit (by omega)]
  refine UInt8.toNat_inj.mp ?_
  simp only [Option.getD_some, UInt8.toNat_add, UInt8.toNat_shiftLeft, UInt8.toNat_ofNat',
    Nat.shiftLeft_eq]
  have hfour : (4 : UInt8).toNat % 8 = 4 := rfl
  rw [hfour]
  omega

section

variable {mem : ℕ → Char} {n src : ℕ} {l : List Char} {a b : Char} {s : Scan}

theorem IsString.nil (h : IsString mem str) (hsrc : src ≤ str.length) (hl : str.drop src = []) :
    mem src = nul := by
  rw [List.drop_eq_nil_iff] at hl
  rw [Nat.le_antisymm hsrc hl]
  exact h.stop

theorem IsString.cons (h : IsString mem str) (hl : str.drop src = a :: l) :
    mem src = a ∧ a ≠ nul ∧ src < str.length ∧ str.drop (src + 1) = l := by
  have hget : str[src]? = some a := by
    rw [← List.head?_drop, hl, List.head?_cons]
  refine ⟨h.chars src a hget, fun hnul => h.noZero (hnul ▸ List.mem_of_getElem? hget),
    (List.getElem?_eq_some_iff.mp hget).1, ?_⟩
  rw [← List.drop_drop, hl, List.drop_one, List.tail_cons]

instance (n : ℕ) (str : List Char) : Decidable (StartsHexa n str) :=
  inferInstanceAs (Decidable (_ ∧ _))

theorem startsHexa_cons : StartsHexa (n + 1) (a :: b :: l) ↔
    isHexa a = true ∧ isHexa b = true ∧ StartsHexa n l := by
  simp only [StartsHexa, Nat.mul_add, List.length_cons, List.take_succ_cons, List.forall_mem_cons]
  refine ⟨fun h => ⟨h.2.1, h.2.2.1, by omega, h.2.2.2⟩, fun h => ⟨by omega, h.1, h.2.1, h.2.2.2⟩⟩

theorem scanLoop_spec (h : IsString mem str) (hsrc : src ≤ str.length)
    (hreads : ∀ i ∈ s.reads, i ≤ str.length) :
    (scanLoop mem n src s).read =
        (if StartsHexa n (str.drop src) then s.read + Int32.ofNat (2 * n) else -1) ∧
      ∀ i ∈ (scanLoop mem n src s).reads, i ≤ str.length := by
  induction n generalizing src s with
  | zero =>
    rw [if_pos ⟨Nat.zero_le _, by simp⟩]
    exact ⟨(Int32.add_zero _).symm, hreads⟩
  | succ n ih =>
    rw [scanLoop]
    cases hl : str.drop src with
    | nil =>
      rw [if_pos (h.nil hsrc hl), if_neg (by simp [StartsHexa])]
      exact ⟨rfl, List.forall_mem_cons.mpr ⟨hsrc, hreads⟩⟩
    | cons a l =>
      obtain ⟨ha, hane, hlt, hdrop⟩ := h.cons hl
      rw [ha, if_neg hane]
      have hreads' : ∀ i ∈ src :: (src + 1) :: s.reads, i ≤ str.length :=
        List.forall_mem_cons.mpr ⟨hsrc, List.forall_mem_cons.mpr ⟨hlt, hreads⟩⟩
      cases l with
      | nil =>
        have hshort : ¬ StartsHexa (n + 1) [a] := fun h => by
          have hlen := h.1
          rw [List.length_singleton] at hlen
          omega
        rw [if_pos (.inl (h.nil hlt hdrop)), if_neg hshort]
        exact ⟨rfl, hreads'⟩
      | cons b l =>
        obtain ⟨hb, hbne, hlt', hdrop'⟩ := h.cons hdrop
        rw [hb]
        simp only [startsHexa_cons]
        split
        · next hbad =>
          have hnot : ¬ (isHexa a = true ∧ isHexa b = true ∧ StartsHexa n l) := by
            rintro ⟨ha', hb', -⟩
            simp [hbne, ha', hb'] at hbad
          rw [if_neg hnot]
          exact ⟨rfl, hreads'⟩
        · next hgood =>
          obtain ⟨hread, hin⟩ := @ih (src + 2) ⟨s.read + 2, _, _⟩ hlt' hreads'
          refine ⟨?_, hin⟩
          simp only [not_or, Bool.not_eq_false] at hgood
          have hadd : s.read + 2 + Int32.ofNat (2 * n) = s.read + Int32.ofNat (2 * (n + 1)) := by
            rw [Nat.mul_add, Nat.add_comm, Int32.ofNat_add, Int32.add_assoc]
            rfl
          rw [hread, hdrop', hadd]
          simp only [hgood.2.1, hgood.2.2, true_and]

theorem scanLoop_text (h : IsString mem str) (hl : str.drop src = text source) :
    (scanLoop mem source.length src s).target = s.target ++ source := by
  induction source generalizing src s with
  | nil => exact (List.append_nil _).symm
  | cons c source ih =>
    obtain ⟨ha, hane, -, hdrop⟩ := h.cons hl
    obtain ⟨hb, hbne, -, hdrop'⟩ := h.cons hdrop
    have hhexa : ∀ d ∈ text [c], isHexa d = true := fun d => isHexa_of_mem_text
    simp only [text, List.flatMap_singleton, printed, List.forall_mem_cons] at hhexa
    rw [List.length_cons, scanLoop, ha, hb, if_neg hane,
      if_neg (by simp [hbne, hhexa.1, hhexa.2.1]), hexa2byte_printed, ih hdrop', List.append_assoc,
      List.singleton_append]

theorem sscanmem_read (h : IsString mem str) : (sscanmem n mem).read =
    if StartsHexa n str then Int32.ofNat (2 * n) else -1 := by
  have hspec : (sscanmem n mem).read = _ ∧ _ :=
    scanLoop_spec h (Nat.zero_le _) fun i hi => by cases hi
  rw [hspec.1, List.drop_zero, Int32.zero_add]

theorem ofNat_ne (n : ℕ) : Int32.ofNat (2 * n) ≠ -1 := by
  intro h
  have hint := congrArg Int32.toInt h
  have hone : (-1 : Int32).toInt = -1 := by decide
  have hsize : (Int32.size : ℤ) = 2 ^ 32 := rfl
  rw [Int32.toInt_ofNat', hone, Int.bmod_def, hsize] at hint
  split at hint <;> omega

end

/-! ## The result -/

/-- **Dump and scan are inverse and stay in their bounds** exactly if the target is smaller than the
largest `int`, or the block has no more than `2 ^ 30` bytes. -/
theorem hexInverse_iff (source : List UInt8) (tgtSize : Int32) : HexInverse source tgtSize ↔
    tgtSize.toInt ≠ 2 ^ 31 - 1 ∨ source.length ≤ 2 ^ 30 := by
  have hbound := tgtSize.toInt_lt
  constructor
  · intro h
    by_contra hcond
    push Not at hcond
    obtain ⟨ht, hlong⟩ := hcond
    have hne : source ≠ [] := by
      rintro rfl
      rw [List.length_nil] at hlong
      omega
    obtain ⟨str, hholds, -, hlen⟩ := h.short hne (by omega) (by omega)
    refine printLoop_beyond ht (w := 0) rfl (by omega) (by omega) ((hholds (2 ^ 31)).trans ?_)
    rw [if_pos (by decide), List.getElem?_eq_none]
    rw [List.length_append, List.length_singleton]
    omega
  · intro hcond
    have hholds : ∀ t : ℕ, tgtSize.toInt = t → 1 ≤ t → source ≠ [] →
        Holds (snprintmem tgtSize source).1 ((text source).take (t - 1)) := fun t ht hpos hne =>
      printLoop_holds ht hpos (p := []) (Nat.zero_le _) (by
        rw [List.length_nil]
        omega) (Or.inl ⟨rfl, rfl⟩) hne
    have hlen := length_text source
    refine ⟨fun hne hfull => ?_, fun hne hpos hshort => ?_, fun mem str h => ?_,
      fun mem str h => (scanLoop_spec h (Nat.zero_le _) fun i hi => by cases hi).2⟩
    · have htext := hholds tgtSize.toInt.toNat (by omega) (by omega) hne
      rw [List.take_of_length_le (by omega)] at htext
      refine ⟨text source, htext, hlen, fun c => isHexa_of_mem_text, fun mem h => ⟨?_, ?_⟩⟩
      · have hstarts : StartsHexa source.length (text source) :=
          ⟨hlen.ge, fun c hc => isHexa_of_mem_text (List.mem_of_mem_take hc)⟩
        rw [sscanmem_read h, if_pos hstarts, toInt_ofNat (by omega)]
        omega
      · exact scanLoop_text h List.drop_zero
    · refine ⟨_, hholds tgtSize.toInt.toNat (by omega) (by omega) hne, fun hnul => ?_, ?_⟩
      · exact absurd (isHexa_of_mem_text (List.mem_of_mem_take hnul)) (by decide)
      · rw [List.length_take]
        omega
    · rw [sscanmem_read h]
      split
      · next hstarts => exact iff_of_true (ofNat_ne _) hstarts
      · next hstarts => exact iff_of_false (fun h => h rfl) hstarts

/-- **A block of `2 ^ 30 + 1` bytes** is printed beyond a target of the largest size. -/
theorem not_hexInverse : ¬ ∀ source tgtSize, HexInverse source tgtSize := by
  intro h
  have hmax : (Int32.ofNat (2 ^ 31 - 1)).toInt = 2 ^ 31 - 1 := by decide
  rcases (hexInverse_iff _ _).mp (h (List.replicate (2 ^ 30 + 1) 0) (Int32.ofNat (2 ^ 31 - 1))) with
    hsize | hlen
  · exact hsize hmax
  · rw [List.length_replicate] at hlen
    omega

end CloudNfs.HexDump
