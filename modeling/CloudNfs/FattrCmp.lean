import Mathlib.Data.UInt
import CloudNfs.FattrEncode

/-!
# Comparing attributes (`NFS_Protocols/nfs_proto_tools.c`, `nfs4_op_verify.c`, `nfs4_op_nverify.c`)

`VERIFY` and `NVERIFY` compare the attributes that a client sends with those of the object, value by
value. The comparison walks along the values, but goes on only behind some of them.

* `tells_iff` — the answers are right exactly when what is different is among these bytes, and
  none of them is outside.

What `memcmp` returns for different bytes is a parameter.
-/

namespace CloudNfs.Attributes

/-! ## The code -/

/-- `memcmp`, of as many bytes: an `int`, added to an `unsigned int`. It is zero for the same bytes
only. -/
structure Memcmp where
  fn : List UInt8 → List UInt8 → UInt32
  /-- it tells if bytes are the same -/
  eq_zero_iff : ∀ x y, x.length = y.length → (fn x y = 0 ↔ x = y)

def Inside (vals : List UInt8) (r : ℕ × ℕ) : Prop := r.2 = 0 ∨ r.1 + r.2 ≤ vals.length

instance (vals : List UInt8) (r : ℕ × ℕ) : Decidable (Inside vals r) :=
  inferInstanceAs (Decidable (_ ∨ _))

/-- The same bytes of both. -/
def compareAt (memcmp : Memcmp) (vals₁ vals₂ : List UInt8) (offset n : ℕ) : Option UInt32 :=
  if Inside vals₁ (offset, n) ∧ Inside vals₂ (offset, n) then
    some (memcmp.fn (field offset n vals₁) (field offset n vals₂))
  else none

/-- The length at an offset. -/
def lenAt (vals : List UInt8) (offset : ℕ) : ℕ := beValue (field offset 4 vals)

/-- So many words, one by one. -/
def compareWords (memcmp : Memcmp) (vals₁ vals₂ : List UInt8) : ℕ → ℕ → Option UInt32
  | _, 0 => some 0
  | offset, n + 1 =>
    match compareAt memcmp vals₁ vals₂ offset 4 with
    | none => none
    | some c => (compareWords memcmp vals₁ vals₂ (offset + 4) n).map fun rest => c + rest

/-- The attributes that are compared as a length and a string. -/
def isString (a : ℕ) : Bool := a ∈ [19, 36, 37]

/-- `fattr4tab[attribute_to_set].size_fattr4`. -/
def sizeFattr4 (a : ℕ) : ℕ := ((fattr4tab40[a]?).map FattrDent.sizeFattr4).getD 0

/-- The first loop of `nfs4_Fattr_cmp`: `FALSE` or `-1`, or it goes on. -/
def maskLoop : List ℕ → List ℕ → Option ℤ
  | a :: l₁, b :: l₂ => if a ≠ b then some 0 else if a = 11 then some (-1) else maskLoop l₁ l₂
  | _, _ => none

/-- The second loop. Behind `FATTR4_SUPPORTED_ATTRS` the offset is that of the next value; behind a
string it is where the string begins, and behind any other value where this value does. -/
def cmpLoop (memcmp : Memcmp) (vals₁ vals₂ : List UInt8) : ℕ → UInt32 → List ℕ → Option ℤ
  | _, cmp, [] => some (if cmp = 0 then 1 else 0)
  | offset, cmp, a :: rest =>
    if a = 0 then
      match compareWords memcmp vals₁ vals₂ offset (lenAt vals₁ offset + 1) with
      | none => none
      | some c =>
        cmpLoop memcmp vals₁ vals₂ (offset + 4 + 4 * lenAt vals₁ offset) (cmp + c) rest
    else if isString a then
      match compareAt memcmp vals₁ vals₂ offset 4,
        compareAt memcmp vals₁ vals₂ (offset + 4) (lenAt vals₁ offset) with
      | some c, some c' => cmpLoop memcmp vals₁ vals₂ (offset + 4) (cmp + (c + c')) rest
      | _, _ => none
    else if a ≤ mountedOnFileid then
      match compareAt memcmp vals₁ vals₂ offset (sizeFattr4 a) with
      | none => none
      | some c => cmpLoop memcmp vals₁ vals₂ offset (cmp + c) rest
    else some 0

/-- `nfs4_Fattr_cmp`: `TRUE`, `FALSE` or `-1`. -/
def nfs4FattrCmp (memcmp : Memcmp) (f₁ f₂ : Fattr4) : Option ℤ :=
  if f₁.attrmask.len ≠ f₂.attrmask.len then some 0
  else
    match attrMaskList f₁.attrmask, attrMaskList f₂.attrmask with
    | some l₁, some l₂ =>
      if l₁.length ≠ l₂.length then some 0
      else
        match maskLoop l₁ l₂ with
        | some result => some result
        | none => cmpLoop memcmp f₁.attrVals f₂.attrVals 0 0 l₁
    | _, _ => none

/-! ## The operations -/

/-- The status of `VERIFY` and `NVERIFY`. -/
inductive VerifyStatus where
  /-- `NFS4_OK` -/
  | ok
  | inval
  | notSame
  | same
  deriving DecidableEq

/-- What `nfs4_op_verify` makes of the comparison. -/
def verifyStatus (rc : ℤ) : VerifyStatus :=
  if rc = 1 then .ok else if rc = -1 then .inval else .notSame

/-- What `nfs4_op_nverify` makes of it. -/
def nverifyStatus (rc : ℤ) : VerifyStatus :=
  if rc = 0 then .ok else if rc = -1 then .inval else .same

/-! ## The property -/

/-- The same words. -/
def SameBitmap (b₁ b₂ : Bitmap4) : Prop :=
  b₁.len = b₂.len ∧ ∀ k < b₁.len.toNat, b₁.val k = b₂.val k

/-- The same bitmap, and the same value for each of its attributes. -/
def Same (f₁ f₂ : Fattr4) (vs₁ vs₂ : List (List UInt8)) : Prop :=
  SameBitmap f₁.attrmask f₂.attrmask ∧ vs₁ = vs₂

/-- The result and what the operations make of it answer a question. -/
structure Answers (rc : ℤ) (p : Prop) : Prop where
  /-- `TRUE` -/
  cmp : rc = 1 ↔ p
  verify : verifyStatus rc = .notSame ↔ ¬ p
  nverify : nverifyStatus rc = .same ↔ p

/-- **The comparison tells if attributes are the same**, and so do both operations. -/
def Tells (memcmp : Memcmp) (f₁ f₂ : Fattr4) (vs₁ vs₂ : List (List UInt8)) : Prop :=
  ∃ rc, nfs4FattrCmp memcmp f₁ f₂ = some rc ∧ Answers rc (Same f₁ f₂ vs₁ vs₂)

/-! ## When it holds -/

/-- **The bytes that are compared**, as offsets and lengths. -/
def ranges (vals : List UInt8) : ℕ → List ℕ → List (ℕ × ℕ)
  | _, [] => []
  | offset, a :: rest =>
    if a = 0 then
      (List.range (lenAt vals offset + 1)).map (fun k => (offset + 4 * k, 4)) ++
        ranges vals (offset + 4 + 4 * lenAt vals offset) rest
    else if isString a then
      (offset, 4) :: (offset + 4, lenAt vals offset) :: ranges vals (offset + 4) rest
    else if a ≤ mountedOnFileid then (offset, sizeFattr4 a) :: ranges vals offset rest
    else []

/-- What `memcmp` returns for them, taken together. -/
def differences (memcmp : Memcmp) (vals₁ vals₂ : List UInt8) (rs : List (ℕ × ℕ)) : UInt32 :=
  (rs.map fun r => memcmp.fn (field r.1 r.2 vals₁) (field r.1 r.2 vals₂)).sum

/-- Both lists begin in the same way, up to `FATTR4_RDATTR_ERROR`. -/
def RdattrFirst (l₁ l₂ : List ℕ) : Prop := ∃ p, p ++ [11] <+: l₁ ∧ p ++ [11] <+: l₂

/-- Values of the same attributes: what is compared is inside of them; if they are the same, there
is no attribute that is not known, and if they are not, what is compared shows it. -/
structure ValuesNoticed (memcmp : Memcmp) (f₁ f₂ : Fattr4) (vs₁ vs₂ : List (List UInt8))
    (l : List ℕ) : Prop where
  inside : ∀ r ∈ ranges f₁.attrVals 0 l, Inside f₁.attrVals r ∧ Inside f₂.attrVals r
  same : vs₁ = vs₂ → ∀ a ∈ l, a ≤ mountedOnFileid
  differ : vs₁ ≠ vs₂ → (∃ a ∈ l, mountedOnFileid < a) ∨
    differences memcmp f₁.attrVals f₂.attrVals (ranges f₁.attrVals 0 l) ≠ 0

/-- The lists have room, `FATTR4_RDATTR_ERROR` does not come before a difference, and values of the
same attributes are noticed. -/
structure AttrsNoticed (memcmp : Memcmp) (f₁ f₂ : Fattr4) (vs₁ vs₂ : List (List UInt8)) :
    Prop where
  few₁ : (bitmap4ToList f₁.attrmask).length ≤ mountedOnFileid
  few₂ : (bitmap4ToList f₂.attrmask).length ≤ mountedOnFileid
  noError : (bitmap4ToList f₁.attrmask).length = (bitmap4ToList f₂.attrmask).length →
    ¬ RdattrFirst (bitmap4ToList f₁.attrmask) (bitmap4ToList f₂.attrmask)
  values : bitmap4ToList f₁.attrmask = bitmap4ToList f₂.attrmask →
    ValuesNoticed memcmp f₁ f₂ vs₁ vs₂ (bitmap4ToList f₁.attrmask)

/-- The bitmaps are not of the same length, or what is different is noticed. -/
def Noticed (memcmp : Memcmp) (f₁ f₂ : Fattr4) (vs₁ vs₂ : List (List UInt8)) : Prop :=
  f₁.attrmask.len ≠ f₂.attrmask.len ∨ AttrsNoticed memcmp f₁ f₂ vs₁ vs₂

section

variable {memcmp : Memcmp} {vals vals₁ vals₂ : List UInt8} {f₁ f₂ : Fattr4}
  {vs₁ vs₂ : List (List UInt8)} {b₁ b₂ : Bitmap4} {l l₁ l₂ : List ℕ} {a offset n : ℕ}

/-! ## The bitmaps -/

theorem sameBitmap_iff (hlen : b₁.len = b₂.len) (hfew : b₁.len.toNat ≤ 2 ^ 27) :
    SameBitmap b₁ b₂ ↔ bitmap4ToList b₁ = bitmap4ToList b₂ := by
  have hsmall : ∀ b : Bitmap4, b.len = b₁.len → ∀ a, b.Has a → a < 2 ^ 32 := by
    intro b hb a ha
    have hlt := ha.1
    rw [hb] at hlt
    omega
  constructor
  · rintro ⟨-, hval⟩
    rw [bitmap4ToList, bitmap4ToList, ← hlen, List.flatMap_def, List.flatMap_def]
    congr 1
    apply List.map_congr_left
    intro k hk
    rw [hval k (List.mem_range.mp hk)]
  · intro hlist
    refine ⟨hlen, fun k hk => BitVec.eq_of_getLsbD_eq fun i hi => ?_⟩
    have hword : (i + 32 * k) / 32 = k := by omega
    have hbit : (i + 32 * k) % 32 = i := by omega
    have hhas : b₁.Has (i + 32 * k) ↔ b₂.Has (i + 32 * k) := by
      rw [← mem_bitmap4ToList (hsmall b₁ rfl), ← mem_bitmap4ToList (hsmall b₂ hlen.symm), hlist]
    rw [Bitmap4.Has, Bitmap4.Has, hword, hbit, ← hlen, and_iff_right hk, and_iff_right hk] at hhas
    exact Bool.eq_iff_iff.mpr hhas

theorem rdattrFirst_cons : RdattrFirst (a :: l₁) (a :: l₂) ↔ a = 11 ∨ RdattrFirst l₁ l₂ := by
  constructor
  · rintro ⟨p, h₁, h₂⟩
    cases p with
    | nil => exact .inl (List.cons_prefix_cons.mp h₁).1.symm
    | cons x p =>
      exact .inr ⟨p, (List.cons_prefix_cons.mp h₁).2, (List.cons_prefix_cons.mp h₂).2⟩
  · rintro (rfl | ⟨p, h₁, h₂⟩)
    · exact ⟨[], List.cons_prefix_cons.mpr ⟨rfl, List.nil_prefix⟩,
        List.cons_prefix_cons.mpr ⟨rfl, List.nil_prefix⟩⟩
    · exact ⟨a :: p, List.cons_prefix_cons.mpr ⟨rfl, h₁⟩, List.cons_prefix_cons.mpr ⟨rfl, h₂⟩⟩

theorem maskLoop_spec (hlen : l₁.length = l₂.length) :
    RdattrFirst l₁ l₂ ∧ maskLoop l₁ l₂ = some (-1) ∨
      ¬ RdattrFirst l₁ l₂ ∧ maskLoop l₁ l₂ = if l₁ = l₂ then none else some 0 := by
  induction l₁ generalizing l₂ with
  | nil =>
    cases l₂ with
    | cons b l₂ => cases hlen
    | nil =>
      refine .inr ⟨?_, rfl⟩
      rintro ⟨p, h, -⟩
      exact absurd (List.prefix_nil.mp h) (by simp)
  | cons a l₁ ih =>
    cases l₂ with
    | nil => cases hlen
    | cons b l₂ =>
      rw [maskLoop]
      by_cases hab : a = b
      · subst hab
        rw [if_neg (not_not.mpr rfl), rdattrFirst_cons]
        by_cases herror : a = 11
        · rw [if_pos herror]
          exact .inl ⟨.inl herror, rfl⟩
        rw [if_neg herror]
        obtain ⟨hfirst, h⟩ | ⟨hfirst, h⟩ := ih (Nat.succ.inj hlen)
        · exact .inl ⟨.inr hfirst, h⟩
        · refine .inr ⟨fun h => h.elim herror hfirst, ?_⟩
          rw [h]
          refine if_congr ?_ rfl rfl
          rw [List.cons_eq_cons, and_iff_right rfl]
      · rw [if_pos hab, if_neg fun h => hab (List.cons.inj h).1]
        refine .inr ⟨?_, rfl⟩
        rintro ⟨p, h₁, h₂⟩
        cases p with
        | nil =>
          exact hab ((List.cons_prefix_cons.mp h₁).1.symm.trans (List.cons_prefix_cons.mp h₂).1)
        | cons x p =>
          exact hab ((List.cons_prefix_cons.mp h₁).1.symm.trans (List.cons_prefix_cons.mp h₂).1)

/-! ## What is compared -/

/-- All bytes are there. -/
def AllInside (vals₁ vals₂ : List UInt8) (rs : List (ℕ × ℕ)) : Prop :=
  ∀ r ∈ rs, Inside vals₁ r ∧ Inside vals₂ r

variable {r : ℕ × ℕ} {rs : List (ℕ × ℕ)} {p : Prop}

theorem compareAt_of_inside (h : Inside vals₁ r ∧ Inside vals₂ r) :
    compareAt memcmp vals₁ vals₂ r.1 r.2 =
      some (memcmp.fn (field r.1 r.2 vals₁) (field r.1 r.2 vals₂)) := if_pos h

theorem compareAt_of_not_inside (h : ¬ (Inside vals₁ r ∧ Inside vals₂ r)) :
    compareAt memcmp vals₁ vals₂ r.1 r.2 = none := if_neg h

theorem allInside_cons :
    AllInside vals₁ vals₂ (r :: rs) ↔
      (Inside vals₁ r ∧ Inside vals₂ r) ∧ AllInside vals₁ vals₂ rs := List.forall_mem_cons

theorem allInside_append {rs' : List (ℕ × ℕ)} :
    AllInside vals₁ vals₂ (rs ++ rs') ↔
      AllInside vals₁ vals₂ rs ∧ AllInside vals₁ vals₂ rs' := List.forall_mem_append

theorem differences_cons :
    differences memcmp vals₁ vals₂ (r :: rs) =
      memcmp.fn (field r.1 r.2 vals₁) (field r.1 r.2 vals₂) +
        differences memcmp vals₁ vals₂ rs := by
  rw [differences, differences, List.map_cons, List.sum_cons]

theorem differences_append {rs' : List (ℕ × ℕ)} :
    differences memcmp vals₁ vals₂ (rs ++ rs') =
      differences memcmp vals₁ vals₂ rs + differences memcmp vals₁ vals₂ rs' := by
  rw [differences, differences, differences, List.map_append, List.sum_append]

theorem compareWords_spec (memcmp : Memcmp) (vals₁ vals₂ : List UInt8) (offset n : ℕ) :
    (AllInside vals₁ vals₂ ((List.range n).map fun k => (offset + 4 * k, 4)) →
      compareWords memcmp vals₁ vals₂ offset n =
        some (differences memcmp vals₁ vals₂
          ((List.range n).map fun k => (offset + 4 * k, 4)))) ∧
    (¬ AllInside vals₁ vals₂ ((List.range n).map fun k => (offset + 4 * k, 4)) →
      compareWords memcmp vals₁ vals₂ offset n = none) := by
  induction n generalizing offset with
  | zero => exact ⟨fun _ => rfl, fun h => absurd nofun h⟩
  | succ n ih =>
    have hrange : (List.range (n + 1)).map (fun k => (offset + 4 * k, 4)) =
        (offset, 4) :: (List.range n).map fun k => (offset + 4 + 4 * k, 4) := by
      rw [List.range_succ_eq_map, List.map_cons, List.map_map]
      congr 1
      apply List.map_congr_left
      intro k _
      rw [Function.comp_apply, Nat.mul_succ, Nat.add_comm (4 * k), Nat.add_assoc]
    obtain ⟨hall, hnone⟩ := ih (offset + 4)
    rw [hrange, allInside_cons, differences_cons, compareWords]
    constructor
    · rintro ⟨hfirst, hrest⟩
      rw [compareAt_of_inside (r := (offset, 4)) hfirst, hall hrest]
      rfl
    · intro hnot
      by_cases hfirst : Inside vals₁ (offset, 4) ∧ Inside vals₂ (offset, 4)
      · rw [compareAt_of_inside (r := (offset, 4)) hfirst, hnone fun h => hnot ⟨hfirst, h⟩]
        rfl
      · rw [compareAt_of_not_inside (r := (offset, 4)) hfirst]

/-- The result of the second loop, if all bytes are there. -/
def cmpResult (cmp : UInt32) (l : List ℕ) : ℤ :=
  if (∃ a ∈ l, mountedOnFileid < a) ∨ cmp ≠ 0 then 0 else 1

theorem cmpResult_cons {cmp : UInt32} (ha : a ≤ mountedOnFileid) :
    cmpResult cmp (a :: l) = cmpResult cmp l := by
  rw [cmpResult, cmpResult]
  refine if_congr (or_congr_left ?_) rfl rfl
  rw [List.exists_mem_cons_iff, or_iff_right (Nat.not_lt.mpr ha)]

theorem cmpLoop_spec (memcmp : Memcmp) (vals₁ vals₂ : List UInt8) (offset : ℕ) (cmp : UInt32)
    (l : List ℕ) :
    (AllInside vals₁ vals₂ (ranges vals₁ offset l) →
      cmpLoop memcmp vals₁ vals₂ offset cmp l =
        some (cmpResult (cmp + differences memcmp vals₁ vals₂ (ranges vals₁ offset l)) l)) ∧
    (¬ AllInside vals₁ vals₂ (ranges vals₁ offset l) →
      cmpLoop memcmp vals₁ vals₂ offset cmp l = none) := by
  induction l generalizing offset cmp with
  | nil =>
    refine ⟨fun _ => ?_, fun h => absurd nofun h⟩
    have hzero : cmp + differences memcmp vals₁ vals₂ (ranges vals₁ offset []) = cmp :=
      UInt32.add_zero cmp
    rw [hzero, cmpLoop, cmpResult]
    by_cases hcmp : cmp = 0
    · rw [if_pos hcmp, if_neg]
      rintro (⟨a, ha, -⟩ | hne)
      · cases ha
      · exact hne hcmp
    · rw [if_neg hcmp, if_pos (.inr hcmp)]
  | cons a rest ih =>
    rw [cmpLoop, ranges]
    by_cases hzero : a = 0
    · -- the supported attributes
      rw [if_pos hzero, if_pos hzero, allInside_append, differences_append, ← UInt32.add_assoc,
        cmpResult_cons (by rw [hzero]; exact Nat.zero_le _)]
      obtain ⟨hwords, hnot⟩ := compareWords_spec memcmp vals₁ vals₂ offset (lenAt vals₁ offset + 1)
      by_cases hfirst : AllInside vals₁ vals₂
        ((List.range (lenAt vals₁ offset + 1)).map fun k => (offset + 4 * k, 4))
      · rw [hwords hfirst, and_iff_right hfirst]
        exact ih _ _
      · rw [hnot hfirst]
        exact ⟨fun h => absurd h.1 hfirst, fun _ => rfl⟩
    rw [if_neg hzero, if_neg hzero]
    by_cases hstring : isString a = true
    · -- a string
      have ha : a ≤ mountedOnFileid :=
        (by decide : ∀ a ∈ [19, 36, 37], a ≤ mountedOnFileid) a (of_decide_eq_true hstring)
      rw [if_pos hstring, if_pos hstring, allInside_cons, allInside_cons, differences_cons,
        differences_cons, ← UInt32.add_assoc (memcmp.fn _ _), ← UInt32.add_assoc,
        cmpResult_cons ha]
      by_cases hlen : Inside vals₁ (offset, 4) ∧ Inside vals₂ (offset, 4)
      · rw [compareAt_of_inside (r := (offset, 4)) hlen, and_iff_right hlen]
        by_cases hbytes : Inside vals₁ (offset + 4, lenAt vals₁ offset) ∧
            Inside vals₂ (offset + 4, lenAt vals₁ offset)
        · rw [compareAt_of_inside (r := (offset + 4, lenAt vals₁ offset)) hbytes,
            and_iff_right hbytes]
          exact ih _ _
        · rw [compareAt_of_not_inside (r := (offset + 4, lenAt vals₁ offset)) hbytes]
          exact ⟨fun h => absurd h.1 hbytes, fun _ => rfl⟩
      · rw [compareAt_of_not_inside (r := (offset, 4)) hlen]
        exact ⟨fun h => absurd h.1 hlen, fun _ => rfl⟩
    rw [if_neg hstring, if_neg hstring]
    by_cases hknown : a ≤ mountedOnFileid
    · -- a value of a fixed size
      rw [if_pos hknown, if_pos hknown, allInside_cons, differences_cons, ← UInt32.add_assoc,
        cmpResult_cons hknown]
      by_cases hbytes : Inside vals₁ (offset, sizeFattr4 a) ∧ Inside vals₂ (offset, sizeFattr4 a)
      · rw [compareAt_of_inside (r := (offset, sizeFattr4 a)) hbytes, and_iff_right hbytes]
        exact ih _ _
      · rw [compareAt_of_not_inside (r := (offset, sizeFattr4 a)) hbytes]
        exact ⟨fun h => absurd h.1 hbytes, fun _ => rfl⟩
    · -- an attribute that is not known
      rw [if_neg hknown, if_neg hknown]
      refine ⟨fun _ => ?_, fun h => absurd nofun h⟩
      rw [cmpResult, if_pos (.inl ⟨a, List.mem_cons_self, Nat.not_le.mp hknown⟩)]

/-! ## The answers -/

theorem answers_true : Answers 1 p ↔ p :=
  ⟨fun h => h.cmp.mp rfl, fun h => ⟨iff_of_true rfl h, iff_of_false (by decide) (not_not.mpr h),
    iff_of_true rfl h⟩⟩

theorem answers_false : Answers 0 p ↔ ¬ p :=
  ⟨fun h => h.verify.mp rfl, fun h => ⟨iff_of_false (by decide) h, iff_of_true rfl h,
    iff_of_false (by decide) h⟩⟩

theorem not_answers_error : ¬ Answers (-1) p := by
  intro h
  have hnot : ¬ p := fun hp => absurd (h.cmp.mpr hp) (by decide)
  exact absurd (h.verify.mpr hnot) (by decide)

theorem exists_some_answers {rc : ℤ} :
    (∃ rc', some rc = some rc' ∧ Answers rc' p) ↔ Answers rc p := by
  constructor
  · rintro ⟨rc', h, hanswers⟩
    rwa [Option.some.inj h]
  · exact fun h => ⟨rc, rfl, h⟩

theorem differences_self (memcmp : Memcmp) (vals : List UInt8) (rs : List (ℕ × ℕ)) :
    differences memcmp vals vals rs = 0 := by
  induction rs with
  | nil => rfl
  | cons r rs ih =>
    rw [differences_cons, ih, (memcmp.eq_zero_iff _ _ rfl).mpr rfl]
    rfl

theorem cmpLoop_answers (hvals : vs₁ = vs₂ → f₁.attrVals = f₂.attrVals) :
    (∃ rc, cmpLoop memcmp f₁.attrVals f₂.attrVals 0 0 l = some rc ∧ Answers rc (vs₁ = vs₂)) ↔
      ValuesNoticed memcmp f₁ f₂ vs₁ vs₂ l := by
  obtain ⟨hall, hnot⟩ := cmpLoop_spec memcmp f₁.attrVals f₂.attrVals 0 0 l
  by_cases hinside : AllInside f₁.attrVals f₂.attrVals (ranges f₁.attrVals 0 l)
  swap
  · rw [hnot hinside]
    exact iff_of_false nofun fun h => hinside h.inside
  rw [hall hinside, UInt32.zero_add, exists_some_answers, cmpResult]
  split
  · rename_i hfalse
    rw [answers_false]
    constructor
    · exact fun hdiffer => ⟨hinside, fun h => absurd h hdiffer, fun _ => hfalse⟩
    · intro h hsame
      obtain ⟨a, ha, hlt⟩ | hne := hfalse
      · exact absurd (h.same hsame a ha) (Nat.not_le.mpr hlt)
      · rw [hvals hsame] at hne
        exact hne (differences_self memcmp f₂.attrVals _)
  · rename_i htrue
    rw [answers_true]
    constructor
    · intro hsame
      refine ⟨hinside, fun _ a ha => ?_, fun h => absurd hsame h⟩
      by_contra hlt
      exact htrue (.inl ⟨a, ha, Nat.not_le.mp hlt⟩)
    · intro h
      by_contra hdiffer
      exact htrue (h.differ hdiffer)

/-- **The comparison tells** exactly when the bitmaps are not of the same length, or there are few
enough attributes, `FATTR4_RDATTR_ERROR` does not come before a difference, and what is compared of
the values is inside of them and shows a difference. -/
theorem tells_iff (memcmp : Memcmp) (h₁ : Encoded f₁ vs₁) (h₂ : Encoded f₂ vs₂) :
    Tells memcmp f₁ f₂ vs₁ vs₂ ↔ Noticed memcmp f₁ f₂ vs₁ vs₂ := by
  rw [Tells, Noticed, nfs4FattrCmp]
  by_cases hlen : f₁.attrmask.len ≠ f₂.attrmask.len
  · rw [if_pos hlen, exists_some_answers, answers_false]
    exact iff_of_true (fun h => hlen h.1.1) (Or.inl hlen)
  rw [if_neg hlen, or_iff_right hlen]
  have hbitmap := sameBitmap_iff (not_not.mp hlen)
    (h₁.words.trans (by decide : 2 ≤ 2 ^ 27))
  have hlists : Same f₁ f₂ vs₁ vs₂ ↔
      bitmap4ToList f₁.attrmask = bitmap4ToList f₂.attrmask ∧ vs₁ = vs₂ := by
    rw [Same, hbitmap]
  rw [hlists]
  by_cases hfew1 : (bitmap4ToList f₁.attrmask).length ≤ mountedOnFileid
  swap
  · rw [attrMaskList, if_neg hfew1]
    exact iff_of_false (by rintro ⟨_, ⟨⟩, -⟩) fun h => hfew1 h.few₁
  by_cases hfew2 : (bitmap4ToList f₂.attrmask).length ≤ mountedOnFileid
  swap
  · rw [attrMaskList, attrMaskList, if_pos hfew1, if_neg hfew2]
    exact iff_of_false (by rintro ⟨_, ⟨⟩, -⟩) fun h => hfew2 h.few₂
  rw [attrMaskList, attrMaskList, if_pos hfew1, if_pos hfew2]
  dsimp only
  by_cases hlength : (bitmap4ToList f₁.attrmask).length = (bitmap4ToList f₂.attrmask).length
  swap
  · -- not as many attributes
    rw [if_pos hlength, exists_some_answers, answers_false]
    refine iff_of_true (fun h => hlength (congrArg List.length h.1)) ?_
    exact ⟨hfew1, hfew2, fun h => absurd h hlength, fun h => absurd (congrArg _ h) hlength⟩
  rw [if_neg (not_not.mpr hlength)]
  obtain ⟨hfirst, hloop⟩ | ⟨hfirst, hloop⟩ := maskLoop_spec hlength
  · rw [hloop, exists_some_answers]
    exact iff_of_false not_answers_error fun h => h.noError hlength hfirst
  rw [hloop]
  by_cases hattrs : bitmap4ToList f₁.attrmask = bitmap4ToList f₂.attrmask
  · -- the same attributes
    rw [if_pos hattrs, and_iff_right hattrs]
    refine (cmpLoop_answers fun hsame => ?_).trans ?_
    · rw [h₁.attrVals, h₂.attrVals, hsame]
    · exact ⟨fun h => ⟨hfew1, hfew2, fun _ => hfirst, fun _ => h⟩, fun h => h.values hattrs⟩
  · rw [if_neg hattrs, exists_some_answers, answers_false]
    exact iff_of_true (fun h => hattrs h.1)
      ⟨hfew1, hfew2, fun _ => hfirst, fun h => absurd h hattrs⟩

end

/-! ## A type and a size -/

/-- The difference of the first bytes that are not the same. -/
def byteCmp : List UInt8 → List UInt8 → UInt32
  | x :: xs, y :: ys => if x = y then byteCmp xs ys else x.toUInt32 - y.toUInt32
  | _, _ => 0

theorem byteCmp_eq_zero_iff {x y : List UInt8} (hlen : x.length = y.length) :
    byteCmp x y = 0 ↔ x = y := by
  induction x generalizing y with
  | nil =>
    obtain rfl := List.length_eq_zero_iff.mp hlen.symm
    exact iff_of_true rfl rfl
  | cons a x ih =>
    cases y with
    | nil => cases hlen
    | cons b y =>
      rw [byteCmp, List.cons_eq_cons]
      split
      · rename_i hab
        rw [and_iff_right hab, ih (Nat.succ.inj hlen)]
      rename_i hab
      refine iff_of_false (fun h => hab ?_) fun h => hab h.1
      rw [UInt32.sub_eq_iff_eq_add, UInt32.zero_add] at h
      exact UInt8.toUInt32_inj.mp h

/-- A `memcmp` that goes byte by byte. -/
def byteMemcmp : Memcmp where
  fn := byteCmp
  eq_zero_iff _ _ hlen := byteCmp_eq_zero_iff hlen

/-- The values of a file of a size: `FATTR4_TYPE` and `FATTR4_SIZE`. -/
def typeSizeValues (size : ℕ) : List (List UInt8) := [beBytes 4 1, beBytes 8 size]

/-- The `fattr4`. -/
def typeSize (size : ℕ) : Fattr4 := ⟨⟨1, fun _ => 18⟩, beBytes 4 1 ++ beBytes 8 size⟩

theorem encoded_typeSize (size : ℕ) : Encoded (typeSize size) (typeSizeValues size) where
  words := Nat.le_succ 1
  values := by
    have hattrs : bitmap4ToList ⟨1, fun _ => 18⟩ = [1, 4] := by decide
    rw [typeSize, hattrs]
    exact .cons (.fixed rfl) (.cons (.fixed rfl) .nil)
  attrVals := by
    rw [typeSizeValues, List.flatten_cons, List.flatten_cons, List.flatten_nil, List.append_nil]
    rfl

/-- A file of five bytes, and one of seven. -/
theorem tells_iff_typeSize :
    Tells byteMemcmp (typeSize 5) (typeSize 7) (typeSizeValues 5) (typeSizeValues 7) ↔
      Noticed byteMemcmp (typeSize 5) (typeSize 7) (typeSizeValues 5) (typeSizeValues 7) :=
  tells_iff byteMemcmp (encoded_typeSize 5) (encoded_typeSize 7)

/-- **They are taken for the same**: of the sizes only the first four bytes are compared. -/
theorem typeSize_not_tells :
    ¬ Tells byteMemcmp (typeSize 5) (typeSize 7) (typeSizeValues 5) (typeSizeValues 7) := by
  rintro ⟨rc, hcmp, hanswers⟩
  have htrue : nfs4FattrCmp byteMemcmp (typeSize 5) (typeSize 7) = some 1 := by decide
  cases hcmp.symm.trans htrue
  have hsame : typeSizeValues 5 = typeSizeValues 7 := (answers_true.mp hanswers).2
  exact absurd hsame (by decide)

end CloudNfs.Attributes
