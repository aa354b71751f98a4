import Mathlib.Data.List.Basic

/-!
# LRU lists (`LRU/LRU_List.c`)

A list of entries in the order in which they were added. An entry is first tagged invalid and taken
off by a later garbage collection, which leaves the entry that was added last.

* `newEntry`, `invalidate`, `gcInvalid` — the operations. An entry is given by its place in the
  list, which does not change until the next collection.
* `data` is what the entries designate, and `validData` what the valid ones do.
* `gcInvalid_perm` — the collection loses nothing: what it takes off and what it leaves is what was
  there. `validData_gcInvalid` — it takes no valid entry.
-/

namespace CloudNfs

universe u

/-- `LRU_entry_t`. -/
structure LruEntry (α : Type u) where
  /-- `valid_state` is `LRU_ENTRY_VALID` -/
  valid : Bool
  pdata : α

/-- `LRU_list_t`. -/
structure LruList (α : Type u) where
  /-- from `LRU` to `MRU` -/
  entries : List (LruEntry α)
  nbEntry : UInt32
  nbInvalid : UInt32
  nbCallGc : UInt32

namespace LruList

variable {α : Type u}

/-- `LRU_Init`. -/
def init : LruList α := ⟨[], 0, 0, 0⟩

/-- `LRU_new_entry`: the new entry becomes the `MRU`. -/
def newEntry (l : LruList α) (pdata : α) : LruList α :=
  { l with
    entries := l.entries ++ [⟨true, pdata⟩]
    nbEntry := l.nbEntry + 1
    nbCallGc := l.nbCallGc + 1 }

/-- `LRU_invalidate`. -/
def invalidate (l : LruList α) (i : ℕ) : LruList α :=
  match l.entries[i]? with
  | some e =>
    if e.valid then
      { l with entries := l.entries.set i { e with valid := false }, nbInvalid := l.nbInvalid + 1 }
    else l
  | none => l

/-- The loop of `LRU_gc_invalid`, which stops at the `MRU`: what is left, and what was taken off. -/
def gcLoop : List (LruEntry α) → List (LruEntry α) × List α
  | [] => ([], [])
  | [mru] => ([mru], [])
  | e :: e' :: l =>
    if e.valid then (e :: (gcLoop (e' :: l)).1, (gcLoop (e' :: l)).2)
    else ((gcLoop (e' :: l)).1, e.pdata :: (gcLoop (e' :: l)).2)

/-- `LRU_gc_invalid` comes to its loop. -/
def gcRuns (l : LruList α) (nbCallGcInvalid : UInt32) : Bool :=
  decide (l.nbInvalid ≠ 0 ∧ 1 < l.entries.length ∧ nbCallGcInvalid ≤ l.nbCallGc)

/-- `LRU_gc_invalid`, and what it gave to `clean_entry`. -/
def gcInvalid (l : LruList α) (nbCallGcInvalid : UInt32) : LruList α × List α :=
  if l.gcRuns nbCallGcInvalid then
    let (entries, cleaned) := gcLoop l.entries
    ({ l with
        entries := entries
        nbEntry := l.nbEntry - UInt32.ofNat cleaned.length
        nbInvalid := l.nbInvalid - UInt32.ofNat cleaned.length }, cleaned)
  else (l, [])

/-- An entry is taken off: what the loop of `LRU_gc_invalid` does with an invalid one. -/
def takeOff (l : LruList α) (k : ℕ) : LruList α :=
  { l with
    entries := l.entries.eraseIdx k, nbEntry := l.nbEntry - 1, nbInvalid := l.nbInvalid - 1 }

def firstValid (l : LruList α) : Option (ℕ × α) :=
  (l.entries.findIdx? (·.valid)).bind fun i => l.entries[i]?.map fun e => (i, e.pdata)

def data (l : LruList α) : List α := l.entries.map (·.pdata)

def validData (l : LruList α) : List α := (l.entries.filter (·.valid)).map (·.pdata)

/-- The first valid entry is at the place `i`, and designates `a`. -/
def FirstAt (l : LruList α) (i : ℕ) (a : α) : Prop :=
  ∃ before after, l.entries = before ++ ⟨true, a⟩ :: after ∧ before.length = i ∧
    ∀ e ∈ before, e.valid = false

section Lemmas

variable {l : LruList α} {a : α} {i : ℕ} {n : UInt32}

@[simp] theorem data_newEntry : (l.newEntry a).data = l.data ++ [a] := by
  rw [newEntry, data, List.map_append]
  rfl

@[simp] theorem validData_newEntry : (l.newEntry a).validData = l.validData ++ [a] := by
  rw [newEntry, validData, List.filter_append, List.map_append]
  rfl

theorem firstAt_of_firstValid (h : l.firstValid = some (i, a)) : l.FirstAt i a := by
  rw [firstValid] at h
  obtain ⟨j, hj, h⟩ := Option.bind_eq_some_iff.mp h
  obtain ⟨e, he, h⟩ := Option.map_eq_some_iff.mp h
  obtain ⟨rfl, rfl⟩ := Prod.mk.inj h
  obtain ⟨hlt, hvalid, hbefore⟩ := List.findIdx?_eq_some_iff_getElem.mp hj
  rw [List.getElem?_eq_getElem hlt] at he
  cases he
  refine ⟨l.entries.take j, l.entries.drop (j + 1), ?_, ?_, fun e he => ?_⟩
  · conv_lhs => rw [← List.take_append_drop j l.entries, List.drop_eq_getElem_cons hlt]
    have hentry : l.entries[j] = ⟨true, l.entries[j].pdata⟩ := by
      rw [← hvalid]
    rw [← hentry]
  · rw [List.length_take]
    omega
  · obtain ⟨k, hk, rfl⟩ := List.mem_take_iff_getElem.mp he
    rw [← Bool.not_eq_true]
    exact hbefore k (by omega)

theorem firstAt_of_getElem? (h : l.entries[i]? = some ⟨true, a⟩)
    (hbefore : ∀ j < i, ∀ e, l.entries[j]? = some e → e.valid = false) : l.FirstAt i a := by
  obtain ⟨hlt, hget⟩ := List.getElem?_eq_some_iff.mp h
  refine ⟨l.entries.take i, l.entries.drop (i + 1), ?_, ?_, fun e he => ?_⟩
  · conv_lhs => rw [← List.take_append_drop i l.entries, List.drop_eq_getElem_cons hlt]
    rw [hget]
  · rw [List.length_take]
    omega
  · obtain ⟨k, hk, rfl⟩ := List.mem_take_iff_getElem.mp he
    exact hbefore k (by omega) _ (List.getElem?_eq_getElem (by omega))

namespace FirstAt

theorem getElem? (h : l.FirstAt i a) : l.entries[i]? = some ⟨true, a⟩ := by
  obtain ⟨before, after, hsplit, rfl, -⟩ := h
  rw [hsplit, List.getElem?_append_right (Nat.le_refl _), Nat.sub_self]
  rfl

theorem newEntry (h : l.FirstAt i a) (b : α) : (l.newEntry b).FirstAt i a := by
  obtain ⟨before, after, hsplit, hlength, hbefore⟩ := h
  refine ⟨before, after ++ [⟨true, b⟩], ?_, hlength, hbefore⟩
  rw [LruList.newEntry, hsplit, List.append_assoc]
  rfl

theorem validData_eq (h : l.FirstAt i a) : l.validData = a :: l.validData.tail := by
  obtain ⟨before, after, hsplit, -, hbefore⟩ := h
  have hnone : before.filter (·.valid) = [] := List.filter_eq_nil_iff.mpr fun e he => by
    simp [hbefore e he]
  rw [validData, hsplit, List.filter_append, hnone, List.nil_append]
  rfl

theorem entries_invalidate (h : l.FirstAt i a) :
    ∃ before after, l.entries = before ++ ⟨true, a⟩ :: after ∧ before.length = i ∧
      (∀ e ∈ before, e.valid = false) ∧
      (l.invalidate i).entries = before ++ ⟨false, a⟩ :: after := by
  obtain ⟨before, after, hsplit, rfl, hbefore⟩ := h
  refine ⟨before, after, hsplit, rfl, hbefore, ?_⟩
  have hget : l.entries[before.length]? = some ⟨true, a⟩ :=
    FirstAt.getElem? ⟨before, after, hsplit, rfl, hbefore⟩
  have hset : l.entries.set before.length ⟨false, a⟩ = before ++ ⟨false, a⟩ :: after := by
    rw [hsplit, List.set_append, if_neg (Nat.lt_irrefl _), Nat.sub_self]
    rfl
  simp only [invalidate, hget, if_true, hset]

theorem validData_invalidate (h : l.FirstAt i a) :
    (l.invalidate i).validData = l.validData.tail := by
  obtain ⟨before, after, hsplit, -, hbefore, hafter⟩ := h.entries_invalidate
  have hnone : before.filter (·.valid) = [] := List.filter_eq_nil_iff.mpr fun e he => by
    simp [hbefore e he]
  rw [validData, validData, hsplit, hafter, List.filter_append, List.filter_append, hnone]
  rfl

end FirstAt

@[simp] theorem data_invalidate : (l.invalidate i).data = l.data := by
  rw [invalidate]
  split
  next e he =>
    split
    · simp only [data, List.map_set]
      obtain ⟨hlt, rfl⟩ := List.getElem?_eq_some_iff.mp he
      have hget : (l.entries.map (·.pdata))[i]? = some l.entries[i].pdata := by
        rw [List.getElem?_map, List.getElem?_eq_getElem hlt]
        rfl
      obtain ⟨hlt', heq⟩ := List.getElem?_eq_some_iff.mp hget
      rw [← heq, List.set_getElem_self]
    · rfl
  · rfl

theorem mem_entries_invalidate (h : l.entries[i]? = some ⟨true, a⟩) :
    ⟨false, a⟩ ∈ (l.invalidate i).entries := by
  obtain ⟨hlt, -⟩ := List.getElem?_eq_some_iff.mp h
  simp only [invalidate, h, if_true]
  exact List.mem_set hlt ⟨false, a⟩

theorem mem_data_of_mem {e : LruEntry α} (h : e ∈ l.entries) : e.pdata ∈ l.data :=
  List.mem_map_of_mem h

/-! ### Garbage collection -/

theorem gcLoop_perm (l : List (LruEntry α)) :
    ((gcLoop l).2 ++ (gcLoop l).1.map (·.pdata)).Perm (l.map (·.pdata)) := by
  fun_induction gcLoop l with
  | case1 => exact List.Perm.refl _
  | case2 mru => exact List.Perm.refl _
  | case3 e e' l hvalid ih =>
    exact List.perm_middle.trans (ih.cons e.pdata)
  | case4 e e' l hvalid ih => exact ih.cons e.pdata

theorem filter_gcLoop (l : List (LruEntry α)) :
    (gcLoop l).1.filter (·.valid) = l.filter (·.valid) := by
  fun_induction gcLoop l with
  | case1 => rfl
  | case2 mru => rfl
  | case3 e e' l hvalid ih =>
    rw [List.filter_cons_of_pos hvalid, List.filter_cons_of_pos hvalid, ih]
  | case4 e e' l hvalid ih =>
    rw [List.filter_cons_of_neg hvalid, ih]

theorem gcLoop_subset (l : List (LruEntry α)) : (gcLoop l).1 ⊆ l := by
  fun_induction gcLoop l with
  | case1 => exact List.Subset.refl _
  | case2 mru => exact List.Subset.refl _
  | case3 e e' l hvalid ih => exact List.cons_subset_cons e ih
  | case4 e e' l hvalid ih => exact List.subset_cons_of_subset e ih

theorem mem_gcLoop (l : List (LruEntry α)) : a ∈ (gcLoop l).2 ↔ ⟨false, a⟩ ∈ l.dropLast := by
  fun_induction gcLoop l with
  | case1 => simp
  | case2 mru => simp
  | case3 e e' l hvalid ih =>
    have hne : (⟨false, a⟩ : LruEntry α) ≠ e := by
      rintro rfl
      cases hvalid
    rw [List.dropLast_cons_cons, List.mem_cons, ih]
    exact ⟨Or.inr, fun h => h.resolve_left hne⟩
  | case4 e e' l hvalid ih =>
    have heq : (⟨false, a⟩ : LruEntry α) = e ↔ a = e.pdata := by
      obtain ⟨valid, pdata⟩ := e
      rw [Bool.not_eq_true] at hvalid
      obtain rfl : valid = false := hvalid
      simp
    rw [List.dropLast_cons_cons, List.mem_cons, List.mem_cons, ih, heq]

theorem gcInvalid_perm : ((l.gcInvalid n).2 ++ (l.gcInvalid n).1.data).Perm l.data := by
  rw [gcInvalid]
  split
  · exact gcLoop_perm l.entries
  · exact List.Perm.refl _

@[simp] theorem validData_gcInvalid : (l.gcInvalid n).1.validData = l.validData := by
  rw [gcInvalid]
  split
  · exact congrArg (List.map (·.pdata)) (filter_gcLoop l.entries)
  · rfl

theorem validData_takeOff {k : ℕ} {e : LruEntry α} (he : l.entries[k]? = some e)
    (hinvalid : e.valid = false) : (l.takeOff k).validData = l.validData := by
  obtain ⟨hlt, rfl⟩ := List.getElem?_eq_some_iff.mp he
  have hsplit : l.entries = l.entries.take k ++ l.entries[k] :: l.entries.drop (k + 1) := by
    rw [← List.drop_eq_getElem_cons hlt, List.take_append_drop]
  have hskip : ¬ l.entries[k].valid = true := by
    rw [hinvalid]
    exact Bool.false_ne_true
  rw [validData, validData, takeOff, List.eraseIdx_eq_take_drop_succ]
  conv_rhs => rw [hsplit]
  rw [List.filter_append, List.filter_append, List.filter_cons_of_neg hskip]

theorem entries_gcInvalid_subset : (l.gcInvalid n).1.entries ⊆ l.entries := by
  rw [gcInvalid]
  split
  · exact gcLoop_subset l.entries
  · exact List.Subset.refl _

theorem mem_gcInvalid :
    a ∈ (l.gcInvalid n).2 ↔ l.gcRuns n = true ∧ ⟨false, a⟩ ∈ l.entries.dropLast := by
  rw [gcInvalid]
  split
  next hruns =>
    rw [hruns]
    simp only [true_and]
    exact mem_gcLoop l.entries
  next hruns => simp [hruns]

end Lemmas

end LruList
end CloudNfs
