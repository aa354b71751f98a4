import Mathlib.Data.List.Perm.Basic
import CloudNfs.DoublyLinked
import CloudNfs.Lru
import CloudNfs.Run

/-!
# LRU lists in memory (`LRU/LRU_List.c`)

The entries of an LRU list point to each other in both directions. Entries that are free are in a
pool, which is linked through the same pointer `next`; when the pool is empty, an array of new
entries is allocated.

* `Refines` — the pointers form the list, from `LRU` to `MRU`, and the pool; the counters agree; and
  every entry that was ever allocated is in one of the two, once.
* `exec_lruRefines` — this is so after every sequence of calls, and the counters count.

A collection takes off the invalid entries when it comes to its loop; it does not when too few
entries were added (`nb_call_gc_invalid`).
-/

namespace CloudNfs.LruPointers

open Function (update update_self update_of_ne)

open DoublyLinked

/-! ## The code -/

/-- `LRU_parameter_t`. -/
structure Parameter where
  nbEntryPrealloc : UInt32
  nbCallGcInvalid : UInt32

/-- `LRU_list_t`, with the memory of the entries. -/
structure Lru where
  /-- `next` and `prev` of each entry -/
  links : Links ℕ
  /-- `valid_state` of each entry is not `LRU_ENTRY_INVALID` -/
  valid : ℕ → Bool
  lru : Option ℕ
  mru : Option ℕ
  nbEntry : UInt32
  nbInvalid : UInt32
  nbCallGc : UInt32
  entryPrealloc : Option ℕ
  /-- entries from here on were never allocated -/
  fresh : ℕ
  /-- the entries for which `clean_entry` was called, the last one first -/
  cleaned : List ℕ

inductive Status where
  | success
  | emptyList
  | badReleaseEntry

namespace Lru

variable (l : Lru)

/-- `STUFF_PREALLOC`: an array of `n + 1` new entries. -/
def stuffPrealloc (n : ℕ) : Lru :=
  { l with
    links := { l.links with
      next := fun a => if a < l.fresh ∨ l.fresh + n < a then l.links.next a
        else if a = l.fresh + n then none else some (a + 1) }
    entryPrealloc := some l.fresh
    fresh := l.fresh + n + 1 }

/-- The first statement of `GET_PREALLOC`: an empty pool gets new entries. `alloc` tells how many
the new array has after its first one, if there is memory for it. -/
def stuff (p : Parameter) (alloc : Option ℕ) : Lru :=
  match l.entryPrealloc, alloc with
  | none, some n => if p.nbEntryPrealloc = 0 then l else l.stuffPrealloc n
  | _, _ => l

def getPrealloc (p : Parameter) (alloc : Option ℕ) : Lru × Option ℕ :=
  let l := l.stuff p alloc
  match l.entryPrealloc with
  | some a => ({ l with entryPrealloc := l.links.next a }, some a)
  | none => (l, none)

def releasePrealloc (a : ℕ) : Lru :=
  { l with links := l.links.setNext (some a) l.entryPrealloc, entryPrealloc := some a }

/-- `LRU_new_entry` after `GET_PREALLOC`: the entry becomes the `MRU`. -/
def linkMru (a : ℕ) : Lru :=
  let links := (l.links.setNext (some a) none).setPrev (some a) l.mru
  { l with
    links := if l.mru = none then links else links.setNext l.mru (some a)
    lru := if l.mru = none then some a else l.lru
    valid := update l.valid a true
    nbEntry := l.nbEntry + 1
    nbCallGc := l.nbCallGc + 1
    mru := some a }

/-- `LRU_new_entry`, and the entry it returns. -/
def lruNewEntry (p : Parameter) (alloc : Option ℕ) : Lru × Option ℕ :=
  match l.getPrealloc p alloc with
  | (l, none) => (l, none)
  | (l, some a) => (l.linkMru a, some a)

def lruInvalidate (a : ℕ) : Lru :=
  if l.valid a then
    { l with valid := update l.valid a false, nbInvalid := l.nbInvalid + 1 }
  else l

/-- The loop of `LRU_invalidate_by_function`, from `pentry` to the entry before the `MRU`. -/
def testLoop (testfunc : ℕ → Bool) : ℕ → Lru → Option ℕ → Option Lru
  | 0, _, _ => none
  | n + 1, l, pentry =>
    if pentry = l.mru then some l
    else
      match pentry with
      | none => none
      | some a =>
        testLoop testfunc n (if l.valid a && testfunc a then l.lruInvalidate a else l)
          (l.links.next a)

/-- No list is longer than this. -/
def fuel : ℕ := l.fresh + 1

/-- `LRU_invalidate_by_function`; the test function sets the entries for which `testfunc` holds. -/
def lruInvalidateByFunction (testfunc : ℕ → Bool) : Option (Lru × Status) :=
  if l.nbEntry = 0 then some (l, .success)
  else
    match l.mru with
    | none => some (l, .emptyList)
    | some mru =>
      if l.links.prev mru = none then some (l, .success)
      else (testLoop testfunc l.fuel l l.lru).map fun l => (l, .success)

/-- The entry is taken off the list. -/
def unlink (a : ℕ) : Lru :=
  let next := l.links.next a
  let prev := l.links.prev a
  { l with
    links := (l.links.setNext prev next).setPrev next prev
    lru := if prev = none then next else l.lru
    nbEntry := l.nbEntry - 1
    nbInvalid := l.nbInvalid - 1 }

/-- The loop of `LRU_gc_invalid`, from `pentry` to the entry before the `MRU`; `clean` is what
`clean_entry` returns for each entry, `true` for 0. -/
def gcLoop (clean : ℕ → Bool) : ℕ → Lru → Option ℕ → Status → Option (Lru × Status)
  | 0, _, _, _ => none
  | n + 1, l, pentry, rc =>
    if pentry = l.mru then some (l, rc)
    else
      match pentry with
      | none => none
      | some a =>
        let pentrynext := l.links.next a
        if l.valid a then gcLoop clean n l pentrynext rc
        else
          gcLoop clean n (({ l with cleaned := a :: l.cleaned }.unlink a).releasePrealloc a)
            pentrynext (if clean a then rc else .badReleaseEntry)

def lruGcInvalid (p : Parameter) (clean : ℕ → Bool) : Option (Lru × Status) :=
  if l.nbInvalid = 0 then some (l, .success)
  else
    match l.mru with
    | none => some (l, .emptyList)
    | some mru =>
      if l.links.prev mru = none then some (l, .success)
      else if l.nbCallGc < p.nbCallGcInvalid then some (l, .success)
      else gcLoop clean l.fuel l l.lru .success

end Lru

/-- `LRU_Init`, with a first array of `n + 1` entries; memory has any contents. -/
def lruInit (links : Links ℕ) (valid : ℕ → Bool) (n : ℕ) : Lru :=
  ({ links := links, valid := valid, lru := none, mru := none, nbEntry := 0, nbInvalid := 0,
     nbCallGc := 0, entryPrealloc := none, fresh := 0, cleaned := [] } : Lru).stuffPrealloc n

inductive Op where
  | newEntry (alloc : Option ℕ)
  | invalidate (a : ℕ)
  | invalidateByFunction (testfunc : ℕ → Bool)
  | gcInvalid (clean : ℕ → Bool)

def step (p : Parameter) (l : Lru) : Op → Option Lru
  | .newEntry alloc => some (l.lruNewEntry p alloc).1
  | .invalidate a => some (l.lruInvalidate a)
  | .invalidateByFunction testfunc => (l.lruInvalidateByFunction testfunc).map Prod.fst
  | .gcInvalid clean => (l.lruGcInvalid p clean).map Prod.fst

/-! ## The list -/

structure Abstract where
  list : LruList ℕ
  pool : List ℕ
  /-- how many entries were ever allocated -/
  fresh : ℕ
  /-- the entries for which `clean_entry` was called, the last one first -/
  cleaned : List ℕ

/-- The valid entries before the `MRU` for which the test function says so become invalid. -/
def invalidateBy (l : LruList ℕ) (testfunc : ℕ → Bool) : LruList ℕ :=
  if l.nbEntry = 0 then l
  else
    { l with
      entries := l.entries.dropLast.map (fun e =>
        if e.valid && testfunc e.pdata then { e with valid := false } else e) ++
          l.entries.getLast?.toList
      nbInvalid := l.nbInvalid +
        UInt32.ofNat (l.entries.dropLast.countP fun e => e.valid && testfunc e.pdata) }

namespace Abstract

variable (s : Abstract)

/-- The pool after an array of new entries was allocated, when this is necessary. -/
def stuff (p : Parameter) (alloc : Option ℕ) : Abstract :=
  match s.pool, alloc with
  | [], some n =>
    if p.nbEntryPrealloc = 0 then s
    else { s with pool := List.range' s.fresh (n + 1), fresh := s.fresh + n + 1 }
  | _, _ => s

def step (p : Parameter) (s : Abstract) : Op → Option Abstract
  | .newEntry alloc =>
    let s := s.stuff p alloc
    match s.pool with
    | [] => some s
    | a :: rest => some { s with list := s.list.newEntry a, pool := rest }
  | .invalidate a =>
    (s.list.entries.findIdx? fun e => e.pdata = a).map fun i =>
      { s with list := s.list.invalidate i }
  | .invalidateByFunction testfunc => some { s with list := invalidateBy s.list testfunc }
  | .gcInvalid _ =>
    let (list, cleaned) := s.list.gcInvalid p.nbCallGcInvalid
    some { s with
      list := list, pool := cleaned.reverse ++ s.pool, cleaned := cleaned.reverse ++ s.cleaned }

end Abstract

/-- The list after `LRU_Init`. -/
def Abstract.init (n : ℕ) : Abstract := ⟨.init, List.range' 0 (n + 1), n + 1, []⟩

/-- The invalid entries before the `MRU`. -/
def Abstract.removed (s : Abstract) : List ℕ :=
  (s.list.entries.dropLast.filter fun e => !e.valid).map (·.pdata)

/-- The list without these, which are in the pool. -/
def Abstract.collected (s : Abstract) : Abstract :=
  { s with
    list := { s.list with
      entries := s.list.entries.dropLast.filter (·.valid) ++ s.list.entries.getLast?.toList
      nbEntry := s.list.nbEntry - UInt32.ofNat s.removed.length
      nbInvalid := s.list.nbInvalid - UInt32.ofNat s.removed.length }
    pool := s.removed.reverse ++ s.pool
    cleaned := s.removed.reverse ++ s.cleaned }

/-- The pointers form the list and the pool. -/
structure Refines (l : Lru) (s : Abstract) : Prop where
  /-- the entries point to each other, from `LRU` on -/
  isList : IsList l.links l.lru s.list.data
  mru : l.mru = s.list.data.getLast?
  valid : ∀ e ∈ s.list.entries, l.valid e.pdata = e.valid
  pool : Chain l.links.next l.entryPrealloc s.pool
  /-- every entry is on the list or in the pool, once -/
  once : (s.list.data ++ s.pool).Perm (List.range s.fresh)
  fresh : l.fresh = s.fresh
  nbEntry : l.nbEntry = s.list.nbEntry
  nbInvalid : l.nbInvalid = s.list.nbInvalid
  nbCallGc : l.nbCallGc = s.list.nbCallGc
  /-- the calls of `clean_entry` -/
  cleaned : l.cleaned = s.cleaned

/-- The counters count, modulo 2 to the 32. -/
structure Counted (l : LruList ℕ) : Prop where
  /-- `nb_entry` is the number of entries -/
  nbEntry : l.nbEntry = UInt32.ofNat l.entries.length
  /-- `nb_invalid` is the number of invalid ones -/
  nbInvalid : l.nbInvalid = UInt32.ofNat (l.entries.countP fun e => !e.valid)

section

variable {l : Lru} {s : Abstract} {p : Parameter} {a : ℕ}

namespace Refines

/-! ## Every entry once -/

theorem mem_iff (h : Refines l s) : a ∈ s.list.data ∨ a ∈ s.pool ↔ a < l.fresh := by
  rw [← List.mem_append, h.once.mem_iff, List.mem_range, h.fresh]

theorem nodup (h : Refines l s) : (s.list.data ++ s.pool).Nodup :=
  h.once.nodup_iff.mpr List.nodup_range

theorem nodup_data (h : Refines l s) : s.list.data.Nodup := (List.nodup_append'.mp h.nodup).1

theorem disjoint (h : Refines l s) : s.list.data.Disjoint s.pool :=
  (List.nodup_append'.mp h.nodup).2.2

theorem length_lt (h : Refines l s) : s.list.entries.length < l.fuel := by
  have hlength := h.once.length_eq
  rw [List.length_append, List.length_range, LruList.data, List.length_map, ← h.fresh] at hlength
  rw [Lru.fuel]
  omega

end Refines

/-! ## The pool -/

theorem chain_stuffPrealloc (l : Lru) (n : ℕ) :
    Chain (l.stuffPrealloc n).links.next (some l.fresh) (List.range' l.fresh (n + 1)) := by
  -- by induction on how many entries of the array are left
  have hrest : ∀ k i, i + k = n → Chain (l.stuffPrealloc n).links.next (some (l.fresh + i))
      (List.range' (l.fresh + i) (k + 1)) := by
    intro k
    induction k with
    | zero =>
      intro i hi
      refine ⟨rfl, ?_⟩
      simp only [Lru.stuffPrealloc]
      rw [if_neg (by omega), if_pos (by omega)]
      rfl
    | succ k ih =>
      intro i hi
      rw [List.range'_succ]
      refine ⟨rfl, ?_⟩
      simp only [Lru.stuffPrealloc]
      rw [if_neg (by omega), if_neg (by omega)]
      exact ih (i + 1) (by omega)
  exact hrest n 0 (Nat.zero_add n)

namespace Refines

theorem stuffPrealloc (h : Refines l s) (hpool : s.pool = []) (n : ℕ) :
    Refines (l.stuffPrealloc n)
      { s with pool := List.range' s.fresh (n + 1), fresh := s.fresh + n + 1 } where
  isList := by
    refine h.isList.frame fun a ha => ⟨?_, rfl⟩
    have hlt : a < l.fresh := h.mem_iff.mp (.inl ha)
    exact if_pos (.inl hlt)
  mru := h.mru
  valid := h.valid
  pool := by
    rw [← h.fresh]
    exact chain_stuffPrealloc l n
  once := by
    have hold := h.once
    rw [hpool, List.append_nil] at hold
    have hrange : List.range (s.fresh + n + 1) =
        List.range s.fresh ++ List.range' s.fresh (n + 1) := by
      rw [List.range_eq_range', List.range_eq_range', Nat.add_assoc, ← List.range'_append,
        Nat.one_mul, Nat.zero_add]
    rw [hrange]
    exact hold.append_right _
  fresh := by
    show l.fresh + n + 1 = _
    rw [h.fresh]
  nbEntry := h.nbEntry
  nbInvalid := h.nbInvalid
  nbCallGc := h.nbCallGc
  cleaned := h.cleaned

theorem stuff (h : Refines l s) (alloc : Option ℕ) :
    Refines (l.stuff p alloc) (s.stuff p alloc) := by
  have hpool := h.pool
  cases hs : s.pool with
  | nil =>
    rw [hs] at hpool
    have hentry : l.entryPrealloc = none := hpool
    cases alloc with
    | none =>
      simp only [Lru.stuff, Abstract.stuff, hs, hentry]
      exact h
    | some n =>
      simp only [Lru.stuff, Abstract.stuff, hs, hentry]
      split
      · exact h
      · exact h.stuffPrealloc hs n
  | cons a rest =>
    rw [hs] at hpool
    simp only [Lru.stuff, Abstract.stuff, hs, hpool.1]
    exact h

/-! ## A new entry -/

theorem linkMru (h : Refines l s) {rest : List ℕ} (hpool : s.pool = a :: rest) :
    Refines ({ l with entryPrealloc := l.links.next a }.linkMru a)
      { s with list := s.list.newEntry a, pool := rest } := by
  have hchain := h.pool
  rw [hpool] at hchain
  have hfree : a ∉ s.list.data := fun ha => h.disjoint ha (hpool ▸ (.head _))
  have hne : ∀ b ∈ s.list.data, b ≠ a := fun b hb hba => hfree (hba ▸ hb)
  have hnodup : (a :: rest).Nodup := by
    rw [← hpool]
    exact (List.nodup_append'.mp h.nodup).2.1
  obtain ⟨harest, -⟩ := List.nodup_cons.mp hnodup
  have hmru := h.mru
  have hdisj := h.disjoint
  rw [hpool] at hdisj
  constructor
  case isList =>
    rw [LruList.data_newEntry]
    simp only [Lru.linkMru]
    cases hm : l.mru with
    | none =>
      rw [hm, eq_comm, List.getLast?_eq_none_iff] at hmru
      simp [hmru, IsList, segment_cons, segment_nil]
    | some mru =>
      rw [hm] at hmru
      have hnil : s.list.data ≠ [] := by
        intro hnil
        rw [hnil] at hmru
        cases hmru
      have hmem : mru ∈ s.list.data := List.mem_of_getLast? hmru.symm
      have happ : ∀ L' : Links ℕ, L'.next a = none ∧ L'.prev a = s.list.data.getLast? →
          (∀ b ∈ s.list.data,
            L'.next b = (l.links.setNext s.list.data.getLast? (some a)).next b ∧
              L'.prev b = l.links.prev b) → IsList L' l.lru (s.list.data ++ [a]) := by
        intro L' hnew hold
        have happ := h.isList.append h.nodup_data hnew hold
        rw [if_neg hnil] at happ
        exact happ
      refine happ _ ⟨?_, ?_⟩ fun b hb => ⟨?_, ?_⟩
      · simp [(hne mru hmem).symm]
      · simp [← hmru]
      · rw [← hmru]
        by_cases hb' : b = mru
        · subst hb'
          simp
        · simp [hb', hne b hb]
      · simp [hne b hb]
  case mru =>
    rw [LruList.data_newEntry, List.getLast?_append]
    rfl
  case valid =>
    intro e he
    simp only [Lru.linkMru]
    obtain he' | he' := List.mem_append.mp (show e ∈ s.list.entries ++ [⟨true, a⟩] from he)
    · rw [update_of_ne (hne _ (LruList.mem_data_of_mem he'))]
      exact h.valid e he'
    · obtain rfl := List.mem_singleton.mp he'
      exact update_self ..
  case pool =>
    refine hchain.2.frame fun b hb => ?_
    have hba : b ≠ a := fun hba => harest (hba ▸ hb)
    simp only [Lru.linkMru]
    cases hm : l.mru with
    | none => simp [hba]
    | some mru =>
      have hbm : b ≠ mru := by
        rintro rfl
        rw [hm] at hmru
        exact hdisj (List.mem_of_getLast? hmru.symm) (.tail a hb)
      simp [hba, hbm]
  case once =>
    refine List.Perm.trans ?_ h.once
    rw [LruList.data_newEntry, hpool, List.append_assoc]
    rfl
  case fresh => exact h.fresh
  case nbEntry => exact congrArg (· + 1) h.nbEntry
  case nbInvalid => exact h.nbInvalid
  case nbCallGc => exact congrArg (· + 1) h.nbCallGc
  case cleaned => exact h.cleaned

end Refines

variable {s' : Abstract} {before after : List (LruEntry ℕ)} {e : LruEntry ℕ} {list : LruList ℕ}
  {n : ℕ}

theorem refines_newEntry (h : Refines l s) {alloc : Option ℕ}
    (hstep : s.step p (.newEntry alloc) = some s') : Refines (l.lruNewEntry p alloc).1 s' := by
  have hstuff := h.stuff (p := p) alloc
  have hpool := hstuff.pool
  rw [Abstract.step] at hstep
  rw [Lru.lruNewEntry, Lru.getPrealloc]
  cases hs : (s.stuff p alloc).pool with
  | nil =>
    simp only [hs, Option.some.injEq] at hstep
    rw [hs] at hpool
    rw [show (l.stuff p alloc).entryPrealloc = none from hpool]
    exact hstep ▸ hstuff
  | cons a rest =>
    simp only [hs, Option.some.injEq] at hstep
    rw [hs] at hpool
    simp only [hpool.1]
    rw [← hstep]
    exact hstuff.linkMru hs

/-! ## Invalid entries -/

theorem nodup_middle (hnodup : ((before ++ e :: after).map (·.pdata)).Nodup) :
    ∀ e' ∈ before ++ after, e'.pdata ≠ e.pdata := by
  intro e' he' heq
  rw [List.map_append, List.map_cons] at hnodup
  have hperm := (List.perm_middle.nodup_iff.mp hnodup)
  rw [List.nodup_cons] at hperm
  refine hperm.1 ?_
  rw [← List.map_append]
  exact List.mem_map.mpr ⟨e', he', heq⟩

theorem invalidate_at (hsplit : list.entries = before ++ e :: after) :
    list.invalidate before.length = { list with
      entries := before ++ { e with valid := false } :: after
      nbInvalid := list.nbInvalid + (if e.valid then 1 else 0) } := by
  have hget : list.entries[before.length]? = some e := by
    rw [hsplit, List.getElem?_append_right (Nat.le_refl _), Nat.sub_self]
    rfl
  have hset : list.entries.set before.length { e with valid := false } =
      before ++ { e with valid := false } :: after := by
    rw [hsplit, List.set_append, if_neg (Nat.lt_irrefl _), Nat.sub_self]
    rfl
  obtain ⟨valid, pdata⟩ := e
  simp only [LruList.invalidate, hget]
  cases valid with
  | true => simp [hset]
  | false =>
    obtain ⟨entries, nbEntry, nbInvalid, nbCallGc⟩ := list
    obtain rfl : entries = _ := hsplit
    simp

theorem split_of_findIdx? {i : ℕ} (hi : (list.entries.findIdx? fun e => e.pdata = a) = some i) :
    ∃ before after e, list.entries = before ++ e :: after ∧ before.length = i ∧ e.pdata = a := by
  obtain ⟨hlt, ha, -⟩ := List.findIdx?_eq_some_iff_getElem.mp hi
  refine ⟨list.entries.take i, list.entries.drop (i + 1), list.entries[i], ?_, ?_, ?_⟩
  · conv_lhs => rw [← List.take_append_drop i list.entries, List.drop_eq_getElem_cons hlt]
  · rw [List.length_take]
    omega
  · simpa using ha

theorem Refines.invalidate (h : Refines l s) (hsplit : s.list.entries = before ++ e :: after) :
    Refines (l.lruInvalidate e.pdata) { s with list := { s.list with
      entries := before ++ { e with valid := false } :: after
      nbInvalid := s.list.nbInvalid + (if e.valid then 1 else 0) } } := by
  have hlv : l.valid e.pdata = e.valid := h.valid e (by rw [hsplit]; simp)
  have hne : ∀ e' ∈ before ++ after, e'.pdata ≠ e.pdata := by
    refine nodup_middle ?_
    rw [← hsplit]
    exact h.nodup_data
  have hdata : (before ++ { e with valid := false } :: after).map (·.pdata) = s.list.data := by
    rw [LruList.data, hsplit]
    simp
  have hkeep : l.lruInvalidate e.pdata = { l with
      valid := update l.valid e.pdata false
      nbInvalid := l.nbInvalid + (if e.valid then 1 else 0) } := by
    rw [Lru.lruInvalidate, hlv]
    split
    · rfl
    next hfalse =>
      rw [Bool.not_eq_true] at hfalse
      rw [Function.update_eq_self_iff.mpr (hlv.trans hfalse).symm, UInt32.add_zero]
  rw [hkeep]
  constructor
  case isList =>
    show IsList l.links l.lru ((before ++ { e with valid := false } :: after).map (·.pdata))
    rw [hdata]
    exact h.isList
  case mru =>
    show l.mru = ((before ++ { e with valid := false } :: after).map (·.pdata)).getLast?
    rw [hdata]
    exact h.mru
  case valid =>
    intro e' he'
    show update l.valid e.pdata false e'.pdata = e'.valid
    obtain he' | rfl | he' : e' ∈ before ∨ e' = { e with valid := false } ∨ e' ∈ after := by
      simpa using he'
    · rw [update_of_ne (hne e' (List.mem_append_left after he'))]
      exact h.valid e' (by rw [hsplit]; exact List.mem_append_left _ he')
    · exact update_self ..
    · rw [update_of_ne (hne e' (List.mem_append_right before he'))]
      exact h.valid e' (by rw [hsplit]; simp [he'])
  case pool => exact h.pool
  case once =>
    show ((before ++ { e with valid := false } :: after).map (·.pdata) ++ s.pool).Perm _
    rw [hdata]
    exact h.once
  case fresh => exact h.fresh
  case nbEntry => exact h.nbEntry
  case nbInvalid => exact congrArg (· + _) h.nbInvalid
  case nbCallGc => exact h.nbCallGc
  case cleaned => exact h.cleaned

theorem Refines.entry (h : Refines l s) (hsplit : s.list.entries = before ++ e :: after) :
    l.links.next e.pdata = after.head?.map (·.pdata) ∧ l.valid e.pdata = e.valid ∧
      (some e.pdata = l.mru ↔ after = []) := by
  have hdata : s.list.data = before.map (·.pdata) ++ e.pdata :: after.map (·.pdata) := by
    rw [LruList.data, hsplit, List.map_append, List.map_cons]
  refine ⟨?_, h.valid e (by rw [hsplit]; simp), ?_, ?_⟩
  · have hlist := h.isList
    rw [hdata] at hlist
    rw [hlist.neighbours.1, List.head?_map]
  · intro hmru
    rw [h.mru] at hmru
    by_contra hafter
    obtain ⟨rest, last, rfl⟩ := (List.eq_nil_or_concat' after).resolve_left hafter
    have hlast : s.list.data.getLast? = some last.pdata := by
      rw [hdata, List.map_append, ← List.cons_append, ← List.append_assoc]
      exact List.getLast?_concat
    have hnodup := h.nodup_data
    rw [LruList.data, hsplit] at hnodup
    have hne := nodup_middle hnodup last (by simp)
    rw [hlast] at hmru
    exact hne (Option.some.inj hmru).symm
  · rintro rfl
    rw [h.mru, hdata]
    simp

/-- The list when the loop of `LRU_invalidate_by_function` has still to see `rest`. -/
def testedFrom (list : LruList ℕ) (testfunc : ℕ → Bool) (before rest : List (LruEntry ℕ)) :
    LruList ℕ :=
  { list with
    entries := before ++ (rest.dropLast.map (fun e =>
      if e.valid && testfunc e.pdata then { e with valid := false } else e) ++
        rest.getLast?.toList)
    nbInvalid := list.nbInvalid +
      UInt32.ofNat (rest.dropLast.countP fun e => e.valid && testfunc e.pdata) }

variable {testfunc clean : ℕ → Bool} {rest : List (LruEntry ℕ)} {op : Op}

theorem testLoop_some :
    Lru.testLoop testfunc (n + 1) l (some a) =
      if some a = l.mru then some l
      else Lru.testLoop testfunc n (if l.valid a && testfunc a then l.lruInvalidate a else l)
        (l.links.next a) := rfl

theorem testLoop_refines (testfunc : ℕ → Bool) (h : Refines l s)
    (hsplit : s.list.entries = before ++ rest) (hrest : rest ≠ []) (hn : rest.length ≤ n) :
    ∃ l', Lru.testLoop testfunc n l (rest.head?.map (·.pdata)) = some l' ∧
      Refines l' { s with list := testedFrom s.list testfunc before rest } := by
  -- by induction on what the loop has still to see
  induction rest generalizing n l s before with
  | nil => exact absurd rfl hrest
  | cons e rest ih =>
    cases n with
    | zero => exact absurd hn (Nat.not_succ_le_zero _)
    | succ n =>
      obtain ⟨hnext, hvalid, hlast⟩ := h.entry hsplit
      rw [List.head?_cons, Option.map_some, testLoop_some]
      cases rest with
      | nil =>
        refine ⟨l, if_pos (hlast.mpr rfl), ?_⟩
        have hsame : testedFrom s.list testfunc before [e] = s.list := by
          obtain ⟨⟨entries, nbEntry, nbInvalid, nbCallGc⟩, pool, fresh, cleaned⟩ := s
          obtain rfl : entries = _ := hsplit
          simp [testedFrom]
        rw [hsame]
        exact h
      | cons e' rest =>
        rw [if_neg fun hmru => List.cons_ne_nil _ _ (hlast.mp hmru), hvalid, hnext]
        have hlen : (e' :: rest).length ≤ n := Nat.le_of_succ_le_succ hn
        by_cases htest : e.valid && testfunc e.pdata
        · obtain ⟨l', hl', hr⟩ := ih (n := n) (h.invalidate hsplit)
            (List.append_cons before { e with valid := false } (e' :: rest)) (List.cons_ne_nil _ _)
            hlen
          have hlinks : (l.lruInvalidate e.pdata).links = l.links := by
            rw [Lru.lruInvalidate]
            split <;> rfl
          refine ⟨l', ?_, ?_⟩
          · simp only [if_pos htest]
            exact hl'
          · have hv : e.valid = true := (Bool.and_eq_true_iff.mp htest).1
            have heq : testedFrom s.list testfunc before (e :: e' :: rest) =
                testedFrom { s.list with
                  entries := before ++ { e with valid := false } :: e' :: rest
                  nbInvalid := s.list.nbInvalid + (if e.valid then 1 else 0) } testfunc
                  (before ++ [{ e with valid := false }]) (e' :: rest) := by
              simp only [testedFrom, List.dropLast_cons_cons, List.countP_cons, List.map_cons,
                htest]
              simp [hv, UInt32.add_assoc, UInt32.add_comm]
            rw [heq]
            exact hr
        · obtain ⟨l', hl', hr⟩ := ih (n := n) h
            (hsplit.trans (List.append_cons before e (e' :: rest))) (List.cons_ne_nil _ _) hlen
          refine ⟨l', ?_, ?_⟩
          · simp only [if_neg htest]
            exact hl'
          · have heq : testedFrom s.list testfunc before (e :: e' :: rest) =
                testedFrom s.list testfunc (before ++ [e]) (e' :: rest) := by
              simp only [testedFrom, List.dropLast_cons_cons, List.countP_cons, List.map_cons,
                if_neg htest]
              simp
            rw [heq]
            exact hr

theorem Refines.ends (h : Refines l s) :
    (l.mru = none → s.list.entries = []) ∧
      ∀ mru, l.mru = some mru → s.list.entries ≠ [] ∧
        (l.links.prev mru = none ↔ s.list.entries.length = 1) := by
  have hmru := h.mru
  obtain hnil | ⟨before, e, hsplit⟩ := List.eq_nil_or_concat' s.list.entries
  · rw [LruList.data, hnil] at hmru
    refine ⟨fun _ => hnil, fun mru hm => ?_⟩
    rw [hm] at hmru
    cases hmru
  · have hdata : s.list.data = before.map (·.pdata) ++ [e.pdata] := by
      rw [LruList.data, hsplit, List.map_append]
      rfl
    rw [hdata, List.getLast?_concat] at hmru
    rw [hmru]
    refine ⟨by rintro ⟨⟩, fun mru hm => ⟨hsplit ▸ by simp, ?_⟩⟩
    cases hm
    have hlist := h.isList
    rw [hdata] at hlist
    rw [hlist.neighbours.2, List.getLast?_eq_none_iff, List.map_eq_nil_iff, hsplit,
      List.length_append, List.length_singleton]
    constructor
    · rintro rfl
      rfl
    · intro hlength
      exact List.length_eq_zero_iff.mp (by omega)

theorem Refines.lru (h : Refines l s) : l.lru = s.list.entries.head?.map (·.pdata) := by
  rw [h.isList.head, LruList.data, List.head?_map]

theorem testedFrom_short (hlength : list.entries.length ≤ 1) :
    testedFrom list testfunc [] list.entries = list := by
  obtain ⟨entries, nbEntry, nbInvalid, nbCallGc⟩ := list
  match entries, hlength with
  | [], _ => simp [testedFrom]
  | [e], _ => simp [testedFrom]

theorem refines_invalidateByFunction (h : Refines l s) (testfunc : ℕ → Bool) :
    ∃ l' rc, l.lruInvalidateByFunction testfunc = some (l', rc) ∧
      Refines l' { s with list := invalidateBy s.list testfunc } := by
  obtain ⟨hnone, hsome⟩ := h.ends
  rw [Lru.lruInvalidateByFunction, invalidateBy, h.nbEntry]
  by_cases hzero : s.list.nbEntry = 0
  · exact ⟨l, _, if_pos hzero, by rw [if_pos hzero]; exact h⟩
  rw [if_neg hzero, if_neg hzero]
  have hshort : s.list.entries.length ≤ 1 →
      Refines l { s with list := testedFrom s.list testfunc [] s.list.entries } := by
    intro hlength
    rw [testedFrom_short hlength]
    exact h
  cases hm : l.mru with
  | none =>
    refine ⟨l, _, rfl, hshort ?_⟩
    rw [hnone hm]
    exact Nat.zero_le 1
  | some mru =>
    obtain ⟨hne, hone⟩ := hsome mru hm
    by_cases hprev : l.links.prev mru = none
    · exact ⟨l, _, if_pos hprev, hshort (hone.mp hprev).le⟩
    obtain ⟨l', hl', hr⟩ := testLoop_refines testfunc h (List.nil_append _).symm hne
      h.length_lt.le
    refine ⟨l', .success, ?_, hr⟩
    simp only [if_neg hprev, h.lru, hl', Option.map_some]

/-! ## Garbage collection -/

theorem Refines.collect (h : Refines l s) (hsplit : s.list.entries = before ++ e :: after)
    (hafter : after ≠ []) :
    Refines (({ l with cleaned := e.pdata :: l.cleaned }.unlink e.pdata).releasePrealloc e.pdata)
      { s with
        list := { s.list with
          entries := before ++ after
          nbEntry := s.list.nbEntry - 1
          nbInvalid := s.list.nbInvalid - 1 }
        pool := e.pdata :: s.pool
        cleaned := e.pdata :: s.cleaned } := by
  have hdata : s.list.data = before.map (·.pdata) ++ e.pdata :: after.map (·.pdata) := by
    rw [LruList.data, hsplit, List.map_append, List.map_cons]
  have hdata' : (before ++ after).map (·.pdata) =
      before.map (·.pdata) ++ after.map (·.pdata) := List.map_append
  have hlist := h.isList
  have hnodup := h.nodup_data
  have hdisj := h.disjoint
  rw [hdata] at hlist hnodup hdisj
  have hne : ∀ b ∈ before.map (·.pdata) ++ after.map (·.pdata), b ≠ e.pdata := by
    intro b hb hbe
    rw [← List.map_append] at hb
    obtain ⟨e', he', rfl⟩ := List.mem_map.mp hb
    rw [← List.map_cons, ← List.map_append] at hnodup
    exact nodup_middle hnodup e' he' hbe
  obtain ⟨hnext, hprev⟩ := hlist.neighbours
  constructor
  case isList =>
    show IsList _ (if l.links.prev e.pdata = none then l.links.next e.pdata else l.lru)
      ((before ++ after).map (·.pdata))
    rw [hdata']
    have hfirst : (if l.links.prev e.pdata = none then l.links.next e.pdata else l.lru) =
        if l.lru = some e.pdata then l.links.next e.pdata else l.lru := by
      rw [hprev, hlist.head]
      cases before with
      | nil => simp
      | cons b before =>
        have hb : b.pdata ≠ e.pdata := hne b.pdata (by simp)
        simp [List.getLast?_cons, hb]
    rw [hfirst]
    refine hlist.unlink hnodup fun b hb => ?_
    simp only [Lru.unlink, Lru.releasePrealloc, next_setNext, update_of_ne (hne b hb),
      next_setPrev, prev_setNext]
    rw [prev_setPrev_apply, prev_setPrev_apply, prev_setNext]
    exact ⟨trivial, rfl⟩
  case mru =>
    show l.mru = ((before ++ after).map (·.pdata)).getLast?
    rw [h.mru, hdata, hdata']
    obtain ⟨rest, last, rfl⟩ := (List.eq_nil_or_concat' after).resolve_left hafter
    rw [List.map_append, ← List.cons_append, ← List.append_assoc, ← List.append_assoc]
    exact List.getLast?_concat.trans List.getLast?_concat.symm
  case valid =>
    intro e' he'
    refine h.valid e' ?_
    rw [hsplit]
    obtain he' | he' := List.mem_append.mp he'
    · exact List.mem_append_left _ he'
    · exact List.mem_append_right _ (.tail e he')
  case pool =>
    refine ⟨rfl, ?_⟩
    simp only [Lru.releasePrealloc, next_setNext, update_self]
    refine h.pool.frame fun b hb => ?_
    have hmem : ∀ c ∈ before.map (·.pdata) ++ e.pdata :: after.map (·.pdata), b ≠ c :=
      fun c hc hbc => hdisj hc (hbc ▸ hb)
    rw [update_of_ne (hmem e.pdata (by simp))]
    simp only [Lru.unlink, next_setPrev]
    refine next_setNext_of_ne ?_
    rw [hprev]
    intro hlast
    exact hmem b (List.mem_append_left _ (List.mem_of_getLast? hlast)) rfl
  case once =>
    refine List.Perm.trans ?_ h.once
    show ((before ++ after).map (·.pdata) ++ e.pdata :: s.pool).Perm _
    rw [hdata, hdata']
    refine List.perm_middle.trans ?_
    rw [← List.cons_append]
    exact List.perm_middle.symm.append_right _
  case fresh => exact h.fresh
  case nbEntry => exact congrArg (· - 1) h.nbEntry
  case nbInvalid => exact congrArg (· - 1) h.nbInvalid
  case nbCallGc => exact h.nbCallGc
  case cleaned => exact congrArg (e.pdata :: ·) h.cleaned

/-- The list and the pool when the loop of `LRU_gc_invalid` has still to see `rest`. -/
def collectedFrom (s : Abstract) (before rest : List (LruEntry ℕ)) : Abstract :=
  let (entries, cleaned) := LruList.gcLoop rest
  { s with
    list := { s.list with
      entries := before ++ entries
      nbEntry := s.list.nbEntry - UInt32.ofNat cleaned.length
      nbInvalid := s.list.nbInvalid - UInt32.ofNat cleaned.length }
    pool := cleaned.reverse ++ s.pool
    cleaned := cleaned.reverse ++ s.cleaned }

theorem gcLoop_some {rc : Status} :
    Lru.gcLoop clean (n + 1) l (some a) rc =
      if some a = l.mru then some (l, rc)
      else if l.valid a then Lru.gcLoop clean n l (l.links.next a) rc
      else Lru.gcLoop clean n (({ l with cleaned := a :: l.cleaned }.unlink a).releasePrealloc a)
        (l.links.next a) (if clean a then rc else .badReleaseEntry) := rfl

theorem gcLoop_refines (clean : ℕ → Bool) (rc : Status) (h : Refines l s)
    (hsplit : s.list.entries = before ++ rest) (hrest : rest ≠ []) (hn : rest.length ≤ n) :
    ∃ l', Lru.gcLoop clean n l (rest.head?.map (·.pdata)) rc =
        some (l', if (LruList.gcLoop rest).2.all clean then rc else .badReleaseEntry) ∧
      Refines l' (collectedFrom s before rest) := by
  -- by induction on what the loop has still to see
  induction rest generalizing n l s rc before with
  | nil => exact absurd rfl hrest
  | cons e rest ih =>
    cases n with
    | zero => exact absurd hn (Nat.not_succ_le_zero _)
    | succ n =>
      obtain ⟨hnext, hvalid, hlast⟩ := h.entry hsplit
      rw [List.head?_cons, Option.map_some, gcLoop_some]
      cases rest with
      | nil =>
        refine ⟨l, if_pos (hlast.mpr rfl), ?_⟩
        have hsame : collectedFrom s before [e] = s := by
          obtain ⟨⟨entries, nbEntry, nbInvalid, nbCallGc⟩, pool, fresh, cleaned⟩ := s
          obtain rfl : entries = _ := hsplit
          simp [collectedFrom, LruList.gcLoop]
        rw [hsame]
        exact h
      | cons e' rest =>
        rw [if_neg fun hmru => List.cons_ne_nil _ _ (hlast.mp hmru), hvalid, hnext]
        have hlen : (e' :: rest).length ≤ n := Nat.le_of_succ_le_succ hn
        by_cases he : e.valid
        · obtain ⟨l', hl', hr⟩ := ih (n := n) rc h
            (hsplit.trans (List.append_cons before e (e' :: rest))) (List.cons_ne_nil _ _) hlen
          refine ⟨l', ?_, ?_⟩
          · rw [if_pos he, hl']
            simp only [LruList.gcLoop, if_pos he]
          · have heq : collectedFrom s before (e :: e' :: rest) =
                collectedFrom s (before ++ [e]) (e' :: rest) := by
              simp only [collectedFrom, LruList.gcLoop, if_pos he, List.append_assoc,
                List.singleton_append]
            rw [heq]
            exact hr
        · obtain ⟨l', hl', hr⟩ := ih (n := n) (if clean e.pdata then rc else .badReleaseEntry)
            (h.collect hsplit (List.cons_ne_nil _ _)) rfl (List.cons_ne_nil _ _) hlen
          refine ⟨l', ?_, ?_⟩
          · rw [if_neg he, hl']
            simp only [LruList.gcLoop, if_neg he, List.all_cons]
            cases clean e.pdata <;> simp
          · have heq : collectedFrom s before (e :: e' :: rest) =
                collectedFrom { s with
                  list := { s.list with
                    entries := before ++ e' :: rest
                    nbEntry := s.list.nbEntry - 1
                    nbInvalid := s.list.nbInvalid - 1 }
                  pool := e.pdata :: s.pool
                  cleaned := e.pdata :: s.cleaned } before (e' :: rest) := by
              simp only [collectedFrom, LruList.gcLoop, if_neg he, List.length_cons,
                List.reverse_cons, List.append_assoc, List.singleton_append, UInt32.ofNat_add]
              congr 2 <;> grind
            rw [heq]
            exact hr

theorem gcLoop_eq (rest : List (LruEntry ℕ)) :
    LruList.gcLoop rest = (rest.dropLast.filter (·.valid) ++ rest.getLast?.toList,
      (rest.dropLast.filter fun e => !e.valid).map (·.pdata)) := by
  fun_induction LruList.gcLoop rest with
  | case1 => rfl
  | case2 mru => rfl
  | case3 e e' rest hvalid ih =>
    rw [ih, List.dropLast_cons_cons, List.getLast?_cons_cons]
    simp [hvalid]
  | case4 e e' rest hvalid ih =>
    rw [ih, List.dropLast_cons_cons, List.getLast?_cons_cons]
    simp [hvalid]

theorem collectedFrom_nil (s : Abstract) : collectedFrom s [] s.list.entries = s.collected := by
  simp only [collectedFrom, gcLoop_eq, List.nil_append]
  rfl

theorem collected_short (hlength : s.list.entries.length ≤ 1) : s.collected = s := by
  obtain ⟨⟨entries, nbEntry, nbInvalid, nbCallGc⟩, pool, fresh, cleaned⟩ := s
  match entries, hlength with
  | [], _ => simp [Abstract.collected, Abstract.removed]
  | [e], _ => simp [Abstract.collected, Abstract.removed]

theorem refines_gcInvalid (h : Refines l s) (clean : ℕ → Bool) :
    ∃ l' rc, l.lruGcInvalid p clean = some (l', rc) ∧
      if l.nbInvalid ≠ 0 ∧ p.nbCallGcInvalid ≤ l.nbCallGc then
        Refines l' s.collected ∧
          (l.mru ≠ none → rc = if s.removed.all clean then .success else .badReleaseEntry)
      else l' = l := by
  obtain ⟨hnone, hsome⟩ := h.ends
  rw [Lru.lruGcInvalid]
  by_cases hzero : l.nbInvalid = 0
  · exact ⟨l, _, if_pos hzero, by rw [if_neg fun hgo => hgo.1 hzero]⟩
  rw [if_neg hzero]
  have hshort : s.list.entries.length ≤ 1 → Refines l s.collected ∧ s.removed = [] := by
    intro hlength
    refine ⟨?_, ?_⟩
    · rw [collected_short hlength]
      exact h
    · rw [Abstract.removed]
      match s.list.entries, hlength with
      | [], _ => rfl
      | [e], _ => rfl
  cases hm : l.mru with
  | none =>
    refine ⟨l, _, rfl, ?_⟩
    split
    · exact ⟨(hshort (by rw [hnone hm]; exact Nat.zero_le 1)).1, fun hne => absurd rfl hne⟩
    · rfl
  | some mru =>
    obtain ⟨hne, hone⟩ := hsome mru hm
    by_cases hprev : l.links.prev mru = none
    · obtain ⟨hr, hremoved⟩ := hshort (hone.mp hprev).le
      refine ⟨l, _, if_pos hprev, ?_⟩
      split
      · exact ⟨hr, fun _ => by rw [hremoved]; rfl⟩
      · rfl
    by_cases hcall : l.nbCallGc < p.nbCallGcInvalid
    · refine ⟨l, .success, ?_, ?_⟩
      · simp only [if_neg hprev, if_pos hcall]
      · rw [if_neg fun hgo => absurd hcall (UInt32.not_lt.mpr hgo.2)]
    obtain ⟨l', hl', hr⟩ := gcLoop_refines clean .success h (List.nil_append _).symm hne
      h.length_lt.le
    rw [collectedFrom_nil] at hr
    rw [gcLoop_eq] at hl'
    refine ⟨l', if s.removed.all clean then .success else .badReleaseEntry, ?_, ?_⟩
    · simp only [if_neg hprev, if_neg hcall, h.lru]
      exact hl'
    · rw [if_pos ⟨hzero, UInt32.not_lt.mp hcall⟩]
      exact ⟨hr, fun _ => rfl⟩

theorem step_gcInvalid : s.step p (.gcInvalid clean) =
    some (if s.list.nbInvalid ≠ 0 ∧ p.nbCallGcInvalid ≤ s.list.nbCallGc then s.collected
      else s) := by
  rw [Abstract.step, LruList.gcInvalid]
  by_cases hruns : s.list.gcRuns p.nbCallGcInvalid = true
  · have hgo := of_decide_eq_true hruns
    rw [if_pos hruns, if_pos ⟨hgo.1, hgo.2.2⟩, gcLoop_eq]
    rfl
  have hgo := fun hall => hruns (decide_eq_true hall)
  simp only [if_neg hruns, List.reverse_nil, List.nil_append]
  split
  next h =>
    rw [collected_short]
    by_contra hlength
    exact hgo ⟨h.1, by omega, h.2⟩
  · rfl

/-! ## The counters -/

theorem Counted.newEntry (h : Counted list) : Counted (list.newEntry a) where
  nbEntry := by
    show list.nbEntry + 1 = UInt32.ofNat (list.entries ++ [(⟨true, a⟩ : LruEntry ℕ)]).length
    rw [List.length_append, List.length_singleton, UInt32.ofNat_add, h.nbEntry]
    rfl
  nbInvalid := by
    show list.nbInvalid =
      UInt32.ofNat ((list.entries ++ [(⟨true, a⟩ : LruEntry ℕ)]).countP fun e => !e.valid)
    rw [List.countP_append, h.nbInvalid]
    rfl

theorem Counted.invalidate (h : Counted list) (hsplit : list.entries = before ++ e :: after) :
    Counted (list.invalidate before.length) := by
  obtain ⟨hentry, hinvalid⟩ := h
  rw [hsplit] at hentry hinvalid
  rw [invalidate_at hsplit]
  constructor
  · rw [hentry]
    simp
  · show list.nbInvalid + _ = _
    rw [hinvalid]
    obtain ⟨valid, pdata⟩ := e
    cases valid with
    | true => simp [List.countP_append, UInt32.ofNat_add, UInt32.add_assoc]
    | false => simp [List.countP_append]

theorem countP_tested (testfunc : ℕ → Bool) (entries : List (LruEntry ℕ)) :
    ((entries.map fun e =>
        if e.valid && testfunc e.pdata then { e with valid := false } else e).countP
          fun e => !e.valid) =
      entries.countP (fun e => !e.valid) +
        entries.countP (fun e => e.valid && testfunc e.pdata) := by
  induction entries with
  | nil => rfl
  | cons e entries ih =>
    obtain ⟨valid, pdata⟩ := e
    rw [List.map_cons, List.countP_cons, List.countP_cons, List.countP_cons, ih]
    cases valid with
    | true =>
      cases htest : testfunc pdata with
      | true =>
        simp
        omega
      | false => simp
    | false =>
      simp
      omega

theorem dropLast_append_getLast?_toList (entries : List (LruEntry ℕ)) :
    entries.dropLast ++ entries.getLast?.toList = entries := by
  obtain rfl | ⟨before, e, rfl⟩ := List.eq_nil_or_concat' entries
  · rfl
  · simp

theorem Counted.invalidateBy (h : Counted list) (testfunc : ℕ → Bool) :
    Counted (invalidateBy list testfunc) := by
  obtain ⟨hentry, hinvalid⟩ := h
  rw [LruPointers.invalidateBy]
  split
  · exact ⟨hentry, hinvalid⟩
  rw [← dropLast_append_getLast?_toList list.entries] at hentry hinvalid
  constructor
  · rw [hentry]
    simp
  · show list.nbInvalid + _ = _
    rw [hinvalid, List.countP_append, List.countP_append, countP_tested]
    simp only [UInt32.ofNat_add]
    grind

theorem Counted.collected (h : Counted s.list) : Counted s.collected.list := by
  obtain ⟨hentry, hinvalid⟩ := h
  rw [← dropLast_append_getLast?_toList s.list.entries] at hentry hinvalid
  have hremoved : s.removed.length = s.list.entries.dropLast.countP fun e => !e.valid := by
    rw [Abstract.removed, List.length_map, List.countP_eq_length_filter]
  have hsplit : s.list.entries.dropLast.length =
      (s.list.entries.dropLast.filter (·.valid)).length + s.removed.length := by
    rw [hremoved, ← List.countP_eq_length_filter]
    have hlength := List.length_eq_countP_add_countP (l := s.list.entries.dropLast) (·.valid)
    simpa using hlength
  constructor
  · show s.list.nbEntry - _ = UInt32.ofNat
      (s.list.entries.dropLast.filter (·.valid) ++ s.list.entries.getLast?.toList).length
    rw [hentry, List.length_append, List.length_append, hsplit]
    simp only [UInt32.ofNat_add]
    grind
  · show s.list.nbInvalid - _ = UInt32.ofNat
      ((s.list.entries.dropLast.filter (·.valid) ++ s.list.entries.getLast?.toList).countP _)
    have hvalid : (s.list.entries.dropLast.filter (·.valid)).countP (fun e => !e.valid) = 0 := by
      rw [List.countP_eq_zero]
      intro e he
      simp [(List.mem_filter.mp he).2]
    rw [hinvalid, hremoved, List.countP_append, List.countP_append, hvalid]
    simp only [UInt32.ofNat_add]
    grind

/-! ## Every run -/

/-- **Every operation** on the pointers refines the one on the list. -/
theorem refines_step (h : Refines l s) (hstep : s.step p op = some s') :
    ∃ l', step p l op = some l' ∧ Refines l' s' := by
  cases op with
  | newEntry alloc => exact ⟨_, rfl, refines_newEntry h hstep⟩
  | invalidate a =>
    obtain ⟨i, hi, hs⟩ := Option.map_eq_some_iff.mp hstep
    obtain ⟨before, after, e, hsplit, rfl, rfl⟩ := split_of_findIdx? hi
    refine ⟨_, rfl, ?_⟩
    rw [← hs, invalidate_at hsplit]
    exact h.invalidate hsplit
  | invalidateByFunction testfunc =>
    cases hstep
    obtain ⟨l', rc, hl', hr⟩ := refines_invalidateByFunction h testfunc
    exact ⟨l', by rw [step, hl']; rfl, hr⟩
  | gcInvalid clean =>
    rw [step_gcInvalid, ← h.nbInvalid, ← h.nbCallGc] at hstep
    obtain ⟨l', rc, hl', hr⟩ := refines_gcInvalid (p := p) h clean
    refine ⟨l', by rw [step, hl']; rfl, ?_⟩
    rw [← Option.some.inj hstep]
    split at hr
    next hgo =>
      rw [if_pos hgo]
      exact hr.1
    next hgo =>
      rw [if_neg hgo, hr]
      exact h

theorem counted_step (h : Counted s.list) (hstep : s.step p op = some s') : Counted s'.list := by
  cases op with
  | newEntry alloc =>
    have hstuff : (s.stuff p alloc).list = s.list := by
      unfold Abstract.stuff
      split
      · split <;> rfl
      · rfl
    rw [Abstract.step] at hstep
    cases hs : (s.stuff p alloc).pool with
    | nil =>
      simp only [hs, Option.some.injEq] at hstep
      rw [← hstep, hstuff]
      exact h
    | cons a rest =>
      simp only [hs, Option.some.injEq] at hstep
      rw [← hstep]
      show Counted ((s.stuff p alloc).list.newEntry a)
      rw [hstuff]
      exact h.newEntry
  | invalidate a =>
    obtain ⟨i, hi, rfl⟩ := Option.map_eq_some_iff.mp hstep
    obtain ⟨before, after, e, hsplit, rfl, rfl⟩ := split_of_findIdx? hi
    exact h.invalidate hsplit
  | invalidateByFunction testfunc =>
    cases hstep
    exact h.invalidateBy testfunc
  | gcInvalid clean =>
    rw [step_gcInvalid] at hstep
    rw [← Option.some.inj hstep]
    split
    · exact h.collected
    · exact h

theorem refines_init (links : Links ℕ) (valid : ℕ → Bool) (n : ℕ) :
    Refines (lruInit links valid n) (Abstract.init n) := by
  have hempty : Refines
      { links := links, valid := valid, lru := none, mru := none, nbEntry := 0, nbInvalid := 0,
        nbCallGc := 0, entryPrealloc := none, fresh := 0, cleaned := [] }
      ⟨LruList.init, [], 0, []⟩ := by
    refine ⟨isList_nil.mpr rfl, rfl, nofun, rfl, List.Perm.refl _, rfl, rfl, rfl, rfl, rfl⟩
  have h := hempty.stuffPrealloc rfl n
  rw [Nat.zero_add] at h
  exact h

/-- What a collection does to a list, with its pool and its counters. -/
def Collects (p : Parameter) (l : Lru) (s : Abstract) (clean : ℕ → Bool) : Prop :=
  ∃ l' rc, l.lruGcInvalid p clean = some (l', rc) ∧
    if l.nbInvalid ≠ 0 ∧ p.nbCallGcInvalid ≤ l.nbCallGc then
      Refines l' s.collected ∧ Counted s.collected.list ∧
        rc = if s.removed.all clean then .success else .badReleaseEntry
    else l' = l

/-- **The list invariant.** After every sequence of calls the pointers form the list of the entries
in the order in which they were added, and the pool; the counters count; and a collection, when it
comes to its loop, takes exactly the invalid entries before the `MRU`, each once. -/
theorem exec_lruRefines {links : Links ℕ} {valid : ℕ → Bool} {n : ℕ} {ops : List Op}
    (he : exec (Abstract.step p) (.init n) ops = some s) :
    ∃ l, exec (step p) (lruInit links valid n) ops = some l ∧ Refines l s ∧ Counted s.list ∧
      ∀ clean, Collects p l s clean := by
  obtain ⟨l, hl, h, hcounted⟩ := exec_simulates
    (R := fun l s => Refines l s ∧ Counted s.list)
    (fun l s op s' h hstep =>
      have ⟨l', hl', hr⟩ := refines_step h.1 hstep
      ⟨l', hl', hr, counted_step h.2 hstep⟩)
    ⟨refines_init links valid n, ⟨rfl, rfl⟩⟩ he
  refine ⟨l, hl, h, hcounted, fun clean => ?_⟩
  obtain ⟨l', rc, hl', hr⟩ := refines_gcInvalid (p := p) h clean
  refine ⟨l', rc, hl', ?_⟩
  split at hr
  next hgo =>
    rw [if_pos hgo]
    refine ⟨hr.1, hcounted.collected, hr.2 fun hnone => ?_⟩
    -- an empty list has no invalid entries
    refine hgo.1 ?_
    rw [h.nbInvalid, hcounted.nbInvalid, h.ends.1 hnone]
    rfl
  next hgo =>
    rw [if_neg hgo]
    exact hr

/-- Two entries, of which the first one is invalid: the collection takes it. -/
theorem exec_lruRefines_two :
    ∃ l, exec (step ⟨2, 2⟩) (lruInit ⟨fun _ => none, fun _ => none⟩ (fun _ => false) 1)
        [.newEntry none, .newEntry none, .invalidate 0] = some l ∧
      Refines l ⟨⟨[⟨false, 0⟩, ⟨true, 1⟩], 2, 1, 2⟩, [], 2, []⟩ ∧
      Counted ⟨[⟨false, 0⟩, ⟨true, 1⟩], 2, 1, 2⟩ ∧
      ∀ clean, Collects ⟨2, 2⟩ l ⟨⟨[⟨false, 0⟩, ⟨true, 1⟩], 2, 1, 2⟩, [], 2, []⟩ clean :=
  exec_lruRefines rfl

/-- When three new entries are asked for, the invalid entry stays on the list. -/
theorem gcInvalid_waits :
    ∃ l, exec (step ⟨2, 3⟩) (lruInit ⟨fun _ => none, fun _ => none⟩ (fun _ => false) 1)
        [.newEntry none, .newEntry none, .invalidate 0] = some l ∧
      IsList l.links l.lru [0, 1] ∧ l.mru = some 1 ∧ l.valid 0 = false ∧ l.nbInvalid = 1 ∧
      l.lruGcInvalid ⟨2, 3⟩ (fun _ => true) = some (l, .success) := by
  refine ⟨_, rfl, ⟨rfl, rfl, rfl, rfl, rfl, rfl⟩, rfl, rfl, rfl, rfl⟩

end

end CloudNfs.LruPointers
