import Mathlib.Data.List.Nodup

/-!
# Directories of the ghost file system (`ghost_fs.c`)

A directory is a list of entries with a pointer to its last one, where new entries are inserted. An
entry is an address, a name and a handle; names are kept and compared up to 256 bytes.

* The entry functions are loops over the list, as in the source; `Dir.add` cuts the list behind the
  entry that `lastentry` points to, as the assignment of its `next` does.
* Each function has one lemma that says what it does to a list that is `Ok`.
-/

namespace CloudNfs.GhostFs

abbrev Name := List UInt8

/-- `GHOSTFS_MAX_FILENAME` -/
def maxFilename : ℕ := 256

/-- What is kept of a name, and compared (`strncpy`, `strncmp`). -/
def clip (name : Name) : Name := name.take maxFilename

/-- `"."` -/
def dot : Name := [46]

/-- `".."` -/
def dotDot : Name := [46, 46]

def isNameOk (name : Name) : Bool :=
  decide (name ≠ []) && decide (name ≠ dot) && decide (name ≠ dotDot) && decide (47 ∉ name)

/-- `GHOSTFS_handle_t` -/
structure Handle where
  /-- the address of the item -/
  inode : ℕ
  magic : UInt32
  deriving DecidableEq

/-- `GHOSTFS_dirlist_t`. -/
structure Dirent where
  id : ℕ
  handle : Handle
  name : Name
  deriving DecidableEq

/-- `GHOSTFS_dir_t` -/
structure Dir where
  /-- `direntries`, with what follows -/
  direntries : List Dirent
  lastentry : Option ℕ
  deriving DecidableEq

/-! ## The functions -/

/-- `lastentry->next = e`: what came behind is cut off. -/
def appendAfter (last : ℕ) (e : Dirent) : List Dirent → List Dirent
  | [] => []
  | x :: rest => if x.id = last then [x, e] else x :: appendAfter last e rest

/-- `Add_Dir_Entry`, where `id` is the address of the new entry. -/
def Dir.add (d : Dir) (id : ℕ) (handle : Handle) (name : Name) : Dir :=
  let e : Dirent := ⟨id, handle, clip name⟩
  match d.lastentry with
  | none => ⟨[e], some id⟩
  | some last => ⟨appendAfter last e d.direntries, some id⟩

/-- `Find_Entry` -/
def Dir.find (d : Dir) (name : Name) : Option Handle :=
  (d.direntries.find? fun e => e.name = clip name).map (·.handle)

/-- The loop that `Rename_Entry` and `Change_Entry_Handle` share: the first entry with the name is
changed. -/
def updateFirst (name : Name) (f : Dirent → Dirent) : List Dirent → Option (List Dirent)
  | [] => none
  | e :: rest =>
    if e.name = name then some (f e :: rest) else (updateFirst name f rest).map (e :: ·)

/-- `Rename_Entry` -/
def Dir.rename (d : Dir) (oldName newName : Name) : Option Dir :=
  (updateFirst (clip oldName) (fun e => { e with name := clip newName }) d.direntries).map
    fun l => ⟨l, d.lastentry⟩

/-- `Change_Entry_Handle` -/
def Dir.changeHandle (d : Dir) (name : Name) (handle : Handle) : Option Dir :=
  (updateFirst (clip name) (fun e => { e with handle := handle }) d.direntries).map
    fun l => ⟨l, d.lastentry⟩

/-- The loop of `Remove_Entry`: what is left, with the entry that was removed and the one before
it. -/
def removeLoop (name : Name) : Option ℕ → List Dirent → Option (List Dirent × ℕ × Option ℕ)
  | _, [] => none
  | last, e :: rest =>
    if e.name = name then some (rest, e.id, last)
    else (removeLoop name (some e.id) rest).map fun r => (e :: r.1, r.2)

/-- `Remove_Entry` -/
def Dir.remove (d : Dir) (name : Name) : Option Dir :=
  (removeLoop (clip name) none d.direntries).map fun r =>
    ⟨r.1, if d.lastentry = some r.2.1 then r.2.2 else d.lastentry⟩

/-- `is_empty_dir` -/
def Dir.isEmpty (d : Dir) : Bool :=
  d.direntries.all fun e => decide (e.name = dot) || decide (e.name = dotDot)

/-! ## What they do -/

/-- **The list is in order**: below `bound`, addresses are distinct, and so are names; and
`lastentry` is the last element. -/
structure Dir.Ok (bound : ℕ) (d : Dir) : Prop where
  ids : (d.direntries.map (·.id)).Nodup
  below : ∀ e ∈ d.direntries, e.id < bound
  names : (d.direntries.map (·.name)).Nodup
  last : d.lastentry = d.direntries.getLast?.map (·.id)

section

variable {bound : ℕ} {d d' : Dir} {e e' : Dirent} {name : Name} {handle : Handle}
  {l : List Dirent} {last : Option ℕ} {f : Dirent → Dirent}

theorem Dir.ok_nil : Dir.Ok bound ⟨[], none⟩ :=
  ⟨List.nodup_nil, by simp, List.nodup_nil, rfl⟩

theorem Dir.Ok.mono {bound' : ℕ} (h : d.Ok bound) (hle : bound ≤ bound') : d.Ok bound' :=
  ⟨h.ids, fun e he => Nat.lt_of_lt_of_le (h.below e he) hle, h.names, h.last⟩

theorem Dir.Ok.eq_of_name (h : d.Ok bound) (he : e ∈ d.direntries) (he' : e' ∈ d.direntries)
    (hname : e.name = e'.name) : e = e' :=
  List.inj_on_of_nodup_map h.names he he' hname

theorem appendAfter_last (l : List Dirent) (x e : Dirent)
    (h : ((l ++ [x]).map (·.id)).Nodup) : appendAfter x.id e (l ++ [x]) = l ++ [x, e] := by
  induction l with
  | nil => simp [appendAfter]
  | cons y l ih =>
    rw [List.cons_append, List.map_cons, List.nodup_cons] at h
    have hne : y.id ≠ x.id := by
      intro heq
      exact h.1 (by simp [heq])
    rw [List.cons_append, appendAfter, if_neg hne, ih h.2]
    rfl

theorem Dir.Ok.add (handle : Handle) (h : d.Ok bound)
    (hname : ∀ e ∈ d.direntries, e.name ≠ clip name) :
    (d.add bound handle name).direntries = d.direntries ++ [⟨bound, handle, clip name⟩] ∧
      (d.add bound handle name).Ok (bound + 1) := by
  have hentries : d.add bound handle name =
      ⟨d.direntries ++ [⟨bound, handle, clip name⟩], some bound⟩ := by
    obtain ⟨l, last⟩ := d
    obtain rfl : last = l.getLast?.map (·.id) := h.last
    rcases List.eq_nil_or_concat l with rfl | ⟨l, x, rfl⟩
    · rfl
    · rw [List.concat_eq_append] at h ⊢
      simp only [Dir.add, List.getLast?_append, List.getLast?_singleton, Option.some_or,
        Option.map_some]
      rw [appendAfter_last l x _ h.ids]
      simp
  rw [hentries]
  refine ⟨rfl, ?_, ?_, ?_, by simp⟩
  · rw [List.map_append, List.nodup_append]
    refine ⟨h.ids, List.nodup_singleton _, ?_⟩
    intro a ha b hb
    obtain ⟨e, he, rfl⟩ := List.mem_map.mp ha
    obtain rfl : b = bound := by simpa using hb
    exact Nat.ne_of_lt (h.below e he)
  · intro e he
    rcases List.mem_append.mp he with he | he
    · exact Nat.lt_succ_of_lt (h.below e he)
    · obtain rfl := List.mem_singleton.mp he
      exact Nat.lt_succ_self _
  · rw [List.map_append, List.nodup_append]
    refine ⟨h.names, List.nodup_singleton _, ?_⟩
    intro a ha b hb
    obtain ⟨e, he, rfl⟩ := List.mem_map.mp ha
    obtain rfl : b = clip name := by simpa using hb
    exact hname e he

theorem Dir.find_eq_some (h : d.find name = some handle) :
    ∃ e ∈ d.direntries, e.name = clip name ∧ e.handle = handle := by
  obtain ⟨e, he, rfl⟩ := Option.map_eq_some_iff.mp h
  exact ⟨e, List.mem_of_find?_eq_some he, by simpa using List.find?_some he, rfl⟩

theorem Dir.find_eq_none : d.find name = none ↔ ∀ e ∈ d.direntries, e.name ≠ clip name := by
  simp [Dir.find]

theorem Dir.Ok.find (h : d.Ok bound) (he : e ∈ d.direntries) (hname : e.name = clip name) :
    d.find name = some e.handle := by
  cases hfind : d.find name with
  | none => exact absurd hname (Dir.find_eq_none.mp hfind e he)
  | some handle =>
    obtain ⟨e', he', hname', rfl⟩ := Dir.find_eq_some hfind
    rw [h.eq_of_name he he' (hname.trans hname'.symm)]

theorem updateFirst_eq (h : (l.map (·.name)).Nodup) (hmem : ∃ e ∈ l, e.name = name) :
    updateFirst name f l = some (l.map fun e => if e.name = name then f e else e) := by
  induction l with
  | nil => simp at hmem
  | cons x l ih =>
    rw [List.map_cons, List.nodup_cons] at h
    rw [updateFirst]
    split
    next hx =>
      have hrest : l.map (fun e => if e.name = name then f e else e) = l := by
        rw [List.map_congr_left (g := id), List.map_id]
        intro e he
        exact if_neg fun heq => h.1 (List.mem_map.mpr ⟨e, he, heq.trans hx.symm⟩)
      rw [List.map_cons, if_pos hx, hrest]
    next hx =>
      have hmem' : ∃ e ∈ l, e.name = name := by
        obtain ⟨e, he, hname⟩ := hmem
        rcases List.mem_cons.mp he with rfl | he
        · exact absurd hname hx
        · exact ⟨e, he, hname⟩
      rw [ih h.2 hmem', List.map_cons, if_neg hx]
      rfl

theorem updateFirst_eq_none (h : ∀ e ∈ l, e.name ≠ name) : updateFirst name f l = none := by
  induction l with
  | nil => rfl
  | cons x l ih =>
    rw [updateFirst, if_neg (h x (.head _)),
      ih fun e he => h e (.tail x he)]
    rfl

def renamed (oldName newName : Name) (e : Dirent) : Dirent :=
  if e.name = clip oldName then { e with name := clip newName } else e

def withHandle (name : Name) (handle : Handle) (e : Dirent) : Dirent :=
  if e.name = clip name then { e with handle := handle } else e

theorem Dir.Ok.rename {newName : Name} (h : d.Ok bound)
    (hmem : ∃ e ∈ d.direntries, e.name = clip name)
    (hnew : ∀ e ∈ d.direntries, e.name ≠ clip newName) :
    d.rename name newName = some ⟨d.direntries.map (renamed name newName), d.lastentry⟩ ∧
      Dir.Ok bound ⟨d.direntries.map (renamed name newName), d.lastentry⟩ := by
  have hid : (·.id) ∘ renamed name newName = (·.id) := by
    funext e
    rw [Function.comp_apply, renamed]
    split <;> rfl
  refine ⟨?_, ?_, ?_, ?_, ?_⟩
  · rw [Dir.rename, updateFirst_eq h.names hmem]
    rfl
  · rw [List.map_map, hid]
    exact h.ids
  · intro e he
    obtain ⟨x, hx, rfl⟩ := List.mem_map.mp he
    exact Nat.lt_of_le_of_lt (Nat.le_of_eq (congrFun hid x)) (h.below x hx)
  · rw [List.map_map]
    refine List.Nodup.map_on ?_ (List.Nodup.of_map _ h.names)
    intro x hx y hy hxy
    simp only [Function.comp_apply, renamed] at hxy
    split_ifs at hxy with hxn hyn hyn
    · exact h.eq_of_name hx hy (hxn.trans hyn.symm)
    · exact absurd hxy.symm (hnew y hy)
    · exact absurd hxy (hnew x hx)
    · exact h.eq_of_name hx hy hxy
  · rw [h.last, List.getLast?_map, Option.map_map, hid]

theorem Dir.rename_eq_none {newName : Name} (h : ∀ e ∈ d.direntries, e.name ≠ clip name) :
    d.rename name newName = none := by
  rw [Dir.rename, updateFirst_eq_none h, Option.map_none]

theorem Dir.changeHandle_eq_none (h : ∀ e ∈ d.direntries, e.name ≠ clip name) :
    d.changeHandle name handle = none := by
  rw [Dir.changeHandle, updateFirst_eq_none h, Option.map_none]

theorem Dir.Ok.changeHandle (handle : Handle) (h : d.Ok bound)
    (hmem : ∃ e ∈ d.direntries, e.name = clip name) :
    d.changeHandle name handle = some ⟨d.direntries.map (withHandle name handle), d.lastentry⟩ ∧
      Dir.Ok bound ⟨d.direntries.map (withHandle name handle), d.lastentry⟩ := by
  have hid : (·.id) ∘ withHandle name handle = (·.id) := by
    funext e
    rw [Function.comp_apply, withHandle]
    split <;> rfl
  have hname : (·.name) ∘ withHandle name handle = (·.name) := by
    funext e
    rw [Function.comp_apply, withHandle]
    split <;> rfl
  refine ⟨?_, ?_, ?_, ?_, ?_⟩
  · rw [Dir.changeHandle, updateFirst_eq h.names hmem]
    rfl
  · rw [List.map_map, hid]
    exact h.ids
  · intro e he
    obtain ⟨x, hx, rfl⟩ := List.mem_map.mp he
    exact Nat.lt_of_le_of_lt (Nat.le_of_eq (congrFun hid x)) (h.below x hx)
  · rw [List.map_map, hname]
    exact h.names
  · rw [h.last, List.getLast?_map, Option.map_map, hid]

theorem removeLoop_eq (last : Option ℕ) (hmem : ∃ e ∈ l, e.name = name) :
    ∃ l1 e l2, l = l1 ++ e :: l2 ∧ e.name = name ∧ (∀ x ∈ l1, x.name ≠ name) ∧
      removeLoop name last l = some (l1 ++ l2, e.id, (l1.getLast?.map (·.id)).or last) := by
  induction l generalizing last with
  | nil => simp at hmem
  | cons x l ih =>
    rw [removeLoop]
    split
    next hx => exact ⟨[], x, l, rfl, hx, by simp, by simp⟩
    rename_i hx
    have hmem' : ∃ e ∈ l, e.name = name := by
      obtain ⟨e, he, hname⟩ := hmem
      rcases List.mem_cons.mp he with rfl | he
      · exact absurd hname hx
      · exact ⟨e, he, hname⟩
    obtain ⟨l1, e, l2, rfl, hname, hl1, hloop⟩ := ih (some x.id) hmem'
    refine ⟨x :: l1, e, l2, rfl, hname, ?_, ?_⟩
    · intro y hy
      rcases List.mem_cons.mp hy with rfl | hy
      · exact hx
      · exact hl1 y hy
    · rw [hloop]
      cases l1 with
      | nil => rfl
      | cons y l1 => simp [List.getLast?_cons]

theorem removeLoop_eq_none (h : ∀ e ∈ l, e.name ≠ name) : removeLoop name last l = none := by
  induction l generalizing last with
  | nil => rfl
  | cons x l ih =>
    rw [removeLoop, if_neg (h x (.head _)),
      ih fun e he => h e (.tail x he), Option.map_none]

theorem Dir.remove_eq_none (h : ∀ e ∈ d.direntries, e.name ≠ clip name) : d.remove name = none := by
  rw [Dir.remove, removeLoop_eq_none h, Option.map_none]

theorem Dir.Ok.remove (h : d.Ok bound) (hmem : ∃ e ∈ d.direntries, e.name = clip name) :
    ∃ d', d.remove name = some d' ∧ d'.Ok bound ∧
      d'.direntries = d.direntries.filter fun e => e.name ≠ clip name := by
  obtain ⟨l, last⟩ := d
  obtain ⟨l1, e, l2, rfl, hname, hl1, hloop⟩ := removeLoop_eq none hmem
  have hnodup := h.names
  simp only [List.map_append, List.map_cons, List.nodup_middle, List.nodup_cons, List.mem_append,
    not_or] at hnodup
  have hl2 : ∀ x ∈ l2, x.name ≠ clip name := by
    intro x hx heq
    exact hnodup.1.2 (List.mem_map.mpr ⟨x, hx, heq.trans hname.symm⟩)
  have hids := h.ids
  simp only [List.map_append, List.map_cons, List.nodup_middle, List.nodup_cons, List.mem_append,
    not_or] at hids
  have hsub : (l1 ++ l2).Sublist (l1 ++ e :: l2) :=
    List.Sublist.append_left (List.sublist_cons_self e l2) l1
  have hfilter : (l1 ++ e :: l2).filter (fun e => e.name ≠ clip name) = l1 ++ l2 := by
    rw [List.filter_append, List.filter_cons_of_neg (by simp [hname]),
      List.filter_eq_self.mpr (by simpa using hl1), List.filter_eq_self.mpr (by simpa using hl2)]
  rw [Option.or_none] at hloop
  refine ⟨⟨l1 ++ l2, if last = some e.id then l1.getLast?.map (·.id) else last⟩, ?_,
    ⟨?_, ?_, ?_, ?_⟩, hfilter.symm⟩
  · rw [Dir.remove, hloop]
    rfl
  · exact h.ids.sublist (hsub.map _)
  · exact fun x hx => h.below x (hsub.subset hx)
  · exact h.names.sublist (hsub.map _)
  · have hlast : last = (l1 ++ e :: l2).getLast?.map (·.id) := h.last
    simp only
    rcases List.eq_nil_or_concat l2 with rfl | ⟨l2, x, rfl⟩
    · rw [if_pos (by rw [hlast]; simp), List.append_nil]
    · have hx : (l1 ++ e :: l2.concat x).getLast? = some x := by
        simp [List.concat_eq_append, List.getLast?_append, List.getLast?_cons]
      have hx' : (l1 ++ l2.concat x).getLast? = some x := by
        simp [List.concat_eq_append, List.getLast?_append]
      rw [hx] at hlast
      have hne : ¬ last = some e.id := by
        rw [hlast]
        intro heq
        refine hids.1.2 (List.mem_map.mpr ⟨x, by simp, ?_⟩)
        exact Option.some.inj heq
      rw [if_neg hne, hx', hlast]

end

end CloudNfs.GhostFs
