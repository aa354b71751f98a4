import CloudNfs.DirSlots
import CloudNfs.Listed

/-!
# The names of a cached directory

The active slots of a directory list a set of names when every name is in exactly one of
them. The functions on the directory are seen through this set: an addition adds a name, a
removal takes one away.

* What is said here does not rest on the counters of the chunks, so that it also holds when
  a slot is dropped twice.
* `hasRoom` tells when an addition succeeds.
-/

namespace CloudNfs

namespace DirChain

/-- The name of the active slot at a place. -/
def Dir.nameAt (d : Dir) (p : ℕ × ℕ) : Option String := (d.entryAt p.1 p.2).map Slot.name

/-- The names of the active slots of the whole chain, in their order. -/
def Dir.activeNames (d : Dir) : List String :=
  d.chunks.flatMap fun c => (c.slots.filter (·.active)).map Slot.name

variable {d : Dir} {j : ℕ} {c : Chunk}

theorem nameAt_eq_some {p : ℕ × ℕ} {n : String} :
    d.nameAt p = some n ↔ ∃ s, d.entryAt p.1 p.2 = some s ∧ s.name = n := Option.map_eq_some_iff

theorem nameAt_of_slot {i : ℕ} {s : Slot} (hc : d.chunks[i]? = some c) (hs : c.slots[j]? = some s)
    (hact : s.active = true) : d.nameAt (i, j) = some s.name :=
  nameAt_eq_some.mpr ⟨s, entryAt_eq_some.mpr ⟨c, hc, hs, hact⟩, rfl⟩

theorem mem_activeNames {n : String} : n ∈ d.activeNames ↔ ∃ p, d.nameAt p = some n := by
  simp only [Dir.activeNames, List.mem_flatMap, List.mem_map, List.mem_filter]
  constructor
  · rintro ⟨c, hc, s, ⟨hs, hact⟩, rfl⟩
    obtain ⟨i, hi⟩ := List.mem_iff_getElem?.mp hc
    obtain ⟨j, hj⟩ := List.mem_iff_getElem?.mp hs
    exact ⟨(i, j), nameAt_of_slot hi hj hact⟩
  · rintro ⟨p, hp⟩
    obtain ⟨s, hs, rfl⟩ := nameAt_eq_some.mp hp
    obtain ⟨c, hc, hcs, hact⟩ := entryAt_eq_some.mp hs
    exact ⟨c, List.mem_of_getElem? hc, s, ⟨List.mem_of_getElem? hcs, hact⟩, rfl⟩

theorem activeNames_nodup {s : Set String} (h : Lists d.nameAt s) : d.activeNames.Nodup := by
  rw [Dir.activeNames, List.nodup_flatMap]
  constructor
  · intro c hc
    obtain ⟨i, hi⟩ := List.mem_iff_getElem?.mp hc
    rw [List.Nodup, List.pairwise_map, List.pairwise_filter, List.pairwise_iff_getElem]
    intro j j' hj hj' hlt hact hact' hname
    have hat := nameAt_of_slot hi (List.getElem?_eq_getElem hj) hact
    have hat' := nameAt_of_slot hi (List.getElem?_eq_getElem hj') hact'
    obtain ⟨-, rfl⟩ := Prod.mk.inj (h.once _ _ _ (hat.trans (congrArg some hname)) hat')
    exact lt_irrefl _ hlt
  · rw [List.pairwise_iff_getElem]
    intro i i' hi hi' hlt n hn hn'
    obtain ⟨s, hs, rfl⟩ := List.mem_map.mp hn
    obtain ⟨s', hs', hname⟩ := List.mem_map.mp hn'
    obtain ⟨hmem, hact⟩ := List.mem_filter.mp hs
    obtain ⟨hmem', hact'⟩ := List.mem_filter.mp hs'
    obtain ⟨j, hj⟩ := List.mem_iff_getElem?.mp hmem
    obtain ⟨j', hj'⟩ := List.mem_iff_getElem?.mp hmem'
    have hat := nameAt_of_slot (List.getElem?_eq_getElem hi) hj hact
    have hat' := nameAt_of_slot (List.getElem?_eq_getElem hi') hj' hact'
    obtain ⟨rfl, -⟩ := Prod.mk.inj (h.once _ _ _ hat (hat'.trans (congrArg some hname)))
    exact lt_irrefl _ hlt

theorem activeNames_perm {s : Set String} (h : Lists d.nameAt s) {l : List String} (hl : l.Nodup)
    (hmem : ∀ n, n ∈ l ↔ n ∈ s) : d.activeNames.Perm l := by
  refine (List.perm_ext_iff_of_nodup (activeNames_nodup h) hl).mpr fun n => ?_
  rw [mem_activeNames, hmem, h.mem_iff]

theorem nameAt_update {d' : Dir} {i : ℕ} {o : Option Slot}
    (hat : ∀ i' j', d'.entryAt i' j' = if i' = i ∧ j' = j then o else d.entryAt i' j') :
    d'.nameAt = Function.update d.nameAt (i, j) (o.map Slot.name) := by
  funext p
  rw [Dir.nameAt, hat, Function.update_apply]
  by_cases hp : p = (i, j)
  · subst hp
    simp
  · have hne : ¬ (p.1 = i ∧ p.2 = j) := fun heq => hp (Prod.ext heq.1 heq.2)
    rw [if_neg hp, if_neg hne, Dir.nameAt]

theorem nameAt_congr {d' : Dir} (hat : ∀ i j, d'.entryAt i j = d.entryAt i j) :
    d'.nameAt = d.nameAt := by
  funext p
  rw [Dir.nameAt, Dir.nameAt, hat]

theorem Dir.NoEntries.lists (h : d.NoEntries) : Lists d.nameAt ∅ :=
  Lists.of_free fun p => by simp [Dir.nameAt, h p.1 p.2]

/-! ### Chunks whose counters may be wrong -/

theorem SlotsOk.modify {c' : Chunk} (h : SlotsOk c) {g : Slot → Slot}
    (hslots : c'.slots = c.slots.modify j g)
    (hg : ∀ s ∈ c.slots, (g s).active = true → (g s).pentry.isSome = true) : SlotsOk c' where
  length := by simp [hslots, h.length]
  pentry s hs hact := by
    rw [hslots] at hs
    rcases mem_modify hs with hmem | ⟨x, hx, rfl⟩
    · exact h.pentry s hmem hact
    · exact hg x (List.mem_of_getElem? hx) hact

theorem SlotsOk.drop (h : SlotsOk c) (j : ℕ) : SlotsOk (c.drop j) :=
  h.modify (g := fun s => { s with active := false }) rfl fun _ _ hact => by cases hact

theorem slotsOk_keeping : Keeping SlotsOk where
  slots _ h := h
  empty _ hslots h0 := (chunkOk_of_empty hslots h0).slotsOk
  setEnd _ _ h := ⟨h.length, h.pentry⟩
  fill _ _ _ pentry name h _ _ :=
    h.modify (g := fun _ => ⟨true, some pentry, name⟩) rfl fun _ _ _ => rfl
  drop _ j _ h _ _ := h.drop j
  rename _ _ _ newname h _ :=
    h.modify (g := fun s => { s with name := newname.getD s.name }) rfl fun s hs hact =>
      h.pentry s hs hact
  invalidate c h := ⟨by simp [Chunk.invalidate, h.length], fun s hs hact => by
    rw [invalidate_inactive c s hs] at hact
    cases hact⟩

theorem dropSlot_entryAt (d : Dir) (i j i' j' : ℕ) :
    (d.dropSlot i j).entryAt i' j' = if i' = i ∧ j' = j then none else d.entryAt i' j' := by
  cases hc : d.chunks[i]? with
  | none =>
    have hsame : ∀ k : ℕ, (d.dropSlot i j).chunks[k]? = d.chunks[k]? := by
      intro k
      rw [Dir.dropSlot, List.getElem?_modify]
      by_cases hk : i = k
      · subst hk
        simp [hc]
      · simp [hk]
    rw [Dir.entryAt, hsame, ← Dir.entryAt]
    split
    · next hij => rw [hij.1, Dir.entryAt, hc]; rfl
    · rfl
  | some c =>
    cases hs : c.slots[j]? with
    | none =>
      have hdrop : (c.drop j).slots = c.slots := by
        refine List.ext_getElem? fun k => ?_
        rw [Chunk.drop, List.getElem?_modify]
        by_cases hk : j = k
        · subst hk
          simp [hs]
        · simp [hk]
      have hsame : ∀ k : ℕ, ((d.dropSlot i j).chunks[k]?).map Chunk.slots =
          (d.chunks[k]?).map Chunk.slots := by
        intro k
        rw [Dir.dropSlot, List.getElem?_modify]
        by_cases hk : i = k
        · subst hk
          simp [hc, hdrop]
        · simp [hk]
      rw [entryAt_congr hsame]
      split
      · next hij => rw [hij.1, hij.2, Dir.entryAt, hc, Option.bind_some, hs]; rfl
      · rfl
    | some s =>
      exact entryAt_modify (g := fun s => { s with active := false }) rfl hc rfl hs i' j'

theorem Shape.dropSlot (h : Shape SlotsOk d) (i j : ℕ) : Shape SlotsOk (d.dropSlot i j) := by
  refine h.modify rfl (fun _ => rfl) (fun c hc => (h.chunk c (List.mem_of_getElem? hc)).drop j)
    fun c _ hall => Or.inl fun s hs => ?_
  rcases mem_modify hs with hmem | ⟨x, -, rfl⟩
  · exact hall s hmem
  · rfl

/-! ### Additions and searches -/

section

variable {Q : Chunk → Prop} {d d' : Dir} {name : String} {pentry : ℕ} {s : Set String}

theorem Added.lists {p : ℕ × ℕ} (h : Added Q d d' name pentry (some p)) (hd : Lists d.nameAt s)
    (hname : name ∉ s) : Lists d'.nameAt (insert name s) := by
  obtain ⟨hfree, -, hat⟩ := h.placed p.1 p.2 rfl
  rw [nameAt_update hat]
  exact hd.fill (by simp [Dir.nameAt, hfree]) hname

/-- What an addition needs: a parent link, and a new chunk when no slot is free up to the end of the
last one. -/
def Dir.hasRoom (d : Dir) (newChunk : Option ℕ) (newParent : Bool) : Bool :=
  newParent &&
    match searchSlot 0 d.chunks with
    | some (.full i) => (d.chunks[i + 1]?).isSome || newChunk.isSome
    | _ => true

theorem addCachedDirent_of_hasRoom {newChunk : Option ℕ} {newParent : Bool} {r : Option (ℕ × ℕ)}
    (hroom : d.hasRoom newChunk newParent = true)
    (hr : addCachedDirent d 0 (some name) pentry newChunk newParent = some (d', r)) :
    r.isSome = true := by
  simp only [Dir.hasRoom, Bool.and_eq_true] at hroom
  obtain ⟨rfl, hroom⟩ := hroom
  have hplace : ∀ (e : Dir) (i j : ℕ),
      some (e.place i j pentry (some name) true) = some (d', r) → r.isSome = true := by
    intro e i j hplaced
    have hr : (e.place i j pentry (some name) true).2 = r :=
      congrArg Prod.snd (Option.some.inj hplaced)
    rw [← hr]
    simp [Dir.place]
  unfold addCachedDirent at hr
  rw [List.drop_zero] at hr
  split at hr
  · cases hr
  · exact hplace _ _ _ hr
  rename_i i hsearch
  simp only [hsearch] at hroom
  obtain ⟨n, c, rfl, hc, -⟩ := searchSlot_full hsearch
  rw [Nat.zero_add] at hr hroom
  split at hr
  · exact hplace _ _ _ hr
  rename_i hnone
  obtain ⟨addr, rfl⟩ : ∃ addr, newChunk = some addr := by
    simpa [hnone, Option.isSome_iff_exists] using hroom
  simp only [hc] at hr
  exact hplace _ _ _ hr

theorem Shape.searchName_missed (h : Shape Q d) {valid : ℕ → Bool}
    (hmiss : searchName valid (some name) 0 d.chunks = some none) {i j : ℕ} {t : Slot}
    (ht : d.entryAt i j = some t) (hvalid : t.pentry.any valid = true) : t.name ≠ name := by
  obtain ⟨c, hc, hcs, hact⟩ := entryAt_eq_some.mp ht
  have hnone : c.slots.findIdx? (fun s => s.active && s.pentry.any valid &&
      decide (some name = some s.name)) = none := by
    refine noneUpToEnd (fun cs => ∃ k, searchName valid (some name) k cs = some none)
      (fun c => c.slots.findIdx? (fun s => s.active && s.pentry.any valid &&
        decide (some name = some s.name)) = none)
      (fun c cs hwalk => ?_) ⟨0, hmiss⟩ hc (h.open_of_entryAt ht)
    obtain ⟨k, hwalk⟩ := hwalk
    simp only [searchName] at hwalk
    split at hwalk
    · cases hwalk
    · next hnone =>
      refine ⟨hnone, fun hend => ⟨k + 1, ?_⟩⟩
      simpa [hend] using hwalk
  intro hname
  have hall := List.findIdx?_eq_none_iff.mp hnone t (List.mem_of_getElem? hcs)
  simp [hact, hvalid, hname] at hall

end

end DirChain

end CloudNfs
