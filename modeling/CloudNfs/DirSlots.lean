import CloudNfs.DirChain

/-!
# The entries of a cached directory

What the functions on a cached directory do, seen slot by slot: `entryAt` is the active
slot at a place, the index of a chunk and of a slot in it.

* An addition fills a free place, a removal empties one, a renaming changes the name at
  one, and all other places stay as they are. This also holds when an old chunk is taken
  again, where the counters of the chain go wrong.
* The walks along the chain stop at the first end of the directory. Since nothing is
  active behind it, they see every entry.
-/

namespace CloudNfs

namespace DirChain

def Dir.entryAt (d : Dir) (i j : ℕ) : Option Slot :=
  ((d.chunks[i]?).bind fun c => c.slots[j]?).filter (·.active)

variable {d d' : Dir} {i j addr pentry k : ℕ} {s : Slot} {c prev : Chunk} {name : String}

theorem entryAt_eq_some :
    d.entryAt i j = some s ↔
      ∃ c, d.chunks[i]? = some c ∧ c.slots[j]? = some s ∧ s.active = true := by
  simp only [Dir.entryAt, Option.filter_eq_some_iff, Option.bind_eq_some_iff]
  constructor
  · rintro ⟨⟨c, hc, hs⟩, hact⟩
    exact ⟨c, hc, hs, hact⟩
  · rintro ⟨c, hc, hs, hact⟩
    exact ⟨⟨c, hc, hs⟩, hact⟩

theorem entryAt_eq_none :
    d.entryAt i j = none ↔
      ∀ c s, d.chunks[i]? = some c → c.slots[j]? = some s → s.active = false := by
  constructor
  · intro h c s hc hs
    by_contra hact
    rw [entryAt_eq_some.mpr ⟨c, hc, hs, by simpa using hact⟩] at h
    cases h
  · intro h
    by_contra hne
    obtain ⟨s, hs⟩ := Option.ne_none_iff_exists'.mp hne
    obtain ⟨c, hc, hs, hact⟩ := entryAt_eq_some.mp hs
    rw [h c s hc hs] at hact
    cases hact

/-- The directory has no entries at all. -/
def Dir.NoEntries (d : Dir) : Prop := ∀ i j, d.entryAt i j = none

theorem noEntries_of_inactive (h : ∀ c ∈ d.chunks, ∀ s ∈ c.slots, s.active = false) :
    d.NoEntries := fun _ _ => entryAt_eq_none.mpr fun c s hc hs =>
  h c (List.mem_of_getElem? hc) s (List.mem_of_getElem? hs)

/-- No slot of the directory is active. -/
def Dir.allInactive (d : Dir) : Bool := d.chunks.all fun c => c.slots.all fun s => !s.active

theorem noEntries_of_allInactive (h : d.allInactive = true) : d.NoEntries := by
  refine noEntries_of_inactive fun c hc s hs => ?_
  have hall := List.all_eq_true.mp (List.all_eq_true.mp h c hc) s hs
  simpa using hall

variable {f : Chunk → Chunk} {g : Slot → Slot} {r : Option (ℕ × ℕ)} {cs : List Chunk}

theorem entryAt_modify (hd : d'.chunks = d.chunks.modify i f) (hc : d.chunks[i]? = some c)
    (hslots : (f c).slots = c.slots.modify j g) (hs : c.slots[j]? = some s) (i' j' : ℕ) :
    d'.entryAt i' j' =
      if i' = i ∧ j' = j then (some (g s)).filter (·.active) else d.entryAt i' j' := by
  by_cases hi : i' = i
  · subst hi
    simp only [Dir.entryAt, hd, List.getElem?_modify, hc, if_true, Option.map_eq_map,
      Option.map_some, Option.bind_some, hslots, true_and]
    by_cases hj : j' = j
    · subst hj
      simp [hs]
    · have hne : ¬ j = j' := fun h => hj h.symm
      simp [hj, hne]
  · have hne : ¬ i = i' := fun h => hi h.symm
    simp [Dir.entryAt, hd, hi, hne]

theorem entryAt_congr
    (h : ∀ k : ℕ, (d'.chunks[k]?).map Chunk.slots =
    (d.chunks[k]?).map Chunk.slots) (i j : ℕ) : d'.entryAt i j = d.entryAt i j := by
  have hbind : ∀ e : Dir, ((e.chunks[i]?).bind fun c => c.slots[j]?) =
      ((e.chunks[i]?).map Chunk.slots).bind fun ss => ss[j]? := by
    intro e
    cases e.chunks[i]? <;> rfl
  rw [Dir.entryAt, Dir.entryAt, hbind, hbind, h i]

/-! ### Adding -/

variable {Q : Chunk → Prop}

theorem chain_entryAt (d : Dir) (i addr i' j' : ℕ) :
    (d.chain i addr).entryAt i' j' = d.entryAt i' j' := by
  refine entryAt_congr (fun k => ?_) i' j'
  simp only [Dir.chain, List.getElem?_modify]
  cases d.chunks[k]? with
  | none => rfl
  | some c =>
    simp only [Option.map_eq_map, Option.map_some]
    split <;> rfl

theorem extend_entryAt (hlen : d.chunks.length = i + 1) (i' j' : ℕ) :
    (d.extend i addr prev).entryAt i' j' = d.entryAt i' j' := by
  by_cases hi : i' = i + 1
  · subst hi
    have hnew : (d.extend i addr prev).entryAt (i + 1) j' = none := by
      refine entryAt_eq_none.mpr fun c s hc hs => ?_
      rcases extend_chunks hlen hc with ⟨hk, -⟩ | ⟨-, rfl⟩
      · omega
      · exact emptySlots_inactive s (List.mem_of_getElem? hs)
    have hold : d.entryAt (i + 1) j' = none := by
      refine entryAt_eq_none.mpr fun c s hc _ => ?_
      have := (List.getElem?_eq_some_iff.mp hc).1
      omega
    rw [hnew, hold]
  · rw [← chain_entryAt d i addr]
    have hlen' : (d.chain i addr).chunks.length = i + 1 := by simp [Dir.chain, hlen]
    simp only [Dir.entryAt, Dir.extend]
    by_cases hlt : i' < i + 1
    · rw [List.getElem?_append_left (by omega)]
    · rw [List.getElem?_eq_none (by simp only [List.length_append, List.length_singleton]; omega),
        List.getElem?_eq_none (by omega)]

theorem Shape.chain (h : Shape Q d) (hQ : Keeping Q) (i addr : ℕ) : Shape Q (d.chain i addr) where
  chunk c hc := by
    rcases mem_modify hc with hmem | ⟨x, hx, rfl⟩
    · exact h.chunk c hmem
    · exact hQ.setEnd x false (h.chunk x (List.mem_of_getElem? hx))
  nothingBehind j k c c' hc hcend hjk hc' s hs := by
    simp only [Dir.chain, List.getElem?_modify] at hc hc'
    obtain ⟨x, hx, rfl⟩ := Option.map_eq_some_iff.mp hc
    obtain ⟨x', hx', rfl⟩ := Option.map_eq_some_iff.mp hc'
    have hxend : x.endOfDir = true := by
      split at hcend
      · cases hcend
      · exact hcend
    refine h.nothingBehind j k x x' hx hxend hjk hx' s ?_
    split at hs <;> exact hs

theorem openUpTo_zero (d : Dir) : OpenUpTo d 0 := fun k _ hk => absurd hk (Nat.not_lt_zero k)

/-- No end of the directory precedes the chunk of index `k`, which is not behind the last one: an
addition may start from it. -/
def StartsAt (d : Dir) (k : ℕ) : Prop := k ≤ d.chunks.length - 1 ∧ OpenUpTo d k

structure Added (Q : Chunk → Prop) (d d' : Dir) (name : String) (pentry : ℕ) (r : Option (ℕ × ℕ)) :
    Prop where
  shape : Shape Q d'
  /-- `has_been_readdir` stays -/
  hasBeenReaddir : d'.hasBeenReaddir = d.hasBeenReaddir
  failed : r = none → ∀ i j, d'.entryAt i j = d.entryAt i j
  placed : ∀ i j, r = some (i, j) → d.entryAt i j = none ∧ StartsAt d' i ∧
    ∀ i' j', d'.entryAt i' j' =
      if i' = i ∧ j' = j then some ⟨true, some pentry, name⟩ else d.entryAt i' j'
  startsAt : ∀ k, StartsAt d k → StartsAt d' k

theorem Shape.placed (h : Shape Q d) (hQ : Keeping Q) (pentry : ℕ) (name : String)
    (newParent : Bool) (hc : d.chunks[i]? = some c) (hs : c.slots[j]? = some s)
    (hact : s.active = false) (hopen : OpenUpTo d i) :
    Added Q d (d.place i j pentry (some name) newParent).1 name pentry
      (d.place i j pentry (some name) newParent).2 := by
  unfold Dir.place
  split
  · exact ⟨h, rfl, fun _ _ _ => rfl, fun _ _ hr => (by cases hr), fun _ hk => hk⟩
  have hstart : ∀ k, StartsAt d k → StartsAt
      { d with chunks := d.chunks.modify i fun c => c.fill j pentry (some name) } k := by
    rintro k ⟨hk, hkopen⟩
    refine ⟨by simpa using hk, fun k' b hk' hb => ?_⟩
    simp only [List.getElem?_modify] at hb
    obtain ⟨x, hx, rfl⟩ := Option.map_eq_some_iff.mp hb
    have hxopen := hkopen k' x hk' hx
    split <;> exact hxopen
  have hfill : (c.fill j pentry (some name)).slots =
      c.slots.modify j fun _ => ⟨true, some pentry, name⟩ := rfl
  refine ⟨?_, rfl, fun hr => (by cases hr), fun i' j' hr => ?_, hstart⟩
  · refine h.modify rfl (fun _ => rfl) (fun c' hc' => ?_) fun _ _ _ => Or.inr hopen
    obtain rfl : c = c' := Option.some.inj (hc.symm.trans hc')
    exact hQ.fill c j s pentry name (h.chunk c (List.mem_of_getElem? hc)) hs hact
  · cases hr
    refine ⟨entryAt_eq_none.mpr fun c' s' hc' hs' => ?_,
      hstart i ⟨Nat.le_sub_one_of_lt (List.getElem?_eq_some_iff.mp hc).1, hopen⟩,
      fun i' j' => entryAt_modify (g := fun _ => ⟨true, some pentry, name⟩) rfl hc hfill hs i' j'⟩
    obtain rfl : c = c' := Option.some.inj (hc.symm.trans hc')
    obtain rfl : s = s' := Option.some.inj (hs.symm.trans hs')
    exact hact

theorem Added.of_entryAt (d0 : Dir) (h : Added Q d d' name pentry r)
    (hflag : d.hasBeenReaddir = d0.hasBeenReaddir)
    (hentries : ∀ i j, d.entryAt i j = d0.entryAt i j) (hstart : ∀ k, StartsAt d0 k → StartsAt d k)
    : Added Q d0 d' name pentry r where
  shape := h.shape
  hasBeenReaddir := h.hasBeenReaddir.trans hflag
  failed hr i j := (h.failed hr i j).trans (hentries i j)
  placed i j hr := by
    obtain ⟨hfree, hopen, hat⟩ := h.placed i j hr
    refine ⟨hentries i j ▸ hfree, hopen, fun i' j' => ?_⟩
    rw [hat, hentries]
  startsAt k hk := h.startsAt k (hstart k hk)

theorem chain_open (addr : ℕ)
    (hopen : ∀ k' b, k' < k → k' ≠ i → d.chunks[k']? = some b → b.endOfDir = false) :
    OpenUpTo (d.chain i addr) k := by
  intro k' b hk' hb
  simp only [Dir.chain, List.getElem?_modify] at hb
  obtain ⟨x, hx, rfl⟩ := Option.map_eq_some_iff.mp hb
  split
  · rfl
  · next hne => exact hopen k' x hk' (Ne.symm hne) hx

theorem chain_startsAt (i addr : ℕ) (h : StartsAt d k) : StartsAt (d.chain i addr) k :=
  ⟨by simpa [Dir.chain] using h.1, chain_open addr fun k' b hk' _ hb => h.2 k' b hk' hb⟩

theorem extend_open (hlen : d.chunks.length = i + 1) (hk : k ≤ i + 1)
    (hopen : ∀ k' b, k' < k → k' ≠ i → d.chunks[k']? = some b → b.endOfDir = false) :
    OpenUpTo (d.extend i addr prev) k := by
  intro k' b hk' hb
  rcases extend_chunks hlen hb with ⟨-, x, hx, rfl⟩ | ⟨hnew, -⟩
  · split
    · rfl
    · next hne => exact hopen k' x hk' (Ne.symm hne) hx
  · omega

theorem extend_startsAt (hlen : d.chunks.length = i + 1) (h : StartsAt d k) :
    StartsAt (d.extend i addr prev) k := by
  have hk := h.1
  refine ⟨?_, extend_open hlen (by omega) fun k' b hk' _ hb => h.2 k' b hk' hb⟩
  simp only [Dir.extend, Dir.chain, List.length_append, List.length_modify, List.length_singleton]
  omega

/-- **Adding**: `cache_inode_add_cached_dirent` from a chunk on that no end of the directory
precedes. -/
theorem Shape.added (h : Shape Q d) (hQ : Keeping Q) {start : ℕ} {newChunk : Option ℕ}
    {newParent : Bool} (hopen : OpenUpTo d start)
    (hr : addCachedDirent d start (some name) pentry newChunk newParent = some (d', r)) :
    Added Q d d' name pentry r := by
  unfold addCachedDirent at hr
  split at hr
  · cases hr
  · next i j hsearch =>
    obtain ⟨n, c, rfl, hc, hfree, hbefore⟩ := searchSlot_slot hsearch
    rw [List.getElem?_drop] at hc
    obtain ⟨s, hs, hact⟩ := (hQ.slots c (h.chunk c (List.mem_of_getElem? hc))).freeSlot hfree
    have hadded := h.placed hQ pentry name newParent hc hs hact (openUpTo_of_search hopen hbefore)
    rw [Option.some.inj hr] at hadded
    exact hadded
  rename_i i hsearch
  obtain ⟨n, c, rfl, hc, -, hend, hbefore⟩ := searchSlot_full hsearch
  rw [List.getElem?_drop] at hc
  have hupto := openUpTo_of_search hopen hbefore
  split at hr
  · -- an old chunk is taken again: its first slot is free, since it is behind the end
    next nxt hnext =>
    have hok := hQ.slots nxt (h.chunk nxt (List.mem_of_getElem? hnext))
    obtain ⟨s, hs⟩ : ∃ s, nxt.slots[0]? = some s :=
      ⟨_, List.getElem?_eq_getElem (by rw [hok.length]; decide)⟩
    have hact := h.nothingBehind _ _ c nxt hc hend (Nat.lt_succ_self _) hnext s
      (List.mem_of_getElem? hs)
    have hopen' : OpenUpTo (d.chain (start + n) nxt.addr) (start + n + 1) :=
      chain_open _ fun k b hk hne hb => hupto k b (by omega) hb
    have hnext' : (d.chain (start + n) nxt.addr).chunks[start + n + 1]? = some nxt := by
      simp [Dir.chain, hnext]
    have hadded := ((h.chain hQ (start + n) nxt.addr).placed hQ pentry name newParent
      hnext' hs hact
      hopen').of_entryAt d rfl (chain_entryAt d _ _) fun _ => chain_startsAt _ _
    rw [Option.some.inj hr] at hadded
    exact hadded
  · next hnone =>
    split at hr
    · -- a new chunk is chained behind the last one
      next addr prev hprev =>
      have hlen : d.chunks.length = start + n + 1 := by
        have hlt := (List.getElem?_eq_some_iff.mp hprev).1
        have hge := List.getElem?_eq_none_iff.mp hnone
        omega
      have hopen' : OpenUpTo (d.extend (start + n) addr prev) (start + n + 1) :=
        extend_open hlen (Nat.le_refl _) fun k b hk hne hb => hupto k b (by omega) hb
      have hnew : (d.extend (start + n) addr prev).chunks[start + n + 1]? =
          some (newDirCont addr (start + n) prev) := by
        simp [Dir.extend, Dir.chain, hlen]
      have hslot : (newDirCont addr (start + n) prev).slots[0]? = some ⟨false, none, ""⟩ := rfl
      have hadded := ((h.extend hQ hlen).placed hQ pentry name newParent hnew hslot rfl
        hopen').of_entryAt d rfl (extend_entryAt hlen) fun _ => extend_startsAt hlen
      rw [Option.some.inj hr] at hadded
      exact hadded
    · cases hr
      exact ⟨h, rfl, fun _ _ _ => rfl, fun _ _ hr => (by cases hr), fun _ hk => hk⟩

/-! ### Emptying and renaming -/

/-- A slot is invalidated from outside: in the `DIR_BEGINNING` this also takes back the effect of
the last readdir. -/
def Dir.dropSlot (d : Dir) (i j : ℕ) : Dir :=
  { d with
    chunks := d.chunks.modify i fun c => c.drop j
    hasBeenReaddir := if i = 0 then false else d.hasBeenReaddir }

theorem Shape.modifySlot (h : Shape Q d) (hd : d'.chunks = d.chunks.modify i f)
    (hend : ∀ c, (f c).endOfDir = c.endOfDir) (hslots : ∀ c, (f c).slots = c.slots.modify j g)
    (hg : ∀ s, (g s).active = true → s.active = true) (hs : d.entryAt i j = some s)
    (hok : ∀ c, Q c → c.slots[j]? = some s → Q (f c)) :
    Shape Q d' ∧ ∀ i' j', d'.entryAt i' j' =
      if i' = i ∧ j' = j then (some (g s)).filter (·.active) else d.entryAt i' j' := by
  obtain ⟨c, hc, hcs, -⟩ := entryAt_eq_some.mp hs
  refine ⟨h.modify hd hend (fun c' hc' => ?_) fun c' _ hall => Or.inl fun s' hs' => ?_,
    entryAt_modify hd hc (hslots c) hcs⟩
  · obtain rfl : c = c' := Option.some.inj (hc.symm.trans hc')
    exact hok c (h.chunk c (List.mem_of_getElem? hc)) hcs
  · rw [hslots] at hs'
    rcases mem_modify hs' with hmem | ⟨x, hx, rfl⟩
    · exact hall s' hmem
    · by_contra hact
      have hxact := hg x (by simpa using hact)
      rw [hall x (List.mem_of_getElem? hx)] at hxact
      cases hxact

theorem Shape.dropped (h : Shape Q d) (hQ : Keeping Q)
    (hd : d'.chunks = d.chunks.modify i fun c => c.drop j) (hs : d.entryAt i j = some s) :
    Shape Q d' ∧ ∀ i' j', d'.entryAt i' j' =
      if i' = i ∧ j' = j then none else d.entryAt i' j' :=
  h.modifySlot (g := fun s => { s with active := false }) hd (fun _ => rfl) (fun _ => rfl)
    (fun _ hact => by cases hact) hs fun c hc hcs =>
      hQ.drop c j s hc hcs (entryAt_eq_some.mp hs).choose_spec.2.2

theorem Shape.renamed (h : Shape Q d) (hQ : Keeping Q) (name : String)
    (hd : d'.chunks = d.chunks.modify i fun c => c.rename j (some name))
    (hs : d.entryAt i j = some s) :
    Shape Q d' ∧ ∀ i' j', d'.entryAt i' j' =
      if i' = i ∧ j' = j then some { s with name := name } else d.entryAt i' j' := by
  obtain ⟨hshape, hat⟩ := h.modifySlot (g := fun s => { s with name := name }) hd (fun _ => rfl)
    (fun _ => rfl) (fun _ hact => hact) hs fun c hc hcs => hQ.rename c j s (some name) hc hcs
  obtain ⟨_, -, -, hact⟩ := entryAt_eq_some.mp hs
  have hkeep : (some { s with name := name }).filter (fun s : Slot => s.active) =
      some { s with name := name } := by
    simp [Option.filter, hact]
  refine ⟨hshape, fun i' j' => ?_⟩
  rw [hat, hkeep]

theorem Shape.invalidated (h : Shape Q d) (hQ : Keeping Q) :
    Shape Q (invalidateAllCachedDirent d) ∧ (invalidateAllCachedDirent d).NoEntries := by
  have hinactive : ∀ c ∈ (invalidateAllCachedDirent d).chunks, ∀ s ∈ c.slots, s.active = false := by
    intro c hc s hs
    obtain ⟨k, hk⟩ := List.mem_iff_getElem?.mp hc
    obtain ⟨x, -, rfl⟩ := invalidateAll_chunks hk
    refine invalidate_inactive x s ?_
    split at hs <;> exact hs
  refine ⟨⟨fun c hc => ?_, fun i k c c' _ _ _ hc' => hinactive c' (List.mem_of_getElem? hc')⟩,
    noEntries_of_inactive hinactive⟩
  obtain ⟨k, hk⟩ := List.mem_iff_getElem?.mp hc
  obtain ⟨x, hx, rfl⟩ := invalidateAll_chunks hk
  have hxok := hQ.invalidate x (h.chunk x (List.mem_of_getElem? hx))
  split
  · exact hQ.setEnd _ true hxok
  · exact hxok

/-! ### Walks -/

/-- `cache_inode_is_dir_empty`. -/
def isDirEmpty : List Chunk → Bool
  | [] => true
  | c :: cs => if c.nbactive ≠ 0 then false else if c.endOfDir then true else isDirEmpty cs

/-- The loop of `cache_inode_lookup` over the chain; `none` when it follows a null pointer. -/
def lookupName (name : String) : List Chunk → Option (Option ℕ)
  | [] => none
  | c :: cs =>
    match (c.slots.find? fun s => s.active && decide (name = s.name)).bind Slot.pentry with
    | some pentry => some (some pentry)
    | none => if c.endOfDir then some none else lookupName name cs

theorem noneUpToEnd (walk : List Chunk → Prop) (P : Chunk → Prop)
    (hcons : ∀ c cs, walk (c :: cs) → P c ∧ (c.endOfDir = false → walk cs)) (h : walk cs)
    (hc : cs[k]? = some c) (hopen : ∀ j b, j < k → cs[j]? = some b → b.endOfDir = false) : P c := by
  induction cs generalizing k with
  | nil => simp at hc
  | cons x xs ih =>
    obtain ⟨hx, hrest⟩ := hcons x xs h
    cases k with
    | zero =>
      obtain rfl : x = c := by simpa using hc
      exact hx
    | succ k =>
      refine ih (hrest (hopen 0 x (Nat.succ_pos k) rfl)) (by simpa using hc) fun j b hj hb => ?_
      exact hopen (j + 1) b (by omega) (by simpa using hb)

theorem Shape.open_of_entryAt (h : Shape Q d) (hs : d.entryAt i j = some s) : OpenUpTo d i := by
  obtain ⟨c, hc, hcs, hact⟩ := entryAt_eq_some.mp hs
  intro k b hk hb
  by_contra hend
  have hinactive := h.nothingBehind k i b c hb (by simpa using hend) hk hc s
    (List.mem_of_getElem? hcs)
  rw [hact] at hinactive
  cases hinactive

theorem Shape.noEntries_of_isDirEmpty (h : Shape ChunkOk d) (hempty : isDirEmpty d.chunks = true) :
    d.NoEntries := by
  intro i j
  by_contra hne
  obtain ⟨s, hs⟩ := Option.ne_none_iff_exists'.mp hne
  obtain ⟨c, hc, hcs, hact⟩ := entryAt_eq_some.mp hs
  have hzero : c.nbactive = 0 := by
    refine noneUpToEnd (fun cs => isDirEmpty cs = true) (fun c => c.nbactive = 0)
      (fun c cs hwalk => ?_) hempty hc (h.open_of_entryAt hs)
    simp only [isDirEmpty] at hwalk
    split at hwalk
    · cases hwalk
    · next hzero =>
      refine ⟨by simpa using hzero, fun hend => ?_⟩
      simpa [hend] using hwalk
  rw [(h.chunk c (List.mem_of_getElem? hc)).nbactive, List.countP_eq_zero] at hzero
  exact hzero s (List.mem_of_getElem? hcs) hact

theorem Shape.lookupName_missed (h : Shape Q d) (hQ : Keeping Q) {start : ℕ}
    (hmiss : lookupName name (d.chunks.drop start) = some none) (hi : start ≤ i)
    (hs : d.entryAt i j = some s) : s.name ≠ name := by
  obtain ⟨c, hc, hcs, hact⟩ := entryAt_eq_some.mp hs
  have hc' : (d.chunks.drop start)[i - start]? = some c := by
    rw [List.getElem?_drop, Nat.add_sub_cancel' hi, hc]
  have hopen : ∀ k b, k < i - start → (d.chunks.drop start)[k]? = some b → b.endOfDir = false :=
    fun k b hk hb =>
      h.open_of_entryAt hs (start + k) b (by omega) (by rwa [List.getElem?_drop] at hb)
  have hbind : (c.slots.find? fun s => s.active && decide (name = s.name)).bind Slot.pentry =
      none := by
    refine noneUpToEnd (fun cs => lookupName name cs = some none)
      (fun c => (c.slots.find? fun s => s.active && decide (name = s.name)).bind Slot.pentry = none)
      (fun c cs hwalk => ?_) hmiss hc' hopen
    simp only [lookupName] at hwalk
    split at hwalk
    · cases hwalk
    · next hnone =>
      refine ⟨hnone, fun hend => ?_⟩
      simpa [hend] using hwalk
  intro hname
  have hsome : (c.slots.find? fun s => s.active && decide (name = s.name)).isSome = true := by
    rw [List.find?_isSome]
    exact ⟨s, List.mem_of_getElem? hcs, by simp [hact, hname]⟩
  obtain ⟨s', hs'⟩ := Option.isSome_iff_exists.mp hsome
  have hprop := List.find?_some hs'
  simp only [Bool.and_eq_true, decide_eq_true_eq] at hprop
  have hpentry := (hQ.slots c (h.chunk c (List.mem_of_getElem? hc))).pentry s'
    (List.mem_of_find?_eq_some hs') hprop.1
  rw [hs', Option.bind_some] at hbind
  rw [hbind] at hpentry
  cases hpentry

theorem searchName_entryAt {valid : ℕ → Bool} {start : ℕ}
    (h : searchName valid (some name) start (d.chunks.drop start) = some (some (i, j))) :
    ∃ s, d.entryAt i j = some s ∧ s.name = name := by
  obtain ⟨n, c, s, rfl, hc, hs, hact, hname⟩ := searchName_found h
  rw [List.getElem?_drop] at hc
  exact ⟨s, entryAt_eq_some.mpr ⟨c, hc, hs, hact⟩, (Option.some.inj hname).symm⟩

end DirChain

end CloudNfs
