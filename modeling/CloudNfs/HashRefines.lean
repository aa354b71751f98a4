import Mathlib.Data.Finmap
import CloudNfs.HashBucket

/-!
# Hash tables are finite maps

The abstract table is a finite map from classes of keys, those that the comparison of the
parameter does not tell apart, to entries. Its operations say what the table is for, without
buckets, trees or hash values.

* `hashTable_refines` — so do all operations of a run.
-/

namespace CloudNfs.Hash

variable {p : HashParameter}

/-! ## The abstract table -/

/-- Keys that the comparison does not tell apart. -/
def HashParameter.Lawful.setoid (hp : p.Lawful) : Setoid HashBuffer where
  r k k' := p.compareKey k k' = 0
  iseqv := ⟨hp.refl, hp.symm, hp.trans⟩

/-- A class of keys. -/
abbrev KeyClass (hp : p.Lawful) : Type := Quotient hp.setoid

instance decidableEqKeyClass (hp : p.Lawful) : DecidableEq (KeyClass hp) :=
  haveI : DecidableRel hp.setoid.r := fun k k' => decEq (p.compareKey k k') 0
  Quotient.decidableEq

/-- The class of a key. -/
def classOf (hp : p.Lawful) (k : HashBuffer) : KeyClass hp := Quotient.mk hp.setoid k

theorem classOf_eq {hp : p.Lawful} {k k' : HashBuffer} :
    classOf hp k = classOf hp k' ↔ p.compareKey k k' = 0 :=
  Quotient.eq (r := hp.setoid)

abbrev Map (hp : p.Lawful) : Type := Finmap fun _ : KeyClass hp => HashData

namespace Map

variable {hp : p.Lawful}

def testAndSet (m : Map hp) (key val : HashBuffer) (how : SetHow) : Map hp × Status :=
  match m.lookup (classOf hp key), how with
  | some _, .testOnly => (m, .success)
  | some _, .setNoOverwrite => (m, .keyAlreadyExists)
  | some _, .setOverwrite => (m.insert (classOf hp key) ⟨val, key⟩, .success)
  | none, .testOnly => (m, .noSuchKey)
  | none, .setNoOverwrite => (m.insert (classOf hp key) ⟨val, key⟩, .success)
  | none, .setOverwrite => (m.insert (classOf hp key) ⟨val, key⟩, .success)

def get (m : Map hp) (key : HashBuffer) : Status × Option HashBuffer :=
  match m.lookup (classOf hp key) with
  | some data => (.success, some data.buffval)
  | none => (.noSuchKey, none)

def del (m : Map hp) (key : HashBuffer) : Map hp × Status × Option HashData :=
  match m.lookup (classOf hp key) with
  | some data => (m.erase (classOf hp key), .success, some data)
  | none => (m, .noSuchKey, none)

def step (m : Map hp) : Op → Map hp × Reply
  | .testAndSet (some key) (some val) how =>
    let (m, rc) := m.testAndSet key val how
    (m, .code rc)
  | .testAndSet _ _ _ => (m, .code .invalidArgument)
  | .get (some key) true =>
    let (rc, val) := m.get key
    (m, { rc := rc, key := none, val := val })
  | .get _ _ => (m, .code .invalidArgument)
  | .del (some key) usedbuffkey usedbuffdata =>
    let (m, rc, data) := m.del key
    (m, { rc := rc
          key := if usedbuffkey then data.map HashData.buffkey else none
          val := if usedbuffdata then data.map HashData.buffval else none })
  | .del none _ _ => (m, .code .invalidArgument)

/-- What an operation adds to the counters of entries: one when it stores an entry, also in the
place of another one. -/
def stored (m : Map hp) : Op → UInt32
  | .testAndSet (some key) (some _) how =>
    match m.lookup (classOf hp key), how with
    | _, .testOnly => 0
    | some _, .setNoOverwrite => 0
    | some _, .setOverwrite => 1
    | none, .setNoOverwrite => 1
    | none, .setOverwrite => 1
  | .del (some key) _ _ =>
    match m.lookup (classOf hp key) with
    | some _ => -1
    | none => 0
  | _ => 0

/-- The map after a sequence of operations, and what they returned. -/
def run : Map hp → List Op → Map hp × List Reply
  | m, [] => (m, [])
  | m, op :: ops => ((m.step op).1.run ops |>.1, (m.step op).2 :: ((m.step op).1.run ops).2)

end Map

/-! ## The relation -/

/-- The entries of a bucket are those of the map for the keys with its index. -/
def Agrees (hp : p.Lawful) (m : Map hp) (i : ℕ) (cs : List HashData) : Prop :=
  ∀ k, p.hashval k = i → ∀ d, m.lookup (classOf hp k) = some d ↔
    d ∈ cs ∧ p.compareKey k d.buffkey = 0

/-- A table holds what a map has. -/
structure Refines (hp : p.Lawful) (ht : HashTable) (m : Map hp) : Prop where
  parameter : ht.parameter = p
  length : ht.buckets.length = p.indexSize.toNat
  bucket : ∀ i b, ht.buckets[i]? = some b → ∃ cs, b.Has p i cs ∧ Agrees hp m i cs
  /-- the number of nodes is the number of keys -/
  numNode : (ht.buckets.map fun b => b.rbt.numNode).sum = m.keys.card

section

variable {hp : p.Lawful} {m : Map hp} {i : ℕ} {cs : List HashData} {k v : HashBuffer} {d : HashData}

theorem Agrees.perm {cs' : List HashData} (h : Agrees hp m i cs) (hperm : cs.Perm cs') :
    Agrees hp m i cs' := fun k hk d => by rw [h k hk d, hperm.mem_iff]

theorem Agrees.present {b : Bucket} (h : Agrees hp m i cs) (hb : b.Has p i cs)
    (hk : p.hashval k = i) (hd : m.lookup (classOf hp k) = some d) :
    ∃ cs', b.Has p i (d :: cs') ∧ Agrees hp m i (d :: cs') ∧ p.compareKey k d.buffkey = 0 ∧
      ∀ d' ∈ cs', p.compareKey k d'.buffkey ≠ 0 := by
  obtain ⟨hmem, hkd⟩ := (h k hk d).mp hd
  obtain ⟨cs1, cs2, rfl⟩ := List.append_of_mem hmem
  obtain ⟨nodes, hOk, hperm⟩ := hb
  have hmid : (cs1 ++ d :: cs2).Perm (d :: (cs1 ++ cs2)) := List.perm_middle
  refine ⟨cs1 ++ cs2, ⟨nodes, hOk, hperm.trans hmid⟩, h.perm hmid, hkd, fun d' hd' hkd' => ?_⟩
  -- two entries with the same key
  have hdistinct : (nodes.map b.entry).Pairwise fun d d' => p.compareKey d.buffkey d'.buffkey ≠ 0 :=
    List.pairwise_map.mpr hOk.distinct
  have hsymm : ∀ {d d' : HashData}, p.compareKey d.buffkey d'.buffkey ≠ 0 →
      p.compareKey d'.buffkey d.buffkey ≠ 0 := fun h h' => h (hp.symm h')
  have := ((hperm.trans hmid).pairwise_iff hsymm).mp hdistinct
  exact (List.pairwise_cons.mp this).1 d' hd' (hp.trans (hp.symm hkd) hkd')

theorem Agrees.absent (h : Agrees hp m i cs) (hk : p.hashval k = i)
    (hd : m.lookup (classOf hp k) = none) : ∀ d ∈ cs, p.compareKey k d.buffkey ≠ 0 := by
  intro d hmem hkd
  have := (h k hk d).mpr ⟨hmem, hkd⟩
  rw [hd] at this
  cases this

theorem agrees_insert (hrest : ∀ k', p.hashval k' = i → p.compareKey k' k ≠ 0 →
      ∀ d, m.lookup (classOf hp k') = some d ↔ d ∈ cs ∧ p.compareKey k' d.buffkey = 0)
    (hk : ∀ d ∈ cs, p.compareKey k d.buffkey ≠ 0) :
    Agrees hp (m.insert (classOf hp k) ⟨v, k⟩) i (⟨v, k⟩ :: cs) := by
  intro k' hk' d
  by_cases heq : p.compareKey k' k = 0
  · rw [classOf_eq.mpr heq, Finmap.lookup_insert, Option.some.injEq, List.mem_cons]
    refine ⟨?_, ?_⟩
    · rintro rfl
      exact ⟨.inl rfl, heq⟩
    · rintro ⟨rfl | hd, hkd⟩
      · rfl
      · exact absurd (hp.trans (hp.symm heq) hkd) (hk d hd)
  · rw [Finmap.lookup_insert_of_ne _ fun h => heq (classOf_eq.mp h), hrest k' hk' heq,
      List.mem_cons]
    refine ⟨fun ⟨hd, hkd⟩ => ⟨.inr hd, hkd⟩, ?_⟩
    rintro ⟨rfl | hd, hkd⟩
    · exact absurd hkd heq
    · exact ⟨hd, hkd⟩

theorem agrees_erase (h : Agrees hp m i (d :: cs)) (hkd : p.compareKey k d.buffkey = 0)
    (hk : ∀ d ∈ cs, p.compareKey k d.buffkey ≠ 0) : Agrees hp (m.erase (classOf hp k)) i cs := by
  intro k' hk' d'
  by_cases heq : p.compareKey k' k = 0
  · rw [classOf_eq.mpr heq, Finmap.lookup_erase]
    refine ⟨nofun, ?_⟩
    rintro ⟨hd, hkd'⟩
    exact absurd (hp.trans (hp.symm heq) hkd') (hk d' hd)
  · rw [Finmap.lookup_erase_ne fun h => heq (classOf_eq.mp h), h k' hk', List.mem_cons]
    refine ⟨?_, fun ⟨hd, hkd'⟩ => ⟨.inr hd, hkd'⟩⟩
    rintro ⟨rfl | hd, hkd'⟩
    · exact absurd (hp.trans hkd' (hp.symm hkd)) heq
    · exact ⟨hd, hkd'⟩

theorem card_insert_absent {d : HashData} (h : m.lookup (classOf hp k) = none) :
    (m.insert (classOf hp k) d).keys.card = m.keys.card + 1 := by
  have hkeys : (m.insert (classOf hp k) d).keys = Insert.insert (classOf hp k) m.keys := by
    ext c
    rw [Finset.mem_insert, Finmap.mem_keys, Finmap.mem_insert, Finmap.mem_keys]
  rw [hkeys, Finset.card_insert_of_notMem]
  rw [Finmap.mem_keys]
  exact Finmap.lookup_eq_none.mp h

theorem card_insert_present {d d' : HashData} (h : m.lookup (classOf hp k) = some d) :
    (m.insert (classOf hp k) d').keys.card = m.keys.card := by
  have hmem : classOf hp k ∈ m := Finmap.mem_iff.mpr ⟨d, h⟩
  have hkeys : (m.insert (classOf hp k) d').keys = m.keys := by
    ext c
    rw [Finmap.mem_keys, Finmap.mem_insert, Finmap.mem_keys]
    exact ⟨fun hc => hc.elim (fun hc => hc ▸ hmem) id, Or.inr⟩
  rw [hkeys]

theorem card_erase_present {d : HashData} (h : m.lookup (classOf hp k) = some d) :
    (m.erase (classOf hp k)).keys.card + 1 = m.keys.card := by
  have hmem : classOf hp k ∈ m.keys := Finmap.mem_keys.mpr (Finmap.mem_iff.mpr ⟨d, h⟩)
  rw [Finmap.keys_erase, Finset.card_erase_add_one hmem]

end

/-! ## Simulation -/

section

variable {hp : p.Lawful} {m m' : Map hp} {ht : HashTable} {i : ℕ} {cs : List HashData}
  {k v : HashBuffer} {b b' : Bucket}

variable {l : List Bucket} {ρ : Type} {f : Bucket → Option (Bucket × ρ)} {res : ρ} {x n : UInt32}

theorem sum_set (f : Bucket → ℕ) (b' : Bucket) (h : l[i]? = some b) :
    ((l.set i b').map f).sum + f b = (l.map f).sum + f b' := by
  induction l generalizing i with
  | nil => simp at h
  | cons c l ih =>
    cases i with
    | zero =>
      obtain rfl : c = b := by simpa using h
      simp only [List.set_cons_zero, List.map_cons, List.sum_cons]
      omega
    | succ i =>
      have := ih (by simpa using h)
      simp only [List.set_cons_succ, List.map_cons, List.sum_cons]
      omega

theorem Refines.set (h : Refines hp ht m) (hb : ht.buckets[i]? = some b) (hb' : b'.Has p i cs)
    (hagrees : Agrees hp m' i cs)
    (hother : ∀ k', p.hashval k' ≠ i → m'.lookup (classOf hp k') = m.lookup (classOf hp k'))
    (hcard : m'.keys.card + b.rbt.numNode = m.keys.card + b'.rbt.numNode) :
    Refines hp { ht with buckets := ht.buckets.set i b' } m' := by
  refine ⟨h.parameter, (List.length_set ..).trans h.length, fun j c hc => ?_, ?_⟩
  · by_cases hij : i = j
    · subst hij
      have hlt : i < ht.buckets.length := (List.getElem?_eq_some_iff.mp hb).1
      obtain rfl : b' = c := by simpa [List.getElem?_set_self hlt] using hc
      exact ⟨cs, hb', hagrees⟩
    · rw [List.getElem?_set_ne hij] at hc
      obtain ⟨cs', hcs', hagrees'⟩ := h.bucket j c hc
      refine ⟨cs', hcs', fun k' hk' d => ?_⟩
      rw [hother k' fun hk => hij (hk.symm.trans hk'), hagrees' k' hk' d]
  · have := sum_set (fun b => b.rbt.numNode) b' hb
    have := h.numNode
    simp only at *
    omega

theorem Refines.exists_bucket (h : Refines hp ht m) (k : HashBuffer) :
    ∃ b cs, ht.buckets[p.hashval k]? = some b ∧ b.Has p (p.hashval k) cs ∧
      Agrees hp m (p.hashval k) cs := by
  have hlt : p.hashval k < ht.buckets.length := by
    rw [h.length]
    exact hp.hashval_lt
  obtain ⟨cs, hcs, hagrees⟩ := h.bucket _ _ (List.getElem?_eq_getElem hlt)
  exact ⟨_, cs, List.getElem?_eq_getElem hlt, hcs, hagrees⟩

theorem classOf_ne_of_hashval {k' : HashBuffer} (h : p.hashval k' ≠ p.hashval k) :
    classOf hp k' ≠ classOf hp k := fun heq => h (hp.hashval_congr (classOf_eq.mp heq))

theorem inBucket_eq (h : ht.parameter = p) (hb : ht.buckets[p.hashval k]? = some b)
    (hf : f b = some (b', res)) :
    ht.inBucket k f = some ({ ht with buckets := ht.buckets.set (p.hashval k) b' }, res) := by
  subst h
  simp [HashTable.inBucket, hb, hf]

/-! The sum of the counters of the buckets, which wraps around. -/

theorem foldl_nbEntries_add {y : UInt32} :
    l.foldl (fun n b => n + b.stat.nbEntries) (x + y) =
      l.foldl (fun n b => n + b.stat.nbEntries) x + y := by
  induction l generalizing x with
  | nil => rfl
  | cons c l ih =>
    simp only [List.foldl_cons]
    rw [UInt32.add_assoc, UInt32.add_comm y, ← UInt32.add_assoc, ih]

theorem foldl_nbEntries_set (b' : Bucket) (h : l[i]? = some b) :
    (l.set i b').foldl (fun n b => n + b.stat.nbEntries) x + b.stat.nbEntries =
      l.foldl (fun n b => n + b.stat.nbEntries) x + b'.stat.nbEntries := by
  induction l generalizing i x with
  | nil => simp at h
  | cons c l ih =>
    cases i with
    | zero =>
      obtain rfl : c = b := by simpa using h
      simp only [List.set_cons_zero, List.foldl_cons]
      rw [← foldl_nbEntries_add, ← foldl_nbEntries_add, UInt32.add_assoc,
        UInt32.add_comm b'.stat.nbEntries, ← UInt32.add_assoc]
    | succ i => exact ih (by simpa using h)

theorem getSize_set (hb : ht.buckets[i]? = some b) (hn : b'.stat.nbEntries = b.stat.nbEntries + n) :
    HashTable.getSize { ht with buckets := ht.buckets.set i b' } = ht.getSize + n := by
  have h := foldl_nbEntries_set (x := 0) b' hb
  rw [hn, UInt32.add_comm b.stat.nbEntries, ← UInt32.add_assoc] at h
  exact (UInt32.add_left_inj _).mp h

theorem inBucket_refines (h : Refines hp ht m) (hb : ht.buckets[p.hashval k]? = some b)
    (hf : f b = some (b', res)) (hb' : b'.Has p (p.hashval k) cs)
    (hagrees : Agrees hp m' (p.hashval k) cs)
    (hother : ∀ c, c ≠ classOf hp k → m'.lookup c = m.lookup c)
    (hcard : m'.keys.card + b.rbt.numNode = m.keys.card + b'.rbt.numNode)
    (hn : b'.stat.nbEntries = b.stat.nbEntries + n) :
    ∃ ht', ht.inBucket k f = some (ht', res) ∧ Refines hp ht' m' ∧
      ht'.getSize = ht.getSize + n := by
  refine ⟨_, inBucket_eq h.parameter hb hf, h.set hb hb' hagrees (fun k' hk' => ?_) hcard,
    getSize_set hb hn⟩
  exact hother _ (classOf_ne_of_hashval hk')

theorem testAndSet_refines (h : Refines hp ht m) (how : SetHow) :
    ∃ ht', ht.inBucket k (fun b => b.testAndSet p k v how) =
        some (ht', (m.testAndSet k v how).2) ∧
      Refines hp ht' (m.testAndSet k v how).1 ∧
      ht'.getSize = ht.getSize + m.stored (.testAndSet (some k) (some v) how) := by
  obtain ⟨b, cs, hb, hcs, hagrees⟩ := h.exists_bucket k
  cases hlook : m.lookup (classOf hp k) with
  | some d =>
    obtain ⟨cs', hcs', hagrees', hkd, hrest⟩ := hagrees.present hcs rfl hlook
    obtain ⟨b', hb', hhas, hstat⟩ := Bucket.testAndSet_present (v := v) hp hcs' hkd how
    have hnum := hcs'.numNode
    have hnum' := hhas.numNode
    cases how with
    | testOnly =>
      simp only [Map.testAndSet, Map.stored, hlook]
      refine inBucket_refines h hb hb' hhas hagrees' (fun _ _ => rfl) ?_ hstat
      rw [hnum, hnum']
    | setNoOverwrite =>
      simp only [Map.testAndSet, Map.stored, hlook]
      refine inBucket_refines h hb hb' hhas hagrees' (fun _ _ => rfl) ?_ hstat
      rw [hnum, hnum']
    | setOverwrite =>
      simp only [Map.testAndSet, Map.stored, hlook]
      refine inBucket_refines h hb hb' hhas (agrees_insert (fun k' hk' hne d' => ?_) hrest)
        (fun c hc => Finmap.lookup_insert_of_ne _ hc) ?_ hstat
      · -- the entry that is replaced has another key
        rw [hagrees' k' hk', List.mem_cons]
        refine ⟨?_, fun ⟨hd', hkd'⟩ => ⟨.inr hd', hkd'⟩⟩
        rintro ⟨rfl | hd', hkd'⟩
        · exact absurd (hp.trans hkd' (hp.symm hkd)) hne
        · exact ⟨hd', hkd'⟩
      · rw [card_insert_present hlook, hnum, hnum']
        rfl
  | none =>
    have habs := hagrees.absent rfl hlook
    obtain ⟨b', hb', hhas, hstat⟩ := Bucket.testAndSet_absent (v := v) hp hcs rfl habs how
    have hnum := hcs.numNode
    have hnum' := hhas.numNode
    have hinsert := agrees_insert (v := v) (fun k' hk' _ => hagrees k' hk') habs
    have hcard : (m.insert (classOf hp k) ⟨v, k⟩).keys.card + cs.length =
        m.keys.card + (cs.length + 1) := by
      rw [card_insert_absent hlook]
      omega
    cases how with
    | testOnly =>
      simp only [Map.testAndSet, Map.stored, hlook]
      refine inBucket_refines h hb hb' hhas hagrees (fun _ _ => rfl) ?_ hstat
      rw [hnum, hnum']
      rfl
    | setNoOverwrite =>
      simp only [Map.testAndSet, Map.stored, hlook]
      refine inBucket_refines h hb hb' hhas hinsert
        (fun c hc => Finmap.lookup_insert_of_ne _ hc) ?_ hstat
      rw [hnum, hnum']
      exact hcard
    | setOverwrite =>
      simp only [Map.testAndSet, Map.stored, hlook]
      refine inBucket_refines h hb hb' hhas hinsert
        (fun c hc => Finmap.lookup_insert_of_ne _ hc) ?_ hstat
      rw [hnum, hnum']
      exact hcard

theorem get_refines (h : Refines hp ht m) :
    ∃ ht', ht.inBucket k (fun b => b.get p k) = some (ht', m.get k) ∧ Refines hp ht' m ∧
      ht'.getSize = ht.getSize := by
  obtain ⟨b, cs, hb, hcs, hagrees⟩ := h.exists_bucket k
  have hget : ∃ b' cs', b.get p k = some (b', m.get k) ∧ b'.Has p (p.hashval k) cs' ∧
      Agrees hp m (p.hashval k) cs' ∧ cs'.length = cs.length ∧
      b'.stat.nbEntries = b.stat.nbEntries + 0 := by
    cases hlook : m.lookup (classOf hp k) with
    | some d =>
      obtain ⟨cs', hcs', hagrees', hkd, -⟩ := hagrees.present hcs rfl hlook
      obtain ⟨b', hb', hhas, hstat⟩ := Bucket.get_present hp hcs' hkd
      refine ⟨b', d :: cs', ?_, hhas, hagrees', ?_, by rw [hstat, UInt32.add_zero]⟩
      · rw [hb', Map.get, hlook]
      · rw [← hcs'.numNode, hcs.numNode]
    | none =>
      obtain ⟨b', hb', hhas, hstat⟩ := Bucket.get_absent hp hcs (hagrees.absent rfl hlook)
      refine ⟨b', cs, ?_, hhas, hagrees, rfl, by rw [hstat, UInt32.add_zero]⟩
      rw [hb', Map.get, hlook]
  obtain ⟨b', cs', hb', hhas, hagrees', hlen, hstat⟩ := hget
  obtain ⟨ht', hht', href, hsize⟩ := inBucket_refines (f := fun b => b.get p k) h hb hb' hhas
    hagrees' (fun _ _ => rfl) (by rw [hcs.numNode, hhas.numNode, hlen]) hstat
  exact ⟨ht', hht', href, by rw [hsize, UInt32.add_zero]⟩

theorem del_refines (h : Refines hp ht m) (usedbuffkey usedbuffdata : Bool) :
    ∃ ht', ht.inBucket k (fun b => b.del p k) = some (ht', (m.del k).2) ∧
      Refines hp ht' (m.del k).1 ∧
      ht'.getSize = ht.getSize + m.stored (.del (some k) usedbuffkey usedbuffdata) := by
  obtain ⟨b, cs, hb, hcs, hagrees⟩ := h.exists_bucket k
  cases hlook : m.lookup (classOf hp k) with
  | some d =>
    obtain ⟨cs', hcs', hagrees', hkd, hrest⟩ := hagrees.present hcs rfl hlook
    obtain ⟨b', hb', hhas, hstat⟩ := Bucket.del_present hp hcs' hkd
    rw [UInt32.sub_eq_add_neg] at hstat
    simp only [Map.del, Map.stored, hlook]
    refine inBucket_refines h hb hb' hhas (agrees_erase hagrees' hkd hrest)
      (fun c hc => Finmap.lookup_erase_ne hc) ?_ hstat
    have := card_erase_present hlook
    rw [hcs'.numNode, hhas.numNode, List.length_cons]
    omega
  | none =>
    obtain ⟨b', hb', hhas, hstat⟩ := Bucket.del_absent hp hcs (hagrees.absent rfl hlook)
    simp only [Map.del, Map.stored, hlook]
    refine inBucket_refines h hb hb' hhas hagrees (fun _ _ => rfl) ?_
      (by rw [hstat, UInt32.add_zero])
    rw [hcs.numNode, hhas.numNode]

theorem step_refines (h : Refines hp ht m) (op : Op) :
    ∃ ht', ht.step op = some (ht', (m.step op).2) ∧ Refines hp ht' (m.step op).1 ∧
      ht'.getSize = ht.getSize + m.stored op := by
  have hpar := h.parameter
  cases op with
  | testAndSet key val how =>
    cases key with
    | none => exact ⟨ht, rfl, h, (UInt32.add_zero _).symm⟩
    | some k =>
      cases val with
      | none => exact ⟨ht, rfl, h, (UInt32.add_zero _).symm⟩
      | some v =>
        obtain ⟨ht', hht', href, hsize⟩ := testAndSet_refines (k := k) (v := v) h how
        refine ⟨ht', ?_, href, hsize⟩
        simp only [HashTable.step, HashTable.testAndSet, hpar, hht', Option.bind_eq_bind,
          Option.bind_some]
        rfl
  | get key val =>
    cases key with
    | none => exact ⟨ht, rfl, h, (UInt32.add_zero _).symm⟩
    | some k =>
      cases val with
      | false => exact ⟨ht, rfl, h, (UInt32.add_zero _).symm⟩
      | true =>
        obtain ⟨ht', hht', href, hsize⟩ := get_refines (k := k) h
        refine ⟨ht', ?_, href, by rw [hsize]; exact (UInt32.add_zero _).symm⟩
        simp only [HashTable.step, HashTable.get, hpar, hht', Option.bind_eq_bind,
          Option.bind_some]
        rfl
  | del key usedbuffkey usedbuffdata =>
    cases key with
    | none => exact ⟨ht, rfl, h, (UInt32.add_zero _).symm⟩
    | some k =>
      obtain ⟨ht', hht', href, hsize⟩ := del_refines (k := k) h usedbuffkey usedbuffdata
      refine ⟨ht', ?_, href, hsize⟩
      simp only [HashTable.step, HashTable.del, hpar, hht', Option.bind_eq_bind,
        Option.bind_some]
      rfl

theorem run_refines (h : Refines hp ht m) (ops : List Op) :
    ∃ ht', ht.run ops = some (ht', (m.run ops).2) ∧ Refines hp ht' (m.run ops).1 := by
  induction ops generalizing ht m with
  | nil => exact ⟨ht, rfl, h⟩
  | cons op ops ih =>
    obtain ⟨ht1, hstep, href, -⟩ := step_refines h op
    obtain ⟨ht2, hrun, href'⟩ := ih href
    refine ⟨ht2, ?_, href'⟩
    simp only [HashTable.run, hstep, hrun, Option.bind_eq_bind, Option.bind_some]
    rfl

theorem refines_init (hp : p.Lawful) (mem : ℕ → ℕ → RbtNode ℕ) (pdata : ℕ → ℕ → HashData) :
    Refines hp (HashTable.init p mem pdata) ∅ := by
  refine ⟨rfl, by simp [HashTable.init], fun i b hb => ?_, ?_⟩
  · obtain ⟨hlt, rfl⟩ := List.getElem?_eq_some_iff.mp hb
    refine ⟨[], ?_, fun k hk d => by simp⟩
    simp only [HashTable.init, List.getElem_map]
    exact Bucket.has_newBucket
  · rw [Finmap.keys_empty, Finset.card_empty]
    refine List.sum_eq_zero fun n hn => ?_
    simp only [HashTable.init, List.map_map, List.mem_map] at hn
    obtain ⟨i, -, rfl⟩ := hn
    rfl

/-- **Hash tables are finite maps**: whatever operations are made on a new table, they return what
they would return on a finite map from keys to entries. -/
theorem hashTable_refines (hp : p.Lawful) (mem : ℕ → ℕ → RbtNode ℕ) (pdata : ℕ → ℕ → HashData)
    (ops : List Op) :
    ∃ ht, (HashTable.init p mem pdata).run ops = some (ht, ((∅ : Map hp).run ops).2) ∧
      Refines hp ht ((∅ : Map hp).run ops).1 :=
  run_refines (refines_init hp mem pdata) ops

end

/-- The table of the duplicate requests, `ht_dupreq`: a key is an integer that is kept in place of
the pointer. The functions are `dupreq_value_hash_func`, `dupreq_rbt_hash_func` and
`compare_xid`. -/
def xidParameter (indexSize nbNodePrealloc : UInt32) : HashParameter where
  indexSize := indexSize
  nbNodePrealloc := nbNodePrealloc
  hashFuncKey k := k.pdata % indexSize.toUInt64
  hashFuncRbt k := k.pdata
  compareKey k k' := if k.pdata = k'.pdata then 0 else 1

theorem xidParameter_lawful (n nb : UInt32) (hn : n ≠ 0) (hnb : nb ≠ 0) :
    (xidParameter n nb).Lawful := by
  have heq : ∀ {k k' : HashBuffer},
      (xidParameter n nb).compareKey k k' = 0 ↔ k.pdata = k'.pdata := by
    intro k k'
    simp [xidParameter]
  refine ⟨fun k => heq.mpr rfl, fun h => heq.mpr (heq.mp h).symm,
    fun h h' => heq.mpr ((heq.mp h).trans (heq.mp h')), fun k => ?_, fun h => ?_, fun h => heq.mp h,
    ?_⟩
  · have : 0 < n.toNat := Nat.pos_of_ne_zero fun h => hn (UInt32.toNat_inj.mp h)
    simpa [xidParameter] using Nat.mod_lt _ this
  · simp only [xidParameter, heq.mp h]
  · exact fun h => hnb (UInt32.toNat_inj.mp h)

/-- Two keys whose hash values are the same, in both functions of the table. -/
def sameHashValues : List Op :=
  [.testAndSet (some ⟨5, 0⟩) (some ⟨1, 8⟩) .setOverwrite,
   .testAndSet (some ⟨5 + 2 ^ 32, 0⟩) (some ⟨2, 8⟩) .setNoOverwrite,
   .get (some ⟨5, 0⟩) true,
   .del (some ⟨5 + 2 ^ 32, 0⟩) false true]

/-- Neither of them hides the other one. -/
theorem hashTable_refines_sameHashValues :
    ∃ ht, (HashTable.init (xidParameter 1 1) (fun _ _ => ⟨false, .root, none, none, none, 0, 0⟩)
        fun _ _ => ⟨⟨0, 0⟩, ⟨0, 0⟩⟩).run sameHashValues =
      some (ht, [.code .success, .code .success, ⟨.success, none, some ⟨1, 8⟩⟩,
        ⟨.success, none, some ⟨2, 8⟩⟩]) := by
  have hp : (xidParameter 1 1).Lawful := xidParameter_lawful 1 1 (by decide) (by decide)
  obtain ⟨ht, hrun, -⟩ := hashTable_refines hp (fun _ _ => ⟨false, .root, none, none, none, 0, 0⟩)
    (fun _ _ => ⟨⟨0, 0⟩, ⟨0, 0⟩⟩) sameHashValues
  have hreplies : ((∅ : Map hp).run sameHashValues).2 = [.code .success, .code .success,
      ⟨.success, none, some ⟨1, 8⟩⟩, ⟨.success, none, some ⟨2, 8⟩⟩] := by
    rfl
  rw [hreplies] at hrun
  exact ⟨ht, hrun⟩

end CloudNfs.Hash
