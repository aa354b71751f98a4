import Mathlib.Algebra.Order.BigOperators.Group.List
import Mathlib.Algebra.Order.Group.Nat
import CloudNfs.HashRefines

/-!
# The counters of a hash table

`HashTable_Test_And_Set` counts an entry each time it writes one, also when it writes it in the
place of another one with the same key. The number of nodes of a tree is counted where nodes are
linked, and stays exact.

* `countExact_run_iff` — the counters are exact along a run when no operation of it overwrites an
  entry, as long as they do not wrap around, and only then.
-/

namespace CloudNfs.Hash

variable {p : HashParameter} {hp : p.Lawful}

/-! ## Counters -/

/-- `HashTable_GetSize` and `HashTable_GetStats` return the number of keys, and `rbt_num_node` is
the number of nodes in each tree. -/
structure CountExact (ht : HashTable) (m : Map hp) : Prop where
  /-- the result of `HashTable_GetSize` -/
  size : ht.getSize.toNat = m.keys.card
  /-- the result of `HashTable_GetStats` -/
  stats : ht.getStats.dynamic.nbEntries.toNat = m.keys.card
  nodes : ∀ b ∈ ht.buckets, ∃ nodes, b.rbt.Holds nodes ∧ b.rbt.rbtNumNode.toNat = nodes.length

/-- An entry is written in the place of one with the same key. -/
def Map.Overwrites (m : Map hp) : Op → Prop
  | .testAndSet (some key) (some _) .setOverwrite => classOf hp key ∈ m
  | _ => False

/-- An entry is written for a new key. -/
def Map.Adds (m : Map hp) : Op → Prop
  | .testAndSet (some key) (some _) how => how ≠ .testOnly ∧ classOf hp key ∉ m
  | _ => False

/-- An operation that the counters are made for. -/
def Map.Counted (m : Map hp) (op : Op) : Prop :=
  ¬ m.Overwrites op ∧ (m.Adds op → m.keys.card + 1 < 2 ^ 32)

/-- All operations of a run are. -/
def Map.CountedRun : Map hp → List Op → Prop
  | _, [] => True
  | m, op :: ops => m.Counted op ∧ (m.step op).1.CountedRun ops

section

variable {m : Map hp} {ht : HashTable} {op : Op}

theorem nbEntries_getStats : ht.getStats.dynamic.nbEntries = ht.getSize := by
  have h : ∀ (l : List Bucket) (hstat : HashStat),
      (l.foldl HashTable.addStats hstat).dynamic.nbEntries =
        l.foldl (fun n b => n + b.stat.nbEntries) hstat.dynamic.nbEntries := by
    intro l
    induction l with
    | nil => exact fun _ => rfl
    | cons b l ih => exact fun hstat => ih _
  exact h _ _

theorem Refines.nodes (h : Refines hp ht m) (hcard : m.keys.card < 2 ^ 32) :
    ∀ b ∈ ht.buckets, ∃ nodes, b.rbt.Holds nodes ∧ b.rbt.rbtNumNode.toNat = nodes.length := by
  intro b hb
  obtain ⟨i, hi⟩ := List.mem_iff_getElem?.mp hb
  obtain ⟨cs, ⟨nodes, hOk, -⟩, -⟩ := h.bucket i b hi
  refine ⟨nodes, hOk.holds, ?_⟩
  have hle : b.rbt.numNode ≤ (ht.buckets.map fun b => b.rbt.numNode).sum :=
    List.le_sum_of_mem (List.mem_map_of_mem hb)
  rw [h.numNode] at hle
  rw [hOk.counts.1] at hle
  rw [hOk.counts.2, UInt32.toNat_ofNat', Nat.mod_eq_of_lt (by omega)]

theorem countExact_iff (h : Refines hp ht m) :
    CountExact ht m ↔ ht.getSize.toNat = m.keys.card := by
  refine ⟨CountExact.size, fun hsize => ⟨hsize, nbEntries_getStats ▸ hsize, h.nodes ?_⟩⟩
  rw [← hsize]
  exact ht.getSize.toNat_lt

/-! ## One operation -/

theorem Map.Adds.step (h : m.Adds op) :
    (m.step op).1.keys.card = m.keys.card + 1 ∧ m.stored op = 1 := by
  match op, h with
  | .testAndSet (some key) (some val) how, ⟨hhow, hkey⟩ =>
    have hlook : m.lookup (classOf hp key) = none := Finmap.lookup_eq_none.mpr hkey
    cases how with
    | testOnly => exact absurd rfl hhow
    | setOverwrite =>
      simp only [Map.step, Map.testAndSet, Map.stored, hlook]
      exact ⟨card_insert_absent hlook, trivial⟩
    | setNoOverwrite =>
      simp only [Map.step, Map.testAndSet, Map.stored, hlook]
      exact ⟨card_insert_absent hlook, trivial⟩

theorem Map.Overwrites.step (h : m.Overwrites op) :
    (m.step op).1.keys.card = m.keys.card ∧ m.stored op = 1 := by
  match op, h with
  | .testAndSet (some key) (some val) .setOverwrite, hkey =>
    obtain ⟨d, hlook⟩ := Finmap.mem_iff.mp hkey
    simp only [Map.step, Map.testAndSet, Map.stored, hlook]
    exact ⟨card_insert_present hlook, trivial⟩

theorem step_of_not_adds (hadds : ¬ m.Adds op) (hover : ¬ m.Overwrites op) :
    ((m.step op).1.keys.card = m.keys.card ∧ m.stored op = 0) ∨
      (m.step op).1.keys.card + 1 = m.keys.card ∧ m.stored op = -1 := by
  match op with
  | .testAndSet none _ _ => exact .inl ⟨rfl, rfl⟩
  | .testAndSet (some _) none _ => exact .inl ⟨rfl, rfl⟩
  | .testAndSet (some key) (some val) how =>
    left
    cases hlook : m.lookup (classOf hp key) with
    | none =>
      obtain rfl : how = .testOnly := by
        by_contra hhow
        exact hadds ⟨hhow, Finmap.lookup_eq_none.mp hlook⟩
      simp [Map.step, Map.testAndSet, Map.stored, hlook]
    | some d =>
      cases how with
      | setOverwrite => exact absurd (Finmap.mem_iff.mpr ⟨d, hlook⟩) hover
      | testOnly | setNoOverwrite => simp [Map.step, Map.testAndSet, Map.stored, hlook]
  | .get none _ => exact .inl ⟨rfl, rfl⟩
  | .get (some _) false => exact .inl ⟨rfl, rfl⟩
  | .get (some key) true => exact .inl ⟨rfl, rfl⟩
  | .del none _ _ => exact .inl ⟨rfl, rfl⟩
  | .del (some key) _ _ =>
    cases hlook : m.lookup (classOf hp key) with
    | none => simp [Map.step, Map.del, Map.stored, hlook]
    | some d =>
      right
      simp only [Map.step, Map.del, Map.stored, hlook]
      exact ⟨card_erase_present hlook, trivial⟩

theorem size_step_iff {n : UInt32} (hn : n.toNat = m.keys.card) :
    (n + m.stored op).toNat = (m.step op).1.keys.card ↔ m.Counted op := by
  have hlt := n.toNat_lt
  by_cases hover : m.Overwrites op
  · obtain ⟨hcard, hstored⟩ := hover.step
    rw [hcard, hstored, UInt32.toNat_add]
    refine ⟨fun h => ?_, fun h => absurd hover h.1⟩
    simp at h
    omega
  by_cases hadds : m.Adds op
  · obtain ⟨hcard, hstored⟩ := hadds.step
    rw [hcard, hstored, UInt32.toNat_add, UInt32.toNat_one, ← hn, Nat.mod_eq_iff_lt (by omega)]
    refine ⟨fun h => ⟨hover, fun _ => ?_⟩, fun h => ?_⟩
    · omega
    · have := h.2 hadds
      omega
  · refine iff_of_true ?_ ⟨hover, fun h => absurd h hadds⟩
    obtain ⟨hcard, hstored⟩ | ⟨hcard, hstored⟩ := step_of_not_adds hadds hover
    · rw [hcard, hstored, UInt32.add_zero, hn]
    · rw [hstored, ← UInt32.sub_eq_add_neg, UInt32.toNat_sub_of_le]
      · simp
        omega
      · rw [UInt32.le_iff_toNat_le]
        simp
        omega

end

/-! ## Runs -/

/-- The counters are exact after each operation of a run. -/
def CountExactRun (ht : HashTable) (m : Map hp) (ops : List Op) : Prop :=
  ∀ n, ∃ ht' replies, ht.run (ops.take n) = some (ht', replies) ∧
    CountExact ht' (m.run (ops.take n)).1

section

variable {m m' : Map hp} {ht ht' : HashTable} {op : Op}

theorem countExactRun_cons {reply : Reply} {ops : List Op}
    (hstep : ht.step op = some (ht', reply)) :
    CountExactRun ht m (op :: ops) ↔ CountExact ht m ∧ CountExactRun ht' (m.step op).1 ops := by
  constructor
  · intro h
    refine ⟨?_, fun n => ?_⟩
    · obtain ⟨ht1, replies, hrun, hexact⟩ := h 0
      obtain ⟨rfl, -⟩ : ht = ht1 ∧ [] = replies := by simpa [HashTable.run] using hrun
      exact hexact
    · obtain ⟨ht1, replies, hrun, hexact⟩ := h (n + 1)
      rw [List.take_succ_cons, HashTable.run, hstep, Option.bind_eq_bind, Option.bind_some] at hrun
      obtain ⟨⟨ht2, replies'⟩, hrun', heq⟩ := Option.bind_eq_some_iff.mp hrun
      obtain ⟨rfl, -⟩ : ht2 = ht1 ∧ reply :: replies' = replies := by simpa using heq
      exact ⟨ht2, replies', hrun', hexact⟩
  · rintro ⟨hexact, h⟩ n
    cases n with
    | zero => exact ⟨ht, [], rfl, hexact⟩
    | succ n =>
      obtain ⟨ht1, replies, hrun, hexact'⟩ := h n
      refine ⟨ht1, reply :: replies, ?_, hexact'⟩
      rw [List.take_succ_cons, HashTable.run, hstep]
      simp only [Option.bind_eq_bind, Option.bind_some, hrun]
      rfl

theorem countExactRun_iff (h : Refines hp ht m) (hexact : CountExact ht m) (ops : List Op) :
    CountExactRun ht m ops ↔ m.CountedRun ops := by
  induction ops generalizing ht m with
  | nil =>
    refine iff_of_true (fun n => ⟨ht, [], ?_, ?_⟩) trivial
    · rw [List.take_nil, HashTable.run]
    · rw [List.take_nil]
      exact hexact
  | cons op ops ih =>
    obtain ⟨ht', hstep, href, hsize⟩ := step_refines h op
    have hiff : CountExact ht' (m.step op).1 ↔ m.Counted op := by
      rw [countExact_iff href, hsize, size_step_iff hexact.size]
    rw [countExactRun_cons hstep, Map.CountedRun]
    constructor
    · rintro ⟨-, hrun⟩
      obtain ⟨ht1, replies, hrun0, hexact'⟩ := hrun 0
      obtain ⟨rfl, -⟩ : ht' = ht1 ∧ [] = replies := by simpa [HashTable.run] using hrun0
      exact ⟨hiff.mp hexact', (ih href hexact').mp hrun⟩
    · rintro ⟨hop, hops⟩
      exact ⟨hexact, (ih href (hiff.mpr hop)).mpr hops⟩

end

/-- **The counters of a table**: along a run from a new table they are exact when no entry is
overwritten and no key is added to `2 ^ 32 - 1` of them, and only then. -/
theorem countExact_run_iff (hp : p.Lawful) (mem : ℕ → ℕ → RbtNode ℕ) (pdata : ℕ → ℕ → HashData)
    (ops : List Op) :
    CountExactRun (HashTable.init p mem pdata) (∅ : Map hp) ops ↔ (∅ : Map hp).CountedRun ops := by
  have href := refines_init hp mem pdata
  have hsize : (HashTable.init p mem pdata).getSize = 0 := by
    have h : ∀ l : List ℕ, (l.map fun i => HashTable.newBucket p (mem i) (pdata i)).foldl
        (fun n b => n + b.stat.nbEntries) 0 = (0 : UInt32) := by
      intro l
      induction l with
      | nil => rfl
      | cons i l ih => exact ih
    exact h _
  refine countExactRun_iff href ((countExact_iff href).mpr ?_) ops
  rw [hsize, Finmap.keys_empty, Finset.card_empty]
  rfl

/-- Two keys, and one of them is gone again. -/
theorem countExact_run_sameHashValues :
    CountExactRun (HashTable.init (xidParameter 1 1)
        (fun _ _ => ⟨false, .root, none, none, none, 0, 0⟩) fun _ _ => ⟨⟨0, 0⟩, ⟨0, 0⟩⟩)
      (∅ : Map (xidParameter_lawful 1 1 (by decide) (by decide)))
      sameHashValues := by
  refine (countExact_run_iff _ _ _ _).mpr ⟨⟨Finmap.notMem_empty, fun _ => ?_⟩,
    ⟨id, fun _ => ?_⟩, ⟨id, by rintro ⟨⟩⟩, ⟨id, by rintro ⟨⟩⟩, trivial⟩
  · decide
  · decide

/-- A request is stored, and stored again under the same key. -/
def storeTwice : List Op :=
  [.testAndSet (some ⟨5, 0⟩) (some ⟨1, 8⟩) .setOverwrite,
   .testAndSet (some ⟨5, 0⟩) (some ⟨2, 8⟩) .setOverwrite]

/-- There is one key, and the table counts two. -/
theorem not_countExact_storeTwice :
    ¬ CountExactRun (HashTable.init (xidParameter 17 100)
        (fun _ _ => ⟨false, .root, none, none, none, 0, 0⟩) fun _ _ => ⟨⟨0, 0⟩, ⟨0, 0⟩⟩)
      (∅ : Map (xidParameter_lawful 17 100 (by decide) (by decide)))
      storeTwice := by
  intro h
  obtain ⟨ht, replies, hrun, hexact⟩ := h 2
  have hsize : ht.getSize = 2 := by
    cases hrun
    rfl
  have := hexact.size
  rw [hsize] at this
  revert this
  decide

end CloudNfs.Hash
