import Mathlib.Data.List.Pairwise
import CloudNfs.HashTable
import CloudNfs.RbtUnlink

/-!
# Buckets hold pairs of a key and a value

What a bucket holds is a list of entries with keys that are all different, in no order. The tree,
its order and the pools are what makes this work, and each operation keeps them.

* `testAndSet_present`, `testAndSet_absent`, `get_present`, … — the operations, one lemma for a
  key that is there and one for a key that is not.
-/

namespace CloudNfs.Hash

open RedBlack

/-- The comparison of keys is an equivalence, the hash functions return the same value for the
same key, and new nodes can be allocated. -/
structure HashParameter.Lawful (p : HashParameter) : Prop where
  refl : ∀ k, p.compareKey k k = 0
  /-- the order of the arguments does not matter -/
  symm : ∀ {k k'}, p.compareKey k k' = 0 → p.compareKey k' k = 0
  trans : ∀ {k k' k''}, p.compareKey k k' = 0 → p.compareKey k' k'' = 0 → p.compareKey k k'' = 0
  /-- the first hash value is an index of a bucket -/
  hashFuncKey_lt : ∀ k, (p.hashFuncKey k).toNat < p.indexSize.toNat
  hashFuncKey_congr : ∀ {k k'}, p.compareKey k k' = 0 → p.hashFuncKey k = p.hashFuncKey k'
  hashFuncRbt_congr : ∀ {k k'}, p.compareKey k k' = 0 → p.hashFuncRbt k = p.hashFuncRbt k'
  /-- `STUFF_PREALLOC` allocates something -/
  nbNodePrealloc_ne : p.nbNodePrealloc.toNat ≠ 0

namespace HashParameter.Lawful

variable {p : HashParameter} {k k' : HashBuffer}

theorem hashval_congr (hp : p.Lawful) (h : p.compareKey k k' = 0) : p.hashval k = p.hashval k' := by
  rw [hashval, hashval, hp.hashFuncKey_congr h]

theorem rbtValue_congr (hp : p.Lawful) (h : p.compareKey k k' = 0) :
    p.rbtValue k = p.rbtValue k' := by
  rw [rbtValue, rbtValue, hp.hashFuncRbt_congr h]

theorem hashval_lt (hp : p.Lawful) : p.hashval k < p.indexSize.toNat := by
  have h := hp.hashFuncKey_lt k
  have h' := p.indexSize.toNat_lt
  rw [hashval, Nat.mod_eq_of_lt (by omega)]
  exact h

end HashParameter.Lawful

/-! ## Pools -/

/-- The used and the free entries of a pool are all different, and were all allocated. -/
structure Pool.Ok (p : Pool) (used : List ℕ) : Prop where
  nodup : (used ++ p.free).Nodup
  lt_fresh : ∀ a ∈ used ++ p.free, a < p.fresh

namespace Pool

variable {p : Pool} {used used' : List ℕ} {a nb : ℕ}

theorem Ok.perm (h : p.Ok used) (hperm : used.Perm used') : p.Ok used' := by
  have happ : (used ++ p.free).Perm (used' ++ p.free) := hperm.append_right _
  exact ⟨happ.nodup_iff.mp h.nodup, fun a ha => h.lt_fresh a (happ.mem_iff.mpr ha)⟩

theorem Ok.stuffPrealloc (h : p.Ok used) : (p.stuffPrealloc nb).Ok used := by
  have hlt : ∀ a ∈ used, a < p.fresh := fun a ha => h.lt_fresh a (List.mem_append_left _ ha)
  refine ⟨List.nodup_append'.mpr ⟨(List.nodup_append'.mp h.nodup).1, List.nodup_range', ?_⟩, ?_⟩
  · intro a ha ha'
    have := hlt a ha
    have := (List.mem_range'_1.mp ha').1
    omega
  · intro a ha
    rw [Pool.stuffPrealloc]
    rcases List.mem_append.mp ha with ha | ha
    · have := hlt a ha
      simp only
      omega
    · exact (List.mem_range'_1.mp ha).2

theorem Ok.getPrealloc (h : p.Ok used) (hnb : nb ≠ 0) :
    ∃ a p', p.getPrealloc nb = some (a, p') ∧ p'.Ok (a :: used) := by
  obtain ⟨p', hp', hOk, a, free, hfree⟩ : ∃ p' : Pool,
      (if p.free = [] ∧ nb ≠ 0 then p.stuffPrealloc nb else p) = p' ∧ p'.Ok used ∧
        ∃ a free, p'.free = a :: free := by
    by_cases hempty : p.free = []
    · obtain ⟨m, rfl⟩ := Nat.exists_eq_succ_of_ne_zero hnb
      exact ⟨_, if_pos ⟨hempty, hnb⟩, h.stuffPrealloc, p.fresh, _, List.range'_succ⟩
    · obtain ⟨a, free, hfree⟩ := List.exists_cons_of_ne_nil hempty
      exact ⟨p, if_neg fun hif => hempty hif.1, h, a, free, hfree⟩
  refine ⟨a, { p' with free := free }, ?_, ?_⟩
  · simp only [Pool.getPrealloc, hp', hfree]
  · have hperm : (used ++ p'.free).Perm (a :: used ++ free) := by
      rw [hfree]
      exact List.perm_middle
    exact ⟨hperm.nodup_iff.mp hOk.nodup, fun b hb => hOk.lt_fresh b (hperm.mem_iff.mpr hb)⟩

theorem Ok.releasePrealloc (h : p.Ok (a :: used)) : (p.releasePrealloc a).Ok used := by
  have hperm : (a :: used ++ p.free).Perm (used ++ a :: p.free) := List.perm_middle.symm
  exact ⟨hperm.nodup_iff.mp h.nodup, fun b hb => h.lt_fresh b (hperm.mem_iff.mpr hb)⟩

end Pool

/-! ## The invariant -/

namespace Bucket

/-- The invariant of the bucket with the index `i`, for the nodes of its tree in order. -/
structure Ok (p : HashParameter) (i : ℕ) (b : Bucket) (nodes : List ℕ) : Prop where
  holds : b.rbt.Holds nodes
  sorted : Rbt.Sorted b.rbt.mem nodes
  counts : b.rbt.Counts nodes.length
  nodePool : b.nodePrealloc.Ok nodes
  /-- the entries and the free ones -/
  pdataPool : b.pdataPrealloc.Ok (nodes.map fun a => (b.rbt.mem a).opaq)
  /-- the order is the one of the second hash value -/
  value : ∀ a ∈ nodes, (b.rbt.mem a).value = p.rbtValue (b.entry a).buffkey
  /-- the bucket is the one of the first hash value -/
  index : ∀ a ∈ nodes, p.hashval (b.entry a).buffkey = i
  /-- no two keys are the same -/
  distinct : nodes.Pairwise fun a a' =>
    p.compareKey (b.entry a).buffkey (b.entry a').buffkey ≠ 0

/-- The entries that a bucket holds, in any order. -/
def Has (p : HashParameter) (i : ℕ) (b : Bucket) (cs : List HashData) : Prop :=
  ∃ nodes, b.Ok p i nodes ∧ (nodes.map b.entry).Perm cs

variable {p : HashParameter} {i : ℕ} {b : Bucket} {nodes : List ℕ} {k v : HashBuffer}
  {cs : List HashData} {d : HashData} {val : ℤ}

/-! ## Locating a key -/

def match? (p : HashParameter) (b : Bucket) (k : HashBuffer) (nodes : List ℕ) : Option ℕ :=
  nodes.find? fun a => decide (p.compareKey k (b.entry a).buffkey = 0)

theorem match?_takeWhile (hsorted : Rbt.Sorted b.rbt.mem nodes)
    (hle : ∀ a ∈ nodes, val ≤ (b.rbt.mem a).value)
    (hval : ∀ a ∈ nodes, p.compareKey k (b.entry a).buffkey = 0 → (b.rbt.mem a).value = val) :
    b.match? p k (nodes.takeWhile fun a => decide ((b.rbt.mem a).value = val)) =
      b.match? p k nodes := by
  induction nodes with
  | nil => rfl
  | cons a nodes ih =>
    obtain ⟨ha, hsorted⟩ := List.pairwise_cons.mp hsorted
    by_cases hav : (b.rbt.mem a).value = val
    · have := ih hsorted (fun a' ha' => hle a' (.tail a ha'))
        fun a' ha' => hval a' (.tail a ha')
      simp only [match?] at this
      simp [match?, hav, List.find?_cons, this]
    -- the values only get greater
    have hnone : b.match? p k (a :: nodes) = none := by
      refine List.find?_eq_none.mpr fun a' ha' hk => ?_
      have hlt : val < (b.rbt.mem a').value := by
        have := hle a (by simp)
        rcases List.mem_cons.mp ha' with rfl | ha'
        · omega
        · have := ha a' ha'
          omega
      have := hval a' ha' (of_decide_eq_true hk)
      omega
    rw [hnone, List.takeWhile_cons_of_neg (by simpa using hav)]
    rfl

variable {xs ys : List ℕ} {b' : Bucket} {pn qn : ℕ} {rbt : Rbt ℕ}

theorem scan_spec (hb : b.Ok p i nodes) (hlist : nodes = xs ++ ys) {n : ℕ} (hn : ys.length < n) :
    b.scan p k val n ys.head? =
      some (b.match? p k (ys.takeWhile fun a => decide ((b.rbt.mem a).value = val))) := by
  induction ys generalizing xs n with
  | nil =>
    obtain ⟨m, rfl⟩ := Nat.exists_eq_succ_of_ne_zero (Nat.ne_of_gt hn)
    rfl
  | cons a ys ih =>
    obtain ⟨m, rfl⟩ := Nat.exists_eq_succ_of_ne_zero (Nat.ne_of_gt (Nat.lt_of_le_of_lt
      (Nat.zero_le _) hn))
    obtain ⟨T, hrep, -, hT⟩ := hb.holds
    have hnext : b.rbt.increment a = some ys.head? :=
      Rbt.increment_spec hrep (by rw [hT]; exact Nat.le_of_eq hb.counts.1.symm) (hT.trans hlist)
    rw [List.head?_cons, scan, hnext]
    by_cases hav : (b.rbt.mem a).value = val
    · by_cases hk : p.compareKey k (b.entry a).buffkey = 0
      · simp [hav, hk, match?]
      · have hlist' : nodes = (xs ++ [a]) ++ ys := by simp [hlist]
        have := ih hlist' (Nat.lt_of_succ_lt_succ hn)
        rw [if_pos hav, if_neg hk, Option.bind_some, this]
        simp [match?, hav, hk]
    · simp [hav, match?]

/-- **`Key_Locate`**: the node of the key, whatever other keys have the same hash values. -/
theorem keyLocate_spec (hp : p.Lawful) (hb : b.Ok p i nodes) :
    b.keyLocate p k (p.rbtValue k) = some (b.match? p k nodes) := by
  obtain ⟨T, hrep, -, hT⟩ := hb.holds
  have hval : ∀ a ∈ nodes, p.compareKey k (b.entry a).buffkey = 0 →
      (b.rbt.mem a).value = p.rbtValue k := fun a ha hk => by
    rw [hb.value a ha, hp.rbtValue_congr hk]
  have hfind : b.rbt.findLeft (p.rbtValue k) = _ :=
    Rbt.findLeft_spec hrep (by rw [hT]; exact hb.sorted)
    (by rw [hT]; exact Nat.le_of_eq hb.counts.1.symm)
  rw [keyLocate, hfind, hT, Option.bind_some]
  cases hfirst : Rbt.first b.rbt.mem (p.rbtValue k) nodes with
  | none =>
    have hnone : b.match? p k nodes = none := by
      refine List.find?_eq_none.mpr fun a ha hk => ?_
      exact List.find?_eq_none.mp hfirst a ha
        (decide_eq_true (hval a ha (of_decide_eq_true hk)))
    rw [hnone]
    rfl
  | some a =>
    obtain ⟨ha, xs, ys, rfl, hxs⟩ := List.find?_eq_some_iff_append.mp hfirst
    have hscan : b.scan p k (p.rbtValue k) b.rbt.fuel (a :: ys).head? = _ := scan_spec hb rfl
      (by rw [Rbt.fuel, hb.counts.1, List.length_append]; omega)
    rw [List.head?_cons] at hscan
    rw [hscan]
    obtain ⟨-, hsorted, -⟩ := List.pairwise_append.mp hb.sorted
    have hle : ∀ a' ∈ a :: ys, p.rbtValue k ≤ (b.rbt.mem a').value := by
      intro a' ha'
      rw [← of_decide_eq_true ha]
      rcases List.mem_cons.mp ha' with rfl | ha'
      · exact Int.le_refl _
      · exact (List.pairwise_cons.mp hsorted).1 a' ha'
    rw [match?_takeWhile hsorted hle fun a' ha' => hval a' (List.mem_append_right xs ha')]
    have hxs' : b.match? p k xs = none := by
      refine List.find?_eq_none.mpr fun a' ha' hk => ?_
      have := hxs a' ha'
      simp [hval a' (List.mem_append_left _ ha') (of_decide_eq_true hk)] at this
    rw [match?] at hxs'
    simp [match?, hxs']

theorem Has.present (hp : p.Lawful) (hb : b.Has p i (d :: cs)) (hk : p.compareKey k d.buffkey = 0) :
    ∃ xs pn ys, b.Ok p i (xs ++ pn :: ys) ∧ b.entry pn = d ∧ ((xs ++ ys).map b.entry).Perm cs ∧
      b.keyLocate p k (p.rbtValue k) = some (some pn) := by
  obtain ⟨nodes, hOk, hperm⟩ := hb
  obtain ⟨pn, hpn, rfl⟩ := List.mem_map.mp (hperm.mem_iff.mpr (.head _))
  have hmatch : b.match? p k nodes = some pn := by
    have hsome : (b.match? p k nodes).isSome :=
      List.find?_isSome.mpr ⟨pn, hpn, decide_eq_true hk⟩
    obtain ⟨a, ha⟩ := Option.isSome_iff_exists.mp hsome
    have hka : p.compareKey k (b.entry a).buffkey = 0 := by
      simpa using List.find?_some ha
    by_cases hne : a = pn
    · rw [ha, hne]
    have hsymm : Std.Symm fun a a' : ℕ =>
        p.compareKey (b.entry a).buffkey (b.entry a').buffkey ≠ 0 :=
      ⟨fun _ _ h h' => h (hp.symm h')⟩
    exact absurd (hp.trans (hp.symm hka) hk)
      (hOk.distinct.forall (List.mem_of_find?_eq_some ha) hpn hne)
  obtain ⟨xs, ys, rfl⟩ := List.append_of_mem hpn
  refine ⟨xs, pn, ys, hOk, rfl, ?_, by rw [keyLocate_spec hp hOk, hmatch]⟩
  rw [List.map_append, List.map_cons] at hperm
  rw [List.map_append]
  exact (List.perm_middle.symm.trans hperm).cons_inv

theorem Has.absent (hp : p.Lawful) (hb : b.Has p i cs)
    (hk : ∀ d ∈ cs, p.compareKey k d.buffkey ≠ 0) :
    ∃ nodes, b.Ok p i nodes ∧ (nodes.map b.entry).Perm cs ∧
      b.keyLocate p k (p.rbtValue k) = some none := by
  obtain ⟨nodes, hOk, hperm⟩ := hb
  refine ⟨nodes, hOk, hperm, ?_⟩
  rw [keyLocate_spec hp hOk]
  refine congrArg some (List.find?_eq_none.mpr fun a ha => ?_)
  simpa using hk (b.entry a) (hperm.mem_iff.mp (List.mem_map_of_mem ha))

/-! ## The operations keep the invariant -/

theorem Ok.congr (hp : p.Lawful) (hb : b.Ok p i nodes) (hrbt : b'.rbt = b.rbt)
    (hnode : b'.nodePrealloc = b.nodePrealloc) (hpdata : b'.pdataPrealloc = b.pdataPrealloc)
    (hkey : ∀ a ∈ nodes, p.compareKey (b'.entry a).buffkey (b.entry a).buffkey = 0) :
    b'.Ok p i nodes := by
  refine ⟨hrbt ▸ hb.holds, hrbt ▸ hb.sorted, hrbt ▸ hb.counts, hnode ▸ hb.nodePool,
    hrbt ▸ hpdata ▸ hb.pdataPool, fun a ha => ?_, fun a ha => ?_, ?_⟩
  · rw [hrbt, hb.value a ha, hp.rbtValue_congr (hkey a ha)]
  · rw [← hb.index a ha, hp.hashval_congr (hkey a ha)]
  · refine hb.distinct.imp_of_mem fun ha ha' hne heq => hne ?_
    exact hp.trans (hp.symm (hkey _ ha)) (hp.trans heq (hkey _ ha'))

theorem Has.stat (hp : p.Lawful) (hb : b.Has p i cs) (stat : HashStatDynamic) :
    Has p i { b with stat := stat } cs := by
  obtain ⟨nodes, hOk, hperm⟩ := hb
  exact ⟨nodes, hOk.congr hp rfl rfl rfl fun a _ => hp.refl _, hperm⟩

theorem Ok.store (hp : p.Lawful) (hb : b.Ok p i (xs ++ pn :: ys))
    (hk : p.compareKey k (b.entry pn).buffkey = 0) :
    (b.store (b.rbt.mem pn).opaq k v).Has p i (⟨v, k⟩ :: (xs ++ ys).map b.entry) := by
  have hpn : (b.store (b.rbt.mem pn).opaq k v).entry pn = ⟨v, k⟩ := by
    simp [Bucket.store, entry]
  have hother : ∀ a ∈ xs ++ ys, (b.store (b.rbt.mem pn).opaq k v).entry a = b.entry a := by
    intro a ha
    have hnodup := (List.nodup_append'.mp hb.pdataPool.nodup).1
    rw [List.map_append, List.map_cons] at hnodup
    have hne : (b.rbt.mem a).opaq ≠ (b.rbt.mem pn).opaq := by
      intro heq
      refine (List.nodup_cons.mp (List.nodup_middle.mp hnodup)).1 ?_
      rw [← List.map_append, ← heq]
      exact List.mem_map_of_mem ha
    simp [Bucket.store, entry, hne]
  refine ⟨xs ++ pn :: ys, hb.congr hp rfl rfl rfl fun a ha => ?_, ?_⟩
  · rcases List.mem_cons.mp (List.perm_middle.mem_iff.mp ha) with rfl | ha
    · rw [hpn]
      exact hk
    · rw [hother a ha]
      exact hp.refl _
  · refine (List.perm_middle.map _).trans ?_
    rw [List.map_cons, hpn, List.map_congr_left hother]

theorem Ok.insert {pd : ℕ} {nodePool pdataPool : Pool} (hp : p.Lawful) (hb : b.Ok p i (xs ++ ys))
    (hi : p.hashval k = i) (habsent : ∀ a ∈ xs ++ ys, p.compareKey k (b.entry a).buffkey ≠ 0)
    (hnode : nodePool.Ok (qn :: (xs ++ ys)))
    (hpdata : pdataPool.Ok (pd :: (xs ++ ys).map fun a => (b.rbt.mem a).opaq))
    (hholds : rbt.Holds (xs ++ qn :: ys)) (hcounts : rbt.Counts ((xs ++ ys).length + 1))
    (hqn : (rbt.mem qn).value = p.rbtValue k ∧ (rbt.mem qn).opaq = pd)
    (hsame : ∀ a ∈ xs ++ ys, (rbt.mem a).value = (b.rbt.mem a).value ∧
      (rbt.mem a).opaq = (b.rbt.mem a).opaq)
    (hle : (∀ a ∈ xs, (b.rbt.mem a).value ≤ p.rbtValue k) ∧
      ∀ a ∈ ys, p.rbtValue k ≤ (b.rbt.mem a).value)
    (hb' : b'.rbt = rbt ∧ b'.pdata = Function.update b.pdata pd ⟨v, k⟩ ∧
      b'.nodePrealloc = nodePool ∧ b'.pdataPrealloc = pdataPool) :
    b'.Has p i (⟨v, k⟩ :: (xs ++ ys).map b.entry) := by
  obtain ⟨rfl, hdata, rfl, rfl⟩ := hb'
  have hmid : (xs ++ qn :: ys).Perm (qn :: (xs ++ ys)) := List.perm_middle
  have hentryqn : b'.entry qn = ⟨v, k⟩ := by
    rw [entry, hdata, hqn.2, Function.update_self]
  have hentry : ∀ a ∈ xs ++ ys, b'.entry a = b.entry a := by
    intro a ha
    have hne : (b.rbt.mem a).opaq ≠ pd := by
      intro heq
      refine (List.nodup_cons.mp (List.nodup_append'.mp hpdata.nodup).1).1 ?_
      exact List.mem_map.mpr ⟨a, ha, heq⟩
    rw [entry, hdata, (hsame a ha).2, Function.update_of_ne hne, entry]
  have hopaq : ((xs ++ qn :: ys).map fun a => (b'.rbt.mem a).opaq).Perm
      (pd :: (xs ++ ys).map fun a => (b.rbt.mem a).opaq) := by
    refine (hmid.map _).trans ?_
    rw [List.map_cons, hqn.2, List.map_congr_left fun a ha => (hsame a ha).2]
  have hsymm : ∀ {a a'}, p.compareKey (b'.entry a).buffkey (b'.entry a').buffkey ≠ 0 →
      p.compareKey (b'.entry a').buffkey (b'.entry a).buffkey ≠ 0 := fun h h' => h (hp.symm h')
  refine ⟨xs ++ qn :: ys, ⟨hholds, ?_, ?_, hnode.perm hmid.symm, hpdata.perm hopaq.symm, ?_,
    ?_, ?_⟩,
    ?_⟩
  · -- the new node stands between the lesser and the greater ones
    have hsorted : Rbt.Sorted b'.rbt.mem (xs ++ ys) := hb.sorted.imp_of_mem fun ha ha' h => by
      rwa [(hsame _ ha).1, (hsame _ ha').1]
    obtain ⟨hxs, hys, hxy⟩ := List.pairwise_append.mp hsorted
    refine List.pairwise_append.mpr ⟨hxs, List.pairwise_cons.mpr ⟨fun a ha => ?_, hys⟩, ?_⟩
    · rw [hqn.1, (hsame a (List.mem_append_right xs ha)).1]
      exact hle.2 a ha
    · intro a ha a' ha'
      rcases List.mem_cons.mp ha' with rfl | ha'
      · rw [hqn.1, (hsame a (List.mem_append_left ys ha)).1]
        exact hle.1 a ha
      · exact hxy a ha a' ha'
  · rw [hmid.length_eq]
    exact hcounts
  · intro a ha
    rcases List.mem_cons.mp (hmid.mem_iff.mp ha) with rfl | ha
    · rw [hqn.1, hentryqn]
    · rw [(hsame a ha).1, hentry a ha, hb.value a ha]
  · intro a ha
    rcases List.mem_cons.mp (hmid.mem_iff.mp ha) with rfl | ha
    · rw [hentryqn, hi]
    · rw [hentry a ha, hb.index a ha]
  · refine (hmid.pairwise_iff hsymm).mpr (List.pairwise_cons.mpr ⟨fun a ha => ?_, ?_⟩)
    · rw [hentryqn, hentry a ha]
      exact habsent a ha
    · refine hb.distinct.imp_of_mem fun ha ha' h => ?_
      rwa [hentry _ ha, hentry _ ha']
  · refine (hmid.map _).trans ?_
    rw [List.map_cons, hentryqn, List.map_congr_left hentry]

theorem insert_writeNode {T : RbTree ℕ} {par : Option ℕ} (pd : ℕ) (hrep : rbt.Represents T)
    (hbal : T.Balanced) (hsorted : Rbt.Sorted rbt.mem T.toList) (hn : T.toList.length ≤ rbt.numNode)
    (hqn : qn ∉ T.toList) (hfound : Rbt.Found rbt.mem val T par) :
    ∃ rbt' xs ys, (writeNode rbt qn pd val).insert qn par = some rbt' ∧ T.toList = xs ++ ys ∧
      rbt'.Holds (xs ++ qn :: ys) ∧ (∀ n, rbt.Counts n → rbt'.Counts (n + 1)) ∧
      ((rbt'.mem qn).value = val ∧ (rbt'.mem qn).opaq = pd) ∧
      (∀ a ∈ xs ++ ys, (rbt'.mem a).value = (rbt.mem a).value ∧
        (rbt'.mem a).opaq = (rbt.mem a).opaq) ∧
      (∀ a ∈ xs, (rbt.mem a).value ≤ val) ∧ ∀ a ∈ ys, val ≤ (rbt.mem a).value := by
  have hmem : ∀ a ∈ T.toList, (writeNode rbt qn pd val).mem a = rbt.mem a := by
    intro a ha
    exact Rbt.mem_modify.trans (if_neg fun haq : a = qn => hqn (haq ▸ ha))
  have hqnmem : (writeNode rbt qn pd val).mem qn = { rbt.mem qn with opaq := pd, value := val } :=
    Rbt.mem_modify.trans (if_pos rfl)
  have hrep' : (writeNode rbt qn pd val).Represents T := hrep.frame rfl hmem
  have hsorted' : Rbt.Sorted (writeNode rbt qn pd val).mem T.toList := by
    refine hsorted.imp_of_mem fun ha ha' h => ?_
    rwa [hmem _ ha, hmem _ ha']
  have hfound' : Rbt.Found (writeNode rbt qn pd val).mem ((writeNode rbt qn pd val).mem qn).value
      T par := by
    rw [hqnmem]
    exact hfound.congr fun a ha => by rw [hmem a ha]
  obtain ⟨rbt', xs, ys, hins, hxy, hholds, hle, hdata⟩ :=
    Rbt.insert_spec hrep' hbal hsorted' hn hqn hfound'
  rw [hqnmem] at hle
  rw [hxy] at hmem
  refine ⟨rbt', xs, ys, hins, hxy, hholds, fun n hn => ?_, ?_, fun a ha => ?_, fun a ha => ?_,
    fun a ha => ?_⟩
  · have hcounts : (writeNode rbt qn pd val).Counts n := hn
    exact hcounts.added hdata
  · have := hdata.data qn
    simp only [Rbt.mem_addNode, hqnmem] at this
    exact this
  · have := hdata.data a
    simp only [Rbt.mem_addNode, hmem a ha] at this
    exact this
  · rw [← hmem a (List.mem_append_left ys ha)]
    exact hle.1 a ha
  · rw [← hmem a (List.mem_append_right xs ha)]
    exact hle.2 a ha

theorem create_spec (hp : p.Lawful) (hb : b.Ok p i nodes) (hi : p.hashval k = i)
    (habsent : ∀ a ∈ nodes, p.compareKey k (b.entry a).buffkey ≠ 0) :
    ∃ b', b.create p k v (p.rbtValue k) = some (b', .success) ∧
      b'.Has p i (⟨v, k⟩ :: nodes.map b.entry) ∧
      b'.stat.nbEntries = b.stat.nbEntries + 1 := by
  obtain ⟨T, hrep, hbal, hT⟩ := hb.holds
  have hlen : T.toList.length ≤ b.rbt.numNode := by
    rw [hT]
    exact Nat.le_of_eq hb.counts.1.symm
  have hsorted : Rbt.Sorted b.rbt.mem T.toList := by
    rw [hT]
    exact hb.sorted
  obtain ⟨par, hpar, hfound⟩ : ∃ par, b.rbt.find (p.rbtValue k) = some par ∧
      Rbt.Found b.rbt.mem (p.rbtValue k) T par := Rbt.find_spec hrep hsorted hlen
  obtain ⟨qn, np, hget, hnp⟩ := hb.nodePool.getPrealloc hp.nbNodePrealloc_ne
  obtain ⟨pd, pp, hget', hpp⟩ := hb.pdataPool.getPrealloc hp.nbNodePrealloc_ne
  have hqn : qn ∉ T.toList := by
    rw [hT]
    exact fun h => (List.nodup_cons.mp (List.nodup_append'.mp hnp.nodup).1).1 h
  obtain ⟨rbt, xs, ys, hins, hxy, hholds, hnum, hqnmem, hsame, hle⟩ :=
    insert_writeNode pd hrep hbal hsorted hlen hqn hfound
  obtain rfl : nodes = xs ++ ys := hT.symm.trans hxy
  refine ⟨({ b with nodePrealloc := np, rbt := rbt, pdataPrealloc := pp } : Bucket).store pd k v,
    ?_, hb.insert hp hi habsent hnp hpp hholds (hnum _ hb.counts) hqnmem hsame hle
    ⟨rfl, rfl, rfl, rfl⟩, rfl⟩
  simp only [create, hpar, hget, hget', hins, Option.bind_eq_bind, Option.bind_some]
  rfl

theorem unlink_spec (hb : b.Ok p i (xs ++ pn :: ys)) (stat : HashStatDynamic) :
    ∃ rbt, b.rbt.unlink pn = some rbt ∧ Has p i { b with
      rbt := rbt
      pdataPrealloc := b.pdataPrealloc.releasePrealloc (b.rbt.mem pn).opaq
      nodePrealloc := b.nodePrealloc.releasePrealloc pn
      stat := stat } ((xs ++ ys).map b.entry) := by
  have hmid : (xs ++ pn :: ys).Perm (pn :: (xs ++ ys)) := List.perm_middle
  have hsub : (xs ++ ys).Sublist (xs ++ pn :: ys) :=
    List.Sublist.append_left (List.sublist_cons_self pn ys) xs
  obtain ⟨rbt, hunlink, hholds, hdata⟩ :=
    Rbt.unlink_spec hb.holds (Nat.le_of_eq hb.counts.1.symm)
  have hvalue : ∀ a, (rbt.mem a).value = (b.rbt.mem a).value := fun a => (hdata.data a).1
  have hopaq : ∀ a, (rbt.mem a).opaq = (b.rbt.mem a).opaq := fun a => (hdata.data a).2
  have hentry : ∀ a, Bucket.entry { b with
      rbt := rbt
      pdataPrealloc := b.pdataPrealloc.releasePrealloc (b.rbt.mem pn).opaq
      nodePrealloc := b.nodePrealloc.releasePrealloc pn
      stat := stat } a = b.entry a := fun a => congrArg b.pdata (hopaq a)
  refine ⟨rbt, hunlink, xs ++ ys, ⟨hholds, ?_, ?_, ?_, ?_, ?_, ?_, ?_⟩, ?_⟩
  · refine (List.Pairwise.sublist hsub hb.sorted).imp fun h => ?_
    rwa [hvalue, hvalue]
  · have hcounts := hb.counts
    rw [hmid.length_eq, List.length_cons] at hcounts
    exact hcounts.dropped hdata
  · exact (hb.nodePool.perm hmid).releasePrealloc
  · simp only [hopaq]
    exact (hb.pdataPool.perm (hmid.map _)).releasePrealloc
  · intro a ha
    rw [hentry, hvalue]
    exact hb.value a (hsub.subset ha)
  · intro a ha
    rw [hentry]
    exact hb.index a (hsub.subset ha)
  · refine (List.Pairwise.sublist hsub hb.distinct).imp fun h => ?_
    rwa [hentry, hentry]
  · rw [List.map_congr_left fun a _ => hentry a]

/-! ## The operations -/

theorem testAndSet_present (hp : p.Lawful) (hb : b.Has p i (d :: cs))
    (hk : p.compareKey k d.buffkey = 0) (how : SetHow) :
    ∃ b', b.testAndSet p k v how = some (b', match how with
        | .testOnly => .success
        | .setOverwrite => .success
        | .setNoOverwrite => .keyAlreadyExists) ∧
      b'.Has p i (match how with
        | .setOverwrite => ⟨v, k⟩ :: cs
        | _ => d :: cs) ∧
      b'.stat.nbEntries = b.stat.nbEntries + match how with
        | .setOverwrite => 1
        | _ => 0 := by
  obtain ⟨xs, pn, ys, hOk, rfl, hperm, hloc⟩ := hb.present hp hk
  simp only [testAndSet, hloc, Option.bind_eq_bind, Option.bind_some]
  cases how with
  | testOnly | setNoOverwrite => exact ⟨_, rfl, hb.stat hp _, by simp⟩
  | setOverwrite =>
    obtain ⟨nodes, hOk', hperm'⟩ := hOk.store (v := v) hp hk
    exact ⟨_, rfl, ⟨nodes, hOk', hperm'.trans (hperm.cons _)⟩, rfl⟩

theorem testAndSet_absent (hp : p.Lawful) (hb : b.Has p i cs) (hi : p.hashval k = i)
    (hk : ∀ d ∈ cs, p.compareKey k d.buffkey ≠ 0) (how : SetHow) :
    ∃ b', b.testAndSet p k v how = some (b', if how = .testOnly then .noSuchKey else .success) ∧
      b'.Has p i (if how = .testOnly then cs else ⟨v, k⟩ :: cs) ∧
      b'.stat.nbEntries = b.stat.nbEntries + if how = .testOnly then 0 else 1 := by
  obtain ⟨nodes, hOk, hperm, hloc⟩ := hb.absent hp hk
  have hcreate : ∃ b', b.create p k v (p.rbtValue k) = some (b', .success) ∧
      b'.Has p i (⟨v, k⟩ :: cs) ∧ b'.stat.nbEntries = b.stat.nbEntries + 1 := by
    obtain ⟨b', hb', ⟨nodes', hOk', hperm'⟩, hstat⟩ := create_spec (v := v) hp hOk hi fun a ha =>
      hk _ (hperm.mem_iff.mp (List.mem_map_of_mem ha))
    exact ⟨b', hb', ⟨nodes', hOk', hperm'.trans (hperm.cons _)⟩, hstat⟩
  simp only [testAndSet, hloc, Option.bind_eq_bind, Option.bind_some]
  cases how with
  | testOnly => exact ⟨_, rfl, hb.stat hp _, by simp⟩
  | setNoOverwrite => exact hcreate
  | setOverwrite => exact hcreate

theorem get_present (hp : p.Lawful) (hb : b.Has p i (d :: cs)) (hk : p.compareKey k d.buffkey = 0) :
    ∃ b', b.get p k = some (b', .success, some d.buffval) ∧ b'.Has p i (d :: cs) ∧
      b'.stat.nbEntries = b.stat.nbEntries := by
  obtain ⟨xs, pn, ys, hOk, rfl, hperm, hloc⟩ := hb.present hp hk
  rw [get, hloc]
  exact ⟨_, rfl, hb.stat hp _, rfl⟩

theorem get_absent (hp : p.Lawful) (hb : b.Has p i cs)
    (hk : ∀ d ∈ cs, p.compareKey k d.buffkey ≠ 0) :
    ∃ b', b.get p k = some (b', .noSuchKey, none) ∧ b'.Has p i cs ∧
      b'.stat.nbEntries = b.stat.nbEntries := by
  obtain ⟨nodes, -, -, hloc⟩ := hb.absent hp hk
  rw [get, hloc]
  exact ⟨_, rfl, hb.stat hp _, rfl⟩

theorem del_present (hp : p.Lawful) (hb : b.Has p i (d :: cs)) (hk : p.compareKey k d.buffkey = 0) :
    ∃ b', b.del p k = some (b', .success, some d) ∧ b'.Has p i cs ∧
      b'.stat.nbEntries = b.stat.nbEntries - 1 := by
  obtain ⟨xs, pn, ys, hOk, rfl, hperm, hloc⟩ := hb.present hp hk
  obtain ⟨rbt, hunlink, nodes, hOk', hperm'⟩ := unlink_spec hOk { b.stat with
    nbEntries := b.stat.nbEntries - 1
    ok := { b.stat.ok with nbDel := b.stat.ok.nbDel + 1 } }
  simp only [del, hloc, Option.bind_eq_bind, Option.bind_some, hunlink]
  exact ⟨_, rfl, ⟨nodes, hOk', hperm'.trans hperm⟩, rfl⟩

theorem del_absent (hp : p.Lawful) (hb : b.Has p i cs)
    (hk : ∀ d ∈ cs, p.compareKey k d.buffkey ≠ 0) :
    ∃ b', b.del p k = some (b', .noSuchKey, none) ∧ b'.Has p i cs ∧
      b'.stat.nbEntries = b.stat.nbEntries := by
  obtain ⟨nodes, -, -, hloc⟩ := hb.absent hp hk
  rw [del, hloc]
  exact ⟨_, rfl, hb.stat hp _, rfl⟩

theorem Has.numNode (hb : b.Has p i cs) : b.rbt.numNode = cs.length := by
  obtain ⟨nodes, hOk, hperm⟩ := hb
  rw [hOk.counts.1, ← hperm.length_eq, List.length_map]

theorem has_newBucket {mem : ℕ → RbtNode ℕ} {pdata : ℕ → HashData} :
    (HashTable.newBucket p mem pdata).Has p i [] := by
  have hpool : Pool.Ok { free := [], fresh := 0 } [] := ⟨List.nodup_nil, by simp⟩
  refine ⟨[], ⟨⟨.nil, ⟨rfl, trivial, List.nodup_nil⟩, ⟨trivial, rfl, 0, rfl⟩, rfl⟩,
    List.Pairwise.nil, ⟨rfl, rfl⟩, hpool.stuffPrealloc, hpool.stuffPrealloc, ?_, ?_,
    List.Pairwise.nil⟩, List.Perm.nil⟩
  · simp
  · simp

end Bucket

end CloudNfs.Hash
