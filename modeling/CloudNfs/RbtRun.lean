import CloudNfs.RbtEnds
import CloudNfs.Run

/-!
# Runs of the red-black tree macros

A tree starts with `RBT_HEAD_INIT` and then goes through any insertions and deletions. What must
hold of it at any time is what `RBT_VERIFY` tests.

* `present` — the abstract tree: which nodes are in it, with which values. A node that is in it is
  not inserted again, and only nodes in it are taken out.
* `exec_sound` — this is so after every sequence of insertions and deletions, all of which end.

`rbt_num_node` is an `unsigned int`, and counts the nodes modulo `2 ^ 32` only.
-/

namespace CloudNfs

open RedBlack RedBlack.RbTree

variable {δ : Type}

/-- One use of a tree. -/
inductive RbtOp where
  /-- `RBT_VALUE(node) = val`, `RBT_FIND` for `val` and `RBT_INSERT` -/
  | insert (node : ℕ) (val : ℤ)
  | unlink (node : ℕ)

/-- The nodes in a tree and their values, after one use of it. -/
def RbtOp.present (nodes : List (ℕ × ℤ)) : RbtOp → Option (List (ℕ × ℤ))
  | .insert a val => if a ∈ nodes.map Prod.fst then none else some ((a, val) :: nodes)
  | .unlink a =>
    if a ∈ nodes.map Prod.fst then some (nodes.filter fun e => e.1 ≠ a) else none

namespace Rbt

variable {t t' : Rbt δ} {T : RbTree ℕ} {a : ℕ} {val : ℤ} {nodes nodes' : List (ℕ × ℤ)} {n : ℕ}
  {xs ys : List ℕ}

/-- `RBT_VALUE(node) = val`. -/
def setValue (t : Rbt δ) (node : ℕ) (val : ℤ) : Rbt δ :=
  t.modify node fun n => { n with value := val }

def use (t : Rbt δ) : RbtOp → Option (Rbt δ)
  | .insert a val => do
    let t := t.setValue a val
    let par ← t.find val
    t.insert a par
  | .unlink a => t.unlink a

/-- `RBT_LOOP` with `RBT_INCREMENT`: the nodes that the loop comes to. -/
def loop (t : Rbt δ) : ℕ → Option ℕ → Option (List ℕ)
  | _, none => some []
  | 0, some _ => none
  | n + 1, some it => do
    let next ← t.increment it
    let its ← t.loop n next
    return it :: its

/-- What holds of a tree with these nodes. -/
structure Sound (t : Rbt δ) (nodes : List (ℕ × ℤ)) : Prop where
  /-- a balanced tree, linked as it should be, with the nodes in the order of their values; the
  header points to both ends, and `RBT_LOOP` comes to every node once -/
  tree : ∃ T : RbTree ℕ, t.Represents T ∧ T.Balanced ∧ Sorted t.mem T.toList ∧
    (T.toList.map fun a => (a, (t.mem a).value)).Perm nodes ∧ t.Ends T.toList ∧
    t.loop t.numNode t.leftmost = some T.toList
  /-- `rbt_num_node`, an `unsigned int`, is the number of nodes -/
  counts : t.Counts nodes.length

/-! ## The walk -/

theorem loop_spec (h : Represents t T) (hn : T.toList.length ≤ t.numNode)
    (hlist : T.toList = xs ++ ys) (hys : ys.length ≤ n) : t.loop n ys.head? = some ys := by
  induction ys generalizing xs n with
  | nil =>
    cases n <;> rfl
  | cons y ys ih =>
    obtain ⟨n, rfl⟩ : ∃ m, n = m + 1 := ⟨n - 1, by simp only [List.length_cons] at hys; omega⟩
    have hnext : t.increment y = some ys.head? := increment_spec h hn hlist
    have hrest : t.loop n ys.head? = some ys :=
      ih (hlist.trans (List.append_cons xs y ys)) (by simpa using hys)
    simp [loop, hnext, hrest]

/-! ## One use -/

theorem sound_of_holds {list : List ℕ} (hholds : Holds t list) (hends : t.Ends list)
    (hsorted : Sorted t.mem list) (hperm : (list.map fun a => (a, (t.mem a).value)).Perm nodes)
    (hnum : t.Counts nodes.length) : t.Sound nodes := by
  obtain ⟨T, hrep, hbal, rfl⟩ := hholds
  have hlen : T.toList.length = t.numNode := by
    rw [hnum.1, ← hperm.length_eq, List.length_map]
  refine ⟨⟨T, hrep, hbal, hsorted, hperm, hends, ?_⟩, hnum⟩
  rw [hends.leftmost]
  exact loop_spec hrep (Nat.le_of_eq hlen) (List.nil_append _).symm (Nat.le_of_eq hlen)

theorem sound_headInit (mem : ℕ → RbtNode δ) : (headInit mem).Sound [] :=
  sound_of_holds ⟨nil, ⟨rfl, trivial, List.nodup_nil⟩, ⟨trivial, rfl, 0, rfl⟩, rfl⟩ ⟨rfl, rfl⟩
    List.Pairwise.nil (List.Perm.refl _) ⟨rfl, rfl⟩

theorem Sound.insert (h : t.Sound nodes) (ha : a ∉ nodes.map Prod.fst) :
    ∃ t', t.use (.insert a val) = some t' ∧ t'.Sound ((a, val) :: nodes) := by
  obtain ⟨⟨T, hrep, hbal, hsorted, hperm, hends, -⟩, hnum⟩ := h
  have haT : a ∉ T.toList := fun hmem => by
    refine ha ((hperm.map Prod.fst).mem_iff.mp ?_)
    simpa using hmem
  have hlen : T.toList.length ≤ t.numNode := by
    rw [hnum.1, ← hperm.length_eq, List.length_map]
  -- the value of the new node is written first
  have hmem : ∀ b ∈ T.toList, (t.setValue a val).mem b = t.mem b := fun b hb =>
    mem_modify.trans (if_neg fun hba : b = a => haT (hba ▸ hb))
  have hval : ((t.setValue a val).mem a).value = val := by
    rw [setValue, mem_modify, if_pos rfl]
  have hrep1 : (t.setValue a val).Represents T := hrep.frame rfl hmem
  have hsorted1 : Sorted (t.setValue a val).mem T.toList :=
    hsorted.imp_of_mem fun hb hc hle => by rwa [hmem _ hb, hmem _ hc]
  obtain ⟨par, hpar, hfound⟩ : ∃ par, (t.setValue a val).find ((t.setValue a val).mem a).value =
      some par ∧ Found (t.setValue a val).mem ((t.setValue a val).mem a).value T par :=
    find_spec hrep1 hsorted1 hlen
  obtain ⟨t', xs, ys, ht', hlist, hholds, hends', ⟨hle, hge⟩, hdata⟩ :=
    insert_ends hrep1 hbal hsorted1 ⟨hends.leftmost, hends.rightmost⟩ hlen haT hfound
  rw [hval] at hpar
  have hsame : ∀ b, (t'.mem b).value = ((t.setValue a val).mem b).value := fun b =>
    (hdata.data b).1
  refine ⟨t', ?_, sound_of_holds hholds hends' ?_ ?_ ?_⟩
  · simp only [use, hpar, Option.bind_eq_bind, Option.bind_some, ht']
  · rw [hlist, Sorted, List.pairwise_append] at hsorted1
    simp only [Sorted, hsame, List.pairwise_append, List.pairwise_cons, List.mem_cons]
    refine ⟨hsorted1.1, ⟨hge, hsorted1.2.1⟩, ?_⟩
    rintro b hb c (rfl | hc)
    · exact hle b hb
    · exact hsorted1.2.2 b hb c hc
  · have hmap : (xs ++ a :: ys).map (fun b => (b, (t'.mem b).value)) =
        (xs ++ a :: ys).map fun b => (b, ((t.setValue a val).mem b).value) := by
      simp only [hsame]
    have hold : (T.toList.map fun b => (b, ((t.setValue a val).mem b).value)) =
        T.toList.map fun b => (b, (t.mem b).value) := by
      refine List.map_congr_left fun b hb => ?_
      rw [hmem b hb]
    rw [hmap]
    refine (List.perm_middle.map _).trans ?_
    rw [List.map_cons, hval, ← hlist, hold]
    exact hperm.cons _
  · have hcount : (t.setValue a val).Counts nodes.length := hnum
    exact hcount.added hdata

theorem Sound.unlink (h : t.Sound nodes) (ha : a ∈ nodes.map Prod.fst) :
    ∃ t', t.use (.unlink a) = some t' ∧ t'.Sound (nodes.filter fun e => e.1 ≠ a) := by
  obtain ⟨⟨T, hrep, hbal, hsorted, hperm, hends, -⟩, hnum⟩ := h
  have haT : a ∈ T.toList := by
    have := (hperm.map Prod.fst).mem_iff.mpr ha
    simpa using this
  have hlen : T.toList.length = t.numNode := by
    rw [hnum.1, ← hperm.length_eq, List.length_map]
  obtain ⟨xs, ys, hlist⟩ := List.append_of_mem haT
  have hnodup := hrep.nodup
  rw [hlist] at hsorted hperm hends hlen hnodup
  have hholds : Holds t (xs ++ a :: ys) := ⟨T, hrep, hbal, hlist⟩
  obtain ⟨t', ht', hholds', hdata⟩ := unlink_spec hholds (Nat.le_of_eq hlen)
  have hends' := unlink_ends hholds hends (Nat.le_of_eq hlen) ht'
  have hsame : ∀ b, (t'.mem b).value = (t.mem b).value := fun b => (hdata.data b).1
  -- the other nodes
  have hne : ∀ b ∈ xs ++ ys, b ≠ a := by
    intro b hb hba
    have := (List.perm_middle.nodup_iff.mp hnodup)
    exact (List.nodup_cons.mp this).1 (hba ▸ hb)
  have hrest : ((xs ++ a :: ys).map fun b => (b, (t.mem b).value)).filter (fun e => e.1 ≠ a) =
      (xs ++ ys).map fun b => (b, (t.mem b).value) := by
    rw [List.filter_map, List.filter_append, List.filter_cons_of_neg (by simp),
      ← List.filter_append]
    refine congrArg (List.map _) (List.filter_eq_self.mpr fun b hb => ?_)
    simpa using hne b hb
  have hperm' : ((xs ++ ys).map fun b => (b, (t'.mem b).value)).Perm
      (nodes.filter fun e => e.1 ≠ a) := by
    simp only [hsame]
    rw [← hrest]
    exact hperm.filter _
  refine ⟨t', ht', sound_of_holds hholds' hends' ?_ hperm' ?_⟩
  · simp only [Sorted, hsame]
    exact hsorted.sublist (List.Sublist.append_left (List.sublist_cons_self a ys) xs)
  · have hcount : nodes.length = (nodes.filter fun e => e.1 ≠ a).length + 1 := by
      rw [← hnum.1, ← hlen, ← hperm'.length_eq, List.length_map, List.perm_middle.length_eq,
        List.length_cons]
    exact Counts.dropped (hcount ▸ hnum) hdata

theorem sound_exec (mem : ℕ → RbtNode δ) (ops : List RbtOp)
    (h : exec RbtOp.present [] ops = some nodes) :
    ∃ t, exec use (headInit mem) ops = some t ∧ t.Sound nodes := by
  refine exec_simulates (R := Sound) (fun t nodes op nodes' hsound hop => ?_)
    (sound_headInit mem) h
  cases op with
  | insert a val =>
    simp only [RbtOp.present] at hop
    split at hop
    · cases hop
    · rename_i ha
      cases hop
      exact hsound.insert ha
  | unlink a =>
    simp only [RbtOp.present] at hop
    split at hop
    · rename_i ha
      cases hop
      exact hsound.unlink ha
    · cases hop

/-- **The macros keep all the invariants**: after any insertions, of any values, and deletions of
nodes that are in the tree. -/
theorem exec_sound (mem : ℕ → RbtNode δ) (ops : List RbtOp)
    (h : exec RbtOp.present [] ops = some nodes) :
    ∃ t, exec use (headInit mem) ops = some t ∧ t.Sound nodes :=
  sound_exec mem ops h

/-- Three nodes go in, two of them with the same value, and the one with two children comes out. -/
theorem exec_sound_equal : ∃ t : Rbt Unit, exec use (headInit fun _ => ⟨false, .root, none, none,
      none, 0, ()⟩) [.insert 0 5, .insert 1 5, .insert 2 7, .unlink 0] = some t ∧
    t.Sound [(2, 7), (1, 5)] :=
  exec_sound _ _ (by decide)

/-- The nodes below `n`, all with the same value. -/
def insertEqual (n : ℕ) : List RbtOp := (List.range n).map fun a => .insert a 0

theorem present_insertEqual (n : ℕ) :
    ∃ nodes, exec RbtOp.present [] (insertEqual n) = some nodes ∧ nodes.length = n ∧
      ∀ a ∈ nodes.map Prod.fst, a < n := by
  induction n with
  | zero => exact ⟨[], rfl, rfl, nofun⟩
  | succ n ih =>
    obtain ⟨nodes, hnodes, hlen, hlt⟩ := ih
    have hnew : n ∉ nodes.map Prod.fst := fun hn => Nat.lt_irrefl n (hlt n hn)
    refine ⟨(n, 0) :: nodes, ?_, congrArg (· + 1) hlen, fun a ha => ?_⟩
    · rw [insertEqual, List.range_succ, List.map_append, exec_append]
      rw [insertEqual] at hnodes
      rw [hnodes, Option.bind_some, List.map_singleton, exec_cons, RbtOp.present, if_neg hnew]
      rfl
    · rcases List.mem_cons.mp ha with rfl | ha
      · exact Nat.lt_succ_self _
      · exact Nat.lt_succ_of_lt (hlt a ha)

/-- **`rbt_num_node` wraps**: after `2 ^ 32` insertions it is `0`. -/
theorem not_rbtNumNode_length : ¬ ∀ (t : Rbt Unit) (nodes : List (ℕ × ℤ)),
    exec RbtOp.present [] (insertEqual (2 ^ 32)) = some nodes →
    exec use (headInit fun _ => ⟨false, .root, none, none, none, 0, ()⟩) (insertEqual (2 ^ 32)) =
      some t → t.rbtNumNode.toNat = nodes.length := by
  intro h
  obtain ⟨nodes, hnodes, hlen, -⟩ := present_insertEqual (2 ^ 32)
  obtain ⟨t, ht, hsound⟩ := sound_exec _ _ hnodes
  have hcount := h t nodes hnodes ht
  rw [hsound.counts.2, hlen, UInt32.toNat_ofNat', Nat.mod_self] at hcount
  cases hcount

end Rbt
end CloudNfs
