import CloudNfs.DoublyLinked
import CloudNfs.RootedTree
import Mathlib.Data.Finset.Card

/-!
# The pseudo file system (`NFS_Protocols/nfs4_pseudo.c`)

The pseudo file system has a directory for each part of the pseudo paths of the exports. It is built
once, from the list of exports: the tokens of a path are looked up from the root on, and a directory
that is not there is added behind its siblings. Each directory has a number, under which it is found
in a table.

* `built_iff` — it is built exactly when the paths are well formed and different, and there are not
  too many prefixes.

Nodes are numbered in the order in which memory is allocated for them, and there is enough of it.
`fullname` is left out, which is only copied.
-/

namespace CloudNfs.PseudoFs

open Function (update update_self update_of_ne)

open DoublyLinked

/-! ## Data -/

abbrev Name := List UInt8

/-- `exportlist_t`. -/
structure Export where
  /-- `EXPORT_OPTION_PSEUDO` in `options` -/
  pseudo : Bool
  /-- `pseudopath`, without the zero at its end -/
  pseudopath : List UInt8

def nbTokPath : ℕ := 20

def maxNamLen : ℕ := 255

def maxPseudoEntry : ℕ := 100

/-- `pseudofs_entry_t`; pointers are numbers of nodes, and exports are known by their places in the
list. -/
structure Entry where
  name : Name
  pseudoId : ℕ
  junctionExport : Option ℕ
  sons : Option ℕ
  parent : ℕ
  next : Option ℕ
  last : Option ℕ
  deriving DecidableEq

/-- `pseudofs_t`, and the nodes in memory. The root is node `0`. -/
structure Tree where
  entries : ℕ → Entry
  /-- how many there are -/
  count : ℕ
  lastPseudoId : ℕ
  reverseTab : ℕ → Option ℕ

/-! ## The tokens of a path -/

def findSlash (c : UInt8) : Bool := c = 47

/-- `find_endLine`; a zero is the end of the list. -/
def findEndLine (c : UInt8) : Bool := c = 10

/-- A blank in front of a token. -/
def isBlank (c : UInt8) : Bool := c = 32 || c = 9

/-- `nfs_ParseConfLine` with `find_slash` and `find_endLine`: the tokens that were written, and
whether the result is their number. There are `n` more places for tokens. -/
def parseConfLine : ℕ → List Name → List UInt8 → List Name × Bool
  | 0, argv, _ => (argv, false)
  | n + 1, argv, line =>
    if line = [] then (argv, true)
    else
      let p1 := line.dropWhile isBlank
      let token := p1.takeWhile fun c => !(findSlash c || findEndLine c)
      match p1.drop token.length with
      | [] => (argv ++ [token], true)
      | c :: rest =>
        if findEndLine c then (argv ++ [token], true)
        else parseConfLine n (argv ++ [token]) rest

def Export.tokens (e : Export) : List Name × Bool := parseConfLine nbTokPath [] e.pseudopath

/-- The names of the directories of a path; what is in front of the first slash is no name. -/
def Export.names (e : Export) : List Name := e.tokens.1.tail

/-! ## The tree -/

/-- `PseudoFs->root` and the table before the loop. -/
def emptyTree : Tree where
  entries _ := ⟨[47], 0, none, none, 0, none, none⟩
  count := 1
  lastPseudoId := 0
  reverseTab _ := none

/-- The loop that looks for a name among siblings. A list has no more nodes than there are. -/
def findSon (entries : ℕ → Entry) (name : Name) : ℕ → Option ℕ → Option ℕ
  | 0, _ => none
  | _, none => none
  | fuel + 1, some iter =>
    if (entries iter).name = name then some iter
    else findSon entries name fuel (entries iter).next

def Tree.modify (t : Tree) (p : ℕ) (f : Entry → Entry) : Tree :=
  { t with entries := update t.entries p (f (t.entries p)) }

def attach (t : Tree) (current new : ℕ) : Option Tree :=
  match (t.entries current).sons with
  | none => some (t.modify current fun e => { e with sons := some new })
  | some first =>
    match (t.entries first).last with
    | none => none
    | some last =>
      some ((t.modify last fun e => { e with next := some new }).modify first fun e =>
        { e with last := some new })

/-- A token: a directory is found, or it is added. There is no tree when `reverse_tab` is full. -/
def addToken (t : Tree) (current : ℕ) (token : Name) : Option (Tree × ℕ) :=
  match findSon t.entries token t.count (t.entries current).sons with
  | some son => some (t, son)
  | none =>
    let id := t.lastPseudoId + 1
    if id < maxPseudoEntry then
      let new := t.count
      let t : Tree :=
        { entries := update t.entries new ⟨token, id, none, none, current, none, some new⟩
          count := t.count + 1
          lastPseudoId := id
          reverseTab := update t.reverseTab id (some new) }
      (attach t current new).map fun t => (t, new)
    else none

/-- The loop over the tokens of a path. -/
def addTokens : Tree → ℕ → List Name → Option (Tree × ℕ)
  | t, current, [] => some (t, current)
  | t, current, token :: tokens =>
    match addToken t current token with
    | some (t, current) => addTokens t current tokens
    | none => none

inductive Outcome where
  | running
  /-- something was written outside of its array -/
  | outside
  | done (t : Tree)

/-- The loop of `nfs4_ExportToPseudoFS`, for some turns. A path that is badly formed is looked at
again. -/
def exportLoop : ℕ → ℕ → List Export → Tree → Outcome
  | _, _, [], t => .done t
  | 0, _, _ :: _, _ => .running
  | fuel + 1, i, entry :: exports, t =>
    let t := { t with reverseTab := update t.reverseTab 0 (some 0) }
    if entry.pseudo then
      let (tokens, ok) := entry.tokens
      if tokens.any fun token => maxNamLen ≤ token.length then .outside
      else if ok = false then exportLoop fuel i (entry :: exports) t
      else if entry.pseudopath.head? ≠ some 47 then exportLoop fuel i (entry :: exports) t
      else
        match addTokens t 0 tokens.tail with
        | none => .outside
        | some (t, current) =>
          exportLoop fuel (i + 1) exports
            (t.modify current fun e => { e with junctionExport := some i })
    else exportLoop fuel (i + 1) exports t

/-- `nfs4_ExportToPseudoFS`, for some turns of its loop. -/
def exportToPseudoFs (fuel : ℕ) (exports : List Export) : Outcome :=
  exportLoop fuel 0 exports emptyTree

/-! ## The property -/

def Tree.Son (t : Tree) (p q : ℕ) : Prop :=
  p < t.count ∧ ∃ l, Chain (fun x => (t.entries x).next) (t.entries p).sons l ∧ q ∈ l

/-- A node is a son with a name. -/
def Tree.Edge (t : Tree) (p : ℕ) (name : Name) (q : ℕ) : Prop :=
  t.Son p q ∧ (t.entries q).name = name

/-- A path is well formed. -/
def Export.WellFormed (e : Export) : Prop := e.tokens.2 = true ∧ e.pseudopath.head? = some 47

instance (e : Export) : Decidable e.WellFormed := inferInstanceAs (Decidable (_ ∧ _))

/-- **The tree of the export paths.** -/
structure TreeOfPaths (exports : List Export) (t : Tree) : Prop where
  tree : RootedTree {p | p < t.count} 0 t.Edge
  /-- its lists end, and no node is there twice -/
  lists : ∀ p < t.count, ∃ l, Chain (fun x => (t.entries x).next) (t.entries p).sons l ∧ l.Nodup
  /-- the sons of a node are those whose parent it is -/
  parent : ∀ p < t.count, ∀ q, t.Son p q ↔ q < t.count ∧ q ≠ 0 ∧ (t.entries q).parent = p
  siblings : ∀ p q q', t.Son p q → t.Son p q' → (t.entries q).name = (t.entries q').name → q = q'
  /-- there is a node for every prefix of a path, and for nothing else -/
  nodes : ∀ names, names ≠ [] → ((∃ q, Path t.Edge 0 names.reverse q) ↔
    ∃ e ∈ exports, e.pseudo = true ∧ e.WellFormed ∧ names <+: e.names)
  unique : ∀ names q q', Path t.Edge 0 names q → Path t.Edge 0 names q' → q = q'
  /-- the table has the nodes under their numbers -/
  ids : ∀ p < t.count, (t.entries p).pseudoId < maxPseudoEntry ∧
    t.reverseTab (t.entries p).pseudoId = some p
  distinct : ∀ p < t.count, ∀ q < t.count, (t.entries p).pseudoId = (t.entries q).pseudoId → p = q
  /-- at the end of the path of an export there is the export -/
  junction : ∀ i e, exports[i]? = some e → e.pseudo = true → e.WellFormed →
    ∃ q, Path t.Edge 0 e.names.reverse q ∧ (t.entries q).junctionExport = some i

/-- `nfs4_ExportToPseudoFS` ends without writing outside of its arrays, with the tree of the
paths. -/
def Builds (exports : List Export) : Prop :=
  ∃ fuel t, exportToPseudoFs fuel exports = .done t ∧ TreeOfPaths exports t

/-! ## When it holds -/

/-- The prefixes of the paths, with the empty one. -/
def prefixes (exports : List Export) : Finset (List Name) :=
  insert [] ((exports.filter fun e => e.pseudo).flatMap fun e => e.names.inits).toFinset

/-- There is an export. Every pseudo path is well formed, its tokens are shorter than `MAXNAMLEN`,
and it is not the path of another export. They have fewer than `MAX_PSEUDO_ENTRY` prefixes that are
not empty. -/
structure Buildable (exports : List Export) : Prop where
  nonempty : exports ≠ []
  wellFormed : ∀ e ∈ exports, e.pseudo = true → e.WellFormed
  short : ∀ e ∈ exports, e.pseudo = true → ∀ token ∈ e.tokens.1, token.length < maxNamLen
  different : ((exports.filter fun e => e.pseudo).map Export.names).Nodup
  /-- there are not too many prefixes -/
  few : (prefixes exports).card ≤ maxPseudoEntry

/-! ## The invariant -/

section

variable {t t' : Tree} {S S' : ℕ → List ℕ} {P P' : List (List Name)} {p q cur : ℕ}
  {name : Name} {ns : List Name}

/-- **The invariant** of a tree: `S` are the lists of sons, and `P` the paths of the nodes. -/
structure Inv (t : Tree) (S : ℕ → List ℕ) (P : List (List Name)) : Prop where
  length : P.length = t.count
  nodup : P.Nodup
  path : ∀ {q names}, P[q]? = some names → Path t.Edge 0 names.reverse q
  tree : RootedTree {p | p < t.count} 0 t.Edge
  chain : ∀ p < t.count, Chain (fun x => (t.entries x).next) (t.entries p).sons (S p)
  sonsNodup : ∀ p < t.count, (S p).Nodup
  mem : ∀ p < t.count, ∀ q, q ∈ S p ↔ q < t.count ∧ q ≠ 0 ∧ (t.entries q).parent = p
  parent_lt : ∀ q < t.count, q ≠ 0 → (t.entries q).parent < t.count
  last : ∀ p < t.count, ∀ first, (t.entries p).sons = some first →
    (t.entries first).last = (S p).getLast?
  siblings : ∀ p < t.count, ∀ q ∈ S p, ∀ q' ∈ S p, (t.entries q).name = (t.entries q').name → q = q'
  lastId : t.lastPseudoId + 1 = t.count
  le : t.count ≤ maxPseudoEntry
  id : ∀ p < t.count, (t.entries p).pseudoId = p
  table : ∀ p < t.count, p ≠ 0 → t.reverseTab p = some p
  empty : ∀ p, t.count ≤ p → t.reverseTab p = none

theorem son_iff
    (hchain : ∀ p < t.count, Chain (fun x => (t.entries x).next) (t.entries p).sons (S p)) :
    t.Son p q ↔ p < t.count ∧ q ∈ S p := by
  constructor
  · rintro ⟨hp, l, hl, hq⟩
    rw [hl.eq (hchain p hp)] at hq
    exact ⟨hp, hq⟩
  · exact fun ⟨hp, hq⟩ => ⟨hp, S p, hchain p hp, hq⟩

theorem Inv.son (h : Inv t S P) : t.Son p q ↔ p < t.count ∧ q ∈ S p := son_iff h.chain

theorem Inv.edge (h : Inv t S P) :
    t.Edge p name q ↔ p < t.count ∧ q ∈ S p ∧ (t.entries q).name = name := by
  rw [Tree.Edge, h.son, and_assoc]

theorem Inv.label (h : Inv t S P) {q' : ℕ} (hq : t.Edge p name q) (hq' : t.Edge p name q') :
    q = q' := by
  obtain ⟨hp, hmem, hname⟩ := h.edge.mp hq
  obtain ⟨-, hmem', hname'⟩ := h.edge.mp hq'
  exact h.siblings p hp q hmem q' hmem' (hname.trans hname'.symm)

theorem Inv.path_iff (h : Inv t S P) : Path t.Edge 0 ns.reverse q ↔ P[q]? = some ns := by
  refine ⟨fun hpath => ?_, h.path⟩
  have hq : q < t.count := by
    cases hlist : ns.reverse with
    | nil =>
      rw [hlist] at hpath
      cases hpath
      exact h.tree.root
    | cons name names =>
      rw [hlist] at hpath
      cases hpath with
      | step _ hedge => exact h.tree.target hedge
  cases hnames : P[q]? with
  | none =>
    rw [List.getElem?_eq_none_iff, h.length] at hnames
    exact absurd hq (Nat.not_lt.mpr hnames)
  | some names =>
    have heq := h.tree.path_unique hpath (h.path hnames)
    rw [List.reverse_injective heq]

/-- What the invariant looks at. -/
structure SameTree (t t' : Tree) : Prop where
  entries : ∀ p, t'.entries p = { t.entries p with junctionExport := (t'.entries p).junctionExport }
  count : t'.count = t.count
  lastPseudoId : t'.lastPseudoId = t.lastPseudoId
  reverseTab : ∀ p ≠ 0, t'.reverseTab p = t.reverseTab p

theorem Inv.congr (h : Inv t S P) (hsame : SameTree t t') : Inv t' S P := by
  have hname : ∀ p, (t'.entries p).name = (t.entries p).name := fun p => by rw [hsame.entries p]
  have hsons : ∀ p, (t'.entries p).sons = (t.entries p).sons := fun p => by rw [hsame.entries p]
  have hparent : ∀ p, (t'.entries p).parent = (t.entries p).parent :=
    fun p => by rw [hsame.entries p]
  have hlast : ∀ p, (t'.entries p).last = (t.entries p).last := fun p => by rw [hsame.entries p]
  have hid : ∀ p, (t'.entries p).pseudoId = (t.entries p).pseudoId :=
    fun p => by rw [hsame.entries p]
  have hnext : (fun x => (t'.entries x).next) = fun x => (t.entries x).next :=
    funext fun p => by rw [hsame.entries p]
  have hedge : t'.Edge = t.Edge := by
    funext p name q
    rw [Tree.Edge, Tree.Edge, Tree.Son, Tree.Son, hnext, hsons, hsame.count, hname]
  have hcount := hsame.count
  refine ⟨hcount ▸ h.length, h.nodup, fun hq => ?_, ?_, fun p hp => ?_,
    fun p hp => h.sonsNodup p (hcount ▸ hp), fun p hp q => ?_, fun q hq hne => ?_,
    fun p hp first hfirst => ?_, fun p hp q hq q' hq' heq => ?_, ?_, hcount ▸ h.le, fun p hp => ?_,
    fun p hp hne => ?_, fun p hp => ?_⟩
  · rw [hedge]
    exact h.path hq
  · rw [hedge, hcount]
    exact h.tree
  · rw [hnext, hsons]
    exact h.chain p (hcount ▸ hp)
  · rw [hcount, hparent]
    exact h.mem p (hcount ▸ hp) q
  · rw [hcount, hparent]
    exact h.parent_lt q (hcount ▸ hq) hne
  · rw [hlast]
    exact h.last p (hcount ▸ hp) first (hsons p ▸ hfirst)
  · rw [hname, hname] at heq
    exact h.siblings p (hcount ▸ hp) q hq q' hq' heq
  · rw [hsame.lastPseudoId, hcount]
    exact h.lastId
  · rw [hid]
    exact h.id p (hcount ▸ hp)
  · rw [hsame.reverseTab p hne]
    exact h.table p (hcount ▸ hp) hne
  · rw [hcount] at hp
    have hne : p ≠ 0 := by
      rintro rfl
      exact absurd h.tree.root (Nat.not_lt.mpr hp)
    rw [hsame.reverseTab p hne]
    exact h.empty p hp

theorem inv_emptyTree : Inv emptyTree (fun _ => []) [[]] := by
  have hedge : ∀ {p name q}, ¬ emptyTree.Edge p name q := by
    rintro p name q ⟨⟨-, l, hl, hq⟩, -⟩
    have hnil : Chain (fun x => (emptyTree.entries x).next) (emptyTree.entries p).sons [] := rfl
    rw [hl.eq hnil] at hq
    cases hq
  have hzero : ∀ {q}, q < emptyTree.count → q = 0 := fun hq => Nat.lt_one_iff.mp hq
  refine ⟨rfl, List.nodup_singleton _, fun {q names} hq => ?_, ⟨Nat.one_pos, ?_, ?_, ?_, ?_, ?_⟩,
    fun _ _ => rfl, fun _ _ => List.nodup_nil, fun p _ q => ?_, fun q hq hne => ?_,
    fun _ _ _ => nofun, fun _ _ _ => nofun, rfl, by decide, fun p hp => (hzero hp).symm,
    fun p hp hne => absurd (hzero hp) hne, fun _ _ => rfl⟩
  · obtain ⟨hlt, rfl⟩ := List.getElem?_eq_some_iff.mp hq
    obtain rfl : q = 0 := Nat.lt_one_iff.mp hlt
    exact .nil
  · exact fun h => absurd h hedge
  · exact fun h => absurd h hedge
  · exact hedge
  · exact fun h => absurd h hedge
  · rintro w hw
    obtain rfl := hzero hw
    exact ⟨[], .nil⟩
  · refine iff_of_false nofun ?_
    rintro ⟨hq, hne, -⟩
    exact hne (hzero hq)
  · exact absurd (hzero hq) hne

/-! ## A token -/

theorem findSon_eq {entries : ℕ → Entry} {first : Option ℕ} {l : List ℕ}
    (hchain : Chain (fun x => (entries x).next) first l) {fuel : ℕ} (hfuel : l.length ≤ fuel) :
    findSon entries name fuel first = l.find? fun q => decide ((entries q).name = name) := by
  induction l generalizing first fuel with
  | nil =>
    obtain rfl : first = none := hchain
    cases fuel <;> rfl
  | cons q l ih =>
    obtain ⟨rfl, hrest⟩ := hchain
    obtain ⟨n, rfl⟩ : ∃ n, fuel = n + 1 := ⟨fuel - 1, by rw [List.length_cons] at hfuel; omega⟩
    rw [findSon, List.find?_cons]
    by_cases hname : (entries q).name = name
    · rw [if_pos hname, decide_eq_true hname]
    · rw [if_neg hname, decide_eq_false hname]
      exact ih hrest (Nat.le_of_succ_le_succ hfuel)

structure Added (t : Tree) (S : ℕ → List ℕ) (cur : ℕ) (name : Name) (t' : Tree) : Prop where
  count : t'.count = t.count + 1
  lastPseudoId : t'.lastPseudoId = t.lastPseudoId + 1
  reverseTab : t'.reverseTab = update t.reverseTab (t.lastPseudoId + 1) (some t.count)
  new : t'.entries t.count = ⟨name, t.lastPseudoId + 1, none, none, cur, none, some t.count⟩
  old : ∀ p ≠ t.count, t'.entries p = { t.entries p with
    sons := if p = cur ∧ S cur = [] then some t.count else (t.entries p).sons
    next := if (S cur).getLast? = some p then some t.count else (t.entries p).next
    last := if (t.entries cur).sons = some p then some t.count else (t.entries p).last }

theorem Inv.lt_of_mem (h : Inv t S P) (hp : p < t.count) (hq : q ∈ S p) : q < t.count :=
  ((h.mem p hp q).mp hq).1

theorem Inv.length_le (h : Inv t S P) (hp : p < t.count) : (S p).length ≤ t.count := by
  have hsub : S p ⊆ List.range t.count := fun q hq => List.mem_range.mpr (h.lt_of_mem hp hq)
  have hle := (List.subperm_of_subset (h.sonsNodup p hp) hsub).length_le
  rwa [List.length_range] at hle

variable {first new : ℕ} {names tokens : List Name} {F : Finset (List Name)}

theorem Inv.cons_of_sons (h : Inv t S P) (hp : p < t.count)
    (hfirst : (t.entries p).sons = some first) : ∃ l, S p = first :: l := by
  have hchain := h.chain p hp
  rw [hfirst] at hchain
  cases hlist : S p with
  | nil =>
    rw [hlist] at hchain
    cases hchain
  | cons a l =>
    rw [hlist] at hchain
    cases hchain.1
    exact ⟨l, rfl⟩

theorem Inv.mem_of_sons (h : Inv t S P) (hp : p < t.count)
    (hfirst : (t.entries p).sons = some first) : first ∈ S p := by
  obtain ⟨l, hl⟩ := h.cons_of_sons hp hfirst
  rw [hl]
  exact .head _

theorem Inv.addToken_new (h : Inv t S P) (hcur : cur < t.count)
    (hnone : ∀ q ∈ S cur, (t.entries q).name ≠ name) (hlt : t.count < maxPseudoEntry) :
    ∃ t', addToken t cur name = some (t', t.count) ∧ Added t S cur name t' := by
  have hfind : findSon t.entries name t.count (t.entries cur).sons = none := by
    rw [findSon_eq (h.chain cur hcur) (h.length_le hcur), List.find?_eq_none]
    intro q hq
    simpa using hnone q hq
  have hid : t.lastPseudoId + 1 < maxPseudoEntry := h.lastId ▸ hlt
  have hne : cur ≠ t.count := Nat.ne_of_lt hcur
  rw [addToken, hfind]
  dsimp only
  rw [if_pos hid, attach]
  dsimp only
  rw [update_of_ne hne]
  have hchain := h.chain cur hcur
  cases hsons : (t.entries cur).sons with
  | none =>
    have hnil : S cur = [] := by
      rw [hsons] at hchain
      exact hchain.eq rfl
    refine ⟨_, rfl, rfl, rfl, rfl, ?_, fun p hp => ?_⟩
    · simp only [Tree.modify]
      rw [update_of_ne hne.symm, update_self]
    · simp only [Tree.modify, hnil, List.getLast?_nil, reduceCtorEq, if_false, and_true]
      by_cases hpc : p = cur
      · subst hpc
        rw [update_self, update_of_ne hp, if_pos rfl]
        simp only [hsons, reduceCtorEq, if_false]
      · rw [update_of_ne hpc, update_of_ne hp, if_neg hpc]
        simp only [hsons, reduceCtorEq, if_false]
  | some first =>
    -- the list has a first node and a last one
    obtain ⟨l, hl⟩ := h.cons_of_sons hcur hsons
    obtain ⟨z, hz⟩ : ∃ z, (S cur).getLast? = some z := by
      rw [hl]
      exact ⟨_, List.getLast?_eq_some_getLast (List.cons_ne_nil first l)⟩
    have hfirst : first ≠ t.count := Nat.ne_of_lt (h.lt_of_mem hcur (h.mem_of_sons hcur hsons))
    have hzne : z ≠ t.count := Nat.ne_of_lt (h.lt_of_mem hcur (List.mem_of_getLast? hz))
    have hlast : (t.entries first).last = some z := (h.last cur hcur first hsons).trans hz
    dsimp only
    rw [update_of_ne hfirst, hlast]
    refine ⟨_, rfl, rfl, rfl, rfl, ?_, fun p hp => ?_⟩
    · simp only [Tree.modify]
      rw [update_of_ne hfirst.symm, update_of_ne hzne.symm, update_self]
    · simp only [Tree.modify, hl, List.cons_ne_nil, and_false, if_false]
      rw [hl] at hz
      by_cases hpf : p = first
      · subst hpf
        by_cases hpz : p = z
        · subst hpz
          simp [hp, hz, hsons]
        · simp [Function.update_apply, hp, hz, hsons, hpz, Ne.symm hpz]
      · by_cases hpz : p = z
        · subst hpz
          simp [Function.update_apply, hp, hz, hsons, hpf, Ne.symm hpf]
        · simp [Function.update_apply, hp, hz, hsons, hpf, hpz, Ne.symm hpf, Ne.symm hpz]

def addSon (S : ℕ → List ℕ) (cur new : ℕ) : ℕ → List ℕ :=
  update (update S cur (S cur ++ [new])) new []

theorem mem_addSon (hp : p ≠ new) : q ∈ addSon S cur new p ↔ q ∈ S p ∨ p = cur ∧ q = new := by
  rw [addSon, update_of_ne hp]
  by_cases hpc : p = cur
  · subst hpc
    rw [update_self, List.mem_append, List.mem_singleton]
    simp
  · rw [update_of_ne hpc]
    simp [hpc]

theorem addSon_new : addSon S cur new new = [] := update_self _ _ _

theorem Inv.chain_added (h : Inv t S P) (hcur : cur < t.count) (ha : Added t S cur name t')
    (hp : p < t'.count) :
    Chain (fun x => (t'.entries x).next) (t'.entries p).sons (addSon S cur t.count p) := by
  by_cases hpn : p = t.count
  · subst hpn
    rw [ha.new, addSon_new]
    rfl
  have hp : p < t.count := by
    have := ha.count
    omega
  rw [ha.old p hpn, addSon, update_of_ne hpn]
  dsimp only
  -- the next node has changed only for the last sibling
  have hnext : ∀ q ∈ S p, (S cur).getLast? ≠ some q →
      (t'.entries q).next = (t.entries q).next := by
    intro q hq hlast
    rw [ha.old q (Nat.ne_of_lt (h.lt_of_mem hp hq))]
    exact if_neg hlast
  by_cases hpc : p = cur
  · subst hpc
    rw [update_self]
    by_cases hnil : S p = []
    · rw [if_pos ⟨rfl, hnil⟩, hnil]
      refine ⟨rfl, ?_⟩
      show (t'.entries t.count).next = none
      rw [ha.new]
    rw [if_neg fun hall => hnil hall.2]
    have hz := List.getLast?_eq_some_getLast hnil
    have hzn : (S p).getLast hnil ≠ t.count :=
      Nat.ne_of_lt (h.lt_of_mem hp (List.getLast_mem hnil))
    apply (h.chain p hp).snoc (h.sonsNodup p hp) hz
    · rw [ha.old _ hzn]
      exact if_pos hz
    · rw [ha.new]
    · intro q hq hqz
      apply hnext q hq
      rw [hz]
      exact fun heq => hqz (Option.some.inj heq).symm
  · rw [update_of_ne hpc, if_neg fun hall => hpc hall.1]
    apply (h.chain p hp).frame
    intro q hq
    apply hnext q hq
    intro hlast
    -- a node has one parent
    have hparent := ((h.mem p hp q).mp hq).2.2
    have hparent' := ((h.mem cur hcur q).mp (List.mem_of_getLast? hlast)).2.2
    exact hpc (hparent.symm.trans hparent')

theorem Inv.edge_added (h : Inv t S P) (hcur : cur < t.count) (ha : Added t S cur name t')
    {label : Name} : t'.Edge p label q ↔
      t.Edge p label q ∨ p = cur ∧ label = name ∧ q = t.count := by
  have hchain : ∀ p < t'.count, Chain (fun x => (t'.entries x).next) (t'.entries p).sons
      (addSon S cur t.count p) := fun p hp => h.chain_added hcur ha hp
  rw [Tree.Edge, son_iff hchain, h.edge, ha.count]
  by_cases hpn : p = t.count
  · subst hpn
    rw [addSon_new]
    refine iff_of_false (fun hall => nomatch hall.1.2) ?_
    rintro (⟨hlt, -⟩ | ⟨heq, -⟩)
    · exact Nat.lt_irrefl _ hlt
    · exact Nat.ne_of_lt hcur heq.symm
  rw [mem_addSon hpn]
  constructor
  · rintro ⟨⟨hp, hq | ⟨rfl, rfl⟩⟩, hname⟩
    · have hp : p < t.count := by omega
      rw [ha.old q (Nat.ne_of_lt (h.lt_of_mem hp hq))] at hname
      exact .inl ⟨hp, hq, hname⟩
    · rw [ha.new] at hname
      exact .inr ⟨rfl, hname.symm, rfl⟩
  · rintro (⟨hp, hq, hname⟩ | ⟨rfl, rfl, rfl⟩)
    · refine ⟨⟨Nat.lt_succ_of_lt hp, .inl hq⟩, ?_⟩
      rw [ha.old q (Nat.ne_of_lt (h.lt_of_mem hp hq))]
      exact hname
    · refine ⟨⟨Nat.lt_succ_of_lt hcur, .inr ⟨rfl, rfl⟩⟩, ?_⟩
      rw [ha.new]

theorem Inv.added (h : Inv t S P) (hcur : P[cur]? = some ns)
    (hnone : ∀ q ∈ S cur, (t.entries q).name ≠ name) (hlt : t.count < maxPseudoEntry)
    (ha : Added t S cur name t') : Inv t' (addSon S cur t.count) (P ++ [ns ++ [name]]) := by
  have hcount : cur < t.count := by
    obtain ⟨hcur, -⟩ := List.getElem?_eq_some_iff.mp hcur
    exact h.length ▸ hcur
  have hedge : ∀ {p label q}, t.Edge p label q ∨ p = cur ∧ label = name ∧ q = t.count ↔
      t'.Edge p label q := fun {_ _ _} => (h.edge_added hcount ha).symm
  have hold : ∀ {q}, q < t'.count → q ≠ t.count → q < t.count := by
    intro q hq hne
    have := ha.count
    omega
  have hpath : Path t'.Edge 0 (name :: ns.reverse) t.count := by
    have hprefix := (h.path hcur).mono fun _ _ _ he => hedge.mp (.inl he)
    exact hprefix.step (hedge.mp (.inr ⟨rfl, rfl, rfl⟩))
  have hmem : ∀ p < t'.count, ∀ q, q ∈ addSon S cur t.count p ↔
      q < t'.count ∧ q ≠ 0 ∧ (t'.entries q).parent = p := by
    intro p hp q
    by_cases hq : q = t.count
    · subst hq
      rw [ha.new]
      dsimp only
      by_cases hpn : p = t.count
      · subst hpn
        rw [addSon_new]
        exact iff_of_false nofun fun hall => Nat.ne_of_lt hcount hall.2.2
      rw [mem_addSon hpn]
      constructor
      · rintro (hq | ⟨rfl, -⟩)
        · exact absurd (h.lt_of_mem (hold hp hpn) hq) (Nat.lt_irrefl _)
        · exact ⟨ha.count ▸ Nat.lt_succ_self _, by omega, rfl⟩
      · rintro ⟨-, -, rfl⟩
        exact .inr ⟨rfl, rfl⟩
    · rw [ha.old q hq]
      dsimp only
      by_cases hpn : p = t.count
      · subst hpn
        rw [addSon_new]
        refine iff_of_false nofun ?_
        rintro ⟨hlt', hne, hparent⟩
        have := h.parent_lt q (hold hlt' hq) hne
        omega
      · rw [mem_addSon hpn, h.mem p (hold hp hpn)]
        constructor
        · rintro (⟨hlt', hne, hparent⟩ | ⟨-, rfl⟩)
          · exact ⟨ha.count ▸ Nat.lt_succ_of_lt hlt', hne, hparent⟩
          · exact absurd rfl hq
        · rintro ⟨hlt', hne, hparent⟩
          exact .inl ⟨hold hlt' hq, hne, hparent⟩
  refine ⟨?_, ?_, fun {q names} hq => ?_, ?_, fun p hp => h.chain_added hcount ha hp,
    fun p hp => ?_, hmem, fun q hq hne => ?_, fun p hp first hfirst => ?_,
    fun p hp q hq q' hq' heq => ?_, ?_, ?_, fun p hp => ?_, fun p hp hne => ?_, fun p hp => ?_⟩
  · rw [List.length_append, h.length, ha.count]
    rfl
  · -- the name is new in the directory
    rw [List.nodup_append]
    refine ⟨h.nodup, List.nodup_singleton _, ?_⟩
    rintro names hnames _ hnew rfl
    obtain rfl := List.mem_singleton.mp hnew
    obtain ⟨q, hq⟩ := List.getElem?_of_mem hnames
    have hold := h.path hq
    rw [List.reverse_append] at hold
    cases hold with
    | step hprefix hedge' =>
      have hlabel : ∀ {v : ℕ} {l : Name} {w w' : ℕ}, t.Edge v l w → t.Edge v l w' → w = w' :=
        fun he he' => h.label he he'
      obtain rfl := Path.target_unique @hlabel hprefix (h.path hcur)
      obtain ⟨-, hmem, hname⟩ := h.edge.mp hedge'
      exact hnone _ hmem hname
  · rcases Nat.lt_or_ge q t.count with hq' | hq'
    · rw [List.getElem?_append_left (h.length ▸ hq')] at hq
      exact (h.path hq).mono fun _ _ _ he => hedge.mp (.inl he)
    · rw [List.getElem?_append_right (h.length ▸ hq'), List.getElem?_singleton] at hq
      split at hq
      next hzero =>
        cases hq
        obtain rfl : q = t.count := by
          rw [h.length] at hzero
          omega
        rw [List.reverse_append]
        exact hpath
      next => cases hq
  · refine (h.tree.insert (x := t.count) (a := name) hcount (Nat.lt_irrefl _)).congr ?_
      fun _ _ _ => hedge
    ext q
    rw [Set.mem_insert_iff, Set.mem_ofPred_eq, Set.mem_ofPred_eq, ha.count]
    omega
  · by_cases hpn : p = t.count
    · subst hpn
      rw [addSon_new]
      exact List.nodup_nil
    · rw [addSon, update_of_ne hpn]
      by_cases hpc : p = cur
      · subst hpc
        rw [update_self]
        refine List.nodup_append.mpr ⟨h.sonsNodup p hcount, List.nodup_singleton _, ?_⟩
        rintro q hq _ hnew rfl
        obtain rfl := List.mem_singleton.mp hnew
        exact absurd (h.lt_of_mem hcount hq) (Nat.lt_irrefl _)
      · rw [update_of_ne hpc]
        exact h.sonsNodup p (hold hp hpn)
  · rw [ha.count]
    by_cases hqn : q = t.count
    · subst hqn
      rw [ha.new]
      exact Nat.lt_succ_of_lt hcount
    · rw [ha.old q hqn]
      exact Nat.lt_succ_of_lt (h.parent_lt q (hold hq hqn) hne)
  · by_cases hpn : p = t.count
    · subst hpn
      rw [ha.new] at hfirst
      cases hfirst
    have hp := hold hp hpn
    rw [ha.old p hpn] at hfirst
    dsimp only at hfirst
    rw [addSon, update_of_ne hpn]
    by_cases hpc : p = cur
    · subst hpc
      rw [update_self, List.getLast?_concat]
      by_cases hnil : S p = []
      · rw [if_pos ⟨rfl, hnil⟩] at hfirst
        cases hfirst
        rw [ha.new]
      rw [if_neg fun hall => hnil hall.2] at hfirst
      have hmem' := h.mem_of_sons hp hfirst
      rw [ha.old first (Nat.ne_of_lt (h.lt_of_mem hp hmem'))]
      exact if_pos hfirst
    · rw [if_neg fun hall => hpc hall.1] at hfirst
      rw [update_of_ne hpc]
      -- the first son of another directory
      have hmem' := h.mem_of_sons hp hfirst
      rw [ha.old first (Nat.ne_of_lt (h.lt_of_mem hp hmem'))]
      dsimp only
      rw [if_neg, h.last p hp first hfirst]
      intro hfirst'
      have hmem'' := h.mem_of_sons hcount hfirst'
      have hparent := ((h.mem p hp first).mp hmem').2.2
      have hparent' := ((h.mem cur hcount first).mp hmem'').2.2
      exact hpc (hparent.symm.trans hparent')
  · by_cases hpn : p = t.count
    · subst hpn
      rw [addSon_new] at hq
      cases hq
    have hp := hold hp hpn
    have hname : ∀ {q}, q ∈ S p → (t'.entries q).name = (t.entries q).name := by
      intro q hq
      rw [ha.old q (Nat.ne_of_lt (h.lt_of_mem hp hq))]
    have hnew : (t'.entries t.count).name = name := by rw [ha.new]
    rcases (mem_addSon hpn).mp hq with hq | ⟨rfl, rfl⟩ <;>
      rcases (mem_addSon hpn).mp hq' with hq' | ⟨hpc, rfl⟩
    · rw [hname hq, hname hq'] at heq
      exact h.siblings p hp q hq q' hq' heq
    · rw [hname hq, hnew] at heq
      exact absurd heq (hnone q (hpc ▸ hq))
    · rw [hname hq', hnew] at heq
      exact absurd heq.symm (hnone q' hq')
    · rfl
  · rw [ha.lastPseudoId, ha.count, h.lastId]
  · rw [ha.count]
    exact hlt
  · by_cases hpn : p = t.count
    · subst hpn
      rw [ha.new]
      exact h.lastId
    · rw [ha.old p hpn]
      exact h.id p (hold hp hpn)
  · rw [ha.reverseTab, h.lastId]
    by_cases hpn : p = t.count
    · subst hpn
      exact update_self _ _ _
    · rw [update_of_ne hpn]
      exact h.table p (hold hp hpn) hne
  · rw [ha.count] at hp
    rw [ha.reverseTab, h.lastId, update_of_ne (Nat.ne_of_gt hp)]
    exact h.empty p (Nat.le_of_succ_le hp)

/-- What stays when directories are added. -/
structure Extends (t : Tree) (P : List (List Name)) (t' : Tree) (P' : List (List Name)) :
    Prop where
  paths : P <+: P'
  junction : ∀ p < t.count, (t'.entries p).junctionExport = (t.entries p).junctionExport
  root : t'.reverseTab 0 = t.reverseTab 0

theorem Extends.refl : Extends t P t P := ⟨List.prefix_rfl, fun _ _ => rfl, rfl⟩

theorem Extends.trans {t'' : Tree} {P'' : List (List Name)} (h : Extends t P t' P')
    (hle : t.count ≤ t'.count) (h' : Extends t' P' t'' P'') : Extends t P t'' P'' where
  paths := h.paths.trans h'.paths
  junction p hp := (h'.junction p (Nat.lt_of_lt_of_le hp hle)).trans (h.junction p hp)
  root := h'.root.trans h.root

theorem Inv.le_of_extends (h : Inv t S P) (h' : Inv t' S' P') (hext : Extends t P t' P') :
    t.count ≤ t'.count := by
  rw [← h.length, ← h'.length]
  exact hext.paths.length_le

theorem Extends.getElem? (hext : Extends t P t' P') (hq : P[q]? = some names) :
    P'[q]? = some names := by
  obtain ⟨rest, rfl⟩ := hext.paths
  rw [List.getElem?_append_left (List.getElem?_eq_some_iff.mp hq).1]
  exact hq

theorem Inv.lt_of_getElem? (h : Inv t S P) (hq : P[q]? = some ns) : q < t.count :=
  h.length ▸ (List.getElem?_eq_some_iff.mp hq).1

theorem Inv.nil (h : Inv t S P) : P[0]? = some [] := h.path_iff.mp .nil

theorem Inv.addToken (h : Inv t S P) (hcur : P[cur]? = some ns) (name : Name) :
    (addToken t cur name = none ∧ t.count = maxPseudoEntry ∧ ns ++ [name] ∉ P) ∨
      ∃ t' q S' P', addToken t cur name = some (t', q) ∧ Inv t' S' P' ∧ Extends t P t' P' ∧
        P'[q]? = some (ns ++ [name]) ∧ ∀ names, names ∈ P' ↔ names ∈ P ∨ names = ns ++ [name] := by
  have hlt := h.lt_of_getElem? hcur
  by_cases hnone : ∀ q ∈ S cur, (t.entries q).name ≠ name
  · have hnot : ns ++ [name] ∉ P := by
      intro hmem
      obtain ⟨q, hq⟩ := List.getElem?_of_mem hmem
      have hpath := h.path hq
      rw [List.reverse_append] at hpath
      cases hpath with
      | step hprefix hedge =>
        have hlabel : ∀ {v : ℕ} {l : Name} {w w' : ℕ}, t.Edge v l w → t.Edge v l w' → w = w' :=
          fun he he' => h.label he he'
        obtain rfl := Path.target_unique @hlabel hprefix (h.path hcur)
        obtain ⟨-, hmem, hname⟩ := h.edge.mp hedge
        exact hnone _ hmem hname
    rcases Nat.lt_or_ge t.count maxPseudoEntry with hroom | hfull
    · obtain ⟨t', hadd, ha⟩ := h.addToken_new hlt hnone hroom
      refine .inr ⟨t', _, _, _, hadd, h.added hcur hnone hroom ha, ⟨List.prefix_append _ _,
        fun p hp => ?_, ?_⟩, ?_, fun names => ?_⟩
      · rw [ha.old p (Nat.ne_of_lt hp)]
      · rw [ha.reverseTab, update_of_ne (Nat.succ_ne_zero _).symm]
      · rw [← h.length, List.getElem?_concat_length]
      · rw [List.mem_append, List.mem_singleton]
    · refine .inl ⟨?_, Nat.le_antisymm h.le hfull, hnot⟩
      have hfind : findSon t.entries name t.count (t.entries cur).sons = none := by
        rw [findSon_eq (h.chain cur hlt) (h.length_le hlt), List.find?_eq_none]
        intro q hq
        simpa using hnone q hq
      rw [PseudoFs.addToken, hfind]
      dsimp only
      rw [if_neg (Nat.not_lt.mpr (h.lastId ▸ hfull))]
  · -- the son with the name
    have hfind : ∃ q ∈ S cur, (t.entries q).name = name ∧
        findSon t.entries name t.count (t.entries cur).sons = some q := by
      rw [findSon_eq (h.chain cur hlt) (h.length_le hlt)]
      cases hres : (S cur).find? fun q => decide ((t.entries q).name = name) with
      | none =>
        rw [List.find?_eq_none] at hres
        exact absurd (fun q hq hname => hres q hq (decide_eq_true hname)) hnone
      | some q =>
        have hname := List.find?_some hres
        exact ⟨q, List.mem_of_find?_eq_some hres, of_decide_eq_true hname, rfl⟩
    obtain ⟨q, hq, hname, hres⟩ := hfind
    have hpath : P[q]? = some (ns ++ [name]) := by
      apply h.path_iff.mp
      rw [List.reverse_append]
      exact (h.path hcur).step (h.edge.mpr ⟨hlt, hq, hname⟩)
    refine .inr ⟨t, q, S, P, ?_, h, .refl, hpath, fun names => ?_⟩
    · rw [PseudoFs.addToken, hres]
    · refine ⟨Or.inl, ?_⟩
      rintro (hmem | rfl)
      · exact hmem
      · exact List.mem_of_getElem? hpath

theorem Inv.addTokens (h : Inv t S P) (hcur : P[cur]? = some ns)
    (hrun : addTokens t cur tokens = some (t', q)) :
    ∃ S' P', Inv t' S' P' ∧ Extends t P t' P' ∧ P'[q]? = some (ns ++ tokens) ∧
      ∀ names, names ∈ P' ↔ names ∈ P ∨ ∃ l, l <+: tokens ∧ names = ns ++ l := by
  induction tokens generalizing t S P cur ns with
  | nil =>
    cases hrun
    rw [List.append_nil]
    refine ⟨S, P, h, .refl, hcur, fun names => ⟨Or.inl, ?_⟩⟩
    rintro (hmem | ⟨l, hl, rfl⟩)
    · exact hmem
    · rw [List.prefix_nil.mp hl, List.append_nil]
      exact List.mem_of_getElem? hcur
  | cons token tokens ih =>
    rw [PseudoFs.addTokens] at hrun
    rcases h.addToken hcur token with
      ⟨hnone, -⟩ | ⟨t1, q1, S1, P1, hadd, h1, hext, hq1, hmem⟩
    · rw [hnone] at hrun
      cases hrun
    · rw [hadd] at hrun
      obtain ⟨S', P', h', hext', hq, hmem'⟩ := ih h1 hq1 hrun
      rw [List.append_assoc] at hq
      refine ⟨S', P', h', hext.trans (h.le_of_extends h1 hext) hext', hq, fun names => ?_⟩
      rw [hmem', hmem]
      constructor
      · rintro ((hold | rfl) | ⟨l, hl, rfl⟩)
        · exact .inl hold
        · exact .inr ⟨[token], ⟨tokens, rfl⟩, rfl⟩
        · exact .inr ⟨token :: l, List.cons_prefix_cons.mpr ⟨rfl, hl⟩, List.append_assoc _ _ _⟩
      · rintro (hold | ⟨l, hl, rfl⟩)
        · exact .inl (.inl hold)
        · rcases l with _ | ⟨name, l⟩
          · rw [List.append_nil]
            exact .inl (.inl (List.mem_of_getElem? hcur))
          · obtain ⟨rfl, hrest⟩ := List.cons_prefix_cons.mp hl
            refine .inr ⟨l, hrest, ?_⟩
            rw [List.append_assoc]
            rfl

theorem Inv.exists_addTokens (h : Inv t S P) (hcur : P[cur]? = some ns)
    (hP : ∀ names ∈ P, names ∈ F) (hF : ∀ l, l <+: tokens → ns ++ l ∈ F)
    (hcard : F.card ≤ maxPseudoEntry) : ∃ t' q, PseudoFs.addTokens t cur tokens = some (t', q) := by
  induction tokens generalizing t S P cur ns with
  | nil => exact ⟨t, cur, rfl⟩
  | cons token tokens ih =>
    have hin : ns ++ [token] ∈ F := hF [token] ⟨tokens, rfl⟩
    rw [PseudoFs.addTokens]
    rcases h.addToken hcur token with
      ⟨-, hfull, hnot⟩ | ⟨t1, q1, S1, P1, hadd, h1, -, hq1, hmem⟩
    · -- there would be one prefix more than there are
      exfalso
      have hsub : ((ns ++ [token]) :: P).toFinset ⊆ F := by
        intro names hnames
        rcases List.mem_cons.mp (List.mem_toFinset.mp hnames) with rfl | hnames
        · exact hin
        · exact hP names hnames
      have hle := Finset.card_le_card hsub
      rw [List.toFinset_card_of_nodup (List.nodup_cons.mpr ⟨hnot, h.nodup⟩), List.length_cons,
        h.length, hfull] at hle
      omega
    · rw [hadd]
      apply ih h1 hq1
      · intro names hnames
        rcases (hmem names).mp hnames with hold | rfl
        · exact hP names hold
        · exact hin
      · intro l hl
        rw [List.append_assoc]
        exact hF (token :: l) (List.cons_prefix_cons.mpr ⟨rfl, hl⟩)

/-! ## The loop over the exports -/

def Tree.setJunction (t : Tree) (q i : ℕ) : Tree :=
  t.modify q fun e => { e with junctionExport := some i }

/-- The root is entered in the table. -/
def Tree.setRoot (t : Tree) : Tree :=
  { t with reverseTab := update t.reverseTab 0 (some 0) }

theorem setRoot_zero : t.setRoot.reverseTab 0 = some 0 := by
  show update t.reverseTab 0 (some 0) 0 = some 0
  rw [update_self]

theorem sameTree_setJunction {i : ℕ} : SameTree t (t.setJunction q i) := by
  refine ⟨fun p => ?_, rfl, rfl, fun _ _ => rfl⟩
  rw [Tree.setJunction, Tree.modify]
  dsimp only
  by_cases hp : p = q
  · subst hp
    rw [update_self]
  · rw [update_of_ne hp]

theorem sameTree_setRoot : SameTree t t.setRoot :=
  ⟨fun _ => rfl, rfl, rfl, fun _ hp => update_of_ne hp _ _⟩

variable {e : Export} {exports : List Export} {fuel i : ℕ}

theorem exportLoop_not_pseudo (hpseudo : e.pseudo = false) :
    exportLoop (fuel + 1) i (e :: exports) t = exportLoop fuel (i + 1) exports t.setRoot := by
  rw [exportLoop, hpseudo]
  rfl

def Export.Short (e : Export) : Prop := ∀ token ∈ e.tokens.1, token.length < maxNamLen

theorem any_eq_false (hshort : e.Short) :
    (e.tokens.1.any fun token => maxNamLen ≤ token.length) = false := by
  rw [List.any_eq_false]
  intro token htoken
  simpa using hshort token htoken

theorem exportLoop_long (hpseudo : e.pseudo = true) (hlong : ¬ e.Short) :
    exportLoop (fuel + 1) i (e :: exports) t = .outside := by
  have hany : (e.tokens.1.any fun token => maxNamLen ≤ token.length) = true := by
    rw [Export.Short] at hlong
    push Not at hlong
    obtain ⟨token, htoken, hle⟩ := hlong
    exact List.any_eq_true.mpr ⟨token, htoken, decide_eq_true hle⟩
  rw [exportLoop, hpseudo]
  dsimp only
  rw [if_pos rfl, if_pos hany]

theorem exportLoop_malformed (hpseudo : e.pseudo = true) (hshort : e.Short)
    (hform : ¬ e.WellFormed) :
    exportLoop (fuel + 1) i (e :: exports) t = exportLoop fuel i (e :: exports) t.setRoot := by
  rw [exportLoop, hpseudo]
  dsimp only
  rw [if_pos rfl, any_eq_false hshort]
  by_cases hok : e.tokens.2 = false
  · rw [if_pos hok]
    rfl
  have hhead : e.pseudopath.head? ≠ some 47 :=
    fun hhead => hform ⟨eq_true_of_ne_false hok, hhead⟩
  rw [if_neg hok, if_pos hhead]
  rfl

theorem exportLoop_wellFormed (hpseudo : e.pseudo = true) (hshort : e.Short)
    (hform : e.WellFormed) :
    exportLoop (fuel + 1) i (e :: exports) t =
      match addTokens t.setRoot 0 e.names with
      | none => .outside
      | some (t, current) => exportLoop fuel (i + 1) exports (t.setJunction current i) := by
  rw [exportLoop, hpseudo]
  dsimp only
  rw [if_pos rfl, any_eq_false hshort, hform.1, if_neg Bool.false_ne_true,
    if_neg (Bool.false_ne_true ∘ Eq.symm), if_neg fun h => h hform.2]
  rfl

theorem exportLoop_ne_done (hpseudo : e.pseudo = true) (hform : ¬ e.WellFormed) :
    exportLoop fuel i (e :: exports) t ≠ .done t' := by
  induction fuel generalizing t with
  | zero => nofun
  | succ fuel ih =>
    by_cases hshort : e.Short
    · rw [exportLoop_malformed hpseudo hshort hform]
      exact ih
    · rw [exportLoop_long hpseudo hshort]
      nofun

/-- What the loop has done with some exports, the first of which is the `i`th. -/
structure Loaded (exports : List Export) (i : ℕ) (t : Tree) (P : List (List Name)) (t' : Tree)
    (P' : List (List Name)) : Prop where
  paths : P <+: P'
  mem : ∀ names, names ∈ P' ↔ names ∈ P ∨ ∃ e ∈ exports, e.pseudo = true ∧ names <+: e.names
  root : t.reverseTab 0 = some 0 ∨ exports ≠ [] → t'.reverseTab 0 = some 0
  frame : ∀ q names, P[q]? = some names → (∀ e ∈ exports, e.pseudo = true → e.names ≠ names) →
    (t'.entries q).junctionExport = (t.entries q).junctionExport
  junction : ((exports.filter fun e => e.pseudo).map Export.names).Nodup →
    ∀ j e, exports[j]? = some e → e.pseudo = true →
      ∃ q, P'[q]? = some e.names ∧ (t'.entries q).junctionExport = some (i + j)

theorem Loaded.nil : Loaded [] i t P t P := by
  refine ⟨List.prefix_rfl, fun names => ?_, ?_, fun _ _ _ _ => rfl, fun _ j e => nofun⟩
  · refine ⟨Or.inl, ?_⟩
    rintro (hmem | ⟨e, he, -⟩)
    · exact hmem
    · cases he
  · rintro (hroot | hne)
    · exact hroot
    · exact absurd rfl hne

theorem Loaded.cons_not_pseudo (hpseudo : e.pseudo = false)
    (hl : Loaded exports (i + 1) t.setRoot P t' P') : Loaded (e :: exports) i t P t' P' := by
  have hne : ¬ e.pseudo = true := by simp [hpseudo]
  refine ⟨hl.paths, fun names => ?_, fun _ => hl.root (.inl setRoot_zero),
    fun q names hq hall => ?_, fun hnodup j e' hj he' => ?_⟩
  · rw [hl.mem]
    constructor
    · rintro (hmem | ⟨e', he', hall⟩)
      · exact .inl hmem
      · exact .inr ⟨e', List.mem_cons_of_mem _ he', hall⟩
    · rintro (hmem | ⟨e', he', hp, hprefix⟩)
      · exact .inl hmem
      · rcases List.mem_cons.mp he' with rfl | he'
        · exact absurd hp hne
        · exact .inr ⟨e', he', hp, hprefix⟩
  · exact hl.frame q names hq fun e' he' => hall e' (.tail _ he')
  · cases j with
    | zero =>
      cases hj
      exact absurd he' hne
    | succ j =>
      rw [List.filter_cons_of_neg hne] at hnodup
      obtain ⟨q, hq, hjunction⟩ := hl.junction hnodup j e' hj he'
      refine ⟨q, hq, hjunction.trans (congrArg some ?_)⟩
      omega

theorem Loaded.cons_pseudo {t1 : Tree} {P1 : List (List Name)} (h : Inv t S P)
    (hpseudo : e.pseudo = true) (hext : Extends t.setRoot P t1 P1) (hq : P1[q]? = some e.names)
    (hmem : ∀ names, names ∈ P1 ↔ names ∈ P ∨ ∃ l, l <+: e.names ∧ names = [] ++ l)
    (hl : Loaded exports (i + 1) (t1.setJunction q i) P1 t' P') :
    Loaded (e :: exports) i t P t' P' := by
  refine ⟨hext.paths.trans hl.paths, fun names => ?_, fun _ => hl.root (.inl ?_),
    fun p names hp hall => ?_, fun hnodup j e' hj he' => ?_⟩
  · rw [hl.mem, hmem]
    constructor
    · rintro ((hold | ⟨l, hprefix, rfl⟩) | ⟨e', he', hall⟩)
      · exact .inl hold
      · exact .inr ⟨e, List.mem_cons_self, hpseudo, hprefix⟩
      · exact .inr ⟨e', List.mem_cons_of_mem _ he', hall⟩
    · rintro (hold | ⟨e', he', hp, hprefix⟩)
      · exact .inl (.inl hold)
      · rcases List.mem_cons.mp he' with rfl | he'
        · exact .inl (.inr ⟨names, hprefix, rfl⟩)
        · exact .inr ⟨e', he', hp, hprefix⟩
  · exact hext.root.trans setRoot_zero
  · have hpq : p ≠ q := by
      rintro rfl
      have heq := (hext.getElem? hp).symm.trans hq
      exact hall e List.mem_cons_self hpseudo (Option.some.inj heq).symm
    rw [hl.frame p names (hext.getElem? hp) fun e' he' => hall e' (.tail _ he'),
      Tree.setJunction, Tree.modify]
    dsimp only
    rw [update_of_ne hpq]
    exact hext.junction p (h.lt_of_getElem? hp)
  · rw [List.filter_cons_of_pos hpseudo, List.map_cons, List.nodup_cons] at hnodup
    cases j with
    | zero =>
      cases hj
      -- no other export has this path
      have hothers : ∀ e' ∈ exports, e'.pseudo = true → e'.names ≠ e.names := by
        intro e' he' hp heq
        exact hnodup.1 (List.mem_map.mpr ⟨e', List.mem_filter.mpr ⟨he', hp⟩, heq⟩)
      obtain ⟨rest, hrest⟩ := hl.paths
      refine ⟨q, ?_, ?_⟩
      · rw [← hrest, List.getElem?_append_left (List.getElem?_eq_some_iff.mp hq).1]
        exact hq
      · rw [hl.frame q e.names hq hothers, Tree.setJunction, Tree.modify]
        dsimp only
        rw [update_self]
        rfl
    | succ j =>
      obtain ⟨q', hq', hjunction⟩ := hl.junction hnodup.2 j e' hj he'
      refine ⟨q', hq', hjunction.trans (congrArg some ?_)⟩
      omega

theorem exportLoop_nil : exportLoop fuel i [] t = .done t := by cases fuel <;> rfl

theorem Inv.exportLoop (h : Inv t S P) (hrun : exportLoop fuel i exports t = .done t') :
    (∀ e ∈ exports, e.pseudo = true → e.WellFormed ∧ e.Short) ∧
      ∃ S' P', Inv t' S' P' ∧ Loaded exports i t P t' P' := by
  induction fuel generalizing i exports t S P with
  | zero =>
    cases exports with
    | nil =>
      obtain rfl := Outcome.done.inj hrun
      exact ⟨nofun, S, P, h, .nil⟩
    | cons e exports => cases hrun
  | succ fuel ih =>
    have hroot : Inv t.setRoot S P := h.congr sameTree_setRoot
    cases exports with
    | nil =>
      obtain rfl := Outcome.done.inj hrun
      exact ⟨nofun, S, P, h, .nil⟩
    | cons e exports =>
      cases hpseudo : e.pseudo with
      | false =>
        rw [exportLoop_not_pseudo hpseudo] at hrun
        obtain ⟨hall, S', P', h', hl⟩ := ih hroot hrun
        refine ⟨fun e' he' hp => ?_, S', P', h', hl.cons_not_pseudo hpseudo⟩
        rcases List.mem_cons.mp he' with rfl | he'
        · rw [hpseudo] at hp
          cases hp
        · exact hall e' he' hp
      | true =>
        by_cases hform : e.WellFormed
        · by_cases hshort : e.Short
          · rw [exportLoop_wellFormed hpseudo hshort hform] at hrun
            cases hadd : PseudoFs.addTokens t.setRoot 0 e.names with
            | none =>
              rw [hadd] at hrun
              cases hrun
            | some res =>
              obtain ⟨t1, q⟩ := res
              rw [hadd] at hrun
              obtain ⟨S1, P1, h1, hext, hq, hmem⟩ := hroot.addTokens hroot.nil hadd
              obtain ⟨hall, S', P', h', hl⟩ := ih (h1.congr sameTree_setJunction) hrun
              refine ⟨fun e' he' hp => ?_, S', P', h', hl.cons_pseudo h hpseudo hext hq hmem⟩
              rcases List.mem_cons.mp he' with rfl | he'
              · exact ⟨hform, hshort⟩
              · exact hall e' he' hp
          · rw [exportLoop_long hpseudo hshort] at hrun
            cases hrun
        · exact absurd hrun (exportLoop_ne_done hpseudo hform)

theorem Inv.exists_exportLoop (h : Inv t S P)
    (hall : ∀ e ∈ exports, e.pseudo = true → e.WellFormed ∧ e.Short) (hP : ∀ names ∈ P, names ∈ F)
    (hF : ∀ e ∈ exports, e.pseudo = true → ∀ l, l <+: e.names → l ∈ F)
    (hcard : F.card ≤ maxPseudoEntry) :
    ∃ t', PseudoFs.exportLoop exports.length i exports t = .done t' := by
  induction exports generalizing i t S P with
  | nil => exact ⟨t, rfl⟩
  | cons e exports ih =>
    have hroot : Inv t.setRoot S P := h.congr sameTree_setRoot
    have hall' : ∀ e ∈ exports, e.pseudo = true → e.WellFormed ∧ e.Short :=
      fun e' he' => hall e' (.tail _ he')
    have hF' : ∀ e ∈ exports, e.pseudo = true → ∀ l, l <+: e.names → l ∈ F :=
      fun e' he' => hF e' (.tail _ he')
    rw [List.length_cons]
    cases hpseudo : e.pseudo with
    | false =>
      rw [exportLoop_not_pseudo hpseudo]
      exact ih hroot hall' hP hF'
    | true =>
      obtain ⟨hform, hshort⟩ := hall e List.mem_cons_self hpseudo
      have hin : ∀ l, l <+: e.names → [] ++ l ∈ F := hF e List.mem_cons_self hpseudo
      obtain ⟨t1, q, hadd⟩ := hroot.exists_addTokens hroot.nil hP hin hcard
      obtain ⟨S1, P1, h1, -, -, hmem⟩ := hroot.addTokens hroot.nil hadd
      rw [exportLoop_wellFormed hpseudo hshort hform, hadd]
      refine ih (h1.congr sameTree_setJunction) hall' (fun names hnames => ?_) hF'
      rcases (hmem names).mp hnames with hold | ⟨l, hl, rfl⟩
      · exact hP names hold
      · exact hin _ hl

/-! ## The tree of the paths -/

theorem mem_prefixes : names ∈ prefixes exports ↔
    names = [] ∨ ∃ e ∈ exports, e.pseudo = true ∧ names <+: e.names := by
  rw [prefixes, Finset.mem_insert, List.mem_toFinset, List.mem_flatMap]
  simp only [List.mem_filter, List.mem_inits, and_assoc]

theorem Loaded.treeOfPaths (h : Inv t S P) (hl : Loaded exports 0 emptyTree [[]] t P)
    (hne : exports ≠ []) (hall : ∀ e ∈ exports, e.pseudo = true → e.WellFormed ∧ e.Short)
    (hnodup : ((exports.filter fun e => e.pseudo).map Export.names).Nodup) :
    TreeOfPaths exports t := by
  have hlabel : ∀ {v : ℕ} {l : Name} {w w' : ℕ}, t.Edge v l w → t.Edge v l w' → w = w' :=
    fun he he' => h.label he he'
  refine ⟨h.tree, fun p hp => ⟨S p, h.chain p hp, h.sonsNodup p hp⟩, fun p hp q => ?_,
    fun p q q' hq hq' => ?_, fun names hnames => ?_, fun names q q' hq hq' => ?_, fun p hp => ?_,
    fun p hp q hq heq => ?_, fun j e hj hpseudo hform => ?_⟩
  · rw [h.son, ← h.mem p hp]
    exact and_iff_right hp
  · obtain ⟨hp, hq⟩ := h.son.mp hq
    exact h.siblings p hp q hq q' (h.son.mp hq').2
  · have hpath : (∃ q, Path t.Edge 0 names.reverse q) ↔ names ∈ P := by
      simp only [h.path_iff]
      exact List.mem_iff_getElem?.symm
    rw [hpath, hl.mem]
    constructor
    · rintro (hmem | ⟨e, he, hp, hprefix⟩)
      · exact absurd (List.mem_singleton.mp hmem) hnames
      · exact ⟨e, he, hp, (hall e he hp).1, hprefix⟩
    · rintro ⟨e, he, hp, -, hprefix⟩
      exact .inr ⟨e, he, hp, hprefix⟩
  · exact Path.target_unique @hlabel hq hq'
  · rw [h.id p hp]
    refine ⟨Nat.lt_of_lt_of_le hp h.le, ?_⟩
    by_cases hzero : p = 0
    · subst hzero
      exact hl.root (.inr hne)
    · exact h.table p hp hzero
  · rwa [h.id p hp, h.id q hq] at heq
  · obtain ⟨q, hq, hjunction⟩ := hl.junction hnodup j e hj hpseudo
    exact ⟨q, h.path hq, Nat.zero_add j ▸ hjunction⟩

theorem Inv.exportToPseudoFs (hrun : exportToPseudoFs fuel exports = .done t) :
    ∃ S P, Inv t S P ∧ Loaded exports 0 emptyTree [[]] t P ∧
      ∀ e ∈ exports, e.pseudo = true → e.WellFormed ∧ e.Short := by
  obtain ⟨hall, S, P, h, hl⟩ := inv_emptyTree.exportLoop hrun
  exact ⟨S, P, h, hl, hall⟩

theorem exportToPseudoFs_nil (hrun : exportToPseudoFs fuel [] = .done t) : t = emptyTree := by
  rw [exportToPseudoFs, exportLoop_nil] at hrun
  exact (Outcome.done.inj hrun).symm

theorem TreeOfPaths.nodup (h : TreeOfPaths exports t)
    (hform : ∀ e ∈ exports, e.pseudo = true → e.WellFormed) :
    ((exports.filter fun e => e.pseudo).map Export.names).Nodup := by
  rw [List.Nodup, List.pairwise_map, List.pairwise_filter, List.pairwise_iff_getElem]
  intro i j hi hj hij hpi hpj heq
  obtain ⟨q, hq, hqi⟩ := h.junction i _ (List.getElem?_eq_getElem hi) hpi
    (hform _ (List.getElem_mem hi) hpi)
  obtain ⟨q', hq', hqj⟩ := h.junction j _ (List.getElem?_eq_getElem hj) hpj
    (hform _ (List.getElem_mem hj) hpj)
  rw [← heq] at hq'
  obtain rfl := h.unique _ q q' hq hq'
  exact Nat.ne_of_lt hij (Option.some.inj (hqi.symm.trans hqj))

/-- A path with twenty directories is looked at for ever. -/
def deepExport : Export := ⟨true, (List.replicate 20 [47, 97]).flatten⟩

/-- **An export is not built.** -/
theorem deepExport_not_builds : ¬ Builds [deepExport] := by
  rintro ⟨fuel, t, hrun, -⟩
  exact exportLoop_ne_done rfl (by decide) hrun

/-- **The pseudo file system is built as the tree of the export paths** exactly when there is an
export, the paths are well formed, short and different, and there are not too many prefixes. -/
theorem built_iff (exports : List Export) : Builds exports ↔ Buildable exports := by
  constructor
  · rintro ⟨fuel, t, hrun, htree⟩
    obtain ⟨S, P, h, hl, hall⟩ := Inv.exportToPseudoFs hrun
    have hform : ∀ e ∈ exports, e.pseudo = true → e.WellFormed := fun e he hp => (hall e he hp).1
    refine ⟨?_, hform, fun e he hp => (hall e he hp).2, htree.nodup hform, ?_⟩
    · -- the table is filled by the loop
      rintro rfl
      obtain rfl := exportToPseudoFs_nil hrun
      obtain ⟨-, hroot⟩ := htree.ids 0 Nat.one_pos
      cases hroot
    · have hsub : prefixes exports ⊆ P.toFinset := by
        intro names hnames
        rw [List.mem_toFinset, hl.mem]
        rcases mem_prefixes.mp hnames with rfl | he
        · exact Or.inl List.mem_cons_self
        · exact Or.inr he
      calc (prefixes exports).card ≤ P.toFinset.card := Finset.card_le_card hsub
        _ ≤ P.length := List.toFinset_card_le P
        _ = t.count := h.length
        _ ≤ maxPseudoEntry := h.le
  · intro hb
    have hall : ∀ e ∈ exports, e.pseudo = true → e.WellFormed ∧ e.Short :=
      fun e he hp => ⟨hb.wellFormed e he hp, hb.short e he hp⟩
    have hnil : ∀ names ∈ ([[]] : List (List Name)), names ∈ prefixes exports :=
      fun names hnames => mem_prefixes.mpr (Or.inl (List.mem_singleton.mp hnames))
    have hin : ∀ e ∈ exports, e.pseudo = true → ∀ l, l <+: e.names → l ∈ prefixes exports :=
      fun e he hp l hl => mem_prefixes.mpr (Or.inr ⟨e, he, hp, hl⟩)
    obtain ⟨t, hrun⟩ := inv_emptyTree.exists_exportLoop (i := 0) hall hnil hin hb.few
    obtain ⟨S, P, h, hl, -⟩ := Inv.exportToPseudoFs hrun
    exact ⟨_, t, hrun, hl.treeOfPaths h hb.nonempty hall hb.different⟩

end

end CloudNfs.PseudoFs
