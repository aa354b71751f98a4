import CloudNfs.CircularList
import CloudNfs.Run
import Mathlib.Data.List.Range

/-!
# The callbacks of the lock manager (`support/nlm_async.c`)

`nlm_async_callback` queues a function with its argument, and the thread `nlm_async_func` runs what
is queued. It takes everything that is in the queue to a list of its own while it has
`nlm_async_queue_mutex`, and goes through this list without it.

* The two lists are circular lists in the memory of the entries (`CircularList`).
* A section under the mutex is one step of the thread that queues; `nlm_async_func` takes one node
  in each step, and nothing is queued as long as it has the mutex.
* The entries are numbered in the order in which they were queued.

Every entry is put in front of those that were taken before it. The callbacks are run in order then
as long as no two are taken together (`alwaysRuns_iff`).
-/

namespace CloudNfs.NlmAsync

open Function (update update_self update_of_ne)

open DoublyLinked

/-! ## The code -/

/-- `nlm_async_queue`, `nlm_async_tmp_queue` and the entries -/
inductive Node where
  | queue
  | tmp
  | entry (a : ℕ)
deriving DecidableEq

/-- `func` and `arg` -/
structure Work where
  func : ℕ
  arg : ℕ
deriving DecidableEq

/-- Where `nlm_async_func` is: at the loop over the queue, at the loop over its own list, or in a
callback; with `glist` and `glistn`. -/
inductive Pc where
  | wait
  | collect (glist glistn : Option Node)
  | iterate (glist glistn : Option Node)
  | running (a : ℕ) (glistn : Option Node)
deriving DecidableEq

/-- The state of the threads, and what was queued, run and freed. -/
structure Sys where
  links : Links Node
  entries : ℕ → Work
  allocated : ℕ → Bool
  pc : Pc
  posted : List Work
  /-- the number of an entry -/
  number : ℕ → ℕ
  ran : List (ℕ × Work)
  freed : List ℕ

/-- `init_glist` -/
def initGlist (L : Links Node) (head : Node) : Links Node :=
  ⟨update L.next head (some head), update L.prev head (some head)⟩

/-- `glist_add_tail` -/
def glistAddTail (L : Links Node) (head new : Node) : Links Node :=
  L.insert (L.prev head) (some head) new

/-- `glist_add` -/
def glistAdd (L : Links Node) (head new : Node) : Links Node :=
  L.insert (some head) (L.next head) new

/-- `glist_del` -/
def glistDel (L : Links Node) (node : Node) : Links Node := L.remove node

inductive Action where
  /-- `nlm_async_callback`, with the memory that `Mem_Alloc` gives -/
  | callback (a : ℕ) (work : Work)
  /-- `nlm_async_func` -/
  | async

/-- `nlm_async_callback` -/
def nlmAsyncCallback (s : Sys) (a : ℕ) (work : Work) : Sys :=
  { s with
    links := glistAddTail s.links .queue (.entry a)
    entries := update s.entries a work
    allocated := update s.allocated a true
    posted := s.posted ++ [work]
    number := update s.number a s.posted.length }

/-- `nlm_async_func` -/
def nlmAsyncFunc (s : Sys) : Option Sys :=
  match s.pc with
  | .wait =>
    if s.links.next .queue = some .queue then none
    else
      let links := initGlist s.links .tmp
      let glist := links.next .queue
      some { s with links := links, pc := .collect glist (glist.bind links.next) }
  | .collect none _ => none
  | .collect (some glist) glistn =>
    if glist = .queue then
      let glist := s.links.next .tmp
      some { s with pc := .iterate glist (glist.bind s.links.next) }
    else
      let links := glistAdd (glistDel s.links glist) .tmp glist
      some { s with links := links, pc := .collect glistn (glistn.bind links.next) }
  | .iterate (some .tmp) _ => some { s with pc := .wait }
  | .iterate (some (.entry a)) glistn =>
    some
      { s with
        links := glistDel s.links (.entry a)
        pc := .running a glistn
        ran := s.ran ++ [(s.number a, s.entries a)] }
  | .iterate _ _ => none
  | .running a glistn =>
    some
      { s with
        allocated := update s.allocated a false
        freed := s.freed ++ [s.number a]
        pc := .iterate glistn (glistn.bind s.links.next) }

/-- Whether `nlm_async_func` has the mutex between two steps. -/
def Pc.locked : Pc → Bool
  | .collect _ _ => true
  | _ => false

def step (s : Sys) : Action → Option Sys
  | .callback a work =>
    if s.pc.locked = false ∧ s.allocated a = false then some (nlmAsyncCallback s a work) else none
  | .async => nlmAsyncFunc s

/-- The queue as `nlm_async_callback_init` leaves it, with nothing allocated. -/
def init : Sys where
  links := initGlist ⟨fun _ => none, fun _ => none⟩ .queue
  entries _ := ⟨0, 0⟩
  allocated _ := false
  pc := .wait
  posted := []
  number _ := 0
  ran := []
  freed := []

/-! ## The contract -/

def Sys.Queued (s : Sys) (a : ℕ) : Prop :=
  ∃ head l, (head = .queue ∨ head = .tmp) ∧ Ring s.links head l ∧ .entry a ∈ l

/-- The numbers of the entries that were run. -/
def Sys.done (s : Sys) : List ℕ := s.ran.map Prod.fst

/-- **Callbacks run once and in order.** -/
structure Runs (s : Sys) : Prop where
  once : s.done.Nodup
  /-- what is run is what was queued -/
  work : ∀ p ∈ s.ran, s.posted[p.1]? = some p.2
  freed : ∀ i ∈ s.freed, i ∈ s.done
  queued : ∀ i w, s.posted[i]? = some w → i ∉ s.done →
    ∃ a, s.number a = i ∧ s.entries a = w ∧ s.Queued a
  /-- the first ones that were queued, in this order -/
  order : s.done = List.range s.ran.length

/-- `nlm_async_func` only runs an entry that is the last one of its list. -/
def RunsLast (s : Sys) (act : Action) : Prop :=
  act = .async → ∀ a glistn, s.pc = .iterate (some (.entry a)) glistn → glistn = some .tmp

/-! ## The invariant -/

/-- The nodes of entries. -/
def nodes (l : List ℕ) : List Node := l.map .entry

/-- The first node of a list, or its head. -/
def front (head : Node) (l : List ℕ) : Node := (nodes l).headD head

/-- The pointers of `nlm_async_func`, when `lq` is queued and `lt` is on its list. -/
def Pc.Agrees (lq lt : List ℕ) : Pc → Prop
  | .wait => lt = []
  | .collect glist glistn =>
    glist = some (front .queue lq) ∧ ∀ a l, lq = a :: l → glistn = some (front .queue l)
  | .iterate glist glistn =>
    glist = some (front .tmp lt) ∧ ∀ a l, lt = a :: l → glistn = some (front .tmp l)
  | .running a glistn => glistn = some (front .tmp lt) ∧ a ∉ lq ∧ a ∉ lt

/-- What holds as long as the callbacks are run in order: `lq` is queued, and `lt` is on the list of
`nlm_async_func`, the last one first. -/
structure Inv (s : Sys) (lq lt : List ℕ) : Prop where
  queue : Ring s.links .queue (nodes lq)
  tmp : s.pc ≠ .wait → Ring s.links .tmp (nodes lt)
  nodup : (lt.reverse ++ lq).Nodup
  pc : s.pc.Agrees lq lt
  allocated : ∀ a ∈ lt.reverse ++ lq, s.allocated a = true
  entries : ∀ a ∈ lt.reverse ++ lq, s.posted[s.number a]? = some (s.entries a)
  numbers : (lt.reverse ++ lq).map s.number =
    List.range' s.ran.length (s.posted.length - s.ran.length)
  work : ∀ p ∈ s.ran, s.posted[p.1]? = some p.2
  freed : ∀ i ∈ s.freed, i ∈ s.done
  running : ∀ a glistn, s.pc = .running a glistn → s.number a ∈ s.done ∧ s.allocated a = true
  le : s.ran.length ≤ s.posted.length
  order : s.done = List.range s.ran.length

variable {s t : Sys} {lq lt : List ℕ} {act : Action} {a : ℕ} {w : Work}

theorem mem_nodes : .entry a ∈ nodes lq ↔ a ∈ lq := by
  simp [nodes]

theorem Inv.runs (h : Inv s lq lt) : Runs s := by
  refine ⟨h.order ▸ List.nodup_range, h.work, h.freed, fun i w hw hi => ?_, h.order⟩
  have hlen : i < s.posted.length := (List.getElem?_eq_some_iff.mp hw).1
  rw [h.order, List.mem_range, not_lt] at hi
  have hmem : i ∈ (lt.reverse ++ lq).map s.number := by
    rw [h.numbers, List.mem_range'_1]
    omega
  obtain ⟨a, ha, rfl⟩ := List.mem_map.mp hmem
  refine ⟨a, rfl, Option.some.inj ((h.entries a ha).symm.trans hw), ?_⟩
  rcases List.mem_append.mp ha with hlt | hlq
  · have hlt := List.mem_reverse.mp hlt
    refine ⟨.tmp, nodes lt, .inr rfl, h.tmp fun hpc => ?_, mem_nodes.mpr hlt⟩
    have hnil := h.pc
    rw [hpc] at hnil
    cases hnil
    cases hlt
  · exact ⟨.queue, nodes lq, .inl rfl, h.queue, mem_nodes.mpr hlq⟩

/-! ## Steps -/

theorem not_mem_of_mem (h : (lt.reverse ++ lq).Nodup) {c : Node} (hc : c ∈ .tmp :: nodes lt) :
    c ∉ .queue :: nodes lq := by
  have hdisj := (List.nodup_append'.mp h).2.2
  intro hq
  cases c with
  | queue => simp [nodes] at hc
  | tmp => simp [nodes] at hq
  | entry a =>
    simp only [List.mem_cons, reduceCtorEq, false_or, mem_nodes] at hc hq
    exact hdisj (List.mem_reverse.mpr hc) hq

theorem front_eq_head_iff {head : Node} (hhead : ∀ a, head ≠ .entry a) {l : List ℕ} :
    front head l = head ↔ l = [] := by
  cases l with
  | nil => simp [front, nodes]
  | cons a l => simp [front, nodes, (hhead a).symm]

theorem inv_callback (h : Inv s lq lt) (hpc : s.pc.locked = false) (ha : s.allocated a = false) :
    Inv (nlmAsyncCallback s a w) (lq ++ [a]) lt := by
  have hnew : a ∉ lt.reverse ++ lq := fun hmem => by
    rw [h.allocated a hmem] at ha
    cases ha
  have hne : ∀ b ∈ lt.reverse ++ lq, b ≠ a := fun b hb heq => hnew (heq ▸ hb)
  obtain ⟨hlt, hlq⟩ := not_or.mp (mt List.mem_append.mpr hnew)
  have hget : ∀ {i v}, s.posted[i]? = some v → (s.posted ++ [w])[i]? = some v := fun hi => by
    rw [List.getElem?_append_left (List.getElem?_eq_some_iff.mp hi).1, hi]
  -- the entries that were there, and the new one
  have hcases : ∀ b ∈ lt.reverse ++ (lq ++ [a]), b ≠ a ∧ b ∈ lt.reverse ++ lq ∨ b = a := by
    intro b hb
    rw [← List.append_assoc, List.mem_append, List.mem_singleton] at hb
    exact hb.imp_left fun hb => ⟨hne b hb, hb⟩
  constructor
  · rw [nodes, List.map_append]
    refine h.queue.insertLast ?_
    simp [mem_nodes, hlq]
  · intro hwait
    show Ring (glistAddTail s.links .queue (.entry a)) .tmp (nodes lt)
    refine Ring.frame_insert (h.tmp hwait) ?_ (fun c hc hprev => ?_) fun c hc heq => ?_
    · simpa [mem_nodes] using hlt
    · exact not_mem_of_mem h.nodup hc (h.queue.mem_of_prev hprev)
    · cases heq
      simp [nodes] at hc
  · rw [← List.append_assoc]
    exact List.nodup_append_comm.mp (List.nodup_cons.mpr ⟨hnew, h.nodup⟩)
  · have hagrees := h.pc
    have hrunning := h.running
    change s.pc.Agrees (lq ++ [a]) lt
    cases hs : s.pc with
    | wait => rwa [hs] at hagrees
    | collect g gn => rw [hs] at hpc; cases hpc
    | iterate g gn => rwa [hs] at hagrees
    | running b gn =>
      rw [hs] at hagrees
      refine ⟨hagrees.1, ?_, hagrees.2.2⟩
      rw [List.mem_append, not_or, List.mem_singleton]
      refine ⟨hagrees.2.1, fun heq => ?_⟩
      subst heq
      cases (hrunning b gn hs).2.symm.trans ha
  · intro b hb
    rcases hcases b hb with ⟨hba, hb⟩ | rfl
    · exact (update_of_ne hba _ _).trans (h.allocated b hb)
    · exact update_self ..
  · intro b hb
    simp only [nlmAsyncCallback]
    rcases hcases b hb with ⟨hba, hb⟩ | rfl
    · rw [update_of_ne hba, update_of_ne hba]
      exact hget (h.entries b hb)
    · rw [update_self, update_self, List.getElem?_concat_length]
  · have hold : (lt.reverse ++ lq).map (update s.number a s.posted.length) =
        (lt.reverse ++ lq).map s.number :=
      List.map_congr_left fun b hb => update_of_ne (hne b hb) _ _
    simp only [nlmAsyncCallback, List.length_append, List.length_singleton]
    rw [← List.append_assoc, List.map_append, hold, h.numbers, Nat.sub_add_comm h.le,
      List.range'_1_concat, List.map_singleton, update_self, Nat.add_sub_cancel' h.le]
  · exact fun p hp => hget (h.work p hp)
  · exact h.freed
  · intro b gn hb
    obtain ⟨hdone, halloc⟩ := h.running b gn hb
    have hba : b ≠ a := by
      rintro rfl
      cases halloc.symm.trans ha
    simp only [nlmAsyncCallback]
    rw [update_of_ne hba, update_of_ne hba]
    exact ⟨hdone, halloc⟩
  · simp only [nlmAsyncCallback, List.length_append]
    exact Nat.le_add_right_of_le h.le
  · exact h.order

theorem pointers {L : Links Node} {head : Node} {l : List ℕ} (h : Ring L head (nodes l)) :
    L.next head = some (front head l) ∧
      ∀ a l', l = a :: l' → (some (front head l)).bind L.next = some (front head l') := by
  refine ⟨h.next_head, ?_⟩
  rintro a l' rfl
  exact h.next_first

theorem inv_wait (h : Inv s lq lt) (hpc : s.pc = .wait) (ht : nlmAsyncFunc s = some t) :
    Inv t lq lt := by
  simp only [nlmAsyncFunc, hpc] at ht
  split at ht
  · cases ht
  cases ht
  have hlt := h.pc
  rw [hpc] at hlt
  have hqueue : Ring (initGlist s.links .tmp) .queue (nodes lq) := by
    refine h.queue.frame fun c hc => ?_
    have hne : c ≠ .tmp := by
      rintro rfl
      simp [nodes] at hc
    exact ⟨update_of_ne hne _ _, update_of_ne hne _ _⟩
  obtain ⟨hnext, hsecond⟩ := pointers hqueue
  refine { h with queue := hqueue, tmp := fun _ => ?_, pc := ⟨hnext, ?_⟩, running := nofun }
  · rw [show lt = [] from hlt]
    exact ring_nil.mpr (by simp [initGlist])
  · rw [hnext]
    exact hsecond

theorem inv_collect (h : Inv s lq lt) {glist glistn : Option Node}
    (hpc : s.pc = .collect glist glistn) (ht : nlmAsyncFunc s = some t) : ∃ lq lt, Inv t lq lt := by
  have hagrees := h.pc
  have htmp := h.tmp (by rw [hpc]; nofun)
  rw [hpc] at hagrees
  obtain ⟨rfl, hsecond⟩ := hagrees
  simp only [nlmAsyncFunc, hpc] at ht
  cases lq with
  | nil =>
    rw [if_pos (by rfl : front .queue [] = .queue)] at ht
    cases ht
    obtain ⟨hnext, hsecond⟩ := pointers htmp
    refine ⟨[], lt, { h with tmp := fun _ => htmp, pc := ⟨hnext, ?_⟩, running := nofun }⟩
    rw [hnext]
    exact hsecond
  | cons a lq =>
    rw [if_neg (by nofun : front .queue (a :: lq) ≠ .queue)] at ht
    cases ht
    cases hsecond a lq rfl
    have heq : (a :: lt).reverse ++ lq = lt.reverse ++ a :: lq := by simp
    have hnot : ∀ c ∈ .tmp :: nodes lt, c ∉ .queue :: nodes (a :: lq) := fun c hc =>
      not_mem_of_mem h.nodup hc
    have hsub : ∀ c ∈ .queue :: nodes lq, c ∈ .queue :: nodes (a :: lq) := by
      intro c hc
      rcases List.mem_cons.mp hc with rfl | hc
      · exact .head _
      · exact .tail _ (.tail _ hc)
    have ha : Node.entry a ∉ .tmp :: nodes lt := fun hmem => hnot _ hmem (by simp [nodes])
    have hprev : s.links.prev (.entry a) = some .queue := h.queue.path.1.2
    have hnext : s.links.next (.entry a) = some (front .queue lq) := h.queue.next_first
    have hfront : front .queue lq ∈ .queue :: nodes lq := by
      cases lq <;> simp [front, nodes]
    -- both lists after `glist_del`, and after `glist_add`
    have hdelQueue : Ring (glistDel s.links (.entry a)) .queue (nodes lq) := h.queue.removeFirst
    have hdelTmp : Ring (glistDel s.links (.entry a)) .tmp (nodes lt) := by
      refine htmp.frame_remove ha (fun c hc heq => hnot c hc ?_) fun c hc heq => hnot c hc ?_
      · cases hprev.symm.trans heq
        exact .head _
      · cases hnext.symm.trans heq
        exact hsub _ hfront
    have hqueue : Ring (glistAdd (glistDel s.links (.entry a)) .tmp (.entry a)) .queue
        (nodes lq) := by
      refine hdelQueue.frame_insert ?_ (fun c hc heq => ?_) fun c hc heq => ?_
      · have hnodup := (List.nodup_cons.mp h.queue.nodup).2
        exact fun hmem => (List.nodup_cons.mp hnodup).1 ((List.mem_cons.mp hmem).resolve_left nofun)
      · cases heq
        simp [nodes] at hc
      · exact hnot c (hdelTmp.mem_of_next heq) (hsub c hc)
    refine ⟨lq, a :: lt, { h with
      queue := hqueue, tmp := fun _ => hdelTmp.insertFirst ha, nodup := heq ▸ h.nodup,
      pc := ⟨rfl, (pointers hqueue).2⟩, allocated := heq ▸ h.allocated,
      entries := heq ▸ h.entries, numbers := heq ▸ h.numbers, running := nofun }⟩

theorem inv_iterate (h : Inv s lq lt) {glist glistn : Option Node}
    (hpc : s.pc = .iterate glist glistn) (ht : nlmAsyncFunc s = some t)
    (hlast : ∀ a, glist = some (.entry a) → glistn = some .tmp) : Inv t lq [] := by
  have hagrees := h.pc
  rw [hpc] at hagrees
  obtain ⟨rfl, hsecond⟩ := hagrees
  simp only [nlmAsyncFunc, hpc] at ht
  cases lt with
  | nil =>
    cases ht
    exact { h with tmp := fun hne => absurd rfl hne, pc := rfl, running := nofun }
  | cons a l =>
    cases ht
    have hfront : front .tmp l = .tmp :=
      Option.some.inj ((hsecond a l rfl).symm.trans (hlast a rfl))
    obtain rfl := (@front_eq_head_iff .tmp (fun _ => nofun) l).mp hfront
    have htmp := h.tmp (by rw [hpc]; nofun)
    have hnot : ∀ c ∈ .queue :: nodes lq, c ∉ .tmp :: nodes [a] := fun c hc hmem =>
      not_mem_of_mem h.nodup hmem hc
    have hprev : s.links.prev (.entry a) = some .tmp := htmp.path.1.2
    have hnext : s.links.next (.entry a) = some .tmp := htmp.next_first
    obtain ⟨ha, hnodup⟩ : a ∉ lq ∧ lq.Nodup := List.nodup_cons.mp h.nodup
    -- the entry has the next number
    have hnumbers : s.number a :: lq.map s.number =
        List.range' s.ran.length (s.posted.length - s.ran.length) := h.numbers
    obtain ⟨k, hk⟩ : ∃ k, s.posted.length - s.ran.length = k + 1 := by
      cases hlen : s.posted.length - s.ran.length with
      | zero => rw [hlen] at hnumbers; cases hnumbers
      | succ k => exact ⟨k, rfl⟩
    rw [hk, List.range'_succ] at hnumbers
    obtain ⟨hnumber, hrest⟩ := List.cons.inj hnumbers
    have hdone : (s.ran ++ [(s.number a, s.entries a)]).map Prod.fst =
        List.range (s.ran.length + 1) := by
      rw [List.map_append, List.range_succ, List.map_singleton, hnumber]
      exact congrArg (· ++ [s.ran.length]) h.order
    constructor
    · refine h.queue.frame_remove (fun hmem => hnot _ hmem (by simp [nodes]))
        (fun c hc heq => hnot c hc ?_) fun c hc heq => hnot c hc ?_
      · cases hprev.symm.trans heq
        exact .head _
      · cases hnext.symm.trans heq
        exact .head _
    · exact fun _ => htmp.removeFirst
    · exact hnodup
    · exact ⟨hlast a rfl, ha, List.not_mem_nil⟩
    · exact fun b hb => h.allocated b (.tail a hb)
    · exact fun b hb => h.entries b (.tail a hb)
    · simp only [List.length_append, List.length_singleton]
      rw [Nat.sub_add_eq, hk]
      exact hrest
    · intro p hp
      rcases List.mem_append.mp hp with hp | hp
      · exact h.work p hp
      · rw [List.mem_singleton.mp hp]
        exact h.entries a List.mem_cons_self
    · intro i hi
      have hi := h.freed i hi
      rw [Sys.done, List.map_append]
      exact List.mem_append_left _ hi
    · intro b gn hb
      cases hb
      refine ⟨?_, h.allocated a List.mem_cons_self⟩
      rw [Sys.done, List.map_append]
      exact List.mem_append_right _ List.mem_cons_self
    · simp only [List.length_append, List.length_singleton]
      omega
    · rw [Sys.done, hdone, List.length_append, List.length_singleton]

theorem inv_running (h : Inv s lq lt) {glistn : Option Node}
    (hpc : s.pc = .running a glistn) (ht : nlmAsyncFunc s = some t) : Inv t lq lt := by
  have hagrees := h.pc
  have htmp := h.tmp (by rw [hpc]; nofun)
  rw [hpc] at hagrees
  obtain ⟨rfl, hlq, hlt⟩ := hagrees
  simp only [nlmAsyncFunc, hpc] at ht
  cases ht
  refine { h with
    tmp := fun _ => htmp, pc := ⟨rfl, (pointers htmp).2⟩, running := nofun, allocated := ?_,
    freed := ?_ }
  · intro b hb
    have hne : b ≠ a := by
      rintro rfl
      rcases List.mem_append.mp hb with hb | hb
      · exact hlt (List.mem_reverse.mp hb)
      · exact hlq hb
    exact (update_of_ne hne _ _).trans (h.allocated b hb)
  · intro i hi
    rcases List.mem_append.mp hi with hi | hi
    · exact h.freed i hi
    · rw [List.mem_singleton.mp hi]
      exact (h.running a _ hpc).1

/-- **A step** keeps the invariant, if it runs the last entry of its list. -/
theorem inv_step (h : ∃ lq lt, Inv s lq lt) (hstep : step s act = some t) (hlast : RunsLast s act) :
    ∃ lq lt, Inv t lq lt := by
  obtain ⟨lq, lt, h⟩ := h
  cases act with
  | callback a w =>
    obtain ⟨⟨hpc, ha⟩, ht⟩ := Option.ite_none_right_eq_some.mp hstep
    cases ht
    exact ⟨lq ++ [a], lt, inv_callback h hpc ha⟩
  | async =>
    cases hpc : s.pc with
    | wait => exact ⟨lq, lt, inv_wait h hpc hstep⟩
    | collect glist glistn => exact inv_collect h hpc hstep
    | iterate glist glistn =>
      exact ⟨lq, [], inv_iterate h hpc hstep fun a ha => hlast rfl a glistn (ha ▸ hpc)⟩
    | running a glistn => exact ⟨lq, lt, inv_running h hpc hstep⟩

theorem runsLast_of_runs (h : ∃ lq lt, Inv s lq lt) (hstep : step s act = some t) (ht : Runs t) :
    RunsLast s act := by
  obtain ⟨lq, lt, h⟩ := h
  rintro rfl a glistn hpc
  have hagrees := h.pc
  rw [hpc] at hagrees
  obtain ⟨hfirst, hsecond⟩ := hagrees
  obtain ⟨l, rfl⟩ : ∃ l, lt = a :: l := by
    cases lt with
    | nil => cases hfirst
    | cons b l => cases hfirst; exact ⟨l, rfl⟩
  simp only [step, nlmAsyncFunc, hpc] at hstep
  cases hstep
  -- the number that should be run, and the one that the entry has
  have hdone : s.done ++ [s.number a] = List.range (s.ran.length + 1) := by
    have horder := ht.order
    rwa [Sys.done, List.map_append, List.length_append] at horder
  rw [h.order, List.range_succ] at hdone
  have hnumber : s.number a = s.ran.length := by simpa using hdone
  have hplace : (((a :: l).reverse ++ lq).map s.number)[l.length]? = some (s.number a) := by
    simp
  rw [h.numbers] at hplace
  obtain ⟨hlt, hget⟩ := List.getElem?_eq_some_iff.mp hplace
  rw [List.getElem_range', Nat.one_mul, hnumber] at hget
  obtain rfl := List.length_eq_zero_iff.mp (by omega : l.length = 0)
  exact hsecond a [] rfl

/-- **The callbacks run once and in order** exactly if no two of them are taken together. -/
theorem alwaysRuns_iff (acts : List Action) :
    Always step Runs init acts ↔ AllSteps step (fun s act _ => RunsLast s act) init acts := by
  refine always_iff_allSteps (I := fun s => ∃ lq lt, Inv s lq lt) ⟨[], [], ?_⟩
    (fun s ⟨lq, lt, h⟩ => h.runs) (fun s act t h => inv_step h) fun s act t h => runsLast_of_runs h
  refine ⟨ring_nil.mpr (by simp [init, initGlist]), fun h => absurd rfl h, List.nodup_nil, rfl,
    nofun, nofun, rfl, nofun, nofun, nofun, Nat.le_refl 0, rfl⟩

/-- **Two callbacks** that are taken together run the wrong way round. -/
theorem not_alwaysRuns : ¬ ∀ acts, Always step Runs init acts := by
  intro h
  let acts : List Action :=
    [.callback 0 ⟨0, 0⟩, .callback 1 ⟨0, 1⟩, .async, .async, .async, .async, .async]
  have hruns := (h acts).exec rfl
  exact absurd hruns.order (by decide)

end CloudNfs.NlmAsync
