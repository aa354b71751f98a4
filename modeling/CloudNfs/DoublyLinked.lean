import Mathlib.Data.List.Nodup
import Mathlib.Logic.Function.Basic

/-!
# Doubly linked lists

Lists in a memory where every node has a pointer to the next and one to the previous node.

* `Segment` — a part of a list, with what stands before it and after it.
* `segment_append` — two parts one after the other.
* `Segment.frame` — nodes that are not on the list do not matter.
* `Segment.setBefore`, `Segment.setAfter` — change what stands before or after a part.
* `IsList` — a whole list.
* `IsList.append`, `IsList.push`, `IsList.unlink` — a node more at one of the ends, or a node
  less anywhere, by the writes that a program makes.
* `IsList.next_iff_prev` — the two pointers are inverse to each other.
* `Chain` — a list in which only the next nodes are known.
-/

namespace CloudNfs.DoublyLinked

universe u

variable {α : Type u}

/-- The two pointers of every node. -/
structure Links (α : Type u) where
  next : α → Option α
  prev : α → Option α

/-- The nodes from the pointer `first` on, the node before them being `before`; `last` is the last
of them, or `before` when there are none, and `after` what it points to. -/
def Segment (L : Links α) : Option α → Option α → List α → Option α → Option α → Prop
  | before, first, [], last, after => last = before ∧ after = first
  | before, first, a :: l, last, after =>
    first = some a ∧ L.prev a = before ∧ Segment L (some a) (L.next a) l last after

section

variable {L L' : Links α} {before first last last' after : Option α} {l l' l1 l2 : List α} {a b : α}

theorem segment_nil : Segment L before first [] last after ↔ last = before ∧ after = first :=
  Iff.rfl

theorem segment_cons : Segment L before first (a :: l) last after ↔
    first = some a ∧ L.prev a = before ∧ Segment L (some a) (L.next a) l last after :=
  Iff.rfl

theorem segment_append : Segment L before first (l1 ++ l2) last after ↔
    ∃ m n, Segment L before first l1 m n ∧ Segment L m n l2 last after := by
  induction l1 generalizing before first with
  | nil =>
    constructor
    · exact fun h => ⟨before, first, ⟨rfl, rfl⟩, h⟩
    · rintro ⟨m, n, ⟨rfl, rfl⟩, h⟩
      exact h
  | cons b l1 ih =>
    rw [List.cons_append, segment_cons, ih]
    constructor
    · rintro ⟨hfirst, hprev, m, n, h, h'⟩
      exact ⟨m, n, ⟨hfirst, hprev, h⟩, h'⟩
    · rintro ⟨m, n, ⟨hfirst, hprev, h⟩, h'⟩
      exact ⟨hfirst, hprev, m, n, h, h'⟩

theorem segment_singleton : Segment L before first [a] last after ↔
    first = some a ∧ L.prev a = before ∧ last = some a ∧ after = L.next a :=
  Iff.rfl

theorem Segment.frame (h : Segment L before first l last after)
    (hframe : ∀ a ∈ l, L'.next a = L.next a ∧ L'.prev a = L.prev a) :
    Segment L' before first l last after := by
  induction l generalizing before first with
  | nil => exact h
  | cons b l ih =>
    obtain ⟨hfirst, hprev, h⟩ := h
    obtain ⟨hnext', hprev'⟩ := hframe b (List.mem_cons_self ..)
    refine ⟨hfirst, hprev'.trans hprev, ?_⟩
    rw [hnext']
    exact ih h fun c hc => hframe c (.tail b hc)

theorem Segment.ends (h : Segment L before first l last after) (hl : l ≠ []) :
    first = l.head? ∧ last = l.getLast? := by
  induction l generalizing before first with
  | nil => exact absurd rfl hl
  | cons b l ih =>
    refine ⟨h.1, ?_⟩
    cases l with
    | nil => exact h.2.2.1
    | cons c l =>
      rw [(ih h.2.2 (List.cons_ne_nil c l)).2]
      exact List.getLast?_cons_cons.symm

theorem Segment.next_mem (h : Segment L before first l last after) (ha : a ∈ l) :
    L.next a = after ∨ ∃ b ∈ l.tail, L.next a = some b := by
  induction l generalizing before first with
  | nil => cases ha
  | cons c l ih =>
    obtain ⟨-, -, h⟩ := h
    rcases List.mem_cons.mp ha with rfl | ha
    · cases l with
      | nil => exact .inl h.2.symm
      | cons b l => exact .inr ⟨b, List.mem_cons_self .., h.1⟩
    · rcases ih h ha with h | ⟨b, hb, h⟩
      · exact .inl h
      · exact .inr ⟨b, List.mem_of_mem_tail hb, h⟩

theorem Segment.prev_mem (h : Segment L before first l last after) (ha : a ∈ l) :
    L.prev a = before ∨ ∃ b ∈ l, L.prev a = some b := by
  induction l generalizing before first with
  | nil => cases ha
  | cons c l ih =>
    obtain ⟨-, hprev, h⟩ := h
    rcases List.mem_cons.mp ha with rfl | ha
    · exact .inl hprev
    · rcases ih h ha with h | ⟨b, hb, h⟩
      · exact .inr ⟨c, List.mem_cons_self .., h⟩
      · exact .inr ⟨b, List.mem_cons_of_mem c hb, h⟩

theorem Segment.next_iff_prev (h : Segment L before first l last after) (hnodup : l.Nodup)
    (hbefore : ∀ c ∈ l, before ≠ some c) (hafter : ∀ c ∈ l, after ≠ some c) (ha : a ∈ l)
    (hb : b ∈ l) : L.next a = some b ↔ L.prev b = some a := by
  induction l generalizing before first with
  | nil => cases ha
  | cons c l ih =>
    obtain ⟨-, hprev, h⟩ := h
    obtain ⟨hc, hnodup'⟩ := List.nodup_cons.mp hnodup
    -- nothing points to the first node, and it has nothing of the list before it
    have hnext : ∀ a ∈ c :: l, L.next a ≠ some c := by
      intro a ha hac
      have hseg : Segment L before (some c) (c :: l) last after := ⟨rfl, hprev, h⟩
      rcases hseg.next_mem ha with hn | ⟨d, hd, hn⟩
      · exact hafter c (List.mem_cons_self ..) (hn.symm.trans hac)
      · cases hn.symm.trans hac
        exact hc hd
    rcases List.mem_cons.mp hb with rfl | hbl
    · refine iff_of_false (hnext a ha) fun hba => ?_
      exact hbefore a ha (hprev.symm.trans hba)
    · rcases List.mem_cons.mp ha with rfl | hal
      · cases l with
        | nil => cases hbl
        | cons d l =>
          obtain ⟨hnd, hpd, h⟩ := h
          rcases List.mem_cons.mp hbl with rfl | hbl'
          · exact iff_of_true hnd hpd
          · have hd := (List.nodup_cons.mp hnodup').1
            refine iff_of_false (fun hnb => ?_) fun hpb => ?_
            · exact hd (Option.some.inj (hnd.symm.trans hnb) ▸ hbl')
            · rcases h.prev_mem hbl' with hp | ⟨e, he, hp⟩
              · exact hc (Option.some.inj (hp.symm.trans hpb) ▸ List.mem_cons_self ..)
              · exact hc (Option.some.inj (hp.symm.trans hpb) ▸ List.mem_cons_of_mem d he)
      · exact ih h hnodup' (fun e he hce => hc (Option.some.inj hce ▸ he))
          (fun e he => hafter e (.tail c he)) hal hbl

/-! ## Writes -/

/-- Write the pointer to the next node, if there is a node. -/
def Links.setNext [DecidableEq α] (L : Links α) (a : Option α) (p : Option α) : Links α :=
  match a with
  | some a => { L with next := Function.update L.next a p }
  | none => L

/-- Write the pointer to the previous node, if there is a node. -/
def Links.setPrev [DecidableEq α] (L : Links α) (a : Option α) (p : Option α) : Links α :=
  match a with
  | some a => { L with prev := Function.update L.prev a p }
  | none => L

variable [DecidableEq α]

@[simp] theorem next_setNext : (L.setNext (some a) first).next = Function.update L.next a first :=
  rfl

@[simp] theorem prev_setNext : (L.setNext before first).prev = L.prev := by
  cases before <;> rfl

@[simp] theorem next_setPrev : (L.setPrev before first).next = L.next := by
  cases before <;> rfl

@[simp] theorem prev_setPrev : (L.setPrev (some a) first).prev = Function.update L.prev a first :=
  rfl

theorem next_setNext_apply : (L.setNext before first).next a =
    if before = some a then first else L.next a := by
  cases before with
  | none => rfl
  | some b => simp [Function.update_apply, eq_comm]

theorem prev_setPrev_apply : (L.setPrev before first).prev a =
    if before = some a then first else L.prev a := by
  cases before with
  | none => rfl
  | some b => simp [Function.update_apply, eq_comm]

theorem next_setNext_of_ne (h : before ≠ some a) : (L.setNext before first).next a = L.next a := by
  cases before with
  | none => rfl
  | some b => exact Function.update_of_ne (fun hab => h (congrArg some hab.symm)) _ _

theorem prev_setPrev_of_ne (h : before ≠ some a) : (L.setPrev before first).prev a = L.prev a := by
  cases before with
  | none => rfl
  | some b => exact Function.update_of_ne (fun hab => h (congrArg some hab.symm)) _ _

theorem Segment.setAfter (h : Segment L before first l last after) (hnodup : l.Nodup)
    (hbefore : ∀ a ∈ l, before ≠ some a) (after' : Option α) :
    Segment (L.setNext last after') before (if l = [] then after' else first) l last after' := by
  induction l generalizing before first with
  | nil => exact ⟨h.1, (if_pos rfl).symm⟩
  | cons b l ih =>
    obtain ⟨hfirst, hprev, h⟩ := h
    obtain ⟨hb, hnodup⟩ := List.nodup_cons.mp hnodup
    rw [if_neg (List.cons_ne_nil b l)]
    refine ⟨hfirst, by rw [prev_setNext, hprev], ?_⟩
    have hih := ih h hnodup fun a ha hab => hb (Option.some.inj hab ▸ ha)
    cases l with
    | nil =>
      obtain ⟨rfl, -⟩ := h
      rw [if_pos rfl] at hih
      rw [next_setNext, Function.update_self]
      exact hih
    | cons c l =>
      rw [if_neg (List.cons_ne_nil c l)] at hih
      have hlast : last ≠ some b := by
        intro hlast
        rw [(h.ends (List.cons_ne_nil c l)).2] at hlast
        exact hb (List.mem_of_getLast? hlast)
      rw [next_setNext_of_ne hlast]
      exact hih

theorem Segment.setBefore (h : Segment L before first l last after) (hnodup : l.Nodup)
    (before' : Option α) :
    Segment (L.setPrev first before') before' first l (if l = [] then before' else last) after := by
  cases l with
  | nil => exact ⟨if_pos rfl, h.2⟩
  | cons b l =>
    obtain ⟨rfl, hprev, h⟩ := h
    obtain ⟨hb, -⟩ := List.nodup_cons.mp hnodup
    rw [if_neg (List.cons_ne_nil b l)]
    refine ⟨rfl, Function.update_self .., ?_⟩
    refine h.frame fun a ha => ⟨rfl, ?_⟩
    exact prev_setPrev_of_ne fun hab => hb (Option.some.inj hab ▸ ha)

/-! ## Whole lists -/

/-- The list from `head` on: nothing stands before it and nothing after it. -/
def IsList (L : Links α) (head : Option α) (l : List α) : Prop :=
  Segment L none head l l.getLast? none

omit [DecidableEq α] in
theorem isList_nil : IsList L first [] ↔ first = none := by
  rw [IsList, segment_nil]
  exact ⟨fun h => h.2.symm, fun h => ⟨rfl, h.symm⟩⟩

omit [DecidableEq α] in
theorem IsList.head (h : IsList L first l) : first = l.head? := by
  cases l with
  | nil => exact isList_nil.mp h
  | cons a l => exact h.1

omit [DecidableEq α] in
theorem isList_of_segment (h : Segment L none first l last none) : IsList L first l := by
  cases l with
  | nil => exact isList_nil.mpr h.2.symm
  | cons a l =>
    rw [IsList, ← (h.ends (List.cons_ne_nil a l)).2]
    exact h

omit [DecidableEq α] in
theorem IsList.frame (h : IsList L first l)
    (hframe : ∀ a ∈ l, L'.next a = L.next a ∧ L'.prev a = L.prev a) : IsList L' first l :=
  Segment.frame h hframe

omit [DecidableEq α] in
theorem Segment.unique (h : Segment L before first l last none)
    (h' : Segment L before first l' last' none) : l = l' := by
  induction l generalizing before first l' with
  | nil =>
    cases l' with
    | nil => rfl
    | cons a l' => cases h.2.trans h'.1
  | cons a l ih =>
    cases l' with
    | nil => cases h'.2.trans h.1
    | cons b l' =>
      cases h.1.symm.trans h'.1
      rw [ih h.2.2 h'.2.2]

omit [DecidableEq α] in
theorem IsList.unique (h : IsList L first l) (h' : IsList L first l') : l = l' :=
  Segment.unique h h'

omit [DecidableEq α] in
theorem IsList.neighbours (h : IsList L first (l1 ++ a :: l2)) :
    L.next a = l2.head? ∧ L.prev a = l1.getLast? := by
  obtain ⟨m, n, h1, -, hprev, h2⟩ := segment_append.mp h
  refine ⟨?_, ?_⟩
  · cases l2 with
    | nil => exact h2.2.symm
    | cons b l2 => exact h2.1
  · rw [hprev]
    cases l1 with
    | nil => exact h1.1
    | cons b l1 => exact (h1.ends (List.cons_ne_nil b l1)).2

theorem IsList.append (h : IsList L first l) (hnodup : l.Nodup)
    (hnew : L'.next a = none ∧ L'.prev a = l.getLast?)
    (hold : ∀ b ∈ l, L'.next b = (L.setNext l.getLast? (some a)).next b ∧ L'.prev b = L.prev b) :
    IsList L' (if l = [] then some a else first) (l ++ [a]) := by
  have hseg : Segment L' none (if l = [] then some a else first) (l ++ [a]) (some a) none := by
    refine segment_append.mpr ⟨l.getLast?, some a, ?_, ?_⟩
    · refine (Segment.setAfter h hnodup (fun _ _ => nofun) (some a)).frame fun b hb => ?_
      rw [prev_setNext]
      exact hold b hb
    · exact segment_singleton.mpr ⟨rfl, hnew.2, rfl, hnew.1.symm⟩
  exact isList_of_segment hseg

theorem IsList.push (h : IsList L first l) (hnodup : l.Nodup)
    (hnew : L'.next a = first ∧ L'.prev a = none)
    (hold : ∀ b ∈ l, L'.next b = L.next b ∧ L'.prev b = (L.setPrev first (some a)).prev b) :
    IsList L' (some a) (a :: l) := by
  have hseg : Segment L' none (some a) (a :: l) (if l = [] then some a else l.getLast?) none := by
    refine ⟨rfl, hnew.2, ?_⟩
    rw [hnew.1]
    refine (Segment.setBefore h hnodup (some a)).frame fun b hb => ?_
    rw [next_setPrev]
    exact hold b hb
  exact isList_of_segment hseg

theorem IsList.unlink (h : IsList L first (l1 ++ a :: l2)) (hnodup : (l1 ++ a :: l2).Nodup)
    (hold : ∀ b ∈ l1 ++ l2, L'.next b = (L.setNext (L.prev a) (L.next a)).next b ∧
      L'.prev b = (L.setPrev (L.next a) (L.prev a)).prev b) :
    IsList L' (if first = some a then L.next a else first) (l1 ++ l2) := by
  obtain ⟨m, n, h1, rfl, hprev, h2⟩ := segment_append.mp h
  obtain ⟨hnodup1, hnodup2, hdisj⟩ := List.nodup_append'.mp hnodup
  obtain ⟨ha2, hnodup2⟩ := List.nodup_cons.mp hnodup2
  have ha1 : a ∉ l1 := fun ha => hdisj ha (List.mem_cons_self ..)
  -- the first pointer is written when no node stands before the one that is unlinked
  have hfirst : (if first = some a then L.next a else first) =
      if l1 = [] then L.next a else first := by
    cases l1 with
    | nil => rw [if_pos h1.2.symm, if_pos rfl]
    | cons c l1 =>
      rw [if_neg (List.cons_ne_nil c l1), if_neg]
      rw [h1.1]
      exact fun hca => ha1 (Option.some.inj hca ▸ List.mem_cons_self ..)
  have hm : ∀ b ∈ l2, m ≠ some b := by
    intro b hb hmb
    cases l1 with
    | nil =>
      rw [h1.1] at hmb
      cases hmb
    | cons c l1 =>
      rw [(h1.ends (List.cons_ne_nil c l1)).2] at hmb
      exact hdisj (List.mem_of_getLast? hmb) (.tail a hb)
  have hn : ∀ b ∈ l1, L.next a ≠ some b := by
    intro b hb hnb
    cases l2 with
    | nil =>
      rw [← h2.2] at hnb
      cases hnb
    | cons c l2 =>
      cases h2.1.symm.trans hnb
      exact hdisj hb (.tail a (List.mem_cons_self ..))
  have h1' := h1.setAfter hnodup1 (fun _ _ => nofun) (L.next a)
  have h2' := h2.setBefore hnodup2 m
  rw [hfirst]
  refine isList_of_segment (segment_append.mpr ⟨m, L.next a, h1'.frame fun b hb => ?_,
    h2'.frame fun b hb => ?_⟩)
  · obtain ⟨hnext, hprev'⟩ := hold b (List.mem_append_left l2 hb)
    rw [hnext, hprev', hprev, prev_setNext, prev_setPrev_of_ne (hn b hb)]
    exact ⟨rfl, rfl⟩
  · obtain ⟨hnext, hprev'⟩ := hold b (List.mem_append_right l1 hb)
    rw [hnext, hprev', hprev, next_setPrev, next_setNext_of_ne (hm b hb)]
    exact ⟨rfl, rfl⟩

omit [DecidableEq α] in
theorem IsList.next_iff_prev (h : IsList L first l) (hnodup : l.Nodup) (ha : a ∈ l) (hb : b ∈ l) :
    L.next a = some b ↔ L.prev b = some a := by
  exact Segment.next_iff_prev h hnodup (fun _ _ => nofun) (fun _ _ => nofun) ha hb

end

/-! ## Chains -/

/-- The nodes from the pointer `first` on, when every node has a pointer to the next one. -/
def Chain (next : α → Option α) : Option α → List α → Prop
  | first, [] => first = none
  | first, a :: l => first = some a ∧ Chain next (next a) l

variable {next : α → Option α} {first : Option α} {l : List α}

theorem Chain.frame {next' : α → Option α} (h : Chain next first l)
    (hframe : ∀ a ∈ l, next' a = next a) : Chain next' first l := by
  induction l generalizing first with
  | nil => exact h
  | cons a l ih =>
    refine ⟨h.1, ?_⟩
    rw [hframe a List.mem_cons_self]
    exact ih h.2 fun b hb => hframe b (.tail a hb)

theorem Chain.eq {l' : List α} (h : Chain next first l) (h' : Chain next first l') : l = l' := by
  induction l generalizing first l' with
  | nil =>
    cases l' with
    | nil => rfl
    | cons b l' => cases h.symm.trans h'.1
  | cons a l ih =>
    cases l' with
    | nil => cases h'.symm.trans h.1
    | cons b l' =>
      cases h.1.symm.trans h'.1
      rw [ih h.2 h'.2]

theorem Chain.snoc {next' : α → Option α} {z b : α} (h : Chain next first l) (hnodup : l.Nodup)
    (hlast : l.getLast? = some z) (hz : next' z = some b) (hb : next' b = none)
    (hframe : ∀ a ∈ l, a ≠ z → next' a = next a) : Chain next' first (l ++ [b]) := by
  induction l generalizing first with
  | nil => cases hlast
  | cons a l ih =>
    refine ⟨h.1, ?_⟩
    cases l with
    | nil =>
      cases hlast
      exact ⟨hz, hb⟩
    | cons a' l =>
      rw [List.getLast?_cons_cons] at hlast
      have hne : a ≠ z := by
        rintro rfl
        exact (List.nodup_cons.mp hnodup).1 (List.mem_of_getLast? hlast)
      rw [hframe a List.mem_cons_self hne]
      exact ih h.2 hnodup.of_cons hlast fun c hc => hframe c (.tail a hc)

end CloudNfs.DoublyLinked
