import CloudNfs.DoublyLinked

/-!
# Circular lists

Doubly linked lists that begin and end at a node of their own, the head. An empty list is a head
that points to itself.

* `Path` — the nodes from one to another, every two neighbours pointing to each other.
* `Ring` — a list with its head.
* `Links.insert`, `Links.remove` — the writes that put a node between two others and take it out.
* `Ring.insertFirst`, `Ring.insertLast`, `Ring.removeFirst` — what they do to the list.
-/

namespace CloudNfs.DoublyLinked

universe u

variable {α : Type u}

def Joined (L : Links α) (a b : α) : Prop := L.next a = some b ∧ L.prev b = some a

/-- The nodes between `a` and `b`. -/
def Path (L : Links α) : α → List α → α → Prop
  | a, [], b => Joined L a b
  | a, x :: l, b => Joined L a x ∧ Path L x l b

structure Ring (L : Links α) (head : α) (l : List α) : Prop where
  path : Path L head l head
  nodup : (head :: l).Nodup

section

variable {L L' : Links α} {a a' b b' head x : α} {l : List α}

theorem Path.frame (h : Path L a l b) (hnext : ∀ c ∈ a :: l, L'.next c = L.next c)
    (hprev : ∀ c ∈ l ++ [b], L'.prev c = L.prev c) : Path L' a l b := by
  induction l generalizing a with
  | nil =>
    exact ⟨(hnext a (.head _)).trans h.1, (hprev b (.head _)).trans h.2⟩
  | cons y l ih =>
    refine ⟨⟨(hnext a (.head _)).trans h.1.1,
      (hprev y (.head _)).trans h.1.2⟩, ?_⟩
    exact ih h.2 (fun c hc => hnext c (.tail a hc))
      fun c hc => hprev c (.tail y hc)

theorem Path.rehead (h : Path L a l b) (hnodup : (l ++ [b]).Nodup) (ha : L'.next a' = L.next a)
    (hfirst : ∀ c, L.next a = some c → L'.prev c = some a') (hnext : ∀ c ∈ l, L'.next c = L.next c)
    (hprev : ∀ c ∈ l ++ [b], L.next a ≠ some c → L'.prev c = L.prev c) : Path L' a' l b := by
  cases l with
  | nil => exact ⟨ha.trans h.1, hfirst b h.1⟩
  | cons y l =>
    refine ⟨⟨ha.trans h.1.1, hfirst y h.1.1⟩, h.2.frame hnext fun c hc => ?_⟩
    refine hprev c (.tail y hc) fun heq => ?_
    cases h.1.1.symm.trans heq
    exact (List.nodup_cons.mp hnodup).1 hc

theorem Path.prev_mem (h : Path L a l b) : ∃ c ∈ a :: l, L.prev b = some c := by
  induction l generalizing a with
  | nil => exact ⟨a, List.mem_cons_self, h.2⟩
  | cons y l ih =>
    obtain ⟨c, hc, hprev⟩ := ih h.2
    exact ⟨c, List.mem_cons_of_mem a hc, hprev⟩

theorem Path.reend (h : Path L a l b) (hnodup : (a :: l).Nodup) (hb : L'.prev b' = L.prev b)
    (hlast : ∀ c, L.prev b = some c → L'.next c = some b')
    (hnext : ∀ c ∈ a :: l, L.prev b ≠ some c → L'.next c = L.next c)
    (hprev : ∀ c ∈ l, L'.prev c = L.prev c) : Path L' a l b' := by
  induction l generalizing a with
  | nil => exact ⟨hlast a h.2, hb.trans h.2⟩
  | cons y l ih =>
    obtain ⟨ha, hnodup⟩ := List.nodup_cons.mp hnodup
    obtain ⟨c, hc, hlastNode⟩ := h.2.prev_mem
    have hne : L.prev b ≠ some a := by
      intro heq
      cases hlastNode.symm.trans heq
      exact ha hc
    refine ⟨⟨(hnext a List.mem_cons_self hne).trans h.1.1,
      (hprev y (.head _)).trans h.1.2⟩, ?_⟩
    exact ih h.2 hnodup (fun c hc => hnext c (.tail a hc))
      fun c hc => hprev c (.tail y hc)

theorem Path.concat (h : Path L a l x) (hx : Joined L x b) : Path L a (l ++ [x]) b := by
  induction l generalizing a with
  | nil => exact ⟨h, hx⟩
  | cons y l ih => exact ⟨h.1, ih h.2⟩

theorem Path.next_mem (h : Path L a l b) : ∃ c ∈ l ++ [b], L.next a = some c := by
  cases l with
  | nil => exact ⟨b, List.mem_cons_self, h.1⟩
  | cons y l => exact ⟨y, List.mem_cons_self, h.1.1⟩

theorem Ring.frame (h : Ring L head l)
    (hframe : ∀ c ∈ head :: l, L'.next c = L.next c ∧ L'.prev c = L.prev c) : Ring L' head l := by
  refine ⟨h.path.frame (fun c hc => (hframe c hc).1) fun c hc => (hframe c ?_).2, h.nodup⟩
  rcases List.mem_append.mp hc with hc | hc
  · exact .tail head hc
  · exact List.mem_singleton.mp hc ▸ List.mem_cons_self

theorem Ring.mem_of_next (h : Ring L head l) {c : α} (hc : L.next head = some c) :
    c ∈ head :: l := by
  obtain ⟨d, hd, hnext⟩ := h.path.next_mem
  cases hnext.symm.trans hc
  exact (List.perm_append_singleton head l).mem_iff.mp hd

theorem Ring.mem_of_prev (h : Ring L head l) {c : α} (hc : L.prev head = some c) :
    c ∈ head :: l := by
  obtain ⟨d, hd, hprev⟩ := h.path.prev_mem
  cases hprev.symm.trans hc
  exact hd

theorem ring_nil : Ring L head [] ↔ L.next head = some head ∧ L.prev head = some head :=
  ⟨fun h => h.path, fun h => ⟨h, List.nodup_singleton head⟩⟩

theorem Ring.next_head (h : Ring L head l) : L.next head = some (l.headD head) := by
  cases l with
  | nil => exact h.path.1
  | cons x l => exact h.path.1.1

theorem Ring.next_first (h : Ring L head (x :: l)) : L.next x = some (l.headD head) := by
  cases l with
  | nil => exact h.path.2.1
  | cons y l => exact h.path.2.1.1

end

/-! ## Writes -/

variable [DecidableEq α] {L : Links α} {left right : Option α} {c head x : α} {l : List α}

/-- Write the node `x` between two others. -/
def Links.insert (L : Links α) (left right : Option α) (x : α) : Links α :=
  ((Links.mk (Function.update L.next x right) (Function.update L.prev x left)).setNext left
    (some x)).setPrev right (some x)

def Links.remove (L : Links α) (x : α) : Links α :=
  let L := (L.setNext (L.prev x) (L.next x)).setPrev (L.next x) (L.prev x)
  ⟨Function.update L.next x none, Function.update L.prev x none⟩

theorem next_insert : (L.insert left right x).next c =
    if left = some c then some x else if c = x then right else L.next c := by
  simp only [Links.insert, next_setPrev, next_setNext_apply, Function.update_apply]

theorem prev_insert : (L.insert left right x).prev c =
    if right = some c then some x else if c = x then left else L.prev c := by
  simp only [Links.insert, prev_setPrev_apply, prev_setNext, Function.update_apply]

theorem next_remove : (L.remove x).next c =
    if c = x then none else if L.prev x = some c then L.next x else L.next c := by
  simp only [Links.remove, Function.update_apply, next_setPrev, next_setNext_apply]

theorem prev_remove : (L.remove x).prev c =
    if c = x then none else if L.next x = some c then L.prev x else L.prev c := by
  simp only [Links.remove, Function.update_apply, prev_setPrev_apply, prev_setNext]

theorem Ring.frame_insert (h : Ring L head l) (hx : x ∉ head :: l)
    (hleft : ∀ c ∈ head :: l, left ≠ some c) (hright : ∀ c ∈ head :: l, right ≠ some c) :
    Ring (L.insert left right x) head l := by
  refine h.frame fun c hc => ?_
  have hne : c ≠ x := fun heq => hx (heq ▸ hc)
  rw [next_insert, prev_insert, if_neg (hleft c hc), if_neg (hright c hc), if_neg hne, if_neg hne]
  exact ⟨rfl, rfl⟩

theorem Ring.frame_remove (h : Ring L head l) (hx : x ∉ head :: l)
    (hprev : ∀ c ∈ head :: l, L.prev x ≠ some c) (hnext : ∀ c ∈ head :: l, L.next x ≠ some c) :
    Ring (L.remove x) head l := by
  refine h.frame fun c hc => ?_
  have hne : c ≠ x := fun heq => hx (heq ▸ hc)
  rw [next_remove, prev_remove, if_neg hne, if_neg hne, if_neg (hprev c hc), if_neg (hnext c hc)]
  exact ⟨rfl, rfl⟩

theorem Ring.insertFirst (h : Ring L head l) (hx : x ∉ head :: l) :
    Ring (L.insert (some head) (L.next head) x) head (x :: l) := by
  obtain ⟨hhead, hl⟩ := List.nodup_cons.mp h.nodup
  obtain ⟨hxhead, hxl⟩ := List.ne_and_not_mem_of_not_mem_cons hx
  obtain ⟨first, hfirst, hnext⟩ := h.path.next_mem
  have hne : ∀ c ∈ l ++ [head], c ≠ x := by
    rintro c hc rfl
    rcases List.mem_append.mp hc with hc | hc
    · exact hxl hc
    · exact hxhead (List.mem_singleton.mp hc)
  refine ⟨⟨⟨?_, ?_⟩, ?_⟩, ?_⟩
  · rw [next_insert, if_pos rfl]
  · rw [prev_insert, hnext, if_neg fun heq => hne first hfirst (Option.some.inj heq), if_pos rfl]
  · refine h.path.rehead (List.nodup_append_comm.mp h.nodup) ?_ ?_ ?_ ?_
    · rw [next_insert, if_neg fun heq => hxhead (Option.some.inj heq).symm, if_pos rfl]
    · intro c hc
      rw [prev_insert, if_pos hc]
    · intro c hc
      rw [next_insert, if_neg, if_neg (hne c (List.mem_append_left _ hc))]
      rintro heq
      exact hhead (Option.some.inj heq ▸ hc)
    · intro c hc hfirst
      rw [prev_insert, if_neg hfirst, if_neg (hne c hc)]
  · rw [List.nodup_cons, List.nodup_cons, List.mem_cons, not_or]
    exact ⟨⟨Ne.symm hxhead, hhead⟩, hxl, hl⟩

theorem Ring.insertLast (h : Ring L head l) (hx : x ∉ head :: l) :
    Ring (L.insert (L.prev head) (some head) x) head (l ++ [x]) := by
  obtain ⟨hhead, hl⟩ := List.nodup_cons.mp h.nodup
  obtain ⟨hxhead, hxl⟩ := List.ne_and_not_mem_of_not_mem_cons hx
  obtain ⟨last, hlast, hprev⟩ := h.path.prev_mem
  have hne : ∀ c ∈ head :: l, c ≠ x := by
    rintro c hc rfl
    exact hx hc
  refine ⟨Path.concat (h.path.reend h.nodup ?_ ?_ ?_ ?_) ⟨?_, ?_⟩, ?_⟩
  · rw [prev_insert, if_neg fun heq => hxhead (Option.some.inj heq).symm, if_pos rfl]
  · intro c hc
    rw [next_insert, if_pos hc]
  · intro c hc hlast
    rw [next_insert, if_neg hlast, if_neg (hne c hc)]
  · intro c hc
    rw [prev_insert, if_neg, if_neg (hne c (.tail head hc))]
    rintro heq
    exact hhead (Option.some.inj heq ▸ hc)
  · rw [next_insert, hprev, if_neg fun heq => hne last hlast (Option.some.inj heq), if_pos rfl]
  · rw [prev_insert, if_pos rfl]
  · rw [← List.cons_append]
    exact List.nodup_append_comm.mp (List.nodup_cons.mpr ⟨hx, h.nodup⟩)

theorem Ring.removeFirst (h : Ring L head (x :: l)) : Ring (L.remove x) head l := by
  obtain ⟨⟨hnext, hprev⟩, hpath⟩ := h.path
  obtain ⟨hhead, hnodup⟩ := List.nodup_cons.mp h.nodup
  obtain ⟨hx, hl⟩ := List.nodup_cons.mp hnodup
  obtain ⟨hhx, hhl⟩ := List.ne_and_not_mem_of_not_mem_cons hhead
  have hring : (head :: l).Nodup := List.nodup_cons.mpr ⟨hhl, hl⟩
  have hne : ∀ c ∈ l ++ [head], c ≠ x := by
    rintro c hc rfl
    rcases List.mem_append.mp hc with hc | hc
    · exact hx hc
    · exact hhx (List.mem_singleton.mp hc).symm
  obtain ⟨second, hsecond, hnextx⟩ := hpath.next_mem
  refine ⟨hpath.rehead (List.nodup_append_comm.mp hring) ?_ ?_ ?_ ?_, hring⟩
  · rw [next_remove, if_neg hhx, hprev, if_pos rfl]
  · intro c hc
    cases hnextx.symm.trans hc
    rw [prev_remove, if_neg (hne _ hsecond), if_pos hc, hprev]
  · intro c hc
    rw [next_remove, if_neg (hne c (List.mem_append_left _ hc)), if_neg]
    rw [hprev]
    rintro heq
    exact hhl (Option.some.inj heq ▸ hc)
  · intro c hc hfirst
    rw [prev_remove, if_neg (hne c hc), if_neg hfirst]

end CloudNfs.DoublyLinked
