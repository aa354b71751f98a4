import CloudNfs.MfslAsync
import Mathlib.Data.List.Perm.Basic

/-!
# The order of asynchronous operations

The contract `OnceInOrder` holds in every run in which the dispatcher never gives an operation to a
synclet while **another** one has an operation on the same object or while it **collects** its list,
and no descriptor is released **before its caller has read it back** (`onceInOrder_of_keepsOrder`).

The invariant has three parts, by what the steps change:

* `Mem` — a descriptor that was posted and not released is at its address alone.
* `Queue` — what was given to synclets, and then what is valid in `async_op_lru`, are the postings
  in their order.
* `Work` — what was given is with one synclet, or executed and about to be released, or released;
  a synclet has its postings in their order.
-/

namespace CloudNfs.MfslAsync

open Function (update update_self update_of_ne)

open Prealloc (Apart Pools Spare)

/-! ### What a step can be -/

def SyncletPc.entry : SyncletPc → Option (ℕ × OpRef)
  | .execute k r | .release k r | .invalidate k r => some (k, r)
  | _ => none

/-- A synclet between two operations collects, and loses none. -/
structure Keeps (y y' : Synclet) : Prop where
  before : y.pc.entry = none
  after : y'.pc.entry = none
  validData : y'.opLru.validData = y.opLru.validData

theorem keeps_collect {y : Synclet} {k : ℕ} (hpc : y.pc = .collect k) : Keeps y (y.collect k) := by
  have hbefore : y.pc.entry = none := by
    rw [hpc]
    rfl
  rw [Synclet.collect]
  split
  next e he =>
    split
    · split
      next hvalid => exact ⟨hbefore, rfl, rfl⟩
      next hinvalid =>
        exact ⟨hbefore, hbefore, LruList.validData_takeOff he (Bool.not_eq_true _ ▸ hinvalid)⟩
    · exact ⟨hbefore, rfl, rfl⟩
  · exact ⟨hbefore, rfl, rfl⟩

inductive Move (par : Param) (s : Server) : Action → Server → Prop where
  | prepare (context : ℕ) (objects : List ℕ) (opTime : Timeval) (b : Bool) (p : ℕ) (pools : Pools)
      (hget : s.pools.get context par.nbPreAsyncOpDesc true = some (p, pools)) :
      Move par s (.prepare context objects opTime b) { s with
        pools := pools
        desc := update s.desc p ⟨objects, opTime, context, (s.desc p).posting⟩
        calls := s.calls ++ [.prepared p b] }
  | post (i p : ℕ) (b : Bool) (hcall : s.calls[i]? = some (.prepared p b))
      (hsleep : s.dispatcher = .sleep) : Move par s (.post i) { s with
        desc := update s.desc p { s.desc p with posting := s.postings.length }
        opLru := s.opLru.newEntry ⟨p, s.postings.length⟩
        calls := if b then s.calls.set i (.posted ⟨p, s.postings.length⟩) else s.calls.eraseIdx i
        postings := s.postings ++ [⟨p, (s.desc p).objects⟩] }
  | readBack (i : ℕ) (r : OpRef) (hcall : s.calls[i]? = some (.posted r)) :
      Move par s (.readBack i) { s with calls := s.calls.eraseIdx i }
  | wake (current : Timeval) (hsleep : s.dispatcher = .sleep) :
      Move par s (.wake current) { s with dispatcher := .walk 0 current }
  | done : Move par s .dispatcher (dispatcherEnd par s)
  | skip (k : ℕ) (current : Timeval) (hpc : s.dispatcher = .walk k current) (e : LruEntry OpRef)
      (he : s.opLru.entries[k]? = some e) (hinvalid : e.valid = false) :
      Move par s .dispatcher { s with dispatcher := .walk (k + 1) current }
  | give (k : ℕ) (current : Timeval) (hpc : s.dispatcher = .walk k current) (r : OpRef)
      (he : s.opLru.entries[k]? = some ⟨true, r⟩) (hgive : s.toGive par = some r) (c : ℕ)
      (hc : s.chosen par = some c) : Move par s .dispatcher (giveTo s k c current r)
  | search (i k : ℕ) (r : OpRef) (hi : i < par.nbSynclet) (hpc : (s.synclets i).pc = .idle)
      (hfirst : (s.synclets i).opLru.FirstAt k r) :
      Move par s (.synclet i) (s.modify i fun y => { y with pc := .execute k r })
  | execute (i k : ℕ) (r : OpRef) (hi : i < par.nbSynclet)
      (hpc : (s.synclets i).pc = .execute k r) :
      Move par s (.synclet i) { s.modify i (fun y => { y with pc := .release k r }) with
        executed := s.executed ++ [(s.desc r.addr).posting] }
  | release (i k : ℕ) (r : OpRef) (hi : i < par.nbSynclet)
      (hpc : (s.synclets i).pc = .release k r) :
      Move par s (.synclet i)
        { s.modify i (fun y => { y with passcounter := y.passcounter + 1, pc := .invalidate k r })
          with
          pools := s.pools.release (s.desc r.addr).context r.addr
          released := s.released ++ [(s.desc r.addr).posting] }
  | invalidate (i k : ℕ) (r : OpRef) (hi : i < par.nbSynclet)
      (hpc : (s.synclets i).pc = .invalidate k r) :
      Move par s (.synclet i)
        (s.modify i fun y => { y with opLru := y.opLru.invalidate k, pc := .test })
  | collect (i : ℕ) (hi : i < par.nbSynclet) (f : Synclet → Synclet)
      (hf : Keeps (s.synclets i) (f (s.synclets i))) : Move par s (.synclet i) (s.modify i f)

section Moves

variable {par : Param} {s t : Server} {a : Action}

theorem move_dispatcher (h : dispatcherStep par s = some t) : Move par s .dispatcher t := by
  cases hpc : s.dispatcher with
  | sleep => simp [dispatcherStep, hpc] at h
  | walk k current =>
    simp only [dispatcherStep, hpc] at h
    split at h
    next hnone =>
      cases h
      exact .done
    rename_i e he
    split at h
    next hvalid =>
      split at h
      next hyoung =>
        cases h
        exact .done
      rename_i hold
      obtain ⟨c, hc, rfl⟩ := Option.map_eq_some_iff.mp h
      obtain ⟨valid, r⟩ := e
      obtain rfl : valid = true := hvalid
      refine .give k current hpc r he ?_ c hc
      simp only [Server.toGive, hpc, he, Option.bind_some, Bool.true_and]
      rw [if_pos (by simpa using hold)]
    next hinvalid =>
      cases h
      exact .skip k current hpc e he (Bool.not_eq_true _ ▸ hinvalid)

theorem move_synclet {i : ℕ} (hi : i < par.nbSynclet) (h : syncletStep par s i = some t) :
    Move par s (.synclet i) t := by
  cases hpc : (s.synclets i).pc with
  | idle =>
    simp only [syncletStep, hpc, Option.ite_none_left_eq_some] at h
    obtain ⟨-, h⟩ := h
    split at h
    next k r hfirst =>
      cases h
      exact .search i k r hi hpc (LruList.firstAt_of_firstValid hfirst)
    · cases h
  | execute k r =>
    simp only [syncletStep, hpc] at h
    cases h
    exact .execute i k r hi hpc
  | release k r =>
    simp only [syncletStep, hpc] at h
    cases h
    exact .release i k r hi hpc
  | invalidate k r =>
    simp only [syncletStep, hpc] at h
    cases h
    exact .invalidate i k r hi hpc
  | test =>
    have hbefore : (s.synclets i).pc.entry = none := by
      rw [hpc]
      rfl
    simp only [syncletStep, hpc] at h
    split at h
    · cases h
      refine .collect i hi _ ?_
      split
      · exact ⟨hbefore, rfl, rfl⟩
      · exact ⟨hbefore, rfl, rfl⟩
    · cases h
      exact .collect i hi _ ⟨hbefore, rfl, rfl⟩
  | collect k =>
    simp only [syncletStep, hpc] at h
    cases h
    exact .collect i hi _ (keeps_collect hpc)

theorem move_of_step (h : step par s a = some t) : Move par s a t := by
  cases a with
  | prepare context objects opTime b =>
    simp only [step, prepareStep] at h
    split at h
    next p pools hget =>
      cases h
      exact .prepare context objects opTime b p pools hget
    · cases h
  | post i =>
    simp only [step] at h
    split at h
    next p b hcall =>
      simp only [asyncPost, Option.ite_none_right_eq_some, Option.some.injEq] at h
      obtain ⟨hsleep, rfl⟩ := h
      exact .post i p b hcall hsleep
    · cases h
  | readBack i =>
    simp only [step] at h
    split at h
    next r hcall =>
      cases h
      exact .readBack i r hcall
    · cases h
  | wake current =>
    simp only [step, Option.ite_none_right_eq_some, Option.some.injEq] at h
    obtain ⟨hsleep, rfl⟩ := h
    exact .wake current hsleep
  | dispatcher => exact move_dispatcher h
  | synclet i =>
    simp only [step, Option.ite_none_right_eq_some] at h
    exact move_synclet h.1 h.2

end Moves

/-! ### The descriptors -/

def Call.prepares : Call → Option ℕ
  | .prepared p _ => some p
  | .posted _ => none

def prepared (calls : List Call) : List ℕ := calls.filterMap Call.prepares

namespace Server

/-- The posting `n` has its descriptor at the address `p`. -/
def PostedAt (s : Server) (n p : ℕ) : Prop := (s.postings[n]?).map (·.addr) = some p

/-- The descriptor of the posting `n` is at `p`, and not released. -/
def LiveAt (s : Server) (n p : ℕ) : Prop := s.PostedAt n p ∧ n ∉ s.released

def Used (s : Server) (p : ℕ) : Prop := p ∈ prepared s.calls ∨ ∃ n, s.LiveAt n p

end Server

/-- What holds of the descriptors. -/
structure Mem (s : Server) : Prop where
  apart : Apart s.pools s.Used
  nodup : (prepared s.calls).Nodup
  unposted : ∀ p ∈ prepared s.calls, ∀ n, ¬ s.LiveAt n p
  desc : ∀ n p, s.LiveAt n p → (s.desc p).posting = n
  refs : ∀ r, .posted r ∈ s.calls → s.PostedAt r.posting r.addr

section Mem

variable {par : Param} {s t : Server} {a : Action} {n p i : ℕ}

theorem postedAt_lt (h : s.PostedAt n p) : n < s.postings.length := by
  obtain ⟨x, hx, -⟩ := Option.map_eq_some_iff.mp h
  exact (List.getElem?_eq_some_iff.mp hx).1

variable {x : Posting} {b : Bool} {r : OpRef}

theorem postedAt_append {l : List Posting} (h : ((l ++ [x])[n]?).map (·.addr) = some p) :
    (l[n]?).map (·.addr) = some p ∨ n = l.length ∧ p = x.addr := by
  rcases Nat.lt_trichotomy n l.length with hlt | rfl | hgt
  · rw [List.getElem?_append_left hlt] at h
    exact .inl h
  · rw [List.getElem?_append_right (Nat.le_refl _), Nat.sub_self] at h
    exact .inr ⟨rfl, (Option.some.inj h).symm⟩
  · rw [List.getElem?_eq_none (by rwa [List.length_append])] at h
    cases h

theorem postedAt_of_append (h : s.PostedAt n p) :
    ((s.postings ++ [x])[n]?).map (·.addr) = some p := by
  rw [List.getElem?_append_left (postedAt_lt h)]
  exact h

theorem prepared_perm (hcall : s.calls[i]? = some (.prepared p b)) :
    (prepared s.calls).Perm
      (p :: prepared (if b then s.calls.set i (.posted r) else s.calls.eraseIdx i)) := by
  obtain ⟨hlt, hget⟩ := List.getElem?_eq_some_iff.mp hcall
  have hbefore := (List.getElem_cons_eraseIdx_perm hlt).symm.filterMap Call.prepares
  rw [hget] at hbefore
  cases b with
  | false => exact hbefore
  | true =>
    have hafter := (List.set_perm_cons_eraseIdx hlt (.posted r)).filterMap Call.prepares
    exact hbefore.trans (hafter.symm.cons p)

theorem posted_mem {r' : OpRef}
    (h : .posted r' ∈ if b then s.calls.set i (.posted r) else s.calls.eraseIdx i) :
    .posted r' ∈ s.calls ∨ r' = r := by
  cases b with
  | false => exact .inl (List.eraseIdx_subset h)
  | true =>
    rcases List.mem_or_eq_of_mem_set h with hmem | heq
    · exact .inl hmem
    · exact .inr (Call.posted.inj heq)

theorem mem_prepare (h : Mem s) {context : ℕ} {objects : List ℕ} {opTime : Timeval} {pools : Pools}
    (hget : s.pools.get context par.nbPreAsyncOpDesc true = some (p, pools)) :
    Mem { s with
      pools := pools
      desc := update s.desc p ⟨objects, opTime, context, (s.desc p).posting⟩
      calls := s.calls ++ [.prepared p b] } := by
  obtain ⟨hapart, hspare, hunused⟩ := h.apart.get hget
  have hprepared : prepared (s.calls ++ [.prepared p b]) = prepared s.calls ++ [p] := by
    rw [prepared, List.filterMap_append]
    rfl
  refine ⟨hapart.use hspare fun q hq => ?_, ?_, fun q hq n hlive => ?_, fun n q hlive => ?_,
    fun r hr => ?_⟩
  · rcases hq with hq | hq
    · rw [hprepared, List.mem_append, List.mem_singleton] at hq
      exact hq.imp_left Or.inl
    · exact .inl (.inr hq)
  · rw [hprepared, List.nodup_append]
    refine ⟨h.nodup, List.nodup_singleton p, fun q hq q' hq' heq => ?_⟩
    rw [heq, List.mem_singleton.mp hq'] at hq
    exact hunused (.inl hq)
  · rw [hprepared, List.mem_append, List.mem_singleton] at hq
    rcases hq with hq | rfl
    · exact h.unposted q hq n hlive
    · exact hunused (.inr ⟨n, hlive⟩)
  · have hne : q ≠ p := by
      rintro rfl
      exact hunused (.inr ⟨n, hlive⟩)
    simp only [update_of_ne hne]
    exact h.desc n q hlive
  · rw [List.mem_append, List.mem_singleton] at hr
    exact h.refs r (hr.resolve_right Call.noConfusion)

theorem mem_post (h : Mem s) (hcall : s.calls[i]? = some (.prepared p b)) :
    Mem { s with
      desc := update s.desc p { s.desc p with posting := s.postings.length }
      opLru := s.opLru.newEntry ⟨p, s.postings.length⟩
      calls := if b then s.calls.set i (.posted ⟨p, s.postings.length⟩) else s.calls.eraseIdx i
      postings := s.postings ++ [⟨p, (s.desc p).objects⟩] } := by
  have hperm := prepared_perm (r := ⟨p, s.postings.length⟩) hcall
  obtain ⟨hp, hnodup⟩ := List.nodup_cons.mp (hperm.nodup_iff.mp h.nodup)
  have hpmem : p ∈ prepared s.calls := hperm.mem_iff.mpr List.mem_cons_self
  -- the live descriptors are those from before, and the one that is posted
  have hlive : ∀ {n q}, Server.LiveAt { s with
      desc := update s.desc p { s.desc p with posting := s.postings.length }
      opLru := s.opLru.newEntry ⟨p, s.postings.length⟩
      calls := if b then s.calls.set i (.posted ⟨p, s.postings.length⟩) else s.calls.eraseIdx i
      postings := s.postings ++ [⟨p, (s.desc p).objects⟩] } n q →
      s.LiveAt n q ∨ n = s.postings.length ∧ q = p := by
    rintro n q ⟨hposted, hunreleased⟩
    exact (postedAt_append hposted).imp_left fun hold => ⟨hold, hunreleased⟩
  refine ⟨h.apart.mono fun q hq => ?_, hnodup, fun q hq n hq' => ?_, fun n q hq => ?_,
    fun r hr => ?_⟩
  · rcases hq with hq | ⟨n, hq⟩
    · exact .inl (hperm.mem_iff.mpr (.tail p hq))
    · rcases hlive hq with hold | ⟨-, rfl⟩
      · exact .inr ⟨n, hold⟩
      · exact .inl hpmem
  · rcases hlive hq' with hold | ⟨-, rfl⟩
    · exact h.unposted q (hperm.mem_iff.mpr (.tail p hq)) n hold
    · exact hp hq
  · rcases hlive hq with hold | ⟨rfl, rfl⟩
    · have hne : q ≠ p := by
        rintro rfl
        exact h.unposted q hpmem n hold
      simp only [update_of_ne hne]
      exact h.desc n q hold
    · simp only [update_self]
  · rcases posted_mem hr with hold | rfl
    · exact postedAt_of_append (h.refs r hold)
    · simp only [Server.PostedAt]
      rw [List.getElem?_append_right (Nat.le_refl _), Nat.sub_self]
      rfl

theorem mem_release (h : Mem s) {f : Synclet → Synclet} (context : ℕ)
    (hlive : s.LiveAt r.posting r.addr) :
    Mem { s.modify i f with
      pools := s.pools.release context r.addr
      released := s.released ++ [(s.desc r.addr).posting] } := by
  rw [h.desc r.posting r.addr hlive]
  have hlive' : ∀ {n q}, s.PostedAt n q ∧ n ∉ s.released ++ [r.posting] →
      s.LiveAt n q ∧ q ≠ r.addr := by
    rintro n q ⟨hposted, hunreleased⟩
    rw [List.mem_append, List.mem_singleton, not_or] at hunreleased
    have hq : s.LiveAt n q := ⟨hposted, hunreleased.1⟩
    refine ⟨hq, ?_⟩
    rintro rfl
    exact hunreleased.2 ((h.desc n _ hq).symm.trans (h.desc r.posting _ hlive))
  refine ⟨h.apart.release (.inr ⟨r.posting, hlive⟩) fun q hq => ?_, h.nodup,
    fun q hq n hq' => h.unposted q hq n (hlive' hq').1, fun n q hq => h.desc n q (hlive' hq).1,
    h.refs⟩
  rcases hq with hq | ⟨n, hq⟩
  · refine ⟨.inl hq, ?_⟩
    rintro rfl
    exact h.unposted _ hq r.posting hlive
  · exact ⟨.inr ⟨n, (hlive' hq).1⟩, (hlive' hq).2⟩

theorem mem_readBack (h : Mem s) : Mem { s with calls := s.calls.eraseIdx i } := by
  have hsub : (prepared (s.calls.eraseIdx i)).Sublist (prepared s.calls) :=
    (List.eraseIdx_sublist s.calls i).filterMap Call.prepares
  refine ⟨h.apart.mono fun q hq => hq.imp_left fun hq => hsub.subset hq, h.nodup.sublist hsub,
    fun p hp => h.unposted p (hsub.subset hp), h.desc,
    fun r hr => h.refs r (List.eraseIdx_subset hr)⟩

end Mem

/-! ### The queue -/

/-- What holds of `async_op_lru`. -/
structure Queue (s : Server) : Prop where
  waiting : s.given ++ s.opLru.validData.map (·.posting) = List.range s.postings.length
  given : ∀ e ∈ s.opLru.entries, e.valid = false → e.pdata.posting ∈ s.given
  refs : ∀ r ∈ s.opLru.validData, s.PostedAt r.posting r.addr
  passed : ∀ k current, s.dispatcher = .walk k current → ∀ j < k, ∀ e,
    s.opLru.entries[j]? = some e → e.valid = false

section Queue

variable {par : Param} {s t : Server} {a : Action} {k : ℕ} {current : Timeval} {r : OpRef}

theorem Queue.given_eq (h : Queue s) : s.given = List.range s.given.length := by
  have hprefix : s.given <+: List.range s.postings.length := ⟨_, h.waiting⟩
  have hlength := hprefix.length_le
  rw [List.length_range] at hlength
  calc s.given = (List.range s.postings.length).take s.given.length :=
        List.prefix_iff_eq_take.mp hprefix
    _ = List.range s.given.length := by rw [List.take_range, Nat.min_eq_left hlength]

theorem Queue.mem_given (h : Queue s) {n : ℕ} : n ∈ s.given ↔ n < s.given.length := by
  rw [h.given_eq, List.mem_range, List.length_range]

theorem Queue.length_le (h : Queue s) : s.given.length ≤ s.postings.length := by
  have hlength := congrArg List.length h.waiting
  rw [List.length_append, List.length_range] at hlength
  exact hlength ▸ Nat.le_add_right _ _

theorem Queue.firstAt (h : Queue s) (hpc : s.dispatcher = .walk k current)
    (he : s.opLru.entries[k]? = some ⟨true, r⟩) : s.opLru.FirstAt k r :=
  LruList.firstAt_of_getElem? he (h.passed k current hpc)

theorem Queue.next (h : Queue s) (hfirst : s.opLru.FirstAt k r) : r.posting = s.given.length := by
  have hwaiting := h.waiting
  rw [hfirst.validData_eq, List.map_cons] at hwaiting
  have hget := congrArg (·[s.given.length]?) hwaiting
  simp only [List.getElem?_append_right (Nat.le_refl _), Nat.sub_self, List.getElem?_cons_zero]
    at hget
  obtain ⟨hlt, heq⟩ := List.getElem?_eq_some_iff.mp hget.symm
  rw [List.getElem_range] at heq
  exact heq.symm

theorem queue_frame (h : Queue s) (hlru : t.opLru = s.opLru) (hgiven : t.given = s.given)
    (hpostings : t.postings = s.postings)
    (hpassed : ∀ k current, t.dispatcher = .walk k current → ∀ j < k, ∀ e,
      s.opLru.entries[j]? = some e → e.valid = false) : Queue t := by
  refine ⟨?_, ?_, ?_, ?_⟩
  · rw [hlru, hgiven, hpostings]
    exact h.waiting
  · rw [hlru, hgiven]
    exact h.given
  · rw [hlru]
    simp only [Server.PostedAt, hpostings]
    exact h.refs
  · rw [hlru]
    exact hpassed

theorem queue_post (h : Queue s) (hsleep : t.dispatcher = .sleep) (hgiven : t.given = s.given)
    {p : ℕ} {objects : List ℕ} (hlru : t.opLru = s.opLru.newEntry ⟨p, s.postings.length⟩)
    (hpostings : t.postings = s.postings ++ [⟨p, objects⟩]) : Queue t := by
  refine ⟨?_, fun e he hinvalid => ?_, fun r hr => ?_, fun k current hpc => ?_⟩
  · rw [hlru, hgiven, hpostings, LruList.validData_newEntry, List.map_append, ← List.append_assoc,
      h.waiting, List.length_append, List.length_singleton, List.range_succ]
    rfl
  · rw [hlru] at he
    rcases List.mem_append.mp he with he | he
    · exact hgiven ▸ h.given e he hinvalid
    · rw [List.mem_singleton.mp he] at hinvalid
      cases hinvalid
  · rw [Server.PostedAt, hpostings]
    rw [hlru, LruList.validData_newEntry, List.mem_append, List.mem_singleton] at hr
    rcases hr with hr | rfl
    · exact postedAt_of_append (h.refs r hr)
    · rw [List.getElem?_append_right (Nat.le_refl _), Nat.sub_self]
      rfl
  · rw [hsleep] at hpc
    cases hpc

theorem queue_done (h : Queue s) : Queue (dispatcherEnd par s) := by
  rw [dispatcherEnd]
  split
  · refine ⟨?_, fun e he => ?_, ?_, fun k current hpc => by cases hpc⟩
    · simp only [LruList.validData_gcInvalid]
      exact h.waiting
    · exact h.given e (LruList.entries_gcInvalid_subset he)
    · simp only [LruList.validData_gcInvalid]
      exact h.refs
  · exact queue_frame h rfl rfl rfl fun k current hpc => by cases hpc

theorem queue_skip (h : Queue s) (hpc : s.dispatcher = .walk k current) {e : LruEntry OpRef}
    (he : s.opLru.entries[k]? = some e) (hinvalid : e.valid = false) :
    Queue { s with dispatcher := .walk (k + 1) current } := by
  refine queue_frame h rfl rfl rfl fun k' current' hpc' j hj e' he' => ?_
  obtain ⟨rfl, rfl⟩ := DispatcherPc.walk.inj hpc'
  rcases Nat.lt_succ_iff_lt_or_eq.mp hj with hlt | rfl
  · exact h.passed k current hpc j hlt e' he'
  · rw [he] at he'
    cases he'
    exact hinvalid

theorem queue_give (h : Queue s) (hfirst : s.opLru.FirstAt k r) {c : ℕ} :
    Queue (giveTo s k c current r) := by
  have hcons := hfirst.validData_eq
  obtain ⟨before, after, hsplit, hlength, hbefore, hafter⟩ := hfirst.entries_invalidate
  have hwaiting := h.waiting
  rw [hcons, List.map_cons] at hwaiting
  refine ⟨?_, fun e he hinvalid => ?_, fun q hq => ?_, fun k' current' hpc j hj e he => ?_⟩
  · simp only [giveTo, hfirst.validData_invalidate, List.append_assoc]
    exact hwaiting
  · simp only [giveTo, hafter] at he
    have hold : e ∈ s.opLru.entries ∨ e = ⟨false, r⟩ := by
      rw [hsplit]
      simp only [List.mem_append, List.mem_cons] at he ⊢
      tauto
    rcases hold with hold | rfl
    · exact List.mem_append_left _ (h.given e hold hinvalid)
    · exact List.mem_append_right _ (List.mem_singleton_self _)
  · simp only [giveTo, hfirst.validData_invalidate] at hq
    exact h.refs q (hcons ▸ List.mem_cons_of_mem r hq)
  · obtain ⟨rfl, rfl⟩ := DispatcherPc.walk.inj hpc
    simp only [giveTo, hafter] at he
    subst hlength
    rcases Nat.lt_succ_iff_lt_or_eq.mp hj with hlt | rfl
    · rw [List.getElem?_append_left hlt] at he
      exact hbefore e (List.mem_of_getElem? he)
    · rw [List.getElem?_append_right (Nat.le_refl _), Nat.sub_self] at he
      cases he
      rfl

theorem queue_move (h : Queue s) (hmove : Move par s a t) : Queue t := by
  cases hmove with
  | post i p b hcall hsleep => exact queue_post h hsleep rfl rfl rfl
  | wake current hsleep =>
    refine queue_frame h rfl rfl rfl fun k' current' hpc j hj => ?_
    obtain ⟨rfl, rfl⟩ := DispatcherPc.walk.inj hpc
    cases hj
  | done => exact queue_done h
  | skip k current hpc e he hinvalid => exact queue_skip h hpc he hinvalid
  | give k current hpc r he hgive c hc => exact queue_give h (h.firstAt hpc he)
  | prepare | readBack | search | execute | release | invalidate | collect =>
    exact queue_frame h rfl rfl rfl h.passed

end Queue

/-! ### The work -/

def Synclet.held (y : Synclet) : List OpRef :=
  match y.pc with
  | .invalidate _ _ => y.opLru.validData.tail
  | _ => y.opLru.validData

/-- Where a posting is that was given. -/
inductive Place where
  | synclet (i : ℕ)
  | released
  deriving DecidableEq

def Server.at (s : Server) (n : ℕ) : Place → ℕ
  | .synclet i => ((s.synclets i).held.map (·.posting)).count n
  | .released => s.released.count n

/-- What holds of the operations that were given. -/
structure Work (par : Param) (s : Server) : Prop where
  first : ∀ i k r, (s.synclets i).pc.entry = some (k, r) → (s.synclets i).opLru.FirstAt k r
  place : ∀ n ∈ s.given, OnePlace (s.at n)
  absent : ∀ n, n ∉ s.given → ∀ pl, s.at n pl = 0
  executed : ∀ n, n ∈ s.executed ↔
    n ∈ s.released ∨ ∃ i, ∃ r ∈ (s.synclets i).pc.releases, r.posting = n
  once : s.executed.Nodup
  refs : ∀ i, ∀ r ∈ (s.synclets i).held, s.PostedAt r.posting r.addr
  sorted : ∀ i, ((s.synclets i).held.map (·.posting)).Pairwise (· < ·)
  apart : ∀ i j, i ≠ j → ∀ q ∈ (s.synclets i).pending, ∀ r ∈ (s.synclets j).pending,
    ¬ Meets (s.objects q.posting) (s.objects r.posting)
  noOther : ∀ i, par.nbSynclet ≤ i → (s.synclets i).held = []

section Work

variable {par : Param} {s t : Server} {a : Action} {i k n : ℕ} {r : OpRef} {y : Synclet}

theorem held_execute (hfirst : y.opLru.FirstAt k r) (hpc : y.pc = .execute k r) :
    y.held = r :: y.held.tail ∧ y.pending = y.held := by
  simp only [Synclet.held, Synclet.pending, hpc, and_true]
  exact hfirst.validData_eq

theorem held_release (hfirst : y.opLru.FirstAt k r) (hpc : y.pc = .release k r) :
    y.held = r :: y.pending := by
  simp only [Synclet.held, Synclet.pending, hpc]
  exact hfirst.validData_eq

theorem mem_pending (hfirst : ∀ k r, y.pc.entry = some (k, r) → y.opLru.FirstAt k r)
    (hr : r ∈ y.held) : r ∈ y.pending ∨ r ∈ y.pc.releases := by
  cases hpc : y.pc with
  | release k q =>
    rw [held_release (hfirst k q (by rw [hpc]; rfl)) hpc] at hr
    rcases List.mem_cons.mp hr with rfl | hr
    · exact .inr rfl
    · exact .inl hr
  | idle | execute | invalidate | test | collect =>
    left
    simp only [Synclet.held, Synclet.pending, hpc] at hr ⊢
    exact hr

theorem pending_subset (hfirst : ∀ k r, y.pc.entry = some (k, r) → y.opLru.FirstAt k r) :
    y.pending ⊆ y.held := by
  intro q hq
  cases hpc : y.pc with
  | release k r =>
    rw [held_release (hfirst k r (by rw [hpc]; rfl)) hpc]
    exact .tail r hq
  | idle | execute | invalidate | test | collect =>
    simp only [Synclet.held, Synclet.pending, hpc] at hq ⊢
    exact hq

theorem at_synclet_pos (hr : r ∈ (s.synclets i).held) : s.at r.posting (.synclet i) ≠ 0 := by
  rw [Server.at, Ne, List.count_eq_zero, not_not]
  exact List.mem_map_of_mem hr

theorem at_released : s.at n .released = 0 ↔ n ∉ s.released := List.count_eq_zero

namespace Work

theorem mem_given (h : Work par s) (hr : r ∈ (s.synclets i).held) : r.posting ∈ s.given := by
  by_contra hnot
  exact at_synclet_pos hr (h.absent _ hnot _)

theorem released_given (h : Work par s) (hn : n ∈ s.released) : n ∈ s.given := by
  by_contra hnot
  exact at_released.mp (h.absent n hnot .released) hn

theorem not_released (h : Work par s) (hr : r ∈ (s.synclets i).held) : r.posting ∉ s.released :=
  at_released.mp ((h.place _ (h.mem_given hr)).eq_zero (at_synclet_pos hr) Place.noConfusion)

theorem eq_of_held (h : Work par s) {j : ℕ} {q : OpRef} (hr : r ∈ (s.synclets i).held)
    (hq : q ∈ (s.synclets j).held) (heq : q.posting = r.posting) : j = i := by
  by_contra hne
  refine at_synclet_pos hq ?_
  rw [heq]
  exact (h.place _ (h.mem_given hr)).eq_zero (at_synclet_pos hr) fun hpl =>
    hne (Place.synclet.inj hpl)

theorem liveAt (h : Work par s) (hr : r ∈ (s.synclets i).held) : s.LiveAt r.posting r.addr :=
  ⟨h.refs i r hr, h.not_released hr⟩

theorem executed_or_pending (h : Work par s) (hn : n ∈ s.given) :
    n ∈ s.executed ∨ ∃ i, ∃ r ∈ (s.synclets i).pending, r.posting = n := by
  obtain ⟨pl, hone, -⟩ := h.place n hn
  cases pl with
  | released =>
    refine .inl ((h.executed n).mpr (.inl ?_))
    exact List.count_pos_iff.mp (by rw [show s.released.count n = 1 from hone]; decide)
  | synclet j =>
    have hmem : n ∈ (s.synclets j).held.map (·.posting) := by
      refine List.count_pos_iff.mp ?_
      rw [show ((s.synclets j).held.map (·.posting)).count n = 1 from hone]
      decide
    obtain ⟨r, hr, rfl⟩ := List.mem_map.mp hmem
    rcases mem_pending (h.first j) hr with hpending | hreleases
    · exact .inr ⟨j, r, hpending, rfl⟩
    · exact .inl ((h.executed _).mpr (.inr ⟨j, r, hreleases, rfl⟩))

theorem not_executed (h : Work par s) (hpc : (s.synclets i).pc = .execute k r) :
    r.posting ∉ s.executed := by
  have hr : r ∈ (s.synclets i).held := by
    rw [(held_execute (h.first i k r (by rw [hpc]; rfl)) hpc).1]
    exact .head _
  rw [h.executed]
  rintro (hreleased | ⟨j, q, hq, heq⟩)
  · exact h.not_released hr hreleased
  · have hqheld : q ∈ (s.synclets j).held := by
      cases hpcj : (s.synclets j).pc with
      | release k' q' =>
        rw [hpcj] at hq
        obtain rfl : q' = q := Option.some.inj hq
        rw [held_release (h.first j k' q' (by rw [hpcj]; rfl)) hpcj]
        exact .head _
      | idle | execute | invalidate | test | collect => rw [hpcj] at hq; cases hq
    obtain rfl := h.eq_of_held hr hqheld heq
    rw [hpc] at hq
    cases hq

end Work

theorem objects_mono (h : s.postings <+: t.postings) (hn : n < s.postings.length) :
    t.objects n = s.objects n := by
  obtain ⟨l, hl⟩ := h
  rw [Server.objects, Server.objects, ← hl, List.getElem?_append_left hn]

theorem postedAt_mono (h : s.postings <+: t.postings) {p : ℕ} (hp : s.PostedAt n p) :
    t.PostedAt n p := by
  obtain ⟨l, hl⟩ := h
  rw [Server.PostedAt, ← hl, List.getElem?_append_left (postedAt_lt hp)]
  exact hp

theorem work_frame (h : Work par s)
    (hfirst : ∀ i k r, (t.synclets i).pc.entry = some (k, r) → (t.synclets i).opLru.FirstAt k r)
    (hheld : ∀ i, (t.synclets i).held = (s.synclets i).held)
    (hpending : ∀ i, (t.synclets i).pending = (s.synclets i).pending)
    (hreleases : ∀ i, (t.synclets i).pc.releases = (s.synclets i).pc.releases)
    (hgiven : t.given = s.given) (hreleased : t.released = s.released)
    (hexecuted : t.executed = s.executed) (hpostings : s.postings <+: t.postings) : Work par t := by
  have hat : ∀ n, t.at n = s.at n := by
    intro n
    funext pl
    cases pl with
    | synclet i => simp only [Server.at, hheld]
    | released => simp only [Server.at, hreleased]
  refine ⟨hfirst, fun n hn => ?_, fun n hn => ?_, fun n => ?_, ?_, fun i r hr => ?_, fun i => ?_,
    fun i j hne q hq r hr => ?_, fun i hi => ?_⟩
  · exact hat n ▸ h.place n (hgiven ▸ hn)
  · exact hat n ▸ h.absent n (hgiven ▸ hn)
  · simp only [hexecuted, hreleased, hreleases]
    exact h.executed n
  · exact hexecuted ▸ h.once
  · exact postedAt_mono hpostings (h.refs i r (hheld i ▸ hr))
  · exact hheld i ▸ h.sorted i
  · rw [hpending] at hq hr
    have hlt : ∀ {i : ℕ} {q : OpRef}, q ∈ (s.synclets i).pending →
        q.posting < s.postings.length :=
      fun hq => postedAt_lt (h.refs _ _ (pending_subset (h.first _) hq))
    rw [objects_mono hpostings (hlt hq), objects_mono hpostings (hlt hr)]
    exact h.apart i j hne q hq r hr
  · exact (hheld i).trans (h.noOther i hi)

variable {f : Synclet → Synclet}

theorem synclets_modify (i j : ℕ) :
    (s.modify i f).synclets j = if j = i then f (s.synclets i) else s.synclets j := by
  rw [Server.modify]
  exact Function.update_apply _ _ _ _

theorem work_synclet (h : Work par s)
    (hfirst : ∀ k r, (f (s.synclets i)).pc.entry = some (k, r) →
      (f (s.synclets i)).opLru.FirstAt k r) (hheld : (f (s.synclets i)).held = (s.synclets i).held)
    (hpending : (f (s.synclets i)).pending = (s.synclets i).pending)
    (hreleases : (f (s.synclets i)).pc.releases = (s.synclets i).pc.releases) :
    Work par (s.modify i f) := by
  refine work_frame h (fun j => ?_) (fun j => ?_) (fun j => ?_) (fun j => ?_) rfl rfl rfl
    (List.prefix_refl _)
  all_goals
    rw [synclets_modify]
    split
  · exact hfirst
  · exact h.first j
  next hj => exact hj ▸ hheld
  · rfl
  next hj => exact hj ▸ hpending
  · rfl
  next hj => exact hj ▸ hreleases
  · rfl

theorem held_newEntry (hfirst : ∀ k r, y.pc.entry = some (k, r) → y.opLru.FirstAt k r) :
    Synclet.held { y with opLru := y.opLru.newEntry r } = y.held ++ [r] := by
  cases hpc : y.pc with
  | invalidate k q =>
    have hcons := (hfirst k q (by rw [hpc]; rfl)).validData_eq
    simp only [Synclet.held, hpc, LruList.validData_newEntry]
    rw [hcons]
    rfl
  | idle | execute | release | test | collect =>
    simp only [Synclet.held, hpc, LruList.validData_newEntry]

theorem pending_newEntry (hfirst : ∀ k r, y.pc.entry = some (k, r) → y.opLru.FirstAt k r) :
    Synclet.pending { y with opLru := y.opLru.newEntry r } = y.pending ++ [r] := by
  cases hpc : y.pc with
  | release k q | invalidate k q =>
    have hcons := (hfirst k q (by rw [hpc]; rfl)).validData_eq
    simp only [Synclet.pending, hpc, LruList.validData_newEntry]
    rw [hcons]
    rfl
  | idle | execute | test | collect =>
    simp only [Synclet.pending, hpc, LruList.validData_newEntry]

section Give

variable {c : ℕ} {current : Timeval}

theorem synclets_giveTo (j : ℕ) :
    ((giveTo s k c current r).synclets j) =
      if j = c then { s.synclets c with opLru := (s.synclets c).opLru.newEntry r }
      else s.synclets j :=
  synclets_modify (s := s) (f := fun y => { y with opLru := y.opLru.newEntry r }) c j

theorem held_giveTo (h : Work par s) (j : ℕ) :
    ((giveTo s k c current r).synclets j).held =
      (s.synclets j).held ++ if j = c then [r] else [] := by
  rw [synclets_giveTo]
  split
  next hj =>
    subst hj
    exact held_newEntry (h.first j)
  · rw [List.append_nil]

theorem pending_giveTo (h : Work par s) (j : ℕ) :
    ((giveTo s k c current r).synclets j).pending =
      (s.synclets j).pending ++ if j = c then [r] else [] := by
  rw [synclets_giveTo]
  split
  next hj =>
    subst hj
    exact pending_newEntry (h.first j)
  · rw [List.append_nil]

theorem pc_giveTo (j : ℕ) : ((giveTo s k c current r).synclets j).pc = (s.synclets j).pc := by
  rw [synclets_giveTo]
  split
  next hj => rw [hj]
  · rfl

theorem at_giveTo (h : Work par s) (n : ℕ) (pl : Place) :
    (giveTo s k c current r).at n pl =
      s.at n pl + if pl = .synclet c then if n = r.posting then 1 else 0 else 0 := by
  cases pl with
  | released =>
    rw [if_neg Place.noConfusion]
    rfl
  | synclet j =>
    simp only [Server.at, held_giveTo h, List.map_append, List.count_append, Place.synclet.injEq]
    split
    · simp only [List.map_cons, List.map_nil, List.count_singleton, beq_iff_eq]
      simp only [eq_comm]
    · rfl

/-- An operation on other objects than those of the other synclets is given to a synclet. -/
theorem work_give (h : Work par s) (hposted : s.PostedAt r.posting r.addr)
    (hlast : ∀ n ∈ s.given, n < r.posting) (hc : c < par.nbSynclet)
    (hother : ∀ i < par.nbSynclet, i ≠ c → ∀ q ∈ (s.synclets i).pending,
      ¬ Meets (s.objects q.posting) (s.objects r.posting)) : Work par (giveTo s k c current r) := by
  have hnew : r.posting ∉ s.given := fun hmem => Nat.lt_irrefl _ (hlast _ hmem)
  have hother' : ∀ i, i ≠ c → ∀ q ∈ (s.synclets i).pending,
      ¬ Meets (s.objects q.posting) (s.objects r.posting) := by
    intro i hi q hq
    refine hother i (Nat.lt_of_not_le fun hle => ?_) hi q hq
    have hheld := pending_subset (h.first i) hq
    rw [h.noOther i hle] at hheld
    cases hheld
  refine ⟨fun j k' q hentry => ?_, fun n hn => ?_, fun n hn pl => ?_, fun n => ?_, h.once,
    fun j q hq => ?_, fun j => ?_, fun i j hne q hq q' hq' => ?_, fun j hj => ?_⟩
  · rw [pc_giveTo] at hentry
    have hfirst := h.first j k' q hentry
    rw [synclets_giveTo]
    split
    next hj =>
      subst hj
      exact hfirst.newEntry r
    · exact hfirst
  · rcases List.mem_append.mp hn with hn | hn
    · have hne : n ≠ r.posting := fun heq => hnew (heq ▸ hn)
      have hat : (giveTo s k c current r).at n = s.at n := by
        funext pl
        rw [at_giveTo h, if_neg hne, ite_self, Nat.add_zero]
      exact hat ▸ h.place n hn
    · rw [List.mem_singleton.mp hn]
      refine OnePlace.of_new (B := .synclet c) (h.absent r.posting hnew) fun pl => ?_
      rw [at_giveTo h, if_pos rfl]
  · have hn' : n ∉ s.given ∧ n ≠ r.posting :=
      ⟨fun hmem => hn (List.mem_append_left _ hmem),
        fun heq => hn (List.mem_append_right _ (heq ▸ List.mem_singleton_self _))⟩
    rw [at_giveTo h, h.absent n hn'.1, if_neg hn'.2, ite_self]
  · simp only [pc_giveTo]
    exact h.executed n
  · rw [held_giveTo h] at hq
    rcases List.mem_append.mp hq with hq | hq
    · exact h.refs j q hq
    · rw [List.mem_ite_nil_right, List.mem_singleton] at hq
      rw [hq.2]
      exact hposted
  · rw [held_giveTo h, List.map_append, List.pairwise_append]
    refine ⟨h.sorted j, ?_, fun n hn m hm => ?_⟩
    · split
      · exact List.pairwise_singleton _ _
      · exact List.Pairwise.nil
    · obtain ⟨q, hq, rfl⟩ := List.mem_map.mp hn
      obtain ⟨q', hq', rfl⟩ := List.mem_map.mp hm
      rw [List.mem_ite_nil_right, List.mem_singleton] at hq'
      rw [hq'.2]
      exact hlast _ (h.mem_given hq)
  · rw [pending_giveTo h, List.mem_append, List.mem_ite_nil_right, List.mem_singleton] at hq hq'
    rcases hq with hq | ⟨rfl, rfl⟩
    · rcases hq' with hq' | ⟨rfl, rfl⟩
      · exact h.apart i j hne q hq q' hq'
      · exact hother' i hne q hq
    · rcases hq' with hq' | ⟨rfl, -⟩
      · rintro ⟨x, hx, hx'⟩
        exact hother' j (Ne.symm hne) q' hq' ⟨x, hx', hx⟩
      · exact absurd rfl hne
  · have hne : j ≠ c := by omega
    rw [held_giveTo h, if_neg hne, List.append_nil]
    exact h.noOther j hj

end Give

theorem mem_held (h : Work par s) (hpc : (s.synclets i).pc = .execute k r ∨
    (s.synclets i).pc = .release k r) : r ∈ (s.synclets i).held := by
  rcases hpc with hpc | hpc
  · rw [(held_execute (h.first i k r (by rw [hpc]; rfl)) hpc).1]
    exact .head _
  · rw [held_release (h.first i k r (by rw [hpc]; rfl)) hpc]
    exact .head _

theorem work_execute (h : Work par s) (hpc : (s.synclets i).pc = .execute k r) :
    Work par { s.modify i (fun y => { y with pc := .release k r }) with
      executed := s.executed ++ [r.posting] } := by
  have hfirst := h.first i k r (by rw [hpc]; rfl)
  have hheld : ∀ j, ((s.modify i fun y => { y with pc := .release k r }).synclets j).held =
      (s.synclets j).held := by
    intro j
    rw [synclets_modify]
    split
    next hj => simp only [hj, Synclet.held, hpc]
    · rfl
  have hpending : ∀ j, ((s.modify i fun y => { y with pc := .release k r }).synclets j).pending ⊆
      (s.synclets j).pending := by
    intro j
    rw [synclets_modify]
    split
    next hj =>
      simp only [hj, Synclet.pending, hpc]
      exact List.tail_subset _
    · exact List.Subset.refl _
  have hat : ∀ n pl, (s.modify i fun y => { y with pc := .release k r }).at n pl = s.at n pl := by
    intro n pl
    cases pl with
    | synclet j => simp only [Server.at, hheld]
    | released => rfl
  refine ⟨fun j k' q hentry => ?_, fun n hn => ?_, fun n hn pl => ?_, fun n => ?_, ?_,
    fun j q hq => ?_, fun j => ?_, fun j j' hne q hq q' hq' => ?_, fun j hj => ?_⟩
  · rw [synclets_modify] at hentry ⊢
    split at hentry
    next hj =>
      cases hentry
      rw [if_pos hj]
      exact hfirst
    next hj =>
      rw [if_neg hj]
      exact h.first j k' q hentry
  · exact (funext (hat n) : _ = s.at n) ▸ h.place n hn
  · exact (hat n pl).trans (h.absent n hn pl)
  · rw [List.mem_append, List.mem_singleton, h.executed]
    constructor
    · rintro ((hreleased | ⟨j, q, hq, rfl⟩) | rfl)
      · exact .inl hreleased
      · refine .inr ⟨j, q, ?_, rfl⟩
        rw [synclets_modify, if_neg]
        · exact hq
        · rintro rfl
          rw [hpc] at hq
          cases hq
      · refine .inr ⟨i, r, ?_, rfl⟩
        rw [synclets_modify, if_pos rfl]
        rfl
    · rintro (hreleased | ⟨j, q, hq, rfl⟩)
      · exact .inl (.inl hreleased)
      · rw [synclets_modify] at hq
        split at hq
        · cases hq
          exact .inr rfl
        · exact .inl (.inr ⟨j, q, hq, rfl⟩)
  · rw [List.nodup_append]
    refine ⟨h.once, List.nodup_singleton _, fun n hn m hm heq => ?_⟩
    rw [heq, List.mem_singleton.mp hm] at hn
    exact h.not_executed hpc hn
  · exact h.refs j q (hheld j ▸ hq)
  · exact (hheld j).symm ▸ h.sorted j
  · exact h.apart j j' hne q (hpending j hq) q' (hpending j' hq')
  · exact (hheld j).trans (h.noOther j hj)

theorem work_release (h : Work par s) (hpc : (s.synclets i).pc = .release k r) {pools : Pools}
    {passcounter : UInt32} :
    Work par { s.modify i (fun y => { y with passcounter := passcounter, pc := .invalidate k r })
      with
      pools := pools
      released := s.released ++ [r.posting] } := by
  have hfirst := h.first i k r (by rw [hpc]; rfl)
  have hcons := held_release hfirst hpc
  let f : Synclet → Synclet := fun y => { y with passcounter := passcounter, pc := .invalidate k r }
  have hheld : ∀ j, (s.synclets j).held =
      (if j = i then [r] else []) ++ ((s.modify i f).synclets j).held := by
    intro j
    rw [synclets_modify]
    split
    next hj =>
      subst hj
      refine hcons.trans ?_
      simp only [f, Synclet.held, Synclet.pending, hpc]
      rfl
    · rfl
  have hsuffix : ∀ j, ((s.modify i f).synclets j).held <:+ (s.synclets j).held := by
    intro j
    rw [hheld j]
    exact List.suffix_append _ _
  have hpending : ∀ j, ((s.modify i f).synclets j).pending = (s.synclets j).pending := by
    intro j
    rw [synclets_modify]
    split
    next hj => simp only [f, hj, Synclet.pending, hpc]
    · rfl
  have hmem := mem_held h (.inr hpc)
  have hgiven := h.mem_given hmem
  -- what is released leaves its synclet
  have hat : ∀ n pl, Server.at
      { s.modify i f with
        pools := pools
        released := s.released ++ [r.posting] } n pl +
        (if pl = .synclet i then if n = r.posting then 1 else 0 else 0) =
      s.at n pl + if pl = .released then if n = r.posting then 1 else 0 else 0 := by
    intro n pl
    cases pl with
    | released =>
      rw [if_neg Place.noConfusion, if_pos rfl]
      simp only [Server.at, List.count_append, List.count_singleton, beq_iff_eq, Nat.add_zero]
      simp only [eq_comm]
    | synclet j =>
      simp only [Server.at, Place.synclet.injEq, reduceCtorEq, if_false, Nat.add_zero]
      conv_rhs => rw [hheld j, List.map_append, List.count_append, Nat.add_comm]
      split
      · simp only [List.map_cons, List.map_nil, List.count_singleton, beq_iff_eq]
        simp only [eq_comm]
      · rfl
  refine ⟨fun j k' q hentry => ?_, fun n hn => ?_, fun n hn pl => ?_, fun n => ?_, h.once,
    fun j q hq => ?_, fun j => ?_, fun j j' hne q hq q' hq' => ?_, fun j hj => ?_⟩
  · rw [synclets_modify] at hentry ⊢
    split at hentry
    next hj =>
      cases hentry
      rw [if_pos hj]
      exact hfirst
    next hj =>
      rw [if_neg hj]
      exact h.first j k' q hentry
  · exact (h.place n hn).move Place.noConfusion (hat n)
  · have hne : n ≠ r.posting := fun heq => hn (heq ▸ hgiven)
    have := hat n pl
    rw [if_neg hne, ite_self, ite_self, Nat.add_zero, Nat.add_zero] at this
    exact this.trans (h.absent n hn pl)
  · refine (h.executed n).trans ?_
    simp only [List.mem_append, List.mem_singleton]
    constructor
    · rintro (hreleased | ⟨j, q, hq, rfl⟩)
      · exact .inl (.inl hreleased)
      · by_cases hj : j = i
        · rw [hj, hpc] at hq
          cases hq
          exact .inl (.inr rfl)
        · refine .inr ⟨j, q, ?_, rfl⟩
          rw [synclets_modify, if_neg hj]
          exact hq
    · rintro ((hreleased | rfl) | ⟨j, q, hq, rfl⟩)
      · exact .inl hreleased
      · exact .inr ⟨i, r, by rw [hpc]; rfl, rfl⟩
      · rw [synclets_modify] at hq
        split at hq
        · cases hq
        · exact .inr ⟨j, q, hq, rfl⟩
  · exact h.refs j q ((hsuffix j).subset hq)
  · exact (h.sorted j).sublist ((hsuffix j).sublist.map _)
  · exact h.apart j j' hne q (hpending j ▸ hq) q' (hpending j' ▸ hq')
  · exact List.suffix_nil.mp (h.noOther j hj ▸ hsuffix j)

end Work

/-! ### The invariant -/

theorem chooseSynclet_lt {nbSynclet last c : ℕ} {nbEntry : ℕ → UInt32}
    (h : chooseSynclet nbSynclet last nbEntry = some c) : c < nbSynclet := by
  have hmod : ∀ {i cpt : ℕ}, cpt < nbSynclet → i % nbSynclet < nbSynclet :=
    fun hcpt => Nat.mod_lt _ (Nat.zero_lt_of_lt hcpt)
  refine (foldl_rest (I := fun (rest : List ℕ) (acc : Option ℕ × UInt32) =>
    (∀ cpt ∈ rest, cpt < nbSynclet) ∧ ∀ c ∈ acc.1, c < nbSynclet) (fun cpt rest acc hacc => ?_)
    (List.range nbSynclet) (none, 1000000)
    ⟨fun cpt hcpt => List.mem_range.mp hcpt, fun c hc => by cases hc⟩).2 c h
  obtain ⟨hrest, hacc⟩ := hacc
  refine ⟨fun cpt' hcpt' => hrest cpt' (.tail cpt hcpt'), ?_⟩
  simp only
  split
  · rintro c ⟨⟩
    exact hmod (hrest cpt (.head _))
  · exact hacc

/-- **The invariant.** -/
structure Inv (par : Param) (s : Server) : Prop where
  mem : Mem s
  queue : Queue s
  work : Work par s
  readBack : ∀ r, .posted r ∈ s.calls → r.posting ∉ s.released
  inOrder : ∀ m n, m < n → Meets (s.objects m) (s.objects n) → n ∈ s.executed →
    [m, n].Sublist s.executed

section Inv

variable {par : Param} {s t : Server} {a : Action} {i k n : ℕ} {r : OpRef}

theorem onceInOrder_of_inv (h : Inv par s) : OnceInOrder s := by
  refine ⟨h.work.once, List.nodup_iff_count_le_one.mpr fun n => ?_,
    fun n hn => (h.work.executed n).mpr (.inl hn), h.readBack, h.queue.given, h.inOrder⟩
  by_cases hn : n ∈ s.given
  · exact (h.work.place n hn).le_one .released
  · exact Nat.le_of_eq (h.work.absent n hn .released) |>.trans (Nat.zero_le 1)

theorem Inv.released_lt (h : Inv par s) (hn : n ∈ s.released) : n < s.postings.length :=
  Nat.lt_of_lt_of_le (h.queue.mem_given.mp (h.work.released_given hn)) h.queue.length_le

theorem Inv.executed_given (h : Inv par s) (hn : n ∈ s.executed) : n ∈ s.given := by
  rcases (h.work.executed n).mp hn with hreleased | ⟨i, r, hr, rfl⟩
  · exact h.work.released_given hreleased
  · cases hpc : (s.synclets i).pc with
    | release k q =>
      rw [hpc] at hr
      cases hr
      exact h.work.mem_given (mem_held h.work (.inr hpc))
    | idle | execute | invalidate | test | collect => rw [hpc] at hr; cases hr

theorem Inv.executed_lt (h : Inv par s) (hn : n ∈ s.executed) : n < s.postings.length :=
  Nat.lt_of_lt_of_le (h.queue.mem_given.mp (h.executed_given hn)) h.queue.length_le

variable {m p : ℕ} {b : Bool}

theorem Inv.inOrder_mono (h : Inv par s) (hpostings : s.postings <+: t.postings) (hlt : m < n)
    (hmeets : Meets (t.objects m) (t.objects n)) (hn : n ∈ s.executed) :
    [m, n].Sublist s.executed := by
  have hn' := h.executed_lt hn
  rw [objects_mono hpostings hn', objects_mono hpostings (Nat.lt_trans hlt hn')] at hmeets
  exact h.inOrder m n hlt hmeets hn

theorem Inv.executed_before (h : Inv par s) (hpc : (s.synclets i).pc = .execute k r)
    (hlt : m < r.posting) (hmeets : Meets (s.objects m) (s.objects r.posting)) :
    m ∈ s.executed := by
  have hheld := held_execute (h.work.first i k r (by rw [hpc]; rfl)) hpc
  have hr := mem_held h.work (.inl hpc)
  have hgiven : m ∈ s.given :=
    h.queue.mem_given.mpr (Nat.lt_trans hlt (h.queue.mem_given.mp (h.work.mem_given hr)))
  rcases h.work.executed_or_pending hgiven with hexecuted | ⟨j, q, hq, rfl⟩
  · exact hexecuted
  exfalso
  by_cases hj : j = i
  · -- the same synclet has it behind `r`
    subst hj
    have hsorted := h.work.sorted j
    rw [hheld.1, List.map_cons, List.pairwise_cons] at hsorted
    rw [hheld.2, hheld.1] at hq
    rcases List.mem_cons.mp hq with rfl | hq
    · exact Nat.lt_irrefl _ hlt
    · exact Nat.lt_asymm hlt (hsorted.1 _ (List.mem_map_of_mem hq))
  · exact h.work.apart j i hj q hq r (hheld.2 ▸ hr) hmeets

theorem inv_init : Inv par init := by
  refine ⟨⟨Prealloc.apart_empty ?_, List.nodup_nil, ?_, ?_, ?_⟩, ⟨rfl, ?_, ?_, ?_⟩,
    ⟨?_, ?_, fun n _ pl => ?_, fun n => ?_, List.nodup_nil, ?_, ?_, ?_, fun i _ => rfl⟩, ?_, ?_⟩
  · rintro p (hp | ⟨n, hp, -⟩) <;> cases hp
  · rintro p hp
    cases hp
  · rintro n p ⟨hp, -⟩
    cases hp
  · rintro r hr
    cases hr
  · rintro e he
    cases he
  · rintro r hr
    cases hr
  · rintro k current hpc
    cases hpc
  · rintro i k r hentry
    cases hentry
  · rintro n hn
    cases hn
  · cases pl <;> rfl
  · constructor
    · intro hn
      cases hn
    · rintro (hn | ⟨i, r, hr, -⟩)
      · cases hn
      · cases hr
  · rintro i r hr
    cases hr
  · rintro i
    exact List.Pairwise.nil
  · rintro i j hne q hq
    cases hq
  · rintro r hr
    cases hr
  · rintro m n hlt hmeets hn
    cases hn

theorem Inv.frame (h : Inv par s) (hmem : Mem t) (hqueue : Queue t) (hwork : Work par t)
    (hcalls : t.calls = s.calls) (hreleased : t.released = s.released)
    (hpostings : t.postings = s.postings) (hexecuted : t.executed = s.executed) : Inv par t := by
  refine ⟨hmem, hqueue, hwork, ?_, fun m n => ?_⟩
  · rw [hcalls, hreleased]
    exact h.readBack
  · rw [hexecuted]
    refine h.inOrder_mono ?_
    rw [hpostings]

theorem inv_prepare (h : Inv par s) {context : ℕ} {objects : List ℕ} {opTime : Timeval}
    {pools : Pools} (hget : s.pools.get context par.nbPreAsyncOpDesc true = some (p, pools)) :
    Inv par { s with
      pools := pools
      desc := update s.desc p ⟨objects, opTime, context, (s.desc p).posting⟩
      calls := s.calls ++ [.prepared p b] } := by
  refine ⟨mem_prepare h.mem hget, queue_frame h.queue rfl rfl rfl h.queue.passed,
    work_frame h.work h.work.first (fun _ => rfl) (fun _ => rfl) (fun _ => rfl) rfl rfl rfl
      (List.prefix_refl _), fun r hr => ?_, h.inOrder⟩
  rw [List.mem_append, List.mem_singleton] at hr
  exact h.readBack r (hr.resolve_right Call.noConfusion)

theorem inv_post (h : Inv par s) (hcall : s.calls[i]? = some (.prepared p b))
    (hsleep : s.dispatcher = .sleep) :
    Inv par { s with
      desc := update s.desc p { s.desc p with posting := s.postings.length }
      opLru := s.opLru.newEntry ⟨p, s.postings.length⟩
      calls := if b then s.calls.set i (.posted ⟨p, s.postings.length⟩) else s.calls.eraseIdx i
      postings := s.postings ++ [⟨p, (s.desc p).objects⟩] } := by
  refine ⟨mem_post h.mem hcall, queue_post h.queue hsleep rfl rfl rfl,
    work_frame h.work h.work.first (fun _ => rfl) (fun _ => rfl) (fun _ => rfl) rfl rfl rfl
      (List.prefix_append _ _), fun r hr => ?_,
    fun m n hlt hmeets hn => h.inOrder_mono (List.prefix_append _ _) hlt hmeets hn⟩
  rcases posted_mem hr with hold | rfl
  · exact h.readBack r hold
  · exact fun hreleased => Nat.lt_irrefl _ (h.released_lt hreleased)

theorem inv_dispatcher (h : Inv par s) {opLru : LruList OpRef} {dispatcher : DispatcherPc}
    {passcounter : UInt32}
    (hqueue : Queue { s with
      opLru := opLru, dispatcher := dispatcher, passcounter := passcounter }) :
    Inv par { s with opLru := opLru, dispatcher := dispatcher, passcounter := passcounter } :=
  h.frame ⟨h.mem.apart, h.mem.nodup, h.mem.unposted, h.mem.desc, h.mem.refs⟩ hqueue
    (work_frame h.work h.work.first (fun _ => rfl) (fun _ => rfl) (fun _ => rfl) rfl rfl rfl
      (List.prefix_refl _)) rfl rfl rfl rfl

theorem inv_give (h : Inv par s) {current : Timeval} (hpc : s.dispatcher = .walk k current)
    (he : s.opLru.entries[k]? = some ⟨true, r⟩) {c : ℕ} (hc : s.chosen par = some c)
    (hother : ∀ i < par.nbSynclet, i ≠ c → ∀ q ∈ (s.synclets i).pending,
      ¬ Meets (s.objects q.posting) (s.objects r.posting)) : Inv par (giveTo s k c current r) := by
  have hfirst := h.queue.firstAt hpc he
  have hposted : s.PostedAt r.posting r.addr :=
    h.queue.refs r (hfirst.validData_eq.symm ▸ (.head _))
  have hlast : ∀ n ∈ s.given, n < r.posting := fun n hn =>
    h.queue.next hfirst ▸ h.queue.mem_given.mp hn
  exact h.frame ⟨h.mem.apart, h.mem.nodup, h.mem.unposted, h.mem.desc, h.mem.refs⟩
    (queue_give h.queue hfirst)
    (work_give h.work hposted hlast (chooseSynclet_lt hc) hother) rfl rfl rfl rfl

theorem inv_synclet (h : Inv par s) {f : Synclet → Synclet}
    (hfirst : ∀ k r, (f (s.synclets i)).pc.entry = some (k, r) →
      (f (s.synclets i)).opLru.FirstAt k r) (hheld : (f (s.synclets i)).held = (s.synclets i).held)
    (hpending : (f (s.synclets i)).pending = (s.synclets i).pending)
    (hreleases : (f (s.synclets i)).pc.releases = (s.synclets i).pc.releases) :
    Inv par (s.modify i f) :=
  h.frame ⟨h.mem.apart, h.mem.nodup, h.mem.unposted, h.mem.desc, h.mem.refs⟩
    (queue_frame h.queue rfl rfl rfl h.queue.passed)
    (work_synclet h.work hfirst hheld hpending hreleases) rfl rfl rfl rfl

theorem inv_collect (h : Inv par s) {f : Synclet → Synclet}
    (hf : Keeps (s.synclets i) (f (s.synclets i))) : Inv par (s.modify i f) := by
  have hidle : ∀ {y : Synclet}, y.pc.entry = none →
      y.held = y.opLru.validData ∧ y.pending = y.opLru.validData ∧ y.pc.releases = none := by
    intro y hentry
    cases hpc : y.pc with
    | idle | test | collect =>
      simp only [Synclet.held, Synclet.pending, SyncletPc.releases, hpc, and_self]
    | execute | release | invalidate => rw [hpc] at hentry; cases hentry
  obtain ⟨hheld, hpending, hreleases⟩ := hidle hf.before
  obtain ⟨hheld', hpending', hreleases'⟩ := hidle hf.after
  refine inv_synclet h (fun k r hentry => ?_) ?_ ?_ (hreleases'.trans hreleases.symm)
  · rw [hf.after] at hentry
    cases hentry
  · rw [hheld', hheld, hf.validData]
  · rw [hpending', hpending, hf.validData]

theorem inv_execute (h : Inv par s) (hpc : (s.synclets i).pc = .execute k r) :
    Inv par { s.modify i (fun y => { y with pc := .release k r }) with
      executed := s.executed ++ [(s.desc r.addr).posting] } := by
  have hr := mem_held h.work (.inl hpc)
  rw [h.mem.desc _ _ (h.work.liveAt hr)]
  refine ⟨⟨h.mem.apart, h.mem.nodup, h.mem.unposted, h.mem.desc, h.mem.refs⟩,
    queue_frame h.queue rfl rfl rfl h.queue.passed, work_execute h.work hpc, h.readBack,
    fun m n hlt hmeets hn => ?_⟩
  rcases List.mem_append.mp hn with hn | hn
  · exact (h.inOrder m n hlt hmeets hn).trans (List.sublist_append_left _ _)
  · obtain rfl := List.mem_singleton.mp hn
    exact (List.singleton_sublist.mpr (h.executed_before hpc hlt hmeets)).append
      (List.Sublist.refl [r.posting])

theorem inv_release (h : Inv par s) (hpc : (s.synclets i).pc = .release k r)
    (hread : .posted r ∉ s.calls) :
    Inv par { s.modify i
        (fun y => { y with passcounter := y.passcounter + 1, pc := .invalidate k r }) with
      pools := s.pools.release (s.desc r.addr).context r.addr
      released := s.released ++ [(s.desc r.addr).posting] } := by
  have hlive := h.work.liveAt (mem_held h.work (.inr hpc))
  have hmem := mem_release (i := i) h.mem (s.desc r.addr).context hlive
    (f := fun y => { y with passcounter := y.passcounter + 1, pc := .invalidate k r })
  rw [h.mem.desc _ _ hlive] at hmem ⊢
  refine ⟨hmem, queue_frame h.queue rfl rfl rfl h.queue.passed,
    work_release h.work hpc, fun q hq => ?_, h.inOrder⟩
  simp only [List.mem_append, List.mem_singleton, not_or]
  refine ⟨h.readBack q hq, fun heq => hread ?_⟩
  -- the posting has one descriptor
  have haddr : some q.addr = some r.addr := by
    rw [← h.mem.refs q hq, ← hlive.1, heq]
  have hqr : q = r := by
    obtain ⟨a, n⟩ := q
    obtain ⟨a', n'⟩ := r
    rw [OpRef.mk.injEq]
    exact ⟨Option.some.inj haddr, heq⟩
  exact hqr ▸ hq

/-- **A step** keeps the invariant, if it keeps the order. -/
theorem inv_step (h : Inv par s) (hstep : step par s a = some t) (hkeep : KeepsOrder par s a) :
    Inv par t := by
  have hmove := move_of_step hstep
  have hqueue := queue_move h.queue hmove
  cases hmove with
  | prepare context objects opTime b p pools hget => exact inv_prepare h hget
  | post i p b hcall hsleep => exact inv_post h hcall hsleep
  | readBack i r hcall =>
    exact ⟨mem_readBack h.mem, hqueue, work_frame h.work h.work.first (fun _ => rfl) (fun _ => rfl)
      (fun _ => rfl) rfl rfl rfl (List.prefix_refl _),
      fun r hr => h.readBack r (List.eraseIdx_subset hr), h.inOrder⟩
  | wake current hsleep => exact inv_dispatcher h hqueue
  | done =>
    rw [dispatcherEnd] at hqueue ⊢
    split
    next hgc =>
      rw [if_pos hgc] at hqueue
      exact inv_dispatcher h hqueue
    next hgc =>
      rw [if_neg hgc] at hqueue
      exact inv_dispatcher h hqueue
  | skip k current hpc e he hinvalid => exact inv_dispatcher h hqueue
  | give k current hpc r he hgive c hc =>
    exact inv_give h hpc he hc (hkeep r hgive c hc).2
  | search i k r hi hpc hfirst =>
    refine inv_synclet h ?_ ?_ ?_ ?_
    · rintro k' r' hentry
      cases hentry
      exact hfirst
    all_goals simp only [Synclet.held, Synclet.pending, SyncletPc.releases, hpc]
  | execute i k r hi hpc => exact inv_execute h hpc
  | release i k r hi hpc =>
    exact inv_release h hpc (hkeep r (by rw [hpc]; rfl))
  | invalidate i k r hi hpc =>
    have hfirst := h.work.first i k r (by rw [hpc]; rfl)
    refine inv_synclet h ?_ ?_ ?_ ?_
    · rintro k' r' ⟨⟩
    all_goals
      simp only [Synclet.held, Synclet.pending, SyncletPc.releases, hpc,
        hfirst.validData_invalidate]
  | collect i hi f hf => exact inv_collect h hf

end Inv

/-! ### Runs -/

/-- **Asynchronous operations are executed once and in order** in a run in which no operation is
given to a synclet while another one has an operation on the same object or while it collects, and
no descriptor is released before its caller has read it back. -/
theorem onceInOrder_of_keepsOrder (par : Param) (as : List Action)
    (h : AllSteps (step par) (fun s a _ => KeepsOrder par s a) init as) :
    Always (step par) OnceInOrder init as :=
  (always_of_allSteps inv_init (fun _ _ _ => inv_step) h).mono fun _ => onceInOrder_of_inv

/-- The parameters of `MFSL_SetDefault_parameter`. -/
def defaultParam : Param := ⟨50, 1, ⟨1, 0⟩, 500, 30⟩

/-- With two synclets: an operation on the directory 1 is executed before another one is posted. -/
theorem onceInOrder_run : Always (step { defaultParam with nbSynclet := 2 }) OnceInOrder init
    [.prepare 0 [1, 2] ⟨0, 0⟩ true, .post 0, .readBack 0, .wake ⟨2, 0⟩, .dispatcher, .dispatcher,
      .synclet 1, .synclet 1, .synclet 1, .prepare 0 [1, 3] ⟨3, 0⟩ false, .synclet 1, .post 0,
      .wake ⟨6, 0⟩, .dispatcher, .dispatcher, .dispatcher, .synclet 0, .synclet 0, .synclet 0] :=
  onceInOrder_of_keepsOrder _ _ (by decide +kernel)

/-- The only synclet releases the descriptor of `MFSL_create` before it is read back. -/
theorem not_onceInOrder : ¬ ∀ (par : Param) (as : List Action),
    Always (step par) OnceInOrder init as := by
  intro h
  have hrun := h defaultParam [.prepare 0 [1, 2] ⟨0, 0⟩ true, .post 0, .wake ⟨2, 0⟩, .dispatcher,
    .synclet 0, .synclet 0, .synclet 0]
  have hlast : (exec (step defaultParam) init [.prepare 0 [1, 2] ⟨0, 0⟩ true, .post 0,
      .wake ⟨2, 0⟩, .dispatcher, .synclet 0, .synclet 0, .synclet 0]).map
      (fun s => (s.calls, s.released)) = some ([.posted ⟨0, 0⟩], [0]) := by decide +kernel
  obtain ⟨s, hs, heq⟩ := Option.map_eq_some_iff.mp hlast
  obtain ⟨hcalls, hreleased⟩ := Prod.mk.inj heq
  refine (hrun.exec hs).readBack ⟨0, 0⟩ ?_ ?_
  · rw [hcalls]
    exact List.mem_singleton_self _
  · rw [hreleased]
    exact List.mem_singleton_self _

end CloudNfs.MfslAsync
