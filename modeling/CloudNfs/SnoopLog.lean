import CloudNfs.CurrentXid
import Mathlib.Data.Finset.Insert

/-!
# The log of the protocol snooper (`MainNFSD/nfs_worker_thread.c`)

`nfs_rpc_execute` opens `/tmp/snoop.log` for every request, finds the function of the request, and
closes the log. For a program, a version or a procedure that it does not know it answers with an
error and returns in between.

* `closedOnce_iff` — this holds throughout a run exactly when no request that the server does not
  know gets a descriptor.
-/

namespace CloudNfs.SnoopLog

open Dupreq (Call Programs)
open CurrentXid (behaviour)

/-! ## The log -/

/-- What happens to a descriptor on the log. -/
inductive FdEvent where
  /-- `open` returned it -/
  | opened (fd : ℕ)
  /-- `close` was called with it -/
  | closed (fd : ℕ)
  deriving DecidableEq

/-- The descriptors of the server. -/
structure Process where
  /-- the open descriptors -/
  fds : Finset ℕ
  /-- `RLIMIT_NOFILE` -/
  limit : ℕ
  /-- what happened on the log, the last event first -/
  events : List FdEvent

/-- A request with what the system answers. -/
structure Request where
  call : Call
  terminate : Bool
  /-- the log can be opened or created -/
  logFile : Bool

/-- The descriptor that `open` gives: the lowest one that is free. -/
def Process.lowestFree (s : Process) : Option ℕ :=
  (List.range s.limit).find? fun fd => fd ∉ s.fds

/-- `open("/tmp/snoop.log", …)`; `none` is -1. -/
def openLog (s : Process) (logFile : Bool) : Process × Option ℕ :=
  match if logFile then s.lowestFree else none with
  | none => (s, none)
  | some fd => ({ s with fds := insert fd s.fds, events := .opened fd :: s.events }, some fd)

/-- `close(snoop)`; with -1 it fails. -/
def closeLog (s : Process) : Option ℕ → Process
  | none => s
  | some fd => { s with fds := s.fds.erase fd, events := .closed fd :: s.events }

def nfsRpcExecute (programs : Programs) (s : Process) (r : Request) : Process :=
  if r.terminate then s
  else
    let (s, snoop) := openLog s r.logFile
    match behaviour programs r.call with
    -- `svcerr_decode`, and a return that does not close the log
    | none => s
    | some _ => closeLog s snoop

/-- A step of the server is a request. -/
def step (programs : Programs) (s : Process) (r : Request) : Option Process :=
  some (nfsRpcExecute programs s r)

/-! ## The property -/

/-- Each call closes once what it has opened, and nothing else. -/
def Paired : List FdEvent → Prop
  | [] => True
  | .closed fd :: .opened fd' :: l => fd = fd' ∧ Paired l
  | _ => False

/-- Whatever was opened on the log was closed once by the same call, and the descriptors of the
server are those it had before. -/
structure ClosedOnce (fds : Finset ℕ) (s : Process) : Prop where
  paired : Paired s.events
  fds : s.fds = fds

/-- A request that gets a descriptor for the log is one that the server knows. -/
def KnownIfOpened (programs : Programs) (s : Process) (r : Request) (_ : Process) : Prop :=
  r.terminate = false → r.logFile = true → s.lowestFree ≠ none →
    behaviour programs r.call ≠ none

variable {programs : Programs} {fds : Finset ℕ} {s s' : Process} {r : Request} {fd : ℕ}

theorem not_mem_of_lowestFree (h : s.lowestFree = some fd) : fd ∉ s.fds := by
  have hfree := List.find?_some h
  simpa using hfree

theorem openLog_none (h : (if r.logFile then s.lowestFree else none) = none) :
    openLog s r.logFile = (s, none) := by
  rw [openLog, h]

theorem openLog_some (h : (if r.logFile then s.lowestFree else none) = some fd) :
    openLog s r.logFile =
      ({ s with fds := insert fd s.fds, events := .opened fd :: s.events }, some fd) := by
  rw [openLog, h]

/-- **What a request does to the log**: nothing, a descriptor that is opened and closed, or one that
is opened only; the last for a request that the server does not know. -/
theorem nfsRpcExecute_cases (programs : Programs) (s : Process) (r : Request) :
    (nfsRpcExecute programs s r = s ∧ KnownIfOpened programs s r s) ∨
      (∃ fd ∉ s.fds, nfsRpcExecute programs s r =
          { s with events := .closed fd :: .opened fd :: s.events } ∧
        behaviour programs r.call ≠ none) ∨
      ∃ fd ∉ s.fds, nfsRpcExecute programs s r =
          { s with fds := insert fd s.fds, events := .opened fd :: s.events } ∧
        ¬ KnownIfOpened programs s r s := by
  rw [nfsRpcExecute]
  by_cases hterm : r.terminate = true
  · refine .inl ⟨if_pos hterm, fun hgoes => ?_⟩
    rw [hterm] at hgoes
    cases hgoes
  rw [if_neg hterm]
  cases hopen : (if r.logFile then s.lowestFree else none) with
  | none =>
    rw [openLog_none hopen]
    refine .inl ⟨?_, fun _ hlog hfree => ?_⟩
    · cases behaviour programs r.call <;> rfl
    · rw [if_pos hlog] at hopen
      exact absurd hopen hfree
  | some fd =>
    rw [openLog_some hopen]
    have hlog : r.logFile = true := by
      by_contra hno
      rw [if_neg hno] at hopen
      cases hopen
    rw [if_pos hlog] at hopen
    have hnew := not_mem_of_lowestFree hopen
    cases hknown : behaviour programs r.call with
    | none =>
      refine .inr (.inr ⟨fd, hnew, rfl, fun h => ?_⟩)
      refine h (Bool.eq_false_of_not_eq_true hterm) hlog ?_ hknown
      rw [hopen]
      exact Option.some_ne_none fd
    | some b =>
      refine .inr (.inl ⟨fd, hnew, ?_, Option.some_ne_none b⟩)
      dsimp only [closeLog]
      rw [Finset.erase_insert hnew]

theorem ClosedOnce.step_iff (h : ClosedOnce fds s) (hstep : step programs s r = some s') :
    ClosedOnce fds s' ↔ KnownIfOpened programs s r s' := by
  cases hstep
  rcases nfsRpcExecute_cases programs s r with ⟨heq, hknown⟩ | ⟨fd, -, heq, hknown⟩ |
    ⟨fd, hnew, heq, hunknown⟩
  · rw [heq]
    exact iff_of_true h hknown
  · rw [heq]
    exact iff_of_true ⟨⟨rfl, h.paired⟩, h.fds⟩ fun _ _ _ => hknown
  · rw [heq]
    refine iff_of_false (fun hclosed => ?_) hunknown
    have hmem : fd ∈ fds := hclosed.fds ▸ Finset.mem_insert_self fd s.fds
    exact hnew (h.fds ▸ hmem)

/-- **The snooper leaks no descriptor**: throughout a run of requests, whatever a call opens on the
log it closes once, exactly when no request with an unknown program, version or procedure gets a
descriptor for the log. -/
theorem closedOnce_iff (programs : Programs) (fds : Finset ℕ) (limit : ℕ)
    (requests : List Request) :
    Always (step programs) (ClosedOnce fds) ⟨fds, limit, []⟩ requests ↔
      AllSteps (step programs) (KnownIfOpened programs) ⟨fds, limit, []⟩ requests := by
  have hinit : ClosedOnce fds ⟨fds, limit, []⟩ := ⟨trivial, rfl⟩
  apply always_iff_allSteps (I := ClosedOnce fds) hinit
  · exact fun s h => h
  · exact fun s r s' h hstep hknown => (h.step_iff hstep).mpr hknown
  · exact fun s r s' h hstep hclosed => (h.step_iff hstep).mp hclosed

def unknownRequest : Request := ⟨⟨1, 7, 100003, 3, 22⟩, false, true⟩

/-- **The slip**: the log stays open after a request with an unknown procedure. -/
theorem not_closedOnce : ¬ ∀ (programs : Programs) (fds : Finset ℕ) (limit : ℕ)
    (requests : List Request),
    Always (step programs) (ClosedOnce fds) ⟨fds, limit, []⟩ requests := by
  intro h
  have hall := h ⟨100003, 100005, none, none⟩ {0, 1, 2} 8 [unknownRequest]
  have hlast := (hall.2 _ rfl).paired
  have hevents : (nfsRpcExecute ⟨100003, 100005, none, none⟩ ⟨{0, 1, 2}, 8, []⟩
      unknownRequest).events = [.opened 3] := by decide +kernel
  rw [hevents] at hlast
  exact hlast

end CloudNfs.SnoopLog
