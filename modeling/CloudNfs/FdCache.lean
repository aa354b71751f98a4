import CloudNfs.Run

/-!
# The descriptors of cached files

A regular file in the inode cache keeps the descriptor its FSAL gave it, so that the
next read or write need not open the file again. `cache_inode_open`,
`cache_inode_open_by_name`, `cache_inode_close`, `cache_inode_rdwr` and
`cache_inode_gc_fd` share four fields: the descriptor, its number `fileno` (zero when
nothing is open), the flags it was opened with, and the time of the last operation.

* The FSAL is a table of the open descriptors, with the entry each was opened for. A
  descriptor it hands out is not zero and not open yet.
* `FSAL_close` of a descriptor that is not open, or that was opened for another entry,
  is recorded in the state (`badClose`).
* What the code does not decide is part of the call: the answers of the FSAL, the
  readings of the clock, and the list that the garbage collector walks through.
* A call that waits for a lock its own thread holds has no next state.
-/

namespace CloudNfs

namespace FdCache

/-- A reading of `time(NULL)`: the clock is past the epoch. -/
abbrev Time := {t : ℕ // 0 < t}

/-- `cache_inode_opened_file_t`. -/
structure OpenFd where
  /-- the descriptor in `fd`, which stays there after it is closed -/
  fd : ℕ
  /-- `fileno`, an `unsigned int` -/
  fileno : ℕ
  openflags : ℕ
  lastOp : ℕ

/-- The files and the FSAL's descriptors. -/
structure State where
  /-- the `open_fd` of each regular file -/
  file : ℕ → OpenFd
  /-- the open descriptors, each with the entry it was opened for -/
  owner : ℕ → Option ℕ
  /-- a descriptor was closed that was not open, or that was another entry's -/
  badClose : Bool
  /-- `time_of_last_gc_fd` of each client -/
  timeOfLastGcFd : ℕ → ℕ

/-- The parameters of a `cache_inode_client_t`. -/
structure Client where
  id : ℕ
  useCache : Bool
  retention : ℤ
  maxFdPerThread : ℕ

structure GcRun where
  /-- the clock at the test of the frequency -/
  start : Time
  /-- the list can be walked through -/
  lruOk : Bool
  /-- the regular files of the list, each with the two readings of the clock made for it -/
  lru : List (ℕ × Time × Time)
  /-- the clock at the end -/
  finish : Time

/-- What the FSAL and the clock answer to an open. -/
structure OpenRun where
  /-- the descriptor `FSAL_open` gives, or an error -/
  fd : Option ℕ
  now : Time
  /-- the garbage collector, if it is called -/
  gc : GcRun

/-- The state with another `open_fd` of one file. -/
def State.setFile (s : State) (e : ℕ) (f : OpenFd) : State :=
  { s with file := fun j => if j = e then f else s.file j }

/-- `FSAL_close` on the descriptor of `e`: it succeeds, or says `ERR_FSAL_NOT_OPENED`, which the
callers ignore. -/
def fsalClose (s : State) (e : ℕ) : State :=
  { s with
    owner := fun d => if d = (s.file e).fd then none else s.owner d
    badClose := s.badClose || decide (s.owner (s.file e).fd ≠ some e) }

/-- The close together with the reset that follows it everywhere. -/
def closeFd (s : State) (e : ℕ) : State :=
  (fsalClose s e).setFile e { s.file e with fileno := 0, lastOp := 0 }

/-- `last_op` is not further back than the retention. -/
def Retained (c : Client) (now : Time) (f : OpenFd) : Prop :=
  ¬ (now.1 : ℤ) - f.lastOp > c.retention

instance (c : Client) (now : Time) (f : OpenFd) : Decidable (Retained c now f) :=
  inferInstanceAs (Decidable (¬ _))

/-- `cache_inode_close`; the first test is on an unsigned field. -/
def cacheInodeClose (c : Client) (now : Time) (s : State) (e : ℕ) : State :=
  let f := s.file e
  if f.fileno < 0 then s
  else if c.useCache = false ∨ ¬ Retained c now f ∨ f.fileno > c.maxFdPerThread then closeFd s e
  else s

/-- `cache_inode_gc_fd_func`, with the count `nb_to_be_purged`; `held` is the entry whose lock the
caller has. -/
def gcFdFunc (c : Client) (held : Option ℕ) (s : State) (nb : ℕ) (x : ℕ × Time × Time) :
    Option (State × ℕ) :=
  let f := s.file x.1
  if f.fileno ≠ 0 ∧ ¬ Retained c x.2.1 f then
    if held = some x.1 then none
    else some (cacheInodeClose c x.2.2 s x.1, (nb + 2 ^ 32 - 1) % 2 ^ 32)
  else some (s, nb)

/-- `LRU_apply_function` with `cache_inode_gc_fd_func`. -/
def gcFdLoop (c : Client) (held : Option ℕ) : List (ℕ × Time × Time) → State → ℕ → Option State
  | [], s, _ => some s
  | x :: xs, s, nb =>
    match gcFdFunc c held s nb x with
    | none => none
    | some (t, nb') => if nb' = 0 then some t else gcFdLoop c held xs t nb'

/-- `cache_inode_gc_fd`, with its success. -/
def cacheInodeGcFd (c : Client) (held : Option ℕ) (gc : GcRun) (s : State) :
    Option (State × Bool) :=
  if c.useCache = false then some (s, true)
  else if (gc.start.1 : ℤ) - s.timeOfLastGcFd c.id < c.retention then some (s, true)
  else if gc.lruOk = false then some (s, false)
  else
    match gcFdLoop c held gc.lru s c.maxFdPerThread with
    | none => none
    | some t =>
      some ({ t with
        timeOfLastGcFd := fun j => if j = c.id then gc.finish.1 else t.timeOfLastGcFd j }, true)

/-- The part that `cache_inode_open` and `cache_inode_open_by_name` have in common: open the file
if it is not, note the time, and collect descriptors if the number is too high. -/
def openFile (c : Client) (held : Option ℕ) (e openflags : ℕ) (r : OpenRun) (s : State) :
    Option (State × Bool) :=
  let f := s.file e
  let opened : Option (Option State) :=
    if f.lastOp = 0 ∨ f.fileno = 0 then
      match r.fd with
      | none => some none
      | some d =>
        if d = 0 ∨ s.owner d ≠ none then none
        else some (some (State.setFile
          { s with owner := fun j => if j = d then some e else s.owner j } e
          ⟨d, d, openflags, r.now.1⟩))
    else some (some (s.setFile e { f with lastOp := r.now.1 }))
  match opened with
  | none => none
  | some none => some (s, false)
  | some (some t) =>
    if c.useCache = true ∧ (t.file e).fileno > c.maxFdPerThread then cacheInodeGcFd c held r.gc t
    else some (t, true)

def cacheInodeOpen (c : Client) (held : Option ℕ) (e openflags : ℕ) (r : OpenRun) (s : State) :
    Option (State × Bool) :=
  let f := s.file e
  openFile c held e openflags r <|
    if f.openflags ≠ 0 ∧ f.fileno ≠ 0 ∧ f.openflags ≠ openflags then closeFd s e else s

/-- `cache_inode_open_by_name`; the second test is on an unsigned field. -/
def cacheInodeOpenByName (c : Client) (held : Option ℕ) (e openflags : ℕ) (r : OpenRun)
    (s : State) : Option (State × Bool) :=
  let f := s.file e
  openFile c held e openflags r <|
    if f.openflags ≠ 0 ∧ f.fileno ≥ 0 ∧ f.openflags ≠ openflags then closeFd s e else s

/-- The descriptors in `cache_inode_rdwr`: nothing when the data stay in memory or in the data
cache (`direct` is false). `ioError` is an error of `FSAL_read` or `FSAL_write` on an open
descriptor; on another one they say `ERR_FSAL_NOT_OPENED`. The close of `cache_inode_valid` at the
end, of a descriptor that is open for too long, is left to a `closes` of the run. -/
def cacheInodeRdwr (c : Client) (e openflags : ℕ) (direct : Bool) (r : OpenRun) (ioError : Bool)
    (now : Time) (s : State) : Option State :=
  if direct = false then some s
  else
    match cacheInodeOpen c (some e) e openflags r s with
    | none => none
    | some (t, false) => some t
    | some (t, true) =>
      let f := t.file e
      let notOpened := t.owner f.fd = none
      if notOpened ∨ ioError = true then
        if ¬ notOpened ∧ f.fileno ≠ 0 then some (closeFd t e)
        else some (t.setFile e { f with fileno := 0, lastOp := 0 })
      else some (cacheInodeClose c now t e)

inductive Call where
  /-- `cache_inode_open`, whose caller may hold the lock of an entry -/
  | opens (c : Client) (held : Option ℕ) (e openflags : ℕ) (r : OpenRun)
  /-- `cache_inode_open_by_name` -/
  | opensByName (c : Client) (held : Option ℕ) (e openflags : ℕ) (r : OpenRun)
  /-- `cache_inode_close` -/
  | closes (c : Client) (e : ℕ) (now : Time)
  | rdwr (c : Client) (e openflags : ℕ) (direct : Bool) (r : OpenRun) (ioError : Bool) (now : Time)
  | gcFd (c : Client) (held : Option ℕ) (gc : GcRun)

def step (s : State) : Call → Option State
  | .opens c held e openflags r => (cacheInodeOpen c held e openflags r s).map Prod.fst
  | .opensByName c held e openflags r => (cacheInodeOpenByName c held e openflags r s).map Prod.fst
  | .closes c e now => some (cacheInodeClose c now s e)
  | .rdwr c e openflags direct r ioError now => cacheInodeRdwr c e openflags direct r ioError now s
  | .gcFd c held gc => (cacheInodeGcFd c held gc s).map Prod.fst

/-- No file has been opened yet: `cache_inode_new_entry` clears the fields. -/
def start : State := ⟨fun _ => ⟨0, 0, 0, 0⟩, fun _ => none, false, fun _ => 0⟩

/-- **The discipline.** -/
structure Disciplined (s : State) : Prop where
  /-- every close was of a descriptor open for that entry -/
  noBadClose : s.badClose = false
  /-- no entry has two open descriptors -/
  atMostOne : ∀ e d d', s.owner d = some e → s.owner d' = some e → d = d'
  /-- `fileno` says whether the entry has one -/
  fileno : ∀ e, (s.file e).fileno ≠ 0 ↔ ∃ d, s.owner d = some e

/-- The calls that go by `fileno` alone: a close does not reach the FSAL when nothing is open, and
an open by name does not find old flags of a file that is not open any more. -/
def GoesByFileno (s : State) : Call → State → Prop
  | .closes c e now, _ =>
    (s.file e).fileno = 0 → c.useCache = true ∧ Retained c now (s.file e)
  | .opensByName _ _ e openflags _, _ =>
    (s.file e).fileno = 0 → (s.file e).openflags = 0 ∨ (s.file e).openflags = openflags
  | _, _ => True

/-! ### The invariant -/

/-- The discipline, with what keeps it: the descriptor in `fd` is the open one, and a file without
time of operation is not open. -/
structure Sound (s : State) : Prop where
  noBadClose : s.badClose = false
  opened : ∀ e, (s.file e).fileno ≠ 0 →
    (s.file e).fd = (s.file e).fileno ∧ s.owner (s.file e).fileno = some e
  noted : ∀ d e, s.owner d = some e → d ≠ 0 ∧ (s.file e).fileno = d
  idle : ∀ e, (s.file e).lastOp = 0 → (s.file e).fileno = 0

variable {s t : State} {e openflags : ℕ} {c : Client} {held : Option ℕ} {gc : GcRun} {r : OpenRun}
  {u : State × Bool}

theorem Sound.disciplined (h : Sound s) : Disciplined s where
  noBadClose := h.noBadClose
  atMostOne e d d' hd hd' := (h.noted d e hd).2.symm.trans (h.noted d' e hd').2
  fileno e := by
    constructor
    · intro hf
      exact ⟨_, (h.opened e hf).2⟩
    · rintro ⟨d, hd⟩
      obtain ⟨hd0, hfile⟩ := h.noted d e hd
      rwa [hfile]

theorem start_sound : Sound start where
  noBadClose := rfl
  opened _ h := absurd rfl h
  noted _ _ h := absurd h (by simp [start])
  idle _ _ := rfl

@[simp] theorem setFile_same (s : State) (e : ℕ) (f : OpenFd) : (s.setFile e f).file e = f := by
  simp [State.setFile]

theorem setFile_ne (s : State) {j : ℕ} (f : OpenFd) (h : j ≠ e) :
    (s.setFile e f).file j = s.file j := by
  simp [State.setFile, h]

theorem Sound.closeFd (h : Sound s) (he : (s.file e).fileno ≠ 0) : Sound (closeFd s e) := by
  obtain ⟨hfd, howner⟩ := h.opened e he
  have hne : ∀ j, j ≠ e → (s.file j).fileno ≠ 0 → (s.file j).fileno ≠ (s.file e).fd := by
    intro j hj hfj heq
    have hown := (h.opened j hfj).2
    rw [heq, hfd, howner] at hown
    exact hj (Option.some.inj hown).symm
  refine ⟨?_, ?_, ?_, ?_⟩
  · simp [FdCache.closeFd, fsalClose, State.setFile, h.noBadClose, hfd, howner]
  · intro j hj
    by_cases hje : j = e
    · subst hje
      exact absurd (by simp [FdCache.closeFd]) hj
    rw [FdCache.closeFd, setFile_ne _ _ hje] at hj ⊢
    obtain ⟨h1, h2⟩ := h.opened j hj
    refine ⟨h1, ?_⟩
    have hd := hne j hje hj
    simp only [fsalClose, State.setFile]
    rw [if_neg hd]
    exact h2
  · intro d j hd
    simp only [FdCache.closeFd, fsalClose, State.setFile] at hd
    split at hd
    · cases hd
    rename_i hdfd
    obtain ⟨h0, hj⟩ := h.noted d j hd
    have hje : j ≠ e := by
      rintro rfl
      exact hdfd (hj.symm.trans hfd.symm)
    rw [FdCache.closeFd, setFile_ne _ _ hje]
    exact ⟨h0, hj⟩
  · intro j hj
    by_cases hje : j = e
    · subst hje
      simp [FdCache.closeFd]
    · rw [FdCache.closeFd, setFile_ne _ _ hje] at hj ⊢
      exact h.idle j hj

theorem Sound.opens (h : Sound s) {d : ℕ} (he : (s.file e).fileno = 0) (hd0 : d ≠ 0)
    (hd : s.owner d = none) (now : Time) :
    Sound (State.setFile { s with owner := fun j => if j = d then some e else s.owner j } e
      ⟨d, d, openflags, now.1⟩) := by
  have hne : ∀ j, (s.file j).fileno ≠ 0 → (s.file j).fileno ≠ d := by
    intro j hj heq
    have hown := (h.opened j hj).2
    rw [heq, hd] at hown
    cases hown
  refine ⟨h.noBadClose, ?_, ?_, ?_⟩
  · intro j hj
    by_cases hje : j = e
    · subst hje
      simp [State.setFile]
    rw [setFile_ne _ _ hje] at hj ⊢
    obtain ⟨h1, h2⟩ := h.opened j hj
    refine ⟨h1, ?_⟩
    simp only [State.setFile, if_neg (hne j hj)]
    exact h2
  · intro d' j hj
    simp only [State.setFile] at hj
    split at hj
    · next heq =>
      cases hj
      subst heq
      exact ⟨hd0, by simp⟩
    · obtain ⟨h0, hfile⟩ := h.noted d' j hj
      have hje : j ≠ e := by
        rintro rfl
        exact h0 (hfile.symm.trans he)
      rw [setFile_ne _ _ hje]
      exact ⟨h0, hfile⟩
  · intro j hj
    by_cases hje : j = e
    · subst hje
      simp only [setFile_same] at hj
      exact absurd hj now.2.ne'
    · rw [setFile_ne _ _ hje] at hj ⊢
      exact h.idle j hj

theorem Sound.touch (h : Sound s) (e : ℕ) (now : Time) :
    Sound (s.setFile e { s.file e with lastOp := now.1 }) := by
  refine ⟨h.noBadClose, ?_, ?_, ?_⟩
  · intro j hj
    by_cases hje : j = e
    · subst hje
      simp only [setFile_same] at hj ⊢
      exact h.opened j hj
    · rw [setFile_ne _ _ hje] at hj ⊢
      exact h.opened j hj
  · intro d j hj
    by_cases hje : j = e
    · subst hje
      simp only [setFile_same]
      exact h.noted d j hj
    · rw [setFile_ne _ _ hje]
      exact h.noted d j hj
  · intro j hj
    by_cases hje : j = e
    · subst hje
      simp only [setFile_same] at hj
      exact absurd hj now.2.ne'
    · rw [setFile_ne _ _ hje] at hj ⊢
      exact h.idle j hj

/-! ### The functions keep it -/

theorem Sound.cacheInodeClose (h : Sound s) {now : Time}
    (hc : (s.file e).fileno = 0 → c.useCache = true ∧ Retained c now (s.file e)) :
    Sound (cacheInodeClose c now s e) := by
  simp only [FdCache.cacheInodeClose]
  split
  · exact h
  split
  · next hor =>
    refine h.closeFd fun h0 => ?_
    obtain ⟨huse, hret⟩ := hc h0
    rw [huse, h0] at hor
    rcases hor with h1 | h1 | h1
    · cases h1
    · exact h1 hret
    · exact absurd h1 (by omega)
  · exact h

/-- **The rule of the collector**: what every close of an open file keeps, when its lock is not
held, the collector keeps. -/
theorem gcFdLoop_rule {Q : State → Prop}
    (hclose : ∀ s e now, Q s → (s.file e).fileno ≠ 0 → held ≠ some e →
      Q (cacheInodeClose c now s e)) {xs : List (ℕ × Time × Time)} {nb : ℕ} (h : Q s)
    (ht : gcFdLoop c held xs s nb = some t) : Q t := by
  induction xs generalizing s nb with
  | nil =>
    cases ht
    exact h
  | cons x xs ih =>
    simp only [gcFdLoop] at ht
    split at ht
    · cases ht
    rename_i u nb' hu
    have hQ : Q u := by
      simp only [gcFdFunc] at hu
      split at hu
      · next hopen =>
        split at hu
        · cases hu
        · next hfree =>
          cases hu
          exact hclose _ _ _ h hopen.1 hfree
      · cases hu
        exact h
    split at ht
    · cases ht
      exact hQ
    · exact ih hQ ht

theorem cacheInodeGcFd_rule {c : Client} {held : Option ℕ} {gc : GcRun} {Q : State → Prop}
    (hclose : ∀ s e now, Q s → (s.file e).fileno ≠ 0 → held ≠ some e →
      Q (cacheInodeClose c now s e))
    (hlast : ∀ s last, Q s → Q { s with timeOfLastGcFd := last })
    {s : State} {r : State × Bool} (h : Q s) (hr : cacheInodeGcFd c held gc s = some r) :
    Q r.1 := by
  simp only [cacheInodeGcFd] at hr
  split at hr
  · cases hr
    exact h
  split at hr
  · cases hr
    exact h
  split at hr
  · cases hr
    exact h
  split at hr
  · cases hr
  · next t hloop =>
    cases hr
    exact hlast t _ (gcFdLoop_rule hclose h hloop)

theorem Sound.cacheInodeGcFd {r : State × Bool} (h : Sound s)
    (hr : cacheInodeGcFd c held gc s = some r) : Sound r.1 :=
  cacheInodeGcFd_rule (fun _ _ _ hs hopen _ => hs.cacheInodeClose fun h0 => absurd h0 hopen)
    (fun _ _ hs => ⟨hs.noBadClose, hs.opened, hs.noted, hs.idle⟩) h hr

theorem Sound.openFile (h : Sound s) (hu : openFile c held e openflags r s = some u) :
    Sound u.1 := by
  simp only [FdCache.openFile] at hu
  split at hu
  · cases hu
  · cases hu
    exact h
  rename_i t ht
  have hsound : Sound t := by
    split at ht
    · next hclosed =>
      have hfile : (s.file e).fileno = 0 := hclosed.elim (h.idle e) id
      split at ht
      · cases ht
      rename_i d hfd
      split at ht
      · cases ht
      rename_i hfresh
      cases Option.some.inj ht
      push Not at hfresh
      exact h.opens hfile hfresh.1 hfresh.2 r.now
    · cases Option.some.inj ht
      exact h.touch e r.now
  split at hu
  · exact hsound.cacheInodeGcFd hu
  · cases hu
    exact hsound

theorem Sound.cacheInodeOpen (h : Sound s) (hu : cacheInodeOpen c held e openflags r s = some u) :
    Sound u.1 := by
  simp only [FdCache.cacheInodeOpen] at hu
  split at hu
  · next hmust => exact (h.closeFd hmust.2.1).openFile hu
  · exact h.openFile hu

theorem Sound.cacheInodeOpenByName (h : Sound s)
    (hC : (s.file e).fileno = 0 → (s.file e).openflags = 0 ∨ (s.file e).openflags = openflags)
    (hu : cacheInodeOpenByName c held e openflags r s = some u) : Sound u.1 := by
  simp only [FdCache.cacheInodeOpenByName] at hu
  split at hu
  · next hmust =>
    have hopen : (s.file e).fileno ≠ 0 := fun h0 => (hC h0).elim hmust.1 hmust.2.2
    exact (h.closeFd hopen).openFile hu
  · exact h.openFile hu

/-! ### The collector leaves the file whose lock is held -/

theorem cacheInodeClose_file_ne (c : Client) (now : Time) (s : State) {j : ℕ} (h : j ≠ e) :
    (cacheInodeClose c now s e).file j = s.file j := by
  simp only [cacheInodeClose]
  split
  · rfl
  · split
    · exact setFile_ne _ _ h
    · rfl

theorem cacheInodeGcFd_held {r : State × Bool} (hr : cacheInodeGcFd c (some e) gc s = some r) :
    r.1.file e = s.file e := by
  have hclose : ∀ (t : State) (j : ℕ) (now : Time), t.file e = s.file e →
      (t.file j).fileno ≠ 0 → some e ≠ some j →
      (cacheInodeClose c now t j).file e = s.file e := by
    intro t j now ht _ hne
    rw [cacheInodeClose_file_ne _ _ _ fun heq => hne (congrArg some heq), ht]
  exact cacheInodeGcFd_rule hclose (fun _ _ ht => ht) rfl hr

theorem cacheInodeOpen_fileno (ht : cacheInodeOpen c (some e) e openflags r s = some (t, true)) :
    (t.file e).fileno ≠ 0 := by
  simp only [cacheInodeOpen] at ht
  generalize (if (s.file e).openflags ≠ 0 ∧ (s.file e).fileno ≠ 0 ∧
    (s.file e).openflags ≠ openflags then closeFd s e else s) = s1 at ht
  simp only [openFile] at ht
  split at ht
  · cases ht
  · cases ht
  rename_i u hu
  have hfile : (u.file e).fileno ≠ 0 := by
    split at hu
    · split at hu
      · cases hu
      · split at hu
        · cases hu
        · next hfresh =>
          cases Option.some.inj hu
          simpa using fun h0 => hfresh (.inl h0)
    · next hopen =>
      cases Option.some.inj hu
      simpa using fun h0 => hopen (.inr h0)
  split at ht
  · have hheld := cacheInodeGcFd_held ht
    simp only at hheld
    rwa [hheld]
  · cases ht
    exact hfile

theorem Sound.cacheInodeRdwr {direct : Bool} {ioError : Bool} {now : Time} (h : Sound s)
    (ht : cacheInodeRdwr c e openflags direct r ioError now s = some t) : Sound t := by
  simp only [FdCache.cacheInodeRdwr] at ht
  split at ht
  · cases ht
    exact h
  split at ht
  · cases ht
  · next u hu =>
    cases ht
    exact h.cacheInodeOpen hu
  rename_i u hu
  have hsound : Sound u := h.cacheInodeOpen hu
  have hopen := cacheInodeOpen_fileno hu
  split at ht
  · split at ht
    · cases ht
      exact hsound.closeFd hopen
    · next hkeep =>
      -- the descriptor of an open file is open
      obtain ⟨hfd, hown⟩ := hsound.opened e hopen
      rw [← hfd] at hown
      have hisOpen : ¬ u.owner (u.file e).fd = none := by
        rw [hown]
        exact Option.some_ne_none e
      exact absurd ⟨hisOpen, hopen⟩ hkeep
  · cases ht
    exact hsound.cacheInodeClose fun h0 => absurd h0 hopen

/-! ### A wrong close is never forgotten -/

theorem closeFd_badClose (h : s.badClose = true) (e : ℕ) : (closeFd s e).badClose = true := by
  simp [closeFd, fsalClose, State.setFile, h]

theorem Sound.closeFd_bad (h : Sound s) (he : (s.file e).fileno = 0) :
    (FdCache.closeFd s e).badClose = true := by
  have hown : s.owner (s.file e).fd ≠ some e := by
    intro hd
    obtain ⟨h0, hfile⟩ := h.noted _ e hd
    exact h0 (hfile.symm.trans he)
  simp [FdCache.closeFd, fsalClose, State.setFile, hown]

theorem cacheInodeClose_badClose (h : s.badClose = true) (c : Client) (now : Time) (e : ℕ) :
    (cacheInodeClose c now s e).badClose = true := by
  simp only [cacheInodeClose]
  split
  · exact h
  · split
    · exact closeFd_badClose h e
    · exact h

theorem cacheInodeGcFd_badClose {r : State × Bool} (h : s.badClose = true)
    (hr : cacheInodeGcFd c held gc s = some r) : r.1.badClose = true := by
  have hclose : ∀ (t : State) (e : ℕ) (now : Time), t.badClose = true →
      (t.file e).fileno ≠ 0 → held ≠ some e → (cacheInodeClose c now t e).badClose = true :=
    fun t e now ht _ _ => cacheInodeClose_badClose ht c now e
  exact cacheInodeGcFd_rule hclose (fun _ _ ht => ht) h hr

theorem openFile_badClose (h : s.badClose = true) (hu : openFile c held e openflags r s = some u) :
    u.1.badClose = true := by
  simp only [openFile] at hu
  split at hu
  · cases hu
  · cases hu
    exact h
  rename_i t ht
  have hbad : t.badClose = true := by
    split at ht
    · split at ht
      · cases ht
      · split at ht
        · cases ht
        · cases Option.some.inj ht
          exact h
    · cases Option.some.inj ht
      exact h
  split at hu
  · exact cacheInodeGcFd_badClose hbad hu
  · cases hu
    exact hbad

/-! ### Runs -/

/-- **A call** keeps the descriptors sound, if it goes by `fileno`. -/
theorem Sound.step {a : Call} (h : Sound s) (ht : step s a = some t) (hC : GoesByFileno s a t) :
    Sound t := by
  cases a with
  | opens c held e openflags r =>
    obtain ⟨u, hu, rfl⟩ := Option.map_eq_some_iff.mp ht
    exact h.cacheInodeOpen hu
  | opensByName c held e openflags r =>
    obtain ⟨u, hu, rfl⟩ := Option.map_eq_some_iff.mp ht
    exact h.cacheInodeOpenByName hC hu
  | closes c e now =>
    cases ht
    exact h.cacheInodeClose hC
  | rdwr c e openflags direct r ioError now => exact h.cacheInodeRdwr ht
  | gcFd c held gc =>
    obtain ⟨u, hu, rfl⟩ := Option.map_eq_some_iff.mp ht
    exact h.cacheInodeGcFd hu

theorem Sound.goesByFileno {a : Call} (h : Sound s) (ht : FdCache.step s a = some t)
    (hgood : t.badClose = false) : GoesByFileno s a t := by
  cases a with
  | opens c held e openflags r => trivial
  | opensByName c held e openflags r =>
    intro h0
    by_contra hflags
    push Not at hflags
    obtain ⟨u, hu, rfl⟩ := Option.map_eq_some_iff.mp ht
    simp only [FdCache.cacheInodeOpenByName] at hu
    rw [if_pos ⟨hflags.1, Nat.zero_le _, hflags.2⟩] at hu
    have hbad := openFile_badClose (h.closeFd_bad h0) hu
    rw [hgood] at hbad
    cases hbad
  | closes c e now =>
    intro h0
    by_contra hkeeps
    cases ht
    have hor : c.useCache = false ∨ ¬ Retained c now (s.file e) ∨
        (s.file e).fileno > c.maxFdPerThread := by
      by_cases huse : c.useCache = true
      · exact .inr (.inl fun hret => hkeeps ⟨huse, hret⟩)
      · exact .inl (by simpa using huse)
    simp only [FdCache.cacheInodeClose, if_pos hor] at hgood
    rw [if_neg (Nat.not_lt_zero _), h.closeFd_bad h0] at hgood
    cases hgood
  | rdwr c e openflags direct r ioError now => trivial
  | gcFd c held gc => trivial

/-- **File descriptor discipline.** A run keeps it exactly when every close, and every open by
name, of a file that is not open goes by `fileno`: the close finds the cache in use and the
retention not over, the open by name finds no flags or the ones it asks for. -/
theorem disciplined_iff_goesByFileno (calls : List Call) :
    Always step Disciplined start calls ↔ AllSteps step GoesByFileno start calls :=
  always_iff_allSteps start_sound (fun _ => Sound.disciplined)
    (fun _ _ _ h ht hC => h.step ht hC)
    (fun _ _ _ h ht hgood => h.goesByFileno ht hgood.noBadClose)

def quietGc : GcRun := ⟨⟨100, by decide⟩, true, [], ⟨100, by decide⟩⟩

def uncached : Client := ⟨0, false, 60, 64⟩

/-- A file is read, which closes its descriptor 7 again; then it is opened by name for writing. -/
def readThenOpen : List Call :=
  [.rdwr uncached 1 1 true ⟨some 7, ⟨100, by decide⟩, quietGc⟩ false ⟨100, by decide⟩,
   .opensByName uncached none 1 4 ⟨some 8, ⟨101, by decide⟩, quietGc⟩]

/-- **The slip**: `fileno >= 0` holds of every unsigned number, so the open by name closes the
descriptor 7 once more. -/
theorem readThenOpen_not_disciplined : ¬ Always step Disciplined start readThenOpen := by
  intro h
  obtain ⟨t, ht, hbad⟩ : ∃ t, exec step start readThenOpen = some t ∧ t.badClose = true :=
    ⟨_, rfl, by decide⟩
  have hgood := (h.exec ht).noBadClose
  rw [hbad] at hgood
  cases hgood

end FdCache

end CloudNfs
