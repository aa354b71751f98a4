import CloudNfs.CurrentXid
import CloudNfs.ExportAccess

/-!
# The identity of a caller (`support/nfs_export_list.c`)

`nfs_build_fsal_context` gives the identity of a caller to the FSAL: user, group and supplementary
groups. A caller that is root, from a client without `EXPORT_OPTION_ROOT`, becomes the anonymous
user of the export. The client is the entry that `nfs_export_check_access` has found, or an empty
record when the list was not looked at.

* `keepsNoRoot_iff` — the requests for which this holds: the **groups** of root are kept, and an
  empty record is that of a client without `ROOT`.
-/

namespace CloudNfs.FsalContext

open CurrentXid (behaviour)
open Dupreq (Call Programs)
open ExportAccess FirstMatch

/-! ## The code -/

structure Identity where
  uid : UInt32
  gid : UInt32
  /-- `caller_garray`, with its length `caller_glen` -/
  garray : List UInt32
  deriving DecidableEq

inductive Cred where
  | authNone
  | authUnix (aupUid aupGid : UInt32) (aupGids : List UInt32)
  /-- `RPCSEC_GSS`, with the results of `name2uid` and `uidgidmap_get` -/
  | rpcsecGss (uid : Option UInt32) (gid : Option UInt32)
  | other

/-- The flavor is `AUTH_NONE`. -/
def Cred.isNone : Cred → Bool
  | .authNone => true
  | _ => false

/-- What is used of `exportlist_t`. -/
structure Export where
  clients : List ClientEntry
  anonymousUid : UInt32

/-- `ANON_GID` as a `gid_t` -/
def anonGid : UInt32 := 0xFFFFFFFE

/-- The `switch` of `nfs_build_fsal_context`; `none` when the request is rejected. -/
def callerIdentity : Cred → Option Identity
  | .authNone => some ⟨0, 0, []⟩
  | .authUnix aupUid aupGid aupGids => some ⟨aupUid, aupGid, aupGids⟩
  | .rpcsecGss uid gid =>
    match uid with
    | none => none
    | some uid => some ⟨uid, gid.getD 0xFFFFFFFF, []⟩
  | .other => none

/-- The client has root access; an empty record has no option. -/
def hasRoot (client : Option ClientEntry) : Bool :=
  match client with
  | some x => x.root
  | none => false

/-- `nfs_build_fsal_context`: what `FSAL_GetClientContext` is called with. -/
def nfsBuildFsalContext (cred : Cred) (client : Option ClientEntry) (pexport : Export) :
    Option Identity :=
  match callerIdentity cred with
  | none => none
  | some caller =>
    if caller.uid = 0 ∧ ¬ hasRoot client = true then
      some { caller with uid := pexport.anonymousUid, gid := anonGid }
    else some caller

/-- The two ways to a context. -/
inductive Way where
  | rpcExecute
  | makeCred

section

variable (rs : Resolver) (programs : Programs) (way : Way) (call : Call) (caller : Caller)
  (pexport : Export) (cred : Cred)

/-- What `nfs_export_check_access` sees of the request. -/
def accessRequest (call : Call) (cred : Cred) : Request :=
  ⟨call.rqProc.toNat, call.rqProg.toNat, cred.isNone⟩

/-- A context is made for the request, if its client has access: `nfs_rpc_execute` looks at
`NEEDS_CRED`. -/
def needsContext : Bool :=
  match way with
  | .rpcExecute => ((behaviour programs call).map (·.needsCred)).getD false
  | .makeCred => true

/-- The identity that is passed to the FSAL, if a context is made. -/
def passedIdentity : Option Identity :=
  let (granted, client) := nfsExportCheckAccess rs caller (accessRequest call cred)
    programs.mntProgram.toNat pexport.clients
  if granted = true ∧ needsContext programs way call = true then
    nfsBuildFsalContext cred client pexport
  else none

/-! ## The property -/

/-- **Root that is squashed keeps nothing**, and every other identity is passed as it is: that of
root from a client with `ROOT`, and that of every other user. -/
def KeepsNoRoot : Prop :=
  ∀ own ∈ callerIdentity cred, ∀ passed ∈ passedIdentity rs programs way call caller pexport cred,
    (RootAllowed rs caller pexport.clients → passed = own) ∧
      (¬ RootAllowed rs caller pexport.clients →
        (own.uid = 0 → passed.uid = pexport.anonymousUid ∧ passed.gid = anonGid ∧
          ∀ g ∈ own.garray, g ∉ passed.garray) ∧
        (own.uid ≠ 0 → passed = own))

end

/-! ## The entry that is found -/

variable {rs : Resolver} {programs : Programs} {way : Way} {call : Call} {caller : Caller}
  {pexport : Export} {cred : Cred} {clients : List ClientEntry} {x : ClientEntry}
  {v : ClientEntry → Verdict} {vs : List (ClientEntry → Verdict)}

/-- A scan comes to the entry: it matches, and the scan passes over all entries before it. -/
def ComesTo (v : ClientEntry → Verdict) (clients : List ClientEntry) (x : ClientEntry) : Prop :=
  ∃ pre post, clients = pre ++ x :: post ∧ v x = .found ∧ ∀ y ∈ pre, v y = .skip

/-- The entry that the scans designate: the first scan that comes to an entry comes to it. -/
def Designated (vs : List (ClientEntry → Verdict)) (clients : List ClientEntry) (x : ClientEntry) :
    Prop :=
  ∃ pre v post, vs = pre ++ v :: post ∧ ComesTo v clients x ∧
    ∀ w ∈ pre, ∀ y, ¬ ComesTo w clients y

theorem scan_eq_some_iff : scan v clients = some x ↔ ComesTo v clients x := by
  induction clients with
  | nil =>
    refine iff_of_false (by rintro ⟨⟩) ?_
    rintro ⟨pre, post, hsplit, -⟩
    exact absurd hsplit (by simp)
  | cons y clients ih =>
    rw [scan]
    cases hy : v y with
    | found =>
      constructor
      · intro h
        cases h
        exact ⟨[], clients, rfl, hy, List.forall_mem_nil _⟩
      · rintro ⟨pre, post, hsplit, -, hpre⟩
        cases pre with
        | nil => exact congrArg some (List.cons.inj hsplit).1
        | cons z pre =>
          obtain ⟨rfl, -⟩ := List.cons.inj hsplit
          exact absurd (hy.symm.trans (hpre y (.head _))) (by decide)
    | skip =>
      dsimp only
      rw [ih]
      constructor
      · rintro ⟨pre, post, rfl, hx, hpre⟩
        refine ⟨y :: pre, post, rfl, hx, fun z hz => ?_⟩
        rcases List.mem_cons.mp hz with rfl | hz
        · exact hy
        · exact hpre z hz
      · rintro ⟨pre, post, hsplit, hx, hpre⟩
        cases pre with
        | nil =>
          obtain ⟨rfl, -⟩ := List.cons.inj hsplit
          exact absurd (hy.symm.trans hx) (by decide)
        | cons z pre =>
          obtain ⟨-, rfl⟩ := List.cons.inj hsplit
          exact ⟨pre, post, rfl, hx, fun w hw => hpre w (.tail _ hw)⟩
    | stop =>
      refine iff_of_false (by rintro ⟨⟩) ?_
      rintro ⟨pre, post, hsplit, hx, hpre⟩
      cases pre with
      | nil =>
        obtain ⟨rfl, -⟩ := List.cons.inj hsplit
        exact absurd (hy.symm.trans hx) (by decide)
      | cons z pre =>
        obtain ⟨rfl, -⟩ := List.cons.inj hsplit
        exact absurd (hy.symm.trans (hpre y (.head _))) (by decide)

theorem scan_eq_none_iff : scan v clients = none ↔ ∀ x, ¬ ComesTo v clients x := by
  rw [Option.eq_none_iff_forall_ne_some]
  exact forall_congr' fun x => not_congr scan_eq_some_iff

theorem scans_eq_some_iff : scans vs clients = some x ↔ Designated vs clients x := by
  rw [scans, List.findSome?_eq_some_iff]
  simp only [scan_eq_some_iff, scan_eq_none_iff]
  rfl

/-- The list is looked at: neither the null procedure nor a request of MOUNT. -/
def LooksAtList (programs : Programs) (call : Call) : Prop :=
  call.rqProc ≠ 0 ∧ call.rqProg ≠ programs.mntProgram

/-- The client gets access, by the list or without it. -/
def GetsAccess (rs : Resolver) (programs : Programs) (call : Call) (caller : Caller)
    (pexport : Export) (cred : Cred) : Prop :=
  (LooksAtList programs call → ∃ x, Designated (passes rs caller) pexport.clients x) ∧
    (call.rqProc ≠ 0 → call.rqProg = programs.mntProgram → cred ≠ .authNone)

/-- The entry that the list designates has `ROOT`. -/
def RootDesignated (rs : Resolver) (programs : Programs) (call : Call) (caller : Caller)
    (pexport : Export) : Prop :=
  LooksAtList programs call ∧
    ∃ x, Designated (passes rs caller) pexport.clients x ∧ x.root = true

theorem checkAccess_iff (rs : Resolver) (programs : Programs) (call : Call) (caller : Caller)
    (pexport : Export) (cred : Cred) :
    let r := nfsExportCheckAccess rs caller (accessRequest call cred) programs.mntProgram.toNat
      pexport.clients
    (r.1 = true ↔ GetsAccess rs programs call caller pexport cred) ∧
      (hasRoot r.2 = true ↔ RootDesignated rs programs call caller pexport) := by
  have hprocZero : (accessRequest call cred).rqProc = 0 ↔ call.rqProc = 0 := by
    rw [accessRequest, ← UInt32.toNat_inj]
    rfl
  have hprogMnt : (accessRequest call cred).rqProg = programs.mntProgram.toNat ↔
      call.rqProg = programs.mntProgram := by
    rw [accessRequest, UInt32.toNat_inj]
  dsimp only
  by_cases hproc : call.rqProc = 0
  · unfold nfsExportCheckAccess
    rw [if_pos (hprocZero.mpr hproc)]
    refine ⟨iff_of_true rfl ⟨fun h => absurd hproc h.1, fun h => absurd hproc h⟩, ?_⟩
    exact iff_of_false Bool.false_ne_true fun h => h.1.1 hproc
  by_cases hprog : call.rqProg = programs.mntProgram
  · unfold nfsExportCheckAccess
    rw [if_neg (mt hprocZero.mp hproc), if_pos (hprogMnt.mpr hprog)]
    constructor
    · rw [accessRequest, Bool.not_eq_true']
      constructor
      · refine fun h => ⟨fun hlooks => absurd hprog hlooks.2, fun _ _ hnone => ?_⟩
        rw [hnone] at h
        cases h
      · intro h
        have hne := h.2 hproc hprog
        cases cred with
        | authNone => exact absurd rfl hne
        | _ => rfl
    · exact iff_of_false Bool.false_ne_true fun h => h.1.2 hprog
  · rw [checkAccess_eq (mt hprocZero.mp hproc) (mt hprogMnt.mp hprog)]
    constructor
    · rw [Option.isSome_iff_exists]
      simp only [scans_eq_some_iff]
      exact ⟨fun h => ⟨fun _ => h, fun _ h => absurd h hprog⟩, fun h => h.1 ⟨hproc, hprog⟩⟩
    · constructor
      · intro h
        refine ⟨⟨hproc, hprog⟩, ?_⟩
        cases hscan : scans (passes rs caller) pexport.clients with
        | none =>
          rw [hscan] at h
          cases h
        | some x =>
          rw [hscan] at h
          exact ⟨x, scans_eq_some_iff.mp hscan, h⟩
      · rintro ⟨-, x, hx, hroot⟩
        rw [scans_eq_some_iff.mpr hx]
        exact hroot

/-! ## The identity -/

/-- The identity of the anonymous user, without groups. -/
def Anonymous (pexport : Export) (own : Identity) : Prop :=
  own.uid = pexport.anonymousUid ∧ own.gid = anonGid ∧ own.garray = []

def squashed (pexport : Export) (own : Identity) : Identity :=
  { own with uid := pexport.anonymousUid, gid := anonGid }

/-- **What is passed**: nothing without access or need, and else the caller's own identity, unless
it is root and no entry with `ROOT` is designated. -/
theorem passedIdentity_cases (rs : Resolver) (programs : Programs) (way : Way) (call : Call)
    (caller : Caller) (pexport : Export) {own : Identity} (hown : callerIdentity cred = some own) :
    (¬ (GetsAccess rs programs call caller pexport cred ∧ needsContext programs way call = true) →
      passedIdentity rs programs way call caller pexport cred = none) ∧
    (GetsAccess rs programs call caller pexport cred ∧ needsContext programs way call = true →
      (own.uid = 0 ∧ ¬ RootDesignated rs programs call caller pexport →
        passedIdentity rs programs way call caller pexport cred = some (squashed pexport own)) ∧
      (¬ (own.uid = 0 ∧ ¬ RootDesignated rs programs call caller pexport) →
        passedIdentity rs programs way call caller pexport cred = some own)) := by
  obtain ⟨haccess, hroot⟩ := checkAccess_iff rs programs call caller pexport cred
  unfold passedIdentity
  dsimp only
  rw [← haccess, ← hroot]
  refine ⟨fun hno => if_neg hno, fun hyes => ?_⟩
  rw [if_pos hyes, nfsBuildFsalContext, hown]
  exact ⟨fun h => if_pos h, fun h => if_neg h⟩

theorem eq_nil_of_forall_not_mem {l : List UInt32} (h : ∀ g ∈ l, g ∉ l) : l = [] :=
  List.eq_nil_iff_forall_not_mem.mpr fun g hg => h g hg hg

/-- **Root keeps nothing** exactly when this holds of each request of root for which a context is
made: if the entry that the list designates has `ROOT`, then an entry with `ROOT` matches the
caller, or root is the anonymous user already; if it has not, or the list is not looked at, then
root claims no groups, or an entry with `ROOT` matches and root is already the anonymous user with
its group. -/
theorem keepsNoRoot_iff (rs : Resolver) (programs : Programs) (way : Way) (call : Call)
    (caller : Caller) (pexport : Export) (cred : Cred) :
    KeepsNoRoot rs programs way call caller pexport cred ↔
      ∀ own ∈ callerIdentity cred, own.uid = 0 → needsContext programs way call = true →
        GetsAccess rs programs call caller pexport cred →
        (RootDesignated rs programs call caller pexport →
          RootAllowed rs caller pexport.clients ∨ Anonymous pexport own) ∧
        (¬ RootDesignated rs programs call caller pexport →
          (RootAllowed rs caller pexport.clients →
            own.uid = pexport.anonymousUid ∧ own.gid = anonGid) ∧
          (¬ RootAllowed rs caller pexport.clients → own.garray = [])) := by
  constructor
  · intro h own hown huid hneeds haccess
    obtain ⟨hsquashed, hkept⟩ :=
      (passedIdentity_cases rs programs way call caller pexport hown).2 ⟨haccess, hneeds⟩
    constructor
    · intro hdesignated
      obtain ⟨-, hother⟩ := h own hown own (hkept fun hno => hno.2 hdesignated)
      by_cases hallowed : RootAllowed rs caller pexport.clients
      · exact Or.inl hallowed
      · obtain ⟨hanon, hgid, hgroups⟩ := (hother hallowed).1 huid
        exact Or.inr ⟨hanon, hgid, eq_nil_of_forall_not_mem hgroups⟩
    · intro hdesignated
      obtain ⟨hsame, hother⟩ := h own hown _ (hsquashed ⟨huid, hdesignated⟩)
      constructor
      · intro hallowed
        have heq := hsame hallowed
        exact ⟨(congrArg Identity.uid heq).symm, (congrArg Identity.gid heq).symm⟩
      · intro hallowed
        exact eq_nil_of_forall_not_mem ((hother hallowed).1 huid).2.2
  · intro h own hown passed hpassed
    obtain ⟨hnone, hsome⟩ := passedIdentity_cases rs programs way call caller pexport hown
    by_cases hmade : GetsAccess rs programs call caller pexport cred ∧
        needsContext programs way call = true
    · obtain ⟨hsquashed, hkept⟩ := hsome hmade
      by_cases hsquash : own.uid = 0 ∧ ¬ RootDesignated rs programs call caller pexport
      · obtain rfl : passed = squashed pexport own :=
          Option.some.inj (hpassed.symm.trans (hsquashed hsquash))
        obtain ⟨hallowed, hother⟩ := (h own hown hsquash.1 hmade.2 hmade.1).2 hsquash.2
        constructor
        · intro hroot
          obtain ⟨hanon, hgid⟩ := hallowed hroot
          rw [squashed, ← hanon, ← hgid]
        · intro hroot
          refine ⟨fun _ => ⟨rfl, rfl, fun g hg => ?_⟩, fun huid => absurd hsquash.1 huid⟩
          rw [hother hroot] at hg
          cases hg
      · obtain rfl : passed = own := Option.some.inj (hpassed.symm.trans (hkept hsquash))
        refine ⟨fun _ => rfl, fun hroot => ⟨fun huid => ?_, fun _ => rfl⟩⟩
        have hdesignated : RootDesignated rs programs call caller pexport := by
          by_contra hno
          exact hsquash ⟨huid, hno⟩
        have hanon := ((h passed hown huid hmade.2 hmade.1).1 hdesignated).resolve_left hroot
        refine ⟨hanon.1, hanon.2.1, fun g hg => ?_⟩
        rw [hanon.2.2] at hg
        cases hg
    · rw [hnone hmade] at hpassed
      cases hpassed

/-! ## Runs on fixed requests -/

def twoPrograms : Programs := ⟨100003, 100005, none, none⟩

def getattrCall : Call := ⟨1, 7, 100003, 3, 1⟩

def mountCall : Call := ⟨1, 7, 100005, 3, 1⟩

/-- An export whose only client is the caller, with `ACCESS` or with `ROOT`. -/
def exportFor (root : Bool) : Export := ⟨[⟨root, !root, .hostif host1⟩], 0xFFFFFFFE⟩

/-- **The slips**: root from a client without `ROOT` keeps the groups that it claims; and a request
to mount from a client with `ROOT` is squashed. -/
theorem not_keepsNoRoot :
    ¬ KeepsNoRoot nameless twoPrograms .rpcExecute getattrCall (.inet host1) (exportFor false)
        (.authUnix 0 0 [0, 10]) ∧
      ¬ KeepsNoRoot nameless twoPrograms .rpcExecute mountCall (.inet host1) (exportFor true)
        (.authUnix 0 0 []) := by
  constructor
  · intro h
    have hpassed : passedIdentity nameless twoPrograms .rpcExecute getattrCall (.inet host1)
        (exportFor false) (.authUnix 0 0 [0, 10]) = some ⟨0xFFFFFFFE, anonGid, [0, 10]⟩ := by
      decide +kernel
    have hnot : ¬ RootAllowed nameless (.inet host1) (exportFor false).clients := by
      rintro ⟨x, hx, hroot, -⟩
      obtain rfl := List.mem_singleton.mp hx
      cases hroot
    have hgroups := (((h _ rfl _ hpassed).2 hnot).1 rfl).2.2 10 (by decide)
    exact hgroups (by decide)
  · intro h
    have hpassed : passedIdentity nameless twoPrograms .rpcExecute mountCall (.inet host1)
        (exportFor true) (.authUnix 0 0 []) = some ⟨0xFFFFFFFE, anonGid, []⟩ := by
      decide +kernel
    have hallowed : RootAllowed nameless (.inet host1) (exportFor true).clients :=
      ⟨_, List.mem_singleton_self _, rfl, rfl⟩
    exact absurd ((h _ rfl _ hpassed).1 hallowed) (by decide)

end CloudNfs.FsalContext
