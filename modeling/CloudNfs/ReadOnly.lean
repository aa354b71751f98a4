import CloudNfs.CompoundExport
import CloudNfs.Nfs4Modify

/-!
# Read-only exports

The dispatcher protects an export from the requests of NFSv2 and NFSv3 that **begin** with a handle
of it (`keeps_iff`). Nothing protects it from a COMPOUND: an operation is refused when another test
refuses it (`spares_iff_refuses`).
-/

namespace CloudNfs.ReadOnly

open Compound
open Nfs4 (IoData IoEnv IoRes IoStatus States Stateid4 WriteArgs shareWrite)
open FileHandle (Exportlist FileHandleV4 toShort)

variable {Ctx Handle : Type}

/-! ## NFSv2 and NFSv3 -/

section Nfs23

variable {exports : Exports Ctx} {fsalMaxNameLen : ℕ} {req : Request} {env : Env}
  {desc : FunctionDesc} {pexport : Nfs4.IoExport} {sent : List Answer} {x : Exportlist Ctx}

theorem makesWrite_eq (vers : Version) :
    ∀ desc ∈ funcDesc vers, desc.makesWrite = desc.service.modifies := by
  cases vers <;> decide

theorem service_zero (vers : Version) : (funcDesc vers)[0]? = some ⟨.null, false, false⟩ := by
  cases vers <;> rfl

/-- The calls are on entries of the export ids. -/
def On (ids : List ℕ) (calls : List ModifyCall) : Prop :=
  ∀ call ∈ calls, ∀ exportid ∈ call.exportids, exportid ∈ ids

theorem on_nil (ids : List ℕ) : On ids [] := by simp [On]

theorem calls_finished (calls : List ModifyCall) (f : Option CacheFail) :
    (finished calls f).calls = calls := by
  cases f <;> rfl

theorem on_nfsWrite : On [req.fh.exportid.toNat] (nfsWrite pexport req env).calls := by
  rw [nfsWrite]
  split
  · exact on_nil _
  split_ifs
  · exact on_nil _
  · exact on_nil _
  · exact on_nil _
  · exact on_nil _
  · split
    · exact on_nil _
    · split_ifs
      · exact on_nil _
      · split
        · exact on_nil _
        · simp [On, calls_finished, ModifyCall.exportids]

theorem on_nfsRemoveChild (accepts : Compound.FileType → Bool) (status : ℕ) :
    On [req.fh.exportid.toNat]
      (nfsRemoveChild fsalMaxNameLen req env accepts status).calls := by
  rw [nfsRemoveChild]
  split
  · exact on_nil _
  split_ifs
  · exact on_nil _
  · exact on_nil _
  · split
    · exact on_nil _
    · exact on_nil _
    · split_ifs
      · exact on_nil _
      · simp [On, calls_finished, ModifyCall.exportids]

theorem on_nfsRemove : On [req.fh.exportid.toNat] (nfsRemove fsalMaxNameLen req env).calls := by
  rw [nfsRemove]
  split
  · exact on_nil _
  · split_ifs
    · exact on_nil _
    · exact on_nfsRemoveChild _ _

theorem on_nfsRename :
    On [req.fh.exportid.toNat, req.toDir.exportid.toNat]
      (nfsRename fsalMaxNameLen req env).calls := by
  have hexisting : ∀ a b, On [req.fh.exportid.toNat, req.toDir.exportid.toNat]
      (nfsRenameExisting req env a b).calls := by
    intro a b
    rw [nfsRenameExisting]
    split
    · exact on_nil _
    · split
      · split_ifs <;> simp [On, failed, ModifyCall.exportids]
      · exact on_nil _
  rw [nfsRename]
  split
  · exact on_nil _
  · exact on_nil _
  split_ifs
  · exact on_nil _
  · exact on_nil _
  · split
    · split
      · exact on_nil _
      · simp [On, calls_finished, ModifyCall.exportids]
      · exact hexisting _ _
    · exact on_nil _

theorem on_nfs3Commit : On [req.fh.exportid.toNat] (nfs3Commit req env).calls := by
  rw [nfs3Commit]
  split
  · exact on_nil _
  simp only
  split_ifs
  · simp [On, ModifyCall.exportids]
  · exact on_nil _

theorem on_serviceFunction (service : Service) :
    On ((req.handles service).map fun fh => fh.exportid.toNat)
        (serviceFunction fsalMaxNameLen pexport req env service).calls ∧
      (service.modifies = false →
        (serviceFunction fsalMaxNameLen pexport req env service).calls = []) := by
  cases service
  case write => exact ⟨on_nfsWrite, by simp [Service.modifies]⟩
  case remove => exact ⟨on_nfsRemove, by simp [Service.modifies]⟩
  case rmdir => exact ⟨on_nfsRemoveChild _ _, by simp [Service.modifies]⟩
  case rename => exact ⟨on_nfsRename, by simp [Service.modifies]⟩
  case commit => exact ⟨on_nfs3Commit, by simp [Service.modifies]⟩
  all_goals exact ⟨on_nil _, fun _ => rfl⟩

theorem on_executeInExport (fsalMaxNameLen : ℕ) (pexport : Nfs4.IoExport) (req : Request)
    (env : Env) (sent : List Answer) (hdesc : desc.makesWrite = desc.service.modifies) :
    On ((req.handles desc.service).map fun fh => fh.exportid.toNat)
        (executeInExport fsalMaxNameLen pexport desc req env sent).calls ∧
      (readOnly pexport = true ∨ desc.service.modifies = false →
        (executeInExport fsalMaxNameLen pexport desc req env sent).calls = []) := by
  rw [executeInExport]
  split_ifs with hrofs
  · exact ⟨on_nil _, fun _ => rfl⟩
  · exact ⟨on_nil _, fun _ => rfl⟩
  · exact ⟨on_nil _, fun _ => rfl⟩
  · exact ⟨on_nil _, fun _ => rfl⟩
  · refine ⟨(on_serviceFunction _).1, fun h => (on_serviceFunction _).2 ?_⟩
    rcases h with hro | hmodifies
    · simpa [hro, hdesc] using hrofs
    · exact hmodifies

theorem nfsGetExportById_toShort (list : List (Exportlist Ctx)) (n : ℕ) :
    nfsGetExportById list (toShort n) = nfsGetExportById list n := by
  simp only [nfsGetExportById, toShort_emod]

theorem toShort_neg_iff (id : UInt16) : toShort id.toNat < 0 ↔ ¬ id.toNat < 2 ^ 15 := by
  have hlt := id.toNat_lt
  unfold toShort
  rw [Int.bmod_eq_emod]
  split <;> omega

theorem nfsRpcExecute_cases (exports : Exports Ctx) (fsalMaxNameLen : ℕ) (req : Request)
    (env : Env) :
    (nfsRpcExecute exports fsalMaxNameLen req env).calls = [] ∨
      ∃ desc x sent, (funcDesc req.vers)[req.rqProc]? = some desc ∧
        nfsGetExportById exports.pexportlist req.fh.exportid.toNat = some x ∧
        nfsRpcExecute exports fsalMaxNameLen req env =
          executeInExport fsalMaxNameLen (exports.io x) desc req env sent := by
  rw [nfsRpcExecute]
  simp only [nfsGetExportById_toShort]
  split
  · exact .inl rfl
  rename_i desc hdesc
  split
  · exact .inl rfl
  split
  · exact .inl rfl
  next x _ hx => exact .inr ⟨desc, x, _, hdesc, hx, rfl⟩
  · exact .inl rfl
  rename_i x _ hx
  split
  · exact .inl rfl
  · exact .inr ⟨desc, x, _, hdesc, hx, rfl⟩

theorem nfsRpcExecute_eq (hdesc : (funcDesc req.vers)[req.rqProc]? = some desc)
    (hmodifies : desc.service.modifies = true)
    (hx : nfsGetExportById exports.pexportlist req.fh.exportid.toNat = some x)
    (hid : req.fh.exportid.toNat < 2 ^ 15) :
    nfsRpcExecute exports fsalMaxNameLen req env =
      executeInExport fsalMaxNameLen (exports.io x) desc req env [] := by
  have hproc : req.rqProc ≠ 0 := by
    intro hzero
    rw [hzero, service_zero] at hdesc
    rw [← Option.some.inj hdesc] at hmodifies
    cases hmodifies
  have hshort : ¬ toShort req.fh.exportid.toNat < 0 := by
    rw [toShort_neg_iff req.fh.exportid]
    exact not_not.mpr hid
  simp only [nfsRpcExecute, hdesc, if_neg hproc, nfsGetExportById_toShort, hx, if_neg hshort]
  cases req.vers <;> rfl

/-- The handles are stale, and what else could be asked is answered so. -/
def stale : Env where
  port := 0
  access := true
  context := true
  entry := .error (some 70)
  toEntry := .error (some 70)
  sameEntry := false
  lookup := .error ⟨70, false⟩
  toLookup := .error none
  compatible := false
  remove := none
  rename := none
  rdwr := none
  dataCache := none
  unstableOffset := none
  filesize := 0
  answer := some 70
  invalidArgument := ⟨70, false⟩
  nameTooLong := ⟨70, false⟩
  entryExists := ⟨70, false⟩
  resultWord := 0

theorem answer_stale (service : Service) (h : service.modifies = true) :
    (serviceFunction fsalMaxNameLen pexport req stale service).answer = some 70 := by
  cases service <;> first | rfl | cases h

theorem readOnly_of_stale (hdesc : desc.makesWrite = desc.service.modifies)
    (hmodifies : desc.service.modifies = true)
    (h : (executeInExport fsalMaxNameLen pexport desc req stale sent).answers =
      [.reply errRofs]) : readOnly pexport = true ∧ sent = [] := by
  cases hro : readOnly pexport with
  | true =>
    rw [executeInExport, hdesc, hmodifies, hro] at h
    exact ⟨rfl, by simpa using h⟩
  | false =>
    rw [executeInExport, hro] at h
    simp only [show decide (1024 ≤ stale.port) = false from rfl, show stale.access = true from rfl,
      show stale.context = true from rfl, Bool.and_false, Bool.false_eq_true, if_false,
      Bool.not_true, answer_stale _ hmodifies] at h
    have hlast := congrArg List.getLast? h
    simp [errRofs] at hlast

/-- **A request of NFSv2 or NFSv3 keeps read-only exports exactly when it begins with the handle of
one, if it has such a handle at all.** -/
theorem keeps_iff : Keeps exports fsalMaxNameLen req ↔ FirstHandle exports req := by
  constructor
  · rintro h desc ⟨hdesc, hmodifies⟩ hhandle
    have hwrite := makesWrite_eq req.vers desc (List.mem_of_getElem? hdesc)
    have hanswers := h.rofs stale desc ⟨hdesc, hmodifies⟩ hhandle
    have hproc : req.rqProc ≠ 0 := by
      intro hzero
      rw [hzero, service_zero] at hdesc
      rw [← Option.some.inj hdesc] at hmodifies
      cases hmodifies
    simp only [nfsRpcExecute, hdesc, if_neg hproc, nfsGetExportById_toShort] at hanswers
    split at hanswers
    · split_ifs at hanswers <;> simp at hanswers
    next x _ hx =>
      obtain ⟨hro, hsent⟩ := readOnly_of_stale hwrite hmodifies hanswers
      refine ⟨⟨x, hx, hro⟩, ?_⟩
      by_contra hid
      rw [if_pos ((toShort_neg_iff req.fh.exportid).mpr hid)] at hsent
      cases hsent
    · simp at hanswers
    next x _ hx =>
      split_ifs at hanswers with hneg
      · simp at hanswers
      · refine ⟨⟨x, hx, (readOnly_of_stale hwrite hmodifies hanswers).1⟩, ?_⟩
        rw [toShort_neg_iff req.fh.exportid] at hneg
        exact not_not.mp hneg
  · intro h
    refine ⟨fun env => ?_, fun env desc hmodifies hhandle => ?_⟩
    · rcases nfsRpcExecute_cases exports fsalMaxNameLen req env with
        hnil | ⟨desc, x, sent, hdesc, hx, heq⟩
      · rw [hnil]
        simp [Spares]
      · have hwrite := makesWrite_eq req.vers desc (List.mem_of_getElem? hdesc)
        obtain ⟨hon, hnil⟩ := on_executeInExport fsalMaxNameLen (exports.io x) req env sent hwrite
        rw [heq]
        intro call hcall exportid hexportid hro
        obtain ⟨fh, hfh, rfl⟩ := List.mem_map.mp (hon call hcall exportid hexportid)
        cases hmodifies : desc.service.modifies with
        | false =>
          rw [hnil (.inr hmodifies)] at hcall
          cases hcall
        | true =>
          obtain ⟨⟨y, hy, hyro⟩, -⟩ := h desc ⟨hdesc, hmodifies⟩ ⟨fh, hfh, hro⟩
          obtain rfl : x = y := Option.some.inj (hx.symm.trans hy)
          rw [hnil (.inl hyro)] at hcall
          cases hcall
    · obtain ⟨⟨x, hx, hro⟩, hid⟩ := h desc hmodifies hhandle
      have hwrite := makesWrite_eq req.vers desc (List.mem_of_getElem? hmodifies.1)
      rw [nfsRpcExecute_eq hmodifies.1 hmodifies.2 hx hid, executeInExport, hwrite,
        hmodifies.2, hro]
      rfl

end Nfs23

/-! ## NFSv4 -/

section Nfs4

variable {server : Server Ctx Handle} {env : Env4 Handle} {data next : CompoundData Ctx Handle}
  {fh saved : FileHandleV4} {x : Exportlist Ctx} {calls : List ModifyCall} {call : ModifyCall}
  {p : Prop}

/-- The call is made when the tests pass, and no call otherwise. -/
def CallsWhen (p : Prop) (call : ModifyCall) (calls : List ModifyCall) : Prop :=
  p ∧ calls = [call] ∨ ¬ p ∧ calls = []

theorem CallsWhen.refused (h : ¬ p) : CallsWhen p call [] := Or.inr ⟨h, rfl⟩

theorem CallsWhen.congr {q : Prop} (h : CallsWhen p call calls) (hpq : p ↔ q) :
    CallsWhen q call calls := by
  rwa [hpq] at h

theorem checkFh_eq {e : Compound.Env Handle} (hfh : data.currentFH = some fh)
    (hexpired : e.expired = false) : checkFh e data.currentFH .noFileHandle = .ok fh := by
  simp [checkFh, hfh, hexpired]

theorem calls_doWrite (d : IoData) (args : WriteArgs) (e : IoEnv) :
    (Nfs4.doWrite d args e).Calls ↔
      d.currentFiletype = .regularFile ∧
      ¬ (d.pexport.options &&& Nfs4.maxoffsetwrite = Nfs4.maxoffsetwrite ∧
        d.pexport.maxOffsetWrite < (args.offset + args.dataLen.toUInt64).toInt64) ∧
      writtenSize d.pexport args ≠ 0 ∧ Nfs4.dataCacheFails d e = false := by
  have heq : Nfs4.doWrite d args e =
      if d.currentFiletype ≠ .regularFile then .fail (Nfs4.notRegular d.currentFiletype)
      else if d.pexport.options &&& Nfs4.maxoffsetwrite = Nfs4.maxoffsetwrite ∧
          d.pexport.maxOffsetWrite < (args.offset + args.dataLen.toUInt64).toInt64 then
        .fail .dquot
      else if writtenSize d.pexport args = 0 then .empty
      else if Nfs4.dataCacheFails d e then .fail .serverfault
      else .rdwr args.offset (writtenSize d.pexport args)
        (!(e.useNfsCommit && args.unstable)) := rfl
  rw [heq]
  by_cases hregular : d.currentFiletype = .regularFile
  · rw [if_neg (not_not.mpr hregular)]
    split_ifs with hoffset hsize hcache
    · exact ⟨False.elim, fun h => h.2.1 hoffset⟩
    · exact ⟨False.elim, fun h => h.2.2.1 hsize⟩
    · exact ⟨False.elim, fun h => by rw [hcache] at h; exact absurd h.2.2.2 (by decide)⟩
    · exact ⟨fun _ => ⟨hregular, hoffset, hsize, by simpa using hcache⟩, fun _ => trivial⟩
  · rw [if_pos hregular]
    exact ⟨False.elim, fun h => hregular h.1⟩

theorem calls_withState {cfg : Nfs4.Config} {s : States} {d : IoData} {stateid : Stateid4}
    {st : IoStatus} {refuses : Nfs4.StateData → Bool} {deny : UInt32} {k : IoRes} :
    (Nfs4.withState cfg s d stateid st refuses deny k).Calls ↔
      (∃ found, Nfs4.foundState cfg s d stateid st refuses = .ok found ∧
        Nfs4.scanStates s d.currentEntry found deny (Nfs4.wordBeforeScan stateid st) st.digest =
          none) ∧ k.Calls := by
  rw [Nfs4.withState]
  cases Nfs4.foundState cfg s d stateid st refuses with
  | error e => simp [IoRes.Calls]
  | ok found =>
    cases hscan : Nfs4.scanStates s d.currentEntry found deny (Nfs4.wordBeforeScan stateid st)
        st.digest with
    | some e => simp [IoRes.Calls, hscan]
    | none => simp [hscan]

theorem calls_writeOf (args : WriteArgs) (hxattr : nfs4IsFhXattr fh = false)
    (hx : data.pexport = some x) :
    (writeOf server env data x args).Calls ↔ WritePasses server env data fh args x := by
  have hpasses : WritePasses server env data fh args x ↔
      (server.io x).accessType ≠ .mdonly ∧ StatesPass server env data args.stateid x ∧
        (Nfs4.doWrite (ioData server env data x) args env.io).Calls := by
    rw [calls_doWrite]
    constructor
    · rintro ⟨-, -, hmdonly, hstates, hregular, hoffset, hsize, hcache⟩
      exact ⟨hmdonly, hstates, hregular, hoffset, hsize, hcache⟩
    · rintro ⟨hmdonly, hstates, hregular, hoffset, hsize, hcache⟩
      exact ⟨hxattr, hx, hmdonly, hstates, hregular, hoffset, hsize, hcache⟩
  rw [hpasses, writeOf, StatesPass]
  by_cases hmdonly : (server.io x).accessType = .mdonly
  · have hdata : (ioData server env data x).pexport.accessType = .mdonly := hmdonly
    split_ifs
    · simp [nfs41OpWrite, hdata, hmdonly, IoRes.Calls]
    · simp [Nfs4.nfs4OpWrite, ioData, hmdonly, IoRes.Calls]
  have hdata : (ioData server env data x).pexport.accessType ≠ .mdonly := hmdonly
  split_ifs
  · rw [nfs41OpWrite, if_neg hdata]
    cases hscan : Nfs4.scanStates env.states (ioData server env data x).currentEntry none
        shareWrite env.status.statusWord env.status.digest with
    | some e =>
      have hfile : (ioData server env data x).currentEntry = env.file := rfl
      rw [hfile] at hscan
      simp [IoRes.Calls, hscan]
    | none =>
      have hfile : (ioData server env data x).currentEntry = env.file := rfl
      rw [hfile] at hscan
      simp [hscan, hmdonly]
  · have heq : Nfs4.nfs4OpWrite server.states env.states (ioData server env data x) args
        env.status env.io = Nfs4.withState server.states env.states (ioData server env data x)
          args.stateid env.status Nfs4.writeRefuses shareWrite
          (Nfs4.doWrite (ioData server env data x) args env.io) := by
      simp [Nfs4.nfs4OpWrite, ioData, hmdonly]
    rw [heq, calls_withState]
    exact ⟨fun h => ⟨hmdonly, h⟩, fun h => h.2⟩

theorem callsWhen_write (hfh : data.currentFH = some fh) (hexpired : env.compound.expired = false)
    (args : WriteArgs) :
    CallsWhen (∃ x, WritePasses server env data fh args x) (.rdwr fh.exportid.toNat)
      (runWrite server env data args).1 := by
  simp only [runWrite, checkFh_eq hfh hexpired]
  cases hxattr : nfs4IsFhXattr fh with
  | true =>
    have hnot : ¬ ∃ x, WritePasses server env data fh args x := by
      rintro ⟨x, h⟩
      exact absurd (hxattr.symm.trans h.notXattr) (by decide)
    split_ifs
    · exact CallsWhen.refused hnot
    · exact CallsWhen.refused hnot
    · contradiction
  | false =>
    cases hx : data.pexport with
    | none =>
      refine CallsWhen.refused ?_
      rintro ⟨x, h⟩
      exact absurd (hx.symm.trans h.pexport) (by simp)
    | some x =>
      have hiff : (∃ y, WritePasses server env data fh args y) ↔
          (writeOf server env data x args).Calls := by
        rw [calls_writeOf args hxattr hx]
        constructor
        · rintro ⟨y, h⟩
          obtain rfl : x = y := Option.some.inj (hx.symm.trans h.pexport)
          exact h
        · exact fun h => ⟨x, h⟩
      refine CallsWhen.congr ?_ hiff.symm
      simp only [Bool.false_eq_true, if_false]
      cases writeOf server env data x args with
      | rdwr offset size stable => exact .inl ⟨trivial, rfl⟩
      | _ => exact CallsWhen.refused id

theorem calls_cacheInodeCommit (unstableOffset : Option UInt64) (offset : UInt64) (count : UInt32)
    (rdwrFails : Bool) :
    (cacheInodeCommit unstableOffset offset count rdwrFails).1 = true ↔
      ∃ b, unstableOffset = some b ∧ (count = 0 ∨ count = 0xFFFFFFFF ∨ b ≤ offset) := by
  cases unstableOffset with
  | none => simp [cacheInodeCommit]
  | some b =>
    rw [cacheInodeCommit]
    split_ifs with hall hoffset
    · exact ⟨fun _ => ⟨b, rfl, hall.imp_right Or.inl⟩, fun _ => rfl⟩
    · have hle : ¬ b ≤ offset := UInt64.not_le.mpr hoffset
      simp only [Option.some.injEq, exists_eq_left', false_iff]
      rintro (h | h | h)
      · exact hall (.inl h)
      · exact hall (.inr h)
      · exact hle h
    · exact ⟨fun _ => ⟨b, rfl, .inr (.inr (UInt64.not_lt.mp hoffset))⟩, fun _ => rfl⟩

theorem callsWhen_commit (hfh : data.currentFH = some fh) (hexpired : env.compound.expired = false)
    (offset : UInt64) (count : UInt32) :
    CallsWhen (∃ bufferOffset, CommitPasses env data offset count bufferOffset)
      (.rdwr fh.exportid.toNat) (nfs4OpCommit env data offset count).1 := by
  simp only [nfs4OpCommit, checkFh_eq hfh hexpired]
  by_cases hregular : data.currentFiletype = .regularFile
  · rw [if_neg (not_not.mpr hregular)]
    have hiff : (cacheInodeCommit env.unstableOffset offset count (!env.rdwr)).1 = true ↔
        ∃ b, CommitPasses env data offset count b := by
      rw [calls_cacheInodeCommit]
      exact exists_congr fun b => ⟨fun h => ⟨hregular, h.1, h.2⟩, fun h => ⟨h.unstable, h.range⟩⟩
    refine CallsWhen.congr ?_ hiff
    by_cases hcall : (cacheInodeCommit env.unstableOffset offset count (!env.rdwr)).1 = true
    · rw [if_pos hcall]
      exact .inl ⟨hcall, rfl⟩
    · rw [if_neg hcall]
      exact .inr ⟨hcall, rfl⟩
  · rw [if_pos hregular]
    refine CallsWhen.refused ?_
    rintro ⟨b, h⟩
    exact hregular h.regular

theorem namePasses_iff {name : Name} : NamePasses server name ↔
    name ≠ [] ∧ name.length ≤ server.compound.fsalMaxNameLen ∧
      ∃ n, fsalStr2name server.compound.fsalMaxNameLen name = some n ∧ isDot n = false := by
  rw [fsalStr2name]
  constructor
  · rintro ⟨hne, hlen, hc, hdot⟩
    exact ⟨hne, hlen, cString name, if_neg (by omega), hdot⟩
  · rintro ⟨hne, hlen, n, hn, hdot⟩
    split_ifs at hn with hc
    cases hn
    exact ⟨hne, hlen, by omega, hdot⟩

theorem callsWhen_remove (hfh : data.currentFH = some fh) (hexpired : env.compound.expired = false)
    (target : Name) :
    CallsWhen (RemovePasses server data fh target) (.remove fh.exportid.toNat)
      (nfs4OpRemove server env data target).1 := by
  simp only [nfs4OpRemove, checkFh_eq hfh hexpired]
  split_ifs with hpseudo hxattr _ hentry hdir hlen hne
  · exact CallsWhen.refused fun h => absurd (hpseudo.symm.trans h.notPseudo) (by decide)
  · exact CallsWhen.refused fun h => absurd (hxattr.symm.trans h.notXattr) (by decide)
  · exact CallsWhen.refused fun h => absurd (hxattr.symm.trans h.notXattr) (by decide)
  · refine CallsWhen.refused fun h => ?_
    rw [Option.isNone_iff_eq_none] at hentry
    have hsome := h.entry
    rw [hentry] at hsome
    cases hsome
  · refine CallsWhen.refused fun h => ?_
    rw [h.directory] at hdir
    exact absurd hdir (by decide)
  · exact CallsWhen.refused fun h => absurd h.name.length (Nat.not_le.mpr hlen)
  · exact CallsWhen.refused fun h => h.name.notEmpty hne
  · cases hname : fsalStr2name server.compound.fsalMaxNameLen target with
    | none =>
      refine CallsWhen.refused fun h => ?_
      obtain ⟨-, -, n, hn, -⟩ := namePasses_iff.mp h.name
      exact absurd (hname.symm.trans hn) (by simp)
    | some n =>
      simp only
      split_ifs with hdot
      · refine CallsWhen.refused fun h => ?_
        obtain ⟨-, -, m, hm, hnot⟩ := namePasses_iff.mp h.name
        obtain rfl : n = m := Option.some.inj (hname.symm.trans hm)
        exact absurd (hdot.symm.trans hnot) (by decide)
      · refine .inl ⟨⟨by simpa using hpseudo, by simpa using hxattr, ?_, by simpa using hdir,
          namePasses_iff.mpr ⟨hne, Nat.not_lt.mp hlen, n, hname, by simpa using hdot⟩⟩, rfl⟩
        exact Option.isSome_iff_ne_none.mpr (by simpa using hentry)

theorem callsWhen_renameLooked (hsame : fh.exportid = saved.exportid) :
    CallsWhen ((∃ type, env.looked = .found type) ∧ env.lookedNew = .notFound)
      (.rename fh.exportid.toNat fh.exportid.toNat) (renameLooked env data fh saved).1 := by
  rw [renameLooked, ← hsame]
  split
  next type hlooked hnew => exact .inl ⟨⟨⟨type, hlooked⟩, hnew⟩, rfl⟩
  next src dst hlooked hnew =>
    have hnot : ¬ ((∃ type, env.looked = .found type) ∧ env.lookedNew = .notFound) := by
      rintro ⟨-, h⟩
      exact absurd (hnew.symm.trans h) (by simp)
    split_ifs
    · exact CallsWhen.refused hnot
    · exact CallsWhen.refused hnot
    · split <;> exact CallsWhen.refused hnot
  next hnotFound _ =>
    refine CallsWhen.refused ?_
    rintro ⟨⟨type, hlooked⟩, hnew⟩
    exact hnotFound type hlooked hnew

theorem callsWhen_renameNames {oldname newname : Name} (hpseudo : nfs4IsFhPseudo fh = false)
    (hold : oldname ≠ []) (hnew : newname ≠ []) :
    CallsWhen (RenamePasses server env data fh oldname newname saved)
      (.rename fh.exportid.toNat fh.exportid.toNat)
      (renameNames server env data fh saved oldname newname).1 := by
  rw [renameNames]
  split
  next hlen =>
    refine CallsWhen.refused fun h => ?_
    rcases hlen with hlen | hlen
    · exact absurd h.oldNamePasses.length (Nat.not_le.mpr hlen)
    · exact absurd h.newNamePasses.length (Nat.not_le.mpr hlen)
  rename_i hlen
  obtain ⟨hlenOld, hlenNew⟩ := not_or.mp hlen
  split
  next o n ho hn =>
    have hoeq : cString oldname = o := by
      rw [fsalStr2name] at ho
      split_ifs at ho
      exact Option.some.inj ho
    have hneq : cString newname = n := by
      rw [fsalStr2name] at hn
      split_ifs at hn
      exact Option.some.inj hn
    split_ifs with hdot hexport hdir hsame hgetattr
    · refine CallsWhen.refused fun h => ?_
      rw [← hoeq, ← hneq, h.oldNamePasses.notDot, h.newNamePasses.notDot] at hdot
      exact absurd hdot (by decide)
    · exact CallsWhen.refused fun h => hexport h.sameExport
    · refine CallsWhen.refused fun h => ?_
      rw [h.directory, h.savedDirectory] at hdir
      exact absurd hdir (by decide)
    · exact CallsWhen.refused fun h => h.differ (by rw [hoeq, hneq]; exact hsame)
    · refine CallsWhen.refused fun h => ?_
      rw [h.getattr] at hgetattr
      exact absurd hgetattr (by decide)
    · refine (callsWhen_renameLooked (not_not.mp hexport)).congr ?_
      simp only [Bool.or_eq_true, not_or, Bool.not_eq_true, Bool.not_eq_false'] at hdot hdir
      constructor
      · rintro ⟨hlooked, hnotFound⟩
        exact ⟨hpseudo, not_not.mp hexport, hdir.1, hdir.2,
          namePasses_iff.mpr ⟨hold, Nat.not_lt.mp hlenOld, o, ho, hdot.2⟩,
          namePasses_iff.mpr ⟨hnew, Nat.not_lt.mp hlenNew, n, hn, hdot.1⟩,
          by rw [hoeq, hneq]; exact hsame, by simpa using hgetattr, hlooked, hnotFound⟩
      · exact fun h => ⟨h.looked, h.lookedNew⟩
  next hnone =>
    refine CallsWhen.refused fun h => ?_
    obtain ⟨-, -, o, ho, -⟩ := namePasses_iff.mp h.oldNamePasses
    obtain ⟨-, -, n, hn, -⟩ := namePasses_iff.mp h.newNamePasses
    exact hnone o n ho hn

theorem callsWhen_rename (hfh : data.currentFH = some fh) (hexpired : env.compound.expired = false)
    (oldname newname : Name) :
    CallsWhen ((Op4.rename oldname newname : Op4 Ctx Handle).Passes server env data fh)
      (.rename fh.exportid.toNat fh.exportid.toNat)
      (nfs4OpRename server env data oldname newname).1 := by
  rw [nfs4OpRename, Op4.Passes, checkFh_eq hfh hexpired]
  split_ifs with hempty
  · refine CallsWhen.refused ?_
    rintro ⟨saved, next, -, -, h⟩
    rcases hempty with hempty | hempty
    · exact h.oldNamePasses.notEmpty hempty
    · exact h.newNamePasses.notEmpty hempty
  · obtain ⟨hold, hnew⟩ := not_or.mp hempty
    cases hsaved : data.savedFH with
    | none =>
      refine CallsWhen.refused ?_
      rintro ⟨saved, next, h, -⟩
      cases h
    | some saved =>
      have hcheck : checkFh env.compound (some saved) .noFileHandle = .ok saved := by
        simp [checkFh, hexpired]
      simp only [hcheck]
      cases hpseudo : nfs4IsFhPseudo fh with
      | true =>
        refine CallsWhen.refused ?_
        rintro ⟨saved, next, -, -, h⟩
        exact absurd (hpseudo.symm.trans h.notPseudo) (by decide)
      | false =>
        simp only [Bool.false_eq_true, if_false]
        cases hset : setExportIfNull server.compound env.compound data with
        | error status =>
          refine CallsWhen.refused ?_
          rintro ⟨saved, next, -, h, -⟩
          cases h
        | ok next =>
          refine (callsWhen_renameNames hpseudo hold hnew).congr ?_
          constructor
          · exact fun h => ⟨saved, next, rfl, rfl, h⟩
          · rintro ⟨_, _, hsame, h, hpasses⟩
            cases hsame
            obtain rfl := Except.ok.inj h
            exact hpasses

theorem calls_nil (hfh : ∀ fh, data.currentFH = some fh → env.compound.expired = true)
    (op : Op4 Ctx Handle) : (runOp4 server env data op).1 = [] := by
  have hcheck : ∃ status, checkFh env.compound data.currentFH .noFileHandle = .error status := by
    cases hcurrent : data.currentFH with
    | none => exact ⟨_, rfl⟩
    | some fh => simp [checkFh, hfh fh hcurrent]
  obtain ⟨status, hcheck⟩ := hcheck
  cases op with
  | base op =>
    rw [runOp4]
    split <;> rfl
  | write args =>
    rw [runOp4, runWrite, hcheck]
    rfl
  | commit offset count =>
    rw [runOp4, nfs4OpCommit, hcheck]
    rfl
  | remove target =>
    rw [runOp4, nfs4OpRemove, hcheck]
    rfl
  | rename oldname newname =>
    rw [runOp4, nfs4OpRename, hcheck]
    split_ifs <;> rfl
  | other next => rfl

theorem callsWhen_op (server : Server Ctx Handle) (hfh : data.currentFH = some fh)
    (hexpired : env.compound.expired = false) (op : Op4 Ctx Handle) :
    ∃ call, CallsWhen (op.Passes server env data fh) call (runOp4 server env data op).1 ∧
      fh.exportid.toNat ∈ call.exportids ∧ ∀ id ∈ call.exportids, id = fh.exportid.toNat := by
  cases op with
  | base op =>
    refine ⟨.rdwr fh.exportid.toNat, ?_, by simp [ModifyCall.exportids]⟩
    rw [runOp4]
    split <;> exact CallsWhen.refused id
  | write args =>
    exact ⟨_, callsWhen_write hfh hexpired args, by simp [ModifyCall.exportids]⟩
  | commit offset count =>
    exact ⟨_, callsWhen_commit hfh hexpired offset count, by simp [ModifyCall.exportids]⟩
  | remove target =>
    exact ⟨_, callsWhen_remove hfh hexpired target, by simp [ModifyCall.exportids]⟩
  | rename oldname newname =>
    exact ⟨_, callsWhen_rename hfh hexpired oldname newname, by simp [ModifyCall.exportids]⟩
  | other next =>
    exact ⟨.rdwr fh.exportid.toNat, CallsWhen.refused id, by simp [ModifyCall.exportids]⟩

theorem spares_runOp4_iff (op : Op4 Ctx Handle) :
    Spares server.exports (runOp4 server env data op).1 ↔ op.Refused server env data := by
  constructor
  · intro h fh hfh hexpired hro hpasses
    obtain ⟨call, ⟨-, hcalls⟩ | ⟨hnot, -⟩, hmem, -⟩ := callsWhen_op server hfh hexpired op
    · exact h call (by simp [hcalls]) _ hmem hro
    · exact hnot hpasses
  · intro h
    by_cases hexists : ∃ fh, data.currentFH = some fh ∧ env.compound.expired = false
    · obtain ⟨fh, hfh, hexpired⟩ := hexists
      obtain ⟨call, ⟨hpasses, hcalls⟩ | ⟨-, hcalls⟩, -, hids⟩ :=
        callsWhen_op server hfh hexpired op
      · intro c hc id hid hro
        rw [hcalls, List.mem_singleton] at hc
        rw [hc] at hid
        rw [hids id hid] at hro
        exact h fh hfh hexpired hro hpasses
      · rw [hcalls]
        simp [Spares]
    · rw [calls_nil]
      · simp [Spares]
      · intro fh hfh
        by_contra hexpired
        exact hexists ⟨fh, hfh, by simpa using hexpired⟩

theorem spares_append {exports : Exports Ctx} {calls' : List ModifyCall} :
    Spares exports (calls ++ calls') ↔ Spares exports calls ∧ Spares exports calls' :=
  List.forall_mem_append

/-- **A COMPOUND modifies no read-only export exactly when each of its operations is refused.** -/
theorem spares_iff_refuses (data : CompoundData Ctx Handle)
    (as : List (Op4 Ctx Handle × Env4 Handle)) :
    Spares server.exports (nfs4Compound server data as) ↔ Refuses server data as := by
  induction as generalizing data with
  | nil => simp [nfs4Compound, Refuses, Spares]
  | cons a as ih =>
    rw [nfs4Compound, Refuses, spares_append, spares_runOp4_iff]
    refine and_congr_right fun _ => ?_
    cases (runOp4 server a.2 data a.1).2 with
    | error status => simp [Spares]
    | ok next => simp [ih]

end Nfs4

/-! ## Both -/

/-- **Read-only exports are kept** from a request of NFSv2 or NFSv3 exactly when it begins with the
handle of one, if it has such a handle at all, and from a COMPOUND exactly when each operation that
would modify is refused for another reason. -/
theorem readOnlyKept_iff (server : Server Ctx Handle) (pcontext : Ctx) :
    (∀ req, Keeps server.exports server.compound.fsalMaxNameLen req ↔
        FirstHandle server.exports req) ∧
      ∀ as, Spares server.exports (nfs4Compound server (initData pcontext) as) ↔
        Refuses server (initData pcontext) as :=
  ⟨fun _ => keeps_iff, fun as => spares_iff_refuses _ as⟩

/-- The export 1 is read-only, and the export 2 is not. -/
def firstReadOnly : Server Unit UInt64 where
  compound := twoExports
  io x := ⟨if x.id = 1 then .ro else .rw, 0, 0, 0, 0, 0⟩
  states := ⟨false, 9, fun f => f.toUInt64, true⟩

/-- Everything succeeds, and there are no states. -/
def findsAll4 : Env4 UInt64 where
  compound := findsAll
  states := States.init fun _ => true
  file := 5
  status := ⟨true, true, .other⟩
  io := ⟨false, false, true, true, false⟩
  xattr := true
  unstableOffset := none
  rdwr := true
  remove := true
  rename := true
  sameEntry := false
  getattr := true
  looked := .found .regularFile
  lookedNew := .notFound
  sameLooked := false
  notEmpty := false
  handlecmp := none

/-- REMOVE in a directory of a read-only export removes. -/
theorem not_readOnlyKept : ¬ ∀ (Ctx Handle : Type) (server : Server Ctx Handle) (pcontext : Ctx),
    (∀ req, Keeps server.exports server.compound.fsalMaxNameLen req) ∧
      ∀ as, Spares server.exports (nfs4Compound server (initData pcontext) as) := by
  intro h
  have hspares := (h Unit UInt64 firstReadOnly ()).2
    [(.base (.putfh ⟨inodeFh 1, by decide⟩), findsAll4), (.remove [120], findsAll4)]
  have hcalls : nfs4Compound firstReadOnly (initData ())
      [(.base (.putfh ⟨inodeFh 1, by decide⟩), findsAll4), (.remove [120], findsAll4)] =
        [.remove 1] := by
    decide +kernel
  rw [hcalls] at hspares
  exact hspares (.remove 1) (List.mem_singleton_self _) 1 (List.mem_singleton_self _)
    ⟨⟨1, ()⟩, by decide, by decide⟩

end CloudNfs.ReadOnly
