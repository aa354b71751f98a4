import CloudNfs.FileHandle
import CloudNfs.PseudoFs
import CloudNfs.AttrBitmap

/-!
# Operations in the pseudo file system (`NFS_Protocols/nfs4_pseudo.c`)

A handle of the pseudo file system carries the number of a directory and a flag. `PUTFH` copies what
the client has sent over the current handle, and the operations that come after it find the
directory in `reverse_tab` under the number.

* `resolved_iff` — the number that the client has sent is never compared with the numbers there are.

Attributes are left out. Behind a junction is a file system, in which the operation goes on. There
is enough memory.
-/

namespace CloudNfs.PseudoFs

open FileHandle DoublyLinked

/-! ## Handles -/

inductive Status where
  | handle (status : Nfsstat4)
  | noent
  | inval
  | nameTooLong
  | tooSmall
  | badCookie
  deriving DecidableEq

/-- What `nfs4_FhandleToPseudo` comes to. -/
inductive Resolved where
  /-- it is `FALSE` -/
  | notPseudo
  /-- at the index, nothing has been stored -/
  | outside
  | entry (p : ℕ)

/-- `nfs4_FhandleToPseudo`. -/
def fhandleToPseudo (fh4p : NfsFh4) (t : Tree) : Resolved :=
  let pfhandle4 := FileHandleV4.ofBytes fh4p.data
  if pfhandle4.pseudofsFlag = 0 then .notPseudo
  else if pfhandle4.pseudofsId.toNat < maxPseudoEntry then
    match t.reverseTab pfhandle4.pseudofsId.toNat with
    | some p => .entry p
    | none => .outside
  else .outside

/-- `nfs4_PseudoToFhandle`: the local `fhandle4` is cleared first. -/
def pseudoToFhandle (fh4p : NfsFh4) (psfsentry : Entry) : NfsFh4 :=
  let fhandle4 : FileHandleV4 :=
    ⟨UInt16.ofNat psfsentry.pseudoId, 0, 1, 0, 0, 0, 0, List.replicate 93 0, 0, 0⟩
  { fh4p with
    nfsFh4Len := UInt32.ofNat sizeofV4
    data := fhandle4.toBytes ++ fh4p.data.drop sizeofV4 }

/-- What is used of `compound_data_t`. -/
structure CompoundData where
  currentFH : NfsFh4
  mountedOnFH : NfsFh4
  rootFH : NfsFh4

def checkFh (p : Nfsv4Param) (serverBootTime : ℕ) (fh : NfsFh4) : Nfsstat4 :=
  if nfs4IsFhEmpty (some fh) ≠ .ok then .noFileHandle
  else if nfs4IsFhInvalid (some fh) ≠ .ok then .badHandle
  else if nfs4IsFhExpired p serverBootTime (some fh) ≠ .ok then .fhExpired
  else .ok

/-- `nfs4_AllocateFH`, for a handle that has none, at an address. -/
def allocateFH (addr : UInt64) (fh : NfsFh4) : NfsFh4 :=
  if fh.nfsFh4Len = 0 then
    ⟨UInt32.ofNat sizeofV4, fh.pad, addr, List.replicate sizeofV4 0⟩
  else fh

/-- The handle that was sent is copied over another. -/
def copyFH (fh object : NfsFh4) : NfsFh4 :=
  { fh with
    nfsFh4Len := object.nfsFh4Len
    data := object.data.take object.nfsFh4Len.toNat ++ fh.data.drop object.nfsFh4Len.toNat }

/-- `nfs4_op_putfh`, as far as the handles go. -/
def putfh (p : Nfsv4Param) (serverBootTime : ℕ) (addr addr' : UInt64) (data : CompoundData)
    (object : NfsFh4) : Except Nfsstat4 CompoundData :=
  match checkFh p serverBootTime object with
  | .ok => .ok
    { data with
      currentFH := copyFH (allocateFH addr data.currentFH) object
      mountedOnFH := copyFH (allocateFH addr' data.mountedOnFH) object }
  | status => .error status

/-! ## Operations -/

/-- What becomes of an operation. -/
inductive OpResult (α : Type) where
  | status (status : Status)
  /-- something is read at an index of `reverse_tab` at which nothing has been stored -/
  | outside
  /-- `NULL` is read, or something is written behind the end of an array -/
  | overrun
  /-- it goes on outside of the pseudo file system, or behind the junction to an export -/
  | elsewhere (junction : Option ℕ)
  | ok (result : α)

/-- The directory of the current handle is used. -/
def withPseudo {α : Type} (t : Tree) (fh : NfsFh4) (k : ℕ → OpResult α) : OpResult α :=
  match fhandleToPseudo fh t with
  | .notPseudo => .status (.handle .badHandle)
  | .outside => .outside
  | .entry p => k p

/-- `nfs4_op_getattr_pseudo`: the directory whose attributes are sent. -/
def getattrPseudo (t : Tree) (data : CompoundData) : OpResult ℕ :=
  withPseudo t data.currentFH fun p => .ok p

/-- `nfs4_op_lookup_pseudo`. The local `name` has `MAXNAMLEN` characters, and ends with the first
zero. -/
def lookupPseudo (t : Tree) (data : CompoundData) (objname : List UInt8) :
    OpResult CompoundData :=
  if maxNamLen ≤ objname.length then .overrun
  else
    let name := objname.takeWhile fun c => c ≠ 0
    withPseudo t data.currentFH fun p =>
      match findSon t.entries name t.count (t.entries p).sons with
      | none => .status .noent
      | some iter =>
        match (t.entries iter).junctionExport with
        | none => .ok { data with currentFH := pseudoToFhandle data.currentFH (t.entries iter) }
        | some junction => .elsewhere (some junction)

/-- `nfs4_op_lookupp_pseudo`. -/
def lookuppPseudo (t : Tree) (data : CompoundData) : OpResult CompoundData :=
  withPseudo t data.currentFH fun p =>
    match t.reverseTab 0 with
    | none => .outside
    | some root =>
      if t.entries p = t.entries root then .status .noent
      else
        let currentFH := pseudoToFhandle data.currentFH (t.entries (t.entries p).parent)
        .ok { data with
          currentFH := currentFH
          mountedOnFH :=
            { data.mountedOnFH with
              nfsFh4Len := currentFH.nfsFh4Len
              data := currentFH.data.take currentFH.nfsFh4Len.toNat ++
                data.mountedOnFH.data.drop currentFH.nfsFh4Len.toNat } }

/-- `READDIR4args`. -/
structure ReaddirArgs where
  cookie : ℕ
  cookieverf : List UInt8
  maxcount : UInt32
  /-- the words of `attr_request`; there is a `NULL` when there are none -/
  attrRequest : List (BitVec 32)

/-- `entry4`, without the attributes. -/
structure Entry4 where
  cookie : ℕ
  name : Name
  deriving DecidableEq

/-- `READDIR4resok`. -/
structure ReaddirResok where
  cookieverf : List UInt8
  entries : List Entry4
  eof : Bool

/-- `sizeof(entry4)`. -/
def sizeofEntry4 : ℕ := 64

def Entry.entry4 (e : Entry) : Entry4 := ⟨e.pseudoId + 3, e.name⟩

/-- The loop that looks for the cookie. A list has no more nodes than there are. -/
def seekCookie (entries : ℕ → Entry) (cookie : ℕ) : ℕ → Option ℕ → Option ℕ
  | 0, _ => none
  | _, none => none
  | fuel + 1, some iter =>
    if (entries iter).pseudoId + 3 = cookie then some iter
    else seekCookie entries cookie fuel (entries iter).next

/-- The bitmap of `attr_request`. -/
def requestBitmap (attrRequest : List (BitVec 32)) : Attributes.Bitmap4 :=
  ⟨UInt32.ofNat attrRequest.length, fun i => attrRequest.getD i 0⟩

/-- What `nfs4_PseudoToFattr` leaves of `attr_request`: nothing, when no attribute is asked for.
More attributes than `attrmasklist` has places, 55 (76 with NFSv4.1), are not modelled. -/
def pseudoToFattr (attrRequest : List (BitVec 32)) : List (BitVec 32) :=
  if Attributes.bitmap4ToList (requestBitmap attrRequest) = [] then [] else attrRequest

/-- The loop that fills the reply, which may have `room` more entries: these, and where it has
stopped. It reads the first word of `attr_request`. -/
def fillEntries (entries : ℕ → Entry) (room : ℕ) :
    ℕ → List (BitVec 32) → Option ℕ → Option (List Entry4 × Option ℕ)
  | 0, _, _ => some ([], none)
  | _, _, none => some ([], none)
  | fuel + 1, attrRequest, some iter =>
    if attrRequest = [] then none
    else if room = 1 then some ([(entries iter).entry4], some iter)
    else
      (fillEntries entries (room - 1) fuel (pseudoToFattr attrRequest) (entries iter).next).map
        fun (es, iter') => ((entries iter).entry4 :: es, iter')

/-- `nfs4_op_readdir_pseudo`; `useCookieVerf` and the verifier are those of the server. -/
def readdirPseudo (useCookieVerf : Bool) (cookieVerifier : List UInt8) (t : Tree)
    (data : CompoundData) (arg : ReaddirArgs) : OpResult ReaddirResok :=
  let estimatedNumEntries := arg.maxcount.toNat / sizeofEntry4
  if arg.maxcount.toNat < sizeofEntry4 ∨ estimatedNumEntries = 0 then .status .tooSmall
  else
    withPseudo t data.currentFH fun p =>
      match (t.entries p).junctionExport with
      | some junction => .elsewhere (some junction)
      | none =>
        if useCookieVerf ∧ arg.cookie ≠ 0 ∧ cookieVerifier ≠ arg.cookieverf then .status .badCookie
        else
          let iter := if arg.cookie ≠ 0 then
              seekCookie t.entries arg.cookie t.count (t.entries p).sons
            else (t.entries p).sons
          match fillEntries t.entries estimatedNumEntries t.count arg.attrRequest iter with
          | none => .overrun
          | some (es, iter') => .ok ⟨cookieVerifier, es, iter'.isNone⟩

inductive Op where
  | getattr
  /-- `NFS4_OP_LOOKUP`, with the name -/
  | lookup (objname : List UInt8)
  | lookupp
  | readdir (arg : ReaddirArgs)

inductive OpRes where
  /-- the directory whose attributes are sent -/
  | attributes (p : ℕ)
  /-- the handles have been set -/
  | handles (data : CompoundData)
  /-- a part of a directory -/
  | entries (resok : ReaddirResok)

def OpResult.map {α β : Type} (f : α → β) : OpResult α → OpResult β
  | .status s => .status s
  | .outside => .outside
  | .overrun => .overrun
  | .elsewhere junction => .elsewhere junction
  | .ok result => .ok (f result)

def fsalMaxNameLen : ℕ := 255

/-- What comes between the checks of the handle and the pseudo file system. -/
def Op.check (data : CompoundData) : Op → Option Status
  | .lookup objname =>
    if objname.length = 0 then some .inval
    else if fsalMaxNameLen < objname.length then some .nameTooLong
    else none
  | .lookupp =>
    if data.currentFH.nfsFh4Len = data.rootFH.nfsFh4Len ∧
        data.currentFH.data.take data.currentFH.nfsFh4Len.toNat =
          data.rootFH.data.take data.currentFH.nfsFh4Len.toNat then some .noent
    else none
  | _ => none

/-- An operation in the pseudo file system. -/
def Op.pseudo (useCookieVerf : Bool) (cookieVerifier : List UInt8) (t : Tree)
    (data : CompoundData) : Op → OpResult OpRes
  | .getattr => (getattrPseudo t data).map .attributes
  | .lookup objname => (lookupPseudo t data objname).map .handles
  | .lookupp => (lookuppPseudo t data).map .handles
  | .readdir arg => (readdirPseudo useCookieVerf cookieVerifier t data arg).map .entries

/-- `nfs4_op_getattr`, `nfs4_op_lookup`, `nfs4_op_lookupp` and `nfs4_op_readdir`. -/
def nfs4Op (p : Nfsv4Param) (serverBootTime : ℕ) (useCookieVerf : Bool)
    (cookieVerifier : List UInt8) (t : Tree) (data : CompoundData) (op : Op) : OpResult OpRes :=
  match checkFh p serverBootTime data.currentFH with
  | .ok =>
    match op.check data with
    | some status => .status status
    | none =>
      if nfs4IsFhPseudo (some data.currentFH) then op.pseudo useCookieVerf cookieVerifier t data
      else .elsewhere none
  | status => .status (.handle status)

/-! ## The property -/

/-- Nothing is used that has not been stored: the current handle is refused, or its directory is in
the table. -/
structure Safe (p : Nfsv4Param) (serverBootTime : ℕ) (t : Tree) (data : CompoundData) : Prop where
  /-- `nfs4_FhandleToPseudo` -/
  resolve : fhandleToPseudo data.currentFH t ≠ .outside
  ops : ∀ useCookieVerf cookieVerifier op,
    nfs4Op p serverBootTime useCookieVerf cookieVerifier t data op ≠ .outside

/-- Every directory is found under its handle. -/
def RoundTrip (t : Tree) : Prop :=
  ∀ q < t.count, ∀ buf, fhandleToPseudo (pseudoToFhandle buf (t.entries q)) t = .entry q

/-- A handle is not one of the pseudo file system, or has a number that has been given to a
directory. -/
def Numbered (exports : List Export) (t : Tree) (fh : NfsFh4) : Prop :=
  (FileHandleV4.ofBytes fh.data).pseudofsFlag = 0 ∨
    exports ≠ [] ∧ (FileHandleV4.ofBytes fh.data).pseudofsId.toNat ≤ t.lastPseudoId

section

variable {t : Tree} {S : ℕ → List ℕ} {P : List (List Name)} {exports : List Export} {fuel : ℕ}
  {fh : NfsFh4}

/-- **The table** has the nodes under their numbers, and nothing else. -/
structure Filled (t : Tree) : Prop where
  id : ∀ q < t.count, (t.entries q).pseudoId = q
  le : t.count ≤ maxPseudoEntry
  lastId : t.lastPseudoId + 1 = t.count
  table : ∀ q, t.reverseTab q = if q < t.count then some q else none

theorem filled (hrun : exportToPseudoFs fuel exports = .done t) (hne : exports ≠ []) :
    Filled t := by
  obtain ⟨S, P, h, hl, -⟩ := Inv.exportToPseudoFs hrun
  refine ⟨h.id, h.le, h.lastId, fun q => ?_⟩
  by_cases hq : q < t.count
  · rw [if_pos hq]
    by_cases hzero : q = 0
    · subst hzero
      exact hl.root (.inr hne)
    · exact h.table q hq hzero
  · rw [if_neg hq]
    exact h.empty q (Nat.not_lt.mp hq)

theorem Filled.fhandleToPseudo (h : Filled t) (fh : NfsFh4) : fhandleToPseudo fh t =
    if (FileHandleV4.ofBytes fh.data).pseudofsFlag = 0 then .notPseudo
    else if (FileHandleV4.ofBytes fh.data).pseudofsId.toNat ≤ t.lastPseudoId then
      .entry (FileHandleV4.ofBytes fh.data).pseudofsId.toNat
    else .outside := by
  have hlast := h.lastId
  have hle := h.le
  rw [PseudoFs.fhandleToPseudo, h.table]
  by_cases hflag : (FileHandleV4.ofBytes fh.data).pseudofsFlag = 0
  · rw [if_pos hflag, if_pos hflag]
  rw [if_neg hflag, if_neg hflag]
  by_cases hid : (FileHandleV4.ofBytes fh.data).pseudofsId.toNat ≤ t.lastPseudoId
  · have hlt : (FileHandleV4.ofBytes fh.data).pseudofsId.toNat < t.count := by omega
    rw [if_pos hid, if_pos (Nat.lt_of_lt_of_le hlt hle), if_pos hlt]
  · have hnot : ¬ (FileHandleV4.ofBytes fh.data).pseudofsId.toNat < t.count := by omega
    rw [if_neg hid, if_neg hnot]
    split <;> rfl

theorem ofBytes_pseudoToFhandle (buf : NfsFh4) (e : Entry) :
    FileHandleV4.ofBytes (pseudoToFhandle buf e).data =
      ⟨UInt16.ofNat e.pseudoId, 0, 1, 0, 0, 0, 0, List.replicate 93 0, 0, 0⟩ :=
  FileHandleV4.ofBytes_toBytes _ List.length_replicate _

theorem Filled.roundTrip (h : Filled t) : RoundTrip t := by
  intro q hq buf
  have hlast := h.lastId
  have hle := h.le
  have hid : (UInt16.ofNat (t.entries q).pseudoId).toNat = q := by
    rw [h.id q hq]
    apply UInt16.toNat_ofNat_of_lt'
    have hmax : maxPseudoEntry < 2 ^ 16 := by decide
    exact Nat.lt_trans (Nat.lt_of_lt_of_le hq hle) hmax
  rw [h.fhandleToPseudo, ofBytes_pseudoToFhandle]
  dsimp only
  rw [hid, if_neg (by decide), if_pos (by omega)]

theorem fhandleToPseudo_emptyTree (buf : NfsFh4) (e : Entry) :
    fhandleToPseudo (pseudoToFhandle buf e) emptyTree = .outside := by
  rw [fhandleToPseudo, ofBytes_pseudoToFhandle]
  dsimp only
  rw [if_neg (by decide)]
  split <;> rfl

theorem not_roundTrip_emptyTree : ¬ RoundTrip emptyTree := by
  intro h
  have hroot := h 0 Nat.one_pos ⟨0, 0, 0, []⟩
  rw [fhandleToPseudo_emptyTree] at hroot
  cases hroot

variable {α : Type} {data : CompoundData} {p : Nfsv4Param} {serverBootTime : ℕ}

theorem OpResult.map_eq_outside {β : Type} {f : α → β} {r : OpResult α} :
    r.map f = .outside ↔ r = .outside := by
  cases r <;> simp [OpResult.map]

theorem withPseudo_ne_outside {k : ℕ → OpResult α} (hfh : PseudoFs.fhandleToPseudo fh t ≠ .outside)
    (hk : ∀ p, k p ≠ .outside) : withPseudo t fh k ≠ .outside := by
  rw [withPseudo]
  cases hres : PseudoFs.fhandleToPseudo fh t with
  | notPseudo => nofun
  | outside => exact absurd hres hfh
  | entry p => exact hk p

theorem Op.pseudo_ne_outside (h : Filled t) {useCookieVerf : Bool} {cookieVerifier : List UInt8}
    (hfh : PseudoFs.fhandleToPseudo data.currentFH t ≠ .outside) (op : Op) :
    op.pseudo useCookieVerf cookieVerifier t data ≠ .outside := by
  cases op with
  | getattr =>
    rw [Op.pseudo, Ne, OpResult.map_eq_outside]
    exact withPseudo_ne_outside hfh fun _ => nofun
  | lookup objname =>
    rw [Op.pseudo, Ne, OpResult.map_eq_outside, lookupPseudo]
    split
    · nofun
    apply withPseudo_ne_outside hfh
    intro p
    split
    · nofun
    · split <;> nofun
  | lookupp =>
    have hroot : t.reverseTab 0 = some 0 := by
      rw [h.table, if_pos]
      have := h.lastId
      omega
    rw [Op.pseudo, Ne, OpResult.map_eq_outside]
    apply withPseudo_ne_outside hfh
    intro p
    rw [hroot]
    dsimp only
    split <;> nofun
  | readdir arg =>
    rw [Op.pseudo, Ne, OpResult.map_eq_outside, readdirPseudo]
    dsimp only
    split
    · nofun
    apply withPseudo_ne_outside hfh
    intro p
    split
    · nofun
    · split
      · nofun
      · split <;> nofun

theorem Safe.of_resolve (h : Filled t) (hfh : PseudoFs.fhandleToPseudo data.currentFH t ≠ .outside)
    : Safe p serverBootTime t data := by
  refine ⟨hfh, fun useCookieVerf cookieVerifier op => ?_⟩
  rw [nfs4Op]
  split
  · split
    · nofun
    · split
      · exact op.pseudo_ne_outside h hfh
      · nofun
  · nofun

theorem Safe.of_not_flag (hflag : (FileHandleV4.ofBytes data.currentFH.data).pseudofsFlag = 0) :
    Safe p serverBootTime t data := by
  have hres : PseudoFs.fhandleToPseudo data.currentFH t = .notPseudo := by
    rw [PseudoFs.fhandleToPseudo, if_pos hflag]
  refine ⟨by rw [hres]; rintro ⟨⟩, fun useCookieVerf cookieVerifier op => ?_⟩
  have hpseudo : nfs4IsFhPseudo (some data.currentFH) = false := by
    rw [nfs4IsFhPseudo, hflag]
    rfl
  rw [nfs4Op, hpseudo]
  split
  · split <;> rintro ⟨⟩
  · rintro ⟨⟩

end

theorem currentFH_putfh {p : Nfsv4Param} {serverBootTime : ℕ} {addr addr' : UInt64}
    {data data' : CompoundData} {object : NfsFh4}
    (hput : putfh p serverBootTime addr addr' data object = .ok data') :
    data'.currentFH = copyFH (allocateFH addr data.currentFH) object := by
  rw [putfh] at hput
  split at hput
  · rw [← Except.ok.inj hput]
  · cases hput

/-- **Handles of the pseudo file system are resolved**: those of its directories, once there is an
export, and those that a client sends exactly when the number that they carry is not greater than
the last that was given. -/
theorem resolved_iff {fuel : ℕ} {exports : List Export} {t : Tree}
    (hrun : exportToPseudoFs fuel exports = .done t) :
    (RoundTrip t ↔ exports ≠ []) ∧
      ∀ p serverBootTime addr addr' data object data',
        putfh p serverBootTime addr addr' data object = .ok data' →
          (Safe p serverBootTime t data' ↔
            Numbered exports t (copyFH (allocateFH addr data.currentFH) object)) := by
  by_cases hne : exports = []
  · subst hne
    obtain rfl := exportToPseudoFs_nil hrun
    refine ⟨iff_of_false not_roundTrip_emptyTree fun h => h rfl, ?_⟩
    intro p serverBootTime addr addr' data object data' hput
    rw [← currentFH_putfh hput]
    constructor
    · intro hsafe
      have hres := hsafe.resolve
      rw [fhandleToPseudo] at hres
      by_cases hflag : (FileHandleV4.ofBytes data'.currentFH.data).pseudofsFlag = 0
      · exact Or.inl hflag
      · rw [if_neg hflag] at hres
        split at hres <;> exact absurd rfl hres
    · rintro (hflag | ⟨hnil, -⟩)
      · exact .of_not_flag hflag
      · exact absurd rfl hnil
  · have h := filled hrun hne
    refine ⟨iff_of_true h.roundTrip hne, ?_⟩
    intro p serverBootTime addr addr' data object data' hput
    rw [← currentFH_putfh hput]
    constructor
    · intro hsafe
      have hres := hsafe.resolve
      rw [h.fhandleToPseudo] at hres
      by_cases hflag : (FileHandleV4.ofBytes data'.currentFH.data).pseudofsFlag = 0
      · exact Or.inl hflag
      rw [if_neg hflag] at hres
      refine Or.inr ⟨hne, ?_⟩
      by_contra hid
      exact hres (if_neg hid)
    · rintro (hflag | ⟨-, hid⟩)
      · exact .of_not_flag hflag
      · apply Safe.of_resolve h
        rw [h.fhandleToPseudo, if_pos hid]
        split <;> nofun

/-- The path `/a`. -/
def exportA : Export := ⟨true, [47, 97]⟩

/-- Handles that have not been set. -/
def noHandles : CompoundData := ⟨⟨0, 0, 0, []⟩, ⟨0, 0, 0, []⟩, ⟨0, 0, 0, []⟩⟩

/-- Four bytes, with the flag and the number 65535. -/
def forgedFh : NfsFh4 := ⟨4, 0, 1, [255, 255, 0, 1]⟩

/-- For the directory of a path. -/
theorem resolved_iff_exportA : ∃ t data', exportToPseudoFs 1 [exportA] = .done t ∧
    putfh ⟨false, false⟩ 0 1 1 noHandles ⟨4, 0, 1, [1, 0, 0, 1]⟩ = .ok data' ∧
      RoundTrip t ∧ Safe ⟨false, false⟩ 0 t data' := by
  have hiff := @resolved_iff 1 [exportA] _ rfl
  refine ⟨_, _, rfl, rfl, hiff.1.mpr (List.cons_ne_nil _ _), ?_⟩
  apply (hiff.2 _ _ 1 1 noHandles ⟨4, 0, 1, [1, 0, 0, 1]⟩ _ rfl).mpr
  exact Or.inr ⟨List.cons_ne_nil _ _, Nat.le_refl 1⟩

/-- **A number that was not given** is sent. -/
theorem forgedFh_not_safe : ∃ t data', exportToPseudoFs 1 [exportA] = .done t ∧
    putfh ⟨false, false⟩ 0 1 1 noHandles forgedFh = .ok data' ∧
      ¬ Safe ⟨false, false⟩ 0 t data' := by
  refine ⟨_, _, rfl, rfl, fun h => ?_⟩
  apply h.resolve
  rfl

end CloudNfs.PseudoFs
