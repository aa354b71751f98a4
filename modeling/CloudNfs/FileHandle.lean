import CloudNfs.Bytes

/-!
# File handles

`nfs_filehandle_mgmt.c` builds the file handles that clients keep and takes them
apart again when they come back. A handle is a packed structure: the export it
belongs to, the digest the FSAL made of its own handle, and for NFSv4 the boot time
of the server that built it.

* The structures are laid out byte by byte as the compiler lays them out (little
  endian, `unsigned int` aligned on four bytes), so `file_handle_v4_t` has 112 bytes,
  four of them padding that nobody writes.
* A cast of a pointer is a reading of the bytes it points to. `nfs4_Is_Fh_Expired`
  casts the pointer to the `nfs_fh4` itself, so it reads the bytes of that structure.
* The FSAL is a parameter: a digest of a fixed size for each protocol, and its inverse.
-/

namespace CloudNfs

namespace FileHandle

/-! ### The structures -/

/-- The two digest types used for handles here. -/
inductive DigestType where
  | nfsv3
  | nfsv4

/-- `FSAL_DIGEST_SIZE_HDLV3` and `FSAL_DIGEST_SIZE_HDLV4`. -/
def DigestType.size : DigestType → ℕ
  | nfsv3 => 61
  | nfsv4 => 93

/-- The two functions of the FSAL; an error is `none`. -/
structure Fsal (Ctx Handle : Type) where
  /-- `FSAL_DigestHandle`: the bytes written to the output buffer -/
  digestHandle : DigestType → Ctx → Handle → Option (List UInt8)
  expandHandle : DigestType → Ctx → List UInt8 → Option Handle

/-- Digest and expand undo each other, and a digest fills its buffer. -/
structure Fsal.DigestUndone {Ctx Handle : Type} (fsal : Fsal Ctx Handle) : Prop where
  /-- a digest fills the buffer of its type -/
  size : ∀ t ctx h d, fsal.digestHandle t ctx h = some d → d.length = t.size
  /-- expanding a digest gives the handle back -/
  undo : ∀ t ctx h d, fsal.digestHandle t ctx h = some d → fsal.expandHandle t ctx d = some h

/-- What the handle functions use of `exportlist_t`. -/
structure Exportlist (Ctx : Type) where
  /-- `id`, an `unsigned short` -/
  id : UInt16
  fsExportContext : Ctx

/-- The check of `Export_id` in `BuildExportEntry`; `USHRT_MAX` is 65535. -/
def buildExportId (exportId : ℤ) : Option UInt16 :=
  if exportId ≤ 0 ∨ exportId > 65535 then none else some (UInt16.ofNat exportId.toNat)

/-- `file_handle_v3_t`. -/
structure FileHandleV3 where
  exportid : UInt16
  /-- the digest, `char fsopaque[61]` -/
  fsopaqueData : List UInt8
  xattrPos : UInt8

/-- `file_handle_v4_t`, with the padding the compiler adds. -/
structure FileHandleV4 where
  /-- the node of the pseudo file system -/
  pseudofsId : UInt16
  dsFlag : UInt8
  /-- within the pseudo file system -/
  pseudofsFlag : UInt8
  exportid : UInt32
  refid : UInt16
  /-- two bytes that align the next member -/
  pad : UInt16
  /-- the boot time of the server -/
  srvbootTime : UInt32
  /-- the digest, `char fsopaque[93]` -/
  fsopaqueData : List UInt8
  xattrPos : UInt8
  /-- two bytes at the end -/
  tail : UInt16

/-- The bytes of a `file_handle_v3_t`. -/
def FileHandleV3.toBytes (h : FileHandleV3) : List UInt8 :=
  leBytes 2 h.exportid.toNat ++ (h.fsopaqueData ++ [h.xattrPos])

/-- The cast to `file_handle_v3_t *`. -/
def FileHandleV3.ofBytes (b : List UInt8) : FileHandleV3 where
  exportid := UInt16.ofNat (leValue (field 0 2 b))
  fsopaqueData := field 2 61 b
  xattrPos := UInt8.ofNat (leValue (field 63 1 b))

/-- The bytes of a `file_handle_v4_t`. -/
def FileHandleV4.toBytes (h : FileHandleV4) : List UInt8 :=
  leBytes 2 h.pseudofsId.toNat ++ (leBytes 1 h.dsFlag.toNat ++ (leBytes 1 h.pseudofsFlag.toNat ++
    (leBytes 4 h.exportid.toNat ++ (leBytes 2 h.refid.toNat ++ (leBytes 2 h.pad.toNat ++
    (leBytes 4 h.srvbootTime.toNat ++ (h.fsopaqueData ++ (leBytes 1 h.xattrPos.toNat ++
    leBytes 2 h.tail.toNat))))))))

/-- The cast to `file_handle_v4_t *`. -/
def FileHandleV4.ofBytes (b : List UInt8) : FileHandleV4 where
  pseudofsId := UInt16.ofNat (leValue (field 0 2 b))
  dsFlag := UInt8.ofNat (leValue (field 2 1 b))
  pseudofsFlag := UInt8.ofNat (leValue (field 3 1 b))
  exportid := UInt32.ofNat (leValue (field 4 4 b))
  refid := UInt16.ofNat (leValue (field 8 2 b))
  pad := UInt16.ofNat (leValue (field 10 2 b))
  srvbootTime := UInt32.ofNat (leValue (field 12 4 b))
  fsopaqueData := field 16 93 b
  xattrPos := UInt8.ofNat (leValue (field 109 1 b))
  tail := UInt16.ofNat (leValue (field 110 2 b))

/-- `sizeof(file_handle_v3_t)`. -/
def sizeofV3 : ℕ := 64

/-- `sizeof(file_handle_v4_t)`. -/
def sizeofV4 : ℕ := 112

/-- `nfs_fh3`: a counted buffer. -/
structure NfsFh3 where
  dataLen : UInt32
  /-- `data.data_val`, an address; `0` is `NULL` -/
  dataVal : UInt64
  /-- the bytes found at that address -/
  data : List UInt8

/-- `nfs_fh4`: a counted buffer. -/
structure NfsFh4 where
  nfsFh4Len : UInt32
  /-- four bytes that align the pointer -/
  pad : UInt32
  /-- `nfs_fh4_val`, an address; `0` is `NULL` -/
  nfsFh4Val : UInt64
  /-- the bytes found at that address -/
  data : List UInt8

/-- The bytes of the structure `nfs_fh4` itself, not those it points to. -/
def NfsFh4.toBytes (fh : NfsFh4) : List UInt8 :=
  leBytes 4 fh.nfsFh4Len.toNat ++ (leBytes 4 fh.pad.toNat ++ leBytes 8 fh.nfsFh4Val.toNat)

/-- What the handle functions use of `nfs_param.nfsv4_param`. -/
structure Nfsv4Param where
  /-- handles expire when the server restarts -/
  fhExpire : Bool
  /-- say so to the client -/
  returnsErrFhExpired : Bool

inductive Nfsstat4 where
  /-- `NFS4_OK` -/
  | ok
  | noFileHandle
  | badHandle
  | fhExpired
  deriving DecidableEq

/-! ### The functions -/

section

variable {Ctx Handle : Type} (fsal : Fsal Ctx Handle)

/-- `nfs3_FSALToFhandle`: the local `file_handle` is cleared first. -/
def nfs3FSALToFhandle (pfh3 : NfsFh3) (h : Handle) (pexport : Exportlist Ctx) : Option NfsFh3 :=
  match fsal.digestHandle .nfsv3 pexport.fsExportContext h with
  | none => none
  | some d =>
    let fileHandle : FileHandleV3 := ⟨pexport.id, d, 0⟩
    some { pfh3 with
      dataLen := UInt32.ofNat sizeofV3
      data := fileHandle.toBytes ++ pfh3.data.drop sizeofV3 }

/-- `nfs4_FSALToFhandle`: `stack` is what the uninitialised local `file_handle` holds, and its
padding is copied into the handle. -/
def nfs4FSALToFhandle (p : Nfsv4Param) (serverBootTime : ℕ) (stack : FileHandleV4) (pfh4 : NfsFh4)
    (h : Handle) (pexport : Exportlist Ctx) : Option NfsFh4 :=
  match fsal.digestHandle .nfsv4 pexport.fsExportContext h with
  | none => none
  | some d =>
    let fileHandle : FileHandleV4 :=
      { stack with
        fsopaqueData := d
        exportid := UInt32.ofNat pexport.id.toNat
        pseudofsId := 0
        pseudofsFlag := 0
        dsFlag := 0
        refid := 0
        srvbootTime := if p.fhExpire then UInt32.ofNat serverBootTime else 0
        xattrPos := 0 }
    some { pfh4 with
      nfsFh4Len := UInt32.ofNat sizeofV4
      data := fileHandle.toBytes ++ pfh4.data.drop sizeofV4 }

def nfs3FhandleToFSAL (ctx : Ctx) (pfh3 : NfsFh3) : Option Handle :=
  if pfh3.dataLen.toNat ≠ sizeofV3 then none
  else fsal.expandHandle .nfsv3 ctx (FileHandleV3.ofBytes pfh3.data).fsopaqueData

def nfs4FhandleToFSAL (ctx : Ctx) (pfh4 : NfsFh4) : Option Handle :=
  if pfh4.nfsFh4Len.toNat ≠ sizeofV4 then none
  else
    let pfileHandle := FileHandleV4.ofBytes pfh4.data
    if pfileHandle.pseudofsId ≠ 0 ∨ pfileHandle.pseudofsFlag ≠ 0 then none
    else fsal.expandHandle .nfsv4 ctx pfileHandle.fsopaqueData

end

/-- The conversion of an unsigned number to `short`. -/
def toShort (v : ℕ) : ℤ := (v : ℤ).bmod (2 ^ 16)

def nfs3FhandleToExportId (pfh3 : NfsFh3) : ℤ :=
  if pfh3.dataVal = 0 then -1 else toShort (FileHandleV3.ofBytes pfh3.data).exportid.toNat

def nfs4FhandleToExportId (pfh4 : NfsFh4) : ℤ :=
  if pfh4.nfsFh4Val = 0 then -1 else toShort (FileHandleV4.ofBytes pfh4.data).exportid.toNat

/-- `nfs3_Is_Fh_Xattr`; `none` is the null pointer. -/
def nfs3IsFhXattr : Option NfsFh3 → Bool
  | none => false
  | some pfh => (FileHandleV3.ofBytes pfh.data).xattrPos ≠ 0

def nfs4IsFhEmpty : Option NfsFh4 → Nfsstat4
  | none => .noFileHandle
  | some pfh => if pfh.nfsFh4Len = 0 then .noFileHandle else .ok

def nfs4IsFhXattr : Option NfsFh4 → Bool
  | none => false
  | some pfh => (FileHandleV4.ofBytes pfh.data).xattrPos ≠ 0

def nfs4IsFhPseudo : Option NfsFh4 → Bool
  | none => false
  | some pfh => (FileHandleV4.ofBytes pfh.data).pseudofsFlag ≠ 0

/-- `nfs4_Is_Fh_Expired`: the cast is of `pfh`, not of `pfh->nfs_fh4_val`. -/
def nfs4IsFhExpired (p : Nfsv4Param) (serverBootTime : ℕ) : Option NfsFh4 → Nfsstat4
  | none => .badHandle
  | some pfh =>
    let pfilehandle4 := FileHandleV4.ofBytes pfh.toBytes
    if p.fhExpire ∧ pfilehandle4.srvbootTime ≠ UInt32.ofNat serverBootTime then
      if p.returnsErrFhExpired then .fhExpired else .ok
    else .ok

def nfs4IsFhInvalid : Option NfsFh4 → Nfsstat4
  | none => .badHandle
  | some pfh =>
    if pfh.nfsFh4Len.toNat > sizeofV4 then .badHandle
    else if pfh.nfsFh4Val = 0 then .badHandle
    else .ok

def nfs4IsFhReferral : Option NfsFh4 → Bool
  | none => false
  | some pfh => (FileHandleV4.ofBytes pfh.data).refid > 0

/-! ### What the casts read -/

theorem FileHandleV3.ofBytes_toBytes (h : FileHandleV3) (hl : h.fsopaqueData.length = 61)
    (rest : List UInt8) : FileHandleV3.ofBytes (h.toBytes ++ rest) = h := by
  have hid : field 0 2 (h.toBytes ++ rest) = leBytes 2 h.exportid.toNat := by
    simp [field, toBytes]
  have hop : field 2 61 (h.toBytes ++ rest) = h.fsopaqueData := by
    simp [field, toBytes, hl]
  have hx : field 63 1 (h.toBytes ++ rest) = [h.xattrPos] := by
    simp [field, toBytes, List.drop_append, hl, List.drop_of_length_le]
  simp [FileHandleV3.ofBytes, hid, hop, hx, leValue_leBytes, leValue]

theorem FileHandleV4.field_toBytes (h : FileHandleV4) (hl : h.fsopaqueData.length = 93)
    (rest : List UInt8) :
    field 0 2 (h.toBytes ++ rest) = leBytes 2 h.pseudofsId.toNat ∧
    field 2 1 (h.toBytes ++ rest) = leBytes 1 h.dsFlag.toNat ∧
    field 3 1 (h.toBytes ++ rest) = leBytes 1 h.pseudofsFlag.toNat ∧
    field 4 4 (h.toBytes ++ rest) = leBytes 4 h.exportid.toNat ∧
    field 8 2 (h.toBytes ++ rest) = leBytes 2 h.refid.toNat ∧
    field 10 2 (h.toBytes ++ rest) = leBytes 2 h.pad.toNat ∧
    field 12 4 (h.toBytes ++ rest) = leBytes 4 h.srvbootTime.toNat ∧
    field 16 93 (h.toBytes ++ rest) = h.fsopaqueData ∧
    field 109 1 (h.toBytes ++ rest) = leBytes 1 h.xattrPos.toNat ∧
    field 110 2 (h.toBytes ++ rest) = leBytes 2 h.tail.toNat := by
  refine ⟨?_, ?_, ?_, ?_, ?_, ?_, ?_, ?_, ?_, ?_⟩ <;>
    simp [field, toBytes, List.drop_append, hl, List.drop_of_length_le]

theorem FileHandleV4.ofBytes_toBytes (h : FileHandleV4) (hl : h.fsopaqueData.length = 93)
    (rest : List UInt8) : FileHandleV4.ofBytes (h.toBytes ++ rest) = h := by
  obtain ⟨h1, h2, h3, h4, h5, h6, h7, h8, h9, h10⟩ := field_toBytes h hl rest
  simp [FileHandleV4.ofBytes, h1, h2, h3, h4, h5, h6, h7, h8, h9, h10, leValue_leBytes]

theorem srvbootTime_of_nfsFh4 (fh : NfsFh4) :
    (FileHandleV4.ofBytes fh.toBytes).srvbootTime
      = UInt32.ofNat (fh.nfsFh4Val.toNat / 2 ^ 32) := by
  have hread : field 12 4 fh.toBytes = leBytes 4 (fh.nfsFh4Val.toNat / 256 ^ 4) := by
    rw [NfsFh4.toBytes, leBytes_add 4 4]
    simp [field, List.drop_append, List.drop_of_length_le, List.take_of_length_le]
  have hlt : fh.nfsFh4Val.toNat / 2 ^ 32 < 2 ^ 32 := by
    have := fh.nfsFh4Val.toNat_lt
    omega
  show UInt32.ofNat (leValue (field 12 4 fh.toBytes)) = _
  rw [hread, leValue_leBytes, show (256 : ℕ) ^ 4 = 2 ^ 32 by norm_num, Nat.mod_eq_of_lt hlt]

theorem buildExportId_eq_some {n : ℤ} {id : UInt16} (h : buildExportId n = some id) :
    (id.toNat : ℤ) = n := by
  unfold buildExportId at h
  split at h
  · cases h
  have hid : id = UInt16.ofNat n.toNat := (Option.some.inj h).symm
  have hlt : n.toNat < 2 ^ 16 := by omega
  rw [hid, UInt16.toNat_ofNat_of_lt' hlt]
  omega

theorem toShort_eq_iff (id : UInt16) : toShort id.toNat = (id.toNat : ℤ) ↔ id.toNat < 2 ^ 15 := by
  have hlt := id.toNat_lt
  unfold toShort
  rw [Int.bmod_eq_emod]
  split <;> omega
/-! ### The round trip -/

section

variable {Ctx Handle : Type} {fsal : Fsal Ctx Handle}

/-- An NFSv3 handle that stands for `h` within the export of id `n`. -/
structure Recovers3 (fsal : Fsal Ctx Handle) (ctx : Ctx) (h : Handle) (n : ℤ) (fh : NfsFh3) :
    Prop where
  /-- the FSAL's handle comes back -/
  handle : nfs3FhandleToFSAL fsal ctx fh = some h
  /-- the export's id comes back -/
  exportId : nfs3FhandleToExportId fh = n
  /-- not taken for an extended attribute -/
  notXattr : nfs3IsFhXattr (some fh) = false

/-- An NFSv4 handle that stands for `h` within the export of id `n` and passes the checks. -/
structure Recovers4 (fsal : Fsal Ctx Handle) (ctx : Ctx) (h : Handle) (n : ℤ) (fh : NfsFh4) :
    Prop where
  /-- the FSAL's handle comes back -/
  handle : nfs4FhandleToFSAL fsal ctx fh = some h
  /-- the export's id comes back -/
  exportId : nfs4FhandleToExportId fh = n
  notEmpty : nfs4IsFhEmpty (some fh) = .ok
  notInvalid : nfs4IsFhInvalid (some fh) = .ok
  notXattr : nfs4IsFhXattr (some fh) = false
  notPseudo : nfs4IsFhPseudo (some fh) = false
  notReferral : nfs4IsFhReferral (some fh) = false

/-- With both options set, a handle counts as expired exactly when the boot time stored in it
is not that of the server. -/
def ExpiresByBootTime (p : Nfsv4Param) (serverBootTime : ℕ) (fh : NfsFh4) : Prop :=
  p.fhExpire = true → p.returnsErrFhExpired = true →
    (nfs4IsFhExpired p serverBootTime (some fh) = .fhExpired ↔
      (FileHandleV4.ofBytes fh.data).srvbootTime ≠ UInt32.ofNat serverBootTime)

/-- The boot time that a server puts into the handles it builds. -/
def storedBootTime (p : Nfsv4Param) (serverBootTime : ℕ) : UInt32 :=
  if p.fhExpire then UInt32.ofNat serverBootTime else 0

variable {n : ℤ} {pexport : Exportlist Ctx} {h : Handle} {d : List UInt8}

/-- **NFSv3**: what is built stands for the handle it was built from, unless the id does not fit
in a `short`. -/
theorem recovers3_iff (hf : fsal.DigestUndone) (hid : buildExportId n = some pexport.id)
    (hd : fsal.digestHandle .nfsv3 pexport.fsExportContext h = some d) {buf fh : NfsFh3}
    (hbuf : buf.dataVal ≠ 0) (hfh : nfs3FSALToFhandle fsal buf h pexport = some fh) :
    Recovers3 fsal pexport.fsExportContext h n fh ↔ n < 2 ^ 15 := by
  have hn := buildExportId_eq_some hid
  have hlen : d.length = 61 := hf.size _ _ _ _ hd
  rw [nfs3FSALToFhandle, hd] at hfh
  cases hfh
  have hcast := FileHandleV3.ofBytes_toBytes ⟨pexport.id, d, 0⟩ hlen (buf.data.drop sizeofV3)
  have hshort : toShort pexport.id.toNat = n ↔ n < 2 ^ 15 := by
    rw [← hn, toShort_eq_iff]
    omega
  constructor
  · intro hr
    have he := hr.exportId
    rw [nfs3FhandleToExportId, if_neg hbuf, hcast] at he
    exact hshort.1 he
  · intro hlt
    refine ⟨?_, ?_, ?_⟩
    · rw [nfs3FhandleToFSAL, hcast]
      simp only [hf.undo _ _ _ _ hd]
      rfl
    · rw [nfs3FhandleToExportId, if_neg hbuf, hcast]
      exact hshort.2 hlt
    · simp only [nfs3IsFhXattr, hcast]
      rfl

/-- **NFSv4**: what is built stands for the handle it was built from and passes the checks, at
whatever address it comes back, unless the id does not fit in a `short`. The boot time stored is
the builder's. -/
theorem recovers4_iff (hf : fsal.DigestUndone) (hid : buildExportId n = some pexport.id)
    (hd : fsal.digestHandle .nfsv4 pexport.fsExportContext h = some d) {p : Nfsv4Param} {boot : ℕ}
    {stack : FileHandleV4} {buf fh : NfsFh4} {addr : UInt64} (haddr : addr ≠ 0)
    (hfh : nfs4FSALToFhandle fsal p boot stack buf h pexport = some fh) :
    (Recovers4 fsal pexport.fsExportContext h n { fh with nfsFh4Val := addr } ↔ n < 2 ^ 15) ∧
      (FileHandleV4.ofBytes fh.data).srvbootTime = storedBootTime p boot := by
  have hn := buildExportId_eq_some hid
  have hlen : d.length = 93 := hf.size _ _ _ _ hd
  rw [nfs4FSALToFhandle, hd] at hfh
  cases hfh
  have hcast := fun hh : FileHandleV4 => fun hl : hh.fsopaqueData.length = 93 =>
    FileHandleV4.ofBytes_toBytes hh hl (buf.data.drop sizeofV4)
  have hshort : toShort (UInt32.ofNat pexport.id.toNat).toNat = n ↔ n < 2 ^ 15 := by
    have hlt := pexport.id.toNat_lt
    rw [UInt32.toNat_ofNat_of_lt' (by simp only [UInt32.size]; omega), ← hn, toShort_eq_iff]
    omega
  refine ⟨⟨fun hr => ?_, fun hlt => ?_⟩, ?_⟩
  · have he := hr.exportId
    simp only [nfs4FhandleToExportId, if_neg haddr] at he
    rw [hcast _ hlen] at he
    exact hshort.1 he
  · refine ⟨?_, ?_, rfl, ?_, ?_, ?_, ?_⟩
    · simp only [nfs4FhandleToFSAL]
      rw [hcast _ hlen]
      simp only [hf.undo _ _ _ _ hd]
      rfl
    · simp only [nfs4FhandleToExportId, if_neg haddr]
      rw [hcast _ hlen]
      exact hshort.2 hlt
    · simp only [nfs4IsFhInvalid, if_neg haddr]
      rfl
    · simp only [nfs4IsFhXattr]
      rw [hcast _ hlen]
      rfl
    · simp only [nfs4IsFhPseudo]
      rw [hcast _ hlen]
      rfl
    · simp only [nfs4IsFhReferral]
      rw [hcast _ hlen]
      rfl
  · simp only
    rw [hcast _ hlen]
    rfl

theorem expiresByBootTime_iff (p : Nfsv4Param) (now : ℕ) (fh : NfsFh4) :
    ExpiresByBootTime p now fh ↔
      (p.fhExpire = true → p.returnsErrFhExpired = true →
        (UInt32.ofNat (fh.nfsFh4Val.toNat / 2 ^ 32) = UInt32.ofNat now ↔
          (FileHandleV4.ofBytes fh.data).srvbootTime = UInt32.ofNat now)) := by
  unfold ExpiresByBootTime
  refine imp_congr_right fun hx => imp_congr_right fun he => ?_
  have hcheck : nfs4IsFhExpired p now (some fh) = .fhExpired ↔
      UInt32.ofNat (fh.nfsFh4Val.toNat / 2 ^ 32) ≠ UInt32.ofNat now := by
    simp only [nfs4IsFhExpired, srvbootTime_of_nfsFh4, hx, he, true_and, if_true]
    split <;> simp_all
  rw [hcheck]
  exact not_iff_not

/-- Handles round-trip: for an export of id `n`, a handle `h`, and a server that finds the NFSv4
handle at `addr`. -/
def RoundTrips (fsal : Fsal Ctx Handle) (n : ℤ) (pexport : Exportlist Ctx) (h : Handle)
    (buf3 : NfsFh3) (buf4 : NfsFh4) (stack : FileHandleV4) (p : Nfsv4Param) (boot : ℕ)
    (p' : Nfsv4Param) (boot' : ℕ) (addr : UInt64) : Prop :=
  ∃ fh3 fh4, nfs3FSALToFhandle fsal buf3 h pexport = some fh3 ∧
    nfs4FSALToFhandle fsal p boot stack buf4 h pexport = some fh4 ∧
    Recovers3 fsal pexport.fsExportContext h n fh3 ∧
    Recovers4 fsal pexport.fsExportContext h n { fh4 with nfsFh4Val := addr } ∧
    ExpiresByBootTime p' boot' { fh4 with nfsFh4Val := addr }

/-- **Round trip of file handles.** A handle built by a server with parameters `p` and boot time
`boot`, and seen again at the address `addr` by a server with `p'` and `boot'`, is recovered with
its export's id and expires by its boot time exactly when the id fits in a `short` and, where
handles expire, the high half of the address happens to tell the same as the boot time. -/
theorem roundTrips_iff (hf : fsal.DigestUndone) {n : ℤ} {pexport : Exportlist Ctx}
    (hid : buildExportId n = some pexport.id) {h : Handle} {d3 d4 : List UInt8}
    (hd3 : fsal.digestHandle .nfsv3 pexport.fsExportContext h = some d3)
    (hd4 : fsal.digestHandle .nfsv4 pexport.fsExportContext h = some d4)
    (buf3 : NfsFh3) (buf4 : NfsFh4) (stack : FileHandleV4) (p p' : Nfsv4Param) (boot boot' : ℕ)
    (addr : UInt64) (hbuf3 : buf3.dataVal ≠ 0) (haddr : addr ≠ 0) :
    RoundTrips fsal n pexport h buf3 buf4 stack p boot p' boot' addr ↔
      n < 2 ^ 15 ∧ (p'.fhExpire = true → p'.returnsErrFhExpired = true →
        (UInt32.ofNat (addr.toNat / 2 ^ 32) = UInt32.ofNat boot' ↔
          storedBootTime p boot = UInt32.ofNat boot')) := by
  obtain ⟨fh3, hfh3⟩ : ∃ fh3, nfs3FSALToFhandle fsal buf3 h pexport = some fh3 := by
    rw [nfs3FSALToFhandle, hd3]
    exact ⟨_, rfl⟩
  obtain ⟨fh4, hfh4⟩ : ∃ fh4, nfs4FSALToFhandle fsal p boot stack buf4 h pexport = some fh4 := by
    rw [nfs4FSALToFhandle, hd4]
    exact ⟨_, rfl⟩
  have h3 := recovers3_iff hf hid hd3 hbuf3 hfh3
  have h4 := recovers4_iff hf hid hd4 haddr hfh4
  have hx := expiresByBootTime_iff p' boot' { fh4 with nfsFh4Val := addr }
  simp only [h4.2] at hx
  constructor
  · rintro ⟨fh3', fh4', hb3, hb4, hr3, -, hexp⟩
    obtain rfl : fh3 = fh3' := Option.some.inj (hfh3.symm.trans hb3)
    obtain rfl : fh4 = fh4' := Option.some.inj (hfh4.symm.trans hb4)
    exact ⟨h3.1 hr3, hx.1 hexp⟩
  · rintro ⟨hlt, hexp⟩
    exact ⟨fh3, fh4, hfh3, hfh4, h3.2 hlt, h4.1.2 hlt, hx.2 hexp⟩

/-! ### A concrete FSAL -/

/-- An FSAL whose handles are inode numbers, digested into eight bytes and zeros. -/
def inodeFsal : Fsal Unit UInt64 where
  digestHandle t _ h := some (leBytes 8 h.toNat ++ List.replicate (t.size - 8) 0)
  expandHandle _ _ d := some (UInt64.ofNat (leValue (d.take 8)))

theorem inodeFsal_digestUndone : inodeFsal.DigestUndone := by
  constructor
  · intro t ctx h d hd
    cases hd
    cases t <;> simp [DigestType.size]
  · intro t ctx h d hd
    cases hd
    simp [inodeFsal, leValue_leBytes]

def emptyFh3 : NfsFh3 := ⟨0, 0x7f0000002000, []⟩

def emptyFh4 : NfsFh4 := ⟨0, 0, 0x7f0000001000, []⟩

def zeroStack : FileHandleV4 := ⟨0, 0, 0, 0, 0, 0, 0, List.replicate 93 0, 0, 0⟩

/-- Handles that do not expire, of the export 77. -/
theorem roundTrips_export77 :
    RoundTrips inodeFsal 77 ⟨77, ()⟩ 1234 emptyFh3 emptyFh4 zeroStack ⟨false, false⟩ 1300000000
      ⟨false, false⟩ 1300000500 0x7f0000001000 :=
  (roundTrips_iff inodeFsal_digestUndone (by decide) rfl rfl _ _ _ _ _ _ _ _ (by decide)
    (by decide)).2 ⟨by decide, fun h => by cases h⟩

/-- **The two slips.** An export of id 40000 is accepted and its id comes back negative; a handle
just built is reported expired to the server that built it, because the address of its bytes is
taken for its boot time. -/
theorem not_roundTrips_export40000_and_expired :
    ¬ RoundTrips inodeFsal 40000 ⟨40000, ()⟩ 1234 emptyFh3 emptyFh4 zeroStack ⟨false, false⟩
        1300000000 ⟨false, false⟩ 1300000000 0x7f0000001000 ∧
      ¬ RoundTrips inodeFsal 77 ⟨77, ()⟩ 1234 emptyFh3 emptyFh4 zeroStack ⟨true, true⟩ 1300000000
        ⟨true, true⟩ 1300000000 0x7f0000001000 := by
  constructor
  · rintro ⟨fh3, fh4, hfh3, -, hr, -, -⟩
    have hlt := (recovers3_iff inodeFsal_digestUndone (by decide) rfl (by decide) hfh3).1 hr
    exact absurd hlt (by decide)
  · rintro ⟨fh3, fh4, -, hfh4, -, -, hexp⟩
    have haddr : (0x7f0000001000 : UInt64) ≠ 0 := by decide
    have hid : buildExportId 77 = some 77 := by decide
    have hboot := (recovers4_iff inodeFsal_digestUndone hid rfl haddr hfh4).2
    have hiff := (expiresByBootTime_iff _ _ _).1 hexp rfl rfl
    simp only [hboot] at hiff
    exact absurd (hiff.2 rfl) (by decide)

end

end FileHandle

end CloudNfs
