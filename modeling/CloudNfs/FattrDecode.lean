import CloudNfs.AttrBitmap
import CloudNfs.Bytes
import Mathlib.Data.Finset.Insert

/-!
# Decoding attributes (`NFS_Protocols/nfs_proto_tools.c`)

A `fattr4` comes from a client: a bitmap, and the values of its attributes one after the other. The
server asks if the attributes are supported and if they may be written, and decodes the values.

* `inBounds_iff` — nothing is accessed outside exactly when there are not too many attributes, those
  that the table does not know come too late to be looked up, and the values are complete.

The build is for 64 bits and little endian. Names of owners are looked up by a parameter.
-/

namespace CloudNfs.Attributes

/-! ## The table -/

/-- `FATTR4_ATTR_READ`. -/
def attrRead : ℕ := 1

/-- `FATTR4_ATTR_WRITE`. -/
def attrWrite : ℕ := 16

/-- `FATTR4_ATTR_READ_WRITE`. -/
def attrReadWrite : ℕ := 17

/-- `fattr4_dent_t`, without the name and the rank. -/
structure FattrDent where
  supported : Bool
  sizeFattr4 : ℕ
  access : ℕ

/-- `fattr4tab`, up to `FATTR4_MOUNTED_ON_FILEID`. -/
def fattr4tab40 : List FattrDent :=
  [ ⟨true, 16, attrRead⟩, -- FATTR4_SUPPORTED_ATTRS
    ⟨true, 4, attrRead⟩, -- FATTR4_TYPE
    ⟨true, 4, attrRead⟩, -- FATTR4_FH_EXPIRE_TYPE
    ⟨true, 8, attrRead⟩, -- FATTR4_CHANGE
    ⟨true, 8, attrReadWrite⟩, -- FATTR4_SIZE
    ⟨true, 4, attrRead⟩, -- FATTR4_LINK_SUPPORT
    ⟨true, 4, attrRead⟩, -- FATTR4_SYMLINK_SUPPORT
    ⟨true, 4, attrRead⟩, -- FATTR4_NAMED_ATTR
    ⟨true, 16, attrRead⟩, -- FATTR4_FSID
    ⟨true, 4, attrRead⟩, -- FATTR4_UNIQUE_HANDLES
    ⟨true, 4, attrRead⟩, -- FATTR4_LEASE_TIME
    ⟨true, 4, attrRead⟩, -- FATTR4_RDATTR_ERROR
    ⟨true, 16, attrReadWrite⟩, -- FATTR4_ACL
    ⟨true, 4, attrRead⟩, -- FATTR4_ACLSUPPORT
    ⟨true, 4, attrReadWrite⟩, -- FATTR4_ARCHIVE
    ⟨true, 4, attrRead⟩, -- FATTR4_CANSETTIME
    ⟨true, 4, attrRead⟩, -- FATTR4_CASE_INSENSITIVE
    ⟨true, 4, attrRead⟩, -- FATTR4_CASE_PRESERVING
    ⟨true, 4, attrRead⟩, -- FATTR4_CHOWN_RESTRICTED
    ⟨true, 16, attrRead⟩, -- FATTR4_FILEHANDLE
    ⟨true, 8, attrRead⟩, -- FATTR4_FILEID
    ⟨true, 8, attrRead⟩, -- FATTR4_FILES_AVAIL
    ⟨true, 8, attrRead⟩, -- FATTR4_FILES_FREE
    ⟨true, 8, attrRead⟩, -- FATTR4_FILES_TOTAL
    ⟨true, 32, attrRead⟩, -- FATTR4_FS_LOCATIONS
    ⟨true, 4, attrReadWrite⟩, -- FATTR4_HIDDEN
    ⟨true, 4, attrRead⟩, -- FATTR4_HOMOGENEOUS
    ⟨true, 8, attrRead⟩, -- FATTR4_MAXFILESIZE
    ⟨true, 4, attrRead⟩, -- FATTR4_MAXLINK
    ⟨true, 4, attrRead⟩, -- FATTR4_MAXNAME
    ⟨true, 8, attrRead⟩, -- FATTR4_MAXREAD
    ⟨true, 8, attrRead⟩, -- FATTR4_MAXWRITE
    ⟨true, 16, attrReadWrite⟩, -- FATTR4_MIMETYPE
    ⟨true, 4, attrReadWrite⟩, -- FATTR4_MODE
    ⟨true, 4, attrRead⟩, -- FATTR4_NO_TRUNC
    ⟨true, 4, attrRead⟩, -- FATTR4_NUMLINKS
    ⟨true, 16, attrReadWrite⟩, -- FATTR4_OWNER
    ⟨true, 16, attrReadWrite⟩, -- FATTR4_OWNER_GROUP
    ⟨false, 8, attrRead⟩, -- FATTR4_QUOTA_AVAIL_HARD
    ⟨false, 8, attrRead⟩, -- FATTR4_QUOTA_AVAIL_SOFT
    ⟨false, 8, attrRead⟩, -- FATTR4_QUOTA_USED
    ⟨true, 8, attrRead⟩, -- FATTR4_RAWDEV
    ⟨true, 8, attrRead⟩, -- FATTR4_SPACE_AVAIL
    ⟨true, 8, attrRead⟩, -- FATTR4_SPACE_FREE
    ⟨true, 8, attrRead⟩, -- FATTR4_SPACE_TOTAL
    ⟨true, 8, attrRead⟩, -- FATTR4_SPACE_USED
    ⟨true, 4, attrReadWrite⟩, -- FATTR4_SYSTEM
    ⟨true, 12, attrRead⟩, -- FATTR4_TIME_ACCESS
    ⟨true, 24, attrWrite⟩, -- FATTR4_TIME_ACCESS_SET
    ⟨false, 12, attrReadWrite⟩, -- FATTR4_TIME_BACKUP
    ⟨false, 12, attrReadWrite⟩, -- FATTR4_TIME_CREATE
    ⟨true, 12, attrRead⟩, -- FATTR4_TIME_DELTA
    ⟨true, 12, attrRead⟩, -- FATTR4_TIME_METADATA
    ⟨true, 12, attrRead⟩, -- FATTR4_TIME_MODIFY
    ⟨true, 24, attrWrite⟩, -- FATTR4_TIME_MODIFY_SET
    ⟨true, 8, attrRead⟩ ] -- FATTR4_MOUNTED_ON_FILEID

/-- The rest of `fattr4tab`, with `_USE_NFS4_1`. The rank stands where the access should be. -/
def fattr4tab41 : List FattrDent :=
  [ ⟨false, 16, 56⟩, -- FATTR4_DIR_NOTIF_DELAY
    ⟨false, 16, 57⟩, -- FATTR4_DIRENT_NOTIF_DELAY
    ⟨false, 24, 58⟩, -- FATTR4_DACL
    ⟨false, 24, 59⟩, -- FATTR4_SACL
    ⟨false, 16, 60⟩, -- FATTR4_CHANGE_POLICY
    ⟨false, 64, 61⟩, -- FATTR4_FS_STATUS
    ⟨true, 16, 62⟩, -- FATTR4_FS_LAYOUT_TYPES
    ⟨false, 24, 63⟩, -- FATTR4_LAYOUT_HINT
    ⟨false, 16, 64⟩, -- FATTR4_LAYOUT_TYPES
    ⟨true, 4, 65⟩, -- FATTR4_LAYOUT_BLKSIZE
    ⟨false, 4, 66⟩, -- FATTR4_LAYOUT_ALIGNMENT
    ⟨false, 40, 67⟩, -- FATTR4_FS_LOCATIONS_INFO
    ⟨false, 16, 68⟩, -- FATTR4_MDSTHRESHOLD
    ⟨false, 24, 69⟩, -- FATTR4_RETENTION_GET
    ⟨false, 24, 70⟩, -- FATTR4_RETENTION_SET
    ⟨false, 24, 71⟩, -- FATTR4_RETENTEVT_GET
    ⟨false, 24, 72⟩, -- FATTR4_RETENTEVT_SET
    ⟨false, 8, 73⟩, -- FATTR4_RETENTION_HOLD
    ⟨false, 8, 74⟩, -- FATTR4_MODE_SET_MASKED
    ⟨true, 16, 75⟩, -- FATTR4_SUPPATTR_EXCLCREAT
    ⟨false, 4, 76⟩ ] -- FATTR4_FS_CHARSET_CAP

def fattr4tab (useNfs41 : Bool) : List FattrDent :=
  if useNfs41 then fattr4tab40 ++ fattr4tab41 else fattr4tab40

/-- `FATTR4_MOUNTED_ON_FILEID`, which is also the length of the lists of attributes. -/
def mountedOnFileid : ℕ := 55

/-- The last attribute: `FATTR4_FS_CHARSET_CAP` or `FATTR4_MOUNTED_ON_FILEID`. -/
def lastAttr (useNfs41 : Bool) : ℕ := if useNfs41 then 76 else mountedOnFileid

def maxNamLen : ℕ := 255

/-! ## The list of attributes -/

/-- `nfs4_bitmap4_to_list`, into a list of `FATTR4_MOUNTED_ON_FILEID` places. -/
def attrMaskList (b : Bitmap4) : Option (List ℕ) :=
  if (bitmap4ToList b).length ≤ mountedOnFileid then some (bitmap4ToList b) else none

/-- The loop of `nfs4_Fattr_Supported`: only the build without NFSv4.1 skips what the table does not
have. -/
def supportedLoop (useNfs41 : Bool) : List ℕ → Option Bool
  | [] => some true
  | a :: rest =>
    if useNfs41 = false ∧ mountedOnFileid < a then supportedLoop useNfs41 rest
    else
      match (fattr4tab useNfs41)[a]? with
      | none => none
      | some d => if d.supported then supportedLoop useNfs41 rest else some false

def nfs4FattrSupported (useNfs41 : Bool) (b : Bitmap4) : Option Bool :=
  match attrMaskList b with
  | none => none
  | some l => supportedLoop useNfs41 l

/-- The loop of `nfs4_Fattr_Check_Access`. -/
def checkAccessLoop (useNfs41 : Bool) (access : ℕ) : List ℕ → Option Bool
  | [] => some true
  | a :: rest =>
    if lastAttr useNfs41 < a then checkAccessLoop useNfs41 access rest
    else
      match (fattr4tab useNfs41)[a]? with
      | none => none
      | some d =>
        if d.access &&& access ≠ access then some false else checkAccessLoop useNfs41 access rest

def nfs4FattrCheckAccess (useNfs41 : Bool) (b : Bitmap4) (access : ℕ) : Option Bool :=
  if access ≠ attrRead ∧ access ≠ attrWrite then some false
  else
    match attrMaskList b with
    | none => none
    | some l => checkAccessLoop useNfs41 access l

/-! ## The values -/

/-- `fsal_nodetype_t`, and the zero for none of them. -/
inductive NodeType where
  | none
  | file
  | dir
  | blk
  | chr
  | lnk
  | sock
  | fifo
  | xattr
  | junction
  deriving DecidableEq

/-- `nfs_ftype4` to `fsal_nodetype_t`. -/
def nodeType : ℕ → NodeType
  | 1 => .file
  | 2 => .dir
  | 3 => .blk
  | 4 => .chr
  | 5 => .lnk
  | 6 => .sock
  | 7 => .fifo
  | _ => .none

/-- The flags of `asked_attributes` that are set here. -/
inductive AskedAttr where
  | type
  | fileid
  | fsid
  | size
  | mode
  | owner
  | group
  | chgtime
  | rawdev
  | spaceused
  | atime
  | ctime
  | mtime
  deriving DecidableEq

/-- `fsal_time_t`. -/
structure FsalTime where
  seconds : UInt32
  nseconds : UInt32
  deriving DecidableEq

/-- `fsal_attrib_list_t`, the members that are set here. -/
structure FsalAttribList where
  askedAttributes : Finset AskedAttr
  type : NodeType
  filesize : UInt64
  fsidMajor : UInt64
  fsidMinor : UInt64
  fileid : UInt64
  mode : UInt32
  numlinks : UInt64
  owner : UInt32
  group : UInt32
  rawdevMajor : UInt32
  rawdevMinor : UInt32
  atime : FsalTime
  ctime : FsalTime
  mtime : FsalTime
  chgtime : FsalTime
  spaceused : UInt64

/-- What the decoder meets outside. -/
structure DecodeEnv where
  useNfs41 : Bool
  /-- `utf82uid`, with what it finds in the variable -/
  utf82uid : List UInt8 → UInt32 → UInt32
  utf82gid : List UInt8 → UInt32 → UInt32
  /-- `time(NULL)` -/
  now : UInt32

/-- `memcpy` out of `attrlist4_val`. -/
def readVals (vals : List UInt8) (offset : UInt32) (n : ℕ) : Option (List UInt8) :=
  if n = 0 ∨ offset.toNat + n ≤ vals.length then some (field offset.toNat n vals) else none

def FsalAttribList.ask (st : FsalAttribList) (a : AskedAttr) : FsalAttribList :=
  { st with askedAttributes := insert a st.askedAttributes }

/-- An attribute of a fixed size: `n` bytes are read, and `size_fattr4` bytes are passed by. -/
def fixedAttr (env : DecodeEnv) (vals : List UInt8) (a : ℕ) (offset : UInt32) (n : ℕ)
    (set : List UInt8 → FsalAttribList) : Option (UInt32 × FsalAttribList) :=
  match readVals vals offset n, (fattr4tab env.useNfs41)[a]? with
  | some bytes, some d => some (offset + UInt32.ofNat d.sizeFattr4, set bytes)
  | _, _ => none

/-- A length is filled up to a multiple of four. -/
def padded (len : ℕ) : ℕ := (len + 3) / 4 * 4

/-- `FATTR4_OWNER` and `FATTR4_OWNER_GROUP`. The length is an `int`, so that `memcpy` takes one that
is negative for a very large one; a string ends with the first zero. -/
def ownerAttr (vals : List UInt8) (offset : UInt32) (set : List UInt8 → FsalAttribList) :
    Option (UInt32 × FsalAttribList) :=
  match readVals vals offset 4 with
  | none => none
  | some count =>
    let len := beValue count
    if maxNamLen ≤ len then none
    else
      match readVals vals (offset + 4) len with
      | none => none
      | some buffer =>
        some (offset + 4 + UInt32.ofNat (padded len), set (buffer.takeWhile fun c => c ≠ 0))

/-- A `nfstime4`: the second four of its last eight bytes are not used. -/
def timeOf (bytes : List UInt8) : FsalTime :=
  ⟨UInt32.ofNat (beValue (field 0 8 bytes)), UInt32.ofNat (beValue (field 8 4 bytes))⟩

/-- `FATTR4_TIME_ACCESS_SET` and `FATTR4_TIME_MODIFY_SET`: the time of the server, or a `nfstime4`
of sixteen bytes, of which twelve are passed by. -/
def timeSetAttr (env : DecodeEnv) (vals : List UInt8) (offset : UInt32)
    (set : FsalTime → FsalAttribList) : Option (UInt32 × FsalAttribList) :=
  match readVals vals offset 4 with
  | none => none
  | some setIt =>
    if beValue setIt = 0 then some (offset + 4, set ⟨env.now, 0⟩)
    else
      match readVals vals (offset + 4) 16 with
      | none => none
      | some bytes => some (offset + 4 + 12, set (timeOf bytes))

/-- The `switch` of `nfs4_Fattr_To_FSAL_attr`. The two halves of a `fattr4_rawdev` are of 32 bits
and are converted as if they were of 64, which leaves nothing of them. -/
def decodeAttr (env : DecodeEnv) (vals : List UInt8) (offset : UInt32) (st : FsalAttribList)
    (a : ℕ) : Option (UInt32 × FsalAttribList) :=
  match a with
  | 1 => fixedAttr env vals a offset 4 fun bytes =>
      { st with type := nodeType (beValue bytes) }.ask .type
  | 20 => fixedAttr env vals a offset 8 fun bytes =>
      { st with fileid := UInt64.ofNat (beValue bytes) }.ask .fileid
  | 8 => fixedAttr env vals a offset 16 fun bytes =>
      { st with
        fsidMajor := UInt64.ofNat (beValue (field 0 8 bytes))
        fsidMinor := UInt64.ofNat (beValue (field 8 8 bytes)) }.ask .fsid
  | 35 => fixedAttr env vals a offset 4 fun bytes =>
      { st with numlinks := UInt64.ofNat (beValue bytes) }.ask .fileid
  | 4 => fixedAttr env vals a offset 8 fun bytes =>
      { st with filesize := UInt64.ofNat (beValue bytes) }.ask .size
  | 33 => fixedAttr env vals a offset 4 fun bytes =>
      { st with mode := UInt32.ofNat (beValue bytes) }.ask .mode
  | 36 => ownerAttr vals offset fun name =>
      { st with owner := env.utf82uid name st.owner }.ask .owner
  | 37 => ownerAttr vals offset fun name =>
      { st with group := env.utf82gid name st.group }.ask .group
  | 3 => fixedAttr env vals a offset 8 fun bytes =>
      { st with chgtime := ⟨UInt32.ofNat (beValue bytes), 0⟩ }.ask .chgtime
  | 41 => fixedAttr env vals a offset 8 fun _ =>
      { st with rawdevMajor := 0, rawdevMinor := 0 }.ask .rawdev
  | 45 => fixedAttr env vals a offset 8 fun bytes =>
      { st with spaceused := UInt64.ofNat (beValue bytes % 2 ^ 32) }.ask .spaceused
  | 47 => fixedAttr env vals a offset 16 fun bytes =>
      { st with atime := timeOf bytes }.ask .atime
  | 52 => fixedAttr env vals a offset 16 fun bytes =>
      { st with ctime := timeOf bytes }.ask .ctime
  | 53 => fixedAttr env vals a offset 16 fun bytes =>
      { st with mtime := timeOf bytes }.ask .mtime
  | 48 => timeSetAttr env vals offset fun time => { st with atime := time }.ask .atime
  | 54 => timeSetAttr env vals offset fun time => { st with mtime := time }.ask .mtime
  | 19 =>
    match readVals vals offset 4 with
    | none => none
    | some count => some (offset + 4 + UInt32.ofNat (beValue count), st)
  | 11 => fixedAttr env vals a offset 4 fun _ => st
  | _ => fixedAttr env vals a offset 0 fun _ => st

/-- The loop of `nfs4_Fattr_To_FSAL_attr`. -/
def decodeLoop (env : DecodeEnv) (vals : List UInt8) :
    UInt32 → FsalAttribList → List ℕ → Option FsalAttribList
  | _, st, [] => some st
  | offset, st, a :: rest =>
    if lastAttr env.useNfs41 < a then decodeLoop env vals offset st rest
    else
      match decodeAttr env vals offset st a with
      | none => none
      | some (offset, st) => decodeLoop env vals offset st rest

/-- `nfs4_Fattr_To_FSAL_attr`: the result and the attributes. The pointer `attrlist4_val` is `NULL`
when no byte has been received. -/
def nfs4FattrToFsalAttr (env : DecodeEnv) (st : FsalAttribList) (b : Bitmap4) (vals : List UInt8) :
    Option (ℤ × FsalAttribList) :=
  if vals = [] then some (-1, st)
  else
    match attrMaskList b with
    | none => none
    | some l =>
      (decodeLoop env vals 0 { st with askedAttributes := ∅ } l).map fun st => (1, st)

/-! ## The operations -/

/-- The operations that receive attributes with their values. -/
inductive Operation where
  | setattr
  | create
  /-- `NFS4_OP_OPEN`, of a file that is created, `UNCHECKED4` or `GUARDED4` -/
  | openFile
  | verify
  | nverify

inductive FattrStatus where
  | ok
  | inval
  | attrnotsupp
  | badxdr

/-- A check, with what is answered if it fails. -/
def checked (check : Option Bool) (refusal : FattrStatus) (st : FsalAttribList)
    (rest : Option (FattrStatus × FsalAttribList)) : Option (FattrStatus × FsalAttribList) :=
  match check with
  | none => none
  | some false => some (refusal, st)
  | some true => rest

def convert (env : DecodeEnv) (st : FsalAttribList) (b : Bitmap4) (vals : List UInt8) :
    Option (FattrStatus × FsalAttribList) :=
  (nfs4FattrToFsalAttr env st b vals).map fun r =>
    (if r.1 = 0 then .attrnotsupp else if r.1 = -1 then .badxdr else .ok, r.2)

/-- What an operation does with the attributes that it has received. -/
def receive (op : Operation) (env : DecodeEnv) (st : FsalAttribList) (b : Bitmap4)
    (vals : List UInt8) : Option (FattrStatus × FsalAttribList) :=
  match op with
  | .setattr =>
    checked (nfs4FattrCheckAccess env.useNfs41 b attrWrite) .inval st <|
      checked (nfs4FattrSupported env.useNfs41 b) .attrnotsupp st <|
        convert env st b vals
  | .create | .openFile =>
    checked (nfs4FattrSupported env.useNfs41 b) .attrnotsupp st <|
      checked (nfs4FattrCheckAccess env.useNfs41 b attrWrite) .inval st <|
        if b.len = 0 then some (.ok, st) else convert env st b vals
  | .verify | .nverify =>
    checked (nfs4FattrCheckAccess env.useNfs41 b attrRead) .inval st <|
      checked (nfs4FattrSupported env.useNfs41 b) .attrnotsupp st <|
        some (.ok, st)

/-! ## The property -/

/-- **Nothing is accessed outside** of the table, of the list of attributes, of the buffer for names
and of the values. -/
def InBounds (useNfs41 : Bool) (op : Operation) (b : Bitmap4) (vals : List UInt8) : Prop :=
  ∀ env st, env.useNfs41 = useNfs41 → (receive op env st b vals).isSome = true

/-! ## When it holds -/

/-- So many bytes are there. -/
def Fits (vals : List UInt8) (offset : UInt32) (n : ℕ) : Prop :=
  n = 0 ∨ offset.toNat + n ≤ vals.length

/-- The number of bytes that are read of an attribute, if it does not depend on them. -/
def fixedRead : ℕ → Option ℕ
  | 1 | 11 | 33 | 35 => some 4
  | 3 | 4 | 20 | 41 | 45 => some 8
  | 8 | 47 | 52 | 53 => some 16
  | 19 | 36 | 37 | 48 | 54 => none
  | _ => some 0

def countAt (vals : List UInt8) (offset : UInt32) : ℕ := beValue (field offset.toNat 4 vals)

/-- The value of an attribute is complete; it goes up to an offset. -/
inductive Complete (useNfs41 : Bool) (vals : List UInt8) (offset : UInt32) : ℕ → UInt32 → Prop where
  /-- a value of a fixed size -/
  | fixed {a n : ℕ} {d : FattrDent} (read : fixedRead a = some n)
      (dent : (fattr4tab useNfs41)[a]? = some d) (fits : Fits vals offset n) :
      Complete useNfs41 vals offset a (offset + UInt32.ofNat d.sizeFattr4)
  /-- a file handle, of which only the length is read -/
  | filehandle (fits : Fits vals offset 4) :
      Complete useNfs41 vals offset 19 (offset + 4 + UInt32.ofNat (countAt vals offset))
  | owner {a : ℕ} (attr : a = 36 ∨ a = 37) (fits : Fits vals offset 4)
      (short : countAt vals offset < maxNamLen)
      (name : Fits vals (offset + 4) (countAt vals offset)) :
      Complete useNfs41 vals offset a (offset + 4 + UInt32.ofNat (padded (countAt vals offset)))
  | serverTime {a : ℕ} (attr : a = 48 ∨ a = 54) (fits : Fits vals offset 4)
      (server : countAt vals offset = 0) : Complete useNfs41 vals offset a (offset + 4)
  /-- the time of the client, with four bytes more than it has -/
  | clientTime {a : ℕ} (attr : a = 48 ∨ a = 54) (fits : Fits vals offset 4)
      (client : countAt vals offset ≠ 0) (time : Fits vals (offset + 4) 16) :
      Complete useNfs41 vals offset a (offset + 4 + 12)

/-- **The values are complete**, from an offset on. -/
inductive Laid (useNfs41 : Bool) (vals : List UInt8) : UInt32 → List ℕ → Prop where
  | nil {offset : UInt32} : Laid useNfs41 vals offset []
  /-- an attribute that is not known has no value -/
  | unknown {offset : UInt32} {a : ℕ} {rest : List ℕ} (attr : lastAttr useNfs41 < a)
      (laid : Laid useNfs41 vals offset rest) : Laid useNfs41 vals offset (a :: rest)
  /-- the next value begins where this one ends -/
  | cons {offset next : UInt32} {a : ℕ} {rest : List ℕ} (attr : a ≤ lastAttr useNfs41)
      (value : Complete useNfs41 vals offset a next) (laid : Laid useNfs41 vals next rest) :
      Laid useNfs41 vals offset (a :: rest)

/-- An attribute is not supported. -/
def Unsupported (useNfs41 : Bool) (a : ℕ) : Prop :=
  ∃ d, (fattr4tab useNfs41)[a]? = some d ∧ d.supported = false

/-- With NFSv4.1: before an attribute that is not in the table there is one that is not
supported. -/
def Known (useNfs41 : Bool) (l : List ℕ) : Prop :=
  useNfs41 = true → ∀ pre a post, l = pre ++ a :: post → lastAttr useNfs41 < a →
    ∃ x ∈ pre, Unsupported useNfs41 x

/-- All attributes may be accessed so. -/
def Allowed (useNfs41 : Bool) (access : ℕ) (l : List ℕ) : Prop :=
  ∀ a ∈ l, ∀ d, (fattr4tab useNfs41)[a]? = some d → d.access &&& access = access

/-- The access that an operation asks for. -/
def Operation.access : Operation → ℕ
  | .setattr | .create | .openFile => attrWrite
  | .verify | .nverify => attrRead

/-- The access is checked first. -/
def Operation.AccessFirst (op : Operation) : Prop := op ≠ .create ∧ op ≠ .openFile

/-- The values are decoded. -/
def Operation.Decodes (op : Operation) : Prop := op ≠ .verify ∧ op ≠ .nverify

/-- There are at most as many attributes as the list has places; those that are not in the table
come too late to be looked up; and there are no values, or they are complete, if they are
decoded. -/
structure Bounded (useNfs41 : Bool) (op : Operation) (b : Bitmap4) (vals : List UInt8) : Prop where
  few : (bitmap4ToList b).length ≤ mountedOnFileid
  known : (op.AccessFirst → Allowed useNfs41 op.access (bitmap4ToList b)) →
    Known useNfs41 (bitmap4ToList b)
  values : op.Decodes → Allowed useNfs41 op.access (bitmap4ToList b) →
    (∀ a ∈ bitmap4ToList b, ¬ Unsupported useNfs41 a) →
    vals = [] ∨ Laid useNfs41 vals 0 (bitmap4ToList b)

section

variable {useNfs41 : Bool} {b : Bitmap4} {vals : List UInt8} {l : List ℕ} {a access : ℕ}

theorem getElem?_fattr4tab : (fattr4tab useNfs41)[a]? = none ↔ lastAttr useNfs41 < a := by
  rw [List.getElem?_eq_none_iff]
  cases useNfs41
  · have hlength : (fattr4tab false).length = 56 := rfl
    rw [hlength]
    exact Iff.rfl
  · have hlength : (fattr4tab true).length = 77 := rfl
    rw [hlength]
    exact Iff.rfl

theorem exists_dent (h : a ≤ lastAttr useNfs41) : ∃ d, (fattr4tab useNfs41)[a]? = some d := by
  apply Option.ne_none_iff_exists'.mp
  rw [Ne, getElem?_fattr4tab]
  exact Nat.not_lt.mpr h

variable {d : FattrDent} {rest : List ℕ}

theorem supportedLoop_cons (hdent : (fattr4tab useNfs41)[a]? = some d) :
    supportedLoop useNfs41 (a :: rest) =
      if d.supported then supportedLoop useNfs41 rest else some false := by
  have hle : ¬ lastAttr useNfs41 < a := by
    rw [← getElem?_fattr4tab, hdent]
    nofun
  rw [supportedLoop, hdent, if_neg]
  rintro ⟨rfl, h⟩
  exact hle h

theorem supportedLoop_unknown (hdent : (fattr4tab useNfs41)[a]? = none) :
    supportedLoop useNfs41 (a :: rest) =
      if useNfs41 then none else supportedLoop useNfs41 rest := by
  have hlast := getElem?_fattr4tab.mp hdent
  cases useNfs41 with
  | false => exact if_pos ⟨rfl, hlast⟩
  | true => rw [supportedLoop, hdent, if_neg fun h => Bool.false_ne_true h.1.symm, if_pos rfl]

theorem known_cons (hdent : (fattr4tab useNfs41)[a]? = some d) :
    Known useNfs41 (a :: rest) ↔ (d.supported = true → Known useNfs41 rest) := by
  have hle : ¬ lastAttr useNfs41 < a := by
    rw [← getElem?_fattr4tab, hdent]
    nofun
  constructor
  · intro hall hsupported huse pre c post h hc
    obtain ⟨x, hx, d', hd', hun⟩ := hall huse (a :: pre) c post (congrArg (a :: ·) h) hc
    rcases List.mem_cons.mp hx with rfl | hx
    · rw [hdent] at hd'
      cases hd'
      rw [hsupported] at hun
      cases hun
    · exact ⟨x, hx, d', hd', hun⟩
  · intro hrest huse pre c post h hc
    cases pre with
    | nil =>
      obtain ⟨rfl, -⟩ := List.cons.inj h
      exact absurd hc hle
    | cons x pre =>
      obtain ⟨rfl, htail⟩ := List.cons.inj h
      cases hsupported : d.supported with
      | false => exact ⟨_, List.mem_cons_self, d, hdent, hsupported⟩
      | true =>
        obtain ⟨y, hy, hun⟩ := hrest hsupported huse pre c post htail hc
        exact ⟨y, List.mem_cons_of_mem _ hy, hun⟩

/-- **An attribute that the table does not have** is looked up with NFSv4.1, unless the loop has
ended before. -/
theorem supportedLoop_isSome : (supportedLoop useNfs41 l).isSome = true ↔ Known useNfs41 l := by
  induction l with
  | nil =>
    refine iff_of_true rfl fun _ pre a post h => ?_
    cases pre <;> cases h
  | cons a rest ih =>
    cases hdent : (fattr4tab useNfs41)[a]? with
    | some d =>
      rw [supportedLoop_cons hdent, known_cons hdent, ← ih]
      cases d.supported with
      | false => exact iff_of_true rfl nofun
      | true => exact ⟨fun h _ => h, fun h => h rfl⟩
    | none =>
      rw [supportedLoop_unknown hdent]
      cases useNfs41 with
      | false => exact iff_of_true (ih.mpr nofun) nofun
      | true =>
        refine iff_of_false Bool.false_ne_true fun h => ?_
        obtain ⟨x, hx, -⟩ := h rfl [] a rest rfl (getElem?_fattr4tab.mp hdent)
        cases hx

theorem supportedLoop_eq_true : supportedLoop useNfs41 l = some true ↔
    Known useNfs41 l ∧ ∀ a ∈ l, ¬ Unsupported useNfs41 a := by
  rw [← supportedLoop_isSome]
  induction l with
  | nil => exact iff_of_true rfl ⟨rfl, nofun⟩
  | cons a rest ih =>
    rw [List.forall_mem_cons]
    cases hdent : (fattr4tab useNfs41)[a]? with
    | some d =>
      have hun : ¬ Unsupported useNfs41 a ↔ d.supported = true := by
        simp [Unsupported, hdent]
      rw [supportedLoop_cons hdent, hun]
      cases d.supported with
      | false => exact iff_of_false nofun fun h => Bool.false_ne_true h.2.1
      | true => simpa using ih
    | none =>
      have hun : ¬ Unsupported useNfs41 a := by
        rintro ⟨d, hd, -⟩
        rw [hdent] at hd
        cases hd
      rw [supportedLoop_unknown hdent]
      cases useNfs41 with
      | false => simpa [hun] using ih
      | true => exact iff_of_false nofun fun h => Bool.false_ne_true h.1

theorem checkAccessLoop_isSome : (checkAccessLoop useNfs41 access l).isSome = true := by
  induction l with
  | nil => rfl
  | cons a rest ih =>
    rw [checkAccessLoop]
    split
    · exact ih
    rename_i ha
    obtain ⟨d, hd⟩ := exists_dent (Nat.not_lt.mp ha)
    rw [hd]
    dsimp only
    split
    · rfl
    · exact ih

theorem checkAccessLoop_eq_true :
    checkAccessLoop useNfs41 access l = some true ↔ Allowed useNfs41 access l := by
  induction l with
  | nil => exact iff_of_true rfl nofun
  | cons a rest ih =>
    rw [checkAccessLoop, Allowed, List.forall_mem_cons]
    split
    · rename_i ha
      rw [ih, getElem?_fattr4tab.mpr ha]
      exact ⟨fun h => ⟨nofun, h⟩, fun h => h.2⟩
    rename_i ha
    obtain ⟨d, hd⟩ := exists_dent (Nat.not_lt.mp ha)
    rw [hd]
    dsimp only
    split
    · rename_i hne
      exact iff_of_false nofun fun h => hne (h.1 d rfl)
    rename_i heq
    rw [ih]
    refine ⟨fun h => ⟨fun d' hd' => ?_, h⟩, fun h => h.2⟩
    cases hd'
    exact not_not.mp heq

/-! ## The decoder -/

section

variable {env : DecodeEnv} {vals : List UInt8} {offset next : UInt32} {st : FsalAttribList}
  {n a : ℕ} {l : List ℕ}

theorem readVals_isSome : (readVals vals offset n).isSome = true ↔ Fits vals offset n := by
  rw [readVals, Fits]
  split
  · rename_i h
    exact iff_of_true rfl h
  · rename_i h
    exact iff_of_false Bool.false_ne_true h

theorem readVals_of_fits (h : Fits vals offset n) :
    readVals vals offset n = some (field offset.toNat n vals) := if_pos h

theorem readVals_of_not_fits (h : ¬ Fits vals offset n) : readVals vals offset n = none := if_neg h

variable {set : List UInt8 → FsalAttribList}

theorem fixedAttr_iff :
    (∃ st', fixedAttr env vals a offset n set = some (next, st')) ↔
      Fits vals offset n ∧ ∃ d, (fattr4tab env.useNfs41)[a]? = some d ∧
        next = offset + UInt32.ofNat d.sizeFattr4 := by
  rw [fixedAttr]
  cases hdent : (fattr4tab env.useNfs41)[a]? with
  | none =>
    refine iff_of_false ?_ nofun
    rintro ⟨st', h⟩
    split at h <;> simp_all
  | some d =>
    rw [← readVals_isSome]
    cases readVals vals offset n with
    | none => exact iff_of_false nofun nofun
    | some bytes =>
      constructor
      · rintro ⟨st', h⟩
        cases h
        exact ⟨rfl, d, rfl, rfl⟩
      · rintro ⟨-, d', hd', rfl⟩
        cases hd'
        exact ⟨_, rfl⟩

theorem ownerAttr_iff :
    (∃ st', ownerAttr vals offset set = some (next, st')) ↔
      Fits vals offset 4 ∧ countAt vals offset < maxNamLen ∧
        Fits vals (offset + 4) (countAt vals offset) ∧
        next = offset + 4 + UInt32.ofNat (padded (countAt vals offset)) := by
  rw [ownerAttr]
  by_cases hcount : Fits vals offset 4
  · rw [readVals_of_fits hcount]
    dsimp only
    rw [← countAt]
    by_cases hlong : maxNamLen ≤ countAt vals offset
    · rw [if_pos hlong]
      exact iff_of_false nofun fun h => absurd h.2.1 (Nat.not_lt.mpr hlong)
    rw [if_neg hlong]
    by_cases hname : Fits vals (offset + 4) (countAt vals offset)
    · rw [readVals_of_fits hname]
      constructor
      · rintro ⟨st', h⟩
        cases h
        exact ⟨hcount, Nat.not_le.mp hlong, hname, rfl⟩
      · rintro ⟨-, -, -, rfl⟩
        exact ⟨_, rfl⟩
    · rw [readVals_of_not_fits hname]
      exact iff_of_false nofun fun h => hname h.2.2.1
  · rw [readVals_of_not_fits hcount]
    exact iff_of_false nofun fun h => hcount h.1

theorem timeSetAttr_iff {set : FsalTime → FsalAttribList} :
    (∃ st', timeSetAttr env vals offset set = some (next, st')) ↔
      Fits vals offset 4 ∧ (countAt vals offset = 0 ∧ next = offset + 4 ∨
        countAt vals offset ≠ 0 ∧ Fits vals (offset + 4) 16 ∧ next = offset + 4 + 12) := by
  rw [timeSetAttr]
  by_cases hcount : Fits vals offset 4
  · rw [readVals_of_fits hcount]
    dsimp only
    rw [← countAt]
    by_cases hserver : countAt vals offset = 0
    · rw [if_pos hserver]
      constructor
      · rintro ⟨st', h⟩
        cases h
        exact ⟨hcount, .inl ⟨hserver, rfl⟩⟩
      · rintro ⟨-, ⟨-, rfl⟩ | ⟨hclient, -⟩⟩
        · exact ⟨_, rfl⟩
        · exact absurd hserver hclient
    · rw [if_neg hserver]
      by_cases htime : Fits vals (offset + 4) 16
      · rw [readVals_of_fits htime]
        constructor
        · rintro ⟨st', h⟩
          cases h
          exact ⟨hcount, .inr ⟨hserver, htime, rfl⟩⟩
        · rintro ⟨-, ⟨hzero, -⟩ | ⟨-, -, rfl⟩⟩
          · exact absurd hzero hserver
          · exact ⟨_, rfl⟩
      · rw [readVals_of_not_fits htime]
        refine iff_of_false nofun ?_
        rintro ⟨-, ⟨hzero, -⟩ | ⟨-, h, -⟩⟩
        · exact hserver hzero
        · exact htime h
  · rw [readVals_of_not_fits hcount]
    exact iff_of_false nofun fun h => hcount h.1

theorem decodeAttr_fixed (h : fixedRead a = some n) :
    ∃ set, decodeAttr env vals offset st a = fixedAttr env vals a offset n set := by
  unfold fixedRead at h
  split at h <;> cases h
  case h_19.refl =>
    unfold decodeAttr
    split
    case h_19 => exact ⟨_, rfl⟩
    all_goals contradiction
  all_goals exact ⟨_, rfl⟩

theorem fixedRead_eq_none (h : fixedRead a = none) :
    a = 19 ∨ (a = 36 ∨ a = 37) ∨ a = 48 ∨ a = 54 := by
  unfold fixedRead at h
  split at h <;> cases h <;> decide

theorem complete_fixed {useNfs41 : Bool} (hread : fixedRead a = some n) :
    Complete useNfs41 vals offset a next ↔
      Fits vals offset n ∧ ∃ d, (fattr4tab useNfs41)[a]? = some d ∧
        next = offset + UInt32.ofNat d.sizeFattr4 := by
  constructor
  · intro h
    cases h with
    | fixed read dent fits =>
      cases hread.symm.trans read
      exact ⟨fits, _, dent, rfl⟩
    | filehandle => cases hread
    | owner attr | serverTime attr | clientTime attr => rcases attr with rfl | rfl <;> cases hread
  · rintro ⟨fits, d, dent, rfl⟩
    exact .fixed hread dent fits

theorem complete_filehandle {useNfs41 : Bool} :
    Complete useNfs41 vals offset 19 next ↔
      Fits vals offset 4 ∧ next = offset + 4 + UInt32.ofNat (countAt vals offset) := by
  constructor
  · intro h
    cases h with
    | fixed read => cases read
    | filehandle fits => exact ⟨fits, rfl⟩
    | owner attr | serverTime attr | clientTime attr => rcases attr with h | h <;> cases h
  · rintro ⟨fits, rfl⟩
    exact .filehandle fits

theorem complete_owner {useNfs41 : Bool} (hattr : a = 36 ∨ a = 37) :
    Complete useNfs41 vals offset a next ↔
      Fits vals offset 4 ∧ countAt vals offset < maxNamLen ∧
        Fits vals (offset + 4) (countAt vals offset) ∧
        next = offset + 4 + UInt32.ofNat (padded (countAt vals offset)) := by
  constructor
  · intro h
    cases h with
    | fixed read => rcases hattr with rfl | rfl <;> cases read
    | filehandle => rcases hattr with h | h <;> cases h
    | owner _ fits short name => exact ⟨fits, short, name, rfl⟩
    | serverTime attr => rcases hattr with rfl | rfl <;> rcases attr with h | h <;> cases h
    | clientTime attr => rcases hattr with rfl | rfl <;> rcases attr with h | h <;> cases h
  · rintro ⟨fits, short, name, rfl⟩
    exact .owner hattr fits short name

theorem complete_timeSet {useNfs41 : Bool} (hattr : a = 48 ∨ a = 54) :
    Complete useNfs41 vals offset a next ↔
      Fits vals offset 4 ∧ (countAt vals offset = 0 ∧ next = offset + 4 ∨
        countAt vals offset ≠ 0 ∧ Fits vals (offset + 4) 16 ∧ next = offset + 4 + 12) := by
  constructor
  · intro h
    cases h with
    | fixed read => rcases hattr with rfl | rfl <;> cases read
    | filehandle => rcases hattr with h | h <;> cases h
    | owner attr => rcases hattr with rfl | rfl <;> rcases attr with h | h <;> cases h
    | serverTime _ fits server => exact ⟨fits, .inl ⟨server, rfl⟩⟩
    | clientTime _ fits client time => exact ⟨fits, .inr ⟨client, time, rfl⟩⟩
  · rintro ⟨fits, ⟨server, rfl⟩ | ⟨client, time, rfl⟩⟩
    · exact .serverTime hattr fits server
    · exact .clientTime hattr fits client time

theorem decodeAttr_iff :
    (∃ st', decodeAttr env vals offset st a = some (next, st')) ↔
      Complete env.useNfs41 vals offset a next := by
  cases hread : fixedRead a with
  | some n =>
    obtain ⟨set, heq⟩ : ∃ set, decodeAttr env vals offset st a =
        fixedAttr env vals a offset n set := decodeAttr_fixed hread
    rw [heq, fixedAttr_iff, complete_fixed hread]
  | none =>
    obtain rfl | hattr | hattr := fixedRead_eq_none hread
    · rw [complete_filehandle, decodeAttr]
      by_cases hcount : Fits vals offset 4
      · rw [readVals_of_fits hcount]
        constructor
        · rintro ⟨st', h⟩
          cases h
          exact ⟨hcount, rfl⟩
        · rintro ⟨-, rfl⟩
          exact ⟨_, rfl⟩
      · rw [readVals_of_not_fits hcount]
        exact iff_of_false nofun fun h => hcount h.1
    · rw [complete_owner hattr]
      rcases hattr with rfl | rfl <;> rw [decodeAttr, ownerAttr_iff]
    · rw [complete_timeSet hattr]
      rcases hattr with rfl | rfl <;> rw [decodeAttr, timeSetAttr_iff]

theorem decodeLoop_isSome :
    (decodeLoop env vals offset st l).isSome = true ↔ Laid env.useNfs41 vals offset l := by
  induction l generalizing offset st with
  | nil => exact iff_of_true rfl .nil
  | cons a rest ih =>
    rw [decodeLoop]
    split
    · rename_i hlast
      rw [ih]
      constructor
      · exact .unknown hlast
      · intro h
        cases h with
        | unknown _ laid => exact laid
        | cons attr => exact absurd hlast (Nat.not_lt.mpr attr)
    rename_i hlast
    cases hdecode : decodeAttr env vals offset st a with
    | none =>
      refine iff_of_false Bool.false_ne_true fun h => ?_
      cases h with
      | unknown attr => exact hlast attr
      | cons _ value =>
        obtain ⟨st', h⟩ : ∃ st', decodeAttr env vals offset st a = some (_, st') :=
          decodeAttr_iff.mpr value
        rw [hdecode] at h
        cases h
    | some r =>
      obtain ⟨next, st'⟩ := r
      dsimp only
      rw [ih]
      constructor
      · exact fun h => .cons (Nat.not_lt.mp hlast) (decodeAttr_iff.mp ⟨st', hdecode⟩) h
      · intro h
        cases h with
        | unknown attr => exact absurd attr hlast
        | cons _ value laid =>
          obtain ⟨st'', h⟩ : ∃ st'', decodeAttr env vals offset st a = some (_, st'') :=
            decodeAttr_iff.mpr value
          obtain ⟨rfl, -⟩ := Prod.mk.inj (Option.some.inj (hdecode.symm.trans h))
          exact laid

theorem nfs4FattrToFsalAttr_isSome {b : Bitmap4}
    (hfew : (bitmap4ToList b).length ≤ mountedOnFileid) :
    (nfs4FattrToFsalAttr env st b vals).isSome = true ↔
      vals = [] ∨ Laid env.useNfs41 vals 0 (bitmap4ToList b) := by
  rw [nfs4FattrToFsalAttr]
  split
  · rename_i hnil
    exact iff_of_true rfl (.inl hnil)
  rename_i hne
  rw [attrMaskList, if_pos hfew]
  dsimp only
  rw [Option.isSome_map, decodeLoop_isSome]
  exact (or_iff_right hne).symm

end

end

/-! ## The operations -/

section

variable {useNfs41 : Bool} {op : Operation} {env : DecodeEnv} {st : FsalAttribList} {b : Bitmap4}
  {vals : List UInt8} {check : Option Bool} {refusal : FattrStatus}
  {rest : Option (FattrStatus × FsalAttribList)}

theorem checked_isSome : (checked check refusal st rest).isSome = true ↔
    check.isSome = true ∧ (check = some true → rest.isSome = true) := by
  obtain _ | _ | _ := check
  · exact iff_of_false Bool.false_ne_true fun h => Bool.false_ne_true h.1
  · exact iff_of_true rfl ⟨rfl, nofun⟩
  · exact ⟨fun h => ⟨rfl, fun _ => h⟩, fun h => h.2 rfl⟩

theorem convert_isSome :
    (convert env st b vals).isSome = (nfs4FattrToFsalAttr env st b vals).isSome := by
  rw [convert, Option.isSome_map]

theorem nfs4FattrSupported_of_few (hfew : (bitmap4ToList b).length ≤ mountedOnFileid) :
    nfs4FattrSupported useNfs41 b = supportedLoop useNfs41 (bitmap4ToList b) := by
  rw [nfs4FattrSupported, attrMaskList, if_pos hfew]

theorem nfs4FattrCheckAccess_of_few (hfew : (bitmap4ToList b).length ≤ mountedOnFileid) :
    nfs4FattrCheckAccess useNfs41 b op.access =
      checkAccessLoop useNfs41 op.access (bitmap4ToList b) := by
  have haccess : ¬ (op.access ≠ attrRead ∧ op.access ≠ attrWrite) := by
    cases op <;> decide
  rw [nfs4FattrCheckAccess, attrMaskList, if_pos hfew, if_neg haccess]

theorem accessFirst_isSome (hfew : (bitmap4ToList b).length ≤ mountedOnFileid)
    (hfirst : op.AccessFirst) (hrest : rest.isSome = true ↔
      (op.Decodes → vals = [] ∨ Laid useNfs41 vals 0 (bitmap4ToList b))) :
    (checked (nfs4FattrCheckAccess useNfs41 b op.access) .inval st
      (checked (nfs4FattrSupported useNfs41 b) .attrnotsupp st rest)).isSome = true ↔
      Bounded useNfs41 op b vals := by
  rw [checked_isSome, checked_isSome, nfs4FattrSupported_of_few hfew,
    nfs4FattrCheckAccess_of_few hfew, supportedLoop_isSome, supportedLoop_eq_true,
    checkAccessLoop_eq_true, hrest]
  constructor
  · intro h
    refine ⟨hfew, fun hp => (h.2 (hp hfirst)).1, fun hdecodes hallowed hall => ?_⟩
    obtain ⟨hknown, hvalues⟩ := h.2 hallowed
    exact hvalues ⟨hknown, hall⟩ hdecodes
  · intro h
    refine ⟨checkAccessLoop_isSome, fun hallowed => ?_⟩
    exact ⟨h.known fun _ => hallowed, fun hboth hdecodes => h.values hdecodes hallowed hboth.2⟩

theorem supportedFirst_isSome (hfew : (bitmap4ToList b).length ≤ mountedOnFileid)
    (hsecond : ¬ op.AccessFirst) (hrest : rest.isSome = true ↔
      (op.Decodes → vals = [] ∨ Laid useNfs41 vals 0 (bitmap4ToList b))) :
    (checked (nfs4FattrSupported useNfs41 b) .attrnotsupp st
      (checked (nfs4FattrCheckAccess useNfs41 b op.access) .inval st rest)).isSome = true ↔
      Bounded useNfs41 op b vals := by
  rw [checked_isSome, checked_isSome, nfs4FattrSupported_of_few hfew,
    nfs4FattrCheckAccess_of_few hfew, supportedLoop_isSome, supportedLoop_eq_true,
    checkAccessLoop_eq_true, hrest]
  constructor
  · intro h
    exact ⟨hfew, fun _ => h.1, fun hdecodes hallowed hall => (h.2 ⟨h.1, hall⟩).2 hallowed hdecodes⟩
  · intro h
    refine ⟨h.known fun hfirst => absurd hfirst hsecond, fun hboth => ⟨checkAccessLoop_isSome, ?_⟩⟩
    exact fun hallowed hdecodes => h.values hdecodes hallowed hboth.2

theorem receive_isSome (hfew : (bitmap4ToList b).length ≤ mountedOnFileid) :
    (receive op env st b vals).isSome = true ↔ Bounded env.useNfs41 op b vals := by
  have hconvert : (convert env st b vals).isSome = true ↔
      vals = [] ∨ Laid env.useNfs41 vals 0 (bitmap4ToList b) := by
    rw [convert_isSome, nfs4FattrToFsalAttr_isSome hfew]
  -- without a word in the bitmap there is no attribute, and nothing is decoded
  have hempty : (if b.len = 0 then some (FattrStatus.ok, st)
        else convert env st b vals).isSome = true ↔
      vals = [] ∨ Laid env.useNfs41 vals 0 (bitmap4ToList b) := by
    split
    · rename_i hlen
      have hnil : bitmap4ToList b = [] := by
        rw [bitmap4ToList, hlen]
        rfl
      rw [hnil]
      exact iff_of_true rfl (.inr .nil)
    · exact hconvert
  cases op with
  | setattr =>
    have hdecodes : Operation.setattr.Decodes := ⟨by rintro ⟨⟩, by rintro ⟨⟩⟩
    exact accessFirst_isSome hfew ⟨by rintro ⟨⟩, by rintro ⟨⟩⟩
      (hconvert.trans (imp_iff_right hdecodes).symm)
  | create =>
    have hdecodes : Operation.create.Decodes := ⟨by rintro ⟨⟩, by rintro ⟨⟩⟩
    exact supportedFirst_isSome hfew (fun hfirst => hfirst.1 rfl)
      (hempty.trans (imp_iff_right hdecodes).symm)
  | openFile =>
    have hdecodes : Operation.openFile.Decodes := ⟨by rintro ⟨⟩, by rintro ⟨⟩⟩
    exact supportedFirst_isSome hfew (fun hfirst => hfirst.2 rfl)
      (hempty.trans (imp_iff_right hdecodes).symm)
  | verify =>
    exact accessFirst_isSome hfew ⟨by rintro ⟨⟩, by rintro ⟨⟩⟩
      (iff_of_true rfl fun hdecodes => absurd rfl hdecodes.1)
  | nverify =>
    exact accessFirst_isSome hfew ⟨by rintro ⟨⟩, by rintro ⟨⟩⟩
      (iff_of_true rfl fun hdecodes => absurd rfl hdecodes.2)

theorem receive_eq_none (hmany : ¬ (bitmap4ToList b).length ≤ mountedOnFileid) :
    receive op env st b vals = none := by
  have hlist : attrMaskList b = none := if_neg hmany
  have hsupported : nfs4FattrSupported env.useNfs41 b = none := by
    rw [nfs4FattrSupported, hlist]
  have hread : nfs4FattrCheckAccess env.useNfs41 b attrRead = none := by
    rw [nfs4FattrCheckAccess, hlist]
    rfl
  have hwrite : nfs4FattrCheckAccess env.useNfs41 b attrWrite = none := by
    rw [nfs4FattrCheckAccess, hlist]
    rfl
  cases op <;> simp only [receive, hsupported, hread, hwrite, checked]

end

def plainEnv (useNfs41 : Bool) : DecodeEnv := ⟨useNfs41, fun _ uid => uid, fun _ gid => gid, 0⟩

def noAttribs : FsalAttribList where
  askedAttributes := ∅
  type := .none
  filesize := 0
  fsidMajor := 0
  fsidMinor := 0
  fileid := 0
  mode := 0
  numlinks := 0
  owner := 0
  group := 0
  rawdevMajor := 0
  rawdevMinor := 0
  atime := ⟨0, 0⟩
  ctime := ⟨0, 0⟩
  mtime := ⟨0, 0⟩
  chgtime := ⟨0, 0⟩
  spaceused := 0

/-- **The accesses of an operation stay inside** exactly when the attributes are not too many, those
that are not known come too late, and the values are complete as far as they are decoded. -/
theorem inBounds_iff (useNfs41 : Bool) (op : Operation) (b : Bitmap4) (vals : List UInt8) :
    InBounds useNfs41 op b vals ↔ Bounded useNfs41 op b vals := by
  by_cases hfew : (bitmap4ToList b).length ≤ mountedOnFileid
  · constructor
    · intro h
      exact (receive_isSome hfew).mp (h (plainEnv useNfs41) noAttribs rfl)
    · rintro h env st rfl
      exact (receive_isSome hfew).mpr h
  · refine iff_of_false (fun h => ?_) fun h => hfew h.few
    have hsome := h (plainEnv useNfs41) noAttribs rfl
    rw [receive_eq_none hfew] at hsome
    cases hsome

/-- The attribute `FATTR4_TIME_MODIFY_SET` alone. -/
def timeModifySetMask : Bitmap4 := ⟨2, fun word => if word = 1 then 1#32 <<< 22 else 0⟩

/-- `SET_TO_CLIENT_TIME4`, with a second. -/
def clientTimeVals : List UInt8 := [0, 0, 0, 1, 0, 0, 0, 0, 0, 0, 0, 1, 0, 0, 0, 0]

/-- **A time that a client sets** is read up to four bytes behind the values. -/
theorem clientTime_not_inBounds : ¬ InBounds false .setattr timeModifySetMask clientTimeVals := by
  intro h
  have hsome := h (plainEnv false) noAttribs rfl
  have hnone : receive .setattr (plainEnv false) noAttribs timeModifySetMask clientTimeVals =
      none := by
    decide
  rw [hnone] at hsome
  cases hsome

end CloudNfs.Attributes
