import CloudNfs.FattrDecode

/-!
# Encoding attributes (`NFS_Protocols/nfs_proto_tools.c`)

The server makes a `fattr4` of the attributes of an object: the values of the attributes that are
asked for, one after the other, and the bitmap of those that it has.

The build is for 64 bits and little endian. The users' names, the state of the file system and the
locations of a referral are parameters, and so is what is left on the stack.
-/

namespace CloudNfs.Attributes

/-! ## What is encoded -/

/-- `fattr4`. -/
structure Fattr4 where
  attrmask : Bitmap4
  /-- the bytes of `attr_vals` -/
  attrVals : List UInt8

/-- `fsal_staticfsinfo_t` and `fsal_dynamicfsinfo_t`, the members that are used here. -/
structure FsInfo where
  maxlink : UInt64
  maxnamelen : UInt64
  noTrunc : UInt32
  chownRestricted : UInt32
  caseInsensitive : UInt32
  casePreserving : UInt32
  maxread : UInt64
  maxwrite : UInt64
  totalBytes : UInt64
  freeBytes : UInt64
  availBytes : UInt64
  totalFiles : UInt64
  freeFiles : UInt64
  availFiles : UInt64

/-- What the encoder meets outside. -/
structure EncodeEnv where
  useNfs41 : Bool
  useProxy : Bool
  fhExpire : Bool
  leaseLifetime : UInt32
  /-- `pexport->filesystem_id.major` -/
  fsidMajor : UInt64
  /-- `pexport->filesystem_id.minor` -/
  fsidMinor : UInt64
  referral : Bool
  objFH : List UInt8
  /-- their number is a `u_int` -/
  objFH_lt : objFH.length < 2 ^ 32
  /-- `cache_inode_statfs`, when it is called for an attribute -/
  statfs : ℕ → Option FsInfo
  /-- `nfs4_referral_str_To_Fattr_fs_location`, for a directory -/
  fsLocations : Option (List UInt8)
  uid2utf8 : UInt32 → Option (List UInt8)
  gid2utf8 : UInt32 → Option (List UInt8)
  /-- the pointer of a `fattr4_acl`, with the padding before it -/
  aclStack : List UInt8
  length_aclStack : aclStack.length = 12
  /-- the pointer of a `fattr4_mimetype`, with the padding before it -/
  mimetypeStack : List UInt8
  length_mimetypeStack : mimetypeStack.length = 12

/-! ## The code -/

def attrvalsBufflen : ℕ := 1024

/-- `fsal_nodetype_t` to `nfs_ftype4`. -/
def ftype4 : NodeType → ℕ
  | .file | .xattr => 1
  | .dir => 2
  | .blk => 3
  | .chr => 4
  | .lnk => 5
  | .sock => 6
  | .fifo => 7
  | .none | .junction => 0

def modeBits : List UInt32 :=
  [0o4000, 0o2000, 0o1000, 0o400, 0o200, 0o100, 0o40, 0o20, 0o10, 0o4, 0o2, 0o1]

def fsal2unixMode (mode : UInt32) : UInt32 :=
  modeBits.foldl (fun out bit => if mode &&& bit ≠ 0 then out ||| bit else out) 0

/-- The attributes that are marked as supported. -/
def supportedAttrs (useNfs41 : Bool) : List ℕ :=
  (List.range (lastAttr useNfs41 + 1)).filter fun k =>
    ((fattr4tab useNfs41)[k]?.map FattrDent.supported).getD false

/-- The value of `FATTR4_SUPPORTED_ATTRS`: the number of words, and the words. -/
def supportedAttrsValue (useNfs41 : Bool) : List UInt8 :=
  let b := listToBitmap4 (fun _ => 0) (supportedAttrs useNfs41)
  beBytes 4 b.len.toNat ++
    (List.range b.len.toNat).flatMap fun k => beBytes 4 (b.val k).toNat

def zeros (len : ℕ) : List UInt8 := List.replicate (padded len - len) 0

/-- The name of an owner: its length is that with the zeros. -/
def ownerValue (name : List UInt8) : List UInt8 :=
  beBytes 4 (padded name.length) ++ name ++ zeros name.length

/-- A `nfstime4`, without the padding. -/
def timeValue (time : FsalTime) : List UInt8 :=
  beBytes 8 time.seconds.toNat ++ beBytes 4 time.nseconds.toNat

/-- `FATTR4_TIME_ACCESS_SET` and `FATTR4_TIME_MODIFY_SET`, with `SET_TO_CLIENT_TIME4`. -/
def timeSetValue (time : FsalTime) : List UInt8 := beBytes 4 1 ++ timeValue time

/-- The attributes for which the state of the file system is needed. -/
def needsStatfs (a : ℕ) : Bool :=
  a ∈ [10, 16, 17, 18, 21, 22, 23, 28, 29, 30, 31, 34, 42, 43, 44]

/-- `cache_inode_statfs` is called, unless it has been called before with success. -/
def callStatfs (env : EncodeEnv) (info : Option FsInfo) (a : ℕ) : Option FsInfo :=
  if needsStatfs a = true ∧ info = none then env.statfs a else info

/-- The `switch` of `nfs4_FSALattr_To_Fattr`: the bytes that are written, if it is a success. -/
def encodeAttr (env : EncodeEnv) (pattr : FsalAttribList) (info : Option FsInfo) (a : ℕ) :
    Option (List UInt8) :=
  match a with
  | 0 => some (supportedAttrsValue env.useNfs41)
  | 1 => some (beBytes 4 (ftype4 pattr.type))
  | 2 => some (beBytes 4 (if env.fhExpire then 2 else 0))
  | 3 => some (beBytes 8 pattr.chgtime.seconds.toNat)
  | 4 => some (beBytes 8 pattr.filesize.toNat)
  | 5 | 6 | 9 | 15 | 26 => some (beBytes 4 1)
  | 7 | 11 | 13 | 14 | 25 | 46 => some (beBytes 4 0)
  | 8 =>
    if env.referral then
      some (beBytes 8 (~~~env.fsidMajor).toNat ++ beBytes 8 (~~~env.fsidMinor).toNat)
    else some (beBytes 8 env.fsidMajor.toNat ++ beBytes 8 env.fsidMinor.toNat)
  | 10 => info.map fun _ => beBytes 4 env.leaseLifetime.toNat
  | 12 => some (beBytes 4 0 ++ env.aclStack)
  | 16 => info.map fun i => beBytes 4 i.caseInsensitive.toNat
  | 17 => info.map fun i => beBytes 4 i.casePreserving.toNat
  | 18 => info.map fun i => beBytes 4 i.chownRestricted.toNat
  | 19 => some (beBytes 4 env.objFH.length ++ env.objFH ++ zeros env.objFH.length)
  | 20 | 55 => some (beBytes 8 pattr.fileid.toNat)
  | 21 => info.map fun i => beBytes 8 i.availFiles.toNat
  | 22 => info.map fun i => beBytes 8 i.freeFiles.toNat
  | 23 => info.map fun i => beBytes 8 i.totalFiles.toNat
  | 24 => env.fsLocations
  | 27 => some (beBytes 8 (2 ^ 64 - 1))
  | 28 => info.map fun i => beBytes 4 i.maxlink.toNat
  | 29 => info.map fun i => beBytes 4 i.maxnamelen.toNat
  | 30 => info.map fun i => beBytes 8 i.maxread.toNat
  | 31 => info.map fun i => beBytes 8 i.maxwrite.toNat
  | 32 => some (beBytes 4 0 ++ env.mimetypeStack)
  | 33 => some (beBytes 4 (fsal2unixMode pattr.mode).toNat)
  | 34 => info.map fun i => beBytes 4 i.noTrunc.toNat
  | 35 => some (beBytes 4 pattr.numlinks.toNat)
  | 36 => (env.uid2utf8 pattr.owner).map ownerValue
  | 37 => (env.gid2utf8 pattr.group).map ownerValue
  | 38 => some (beBytes 8 17179869184)
  | 39 => some (beBytes 8 4294967296)
  | 40 => some (beBytes 8 pattr.filesize.toNat)
  | 41 => some (beBytes 4 pattr.rawdevMajor.toNat ++ beBytes 4 pattr.rawdevMinor.toNat)
  | 42 => info.map fun i => beBytes 8 i.availBytes.toNat
  | 43 => info.map fun i => beBytes 8 i.freeBytes.toNat
  | 44 => info.map fun i => beBytes 8 i.totalBytes.toNat
  | 45 => some (beBytes 8 pattr.spaceused.toNat)
  | 47 => some (timeValue pattr.atime)
  -- the time that is set for the access is the one of the modification
  | 48 => if env.useProxy then none else some (timeSetValue pattr.mtime)
  | 49 | 50 => some (timeValue ⟨0, 0⟩)
  | 51 => some (timeValue ⟨1, 0⟩)
  | 52 => some (timeValue pattr.ctime)
  | 53 => some (timeValue pattr.mtime)
  | 54 => if env.useProxy then some (timeSetValue pattr.mtime) else none
  | 62 => if env.useNfs41 then some (beBytes 4 1 ++ beBytes 4 1) else none
  | _ => none

/-- The loop of `nfs4_FSALattr_To_Fattr`: the attributes that are a success, with their values. -/
def encodeLoop (env : EncodeEnv) (pattr : FsalAttribList) :
    Option FsInfo → List ℕ → List (ℕ × List UInt8)
  | _, [] => []
  | info, a :: rest =>
    if lastAttr env.useNfs41 < a then encodeLoop env pattr info rest
    else
      let info := callStatfs env info a
      match encodeAttr env pattr info a with
      | none => encodeLoop env pattr info rest
      | some v => (a, v) :: encodeLoop env pattr info rest

/-- `nfs4_FSALattr_To_Fattr`. The lists of attributes have as many places as the last attribute
says. -/
def nfs4FsalAttrToFattr (env : EncodeEnv) (pattr : FsalAttribList) (b : Bitmap4) : Option Fattr4 :=
  if lastAttr env.useNfs41 < (bitmap4ToList b).length then none
  else
    let r := encodeLoop env pattr none (bitmap4ToList b)
    let vals := r.flatMap Prod.snd
    if attrvalsBufflen < vals.length then none
    else some ⟨listToBitmap4 (fun _ => 0) (r.map Prod.fst), vals⟩

/-! ## What the values look like -/

/-- The size of a value that does not depend on what it is. -/
def fixedSize (a : ℕ) : Option ℕ :=
  if a ∈ [0, 19, 24, 36, 37, 48, 54] then none else (fattr4tab40[a]?).map FattrDent.sizeFattr4

/-- **The value of an attribute**, as the encoder lays it out. -/
inductive Value : ℕ → List UInt8 → Prop where
  | fixed {a : ℕ} {v : List UInt8} (size : fixedSize a = some v.length) : Value a v
  /-- `FATTR4_SUPPORTED_ATTRS` -/
  | supported {n : ℕ} {words : List UInt8} (few : n < 2 ^ 32) (size : words.length = 4 * n) :
    Value 0 (beBytes 4 n ++ words)
  | filehandle {fh : List UInt8} (few : fh.length < 2 ^ 32) :
    Value 19 (beBytes 4 fh.length ++ fh ++ zeros fh.length)
  | fsLocations {v : List UInt8} : Value 24 v
  /-- `FATTR4_OWNER` and `FATTR4_OWNER_GROUP` -/
  | owner {a : ℕ} {name : List UInt8} (attr : a = 36 ∨ a = 37)
    (few : padded name.length < 2 ^ 32) : Value a (ownerValue name)
  /-- `FATTR4_TIME_ACCESS_SET` and `FATTR4_TIME_MODIFY_SET` -/
  | timeSet {a : ℕ} {v : List UInt8} (attr : a = 48 ∨ a = 54) (size : v.length = 16) : Value a v
  | layoutTypes {v : List UInt8} (size : v.length = 8) : Value 62 v

/-- **A `fattr4` as the encoder lays it out**: one or two words of bits, and the values of the
attributes in their order. -/
structure Encoded (f : Fattr4) (vs : List (List UInt8)) : Prop where
  words : f.attrmask.len.toNat ≤ 2
  values : List.Forall₂ Value (bitmap4ToList f.attrmask) vs
  attrVals : f.attrVals = vs.flatten

section

variable {env : EncodeEnv} {pattr : FsalAttribList} {info : Option FsInfo} {a n : ℕ}
  {v w : List UInt8} {l : List ℕ} {b : Bitmap4} {f : Fattr4}

theorem value_fixed (h : some w = some v) (hsize : fixedSize a = some w.length) : Value a v := by
  cases h
  exact .fixed hsize

theorem value_info {g : FsInfo → List UInt8} (h : info.map g = some v)
    (hsize : ∀ i, fixedSize a = some (g i).length) : Value a v := by
  obtain ⟨i, -, rfl⟩ := Option.map_eq_some_iff.mp h
  exact .fixed (hsize i)

theorem length_zeros (len : ℕ) : len + (zeros len).length = padded len := by
  have hle : len ≤ padded len := by
    rw [padded]
    omega
  rw [zeros, List.length_replicate]
  omega

theorem length_ownerValue (name : List UInt8) :
    (ownerValue name).length = 4 + padded name.length := by
  have h := length_zeros name.length
  rw [ownerValue, List.length_append, List.length_append, length_beBytes]
  omega

theorem value_owner {name : Option (List UInt8)} (ha : a = 36 ∨ a = 37)
    (h : name.map ownerValue = some v) (hv : v.length < 2 ^ 32) : Value a v := by
  obtain ⟨n, -, rfl⟩ := Option.map_eq_some_iff.mp h
  apply Value.owner ha
  rw [length_ownerValue] at hv
  omega

theorem length_timeSetValue (time : FsalTime) : (timeSetValue time).length = 16 := by
  simp [timeSetValue, timeValue]

theorem value_supportedAttrs (useNfs41 : Bool) : Value 0 (supportedAttrsValue useNfs41) := by
  rw [supportedAttrsValue]
  generalize listToBitmap4 (fun _ => 0) (supportedAttrs useNfs41) = b
  apply Value.supported b.len.toNat_lt
  rw [List.length_flatMap]
  simp [Nat.mul_comm]

theorem value_of_encode (h : encodeAttr env pattr info a = some v) (hv : v.length < 2 ^ 32) :
    Value a v := by
  unfold encodeAttr at h
  split at h
  case h_1 =>
    cases h
    exact value_supportedAttrs env.useNfs41
  -- a number, or several
  all_goals try exact value_fixed h (by
    simp only [List.length_append, length_beBytes, timeValue, env.length_aclStack,
      env.length_mimetypeStack]
    rfl)
  -- a number that the file system tells
  all_goals try exact value_info h fun i => (by
    rw [length_beBytes]
    rfl)
  case h_17 =>
    split at h
    all_goals exact value_fixed h (by
      rw [List.length_append, length_beBytes]
      rfl)
  case h_23 =>
    cases h
    exact .filehandle env.objFH_lt
  case h_29 => exact .fsLocations
  case h_39 => exact value_owner (.inl rfl) h hv
  case h_40 => exact value_owner (.inr rfl) h hv
  case h_50 =>
    split at h
    · cases h
    · cases h
      exact .timeSet (.inl rfl) (length_timeSetValue _)
  case h_56 =>
    split at h
    · cases h
      exact .timeSet (.inr rfl) (length_timeSetValue _)
    · cases h
  case h_57 =>
    split at h
    · cases h
      exact .layoutTypes rfl
    · cases h
  case h_58 => cases h

theorem lt_of_encode (h : encodeAttr env pattr info a = some v) : a < 64 := by
  unfold encodeAttr at h
  split at h
  case h_58 => cases h
  all_goals decide

theorem encodeLoop_spec (env : EncodeEnv) (pattr : FsalAttribList) (info : Option FsInfo)
    (l : List ℕ) : ((encodeLoop env pattr info l).map Prod.fst).Sublist l ∧
    ∀ x ∈ encodeLoop env pattr info l, ∃ info', encodeAttr env pattr info' x.1 = some x.2 := by
  induction l generalizing info with
  | nil => exact ⟨.slnil, nofun⟩
  | cons a rest ih =>
    rw [encodeLoop]
    split
    · obtain ⟨hsub, hall⟩ := ih info
      exact ⟨hsub.cons a, hall⟩
    · obtain ⟨hsub, hall⟩ := ih (callStatfs env info a)
      dsimp only
      cases hv : encodeAttr env pattr (callStatfs env info a) a with
      | none => exact ⟨hsub.cons a, hall⟩
      | some v => exact ⟨hsub.cons_cons a, List.forall_mem_cons.mpr ⟨⟨_, hv⟩, hall⟩⟩

/-- **What the encoder answers is laid out as a `fattr4`**: a value for each bit, of its size. -/
theorem encoded_of_encode (hb : b.len.toNat ≤ 2 ^ 27)
    (h : nfs4FsalAttrToFattr env pattr b = some f) : ∃ vs, Encoded f vs := by
  rw [nfs4FsalAttrToFattr] at h
  split at h
  · cases h
  dsimp only at h
  split at h
  · cases h
  rename_i hfits
  obtain ⟨hsub, hall⟩ := encodeLoop_spec env pattr none (bitmap4ToList b)
  generalize encodeLoop env pattr none (bitmap4ToList b) = r at h hsub hall hfits
  cases h
  have hsmall : ∀ a ∈ r.map Prod.fst, a < 64 := by
    intro a ha
    obtain ⟨x, hx, rfl⟩ := List.mem_map.mp ha
    obtain ⟨info', hencode⟩ := hall x hx
    exact lt_of_encode hencode
  have hback : bitmap4ToList (listToBitmap4 (fun _ => 0) (r.map Prod.fst)) = r.map Prod.fst :=
    ((listFaithful_iff ((pairwise_bitmap4ToList hb).sublist hsub)).mpr hsmall).back
  refine ⟨r.map Prod.snd, ?_, ?_, ?_⟩
  · show (listToBitmap4 (fun _ => 0) (r.map Prod.fst)).len.toNat ≤ 2
    rw [listToBitmap4, len_foldl]
    split
    · decide
    · exact Nat.le_succ 1
  · rw [hback, List.forall₂_map_left_iff, List.forall₂_map_right_iff, List.forall₂_same]
    intro x hx
    obtain ⟨info', hencode⟩ := hall x hx
    apply value_of_encode hencode
    have hle : x.2.length ≤ (r.flatMap Prod.snd).length := by
      rw [List.flatMap_def]
      exact (List.sublist_flatten_of_mem (List.mem_map_of_mem hx)).length_le
    rw [attrvalsBufflen] at hfits
    omega
  · rw [List.flatMap_def]

def noStatfs : EncodeEnv :=
  ⟨false, false, false, 90, 1, 1, false, [], by decide, fun _ => none, none, fun _ => none,
    fun _ => none, List.replicate 12 0, rfl, List.replicate 12 0, rfl⟩

def fiveBytes : FsalAttribList :=
  ⟨∅, .file, 5, 1, 1, 7, 0o644, 1, 0, 0, 0, 0, ⟨0, 0⟩, ⟨0, 0⟩, ⟨0, 0⟩, ⟨0, 0⟩, 5⟩

/-- The type and the size of a file. -/
theorem encoded_of_encode_fiveBytes : ∃ f vs,
    nfs4FsalAttrToFattr noStatfs fiveBytes ⟨1, fun _ => 18⟩ = some f ∧ Encoded f vs := by
  have hf : nfs4FsalAttrToFattr noStatfs fiveBytes ⟨1, fun _ => 18⟩ = some _ := rfl
  obtain ⟨vs, hvs⟩ := encoded_of_encode (by decide) hf
  exact ⟨_, vs, hf, hvs⟩

end

end CloudNfs.Attributes
