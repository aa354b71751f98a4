import CloudNfs.ReaddirPlus

/-!
# `READDIR` (`NFS_Protocols/nfs_Readdir.c`, `NFS_Protocols/nfs4_op_readdir.c`)

The calls of NFSv2, NFSv3 and NFSv4 that send a piece of a directory. Cookies are those of the
cache and two more; the cookie of an entry is where the entry behind it begins.

The attributes that an NFSv4 client asks for are accepted, and are not part of this.
-/

namespace CloudNfs.Readdir

open DirChain FileHandle

variable {Ctx Handle Attr : Type}

/-! ## NFSv2 and NFSv3 -/

/-- `preq->rq_vers`. -/
inductive RqVers where
  /-- `NFS_V2` -/
  | v2
  /-- `NFS_V3` -/
  | v3
  deriving DecidableEq

/-- `sizeof(READDIR2resok)` or `sizeof(READDIR3resok)`. -/
def RqVers.sizeofResok : RqVers → ℕ
  | .v2 => 16
  | .v3 => sizeofReaddir3resok

/-- `READDIR2args` and `READDIR3args`, without the handle. NFSv2 has no verifier, and 32 bits for
its cookie. -/
structure ReaddirArgs where
  cookie : UInt64
  cookieverf : List UInt8
  count : UInt32

/-- `entry2`, `entry3` and `entry4`. -/
structure Entry where
  /-- `fileid`, if the FSAL has set it -/
  fileid : Option ℕ
  name : String
  cookie : ℕ

/-- What is sent of a directory. -/
structure ReaddirResok where
  /-- `entries`, in the order of their links -/
  entries : List Entry
  eof : Bool
  cookieverf : List UInt8

/-- The loop over the entries, and whether it has come to their end. `entry2` and `entry3` have the
same size. -/
def replyEntries (env : DirEnv Ctx Handle Attr) (fileid : Handle → ℕ) (count endCookie : ℕ) :
    Bool → ℕ → List (ℕ × Slot) → Except Nfsstat3 (List Entry × Bool)
  | _, _, [] => .ok ([], true)
  | first, spaceUsed, x :: rest =>
    if count < spaceUsed + needed sizeofEntry3 x.2.name then
      if first then .error .tooSmall else .ok ([], false)
    else
      (replyEntries env fileid count endCookie false
          (spaceUsed + needed sizeofEntry3 x.2.name) rest).map fun r =>
        (⟨(x.2.pentry.bind env.getFsalHandle).map fileid, x.2.name, nextCookie endCookie rest⟩ ::
          r.1, r.2)

/-- The entry for `.`. -/
def replyDot (env : DirEnv Ctx Handle Attr) (fileid : Handle → ℕ) :
    Except Nfsstat3 (List Entry) :=
  match env.getFsalHandle env.dirPentry with
  | none => .error .errno
  | some h => .ok [⟨some (fileid h), ".", 1⟩]

/-- The entry for `..`. -/
def replyDotDot (env : DirEnv Ctx Handle Attr) (fileid : Handle → ℕ) :
    Except Nfsstat3 (List Entry) :=
  match env.lookupp.bind env.getFsalHandle with
  | none => .error .errno
  | some h => .ok [⟨some (fileid h), "..", 2⟩]

/-- `.` and `..`, as far as they are due and there is room for them. -/
def replyDots (env : DirEnv Ctx Handle Attr) (fileid : Handle → ℕ)
    (estimatedNumEntries cookie : ℕ) : Except Nfsstat3 (List Entry) :=
  match (if cookie = 0 ∧ 0 < estimatedNumEntries then replyDot env fileid else .ok []) with
  | .error status => .error status
  | .ok dot =>
    if cookie ≤ 1 ∧ dot.length < estimatedNumEntries then
      (replyDotDot env fileid).map fun dotDot => dot ++ dotDot
    else .ok dot

/-- `nfs_Readdir`, for a directory; `fileid` is `FSAL_DigestHandle`, for the version. -/
def nfsReaddir (env : DirEnv Ctx Handle Attr) (fileid : Handle → ℕ) (vers : RqVers)
    (arg : ReaddirArgs) : Answer ReaddirResok :=
  let count := arg.count.toNat
  let cookie := arg.cookie.toNat % 2 ^ 32
  let estimatedNumEntries := count / sizeofEntry3
  if estimatedNumEntries = 0 then .status .tooSmall
  else if vers = .v3 ∧ cookie ≠ 0 ∧ env.useCookieVerifier ∧ env.mtime ≠ arg.cookieverf then
    .status .badCookie
  else
    -- with the first call, the client receives a verifier that is never right
    let cookieVerifier :=
      if cookie ≠ 0 ∧ env.useCookieVerifier then env.mtime
      else List.replicate nfs3CookieverfSize 0xFF
    let askedNumEntries :=
      if 1 < cookie then estimatedNumEntries
      else if 2 - cookie < estimatedNumEntries then estimatedNumEntries + cookie - 2 else 0
    let cacheInodeCookie := if 1 < cookie then cookie - 2 else 0
    match cacheInodeReaddir env.dir cacheInodeCookie askedNumEntries with
    | none => .fault
    | some r =>
      if r.found = [] ∧ askedNumEntries ≠ 0 ∧ 1 < cookie then .ok ⟨[], true, cookieVerifier⟩
      else
        match replyDots env fileid estimatedNumEntries cookie with
        | .error status => .status status
        | .ok dots =>
          match replyEntries env fileid count r.endCookie true vers.sizeofResok r.found with
          | .error status => .status status
          | .ok (entries, all) => .ok ⟨dots ++ entries, r.eod && all, cookieVerifier⟩

/-! ## NFSv4 -/

/-- `sizeof(entry4)`. -/
def sizeofEntry4 : ℕ := 64

/-- `READDIR4args`, without what is not used here. -/
structure Readdir4args where
  cookie : UInt64
  cookieverf : List UInt8
  maxcount : UInt32

/-- What NFSv4 needs besides. -/
structure Dir4 (Ctx Handle Attr : Type) extends DirEnv Ctx Handle Attr where
  /-- the eight bytes of `internal_md.mod_time` -/
  modTime : List UInt8
  /-- `cache_inode_lookup` in the directory -/
  lookup : String → Option ℕ
  /-- a handle can be built, if it is asked for -/
  handleBuilt : ℕ → Bool

/-- The loop over the entries: those that are sent, and whether it has come to its end. It stops
behind the entry that reaches nine tenths of the space. -/
def reply4Entries (d : Dir4 Ctx Handle Attr) (maxcount endCookie : ℕ) :
    ℕ → List (ℕ × Slot) → Except Nfsstat3 (List Entry × Bool)
  | _, [] => .ok ([], true)
  | i, x :: rest =>
    match d.lookup x.2.name with
    | none => .error .errno
    | some pentry =>
      if d.handleBuilt pentry = false then .error .errno
      else
        let e : Entry := ⟨none, x.2.name, nextCookie endCookie rest⟩
        if maxcount * 9 / 10 < i * sizeofEntry4 then .ok ([e], false)
        else (reply4Entries d maxcount endCookie (i + 1) rest).map fun r => (e :: r.1, r.2)

/-- `cookie_verifier`, in NFSv4. -/
def cookieVerifier4 (d : Dir4 Ctx Handle Attr) : List UInt8 :=
  if d.useCookieVerifier then d.modTime else List.replicate nfs3CookieverfSize 0

/-- `nfs4_op_readdir`, for a directory. -/
def nfs4OpReaddir (d : Dir4 Ctx Handle Attr) (arg : Readdir4args) : Answer ReaddirResok :=
  let maxcount := arg.maxcount.toNat
  let estimatedNumEntries := maxcount / sizeofEntry4
  let cookie := arg.cookie.toNat % 2 ^ 32
  if cookie = 1 ∨ cookie = 2 then .status .badCookie
  else
    let cookie := if cookie ≠ 0 then cookie - 2 else cookie
    if maxcount < sizeofEntry4 ∨ estimatedNumEntries = 0 then .status .tooSmall
    else if cookie ≠ 0 ∧ d.useCookieVerifier ∧ cookieVerifier4 d ≠ arg.cookieverf then
      .status .badCookie
    else
      match cacheInodeReaddir d.dir cookie estimatedNumEntries with
      | none => .fault
      | some r =>
        if r.found = [] then .ok ⟨[], true, cookieVerifier4 d⟩
        else
          match reply4Entries d maxcount r.endCookie 0 r.found with
          | .error status => .status status
          | .ok (entries, all) => .ok ⟨entries, r.eod && all, cookieVerifier4 d⟩

/-! ## Going on -/

section

variable {d : Dir} {cookie wanted v n : ℕ} {r : ReaddirResult}

/-- **Some first entries** of a piece: the cookie behind them is where the others begin. -/
theorem advance_of_piece (hpiece : Piece d cookie wanted v r)
    (hfit : (flat d.chunks).length + 2 < 2 ^ 32) (hn : 0 < n) (hle : n ≤ r.found.length) :
    ∃ cookie', cookie < cookie' ∧ cookie' ≤ (flat d.chunks).length ∧
      nextCookie r.endCookie (r.found.drop n) = cookie' + 2 ∧
      remaining d cookie = (r.found.take n).map (fun x => x.2.name) ++ remaining d cookie' := by
  have hinside := hpiece.inside
  rcases Nat.lt_or_eq_of_le hle with hlt | rfl
  · -- the cookie of the next entry
    obtain ⟨hfrom, hto, hremaining⟩ := hpiece.remaining_take hlt
    refine ⟨(r.found[n]).1, by omega, by omega, ?_, hremaining⟩
    rw [List.drop_eq_getElem_cons hlt, nextCookie]
    exact Nat.mod_eq_of_lt (by omega)
  · -- where the cache goes on
    refine ⟨cookie + v, ?_, hinside, ?_, ?_⟩
    · have hv : v ≠ 0 := by
        rintro rfl
        rw [hpiece.found, List.take_zero] at hn
        exact lt_irrefl 0 hn
      omega
    · rw [List.drop_length, nextCookie, hpiece.endCookie]
      exact Nat.mod_eq_of_lt (by omega)
    · rw [List.take_length]
      exact hpiece.remaining_eq

end

end CloudNfs.Readdir
