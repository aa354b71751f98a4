import CloudNfs.ReaddirCalls
import CloudNfs.DirNames

/-!
# Listing a directory

A client lists a directory with one call after the other, each with the cookie of the last entry
and the verifier that it has received, until `eof` is `TRUE`. The sizes that it asks for may change
from call to call.

* `listsOnce_of_meets` — every name is listed once, and the listing ends, if no call goes wrong: no
  NFSv3 `READDIR` behind the first has to show a verifier, and every `READDIRPLUS` has room for `.`
  and `..`, or for an element.
-/

namespace CloudNfs.Readdir

open DirChain FileHandle DoublyLinked

variable {Ctx Handle Attr : Type}

/-! ## The directory -/

/-- An active slot of a directory. -/
def Active (dir : Dir) (s : Slot) : Prop := s.active = true ∧ ∃ c ∈ dir.chunks, s ∈ c.slots

/-- A directory that does not change: whatever is needed of it is there. -/
structure Served (Ctx Handle Attr : Type) extends Dir4 Ctx Handle Attr where
  /-- `FSAL_DigestHandle`, for `FSAL_DIGEST_FILEID2` -/
  digestFileid2 : Handle → ℕ
  /-- what the memory holds that is allocated for a reply, for each call -/
  mem : ℕ → ReplyMem Attr
  /-- a handle comes back from its digest -/
  digestUndone : fsal.DigestUndone
  /-- the chain of the directory -/
  readable : Readable 0 dir.chunks
  nothingBehind : ∀ (i k : ℕ) (c c' : Chunk), dir.chunks[i]? = some c → c.endOfDir = true → i < k →
    dir.chunks[k]? = some c' → ∀ s ∈ c'.slots, s.active = false
  names : Set String
  lists : Lists dir.nameAt names
  parent : ∃ pentry, lookupp = some pentry
  /-- a slot has its entry -/
  pentry : ∀ s, Active dir s → ∃ pentry, s.pentry = some pentry
  /-- all entries have handles, which can be sent -/
  handles : ∀ pentry, pentry = dirPentry ∨ lookupp = some pentry ∨
    (∃ s, Active dir s ∧ s.pentry = some pentry) →
      ∃ h bytes, getFsalHandle pentry = some h ∧
        fsal.digestHandle .nfsv3 pexport.fsExportContext h = some bytes
  /-- the names are found -/
  lookups : ∀ s, Active dir s → ∃ pentry, lookup s.name = some pentry ∧ handleBuilt pentry = true

/-! ## The calls -/

/-- The four calls. -/
inductive Variant where
  /-- `READDIR` of NFSv2 -/
  | readdir2
  /-- `READDIR` of NFSv3 -/
  | readdir3
  /-- `READDIRPLUS` of NFSv3 -/
  | readdirplus3
  /-- `READDIR` of NFSv4 -/
  | readdir4
  deriving DecidableEq

/-- The sizes that a client asks for: `dircount` is for `READDIRPLUS` only, and `maxcount` is
`count` where there is only one. -/
structure Counts where
  dircount : UInt32
  maxcount : UInt32

/-- What a client makes of an answer. -/
inductive Outcome where
  /-- names with their cookies, `eof`, and the verifier -/
  | entries (es : List (String × ℕ)) (eof : Bool) (verf : List UInt8)
  | tooSmall
  | failed

/-- The list of a `READDIRPLUS` reply, as long as it is inside. -/
def walk (m : ReplyMem Attr) (estimatedNumEntries : ℕ) :
    ℕ → Option ℕ → Option (List (String × ℕ))
  | _, none => some []
  | 0, some _ => none
  | fuel + 1, some i =>
    if i < estimatedNumEntries then
      (walk m estimatedNumEntries fuel (m.entries i).nextentry).map fun es =>
        ((m.entries i).name, (m.entries i).cookie) :: es
    else none

/-- The answer to a `READDIR`. -/
def Answer.outcome : Answer ReaddirResok → Outcome
  | .ok resok => .entries (resok.entries.map fun e => (e.name, e.cookie)) resok.eof resok.cookieverf
  | .status .tooSmall => .tooSmall
  | _ => .failed

/-- The answer to a `READDIRPLUS`. -/
def Answer.outcomePlus (estimatedNumEntries : ℕ) : Answer (Readdirplus3resok Attr) → Outcome
  | .ok resok =>
    match walk resok.mem estimatedNumEntries estimatedNumEntries resok.entries with
    | some es => .entries es resok.eof resok.cookieverf
    | none => .failed
  | .status .tooSmall => .tooSmall
  | _ => .failed

/-- The call of number `k`. -/
def call (d : Served Ctx Handle Attr) (variant : Variant) (k cookie : ℕ) (verf : List UInt8)
    (counts : Counts) : Outcome :=
  match variant with
  | .readdir2 =>
    (nfsReaddir d.toDirEnv d.digestFileid2 .v2
      ⟨UInt64.ofNat cookie, verf, counts.maxcount⟩).outcome
  | .readdir3 =>
    (nfsReaddir d.toDirEnv d.digestFileid .v3
      ⟨UInt64.ofNat cookie, verf, counts.maxcount⟩).outcome
  | .readdirplus3 =>
    (nfs3Readdirplus d.toDirEnv (d.mem k)
      ⟨UInt64.ofNat cookie, verf, counts.dircount, counts.maxcount⟩).outcomePlus
        (counts.dircount.toNat / sizeofEntryplus3)
  | .readdir4 =>
    (nfs4OpReaddir d.toDir4 ⟨UInt64.ofNat cookie, verf, counts.maxcount⟩).outcome

/-! ## The client -/

/-- What the client has. -/
inductive Progress where
  /-- names, and what it goes on with -/
  | going (received : List String) (cookie : ℕ) (verf : List UInt8)
  | done (received : List String)
  /-- its size was too small -/
  | refused
  | failed

def Progress.next (d : Served Ctx Handle Attr) (variant : Variant) (k : ℕ) (counts : Counts) :
    Progress → Progress
  | .going received cookie verf =>
    match call d variant k cookie verf counts with
    | .entries es eof verf =>
      if eof then .done (received ++ es.map Prod.fst)
      else
        .going (received ++ es.map Prod.fst) ((es.getLast?.map Prod.snd).getD cookie) verf
    | .tooSmall => .refused
    | .failed => .failed
  | p => p

def runAt (d : Served Ctx Handle Attr) (variant : Variant) (counts : ℕ → Counts)
    (verf : List UInt8) : ℕ → Progress
  | 0 => .going [] 0 verf
  | k + 1 => (runAt d variant counts verf k).next d variant k (counts k)

/-- The names that are due: those of the directory, with `.` and `..` except in NFSv4. -/
def Variant.Due (variant : Variant) (d : Served Ctx Handle Attr) (name : String) : Prop :=
  variant ≠ .readdir4 ∧ (name = "." ∨ name = "..") ∨ name ∈ d.names

/-- **The listing ends, with every name once**, unless a size is refused. -/
def ListsOnce (d : Served Ctx Handle Attr) (variant : Variant) (counts : ℕ → Counts)
    (verf : List UInt8) : Prop :=
  ∃ k, runAt d variant counts verf k = .refused ∨
    ∃ received, runAt d variant counts verf k = .done received ∧ received.Nodup ∧
      ∀ name, name ∈ received ↔ variant.Due d name

/-- What a call has to meet: NFSv3 does not send the verifier that it asks for, and `READDIRPLUS`
does not refuse a size for which it has no room. -/
def Meets (d : Served Ctx Handle Attr) (variant : Variant) (cookie : ℕ) (counts : Counts) : Prop :=
  match variant with
  | .readdir2 | .readdir4 => True
  | .readdir3 =>
    d.useCookieVerifier = false ∨ cookie = 0 ∨ d.mtime = List.replicate nfs3CookieverfSize 0xFF
  | .readdirplus3 =>
    sizeofEntryplus3 ≤ counts.dircount.toNat ∧
      (cookie = 0 → 2 * sizeofEntryplus3 ≤ counts.dircount.toNat)

/-! ## One call -/

/-- `.` and `..`, from a cookie on. -/
def Variant.dotNames (variant : Variant) (cookie : ℕ) : List String :=
  match variant with
  | .readdir4 => []
  | _ => [".", ".."].drop cookie

/-- What is due from a cookie on. -/
def Variant.rest (variant : Variant) (d : Served Ctx Handle Attr) (cookie : ℕ) : List String :=
  variant.dotNames cookie ++ remaining d.dir (cookie - 2)

theorem listing_flat (p : ℕ) {cs : List Chunk}
    (hbehind : ∀ (i k : ℕ) (c c' : Chunk), cs[i]? = some c → c.endOfDir = true → i < k →
      cs[k]? = some c' → ∀ s ∈ c'.slots, s.active = false) :
    (listing p (flat cs)).map (fun x => x.2.name) =
      cs.flatMap fun c => (c.slots.filter (·.active)).map Slot.name := by
  have hslots : ∀ (p : ℕ) (ss : List Slot),
      (listing p ss).map (fun x => x.2.name) = (ss.filter (·.active)).map Slot.name := by
    intro p ss
    induction ss generalizing p with
    | nil => rfl
    | cons s ss ih =>
      rw [listing, List.filter_cons]
      split
      · rw [List.map_cons, List.map_cons, ih]
      · exact ih (p + 1)
  induction cs generalizing p with
  | nil => rfl
  | cons c cs ih =>
    rw [flat, List.flatMap_cons]
    split
    · rename_i hend
      have hrest : (cs.flatMap fun c => (c.slots.filter (·.active)).map Slot.name) = [] := by
        rw [List.flatMap_eq_nil_iff]
        intro c' hc'
        obtain ⟨k, hk⟩ := List.mem_iff_getElem?.mp hc'
        rw [List.map_eq_nil_iff, List.filter_eq_nil_iff]
        intro s hs
        rw [hbehind 0 (k + 1) c c' rfl hend (Nat.succ_pos k) hk s hs]
        exact Bool.false_ne_true
      rw [hrest, List.append_nil, hslots]
    · rw [listing_append, List.map_append, hslots]
      congr 1
      exact ih _ fun i k c1 c2 hi hend hlt hk =>
        hbehind (i + 1) (k + 1) c1 c2 hi hend (Nat.succ_lt_succ hlt) hk

theorem rest_zero (d : Served Ctx Handle Attr) (variant : Variant) :
    (variant.rest d 0).Nodup ∧ ∀ name, name ∈ variant.rest d 0 ↔ variant.Due d name := by
  have hall : remaining d.dir 0 = d.dir.activeNames := listing_flat 0 d.nothingBehind
  have hnodup : d.dir.activeNames.Nodup := activeNames_nodup d.lists
  have hmem : ∀ name, name ∈ d.dir.activeNames ↔ name ∈ d.names := fun name => by
    rw [mem_activeNames, d.lists.mem_iff]
  have hdots : ∀ name ∈ d.dir.activeNames, name ≠ "." ∧ name ≠ ".." := by
    intro name hname
    rw [Dir.activeNames, List.mem_flatMap] at hname
    obtain ⟨c, hc, hslot⟩ := hname
    obtain ⟨s, hs, rfl⟩ := List.mem_map.mp hslot
    obtain ⟨hs, hactive⟩ := List.mem_filter.mp hs
    exact d.noDots c hc s hs hactive
  have hboth : ([".", ".."] ++ d.dir.activeNames).Nodup ∧
      ∀ name, name ∈ [".", ".."] ++ d.dir.activeNames ↔
        (name = "." ∨ name = "..") ∨ name ∈ d.names := by
    refine ⟨List.nodup_append.mpr ⟨by decide, hnodup, ?_⟩, fun name => ?_⟩
    · rintro a ha b hb rfl
      obtain ⟨hdot, hdotDot⟩ := hdots a hb
      rw [List.mem_pair] at ha
      exact ha.elim hdot hdotDot
    · rw [List.mem_append, List.mem_pair, hmem]
  have heq : variant.rest d 0 = variant.dotNames 0 ++ d.dir.activeNames := by
    rw [Variant.rest, hall]
  rw [heq]
  cases variant with
  | readdir4 =>
    refine ⟨hnodup, fun name => ?_⟩
    rw [Variant.Due]
    exact (hmem name).trans (by simp)
  | _ =>
    refine ⟨hboth.1, fun name => ?_⟩
    rw [Variant.Due]
    exact (hboth.2 name).trans (by simp)

/-- **What a reply sends**: all that is due, or some of it and the cookie of the rest. -/
structure Advances (d : Served Ctx Handle Attr) (variant : Variant) (cookie : ℕ)
    (es : List (String × ℕ)) (eof : Bool) : Prop where
  done : eof = true → es.map Prod.fst = variant.rest d cookie
  going : eof = false → ∃ cookie', es.getLast?.map Prod.snd = some cookie' ∧ cookie < cookie' ∧
    cookie' ≤ (flat d.dir.chunks).length + 2 ∧ (variant = .readdir4 → 3 ≤ cookie') ∧
    variant.rest d cookie = es.map Prod.fst ++ variant.rest d cookie'

section

variable {d : Served Ctx Handle Attr} {variant : Variant} {cookie wanted v n : ℕ}
  {r : ReaddirResult} {es : List (String × ℕ)} {eof : Bool}

theorem dotNames_eq_nil (hcookie : 2 ≤ cookie) : variant.dotNames cookie = [] := by
  cases variant
  case readdir4 => rfl
  all_goals exact List.drop_of_length_le hcookie

theorem advances_of_piece (hpiece : Piece d.dir (cookie - 2) wanted v r)
    (hfit : (flat d.dir.chunks).length + 2 < 2 ^ 32) (hle : n ≤ r.found.length)
    (hnames : es.map Prod.fst =
      variant.dotNames cookie ++ (r.found.take n).map fun x => x.2.name)
    (hlast : 0 < n → es.getLast?.map Prod.snd =
      some (nextCookie r.endCookie (r.found.drop n)))
    (hdone : eof = true → r.eod = true ∧ n = r.found.length) (hgoing : eof = false → 0 < n) :
    Advances d variant cookie es eof where
  done heof := by
    obtain ⟨heod, rfl⟩ := hdone heof
    rw [hnames, List.take_length, Variant.rest, hpiece.remaining_eod heod]
  going heof := by
    have hn := hgoing heof
    obtain ⟨cookie', hlt, hto, hnext, hremaining⟩ := advance_of_piece hpiece hfit hn hle
    refine ⟨cookie' + 2, ?_, by omega, by omega, fun _ => by omega, ?_⟩
    · rw [hlast hn, hnext]
    · rw [hnames, Variant.rest, Variant.rest, dotNames_eq_nil (Nat.le_add_left 2 cookie'),
        Nat.add_sub_cancel, List.nil_append, List.append_assoc, hremaining]

theorem advances_of_dots {cookie' : ℕ} (hlast : es.getLast?.map Prod.snd = some cookie')
    (hlt : cookie < cookie') (hle : cookie' ≤ 2) (hvariant : variant ≠ .readdir4)
    (hnames : variant.dotNames cookie = es.map Prod.fst ++ variant.dotNames cookie') :
    Advances d variant cookie es false where
  done := nofun
  going _ := by
    refine ⟨cookie', hlast, hlt, by omega, fun h => absurd h hvariant, ?_⟩
    rw [Variant.rest, Variant.rest, hnames, List.append_assoc,
      show cookie' - 2 = cookie - 2 by omega]

/-! ## NFSv2 and NFSv3 -/

/-- The names and cookies of entries. -/
def namesOf (es : List Entry) : List (String × ℕ) := es.map fun e => (e.name, e.cookie)

variable {env : DirEnv Ctx Handle Attr} {l : List (ℕ × Slot)} {verf : List UInt8}
  {m : ReplyMem Attr} {arg : Readdirplus3args} {counts : Counts} {received : List String}

variable {fileid : Handle → ℕ} {count endCookie spaceUsed estimatedNumEntries : ℕ} {first : Bool}
  {resok : Readdirplus3resok Attr}

theorem replyEntries_spec {es : List Entry} {all : Bool}
    (h : replyEntries env fileid count endCookie first spaceUsed l = .ok (es, all)) :
    ∃ n, n ≤ l.length ∧ (namesOf es).map Prod.fst = (l.take n).map (fun x => x.2.name) ∧
      (0 < n → (namesOf es).getLast?.map Prod.snd = some (nextCookie endCookie (l.drop n))) ∧
      (all = true ↔ n = l.length) ∧ (first = true → l ≠ [] → 0 < n) := by
  induction l generalizing first spaceUsed es all with
  | nil =>
    obtain ⟨rfl, rfl⟩ := Prod.mk.inj (Except.ok.inj h)
    exact ⟨0, le_rfl, rfl, nofun, iff_of_true rfl rfl, fun _ h => absurd rfl h⟩
  | cons x rest ih =>
    rw [replyEntries] at h
    split at h
    · split at h
      · cases h
      · rename_i hfirst
        obtain ⟨rfl, rfl⟩ := Prod.mk.inj (Except.ok.inj h)
        exact ⟨0, Nat.zero_le _, rfl, nofun, iff_of_false nofun nofun,
          fun h => absurd h hfirst⟩
    cases hrest : replyEntries env fileid count endCookie false
      (spaceUsed + needed sizeofEntry3 x.2.name) rest with
    | error status =>
      rw [hrest] at h
      cases h
    | ok r =>
      obtain ⟨es', all'⟩ := r
      rw [hrest] at h
      obtain ⟨rfl, rfl⟩ := Prod.mk.inj (Except.ok.inj h)
      obtain ⟨n, hn, hnames, hlast, hall, -⟩ := ih hrest
      refine ⟨n + 1, Nat.succ_le_succ hn, ?_, fun _ => ?_, ?_, fun _ _ => Nat.succ_pos n⟩
      · rw [List.take_succ_cons, List.map_cons, ← hnames]
        rfl
      · rw [List.drop_succ_cons]
        rcases Nat.eq_zero_or_pos n with rfl | hpos
        · have hnil : es' = [] := by
            simpa [namesOf] using hnames
          rw [hnil]
          rfl
        · have hlast' := hlast hpos
          cases es' with
          | nil => cases hlast'
          | cons e es' => exact hlast'
      · rw [hall, List.length_cons]
        exact (Nat.succ_inj).symm

theorem replyEntries_error {status : Nfsstat3}
    (h : replyEntries env fileid count endCookie first spaceUsed l = .error status) :
    status = .tooSmall := by
  induction l generalizing first spaceUsed with
  | nil => cases h
  | cons x rest ih =>
    rw [replyEntries] at h
    split at h
    · split at h
      · exact (Except.error.inj h).symm
      · cases h
    cases hrest : replyEntries env fileid count endCookie false
      (spaceUsed + needed sizeofEntry3 x.2.name) rest with
    | error status' =>
      rw [hrest] at h
      obtain rfl := Except.error.inj h
      exact ih hrest
    | ok r =>
      rw [hrest] at h
      cases h

theorem replyDots_spec (fileid : Handle → ℕ) (cookie : ℕ) (hone : 1 ≤ estimatedNumEntries) :
    ∃ es, replyDots d.toDirEnv fileid estimatedNumEntries cookie = .ok es ∧
      (2 - cookie ≤ estimatedNumEntries →
        (namesOf es).map Prod.fst = [".", ".."].drop cookie) ∧
      (cookie ≤ 1 → ∃ cookie', (namesOf es).getLast?.map Prod.snd = some cookie' ∧
        cookie < cookie' ∧ cookie' ≤ 2 ∧
        [".", ".."].drop cookie = (namesOf es).map Prod.fst ++ [".", ".."].drop cookie') := by
  obtain ⟨h, -, hself, -⟩ := d.handles d.dirPentry (.inl rfl)
  obtain ⟨parent, hparent⟩ := d.parent
  obtain ⟨hp, -, hhp, -⟩ := d.handles parent (.inr (.inl hparent))
  have hdot : replyDot d.toDirEnv fileid = .ok [⟨some (fileid h), ".", 1⟩] := by
    rw [replyDot, hself]
  have hdotDot : replyDotDot d.toDirEnv fileid = .ok [⟨some (fileid hp), "..", 2⟩] := by
    rw [replyDotDot, hparent, Option.bind_some, hhp]
  rw [replyDots]
  obtain rfl | rfl | hmore : cookie = 0 ∨ cookie = 1 ∨ 1 < cookie := by omega
  · rw [if_pos ⟨rfl, hone⟩, hdot]
    dsimp only
    by_cases htwo : 1 < estimatedNumEntries
    · rw [if_pos ⟨Nat.zero_le 1, htwo⟩, hdotDot]
      exact ⟨_, rfl, fun _ => rfl, fun _ => ⟨2, rfl, by decide, le_rfl, rfl⟩⟩
    · rw [if_neg fun h => htwo h.2]
      exact ⟨_, rfl, fun h => by omega, fun _ => ⟨1, rfl, by decide, by decide, rfl⟩⟩
  · rw [if_neg (by omega)]
    dsimp only
    rw [if_pos ⟨le_rfl, hone⟩, hdotDot]
    exact ⟨_, rfl, fun _ => rfl, fun _ => ⟨2, rfl, by decide, le_rfl, rfl⟩⟩
  · rw [if_neg (by omega)]
    dsimp only
    rw [if_neg (by omega)]
    exact ⟨_, rfl, fun _ => (List.drop_of_length_le hmore).symm, fun h => by omega⟩

theorem toNat_cookie (hcookie : cookie < 2 ^ 32) :
    (UInt64.ofNat cookie).toNat % 2 ^ 32 = cookie := by
  rw [UInt64.toNat_ofNat', Nat.mod_mod_of_dvd _ (by decide)]
  exact Nat.mod_eq_of_lt hcookie

theorem cacheInodeReaddir_zero (dir : Dir) (cookie : ℕ) :
    cacheInodeReaddir dir cookie 0 = some ⟨[], cookie, false⟩ := rfl

theorem nfsReaddir_advances (fileid : Handle → ℕ) {vers : RqVers} {count : UInt32}
    (hfit : (flat d.dir.chunks).length + 2 < 2 ^ 32)
    (hcookie : cookie ≤ (flat d.dir.chunks).length + 2)
    (hdots : ∀ c, variant.dotNames c = [".", ".."].drop c) (hvariant : variant ≠ .readdir4)
    (hverf : vers = .v3 → cookie ≠ 0 → d.useCookieVerifier = true → d.mtime = verf) :
    (nfsReaddir d.toDirEnv fileid vers ⟨UInt64.ofNat cookie, verf, count⟩).outcome = .tooSmall ∨
      ∃ es eof verf', (nfsReaddir d.toDirEnv fileid vers
          ⟨UInt64.ofNat cookie, verf, count⟩).outcome = .entries es eof verf' ∧
        (verf' = d.mtime ∨ verf' = List.replicate nfs3CookieverfSize 0xFF) ∧
        Advances d variant cookie es eof := by
  have hverf' : ∀ p : Prop, ∀ [Decidable p],
      (if p then d.mtime else List.replicate nfs3CookieverfSize 0xFF) = d.mtime ∨
        (if p then d.mtime else List.replicate nfs3CookieverfSize 0xFF) =
          List.replicate nfs3CookieverfSize 0xFF := by
    intro p _
    split
    · exact .inl rfl
    · exact .inr rfl
  rw [nfsReaddir]
  dsimp only
  rw [toNat_cookie (by omega)]
  by_cases hest : count.toNat / sizeofEntry3 = 0
  · rw [if_pos hest]
    exact .inl rfl
  have hone : 1 ≤ count.toNat / sizeofEntry3 := Nat.one_le_iff_ne_zero.mpr hest
  rw [if_neg hest, if_neg]
  swap
  · rintro ⟨hv3, hne, huse, hmtime⟩
    exact hmtime (hverf hv3 hne huse)
  obtain ⟨dotEntries, hreply, hall, hsome⟩ := replyDots_spec (d := d) fileid cookie hone
  have hcache : (if 1 < cookie then cookie - 2 else 0) = cookie - 2 := by
    split <;> omega
  rw [hcache, hreply]
  generalize hasked : (if 1 < cookie then count.toNat / sizeofEntry3
    else if 2 - cookie < count.toNat / sizeofEntry3 then count.toNat / sizeofEntry3 + cookie - 2
    else 0) = asked
  rcases Nat.eq_zero_or_pos asked with rfl | hpos
  · -- there is no room for more than `.` and `..`
    have hle : cookie ≤ 1 := by
      by_contra hmore
      rw [if_pos (by omega)] at hasked
      exact hest hasked
    obtain ⟨cookie', hlast, hlt, hto, hnames⟩ := hsome hle
    rw [cacheInodeReaddir_zero]
    dsimp only
    rw [if_neg fun h => h.2.1 rfl, replyEntries]
    refine .inr ⟨namesOf dotEntries, false, _, ?_,
      hverf' (cookie ≠ 0 ∧ d.useCookieVerifier = true), ?_⟩
    · exact congrArg (fun es => Outcome.entries (namesOf es) false _) (List.append_nil dotEntries)
    · apply advances_of_dots hlast hlt hto hvariant
      rw [hdots, hdots, hnames]
  · obtain ⟨v, r, hpiece, -⟩ := exists_piece d.readable hpos
      (show cookie - 2 ≤ (flat d.dir.chunks).length by omega) (by omega)
    rw [hpiece.result]
    dsimp only
    by_cases hnothing : r.found = [] ∧ asked ≠ 0 ∧ 1 < cookie
    · rw [if_pos hnothing]
      obtain ⟨hnil, -, hmore⟩ := hnothing
      refine .inr ⟨[], true, _, rfl, hverf' _, ?_⟩
      refine advances_of_piece hpiece hfit (Nat.zero_le _) ?_ nofun (fun _ => ?_) nofun
      · rw [dotNames_eq_nil hmore]
        rfl
      · rw [hnil]
        exact ⟨hpiece.eod_of_found_nil hpos hnil, rfl⟩
    rw [if_neg hnothing]
    cases hentries : replyEntries d.toDirEnv fileid count.toNat r.endCookie true
      vers.sizeofResok r.found with
    | error status =>
      obtain rfl := replyEntries_error hentries
      exact .inl rfl
    | ok result =>
      obtain ⟨entries, all⟩ := result
      obtain ⟨n, hle, hnames, hlast, hcomplete, hfirst⟩ := replyEntries_spec hentries
      have hroom : 2 - cookie ≤ count.toNat / sizeofEntry3 := by
        split at hasked
        · omega
        · split at hasked <;> omega
      refine .inr ⟨namesOf dotEntries ++ namesOf entries, r.eod && all, _, ?_,
        hverf' (cookie ≠ 0 ∧ d.useCookieVerifier = true), ?_⟩
      · rw [namesOf, namesOf, ← List.map_append]
        rfl
      · apply advances_of_piece hpiece hfit hle
        · rw [List.map_append, hall hroom, hnames, hdots]
        · intro hn
          have hlast' := hlast hn
          obtain ⟨e, he, -⟩ := Option.map_eq_some_iff.mp hlast'
          rw [List.getLast?_append, he, Option.some_or, ← he]
          exact hlast'
        · intro heof
          rw [Bool.and_eq_true] at heof
          exact ⟨heof.1, hcomplete.mp heof.2⟩
        · intro heof
          by_contra hn
          have hzero : n = 0 := by omega
          have hnil : r.found = [] := by
            by_contra hne
            exact hn (hfirst rfl hne)
          rw [hpiece.eod_of_found_nil hpos hnil, Bool.true_and] at heof
          have hall' : all = true := hcomplete.mpr (by rw [hzero, hnil]; rfl)
          rw [hall'] at heof
          cases heof

/-! ## `READDIRPLUS` -/

theorem walk_eq {fuel : ℕ} {first : Option ℕ} {l : List ℕ}
    (hchain : Chain (fun i => (m.entries i).nextentry) first l)
    (hinside : ∀ i ∈ l, i < estimatedNumEntries) (hfuel : l.length ≤ fuel) :
    walk m estimatedNumEntries fuel first =
      some (l.map fun i => ((m.element i).name, (m.element i).cookie)) := by
  induction l generalizing first fuel with
  | nil =>
    obtain rfl : first = none := hchain
    rw [walk, List.map_nil]
  | cons i l ih =>
    obtain ⟨rfl, hchain⟩ := hchain
    cases fuel with
    | zero => cases hfuel
    | succ fuel =>
      rw [walk, if_pos (hinside i (.head _)),
        ih hchain (fun j hj => hinside j (.tail i hj))
          (Nat.le_of_succ_le_succ hfuel)]
      rfl

theorem fsalToFhandle_served {i : ℕ} {h : Handle} {bytes : List UInt8}
    (hdigest : d.fsal.digestHandle .nfsv3 d.pexport.fsExportContext h = some bytes) :
    ∃ m', m.fsalToFhandle d.toDirEnv i h = some m' := by
  rw [ReplyMem.fsalToFhandle, nfs3FSALToFhandle, hdigest]
  exact ⟨_, rfl⟩

theorem fillDot_served (m : ReplyMem Attr) : ∃ m', fillDot d.toDirEnv m = .ok m' := by
  obtain ⟨h, bytes, hself, hdigest⟩ := d.handles d.dirPentry (.inl rfl)
  rw [fillDot, hself]
  dsimp only
  obtain ⟨m1, hm1⟩ := fsalToFhandle_served (i := 0) (m := m.setEntry 0 fun e =>
    { e with fileid := d.digestFileid h, name := ".", cookie := 1, dataVal := 0 }) hdigest
  rw [hm1]
  exact ⟨_, rfl⟩

theorem fillDotDot_served (delta : ℕ) (m : ReplyMem Attr) :
    ∃ m', fillDotDot d.toDirEnv delta m = .ok m' := by
  obtain ⟨parent, hparent⟩ := d.parent
  obtain ⟨h, bytes, hself, hdigest⟩ := d.handles parent (.inr (.inl hparent))
  rw [fillDotDot, hparent]
  dsimp only
  rw [hself]
  dsimp only
  obtain ⟨m1, hm1⟩ := fsalToFhandle_served (i := 0) (m := m.setEntry delta fun e =>
    { e with fileid := d.digestFileid h, name := "..", dataVal := delta }) hdigest
  rw [hm1]
  exact ⟨_, rfl⟩

theorem fillDots_served (cookie estimatedNumEntries numEntries : ℕ) (m : ReplyMem Attr) :
    ∃ delta m', fillDots d.toDirEnv estimatedNumEntries cookie numEntries m = .ok (delta, m') := by
  obtain ⟨delta, m1, hm1⟩ : ∃ delta m1,
      (if cookie = 0 ∧ 0 < estimatedNumEntries then
        (fillDot d.toDirEnv m).map fun m => (1, m) else .ok (0, m)) = .ok (delta, m1) := by
    split
    · obtain ⟨m1, hm1⟩ := fillDot_served (d := d) m
      rw [hm1]
      exact ⟨_, _, rfl⟩
    · exact ⟨_, _, rfl⟩
  obtain ⟨m2, hm2⟩ : ∃ m2, (if delta < estimatedNumEntries then fillDotDot d.toDirEnv delta m1
      else .ok m1) = .ok m2 := by
    split
    · exact fillDotDot_served delta m1
    · exact ⟨_, rfl⟩
  rw [fillDots, hm1]
  dsimp only
  rw [hm2]
  split <;> exact ⟨_, _, rfl⟩

theorem fillEntry_served {s : Slot} (hactive : Active d.dir s) (i c : ℕ) (m : ReplyMem Attr) :
    ∃ m', fillEntry d.toDirEnv i s c m = .ok m' := by
  obtain ⟨pentry, hpentry⟩ := d.pentry s hactive
  obtain ⟨h, bytes, hself, hdigest⟩ := d.handles pentry (.inr (.inr ⟨s, hactive, hpentry⟩))
  rw [fillEntry, hpentry, Option.bind_some, hself]
  dsimp only
  obtain ⟨m1, hm1⟩ := fsalToFhandle_served (i := i) (m := m.setEntry i fun e =>
    { e with fileid := d.digestFileid h, name := s.name, cookie := c, dataVal := i }) hdigest
  rw [hm1]
  exact ⟨_, rfl⟩

theorem fillEntries_served (maxcount endCookie delta i spaceUsed : ℕ)
    (hactive : ∀ x ∈ l, Active d.dir x.2) (m : ReplyMem Attr) :
    fillEntries d.toDirEnv maxcount endCookie delta i spaceUsed l m = .error .tooSmall ∨
      ∃ i' m', fillEntries d.toDirEnv maxcount endCookie delta i spaceUsed l m = .ok (i', m') := by
  induction l generalizing i spaceUsed m with
  | nil => exact .inr ⟨i, m, rfl⟩
  | cons x rest ih =>
    rw [fillEntries]
    split
    · split
      · exact .inl rfl
      · exact .inr ⟨_, _, rfl⟩
    obtain ⟨m1, hm1⟩ := fillEntry_served (hactive x (.head _)) i
      (nextCookie endCookie rest) m
    rw [hm1]
    exact ih _ _ (fun y hy => hactive y (.tail x hy)) m1

theorem Dots.read {e : ℕ → Element Attr} (hdots : Dots env m cookie (e 0) (e 1)) :
    ((List.range (dots cookie)).map fun i => ((e i).name, (e i).cookie)) =
      [(".", 1), ("..", 2)].drop cookie := by
  generalize he0 : e 0 = e0 at hdots
  generalize he1 : e 1 = e1 at hdots
  cases hdots with
  | behind hcookie =>
    rw [dots, Nat.sub_eq_zero_of_le hcookie]
    exact (List.drop_of_length_le hcookie).symm
  | dotDot hname hcookie =>
    have hrange : List.range (dots 1) = [0] := rfl
    rw [hrange, List.map_singleton, he0, hname, hcookie]
    rfl
  | both hfilled =>
    have hrange : List.range (dots 0) = [0, 1] := rfl
    rw [hrange, List.map_cons, List.map_singleton, he0, he1, hfilled.dot.1, hfilled.dot.2.1,
      hfilled.dotDot.1, hfilled.dotDot.2.1]
    rfl

theorem Replied.read (hreply : Replied env m arg resok r n) :
    ((List.range n).map fun k => (resok.mem.element (dots arg.beginCookie + k)).name) =
      (r.found.take n).map fun x => x.2.name := by
  have hle := hreply.le
  apply List.ext_getElem
  · rw [List.length_map, List.length_range, List.length_map, List.length_take, min_eq_left hle]
  · intro k hk _
    rw [List.length_map, List.length_range] at hk
    have hshows := hreply.shows k _ hk (List.getElem?_eq_getElem (by omega))
    rw [List.getElem_map, List.getElem_range, List.getElem_map, List.getElem_take, hshows.name]

theorem Replied.outcome (hreply : Replied env m arg resok r n) :
    ∃ es, (Answer.ok resok).outcomePlus arg.estimatedNumEntries =
        .entries es resok.eof (cookieVerifier env) ∧
      es.map Prod.fst = [".", ".."].drop arg.beginCookie ++
        (r.found.take n).map (fun x => x.2.name) ∧
      (0 < n → es.getLast?.map Prod.snd = some (nextCookie r.endCookie (r.found.drop n))) ∧
      (n = 0 → arg.beginCookie ≤ 1 → es.getLast?.map Prod.snd = some 2) := by
  have hinside := hreply.inside
  have hlength : (List.range (dots arg.beginCookie + n)).length ≤ arg.estimatedNumEntries := by
    rw [List.length_range]
    exact hinside
  have hwalk := walk_eq hreply.list
    (fun i hi => lt_of_lt_of_le (List.mem_range.mp hi) hinside) hlength
  rw [List.range_add, List.map_append, Dots.read hreply.shown, List.map_map] at hwalk
  rw [Answer.outcomePlus, hwalk, hreply.cookieverf]
  refine ⟨_, rfl, ?_, fun hn => ?_, fun hn hcookie => ?_⟩
  · rw [List.map_append, List.map_drop, ← hreply.read, List.map_map]
    rfl
  · obtain ⟨k, rfl⟩ : ∃ k, n = k + 1 := ⟨n - 1, by omega⟩
    have hle := hreply.le
    have hshows := hreply.shows k _ (Nat.lt_succ_self k) (List.getElem?_eq_getElem hle)
    rw [List.range_succ, List.map_append, List.map_singleton, ← List.append_assoc,
      List.getLast?_concat, Option.map_some]
    exact congrArg some hshows.cookie
  · subst hn
    rw [List.range_zero, List.map_nil, List.append_nil]
    obtain h | h : arg.beginCookie = 0 ∨ arg.beginCookie = 1 := by omega
    all_goals
      rw [h]
      rfl

theorem nfs3Readdirplus_served (mem : ReplyMem Attr)
    (hverf : arg.beginCookie ≠ 0 → cookieVerifier d.toDirEnv = arg.cookieverf)
    (hfound : cacheInodeReaddir d.dir arg.cacheInodeCookie arg.askedNumEntries = some r) :
    nfs3Readdirplus d.toDirEnv mem arg = .status .tooSmall ∨
      ∃ resok, nfs3Readdirplus d.toDirEnv mem arg = .ok resok := by
  have hasked := asked_of_readdir hfound
  rw [nfs3Readdirplus]
  dsimp only
  rw [if_neg fun h => h.2.2 (hverf h.2.1), ← Readdirplus3args.askedNumEntries,
    ← Readdirplus3args.cacheInodeCookie, hfound]
  dsimp only
  split
  · exact .inr ⟨_, rfl⟩
  obtain ⟨delta, m1, hm1⟩ := fillDots_served (d := d) arg.beginCookie arg.estimatedNumEntries
    r.found.length mem
  rw [hm1]
  dsimp only
  obtain hsmall | ⟨i, m2, hm2⟩ := fillEntries_served (d := d) arg.maxcount.toNat r.endCookie delta
    delta sizeofReaddir3resok (fun x hx => ⟨hasked.active x hx, hasked.slots x hx⟩) m1
  · rw [hsmall]
    exact .inl rfl
  · rw [hm2]
    exact .inr ⟨_, rfl⟩

theorem nfs3Readdirplus_advances (mem : ReplyMem Attr)
    (hfit : (flat d.dir.chunks).length + 2 < 2 ^ 32)
    (hcookie : cookie ≤ (flat d.dir.chunks).length + 2)
    (hmeets : Meets d .readdirplus3 cookie counts)
    (hverf : cookie ≠ 0 → cookieVerifier d.toDirEnv = verf) :
    (nfs3Readdirplus d.toDirEnv mem
        ⟨UInt64.ofNat cookie, verf, counts.dircount, counts.maxcount⟩).outcomePlus
          (counts.dircount.toNat / sizeofEntryplus3) = .tooSmall ∨
      ∃ es eof, (nfs3Readdirplus d.toDirEnv mem
        ⟨UInt64.ofNat cookie, verf, counts.dircount, counts.maxcount⟩).outcomePlus
          (counts.dircount.toNat / sizeofEntryplus3) =
            .entries es eof (cookieVerifier d.toDirEnv) ∧
        Advances d .readdirplus3 cookie es eof := by
  generalize harg : (⟨UInt64.ofNat cookie, verf, counts.dircount, counts.maxcount⟩ :
    Readdirplus3args) = arg
  have hbegin : arg.beginCookie = cookie := by
    rw [← harg]
    exact toNat_cookie (by omega)
  have hest : arg.estimatedNumEntries = counts.dircount.toNat / sizeofEntryplus3 := by
    rw [← harg, Readdirplus3args.estimatedNumEntries]
  have hverf' : arg.beginCookie ≠ 0 → cookieVerifier d.toDirEnv = arg.cookieverf := by
    rw [hbegin, ← harg]
    exact hverf
  have hone : 1 ≤ arg.estimatedNumEntries := by
    rw [hest]
    exact (Nat.one_le_div_iff (by decide)).mpr hmeets.1
  have hroom : dots arg.beginCookie ≤ arg.estimatedNumEntries := by
    rw [dots, hbegin]
    rcases Nat.eq_zero_or_pos cookie with hzero | hpos
    · rw [hzero, hest]
      exact (Nat.le_div_iff_mul_le (by decide)).mpr (hmeets.2 hzero)
    · omega
  have hcache : arg.cacheInodeCookie = cookie - 2 := by
    rw [Readdirplus3args.cacheInodeCookie, hbegin]
    split <;> omega
  rw [← hest]
  rcases Nat.eq_zero_or_pos arg.askedNumEntries with hzero | hpos
  · -- there is no room for more than `.` and `..`
    have hle : cookie ≤ 1 := by
      by_contra hmore
      rw [Readdirplus3args.askedNumEntries, if_pos (by omega)] at hzero
      omega
    have hfound := cacheInodeReaddir_zero d.dir arg.cacheInodeCookie
    rw [← hzero] at hfound
    obtain hsmall | ⟨resok, hok⟩ := nfs3Readdirplus_served mem hverf' hfound
    · rw [hsmall]
      exact .inl rfl
    obtain ⟨r, n, hreply⟩ := exists_replied d.digestUndone hroom hone hok
    cases hfound.symm.trans hreply.result
    obtain rfl : n = 0 := Nat.le_zero.mp hreply.le
    obtain ⟨es, hes, hnames, -, hlast⟩ := hreply.outcome
    have heof : resok.eof = false := by
      rw [← Bool.not_eq_true, hreply.eof]
      exact fun h => Bool.noConfusion h.1
    rw [hbegin, List.take_nil, List.map_nil, List.append_nil] at hnames
    rw [hok, hes, heof]
    refine .inr ⟨es, false, rfl, ?_⟩
    have hbehind : Variant.readdirplus3.dotNames 2 = [] := dotNames_eq_nil le_rfl
    apply advances_of_dots (hlast rfl (by omega)) (by omega) le_rfl (by decide)
    rw [hbehind, List.append_nil, hnames]
    rfl
  · obtain ⟨v, r, hpiece, -⟩ := exists_piece d.readable hpos
      (show cookie - 2 ≤ (flat d.dir.chunks).length by omega) (by omega)
    have hfound := hpiece.result
    rw [← hcache] at hfound
    obtain hsmall | ⟨resok, hok⟩ := nfs3Readdirplus_served mem hverf' hfound
    · rw [hsmall]
      exact .inl rfl
    obtain ⟨r', n, hreply⟩ := exists_replied d.digestUndone hroom hone hok
    cases hfound.symm.trans hreply.result
    obtain ⟨es, hes, hnames, hlast, -⟩ := hreply.outcome
    rw [hbegin] at hnames
    rw [hok, hes]
    refine .inr ⟨es, resok.eof, rfl, ?_⟩
    apply advances_of_piece hpiece hfit hreply.le hnames hlast hreply.eof.mp
    intro heof
    by_contra hn
    obtain rfl : n = 0 := by omega
    have hnil : r.found = [] := by
      by_contra hne
      exact hn (hreply.pos hne)
    have htrue := hreply.eof.mpr ⟨hpiece.eod_of_found_nil hpos hnil, by rw [hnil]; rfl⟩
    rw [heof] at htrue
    cases htrue

/-! ## NFSv4 -/

theorem reply4Entries_spec (maxcount endCookie i : ℕ) (hactive : ∀ x ∈ l, Active d.dir x.2) :
    ∃ es all n, reply4Entries d.toDir4 maxcount endCookie i l = .ok (es, all) ∧ n ≤ l.length ∧
      (namesOf es).map Prod.fst = (l.take n).map (fun x => x.2.name) ∧
      (0 < n → (namesOf es).getLast?.map Prod.snd = some (nextCookie endCookie (l.drop n))) ∧
      (all = true → n = l.length) ∧ (l ≠ [] → 0 < n) := by
  induction l generalizing i with
  | nil => exact ⟨[], true, 0, rfl, le_rfl, rfl, nofun, fun _ => rfl, fun h => absurd rfl h⟩
  | cons x rest ih =>
    obtain ⟨pentry, hlookup, hbuilt⟩ := d.lookups x.2 (hactive x (.head _))
    rw [reply4Entries, hlookup]
    dsimp only
    rw [if_neg (by rw [hbuilt]; nofun)]
    split
    · exact ⟨_, _, 1, rfl, Nat.succ_le_succ (Nat.zero_le _), rfl, fun _ => rfl, nofun,
        fun _ => Nat.zero_lt_one⟩
    obtain ⟨es, all, n, hrest, hn, hnames, hlast, hall, -⟩ :=
      ih (i + 1) fun y hy => hactive y (.tail _ hy)
    rw [hrest]
    refine ⟨_, _, n + 1, rfl, Nat.succ_le_succ hn, ?_, fun _ => ?_, fun h => ?_,
      fun _ => Nat.succ_pos n⟩
    · rw [List.take_succ_cons, List.map_cons, ← hnames]
      rfl
    · rw [List.drop_succ_cons]
      rcases Nat.eq_zero_or_pos n with rfl | hpos
      · have hnil : es = [] := by
          simpa [namesOf] using hnames
        rw [hnil]
        rfl
      · have hlast' := hlast hpos
        cases es with
        | nil => cases hlast'
        | cons e es => exact hlast'
    · rw [hall h, List.length_cons]

theorem nfs4OpReaddir_advances (maxcount : UInt32) (hfit : (flat d.dir.chunks).length + 2 < 2 ^ 32)
    (hcookie : cookie ≤ (flat d.dir.chunks).length + 2) (hvalid : cookie = 0 ∨ 3 ≤ cookie)
    (hverf : cookie ≠ 0 → cookieVerifier4 d.toDir4 = verf) :
    (nfs4OpReaddir d.toDir4 ⟨UInt64.ofNat cookie, verf, maxcount⟩).outcome = .tooSmall ∨
      ∃ es eof, (nfs4OpReaddir d.toDir4 ⟨UInt64.ofNat cookie, verf, maxcount⟩).outcome =
          .entries es eof (cookieVerifier4 d.toDir4) ∧
        Advances d .readdir4 cookie es eof := by
  rw [nfs4OpReaddir]
  dsimp only
  rw [toNat_cookie (by omega), if_neg (by omega)]
  have hcache : (if cookie ≠ 0 then cookie - 2 else cookie) = cookie - 2 := by
    split <;> omega
  rw [hcache]
  split
  · exact .inl rfl
  rename_i hest
  rw [if_neg]
  swap
  · rintro ⟨hne, -, hne'⟩
    exact hne' (hverf (by omega))
  have hpos : 0 < maxcount.toNat / sizeofEntry4 :=
    Nat.pos_of_ne_zero fun h => hest (.inr h)
  obtain ⟨v, r, hpiece, -⟩ := exists_piece d.readable hpos
    (show cookie - 2 ≤ (flat d.dir.chunks).length by omega) (by omega)
  have hasked := asked_of_readdir hpiece.result
  rw [hpiece.result]
  dsimp only
  by_cases hnil : r.found = []
  · rw [if_pos hnil]
    refine .inr ⟨[], true, rfl, ?_⟩
    refine advances_of_piece hpiece hfit (Nat.zero_le _) rfl nofun (fun _ => ?_) nofun
    rw [hnil]
    exact ⟨hpiece.eod_of_found_nil hpos hnil, rfl⟩
  rw [if_neg hnil]
  obtain ⟨es, all, n, hentries, hle, hnames, hlast, hall, hsome⟩ :=
    reply4Entries_spec (d := d) maxcount.toNat r.endCookie 0 fun x hx =>
      ⟨hasked.active x hx, hasked.slots x hx⟩
  rw [hentries]
  refine .inr ⟨namesOf es, r.eod && all, rfl, ?_⟩
  apply advances_of_piece hpiece hfit hle hnames hlast
  · intro heof
    rw [Bool.and_eq_true] at heof
    exact ⟨heof.1, hall heof.2⟩
  · exact fun _ => hsome hnil

/-! ## The whole listing -/

/-- A verifier that a reply has sent. -/
def Variant.Sent (variant : Variant) (d : Served Ctx Handle Attr) (verf : List UInt8) : Prop :=
  match variant with
  | .readdir2 | .readdir3 => verf = d.mtime ∨ verf = List.replicate nfs3CookieverfSize 0xFF
  | .readdirplus3 => verf = cookieVerifier d.toDirEnv
  | .readdir4 => verf = cookieVerifier4 d.toDir4

/-- What a client has while it lists. -/
structure Underway (d : Served Ctx Handle Attr) (variant : Variant) (received : List String)
    (cookie : ℕ) (verf : List UInt8) : Prop where
  split : received ++ variant.rest d cookie = variant.rest d 0
  inside : cookie ≤ (flat d.dir.chunks).length + 2
  valid : variant = .readdir4 → cookie = 0 ∨ 3 ≤ cookie
  sent : cookie ≠ 0 → variant.Sent d verf

theorem underway_zero (d : Served Ctx Handle Attr) (variant : Variant) (verf : List UInt8) :
    Underway d variant [] 0 verf where
  split := rfl
  inside := Nat.zero_le _
  valid _ := Or.inl rfl
  sent h := absurd rfl h

theorem call_advances (k : ℕ) (hfit : (flat d.dir.chunks).length + 2 < 2 ^ 32)
    (hunder : Underway d variant received cookie verf) (hmeets : Meets d variant cookie counts) :
    call d variant k cookie verf counts = .tooSmall ∨
      ∃ es eof verf', call d variant k cookie verf counts = .entries es eof verf' ∧
        variant.Sent d verf' ∧ Advances d variant cookie es eof := by
  cases variant with
  | readdir2 =>
    exact nfsReaddir_advances d.digestFileid2 hfit hunder.inside (fun _ => rfl) (by decide) nofun
  | readdir3 =>
    apply nfsReaddir_advances d.digestFileid hfit hunder.inside (fun _ => rfl) (by decide)
    intro _ hne huse
    obtain hoff | hzero | hall := hmeets
    · rw [hoff] at huse
      cases huse
    · exact absurd hzero hne
    · obtain h | h := hunder.sent hne
      · exact h.symm
      · rw [h, hall]
  | readdirplus3 =>
    obtain hsmall | ⟨es, eof, hcall, hadvances⟩ :=
      nfs3Readdirplus_advances (d.mem k) hfit hunder.inside hmeets
        fun hne => (hunder.sent hne).symm
    · exact .inl hsmall
    · exact .inr ⟨es, eof, _, hcall, rfl, hadvances⟩
  | readdir4 =>
    obtain hsmall | ⟨es, eof, hcall, hadvances⟩ :=
      nfs4OpReaddir_advances (d := d) counts.maxcount hfit hunder.inside
        (hunder.valid rfl) fun hne => (hunder.sent hne).symm
    · exact .inl hsmall
    · exact .inr ⟨es, eof, _, hcall, rfl, hadvances⟩

/-- What one call makes of what a client has. -/
inductive Moved (d : Served Ctx Handle Attr) (variant : Variant) (cookie : ℕ) :
    Progress → Prop where
  | refused : Moved d variant cookie .refused
  | done : Moved d variant cookie (.done (variant.rest d 0))
  | going {received : List String} {cookie' : ℕ} {verf : List UInt8} (hlt : cookie < cookie')
    (hunder : Underway d variant received cookie' verf) :
    Moved d variant cookie (.going received cookie' verf)

theorem moved_next (k : ℕ) (hfit : (flat d.dir.chunks).length + 2 < 2 ^ 32)
    (hunder : Underway d variant received cookie verf) (hmeets : Meets d variant cookie counts) :
    Moved d variant cookie
      ((Progress.going received cookie verf).next d variant k counts) := by
  rw [Progress.next]
  obtain hsmall | ⟨es, eof, verf', hcall, hsent, hadvances⟩ := call_advances k hfit hunder hmeets
  · rw [hsmall]
    exact .refused
  · rw [hcall]
    dsimp only
    cases eof with
    | true =>
      rw [if_pos rfl, hadvances.done rfl, hunder.split]
      exact .done
    | false =>
      obtain ⟨cookie', hlast, hlt, hle, hvalid, hrest⟩ := hadvances.going rfl
      rw [if_neg Bool.false_ne_true, hlast, Option.getD_some]
      refine .going hlt ⟨?_, hle, fun h => Or.inr (hvalid h), fun _ => hsent⟩
      rw [List.append_assoc, ← hrest, hunder.split]

theorem ends_of_underway {counts : ℕ → Counts} {first : List UInt8} (left : ℕ)
    (hfit : (flat d.dir.chunks).length + 2 < 2 ^ 32)
    (hmeets : ∀ k received cookie verf,
      runAt d variant counts first k = .going received cookie verf →
        Meets d variant cookie (counts k)) {k : ℕ}
    (hrun : runAt d variant counts first k = .going received cookie verf)
    (hunder : Underway d variant received cookie verf)
    (hleft : (flat d.dir.chunks).length + 2 < cookie + left) :
    ListsOnce d variant counts first := by
  induction left generalizing k received cookie verf with
  | zero =>
    have := hunder.inside
    omega
  | succ left ih =>
    have hmoved := moved_next k hfit hunder (hmeets k received cookie verf hrun)
    have hnext : runAt d variant counts first (k + 1) =
        (Progress.going received cookie verf).next d variant k (counts k) := by
      rw [runAt, hrun]
    rw [← hnext] at hmoved
    generalize hp : runAt d variant counts first (k + 1) = p at hmoved
    cases hmoved with
    | refused => exact ⟨k + 1, .inl hp⟩
    | done => exact ⟨k + 1, .inr ⟨_, hp, rest_zero d variant⟩⟩
    | going hlt hunder' =>
      apply ih hp hunder'
      omega

/-- **Every name is listed once, and the listing ends**, if all its calls are such that they can be
answered. -/
theorem listsOnce_of_meets (d : Served Ctx Handle Attr) (variant : Variant) (counts : ℕ → Counts)
    (verf : List UInt8) (hfit : (flat d.dir.chunks).length + 2 < 2 ^ 32)
    (hmeets : ∀ k received cookie verf',
      runAt d variant counts verf k = .going received cookie verf' →
        Meets d variant cookie (counts k)) :
    ListsOnce d variant counts verf :=
  ends_of_underway ((flat d.dir.chunks).length + 3) hfit hmeets (k := 0) rfl
    (underway_zero d variant verf) (by omega)

end

/-! ## A directory with one file -/

def oneFileSlot : Slot := ⟨true, some 2, "f"⟩

theorem active_oneFile {s : Slot} (hactive : Active oneFileDir s) : s = oneFileSlot := by
  obtain ⟨hs, c, hc, hslot⟩ := hactive
  obtain rfl := List.mem_singleton.mp hc
  obtain rfl | hrest := List.mem_cons.mp hslot
  · rfl
  · obtain rfl := List.eq_of_mem_replicate hrest
    cases hs

theorem nameAt_oneFile {p : ℕ × ℕ} {name : String} :
    oneFileDir.nameAt p = some name ↔ p = (0, 0) ∧ name = "f" := by
  constructor
  · obtain ⟨i, j⟩ := p
    intro h
    obtain ⟨s, hentry, rfl⟩ := nameAt_eq_some.mp h
    obtain ⟨c, hc, hs, hactive⟩ := entryAt_eq_some.mp hentry
    have hslot := active_oneFile ⟨hactive, c, List.mem_of_getElem? hc, List.mem_of_getElem? hs⟩
    refine ⟨?_, by rw [hslot]; rfl⟩
    cases i with
    | succ i => cases hc
    | zero =>
      cases hc
      cases j with
      | zero => rfl
      | succ j =>
        -- the other slots are not active
        obtain rfl := List.eq_of_mem_replicate (List.mem_of_getElem? hs)
        cases hactive
  · rintro ⟨rfl, rfl⟩
    rfl

/-- It, unchanged, as the protocols meet it. -/
def oneFileServed (useCookieVerifier : Bool) : Served Unit UInt64 Unit where
  toDirEnv := { oneFileEnv with useCookieVerifier := useCookieVerifier }
  modTime := List.replicate 8 0
  lookup name := if name = "f" then some 2 else none
  handleBuilt _ := true
  digestFileid2 h := h.toNat
  mem _ := zeroMem
  digestUndone := inodeFsal_digestUndone
  readable := .last ⟨rfl, fun h => absurd rfl h⟩ rfl
  nothingBehind := by
    intro i k c c' _ _ hlt hk
    have hlen := (List.getElem?_eq_some_iff.mp hk).1
    have hone : k < 1 := hlen
    omega
  names := {"f"}
  lists :=
    { mem_iff := fun name => by
        rw [Set.mem_singleton_iff]
        constructor
        · rintro rfl
          exact ⟨(0, 0), nameAt_oneFile.mpr ⟨rfl, rfl⟩⟩
        · rintro ⟨p, hp⟩
          exact (nameAt_oneFile.mp hp).2
      once := fun p q name hp hq => by
        rw [(nameAt_oneFile.mp hp).1, (nameAt_oneFile.mp hq).1] }
  parent := ⟨0, rfl⟩
  pentry s hactive := ⟨2, by rw [active_oneFile hactive]; rfl⟩
  handles pentry _ := ⟨UInt64.ofNat pentry, _, rfl, rfl⟩
  lookups s hactive := ⟨2, by rw [active_oneFile hactive]; rfl, rfl⟩

/-- **With room for two elements** in each call, the directory is listed in several calls. -/
theorem listsOnce_of_meets_oneFile :
    ListsOnce (oneFileServed true) .readdirplus3 (fun _ => ⟨304, 4096⟩) [] :=
  listsOnce_of_meets (oneFileServed true) .readdirplus3 (fun _ => ⟨304, 4096⟩) [] (by decide)
    fun _ _ _ _ _ => ⟨by decide, fun _ => by decide⟩

/-- **The second call** is refused: its verifier is the one that the first reply has sent. -/
theorem secondCall_not_listsOnce :
    ¬ ListsOnce (oneFileServed true) .readdir3 (fun _ => ⟨0, 64⟩) [] := by
  have hfirst : runAt (oneFileServed true) .readdir3 (fun _ => ⟨0, 64⟩) [] 1 =
      .going [".", ".."] 2 (List.replicate 8 0xFF) := rfl
  have hfailed : ∀ k, runAt (oneFileServed true) .readdir3 (fun _ => ⟨0, 64⟩) [] (k + 2) =
      .failed := by
    intro k
    induction k with
    | zero => rfl
    | succ k ih =>
      rw [show k + 1 + 2 = (k + 2) + 1 from rfl, runAt, ih]
      rfl
  rintro ⟨k, hrefused | ⟨received, hdone, -⟩⟩
  · match k with
    | 0 => cases hrefused
    | 1 => cases hfirst.symm.trans hrefused
    | k + 2 => cases (hfailed k).symm.trans hrefused
  · match k with
    | 0 => cases hdone
    | 1 => cases hfirst.symm.trans hdone
    | k + 2 => cases (hfailed k).symm.trans hdone

end CloudNfs.Readdir
