import CloudNfs.PseudoOps

/-!
# Listing a directory of the pseudo file system

A client lists a directory with one `READDIR` after the other, each with the cookie of the last
entry that it has received, until `eof` is `TRUE`. `nfs4_op_readdir_pseudo` goes on with the entry
that has the cookie, and not with the one behind it, and it is not at the end when the last entry
has filled the reply.

* `listed_iff` — every son is listed once exactly when all of them are in the first reply, and there
  is room for another.
-/

namespace CloudNfs.PseudoFs

open FileHandle DoublyLinked

/-- The calls of a client, which sends the cookie of the last entry and the verifier that it has
received. -/
def readAll (useCookieVerf : Bool) (cookieVerifier : List UInt8) (t : Tree) (data : CompoundData)
    (maxcount : UInt32) (attrRequest : List (BitVec 32)) :
    ℕ → ℕ → List UInt8 → Option (List Entry4)
  | 0, _, _ => none
  | fuel + 1, cookie, cookieverf =>
    match readdirPseudo useCookieVerf cookieVerifier t data
        ⟨cookie, cookieverf, maxcount, attrRequest⟩ with
    | .ok resok =>
      if resok.eof then some resok.entries
      else
        match resok.entries.getLast? with
        | none => none
        | some e =>
          (readAll useCookieVerf cookieVerifier t data maxcount attrRequest fuel e.cookie
            resok.cookieverf).map fun es => resok.entries ++ es
    | _ => none

/-- **The calls come to an end, with every son of the directory once.** -/
def ListsOnce (useCookieVerf : Bool) (cookieVerifier : List UInt8) (t : Tree) (data : CompoundData)
    (maxcount : UInt32) (attrRequest : List (BitVec 32)) (dir : ℕ) : Prop :=
  ∃ fuel cookieverf es, readAll useCookieVerf cookieVerifier t data maxcount attrRequest fuel 0
      cookieverf = some es ∧
    ∃ l, Chain (fun x => (t.entries x).next) (t.entries dir).sons l ∧
      es.Perm (l.map fun q => (t.entries q).entry4)

/-- The first word of `attr_request` can be read for so many entries. -/
def Readable (attrRequest : List (BitVec 32)) (n : ℕ) : Prop :=
  n = 0 ∨ attrRequest ≠ [] ∧
    (n = 1 ∨ Attributes.bitmap4ToList (requestBitmap attrRequest) ≠ [])

section

variable {t : Tree} {entries : ℕ → Entry} {first : Option ℕ} {l : List ℕ} {fuel room : ℕ}
  {attrRequest : List (BitVec 32)}

theorem seekCookie_eq {cookie : ℕ} (hchain : Chain (fun x => (entries x).next) first l)
    (hfuel : l.length ≤ fuel) : seekCookie entries cookie fuel first =
      l.find? fun q => decide ((entries q).pseudoId + 3 = cookie) := by
  induction l generalizing first fuel with
  | nil =>
    obtain rfl : first = none := hchain
    cases fuel <;> rfl
  | cons q l ih =>
    obtain ⟨rfl, hrest⟩ := hchain
    obtain ⟨n, rfl⟩ : ∃ n, fuel = n + 1 := ⟨fuel - 1, by rw [List.length_cons] at hfuel; omega⟩
    rw [seekCookie, List.find?_cons]
    by_cases hcookie : (entries q).pseudoId + 3 = cookie
    · rw [if_pos hcookie, decide_eq_true hcookie]
    · rw [if_neg hcookie, decide_eq_false hcookie]
      exact ih hrest (Nat.le_of_succ_le_succ hfuel)

theorem readable_succ {n : ℕ} : Readable attrRequest (n + 1) ↔
    attrRequest ≠ [] ∧ Readable (pseudoToFattr attrRequest) n := by
  rw [Readable, Readable, pseudoToFattr]
  by_cases hbits : Attributes.bitmap4ToList (requestBitmap attrRequest) = []
  · rw [if_pos hbits]
    simp [hbits]
  · rw [if_neg hbits]
    simp only [hbits, Nat.succ_ne_zero, ne_eq, not_false_eq_true, or_true, and_true, false_or]
    exact ⟨fun h => ⟨h, .inr h⟩, And.left⟩

/-- **A reply**: entries from the first on, as many as there is room for. The loop has gone through
the list if there is room for another. -/
theorem fillEntries_of_readable (hchain : Chain (fun x => (entries x).next) first l)
    (hfuel : l.length ≤ fuel) (hroom : 1 ≤ room)
    (hread : Readable attrRequest (min room l.length)) :
    ∃ stop, fillEntries entries room fuel attrRequest first =
        some ((l.take room).map fun q => (entries q).entry4, stop) ∧
      (stop.isNone = true ↔ l.length < room) := by
  induction l generalizing first fuel room attrRequest with
  | nil =>
    obtain rfl : first = none := hchain
    refine ⟨none, ?_, iff_of_true rfl hroom⟩
    rw [List.take_nil]
    cases fuel <;> rfl
  | cons q l ih =>
    obtain ⟨rfl, hrest⟩ := hchain
    obtain ⟨n, rfl⟩ : ∃ n, fuel = n + 1 := ⟨fuel - 1, by rw [List.length_cons] at hfuel; omega⟩
    obtain ⟨r, rfl⟩ : ∃ r, room = r + 1 := ⟨room - 1, by omega⟩
    rw [List.length_cons, Nat.succ_min_succ] at hread
    obtain ⟨hwords, hread⟩ := readable_succ.mp hread
    rw [fillEntries, if_neg hwords]
    by_cases hr : r = 0
    · subst hr
      refine ⟨some q, by rw [if_pos rfl]; rfl, iff_of_false nofun ?_⟩
      rw [List.length_cons]
      omega
    · rw [if_neg (by omega), Nat.add_sub_cancel]
      obtain ⟨stop, hfill, hstop⟩ := ih hrest (Nat.le_of_succ_le_succ hfuel)
        (Nat.one_le_iff_ne_zero.mpr hr) hread
      refine ⟨stop, ?_, ?_⟩
      · rw [hfill]
        rfl
      · rw [hstop, List.length_cons, Nat.succ_lt_succ_iff]

theorem fillEntries_of_not_readable (hchain : Chain (fun x => (entries x).next) first l)
    (hfuel : l.length ≤ fuel) (hroom : 1 ≤ room)
    (hread : ¬ Readable attrRequest (min room l.length)) :
    fillEntries entries room fuel attrRequest first = none := by
  induction l generalizing first fuel room attrRequest with
  | nil => exact absurd (.inl (Nat.min_zero room)) hread
  | cons q l ih =>
    obtain ⟨rfl, hrest⟩ := hchain
    obtain ⟨n, rfl⟩ : ∃ n, fuel = n + 1 := ⟨fuel - 1, by rw [List.length_cons] at hfuel; omega⟩
    obtain ⟨r, rfl⟩ : ∃ r, room = r + 1 := ⟨room - 1, by omega⟩
    rw [List.length_cons, Nat.succ_min_succ, readable_succ] at hread
    rw [fillEntries]
    by_cases hwords : attrRequest = []
    · exact if_pos hwords
    rw [if_neg hwords]
    have hrest' : ¬ Readable (pseudoToFattr attrRequest) (min r l.length) :=
      fun h => hread ⟨hwords, h⟩
    have hr : r ≠ 0 := by
      rintro rfl
      exact hrest' (.inl (Nat.zero_min _))
    rw [if_neg (by omega), Nat.add_sub_cancel,
      ih hrest (Nat.le_of_succ_le_succ hfuel) (Nat.one_le_iff_ne_zero.mpr hr) hrest']
    rfl

variable {q : ℕ} {es : List Entry4} {S : ℕ → List ℕ} {P : List (List Name)}

theorem head_of_fillEntries {stop : Option ℕ}
    (hfill : fillEntries entries room fuel attrRequest (some q) = some (es, stop))
    (hfuel : 1 ≤ fuel) : (entries q).entry4 ∈ es := by
  obtain ⟨n, rfl⟩ : ∃ n, fuel = n + 1 := ⟨fuel - 1, by omega⟩
  rw [fillEntries] at hfill
  split at hfill
  · cases hfill
  split at hfill
  · cases hfill
    exact .head _
  · obtain ⟨⟨es', stop'⟩, -, heq⟩ := Option.map_eq_some_iff.mp hfill
    cases heq
    exact .head _

variable {useCookieVerf : Bool} {cookieVerifier cookieverf : List UInt8} {data : CompoundData}
  {maxcount : UInt32} {dir cookie : ℕ}

theorem readdirPseudo_eq (hfh : fhandleToPseudo data.currentFH t = .entry dir)
    (hjunction : (t.entries dir).junctionExport = none) (hmax : sizeofEntry4 ≤ maxcount.toNat) :
    readdirPseudo useCookieVerf cookieVerifier t data
        ⟨cookie, cookieverf, maxcount, attrRequest⟩ =
      if useCookieVerf ∧ cookie ≠ 0 ∧ cookieVerifier ≠ cookieverf then .status .badCookie
      else
        match fillEntries t.entries (maxcount.toNat / sizeofEntry4) t.count attrRequest
            (if cookie ≠ 0 then seekCookie t.entries cookie t.count (t.entries dir).sons
              else (t.entries dir).sons) with
        | none => .overrun
        | some (es, iter') => .ok ⟨cookieVerifier, es, iter'.isNone⟩ := by
  have hest : 1 ≤ maxcount.toNat / sizeofEntry4 := (Nat.one_le_div_iff (by decide)).mpr hmax
  rw [readdirPseudo, if_neg (by dsimp only; omega), withPseudo, hfh]
  dsimp only
  split
  next junction hsome =>
    rw [hjunction] at hsome
    cases hsome
  · rfl

theorem readdirPseudo_first (hfh : fhandleToPseudo data.currentFH t = .entry dir)
    (hjunction : (t.entries dir).junctionExport = none) (hmax : sizeofEntry4 ≤ maxcount.toNat) :
    readdirPseudo useCookieVerf cookieVerifier t data ⟨0, cookieverf, maxcount, attrRequest⟩ =
      match fillEntries t.entries (maxcount.toNat / sizeofEntry4) t.count attrRequest
          (t.entries dir).sons with
      | none => .overrun
      | some (es, iter') => .ok ⟨cookieVerifier, es, iter'.isNone⟩ := by
  rw [readdirPseudo_eq hfh hjunction hmax, if_neg (fun h => h.2.1 rfl), if_neg (fun h => h rfl)]

theorem entry4_mem_readAll (hfh : fhandleToPseudo data.currentFH t = .entry dir)
    (hjunction : (t.entries dir).junctionExport = none) (hmax : sizeofEntry4 ≤ maxcount.toNat)
    (hseek : seekCookie t.entries (t.entries q).entry4.cookie t.count (t.entries dir).sons = some q)
    (hcount : 1 ≤ t.count)
    (hrun : readAll useCookieVerf cookieVerifier t data maxcount attrRequest fuel
      (t.entries q).entry4.cookie cookieverf = some es) : (t.entries q).entry4 ∈ es := by
  cases fuel with
  | zero => cases hrun
  | succ fuel =>
    have hne : (t.entries q).entry4.cookie ≠ 0 := Nat.succ_ne_zero _
    rw [readAll, readdirPseudo_eq hfh hjunction hmax, if_pos hne, hseek] at hrun
    split at hrun
    next resok hres =>
      have hmem : (t.entries q).entry4 ∈ resok.entries := by
        split at hres
        · cases hres
        split at hres
        · cases hres
        next es' iter' hfill =>
          rw [← OpResult.ok.inj hres]
          exact head_of_fillEntries hfill hcount
      split at hrun
      · rw [← Option.some.inj hrun]
        exact hmem
      split at hrun
      · cases hrun
      · obtain ⟨es', -, rfl⟩ := Option.map_eq_some_iff.mp hrun
        exact List.mem_append_left _ hmem
    next => cases hrun

theorem nodup_entry4 (h : Inv t S P) (hdir : dir < t.count) :
    ((S dir).map fun q => (t.entries q).entry4).Nodup := by
  apply List.Nodup.map_on _ (h.sonsNodup dir hdir)
  intro q hq q' hq' heq
  have hid := h.id q (h.lt_of_mem hdir hq)
  have hid' := h.id q' (h.lt_of_mem hdir hq')
  have hcookie : (t.entries q).pseudoId + 3 = (t.entries q').pseudoId + 3 :=
    congrArg Entry4.cookie heq
  omega

theorem seekCookie_son (h : Inv t S P) (hdir : dir < t.count) (hq : q ∈ S dir) :
    seekCookie t.entries (t.entries q).entry4.cookie t.count (t.entries dir).sons = some q := by
  rw [seekCookie_eq (h.chain dir hdir) (h.length_le hdir)]
  cases hres : (S dir).find? fun q' =>
      decide ((t.entries q').pseudoId + 3 = (t.entries q).entry4.cookie) with
  | none =>
    rw [List.find?_eq_none] at hres
    exact absurd (decide_eq_true rfl) (hres q hq)
  | some q' =>
    have hfound := List.find?_some hres
    have hcookie : (t.entries q').pseudoId + 3 = (t.entries q).pseudoId + 3 :=
      of_decide_eq_true hfound
    have hid := h.id q (h.lt_of_mem hdir hq)
    have hid' := h.id q' (h.lt_of_mem hdir (List.mem_of_find?_eq_some hres))
    congr 1
    omega

theorem not_listsOnce_of_outside (hfh : fhandleToPseudo data.currentFH t = .outside)
    (hmax : sizeofEntry4 ≤ maxcount.toNat) :
    ¬ ListsOnce useCookieVerf cookieVerifier t data maxcount attrRequest dir := by
  rintro ⟨fuel, cookieverf, es, hrun, -⟩
  have hest : 1 ≤ maxcount.toNat / sizeofEntry4 := (Nat.one_le_div_iff (by decide)).mpr hmax
  cases fuel with
  | zero => cases hrun
  | succ fuel =>
    rw [readAll, readdirPseudo, if_neg (by dsimp only; omega), withPseudo, hfh] at hrun
    cases hrun

section

variable {S : ℕ → List ℕ} {P : List (List Name)} (h : Inv t S P) (hdir : dir < t.count)
  (hfh : fhandleToPseudo data.currentFH t = .entry dir)
  (hjunction : (t.entries dir).junctionExport = none) (hmax : sizeofEntry4 ≤ maxcount.toNat)

include h hdir hfh hjunction hmax

theorem ListsOnce.fits
    (hlist : ListsOnce useCookieVerf cookieVerifier t data maxcount attrRequest dir) :
    (S dir).length < maxcount.toNat / sizeofEntry4 ∧ Readable attrRequest (S dir).length := by
  have hest : 1 ≤ maxcount.toNat / sizeofEntry4 := (Nat.one_le_div_iff (by decide)).mpr hmax
  have hchain := h.chain dir hdir
  have hlen := h.length_le hdir
  obtain ⟨fuel, cookieverf, es, hall, l, hl, hperm⟩ := hlist
  obtain rfl : l = S dir := hl.eq hchain
  cases fuel with
  | zero => cases hall
  | succ fuel =>
    rw [readAll, readdirPseudo_first hfh hjunction hmax] at hall
    by_cases hread : Readable attrRequest (min (maxcount.toNat / sizeofEntry4) (S dir).length)
    · obtain ⟨stop, hfill, hstop⟩ := fillEntries_of_readable hchain hlen hest hread
      rw [hfill] at hall
      dsimp only at hall
      by_cases hlt : (S dir).length < maxcount.toNat / sizeofEntry4
      · rw [Nat.min_eq_right (Nat.le_of_lt hlt)] at hread
        exact ⟨hlt, hread⟩
      -- the last entry of the first reply comes again
      exfalso
      have hle := Nat.not_lt.mp hlt
      have htake : (S dir).take (maxcount.toNat / sizeofEntry4) ≠ [] := by
        rw [← List.length_pos_iff, List.length_take]
        omega
      rw [if_neg (fun hnone => hlt (hstop.mp hnone)), List.getLast?_map,
        List.getLast?_eq_some_getLast htake] at hall
      obtain ⟨es', hrest, rfl⟩ := Option.map_eq_some_iff.mp hall
      have hmem := List.getLast_mem htake
      have hson := List.mem_of_mem_take hmem
      have hagain := entry4_mem_readAll hfh hjunction hmax (seekCookie_son h hdir hson)
        (Nat.one_le_of_lt hdir) hrest
      have hnodup := hperm.nodup_iff.mpr (nodup_entry4 h hdir)
      exact (List.nodup_append.mp hnodup).2.2 _ (List.mem_map_of_mem hmem) _ hagain rfl
    · rw [fillEntries_of_not_readable hchain hlen hest hread] at hall
      cases hall

theorem ListsOnce.of_fits (hlt : (S dir).length < maxcount.toNat / sizeofEntry4)
    (hread : Readable attrRequest (S dir).length) :
    ListsOnce useCookieVerf cookieVerifier t data maxcount attrRequest dir := by
  have hest : 1 ≤ maxcount.toNat / sizeofEntry4 := (Nat.one_le_div_iff (by decide)).mpr hmax
  have hchain := h.chain dir hdir
  rw [← Nat.min_eq_right (Nat.le_of_lt hlt)] at hread
  obtain ⟨stop, hfill, hstop⟩ := fillEntries_of_readable hchain (h.length_le hdir) hest hread
  refine ⟨1, cookieVerifier, (S dir).map fun q => (t.entries q).entry4, ?_, S dir, hchain, .rfl⟩
  rw [readAll, readdirPseudo_first hfh hjunction hmax, hfill]
  dsimp only
  rw [if_pos (hstop.mpr hlt), List.take_of_length_le (Nat.le_of_lt hlt)]

end

end

/-- **Every son is listed once** exactly when there is an export, the first reply has room for more
entries than there are, and the loop does not read the first word of `attr_request` where there is
none. -/
theorem listed_iff {fuel : ℕ} {exports : List Export} {t : Tree}
    (hrun : exportToPseudoFs fuel exports = .done t) {dir : ℕ} (hdir : dir < t.count)
    (hjunction : (t.entries dir).junctionExport = none) {sons : List ℕ}
    (hsons : Chain (fun x => (t.entries x).next) (t.entries dir).sons sons)
    (useCookieVerf : Bool) (cookieVerifier : List UInt8) {data : CompoundData} {buf : NfsFh4}
    (hdata : data.currentFH = pseudoToFhandle buf (t.entries dir)) {maxcount : UInt32}
    (hmax : sizeofEntry4 ≤ maxcount.toNat) (attrRequest : List (BitVec 32)) :
    ListsOnce useCookieVerf cookieVerifier t data maxcount attrRequest dir ↔
      exports ≠ [] ∧ sons.length < maxcount.toNat / sizeofEntry4 ∧
        Readable attrRequest sons.length := by
  by_cases hne : exports = []
  · subst hne
    obtain rfl := exportToPseudoFs_nil hrun
    refine iff_of_false (not_listsOnce_of_outside ?_ hmax) fun h => h.1 rfl
    rw [hdata, fhandleToPseudo_emptyTree]
  obtain ⟨S, P, h, -, -⟩ := Inv.exportToPseudoFs hrun
  have hfh : fhandleToPseudo data.currentFH t = .entry dir := by
    rw [hdata]
    exact (filled hrun hne).roundTrip dir hdir buf
  obtain rfl : sons = S dir := hsons.eq (h.chain dir hdir)
  constructor
  · exact fun hlist => ⟨hne, hlist.fits h hdir hfh hjunction hmax⟩
  · exact fun ⟨_, hlt, hread⟩ => .of_fits h hdir hfh hjunction hmax hlt hread

/-- The path `/b`. -/
def exportB : Export := ⟨true, [47, 98]⟩

/-- For a directory with two sons. -/
theorem listed_iff_twoExports : ∃ t, exportToPseudoFs 2 [exportA, exportB] = .done t ∧
    ListsOnce false [] t { noHandles with currentFH := pseudoToFhandle ⟨0, 0, 0, []⟩ (t.entries 0) }
      192 [1] 0 := by
  refine ⟨_, rfl, ?_⟩
  apply (@listed_iff 2 [exportA, exportB] _ rfl 0 (by decide) rfl [1, 2] ⟨rfl, rfl, rfl⟩ false [] _
    ⟨0, 0, 0, []⟩ rfl 192 (by decide) [1]).mpr
  exact ⟨List.cons_ne_nil _ _, by decide, Or.inr ⟨List.cons_ne_nil _ _, Or.inr (by decide)⟩⟩

/-- **A reply that the son fills** is not the last one, and is sent for ever. -/
theorem exactFill_not_listsOnce : ∃ t, exportToPseudoFs 1 [exportA] = .done t ∧
    ¬ ListsOnce false [] t
      { noHandles with currentFH := pseudoToFhandle ⟨0, 0, 0, []⟩ (t.entries 0) } 64 [1] 0 := by
  refine ⟨_, rfl, fun hlist => ?_⟩
  obtain ⟨S, P, h, -, -⟩ := @Inv.exportToPseudoFs _ [exportA] 1 rfl
  have hsons : S 0 = [1] := (h.chain 0 (by decide)).eq ⟨rfl, rfl⟩
  have hlt := (hlist.fits h (by decide) rfl rfl (by decide)).1
  rw [hsons] at hlt
  exact absurd hlt (by decide)

end CloudNfs.PseudoFs
