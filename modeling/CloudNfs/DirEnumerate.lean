import CloudNfs.DirChain

/-!
# Reading a cached directory in pieces

`cache_inode_readdir` returns some entries of a cached directory, from a cookie on, and
the cookie to go on from. A cookie is the position of a slot in the chain: sixteen times
the index of its chunk, and its index there, as an `unsigned int`.

* The chunk of a cookie is found by a walk along the chain, which compares the cookie
  with sixteen times `dir_cont_pos`.
* The slots are then visited one by one, over the chunks, until enough entries are found
  or the end of the directory is reached.
* Between two calls entries may come, go and get other names; slots never move.

What the calls see is `flat`, the slots up to the end of the directory, in one list. The
32 bits of a cookie suffice as long as there are no more than `2 ^ 28` chunks.
-/

namespace CloudNfs

namespace DirChain

/-! ### The code -/

/-- What `cache_inode_readdir` returns: the entries with their cookies (`dirent_array` and
`cookie_array`), `*pend_cookie`, and whether `*peod_met` is `END_OF_DIR`. -/
structure ReaddirResult where
  /-- the entries found, with their cookies -/
  found : List (ℕ × Slot)
  endCookie : ℕ
  /-- the end of the directory was met -/
  eod : Bool

/-- The loop that locates the chunk of a cookie; `first` is the cookie of the first slot of the
chunk at the head. `none` inside is the end of the directory, met too early. -/
def locate (cookie first : ℕ) : List Chunk → Option (Option (List Chunk))
  | [] => none
  | c :: cs =>
    if (cookie + 2 ^ 32 - first) % 2 ^ 32 ≥ childrenArraySize then
      if c.endOfDir then some none
      else locate cookie ((cs.headD c).dirContPos * childrenArraySize % 2 ^ 32) cs
    else some (some (c :: cs))

/-- The slots of one chunk are visited: the entries found, how many are still wanted, and the
cookie of the next slot. -/
def readSlots : ℕ → ℕ → List Slot → List (ℕ × Slot) × ℕ × ℕ
  | left, cookie, [] => ([], left, cookie)
  | 0, cookie, _ :: _ => ([], 0, cookie)
  | left + 1, cookie, s :: ss =>
    if s.active then
      let r := readSlots left ((cookie + 1) % 2 ^ 32) ss
      ((cookie, s) :: r.1, r.2)
    else readSlots (left + 1) ((cookie + 1) % 2 ^ 32) ss

/-- The loop over the slots, from a cookie within the chunk at the head. Between two chunks the end
of the directory is looked for before the number of entries. -/
def readChunks (left cookie : ℕ) : List Chunk → Option ReaddirResult
  | [] => none
  | c :: cs =>
    match readSlots left cookie (c.slots.drop (cookie % childrenArraySize)) with
    | (found, left', cookie') =>
      if cookie' % childrenArraySize = 0 then
        if c.endOfDir then some ⟨found, cookie', true⟩
        else if left' = 0 then some ⟨found, cookie', false⟩
        else (readChunks left' cookie' cs).map fun r => { r with found := found ++ r.found }
      else some ⟨found, cookie', false⟩

/-- `cache_inode_readdir` of a directory that has been read. -/
def cacheInodeReaddir (d : Dir) (cookie nbwanted : ℕ) : Option ReaddirResult :=
  if nbwanted = 0 then some ⟨[], cookie, false⟩
  else
    match locate cookie 0 d.chunks with
    | none => none
    | some none => some ⟨[], cookie, true⟩
    | some (some cs) => readChunks nbwanted cookie cs

/-! ### The slots of a directory -/

/-- The slots up to the end of the directory. -/
def flat : List Chunk → List Slot
  | [] => []
  | c :: cs => if c.endOfDir then c.slots else c.slots ++ flat cs

/-- The active slots of a list, with their positions from `p` on. -/
def listing (p : ℕ) : List Slot → List (ℕ × Slot)
  | [] => []
  | s :: ss => if s.active then (p, s) :: listing (p + 1) ss else listing (p + 1) ss

theorem listing_append (p : ℕ) (ss ts : List Slot) :
    listing p (ss ++ ts) = listing p ss ++ listing (p + ss.length) ts := by
  induction ss generalizing p with
  | nil => simp [listing]
  | cons s ss ih =>
    simp only [List.cons_append, listing, List.length_cons, ih]
    split <;> simp [Nat.add_assoc, Nat.add_comm 1]

variable {ss : List Slot} {k cookie n left i m : ℕ} {cs : List Chunk} {c : Chunk} {d d' : Dir}
  {f : Chunk → Chunk} {name : Option String}

variable {p q v first : ℕ} {s : Slot} {rest : List Slot} {valid : ℕ → Bool} {call : Call}
  {calls : List Call}

theorem mem_listing :
    (q, s) ∈ listing p ss ↔ ∃ n, q = p + n ∧ ss[n]? = some s ∧ s.active = true := by
  induction ss generalizing p with
  | nil => simp [listing]
  | cons t ts ih =>
    have htail : (q, s) ∈ listing (p + 1) ts ↔
        ∃ n, q = p + (n + 1) ∧ (t :: ts)[n + 1]? = some s ∧ s.active = true := by
      rw [ih]
      refine exists_congr fun n => ?_
      rw [show p + 1 + n = p + (n + 1) by omega]
      simp
    have hhead : (q = p ∧ s = t ∧ t.active = true) ↔
        (q = p + 0 ∧ (t :: ts)[0]? = some s ∧ s.active = true) := by
      constructor
      · rintro ⟨rfl, rfl, h⟩
        exact ⟨rfl, rfl, h⟩
      · rintro ⟨rfl, h, hact⟩
        obtain rfl : t = s := by simpa using h
        exact ⟨rfl, rfl, hact⟩
    have hsplit : (∃ n, q = p + n ∧ (t :: ts)[n]? = some s ∧ s.active = true) ↔
        (q = p ∧ s = t ∧ t.active = true) ∨ (q, s) ∈ listing (p + 1) ts := by
      rw [htail, hhead]
      constructor
      · rintro ⟨n, h⟩
        cases n with
        | zero => exact .inl h
        | succ n => exact .inr ⟨n, h⟩
      · rintro (h | ⟨n, h⟩)
        · exact ⟨0, h⟩
        · exact ⟨n + 1, h⟩
    rw [hsplit]
    simp only [listing]
    split
    · next hact => simp [hact]
    · next hact => simp [hact]

theorem listing_pairwise (p : ℕ) (ss : List Slot) :
    (listing p ss).Pairwise fun x y => x.1 < y.1 := by
  induction ss generalizing p with
  | nil => exact List.Pairwise.nil
  | cons s ss ih =>
    simp only [listing]
    split
    · refine List.pairwise_cons.mpr ⟨fun x hx => ?_, ih (p + 1)⟩
      obtain ⟨n, hn, -⟩ := mem_listing.mp hx
      simp only at hn ⊢
      omega
    · exact ih (p + 1)

theorem mem_listing_segment :
    (q, s) ∈ listing p ((ss.drop p).take v) ↔
      p ≤ q ∧ q < p + v ∧ ss[q]? = some s ∧ s.active = true := by
  rw [mem_listing]
  constructor
  · rintro ⟨n, rfl, hs, hact⟩
    have hn : n < v := by
      by_contra hge
      rw [List.getElem?_take_eq_none (by omega)] at hs
      cases hs
    rw [List.getElem?_take_of_lt hn, List.getElem?_drop] at hs
    exact ⟨Nat.le_add_right p n, by omega, hs, hact⟩
  · rintro ⟨hle, hlt, hs, hact⟩
    refine ⟨q - p, by omega, ?_, hact⟩
    rw [List.getElem?_take_of_lt (by omega), List.getElem?_drop]
    rwa [show p + (q - p) = q by omega]

/-- **Visiting slots**: some first slots are visited, all of them unless enough entries are found
before. -/
theorem readSlots_spec (left cookie : ℕ) (ss : List Slot) (hc : cookie + ss.length ≤ 2 ^ 32)
    (hlt : cookie < 2 ^ 32) :
    ∃ v, v ≤ ss.length ∧ (readSlots left cookie ss).1 = listing cookie (ss.take v) ∧
      (readSlots left cookie ss).2.2 = (cookie + v) % 2 ^ 32 ∧
      ((readSlots left cookie ss).2.1 = 0 ∨ v = ss.length) ∧
      (0 < left → ss ≠ [] → 0 < v) := by
  induction ss generalizing left cookie with
  | nil =>
    have hmod : cookie = cookie % 2 ^ 32 := (Nat.mod_eq_of_lt hlt).symm
    exact ⟨0, Nat.le_refl _, by simp [readSlots, listing], hmod, .inr rfl,
      fun _ h => absurd rfl h⟩
  | cons s ss ih =>
    rw [List.length_cons] at hc
    cases left with
    | zero =>
      have hmod : cookie = cookie % 2 ^ 32 := (Nat.mod_eq_of_lt hlt).symm
      exact ⟨0, Nat.zero_le _, by simp [readSlots, listing], hmod, .inl rfl,
        fun h => absurd h (lt_irrefl 0)⟩
    | succ left =>
      by_cases hnil : ss = []
      · subst hnil
        refine ⟨1, Nat.le_refl _, ?_, ?_, .inr rfl, fun _ _ => Nat.zero_lt_one⟩
        · simp only [readSlots, listing, List.take_succ_cons, List.take_zero]
          split <;> rfl
        · simp only [readSlots]
          split <;> rfl
      have hlen : 0 < ss.length := List.length_pos_iff.mpr hnil
      have hmod : (cookie + 1) % 2 ^ 32 = cookie + 1 := Nat.mod_eq_of_lt (by omega)
      simp only [readSlots, hmod]
      split
      · next hact =>
        obtain ⟨v, hv, h1, h2, h3, -⟩ := ih left (cookie + 1) (by omega) (by omega)
        refine ⟨v + 1, by simp [hv], ?_, ?_, ?_, fun _ _ => Nat.succ_pos v⟩
        · simp [listing, hact, h1]
        · rw [h2, show cookie + 1 + v = cookie + (v + 1) by omega]
        · exact h3.imp_right fun h => by simp [h]
      · next hact =>
        obtain ⟨v, hv, h1, h2, h3, -⟩ := ih (left + 1) (cookie + 1) (by omega) (by omega)
        refine ⟨v + 1, by simp [hv], ?_, ?_, ?_, fun _ _ => Nat.succ_pos v⟩
        · simp [listing, hact, h1]
        · rw [h2, show cookie + 1 + v = cookie + (v + 1) by omega]
        · exact h3.imp_right fun h => by simp [h]

/-! ### The chunks of a chain -/

/-- What a readdir needs of the chunk of index `k`. -/
structure ChunkAt (k : ℕ) (c : Chunk) : Prop where
  length : c.slots.length = childrenArraySize
  /-- a `DIR_CONTINUE` has its index -/
  pos : k ≠ 0 → c.dirContPos = k % 2 ^ 32

/-- A chain from the chunk of index `k` on, the last of which is an end of the directory. -/
inductive Readable : ℕ → List Chunk → Prop
  | last {k : ℕ} {c : Chunk} (hc : ChunkAt k c) (hend : c.endOfDir = true) : Readable k [c]
  | cons {k : ℕ} {c : Chunk} {cs : List Chunk} (hc : ChunkAt k c) (hcs : Readable (k + 1) cs) :
    Readable k (c :: cs)

theorem Readable.flat_pos (h : Readable k cs) : childrenArraySize ≤ (flat cs).length := by
  cases h with
  | last hc hend => simp [flat, hend, hc.length]
  | cons hc hcs =>
    simp only [flat]
    split
    · exact hc.length.ge
    · rw [List.length_append, hc.length]
      exact Nat.le_add_right _ _

theorem cookie_mod_iff (hn : n = 16 - cookie % 16) (hv : v ≤ n) (hpos : 0 < v) :
    (cookie + v) % 2 ^ 32 % 16 = 0 ↔ v = n := by
  rw [Nat.mod_mod_of_dvd _ (by decide : 16 ∣ 2 ^ 32)]
  omega

theorem readChunks_head (cs : List Chunk) (hss : ss = c.slots.drop (cookie % childrenArraySize))
    (hc : c.slots.length = childrenArraySize) (hleft : 0 < left) (hlt : cookie < 2 ^ 32)
    (hfit : cookie + ss.length ≤ 2 ^ 32) :
    ∃ v left', 0 < v ∧ v ≤ ss.length ∧
      readChunks left cookie (c :: cs) =
        if v = ss.length then
          if c.endOfDir then some ⟨listing cookie (ss.take v), (cookie + v) % 2 ^ 32, true⟩
          else if left' = 0 then some ⟨listing cookie (ss.take v), (cookie + v) % 2 ^ 32, false⟩
          else (readChunks left' ((cookie + v) % 2 ^ 32) cs).map fun r =>
            { r with found := listing cookie (ss.take v) ++ r.found }
        else some ⟨listing cookie (ss.take v), (cookie + v) % 2 ^ 32, false⟩ := by
  have hlen : ss.length = 16 - cookie % 16 := by
    rw [hss, List.length_drop, hc]
    rfl
  have hne : ss ≠ [] := by
    intro hnil
    rw [hnil, List.length_nil] at hlen
    omega
  obtain ⟨v, hv, hfound, hcookie, -, hpos⟩ := readSlots_spec left cookie ss hfit hlt
  have hvpos := hpos hleft hne
  have hiff : (cookie + v) % 2 ^ 32 % childrenArraySize = 0 ↔ v = ss.length :=
    cookie_mod_iff hlen hv hvpos
  refine ⟨v, (readSlots left cookie ss).2.1, hvpos, hv, ?_⟩
  simp only [readChunks, ← hss, hfound, hcookie, hiff]

theorem readChunks_end (cs : List Chunk) (hrest : rest = c.slots.drop (cookie % childrenArraySize))
    (hc : c.slots.length = childrenArraySize) (hend : c.endOfDir = true) (hleft : 0 < left)
    (hlt : cookie < 2 ^ 32) (hfit : cookie + rest.length ≤ 2 ^ 32) :
    ∃ v r, readChunks left cookie (c :: cs) = some r ∧ 0 < v ∧ v ≤ rest.length ∧
      r.found = listing cookie (rest.take v) ∧ r.endCookie = (cookie + v) % 2 ^ 32 ∧
      (r.eod = true ↔ v = rest.length) := by
  obtain ⟨v, left', hpos, hv, heq⟩ := readChunks_head cs hrest hc hleft hlt hfit
  rw [heq]
  by_cases hvl : v = rest.length
  · rw [if_pos hvl, if_pos hend]
    exact ⟨v, _, rfl, hpos, hv, rfl, rfl, by simp [hvl]⟩
  · rw [if_neg hvl]
    exact ⟨v, _, rfl, hpos, hv, rfl, rfl, by simp [hvl]⟩

/-- **Reading chunks**: some first slots are visited, and they are all of them exactly when the end
of the directory is met. -/
theorem readChunks_spec (h : Readable k cs) (hleft : 0 < left) (hlt : cookie < 2 ^ 32)
    (hrest : rest = (flat cs).drop (cookie % childrenArraySize))
    (hfit : cookie + rest.length ≤ 2 ^ 32) :
    ∃ v r, readChunks left cookie cs = some r ∧ 0 < v ∧ v ≤ rest.length ∧
      r.found = listing cookie (rest.take v) ∧ r.endCookie = (cookie + v) % 2 ^ 32 ∧
      (r.eod = true ↔ v = rest.length) := by
  induction h generalizing left cookie rest with
  | @last k c hc hend =>
    have hflat : flat [c] = c.slots := by simp [flat, hend]
    rw [hflat] at hrest
    exact readChunks_end [] hrest hc.length hend hleft hlt hfit
  | @cons k c cs hc hcs ih =>
    have hmod : cookie % childrenArraySize ≤ c.slots.length := by
      rw [hc.length]
      exact (Nat.mod_lt _ (by decide)).le
    by_cases hend : c.endOfDir = true
    · -- nothing behind this chunk is read
      have hflat : flat (c :: cs) = c.slots := by simp [flat, hend]
      rw [hflat] at hrest
      exact readChunks_end cs hrest hc.length hend hleft hlt hfit
    have hflat : flat (c :: cs) = c.slots ++ flat cs := by simp [flat, hend]
    rw [hflat, List.drop_append_of_le_length hmod] at hrest
    obtain ⟨ss, hss⟩ : ∃ ss, ss = c.slots.drop (cookie % childrenArraySize) := ⟨_, rfl⟩
    rw [← hss] at hrest
    have hbehind := hcs.flat_pos
    have hsize : childrenArraySize = 16 := rfl
    have hlen : rest.length = ss.length + (flat cs).length := by
      rw [hrest, List.length_append]
    obtain ⟨v, left', hpos, hv, heq⟩ :=
      readChunks_head cs hss hc.length hleft hlt (by omega)
    rw [heq]
    have htake : rest.take v = ss.take v := by
      rw [hrest, List.take_append_of_le_length hv]
    have hmore : v ≠ rest.length := by omega
    by_cases hvl : v = ss.length
    · rw [if_pos hvl, if_neg hend]
      by_cases hl : left' = 0
      · rw [if_pos hl]
        exact ⟨v, _, rfl, hpos, by omega, by rw [htake], rfl, by simp [hmore]⟩
      -- the next chunk is read from its first slot on
      rw [if_neg hl]
      have hcookie : (cookie + v) % 2 ^ 32 = cookie + v := Nat.mod_eq_of_lt (by omega)
      have hlen' : ss.length = 16 - cookie % 16 := by
        rw [hss, List.length_drop, hc.length]
        rfl
      have hzero : (cookie + v) % childrenArraySize = 0 := by
        rw [hsize]
        omega
      obtain ⟨v', r, hr, hpos', hv', hfound, hend', heod⟩ := ih (Nat.pos_of_ne_zero hl)
        (show cookie + v < 2 ^ 32 by omega) rfl (by
          rw [hzero, List.drop_zero]
          omega)
      rw [hzero, List.drop_zero] at hv' hfound heod
      rw [hcookie, hr]
      have htake' : rest.take (v + v') = ss.take v ++ (flat cs).take v' := by
        rw [hrest, hvl, List.take_length_add_append, List.take_length]
      refine ⟨v + v', _, rfl, by omega, by omega, ?_, ?_, ?_⟩
      · rw [htake', listing_append, hvl, List.take_length]
        simp only [hfound, hvl]
      · simp only [hend', Nat.add_assoc]
      · simp only [heod]
        omega
    · rw [if_neg hvl]
      exact ⟨v, _, rfl, hpos, by omega, by rw [htake], rfl, by simp [hmore]⟩

theorem cookie_sub (hfirst : first ≤ cookie) (hlt : cookie < 2 ^ 32) :
    (cookie + 2 ^ 32 - first) % 2 ^ 32 = cookie - first := by
  rw [show cookie + 2 ^ 32 - first = (cookie - first) + 2 ^ 32 by omega, Nat.add_mod_right]
  exact Nat.mod_eq_of_lt (by omega)

theorem locate_here (cs : List Chunk) (hfirst : first ≤ cookie) (hlt : cookie < 2 ^ 32)
    (hin : cookie - first < childrenArraySize) :
    locate cookie first (c :: cs) = some (some (c :: cs)) := by
  simp only [locate, cookie_sub hfirst hlt]
  rw [if_neg (by omega)]

theorem locate_spec (h : Readable k cs) (hfirst : k * childrenArraySize ≤ cookie)
    (hlt : cookie < 2 ^ 32) (hin : cookie - k * childrenArraySize < (flat cs).length) :
    ∃ k' cs', locate cookie (k * childrenArraySize) cs = some (some cs') ∧ Readable k' cs' ∧
      (flat cs').drop (cookie % childrenArraySize) =
        (flat cs).drop (cookie - k * childrenArraySize) := by
  have hmod : ∀ k, k * childrenArraySize ≤ cookie →
      cookie - k * childrenArraySize < childrenArraySize →
      cookie % childrenArraySize = cookie - k * childrenArraySize := by
    intro k hk hin
    have hsplit : cookie = (cookie - k * childrenArraySize) + childrenArraySize * k := by
      rw [Nat.mul_comm childrenArraySize k]
      omega
    conv_lhs => rw [hsplit, Nat.add_mul_mod_self_left]
    exact Nat.mod_eq_of_lt hin
  induction h with
  | @last k c hc hend =>
    have hflat : flat [c] = c.slots := by simp [flat, hend]
    rw [hflat, hc.length] at hin
    exact ⟨k, [c], locate_here [] hfirst hlt hin, .last hc hend, by rw [hmod k hfirst hin]⟩
  | @cons k c cs hc hcs ih =>
    by_cases hin' : cookie - k * childrenArraySize < childrenArraySize
    · exact ⟨k, c :: cs, locate_here cs hfirst hlt hin', .cons hc hcs, by
        rw [hmod k hfirst hin']⟩
    have hend : ¬ c.endOfDir = true := by
      intro hend
      have hflat : flat (c :: cs) = c.slots := by simp [flat, hend]
      rw [hflat, hc.length] at hin
      exact hin' hin
    have hflat : flat (c :: cs) = c.slots ++ flat cs := by simp [flat, hend]
    rw [hflat, List.length_append, hc.length] at hin
    have hsucc : (k + 1) * childrenArraySize = k * childrenArraySize + childrenArraySize :=
      Nat.succ_mul k childrenArraySize
    -- the next chunk knows its index
    have hnext : (cs.headD c).dirContPos = (k + 1) % 2 ^ 32 := by
      cases hcs with
      | last hc' _ => exact hc'.pos (Nat.succ_ne_zero k)
      | cons hc' _ => exact hc'.pos (Nat.succ_ne_zero k)
    have hfirst' : (k + 1) * childrenArraySize % 2 ^ 32 = (k + 1) * childrenArraySize :=
      Nat.mod_eq_of_lt (by omega)
    obtain ⟨k', cs', hloc, hcs', hdrop⟩ := ih (by omega) (by omega)
    refine ⟨k', cs', ?_, hcs', ?_⟩
    · simp only [locate, cookie_sub hfirst hlt]
      rw [if_pos (by omega), if_neg hend, hnext, Nat.mod_mul_mod, hfirst']
      exact hloc
    · have hle : c.slots.length ≤ cookie - k * childrenArraySize := by
        rw [hc.length]
        omega
      rw [hdrop, hflat, List.drop_append, List.drop_eq_nil_of_le hle, List.nil_append,
        hc.length, hsucc, Nat.sub_sub]

/-- **Reading**: from a cookie before the end of the directory, some slots are visited, at least
one, and they are all that remain exactly when the end of the directory is met. -/
theorem cacheInodeReaddir_spec {wanted : ℕ} (h : Readable 0 d.chunks) (hwanted : 0 < wanted)
    (hin : cookie < (flat d.chunks).length) (hfit : (flat d.chunks).length ≤ 2 ^ 32) :
    ∃ v r, cacheInodeReaddir d cookie wanted = some r ∧ 0 < v ∧
      cookie + v ≤ (flat d.chunks).length ∧
      r.found = listing cookie (((flat d.chunks).drop cookie).take v) ∧
      (r.eod = true ↔ cookie + v = (flat d.chunks).length) ∧
      (r.eod = false → r.endCookie = cookie + v) := by
  have hfirst : 0 * childrenArraySize = 0 := Nat.zero_mul _
  obtain ⟨k', cs, hloc, hcs, hdrop⟩ := locate_spec h (by omega) (by omega : cookie < 2 ^ 32)
    (by omega)
  rw [hfirst] at hloc hdrop
  rw [Nat.sub_zero] at hdrop
  have hlen : ((flat d.chunks).drop cookie).length = (flat d.chunks).length - cookie :=
    List.length_drop
  obtain ⟨v, r, hr, hpos, hv, hfound, hcookie, heod⟩ :=
    readChunks_spec hcs hwanted (by omega) hdrop.symm (by omega)
  refine ⟨v, r, ?_, hpos, by omega, hfound, ?_, ?_⟩
  · unfold cacheInodeReaddir
    rw [if_neg (by omega), hloc]
    exact hr
  · rw [heod]
    omega
  · intro hnot
    have hne : v ≠ ((flat d.chunks).drop cookie).length := by
      rw [Ne, ← heod, hnot]
      exact Bool.false_ne_true
    rw [hcookie]
    exact Nat.mod_eq_of_lt (by omega)

/-! ### Changes keep the chain, and its slots in their places -/

theorem Readable.modify (h : Readable k cs) (hlen : ∀ c, (f c).slots.length = c.slots.length)
    (hpos : ∀ c, (f c).dirContPos = c.dirContPos)
    (hend : (∀ c, c.endOfDir = true → (f c).endOfDir = true) ∨ i + 1 < cs.length) :
    Readable k (cs.modify i f) := by
  have hat : ∀ {k c}, ChunkAt k c → ChunkAt k (f c) := fun {k c} hc =>
    ⟨(hlen c).trans hc.length, fun hk => (hpos c).trans (hc.pos hk)⟩
  induction h generalizing i with
  | @last k c hc hcend =>
    cases i with
    | zero =>
      exact .last (hat hc) (hend.resolve_right (by simp) c hcend)
    | succ i =>
      simp only [List.modify_succ_cons, List.modify_nil]
      exact .last hc hcend
  | @cons k c cs hc hcs ih =>
    cases i with
    | zero => exact .cons (hat hc) hcs
    | succ i =>
      refine .cons hc (ih (hend.imp_right fun hi => ?_))
      rw [List.length_cons] at hi
      omega

theorem Readable.extend (h : Readable k cs) (hlen : cs.length = i + 1) (hc : ChunkAt (k + i + 1) c)
    (hend : c.endOfDir = true) :
    Readable k (cs.modify i (fun b => { b with endOfDir := false }) ++ [c]) := by
  induction h generalizing i with
  | last hb _ =>
    obtain rfl : i = 0 := by simpa using hlen.symm
    exact .cons ⟨hb.length, hb.pos⟩ (.last hc hend)
  | @cons k b cs hb hcs ih =>
    cases i with
    | zero =>
      have hpos : 0 < cs.length := by
        cases hcs <;> simp
      rw [List.length_cons] at hlen
      omega
    | succ i =>
      refine .cons hb (ih (by simpa using hlen) ?_)
      rwa [show k + 1 + i + 1 = k + (i + 1) + 1 by omega]

theorem Readable.chunkAt (h : Readable k cs) (hc : cs[i]? = some c) : ChunkAt (k + i) c := by
  induction h generalizing i with
  | @last k b hb _ =>
    obtain rfl : i = 0 := by
      have hi := (List.getElem?_eq_some_iff.mp hc).1
      simpa using hi
    obtain rfl : b = c := by simpa using hc
    exact hb
  | @cons k b cs hb _ ih =>
    cases i with
    | zero =>
      obtain rfl : b = c := by simpa using hc
      exact hb
    | succ i =>
      rw [show k + (i + 1) = k + 1 + i by omega]
      exact ih (by simpa using hc)

theorem flat_length_modify (hlen : ∀ c, (f c).slots.length = c.slots.length)
    (hend : ∀ c, (f c).endOfDir = c.endOfDir) :
    (flat (cs.modify i f)).length = (flat cs).length := by
  induction cs generalizing i with
  | nil => simp
  | cons c cs ih =>
    cases i with
    | zero =>
      simp only [List.modify_zero_cons, flat, hend]
      split <;> simp [hlen]
    | succ i =>
      simp only [List.modify_succ_cons, flat]
      split <;> simp [ih]

theorem flat_length_open (cs : List Chunk) (i : ℕ) (ext : List Chunk) :
    (flat cs).length ≤
      (flat (cs.modify i (fun c => { c with endOfDir := false }) ++ ext)).length := by
  induction cs generalizing i with
  | nil => simp [flat]
  | cons c cs ih =>
    cases i with
    | zero =>
      have := ih cs.length
      rw [List.modify_eq_self (Nat.le_refl _)] at this
      simp only [List.modify_zero_cons, List.cons_append, flat]
      split <;> simp [this]
    | succ i =>
      simp only [List.modify_succ_cons, List.cons_append, flat]
      split <;> simp [ih]

theorem fill_slots_length (c : Chunk) (j pentry : ℕ) (name : Option String) :
    (c.fill j pentry name).slots.length = c.slots.length := by
  simp [Chunk.fill]

theorem Readable.place (h : Readable 0 d.chunks) (i j pentry : ℕ) (name : Option String)
    (newParent : Bool) : Readable 0 (d.place i j pentry name newParent).1.chunks := by
  unfold Dir.place
  split
  · exact h
  · exact h.modify (fun c => fill_slots_length c j pentry name) (fun _ => rfl)
      (.inl fun _ hc => hc)

theorem flat_length_place (d : Dir) (i j pentry : ℕ) (name : Option String) (newParent : Bool) :
    (flat (d.place i j pentry name newParent).1.chunks).length = (flat d.chunks).length := by
  unfold Dir.place
  split
  · rfl
  · exact flat_length_modify (fun c => fill_slots_length c j pentry name) fun _ => rfl

theorem Readable.addCachedDirent (h : Readable 0 d.chunks) {start pentry : ℕ} {newChunk : Option ℕ}
    {newParent : Bool} {r : Option (ℕ × ℕ)}
    (hr : addCachedDirent d start name pentry newChunk newParent = some (d', r)) :
    Readable 0 d'.chunks ∧ (flat d.chunks).length ≤ (flat d'.chunks).length := by
  unfold DirChain.addCachedDirent at hr
  split at hr
  · cases hr
  · next i j _ =>
    obtain rfl : (d.place i j pentry name newParent).1 = d' :=
      congrArg Prod.fst (Option.some.inj hr)
    exact ⟨h.place .., (flat_length_place ..).ge⟩
  rename_i i hsearch
  split at hr
  · -- a chunk behind the end is taken again
    next nxt hnext =>
    have hchain : Readable 0 (d.chain i nxt.addr).chunks :=
      h.modify (fun _ => rfl) (fun _ => rfl)
        (.inr (List.getElem?_eq_some_iff.mp hnext).1)
    have hle := flat_length_open d.chunks i []
    rw [List.append_nil] at hle
    obtain rfl : ((d.chain i nxt.addr).place (i + 1) 0 pentry name newParent).1 = d' :=
      congrArg Prod.fst (Option.some.inj hr)
    exact ⟨hchain.place .., by rw [flat_length_place]; exact hle⟩
  · next hnone =>
    split at hr
    · -- a new chunk is chained behind the last one
      next addr prev hprev =>
      have hlen : d.chunks.length = i + 1 := by
        have hlt := (List.getElem?_eq_some_iff.mp hprev).1
        have hge := List.getElem?_eq_none_iff.mp hnone
        omega
      have hnew : ChunkAt (0 + i + 1) (newDirCont addr i prev) := by
        refine ⟨rfl, fun _ => ?_⟩
        have hpos := (h.chunkAt hprev).pos
        simp only [newDirCont]
        split
        · next h0 => simp [h0]
        · next h0 => rw [hpos (by omega), Nat.zero_add, Nat.mod_add_mod]
      have hextend : Readable 0 (d.extend i addr prev).chunks := h.extend hlen hnew rfl
      have hle := flat_length_open d.chunks i [newDirCont addr i prev]
      obtain rfl : ((d.extend i addr prev).place (i + 1) 0 pentry name newParent).1 = d' :=
        congrArg Prod.fst (Option.some.inj hr)
      exact ⟨hextend.place .., by rw [flat_length_place]; exact hle⟩
    · obtain rfl : d = d' := congrArg Prod.fst (Option.some.inj hr)
      exact ⟨h, Nat.le_refl _⟩

theorem newDir_readable (addr : ℕ) : Readable 0 (newDir addr).chunks :=
  .last ⟨rfl, fun h => absurd rfl h⟩ rfl

theorem Readable.invalidateAll (h : Readable 0 d.chunks) :
    Readable 0 (invalidateAllCachedDirent d).chunks := by
  have hmap : ∀ {k cs}, Readable k cs → Readable k (cs.map Chunk.invalidate) := by
    intro k cs hcs
    have hat : ∀ {k c}, ChunkAt k c → ChunkAt k c.invalidate := fun hc =>
      ⟨by simp [Chunk.invalidate, hc.length], hc.pos⟩
    induction hcs with
    | last hc hend => exact .last (hat hc) hend
    | cons hc _ ih => exact .cons (hat hc) ih
  exact (hmap h).modify (fun _ => rfl) (fun _ => rfl) (.inl fun _ _ => rfl)

theorem Readable.readdirPopulate (h : Readable 0 d.chunks) {r : PopulateRun}
    (hr : readdirPopulate d r = some d') : Readable 0 d'.chunks := by
  unfold DirChain.readdirPopulate at hr
  split at hr
  · cases hr
    exact h
  split at hr
  · split at hr
    · cases hr
    · cases hr
      exact h.invalidateAll
  split at hr
  · cases hr
  rename_i d1 added hb
  cases hr
  obtain ⟨-, -, hd1⟩ := populateBatches_rule (J := fun _ d _ => Readable 0 d.chunks)
    (fun _ _ _ _ hJ _ => hJ)
    (fun _ _ _ _ _ _ _ _ _ _ hJ _ hadd =>
      ⟨(hJ.addCachedDirent hadd).1, fun _ _ _ => (hJ.addCachedDirent hadd).1⟩)
    h.invalidateAll h.invalidateAll hb
  exact hd1

theorem Readable.slotChange (h : Readable 0 d.chunks) (i : ℕ)
    (hlen : ∀ c, (f c).slots.length = c.slots.length) (hpos : ∀ c, (f c).dirContPos = c.dirContPos)
    (hend : ∀ c, (f c).endOfDir = c.endOfDir) :
    Readable 0 (d.chunks.modify i f) ∧
      (flat d.chunks).length = (flat (d.chunks.modify i f)).length :=
  ⟨h.modify hlen hpos (.inl fun c hc => (hend c).trans hc), (flat_length_modify hlen hend).symm⟩

theorem Readable.removeCachedDirent (h : Readable 0 d.chunks)
    (hr : removeCachedDirent d valid name = some d') :
    Readable 0 d'.chunks ∧ (flat d.chunks).length = (flat d'.chunks).length := by
  unfold DirChain.removeCachedDirent at hr
  split at hr
  · cases hr
  · cases hr
    exact ⟨h, rfl⟩
  · next i j _ =>
    cases hr
    exact h.slotChange i (fun c => by simp [Chunk.drop]) (fun _ => rfl) fun _ => rfl

theorem Readable.renameCachedDirent (h : Readable 0 d.chunks) {newname : Option String}
    (hr : renameCachedDirent d valid name newname = some d') :
    Readable 0 d'.chunks ∧ (flat d.chunks).length = (flat d'.chunks).length := by
  unfold DirChain.renameCachedDirent at hr
  split at hr
  · cases hr
  · cases hr
    exact ⟨h, rfl⟩
  · next i j _ =>
    cases hr
    exact h.slotChange i (fun c => by simp [Chunk.rename]) (fun _ => rfl) fun _ => rfl

/-- The changes made between the calls of an enumeration. -/
def Call.isChange : Call → Bool
  | .add .. | .remove .. | .rename .. => true
  | .invalidateAll | .populate _ => false

/-- An addition. -/
def Call.isAdd : Call → Bool
  | .add .. => true
  | _ => false

theorem step_readable (h : Readable 0 d.chunks) (hs : step d call = some d') :
    Readable 0 d'.chunks := by
  cases call with
  | add name pentry newChunk newParent =>
    obtain ⟨⟨d1, r⟩, hr, rfl⟩ := Option.map_eq_some_iff.mp hs
    exact (h.addCachedDirent hr).1
  | remove valid name => exact (h.removeCachedDirent hs).1
  | rename valid name newname => exact (h.renameCachedDirent hs).1
  | invalidateAll =>
    cases hs
    exact h.invalidateAll
  | populate r => exact h.readdirPopulate hs

theorem step_limit (h : Readable 0 d.chunks) (hchange : call.isChange = true)
    (hs : step d call = some d') :
    (flat d.chunks).length ≤ (flat d'.chunks).length ∧
      (call.isAdd = false → (flat d'.chunks).length = (flat d.chunks).length) := by
  cases call with
  | add name pentry newChunk newParent =>
    obtain ⟨⟨d1, r⟩, hr, rfl⟩ := Option.map_eq_some_iff.mp hs
    exact ⟨(h.addCachedDirent hr).2, fun hadd => by cases hadd⟩
  | remove valid name =>
    have hlen := (h.removeCachedDirent hs).2
    exact ⟨hlen.le, fun _ => hlen.symm⟩
  | rename valid name newname =>
    have hlen := (h.renameCachedDirent hs).2
    exact ⟨hlen.le, fun _ => hlen.symm⟩
  | invalidateAll => cases hchange
  | populate r => cases hchange

theorem exec_readable (h : Readable 0 d.chunks) (hs : exec step d calls = some d') :
    Readable 0 d'.chunks := by
  induction calls generalizing d with
  | nil =>
    cases hs
    exact h
  | cons call calls ih =>
    obtain ⟨d1, h₁, h₂⟩ := Option.bind_eq_some_iff.mp hs
    exact ih (step_readable h h₁) h₂

theorem exec_limit (h : Readable 0 d.chunks) (hchange : ∀ c ∈ calls, c.isChange = true)
    (hs : exec step d calls = some d') :
    (flat d.chunks).length ≤ (flat d'.chunks).length ∧
      ((∀ c ∈ calls, c.isAdd = false) → (flat d'.chunks).length = (flat d.chunks).length) := by
  induction calls generalizing d with
  | nil =>
    cases hs
    exact ⟨Nat.le_refl _, fun _ => rfl⟩
  | cons call calls ih =>
    obtain ⟨d1, h₁, h₂⟩ := Option.bind_eq_some_iff.mp hs
    obtain ⟨hle, heq⟩ := step_limit h (hchange call (.head _)) h₁
    obtain ⟨hle', heq'⟩ :=
      ih (step_readable h h₁) (fun c hc => hchange c (.tail _ hc)) h₂
    refine ⟨hle.trans hle', fun hadd => ?_⟩
    rw [heq' fun c hc => hadd c (.tail _ hc), heq (hadd call (.head _))]

/-! ### Enumerations -/

/-- An enumeration of a directory, in calls `0`, `1`, `2`, …. -/
structure Enumeration where
  /-- the directory at each call -/
  dir : ℕ → Dir
  changes : ℕ → List Call
  /-- `nbwanted` of each call -/
  wanted : ℕ → ℕ
  /-- the directory comes from the cache -/
  reached : ∃ addr calls, exec step (newDir addr) calls = some (dir 0)
  /-- it has been read, and stays so -/
  read : ∀ t, (dir t).hasBeenReaddir = true
  run : ∀ t, exec step (dir t) (changes t) = some (dir (t + 1))
  /-- entries are added, removed and renamed -/
  isChange : ∀ t, ∀ c ∈ changes t, c.isChange = true
  /-- each call asks for some entries -/
  wanted_pos : ∀ t, 0 < wanted t

namespace Enumeration

variable (e : Enumeration)

/-- What each call returns, from cookie 0 on, when the cookie is fed back. -/
def result : ℕ → Option ReaddirResult
  | 0 => cacheInodeReaddir (e.dir 0) 0 (e.wanted 0)
  | t + 1 => (result t).bind fun r =>
    cacheInodeReaddir (e.dir (t + 1)) r.endCookie (e.wanted (t + 1))

/-- The calls before `t` have returned, without the end of the directory: call `t` is made. -/
def Going (t : ℕ) : Prop := ∀ u < t, ∃ r, e.result u = some r ∧ r.eod = false

/-- Call `t` is the last one. -/
def EndsAt (t : ℕ) : Prop := e.Going t ∧ ∃ r, e.result t = some r ∧ r.eod = true

/-- The entries returned by call `t`. -/
def found (t : ℕ) : List (ℕ × Slot) := ((e.result t).map ReaddirResult.found).getD []

/-- The entries returned by the calls up to `t`. -/
def returned : ℕ → List (ℕ × Slot)
  | 0 => e.found 0
  | t + 1 => returned t ++ e.found (t + 1)

/-- The slots of the directory at call `t`. -/
def slots (t : ℕ) : List Slot := flat (e.dir t).chunks

/-- There is an entry at the position `p` when call `t` is made. -/
def Present (t p : ℕ) : Prop := ∃ s, (e.slots t)[p]? = some s ∧ s.active = true

variable {e}

theorem readable (t : ℕ) : Readable 0 (e.dir t).chunks := by
  induction t with
  | zero =>
    obtain ⟨addr, calls, hreached⟩ := e.reached
    exact exec_readable (newDir_readable addr) hreached
  | succ t ih => exact exec_readable ih (e.run t)

theorem limit_succ (t : ℕ) : (e.slots t).length ≤ (e.slots (t + 1)).length :=
  (exec_limit (readable t) (e.isChange t) (e.run t)).1

/-- How far the enumeration has come with call `t`: to the position `hi`. -/
structure Progress (e : Enumeration) (t hi : ℕ) (r : ReaddirResult) : Prop where
  result : e.result t = some r
  later : t < hi
  le : hi ≤ (e.slots t).length
  eod : r.eod = true ↔ hi = (e.slots t).length
  next : r.eod = false → r.endCookie = hi
  increasing : ((e.returned t).map Prod.fst).Pairwise (· < ·)
  sound : ∀ x ∈ e.returned t, x.1 < hi ∧
    ∃ u ≤ t, (e.slots u)[x.1]? = some x.2 ∧ x.2.active = true
  complete : ∀ p < hi, (∀ u ≤ t, e.Present u p) → p ∈ (e.returned t).map Prod.fst

variable {t : ℕ}

theorem progress_of_call (lo : ℕ) (prev : List (ℕ × Slot)) (hfit : (e.slots t).length ≤ 2 ^ 32)
    (hreturned : e.returned t = prev ++ e.found t)
    (hresult : e.result t = cacheInodeReaddir (e.dir t) lo (e.wanted t))
    (hlo : lo < (e.slots t).length) (ht : t ≤ lo)
    (hincreasing : (prev.map Prod.fst).Pairwise (· < ·))
    (hsound : ∀ x ∈ prev, x.1 < lo ∧ ∃ u ≤ t, (e.slots u)[x.1]? = some x.2 ∧ x.2.active = true)
    (hcomplete : ∀ p < lo, (∀ u ≤ t, e.Present u p) → p ∈ prev.map Prod.fst) :
    ∃ hi r, Progress e t hi r := by
  obtain ⟨v, r, hr, hpos, hv, hfound, heod, hnext⟩ :=
    cacheInodeReaddir_spec (readable t) (e.wanted_pos t) hlo hfit
  have hr' : e.result t = some r := hresult.trans hr
  have hfound' : e.found t = listing lo (((e.slots t).drop lo).take v) := by
    simp [found, hr', hfound, slots]
  have hmem : ∀ q s, (q, s) ∈ e.found t ↔
      lo ≤ q ∧ q < lo + v ∧ (e.slots t)[q]? = some s ∧ s.active = true := by
    intro q s
    rw [hfound', mem_listing_segment]
  refine ⟨lo + v, r, hr', by omega, hv, heod, hnext, ?_, ?_, ?_⟩
  · rw [hreturned, List.map_append, List.pairwise_append]
    refine ⟨hincreasing, ?_, ?_⟩
    · rw [hfound', List.pairwise_map]
      exact listing_pairwise lo _
    · intro p hp q hq
      obtain ⟨x, hx, rfl⟩ := List.mem_map.mp hp
      obtain ⟨y, hy, rfl⟩ := List.mem_map.mp hq
      exact (hsound x hx).1.trans_le ((hmem y.1 y.2).mp hy).1
  · intro x hx
    rw [hreturned, List.mem_append] at hx
    rcases hx with hx | hx
    · obtain ⟨hlt, hpresent⟩ := hsound x hx
      exact ⟨by omega, hpresent⟩
    · obtain ⟨-, hlt, hpresent⟩ := (hmem x.1 x.2).mp hx
      exact ⟨hlt, t, Nat.le_refl t, hpresent⟩
  · intro p hp hpresent
    rw [hreturned, List.map_append, List.mem_append]
    by_cases hplo : p < lo
    · exact .inl (hcomplete p hplo hpresent)
    · obtain ⟨s, hs, hact⟩ := hpresent t (Nat.le_refl t)
      exact .inr (List.mem_map.mpr
        ⟨(p, s), (hmem p s).mpr ⟨by omega, hp, hs, hact⟩, rfl⟩)

/-- **Progress**: every call that is made returns, and the enumeration has come to a position in
the directory. -/
theorem exists_progress (hfit : ∀ t, (e.slots t).length ≤ 2 ^ 32) (hgoing : e.Going t) :
    ∃ hi r, Progress e t hi r := by
  induction t with
  | zero =>
    have hpos : 0 < (e.slots 0).length :=
      lt_of_lt_of_le (by decide : 0 < childrenArraySize) (readable 0).flat_pos
    exact progress_of_call 0 [] (hfit 0) rfl rfl hpos (Nat.le_refl 0)
      List.Pairwise.nil (fun x hx => absurd hx List.not_mem_nil)
      fun p hp => absurd hp (Nat.not_lt_zero p)
  | succ t ih =>
    obtain ⟨lo, r, h⟩ := ih fun u hu => hgoing u (by omega)
    obtain ⟨r', hr', hnot⟩ := hgoing t (Nat.lt_succ_self t)
    obtain rfl : r = r' := Option.some.inj (h.result.symm.trans hr')
    have hlo : lo < (e.slots t).length := by
      refine lt_of_le_of_ne h.le fun heq => ?_
      rw [h.eod.mpr heq] at hnot
      cases hnot
    refine progress_of_call lo (e.returned t) (hfit (t + 1)) rfl ?_
      (hlo.trans_le (limit_succ t)) h.later
      h.increasing (fun x hx => ?_) fun p hp hpresent => ?_
    · simp only [result, h.result, Option.bind_some, h.next hnot]
    · obtain ⟨hlt, u, hu, hpresent⟩ := h.sound x hx
      exact ⟨hlt, u, by omega, hpresent⟩
    · exact h.complete p hp fun u hu => hpresent u (by omega)

theorem limit_eq {n : ℕ} (hadd : ∀ t ≥ n, ∀ c ∈ e.changes t, c.isAdd = false) (k : ℕ) :
    (e.slots (n + k)).length = (e.slots n).length := by
  induction k with
  | zero => rfl
  | succ k ih =>
    rw [← ih]
    exact (exec_limit (readable (n + k)) (e.isChange (n + k)) (e.run (n + k))).2
      (hadd (n + k) (by omega))

theorem exists_endsAt (hfit : ∀ t, (e.slots t).length ≤ 2 ^ 32) {n : ℕ}
    (hadd : ∀ t ≥ n, ∀ c ∈ e.changes t, c.isAdd = false) : ∃ t, e.EndsAt t := by
  by_contra hno
  have hgoing : ∀ t, e.Going t := by
    intro t
    induction t with
    | zero => exact fun u hu => absurd hu (Nat.not_lt_zero u)
    | succ t ih =>
      intro u hu
      rcases Nat.lt_succ_iff_lt_or_eq.mp hu with hlt | rfl
      · exact ih u hlt
      · obtain ⟨hi, r, h⟩ := exists_progress hfit ih
        refine ⟨r, h.result, ?_⟩
        by_contra heod
        exact hno ⟨u, ih, r, h.result, by simpa using heod⟩
  -- each call comes one position further, and the positions are bounded
  obtain ⟨hi, r, h⟩ := exists_progress hfit (hgoing (n + (e.slots n).length))
  have hlater := h.later
  have hle := h.le
  rw [limit_eq hadd] at hle
  omega

variable (e) in
/-- **Stability**: the calls return, and come to an end when there are finitely many additions. The
cookies increase, what is returned was there, and what was there at all the calls is returned
exactly once. -/
structure Stable : Prop where
  /-- every call that is made returns -/
  returns : ∀ t, e.Going t → ∃ r, e.result t = some r
  /-- the end of the directory is met -/
  ends : (∃ n, ∀ t ≥ n, ∀ c ∈ e.changes t, c.isAdd = false) → ∃ t, e.EndsAt t
  /-- the cookies increase over the enumeration -/
  increasing : ∀ t, e.Going t → ((e.returned t).map Prod.fst).Pairwise (· < ·)
  sound : ∀ t, e.Going t → ∀ x ∈ e.returned t,
    ∃ u ≤ t, (e.slots u)[x.1]? = some x.2 ∧ x.2.active = true
  /-- what was there all the time is returned exactly once -/
  once : ∀ t, e.EndsAt t → ∀ p, (∀ u ≤ t, e.Present u p) →
    ((e.returned t).map Prod.fst).count p = 1

/-- **Enumerations of chains of at most `2 ^ 28` chunks are stable.** -/
theorem stable_of_fits (e : Enumeration) (hfit : ∀ t, (e.slots t).length ≤ 2 ^ 32) :
    e.Stable where
  returns t hgoing := by
    obtain ⟨_, r, h⟩ := exists_progress hfit hgoing
    exact ⟨r, h.result⟩
  ends hadd := by
    obtain ⟨n, hadd⟩ := hadd
    exact exists_endsAt hfit hadd
  increasing t hgoing := by
    obtain ⟨_, _, h⟩ := exists_progress hfit hgoing
    exact h.increasing
  sound t hgoing x hx := by
    obtain ⟨_, _, h⟩ := exists_progress hfit hgoing
    exact (h.sound x hx).2
  once t hends p hpresent := by
    obtain ⟨hgoing, r, hr, heod⟩ := hends
    obtain ⟨hi, r', h⟩ := exists_progress hfit hgoing
    obtain rfl : r = r' := Option.some.inj (hr.symm.trans h.result)
    have hp : p < (e.slots t).length := by
      obtain ⟨s, hs, -⟩ := hpresent t (Nat.le_refl t)
      exact (List.getElem?_eq_some_iff.mp hs).1
    rw [← h.eod.mp heod] at hp
    have hnodup : ((e.returned t).map Prod.fst).Nodup := h.increasing.imp fun hlt => hlt.ne
    exact List.count_eq_one_of_mem hnodup (h.complete p hp hpresent)

end Enumeration

/-! ### A directory with too many chunks -/

/-- In a directory without free slots, one entry is returned when one is wanted, and the cookie
after it in 32 bits. -/
theorem readdir_one (h : Readable 0 d.chunks) (hall : ∀ s ∈ flat d.chunks, s.active = true)
    (hlt : cookie < 2 ^ 32) (hlong : 2 ^ 32 + childrenArraySize ≤ (flat d.chunks).length) :
    ∃ r, cacheInodeReaddir d cookie 1 = some r ∧ r.eod = false ∧
      r.endCookie = (cookie + 1) % 2 ^ 32 := by
  have hsize : childrenArraySize = 16 := rfl
  have hfirst : 0 * childrenArraySize = 0 := Nat.zero_mul _
  obtain ⟨k', cs, hloc, hcs, hdrop⟩ := locate_spec h (by omega) hlt (by omega)
  rw [hfirst] at hloc hdrop
  rw [Nat.sub_zero] at hdrop
  obtain ⟨c, cs, rfl, hc⟩ : ∃ c cs', cs = c :: cs' ∧ c.slots.length = childrenArraySize := by
    cases hcs with
    | last hc _ => exact ⟨_, _, rfl, hc.length⟩
    | cons hc _ => exact ⟨_, _, rfl, hc.length⟩
  have hmod : cookie % childrenArraySize < c.slots.length := by
    rw [hc]
    exact Nat.mod_lt _ (by decide)
  -- more slots remain than those of this chunk
  have hend : c.endOfDir = false := by
    by_contra hend
    have hflat : flat (c :: cs) = c.slots := by simp [flat, hend]
    have hlen := congrArg List.length hdrop
    rw [hflat, List.length_drop, List.length_drop, hc] at hlen
    omega
  have hflat : flat (c :: cs) = c.slots ++ flat cs := by simp [flat, hend]
  rw [hflat, List.drop_append_of_le_length hmod.le, List.drop_eq_getElem_cons hmod] at hdrop
  have hact : (c.slots[cookie % childrenArraySize]).active = true := by
    refine hall _ (List.mem_of_mem_drop (i := cookie) ?_)
    rw [← hdrop]
    exact .head _
  have hstop : ∀ ss cookie', readSlots 0 cookie' ss = ([], 0, cookie') := by
    intro ss cookie'
    cases ss <;> rfl
  unfold cacheInodeReaddir
  rw [if_neg Nat.one_ne_zero, hloc]
  simp only [readChunks, List.drop_eq_getElem_cons hmod, readSlots, hact, hstop, if_true, hend]
  split
  · exact ⟨_, rfl, rfl, rfl⟩
  · exact ⟨_, rfl, rfl, rfl⟩

/-- The entry at the position `p`. -/
def manyEntry (p : ℕ) : Slot := ⟨true, some (p + 1), toString p⟩

/-- The chunk of index `k` with its first `m` slots filled, at the end of the directory. -/
def manyChunk (k m : ℕ) : Chunk where
  addr := k
  slots := (List.range childrenArraySize).map fun j =>
    if j < m then manyEntry (childrenArraySize * k + j) else ⟨false, none, ""⟩
  nbactive := m
  endOfDir := true
  dirContPos := k % 2 ^ 32
  pdirBegin := 0
  pdirPrev := k - 1

def manyFull (k : ℕ) : Chunk := { manyChunk k childrenArraySize with endOfDir := false }

/-- A directory of `n` full chunks and one with `m` entries. -/
def manyDir (n m : ℕ) : Dir :=
  ⟨(List.range n).map manyFull ++ [manyChunk n m], n % 2 ^ 32, n, true⟩

theorem searchSlot_full_append {l : List Chunk} (cs : List Chunk)
    (hl : ∀ c ∈ l, c.freeSlot = none ∧ c.endOfDir = false) :
    searchSlot i (l ++ cs) = searchSlot (i + l.length) cs := by
  induction l generalizing i with
  | nil => rfl
  | cons c l ih =>
    obtain ⟨hfree, hend⟩ := hl c List.mem_cons_self
    rw [List.cons_append, searchSlot, hfree]
    simp only [hend, Bool.false_eq_true, if_false]
    rw [ih fun b hb => hl b (.tail c hb), List.length_cons]
    congr 1
    omega

theorem searchSlot_manyDir (n m : ℕ) :
    searchSlot 0 ((manyDir n m).chunks.drop 0) = searchSlot n [manyChunk n m] := by
  rw [List.drop_zero]
  simp only [manyDir]
  rw [searchSlot_full_append]
  · simp
  · intro c hc
    obtain ⟨k, -, rfl⟩ := List.mem_map.mp hc
    exact ⟨rfl, rfl⟩

theorem manyChunk_freeSlot (hm : m < childrenArraySize) : (manyChunk n m).freeSlot = some m := by
  have hslot : ∀ j (hj : j < (manyChunk n m).slots.length), (manyChunk n m).slots[j] =
      if j < m then manyEntry (childrenArraySize * n + j) else ⟨false, none, ""⟩ := by
    intro j hj
    simp [manyChunk]
  have hlen : (manyChunk n m).slots.length = childrenArraySize := by simp [manyChunk]
  unfold Chunk.freeSlot
  rw [if_pos (show (manyChunk n m).nbactive ≠ childrenArraySize from hm.ne),
    List.findIdx?_eq_some_iff_getElem]
  refine ⟨hlen ▸ hm, ?_, fun j hj => ?_⟩
  · rw [hslot, if_neg (lt_irrefl m)]
    rfl
  · rw [hslot, if_pos hj]
    simp [manyEntry]

theorem manyChunk_fill (hm : m < childrenArraySize) :
    (manyChunk n m).fill m (childrenArraySize * n + m + 1)
      (some (toString (childrenArraySize * n + m))) = manyChunk n (m + 1) := by
  simp only [Chunk.fill, manyChunk, Chunk.mk.injEq, Option.isSome_some, if_true, and_true, true_and,
    Option.getD_some]
  have hnb : (m + 1) % 2 ^ 32 = m + 1 := Nat.mod_eq_of_lt (by simp [childrenArraySize] at hm; omega)
  refine ⟨List.ext_getElem? fun j => ?_, hnb⟩
  rw [List.getElem?_modify, List.getElem?_map, List.getElem?_map]
  by_cases hj : j < childrenArraySize
  · rw [List.getElem?_range hj]
    by_cases hmj : m = j
    · subst hmj
      simp [manyEntry]
    · have hiff : j < m + 1 ↔ j < m := by omega
      simp only [Option.map_some, Option.map_eq_map, hmj, if_false, hiff]
  · rw [List.getElem?_eq_none (by simpa using hj)]
    rfl

theorem manyDir_modify (n m : ℕ) (f : Chunk → Chunk) :
    (manyDir n m).chunks.modify n f = (List.range n).map manyFull ++ [f (manyChunk n m)] := by
  have hlen : ((List.range n).map manyFull).length = n := by simp
  refine List.ext_getElem? fun j => ?_
  rw [List.getElem?_modify]
  simp only [manyDir]
  by_cases hj : j < n
  · rw [List.getElem?_append_left (by omega), List.getElem?_append_left (by omega)]
    have hne : n ≠ j := by omega
    simp [hne]
  rw [List.getElem?_append_right (by omega), List.getElem?_append_right (by omega), hlen]
  by_cases hnj : n = j
  · subst hnj
    simp
  · obtain ⟨i, hi⟩ : ∃ i, j - n = i + 1 := ⟨j - n - 1, by omega⟩
    simp [hi]

theorem manyDir_add (hm : m < childrenArraySize) :
    step (manyDir n m) (.add (some (toString (childrenArraySize * n + m)))
      (childrenArraySize * n + m + 1) none true) = some (manyDir n (m + 1)) := by
  have hsearch : searchSlot 0 ((manyDir n m).chunks.drop 0) = some (.slot n m) := by
    rw [searchSlot_manyDir, searchSlot, manyChunk_freeSlot hm]
  simp only [step, addCachedDirent, hsearch, Dir.place, Bool.true_eq_false, if_false,
    Option.map_some, manyDir_modify, manyChunk_fill hm]
  rfl

theorem manyDir_extend (n : ℕ) :
    step (manyDir n childrenArraySize) (.add (some (toString (childrenArraySize * (n + 1))))
      (childrenArraySize * (n + 1) + 1) (some (n + 1)) true) = some (manyDir (n + 1) 1) := by
  have hsearch : searchSlot 0 ((manyDir n childrenArraySize).chunks.drop 0) = some (.full n) := by
    rw [searchSlot_manyDir]
    rfl
  have hlen : (manyDir n childrenArraySize).chunks.length = n + 1 := by simp [manyDir]
  have hnone : (manyDir n childrenArraySize).chunks[n + 1]? = none :=
    List.getElem?_eq_none hlen.le
  have hlast : (manyDir n childrenArraySize).chunks[n]? = some (manyChunk n childrenArraySize) := by
    simp [manyDir]
  -- the new chunk, and the chain with it
  have hnew : newDirCont (n + 1) n (manyChunk n childrenArraySize) = manyChunk (n + 1) 0 := by
    have hpos : (if n = 0 then 1 else (n % 2 ^ 32 + 1) % 2 ^ 32) = (n + 1) % 2 ^ 32 := by
      split <;> omega
    have hbegin : (if n = 0 then n else 0) = 0 := by
      split <;> omega
    simp only [newDirCont, manyChunk, hpos, hbegin, Nat.add_sub_cancel]
    rfl
  have hextend : (manyDir n childrenArraySize).extend n (n + 1) (manyChunk n childrenArraySize) =
      manyDir (n + 1) 0 := by
    simp only [Dir.extend, Dir.chain, manyDir_modify, hnew]
    simp [manyDir, manyFull, List.range_succ, Nat.mod_add_mod]
  simp only [step, addCachedDirent, hsearch, hnone, hlast, hextend, Dir.place, Bool.true_eq_false,
    if_false, Option.map_some, manyDir_modify]
  rfl

theorem manyDir_start : step (newDir 0) (.populate ⟨none, [], true⟩) = some (manyDir 0 0) := rfl

theorem manyDir_reached (n : ℕ) :
    ∃ calls, exec step (newDir 0) calls = some (manyDir n childrenArraySize) := by
  have hnext : ∀ {d d' : Dir} {call : Call}, (∃ calls, exec step (newDir 0) calls = some d) →
      step d call = some d' → ∃ calls, exec step (newDir 0) calls = some d' := by
    rintro d d' call ⟨calls, hcalls⟩ hstep
    exact ⟨calls ++ [call], by simp [exec_append, hcalls, hstep]⟩
  have hfill : ∀ k {n m}, m + k = childrenArraySize →
      (∃ calls, exec step (newDir 0) calls = some (manyDir n m)) →
      ∃ calls, exec step (newDir 0) calls = some (manyDir n childrenArraySize) := by
    intro k
    induction k with
    | zero =>
      rintro n m rfl h
      exact h
    | succ k ih =>
      intro n m hm h
      exact ih (by omega) (hnext h (manyDir_add (by omega)))
  induction n with
  | zero =>
    refine hfill childrenArraySize (Nat.zero_add _) ⟨[.populate ⟨none, [], true⟩], ?_⟩
    rw [exec_cons, manyDir_start]
    rfl
  | succ n ih => exact hfill 15 rfl (hnext ih (manyDir_extend n))

theorem flat_manyDir (n m : ℕ) :
    flat (manyDir n m).chunks =
      ((List.range n).map manyFull).flatMap Chunk.slots ++ (manyChunk n m).slots := by
  have hopen : ∀ l : List Chunk, (∀ c ∈ l, c.endOfDir = false) → ∀ cs,
      flat (l ++ cs) = l.flatMap Chunk.slots ++ flat cs := by
    intro l hl cs
    induction l with
    | nil => rfl
    | cons c l ih =>
      have hc := hl c List.mem_cons_self
      simp [flat, hc, ih fun b hb => hl b (.tail c hb)]
  simp only [manyDir]
  rw [hopen _ fun c hc => ?_]
  · rfl
  · obtain ⟨k, -, rfl⟩ := List.mem_map.mp hc
    rfl

/-- The enumeration of a directory of `n + 1` full chunks, one entry at a time. -/
def manyEnumeration (n : ℕ) : Enumeration where
  dir _ := manyDir n childrenArraySize
  changes _ := []
  wanted _ := 1
  reached := ⟨0, manyDir_reached n⟩
  read _ := rfl
  run _ := rfl
  isChange _ _ hc := absurd hc List.not_mem_nil
  wanted_pos _ := Nat.zero_lt_one

theorem manyEnumeration_length (n t : ℕ) :
    ((manyEnumeration n).slots t).length = childrenArraySize * n + childrenArraySize := by
  have hfull : ∀ k, (manyFull k).slots.length = childrenArraySize := fun k => by
    simp [manyFull, manyChunk]
  have hchunk : (manyChunk n childrenArraySize).slots.length = childrenArraySize := by
    simp [manyChunk]
  have hdir : (manyEnumeration n).slots t = flat (manyDir n childrenArraySize).chunks := rfl
  rw [hdir, flat_manyDir, List.length_append, List.length_flatMap, hchunk]
  simp [Function.comp_def, hfull, Nat.mul_comm]

theorem manyEnumeration_active (n t : ℕ) : ∀ s ∈ (manyEnumeration n).slots t, s.active = true := by
  have hchunk : ∀ k, ∀ s ∈ (manyChunk k childrenArraySize).slots, s.active = true := by
    intro k s hs
    simp only [manyChunk, List.mem_map, List.mem_range] at hs
    obtain ⟨j, hj, rfl⟩ := hs
    rw [if_pos hj]
    rfl
  have hdir : (manyEnumeration n).slots t = flat (manyDir n childrenArraySize).chunks := rfl
  intro s hs
  rw [hdir, flat_manyDir, List.mem_append, List.mem_flatMap] at hs
  rcases hs with ⟨c, hc, hs⟩ | hs
  · obtain ⟨k, -, rfl⟩ := List.mem_map.mp hc
    exact hchunk k s hs
  · exact hchunk n s hs

theorem manyEnumeration_result (hn : 2 ^ 28 ≤ n) (t : ℕ) :
    ∃ r, (manyEnumeration n).result t = some r ∧ r.eod = false ∧
      r.endCookie = (t + 1) % 2 ^ 32 := by
  have hsize : childrenArraySize = 16 := rfl
  have hlong : 2 ^ 32 + childrenArraySize ≤ ((manyEnumeration n).slots t).length := by
    rw [manyEnumeration_length, hsize]
    omega
  have hone : ∀ {cookie}, cookie < 2 ^ 32 →
      ∃ r, cacheInodeReaddir (manyDir n childrenArraySize) cookie 1 = some r ∧ r.eod = false ∧
        r.endCookie = (cookie + 1) % 2 ^ 32 := fun hlt =>
    readdir_one (Enumeration.readable (e := manyEnumeration n) t) (manyEnumeration_active n t) hlt
      hlong
  induction t with
  | zero => exact hone (by decide)
  | succ t ih =>
    obtain ⟨r, hr, -, hcookie⟩ := ih hlong
    have hlt : r.endCookie < 2 ^ 32 := by
      rw [hcookie]
      exact Nat.mod_lt _ (by decide)
    obtain ⟨r', hr', heod, hcookie'⟩ := hone hlt
    refine ⟨r', ?_, heod, ?_⟩
    · simp only [Enumeration.result, hr, Option.bind_some]
      exact hr'
    · rw [hcookie', hcookie]
      exact Nat.mod_add_mod (t + 1) (2 ^ 32) 1


/-- Eighteen entries in two chunks; after the first call, the fourth is removed, its slot taken by
another one, and the sixth renamed. -/
def firstChanges : List Call :=
  [.remove (fun _ => true) (some "3"), .add (some "18") 19 none true,
    .rename (fun _ => true) (some "5") (some "f")]

def changedDir : Dir := (exec step (manyDir 1 2) firstChanges).getD (manyDir 1 2)

def changedEnumeration : Enumeration where
  dir t := if t = 0 then manyDir 1 2 else changedDir
  changes t := if t = 0 then firstChanges else []
  wanted t := t + 5
  reached := by
    obtain ⟨calls, hcalls⟩ := manyDir_reached 0
    refine ⟨0, calls ++ [.add (some "16") 17 (some 1) true, .add (some "17") 18 none true], ?_⟩
    rw [exec_append, hcalls]
    rfl
  read t := by
    split
    · rfl
    · decide +kernel
  run t := by
    cases t with
    | zero =>
      obtain ⟨d, hd⟩ : ∃ d, exec step (manyDir 1 2) firstChanges = some d :=
        Option.isSome_iff_exists.mp (by decide +kernel)
      simp [changedDir, hd]
    | succ t => rfl
  isChange t c hc := by
    split at hc
    · revert c
      decide
    · cases hc
  wanted_pos t := by omega

theorem changedEnumeration_stable : changedEnumeration.Stable :=
  Enumeration.stable_of_fits changedEnumeration fun t => by
    have hlen : (flat (manyDir 1 2).chunks).length = 32 ∧ (flat changedDir.chunks).length = 32 := by
      decide +kernel
    simp only [Enumeration.slots, changedEnumeration]
    split
    · rw [hlen.1]
      decide
    · rw [hlen.2]
      decide

/-- **A directory of `2 ^ 28 + 1` full chunks is not enumerated**: after `2 ^ 32` entries the cookie
is zero again. -/
theorem manyEnumeration_not_stable : ¬ (manyEnumeration (2 ^ 28)).Stable := by
  intro h
  obtain ⟨t, -, r, hr, heod⟩ := h.ends ⟨0, fun _ _ c hc => absurd hc List.not_mem_nil⟩
  obtain ⟨r', hr', hnot, -⟩ := manyEnumeration_result (Nat.le_refl (2 ^ 28)) t
  obtain rfl : r = r' := Option.some.inj (hr.symm.trans hr')
  rw [heod] at hnot
  cases hnot

end DirChain

end CloudNfs
