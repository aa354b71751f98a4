import CloudNfs.DirEnumerate

/-!
# One call of `cache_inode_readdir`

What a protocol can rely on when it asks for a piece of a cached directory.

* `Piece` — from a cookie within the directory on, a piece of it is visited; if it is not the last,
  as many entries are found as were wanted.
-/

namespace CloudNfs.DirChain

/-! ## Any chain -/

structure Asked (d : Dir) (wanted : ℕ) (r : ReaddirResult) : Prop where
  few : r.found.length ≤ wanted
  active : ∀ x ∈ r.found, x.2.active = true
  slots : ∀ x ∈ r.found, ∃ c ∈ d.chunks, x.2 ∈ c.slots

section

variable {d : Dir} {cookie first left wanted k : ℕ} {cs cs' : List Chunk} {ss : List Slot}
  {r : ReaddirResult}

theorem readSlots_length :
    (readSlots left cookie ss).1.length + (readSlots left cookie ss).2.1 = left := by
  induction ss generalizing left cookie with
  | nil => cases left <;> exact Nat.zero_add _
  | cons s ss ih =>
    cases left with
    | zero => rfl
    | succ left =>
      rw [readSlots]
      split
      · dsimp only
        rw [List.length_cons, Nat.add_right_comm, ih]
      · exact ih

theorem readSlots_found {x : ℕ × Slot} (hx : x ∈ (readSlots left cookie ss).1) :
    x.2 ∈ ss ∧ x.2.active = true := by
  induction ss generalizing left cookie with
  | nil => cases left <;> cases hx
  | cons s ss ih =>
    cases left with
    | zero => cases hx
    | succ left =>
      rw [readSlots] at hx
      split at hx
      · rename_i hactive
        rcases List.mem_cons.mp hx with rfl | hx
        · exact ⟨List.mem_cons_self, hactive⟩
        · exact ⟨List.mem_cons_of_mem _ (ih hx).1, (ih hx).2⟩
      · exact ⟨List.mem_cons_of_mem _ (ih hx).1, (ih hx).2⟩

theorem readChunks_asked (h : readChunks left cookie cs = some r) :
    r.found.length ≤ left ∧ ∀ x ∈ r.found, x.2.active = true ∧ ∃ c ∈ cs, x.2 ∈ c.slots := by
  induction cs generalizing left cookie r with
  | nil => cases h
  | cons c cs ih =>
    have hcount : (readSlots left cookie (c.slots.drop (cookie % childrenArraySize))).1.length +
        (readSlots left cookie (c.slots.drop (cookie % childrenArraySize))).2.1 = left :=
      readSlots_length
    have hhere : ∀ x ∈ (readSlots left cookie (c.slots.drop (cookie % childrenArraySize))).1,
        x.2.active = true ∧ ∃ b ∈ c :: cs, x.2 ∈ b.slots := by
      intro x hx
      obtain ⟨hmem, hactive⟩ := readSlots_found hx
      exact ⟨hactive, c, List.mem_cons_self, List.mem_of_mem_drop hmem⟩
    rw [readChunks] at h
    split at h
    rename_i found left' cookie' heq
    rw [heq] at hcount hhere
    dsimp only at hcount hhere
    have hle : found.length ≤ left := by omega
    split at h
    · split at h
      · cases h
        exact ⟨hle, hhere⟩
      · split at h
        · cases h
          exact ⟨hle, hhere⟩
        · obtain ⟨r', hr', rfl⟩ := Option.map_eq_some_iff.mp h
          obtain ⟨hlen, hrest⟩ := ih hr'
          refine ⟨?_, fun x hx => ?_⟩
          · rw [List.length_append]
            omega
          · rcases List.mem_append.mp hx with hx | hx
            · exact hhere x hx
            · obtain ⟨hactive, b, hb, hslot⟩ := hrest x hx
              exact ⟨hactive, b, List.mem_cons_of_mem _ hb, hslot⟩
    · cases h
      exact ⟨hle, hhere⟩

theorem locate_suffix (h : locate cookie first cs = some (some cs')) : cs' <:+ cs := by
  induction cs generalizing first with
  | nil => cases h
  | cons c cs ih =>
    rw [locate] at h
    split at h
    · split at h
      · cases h
      · exact (ih h).trans (List.suffix_cons c cs)
    · cases Option.some.inj h
      exact List.suffix_refl _

theorem asked_of_readdir (h : cacheInodeReaddir d cookie wanted = some r) : Asked d wanted r := by
  rw [cacheInodeReaddir] at h
  split at h
  · cases h
    exact ⟨Nat.zero_le _, nofun, nofun⟩
  split at h
  · cases h
  · cases h
    exact ⟨Nat.zero_le _, nofun, nofun⟩
  rename_i cs hlocate
  obtain ⟨hlen, hfound⟩ := readChunks_asked h
  refine ⟨hlen, fun x hx => (hfound x hx).1, fun x hx => ?_⟩
  obtain ⟨-, c, hc, hslot⟩ := hfound x hx
  exact ⟨c, (locate_suffix hlocate).subset hc, hslot⟩

/-! ## A chain that can be read -/

theorem readSlots_stop (left : ℕ) {c : Chunk} (hc : c.slots.length = childrenArraySize)
    (hlt : cookie < 2 ^ 32) (hss : ss = c.slots.drop (cookie % childrenArraySize))
    (hfit : cookie + ss.length ≤ 2 ^ 32) :
    (readSlots left cookie ss).2.1 ≠ 0 →
      (readSlots left cookie ss).2.2 = (cookie + ss.length) % 2 ^ 32 ∧
        (readSlots left cookie ss).2.2 % childrenArraySize = 0 := by
  intro hleft
  obtain ⟨v, hv, -, hcookie, hstop, -⟩ := readSlots_spec left cookie ss hfit hlt
  have hall : v = ss.length := hstop.resolve_left hleft
  have hlen : ss.length = 16 - cookie % 16 := by
    rw [hss, List.length_drop, hc]
    rfl
  rw [hcookie, hall]
  refine ⟨rfl, (cookie_mod_iff hlen le_rfl ?_).mpr rfl⟩
  omega

theorem readChunks_full (hchain : Readable k cs) (hlt : cookie < 2 ^ 32)
    (hfit : cookie + ((flat cs).drop (cookie % childrenArraySize)).length ≤ 2 ^ 32)
    (h : readChunks left cookie cs = some r) (heod : r.eod = false) : r.found.length = left := by
  induction hchain generalizing left cookie r with
  | @last k c hc hend =>
    have hflat : flat [c] = c.slots := by simp [flat, hend]
    rw [hflat] at hfit
    have hcount : (readSlots left cookie (c.slots.drop (cookie % childrenArraySize))).1.length +
        (readSlots left cookie (c.slots.drop (cookie % childrenArraySize))).2.1 = left :=
      readSlots_length
    have hstop := readSlots_stop left hc.length hlt rfl hfit
    rw [readChunks] at h
    split at h
    rename_i found left' cookie' heq
    rw [heq] at hcount hstop
    dsimp only at hcount hstop
    split at h
    · cases h
      cases heod
    rename_i hmod
    cases h
    have hleft : left' = 0 := by
      by_contra hleft
      exact hmod (hstop hleft).2
    rw [← hcount, hleft]
    rfl
  | @cons k c cs hc hcs ih =>
    have hmod16 : cookie % childrenArraySize ≤ c.slots.length := by
      rw [hc.length]
      exact (Nat.mod_lt _ (by decide)).le
    have hcount : (readSlots left cookie (c.slots.drop (cookie % childrenArraySize))).1.length +
        (readSlots left cookie (c.slots.drop (cookie % childrenArraySize))).2.1 = left :=
      readSlots_length
    have hfit' : cookie + (c.slots.drop (cookie % childrenArraySize)).length ≤ 2 ^ 32 := by
      refine le_trans (Nat.add_le_add_left ?_ _) hfit
      rw [flat]
      split
      · exact le_rfl
      · rw [List.drop_append_of_le_length hmod16, List.length_append]
        exact Nat.le_add_right _ _
    have hstop := readSlots_stop left hc.length hlt rfl hfit'
    rw [readChunks] at h
    split at h
    rename_i found left' cookie' heq
    rw [heq] at hcount hstop
    dsimp only at hcount hstop
    split at h
    · rename_i hmod
      split at h
      · cases h
        cases heod
      rename_i hend
      split at h
      · rename_i hleft
        cases h
        rw [← hcount, hleft]
        rfl
      -- the next chunk is read from its first slot on
      rename_i hleft
      obtain ⟨r', hr', rfl⟩ := Option.map_eq_some_iff.mp h
      obtain ⟨hcookie, -⟩ := hstop hleft
      have hflat : flat (c :: cs) = c.slots ++ flat cs := by simp [flat, hend]
      rw [hflat, List.drop_append_of_le_length hmod16, List.length_append] at hfit
      have hbehind := hcs.flat_pos
      have hsize : childrenArraySize = 16 := rfl
      rw [Nat.mod_eq_of_lt (by omega)] at hcookie
      have hrest := ih (by omega) (by rw [hmod, List.drop_zero]; omega) hr' heod
      rw [List.length_append, hrest]
      exact hcount
    · rename_i hmod
      cases h
      have hleft : left' = 0 := by
        by_contra hleft
        exact hmod (hstop hleft).2
      rw [← hcount, hleft]
      rfl

/-- A piece of a directory: `v` slots are visited. -/
structure Piece (d : Dir) (cookie wanted v : ℕ) (r : ReaddirResult) : Prop where
  result : cacheInodeReaddir d cookie wanted = some r
  inside : cookie + v ≤ (flat d.chunks).length
  found : r.found = listing cookie (((flat d.chunks).drop cookie).take v)
  endCookie : r.endCookie = cookie + v
  eod : r.eod = true ↔ cookie + v = (flat d.chunks).length
  few : r.found.length ≤ wanted
  full : r.eod = false → r.found.length = wanted

theorem locate_end (hchain : Readable k cs) (hfirst : k * childrenArraySize ≤ cookie)
    (hlt : cookie < 2 ^ 32) (hend : cookie = k * childrenArraySize + (flat cs).length) :
    locate cookie (k * childrenArraySize) cs = some none := by
  have hsize : childrenArraySize = 16 := rfl
  induction hchain with
  | @last k c hc hlast =>
    have hflat : flat [c] = c.slots := by simp [flat, hlast]
    rw [hflat, hc.length] at hend
    rw [locate, cookie_sub hfirst hlt, if_pos (by omega), if_pos hlast]
  | @cons k c cs hc hcs ih =>
    have hpos := hcs.flat_pos
    rw [locate, cookie_sub hfirst hlt]
    rw [flat] at hend
    split at hend
    · rename_i hlast
      rw [hc.length] at hend
      rw [if_pos (by omega), if_pos hlast]
    rename_i hlast
    rw [List.length_append, hc.length] at hend
    have hsucc : (k + 1) * childrenArraySize = k * childrenArraySize + childrenArraySize :=
      Nat.succ_mul k childrenArraySize
    have hnext : (cs.headD c).dirContPos = (k + 1) % 2 ^ 32 := by
      cases hcs with
      | last hc' _ => exact hc'.pos (Nat.succ_ne_zero k)
      | cons hc' _ => exact hc'.pos (Nat.succ_ne_zero k)
    have hmod : (k + 1) * childrenArraySize % 2 ^ 32 = (k + 1) * childrenArraySize :=
      Nat.mod_eq_of_lt (by omega)
    rw [if_pos (by omega), if_neg hlast, hnext, Nat.mod_mul_mod, hmod]
    exact ih (by omega) (by omega)

/-- **A call within the directory** gives a piece of it, which is not empty unless the call begins
at the end. -/
theorem exists_piece (hchain : Readable 0 d.chunks) (hwanted : 0 < wanted)
    (hin : cookie ≤ (flat d.chunks).length) (hfit : (flat d.chunks).length < 2 ^ 32) :
    ∃ v r, Piece d cookie wanted v r ∧ (cookie < (flat d.chunks).length → 0 < v) := by
  rcases Nat.lt_or_eq_of_le hin with hlt | rfl
  · have hfirst : 0 * childrenArraySize = 0 := Nat.zero_mul _
    obtain ⟨k', cs, hlocate, hcs, hdrop⟩ := locate_spec hchain (by omega)
      (by omega : cookie < 2 ^ 32) (by omega)
    rw [hfirst] at hlocate hdrop
    rw [Nat.sub_zero] at hdrop
    have hlen : ((flat d.chunks).drop cookie).length = (flat d.chunks).length - cookie :=
      List.length_drop
    obtain ⟨v, r, hr, hpos, hv, hfound, hcookie, heod⟩ :=
      readChunks_spec hcs hwanted (by omega) hdrop.symm (by omega)
    have hresult : cacheInodeReaddir d cookie wanted = some r := by
      rw [cacheInodeReaddir, if_neg (by omega), hlocate]
      exact hr
    refine ⟨v, r, ⟨hresult, by omega, hfound, ?_, ?_, (asked_of_readdir hresult).few, ?_⟩,
      fun _ => hpos⟩
    · rw [hcookie]
      exact Nat.mod_eq_of_lt (by omega)
    · rw [heod]
      omega
    · exact fun hgoing => readChunks_full hcs (by omega) (by rw [hdrop]; omega) hr hgoing
  · have hlocate : locate (flat d.chunks).length 0 d.chunks = some none := by
      have h := locate_end hchain (by omega) hfit (by omega)
      rwa [Nat.zero_mul] at h
    have hresult : cacheInodeReaddir d (flat d.chunks).length wanted =
        some ⟨[], (flat d.chunks).length, true⟩ := by
      rw [cacheInodeReaddir, if_neg (by omega), hlocate]
    refine ⟨0, _, ⟨hresult, le_rfl, ?_, rfl, iff_of_true rfl rfl, Nat.zero_le _, nofun⟩, ?_⟩
    · rw [List.take_zero]
      rfl
    · exact fun h => absurd h (lt_irrefl _)

/-! ## What remains of a directory -/

/-- The names behind a cookie. -/
def remaining (d : Dir) (cookie : ℕ) : List String :=
  (listing cookie ((flat d.chunks).drop cookie)).map fun x => x.2.name

theorem listing_split {p n : ℕ} {x : ℕ × Slot} (hx : (listing p ss)[n]? = some x) :
    p + n ≤ x.1 ∧ x.1 < p + ss.length ∧
      listing p ss = (listing p ss).take n ++ listing x.1 (ss.drop (x.1 - p)) := by
  induction ss generalizing p n with
  | nil => cases hx
  | cons s ss ih =>
    rw [List.length_cons]
    by_cases hactive : s.active = true
    · rw [listing, if_pos hactive] at hx ⊢
      cases n with
      | zero =>
        cases hx
        refine ⟨le_rfl, by dsimp only; omega, ?_⟩
        rw [List.take_zero, Nat.sub_self, List.drop_zero, listing, if_pos hactive]
        rfl
      | succ n =>
        obtain ⟨hle, hlt, hsplit⟩ := ih hx
        refine ⟨by omega, by omega, ?_⟩
        rw [List.take_succ_cons, List.cons_append, show x.1 - p = (x.1 - (p + 1)) + 1 by omega,
          List.drop_succ_cons, ← hsplit]
    · rw [listing, if_neg hactive] at hx ⊢
      obtain ⟨hle, hlt, hsplit⟩ := ih hx
      refine ⟨by omega, by omega, ?_⟩
      rw [show x.1 - p = (x.1 - (p + 1)) + 1 by omega, List.drop_succ_cons, ← hsplit]

theorem Piece.listing_eq {v : ℕ} (hpiece : Piece d cookie wanted v r) :
    listing cookie ((flat d.chunks).drop cookie) =
      r.found ++ listing (cookie + v) ((flat d.chunks).drop (cookie + v)) := by
  have hlen : (((flat d.chunks).drop cookie).take v).length = v := by
    have := hpiece.inside
    rw [List.length_take, List.length_drop]
    omega
  conv_lhs => rw [← List.take_append_drop v ((flat d.chunks).drop cookie), listing_append, hlen]
  rw [hpiece.found, List.drop_drop]

theorem Piece.eod_of_found_nil {v : ℕ} (hpiece : Piece d cookie wanted v r) (hwanted : 0 < wanted)
    (hnil : r.found = []) : r.eod = true := by
  by_contra hgoing
  have hfull := hpiece.full (Bool.eq_false_of_not_eq_true hgoing)
  rw [hnil] at hfull
  exact hwanted.ne hfull

theorem Piece.remaining_eq {v : ℕ} (hpiece : Piece d cookie wanted v r) :
    remaining d cookie = r.found.map (fun x => x.2.name) ++ remaining d (cookie + v) := by
  rw [remaining, remaining, hpiece.listing_eq, List.map_append]

theorem Piece.remaining_eod {v : ℕ} (hpiece : Piece d cookie wanted v r) (heod : r.eod = true) :
    remaining d cookie = r.found.map fun x => x.2.name := by
  rw [hpiece.remaining_eq, hpiece.eod.mp heod, remaining, List.drop_length]
  exact List.append_nil _

theorem Piece.remaining_take {v n : ℕ} (hpiece : Piece d cookie wanted v r)
    (hlt : n < r.found.length) :
    cookie + n ≤ (r.found[n]).1 ∧ (r.found[n]).1 < (flat d.chunks).length ∧
      remaining d cookie = (r.found.take n).map (fun x => x.2.name) ++
        remaining d (r.found[n]).1 := by
  have hinside := hpiece.inside
  have hx : (listing cookie ((flat d.chunks).drop cookie))[n]? = some r.found[n] := by
    rw [hpiece.listing_eq, List.getElem?_append_left hlt, List.getElem?_eq_getElem hlt]
  obtain ⟨hfrom, hto, hsplit⟩ := listing_split hx
  rw [List.length_drop] at hto
  refine ⟨hfrom, by omega, ?_⟩
  rw [hpiece.listing_eq, List.take_append_of_le_length hlt.le, List.drop_drop,
    show cookie + ((r.found[n]).1 - cookie) = (r.found[n]).1 by omega] at hsplit
  rw [remaining, hpiece.listing_eq, hsplit, List.map_append, remaining]

end

end CloudNfs.DirChain
