import Mathlib.Data.List.Sort

/-!
# Scans for the first match

A list is scanned from its head for the first entry that matches, where an entry may
also end the scan without a match. Several such scans are made one after the other,
and the first one that finds something decides.

Does the outcome depend on the order of the list? `orderFree_iff` gives the exact
condition for the outcome to be the one wanted for *every* order, when the entries have
ranks such that what ends a scan has a lower rank than what the same scan finds:

* a scan finds something in every order exactly when it can find something and nothing
  ends it (`AlwaysFinds`);
* the worst order is the one by rank (`scan_eq_none_of_sorted`), and the best one for an
  entry has it at the head.
-/

namespace CloudNfs

namespace FirstMatch

variable {α : Type}

inductive Verdict where
  /-- the entry matches -/
  | found
  /-- the next entry is looked at -/
  | skip
  /-- the scan ends without a match -/
  | stop
  deriving DecidableEq

/-- The first match. -/
def scan (v : α → Verdict) : List α → Option α
  | [] => none
  | x :: xs =>
    match v x with
    | .found => some x
    | .skip => scan v xs
    | .stop => none

/-- The first match of the first scan that has one. -/
def scans (vs : List (α → Verdict)) (l : List α) : Option α := vs.findSome? fun v => scan v l

/-- The scan finds something in every order of the list. -/
def AlwaysFinds (v : α → Verdict) (l : List α) : Prop :=
  (∃ x ∈ l, v x = .found) ∧ ∀ x ∈ l, v x ≠ .stop

variable {v : α → Verdict} {vs : List (α → Verdict)} {l l' : List α} {x y : α}

theorem scan_eq_some (h : scan v l = some x) : x ∈ l ∧ v x = .found := by
  induction l with
  | nil => cases h
  | cons z zs ih =>
    simp only [scan] at h
    split at h
    · next hz =>
      cases h
      exact ⟨List.mem_cons_self, hz⟩
    · obtain ⟨hmem, hx⟩ := ih h
      exact ⟨List.mem_cons_of_mem _ hmem, hx⟩
    · cases h

theorem scan_isSome_of_alwaysFinds (h : AlwaysFinds v l) : (scan v l).isSome = true := by
  induction l with
  | nil =>
    obtain ⟨⟨x, hx, -⟩, -⟩ := h
    cases hx
  | cons z zs ih =>
    obtain ⟨⟨x, hx, hfound⟩, hstop⟩ := h
    simp only [scan]
    cases hz : v z with
    | found => rfl
    | stop => exact absurd hz (hstop z (.head _))
    | skip =>
      have hxs : x ∈ zs := by
        rcases List.mem_cons.mp hx with rfl | hmem
        · rw [hz] at hfound
          cases hfound
        · exact hmem
      exact ih ⟨⟨x, hxs, hfound⟩, fun w hw => hstop w (.tail _ hw)⟩

theorem AlwaysFinds.perm (h : AlwaysFinds v l) (hp : l'.Perm l) : AlwaysFinds v l' := by
  obtain ⟨⟨x, hx, hfound⟩, hstop⟩ := h
  exact ⟨⟨x, hp.mem_iff.mpr hx, hfound⟩, fun y hy => hstop y (hp.mem_iff.mp hy)⟩

theorem scans_eq_some (h : scans vs l = some x) :
    ∃ pre v post, vs = pre ++ v :: post ∧ (∀ w ∈ pre, scan w l = none) ∧ scan v l = some x := by
  obtain ⟨pre, v, post, hvs, hx, hpre⟩ := List.findSome?_eq_some_iff.mp h
  exact ⟨pre, v, post, hvs, hpre, hx⟩

theorem scans_isSome (hv : v ∈ vs) (h : (scan v l).isSome = true) : (scans vs l).isSome = true :=
  List.findSome?_isSome_iff.mpr ⟨v, hv, h⟩

/-! ### Orders of the list -/

section

variable (rank : α → ℕ)

/-- Whatever ends one of the scans has a lower rank than whatever the same scan finds. -/
def StopsFirst (vs : List (α → Verdict)) : Prop :=
  ∀ v ∈ vs, ∀ x y, v x = .stop → v y = .found → rank x < rank y

/-- The list in the order of the ranks. -/
def byRank (l : List α) : List α := l.insertionSort fun x y => rank x ≤ rank y

variable {rank}

theorem byRank_perm : (byRank rank l).Perm l := List.perm_insertionSort _ l

theorem byRank_pairwise : (byRank rank l).Pairwise fun x y => rank x ≤ rank y := by
  have htotal : Std.Total fun x y : α => rank x ≤ rank y := ⟨fun x y => Nat.le_total _ _⟩
  have htrans : IsTrans α fun x y => rank x ≤ rank y := ⟨fun x y z => Nat.le_trans⟩
  exact List.pairwise_insertionSort _ l

theorem scan_eq_none_of_sorted (hv : ∀ x y, v x = .stop → v y = .found → rank x < rank y)
    (hl : l.Pairwise fun x y => rank x ≤ rank y) (hx : x ∈ l) (hstop : v x = .stop) :
    scan v l = none := by
  induction l with
  | nil => rfl
  | cons z zs ih =>
    obtain ⟨hz, hzs⟩ := List.pairwise_cons.mp hl
    simp only [scan]
    cases hvz : v z with
    | stop => rfl
    | found =>
      rcases List.mem_cons.mp hx with rfl | hmem
      · rw [hstop] at hvz
        cases hvz
      · have hlt := hv x z hstop hvz
        have hle := hz x hmem
        omega
    | skip =>
      rcases List.mem_cons.mp hx with rfl | hmem
      · rw [hstop] at hvz
        cases hvz
      · exact ih hzs hmem

theorem scan_byRank_eq_none (hv : ∀ x y, v x = .stop → v y = .found → rank x < rank y)
    (h : ¬ AlwaysFinds v l) : scan v (byRank rank l) = none := by
  by_cases hstop : ∃ x ∈ l, v x = .stop
  · obtain ⟨x, hx, hvx⟩ := hstop
    exact scan_eq_none_of_sorted hv byRank_pairwise (byRank_perm.mem_iff.mpr hx) hvx
  push Not at hstop
  cases hscan : scan v (byRank rank l) with
  | none => rfl
  | some x =>
    obtain ⟨hx, hvx⟩ := scan_eq_some hscan
    exact absurd ⟨⟨x, byRank_perm.mem_iff.mp hx, hvx⟩, hstop⟩ h

theorem scan_head_eq_none (hv : ∀ x y, v x = .stop → v y = .found → rank x < rank y)
    (hp : (y :: l').Perm l) (h : ¬ AlwaysFinds v l) (hy : v y ≠ .found) :
    scan v (y :: byRank rank l') = none := by
  simp only [scan]
  cases hvy : v y with
  | found => exact absurd hvy hy
  | stop => rfl
  | skip =>
    refine scan_byRank_eq_none hv fun hrest => h ?_
    obtain ⟨⟨x, hx, hfound⟩, hstop⟩ := hrest
    refine ⟨⟨x, hp.mem_iff.mp (.tail _ hx), hfound⟩, fun z hz => ?_⟩
    rcases List.mem_cons.mp (hp.mem_iff.mpr hz) with rfl | hmem
    · rw [hvy]
      decide
    · exact hstop z hmem

theorem scans_head (hvs : StopsFirst rank vs) {pre post : List (α → Verdict)}
    (hsplit : vs = pre ++ v :: post) (hp : (y :: l').Perm l) (hvy : v y = .found)
    (hpre : ∀ w ∈ pre, ¬ AlwaysFinds w l) : scans vs (y :: byRank rank l') = some y := by
  have hhead : ∀ w : α → Verdict, w y = .found → scan w (y :: byRank rank l') = some y := by
    intro w hw
    simp only [scan, hw]
  subst hsplit
  unfold scans
  induction pre with
  | nil =>
    rw [List.nil_append, List.findSome?_cons, hhead v hvy]
  | cons w ws ih =>
    rw [List.cons_append, List.findSome?_cons]
    by_cases hw : w y = .found
    · rw [hhead w hw]
    have hmem : w ∈ w :: ws ++ v :: post := List.mem_cons_self
    rw [scan_head_eq_none (hvs w hmem) hp (hpre w (.head _)) hw]
    refine ih (fun u hu => hpre u (.tail _ hu)) fun u hu => ?_
    exact hvs u (.tail _ hu)

/-! ### The exact condition -/

/-- The outcome wanted, for every order of the list: something is found exactly when `G` holds,
and when `S` does, what is found satisfies `R`. -/
def OrderFree (vs : List (α → Verdict)) (l : List α) (G S : Prop) (R : α → Prop) : Prop :=
  ∀ l', l'.Perm l → ((scans vs l').isSome = true ↔ G) ∧
    (S → ∃ x, scans vs l' = some x ∧ R x)

/-- The condition for it, on the list as it is. -/
structure Settled (vs : List (α → Verdict)) (l : List α) (G S : Prop) (R : α → Prop) : Prop where
  /-- nothing is wanted: no scan finds anything -/
  nothing : ¬ G → ∀ v ∈ vs, ∀ x ∈ l, v x ≠ .found
  /-- something is wanted: one of the scans always finds something -/
  something : G → ∃ v ∈ vs, AlwaysFinds v l
  /-- an entry without `R` that a scan finds is behind a scan that always finds something -/
  right : S → ∀ pre v post, vs = pre ++ v :: post → ∀ y ∈ l, v y = .found → ¬ R y →
    ∃ w ∈ pre, AlwaysFinds w l

theorem Settled.orderFree {G S : Prop} {R : α → Prop} (hSG : S → G) (h : Settled vs l G S R) :
    OrderFree vs l G S R := by
  intro l' hp
  have hsome : (scans vs l').isSome = true ↔ G := by
    constructor
    · intro hfound
      by_contra hG
      obtain ⟨x, hx⟩ := Option.isSome_iff_exists.mp hfound
      obtain ⟨pre, v, post, hvs, -, hscan⟩ := scans_eq_some hx
      obtain ⟨hmem, hvx⟩ := scan_eq_some hscan
      exact h.nothing hG v (by rw [hvs]; simp) x (hp.mem_iff.mp hmem) hvx
    · intro hG
      obtain ⟨v, hv, halways⟩ := h.something hG
      exact scans_isSome hv (scan_isSome_of_alwaysFinds (halways.perm hp))
  refine ⟨hsome, fun hS => ?_⟩
  obtain ⟨x, hx⟩ := Option.isSome_iff_exists.mp (hsome.mpr (hSG hS))
  refine ⟨x, hx, ?_⟩
  by_contra hR
  obtain ⟨pre, v, post, hvs, hpre, hscan⟩ := scans_eq_some hx
  obtain ⟨hmem, hvx⟩ := scan_eq_some hscan
  obtain ⟨w, hw, halways⟩ := h.right hS pre v post hvs x (hp.mem_iff.mp hmem) hvx hR
  have hfinds := scan_isSome_of_alwaysFinds (halways.perm hp)
  rw [hpre w hw] at hfinds
  cases hfinds

theorem OrderFree.settled {G S : Prop} {R : α → Prop} (hvs : StopsFirst rank vs)
    (h : OrderFree vs l G S R) : Settled vs l G S R where
  nothing hG v hv x hx hvx := by
    obtain ⟨l', hp⟩ : ∃ l', (x :: l').Perm l := by
      obtain ⟨s, t, rfl⟩ := List.append_of_mem hx
      exact ⟨s ++ t, List.perm_middle.symm⟩
    refine hG ((h (x :: l') hp).1.mp (scans_isSome hv ?_))
    simp only [scan, hvx]
    rfl
  something hG := by
    by_contra hnone
    push Not at hnone
    have hperm : (byRank rank l).Perm l := byRank_perm
    obtain ⟨x, hx⟩ := Option.isSome_iff_exists.mp ((h _ hperm).1.mpr hG)
    obtain ⟨pre, v, post, rfl, -, hscan⟩ := scans_eq_some hx
    have hv : v ∈ pre ++ v :: post := by simp
    rw [scan_byRank_eq_none (hvs v hv) (hnone v hv)] at hscan
    cases hscan
  right hS pre v post hsplit y hy hvy hR := by
    by_contra hnone
    push Not at hnone
    obtain ⟨l', hp⟩ : ∃ l', (y :: l').Perm l := by
      obtain ⟨s, t, rfl⟩ := List.append_of_mem hy
      exact ⟨s ++ t, List.perm_middle.symm⟩
    have hhead := scans_head hvs hsplit hp hvy hnone
    have hperm : (y :: byRank rank l').Perm l := (byRank_perm.cons y).trans hp
    obtain ⟨x, hx, hRx⟩ := (h _ hperm).2 hS
    rw [hhead] at hx
    cases hx
    exact hR hRx

theorem orderFree_iff {G S : Prop} {R : α → Prop} (hvs : StopsFirst rank vs) (hSG : S → G) :
    OrderFree vs l G S R ↔ Settled vs l G S R :=
  ⟨fun h => h.settled hvs, fun h => h.orderFree hSG⟩

end

end FirstMatch

end CloudNfs
