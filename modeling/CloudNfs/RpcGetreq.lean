import Mathlib.Data.List.Nodup
import Mathlib.Data.List.Range
import Mathlib.Logic.Function.Basic

/-!
# The sockets that are ready (`MainNFSD/nfs_rpc_dispatcher_thread.c`)

`select` gives the sockets that are ready as an `fd_set`, an array of words of 64 bits.
`nfs_rpc_getreq` looks for the bits of a word with `ffs`, whose argument is an `int`, and clears
what it has served with `1 << (bit - 1)`, which is an `int` as well.

* `serve` — one socket: a request structure is taken, filled by `SVC_RECV` on the transport of the
  socket, and given to a worker. What the server answers is in `Turn`.
* `servesReady_iff` — this holds exactly when every bit that is set is in the **lower half** of its
  word, and the server does not exit.
-/

namespace CloudNfs.Getreq

/-! ## The words of an `fd_set` -/

/-- The bits of the lower half of a word, in order. -/
def lowBits (mask : BitVec 64) : List ℕ := (List.range 32).filter fun k => mask.getLsbD k

/-- `ffs(mask)`: the mask is converted to an `int`. -/
def ffs (mask : BitVec 64) : ℕ :=
  match (List.range 32).find? fun k => (mask.setWidth 32).getLsbD k with
  | some k => k + 1
  | none => 0

/-- `mask ^= (1 << (bit - 1))`: the `int` is extended with its sign. -/
def clear (mask : BitVec 64) (bit : ℕ) : BitVec 64 :=
  mask ^^^ (1#32 <<< (bit - 1)).signExtend 64

def isSet (words : List (BitVec 64)) (sock : ℕ) : Bool :=
  (words.getD (sock / 64) 0).getLsbD (sock % 64)

def ready (words : List (BitVec 64)) : List ℕ :=
  (List.range (64 * words.length)).filter fun sock => isSet words sock

variable {mask : BitVec 64} {words : List (BitVec 64)} {k sock : ℕ}

theorem ffs_eq : ffs mask = match (lowBits mask).head? with
    | some k => k + 1
    | none => 0 := by
  have hlow : ∀ k ∈ List.range 32, (mask.setWidth 32).getLsbD k = mask.getLsbD k := by
    intro k hk
    rw [BitVec.getLsbD_setWidth, decide_eq_true (List.mem_range.mp hk), Bool.true_and]
  have hfind : ((List.range 32).find? fun k => (mask.setWidth 32).getLsbD k) =
      (lowBits mask).head? := by
    rw [lowBits, ← List.head?_filter, List.filter_congr hlow]
  rw [ffs, hfind]

theorem lowBits_eq_nil_of_ffs (h : ffs mask = 0) : lowBits mask = [] := by
  rw [ffs_eq] at h
  cases hlow : lowBits mask with
  | nil => rfl
  | cons k rest =>
    rw [hlow] at h
    cases h

theorem lowBits_clear {bit : ℕ} (h : ffs mask = bit + 1) :
    lowBits mask = bit :: lowBits (clear mask (bit + 1)) := by
  rw [ffs_eq] at h
  cases hlow : lowBits mask with
  | nil =>
    rw [hlow] at h
    cases h
  | cons k rest =>
    rw [hlow] at h
    obtain rfl : k = bit := Nat.succ.inj h
    have hnodup : (k :: rest).Nodup := hlow ▸ List.nodup_range.filter _
    have hmem : k ∈ lowBits mask := hlow ▸ List.mem_cons_self
    obtain ⟨hlt, hset⟩ := List.mem_filter.mp hmem
    have hlt := List.mem_range.mp hlt
    have hclear : ∀ j ∈ List.range 32, (clear mask (k + 1)).getLsbD j =
        (decide (j ≠ k) && mask.getLsbD j) := by
      intro j hj
      have hj := List.mem_range.mp hj
      rw [clear, BitVec.getLsbD_xor, BitVec.getLsbD_signExtend, Nat.add_sub_cancel,
        ← BitVec.twoPow_eq, BitVec.getLsbD_twoPow]
      by_cases hjk : j = k
      · subst hjk
        have hj' : j < 64 := by omega
        simp [hj, hj', hset]
      · simp [hj, hjk, Ne.symm hjk]
    have hrest : lowBits (clear mask (k + 1)) = (lowBits mask).filter fun j => decide (j ≠ k) := by
      rw [lowBits, lowBits, List.filter_filter]
      exact List.filter_congr hclear
    rw [hrest, hlow, List.filter_cons_of_neg (by simp)]
    congr 1
    refine (List.filter_eq_self.mpr fun j hj => ?_).symm
    refine decide_eq_true fun hjk => ?_
    exact (List.nodup_cons.mp hnodup).1 (hjk ▸ hj)

/-! ## The code -/

/-- `nfs_svc_data`: the sockets of the services; NLM and RQUOTA may be left out of the build. -/
structure SvcData where
  socketNfsUdp : ℤ
  socketMntUdp : ℤ
  socketNlmUdp : Option ℤ
  socketRquotaUdp : Option ℤ
  socketNfsTcp : ℤ
  socketMntTcp : ℤ
  socketNlmTcp : Option ℤ
  socketRquotaTcp : Option ℤ

/-- `pnfsreq->xprt` -/
inductive Transport where
  /-- `nfs_udp_xprt` of the request structure -/
  | nfsUdp
  /-- `mnt_udp_xprt` -/
  | mntUdp
  /-- `nlm_udp_xprt` -/
  | nlmUdp
  /-- `rquota_udp_xprt` -/
  | rquotaUdp
  | nfsTcp
  | mntTcp
  | nlmTcp
  | rquotaTcp
  /-- the transport of a client that is connected -/
  | connected (xprt : ℕ)

/-- The transport that `SVC_RECV` is called on. -/
def transport (svc : SvcData) (xprt sock : ℕ) : Transport :=
  if svc.socketNfsUdp = sock then .nfsUdp
  else if svc.socketMntUdp = sock then .mntUdp
  else if svc.socketNlmUdp = some (sock : ℤ) then .nlmUdp
  else if svc.socketRquotaUdp = some (sock : ℤ) then .rquotaUdp
  else if svc.socketNfsTcp = sock then .nfsTcp
  else if svc.socketMntTcp = sock then .mntTcp
  else if svc.socketNlmTcp = some (sock : ℤ) then .nlmTcp
  else if svc.socketRquotaTcp = some (sock : ℤ) then .rquotaTcp
  else .connected xprt

/-- What the server answers while a socket is served. -/
structure Turn where
  /-- `nfs_rpc_get_worker_index` gives a worker -/
  worker : Bool
  /-- there is a request structure in its pool, or memory for one -/
  pool : Bool
  /-- `SVC_RECV` -/
  status : Bool
  /-- `SVC_STAT` is `XPRT_DIED` -/
  died : Bool
  /-- `LRU_new_entry` of the pending requests of the worker -/
  entry : Bool
  signal : Bool

def Turn.exits (t : Turn) : Bool :=
  !t.worker || !t.pool || t.status && (!t.entry || !t.signal)

structure State where
  xports : ℕ → Option ℕ
  /-- the calls of `SVC_RECV`, with the socket -/
  received : List (ℕ × Transport)
  /-- the number of sockets that were served -/
  turn : ℕ

section

variable (svc : SvcData) (turns : ℕ → Turn)

/-- The body of the inner loop; `none` when the server exits. -/
def serve (s : State) (sock : ℕ) : Option State :=
  match s.xports sock with
  -- `Incoherency found in Xports array`
  | none => some s
  | some xprt =>
    let t := turns s.turn
    if !t.worker || !t.pool then none
    else
      let s :=
        { s with
          received := s.received ++ [(sock, transport svc xprt sock)], turn := s.turn + 1 }
      if t.status then
        -- the request is given to the worker
        if !t.entry || !t.signal then none else some s
      else if t.died then some { s with xports := Function.update s.xports sock none }
      else some s

/-- The inner loop, over the bits of a word. -/
def scanWord (sock : ℕ) (mask : BitVec 64) (s : State) : Option State :=
  match h : ffs mask with
  | 0 => some s
  | bit + 1 =>
    (serve svc turns s (sock + bit)).bind fun s => scanWord sock (clear mask (bit + 1)) s
termination_by (lowBits mask).length
decreasing_by
  rw [lowBits_clear h]
  exact Nat.lt_succ_self _

/-- The outer loop, over the words. -/
def scanWords : ℕ → List (BitVec 64) → State → Option State
  | _, [], s => some s
  | sock, mask :: words, s =>
    (scanWord svc turns sock mask s).bind fun s => scanWords (sock + 64) words s

def nfsRpcGetreq (words : List (BitVec 64)) (xports : ℕ → Option ℕ) : Option State :=
  scanWords svc turns 0 words ⟨xports, [], 0⟩

end

/-! ## The property -/

def TransportOf (svc : SvcData) (xports : ℕ → Option ℕ) (sock : ℕ) : Transport → Prop
  | .nfsUdp => svc.socketNfsUdp = sock
  | .mntUdp => svc.socketMntUdp = sock
  | .nlmUdp => svc.socketNlmUdp = some (sock : ℤ)
  | .rquotaUdp => svc.socketRquotaUdp = some (sock : ℤ)
  | .nfsTcp => svc.socketNfsTcp = sock
  | .mntTcp => svc.socketMntTcp = sock
  | .nlmTcp => svc.socketNlmTcp = some (sock : ℤ)
  | .rquotaTcp => svc.socketRquotaTcp = some (sock : ℤ)
  | .connected xprt => xports sock = some xprt

/-- **Every socket that is ready is served once**: the function returns, and there was one
`SVC_RECV` for each bit that is set and none for another, each on the transport of its socket. -/
def ServesReady (svc : SvcData) (turns : ℕ → Turn) (words : List (BitVec 64))
    (xports : ℕ → Option ℕ) : Prop :=
  ∃ s, nfsRpcGetreq svc turns words xports = some s ∧
    (∀ sock, (s.received.map Prod.fst).count sock = if isSet words sock then 1 else 0) ∧
    ∀ r ∈ s.received, TransportOf svc xports r.1 r.2

section

variable {svc : SvcData} {turns : ℕ → Turn} {s : State} {xports : ℕ → Option ℕ} {x : ℕ → ℕ}

/-! ## One socket -/

theorem transportOf_transport {xprt : ℕ} (h : xports sock = some xprt) :
    TransportOf svc xports sock (transport svc xprt sock) := by
  unfold transport
  repeat' split
  all_goals assumption

theorem serve_eq (svc : SvcData) (turns : ℕ → Turn) {xprt : ℕ} (h : s.xports sock = some xprt) :
    ((turns s.turn).exits = true → serve svc turns s sock = none) ∧
      ((turns s.turn).exits = false → ∃ s', serve svc turns s sock = some s' ∧
        s'.turn = s.turn + 1 ∧
        s'.received = s.received ++ [(sock, transport svc xprt sock)] ∧
        ∀ other, other ≠ sock → s'.xports other = s.xports other) := by
  unfold serve Turn.exits
  rw [h]
  dsimp only
  generalize turns s.turn = t
  obtain ⟨worker, pool, status, died, entry, signal⟩ := t
  have hdied : ∀ other, other ≠ sock → Function.update s.xports sock none other = s.xports other :=
    fun other hne => Function.update_of_ne hne ..
  constructor
  · cases worker <;> cases pool <;> cases status <;> cases entry <;> cases signal <;> simp
  · intro hgoes
    cases worker <;> cases pool <;> cases status <;> cases died <;> cases entry <;>
      cases signal <;> simp at hgoes ⊢
    all_goals exact hdied

/-! ## The loops -/

theorem scanWord_eq (sock : ℕ) (mask : BitVec 64) (s : State) :
    scanWord svc turns sock mask s =
      ((lowBits mask).map fun bit => sock + bit).foldlM (serve svc turns) s := by
  fun_induction scanWord svc turns sock mask s with
  | case1 mask s h =>
    rw [lowBits_eq_nil_of_ffs h]
    rfl
  | case2 mask s bit h ih =>
    rw [lowBits_clear h, List.map_cons, List.foldlM_cons]
    cases serve svc turns s (sock + bit) with
    | none => rfl
    | some s' => exact ih s'

/-- The sockets that the loops serve, from a word on. -/
def served : ℕ → List (BitVec 64) → List ℕ
  | _, [] => []
  | sock, mask :: words => (lowBits mask).map (fun bit => sock + bit) ++ served (sock + 64) words

theorem scanWords_eq (sock : ℕ) (words : List (BitVec 64)) (s : State) :
    scanWords svc turns sock words s = (served sock words).foldlM (serve svc turns) s := by
  induction words generalizing sock s with
  | nil => rfl
  | cons mask words ih =>
    rw [scanWords, scanWord_eq, served, List.foldlM_append]
    exact congrArg _ (funext fun s' => ih (sock + 64) s')

theorem mem_lowBits {bit : ℕ} : bit ∈ lowBits mask ↔ bit < 32 ∧ mask.getLsbD bit = true := by
  rw [lowBits, List.mem_filter, List.mem_range]

theorem pairwise_served (start : ℕ) (words : List (BitVec 64)) :
    (served start words).Pairwise (· < ·) ∧ ∀ sock ∈ served start words, start ≤ sock := by
  induction words generalizing start with
  | nil => exact ⟨List.Pairwise.nil, nofun⟩
  | cons mask words ih =>
    obtain ⟨hpairwise, hle⟩ := ih (start + 64)
    have hlow : ∀ sock ∈ (lowBits mask).map (fun bit => start + bit),
        start ≤ sock ∧ sock < start + 64 := by
      intro sock hsock
      obtain ⟨bit, hbit, rfl⟩ := List.mem_map.mp hsock
      have hlt := (mem_lowBits.mp hbit).1
      omega
    constructor
    · refine List.pairwise_append.mpr ⟨?_, hpairwise, fun a ha b hb => ?_⟩
      · refine List.pairwise_map.mpr ((List.pairwise_lt_range.filter _).imp fun hlt => ?_)
        exact Nat.add_lt_add_left hlt start
      · exact lt_of_lt_of_le (hlow a ha).2 (hle b hb)
    · intro sock hsock
      rcases List.mem_append.mp hsock with hsock | hsock
      · exact (hlow sock hsock).1
      · exact (Nat.le_add_right _ _).trans (hle sock hsock)

theorem mem_served (start sock : ℕ) (words : List (BitVec 64)) :
    start + sock ∈ served start words ↔ isSet words sock = true ∧ sock % 64 < 32 := by
  induction words generalizing start sock with
  | nil => simp [served, isSet]
  | cons mask words ih =>
    rw [served, List.mem_append, List.mem_map]
    by_cases hfirst : sock < 64
    · have hword : sock / 64 = 0 := Nat.div_eq_of_lt hfirst
      have hbit : sock % 64 = sock := Nat.mod_eq_of_lt hfirst
      have hset : isSet (mask :: words) sock = mask.getLsbD sock := by
        rw [isSet, hword, hbit]
        rfl
      rw [hset, hbit]
      constructor
      · rintro (⟨bit, hlow, heq⟩ | hlater)
        · obtain rfl : bit = sock := Nat.add_left_cancel heq
          exact (mem_lowBits.mp hlow).symm
        · have := (pairwise_served (start + 64) words).2 _ hlater
          omega
      · exact fun h => Or.inl ⟨sock, mem_lowBits.mpr h.symm, rfl⟩
    · obtain ⟨rest, rfl⟩ := Nat.exists_eq_add_of_le (Nat.le_of_not_lt hfirst)
      have hword : (64 + rest) / 64 = rest / 64 + 1 := by omega
      have hbit : (64 + rest) % 64 = rest % 64 := by omega
      have hset : isSet (mask :: words) (64 + rest) = isSet words rest := by
        rw [isSet, isSet, hword, hbit]
        rfl
      rw [hset, hbit, ← Nat.add_assoc, ih, or_iff_right_iff_imp]
      rintro ⟨bit, hlow, heq⟩
      have := (mem_lowBits.mp hlow).1
      omega

/-- **The loops over sockets that have transports**: each is served once, in order, and the server
goes on to the end exactly when none of the turns makes it exit. -/
theorem foldlM_serve (svc : SvcData) (turns : ℕ → Turn) {socks : List ℕ} (hnodup : socks.Nodup)
    (hx : ∀ sock ∈ socks, s.xports sock = some (x sock)) :
    ((∀ k < socks.length, (turns (s.turn + k)).exits = false) ↔
      ∃ s', socks.foldlM (serve svc turns) s = some s') ∧
      ∀ s', socks.foldlM (serve svc turns) s = some s' →
        s'.received = s.received ++ socks.map fun sock => (sock, transport svc (x sock) sock) := by
  induction socks generalizing s with
  | nil =>
    refine ⟨iff_of_true nofun ⟨s, rfl⟩, fun s' h => ?_⟩
    cases h
    simp
  | cons sock socks ih =>
    obtain ⟨hnotin, hnodup⟩ := List.nodup_cons.mp hnodup
    obtain ⟨hexits, hgoes⟩ := serve_eq svc turns (hx sock (.head _))
    rw [List.foldlM_cons]
    cases hturn : (turns s.turn).exits with
    | true =>
      rw [hexits hturn]
      refine ⟨iff_of_false (fun h => ?_) ?_, nofun⟩
      · have hfirst := h 0 (Nat.succ_pos _)
        rw [Nat.add_zero, hturn] at hfirst
        cases hfirst
      · rintro ⟨s', hs'⟩
        cases hs'
    | false =>
      obtain ⟨s1, hserve, hnext, hreceived, hothers⟩ := hgoes hturn
      rw [hserve]
      have hx1 : ∀ other ∈ socks, s1.xports other = some (x other) := by
        intro other hother
        rw [hothers other fun heq => hnotin (heq ▸ hother)]
        exact hx other (.tail _ hother)
      obtain ⟨hiff, hrest⟩ := ih hnodup hx1
      constructor
      · refine Iff.trans ?_ hiff
        rw [hnext]
        constructor
        · intro h k hk
          have := h (k + 1) (Nat.succ_lt_succ hk)
          rwa [Nat.add_right_comm, Nat.add_assoc] at *
        · rintro h (_ | k) hk
          · exact hturn
          · have := h k (Nat.lt_of_succ_lt_succ hk)
            rwa [Nat.add_assoc, Nat.add_comm 1] at this
      · intro s' hs'
        rw [hrest s' hs', hreceived, List.append_assoc]
        rfl

/-! ## All sockets -/

theorem mem_ready : sock ∈ ready words ↔ isSet words sock = true := by
  rw [ready, List.mem_filter, List.mem_range, and_iff_right_iff_imp]
  intro hset
  by_contra hlarge
  have hnone : words[sock / 64]? = none := List.getElem?_eq_none (by omega)
  rw [isSet, List.getD_eq_getElem?_getD, hnone] at hset
  simp at hset

theorem nodup_served (words : List (BitVec 64)) : (served 0 words).Nodup :=
  (pairwise_served 0 words).1.imp fun hlt => Nat.ne_of_lt hlt

theorem served_perm (h : ∀ sock, isSet words sock = true → sock % 64 < 32) :
    (served 0 words).Perm (ready words) := by
  have hnodup := nodup_served words
  refine (List.perm_ext_iff_of_nodup hnodup (List.nodup_range.filter _)).mpr fun sock => ?_
  have hserved := mem_served 0 sock words
  rw [Nat.zero_add] at hserved
  exact hserved.trans (Iff.trans (and_iff_left_of_imp (h sock)) mem_ready.symm)

/-- **Every socket that is ready is served once** exactly when its bit is in the lower half of its
word, for each of them, and the server does not exit while it serves them. -/
theorem servesReady_iff (svc : SvcData) (turns : ℕ → Turn) (words : List (BitVec 64))
    (xports : ℕ → Option ℕ) (hxports : ∀ sock, isSet words sock = true → xports sock ≠ none) :
    ServesReady svc turns words xports ↔
      (∀ sock, isSet words sock = true → sock % 64 < 32) ∧
        ∀ k < (ready words).length, (turns k).exits = false := by
  have hnodup := nodup_served words
  have hmem : ∀ sock, sock ∈ served 0 words ↔ isSet words sock = true ∧ sock % 64 < 32 := by
    intro sock
    have hserved := mem_served 0 sock words
    rwa [Nat.zero_add] at hserved
  have hx : ∀ sock ∈ served 0 words, xports sock = some ((xports sock).getD 0) := by
    intro sock hsock
    obtain ⟨xprt, hxprt⟩ := Option.ne_none_iff_exists'.mp (hxports sock ((hmem sock).mp hsock).1)
    rw [hxprt]
    rfl
  obtain ⟨hexits, hreceived⟩ := foldlM_serve svc turns (s := ⟨xports, [], 0⟩)
    (x := fun sock => (xports sock).getD 0) hnodup hx
  simp only [Nat.zero_add, List.nil_append] at hexits hreceived
  rw [ServesReady, nfsRpcGetreq, scanWords_eq]
  constructor
  · rintro ⟨s, hs, hcount, -⟩
    have hlow : ∀ sock, isSet words sock = true → sock % 64 < 32 := by
      intro sock hset
      have hone := hcount sock
      rw [if_pos hset, hreceived s hs, List.map_map] at hone
      have hserved : sock ∈ served 0 words := by
        have hin := List.count_pos_iff.mp (hone ▸ Nat.zero_lt_one)
        simpa using hin
      exact ((hmem sock).mp hserved).2
    refine ⟨hlow, ?_⟩
    rw [← (served_perm hlow).length_eq]
    exact hexits.mpr ⟨s, hs⟩
  · rintro ⟨hlow, hturns⟩
    rw [← (served_perm hlow).length_eq] at hturns
    obtain ⟨s, hs⟩ := hexits.mp hturns
    refine ⟨s, hs, fun sock => ?_, fun r hr => ?_⟩
    · have hsocks : s.received.map Prod.fst = served 0 words := by
        rw [hreceived s hs, List.map_map]
        exact List.map_id _
      rw [hsocks, hnodup.count]
      simp only [hmem]
      by_cases hset : isSet words sock = true
      · rw [if_pos ⟨hset, hlow sock hset⟩, if_pos hset]
      · rw [if_neg fun h => hset h.1, if_neg hset]
    · rw [hreceived s hs] at hr
      obtain ⟨sock, hsock, rfl⟩ := List.mem_map.mp hr
      exact transportOf_transport (hx sock hsock)

end

/-! ## Runs on fixed sets -/

/-- The services of NFS and MOUNT, at the sockets 3 to 6. -/
def fourSockets : SvcData := ⟨3, 4, none, none, 5, 6, none, none⟩

def goodTurn : Turn := ⟨true, true, true, false, true, true⟩

/-- The sockets 3 and 31 are ready. -/
theorem servesReady_low : ServesReady fourSockets (fun _ => goodTurn) [0x80000008#64]
    fun sock => some sock :=
  (servesReady_iff fourSockets (fun _ => goodTurn) [0x80000008#64] (fun sock => some sock)
    (fun _ _ => Option.some_ne_none _)).mpr (by
      refine ⟨fun sock hset => ?_, fun _ _ => rfl⟩
      have hready : ready [0x80000008#64] = [3, 31] := by decide +kernel
      have hmem := mem_ready.mpr hset
      rw [hready] at hmem
      rcases List.mem_cons.mp hmem with rfl | hmem
      · decide
      · obtain rfl := List.mem_singleton.mp hmem
        decide)

def socket40 : List (BitVec 64) := 0x10000000000#64 :: List.replicate 15 0#64

/-- **The slip**: it is not served. -/
theorem not_servesReady_high : ¬ ∀ (svc : SvcData) (turns : ℕ → Turn) (words : List (BitVec 64))
    (xports : ℕ → Option ℕ), words.length = 16 → (∀ k, (turns k).exits = false) →
    (∀ sock, isSet words sock = true → xports sock ≠ none) →
    ServesReady svc turns words xports := by
  intro h
  obtain ⟨s, hs, hcount, -⟩ := h fourSockets (fun _ => goodTurn) socket40 (fun sock => some sock)
    rfl (fun _ => rfl) fun _ _ => Option.some_ne_none _
  have hserved : served 0 socket40 = [] := by decide +kernel
  have hset : isSet socket40 40 = true := by decide +kernel
  rw [nfsRpcGetreq, scanWords_eq, hserved] at hs
  cases hs
  have hone := hcount 40
  rw [if_pos hset] at hone
  cases hone

end CloudNfs.Getreq
