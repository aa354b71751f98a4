import Mathlib.Data.Int.Notation
import CloudNfs.Prealloc

/-!
# The client tables (`support/nfs_client_id.c`)

The record of a client is found under its clientid in `ht_client_id`, and under the name of the
client in `ht_client_id_reverse`. The clientid is a digest of the name,
`nfs_client_id_basic_compute`.

Both functions that write a record take one from the pool of the worker thread, enter it into the
first table and then into the second one. They are given the pool by value, and so is
`nfs_client_id_remove`: the pool of the worker stays as it is, whatever they do with it.
-/

namespace CloudNfs.ClientId

open Function (update update_self update_of_ne)

open Prealloc

/-! ## Strings -/

def maxNamLen : ℕ := 255

def nfs4VerifierSize : ℕ := 8

/-- The string in a buffer of `n` bytes. -/
def cString (n : ℕ) (buf : List UInt8) : List UInt8 := (buf.take n).takeWhile (· ≠ 0)

/-- `strncpy`: the bytes of the destination. -/
def strncpy (src : List UInt8) (n : ℕ) : List UInt8 :=
  cString n src ++ List.replicate (n - (cString n src).length) 0

/-- `strncmp` says that the strings are the same. -/
def strncmpEq (a b : List UInt8) (n : ℕ) : Bool := decide (cString n a = cString n b)

/-- `snprintf` of an `unsigned int` with `"%u"` into a buffer of `n` bytes: what it does not write
stays. -/
def snprintfUnsigned (buf : List UInt8) (n : ℕ) (x : UInt32) : List UInt8 :=
  let digits := (Nat.toDigits 10 x.toNat).map fun c => c.toNat.toUInt8
  let written := digits.take (n - 1) ++ [0]
  written ++ buf.drop written.length

theorem takeWhile_append_cons {α : Type} {p : α → Bool} {a : α} (ha : p a = false)
    (l1 l2 : List α) : (l1 ++ a :: l2).takeWhile p = l1.takeWhile p := by
  induction l1 with
  | nil => simp [ha]
  | cons b l1 ih => rw [List.cons_append, List.takeWhile_cons, List.takeWhile_cons, ih]

theorem cString_snprintfUnsigned {n : ℕ} (hn : 0 < n) (buf buf' : List UInt8) (x : UInt32) :
    cString n (snprintfUnsigned buf n x) = cString n (snprintfUnsigned buf' n x) := by
  have hstring : ∀ buf, cString n (snprintfUnsigned buf n x) =
      (((Nat.toDigits 10 x.toNat).map fun c => c.toNat.toUInt8).take (n - 1)).takeWhile
        (· ≠ 0) := by
    intro buf
    rw [cString, snprintfUnsigned]
    generalize (Nat.toDigits 10 x.toNat).map (fun c => c.toNat.toUInt8) = digits
    have hlen : (digits.take (n - 1) ++ [0]).length ≤ n := by
      rw [List.length_append, List.length_take, List.length_singleton]
      omega
    rw [List.take_append, List.take_of_length_le hlen, List.append_assoc, List.singleton_append]
    exact takeWhile_append_cons (by simp) _ _
  rw [hstring, hstring]

/-! ## The digest -/

/-- The byte at `stock[j]` in `nfs_client_id_basic_compute`. The name fills the buffer with zeros
behind it; from `MAXNAMLEN` on this is what the stack has there. -/
def stockAt (name : List UInt8) (stack : ℕ → UInt8) (j : ℕ) : UInt8 :=
  if j < maxNamLen then name.getD j 0 else stack (j - maxNamLen)

/-- `nfs_client_id_basic_compute` of a name that fits into the buffer. In `str[i]` the pointer `str`
has been moved by `i` already, so the loop looks at every other byte. -/
def nfsClientIdBasicCompute (name : List UInt8) (stack : ℕ → UInt8) : UInt64 :=
  let sum := (List.range name.length).foldl
    (fun sum i =>
      let c := (stockAt name stack (i + i)).toInt8.toInt32.toUInt32
      sum + ((c * 10) ^^^ i.toUInt32))
    (0 : UInt32)
  sum.toUInt64

/-! ## Data -/

/-- `nfs_clientid_confirm_state_t`. -/
inductive ConfirmState where
  /-- `CONFIRMED_CLIENT_ID` -/
  | confirmed
  /-- `UNCONFIRMED_CLIENT_ID` -/
  | unconfirmed
  /-- `REBOOTED_CLIENT_ID` -/
  | rebooted
  /-- `CB_RECONFIGURED_CLIENT_ID` -/
  | cbReconfigured
  deriving DecidableEq

/-- `nfs_client_id_t`, for credentials of the type `Cred`. -/
structure ClientRecord (Cred : Type) where
  clientName : List UInt8
  clientid : UInt64
  cbProgram : UInt32
  /-- the address for callbacks -/
  clientRAddr : List UInt8
  clientRNetid : List UInt8
  verifier : List UInt8
  incomingVerifier : List UInt8
  lastRenew : ℤ
  confirmed : ConfirmState
  /-- who has made the record -/
  credential : Cred
  serverOwner : List UInt8
  serverScope : List UInt8
  nbSession : UInt32
  /-- `create_session_slot.cache_used` -/
  createSessionCacheUsed : Bool
  createSessionSequence : UInt32

structure Param (Cred : Type) where
  nbClientIdPrealloc : ℕ
  serverBootTime : UInt32
  /-- `nfs_compare_clientcred`, when `_NFSV4_COMPARE_CRED_IN_SETCLIENTID` is defined -/
  compareCred : Option (Cred → Cred → Bool)

/-- The tables, with the pools of the workers. -/
structure Clients (Cred : Type) where
  mem : ℕ → ClientRecord Cred
  htClientId : UInt64 → Option ℕ
  htClientIdReverse : List UInt8 → Option ℕ
  /-- `clientid_pool` of each worker -/
  pools : Pools

/-- The allocations that a store makes. -/
structure StoreEnv where
  /-- new records -/
  alloc : Bool
  /-- the key of the first table -/
  key : Bool
  keyReverse : Bool
  /-- a node of the first table -/
  node : Bool
  nodeReverse : Bool

/-- There is memory for everything. -/
def StoreEnv.ample : StoreEnv := ⟨true, true, true, true, true⟩

inductive ClientIdStatus where
  | success
  | insertMallocError
  | notFound

/-! ## Functions -/

section

variable {Cred : Type}

def setEntry {κ : Type} [DecidableEq κ] (table : κ → Option ℕ) (key : κ) (entry : Option ℕ) :
    κ → Option ℕ :=
  fun k => if k = key then entry else table k

variable {κ : Type} {table : κ → Option ℕ}

theorem setEntry_eq_update [DecidableEq κ] (table : κ → Option ℕ) (key : κ) (entry : Option ℕ) :
    setEntry table key entry = update table key entry := by
  funext k
  rw [setEntry, Function.update_apply]

/-- The body of `nfs_client_id_add` and `nfs_client_id_set`, for the worker `w`. -/
def storeRecord (param : Param Cred) (c : Clients Cred) (w : ℕ) (clientid : UInt64)
    (clientRecord : ClientRecord Cred) (env : StoreEnv) : Clients Cred × ClientIdStatus :=
  match c.pools.get w param.nbClientIdPrealloc env.alloc with
  | none => (c, .insertMallocError)
  | some (pnfsClientId, pools) =>
    -- only the argument of the function has the new pool
    let c := { c with pools := { c.pools with fresh := pools.fresh } }
    if env.key = false then (c, .insertMallocError)
    else if env.keyReverse = false then (c, .insertMallocError)
    else
      let c := { c with mem := update c.mem pnfsClientId clientRecord }
      -- `HashTable_Test_And_Set` only needs memory for a key that is not there
      if c.htClientId clientid = none ∧ env.node = false then (c, .insertMallocError)
      else
        let c := { c with htClientId := setEntry c.htClientId clientid (some pnfsClientId) }
        if c.htClientIdReverse clientRecord.clientName = none ∧ env.nodeReverse = false then
          (c, .insertMallocError)
        else
          ({ c with
              htClientIdReverse :=
                setEntry c.htClientIdReverse clientRecord.clientName (some pnfsClientId) },
            .success)

def nfsClientIdAdd (param : Param Cred) (c : Clients Cred) (w : ℕ) (clientid : UInt64)
    (clientRecord : ClientRecord Cred) (env : StoreEnv) : Clients Cred × ClientIdStatus :=
  storeRecord param c w clientid clientRecord env

def nfsClientIdSet (param : Param Cred) (c : Clients Cred) (w : ℕ) (clientid : UInt64)
    (clientRecord : ClientRecord Cred) (env : StoreEnv) : Clients Cred × ClientIdStatus :=
  storeRecord param c w clientid clientRecord env

/-- `nfs_client_id_Get_Pointer`; `key` says whether there is memory for the key. -/
def nfsClientIdGetPointer (c : Clients Cred) (clientid : UInt64) (key : Bool) :
    Except ClientIdStatus ℕ :=
  if key = false then .error .insertMallocError
  else
    match c.htClientId clientid with
    | none => .error .notFound
    | some pnfsClientId => .ok pnfsClientId

/-- `nfs_client_id_get`: a copy of the record. -/
def nfsClientIdGet (c : Clients Cred) (clientid : UInt64) (key : Bool) :
    Except ClientIdStatus (ClientRecord Cred) :=
  (nfsClientIdGetPointer c clientid key).map c.mem

/-- `nfs_client_id_remove`: `RELEASE_PREALLOC` puts the record in front of the argument, which
nobody looks at again. -/
def nfsClientIdRemove (c : Clients Cred) (clientid : UInt64) (key : Bool) :
    Clients Cred × ClientIdStatus :=
  if key = false then (c, .insertMallocError)
  else
    match c.htClientId clientid with
    | none => (c, .notFound)
    | some pnfsClientId =>
      let c := { c with htClientId := setEntry c.htClientId clientid none }
      let name := (c.mem pnfsClientId).clientName
      match c.htClientIdReverse name with
      | none => (c, .notFound)
      | some _ =>
        ({ c with htClientIdReverse := setEntry c.htClientIdReverse name none }, .success)

/-- The tables of a server that has just started; memory has any contents. -/
def init (mem : ℕ → ClientRecord Cred) : Clients Cred :=
  ⟨mem, fun _ => none, fun _ => none, .empty⟩

/-! ## What can be found -/

def Clients.record (c : Clients Cred) (clientid : UInt64) : Option (ClientRecord Cred) :=
  (c.htClientId clientid).map c.mem

def Clients.recordReverse (c : Clients Cred) (name : List UInt8) : Option (ClientRecord Cred) :=
  (c.htClientIdReverse name).map c.mem

/-- The name that `ht_client_id` has under a clientid. -/
def Clients.nameOf (c : Clients Cred) (clientid : UInt64) : Option (List UInt8) :=
  (c.record clientid).map ClientRecord.clientName

/-- The clientid that `ht_client_id_reverse` has under a name. -/
def Clients.clientidOf (c : Clients Cred) (name : List UInt8) : Option UInt64 :=
  (c.recordReverse name).map ClientRecord.clientid

/-- The pools are empty, and what is in the tables is allocated. -/
structure Clients.WellFormed (c : Clients Cred) : Prop where
  pool : ∀ w, c.pools.pool w = []
  below : ∀ clientid p, c.htClientId clientid = some p → p < c.pools.fresh
  belowReverse : ∀ name p, c.htClientIdReverse name = some p → p < c.pools.fresh

variable {param : Param Cred} {c c' : Clients Cred} {w : ℕ} {clientid : UInt64}
  {clientRecord : ClientRecord Cred} {env : StoreEnv} {key : Bool}

theorem wellFormed_init (mem : ℕ → ClientRecord Cred) : (init mem).WellFormed :=
  ⟨fun _ => rfl, nofun, nofun⟩

/-- A store gets as far as writing to `ht_client_id`. -/
structure ReachesTable (param : Param Cred) (c : Clients Cred) (clientid : UInt64)
    (env : StoreEnv) : Prop where
  record : param.nbClientIdPrealloc ≠ 0 ∧ env.alloc = true
  keys : env.key = true ∧ env.keyReverse = true
  node : c.record clientid = none → env.node = true

/-- How a store ends, and what the tables have then. -/
inductive StoreOutcome (param : Param Cred) (c : Clients Cred) (clientid : UInt64)
    (clientRecord : ClientRecord Cred) (env : StoreEnv) (c' : Clients Cred) :
    ClientIdStatus → Prop where
  | kept (stops : ¬ ReachesTable param c clientid env) (record : c'.record = c.record)
      (reverse : c'.recordReverse = c.recordReverse) :
      StoreOutcome param c clientid clientRecord env c' .insertMallocError
  | half (reaches : ReachesTable param c clientid env)
      (absent : c.recordReverse clientRecord.clientName = none)
      (node : env.nodeReverse = false)
      (record : c'.record = update c.record clientid (some clientRecord))
      (reverse : c'.recordReverse = c.recordReverse) :
      StoreOutcome param c clientid clientRecord env c' .insertMallocError
  | whole (reaches : ReachesTable param c clientid env)
      (node : c.recordReverse clientRecord.clientName = none → env.nodeReverse = true)
      (record : c'.record = update c.record clientid (some clientRecord))
      (reverse : c'.recordReverse =
        update c.recordReverse clientRecord.clientName (some clientRecord)) :
      StoreOutcome param c clientid clientRecord env c' .success

theorem nfsClientIdGet_eq_ok :
    nfsClientIdGet c clientid key = .ok clientRecord ↔
      key = true ∧ c.record clientid = some clientRecord := by
  rw [nfsClientIdGet, nfsClientIdGetPointer, Clients.record]
  cases key with
  | false => simp [Except.map]
  | true => cases c.htClientId clientid <;> simp [Except.map]

theorem map_update_mem {mem : ℕ → ClientRecord Cred} {p : ℕ} (hp : ∀ k, table k ≠ some p) (k : κ) :
    (table k).map (update mem p clientRecord) = (table k).map mem := by
  cases hk : table k with
  | none => rfl
  | some q =>
    have hq : q ≠ p := by
      rintro rfl
      exact hp k hk
    simp [update_of_ne hq]

theorem map_update_table [DecidableEq κ] {mem : ℕ → ClientRecord Cred} {p : ℕ}
    (hp : ∀ k, table k ≠ some p) (k0 : κ) :
    (fun k => (update table k0 (some p) k).map (update mem p clientRecord)) =
      update (fun k => (table k).map mem) k0 (some clientRecord) := by
  funext k
  by_cases hk : k = k0
  · subst hk
    simp
  · rw [update_of_ne hk, update_of_ne hk]
    exact map_update_mem hp k

theorem below_update [DecidableEq κ] {n p0 : ℕ} (h : ∀ k p, table k = some p → p < n) (hp0 : p0 < n)
    (k0 : κ) : ∀ k p, update table k0 (some p0) k = some p → p < n := by
  intro k p hp
  by_cases hk : k = k0
  · subst hk
    rw [update_self] at hp
    cases hp
    exact hp0
  · rw [update_of_ne hk] at hp
    exact h k p hp

theorem get_of_pool_nil {P : Pools} {nb : ℕ} {alloc : Bool} (h : P.pool w = []) :
    (nb ≠ 0 ∧ alloc = true ∧ ∃ P', P.get w nb alloc = some (P.fresh, P') ∧ P.fresh < P'.fresh) ∨
      ¬ (nb ≠ 0 ∧ alloc = true) ∧ P.get w nb alloc = none := by
  by_cases hnew : nb ≠ 0 ∧ alloc = true
  · refine .inl ⟨hnew.1, hnew.2, ?_⟩
    obtain ⟨n, rfl⟩ := Nat.exists_eq_succ_of_ne_zero hnew.1
    have hstuff : P.stuff w (n + 1) alloc =
        ⟨update P.pool w (List.range' P.fresh (n + 1)), P.fresh + (n + 1)⟩ :=
      if_pos ⟨h, hnew⟩
    rw [Pools.get, hstuff]
    simp [List.range'_succ]
  · have hstuff : P.stuff w nb alloc = P := if_neg fun hall => hnew hall.2
    refine .inr ⟨hnew, ?_⟩
    rw [Pools.get, hstuff, h]

theorem storeRecord_outcome (h : c.WellFormed) (param : Param Cred) (w : ℕ) (clientid : UInt64)
    (clientRecord : ClientRecord Cred) (env : StoreEnv) :
    (storeRecord param c w clientid clientRecord env).1.WellFormed ∧
      StoreOutcome param c clientid clientRecord env
        (storeRecord param c w clientid clientRecord env).1
        (storeRecord param c w clientid clientRecord env).2 := by
  rw [storeRecord]
  simp only [setEntry_eq_update]
  rcases get_of_pool_nil (h.pool w) with ⟨hnb, halloc, P, hget, hfresh⟩ | ⟨hnew, hget⟩
  · rw [hget]
    dsimp only
    -- the tables point to nothing that is new
    have htable : ∀ k, c.htClientId k ≠ some c.pools.fresh :=
      fun k hk => Nat.lt_irrefl _ (h.below k _ hk)
    have hreverse : ∀ k, c.htClientIdReverse k ≠ some c.pools.fresh :=
      fun k hk => Nat.lt_irrefl _ (h.belowReverse k _ hk)
    have hbelow : ∀ k p, c.htClientId k = some p → p < P.fresh :=
      fun k p hp => Nat.lt_trans (h.below k p hp) hfresh
    have hbelowReverse : ∀ k p, c.htClientIdReverse k = some p → p < P.fresh :=
      fun k p hp => Nat.lt_trans (h.belowReverse k p hp) hfresh
    by_cases hkey : env.key = false
    · rw [if_pos hkey]
      refine ⟨⟨h.pool, hbelow, hbelowReverse⟩, .kept (fun hr => ?_) rfl rfl⟩
      rw [hr.keys.1] at hkey
      cases hkey
    rw [if_neg hkey]
    by_cases hkeyReverse : env.keyReverse = false
    · rw [if_pos hkeyReverse]
      refine ⟨⟨h.pool, hbelow, hbelowReverse⟩, .kept (fun hr => ?_) rfl rfl⟩
      rw [hr.keys.2] at hkeyReverse
      cases hkeyReverse
    rw [if_neg hkeyReverse]
    by_cases hnode : c.htClientId clientid = none ∧ env.node = false
    · rw [if_pos hnode]
      refine ⟨⟨h.pool, hbelow, hbelowReverse⟩, .kept (fun hr => ?_) ?_ ?_⟩
      · have hnone : c.record clientid = none := by rw [Clients.record, hnode.1]; rfl
        rw [hr.node hnone] at hnode
        cases hnode.2
      · exact funext fun k => map_update_mem htable k
      · exact funext fun k => map_update_mem hreverse k
    rw [if_neg hnode]
    have hreaches : ReachesTable param c clientid env := by
      refine ⟨⟨hnb, halloc⟩, ⟨by simpa using hkey, by simpa using hkeyReverse⟩, fun hnone => ?_⟩
      have hnone : c.htClientId clientid = none := Option.map_eq_none_iff.mp hnone
      simpa [hnone] using hnode
    have hbelow := below_update hbelow hfresh clientid
    by_cases hnodeReverse :
        c.htClientIdReverse clientRecord.clientName = none ∧ env.nodeReverse = false
    · rw [if_pos hnodeReverse]
      refine ⟨⟨h.pool, hbelow, hbelowReverse⟩, .half hreaches ?_ hnodeReverse.2 ?_ ?_⟩
      · rw [Clients.recordReverse, hnodeReverse.1]
        rfl
      · exact map_update_table htable clientid
      · exact funext fun k => map_update_mem hreverse k
    · rw [if_neg hnodeReverse]
      have hbelowReverse := below_update hbelowReverse hfresh clientRecord.clientName
      refine ⟨⟨h.pool, hbelow, hbelowReverse⟩, .whole hreaches (fun hnone => ?_) ?_ ?_⟩
      · have hnone : c.htClientIdReverse clientRecord.clientName = none :=
          Option.map_eq_none_iff.mp hnone
        simpa [hnone] using hnodeReverse
      · exact map_update_table htable clientid
      · exact map_update_table hreverse clientRecord.clientName
  · rw [hget]
    exact ⟨h, .kept (fun hr => hnew hr.record) rfl rfl⟩

end

end CloudNfs.ClientId
