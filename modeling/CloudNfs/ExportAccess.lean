import CloudNfs.Bytes
import CloudNfs.FirstMatch

/-!
# Access to an export

An export lists the clients that may use it, each with the options `ROOT` and `ACCESS`.
`nfs_export_check_access` scans the list for an entry with `ROOT` that matches the
address of the caller and then for one with `ACCESS`; for a caller with an IPv6 address
it scans for IPv6 entries, and before that, if the address stands for an IPv4 one, for
the others as well.

* A scan is a loop over a `switch` on the type of the entry. Some types do not match, and
  some end the loop: principals and IPv6 entries in the IPv4 scan, IPv6 entries that do
  not match in the other one, and entries that the configuration could not make sense of
  in both.
* Networks and masks are kept in host byte order, the address of the caller in network
  byte order.
* The resolver (the name of an address, netgroups, patterns) is a parameter.
-/

namespace CloudNfs

namespace ExportAccess

open FirstMatch

/-! ### Clients and callers -/

/-- `struct in6_addr`. -/
abbrev In6Addr := {b : List UInt8 // b.length = 16}

inductive Client where
  /-- `HOSTIF_CLIENT`, in network byte order -/
  | hostif (clientaddr : UInt32)
  /-- `NETWORK_CLIENT`, in host byte order -/
  | network (netaddr netmask : UInt32)
  /-- `NETGROUP_CLIENT` -/
  | netgroup (netgroupname : String)
  /-- `WILDCARDHOST_CLIENT` -/
  | wildcard (pattern : String)
  /-- `GSSPRINCIPAL_CLIENT` -/
  | gssprincipal (princname : String)
  /-- `HOSTIF_CLIENT_V6` -/
  | hostifV6 (clientaddr6 : In6Addr)
  /-- the type left zero when the client could not be identified -/
  | unidentified
  deriving DecidableEq

inductive ExportOption where
  | root
  | access
  deriving DecidableEq

/-- `exportlist_client_entry_t`. -/
structure ClientEntry where
  /-- the entry has `EXPORT_OPTION_ROOT` -/
  root : Bool
  /-- the entry has `EXPORT_OPTION_ACCESS` -/
  access : Bool
  /-- type and data -/
  client : Client
  deriving DecidableEq

def ClientEntry.has (x : ClientEntry) : ExportOption → Bool
  | .root => x.root
  | .access => x.access

/-- What the resolver answers while a request is checked. -/
structure Resolver where
  /-- `nfs_ip_name_get`, and `nfs_ip_name_add` when the name is not cached; `none` when the
  address cannot be resolved -/
  hostname : UInt32 → Option String
  /-- what the buffer of the name holds then, after `strncpy(hostname, "unresolved", 10)` -/
  unresolved : String
  /-- `innetgr` of a group and a name -/
  innetgr : String → String → Bool
  /-- `fnmatch` of a pattern and a text, with `FNM_PATHNAME` -/
  fnmatch : String → String → Bool
  /-- `inet_ntop` of an IPv4 address -/
  ntop : UInt32 → String
  /-- `inet_ntop` of an IPv6 address -/
  ntop6 : In6Addr → String

/-- The address of the caller; an IPv4 address as the machine reads it, in network byte order. -/
inductive Caller where
  | inet (addr : UInt32)
  | inet6 (addr : In6Addr)

structure Request where
  rqProc : ℕ
  rqProg : ℕ
  /-- the flavor is `AUTH_NONE` -/
  authNone : Bool

/-! ### The code -/

section

variable (rs : Resolver)

/-- The `switch` of `export_client_match`. -/
def verdict (addr : UInt32) (ipstring : String) (option : ExportOption) (x : ClientEntry) :
    Verdict :=
  if x.has option = false then .skip
  else
    match x.client with
    | .hostif clientaddr => if clientaddr = addr then .found else .skip
    | .network netaddr netmask => if netmask &&& addr = netaddr then .found else .skip
    | .netgroup group =>
      match rs.hostname addr with
      | none => .skip
      | some hostname => if rs.innetgr group hostname = true then .found else .skip
    | .wildcard pattern =>
      if rs.fnmatch pattern ((rs.hostname addr).getD rs.unresolved) = true then .found
      else if rs.fnmatch pattern ipstring = true then .found
      else .skip
    | .gssprincipal _ => .stop
    | .hostifV6 _ => .stop
    | .unidentified => .stop

/-- The `switch` of `export_client_matchv6`: an address that does not match falls through to the
default case. -/
def verdictV6 (addr : In6Addr) (option : ExportOption) (x : ClientEntry) : Verdict :=
  if x.has option = false then .skip
  else
    match x.client with
    | .hostif _ => .skip
    | .network _ _ => .skip
    | .netgroup _ => .skip
    | .wildcard _ => .skip
    | .gssprincipal _ => .skip
    | .hostifV6 clientaddr6 => if clientaddr6 = addr then .found else .stop
    | .unidentified => .stop

def exportClientMatch (addr : UInt32) (ipstring : String) (clients : List ClientEntry)
    (option : ExportOption) : Option ClientEntry :=
  scan (verdict rs addr ipstring option) clients

def exportClientMatchv6 (addr : In6Addr) (clients : List ClientEntry) (option : ExportOption) :
    Option ClientEntry :=
  scan (verdictV6 addr option) clients

/-- The IPv4 address wrapped into an IPv6 one, `::ffff:a.b.c.d`. -/
def mappedAddr (b : In6Addr) : Option UInt32 :=
  if field 0 10 b.1 = List.replicate 10 0 ∧ field 10 2 b.1 = [0xFF, 0xFF] then
    some (UInt32.ofNat (leValue (field 12 4 b.1)))
  else none

def matchBoth (addr : UInt32) (ipstring : String) (clients : List ClientEntry) :
    Option ClientEntry :=
  match exportClientMatch rs addr ipstring clients .root with
  | some x => some x
  | none => exportClientMatch rs addr ipstring clients .access

def matchBothv6 (addr : In6Addr) (clients : List ClientEntry) : Option ClientEntry :=
  match exportClientMatchv6 addr clients .root with
  | some x => some x
  | none => exportClientMatchv6 addr clients .access

/-- `nfs_export_check_access`: whether access is granted, and `*pclient_found` if it was set. -/
def nfsExportCheckAccess (caller : Caller) (req : Request) (mntProg : ℕ)
    (clients : List ClientEntry) : Bool × Option ClientEntry :=
  if req.rqProc = 0 then (true, none)
  else if req.rqProg = mntProg then (!req.authNone, none)
  else
    let found :=
      match caller with
      | .inet addr => matchBoth rs addr (rs.ntop addr) clients
      | .inet6 addr6 =>
        match mappedAddr addr6 with
        | none => matchBothv6 addr6 clients
        | some addr =>
          match matchBoth rs addr (rs.ntop6 addr6) clients with
          | some x => some x
          | none => matchBothv6 addr6 clients
    (found.isSome, found)

/-! ### What a match is -/

/-- `ntohl`: the number whose bytes in memory are those of `a`, read in network order. -/
def ntohl (a : UInt32) : UInt32 := UInt32.ofNat (beValue (leBytes 4 a.toNat))

/-- A client matches an IPv4 address: the same address, an address whose masked part is the
network as the configuration has it, or what the resolver says. -/
def Client.MatchesV4 (addr : UInt32) (ipstring : String) : Client → Prop
  | hostif clientaddr => clientaddr = addr
  | network netaddr netmask => netmask &&& ntohl addr = netaddr
  | netgroup group => ∃ hostname, rs.hostname addr = some hostname ∧
      rs.innetgr group hostname = true
  | wildcard pattern => rs.fnmatch pattern ((rs.hostname addr).getD rs.unresolved) = true ∨
      rs.fnmatch pattern ipstring = true
  | gssprincipal _ => False
  | hostifV6 _ => False
  | unidentified => False

/-- A client matches the caller. -/
def Client.Matches (caller : Caller) (client : Client) : Prop :=
  match caller with
  | .inet addr => client.MatchesV4 rs addr (rs.ntop addr)
  | .inet6 addr6 => client = .hostifV6 addr6 ∨
      ∃ addr, mappedAddr addr6 = some addr ∧ client.MatchesV4 rs addr (rs.ntop6 addr6)

/-- Some entry with one of the two options matches. -/
def Allowed (caller : Caller) (clients : List ClientEntry) : Prop :=
  ∃ x ∈ clients, (x.root = true ∨ x.access = true) ∧ x.client.Matches rs caller

/-- Some entry with `ROOT` matches. -/
def RootAllowed (caller : Caller) (clients : List ClientEntry) : Prop :=
  ∃ x ∈ clients, x.root = true ∧ x.client.Matches rs caller

/-- The decision is the one the list calls for, whatever the order of the list: access is granted
exactly when an entry matches, and an entry with `ROOT` is designated whenever one matches. -/
def DecidesByMatch (caller : Caller) (req : Request) (mntProg : ℕ) (clients : List ClientEntry) :
    Prop :=
  ∀ clients', clients'.Perm clients →
    ((nfsExportCheckAccess rs caller req mntProg clients').1 = true ↔ Allowed rs caller clients) ∧
    (RootAllowed rs caller clients →
      ∃ x, (nfsExportCheckAccess rs caller req mntProg clients').2 = some x ∧ x.root = true)

/-- The scans made for a caller, in their order. -/
def passes : Caller → List (ClientEntry → Verdict)
  | .inet addr => [verdict rs addr (rs.ntop addr) .root, verdict rs addr (rs.ntop addr) .access]
  | .inet6 addr6 =>
    match mappedAddr addr6 with
    | none => [verdictV6 addr6 .root, verdictV6 addr6 .access]
    | some addr =>
      [verdict rs addr (rs.ntop6 addr6) .root, verdict rs addr (rs.ntop6 addr6) .access,
        verdictV6 addr6 .root, verdictV6 addr6 .access]

end

/-! ### The decision -/

variable {rs : Resolver} {caller : Caller} {req : Request} {mntProg : ℕ}
  {clients : List ClientEntry}

theorem scans_pair (v w : ClientEntry → Verdict) (vs : List (ClientEntry → Verdict)) :
    scans (v :: w :: vs) clients =
      match (match scan v clients with
        | some x => some x
        | none => scan w clients) with
      | some x => some x
      | none => scans vs clients := by
  unfold scans
  rw [List.findSome?_cons, List.findSome?_cons]
  cases scan v clients with
  | some x => rfl
  | none => cases scan w clients <;> rfl

theorem checkAccess_eq (hproc : req.rqProc ≠ 0) (hprog : req.rqProg ≠ mntProg) :
    nfsExportCheckAccess rs caller req mntProg clients =
      ((scans (passes rs caller) clients).isSome, scans (passes rs caller) clients) := by
  have hnil : scans [] clients = none := rfl
  unfold nfsExportCheckAccess
  rw [if_neg hproc, if_neg hprog]
  cases caller with
  | inet addr =>
    simp only [passes, scans_pair, hnil, matchBoth, exportClientMatch]
    cases scan (verdict rs addr (rs.ntop addr) .root) clients with
    | some x => rfl
    | none => cases scan (verdict rs addr (rs.ntop addr) .access) clients <;> rfl
  | inet6 addr6 =>
    cases hm : mappedAddr addr6 with
    | none =>
      simp only [passes, hm, scans_pair, hnil, matchBothv6, exportClientMatchv6]
      cases scan (verdictV6 addr6 .root) clients with
      | some x => rfl
      | none => cases scan (verdictV6 addr6 .access) clients <;> rfl
    | some addr =>
      simp only [passes, hm, scans_pair, hnil, matchBoth, exportClientMatch, matchBothv6,
        exportClientMatchv6]
      cases scan (verdictV6 addr6 .root) clients with
      | some x => rfl
      | none => cases scan (verdictV6 addr6 .access) clients <;> rfl

/-- What ends a scan comes before what it finds: clients that end both kinds of scan, those that
end only the IPv4 ones, and the rest. -/
def Client.rank (caller : Caller) : Client → ℕ
  | unidentified => 0
  | hostifV6 a =>
    match caller with
    | .inet _ => 0
    | .inet6 addr6 => if a = addr6 then 1 else 0
  | gssprincipal _ => 1
  | hostif _ => 2
  | network _ _ => 2
  | netgroup _ => 2
  | wildcard _ => 2

variable {option : ExportOption} {x : ClientEntry}

theorem verdict_stop {addr : UInt32} {ipstring : String}
    (h : verdict rs addr ipstring option x = .stop) : x.client.rank caller < 2 := by
  unfold verdict at h
  cases caller <;> grind [Client.rank]

theorem verdict_found {addr : UInt32} {ipstring : String}
    (h : verdict rs addr ipstring option x = .found) : x.client.rank caller = 2 := by
  unfold verdict at h
  grind [Client.rank]

theorem verdictV6_stop {addr6 : In6Addr} (h : verdictV6 addr6 option x = .stop) :
    x.client.rank (.inet6 addr6) = 0 := by
  unfold verdictV6 at h
  grind [Client.rank]

theorem verdictV6_found {addr6 : In6Addr} (h : verdictV6 addr6 option x = .found) :
    x.client.rank (.inet6 addr6) = 1 := by
  unfold verdictV6 at h
  grind [Client.rank]

theorem passes_stopsFirst : StopsFirst (fun x => x.client.rank caller) (passes rs caller) := by
  have hv4 : ∀ addr ipstring option x y, verdict rs addr ipstring option x = .stop →
      verdict rs addr ipstring option y = .found → x.client.rank caller < y.client.rank caller := by
    intro addr ipstring option x y hx hy
    rw [verdict_found hy]
    exact verdict_stop hx
  intro v hv x y hx hy
  cases caller with
  | inet addr =>
    simp only [passes, List.mem_cons, List.not_mem_nil, or_false] at hv
    rcases hv with rfl | rfl
    · exact hv4 _ _ _ x y hx hy
    · exact hv4 _ _ _ x y hx hy
  | inet6 addr6 =>
    have hv6 : ∀ option, verdictV6 addr6 option x = .stop → verdictV6 addr6 option y = .found →
        x.client.rank (.inet6 addr6) < y.client.rank (.inet6 addr6) := by
      intro option hx hy
      rw [verdictV6_stop hx, verdictV6_found hy]
      exact Nat.zero_lt_one
    cases hm : mappedAddr addr6 with
    | none =>
      simp only [passes, hm, List.mem_cons, List.not_mem_nil, or_false] at hv
      rcases hv with rfl | rfl
      · exact hv6 _ hx hy
      · exact hv6 _ hx hy
    | some addr =>
      simp only [passes, hm, List.mem_cons, List.not_mem_nil, or_false] at hv
      rcases hv with rfl | rfl | rfl | rfl
      · exact hv4 _ _ _ x y hx hy
      · exact hv4 _ _ _ x y hx hy
      · exact hv6 _ hx hy
      · exact hv6 _ hx hy

/-- **Access does not depend on the order of the list** exactly under these conditions: when no
entry matches, no scan finds one; when one matches, some scan can find an entry and no entry ends
it; and when one with `ROOT` matches, an entry without `ROOT` that a scan can find is behind such
a scan. -/
theorem decidesByMatch_iff (rs : Resolver) (caller : Caller) (req : Request) (mntProg : ℕ)
    (clients : List ClientEntry) (hproc : req.rqProc ≠ 0) (hprog : req.rqProg ≠ mntProg) :
    DecidesByMatch rs caller req mntProg clients ↔
      Settled (passes rs caller) clients (Allowed rs caller clients)
        (RootAllowed rs caller clients) (fun x => x.root = true) := by
  have hroot : RootAllowed rs caller clients → Allowed rs caller clients := by
    rintro ⟨x, hx, hr, hm⟩
    exact ⟨x, hx, Or.inl hr, hm⟩
  rw [← orderFree_iff passes_stopsFirst hroot]
  unfold DecidesByMatch OrderFree
  simp only [checkAccess_eq hproc hprog]

def nameless : Resolver :=
  ⟨fun _ => none, "unresolved", fun _ _ => false, fun _ _ => false, fun _ => "", fun _ => ""⟩

/-- A request for an operation of NFS version 3. -/
def nfsRequest : Request := ⟨1, 100003, false⟩

/-- The address 10.0.0.1 as a little-endian machine reads it. -/
def host1 : UInt32 := 0x0100000A

/-- Two hosts, the second one with `ROOT`. -/
def twoHosts : List ClientEntry := [⟨false, true, .hostif 7⟩, ⟨true, false, .hostif host1⟩]

/-- A list of hosts is decided as it should be. -/
theorem twoHosts_decidesByMatch :
    DecidesByMatch nameless (.inet host1) nfsRequest 100005 twoHosts := by
  have hmem : (⟨true, false, .hostif host1⟩ : ClientEntry) ∈ twoHosts := by decide
  refine (decidesByMatch_iff nameless _ nfsRequest 100005 _ (by decide) (by decide)).2
    ⟨fun hno => ?_, fun _ => ?_, fun _ => ?_⟩
  · exact absurd ⟨_, hmem, Or.inl rfl, rfl⟩ hno
  · exact ⟨_, List.mem_cons_self, ⟨_, hmem, by decide⟩, by decide⟩
  · intro pre v post hsplit y hy hfound hno
    have hv : v ∈ passes nameless (.inet host1) := by
      rw [hsplit]
      simp
    simp only [passes, List.mem_cons, List.not_mem_nil, or_false] at hv
    simp only [twoHosts, List.mem_cons, List.not_mem_nil, or_false] at hy
    rcases hy with rfl | rfl
    · rcases hv with rfl | rfl
      · exact absurd hfound (by decide)
      · exact absurd hfound (by decide)
    · exact absurd rfl hno

/-- An entry for the IPv6 address `::1`. -/
def v6Client : ClientEntry := ⟨false, true, .hostifV6 ⟨List.replicate 15 0 ++ [1], by decide⟩⟩

/-- **The slips**: an IPv6 entry before the caller's own entry ends the scan for an IPv4 caller,
although behind it it does no harm; and 10.1.2.3 is not taken to be in the network 10.0.0.0. -/
theorem not_decidesByMatch_v6_and_network :
    ¬ DecidesByMatch nameless (.inet host1) nfsRequest 100005
        [v6Client, ⟨false, true, .hostif host1⟩] ∧
      ¬ DecidesByMatch nameless (.inet 0x0302010A) nfsRequest 100005
        [⟨false, true, .network 0x0A000000 0xFF000000⟩] := by
  constructor
  · intro h
    have hgranted := (h _ (List.Perm.refl _)).1.mpr
      ⟨⟨false, true, .hostif host1⟩, by decide, Or.inr rfl, rfl⟩
    exact absurd hgranted (by decide)
  · intro h
    have hin : (0xFF000000 : UInt32) &&& ntohl 0x0302010A = 0x0A000000 := by decide
    have hgranted := (h _ (List.Perm.refl _)).1.mpr ⟨_, List.mem_cons_self, Or.inr rfl, hin⟩
    exact absurd hgranted (by decide)

end ExportAccess

end CloudNfs
