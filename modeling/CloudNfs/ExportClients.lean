import CloudNfs.ExportAccess
import CloudNfs.NodeList

/-!
# The clients of an export

The keys `Root_Access` and `Access` of an `EXPORT` block give lists of clients, and a block may have
any number of them. `BuildExportEntry` expands each list, cuts it into names, and adds these to the
`clientarray` of the entry, which has room for `EXPORTS_NB_MAX_CLIENTS`.

* The number of names is compared with this for each key, and the array is the same for all of them.
* `nfs_ParseConfLine` copies a name to a buffer of `EXPORT_MAX_CLIENTLEN` bytes, however long it is.
* So all is inside of the arrays exactly if the lists are not too long together and no name is too
  long (`clientsInside_iff`).
* A character is a byte. What a write outside of an array does is left open: the model goes on.
-/

namespace CloudNfs.ExportClients

open ExportAccess NodeList

/-! ## The code -/

def exportsNbMaxClients : ℕ := 128

def exportMaxClientlen : ℕ := 256

def maxhostnamelen : ℕ := 64

/-- What the resolver says while the configuration is read. -/
structure Lookup where
  /-- `nfs_LookupHostAddr`, as a client of one of the two types -/
  hostAddr : List Char → Option Client
  /-- `nfs_LookupNetworkAddr`: address and mask -/
  networkAddr : List Char → Option (UInt32 × UInt32)

def findComma (c : Char) : Bool := c = ','

/-- `find_endLine`, apart from the end of the string -/
def findEndLine (c : Char) : Bool := c = '\n'

/-- The names that `nfs_ParseConfLine` copies to `Argv`, and whether it returns their number. -/
def parseConfLine : ℕ → List Char → List (List Char) × Bool
  | 0, _ => ([], false)
  | nbArgv + 1, line =>
    if line = [] then ([], true)
    else
      let p1 := line.dropWhile fun c => c = ' ' || c = '\t'
      let token := p1.takeWhile fun c => !findComma c && !findEndLine c
      match p1.drop token.length with
      | [] => ([token], true)
      | c :: rest =>
        if findEndLine c then ([token], true)
        else (token :: (parseConfLine nbArgv rest).1, (parseConfLine nbArgv rest).2)

/-- The type of a client and what goes with it, by its name. -/
def clientOf (lookup : Lookup) (hostname : List Char) : Client :=
  if hostname.head? = some '@' then
    .netgroup (String.ofList ((hostname.drop 1).take maxhostnamelen))
  else
    match lookup.hostAddr hostname with
    | some client => client
    | none =>
      match lookup.networkAddr hostname with
      | some (netAddr, netMask) => .network netAddr netMask
      | none =>
        if hostname.any fun c => c = '*' || c = '?' then
          .wildcard (String.ofList (hostname.take maxhostnamelen))
        else .unidentified

def newClient (lookup : Lookup) (option : ExportOption) (hostname : List Char) : ClientEntry where
  root := option = .root
  access := option = .access
  client := clientOf lookup hostname

/-- What has been done for a block. -/
structure Build where
  /-- `clientarray`, as far as `num_clients` -/
  clientarray : List ClientEntry
  /-- the indices in `clientarray` that were written -/
  stored : List ℕ
  /-- the names that were copied to buffers -/
  copied : List (List Char)
  /-- `FLAG_EXPORT_ROOT_OR_ACCESS` in `set_options` -/
  rootOrAccess : Bool
  errFlag : Bool

def Build.start : Build := ⟨[], [], [], false, false⟩

/-- `nfs_AddClientsToExportList` -/
def addClientsToExportList (lookup : Lookup) (b : Build) (newClientsName : List (List Char))
    (option : ExportOption) : Build :=
  { b with
    clientarray := b.clientarray ++ newClientsName.map (newClient lookup option)
    stored := b.stored ++ List.range' b.clientarray.length newClientsName.length }

/-- A list of clients, `Root_Access` or `Access`. -/
def readClients (lookup : Lookup) (b : Build) (varValue : List Char) (option : ExportOption) :
    Build :=
  match condensed2extendedNodelist varValue with
  | none => { b with errFlag := true }
  | some (expendedNodeList, count) =>
    if count.toInt ≤ 0 then { b with errFlag := true }
    else if count.toInt > exportsNbMaxClients then { b with errFlag := true }
    else
      let parsed := parseConfLine count.toInt.toNat expendedNodeList
      let b := { b with copied := b.copied ++ parsed.1 }
      if parsed.2 = false then { b with errFlag := true }
      else { addClientsToExportList lookup b parsed.1 option with rootOrAccess := true }

inductive Item where
  /-- `config_GetKeyValue` fails -/
  | noKeyValue
  | rootAccess (varValue : List Char)
  | access (varValue : List Char)
  /-- another key, and whether it sets `err_flag` -/
  | other (err : Bool)

/-- An `EXPORT` block. -/
structure Block where
  items : List Item
  /-- do the other keys give all the other mandatory options -/
  mandatory : Bool

/-- The loop of `BuildExportEntry`, and whether it gets to the end of the block. -/
def buildLoop (lookup : Lookup) : List Item → Build → Build × Bool
  | [], b => (b, true)
  | .noKeyValue :: _, b => (b, false)
  | .rootAccess varValue :: items, b =>
    buildLoop lookup items (readClients lookup b varValue .root)
  | .access varValue :: items, b =>
    buildLoop lookup items (readClients lookup b varValue .access)
  | .other err :: items, b => buildLoop lookup items { b with errFlag := b.errFlag || err }

/-- `BuildExportEntry`: what it did, and whether it returns an entry. -/
def buildExportEntry (lookup : Lookup) (block : Block) : Build × Bool :=
  let built := buildLoop lookup block.items .start
  (built.1, built.2 && (block.mandatory && built.1.rootOrAccess) && !built.1.errFlag)

/-! ## Inside of the arrays -/

/-- **The client lists of a block stay inside of the arrays.** -/
structure ClientsInside (lookup : Lookup) (block : Block) : Prop where
  /-- clients are stored in the array, -/
  stored : ∀ i ∈ (buildExportEntry lookup block).1.stored, i < exportsNbMaxClients
  /-- names fit in their buffers, with the zero at the end, -/
  copied : ∀ name ∈ (buildExportEntry lookup block).1.copied, name.length + 1 ≤ exportMaxClientlen
  /-- and an entry with too many clients is rejected -/
  rejected : exportsNbMaxClients < (buildExportEntry lookup block).1.clientarray.length →
    (buildExportEntry lookup block).2 = false

def clientLists : List Item → List (List Char)
  | [] => []
  | .noKeyValue :: _ => []
  | .rootAccess varValue :: items => varValue :: clientLists items
  | .access varValue :: items => varValue :: clientLists items
  | .other _ :: items => clientLists items

/-- The names in a list of clients of which the count is right for one key, and whether these are
all its names. -/
def namesIn (varValue : List Char) : List (List Char) × Bool :=
  match condensed2extendedNodelist varValue with
  | none => ([], false)
  | some (expendedNodeList, count) =>
    if 0 < count.toInt ∧ count.toInt ≤ exportsNbMaxClients then
      parseConfLine count.toInt.toNat expendedNodeList
    else ([], false)

/-- How many clients a list gives the entry. -/
def clientsIn (varValue : List Char) : ℕ :=
  if (namesIn varValue).2 then (namesIn varValue).1.length else 0

/-- The lists are not too long together, and no name is too long. -/
def Fits (block : Block) : Prop :=
  ((clientLists block.items).map clientsIn).sum ≤ exportsNbMaxClients ∧
    ∀ varValue ∈ clientLists block.items, ∀ name ∈ (namesIn varValue).1,
      name.length < exportMaxClientlen

section

variable {lookup : Lookup} {option : ExportOption}

theorem readClients_spec (lookup : Lookup) (b : Build) (varValue : List Char)
    (option : ExportOption) : let b' := readClients lookup b varValue option
    b'.clientarray.length = b.clientarray.length + clientsIn varValue ∧
      b'.stored = b.stored ++ List.range' b.clientarray.length (clientsIn varValue) ∧
      b'.copied = b.copied ++ (namesIn varValue).1 := by
  unfold readClients clientsIn namesIn
  cases condensed2extendedNodelist varValue with
  | none => simp
  | some expanded =>
    obtain ⟨expendedNodeList, count⟩ := expanded
    by_cases hpos : count.toInt ≤ 0
    · simp [hpos, not_lt.mpr hpos]
    by_cases hmany : count.toInt > exportsNbMaxClients
    · simp [hpos, hmany, not_le.mpr hmany]
    simp only [if_neg hpos, if_neg hmany, if_pos (And.intro (not_le.mp hpos) (not_lt.mp hmany))]
    cases hok : (parseConfLine count.toInt.toNat expendedNodeList).2
    · simp
    · simp [addClientsToExportList]

structure Did (b b' : Build) (lists : List (List Char)) : Prop where
  length : b'.clientarray.length = b.clientarray.length + (lists.map clientsIn).sum
  stored : b'.stored =
    b.stored ++ List.range' b.clientarray.length (lists.map clientsIn).sum
  copied : b'.copied = b.copied ++ lists.flatMap fun varValue => (namesIn varValue).1

theorem Did.refl (b : Build) : Did b b [] := ⟨by simp, by simp, by simp⟩

theorem Did.cons {b b' : Build} {varValue : List Char} {lists : List (List Char)}
    (h : Did (readClients lookup b varValue option) b' lists) : Did b b' (varValue :: lists) := by
  obtain ⟨hlength, hstored, hcopied⟩ := readClients_spec lookup b varValue option
  refine ⟨?_, ?_, ?_⟩
  · rw [h.length, hlength, List.map_cons, List.sum_cons, Nat.add_assoc]
  · rw [h.stored, hlength, hstored, List.map_cons, List.sum_cons, List.append_assoc,
      List.range'_append_1]
  · rw [h.copied, hcopied, List.flatMap_cons, List.append_assoc]

theorem buildLoop_did (lookup : Lookup) (items : List Item) (b : Build) :
    Did b (buildLoop lookup items b).1 (clientLists items) := by
  induction items generalizing b with
  | nil => exact .refl b
  | cons item items ih =>
    cases item with
    | noKeyValue => exact .refl b
    | rootAccess varValue => exact (ih _).cons
    | access varValue => exact (ih _).cons
    | other err =>
      have h := ih { b with errFlag := b.errFlag || err }
      exact ⟨h.length, h.stored, h.copied⟩

theorem buildExportEntry_did (lookup : Lookup) (block : Block) :
    Did .start (buildExportEntry lookup block).1 (clientLists block.items) :=
  buildLoop_did lookup block.items .start

theorem ClientsInside.fits {block : Block} (h : ClientsInside lookup block) : Fits block := by
  have hdid := buildExportEntry_did lookup block
  refine ⟨?_, fun varValue hvalue name hname => ?_⟩
  · by_contra hmany
    -- the first index after the array is written
    refine absurd (h.stored exportsNbMaxClients ?_) (lt_irrefl _)
    rw [hdid.stored]
    refine List.mem_append_right _ (List.mem_range'_1.mpr ⟨Nat.zero_le _, ?_⟩)
    rw [Build.start, List.length_nil]
    omega
  · apply h.copied name
    rw [hdid.copied]
    exact List.mem_append_right _ (List.mem_flatMap.mpr ⟨varValue, hvalue, hname⟩)

theorem Fits.clientsInside {block : Block} (h : Fits block) : ClientsInside lookup block := by
  have hdid := buildExportEntry_did lookup block
  refine ⟨fun i hi => ?_, fun name hname => ?_, fun hmany => ?_⟩
  · rw [hdid.stored, Build.start, List.nil_append, List.length_nil, List.mem_range'_1] at hi
    have := h.1
    omega
  · rw [hdid.copied, Build.start, List.nil_append] at hname
    obtain ⟨varValue, hvalue, hname⟩ := List.mem_flatMap.mp hname
    exact h.2 varValue hvalue name hname
  · rw [hdid.length, Build.start, List.length_nil, Nat.zero_add] at hmany
    exact absurd h.1 (not_le.mpr hmany)

/-- **The client lists stay inside of the arrays** exactly if they are not too long together, and
no name in them is too long. -/
theorem clientsInside_iff (lookup : Lookup) (block : Block) :
    ClientsInside lookup block ↔ Fits block :=
  ⟨fun h => h.fits, fun h => h.clientsInside⟩

def twoLists : Block where
  items := [.rootAccess "n[1-65]".toList, .access "m[1-65]".toList]
  mandatory := true

/-- **The names of two lists do not fit**: each of the lists is short enough. -/
theorem not_clientsInside :
    ¬ ∀ (lookup : Lookup) (block : Block), ClientsInside lookup block := by
  intro hall
  have hfits := (hall ⟨fun _ => none, fun _ => none⟩ twoLists).fits
  exact absurd hfits.1 (by decide +kernel)

end

end CloudNfs.ExportClients
