import Mathlib.Data.List.Nodup
import Mathlib.Data.UInt
import CloudNfs.Rbt

/-!
# Hash tables (`HashTable/HashTable.c`, `include/HashTable.h`)

A table is an array of buckets. A bucket is a red-black tree whose nodes point to a key and a
value, ordered by a second hash value that is truncated to an `int`. Several keys of a bucket
can have the same one, and `Key_Locate` then compares them one after the other.

* `Pool` — `GET_PREALLOC` and `RELEASE_PREALLOC` of `stuff_alloc.h`: nodes and entries come from
  a list of free ones, and from new memory when there are none.

What a `void *` or a length is made of does not matter here: a buffer is only stored, returned and
given to the functions of the parameter. The locks of the buckets and the logs are left out.
-/

namespace CloudNfs.Hash

/-! ## Data -/

/-- `hash_buffer_t`, with the fields that the table copies. -/
structure HashBuffer where
  /-- where the data is -/
  pdata : UInt64
  /-- how long it is -/
  len : UInt64
  deriving DecidableEq

/-- `hash_data_t`. -/
structure HashData where
  buffval : HashBuffer
  buffkey : HashBuffer

/-- `hash_parameter_t`. -/
structure HashParameter where
  /-- the number of trees -/
  indexSize : UInt32
  /-- the number of nodes to allocate when new ones are needed -/
  nbNodePrealloc : UInt32
  /-- the hash function that selects the tree -/
  hashFuncKey : HashBuffer → UInt64
  /-- the hash function that gives the order in a tree -/
  hashFuncRbt : HashBuffer → UInt64
  /-- the comparison of keys, zero when they are the same -/
  compareKey : HashBuffer → HashBuffer → Int

/-- `unsigned int hashval`: the result of `hash_func_key`, an `unsigned long`, truncated. -/
def HashParameter.hashval (p : HashParameter) (key : HashBuffer) : ℕ :=
  (p.hashFuncKey key).toNat % 2 ^ 32

/-- `int rbt_value`: the result of `hash_func_rbt`, an `unsigned long`, truncated. -/
def HashParameter.rbtValue (p : HashParameter) (key : HashBuffer) : ℤ :=
  ((p.hashFuncRbt key).toBitVec.setWidth 32).toInt

/-- `hashtable_set_how_t`. -/
inductive SetHow where
  | testOnly
  | setOverwrite
  | setNoOverwrite
  deriving DecidableEq

inductive Status where
  | success
  | insertMallocError
  | noSuchKey
  | keyAlreadyExists
  | invalidArgument
  deriving DecidableEq

/-- `hash_stat_op_t`. -/
structure HashStatOp where
  /-- the number of `set` operations -/
  nbSet : UInt32
  /-- the number of `test` operations -/
  nbTest : UInt32
  /-- the number of `get` operations -/
  nbGet : UInt32
  /-- the number of `del` operations -/
  nbDel : UInt32
  deriving DecidableEq

/-- `hash_stat_dynamic_t`. -/
structure HashStatDynamic where
  nbEntries : UInt32
  ok : HashStatOp
  err : HashStatOp
  notfound : HashStatOp
  deriving DecidableEq

def HashStatOp.zero : HashStatOp := ⟨0, 0, 0, 0⟩

def HashStatDynamic.zero : HashStatDynamic := ⟨0, .zero, .zero, .zero⟩

/-- Add up the counters of `hash_stat_op_t`. -/
def HashStatOp.add (a b : HashStatOp) : HashStatOp :=
  ⟨a.nbSet + b.nbSet, a.nbTest + b.nbTest, a.nbGet + b.nbGet, a.nbDel + b.nbDel⟩

/-- Add up the counters of `hash_stat_dynamic_t`. -/
def HashStatDynamic.add (a b : HashStatDynamic) : HashStatDynamic :=
  ⟨a.nbEntries + b.nbEntries, a.ok.add b.ok, a.err.add b.err, a.notfound.add b.notfound⟩

/-- `hash_stat_computed_t`. -/
structure HashStatComputed where
  minRbtNumNode : UInt32
  maxRbtNumNode : UInt32
  averageRbtNumNode : UInt32
  deriving DecidableEq

/-- `hash_stat_t`. -/
structure HashStat where
  dynamic : HashStatDynamic
  /-- what `HashTable_GetStats` computes -/
  computed : HashStatComputed

/-! ## Preallocated entries -/

/-- The entries of a pool that are free, and the first address that was never allocated. -/
structure Pool where
  /-- the free entries, linked to each other -/
  free : List ℕ
  /-- memory from here on is new -/
  fresh : ℕ

/-- `STUFF_PREALLOC`: a block of new entries. -/
def Pool.stuffPrealloc (p : Pool) (nb : ℕ) : Pool :=
  { free := List.range' p.fresh nb, fresh := p.fresh + nb }

def Pool.getPrealloc (p : Pool) (nb : ℕ) : Option (ℕ × Pool) :=
  let p := if p.free = [] ∧ nb ≠ 0 then p.stuffPrealloc nb else p
  match p.free with
  | [] => none
  | a :: free => some (a, { p with free := free })

def Pool.releasePrealloc (p : Pool) (a : ℕ) : Pool := { p with free := a :: p.free }

/-! ## Buckets -/

/-- What a table has for one value of the hash function: an element of `array_rbt`, of
`node_prealloc`, of `pdata_prealloc` and of `stat_dynamic`, with the memory of the nodes and of
the entries. -/
structure Bucket where
  /-- the tree; `rbt_opaq` is the address of an entry -/
  rbt : Rbt ℕ
  pdata : ℕ → HashData
  nodePrealloc : Pool
  pdataPrealloc : Pool
  stat : HashStatDynamic

namespace Bucket

def entry (b : Bucket) (node : ℕ) : HashData := b.pdata (b.rbt.mem node).opaq

/-- The loop of `Key_Locate`, over the nodes with the value. -/
def scan (p : HashParameter) (b : Bucket) (buffkey : HashBuffer) (rbtValue : ℤ) :
    ℕ → Option ℕ → Option (Option ℕ)
  | 0, _ => none
  | _ + 1, none => some none
  | n + 1, some pn =>
    if (b.rbt.mem pn).value = rbtValue then
      if p.compareKey buffkey (b.entry pn).buffkey = 0 then some (some pn)
      else (b.rbt.increment pn).bind (b.scan p buffkey rbtValue n)
    else some none

/-- `Key_Locate`: the node of a key. -/
def keyLocate (p : HashParameter) (b : Bucket) (buffkey : HashBuffer) (rbtValue : ℤ) :
    Option (Option ℕ) :=
  (b.rbt.findLeft rbtValue).bind (b.scan p buffkey rbtValue b.rbt.fuel)

/-- The last part of `HashTable_Test_And_Set`: the key and the value are written. -/
def store (b : Bucket) (pdata : ℕ) (buffkey buffval : HashBuffer) : Bucket :=
  { b with
    pdata := Function.update b.pdata pdata { buffval := buffval, buffkey := buffkey }
    stat := { b.stat with
      nbEntries := b.stat.nbEntries + 1
      ok := { b.stat.ok with nbSet := b.stat.ok.nbSet + 1 } } }

/-- Count an allocation that failed. -/
def setFailed (b : Bucket) : Bucket :=
  { b with stat := { b.stat with err := { b.stat.err with nbSet := b.stat.err.nbSet + 1 } } }

/-- `RBT_OPAQ(qn) = pdata; RBT_VALUE(qn) = rbt_value`. -/
def writeNode (rbt : Rbt ℕ) (qn pdata : ℕ) (rbtValue : ℤ) : Rbt ℕ :=
  rbt.modify qn fun n => { n with opaq := pdata, value := rbtValue }

/-- The part of `HashTable_Test_And_Set` for a key that is not there: a new node. -/
def create (p : HashParameter) (b : Bucket) (buffkey buffval : HashBuffer) (rbtValue : ℤ) :
    Option (Bucket × Status) := do
  let pn ← b.rbt.find rbtValue
  match b.nodePrealloc.getPrealloc p.nbNodePrealloc.toNat with
  | none => return (b.setFailed, .insertMallocError)
  | some (qn, nodePrealloc) =>
    let b := { b with nodePrealloc := nodePrealloc }
    match b.pdataPrealloc.getPrealloc p.nbNodePrealloc.toNat with
    | none => return (b.setFailed, .insertMallocError)
    | some (pdata, pdataPrealloc) =>
      let rbt ← (writeNode b.rbt qn pdata rbtValue).insert qn pn
      let b := { b with rbt := rbt, pdataPrealloc := pdataPrealloc }
      return (b.store pdata buffkey buffval, .success)

/-- `HashTable_Test_And_Set`, in the bucket of the key. -/
def testAndSet (p : HashParameter) (b : Bucket) (buffkey buffval : HashBuffer) (how : SetHow) :
    Option (Bucket × Status) := do
  let rbtValue := p.rbtValue buffkey
  match ← b.keyLocate p buffkey rbtValue with
  | some pn =>
    match how with
    | .testOnly =>
      return ({ b with stat := { b.stat with
        ok := { b.stat.ok with nbTest := b.stat.ok.nbTest + 1 } } }, .success)
    | .setNoOverwrite =>
      return ({ b with stat := { b.stat with
        err := { b.stat.err with nbTest := b.stat.err.nbTest + 1 } } }, .keyAlreadyExists)
    | .setOverwrite => return (b.store (b.rbt.mem pn).opaq buffkey buffval, .success)
  | none =>
    match how with
    | .testOnly =>
      return ({ b with stat := { b.stat with
        notfound := { b.stat.notfound with nbTest := b.stat.notfound.nbTest + 1 } } }, .noSuchKey)
    | .setOverwrite => b.create p buffkey buffval rbtValue
    | .setNoOverwrite => b.create p buffkey buffval rbtValue

/-- `HashTable_Get`, in the bucket of the key. -/
def get (p : HashParameter) (b : Bucket) (buffkey : HashBuffer) :
    Option (Bucket × Status × Option HashBuffer) := do
  match ← b.keyLocate p buffkey (p.rbtValue buffkey) with
  | none =>
    return ({ b with stat := { b.stat with
      notfound := { b.stat.notfound with nbGet := b.stat.notfound.nbGet + 1 } } }, .noSuchKey, none)
  | some pn =>
    return ({ b with stat := { b.stat with
      ok := { b.stat.ok with nbGet := b.stat.ok.nbGet + 1 } } }, .success,
      some (b.entry pn).buffval)

/-- `HashTable_Del`, in the bucket of the key. The result has the entry that is gone. -/
def del (p : HashParameter) (b : Bucket) (buffkey : HashBuffer) :
    Option (Bucket × Status × Option HashData) := do
  match ← b.keyLocate p buffkey (p.rbtValue buffkey) with
  | none =>
    return ({ b with stat := { b.stat with
      notfound := { b.stat.notfound with nbDel := b.stat.notfound.nbDel + 1 } } }, .noSuchKey, none)
  | some pn =>
    let data := b.entry pn
    let pdata := (b.rbt.mem pn).opaq
    let rbt ← b.rbt.unlink pn
    return ({ b with
      rbt := rbt
      pdataPrealloc := b.pdataPrealloc.releasePrealloc pdata
      nodePrealloc := b.nodePrealloc.releasePrealloc pn
      stat := { b.stat with
        nbEntries := b.stat.nbEntries - 1
        ok := { b.stat.ok with nbDel := b.stat.ok.nbDel + 1 } } }, .success, some data)

end Bucket

/-! ## Tables -/

/-- `hash_table_t`. -/
structure HashTable where
  parameter : HashParameter
  buckets : List Bucket

/-- What an operation returns: its code and the buffers that it fills in. -/
structure Reply where
  rc : Status
  /-- the key, of `HashTable_Del` -/
  key : Option HashBuffer
  /-- the value, of `HashTable_Get` and of `HashTable_Del` -/
  val : Option HashBuffer

def Reply.code (rc : Status) : Reply := { rc := rc, key := none, val := none }

/-- An operation. A buffer that is `none` is a pointer that is `NULL`. -/
inductive Op where
  | testAndSet (buffkey buffval : Option HashBuffer) (how : SetHow)
  /-- `HashTable_Get`; the second argument says that `buffval` is not `NULL` -/
  | get (buffkey : Option HashBuffer) (buffval : Bool)
  /-- `HashTable_Del`; the last two say which of `p_usedbuffkey` and `p_usedbuffdata` is not
  `NULL` -/
  | del (buffkey : Option HashBuffer) (usedbuffkey usedbuffdata : Bool)

namespace HashTable

/-- A bucket of `HashTable_Init`; the memory that it gets has any contents. -/
def newBucket (p : HashParameter) (mem : ℕ → RbtNode ℕ) (pdata : ℕ → HashData) : Bucket :=
  let pool : Pool := { free := [], fresh := 0 }
  { rbt := Rbt.headInit mem
    pdata := pdata
    nodePrealloc := pool.stuffPrealloc p.nbNodePrealloc.toNat
    pdataPrealloc := pool.stuffPrealloc p.nbNodePrealloc.toNat
    stat := .zero }

/-- `HashTable_Init`, without an allocation failure. -/
def init (p : HashParameter) (mem : ℕ → ℕ → RbtNode ℕ) (pdata : ℕ → ℕ → HashData) : HashTable :=
  { parameter := p
    buckets := (List.range p.indexSize.toNat).map fun i => newBucket p (mem i) (pdata i) }

def inBucket {ρ : Type} (ht : HashTable) (buffkey : HashBuffer) (f : Bucket → Option (Bucket × ρ)) :
    Option (HashTable × ρ) := do
  let hashval := ht.parameter.hashval buffkey
  let b ← ht.buckets[hashval]?
  let (b, res) ← f b
  return ({ ht with buckets := ht.buckets.set hashval b }, res)

/-- `HashTable_Test_And_Set`. -/
def testAndSet (ht : HashTable) (buffkey buffval : Option HashBuffer) (how : SetHow) :
    Option (HashTable × Reply) :=
  match buffkey, buffval with
  | some buffkey, some buffval => do
    let (ht, rc) ← ht.inBucket buffkey fun b => b.testAndSet ht.parameter buffkey buffval how
    return (ht, .code rc)
  | _, _ => some (ht, .code .invalidArgument)

/-- `HashTable_Get`. -/
def get (ht : HashTable) (buffkey : Option HashBuffer) (buffval : Bool) :
    Option (HashTable × Reply) :=
  match buffkey, buffval with
  | some buffkey, true => do
    let (ht, rc, val) ← ht.inBucket buffkey fun b => b.get ht.parameter buffkey
    return (ht, { rc := rc, key := none, val := val })
  | _, _ => some (ht, .code .invalidArgument)

/-- `HashTable_Del`. -/
def del (ht : HashTable) (buffkey : Option HashBuffer) (usedbuffkey usedbuffdata : Bool) :
    Option (HashTable × Reply) :=
  match buffkey with
  | some buffkey => do
    let (ht, rc, data) ← ht.inBucket buffkey fun b => b.del ht.parameter buffkey
    return (ht, { rc := rc
                  key := if usedbuffkey then data.map HashData.buffkey else none
                  val := if usedbuffdata then data.map HashData.buffval else none })
  | none => some (ht, .code .invalidArgument)

def step (ht : HashTable) : Op → Option (HashTable × Reply)
  | .testAndSet buffkey buffval how => ht.testAndSet buffkey buffval how
  | .get buffkey buffval => ht.get buffkey buffval
  | .del buffkey usedbuffkey usedbuffdata => ht.del buffkey usedbuffkey usedbuffdata

/-- The table after a sequence of operations, and what they returned. -/
def run : HashTable → List Op → Option (HashTable × List Reply)
  | ht, [] => some (ht, [])
  | ht, op :: ops => do
    let (ht, reply) ← ht.step op
    let (ht, replies) ← run ht ops
    return (ht, reply :: replies)

/-- `HashTable_GetSize`. -/
def getSize (ht : HashTable) : UInt32 :=
  ht.buckets.foldl (fun nbEntries b => nbEntries + b.stat.nbEntries) 0

/-- The body of the loop of `HashTable_GetStats`. -/
def addStats (hstat : HashStat) (b : Bucket) : HashStat :=
  { dynamic := hstat.dynamic.add b.stat
    computed :=
      { minRbtNumNode :=
          if b.rbt.rbtNumNode < hstat.computed.minRbtNumNode then b.rbt.rbtNumNode
          else hstat.computed.minRbtNumNode
        maxRbtNumNode :=
          if b.rbt.rbtNumNode > hstat.computed.maxRbtNumNode then b.rbt.rbtNumNode
          else hstat.computed.maxRbtNumNode
        averageRbtNumNode := hstat.computed.averageRbtNumNode + b.rbt.rbtNumNode } }

/-- `HashTable_GetStats`. -/
def getStats (ht : HashTable) : HashStat :=
  let hstat := ht.buckets.foldl addStats
    { dynamic := .zero
      computed :=
        { minRbtNumNode := .ofNat (1 <<< 31), maxRbtNumNode := 0, averageRbtNumNode := 0 } }
  { hstat with computed := { hstat.computed with
    averageRbtNumNode := hstat.computed.averageRbtNumNode / ht.parameter.indexSize } }

end HashTable

end CloudNfs.Hash
