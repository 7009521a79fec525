import Utilmm.Core.Chain
import Utilmm.Core.Except

/-!
# Hash tables

The class `table` of `hash/bits/table.tcc` with its iterators of `hash/bits/iter.tcc`, on a memory
of nodes. Undefined behaviour is a `Fault`: a remainder by zero, an index out of a vector, a null or
freed node, a pointer into a vector which has been replaced, a loop which never ends, an object
which does not exist. It is a fault of the operation, but for one case: `insert` ends with a read of
`*position`, which may point into the vector which it has replaced. This fault is the value of the
iterator which `insert` returns, so that the table after it can be told.
-/

namespace Utilmm

namespace HashToolbox

/-- What goes wrong where the behaviour is undefined. -/
inductive Fault
  | divByZero
  | badBucket
  | badNode
  | dangling
  | endless
  | noObject
deriving DecidableEq

/-- The parameters `Extract`, `Hash` and `Equal` of a table. -/
structure Traits (K V : Type) where
  /-- The key of a value. -/
  getKey : V → K
  /-- The hash of a key. -/
  hash : K → Nat
  /-- Whether two keys are the same. -/
  eq : K → K → Bool

/-- A `hash_map` from numbers to numbers. The hash of a number is the number. -/
def Traits.natMap : Traits Nat (Nat × Nat) := ⟨Prod.fst, id, (· == ·)⟩

/-- The members of a table. -/
structure Table where
  /-- The first node of each bucket. -/
  bucket : List (Option Addr)
  /-- How often the vector of buckets was replaced. -/
  version : Nat
  /-- The number of nodes. -/
  nodeCount : Nat
  /-- How many nodes there may be for a bucket. -/
  avgBucketCount : Nat
deriving DecidableEq

/-- The default constructor. -/
def Table.new : Table := ⟨[], 0, 0, 64⟩

/-- `swap` exchanges the members of two tables. -/
def Table.swap (t other : Table) : Table × Table :=
  (⟨other.bucket, other.version, other.nodeCount, other.avgBucketCount⟩,
    ⟨t.bucket, t.version, t.nodeCount, t.avgBucketCount⟩)

/-- A table and the memory it lives in. -/
structure State (V : Type) where
  /-- The memory. -/
  mem : Memory V
  /-- The table. -/
  table : Table
deriving DecidableEq

/-- A `node_type **`: a slot of the vector of buckets or the member `next` of a node. -/
inductive Link
  | slot (version i : Nat)
  | next (a : Addr)
deriving DecidableEq

variable {K V : Type}

/-- Access to a node through a pointer. -/
def deref (mem : Memory V) : Option Addr → Except Fault (Node V)
  | none => .error .badNode
  | some a =>
    match mem.node a with
    | some n => .ok n
    | none => .error .badNode

namespace State

/-- Read `*link`. -/
def load (s : State V) : Link → Except Fault (Option Addr)
  | .slot version i =>
    if version = s.table.version then
      match s.table.bucket[i]? with
      | some p => .ok p
      | none => .error .badBucket
    else .error .dangling
  | .next a => do
    let n ← deref s.mem (some a)
    return n.next

/-- Assign `*link = p`. -/
def store (s : State V) (link : Link) (p : Option Addr) : Except Fault (State V) :=
  match link with
  | .slot version i =>
    if version = s.table.version then
      if i < s.table.bucket.length then
        .ok { s with table := { s.table with bucket := s.table.bucket.set i p } }
      else .error .badBucket
    else .error .dangling
  | .next a => do
    let n ← deref s.mem (some a)
    return { s with mem := s.mem.write a { n with next := p } }

end State

/-! ### Hashing -/

section

variable (tr : Traits K V)

/-- `hf(key)%mod`. -/
def hashKey (key : K) (mod : Nat) : Except Fault Nat :=
  if mod = 0 then .error .divByZero else .ok (tr.hash key % mod)

/-- The bucket of a value. -/
def hashNode (v : V) (mod : Nat) : Except Fault Nat := hashKey tr (tr.getKey v) mod

/-- The loop of `find_node`. -/
def findLoop (s : State V) (key : K) : Nat → Link → Except Fault Link
  | 0, _ => .error .endless
  | fuel + 1, res => do
    match ← s.load res with
    | none => return res
    | some a =>
      let n ← deref s.mem (some a)
      if tr.eq key (tr.getKey n.val) then return res else findLoop s key fuel (.next a)

/-- The link to the first node with a key, or to the end of its bucket. -/
def findNode (s : State V) (key : K) : Except Fault Link := do
  let i ← hashKey tr key s.table.bucket.length
  findLoop tr s key (s.mem.size + 1) (.slot s.table.version i)

/-! ### Growing -/

/-- The last node of the run of nodes with the key of `first`, from the node `n` of the run. -/
def lastOfRun (mem : Memory V) (first : V) : Nat → Addr → Except Fault Addr
  | 0, _ => .error .endless
  | fuel + 1, n => do
    let node ← deref mem (some n)
    match node.next with
    | none => return n
    | some m =>
      let next ← deref mem (some m)
      if tr.eq (tr.getKey first) (tr.getKey next.val) then lastOfRun mem first fuel m else return n

/-- Move the run of nodes that starts at `beg` to the front of its bucket in `tmp`. Returns what is
left of the old bucket. -/
def moveRun (newBcount : Nat) (mem : Memory V) (tmp : List (Option Addr)) (beg : Addr) :
    Except Fault (Memory V × List (Option Addr) × Option Addr) := do
  let first ← deref mem (some beg)
  let n ← lastOfRun tr mem first.val (mem.size + 1) beg
  let last ← deref mem (some n)
  let hval ← hashNode tr first.val newBcount
  match tmp[hval]? with
  | none => .error .badBucket
  | some head =>
    return (mem.write n { last with next := head }, tmp.set hval (some beg), last.next)

/-- Move all the nodes of a bucket. -/
def moveBucket (newBcount : Nat) :
    Nat → Memory V × List (Option Addr) → Option Addr → Except Fault (Memory V × List (Option Addr))
  | 0, _, _ => .error .endless
  | _ + 1, state, none => return state
  | fuel + 1, (mem, tmp), some beg => do
    let (mem, tmp, rest) ← moveRun tr newBcount mem tmp beg
    moveBucket newBcount fuel (mem, tmp) rest

/-- Move the nodes of all the buckets to a new vector. -/
def rehash (newBcount : Nat) (mem : Memory V) (bucket : List (Option Addr)) :
    Except Fault (Memory V × List (Option Addr)) :=
  bucket.foldlM (fun state p => moveBucket tr newBcount (state.1.size + 1) state p)
    (mem, List.replicate newBcount none)

/-- Set the number of nodes. -/
def resize (s : State V) (size : Nat) : Except Fault (State V) :=
  if size = 0 then
    .ok ⟨s.mem, { s.table with
      bucket := [none], version := s.table.version + 1, nodeCount := size }⟩
  else
    let newBcount := 1 + size / s.table.avgBucketCount
    if newBcount > s.table.bucket.length then do
      let (mem, tmp) ← rehash tr newBcount s.mem s.table.bucket
      return ⟨mem, { s.table with
        bucket := tmp, version := s.table.version + 1, nodeCount := size }⟩
    else
      .ok ⟨s.mem, { s.table with nodeCount := size }⟩

/-! ### Insertion -/

/-- Insert a new node at `*position`. The result is what `*position` reads after the table has
grown, which has no effect on the table. -/
def insert (s : State V) (position : Link) (v : V) :
    Except Fault (State V × Except Fault (Option Addr)) := do
  let head ← s.load position
  let s ← State.store { s with mem := s.mem.alloc ⟨v, head⟩ } position (some s.mem.size)
  let s ← resize tr s (s.table.nodeCount + 1)
  return (s, s.load position)

/-- Insert a value unless its key is present. -/
def insertUnique (s : State V) (v : V) :
    Except Fault (State V × Except Fault (Option Addr) × Bool) := do
  let pos ← findNode tr s (tr.getKey v)
  match ← s.load pos with
  | some a => return (s, .ok (some a), false)
  | none =>
    let (s, it) ← insert tr s pos v
    return (s, it, true)

/-- Insert a value in any case. -/
def insertMultiple (s : State V) (v : V) :
    Except Fault (State V × Except Fault (Option Addr)) := do
  let pos ← findNode tr s (tr.getKey v)
  insert tr s pos v

/-! ### Removal -/

/-- Go to the next bucket while `*iter` is null and there is one. -/
def skipEmpty (s : State V) : Nat → Link → Nat → Except Fault (Link × Nat)
  | 0, _, _ => .error .endless
  | fuel + 1, iter, hval => do
    match ← s.load iter with
    | some _ => return (iter, hval)
    | none =>
      if hval + 1 < s.table.bucket.length then
        skipEmpty s fuel (.slot s.table.version (hval + 1)) (hval + 1)
      else return (iter, hval)

/-- The loop of `erase`. Returns the number of nodes removed. -/
def eraseLoop (last : Option Addr) : Nat → State V → Link → Nat → Nat → Except Fault (State V × Nat)
  | 0, _, _, _, _ => .error .endless
  | fuel + 1, s, iter, hval, removed => do
    let p ← s.load iter
    if last = p then return (s, removed)
    else
      let tmp ← deref s.mem p
      let s ← s.store iter tmp.next
      let s := { s with mem := p.elim s.mem s.mem.free }
      let (iter, hval) ← skipEmpty s (s.table.bucket.length + 1) iter hval
      eraseLoop last fuel s iter hval (removed + 1)

/-- Remove the nodes from `first` up to `last`. -/
def erase (s : State V) (first last : Option Addr) : Except Fault (State V) :=
  if first = last then .ok s
  else do
    let n ← deref s.mem first
    let hval ← hashNode tr n.val s.table.bucket.length
    let iter ← findNode tr s (tr.getKey n.val)
    let (s, removed) ← eraseLoop last (s.mem.size + 1) s iter hval 0
    resize tr s (s.table.nodeCount - removed)

/-- Free the nodes of a bucket. -/
def clearBucket : Nat → Memory V → Option Addr → Except Fault (Memory V)
  | 0, _, _ => .error .endless
  | _ + 1, mem, none => return mem
  | fuel + 1, mem, some toDel => do
    let n ← deref mem (some toDel)
    clearBucket fuel (mem.free toDel) n.next

/-- Remove all the nodes. -/
def clear (s : State V) : Except Fault (State V) := do
  let mem ← s.table.bucket.foldlM (fun mem p => clearBucket (mem.size + 1) mem p) s.mem
  resize tr { s with mem := mem } 0

/-! ### Iteration -/

/-- The `end()` iterator. -/
def endIter : Option Addr := none

/-- The loop of `begin`. -/
def beginLoop : List (Option Addr) → Except Fault (Option Addr)
  | [] => .error .badBucket
  | none :: _ => .ok none
  | some _ :: bucket => beginLoop bucket

/-- The `begin()` iterator: what the first bucket without a node holds. -/
def beginIter (s : State V) : Except Fault (Option Addr) := beginLoop s.table.bucket

/-- The first node from `current` or else from the buckets `pos` and on. -/
def skipBuckets (s : State V) : Nat → Option Addr → Nat → Except Fault (Option Addr × Nat)
  | 0, _, _ => .error .endless
  | _ + 1, some a, pos => return (some a, pos)
  | fuel + 1, none, pos =>
    match s.table.bucket[pos]? with
    | some p => skipBuckets s fuel p (pos + 1)
    | none => return (none, pos)

/-- The loop of `operator+=`. -/
def advanceLoop (s : State V) : Nat → Option Addr → Nat → Except Fault (Option Addr)
  | 0, current, _ => return current
  | _ + 1, none, _ => return none
  | delta + 1, some a, pos => do
    let n ← deref s.mem (some a)
    let (current, pos) ← skipBuckets s (s.table.bucket.length + 1) n.next pos
    advanceLoop s delta current pos

/-- The iterator `delta` steps after `current`. -/
def advance (s : State V) (current : Option Addr) (delta : Nat) : Except Fault (Option Addr) := do
  let n ← deref s.mem current
  let hval ← hashNode tr n.val s.table.bucket.length
  advanceLoop s delta current (hval + 1)

/-- The loop of `equal_range`. -/
def equalLoop (s : State V) (key : K) : Nat → Option Addr → Except Fault (Option Addr)
  | 0, _ => .error .endless
  | _ + 1, none => return none
  | fuel + 1, some a => do
    let n ← deref s.mem (some a)
    if tr.eq (tr.getKey n.val) key then
      let stop ← advance tr s (some a) 1
      equalLoop s key fuel stop
    else return some a

/-- The nodes with a key, from the first iterator up to the second. -/
def equalRange (s : State V) (key : K) : Except Fault (Option Addr × Option Addr) := do
  let link ← findNode tr s key
  let start ← s.load link
  let stop ← equalLoop tr s key (s.mem.size + 1) start
  return (start, stop)

/-! ### The interface of maps and sets -/

/-- The node with a key. -/
def find (s : State V) (key : K) : Except Fault (Option Addr) := do
  let (start, _) ← equalRange tr s key
  return start

/-- Remove the node an iterator points to. -/
def eraseIter (s : State V) (i : Option Addr) : Except Fault (State V) :=
  if endIter ≠ i then do
    let j ← advance tr s i 1
    erase tr s i j
  else .ok s

/-- Remove the node with a key. -/
def eraseKey (s : State V) (key : K) : Except Fault (State V) := do
  let i ← find tr s key
  eraseIter tr s i

end

/-! ### Copies -/

/-- Append copies of the nodes from `iter` on at `*tmp`. -/
def copyChain : Nat → State V → Option Addr → Link → Except Fault (State V)
  | 0, _, _, _ => .error .endless
  | _ + 1, s, none, _ => return s
  | fuel + 1, s, some a, tmp => do
    let n ← deref s.mem (some a)
    let new := s.mem.size
    let s ← State.store { s with mem := s.mem.alloc ⟨n.val, none⟩ } tmp (some new)
    copyChain fuel s n.next (.next new)

/-- Copy the buckets into the slots of the new table from `j` on. -/
def copyBuckets : List (Option Addr) → Nat → State V → Except Fault (State V)
  | [], _, s => return s
  | p :: other, j, s => do
    let s ← copyChain (s.mem.size + 1) s p (.slot s.table.version j)
    copyBuckets other (j + 1) s

/-- The copy constructor. -/
def copy (mem : Memory V) (other : Table) : Except Fault (State V) :=
  copyBuckets other.bucket 0
    ⟨mem, ⟨List.replicate other.bucket.length none, 0, other.nodeCount, other.avgBucketCount⟩⟩

end HashToolbox

end Utilmm
