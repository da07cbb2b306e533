import Floppix.System.Pool.State

/-! # Allocating from a pool

`fpx_palloc1` and `fpx_pool_cleanup_add1`, which need each other: a cleanup node is
allocated from its pool, and a block that is too large for the pool is registered as a
cleanup.
-/

namespace Floppix.Pools

variable {P : Platform} (env : Environment P)

/-! ## The search -/

structure Fit where
  slot : Nat
  before : List Memnode
  node : Memnode
  after : List Memnode

/-- The inner loop of the search of `fpx_palloc1`: the first memnode of the list with
enough space. -/
def fitIn (alignSize : Nat) : List Memnode → Option (List Memnode × Memnode × List Memnode)
  | [] => none
  | node :: rest =>
      if alignSize ≤ node.sizeAvail then some ([], node, rest)
      else (fitIn alignSize rest).map fun (before, found, after) => (node :: before, found, after)

def findFit (alignSize : Nat) (nodes : Nat → List Memnode) : List Nat → Option Fit
  | [] => none
  | i :: slots =>
      match fitIn alignSize (nodes i) with
      | some (before, node, after) => some ⟨i, before, node, after⟩
      | none => findFit alignSize nodes slots

def slotsFrom (index : Nat) : List Nat := (List.range maxPoolSlot).drop index

def Memnode.carve (P : Platform) (node : Memnode) (alignSize requested : Nat) (record : Bool) :
    Memnode :=
  { node with
    sizeAvail := P.sub node.sizeAvail alignSize
    firstAvail := node.firstAvail + alignSize
    carved := node.carved ++ [⟨node.firstAvail, alignSize, requested, record⟩] }

/-- A new memnode registered in the slot; behind the last slot is `parent`. -/
def Pool.register (pool : Pool) (index : Nat) (node : Memnode) : Pool :=
  if index = maxPoolSlot then
    { pool with parent := some node.addr, stray := node :: pool.stray }
  else { pool with nodes := Function.update pool.nodes index (node :: pool.nodes index) }

/-- `fpx_palloc1` from the search on, for a request that is not too large. -/
def pallocSlots (p alignSize requested : Nat) (record : Bool) (s : State) :
    Except Fault (Option Nat × State) := do
  let npages := P.getNpages alignSize
  let index := npages - 1
  let pool ← s.getPool p
  let s := s.lock P pool.mutex
  match findFit alignSize pool.nodes (slotsFrom index) with
  | some fit =>
      let list := fit.before ++ fit.node.carve P alignSize requested record :: fit.after
      let s := s.setPool p { pool with nodes := Function.update pool.nodes fit.slot list }
      .ok (some fit.node.firstAvail, s.unlock P pool.mutex)
  | none =>
      match memnodeAllocate env (npages * P.pageSize) s with
      | (none, s) => .ok (none, s.unlock P pool.mutex)
      | (some node, s) =>
          let s := s.setPool p (pool.register index (node.carve P alignSize requested record))
          .ok (some node.firstAvail, s.unlock P pool.mutex)

/-! ## Cleanups -/

/-- The node `fpx_pool_cleanup_add1` takes from `free_cleanups`, or allocates. A cleanup
node is small, so `fpx_palloc` does not pass it to the system allocator. -/
def takeRecord (p : Nat) (s : State) : Except Fault (Ref × State) := do
  let pool ← s.getPool p
  match pool.freeCleanups with
  | some r =>
      let c ← s.getRecord r
      .ok (r, s.setPool p { pool with freeCleanups := c.next })
  | none =>
      match ← pallocSlots env p (P.alignAllocation P.sizeofCleanup) P.sizeofCleanup true s with
      | (none, _) => .error .deref
      | (some mem, s) =>
          let count := s.mem.recordCount + 1
          let r : Ref := ⟨mem, match env.contents with | .inMemory => 0 | .abstract => count⟩
          .ok (r, { s with mem := { s.mem with recordCount := count } })

def cleanupAdd (p data : Nat) (handler : Handler) (s : State) : Except Fault State := do
  let pool ← s.getPool p
  let s := s.lock P pool.mutex
  let (node, s) ← takeRecord env p s
  let pool ← s.getPool p
  let s := s.setRecord P node ⟨pool.cleanups, data, handler⟩
  let s := s.setPool p { pool with cleanups := some node }
  .ok (s.unlock P pool.mutex)

/-! ## `fpx_palloc1` -/

/-- history: the user has the block -/
def State.handOut (s : State) (p : Nat) (block : Block) : Except Fault State := do
  let pool ← s.getPool p
  .ok (s.setPool p { pool with large := block :: pool.large })

/-- `fpx_palloc1`. A request that is too large goes to the system allocator, and the
mutex is unlocked there without having been locked. -/
def palloc (p size : Nat) (s : State) : Except Fault (Option Nat × State) := do
  let alignSize := P.alignAllocation size
  let index := P.getNpages alignSize - 1
  let pool ← s.getPool p
  if alignSize = 0 then .ok (none, s.unlock P pool.mutex)
  else if index > maxPoolSlot then
    match malloc env alignSize s with
    | (none, s) => .ok (none, s.unlock P pool.mutex)
    | (some mem, s) =>
        let s ← s.handOut p ⟨mem, alignSize, size, false⟩
        let s ← cleanupAdd env p mem .free s
        .ok (some mem, s.unlock P pool.mutex)
  else pallocSlots env p alignSize size false s

def pcalloc (p size : Nat) (s : State) : Except Fault (Option Nat × State) := do
  match ← palloc env p size s with
  | (none, s) => .ok (none, s)
  | (some mem, s) => .ok (some mem, { s with mem := s.mem.overwrite P ⟨mem, size⟩ })

end Floppix.Pools
