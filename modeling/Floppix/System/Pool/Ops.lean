import Floppix.System.Pool.Alloc

/-! # The operations of a pool

What `pool.c` offers besides allocation: running and removing cleanups, creating,
clearing and destroying pools, and the sizes. Loops over linked lists are given a bound
on their rounds, and the recursion over the children a bound on its depth.
-/

namespace Floppix.Pools

open Layout

variable {P : Platform} (env : Environment P)

/-! ## Running cleanups -/

def runHandler (p : Nat) (c : CleanupNode) (s : State) : Except Fault State :=
  match c.handler with
  | .free => do
      let pool ← s.getPool p
      let s := s.setPool p { pool with large := pool.large.filter fun b => b.addr ≠ c.data }
      .ok (fpxFree c.data s)
  | .user id =>
      (env.handler id c.data).foldlM
        (fun s reg => cleanupAdd env reg.pool reg.data (.user reg.id) s)
        (s.log (.run id c.data))

def reserveRecord (P : Platform) (p : Nat) (r : Ref) (s : State) : Except Fault State := do
  let c ← s.getRecord r
  let pool ← s.getPool p
  let s := s.setRecord P r { c with next := pool.freeCleanups }
  .ok (s.setPool p { pool with freeCleanups := some r })

def runCleanups (p : Nat) : Nat → Option Ref → State → Except Fault State
  | _, none, s => .ok s
  | 0, some _, _ => .error .fuel
  | rounds + 1, some r, s => do
      let c ← s.getRecord r
      let s ← runHandler env p c (s.log (.readRecord r.addr))
      let s ← reserveRecord P p r s
      runCleanups p rounds c.next s

def cleanupRunAll (rounds p : Nat) (s : State) : Except Fault State := do
  let pool ← s.getPool p
  let s ← runCleanups env p rounds pool.cleanups s
  let pool ← s.getPool p
  .ok (s.setPool p { pool with cleanups := none })

/-- The search of `fpx_pool_cleanup_run1` and `fpx_pool_cleanup_remove1`: the node with
these data and this handler, and the one before it. -/
def findRecord (data : Nat) (handler : Handler) (s : State) :
    Nat → Option Ref → Option Ref → Except Fault (Option (Option Ref × Ref))
  | _, _, none => .ok none
  | 0, _, some _ => .error .fuel
  | rounds + 1, prev, some r => do
      let c ← s.getRecord r
      if c.data = data ∧ c.handler = handler then .ok (some (prev, r))
      else findRecord data handler s rounds (some r) c.next

/-- The node leaves `cleanups`. `prev` has a value only when the search has passed a
node. -/
def detachRecord (P : Platform) (p : Nat) (prev : Option Ref) (r : Ref) (s : State) :
    Except Fault State := do
  let pool ← s.getPool p
  let c ← s.getRecord r
  if pool.cleanups = some r then .ok (s.setPool p { pool with cleanups := c.next })
  else
    match prev with
    | none => .error .uninit
    | some q => do
        let cq ← s.getRecord q
        .ok (s.setRecord P q { cq with next := c.next })

/-- The end of both functions. -/
def unlinkRecord (P : Platform) (p : Nat) (prev : Option Ref) (r : Ref) (s : State) :
    Except Fault State := do
  let s ← detachRecord P p prev r s
  let s ← reserveRecord P p r s
  let pool ← s.getPool p
  .ok (s.unlock P pool.mutex)

/-- `fpx_pool_cleanup_run1`. Where nothing is found the mutex stays locked. -/
def cleanupRun (rounds p data : Nat) (handler : Handler) (s : State) : Except Fault State := do
  let pool ← s.getPool p
  let s := s.lock P pool.mutex
  match ← findRecord data handler s rounds none pool.cleanups with
  | none => .ok s
  | some (prev, r) =>
      let c ← s.getRecord r
      let s ← runHandler env p c s
      unlinkRecord P p prev r s

/-- `fpx_pool_cleanup_remove1`. Where nothing is found the mutex stays locked. -/
def cleanupRemove (P : Platform) (rounds p data : Nat) (handler : Handler) (s : State) :
    Except Fault State := do
  let pool ← s.getPool p
  let s := s.lock P pool.mutex
  match ← findRecord data handler s rounds none pool.cleanups with
  | none => .ok s
  | some (prev, r) => unlinkRecord P p prev r s

/-! ## Creating a pool -/

def addChild (parent newChild : Nat) (s : State) : Except Fault State := do
  let new ← s.getPool newChild
  let s := s.setPool newChild { new with parent := some parent }
  let old ← s.getPool parent
  let s := s.setPool parent { old with child := some newChild }
  let new ← s.getPool newChild
  .ok (s.setPool newChild { new with brother := old.child })

/-- The part of `fpx_pool_create` under `FPX_POOL_THREAD_SAFETY`: the mutex, that of the
parent or one behind the pool, and the memnode without it. -/
def embedMutex (parent : Option Nat) (node : Memnode) (s : State) :
    Except Fault (Except Err (Nat × Memnode)) :=
  if P.threadSafety then
    match parent with
    | some q => do
        let pool ← s.getPool q
        .ok (.ok (pool.mutex, node))
    | none =>
        let mutex := node.begin
        let err := env.mutexInit mutex
        if err ≠ Err.ok then .ok (.error err)
        else
          .ok (.ok (mutex, { node with begin := node.begin + P.mutexHeader
                                       size := P.sub node.size P.mutexHeader }))
  else .ok (.ok (0, node))

/-- `fpx_pool_create` by the given thread: its status, and the pool. -/
def create (thread size : Nat) (parent : Option Nat) (s : State) :
    Except Fault (Err × Option Nat × State) := do
  let alignSize := P.alignAllocation size
  if alignSize = 0 then .ok (Err.failed, none, s)
  else
    let alignSize := P.wrap (alignSize + P.poolHeader)
    let npages := P.getNpages alignSize
    let index := npages - 1
    if index > maxPoolSlot then .ok (Err.failed, none, s)
    else
      match memnodeAllocate env (npages * P.pageSize) s with
      | (none, s) => .ok (env.mallocErrno.code, none, s)
      | (some node, s) =>
          let newPool := node.begin
          let node := { node with begin := node.begin + P.poolHeader
                                  size := P.sub node.size P.poolHeader }
          match ← embedMutex env parent node s with
          | .error err => .ok (err, none, memnodeDeallocate node s)
          | .ok (mutex, node) =>
              let node := { node with firstAvail := node.begin, sizeAvail := node.size }
              let pool : Pool :=
                { nodes := fun _ => []
                  parent := none
                  brother := none
                  child := none
                  cleanups := none
                  freeCleanups := none
                  mutex := mutex
                  owner := if P.threadSafety then thread else 0
                  stray := []
                  large := [] }
              let s := s.setPool newPool (pool.register index node)
              match parent with
              | none => .ok (Err.ok, some newPool, s)
              | some q => do
                  let s ← addChild q newPool s
                  .ok (Err.ok, some newPool, s)

/-! ## Clearing and destroying -/

/-- The loop over the children that `fpx_pool_clear` and `fpx_pool_destroy` have in
common. -/
def forChildren (visit : Nat → State → Except Fault State) :
    Nat → Option Nat → State → Except Fault State
  | _, none, s => .ok s
  | 0, some _, _ => .error .fuel
  | rounds + 1, some child, s => do
      let pool ← s.getPool child
      let s ← visit child (s.log (.readPool child))
      forChildren visit rounds pool.brother s

def Memnode.rewind (node : Memnode) : Memnode :=
  { node with firstAvail := node.begin, sizeAvail := node.size, carved := [] }

/-- The memnodes of the slots are rewound. What was handed out from elsewhere counts as
given back too. -/
def Pool.rewind (pool : Pool) : Pool :=
  { pool with
    nodes := fun i => (pool.nodes i).map Memnode.rewind
    stray := pool.stray.map fun node => { node with carved := [] }
    large := [] }

def clear (rounds : Nat) : Nat → Nat → Nat → State → Except Fault State
  | 0, _, _, _ => .error .fuel
  | depth + 1, thread, p, s => do
      let pool ← s.getPool p
      if P.threadSafety ∧ pool.owner ≠ thread then .ok s
      else
        let s := s.lock P pool.mutex
        let s ← cleanupRunAll env rounds p s
        let pool ← s.getPool p
        let s ← forChildren (clear rounds depth thread) rounds pool.child s
        let pool ← s.getPool p
        .ok ((s.setPool p pool.rewind).unlock P pool.mutex)

/-- The loop of `fpx_pool_destroy` over the list of one slot. -/
def destroyNodes (nodes : List Memnode) (s : State) : State :=
  nodes.foldl (fun s node => memnodeDeallocate node (s.log (.readNode node.addr))) s

def destroySlots (p : Nat) : List Nat → State → Except Fault State
  | [], s => .ok s
  | i :: slots, s => do
      let pool ← s.getPool p
      destroySlots p slots (destroyNodes (pool.nodes i) (s.log (.readPool p)))

def destroy (rounds : Nat) : Nat → Nat → Nat → State → Except Fault State
  | 0, _, _, _ => .error .fuel
  | depth + 1, thread, p, s => do
      let pool ← s.getPool p
      let s := s.log (.readPool p)
      if P.threadSafety ∧ pool.owner ≠ thread then .ok s
      else
        let s ← cleanupRunAll env rounds p s
        let pool ← s.getPool p
        let s ← forChildren (destroy rounds depth thread) rounds pool.child s
        destroySlots p (List.range maxPoolSlot) s

/-! ## Sizes -/

/-- The sum the three size functions build, over all memnodes of the slots. -/
def sumNodes (P : Platform) (pool : Pool) (f : Nat → Memnode → Nat) : Nat :=
  (List.range maxPoolSlot).foldl
    (fun size i => (pool.nodes i).foldl (fun size node => P.wrap (size + f i node)) size) 0

def getSize (P : Platform) (pool : Pool) : Nat := sumNodes P pool fun _ node => node.size

def getFreeSize (P : Platform) (pool : Pool) : Nat := sumNodes P pool fun _ node => node.sizeAvail

def getTotalSize (P : Platform) (pool : Pool) : Nat :=
  sumNodes P pool fun i _ => P.wrap (P.pageSize * (i + 1))

/-! ## Runs -/

inductive Op where
  | create (size : Nat) (parent : Option Nat)
  | palloc (p size : Nat)
  | pcalloc (p size : Nat)
  | cleanupAdd (p data id : Nat)
  | cleanupRun (p data : Nat) (handler : Handler)
  | cleanupRemove (p data : Nat) (handler : Handler)
  | clear (p : Nat)
deriving DecidableEq, Repr

structure Action where
  op : Op
  rounds : Nat
  depth : Nat

def exec (thread : Nat) (a : Action) (s : State) : Except Fault State :=
  match a.op with
  | .create size parent => (create env thread size parent s).map fun r => r.2.2
  | .palloc p size => (palloc env p size s).map Prod.snd
  | .pcalloc p size => (pcalloc env p size s).map Prod.snd
  | .cleanupAdd p data id => cleanupAdd env p data (.user id) s
  | .cleanupRun p data handler => cleanupRun env a.rounds p data handler s
  | .cleanupRemove p data handler => cleanupRemove P a.rounds p data handler s
  | .clear p => clear env a.rounds a.depth thread p s

def step (thread : Nat) (s : State) (a : Action) : Option State := (exec env thread a s).toOption

end Floppix.Pools
