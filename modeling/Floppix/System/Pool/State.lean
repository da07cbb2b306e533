import Floppix.Lib.Region
import Floppix.System.Errno
import Floppix.System.Pool.Sizes
import Mathlib.Algebra.Order.BigOperators.Group.List
import Mathlib.Logic.Function.Basic

/-! # The memory of the pools

Memnodes are values in the slots of their pool, pools and cleanup nodes are found by
their addresses. The system allocator and the cleanup handlers are parameters.
-/

namespace Floppix.Pools

open Layout

/-! ## Data -/

/-- A pointer to a cleanup node. In C it is the address. Nodes with other tags than 0
are told apart even where they share memory. -/
structure Ref where
  addr : Nat
  tag : Nat
deriving DecidableEq, Repr

/-- A cleanup handler: `fpx_free` as `fpx_palloc1` registers it, or one of the users'. -/
inductive Handler where
  | free
  | user (id : Nat)
deriving DecidableEq, Repr

structure CleanupNode where
  next : Option Ref
  data : Nat
  handler : Handler
deriving DecidableEq, Repr

/-- history: a block `fpx_palloc1` has returned -/
structure Block where
  addr : Nat
  /-- The aligned size. -/
  size : Nat
  requested : Nat
  /-- It is for a cleanup node, not for a user. -/
  record : Bool
deriving DecidableEq, Repr

def Block.region (b : Block) : Region := ⟨b.addr, b.size⟩

structure Memnode where
  addr : Nat
  begin : Nat
  firstAvail : Nat
  size : Nat
  sizeAvail : Nat
  deallocSize : Nat
  /-- history: the blocks carved from it since it was last cleared -/
  carved : List Block
deriving DecidableEq, Repr

def Memnode.region (n : Memnode) : Region := ⟨n.addr, n.deallocSize⟩

structure Pool where
  /-- The lists of the slots below `FPX_MAX_POOL_SLOT`. -/
  nodes : Nat → List Memnode
  /-- `parent`, which is also what `nodes[FPX_MAX_POOL_SLOT]` names. -/
  parent : Option Nat
  brother : Option Nat
  child : Option Nat
  cleanups : Option Ref
  freeCleanups : Option Ref
  mutex : Nat
  owner : Nat
  /-- history: the memnodes that were stored at `nodes[FPX_MAX_POOL_SLOT]` -/
  stray : List Memnode
  /-- history: the blocks of the system allocator handed out since the last clear and
  not freed -/
  large : List Block

def Pool.links (pool : Pool) : Option Nat × Option Nat := (pool.child, pool.brother)

def Pool.memnodes (pool : Pool) : List Memnode :=
  (List.range maxPoolSlot).flatMap pool.nodes ++ pool.stray

/-- The stretches of memory the system allocator gave to the pool. -/
def Pool.regions (pool : Pool) : List Region :=
  pool.memnodes.map Memnode.region ++ pool.large.map Block.region

structure Memory where
  /-- What `malloc` has returned and nobody has freed. -/
  live : List Region
  /-- How often `malloc` was called. -/
  mallocs : Nat
  /-- A pool that was destroyed stays: freed memory keeps its contents. -/
  pools : Nat → Option Pool
  records : Ref → Option CleanupNode
  /-- history: how many cleanup nodes were allocated -/
  recordCount : Nat

def Memory.empty : Memory := ⟨[], 0, fun _ => none, fun _ => none, 0⟩

def Memory.links (m : Memory) (p : Nat) : Option (Option Nat × Option Nat) :=
  (m.pools p).map Pool.links

/-- What the pools do to the world and to their own memory, as far as results speak
of it. -/
inductive Event where
  | alloc (region : Region)
  /-- `fpx_memnode_deallocate` -/
  | dealloc (addr : Nat)
  /-- `fpx_free` of a large block -/
  | free (addr : Nat)
  /-- `fpx_pool_destroy`, or the walk over children, reads the header of a pool -/
  | readPool (addr : Nat)
  /-- `fpx_pool_destroy` reads the header of a memnode -/
  | readNode (addr : Nat)
  /-- a walk over all cleanups reads a cleanup node -/
  | readRecord (addr : Nat)
  | run (id data : Nat)
  | lock (mutex : Nat)
  | unlock (mutex : Nat)
deriving DecidableEq, Repr

structure State where
  mem : Memory
  events : List Event

def State.empty : State := ⟨Memory.empty, []⟩

inductive Fault where
  /-- a null pointer, or memory without known contents, is followed -/
  | deref
  /-- a local variable is read that was never written -/
  | uninit
  /-- the bound on the rounds of a loop or on the depth is used up -/
  | fuel
deriving DecidableEq, Repr

/-! ## The environment -/

/-- How the contents of cleanup nodes are treated. -/
inductive Contents where
  /-- as in C: a node is where its address is -/
  | inMemory
  /-- a node stays what it is, whatever is done to its memory -/
  | abstract
deriving DecidableEq, Repr

structure Registration where
  pool : Nat
  data : Nat
  id : Nat

/-- What is outside of `pool.c`. -/
structure Environment (P : Platform) where
  /-- What the call of the given number answers, from what is allocated and the size. -/
  malloc : Nat → List Region → Nat → Option Nat
  sound : ∀ k live size a, malloc k live size = some a →
    P.word ∣ a ∧ ∀ r ∈ live, Region.Apart ⟨a, size⟩ r
  /-- `errno` after a failure. -/
  mallocErrno : Errno
  /-- The status of `fpx_mutex_init` at an address. -/
  mutexInit : Nat → Err
  /-- What a user's handler registers while it runs, from its number and its data. -/
  handler : Nat → Nat → List Registration
  contents : Contents

variable {P : Platform}

def Environment.Succeeds (env : Environment P) : Prop :=
  (∀ k live size, ∃ a, env.malloc k live size = some a) ∧ ∀ a, env.mutexInit a = Err.ok

/-- Handlers do not use the pools. -/
def Environment.Quiet (env : Environment P) : Prop := ∀ id data, env.handler id data = []

def behind (P : Platform) (live : List Region) : Nat :=
  P.word * (1 + (live.map Region.stop).sum)

/-- A system allocator that always succeeds, with handlers that do not use the pools. -/
def bump (P : Platform) (contents : Contents) : Environment P where
  malloc _ live _ := some (behind P live)
  sound _ live size a h := by
    cases h
    refine ⟨Nat.dvd_mul_right .., fun r hr => Or.inr ?_⟩
    have hle : r.stop ≤ (live.map Region.stop).sum :=
      List.le_sum_of_mem (List.mem_map_of_mem hr)
    calc r.stop ≤ 1 * (1 + (live.map Region.stop).sum) := by omega
      _ ≤ behind P live := Nat.mul_le_mul_right _ P.word_pos
  mallocErrno := ⟨12, by decide⟩
  mutexInit _ := Err.ok
  handler _ _ := []
  contents := contents

theorem bump_quiet (contents : Contents) : (bump P contents).Quiet := fun _ _ => rfl

/-! ## Access -/

def State.getPool (s : State) (p : Nat) : Except Fault Pool :=
  match s.mem.pools p with
  | some pool => .ok pool
  | none => .error .deref

def Memory.setPool (m : Memory) (p : Nat) (pool : Pool) : Memory :=
  { m with pools := Function.update m.pools p (some pool) }

def State.setPool (s : State) (p : Nat) (pool : Pool) : State :=
  { s with mem := s.mem.setPool p pool }

def State.getRecord (s : State) (r : Ref) : Except Fault CleanupNode :=
  match s.mem.records r with
  | some c => .ok c
  | none => .error .deref

def recordRegion (P : Platform) (r : Ref) : Region := ⟨r.addr, P.sizeofCleanup⟩

/-- A write to the region leaves a node with known contents as it was. -/
def Untouched (P : Platform) (region : Region) (r : Ref) : Prop :=
  r.tag = 0 → Region.Apart region (recordRegion P r)

instance (region : Region) (r : Ref) : Decidable (Untouched P region r) :=
  inferInstanceAs (Decidable (_ → _))

/-- After a write of something else the contents of the cleanup nodes there are not
known. -/
def Memory.overwrite (P : Platform) (m : Memory) (region : Region) : Memory :=
  { m with records := fun r => if Untouched P region r then m.records r else none }

def Memory.setRecord (P : Platform) (m : Memory) (r : Ref) (c : CleanupNode) : Memory :=
  { m with records := fun q =>
      if q = r then some c
      else if r.tag = 0 ∧ ¬ Untouched P (recordRegion P r) q then none
      else m.records q }

def State.setRecord (P : Platform) (s : State) (r : Ref) (c : CleanupNode) : State :=
  { s with mem := s.mem.setRecord P r c }

def State.log (s : State) (e : Event) : State := { s with events := s.events ++ [e] }

def State.lock (P : Platform) (s : State) (mutex : Nat) : State :=
  if P.threadSafety then s.log (.lock mutex) else s

def State.unlock (P : Platform) (s : State) (mutex : Nat) : State :=
  if P.threadSafety then s.log (.unlock mutex) else s

/-! ## The system allocator -/

variable (env : Environment P)

def malloc (size : Nat) (s : State) : Option Nat × State :=
  match env.malloc s.mem.mallocs s.mem.live size with
  | none => (none, { s with mem := { s.mem with mallocs := s.mem.mallocs + 1 } })
  | some a =>
      (some a, { mem := { s.mem with live := ⟨a, size⟩ :: s.mem.live, mallocs := s.mem.mallocs + 1 }
                 events := s.events ++ [.alloc ⟨a, size⟩] })

def Memory.release (m : Memory) (a : Nat) : Memory :=
  { m with live := m.live.filter fun r => r.addr ≠ a }

def fpxFree (a : Nat) (s : State) : State := { s with mem := s.mem.release a }.log (.free a)

def memnodeAllocate (size : Nat) (s : State) : Option Memnode × State :=
  match malloc env size s with
  | (none, s) => (none, s)
  | (some mem, s) =>
      let begin := mem + P.memnodeHeader
      (some { addr := mem
              begin := begin
              firstAvail := begin
              size := P.sub size P.memnodeHeader
              sizeAvail := P.sub size P.memnodeHeader
              deallocSize := size
              carved := [] }, s)

def memnodeDeallocate (node : Memnode) (s : State) : State :=
  { s with mem := s.mem.release node.addr }.log (.dealloc node.addr)

end Floppix.Pools
