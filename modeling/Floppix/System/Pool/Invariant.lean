import Floppix.Lib.Chain
import Floppix.System.Pool.Forest
import Floppix.System.Pool.Ops

/-! # What holds of the pools between calls

The invariant of one pool, of pools side by side, and of the trees they form. The
lists of pending and of free cleanup nodes are carried along as lists of addresses.
-/

namespace Floppix.Pools

open Layout LinkedList Kinship

variable {P : Platform}

/-! ## Blocks and memnodes -/

structure BlockOk (P : Platform) (b : Block) : Prop where
  aligned : P.word ∣ b.addr
  long : b.requested ≤ b.size
  nonempty : 0 < b.size

/-- A memnode of a slot: the carved blocks tile what is used of it. -/
structure NodeOk (P : Platform) (n : Memnode) : Prop where
  header : n.addr + P.memnodeHeader ≤ n.begin
  stop : n.begin + n.size = n.addr + n.deallocSize
  avail : n.sizeAvail ≤ n.size
  first : n.firstAvail + n.sizeAvail = n.begin + n.size
  begin_aligned : P.word ∣ n.begin
  first_aligned : P.word ∣ n.firstAvail
  tiles : Tiles n.begin (n.carved.map Block.region) n.firstAvail
  blocks : ∀ b ∈ n.carved, BlockOk P b

structure StrayOk (P : Platform) (n : Memnode) : Prop where
  header : n.addr + P.memnodeHeader ≤ n.begin
  inside : ∀ b ∈ n.carved, n.begin ≤ b.addr ∧ b.region.stop ≤ n.addr + n.deallocSize
  apart : (n.carved.map Block.region).Pairwise Region.Apart
  blocks : ∀ b ∈ n.carved, BlockOk P b

structure LargeOk (P : Platform) (b : Block) : Prop extends BlockOk P b where
  user : b.record = false

/-! ## Cleanup nodes -/

/-- Writing one node leaves the other one alone. -/
def Separate (P : Platform) (r q : Ref) : Prop :=
  r ≠ q ∧ (r.tag = 0 → q.tag = 0 → Region.Apart (recordRegion P r) (recordRegion P q))

theorem Separate.symm {r q : Ref} (h : Separate P r q) : Separate P q r :=
  ⟨h.1.symm, fun hq hr => (h.2 hr hq).symm⟩

/-- The node lies in the part of the memnode that was used before it was cleared. -/
def Behind (P : Platform) (n : Memnode) (r : Ref) : Prop :=
  n.firstAvail ≤ r.addr ∧ r.addr + P.sizeofCleanup ≤ n.begin + n.size

def Carved (P : Platform) (n : Memnode) (r : Ref) : Prop :=
  ∃ b ∈ n.carved, b.record = true ∧ b.addr = r.addr ∧ P.sizeofCleanup ≤ b.size

def Housed (P : Platform) (pool : Pool) (r : Ref) : Prop :=
  ∃ i, ∃ n ∈ pool.nodes i, Carved P n r ∨ Behind P n r

/-- How the contents are treated decides the tags. -/
def TagOk (contents : Contents) (count : Nat) (r : Ref) : Prop :=
  match contents with
  | .inMemory => r.tag = 0
  | .abstract => 0 < r.tag ∧ r.tag ≤ count

def freeData (m : Memory) (rs : List Ref) : List Nat :=
  rs.filterMap fun r => (m.records r).bind fun c => if c.handler = .free then some c.data else none

/-! ## One pool -/

/-- The invariant of one pool, in a memory, with its pending and its free cleanups. -/
structure PoolOk (P : Platform) (contents : Contents) (m : Memory) (p : Nat) (pool : Pool)
    (pending free : List Ref) : Prop where
  slots : ∀ i, ∀ n ∈ pool.nodes i,
    i < maxPoolSlot ∧ n.deallocSize = (i + 1) * P.pageSize ∧ NodeOk P n
  strays : ∀ n ∈ pool.stray, n.deallocSize = (maxPoolSlot + 1) * P.pageSize ∧ StrayOk P n
  large : ∀ b ∈ pool.large, LargeOk P b
  live : ∀ r ∈ pool.regions, r ∈ m.live
  nodup : pool.regions.Nodup
  /-- the pool is in one of its own memnodes, and so is a mutex of its own -/
  header : ∃ n ∈ pool.memnodes, p = n.addr + P.memnodeHeader ∧ p + P.poolHeader ≤ n.begin ∧
    (P.threadSafety = true → pool.mutex = p + P.poolHeader →
      p + P.poolHeader + P.mutexHeader ≤ n.begin)
  pendingChain : Chain m.records CleanupNode.next pool.cleanups pending
  freeChain : Chain m.records CleanupNode.next pool.freeCleanups free
  records : (pending ++ free).Pairwise (Separate P)
  tags : ∀ r ∈ pending ++ free, TagOk contents m.recordCount r
  houses : ∀ r ∈ pending ++ free, r.tag = 0 → Housed P pool r

/-- The large blocks that pending cleanups will free are there, each for one of them. -/
def Freed (m : Memory) (pool : Pool) (pending : List Ref) : Prop :=
  (freeData m pending).Nodup ∧ ∀ d ∈ freeData m pending, ∃ b ∈ pool.large, b.addr = d

/-! ## Pools side by side -/

/-- The invariant of the given pools. -/
structure Held (P : Platform) (contents : Contents) (m : Memory) (ps : List Nat)
    (pending free : Nat → List Ref) : Prop where
  heap : ∀ r ∈ m.live, ∀ q ∈ m.live, r ≠ q → Region.Apart r q
  pools : ∀ p ∈ ps, ∃ pool, m.pools p = some pool ∧
    PoolOk P contents m p pool (pending p) (free p) ∧ Freed m pool (pending p)
  regions : ∀ p ∈ ps, ∀ q ∈ ps, p ≠ q → ∀ pool pool', m.pools p = some pool →
    m.pools q = some pool' → pool.regions.Disjoint pool'.regions
  listed : ∀ p ∈ ps, ∀ q ∈ ps, p ≠ q → (pending p ++ free p).Disjoint (pending q ++ free q)

theorem Held.subset {contents : Contents} {m : Memory} {ps qs : List Nat}
    {pending free : Nat → List Ref} (h : Held P contents m ps pending free) (hsub : qs ⊆ ps) :
    Held P contents m qs pending free where
  heap := h.heap
  pools p hp := h.pools p (hsub hp)
  regions p hp q hq := h.regions p (hsub hp) q (hsub hq)
  listed p hp q hq := h.listed p (hsub hp) q (hsub hq)

theorem Held.poolOk {contents : Contents} {m : Memory} {ps : List Nat}
    {pending free : Nat → List Ref} (h : Held P contents m ps pending free) {p : Nat} {pool : Pool}
    (hp : p ∈ ps) (hpool : m.pools p = some pool) :
    PoolOk P contents m p pool (pending p) (free p) := by
  obtain ⟨pool', hpool', hok, -⟩ := h.pools p hp
  rw [hpool] at hpool'
  cases hpool'
  exact hok

theorem Held.freed {contents : Contents} {m : Memory} {ps : List Nat}
    {pending free : Nat → List Ref} (h : Held P contents m ps pending free) {p : Nat} {pool : Pool}
    (hp : p ∈ ps) (hpool : m.pools p = some pool) : Freed m pool (pending p) := by
  obtain ⟨pool', hpool', -, hfreed⟩ := h.pools p hp
  rw [hpool] at hpool'
  cases hpool'
  exact hfreed

/-! ## Trees of pools -/

def Forest.Linked (forest : Forest) (m : Memory) : Prop :=
  ∀ root ∈ forest, Family.Linked m.links (Forest.tree root) (some root.1)

/-- The invariant of all pools: what the memory holds and how the pools are linked. They
belong to one thread, and every tree has one mutex, which is behind its root. -/
structure Inv (P : Platform) (contents : Contents) (thread : Nat) (m : Memory) (forest : Forest)
    (pending free : Nat → List Ref) : Prop where
  held : Held P contents m forest.members pending free
  nodup : forest.members.Nodup
  linked : forest.Linked m
  owner : ∀ p ∈ forest.members, ∀ pool, m.pools p = some pool → P.threadSafety = true →
    pool.owner = thread
  mutex : ∀ root ∈ forest, ∀ p ∈ (Forest.tree root).members, ∀ pool, m.pools p = some pool →
    P.threadSafety = true → pool.mutex = root.1 + P.poolHeader

theorem inv_empty (contents : Contents) (thread : Nat) :
    Inv P contents thread Memory.empty [] (fun _ => []) (fun _ => []) where
  held :=
    { heap := by simp [Memory.empty]
      pools := by simp [Forest.members]
      regions := by simp [Forest.members]
      listed := by simp [Forest.members] }
  nodup := List.nodup_nil
  linked := by simp [Forest.Linked]
  owner := by simp [Memory.empty]
  mutex := by simp [Memory.empty]

end Floppix.Pools
