import Floppix.System.Pool.Requests

/-! # What creating a pool asks the system for

The cases of `fpx_pool_create`: a size that is refused at once, a memnode or a mutex that
the system does not give, and a new pool with its first memnode.
-/

namespace Floppix.Pools

open Layout Outcome

variable {P : Platform} {env : Environment P} {m m' : Memory} {p : Nat} {pool : Pool}
  {s s' : State} {thread size : Nat} {parent : Option Nat}

/-! ## The mutex -/

/-- The mutex of the new pool is its own, and the system does not make it. -/
def MutexFails (env : Environment P) (parent : Option Nat) (mutex : Nat) : Prop :=
  P.threadSafety = true ∧ parent = none ∧ env.mutexInit mutex ≠ Err.ok

instance (env : Environment P) (parent : Option Nat) (mutex : Nat) :
    Decidable (MutexFails env parent mutex) := inferInstanceAs (Decidable (_ ∧ _ ∧ _))

theorem embedMutex_failed {node : Memnode} (h : MutexFails env parent node.begin) :
    embedMutex env parent node s = .ok (.error (env.mutexInit node.begin)) := by
  obtain ⟨hts, rfl, hfailed⟩ := h
  simp only [embedMutex, if_pos hts, if_pos hfailed]

theorem embedMutex_done (env : Environment P) {mem npages : Nat} {node : Memnode}
    (hnode : HomeNode P mem npages P.poolHeader node) (hpos : 0 < npages)
    (hpages : npages ≤ maxPoolSlot + 1)
    (hparent : ∀ q, parent = some q → ∃ pool, s.mem.pools q = some pool)
    (h : ¬ MutexFails env parent node.begin) :
    ∃ mutex n, embedMutex env parent node s = .ok (.ok (mutex, n)) ∧
      HomeNode P mem npages (P.poolHeader + mutexRoom P parent) n := by
  have hmade : Yields False (embedMutex env parent node s) _ :=
    embedMutex_spec hnode hpos hpages hparent
  obtain ⟨made, hmade, hspec⟩ := hmade.exists_ok not_false
  cases made with
  | ok made => exact ⟨made.1, made.2, hmade, hspec.1⟩
  | error err =>
      refine absurd ?_ h
      unfold embedMutex at hmade
      split at hmade
      · rename_i hts
        cases parent with
        | none =>
            refine ⟨hts, rfl, fun hok => ?_⟩
            simp only [hok, ne_eq, not_true, if_false] at hmade
            cases hmade
        | some q =>
            obtain ⟨old, hold⟩ := hparent q rfl
            simp only [State.getPool_bind hold] at hmade
            cases hmade
      · cases hmade

/-! ## `fpx_pool_create` -/

def newPages (P : Platform) (size : Nat) : Nat :=
  P.getNpages (P.wrap (P.alignAllocation size + P.poolHeader))

theorem newPages_pos (P : Platform) (size : Nat) : 0 < newPages P size := P.npages_pos _

def RefusesSize (P : Platform) (size : Nat) : Prop :=
  P.alignAllocation size = 0 ∨ maxPoolSlot + 1 < newPages P size

instance (size : Nat) : Decidable (RefusesSize P size) := inferInstanceAs (Decidable (_ ∨ _))

theorem create_outOfRange (env : Environment P) (thread : Nat) (parent : Option Nat) (s : State)
    (h : RefusesSize P size) : create env thread size parent s = .ok (Err.failed, none, s) := by
  unfold create
  rcases h with h | h
  · simp only [if_pos h]
  · rw [newPages] at h
    simp only
    split
    · rfl
    · rw [if_pos (by omega)]

theorem create_refused (thread : Nat) (parent : Option Nat) (h : ¬ RefusesSize P size)
    (hanswer : env.answer s.mem (newPages P size * P.pageSize) = none) :
    ∃ s', create env thread size parent s = .ok (env.mallocErrno.code, none, s') ∧
      s'.mem = s.mem.refused := by
  rw [RefusesSize, not_or, Nat.not_lt] at h
  obtain ⟨s', hm, hmem⟩ := memnodeAllocate_refused hanswer
  have hindex : ¬ newPages P size - 1 > maxPoolSlot := by omega
  rw [newPages] at hm hindex
  refine ⟨s', ?_, hmem⟩
  unfold create
  simp only [if_neg h.1, if_neg hindex, hm]

def headedNode (P : Platform) (mem npages : Nat) : Memnode :=
  let node := newMemnode P mem (npages * P.pageSize)
  { node with begin := node.begin + P.poolHeader, size := P.sub node.size P.poolHeader }

theorem headedNode_home {mem npages : Nat} (hpos : 0 < npages) (hpages : npages ≤ maxPoolSlot + 1) :
    HomeNode P mem npages P.poolHeader (headedNode P mem npages) := by
  have hfits := P.headers_fit
  have hmul : P.pageSize ≤ npages * P.pageSize := Nat.le_mul_of_pos_left _ hpos
  have hnew : HomeNode P mem npages 0 (newMemnode P mem (npages * P.pageSize)) :=
    HomeNode.new hpos hpages
  have hhome := hnew.shrink (k := P.poolHeader) hpages (by omega)
  rwa [Nat.zero_add] at hhome

def settle (P : Platform) (thread size : Nat) (parent : Option Nat) (mem : Nat) (s : State) :
    Except Err (Nat × Memnode) → Except Fault (Err × Option Nat × State)
  | .error err => .ok (err, none, memnodeDeallocate (headedNode P mem (newPages P size)) s)
  | .ok (mutex, n) =>
      let new := mem + P.memnodeHeader
      let s := s.setPool new ((barePool P thread mutex).register (newPages P size - 1)
        { n with firstAvail := n.begin, sizeAvail := n.size })
      match parent with
      | none => .ok (Err.ok, some new, s)
      | some q => do
          let s ← addChild q new s
          .ok (Err.ok, some new, s)

theorem create_granted (thread : Nat) (parent : Option Nat) (h : ¬ RefusesSize P size) {mem : Nat}
    (hanswer : env.answer s.mem (newPages P size * P.pageSize) = some mem) :
    ∃ s₁, s₁.mem = s.mem.granted ⟨mem, newPages P size * P.pageSize⟩ ∧
      create env thread size parent s =
        embedMutex env parent (headedNode P mem (newPages P size)) s₁ >>=
          settle P thread size parent mem s₁ := by
  rw [RefusesSize, not_or, Nat.not_lt] at h
  obtain ⟨s₁, hm, hmem⟩ := memnodeAllocate_granted hanswer
  have hindex : ¬ newPages P size - 1 > maxPoolSlot := by omega
  rw [newPages] at hm hindex
  refine ⟨s₁, hmem, ?_⟩
  unfold create
  simp only [if_neg h.1, if_neg hindex, hm]
  apply bind_congr
  intro made
  cases made with
  | error err => rfl
  | ok made => cases parent <;> rfl

theorem create_mutexFailed (thread : Nat) (h : ¬ RefusesSize P size) {mem : Nat}
    (hanswer : env.answer s.mem (newPages P size * P.pageSize) = some mem)
    (hmutex : MutexFails env parent (mem + P.memnodeHeader + P.poolHeader)) :
    ∃ err s', create env thread size parent s = .ok (err, none, s') ∧ err ≠ Err.ok ∧
      s'.mem = (s.mem.granted ⟨mem, newPages P size * P.pageSize⟩).release mem := by
  obtain ⟨s₁, hmem, hcreate⟩ := create_granted thread parent h hanswer
  have hfailed : embedMutex env parent (headedNode P mem (newPages P size)) s₁ = _ :=
    embedMutex_failed hmutex
  rw [hfailed] at hcreate
  refine ⟨_, _, hcreate, hmutex.2.2, ?_⟩
  rw [← hmem]
  rfl

/-- The new pool with its first memnode, and with its parent where it has one. -/
structure Opened (P : Platform) (size : Nat) (parent : Option Nat) (mem : Nat) (m m' : Memory)
    (pool : Pool) (n : Memnode) : Prop where
  here : m'.pools (mem + P.memnodeHeader) = some pool
  home : HomeNode P mem (newPages P size) (P.poolHeader + mutexRoom P parent) n
  nodes : pool.nodes = if newPages P size = maxPoolSlot + 1 then fun _ => []
    else Function.update (fun _ => []) (newPages P size - 1) [n.rewind]
  stray : pool.stray = if newPages P size = maxPoolSlot + 1 then [n.rewind] else []
  child : pool.child = none
  brother : pool.brother = parent.bind fun q => (m.pools q).bind Pool.child
  parent : pool.parent = parent.or (if newPages P size = maxPoolSlot + 1 then some mem else none)
  cleanups : pool.cleanups = none
  free : pool.freeCleanups = none
  live : m'.live = ⟨mem, newPages P size * P.pageSize⟩ :: m.live
  mallocs : m'.mallocs = m.mallocs + 1

theorem HomeNode.rewind_eq {mem npages room : Nat} {n : Memnode}
    (h : HomeNode P mem npages room n) :
    { n with firstAvail := n.begin, sizeAvail := n.size } = n.rewind := by
  rw [Memnode.rewind, h.carved]

/-- The new pool, with its first memnode in its slot, or where `parent` is. -/
def openedPool (P : Platform) (thread mutex npages : Nat) (n : Memnode) : Pool :=
  { barePool P thread mutex with
    nodes := if npages = maxPoolSlot + 1 then fun _ => []
      else Function.update (fun _ => []) (npages - 1) [n]
    parent := if npages = maxPoolSlot + 1 then some n.addr else none
    stray := if npages = maxPoolSlot + 1 then [n] else [] }

theorem barePool_register (P : Platform) (thread mutex : Nat) {npages : Nat} (hpos : 0 < npages)
    (n : Memnode) :
    (barePool P thread mutex).register (npages - 1) n = openedPool P thread mutex npages n := by
  unfold Pool.register openedPool
  by_cases h : npages = maxPoolSlot + 1
  · simp only [if_pos h, if_pos (show npages - 1 = maxPoolSlot by omega)]
    rfl
  · simp only [if_neg h, if_neg (show ¬ npages - 1 = maxPoolSlot by omega)]
    rfl

theorem create_done (thread : Nat) (h : ¬ RefusesSize P size) {mem : Nat}
    (hanswer : env.answer s.mem (newPages P size * P.pageSize) = some mem)
    (hmutex : ¬ MutexFails env parent (mem + P.memnodeHeader + P.poolHeader))
    (hparent : ∀ q, parent = some q → ∃ old, PoolSound P s.mem q old) :
    ∃ s' pool n, create env thread size parent s =
        .ok (Err.ok, some (mem + P.memnodeHeader), s') ∧
      Opened P size parent mem s.mem s'.mem pool n := by
  obtain ⟨s₁, hmem, hcreate⟩ := create_granted thread parent h hanswer
  rw [RefusesSize, not_or, Nat.not_lt] at h
  have hpos := newPages_pos P size
  have hhome : HomeNode P mem (newPages P size) P.poolHeader _ := headedNode_home hpos h.2
  have hparent₁ : ∀ q, parent = some q → ∃ pool, s₁.mem.pools q = some pool := fun q hq => by
    obtain ⟨old, hold⟩ := hparent q hq
    exact ⟨old, by rw [hmem]; exact hold.here⟩
  obtain ⟨mutex, n, hembed, hn⟩ := embedMutex_done env hhome hpos h.2 hparent₁ hmutex
  rw [hembed] at hcreate
  change create env thread size parent s = settle P thread size parent mem s₁ (.ok (mutex, n))
    at hcreate
  simp only [settle, hn.rewind_eq, barePool_register P thread mutex hpos] at hcreate
  cases parent with
  | none =>
      refine ⟨_, _, n, hcreate, Memory.setPool_self .., hn, rfl, rfl, rfl, rfl, ?_, rfl, rfl, ?_,
        ?_⟩
      · rw [Option.none_or, ← hn.addr]
        rfl
      · rw [State.setPool_mem, hmem]
        rfl
      · rw [State.setPool_mem, hmem]
        rfl
  | some q =>
      obtain ⟨old, hold⟩ := hparent q rfl
      have hne : q ≠ mem + P.memnodeHeader := by
        obtain ⟨r, hr, hlo, hhi⟩ := hold.home
        have hapart := (env.sound _ _ _ _ hanswer).2 r hr
        have hfits := P.cleanup_fits
        have hmul : P.pageSize ≤ newPages P size * P.pageSize := Nat.le_mul_of_pos_left _ hpos
        simp only [Region.Apart, Region.stop] at hapart hhi
        omega
      have hold₁ : s₁.mem.pools q = some old := by rw [hmem]; exact hold.here
      have hself : (s₁.setPool (mem + P.memnodeHeader)
          (openedPool P thread mutex (newPages P size) n.rewind)).mem.pools
            (mem + P.memnodeHeader) = _ := Memory.setPool_self ..
      obtain ⟨s', hs', hmem'⟩ :=
        addChild_ok hself ((Memory.setPool_of_ne _ _ hne).trans hold₁) hne
      simp only [hs'] at hcreate
      refine ⟨s', { openedPool P thread mutex (newPages P size) n.rewind with
        parent := some q, brother := old.child }, n, hcreate, ?_, hn, rfl, rfl, rfl, ?_, rfl, rfl,
        rfl, ?_, ?_⟩
      · rw [hmem', Memory.setPool_self]
      · rw [Option.bind_some, hold.here]
        rfl
      · rw [hmem', Memory.setPool, Memory.setPool, State.setPool_mem, Memory.setPool, hmem]
        rfl
      · rw [hmem', Memory.setPool, Memory.setPool, State.setPool_mem, Memory.setPool, hmem]
        rfl

end Floppix.Pools
