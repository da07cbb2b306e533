import Floppix.Lib.Transition
import Floppix.System.Pool.Destruction

/-! # Runs of calls

A user makes calls on pools that are in use: they were created, and neither they nor a
pool above them was destroyed. Along such runs the invariant holds, as long as no call
carves a block where a cleanup node lies and no pool is destroyed that has a parent.
-/

namespace Floppix.Pools

open Layout LinkedList Outcome Kinship Transition

variable {P : Platform} {env : Environment P} {contents : Contents} {m m' : Memory} {p q : Nat}
  {pool : Pool} {forest : Forest} {pendings frees : Nat → List Ref} {s s' : State} {thread : Nat}

/-! ## Destroying in the trees -/

/-- Bounds with which every pool of the forest is destroyed. -/
structure Enough (forest : Forest) (pendings : Nat → List Ref) (rounds depth : Nat) : Prop where
  nodes : ∀ q ∈ forest.members, (pendings q).length ≤ rounds
  rounds : forest.members.length ≤ rounds
  depth : forest.members.length ≤ depth

theorem exists_enough (forest : Forest) (pendings : Nat → List Ref) :
    ∃ n, ∀ rounds depth, n ≤ rounds → n ≤ depth → Enough forest pendings rounds depth := by
  refine ⟨forest.members.length + (forest.members.map fun q => (pendings q).length).sum,
    fun rounds depth hrounds hdepth => ⟨fun q hq => ?_, by omega, by omega⟩⟩
  have hle : (pendings q).length ≤ (forest.members.map fun q => (pendings q).length).sum :=
    List.le_sum_of_mem (List.mem_map_of_mem hq)
  omega

theorem Enough.sublist {forest' : Forest} {rounds depth : Nat}
    (h : Enough forest pendings rounds depth) (hsub : forest'.members.Sublist forest.members) :
    Enough forest' pendings rounds depth where
  nodes q hq := h.nodes q (hsub.subset hq)
  rounds := Nat.le_trans hsub.length_le h.rounds
  depth := Nat.le_trans hsub.length_le h.depth

theorem Inv.offspring {m : Memory} (h : Inv P contents thread m forest pendings frees)
    (hp : p ∈ forest.members) :
    ∃ pool, m.pools p = some pool ∧ Family.Linked m.links (forest.offspring p) pool.child ∧
      p ∉ (forest.offspring p).members ∧ (forest.offspring p).members.Nodup ∧
      (forest.offspring p).members ⊆ forest.members := by
  obtain ⟨root, hroot, hmem, hoff⟩ := Forest.offspring_eq hp
  obtain ⟨child, brother, hlinks, hlinked⟩ := (h.linked root hroot).offspring hmem
  rw [← hoff] at hlinked
  obtain ⟨pool, hpool, -, -⟩ := h.held.pools p hp
  rw [Memory.links, hpool, Option.map_some, Option.some_inj, Pool.links, Prod.mk.injEq] at hlinks
  obtain ⟨hnot, hnodup⟩ := List.nodup_cons.mp (Forest.offspring_nodup h.nodup hp)
  exact ⟨pool, hpool, hlinks.1 ▸ hlinked, hnot, hnodup, fun q hq =>
    Forest.subtree_subset hp (Forest.mem_subtree.mpr (Or.inl hq))⟩

theorem Inv.walk {excuse : Prop} {m m' : Memory} {pendings' : Nat → List Ref} {rounds depth : Nat}
    (h : Inv P contents thread m forest pendings frees) (hp : p ∈ forest.members)
    (henough : ¬ excuse → Enough forest pendings rounds (depth + 1))
    (hpools : ∀ q ∈ (forest.offspring p).members, m'.pools q = m.pools q)
    (hpend : ∀ q ∈ (forest.offspring p).members, pendings' q = pendings q) :
    Walk P excuse thread rounds m' pendings' (forest.offspring p) rounds depth := by
  obtain ⟨pool, -, -, -, -, hsub⟩ := h.offspring hp
  have hlength : (forest.offspring p).members.length + 1 ≤ forest.members.length :=
    (List.subperm_of_subset (Forest.offspring_nodup h.nodup hp)
      (List.cons_subset.mpr ⟨hp, hsub⟩)).length_le
  refine ⟨fun q hq pool hpool => ?_, fun hex q hq => ?_, fun hex => ?_, fun hex => ?_,
    fun hex => ?_⟩
  · rw [hpools q hq] at hpool
    exact h.owner q (hsub hq) pool hpool
  · rw [hpend q hq]
    exact (henough hex).nodes q (hsub hq)
  · have := (henough hex).rounds
    omega
  · have := (henough hex).rounds
    omega
  · have := (henough hex).depth
    omega

theorem Enough.depth_pos {rounds depth : Nat} (h : Enough forest pendings rounds depth)
    (hp : p ∈ forest.members) : 0 < depth :=
  Nat.lt_of_lt_of_le (List.length_pos_of_mem hp) h.depth

theorem Inv.destroy_spec {excuse : Prop} (hq : env.Quiet)
    (h : Inv P contents thread s.mem forest pendings frees) (hp : p ∈ forest.members)
    {rounds depth : Nat} (henough : ¬ excuse → Enough forest pendings rounds depth) :
    Yields excuse (destroy env rounds depth thread p s) fun s' =>
      Destroyed P contents forest.members pendings s s' (forest.subtree p) := by
  obtain ⟨pool, hpool, hlinked, hnot, hnodup, hsub⟩ := h.offspring hp
  cases depth with
  | zero =>
      refine Yields.error (Classical.byContradiction fun hex => ?_)
      exact Nat.lt_irrefl 0 ((henough hex).depth_pos hp)
  | succ depth =>
      refine destroy_one hq h.held hp hpool (h.owner p hp pool hpool)
        (fun hex => (henough hex).nodes p hp) (fun q hq => hsub (Family.mem_postorder.mp hq))
        (fun hmem => hnot (Family.mem_postorder.mp hmem))
        fun s₁ pendings₁ frees₁ hpools₁ hlinks₁ hpend₁ hheld₁ => ?_
      have hne : ∀ q ∈ (forest.offspring p).members, q ≠ p := fun q hq heq => hnot (heq ▸ hq)
      exact destroyChildren_spec hq hheld₁ (hlinks₁ ▸ hlinked) hsub hnodup
        (h.walk hp henough (fun q hq => hpools₁ q (hne q hq)) fun q hq => hpend₁ q (hne q hq))

/-- A tree is destroyed. -/
theorem Inv.without {root : Nat × Family Nat}
    (h : Inv P contents thread s.mem forest pendings frees) (hroot : root ∈ forest)
    (hd : Destroyed P contents forest.members pendings s s' (forest.subtree root.1))
    (hplaces : SamePlaces s.mem s'.mem) :
    ∃ frees', Inv P contents thread s'.mem (forest.without root.1) pendings frees' := by
  have hsub := (Forest.without_sublist h.nodup hroot).subset
  obtain ⟨frees', hheld⟩ := hd.held (forest.without root.1).members hsub fun q hq hmem =>
    ((Forest.mem_without h.nodup hroot).mp hq).2 ((Forest.mem_subtree_root h.nodup hroot).mp hmem)
  have htrees : ∀ other ∈ forest.without root.1, other ∈ forest := fun other hother => by
    rw [Forest.without_root h.nodup hroot] at hother
    exact (List.mem_filter.mp hother).1
  exact ⟨frees', h.of_trees htrees (h.nodup.sublist (Forest.without_sublist h.nodup hroot)) hplaces
    hheld⟩

/-! ## Calls -/

structure World where
  state : State
  /-- history: the pools that were created, below their parents, and not destroyed -/
  forest : Forest

def World.empty : World := ⟨State.empty, []⟩

inductive Call where
  | use (a : Action)
  | destroy (p rounds depth : Nat)

def Op.target : Op → Option Nat
  | .create _ parent => parent
  | .palloc p _ => some p
  | .pcalloc p _ => some p
  | .cleanupAdd p _ _ => some p
  | .cleanupRun p _ _ => some p
  | .cleanupRemove p _ _ => some p
  | .clear p => some p

def Call.target : Call → Option Nat
  | .use a => a.op.target
  | .destroy p _ _ => some p

def World.call (env : Environment P) (thread : Nat) (w : World) : Call → Except Fault World
  | .use a =>
      match a.op with
      | .create size parent =>
          (create env thread size parent w.state).map fun r =>
            ⟨r.2.2, w.forest.joined parent r.2.1⟩
      | _ => (exec env thread a w.state).map fun s => ⟨s, w.forest⟩
  | .destroy p rounds depth =>
      (destroy env rounds depth thread p w.state).map fun s => ⟨s, w.forest.without p⟩

/-- The calls of one thread, as a transition. -/
def World.step (env : Environment P) (thread : Nat) (w : World) (c : Call) : Option World :=
  if ∀ p ∈ c.target, p ∈ w.forest.members then (w.call env thread c).toOption else none

def World.Uses (w : World) (p : Nat) (pool : Pool) : Prop :=
  p ∈ w.forest.members ∧ w.state.mem.pools p = some pool

/-- The pointers of the pool lead to the cleanup node. -/
def Listed (m : Memory) (pool : Pool) (r : Ref) : Prop :=
  Leads m.records CleanupNode.next pool.cleanups r ∨
    Leads m.records CleanupNode.next pool.freeCleanups r

/-- No block is carved where a cleanup node of the pool lies, and no page count wraps. -/
def OpSafe (P : Platform) (m : Memory) : Op → Prop
  | .palloc p size => ∀ pool, m.pools p = some pool → PallocSafe P pool (Listed m pool) size
  | .pcalloc p size => ∀ pool, m.pools p = some pool → PallocSafe P pool (Listed m pool) size
  | .cleanupAdd p _ _ => ∀ pool, m.pools p = some pool → AddSafe P pool (Listed m pool)
  | _ => True

/-- Besides, no pool is destroyed that has a parent. -/
def CallSafe (P : Platform) (w : World) : Call → Prop
  | .use a => OpSafe P w.state.mem a.op
  | .destroy p _ _ => w.forest.IsRoot p

/-! ## What calls keep -/

theorem PoolOk.listed_eq {pending free : List Ref} (h : PoolOk P contents m p pool pending free) :
    Listed m pool = (· ∈ pending ++ free) := by
  funext r
  rw [Listed, h.pendingChain.leads_iff, h.freeChain.leads_iff, List.mem_append]

def World.Holds (P : Platform) (contents : Contents) (thread : Nat) (w : World) : Prop :=
  ∃ pendings frees, Inv P contents thread w.state.mem w.forest pendings frees

theorem holds_empty (contents : Contents) (thread : Nat) :
    World.empty.Holds P contents thread := ⟨_, _, inv_empty contents thread⟩

/-- A call that keeps the invariant of the pools and moves none of them. -/
theorem Inv.keeps {excuse : Prop} {x : Except Fault State}
    (h : Inv P contents thread s.mem forest pendings frees)
    (hheld : Yields excuse x fun s' =>
      ∃ pendings' frees', Held P contents s'.mem forest.members pendings' frees')
    (hplaces : Yields True x fun s' => SamePlaces s.mem s'.mem) :
    Yields True (x.map fun s => (⟨s, forest⟩ : World)) (World.Holds P contents thread) := by
  refine Yields.map (((hheld.weaken fun _ => trivial).and hplaces).mono fun s' _ hs' => ?_)
  obtain ⟨⟨pendings', frees', hheld'⟩, hplaces'⟩ := hs'
  exact ⟨_, _, h.of_held hplaces' hheld'⟩

theorem call_holds (hq : env.Quiet) {w : World} {c : Call}
    (h : w.Holds P env.contents thread) (htarget : ∀ p ∈ c.target, p ∈ w.forest.members)
    (hsafe : CallSafe P w c) :
    Yields True (w.call env thread c) (World.Holds P env.contents thread) := by
  obtain ⟨pendings, frees, hinv⟩ := h
  cases c with
  | destroy p rounds depth =>
      obtain ⟨root, hroot, rfl⟩ := List.mem_map.mp hsafe
      have hspec : Yields True (destroy env rounds depth thread root.1 w.state) _ :=
        hinv.destroy_spec hq (Forest.root_mem hroot) fun hex => absurd trivial hex
      refine Yields.map ((hspec.and (destroy_places env rounds depth thread root.1 w.state)).mono
        fun s' _ hs' => ?_)
      exact ⟨pendings, hinv.without hroot hs'.1 hs'.2⟩
  | use a =>
      obtain ⟨op, rounds, depth⟩ := a
      cases op with
      | create size parent =>
          have hspec : Yields False (create env thread size parent w.state) _ :=
            create_spec hinv fun q hqp => htarget q hqp
          exact Yields.map ((hspec.weaken False.elim).mono fun r _ hr => hr)
      | palloc p size =>
          have hp := htarget p rfl
          obtain ⟨pool, hpool, hok, -⟩ := hinv.held.pools p hp
          have hspec := palloc_spec hinv.held hp hpool (hok.listed_eq ▸ hsafe pool hpool)
          exact hinv.keeps (Yields.map (hspec.mono fun r _ hr => hr.held))
            (Yields.map (palloc_places env p size w.state))
      | pcalloc p size =>
          have hp := htarget p rfl
          obtain ⟨pool, hpool, hok, -⟩ := hinv.held.pools p hp
          have hspec := pcalloc_spec hinv.held hp hpool (hok.listed_eq ▸ hsafe pool hpool)
          exact hinv.keeps (Yields.map (hspec.mono fun r _ hr => hr.held))
            (Yields.map (pcalloc_places env p size w.state))
      | cleanupAdd p data id =>
          have hp := htarget p rfl
          obtain ⟨pool, hpool, hok, -⟩ := hinv.held.pools p hp
          have hspec : Yields _ (cleanupAdd env p data (.user id) w.state) _ :=
            cleanupAdd_spec hinv.held hp hpool (hok.listed_eq ▸ hsafe pool hpool) trivial
          exact hinv.keeps (hspec.mono fun s' _ hs' => hs'.1)
            (cleanupAdd_places env p data (.user id) w.state)
      | cleanupRun p data handler =>
          have hp := htarget p rfl
          obtain ⟨pool, hpool, -, -⟩ := hinv.held.pools p hp
          exact hinv.keeps (cleanupRun_spec hq hinv.held hp hpool)
            (cleanupRun_places env rounds p data handler w.state)
      | cleanupRemove p data handler =>
          have hp := htarget p rfl
          obtain ⟨pool, hpool, -, -⟩ := hinv.held.pools p hp
          exact hinv.keeps (cleanupRemove_spec hinv.held hp hpool)
            (cleanupRemove_places rounds p data handler w.state)
      | clear p =>
          have hspec : Yields True (clear env rounds depth thread p w.state) _ :=
            clear_spec hq (htarget p rfl) hinv.held hinv.closed
          refine hinv.keeps (hspec.mono fun s' _ hs' => ?_)
            (clear_places env rounds depth thread p w.state)
          obtain ⟨pendings', frees', hheld, -⟩ := hs'.held
          exact ⟨pendings', frees', hheld⟩

theorem step_holds (hq : env.Quiet) {w w' : World} {c : Call}
    (hstep : w.step env thread c = some w') (hsafe : CallSafe P w c)
    (h : w.Holds P env.contents thread) : w'.Holds P env.contents thread := by
  unfold World.step at hstep
  split at hstep
  · rename_i htarget
    have hcall := call_holds hq h htarget hsafe
    cases hok : w.call env thread c with
    | error e =>
        rw [hok] at hstep
        cases hstep
    | ok w₁ =>
        rw [hok] at hstep
        cases hstep
        exact hcall.of_ok hok
  · cases hstep

/-- In every state of a run of safe calls the invariant holds. -/
theorem visits_holds (hq : env.Quiet) {cs : List Call}
    (hsafe : Meets (World.step env thread) (CallSafe P) World.empty cs) :
    Visits (World.step env thread) (World.Holds P env.contents thread) World.empty cs :=
  visits_of_meets (fun _ _ _ hstep hsafe h => step_holds hq hstep hsafe h) hsafe
    (holds_empty env.contents thread)

end Floppix.Pools
