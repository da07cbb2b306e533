import Floppix.Lib.Outcome
import Floppix.System.Pool.Cleanups

/-! # The links between pools

Only creating a pool changes links, owners and mutexes. Everything else leaves them as
they were, whatever state it starts from.
-/

namespace Floppix.Pools

open Outcome

variable {P : Platform} (env : Environment P)

def Pool.place (pool : Pool) : (Option Nat × Option Nat) × Nat × Nat :=
  (pool.links, pool.owner, pool.mutex)

def SamePlaces (m m' : Memory) : Prop :=
  ∀ q, (m'.pools q).map Pool.place = (m.pools q).map Pool.place

theorem SamePlaces.refl (m : Memory) : SamePlaces m m := fun _ => rfl

theorem SamePlaces.trans {m m' m'' : Memory} (h : SamePlaces m m') (h' : SamePlaces m' m'') :
    SamePlaces m m'' := fun q => (h' q).trans (h q)

theorem SamePlaces.of_pools {m m' : Memory} (h : m'.pools = m.pools) : SamePlaces m m' :=
  fun q => by rw [h]

theorem SamePlaces.setPool {m : Memory} {p : Nat} {pool pool' : Pool}
    (hpool : m.pools p = some pool) (hplace : pool'.place = pool.place) :
    SamePlaces m (m.setPool p pool') := by
  intro q
  by_cases hq : q = p
  · subst hq
    rw [Memory.setPool_self, hpool, Option.map_some, Option.map_some, hplace]
  · rw [m.setPool_of_ne _ hq]

theorem SamePlaces.links {m m' : Memory} (h : SamePlaces m m') : m'.links = m.links := by
  funext q
  have hq := congrArg (Option.map Prod.fst) (h q)
  rw [Option.map_map, Option.map_map] at hq
  exact hq

theorem SamePlaces.child {m m' : Memory} (h : SamePlaces m m') {q : Nat} {pool pool' : Pool}
    (hpool : m.pools q = some pool) (hpool' : m'.pools q = some pool') :
    pool'.child = pool.child := by
  have hq := congrFun h.links q
  rw [Memory.links, Memory.links, hpool, hpool'] at hq
  exact congrArg Prod.fst (Option.some.inj hq)

theorem SamePlaces.some_iff {m m' : Memory} (h : SamePlaces m m') (q : Nat) :
    (∃ pool, m'.pools q = some pool) ↔ ∃ pool, m.pools q = some pool := by
  have hq := h q
  cases hm : m.pools q <;> cases hm' : m'.pools q <;> simp [hm, hm'] at hq ⊢

theorem SamePlaces.owner {m m' : Memory} (h : SamePlaces m m') {q : Nat} {pool pool' : Pool}
    (hpool : m.pools q = some pool) (hpool' : m'.pools q = some pool') :
    pool'.owner = pool.owner := by
  have hq := h q
  rw [hpool, hpool', Option.map_some, Option.map_some] at hq
  exact congrArg (fun place => place.2.1) (Option.some.inj hq)

theorem SamePlaces.mutex {m m' : Memory} (h : SamePlaces m m') {q : Nat} {pool pool' : Pool}
    (hpool : m.pools q = some pool) (hpool' : m'.pools q = some pool') :
    pool'.mutex = pool.mutex := by
  have hq := h q
  rw [hpool, hpool', Option.map_some, Option.map_some] at hq
  exact congrArg (fun place => place.2.2) (Option.some.inj hq)

/-! ## Functions -/

variable {s : State} {p : Nat}

theorem getPool_yields (s : State) (p : Nat) :
    Yields True (s.getPool p) fun pool => s.mem.pools p = some pool := by
  unfold State.getPool
  split
  · assumption
  · trivial

theorem getRecord_yields (s : State) (r : Ref) :
    Yields True (s.getRecord r) fun c => s.mem.records r = some c := by
  unfold State.getRecord
  split
  · assumption
  · trivial

theorem malloc_pools (size : Nat) (s : State) :
    (malloc env size s).2.mem.pools = s.mem.pools := by
  unfold malloc
  split <;> rfl

theorem memnodeAllocate_pools (size : Nat) (s : State) :
    (memnodeAllocate env size s).2.mem.pools = s.mem.pools := by
  have h := malloc_pools env size s
  unfold memnodeAllocate
  cases hm : malloc env size s with
  | mk mem s' =>
      rw [hm] at h
      cases mem <;> exact h

theorem Pool.register_place (pool : Pool) (index : Nat) (node : Memnode) :
    (pool.register index node).place = pool.place := by
  unfold Pool.register
  split <;> rfl

theorem pallocSlots_places (p a requested : Nat) (record : Bool) (s : State) :
    Yields True (pallocSlots env p a requested record s) fun r => SamePlaces s.mem r.2.mem := by
  apply (getPool_yields s p).bind
  intro pool _ hpool
  dsimp only
  split
  · apply Yields.ok
    simp only [State.unlock_mem, State.setPool_mem, State.lock_mem]
    exact SamePlaces.setPool hpool rfl
  · have hpools := memnodeAllocate_pools env
      (P.getNpages a * P.pageSize) (s.lock P pool.mutex)
    rw [State.lock_mem] at hpools
    split
    · rename_i s' hnode
      rw [hnode] at hpools
      apply Yields.ok
      rw [State.unlock_mem]
      exact SamePlaces.of_pools hpools
    · rename_i node s' hnode
      rw [hnode] at hpools
      apply Yields.ok
      simp only [State.unlock_mem, State.setPool_mem]
      refine (SamePlaces.of_pools hpools).trans
        (SamePlaces.setPool ((congrFun hpools p).trans hpool) ?_)
      exact pool.register_place ..

theorem takeRecord_places (p : Nat) (s : State) :
    Yields True (takeRecord env p s) fun r => SamePlaces s.mem r.2.mem := by
  apply (getPool_yields s p).bind
  intro pool _ hpool
  dsimp only
  split
  · refine (getRecord_yields s _).bind fun c _ _ => Yields.ok ?_
    exact SamePlaces.setPool hpool rfl
  · apply (pallocSlots_places env p _ _ true s).bind
    intro r _ hr
    split
    · trivial
    · exact Yields.ok hr

theorem cleanupAdd_places (p data : Nat) (handler : Handler) (s : State) :
    Yields True (cleanupAdd env p data handler s) fun s' => SamePlaces s.mem s'.mem := by
  apply (getPool_yields s p).bind
  intro pool _ hpool
  apply (takeRecord_places env p _).bind
  intro r _ hr
  rw [State.lock_mem] at hr
  refine (getPool_yields _ p).bind fun pool' _ hpool' => Yields.ok ?_
  simp only [State.unlock_mem, State.setPool_mem, State.setRecord_mem]
  refine hr.trans (SamePlaces.trans (SamePlaces.of_pools rfl) (SamePlaces.setPool hpool' rfl))

theorem runHandler_places (p : Nat) (c : CleanupNode) (s : State) :
    Yields True (runHandler env p c s) fun s' => SamePlaces s.mem s'.mem := by
  unfold runHandler
  split
  · refine (getPool_yields s p).bind fun pool _ hpool => Yields.ok ?_
    have hset : SamePlaces s.mem (s.mem.setPool p (pool.forget c.data)) :=
      SamePlaces.setPool hpool rfl
    exact hset.trans (SamePlaces.of_pools rfl)
  · refine Yields.foldlM (SamePlaces.refl _) fun s' reg hs' => ?_
    exact (cleanupAdd_places env _ _ _ s').mono fun s'' _ hs'' => hs'.trans hs''

theorem reserveRecord_places (p : Nat) (r : Ref) (s : State) :
    Yields True (reserveRecord P p r s) fun s' => SamePlaces s.mem s'.mem := by
  apply (getRecord_yields s r).bind
  intro c _ _
  refine (getPool_yields s p).bind fun pool _ hpool => Yields.ok ?_
  exact (SamePlaces.of_pools rfl).trans (SamePlaces.setPool hpool rfl)

theorem runCleanups_places (p rounds : Nat) (ptr : Option Ref) (s : State) :
    Yields True (runCleanups env p rounds ptr s) fun s' => SamePlaces s.mem s'.mem := by
  induction rounds generalizing ptr s with
  | zero =>
      cases ptr with
      | none => exact SamePlaces.refl _
      | some r => trivial
  | succ rounds ih =>
      cases ptr with
      | none => exact SamePlaces.refl _
      | some r =>
          apply (getRecord_yields s r).bind
          intro c _ _
          apply (runHandler_places env p c _).bind
          intro s₁ _ h₁
          apply (reserveRecord_places p r s₁).bind
          intro s₂ _ h₂
          exact (ih c.next s₂).mono fun s₃ _ h₃ => SamePlaces.trans h₁ (h₂.trans h₃)

theorem cleanupRunAll_places (rounds p : Nat) (s : State) :
    Yields True (cleanupRunAll env rounds p s) fun s' => SamePlaces s.mem s'.mem := by
  apply (getPool_yields s p).bind
  intro pool _ _
  apply (runCleanups_places env p rounds _ s).bind
  intro s₁ _ h₁
  refine (getPool_yields s₁ p).bind fun pool' _ hpool' => Yields.ok ?_
  exact h₁.trans (SamePlaces.setPool hpool' rfl)

theorem detachRecord_places (p : Nat) (prev : Option Ref) (r : Ref) (s : State) :
    Yields True (detachRecord P p prev r s) fun s' => SamePlaces s.mem s'.mem := by
  apply (getPool_yields s p).bind
  intro pool _ hpool
  apply (getRecord_yields s r).bind
  intro c _ _
  split
  · exact SamePlaces.setPool hpool rfl
  · split
    · trivial
    · refine (getRecord_yields s _).bind fun cq _ _ => Yields.ok ?_
      exact SamePlaces.of_pools rfl

theorem unlinkRecord_places (p : Nat) (prev : Option Ref) (r : Ref) (s : State) :
    Yields True (unlinkRecord P p prev r s) fun s' => SamePlaces s.mem s'.mem := by
  apply (detachRecord_places p prev r s).bind
  intro s₁ _ h₁
  apply (reserveRecord_places p r s₁).bind
  intro s₂ _ h₂
  refine (getPool_yields s₂ p).bind fun pool _ _ => Yields.ok ?_
  rw [State.unlock_mem]
  exact h₁.trans h₂

theorem cleanupRun_places (rounds p data : Nat) (handler : Handler) (s : State) :
    Yields True (cleanupRun env rounds p data handler s) fun s' => SamePlaces s.mem s'.mem := by
  apply (getPool_yields s p).bind
  intro pool _ _
  refine Yields.bind (Q := fun _ => True) ?_ fun found _ _ => ?_
  · cases findRecord data handler (s.lock P pool.mutex) rounds none pool.cleanups <;> trivial
  · split
    · apply Yields.ok
      rw [State.lock_mem]
      exact SamePlaces.refl _
    · apply (getRecord_yields _ _).bind
      intro c _ _
      apply (runHandler_places env p c _).bind
      intro s₁ _ h₁
      rw [State.lock_mem] at h₁
      exact (unlinkRecord_places p _ _ s₁).mono fun s₂ _ h₂ => h₁.trans h₂

theorem cleanupRemove_places (rounds p data : Nat) (handler : Handler) (s : State) :
    Yields True (cleanupRemove P rounds p data handler s) fun s' => SamePlaces s.mem s'.mem := by
  apply (getPool_yields s p).bind
  intro pool _ _
  refine Yields.bind (Q := fun _ => True) ?_ fun found _ _ => ?_
  · cases findRecord data handler (s.lock P pool.mutex) rounds none pool.cleanups <;> trivial
  · split
    · apply Yields.ok
      rw [State.lock_mem]
      exact SamePlaces.refl _
    · apply (unlinkRecord_places p _ _ _).mono
      intro s₂ _ h₂
      rwa [State.lock_mem] at h₂

theorem palloc_places (p size : Nat) (s : State) :
    Yields True (palloc env p size s) fun r => SamePlaces s.mem r.2.mem := by
  apply (getPool_yields s p).bind
  intro pool _ hpool
  split
  · apply Yields.ok
    rw [State.unlock_mem]
    exact SamePlaces.refl _
  · split
    · have hpools := malloc_pools env (P.alignAllocation size) s
      split
      · rename_i s' hm
        rw [hm] at hpools
        apply Yields.ok
        rw [State.unlock_mem]
        exact SamePlaces.of_pools hpools
      · rename_i mem s' hm
        rw [hm] at hpools
        have hout : Yields True (s'.handOut p ⟨mem, P.alignAllocation size, size, false⟩)
            fun s'' => SamePlaces s'.mem s''.mem :=
          (getPool_yields s' p).bind fun pool' _ hpool' => Yields.ok (SamePlaces.setPool hpool' rfl)
        apply hout.bind
        intro s₁ _ h₁
        refine (cleanupAdd_places env p mem .free s₁).bind fun s₂ _ h₂ => Yields.ok ?_
        rw [State.unlock_mem]
        exact ((SamePlaces.of_pools hpools).trans h₁).trans h₂
    · exact pallocSlots_places env p _ size false s

theorem pcalloc_places (p size : Nat) (s : State) :
    Yields True (pcalloc env p size s) fun r => SamePlaces s.mem r.2.mem := by
  apply (palloc_places env p size s).bind
  intro r _ hr
  split
  · exact Yields.ok hr
  · exact Yields.ok (hr.trans (SamePlaces.of_pools rfl))

theorem forChildren_places {visit : Nat → State → Except Fault State}
    (hvisit : ∀ child s, Yields True (visit child s) fun s' => SamePlaces s.mem s'.mem)
    (rounds : Nat) (ptr : Option Nat) (s : State) :
    Yields True (forChildren visit rounds ptr s) fun s' => SamePlaces s.mem s'.mem := by
  induction rounds generalizing ptr s with
  | zero =>
      cases ptr with
      | none => exact SamePlaces.refl _
      | some r => trivial
  | succ rounds ih =>
      cases ptr with
      | none => exact SamePlaces.refl _
      | some child =>
          apply (getPool_yields s child).bind
          intro pool _ _
          apply (hvisit child _).bind
          intro s₁ _ h₁
          exact (ih pool.brother s₁).mono fun s₂ _ h₂ => SamePlaces.trans h₁ h₂

theorem clear_places (rounds depth thread p : Nat) (s : State) :
    Yields True (clear env rounds depth thread p s) fun s' => SamePlaces s.mem s'.mem := by
  induction depth generalizing p s with
  | zero => trivial
  | succ depth ih =>
      apply (getPool_yields s p).bind
      intro pool _ _
      split
      · exact SamePlaces.refl _
      · apply (cleanupRunAll_places env rounds p _).bind
        intro s₁ _ h₁
        rw [State.lock_mem] at h₁
        apply (getPool_yields s₁ p).bind
        intro pool₁ _ _
        apply (forChildren_places ih rounds _ s₁).bind
        intro s₂ _ h₂
        refine (getPool_yields s₂ p).bind fun pool₂ _ hpool₂ => Yields.ok ?_
        rw [State.unlock_mem]
        exact (h₁.trans h₂).trans (SamePlaces.setPool hpool₂ rfl)

theorem destroyNodes_pools (nodes : List Memnode) (s : State) :
    (destroyNodes nodes s).mem.pools = s.mem.pools := by
  unfold destroyNodes
  induction nodes generalizing s with
  | nil => rfl
  | cons n nodes ih => exact ih _

theorem destroySlots_places (p : Nat) (slots : List Nat) (s : State) :
    Yields True (destroySlots p slots s) fun s' => SamePlaces s.mem s'.mem := by
  induction slots generalizing s with
  | nil => exact SamePlaces.refl _
  | cons i slots ih =>
      refine (getPool_yields s p).bind fun pool _ _ => (ih _).mono fun s₁ _ h₁ => ?_
      have hnodes := destroyNodes_pools (pool.nodes i) (s.log (.readPool p))
      exact SamePlaces.trans (m := s.mem) (SamePlaces.of_pools hnodes) h₁

theorem destroy_places (rounds depth thread p : Nat) (s : State) :
    Yields True (destroy env rounds depth thread p s) fun s' => SamePlaces s.mem s'.mem := by
  induction depth generalizing p s with
  | zero => trivial
  | succ depth ih =>
      apply (getPool_yields s p).bind
      intro pool _ _
      split
      · exact SamePlaces.refl _
      · apply (cleanupRunAll_places env rounds p _).bind
        intro s₁ _ h₁
        apply (getPool_yields s₁ p).bind
        intro pool₁ _ _
        apply (forChildren_places ih rounds _ s₁).bind
        intro s₂ _ h₂
        exact (destroySlots_places p _ s₂).mono fun s₃ _ h₃ =>
          SamePlaces.trans h₁ (SamePlaces.trans h₂ h₃)

end Floppix.Pools
