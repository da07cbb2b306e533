import Floppix.System.Pool.NewPool
import Floppix.System.Pool.Usage

/-! # What every change to a pool keeps

A pool changes in few ways: its links and its lists of cleanup nodes are set, a block is
carved, a memnode is registered, its memnodes are rewound. What these keep, all calls keep
for all pools, in whatever state they start.
-/

namespace Floppix.Pools

open Outcome Transition

variable {P : Platform} {env : Environment P} {A : Nat → Prop} {K : Pool → Prop} {m m' : Memory}
  {p q : Nat} {pool : Pool} {s s' : State} {thread rounds : Nat}

def Throughout (K : Pool → Prop) (m : Memory) : Prop := ∀ q pool, m.pools q = some pool → K pool

theorem Throughout.of_pools (h : Throughout K m) (hpools : m'.pools = m.pools) :
    Throughout K m' := by
  unfold Throughout
  rw [hpools]
  exact h

theorem Throughout.setPool (h : Throughout K m) (hpool : K pool) (p : Nat) :
    Throughout K (m.setPool p pool) := by
  intro q pool' hq
  by_cases hqp : q = p
  · subst hqp
    rw [Memory.setPool_self] at hq
    cases hq
    exact hpool
  · rw [m.setPool_of_ne _ hqp] at hq
    exact h q pool' hq

def Memnode.behindMutex (P : Platform) (n : Memnode) : Memnode :=
  { n with begin := n.begin + P.mutexHeader, size := P.sub n.size P.mutexHeader }

/-- A property of the memnodes of a pool that lasts, while new memnodes are made for aligned
sizes in `A` only. -/
structure Lasting (P : Platform) (A : Nat → Prop) (K : Pool → Prop) : Prop where
  fields : ∀ {pool pool' : Pool}, pool'.nodes = pool.nodes → pool'.stray = pool.stray →
    K pool → K pool'
  carve : ∀ {pool : Pool} {a : Nat} {fit : Fit} (requested : Nat) (record : Bool),
    pool.fit P a = some fit → K pool → K (pool.carve P fit a requested record)
  register : ∀ {pool : Pool} {a : Nat} (mem requested : Nat) (record : Bool), A a →
    P.getNpages a ≤ maxPoolSlot + 1 → K pool →
    K (pool.register (P.getNpages a - 1) (freshNode P mem a requested record))
  rewind : ∀ {pool : Pool}, K pool → K pool.rewind
  opened : ∀ (thread mutex mem : Nat) {size : Nat} {n : Memnode}, ¬ RefusesSize P size →
    n = headedNode P mem (newPages P size) ∨
      n = (headedNode P mem (newPages P size)).behindMutex P →
    K (openedPool P thread mutex (newPages P size)
      { n with firstAvail := n.begin, sizeAvail := n.size })
  /-- a cleanup node may always need one -/
  cleanup : A (P.alignAllocation P.sizeofCleanup)

theorem Lasting.set (hK : Lasting P A K) (h : Throughout K m) {pool' : Pool}
    (hpool : m.pools p = some pool) (hnodes : pool'.nodes = pool.nodes)
    (hstray : pool'.stray = pool.stray) : Throughout K (m.setPool p pool') :=
  h.setPool (hK.fields hnodes hstray (h p pool hpool)) p

/-! ## Allocating -/

theorem pallocSlots_lasting (hK : Lasting P A K) {a requested : Nat} {record : Bool}
    (hA : env.answer s.mem (P.getNpages a * P.pageSize) ≠ none → A a)
    (hpages : P.getNpages a ≤ maxPoolSlot + 1) (h : Throughout K s.mem) :
    Yields True (pallocSlots env p a requested record s) fun r => Throughout K r.2.mem := by
  cases hpool : s.mem.pools p with
  | none =>
      unfold pallocSlots State.getPool
      rw [hpool]
      trivial
  | some pool =>
      cases hfit : pool.fit P a with
      | some fit =>
          obtain ⟨s', hok, hmem⟩ := pallocSlots_fit env requested record hpool hfit
          rw [hok]
          apply Yields.ok
          rw [hmem]
          exact h.setPool (hK.carve requested record hfit (h p pool hpool)) p
      | none =>
          cases hanswer : env.answer s.mem (P.getNpages a * P.pageSize) with
          | none =>
              obtain ⟨s', hok, hmem⟩ := pallocSlots_refused requested record hpool hfit hanswer
              rw [hok]
              apply Yields.ok
              rw [hmem]
              exact h.of_pools rfl
          | some mem =>
              obtain ⟨s', hok, hmem⟩ := pallocSlots_granted requested record hpool hfit hanswer
              have ha : A a := hA (by simp [hanswer])
              rw [hok]
              apply Yields.ok
              rw [hmem]
              exact Throughout.setPool (m := s.mem.granted _) h
                (hK.register mem requested record ha hpages (h p pool hpool)) p

theorem takeRecord_lasting (hK : Lasting P A K) (h : Throughout K s.mem) :
    Yields True (takeRecord env p s) fun r => Throughout K r.2.mem := by
  apply (getPool_yields s p).bind
  intro pool _ hpool
  dsimp only
  split
  · refine (getRecord_yields s _).bind fun c _ _ => Yields.ok ?_
    exact hK.set h hpool rfl rfl
  · have hone : P.getNpages (P.alignAllocation P.sizeofCleanup) ≤ maxPoolSlot + 1 := by
      rw [P.npages_cleanup]
      decide
    apply (pallocSlots_lasting hK (fun _ => hK.cleanup) hone h).bind
    intro r _ hr
    split
    · trivial
    · exact Yields.ok hr

theorem cleanupAdd_lasting (hK : Lasting P A K) (data : Nat) (handler : Handler)
    (h : Throughout K s.mem) :
    Yields True (cleanupAdd env p data handler s) fun s' => Throughout K s'.mem := by
  apply (getPool_yields s p).bind
  intro pool _ _
  have hlock : Throughout K (s.lock P pool.mutex).mem := by rwa [State.lock_mem]
  apply (takeRecord_lasting hK hlock).bind
  intro r _ hr
  refine (getPool_yields _ p).bind fun pool' _ hpool' => Yields.ok ?_
  rw [State.unlock_mem]
  exact hK.set (m := r.2.mem.setRecord P _ _) (hr.of_pools rfl) hpool' rfl rfl

def Admits (A : Nat → Prop) (env : Environment P) (m : Memory) (size : Nat) : Prop :=
  P.alignAllocation size ≠ 0 → P.getNpages (P.alignAllocation size) ≤ maxPoolSlot + 1 →
    env.answer m (P.getNpages (P.alignAllocation size) * P.pageSize) ≠ none →
    A (P.alignAllocation size)

theorem palloc_lasting (hK : Lasting P A K) {size : Nat} (hA : Admits A env s.mem size)
    (h : Throughout K s.mem) :
    Yields True (palloc env p size s) fun r => Throughout K r.2.mem := by
  apply (getPool_yields s p).bind
  intro pool _ _
  split
  · apply Yields.ok
    rwa [State.unlock_mem]
  · rename_i hzero
    split
    · have hpools := malloc_pools env (P.alignAllocation size) s
      split
      · rename_i s' hm
        rw [hm] at hpools
        apply Yields.ok
        rw [State.unlock_mem]
        exact h.of_pools hpools
      · rename_i mem s' hm
        rw [hm] at hpools
        have hs' : Throughout K s'.mem := h.of_pools hpools
        have hout : Yields True (s'.handOut p ⟨mem, P.alignAllocation size, size, false⟩)
            fun s'' => Throughout K s''.mem :=
          (getPool_yields s' p).bind fun pool' _ hpool' =>
            Yields.ok (hK.set hs' hpool' rfl rfl)
        apply hout.bind
        intro s₁ _ h₁
        refine (cleanupAdd_lasting hK mem .free h₁).bind fun s₂ _ h₂ => Yields.ok ?_
        rwa [State.unlock_mem]
    · rename_i hindex
      have hpos := P.npages_pos (P.alignAllocation size)
      have hpages : P.getNpages (P.alignAllocation size) ≤ maxPoolSlot + 1 := by omega
      exact pallocSlots_lasting hK (hA hzero hpages) hpages h

theorem pcalloc_lasting (hK : Lasting P A K) {size : Nat} (hA : Admits A env s.mem size)
    (h : Throughout K s.mem) :
    Yields True (pcalloc env p size s) fun r => Throughout K r.2.mem := by
  apply (palloc_lasting hK hA h).bind
  intro r _ hr
  split
  · exact Yields.ok hr
  · exact Yields.ok (hr.of_pools rfl)

/-! ## Cleanups -/

theorem runHandler_lasting (hK : Lasting P A K) (c : CleanupNode) (h : Throughout K s.mem) :
    Yields True (runHandler env p c s) fun s' => Throughout K s'.mem := by
  unfold runHandler
  split
  · refine (getPool_yields s p).bind fun pool _ hpool => Yields.ok ?_
    have hset : Throughout K (s.mem.setPool p (pool.forget c.data)) :=
      hK.set h hpool rfl rfl
    exact hset.of_pools rfl
  · exact Yields.foldlM h fun s' reg hs' => cleanupAdd_lasting hK reg.data (.user reg.id) hs'

theorem reserveRecord_lasting (hK : Lasting P A K) (r : Ref) (h : Throughout K s.mem) :
    Yields True (reserveRecord P p r s) fun s' => Throughout K s'.mem := by
  apply (getRecord_yields s r).bind
  intro c _ _
  refine (getPool_yields s p).bind fun pool _ hpool => Yields.ok ?_
  exact hK.set (m := s.mem.setRecord P _ _) (h.of_pools rfl) hpool rfl rfl

theorem runCleanups_lasting (hK : Lasting P A K) (ptr : Option Ref) (h : Throughout K s.mem) :
    Yields True (runCleanups env p rounds ptr s) fun s' => Throughout K s'.mem := by
  induction rounds generalizing ptr s with
  | zero =>
      cases ptr with
      | none => exact h
      | some r => trivial
  | succ rounds ih =>
      cases ptr with
      | none => exact h
      | some r =>
          apply (getRecord_yields s r).bind
          intro c _ _
          refine (runHandler_lasting hK c (s := s.log (.readRecord r.addr)) h).bind
            fun s₁ _ h₁ => ?_
          apply (reserveRecord_lasting hK r h₁).bind
          intro s₂ _ h₂
          exact ih c.next h₂

theorem cleanupRunAll_lasting (hK : Lasting P A K) (h : Throughout K s.mem) :
    Yields True (cleanupRunAll env rounds p s) fun s' => Throughout K s'.mem := by
  apply (getPool_yields s p).bind
  intro pool _ _
  apply (runCleanups_lasting hK _ h).bind
  intro s₁ _ h₁
  refine (getPool_yields s₁ p).bind fun pool' _ hpool' => Yields.ok ?_
  exact hK.set h₁ hpool' rfl rfl

theorem detachRecord_lasting (hK : Lasting P A K) (prev : Option Ref) (r : Ref)
    (h : Throughout K s.mem) :
    Yields True (detachRecord P p prev r s) fun s' => Throughout K s'.mem := by
  apply (getPool_yields s p).bind
  intro pool _ hpool
  apply (getRecord_yields s r).bind
  intro c _ _
  split
  · exact hK.set h hpool rfl rfl
  · split
    · trivial
    · exact (getRecord_yields s _).bind fun cq _ _ => Yields.ok (h.of_pools rfl)

theorem unlinkRecord_lasting (hK : Lasting P A K) (prev : Option Ref) (r : Ref)
    (h : Throughout K s.mem) :
    Yields True (unlinkRecord P p prev r s) fun s' => Throughout K s'.mem := by
  apply (detachRecord_lasting hK prev r h).bind
  intro s₁ _ h₁
  apply (reserveRecord_lasting hK r h₁).bind
  intro s₂ _ h₂
  refine (getPool_yields s₂ p).bind fun pool _ _ => Yields.ok ?_
  rwa [State.unlock_mem]

theorem cleanupRun_lasting (hK : Lasting P A K) (data : Nat) (handler : Handler)
    (h : Throughout K s.mem) :
    Yields True (cleanupRun env rounds p data handler s) fun s' => Throughout K s'.mem := by
  apply (getPool_yields s p).bind
  intro pool _ _
  have hlock : Throughout K (s.lock P pool.mutex).mem := by rwa [State.lock_mem]
  apply (Yields.self (findRecord ..)).bind
  intro found _ _
  split
  · exact Yields.ok hlock
  · apply (getRecord_yields _ _).bind
    intro c _ _
    apply (runHandler_lasting hK c hlock).bind
    intro s₁ _ h₁
    exact unlinkRecord_lasting hK _ _ h₁

theorem cleanupRemove_lasting (hK : Lasting P A K) (data : Nat) (handler : Handler)
    (h : Throughout K s.mem) :
    Yields True (cleanupRemove P rounds p data handler s) fun s' => Throughout K s'.mem := by
  apply (getPool_yields s p).bind
  intro pool _ _
  have hlock : Throughout K (s.lock P pool.mutex).mem := by rwa [State.lock_mem]
  apply (Yields.self (findRecord ..)).bind
  intro found _ _
  split
  · exact Yields.ok hlock
  · exact unlinkRecord_lasting hK _ _ hlock

/-! ## Clearing and destroying -/

theorem forChildren_lasting {visit : Nat → State → Except Fault State}
    (hvisit : ∀ child s, Throughout K s.mem →
      Yields True (visit child s) fun s' => Throughout K s'.mem)
    (ptr : Option Nat) (h : Throughout K s.mem) :
    Yields True (forChildren visit rounds ptr s) fun s' => Throughout K s'.mem := by
  induction rounds generalizing ptr s with
  | zero =>
      cases ptr with
      | none => exact h
      | some r => trivial
  | succ rounds ih =>
      cases ptr with
      | none => exact h
      | some child =>
          apply (getPool_yields s child).bind
          intro pool _ _
          apply (hvisit child (s.log (.readPool child)) h).bind
          intro s₁ _ h₁
          exact ih pool.brother h₁

theorem clear_lasting (hK : Lasting P A K) (depth p : Nat) (h : Throughout K s.mem) :
    Yields True (clear env rounds depth thread p s) fun s' => Throughout K s'.mem := by
  induction depth generalizing p s with
  | zero => trivial
  | succ depth ih =>
      apply (getPool_yields s p).bind
      intro pool _ _
      split
      · exact h
      · have hlock : Throughout K (s.lock P pool.mutex).mem := by rwa [State.lock_mem]
        apply (cleanupRunAll_lasting hK hlock).bind
        intro s₁ _ h₁
        apply (getPool_yields s₁ p).bind
        intro pool₁ _ _
        apply (forChildren_lasting (fun child s hs => ih child hs) _ h₁).bind
        intro s₂ _ h₂
        refine (getPool_yields s₂ p).bind fun pool₂ _ hpool₂ => Yields.ok ?_
        rw [State.unlock_mem]
        exact h₂.setPool (hK.rewind (h₂ p pool₂ hpool₂)) p

theorem destroySlots_lasting (slots : List Nat) (h : Throughout K s.mem) :
    Yields True (destroySlots p slots s) fun s' => Throughout K s'.mem := by
  induction slots generalizing s with
  | nil => exact h
  | cons i slots ih =>
      refine (getPool_yields s p).bind fun pool _ _ => ih ?_
      exact h.of_pools (destroyNodes_pools (pool.nodes i) (s.log (.readPool p)))

theorem destroy_lasting (hK : Lasting P A K) (depth p : Nat) (h : Throughout K s.mem) :
    Yields True (destroy env rounds depth thread p s) fun s' => Throughout K s'.mem := by
  induction depth generalizing p s with
  | zero => trivial
  | succ depth ih =>
      apply (getPool_yields s p).bind
      intro pool _ _
      split
      · exact h
      · apply (cleanupRunAll_lasting hK (s := s.log (.readPool p)) h).bind
        intro s₁ _ h₁
        apply (getPool_yields s₁ p).bind
        intro pool₁ _ _
        apply (forChildren_lasting (fun child s hs => ih child hs) _ h₁).bind
        intro s₂ _ h₂
        exact destroySlots_lasting _ h₂

/-! ## Creating -/

theorem addChild_lasting (hK : Lasting P A K) (parent new : Nat) (h : Throughout K s.mem) :
    Yields True (addChild parent new s) fun s' => Throughout K s'.mem := by
  apply (getPool_yields s new).bind
  intro pool _ hpool
  have h₁ : Throughout K (s.mem.setPool new { pool with parent := some parent }) :=
    hK.set h hpool rfl rfl
  apply (getPool_yields _ parent).bind
  intro old _ hold
  have h₂ : Throughout K ((s.mem.setPool new { pool with parent := some parent }).setPool parent
      { old with child := some new }) := hK.set h₁ hold rfl rfl
  refine (getPool_yields _ new).bind fun pool' _ hpool' => Yields.ok ?_
  exact hK.set h₂ hpool' rfl rfl

theorem embedMutex_node {parent : Option Nat} {node : Memnode} :
    Yields True (embedMutex env parent node s) fun made => ∀ mutex n, made = .ok (mutex, n) →
      n = node ∨ n = node.behindMutex P := by
  unfold embedMutex
  split
  · cases parent with
    | some q =>
        refine (getPool_yields s q).bind fun pool _ _ => Yields.ok fun mutex n hn => ?_
        cases hn
        exact Or.inl rfl
    | none =>
        dsimp only
        split
        · exact Yields.ok fun _ _ hn => (nomatch hn)
        · apply Yields.ok
          intro mutex n hn
          cases hn
          exact Or.inr rfl
  · apply Yields.ok
    intro mutex n hn
    cases hn
    exact Or.inl rfl

theorem create_lasting (hK : Lasting P A K) (size : Nat) (parent : Option Nat)
    (h : Throughout K s.mem) :
    Yields True (create env thread size parent s) fun r => Throughout K r.2.2.mem := by
  by_cases hrefuses : RefusesSize P size
  · rw [create_outOfRange env thread parent s hrefuses]
    exact h
  cases hanswer : env.answer s.mem (newPages P size * P.pageSize) with
  | none =>
      obtain ⟨s', hok, hmem⟩ := create_refused thread parent hrefuses hanswer
      rw [hok]
      apply Yields.ok
      rw [hmem]
      exact h.of_pools rfl
  | some mem =>
      obtain ⟨s₁, hmem, hcreate⟩ := create_granted thread parent hrefuses hanswer
      have h₁ : Throughout K s₁.mem := by
        rw [hmem]
        exact h.of_pools rfl
      rw [hcreate]
      apply embedMutex_node.bind
      intro made _ hmade
      cases made with
      | error err => exact Yields.ok (h₁.of_pools rfl)
      | ok made =>
          obtain ⟨mutex, n⟩ := made
          have hopened := hK.opened thread mutex mem hrefuses (hmade mutex n rfl)
          rw [← barePool_register P thread mutex (newPages_pos P size)] at hopened
          have h₂ := h₁.setPool hopened (mem + P.memnodeHeader)
          cases parent with
          | none => exact Yields.ok h₂
          | some q => exact (addChild_lasting hK q _ h₂).bind fun s₂ _ h₃ => Yields.ok h₃

/-! ## Runs -/

def CallAdmits (A : Nat → Prop) (env : Environment P) (w : World) : Call → Prop
  | .use ⟨.palloc _ size, _, _⟩ => Admits A env w.state.mem size
  | .use ⟨.pcalloc _ size, _, _⟩ => Admits A env w.state.mem size
  | _ => True

theorem call_lasting (hK : Lasting P A K) {w : World} {c : Call} (hA : CallAdmits A env w c)
    (h : Throughout K w.state.mem) :
    Yields True (w.call env thread c) fun w' => Throughout K w'.state.mem := by
  cases c with
  | destroy p rounds depth => exact Yields.map (destroy_lasting hK depth p h)
  | use a =>
      obtain ⟨op, rounds, depth⟩ := a
      cases op with
      | create size parent => exact Yields.map (create_lasting hK size parent h)
      | palloc p size => exact Yields.map (Yields.map (palloc_lasting hK hA h))
      | pcalloc p size => exact Yields.map (Yields.map (pcalloc_lasting hK hA h))
      | cleanupAdd p data id => exact Yields.map (cleanupAdd_lasting hK data (.user id) h)
      | cleanupRun p data handler => exact Yields.map (cleanupRun_lasting hK data handler h)
      | cleanupRemove p data handler => exact Yields.map (cleanupRemove_lasting hK data handler h)
      | clear p => exact Yields.map (clear_lasting hK depth p h)

/-- In every state of a run all pools have the property. -/
theorem visits_lasting (hK : Lasting P A K) {cs : List Call}
    (hA : Meets (World.step env thread) (CallAdmits A env) World.empty cs) :
    Visits (World.step env thread) (fun w => Throughout K w.state.mem) World.empty cs := by
  refine visits_of_meets (fun w c w' hstep hA h => ?_) hA fun q pool hq => (nomatch hq)
  unfold World.step at hstep
  split at hstep
  · have hcall : Yields True (w.call env thread c) fun w' => Throughout K w'.state.mem :=
      call_lasting hK hA h
    cases hok : w.call env thread c with
    | error e =>
        rw [hok] at hstep
        cases hstep
    | ok w₁ =>
        rw [hok] at hstep
        cases hstep
        exact hcall.of_ok hok
  · cases hstep

end Floppix.Pools
