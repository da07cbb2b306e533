import Floppix.Lib.Holding
import Floppix.System.Pool.Places

/-! # The mutex of a pool

Every function of the pools is followed through its paths: what it locks and unlocks
is balanced between its entry and its exit, or exceeds the balance by one operation.
-/

namespace Floppix.Pools

open Outcome Holding LinkedList

variable {P : Platform} (env : Environment P) {s s' s'' : State}

/-! ## The operations on mutexes among the events -/

def Event.holdOp : Event → Option (Holding.Op Nat)
  | .lock mutex => some (.lock mutex)
  | .unlock mutex => some (.unlock mutex)
  | _ => none

def holdOps (es : List Event) : List (Holding.Op Nat) := es.filterMap Event.holdOp

theorem holdOps_append (es es' : List Event) : holdOps (es ++ es') = holdOps es ++ holdOps es' :=
  List.filterMap_append ..

/-- Between the states the thread, with these hold counts, unlocks only what it holds, and
its hold counts in the end are those it began with. -/
def LocksBalanced (held : Nat → Nat) (s s' : State) : Prop :=
  ∃ es, s'.events = s.events ++ es ∧ Balanced held (holdOps es)

def LocksNeutral (s s' : State) : Prop :=
  ∃ es, s'.events = s.events ++ es ∧ Neutral (holdOps es)

theorem LocksNeutral.balanced (h : LocksNeutral s s') (held : Nat → Nat) :
    LocksBalanced held s s' := by
  obtain ⟨es, hes, hn⟩ := h
  exact ⟨es, hes, hn held⟩

theorem LocksNeutral.of_events (h : s'.events = s.events) : LocksNeutral s s' :=
  ⟨[], by rw [h, List.append_nil], neutral_nil⟩

theorem LocksNeutral.refl (s : State) : LocksNeutral s s := .of_events rfl

theorem LocksNeutral.trans (h : LocksNeutral s s') (h' : LocksNeutral s' s'') :
    LocksNeutral s s'' := by
  obtain ⟨es, hes, hn⟩ := h
  obtain ⟨es', hes', hn'⟩ := h'
  refine ⟨es ++ es', by rw [hes', hes, List.append_assoc], ?_⟩
  rw [holdOps_append]
  exact hn.append hn'

theorem LocksNeutral.of_event {e : Event} (he : e.holdOp = none)
    (h : s'.events = s.events ++ [e]) : LocksNeutral s s' :=
  ⟨[e], h, by rw [holdOps, List.filterMap_cons_none he]; exact neutral_nil⟩

theorem LocksNeutral.locked {mutex : Nat} (h : LocksNeutral (s.lock P mutex) s') :
    LocksNeutral s (s'.unlock P mutex) := by
  obtain ⟨es, hes, hn⟩ := h
  cases hts : P.threadSafety with
  | false =>
      simp only [State.lock, hts, Bool.false_eq_true, if_false] at hes
      simp only [State.unlock, hts, Bool.false_eq_true, if_false]
      exact ⟨es, hes, hn⟩
  | true =>
      simp only [State.lock, hts, if_true, State.log] at hes
      refine ⟨.lock mutex :: es ++ [.unlock mutex], ?_, ?_⟩
      · simp only [State.unlock, hts, if_true, State.log, hes, List.append_assoc, List.cons_append,
          List.nil_append]
      · rw [holdOps_append]
        exact hn.locked mutex

def UnlocksOnce (P : Platform) (s s' : State) : Prop :=
  ∃ s₁ mutex, LocksNeutral s s₁ ∧ s'.events = (s₁.unlock P mutex).events

theorem UnlocksOnce.not_balanced (hts : P.threadSafety = true) (h : UnlocksOnce P s s')
    (held : Nat → Nat) : ¬ LocksBalanced held s s' := by
  rintro ⟨es', hes', hb⟩
  obtain ⟨s₁, mutex, ⟨es, hes, hn⟩, hlast⟩ := h
  simp only [hlast, State.unlock, hts, if_true, State.log, hes, List.append_assoc,
    List.append_cancel_left_eq] at hes'
  subst hes'
  rw [holdOps_append] at hb
  exact hn.not_balanced_unlock held mutex hb

theorem not_balanced_lock (hts : P.threadSafety = true) (s : State) (held : Nat → Nat)
    (mutex : Nat) : ¬ LocksBalanced held s (s.lock P mutex) := by
  rintro ⟨es', hes', hb⟩
  simp only [State.lock, hts, if_true, State.log, List.append_cancel_left_eq] at hes'
  subst hes'
  exact neutral_nil.not_balanced_lock held mutex hb

/-! ## Functions that leave the mutex as they found it -/

theorem malloc_locks (size : Nat) (s : State) : LocksNeutral s (malloc env size s).2 := by
  unfold malloc
  split
  · exact .of_events rfl
  · exact .of_event rfl rfl

theorem memnodeAllocate_locks (size : Nat) (s : State) :
    LocksNeutral s (memnodeAllocate env size s).2 := by
  have h := malloc_locks env size s
  unfold memnodeAllocate
  cases hm : malloc env size s with
  | mk mem s' =>
      rw [hm] at h
      cases mem <;> exact h

theorem pallocSlots_locks (p a requested : Nat) (record : Bool) (s : State) :
    Yields True (pallocSlots env p a requested record s) fun r => LocksNeutral s r.2 := by
  apply (getPool_yields s p).bind
  intro pool _ _
  dsimp only
  split
  · exact Yields.ok (LocksNeutral.locked (.of_events rfl))
  · have halloc := memnodeAllocate_locks env (P.getNpages a * P.pageSize) (s.lock P pool.mutex)
    split
    · rename_i s' hnode
      rw [hnode] at halloc
      exact Yields.ok halloc.locked
    · rename_i node s' hnode
      rw [hnode] at halloc
      exact Yields.ok (LocksNeutral.locked (halloc.trans (.of_events rfl)))

theorem takeRecord_locks (p : Nat) (s : State) :
    Yields True (takeRecord env p s) fun r => LocksNeutral s r.2 := by
  apply (getPool_yields s p).bind
  intro pool _ _
  dsimp only
  split
  · exact (getRecord_yields s _).bind fun c _ _ => Yields.ok (.of_events rfl)
  · apply (pallocSlots_locks env p _ _ true s).bind
    intro r _ hr
    split
    · trivial
    · exact Yields.ok (hr.trans (.of_events rfl))

theorem cleanupAdd_locks (p data : Nat) (handler : Handler) (s : State) :
    Yields True (cleanupAdd env p data handler s) fun s' => LocksNeutral s s' := by
  apply (getPool_yields s p).bind
  intro pool _ hpool
  refine Yields.bind (Q := fun r => LocksNeutral (s.lock P pool.mutex) r.2 ∧
    SamePlaces s.mem r.2.mem) ?_ fun r _ hr => ?_
  · have hplaces := takeRecord_places env p (s.lock P pool.mutex)
    rw [State.lock_mem] at hplaces
    exact (takeRecord_locks env p _).mono fun r hok hr => ⟨hr, hplaces.of_ok hok⟩
  · refine (getPool_yields _ p).bind fun pool' _ hpool' => Yields.ok ?_
    have hmutex : pool'.mutex = pool.mutex := hr.2.mutex hpool hpool'
    rw [hmutex]
    exact LocksNeutral.locked (hr.1.trans (.of_events rfl))

theorem runHandler_locks (p : Nat) (c : CleanupNode) (s : State) :
    Yields True (runHandler env p c s) fun s' => LocksNeutral s s' := by
  unfold runHandler
  split
  · exact (getPool_yields s p).bind fun pool _ _ => Yields.ok (.of_event rfl rfl)
  · apply Yields.foldlM (.of_event rfl rfl)
    intro s' reg hs'
    exact (cleanupAdd_locks env _ _ _ s').mono fun s'' _ hs'' => hs'.trans hs''

theorem reserveRecord_locks (p : Nat) (r : Ref) (s : State) :
    Yields True (reserveRecord P p r s) fun s' => LocksNeutral s s' :=
  (getRecord_yields s r).bind fun _ _ _ => (getPool_yields s p).bind fun _ _ _ =>
    Yields.ok (.of_events rfl)

theorem runCleanups_locks (p rounds : Nat) (ptr : Option Ref) (s : State) :
    Yields True (runCleanups env p rounds ptr s) fun s' => LocksNeutral s s' := by
  induction rounds generalizing ptr s with
  | zero =>
      cases ptr with
      | none => exact LocksNeutral.refl _
      | some r => trivial
  | succ rounds ih =>
      cases ptr with
      | none => exact LocksNeutral.refl _
      | some r =>
          apply (getRecord_yields s r).bind
          intro c _ _
          apply (runHandler_locks env p c _).bind
          intro s₁ _ h₁
          apply (reserveRecord_locks p r s₁).bind
          intro s₂ _ h₂
          have hread : LocksNeutral s (s.log (.readRecord r.addr)) := .of_event rfl rfl
          exact (ih c.next s₂).mono fun s₃ _ h₃ => ((hread.trans h₁).trans h₂).trans h₃

theorem cleanupRunAll_locks (rounds p : Nat) (s : State) :
    Yields True (cleanupRunAll env rounds p s) fun s' => LocksNeutral s s' := by
  apply (getPool_yields s p).bind
  intro pool _ _
  apply (runCleanups_locks env p rounds _ s).bind
  intro s₁ _ h₁
  refine (getPool_yields s₁ p).bind fun pool' _ _ => Yields.ok ?_
  exact h₁.trans (.of_events rfl)

theorem detachRecord_locks (p : Nat) (prev : Option Ref) (r : Ref) (s : State) :
    Yields True (detachRecord P p prev r s) fun s' => LocksNeutral s s' := by
  apply (getPool_yields s p).bind
  intro pool _ _
  apply (getRecord_yields s r).bind
  intro c _ _
  split
  · exact LocksNeutral.of_events rfl
  · split
    · trivial
    · exact (getRecord_yields s _).bind fun cq _ _ => Yields.ok (.of_events rfl)

/-- The unlock at the end answers the lock at the beginning of the two functions. -/
theorem unlinkRecord_locks {p : Nat} {pool : Pool} (prev : Option Ref) (r : Ref)
    (hpool : s'.mem.pools p = some pool) (h : LocksNeutral (s.lock P pool.mutex) s') :
    Yields True (unlinkRecord P p prev r s') fun s'' => LocksNeutral s s'' := by
  refine Yields.bind (Q := fun s₁ => LocksNeutral s' s₁ ∧ SamePlaces s'.mem s₁.mem) ?_
    fun s₁ _ h₁ => ?_
  · exact (detachRecord_locks p prev r s').mono fun s₁ hok h₁ =>
      ⟨h₁, (detachRecord_places p prev r s').of_ok hok⟩
  refine Yields.bind (Q := fun s₂ => LocksNeutral s₁ s₂ ∧ SamePlaces s₁.mem s₂.mem) ?_
    fun s₂ _ h₂ => ?_
  · exact (reserveRecord_locks p r s₁).mono fun s₂ hok h₂ =>
      ⟨h₂, (reserveRecord_places p r s₁).of_ok hok⟩
  refine (getPool_yields s₂ p).bind fun pool' _ hpool' => Yields.ok ?_
  rw [(h₁.2.trans h₂.2).mutex hpool hpool']
  exact LocksNeutral.locked (h.trans (h₁.1.trans h₂.1))

theorem forChildren_locks {visit : Nat → State → Except Fault State}
    (hvisit : ∀ child s, Yields True (visit child s) fun s' => LocksNeutral s s')
    (rounds : Nat) (ptr : Option Nat) (s : State) :
    Yields True (forChildren visit rounds ptr s) fun s' => LocksNeutral s s' := by
  induction rounds generalizing ptr s with
  | zero =>
      cases ptr with
      | none => exact LocksNeutral.refl _
      | some r => trivial
  | succ rounds ih =>
      cases ptr with
      | none => exact LocksNeutral.refl _
      | some child =>
          apply (getPool_yields s child).bind
          intro pool _ _
          apply (hvisit child _).bind
          intro s₁ _ h₁
          exact (ih pool.brother s₁).mono fun s₂ _ h₂ =>
            (LocksNeutral.of_event rfl rfl).trans (h₁.trans h₂)

theorem clear_locks (rounds depth thread p : Nat) (s : State) :
    Yields True (clear env rounds depth thread p s) fun s' => LocksNeutral s s' := by
  induction depth generalizing p s with
  | zero => trivial
  | succ depth ih =>
      apply (getPool_yields s p).bind
      intro pool _ hpool
      split
      · exact LocksNeutral.refl _
      · refine Yields.bind (Q := fun s₁ => LocksNeutral (s.lock P pool.mutex) s₁ ∧
          SamePlaces s.mem s₁.mem) ?_ fun s₁ _ h₁ => ?_
        · have hplaces := cleanupRunAll_places env rounds p (s.lock P pool.mutex)
          rw [State.lock_mem] at hplaces
          exact (cleanupRunAll_locks env rounds p _).mono fun s₁ hok h₁ => ⟨h₁, hplaces.of_ok hok⟩
        apply (getPool_yields s₁ p).bind
        intro pool₁ _ _
        refine Yields.bind (Q := fun s₂ => LocksNeutral s₁ s₂ ∧ SamePlaces s₁.mem s₂.mem) ?_
          fun s₂ _ h₂ => ?_
        · exact (forChildren_locks ih rounds _ s₁).mono fun s₂ hok h₂ =>
            ⟨h₂, (forChildren_places (clear_places env rounds depth thread) rounds _ s₁).of_ok hok⟩
        refine (getPool_yields s₂ p).bind fun pool₂ _ hpool₂ => Yields.ok ?_
        rw [(h₁.2.trans h₂.2).mutex hpool hpool₂]
        exact LocksNeutral.locked ((h₁.1.trans h₂.1).trans (.of_events rfl))

theorem addChild_locks (parent newChild : Nat) (s : State) :
    Yields True (addChild parent newChild s) fun s' => LocksNeutral s s' := by
  apply (getPool_yields s newChild).bind
  intro new _ _
  apply (getPool_yields _ parent).bind
  intro old _ _
  exact (getPool_yields _ newChild).bind fun new' _ _ => Yields.ok (.of_events rfl)

theorem create_locks (thread size : Nat) (parent : Option Nat) (s : State) :
    Yields True (create env thread size parent s) fun r => LocksNeutral s r.2.2 := by
  unfold create
  dsimp only
  split
  · exact LocksNeutral.refl s
  · split
    · exact LocksNeutral.refl s
    · have halloc := memnodeAllocate_locks env
        (P.getNpages (P.wrap (P.alignAllocation size + P.poolHeader)) * P.pageSize) s
      split
      · rename_i s₁ hnode
        rw [hnode] at halloc
        exact Yields.ok halloc
      · rename_i node s₁ hnode
        rw [hnode] at halloc
        refine Yields.bind (Q := fun _ => True) ?_ fun made _ _ => ?_
        · cases embedMutex env parent _ s₁ <;> trivial
        split
        · exact Yields.ok (halloc.trans (.of_event rfl rfl))
        · split
          · exact Yields.ok (halloc.trans (.of_events rfl))
          · refine (addChild_locks _ _ _).bind fun s₂ _ h₂ => Yields.ok ?_
            exact halloc.trans (LocksNeutral.trans (.of_events rfl) h₂)

/-! ## The search for a cleanup -/

def Registered (s : State) (p data : Nat) (handler : Handler) : Prop :=
  ∃ pool r c, s.mem.pools p = some pool ∧
    Leads s.mem.records CleanupNode.next pool.cleanups r ∧ s.mem.records r = some c ∧
    c.data = data ∧ c.handler = handler

theorem findRecord_some {data rounds : Nat} {handler : Handler} {prev ptr prev' : Option Ref}
    {r : Ref} (h : findRecord data handler s rounds prev ptr = .ok (some (prev', r))) :
    ∃ c, Leads s.mem.records CleanupNode.next ptr r ∧ s.mem.records r = some c ∧
      c.data = data ∧ c.handler = handler := by
  induction rounds generalizing prev ptr with
  | zero => cases ptr <;> cases h
  | succ rounds ih =>
      cases ptr with
      | none => cases h
      | some q =>
          have hq := getRecord_yields s q
          rw [findRecord] at h
          cases hc : s.getRecord q with
          | error e => rw [hc] at h; cases h
          | ok c =>
              have hrec := hq.of_ok hc
              rw [hc] at h
              change (if c.data = data ∧ c.handler = handler then _ else _) = _ at h
              split at h
              · rename_i hmatch
                cases h
                exact ⟨c, .here _, hrec, hmatch⟩
              · obtain ⟨c', hlead, hrest⟩ := ih h
                exact ⟨c', .on hrec hlead, hrest⟩

theorem findRecord_none {data rounds : Nat} {handler : Handler} {prev ptr : Option Ref}
    (h : findRecord data handler s rounds prev ptr = .ok none) {r : Ref} {c : CleanupNode}
    (hlead : Leads s.mem.records CleanupNode.next ptr r) (hr : s.mem.records r = some c) :
    ¬ (c.data = data ∧ c.handler = handler) := by
  induction rounds generalizing prev ptr with
  | zero => cases hlead <;> cases h
  | succ rounds ih =>
      rw [findRecord.eq_def] at h
      cases hlead with
      | here =>
          simp only [State.getRecord_ok hr] at h
          change (if c.data = data ∧ c.handler = handler then _ else _) = _ at h
          split at h
          · cases h
          · assumption
      | on hc hlead =>
          simp only [State.getRecord_ok hc] at h
          change (if _ ∧ _ then _ else _) = _ at h
          split at h
          · cases h
          · exact ih h hlead

theorem findRecord_registered {p : Nat} {pool : Pool} (rounds data : Nat) (handler : Handler)
    (hpool : s.mem.pools p = some pool) :
    Yields True (findRecord data handler (s.lock P pool.mutex) rounds none pool.cleanups)
      fun found => found.isSome = true ↔ Registered s p data handler := by
  cases hf : findRecord data handler (s.lock P pool.mutex) rounds none pool.cleanups with
  | error e => trivial
  | ok found =>
      apply Yields.ok
      cases found with
      | none =>
          apply iff_of_false Bool.false_ne_true
          rintro ⟨pool', r, c, hpool', hlead, hr, hmatch⟩
          rw [hpool] at hpool'
          cases hpool'
          rw [← State.lock_mem (P := P) s pool.mutex] at hlead hr
          exact findRecord_none hf hlead hr hmatch
      | some found =>
          obtain ⟨c, hlead, hr, hmatch⟩ := findRecord_some hf
          rw [State.lock_mem] at hlead hr
          exact iff_of_true rfl ⟨pool, found.2, c, hpool, hlead, hr, hmatch⟩

/-! ## Functions that do not always -/

def Carvable (P : Platform) (size : Nat) : Prop :=
  P.alignAllocation size ≠ 0 ∧ P.getNpages (P.alignAllocation size) - 1 ≤ maxPoolSlot

instance (size : Nat) : Decidable (Carvable P size) := inferInstanceAs (Decidable (_ ∧ _))

/-- Where a memnode is carved the function unlocks what it has locked, elsewhere what it
has not. -/
def LocksAsCarved (P : Platform) (s : State) (size : Nat) (s' : State) : Prop :=
  if Carvable P size then LocksNeutral s s' else UnlocksOnce P s s'

/-- The exits of `fpx_palloc1` share one unlock, and the requests for which nothing is
carved reach it from before the lock. -/
theorem palloc_locks (p size : Nat) (s : State) :
    Yields True (palloc env p size s) fun r => LocksAsCarved P s size r.2 := by
  apply (getPool_yields s p).bind
  intro pool _ _
  split
  · rename_i halign
    have hno : ¬ Carvable P size := fun hc => hc.1 halign
    simp only [LocksAsCarved, if_neg hno]
    exact Yields.ok ⟨s, pool.mutex, LocksNeutral.refl s, rfl⟩
  · rename_i halign
    split
    · rename_i hindex
      have hno : ¬ Carvable P size := fun hc => absurd hc.2 (Nat.not_le.mpr hindex)
      simp only [LocksAsCarved, if_neg hno]
      have hmalloc := malloc_locks env (P.alignAllocation size) s
      split
      · rename_i s₁ hm
        rw [hm] at hmalloc
        exact Yields.ok ⟨s₁, pool.mutex, hmalloc, rfl⟩
      · rename_i mem s₁ hm
        rw [hm] at hmalloc
        refine Yields.bind (Q := LocksNeutral s₁) ?_ fun s₂ _ h₂ => ?_
        · exact (getPool_yields s₁ p).bind fun _ _ _ => Yields.ok (.of_events rfl)
        refine (cleanupAdd_locks env p mem .free s₂).bind fun s₃ _ h₃ => Yields.ok ?_
        exact ⟨s₃, pool.mutex, (hmalloc.trans h₂).trans h₃, rfl⟩
    · rename_i hindex
      have hyes : Carvable P size := ⟨halign, Nat.not_lt.mp hindex⟩
      simp only [LocksAsCarved, if_pos hyes]
      exact pallocSlots_locks env p _ size false s

theorem pcalloc_locks (p size : Nat) (s : State) :
    Yields True (pcalloc env p size s) fun r => LocksAsCarved P s size r.2 := by
  apply (palloc_locks env p size s).bind
  intro r _ hr
  split
  · exact Yields.ok hr
  · apply Yields.ok
    unfold LocksAsCarved at hr ⊢
    split <;> rename_i hc
    · rw [if_pos hc] at hr
      exact LocksNeutral.trans hr (.of_events rfl)
    · rw [if_neg hc] at hr
      exact hr

/-- Where the search finds a cleanup the function goes on to its unlock, where it finds
none it returns with the mutex locked. -/
def LocksAsFound (P : Platform) (s : State) (p data : Nat) (handler : Handler) (s' : State) :
    Prop :=
  (Registered s p data handler ∧ LocksNeutral s s') ∨
    (¬ Registered s p data handler ∧ ∃ mutex, s' = s.lock P mutex)

theorem cleanupRun_locks (rounds p data : Nat) (handler : Handler) (s : State) :
    Yields True (cleanupRun env rounds p data handler s) (LocksAsFound P s p data handler) := by
  apply (getPool_yields s p).bind
  intro pool _ hpool
  apply (findRecord_registered (P := P) rounds data handler hpool).bind
  intro found _ hfound
  split
  · exact Yields.ok (Or.inr ⟨by simpa using hfound, pool.mutex, rfl⟩)
  · rename_i prev r _
    have hreg : Registered s p data handler := hfound.mp rfl
    apply (getRecord_yields _ r).bind
    intro c _ _
    refine Yields.bind (Q := fun s₁ => LocksNeutral (s.lock P pool.mutex) s₁ ∧
      SamePlaces s.mem s₁.mem) ?_ fun s₁ _ h₁ => ?_
    · have hplaces := runHandler_places env p c (s.lock P pool.mutex)
      rw [State.lock_mem] at hplaces
      exact (runHandler_locks env p c _).mono fun s₁ hok h₁ => ⟨h₁, hplaces.of_ok hok⟩
    obtain ⟨pool₁, hpool₁⟩ := (h₁.2.some_iff p).mpr ⟨pool, hpool⟩
    have hlocked := h₁.1
    rw [← h₁.2.mutex hpool hpool₁] at hlocked
    exact (unlinkRecord_locks prev r hpool₁ hlocked).mono fun s₂ _ h₂ => Or.inl ⟨hreg, h₂⟩

theorem cleanupRemove_locks (rounds p data : Nat) (handler : Handler) (s : State) :
    Yields True (cleanupRemove P rounds p data handler s) (LocksAsFound P s p data handler) := by
  apply (getPool_yields s p).bind
  intro pool _ hpool
  apply (findRecord_registered (P := P) rounds data handler hpool).bind
  intro found _ hfound
  split
  · exact Yields.ok (Or.inr ⟨by simpa using hfound, pool.mutex, rfl⟩)
  · rename_i prev r _
    have hpool' : (s.lock P pool.mutex).mem.pools p = some pool := by rwa [State.lock_mem]
    exact (unlinkRecord_locks prev r hpool' (LocksNeutral.refl _)).mono fun s₁ _ h₁ =>
      Or.inl ⟨hfound.mp rfl, h₁⟩

/-! ## When an operation is balanced -/

variable {env}

/-- A request is one that a memnode is carved for, a cleanup to be run or removed is
there. -/
def LockSafe (P : Platform) (s : State) : Op → Prop
  | .palloc _ size => Carvable P size
  | .pcalloc _ size => Carvable P size
  | .cleanupRun p data handler => Registered s p data handler
  | .cleanupRemove p data handler => Registered s p data handler
  | _ => True

theorem LocksAsCarved.balanced_iff (hts : P.threadSafety = true) {size : Nat}
    (h : LocksAsCarved P s size s') (held : Nat → Nat) :
    LocksBalanced held s s' ↔ Carvable P size := by
  unfold LocksAsCarved at h
  split at h
  · exact iff_of_true (h.balanced held) ‹_›
  · exact iff_of_false (h.not_balanced hts held) ‹_›

theorem LocksAsFound.balanced_iff (hts : P.threadSafety = true) {p data : Nat}
    {handler : Handler} (h : LocksAsFound P s p data handler s') (held : Nat → Nat) :
    LocksBalanced held s s' ↔ Registered s p data handler := by
  rcases h with ⟨hreg, hn⟩ | ⟨hreg, mutex, rfl⟩
  · exact iff_of_true (hn.balanced held) hreg
  · exact iff_of_false (not_balanced_lock hts s held mutex) hreg

/-- With thread safety on, an operation that returns has unlocked only what its thread
held, and has left the hold counts as they were, exactly when its request can be carved
or its cleanup was found. -/
theorem lock_balance_iff (hts : P.threadSafety = true) {thread : Nat} {a : Action}
    (h : exec env thread a s = .ok s') (held : Nat → Nat) :
    LocksBalanced held s s' ↔ LockSafe P s a.op := by
  obtain ⟨op, rounds, depth⟩ := a
  cases op with
  | create size parent =>
      obtain ⟨r, hr, rfl⟩ := exists_of_map_ok h
      exact iff_of_true (((create_locks env thread size parent s).of_ok hr).balanced held) trivial
  | palloc p size =>
      obtain ⟨r, hr, rfl⟩ := exists_of_map_ok h
      exact ((palloc_locks env p size s).of_ok hr).balanced_iff hts held
  | pcalloc p size =>
      obtain ⟨r, hr, rfl⟩ := exists_of_map_ok h
      exact ((pcalloc_locks env p size s).of_ok hr).balanced_iff hts held
  | cleanupAdd p data id =>
      exact iff_of_true (((cleanupAdd_locks env p data _ s).of_ok h).balanced held) trivial
  | cleanupRun p data handler =>
      exact ((cleanupRun_locks env rounds p data handler s).of_ok h).balanced_iff hts held
  | cleanupRemove p data handler =>
      exact ((cleanupRemove_locks rounds p data handler s).of_ok h).balanced_iff hts held
  | clear p =>
      exact iff_of_true (((clear_locks env rounds depth thread p s).of_ok h).balanced held) trivial

/-! ## A pool of one page -/

/-- The pool that `fpx_pool_create` makes first where the allocator hands out memory from
its lowest addresses on. -/
def firstPool : Nat := 56

def childPool : Nat := 32888

/-- Where the first blocks of the two pools are carved, and where the first large one is. -/
def firstAddr : Nat := 312

def childAddr : Nat := 33104

def largeAddr : Nat := 328328

def firstState : Option State :=
  Transition.run (step (bump lp64 .inMemory) 1) State.empty [⟨.create 100 none, 0, 0⟩]

theorem lock_balance_palloc : ∃ s s', firstState = some s ∧
    exec (bump lp64 .inMemory) 1 ⟨.palloc firstPool 100, 0, 0⟩ s = .ok s' ∧
      LocksBalanced (fun _ => 0) s s' := by
  have h : ∃ s s', firstState = some s ∧
      exec (bump lp64 .inMemory) 1 ⟨.palloc firstPool 100, 0, 0⟩ s = .ok s' := ⟨_, _, rfl, rfl⟩
  obtain ⟨s, s', hs, hs'⟩ := h
  exact ⟨s, s', hs, hs', (lock_balance_iff rfl hs' _).mpr (show Carvable lp64 100 by decide)⟩

/-- A request whose aligned size wraps unlocks a mutex the thread does not hold, and the
removal of a cleanup that is not there keeps the mutex locked. -/
theorem lock_unbalanced : ∃ s s₁ s₂, firstState = some s ∧
    exec (bump lp64 .inMemory) 1 ⟨.palloc firstPool (2 ^ 64 - 1), 0, 0⟩ s = .ok s₁ ∧
      ¬ LocksBalanced (fun _ => 0) s s₁ ∧
    exec (bump lp64 .inMemory) 1 ⟨.cleanupRemove firstPool 7 (.user 0), 0, 0⟩ s = .ok s₂ ∧
      ¬ LocksBalanced (fun _ => 0) s s₂ :=
  ⟨_, _, _, rfl, rfl, UnlocksOnce.not_balanced rfl ⟨_, _, LocksNeutral.refl _, rfl⟩ _, rfl,
    not_balanced_lock rfl _ _ _⟩

end Floppix.Pools
