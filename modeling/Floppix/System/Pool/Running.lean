import Floppix.System.Pool.Registration

/-! # Running and removing cleanups keeps the invariant

A pending cleanup node leaves its list and becomes the first free one. In between its
handler may run. The large block it frees is one that no other cleanup frees.
-/

namespace Floppix.Pools

open Layout LinkedList Outcome

variable {P : Platform} {env : Environment P} {contents : Contents} {m m' : Memory} {p : Nat}
  {pool pool' : Pool} {pending free : List Ref} {ps : List Nat} {pendings frees : Nat → List Ref}
  {s s' : State} {r : Ref} {c : CleanupNode}

/-! ## The handler -/

def Memory.afterHandler (m : Memory) (c : CleanupNode) : Memory :=
  match c.handler with
  | .free => m.release c.data
  | .user _ => m

def Pool.afterHandler (pool : Pool) (c : CleanupNode) : Pool :=
  match c.handler with
  | .free => pool.forget c.data
  | .user _ => pool

@[simp] theorem Memory.afterHandler_pools (m : Memory) (c : CleanupNode) :
    (m.afterHandler c).pools = m.pools := by
  unfold Memory.afterHandler
  split <;> rfl

@[simp] theorem Memory.afterHandler_records (m : Memory) (c : CleanupNode) :
    (m.afterHandler c).records = m.records := by
  unfold Memory.afterHandler
  split <;> rfl

@[simp] theorem Memory.afterHandler_recordCount (m : Memory) (c : CleanupNode) :
    (m.afterHandler c).recordCount = m.recordCount := by
  unfold Memory.afterHandler
  split <;> rfl

/-- A pool that differs in its large blocks and its lists of cleanup nodes only. -/
structure SameNodes (pool pool' : Pool) : Prop where
  nodes : pool'.nodes = pool.nodes
  stray : pool'.stray = pool.stray
  place : pool'.place = pool.place

theorem SameNodes.refl (pool : Pool) : SameNodes pool pool := ⟨rfl, rfl, rfl⟩

theorem SameNodes.trans {pool'' : Pool} (h : SameNodes pool pool') (h' : SameNodes pool' pool'') :
    SameNodes pool pool'' :=
  ⟨h'.nodes.trans h.nodes, h'.stray.trans h.stray, h'.place.trans h.place⟩

theorem SameNodes.memnodes (h : SameNodes pool pool') : pool'.memnodes = pool.memnodes := by
  rw [Pool.memnodes, h.nodes, h.stray, Pool.memnodes]

theorem Pool.afterHandler_sameNodes (pool : Pool) (c : CleanupNode) :
    SameNodes pool (pool.afterHandler c) := by
  unfold Pool.afterHandler
  split <;> exact ⟨rfl, rfl, rfl⟩

theorem Pool.afterHandler_regions {x : Region} (hx : x ∈ (pool.afterHandler c).regions) :
    x ∈ pool.regions := by
  unfold Pool.afterHandler at hx
  split at hx
  · have hsub : (pool.forget c.data).large.Sublist pool.large := List.filter_sublist
    exact ((hsub.map Block.region).append_left _).subset hx
  · exact hx

def CleanupNode.event (c : CleanupNode) : Event :=
  match c.handler with
  | .free => .free c.data
  | .user id => .run id c.data

def registers (env : Environment P) (data : Nat) : Handler → List Registration
  | .free => []
  | .user id => env.handler id data

theorem registers_quiet (hq : env.Quiet) (data : Nat) (handler : Handler) :
    registers env data handler = [] := by
  cases handler with
  | free => rfl
  | user id => exact hq id data

theorem runHandler_ok (hq : registers env c.data c.handler = [])
    (hpool : s.mem.pools p = some pool) :
    ∃ s', runHandler env p c s = .ok s' ∧
      s'.mem = (s.mem.afterHandler c).setPool p (pool.afterHandler c) ∧
      s'.events = s.events ++ [c.event] := by
  unfold runHandler Memory.afterHandler Pool.afterHandler CleanupNode.event
  cases hh : c.handler with
  | free =>
      rw [State.getPool_ok hpool]
      exact ⟨_, rfl, rfl, rfl⟩
  | user id =>
      rw [hh] at hq
      simp only [show env.handler id c.data = [] from hq]
      exact ⟨_, rfl, (Memory.setPool_eq hpool).symm, rfl⟩

/-- The block that a pending cleanup frees is a large block of the pool, and the other
cleanups do not need it. -/
theorem Freed.drop {us vs : List Ref} (h : Freed m pool (us ++ r :: vs))
    (hc : m.records r = some c) :
    (c.handler = .free → ∃ b ∈ pool.large, b.addr = c.data) ∧
      Freed (m.afterHandler c) (pool.afterHandler c) (us ++ vs) := by
  have hsplit : freeData m (us ++ r :: vs) =
      freeData m us ++ (freeData m [r] ++ freeData m vs) := by
    rw [← freeData_cons]
    exact List.filterMap_append ..
  have hrest : freeData (m.afterHandler c) (us ++ vs) = freeData m us ++ freeData m vs := by
    rw [freeData_congr fun q _ => congrFun (m.afterHandler_records c) q]
    exact List.filterMap_append ..
  have hperm : (freeData m (us ++ r :: vs)).Perm
      (freeData m [r] ++ (freeData m us ++ freeData m vs)) := by
    rw [hsplit, ← List.append_assoc, ← List.append_assoc]
    exact List.perm_append_comm.append_right _
  obtain ⟨hnodup, hlarge⟩ := h
  have hnodup' := hperm.nodup_iff.mp hnodup
  have hlarge' : ∀ d ∈ freeData m [r] ++ (freeData m us ++ freeData m vs),
      ∃ b ∈ pool.large, b.addr = d := fun d hd => hlarge d (hperm.mem_iff.mpr hd)
  rw [freeData_single hc] at hnodup' hlarge'
  rw [Freed, hrest]
  cases hh : c.handler with
  | free =>
      rw [if_pos hh, List.singleton_append] at hnodup' hlarge'
      obtain ⟨hnot, hnodup'⟩ := List.nodup_cons.mp hnodup'
      refine ⟨fun _ => hlarge' _ (List.mem_cons_self ..), hnodup', fun d hd => ?_⟩
      obtain ⟨b, hb, rfl⟩ := hlarge' d (List.mem_cons_of_mem _ hd)
      have hne : b.addr ≠ c.data := fun heq => hnot (heq ▸ hd)
      refine ⟨b, ?_, rfl⟩
      simp only [Pool.afterHandler, hh]
      exact List.mem_filter.mpr ⟨hb, by simpa using hne⟩
  | user id =>
      have hno : c.handler ≠ .free := by rw [hh]; exact Handler.noConfusion
      rw [if_neg hno, List.nil_append] at hnodup' hlarge'
      refine ⟨fun h => Handler.noConfusion h, hnodup', ?_⟩
      simpa only [Pool.afterHandler, hh] using hlarge'

theorem PoolOk.afterHandler (h : PoolOk P contents m p pool pending free)
    (hheap : ∀ x ∈ m.live, ∀ y ∈ m.live, x ≠ y → Region.Apart x y)
    (hblock : c.handler = .free → ∃ b ∈ pool.large, b.addr = c.data) :
    PoolOk P contents (m.afterHandler c) p (pool.afterHandler c) pending free := by
  unfold Memory.afterHandler Pool.afterHandler
  cases hh : c.handler with
  | free =>
      obtain ⟨b, hb, hd⟩ := hblock hh
      rw [← hd]
      exact h.forget hheap hb rfl rfl rfl
  | user id => exact h

/-- A handler frees memory of its own pool only. -/
theorem PoolOk.afterHandler_live (h : PoolOk P contents m p pool pending free)
    (hheap : ∀ x ∈ m.live, ∀ y ∈ m.live, x ≠ y → Region.Apart x y)
    (hblock : c.handler = .free → ∃ b ∈ pool.large, b.addr = c.data) {x : Region}
    (hx : x ∈ m.live) (hpos : 0 < x.size) : x ∈ (m.afterHandler c).live ∨ x ∈ pool.regions := by
  unfold Memory.afterHandler
  cases hh : c.handler with
  | free =>
      obtain ⟨b, hb, hd⟩ := hblock hh
      by_cases hxb : x = b.region
      · rw [hxb]
        exact Or.inr (region_mem_of_large hb)
      · have haddr := addr_ne hheap hx hpos (h.live _ (region_mem_of_large hb))
          (h.region_pos (region_mem_of_large hb)) hxb
        refine Or.inl (List.mem_filter.mpr ⟨hx, ?_⟩)
        simpa [← hd, Block.region] using haddr
  | user id => exact Or.inl hx

theorem Memory.afterHandler_heap (hheap : ∀ x ∈ m.live, ∀ y ∈ m.live, x ≠ y → Region.Apart x y) :
    ∀ x ∈ (m.afterHandler c).live, ∀ y ∈ (m.afterHandler c).live, x ≠ y → Region.Apart x y := by
  have hsub : ∀ x ∈ (m.afterHandler c).live, x ∈ m.live := by
    intro x hx
    unfold Memory.afterHandler at hx
    split at hx
    · exact (List.mem_filter.mp hx).1
    · exact hx
  exact fun x hx y hy => hheap x (hsub x hx) y (hsub y hy)

/-! ## A pending node becomes a free one -/

/-- What is left to do with a pending node once its handler has run, or has not. -/
structure Handled (P : Platform) (contents : Contents) (m m₁ : Memory) (p : Nat)
    (pool pool₁ : Pool) (us vs free : List Ref) (r : Ref) : Prop where
  ok : PoolOk P contents m₁ p pool₁ (us ++ r :: vs) free
  freed : Freed m₁ pool₁ (us ++ vs)
  regions : ∀ x ∈ pool₁.regions, x ∈ pool.regions
  heap : ∀ x ∈ m₁.live, ∀ y ∈ m₁.live, x ≠ y → Region.Apart x y
  live : ∀ x ∈ m.live, 0 < x.size → x ∈ m₁.live ∨ x ∈ pool.regions
  pools : ∀ x, Function.update m₁.pools p x = Function.update m.pools p x
  records : m₁.records = m.records
  recordCount : m₁.recordCount = m.recordCount

theorem Handled.setPool {m₁ : Memory} {pool₁ : Pool} {us vs : List Ref}
    (h : Handled P contents m m₁ p pool pool₁ us vs free r) :
    Handled P contents m (m₁.setPool p pool₁) p pool pool₁ us vs free r where
  ok := h.ok.congr h.ok.live (fun _ _ => rfl) (Nat.le_refl _)
  freed := h.freed
  regions := h.regions
  heap := h.heap
  live := h.live
  pools x := by
    rw [← h.pools x]
    exact Function.update_idem ..
  records := h.records
  recordCount := h.recordCount

theorem Held.handled_run {us vs : List Ref} (h : Held P contents m ps pendings frees) (hp : p ∈ ps)
    (hpool : m.pools p = some pool) (hpending : pendings p = us ++ r :: vs)
    (hc : m.records r = some c) :
    Handled P contents m (m.afterHandler c) p pool (pool.afterHandler c) us vs (frees p) r := by
  have hok := h.poolOk hp hpool
  have hfreed := h.freed hp hpool
  rw [hpending] at hok hfreed
  obtain ⟨hblock, hrest⟩ := hfreed.drop hc
  exact ⟨hok.afterHandler h.heap hblock, hrest, fun _ => Pool.afterHandler_regions,
    Memory.afterHandler_heap h.heap, fun _ => hok.afterHandler_live h.heap hblock, by simp,
    by simp, by simp⟩

theorem Held.handled_skip {us vs : List Ref} (h : Held P contents m ps pendings frees)
    (hp : p ∈ ps) (hpool : m.pools p = some pool) (hpending : pendings p = us ++ r :: vs) :
    Handled P contents m m p pool pool us vs (frees p) r := by
  have hok := h.poolOk hp hpool
  obtain ⟨hnodup, hlarge⟩ := h.freed hp hpool
  rw [hpending] at hok hnodup hlarge
  have hsub : (freeData m (us ++ vs)).Sublist (freeData m (us ++ r :: vs)) :=
    ((List.sublist_cons_self r vs).append_left us).filterMap _
  exact ⟨hok, ⟨hnodup.sublist hsub, fun d hd => hlarge d (hsub.subset hd)⟩, fun _ hx => hx, h.heap,
    fun _ hx _ => Or.inl hx, fun _ => rfl, rfl, rfl⟩

/-- The node has left the pending ones and is the first free one. -/
structure Retired (P : Platform) (contents : Contents) (m m' : Memory) (p : Nat)
    (pool pool' : Pool) (us vs free : List Ref) (r : Ref) : Prop where
  ok : PoolOk P contents m' p pool' (us ++ vs) (r :: free)
  same : SameBlocks pool pool'
  live : m'.live = m.live
  pools : m'.pools = m.pools
  recordCount : m'.recordCount = m.recordCount
  freeData : freeData m' (us ++ vs) = freeData m (us ++ vs)
  records : ∀ x, (∀ y ∈ us ++ r :: vs, Separate P y x) → m'.records x = m.records x

theorem Loose.congr {listed : List Ref} (h : Loose P contents m pool listed r)
    (hcount : m'.recordCount = m.recordCount) (hsame : SameBlocks pool pool') :
    Loose P contents m' pool' listed r where
  separate := h.separate
  tag := hcount ▸ h.tag
  house ht := hsame.housed.mpr (h.house ht)

/-- The first pending node. -/
theorem PoolOk.retire_first {rest : List Ref} (h : PoolOk P contents m p pool (r :: rest) free)
    (hc : m.records r = some c) :
    Retired P contents m (m.setRecord P r { c with next := pool.freeCleanups }) p pool
      { pool with cleanups := c.next, freeCleanups := some r } [] rest free r := by
  obtain ⟨hok, hloose⟩ := h.shift hc
  have hsame : SameBlocks pool { pool with cleanups := c.next } := ⟨rfl, rfl, rfl, rfl, rfl⟩
  refine ⟨hok.reserve (hloose.congr rfl hsame) c, ⟨rfl, rfl, rfl, rfl, rfl⟩, rfl, rfl, rfl, ?_,
    fun x hx => ?_⟩
  · exact freeData_congr fun q hq => m.setRecord_of_separate _
      (hloose.separate q (List.mem_append_left _ hq))
  · exact m.setRecord_of_separate _ (hx r (List.mem_cons_self ..))

/-- What decides which block a node frees. -/
theorem freeData_of_next {rs : List Ref} (h : ∀ x ∈ rs, m'.records x = m.records x ∨
    ∃ c next, m.records x = some c ∧ m'.records x = some { c with next := next }) :
    freeData m' rs = freeData m rs := by
  unfold freeData
  apply List.filterMap_congr
  intro x hx
  rcases h x hx with hsame | ⟨c, next, hc, hc'⟩
  · rw [hsame]
  · rw [hc, hc']
    rfl

theorem PoolOk.retire_next {us vs : List Ref} {q : Ref} {cq : CleanupNode}
    (h : PoolOk P contents m p pool (us ++ q :: r :: vs) free) (hc : m.records r = some c)
    (hq : m.records q = some cq) :
    Retired P contents m
      ((m.setRecord P q { cq with next := c.next }).setRecord P r
        { c with next := pool.freeCleanups })
      p pool { pool with freeCleanups := some r } (us ++ [q]) vs free r := by
  have hunlink : PoolOk P contents (m.setRecord P q { cq with next := c.next }) p pool
      (us ++ q :: vs) free ∧ _ := h.unlink hc
  obtain ⟨hok, hloose⟩ := hunlink
  have hlist : us ++ [q] ++ vs = us ++ q :: vs := by simp
  have hok' := hok.reserve (hloose.congr rfl ⟨rfl, rfl, rfl, rfl, rfl⟩) c
  -- the nodes of the list are separate from each other
  have hrecords := (List.pairwise_append.mp h.records).1
  have hqsep : ∀ x ∈ us ++ vs, Separate P q x := by
    have hperm : (us ++ q :: r :: vs).Perm (q :: r :: (us ++ vs)) :=
      List.perm_middle.trans (List.perm_middle.cons q)
    have hall := (hperm.pairwise_iff fun h => Separate.symm h).mp hrecords
    exact fun x hx => (pairwise_head hall).1 x (List.mem_cons_of_mem r hx)
  refine ⟨hlist ▸ hok', ⟨rfl, rfl, rfl, rfl, rfl⟩, rfl, rfl, rfl, ?_, fun x hx => ?_⟩
  · apply freeData_of_next
    intro x hx
    rw [hlist] at hx
    have hr : Separate P r x := hloose.separate x (List.mem_append_left _ hx)
    rw [Memory.setRecord_of_separate _ _ hr]
    by_cases hxq : x = q
    · subst hxq
      exact Or.inr ⟨cq, c.next, hq, m.setRecord_self _ _⟩
    · refine Or.inl (m.setRecord_of_separate _ (hqsep x ?_))
      simpa [hxq] using hx
  · have hr : Separate P r x := hx r (by simp)
    have hq' : Separate P q x := hx q (by simp)
    rw [Memory.setRecord_of_separate _ _ hr, Memory.setRecord_of_separate _ _ hq']

/-- The invariant of all pools once the node has changed its list. -/
theorem Held.retire {m₁ m₂ : Memory} {pool₁ pool₂ : Pool} {us vs : List Ref}
    (h : Held P contents m ps pendings frees) (hp : p ∈ ps) (hpool : m.pools p = some pool)
    (hpending : pendings p = us ++ r :: vs)
    (hhandled : Handled P contents m m₁ p pool pool₁ us vs (frees p) r)
    (hretired : Retired P contents m₁ m₂ p pool₁ pool₂ us vs (frees p) r) :
    Held P contents (m₂.setPool p pool₂) ps (Function.update pendings p (us ++ vs))
      (Function.update frees p (r :: frees p)) := by
  refine h.update hp hpool ?_ ?_ (fun x hx hpos => ?_) (fun q hq hqp x hx => ?_) ?_
    (hretired.ok.congr hretired.ok.live (fun _ _ => rfl) (Nat.le_refl _)) ?_ (fun x hx => ?_)
    (fun x hx => Or.inl ?_)
  · simp only [Memory.setPool, hretired.pools, hhandled.pools]
  · rw [Memory.setPool_live, hretired.live]
    exact hhandled.heap
  · rw [Memory.setPool_live, hretired.live]
    exact hhandled.live x hx hpos
  · rw [Memory.setPool_records, hretired.records x, hhandled.records]
    intro y hy
    refine h.separate hp hq (Ne.symm hqp) ?_ hx
    exact List.mem_append_left _ (hpending ▸ hy)
  · rw [Memory.setPool_recordCount, hretired.recordCount, hhandled.recordCount]
  · have hfreed := hhandled.freed
    rw [Freed, ← hretired.freeData, ← hretired.same.large] at hfreed
    exact hfreed
  · rw [hretired.same.regions] at hx
    exact Or.inl (hhandled.regions x hx)
  · rw [hpending]
    simp only [List.mem_append, List.mem_cons] at hx ⊢
    tauto

/-! ## Running all cleanups -/

/-- The pool with another pointer to its pending cleanups: where the loop is that runs
them. -/
def Pool.aim (pool : Pool) (ptr : Option Ref) : Pool := { pool with cleanups := ptr }

theorem reserveRecord_ok (hpool : s.mem.pools p = some pool) (hc : s.mem.records r = some c) :
    reserveRecord P p r s =
      .ok ((s.setRecord P r { c with next := pool.freeCleanups }).setPool p
        { pool with freeCleanups := some r }) := by
  unfold reserveRecord
  rw [State.getRecord_ok hc, State.getPool_ok hpool]
  rfl

/-- What running pending cleanups does to the world. -/
def RunEvent (pending : List Ref) : Event → Prop
  | .readRecord a => ∃ r ∈ pending, r.addr = a
  | .run _ _ => True
  | .free _ => True
  | _ => False

theorem CleanupNode.runEvent (c : CleanupNode) (pending : List Ref) : RunEvent pending c.event := by
  unfold CleanupNode.event
  split <;> trivial

/-- Between the states pending cleanups are run, and nothing else is done. -/
def RunsOnly (pending : List Ref) (s s' : State) : Prop :=
  ∃ es, s'.events = s.events ++ es ∧ ∀ e ∈ es, RunEvent pending e

theorem RunsOnly.refl (pending : List Ref) (s : State) : RunsOnly pending s s :=
  ⟨[], (List.append_nil _).symm, fun _ he => absurd he List.not_mem_nil⟩

/-- One more cleanup after the others. -/
theorem RunsOnly.concat {pending : List Ref} {s₁ : State} (h : RunsOnly pending s s₁)
    (hr : r ∈ pending) (hevents : s'.events = s₁.events ++ [.readRecord r.addr, c.event]) :
    RunsOnly pending s s' := by
  obtain ⟨es, hes, hrun⟩ := h
  refine ⟨es ++ [.readRecord r.addr, c.event], by rw [hevents, hes, List.append_assoc],
    fun e he => ?_⟩
  rcases List.mem_append.mp he with he | he
  · exact hrun e he
  · rcases List.mem_cons.mp he with rfl | he
    · exact ⟨r, hr, rfl⟩
    · rw [List.mem_singleton.mp he]
      exact c.runEvent _

/-- The loop keeps what each round keeps: the nodes that are left, where its pointer is, and
the state. -/
theorem runCleanups_rule {excuse : Prop} {J : List Ref → Option Ref → State → Prop}
    (hshape : ∀ {rs ptr s}, J rs ptr s → ptr = rs.head?)
    (hround : ∀ {r rest s}, J (r :: rest) (some r) s → ∃ c, s.mem.records r = some c ∧
      Yields excuse (runHandler env p c (s.log (.readRecord r.addr)) >>= reserveRecord P p r)
        (J rest c.next))
    {rounds : Nat} {rs : List Ref} {ptr : Option Ref} (h : J rs ptr s) :
    Yields (rounds < rs.length ∨ excuse) (runCleanups env p rounds ptr s) (J [] none) := by
  induction rounds generalizing rs ptr s with
  | zero =>
      cases rs with
      | nil =>
          cases hshape h
          exact Yields.ok h
      | cons r rest =>
          cases hshape h
          exact Yields.error (Or.inl (Nat.succ_pos _))
  | succ rounds ih =>
      cases rs with
      | nil =>
          cases hshape h
          exact Yields.ok h
      | cons r rest =>
          cases hshape h
          obtain ⟨c, hc, hone⟩ := hround h
          rw [List.head?_cons, runCleanups, State.getRecord_bind hc]
          change Yields _ (runHandler env p c (s.log (.readRecord r.addr)) >>= fun s₁ =>
            reserveRecord P p r s₁ >>= fun s₂ => runCleanups env p rounds c.next s₂) _
          rw [← bind_assoc]
          apply (hone.weaken Or.inr).bind
          intro s₁ _ h₁
          exact (ih h₁).weaken (Or.imp_left Nat.succ_lt_succ)

/-- A node whose handler is done becomes the first free one, and the loop goes on behind
it. The pool that is passed on differs from the pool in the loop's pointer only. -/
theorem reserve_round {m₁ : Memory} {pool₀ : Pool} {rest : List Ref}
    (h : Held P contents m ps pendings frees) (hp : p ∈ ps) (hpool₀ : m.pools p = some pool₀)
    (hpending : pendings p = r :: rest)
    (hhandled : Handled P contents m m₁ p pool₀ (pool.aim (some r)) [] rest (frees p) r)
    (hpool : s.mem.pools p = some pool) (hc : s.mem.records r = some c)
    (hlive : s.mem.live = m₁.live) (hrecords : s.mem.records = m₁.records)
    (hcount : s.mem.recordCount = m₁.recordCount)
    (hpools : ∀ x, Function.update s.mem.pools p x = Function.update m₁.pools p x) :
    ∃ s', reserveRecord P p r s = .ok s' ∧ s'.events = s.events ∧
      s'.mem.pools = Function.update s.mem.pools p (some { pool with freeCleanups := some r }) ∧
      (∀ x, Separate P r x → s'.mem.records x = s.mem.records x) ∧
      Held P contents
        (s'.mem.setPool p (Pool.aim { pool with freeCleanups := some r } c.next)) ps
        (Function.update pendings p rest) (Function.update frees p (r :: frees p)) := by
  have hretired := hhandled.ok.retire_first (hrecords ▸ hc)
  have hsplit : pendings p = [] ++ r :: rest := hpending
  have hheld := h.retire hp hpool₀ hsplit hhandled hretired
  refine ⟨_, reserveRecord_ok hpool hc, rfl, rfl, fun x hx => ?_, hheld.of_eq hlive ?_ ?_ hcount⟩
  · exact s.mem.setRecord_of_separate _ hx
  · simp only [State.setPool_mem, State.setRecord_mem, Memory.setPool, Memory.setRecord_pools,
      Function.update_idem]
    exact hpools _
  · simp only [State.setPool_mem, State.setRecord_mem, Memory.setPool_records, Memory.setRecord,
      hrecords]
    rfl

/-- One round of the loop, with a handler that registers nothing. -/
theorem cleanup_round
    (hq : ∀ c, s.mem.records r = some c → registers env c.data c.handler = []) (hp : p ∈ ps)
    (hpool : s.mem.pools p = some pool)
    (h : Held P contents (s.mem.setPool p (pool.aim (some r))) ps pendings frees) :
    ∃ c rest s₁ s₂ pool₂, pendings p = r :: rest ∧ s.mem.records r = some c ∧
      runHandler env p c (s.log (.readRecord r.addr)) = .ok s₁ ∧
      reserveRecord P p r s₁ = .ok s₂ ∧
      s₂.events = s.events ++ [.readRecord r.addr, c.event] ∧
      s₂.mem.pools = Function.update s.mem.pools p (some pool₂) ∧ SameNodes pool pool₂ ∧
      (∀ x, Separate P r x → s₂.mem.records x = s.mem.records x) ∧
      Held P contents (s₂.mem.setPool p (pool₂.aim c.next)) ps (Function.update pendings p rest)
        (Function.update frees p (r :: frees p)) := by
  have haim := s.mem.setPool_self p (pool.aim (some r))
  have hok := h.poolOk hp haim
  obtain ⟨c, rest, hpending, hc, -⟩ := hok.pendingChain.uncons
  rw [Memory.setPool_records] at hc
  have hpool₀ : (s.log (.readRecord r.addr)).mem.pools p = some pool := hpool
  obtain ⟨s₁, hrun, hmem₁, hevents₁⟩ := runHandler_ok (hq c hc) hpool₀
  rw [State.log_mem] at hmem₁
  have hpool₁ : s₁.mem.pools p = some (pool.afterHandler c) := by
    rw [hmem₁, Memory.setPool_self]
  have hc₁ : s₁.mem.records r = some c := by
    rw [hmem₁, Memory.setPool_records, Memory.afterHandler_records]
    exact hc
  have hsplit : pendings p = [] ++ r :: rest := hpending
  have hhandled := h.handled_run hp haim hsplit hc
  have hfree : (pool.aim (some r)).afterHandler c = (pool.afterHandler c).aim (some r) := by
    unfold Pool.afterHandler
    cases c.handler <;> rfl
  rw [hfree] at hhandled
  have hlive : ((s.mem.setPool p (pool.aim (some r))).afterHandler c).live =
      (s.mem.afterHandler c).live := by
    unfold Memory.afterHandler
    cases c.handler <;> rfl
  obtain ⟨s₂, hs₂, hevents₂, hpools₂, hrecords₂, hheld⟩ :=
    reserve_round h hp haim hpending hhandled hpool₁ hc₁
      (by rw [hmem₁, Memory.setPool_live, hlive]) (by rw [hmem₁]; simp) (by rw [hmem₁]; simp)
      (fun x => by simp only [hmem₁, Memory.setPool, Memory.afterHandler_pools,
        Function.update_idem])
  refine ⟨c, rest, s₁, s₂, { pool.afterHandler c with freeCleanups := some r }, hpending, hc, hrun,
    hs₂, ?_, ?_, ?_, fun x hx => ?_, hheld⟩
  · have hread : s₁.events = s.events ++ [.readRecord r.addr] ++ [c.event] := hevents₁
    rw [hevents₂, hread, List.append_assoc]
    rfl
  · rw [hpools₂, hmem₁]
    simp only [Memory.setPool, Memory.afterHandler_pools, Function.update_idem]
  · exact (pool.afterHandler_sameNodes c).trans ⟨rfl, rfl, rfl⟩
  · rw [hrecords₂ x hx, hmem₁, Memory.setPool_records, Memory.afterHandler_records]

/-- The state after all cleanups of a pool have run. -/
structure RanAll (P : Platform) (contents : Contents) (ps : List Nat)
    (pendings frees : Nat → List Ref) (m : Memory) (p : Nat) (pool : Pool) (m' : Memory)
    (pool' : Pool) : Prop where
  pools : m'.pools = Function.update m.pools p (some pool')
  same : SameNodes pool pool'
  held : ∃ frees', Held P contents m' ps (Function.update pendings p []) frees'

structure RanSome (P : Platform) (contents : Contents) (ps : List Nat)
    (pendings : Nat → List Ref) (p : Nat) (pool : Pool) (s : State) (rs : List Ref)
    (ptr : Option Ref) (s' : State) : Prop where
  runs : RunsOnly (pendings p) s s'
  rest : rs ⊆ pendings p
  held : ∃ pool', s'.mem.pools = Function.update s.mem.pools p (some pool') ∧ SameNodes pool pool' ∧
    ∃ frees', Held P contents (s'.mem.setPool p (pool'.aim ptr)) ps
      (Function.update pendings p rs) frees'

theorem RanSome.shape {rs : List Ref} {ptr : Option Ref} (hp : p ∈ ps)
    (h : RanSome P contents ps pendings p pool s rs ptr s') : ptr = rs.head? := by
  obtain ⟨pool', -, -, frees', hheld⟩ := h.held
  have hchain := (hheld.poolOk hp (Memory.setPool_self ..)).pendingChain
  rw [Function.update_self] at hchain
  exact hchain.head_eq

theorem RanSome.next {rest : List Ref} (hq : env.Quiet) (hp : p ∈ ps)
    (h : RanSome P contents ps pendings p pool s (r :: rest) (some r) s') :
    ∃ c, s'.mem.records r = some c ∧
      Yields False (runHandler env p c (s'.log (.readRecord r.addr)) >>= reserveRecord P p r)
        (RanSome P contents ps pendings p pool s rest c.next) := by
  obtain ⟨hruns, hsub, pool', hpools', hsame', frees', hheld'⟩ := h
  have hpool' : s'.mem.pools p = some pool' := by rw [hpools', Function.update_self]
  obtain ⟨c, rest', s₁, s₂, pool₂, hpending, hc, h₁, h₂, hevents, hpools, hsame, -, hheld⟩ :=
    cleanup_round (fun c _ => registers_quiet hq c.data c.handler) hp hpool' hheld'
  rw [Function.update_self] at hpending
  cases hpending
  refine ⟨c, hc, ?_⟩
  rw [h₁]
  change Yields _ (reserveRecord P p r s₁) _
  rw [h₂]
  rw [Function.update_idem] at hheld
  refine Yields.ok ⟨hruns.concat (hsub (List.mem_cons_self ..)) hevents,
    fun x hx => hsub (List.mem_cons_of_mem r hx), pool₂, ?_, hsame'.trans hsame, _, hheld⟩
  rw [hpools, hpools', Function.update_idem]

theorem runCleanups_spec (hq : env.Quiet) (hp : p ∈ ps) {ptr : Option Ref} {rounds : Nat}
    (hpool : s.mem.pools p = some pool)
    (h : Held P contents (s.mem.setPool p (pool.aim ptr)) ps pendings frees) :
    Yields (rounds < (pendings p).length) (runCleanups env p rounds ptr s)
      (RanSome P contents ps pendings p pool s [] none) := by
  have hstart : RanSome P contents ps pendings p pool s (pendings p) ptr s := by
    refine ⟨.refl _ _, fun _ hr => hr, pool, ?_, .refl _, frees, ?_⟩
    · rw [← hpool, Function.update_eq_self]
    · rwa [Function.update_eq_self]
  exact (runCleanups_rule (J := RanSome P contents ps pendings p pool s) (RanSome.shape hp)
    (RanSome.next hq hp) hstart).weaken fun hfail => hfail.resolve_right not_false

theorem cleanupRunAll_spec (hq : env.Quiet) (h : Held P contents s.mem ps pendings frees)
    (hp : p ∈ ps) (hpool : s.mem.pools p = some pool) {rounds : Nat} :
    Yields (rounds < (pendings p).length) (cleanupRunAll env rounds p s) fun s' =>
      RunsOnly (pendings p) s s' ∧
        ∃ pool', RanAll P contents ps pendings frees s.mem p pool s'.mem pool' := by
  have haim : Held P contents (s.mem.setPool p (pool.aim pool.cleanups)) ps pendings frees := by
    have hself : s.mem.setPool p (pool.aim pool.cleanups) = s.mem := Memory.setPool_eq hpool
    rwa [hself]
  unfold cleanupRunAll
  rw [State.getPool_bind hpool]
  apply (runCleanups_spec hq hp hpool haim).bind
  intro s₁ _ h₁
  obtain ⟨hruns, -, pool₁, hpools₁, hsame₁, frees₁, hheld₁⟩ := h₁
  have hpool₁ : s₁.mem.pools p = some pool₁ := by rw [hpools₁, Function.update_self]
  rw [State.getPool_bind hpool₁]
  refine Yields.ok ⟨hruns, pool₁.aim none, ?_, hsame₁.trans ⟨rfl, rfl, rfl⟩, frees₁, hheld₁⟩
  simp only [State.setPool_mem, Memory.setPool, hpools₁, Function.update_idem]
  rfl

/-! ## `fpx_pool_cleanup_run1` and `fpx_pool_cleanup_remove1` -/

/-- The search splits the list at the node it finds, and knows the node before it. -/
theorem findRecord_split {data rounds : Nat} {handler : Handler} {prev prev' ptr : Option Ref}
    (h : findRecord data handler s rounds prev ptr = .ok (some (prev', r)))
    (hchain : Chain s.mem.records CleanupNode.next ptr pending) :
    ∃ us vs, pending = us ++ r :: vs ∧ prev' = us.getLast?.or prev := by
  induction rounds generalizing prev ptr pending with
  | zero => cases ptr <;> cases h
  | succ rounds ih =>
      cases ptr with
      | none => cases h
      | some q =>
          obtain ⟨c, rest, rfl, hc, hrest⟩ := hchain.uncons
          rw [findRecord, State.getRecord_ok hc] at h
          change (if c.data = data ∧ c.handler = handler then _ else _) = _ at h
          split at h
          · cases h
            exact ⟨[], rest, rfl, rfl⟩
          · obtain ⟨us, vs, rfl, hprev⟩ := ih h hrest
            refine ⟨q :: us, vs, rfl, ?_⟩
            rw [hprev]
            cases us <;> simp [List.getLast?_cons]

theorem detachRecord_first (prev : Option Ref) (hpool : s.mem.pools p = some pool)
    (hc : s.mem.records r = some c) (hfirst : pool.cleanups = some r) :
    detachRecord P p prev r s = .ok (s.setPool p (pool.aim c.next)) := by
  unfold detachRecord
  rw [State.getPool_bind hpool, State.getRecord_bind hc, if_pos hfirst]
  rfl

theorem detachRecord_next {q : Ref} {cq : CleanupNode} (hpool : s.mem.pools p = some pool)
    (hc : s.mem.records r = some c) (hfirst : pool.cleanups ≠ some r)
    (hq : s.mem.records q = some cq) :
    detachRecord P p (some q) r s = .ok (s.setRecord P q { cq with next := c.next }) := by
  unfold detachRecord
  rw [State.getPool_bind hpool, State.getRecord_bind hc, if_neg hfirst]
  exact State.getRecord_bind hq _

theorem unlinkRecord_ok {prev : Option Ref} (hdetach : detachRecord P p prev r s = .ok s')
    (hpool : s'.mem.pools p = some pool) (hc : s'.mem.records r = some c) :
    ∃ s'', unlinkRecord P p prev r s = .ok s'' ∧
      s''.mem = (s'.mem.setRecord P r { c with next := pool.freeCleanups }).setPool p
        { pool with freeCleanups := some r } := by
  unfold unlinkRecord
  rw [hdetach]
  change ∃ s'', (reserveRecord P p r s' >>= _) = _ ∧ _
  rw [reserveRecord_ok hpool hc]
  refine ⟨_, State.getPool_bind (Memory.setPool_self ..) _, ?_⟩
  rw [State.unlock_mem]
  rfl

/-- The end of both functions, where the pending nodes are known. -/
theorem unlinkRecord_spec {us vs : List Ref} (hpool : s.mem.pools p = some pool)
    (hok : PoolOk P contents s.mem p pool (us ++ r :: vs) free) (hc : s.mem.records r = some c) :
    ∃ s' pool' m₁, unlinkRecord P p us.getLast? r s = .ok s' ∧
      Retired P contents s.mem m₁ p pool pool' us vs free r ∧ s'.mem = m₁.setPool p pool' := by
  rcases List.eq_nil_or_concat us with rfl | ⟨us, q, rfl⟩
  · have hdetach := detachRecord_first (P := P) none hpool hc hok.pendingChain.1
    obtain ⟨s', hs', hmem⟩ := unlinkRecord_ok hdetach (Memory.setPool_self ..) hc
    refine ⟨s', _, _, hs', hok.retire_first hc, ?_⟩
    rw [hmem]
    exact Memory.setPool_setPool (s.mem.setRecord P r _) p (pool.aim c.next) _
  · rw [List.concat_eq_append] at hok ⊢
    have hfirst : pool.cleanups ≠ some r := hok.pendingChain.ne_some (by simp)
    rw [List.append_assoc] at hok
    obtain ⟨cq, hq⟩ := hok.pendingChain.cell (a := q) (by simp)
    have hretired := hok.retire_next hc hq
    have hdetach := detachRecord_next (P := P) hpool hc hfirst hq
    have hsep : Separate P q r := by
      have hpair := (List.pairwise_append.mp (List.pairwise_append.mp hok.records).1).2.1
      exact (pairwise_head hpair).1 r (List.mem_cons_self ..)
    have hc' : (s.mem.setRecord P q { cq with next := c.next }).records r = some c :=
      (s.mem.setRecord_of_separate _ hsep).trans hc
    obtain ⟨s', hs', hmem⟩ := unlinkRecord_ok hdetach hpool hc'
    refine ⟨s', _, _, ?_, hretired, hmem⟩
    rwa [List.getLast?_concat]

theorem cleanupRun_spec (hq : env.Quiet) (h : Held P contents s.mem ps pendings frees) (hp : p ∈ ps)
    (hpool : s.mem.pools p = some pool) {rounds data : Nat} {handler : Handler} :
    Yields True (cleanupRun env rounds p data handler s) fun s' =>
      ∃ pendings' frees', Held P contents s'.mem ps pendings' frees' := by
  have hlock : Held P contents (s.lock P pool.mutex).mem ps pendings frees := by
    rwa [State.lock_mem]
  have hpool₀ : (s.lock P pool.mutex).mem.pools p = some pool := by rwa [State.lock_mem]
  have hok := hlock.poolOk hp hpool₀
  unfold cleanupRun
  rw [State.getPool_bind hpool]
  refine (Yields.self (findRecord data handler (s.lock P pool.mutex) rounds none
    pool.cleanups)).bind fun found _ hfound => ?_
  split
  · exact Yields.ok ⟨_, _, hlock⟩
  · rename_i prev r _
    obtain ⟨us, vs, hpending, hprev⟩ := findRecord_split hfound hok.pendingChain
    rw [Option.or_none] at hprev
    subst hprev
    obtain ⟨c, hc⟩ := hok.pendingChain.cell (a := r) (by simp [hpending])
    rw [State.getRecord_bind hc]
    obtain ⟨s₁, hrun, hmem₁, -⟩ := runHandler_ok (registers_quiet hq c.data c.handler) hpool₀
    have hhandled := (hlock.handled_run hp hpool₀ hpending hc).setPool
    rw [← hmem₁] at hhandled
    have hpool₁ : s₁.mem.pools p = some (pool.afterHandler c) := by rw [hmem₁, Memory.setPool_self]
    have hc₁ : s₁.mem.records r = some c := by rw [hhandled.records]; exact hc
    obtain ⟨s₂, pool₂, m₁, hs₂, hretired, hmem₂⟩ := unlinkRecord_spec hpool₁ hhandled.ok hc₁
    rw [hrun]
    change Yields _ (unlinkRecord P p us.getLast? r s₁) _
    rw [hs₂]
    exact Yields.ok ⟨_, _, hmem₂ ▸ hlock.retire hp hpool₀ hpending hhandled hretired⟩

theorem cleanupRemove_spec (h : Held P contents s.mem ps pendings frees) (hp : p ∈ ps)
    (hpool : s.mem.pools p = some pool) {rounds data : Nat} {handler : Handler} :
    Yields True (cleanupRemove P rounds p data handler s) fun s' =>
      ∃ pendings' frees', Held P contents s'.mem ps pendings' frees' := by
  have hlock : Held P contents (s.lock P pool.mutex).mem ps pendings frees := by
    rwa [State.lock_mem]
  have hpool₀ : (s.lock P pool.mutex).mem.pools p = some pool := by rwa [State.lock_mem]
  have hok := hlock.poolOk hp hpool₀
  unfold cleanupRemove
  rw [State.getPool_bind hpool]
  refine (Yields.self (findRecord data handler (s.lock P pool.mutex) rounds none
    pool.cleanups)).bind fun found _ hfound => ?_
  split
  · exact Yields.ok ⟨_, _, hlock⟩
  · rename_i prev r _
    obtain ⟨us, vs, hpending, hprev⟩ := findRecord_split hfound hok.pendingChain
    rw [Option.or_none] at hprev
    subst hprev
    obtain ⟨c, hc⟩ := hok.pendingChain.cell (a := r) (by simp [hpending])
    have hhandled := hlock.handled_skip hp hpool₀ hpending
    obtain ⟨s₂, pool₂, m₁, hs₂, hretired, hmem₂⟩ := unlinkRecord_spec hpool₀ hhandled.ok hc
    rw [hs₂]
    exact Yields.ok ⟨_, _, hmem₂ ▸ hlock.retire hp hpool₀ hpending hhandled hretired⟩

end Floppix.Pools
