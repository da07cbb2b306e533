import Floppix.System.Pool.Accounting
import Floppix.System.Pool.Entries

/-! # What clearing does to a tree of pools

`fpx_pool_clear` goes down the child pointers and along the brothers of the children, and
never along those of the pool it is given. Nothing is needed of the pools but the shape of
the tree, the owner, and that the pending cleanup nodes do not share memory.
-/

namespace Floppix.Pools

open Layout LinkedList Outcome Kinship Transition

variable {P : Platform} {env : Environment P} {m : Memory} {p q : Nat} {pool pool' : Pool}
  {pendings : Nat → List Ref} {order order' : List Nat} {s s' s'' : State} {r : Ref}
  {thread rounds loop depth : Nat} {excuse : Prop}

/-! ## The cleanups of one pool -/

def Tidied (pool pool' : Pool) : Prop :=
  ∃ free large, pool' = { pool with freeCleanups := free, large := large }

theorem Tidied.refl (pool : Pool) : Tidied pool pool := ⟨_, _, rfl⟩

theorem Tidied.trans {pool'' : Pool} (h : Tidied pool pool') (h' : Tidied pool' pool'') :
    Tidied pool pool'' := by
  obtain ⟨free, large, rfl⟩ := h
  obtain ⟨free', large', rfl⟩ := h'
  exact ⟨free', large', rfl⟩

theorem Pool.afterHandler_tidied (pool : Pool) (c : CleanupNode) :
    Tidied pool (pool.afterHandler c) := by
  unfold Pool.afterHandler
  split <;> exact ⟨_, _, rfl⟩

theorem sweep_round (hq : env.Quiet) {c : CleanupNode} (hpool : s.mem.pools p = some pool)
    (hc : s.mem.records r = some c) :
    ∃ s' pool', (runHandler env p c (s.log (.readRecord r.addr)) >>= reserveRecord P p r) = .ok s' ∧
      Tidied pool pool' ∧ s'.mem.pools = Function.update s.mem.pools p (some pool') ∧
      (∀ x, Separate P r x → s'.mem.records x = s.mem.records x) ∧
      called s'.events = called s.events ++ [c.entry] := by
  obtain ⟨s₁, hrun, hmem₁, hevents₁⟩ := runHandler_ok (s := s.log (.readRecord r.addr))
    (registers_quiet hq c.data c.handler) hpool
  rw [State.log_mem] at hmem₁
  have hpool₁ : s₁.mem.pools p = some (pool.afterHandler c) := by rw [hmem₁, Memory.setPool_self]
  have hrecords₁ : s₁.mem.records = s.mem.records := by
    rw [hmem₁, Memory.setPool_records, Memory.afterHandler_records]
  rw [hrun]
  refine ⟨_, { pool.afterHandler c with freeCleanups := some r },
    reserveRecord_ok hpool₁ (hrecords₁ ▸ hc), (pool.afterHandler_tidied c).trans ⟨_, _, rfl⟩, ?_,
    fun x hx => ?_, ?_⟩
  · simp only [State.setPool_mem, State.setRecord_mem, Memory.setPool, Memory.setRecord_pools,
      hmem₁, Memory.afterHandler_pools, Function.update_idem]
  · rw [← hrecords₁]
    exact s₁.mem.setRecord_of_separate _ hx
  · have hlog : called (s.log (.readRecord r.addr)).events = called s.events := called_log rfl s
    change called s₁.events = _
    rw [hevents₁, called_append, hlog, c.called_event]

structure Sweeping (P : Platform) (p : Nat) (pool : Pool) (pending : List Ref) (s : State)
    (rs : List Ref) (ptr : Option Ref) (s' : State) : Prop where
  chain : Chain s'.mem.records CleanupNode.next ptr rs
  apart : rs.Pairwise (Separate P)
  rest : rs ⊆ pending
  pools : ∃ pool', Tidied pool pool' ∧
    s'.mem.pools = Function.update s.mem.pools p (some pool')
  records : ∀ x, (∀ r ∈ pending, Separate P r x) → s'.mem.records x = s.mem.records x
  called : called s'.events ++ entries s'.mem rs = called s.events ++ entries s.mem pending

theorem Sweeping.next {pending rest : List Ref} (hq : env.Quiet)
    (h : Sweeping P p pool pending s (r :: rest) (some r) s') :
    ∃ c, s'.mem.records r = some c ∧
      Yields False (runHandler env p c (s'.log (.readRecord r.addr)) >>= reserveRecord P p r)
        (Sweeping P p pool pending s rest c.next) := by
  obtain ⟨pool', htidied, hpools⟩ := h.pools
  obtain ⟨c, rest', heq, hc, hnext⟩ := h.chain.uncons
  cases heq
  obtain ⟨hsep, hapart⟩ := List.pairwise_cons.mp h.apart
  have hpool' : s'.mem.pools p = some pool' := by rw [hpools, Function.update_self]
  obtain ⟨s₂, pool₂, hok, htidied₂, hpools₂, hrecords₂, hcalled₂⟩ := sweep_round hq hpool' hc
  refine ⟨c, hc, ?_⟩
  rw [hok]
  have hsame : SameRecords s'.mem s₂.mem rest := fun x hx => hrecords₂ x (hsep x hx)
  refine Yields.ok ⟨hnext.congr_cells hsame, hapart,
    fun x hx => h.rest (List.mem_cons_of_mem r hx), ⟨pool₂, htidied.trans htidied₂, ?_⟩,
    fun x hx => ?_, ?_⟩
  · rw [hpools₂, hpools, Function.update_idem]
  · exact (hrecords₂ x (hx r (h.rest (List.mem_cons_self ..)))).trans (h.records x hx)
  · rw [hcalled₂, hsame.entries, List.append_assoc, List.singleton_append, ← entries_cons hc]
    exact h.called

def Pool.idle (pool : Pool) (free : Option Ref) (large : List Block) : Pool :=
  { pool with cleanups := none, freeCleanups := free, large := large }

structure Swept (P : Platform) (p : Nat) (pool : Pool) (pending : List Ref) (s s' : State) :
    Prop where
  pools : ∃ free large, s'.mem.pools = Function.update s.mem.pools p (some (pool.idle free large))
  records : ∀ x, (∀ r ∈ pending, Separate P r x) → s'.mem.records x = s.mem.records x
  called : called s'.events = called s.events ++ entries s.mem pending

theorem cleanupRunAll_swept (hq : env.Quiet) {pending : List Ref}
    (hpool : s.mem.pools p = some pool)
    (hchain : Chain s.mem.records CleanupNode.next pool.cleanups pending)
    (hapart : pending.Pairwise (Separate P)) (hrounds : pending.length ≤ rounds) :
    ∃ s', cleanupRunAll env rounds p s = .ok s' ∧ Swept P p pool pending s s' := by
  have hstart : Sweeping P p pool pending s pending pool.cleanups s := by
    refine ⟨hchain, hapart, fun _ hr => hr, ⟨pool, .refl pool, ?_⟩, fun _ _ => rfl, rfl⟩
    rw [← hpool, Function.update_eq_self]
  have hrun : Yields (rounds < pending.length ∨ False)
      (runCleanups env p rounds pool.cleanups s) _ :=
    runCleanups_rule (fun h => h.chain.head_eq) (fun h => h.next hq) hstart
  obtain ⟨s₁, hs₁, h₁⟩ :=
    hrun.exists_ok fun hfail => hfail.elim (Nat.not_lt.mpr hrounds) id
  obtain ⟨_, ⟨free, large, rfl⟩, hpools₁⟩ := h₁.pools
  have hpool₁ := congrFun hpools₁ p
  rw [Function.update_self] at hpool₁
  unfold cleanupRunAll
  rw [State.getPool_bind hpool, hs₁]
  refine ⟨_, State.getPool_bind hpool₁ _, ⟨free, large, ?_⟩, h₁.records, ?_⟩
  · simp only [State.setPool_mem, Memory.setPool, hpools₁, Function.update_idem]
    rfl
  · have hcalled := h₁.called
    rw [entries_nil, List.append_nil] at hcalled
    exact hcalled

/-! ## Pools that are cleared -/

def Pool.cleared (pool : Pool) (free : Option Ref) : Pool :=
  { pool.rewind with cleanups := none, freeCleanups := free }

/-- The pools were cleared in this order, and nothing else was changed. -/
structure Cleared (P : Platform) (pendings : Nat → List Ref) (order : List Nat) (s s' : State) :
    Prop where
  pools : ∀ q ∈ order, ∀ pool, s.mem.pools q = some pool →
    ∃ free, s'.mem.pools q = some (pool.cleared free)
  others : ∀ q, q ∉ order → s'.mem.pools q = s.mem.pools q
  records : ∀ x, (∀ q ∈ order, ∀ r ∈ pendings q, Separate P r x) →
    s'.mem.records x = s.mem.records x
  called : called s'.events = called s.events ++ order.flatMap fun q => entries s.mem (pendings q)

/-- The pending cleanup nodes of the pools share no memory. -/
structure Clearable (P : Platform) (m : Memory) (pendings : Nat → List Ref) (order : List Nat) :
    Prop where
  pools : ∀ q ∈ order, ∃ pool, m.pools q = some pool ∧
    Chain m.records CleanupNode.next pool.cleanups (pendings q)
  apart : (order.flatMap pendings).Pairwise (Separate P)

theorem Cleared.nil (s : State) : Cleared P pendings [] s s :=
  ⟨fun _ hq => absurd hq List.not_mem_nil, fun _ _ => rfl, fun _ _ => rfl,
    (List.append_nil _).symm⟩

theorem Clearable.subset (h : Clearable P m pendings order) (hsub : order'.Sublist order) :
    Clearable P m pendings order' where
  pools q hq := h.pools q (hsub.subset hq)
  apart := h.apart.sublist (hsub.flatMap pendings)

theorem Clearable.across (h : Clearable P m pendings (order ++ order')) {r x : Ref}
    (hp : p ∈ order) (hr : r ∈ pendings p) (hq : q ∈ order') (hx : x ∈ pendings q) :
    Separate P r x := by
  have hapart := h.apart
  rw [List.flatMap_append, List.pairwise_append] at hapart
  exact hapart.2.2 r (List.mem_flatMap.mpr ⟨p, hp, hr⟩) x (List.mem_flatMap.mpr ⟨q, hq, hx⟩)

theorem Cleared.clearable (h : Cleared P pendings order s s')
    (hlists : Clearable P s.mem pendings (order ++ order')) (hdisjoint : ∀ q ∈ order', q ∉ order) :
    Clearable P s'.mem pendings order' ∧
      ∀ q ∈ order', entries s'.mem (pendings q) = entries s.mem (pendings q) := by
  have hsame : ∀ q ∈ order', SameRecords s.mem s'.mem (pendings q) := fun q hq x hx =>
    h.records x fun p hp r hr => hlists.across hp hr hq hx
  have hrest := hlists.subset (List.sublist_append_right order order')
  refine ⟨⟨fun q hq => ?_, hrest.apart⟩, fun q hq => (hsame q hq).entries⟩
  obtain ⟨pool, hpool, hchain⟩ := hrest.pools q hq
  exact ⟨pool, (h.others q (hdisjoint q hq)).trans hpool, hchain.congr_cells (hsame q hq)⟩

theorem Cleared.append (h : Cleared P pendings order s s')
    (h' : Cleared P pendings order' s' s'')
    (hlists : Clearable P s.mem pendings (order ++ order')) (hdisjoint : ∀ q ∈ order', q ∉ order) :
    Cleared P pendings (order ++ order') s s'' where
  pools q hq pool hpool := by
    by_cases hq' : q ∈ order'
    · exact h'.pools q hq' pool ((h.others q (hdisjoint q hq')).trans hpool)
    · obtain ⟨free, hfree⟩ := h.pools q ((List.mem_append.mp hq).resolve_right hq') pool hpool
      exact ⟨free, (h'.others q hq').trans hfree⟩
  others q hq := by
    rw [List.mem_append, not_or] at hq
    exact (h'.others q hq.2).trans (h.others q hq.1)
  records x hx := by
    have hfirst := h.records x fun q hq => hx q (List.mem_append_left _ hq)
    exact (h'.records x fun q hq => hx q (List.mem_append_right _ hq)).trans hfirst
  called := by
    obtain ⟨-, hentries⟩ := h.clearable hlists hdisjoint
    rw [h'.called, h.called, List.flatMap_append, List.append_assoc,
      List.flatMap_congr fun q hq => hentries q hq]

theorem Cleared.links (h : Cleared P pendings order s s')
    (hlists : Clearable P s.mem pendings order) : s'.mem.links = s.mem.links := by
  funext q
  by_cases hq : q ∈ order
  · obtain ⟨pool, hpool, -⟩ := hlists.pools q hq
    obtain ⟨free, hfree⟩ := h.pools q hq pool hpool
    rw [Memory.links, Memory.links, hpool, hfree]
    rfl
  · rw [Memory.links, Memory.links, h.others q hq]

/-! ## One pool and those below it -/

theorem Swept.others (h : Swept P p pool (pendings p) s s') (hq : q ≠ p) :
    s'.mem.pools q = s.mem.pools q := by
  obtain ⟨free, large, hpools⟩ := h.pools
  rw [hpools, Function.update_of_ne hq]

theorem Swept.links (h : Swept P p pool (pendings p) s s') (hpool : s.mem.pools p = some pool) :
    s'.mem.links = s.mem.links := by
  obtain ⟨free, large, hpools⟩ := h.pools
  funext q
  by_cases hq : q = p
  · rw [hq, Memory.links, Memory.links, hpools, Function.update_self, hpool]
    rfl
  · rw [Memory.links, Memory.links, h.others hq]

theorem Swept.below (h : Swept P p pool (pendings p) s s')
    (hlists : Clearable P s.mem pendings (p :: order)) :
    ∀ q ∈ order, SameRecords s.mem s'.mem (pendings q) := by
  have hboth : Clearable P s.mem pendings ([p] ++ order) := hlists
  exact fun _ hq x hx => h.records x fun _ hr =>
    hboth.across (List.mem_singleton_self p) hr hq hx

theorem Swept.clearable (h : Swept P p pool (pendings p) s s')
    (hlists : Clearable P s.mem pendings (p :: order)) (hp : p ∉ order) :
    Clearable P s'.mem pendings order := by
  refine ⟨fun q hq => ?_, (hlists.subset (List.sublist_cons_self p order)).apart⟩
  obtain ⟨pool', hpool', hchain⟩ := hlists.pools q (List.mem_cons_of_mem p hq)
  have hother := h.others fun heq => hp (heq ▸ hq)
  exact ⟨pool', hother.trans hpool', hchain.congr_cells (h.below hlists q hq)⟩

theorem Swept.cleared (h : Swept P p pool (pendings p) s s')
    (h' : Cleared P pendings order s' s'') (hpool : s.mem.pools p = some pool)
    (hlists : Clearable P s.mem pendings (p :: order)) (hp : p ∉ order) :
    ∃ idle, s''.mem.pools p = some idle ∧
      Cleared P pendings (p :: order) s ((s''.setPool p idle.rewind).unlock P idle.mutex) := by
  obtain ⟨free, large, hpools⟩ := h.pools
  have hne : ∀ q ∈ order, q ≠ p := fun q hq heq => hp (heq ▸ hq)
  have hself := (h'.others p hp).trans (congrFun hpools p)
  rw [Function.update_self] at hself
  refine ⟨_, hself, fun q hq pool' hpool' => ?_, fun q hq => ?_, fun x hx => ?_, ?_⟩
  · rw [State.unlock_mem, State.setPool_mem]
    rcases List.mem_cons.mp hq with rfl | hq
    · rw [hpool] at hpool'
      cases hpool'
      exact ⟨free, Memory.setPool_self ..⟩
    · rw [Memory.setPool_of_ne _ _ (hne q hq)]
      exact h'.pools q hq pool' ((h.others (hne q hq)).trans hpool')
  · rw [List.mem_cons, not_or] at hq
    rw [State.unlock_mem, State.setPool_mem, Memory.setPool_of_ne _ _ hq.1]
    exact (h'.others q hq.2).trans (h.others hq.1)
  · rw [State.unlock_mem, State.setPool_mem, Memory.setPool_records]
    exact (h'.records x fun q hq => hx q (List.mem_cons_of_mem p hq)).trans
      (h.records x (hx p (List.mem_cons_self ..)))
  · rw [(Aside.unlock p _ _).called, (Aside.setPool p _ s'').called, h'.called, h.called,
      List.flatMap_cons, List.append_assoc,
      List.flatMap_congr fun q hq => (h.below hlists q hq).entries]

/-- A pool is cleared, once that holds of those below it. -/
theorem clear_one (hq : env.Quiet) (hpool : s.mem.pools p = some pool)
    (howner : P.threadSafety = true → pool.owner = thread)
    (hrounds : (pendings p).length ≤ rounds) (hlists : Clearable P s.mem pendings (p :: order))
    (hp : p ∉ order)
    (hchildren : ∀ s₁ : State, s₁.mem.links = s.mem.links →
      (∀ q ∈ order, s₁.mem.pools q = s.mem.pools q) → Clearable P s₁.mem pendings order →
      ∃ s₂, forChildren (clear env rounds depth thread) rounds pool.child s₁ = .ok s₂ ∧
        Cleared P pendings order s₁ s₂) :
    ∃ s', clear env rounds (depth + 1) thread p s = .ok s' ∧
      Cleared P pendings (p :: order) s s' := by
  obtain ⟨pool', hpool', hchain⟩ := hlists.pools p (List.mem_cons_self ..)
  rw [hpool] at hpool'
  cases hpool'
  have hapart := (List.pairwise_append.mp hlists.apart).1
  have hmem : (s.lock P pool.mutex).mem = s.mem := State.lock_mem ..
  obtain ⟨s₁, hok₁, hswept⟩ := cleanupRunAll_swept (s := s.lock P pool.mutex) hq (by rwa [hmem])
    (by rwa [hmem]) hapart hrounds
  have h₁ : Swept P p pool (pendings p) s s₁ := by
    obtain ⟨hpools, hrecords, hcalled⟩ := hswept
    rw [hmem] at hpools hrecords hcalled
    rw [(Aside.lock p s pool.mutex).called] at hcalled
    exact ⟨hpools, hrecords, hcalled⟩
  obtain ⟨s₂, hok₂, h₂⟩ := hchildren s₁ (h₁.links hpool)
    (fun q hq => h₁.others fun heq => hp (heq ▸ hq)) (h₁.clearable hlists hp)
  obtain ⟨idle, hidle, hcleared⟩ := h₁.cleared h₂ hpool hlists hp
  obtain ⟨free, large, hpools₁⟩ := h₁.pools
  have hself₁ := congrFun hpools₁ p
  rw [Function.update_self] at hself₁
  refine ⟨_, ?_, hcleared⟩
  unfold clear
  rw [State.getPool_bind hpool, if_neg fun hother => hother.2 (howner hother.1)]
  change (cleanupRunAll env rounds p (s.lock P pool.mutex) >>= _) = _
  rw [hok₁]
  change (s₁.getPool p >>= _) = _
  rw [State.getPool_bind hself₁]
  change (forChildren (clear env rounds depth thread) rounds pool.child s₁ >>= _) = _
  rw [hok₂]
  exact State.getPool_bind hidle _

/-! ## The walk -/

theorem clearChildren_cleared (hq : env.Quiet) {f : Family Nat} {ptr : Option Nat}
    (hlinked : Family.Linked s.mem.links f ptr) (hnodup : f.members.Nodup)
    (hlists : Clearable P s.mem pendings f.members)
    (hwalk : Walk P False thread rounds s.mem pendings f loop depth) :
    ∃ s', forChildren (clear env rounds depth thread) loop ptr s = .ok s' ∧
      Cleared P pendings f.members s s' := by
  induction f generalizing depth loop ptr s with
  | nil =>
      cases hlinked
      cases loop <;> exact ⟨s, rfl, Cleared.nil s⟩
  | node a c b ihc ihb =>
      obtain ⟨rfl, child, brother, hlinks, hlc, hlb⟩ := hlinked
      have hself : a ∈ (Family.node a c b).members := List.mem_cons_self ..
      simp only [Family.members, List.nodup_cons, List.nodup_append, List.mem_append, not_or]
        at hnodup
      obtain ⟨⟨hac, hab⟩, hcn, hbn, hcb⟩ := hnodup
      obtain ⟨pool, hpool, -⟩ := hlists.pools a hself
      rw [Memory.links, hpool, Option.map_some, Option.some_inj, Pool.links, Prod.mk.injEq]
        at hlinks
      obtain ⟨rfl, rfl⟩ := hlinks
      obtain ⟨hloop, hdepth⟩ := hwalk.positive not_false
      obtain ⟨loop, rfl⟩ := Nat.exists_eq_succ_of_ne_zero hloop.ne'
      obtain ⟨depth, rfl⟩ := Nat.exists_eq_succ_of_ne_zero hdepth.ne'
      have hboth : Clearable P s.mem pendings ((a :: c.members) ++ b.members) := hlists
      have hnot : ∀ q ∈ b.members, q ∉ a :: c.members := fun q hqb hmem => by
        rcases List.mem_cons.mp hmem with rfl | hqc
        · exact hab hqb
        · exact hcb q hqc q hqb rfl
      obtain ⟨s₁, hok₁, h₁⟩ := clear_one (s := s.log (.readPool a)) hq hpool
        (hwalk.owner a hself pool hpool) (hwalk.nodes not_false a hself)
        (hboth.subset (List.sublist_append_left ..)) hac fun s₁ hlinks₁ hpools₁ hlists₁ =>
          ihc (hlinks₁ ▸ hlc) hcn hlists₁ (hwalk.children hpools₁ fun _ _ => rfl)
      replace h₁ : Cleared P pendings (a :: c.members) s s₁ :=
        ⟨h₁.pools, h₁.others, h₁.records, h₁.called.trans (by rw [called_log rfl s]; rfl)⟩
      have hlinks₁ := h₁.links (hboth.subset (List.sublist_append_left ..))
      obtain ⟨s₂, hok₂, h₂⟩ := ihb (hlinks₁ ▸ hlb) hbn (h₁.clearable hboth hnot).1
        (hwalk.brothers fun q hqb => h₁.others q (hnot q hqb))
      refine ⟨s₂, ?_, h₁.append h₂ hboth hnot⟩
      unfold forChildren
      rw [State.getPool_bind hpool, hok₁]
      exact hok₂

/-! ## A subtree -/

/-- The pools were cleared, and the pools and the cleanup nodes of others are as they were. -/
structure OnlyCleared (P : Platform) (pendings : Nat → List Ref) (order : List Nat)
    (s s' : State) : Prop where
  inside : ∀ q ∈ order, ∃ pool pool', s.mem.pools q = some pool ∧ s'.mem.pools q = some pool' ∧
    pool'.cleanups = none ∧ getFreeSize P pool' = getSize P pool' ∧
    (∀ i, pool'.nodes i = (pool.nodes i).map Memnode.rewind) ∧
    pool'.parent = pool.parent ∧ pool'.child = pool.child ∧ pool'.brother = pool.brother
  /-- the pending handlers of the pools, each once -/
  called : called s'.events = called s.events ++ order.flatMap fun q => entries s.mem (pendings q)
  outside : ∀ q, q ∉ order → s'.mem.pools q = s.mem.pools q
  records : ∀ x, (∀ q ∈ order, ∀ r ∈ pendings q, Separate P r x) →
    s'.mem.records x = s.mem.records x

theorem cleared_sizes (P : Platform) (pool : Pool) (free : Option Ref) :
    getFreeSize P (pool.cleared free) = getSize P (pool.cleared free) := by
  rw [getFreeSize, getSize, sumNodes_eq, sumNodes_eq]
  refine congrArg (fun sizes => P.wrap (List.sum sizes)) (List.map_congr_left fun n hn => ?_)
  obtain ⟨i, -, hi⟩ := List.mem_flatMap.mp hn
  obtain ⟨n', -, rfl⟩ := List.mem_map.mp hi
  rfl

theorem Cleared.only (h : Cleared P pendings order s s')
    (hlists : Clearable P s.mem pendings order) : OnlyCleared P pendings order s s' where
  inside q hq := by
    obtain ⟨pool, hpool, -⟩ := hlists.pools q hq
    obtain ⟨free, hfree⟩ := h.pools q hq pool hpool
    exact ⟨pool, pool.cleared free, hpool, hfree, rfl, cleared_sizes P pool free, fun _ => rfl,
      rfl, rfl, rfl⟩
  called := h.called
  outside := h.others
  records := h.records

theorem Inv.clearable {contents : Contents} {forest : Forest} {frees : Nat → List Ref}
    (h : Inv P contents thread m forest pendings frees) {root : Nat × Family Nat}
    (hroot : root ∈ forest) : Clearable P m pendings (Forest.tree root).members := by
  have hmem : ∀ q ∈ (Forest.tree root).members, q ∈ forest.members := fun q hq =>
    Forest.mem_members.mpr ⟨root, hroot, hq⟩
  have hnodup : (Forest.tree root).members.Nodup := (List.nodup_flatMap.mp h.nodup).1 root hroot
  refine ⟨fun q hq => ?_, List.pairwise_flatMap.mpr ⟨fun q hq => ?_, ?_⟩⟩
  · obtain ⟨pool, hpool, hok, -⟩ := h.held.pools q (hmem q hq)
    exact ⟨pool, hpool, hok.pendingChain⟩
  · obtain ⟨pool, -, hok, -⟩ := h.held.pools q (hmem q hq)
    exact (List.pairwise_append.mp hok.records).1
  · refine hnodup.imp_of_mem fun hp hq hne r hr x hx => ?_
    exact h.held.separate (hmem _ hp) (hmem _ hq) hne (List.mem_append_left _ hr)
      (List.mem_append_left _ hx)

def twoCleanups : List Call :=
  [.use ⟨.create 100 none, 0, 0⟩, .use ⟨.create 100 (some firstPool), 0, 0⟩,
    .use ⟨.cleanupAdd firstPool 7 1, 0, 0⟩, .use ⟨.cleanupAdd childPool 8 2, 0, 0⟩]

/-! ## A whole tree -/

/-- With enough rounds and depth, clearing any pool of a tree clears this pool and those below
it, and nothing else. -/
theorem clear_subtree (hq : env.Quiet) {f : Family Nat} {root : Option Nat}
    (htree : Family.Linked s.mem.links f root) (hnodup : f.members.Nodup)
    (howner : ∀ q ∈ f.members, ∀ pool, s.mem.pools q = some pool → P.threadSafety = true →
      pool.owner = thread)
    (hlists : Clearable P s.mem pendings f.members) :
    ∃ bound, ∀ rounds depth, bound ≤ rounds → bound ≤ depth → ∀ p ∈ f.members,
      ∃ s', clear env rounds depth thread p s = .ok s' ∧
        OnlyCleared P pendings (p :: (f.offspring p).members) s s' := by
  refine ⟨f.members.length + (f.members.map fun q => (pendings q).length).sum,
    fun rounds depth hrounds hdepth p hp => ?_⟩
  have hnodes : ∀ q ∈ f.members, (pendings q).length ≤ rounds := fun q hq => by
    have hle : (pendings q).length ≤ (f.members.map fun q => (pendings q).length).sum :=
      List.le_sum_of_mem (List.mem_map_of_mem hq)
    omega
  have hpos := List.length_pos_of_mem hp
  obtain ⟨depth, rfl⟩ : ∃ d, depth = d + 1 := ⟨depth - 1, by omega⟩
  have hsub : ∀ q ∈ (f.offspring p).members, q ∈ f.members := fun q hq =>
    Family.offspring_subset hq
  obtain ⟨hpc, hcn⟩ := List.nodup_cons.mp (Family.nodup_offspring hnodup hp)
  have hlength : (p :: (f.offspring p).members).length ≤ f.members.length :=
    (List.subperm_of_subset (Family.nodup_offspring hnodup hp)
      (List.cons_subset.mpr ⟨hp, hsub⟩)).length_le
  rw [List.length_cons] at hlength
  obtain ⟨child, brother, hlinks, hlinked⟩ := htree.offspring hp
  have hbelow : Clearable P s.mem pendings (p :: (f.offspring p).members) :=
    hlists.subset (Family.offspring_sublist hp)
  obtain ⟨pool, hpool, -⟩ := hlists.pools p hp
  rw [Memory.links, hpool, Option.map_some, Option.some_inj, Pool.links, Prod.mk.injEq] at hlinks
  obtain ⟨rfl, rfl⟩ := hlinks
  obtain ⟨s', hok, hcleared⟩ := clear_one hq hpool (howner p hp pool hpool)
    (hnodes p hp) hbelow hpc fun s₁ hlinks₁ hpools₁ hlists₁ =>
      have hwalk : Walk P False thread rounds s₁.mem pendings (f.offspring p) rounds depth :=
        ⟨fun q hqc pool' hpool' => howner q (hsub q hqc) pool' ((hpools₁ q hqc) ▸ hpool'),
          fun _ q hqc => hnodes q (hsub q hqc), fun _ => by omega, fun _ => by omega,
          fun _ => by omega⟩
      clearChildren_cleared hq (hlinks₁ ▸ hlinked) hcn hlists₁ hwalk
  exact ⟨s', hok, hcleared.only hbelow⟩

theorem clear_subtree_two : ∃ w pendings, run (World.step (bump lp64 .abstract) 1) World.empty
      twoCleanups = some w ∧ w.forest.members = [firstPool, childPool] ∧
    ∃ bound, ∀ rounds depth, bound ≤ rounds → bound ≤ depth →
      ∀ p ∈ (Family.node firstPool (.node childPool .nil .nil) .nil).members,
        ∃ s', clear (bump lp64 .abstract) rounds depth 1 p w.state = .ok s' ∧
          OnlyCleared lp64 pendings (p :: ((Family.node firstPool
            (.node childPool .nil .nil) .nil).offspring p).members) w.state s' := by
  have hmeets : Meets (World.step (bump lp64 .abstract) 1) (CallSmall lp64) World.empty
      twoCleanups :=
    ⟨trivial, fun _ _ => ⟨trivial, fun _ _ => ⟨trivial, fun _ _ => ⟨trivial, fun _ _ => trivial⟩⟩⟩⟩
  obtain ⟨w, hw⟩ : ∃ w, run (World.step (bump lp64 .abstract) 1) World.empty twoCleanups = some w :=
    ⟨_, rfl⟩
  obtain ⟨pendings, frees, h⟩ :=
    (visits_holds_abstract (bump_quiet _) rfl hmeets).last hw
  have hforest : w.forest = [(firstPool, .node childPool .nil .nil)] := by
    cases hw
    rfl
  have hroot : (firstPool, Family.node childPool .nil .nil) ∈ w.forest :=
    hforest ▸ List.mem_singleton_self _
  refine ⟨w, pendings, hw, by rw [hforest]; rfl, ?_⟩
  exact clear_subtree (bump_quiet _) (h.linked _ hroot) (by decide)
    (fun q hq => h.owner q (Forest.mem_members.mpr ⟨_, hroot, hq⟩)) (h.clearable hroot)

end Floppix.Pools
