import Floppix.System.Pool.Matching

/-! # Registrations over a pending node

Where a registration carves its node over a pending one, the pool's pointer leads to fewer
nodes than were pending and registered. The other registrations and the end of
`fpx_pool_cleanup_run1` do not change this.
-/

namespace Floppix.Pools

open Layout LinkedList Outcome

variable {P : Platform} {env : Environment P} {m : Memory} {p : Nat} {pool pool' : Pool}
  {ps : List Nat} {pendings frees : Nat → List Ref} {s s' : State} {r : Ref} {c : CleanupNode}
  {rs qs xs : List Ref} {regs : List Registration} {n data id rounds : Nat} {handler : Handler}

/-! ## What the pool's pointer leads to -/

/-- The pool's pointer leads to these nodes, and so do their own. -/
structure Within (m : Memory) (p : Nat) (rs : List Ref) : Prop where
  head : ∀ pool q, m.pools p = some pool → pool.cleanups = some q → m.records q ≠ none → q ∈ rs
  next : ∀ r ∈ rs, ∀ c, m.records r = some c → ∀ q, c.next = some q → m.records q ≠ none → q ∈ rs

theorem Within.chain_subset (h : Within m p rs) {ptr : Option Ref}
    (hptr : ∀ q, ptr = some q → m.records q ≠ none → q ∈ rs)
    (hchain : Chain m.records CleanupNode.next ptr qs) : qs ⊆ rs := by
  induction qs generalizing ptr with
  | nil => exact List.nil_subset _
  | cons q qs ih =>
      obtain ⟨rfl, c, hc, hrest⟩ := hchain
      have hq : q ∈ rs := hptr q rfl (by simp [hc])
      exact List.cons_subset.mpr ⟨hq, ih (h.next q hq c hc) hrest⟩

theorem Held.within {contents : Contents} (h : Held P contents m ps pendings frees) (hp : p ∈ ps) :
    Within m p (pendings p) := by
  refine ⟨fun pool q hpool hq _ => ?_, fun r hr c hc q hq _ => ?_⟩
  · have hchain := (h.poolOk hp hpool).pendingChain
    rw [hq] at hchain
    obtain ⟨-, rest, hlist, -, -⟩ := hchain.uncons
    rw [hlist]
    exact List.mem_cons_self ..
  · obtain ⟨pool, -, hok, -⟩ := h.pools p hp
    obtain ⟨us, vs, hlist⟩ := List.append_of_mem hr
    have hchain := hok.pendingChain
    rw [hlist] at hchain ⊢
    obtain ⟨-, c', hc', hrest⟩ := hchain.suffix
    rw [hc] at hc'
    cases hc'
    rw [hq] at hrest
    obtain ⟨-, rest, rfl, -, -⟩ := hrest.uncons
    simp

/-- At most so many nodes are reached, these among them as far as they hold anything. -/
def Reaches (m : Memory) (p : Nat) (xs : List Ref) (n : Nat) : Prop :=
  ∃ rs, Within m p rs ∧ rs.length ≤ n ∧ ∀ x ∈ xs, m.records x ≠ none → x ∈ rs

/-- A node is written in front of the others. -/
theorem Within.push (h : Within m p rs) (hpool : m.pools p = some pool)
    (hnext : c.next = pool.cleanups) (hcleanups : pool'.cleanups = some r) (hr : r ∈ qs)
    (hsub : qs ⊆ r :: rs) (hkept : ∀ x ∈ rs, (m.setRecord P r c).records x ≠ none → x ∈ qs) :
    Within ((m.setRecord P r c).setPool p pool') p qs := by
  have hlead : ∀ q, (m.setRecord P r c).records q ≠ none → (m.records q ≠ none → q ∈ rs) →
      q ∈ qs := by
    intro q hq hmem
    obtain ⟨c', hc'⟩ := Option.ne_none_iff_exists'.mp hq
    rcases Memory.setRecord_some hc' with ⟨rfl, -⟩ | ⟨-, hc⟩
    · exact hr
    · exact hkept q (hmem (by simp [hc])) hq
  refine ⟨fun pool'' q hpool'' hq _ => ?_, fun x hx c' hc' q hq hsome => ?_⟩
  · rw [Memory.setPool_self, Option.some_inj] at hpool''
    subst hpool''
    rw [hcleanups, Option.some_inj] at hq
    exact hq ▸ hr
  · rcases Memory.setRecord_some hc' with ⟨rfl, rfl⟩ | ⟨-, hc⟩
    · exact hlead q hsome (h.head pool q hpool (hnext ▸ hq))
    · refine hlead q hsome fun hqm => ?_
      rcases List.mem_cons.mp (hsub hx) with rfl | hxrs
      · rw [Memory.setPool_records, Memory.setRecord_self, Option.some_inj] at hc'
        subst hc'
        exact h.head pool q hpool (hnext ▸ hq) hqm
      · exact h.next x hxrs c' hc q hq hqm

/-! ## Registrations, wherever their nodes are carved -/

theorem takeRecord_same (hpool : s.mem.pools p = some pool) :
    Yields True (takeRecord env p s) fun x => x.2.mem.records = s.mem.records ∧
      (∃ pool', x.2.mem.pools p = some pool' ∧ pool'.cleanups = pool.cleanups) ∧
      (pool.freeCleanups = none → env.contents = .inMemory →
        ∀ fit, pool.fit P (P.alignAllocation P.sizeofCleanup) = some fit →
          x.1 = ⟨fit.node.firstAvail, 0⟩) := by
  rw [takeRecord, State.getPool_bind hpool]
  cases hfree : pool.freeCleanups with
  | some r =>
      refine (getRecord_yields s r).bind fun c _ _ => Yields.ok ?_
      exact ⟨rfl, ⟨_, Memory.setPool_self .., rfl⟩, fun hnone => absurd hnone (by simp)⟩
  | none =>
      cases hfit : pool.fit P (P.alignAllocation P.sizeofCleanup) with
      | some fit =>
          obtain ⟨s', hok, hmem⟩ := pallocSlots_fit env P.sizeofCleanup true hpool hfit
          simp only [hok]
          refine Yields.ok ⟨by rw [hmem]; rfl,
            ⟨pool.carve P fit (P.alignAllocation P.sizeofCleanup) P.sizeofCleanup true,
              (congrArg (·.pools p) hmem).trans (Memory.setPool_self ..), rfl⟩,
            fun _ hcontents fit' hfit' => ?_⟩
          cases hfit'
          simp only [hcontents]
      | none =>
          cases hanswer : env.answer s.mem
              (P.getNpages (P.alignAllocation P.sizeofCleanup) * P.pageSize) with
          | none =>
              obtain ⟨s', hok, -⟩ := pallocSlots_refused P.sizeofCleanup true hpool hfit hanswer
              simp only [hok]
              exact Yields.error trivial
          | some mem =>
              obtain ⟨s', hok, hmem⟩ := pallocSlots_granted P.sizeofCleanup true hpool hfit hanswer
              simp only [hok]
              refine Yields.ok ⟨by rw [hmem]; rfl,
                ⟨_, (congrArg (·.pools p) hmem).trans (Memory.setPool_self ..), ?_⟩,
                fun _ _ fit' hfit' => ?_⟩
              · rw [P.npages_cleanup, Pool.register, if_neg (by decide)]
              · cases hfit'

/-- A registration writes a node in front of the pending ones. -/
theorem cleanupAdd_writes (hpool : s.mem.pools p = some pool) :
    Yields True (cleanupAdd env p data handler s) fun s' =>
      ∃ (m : Memory) (r : Ref) (c : CleanupNode) (pool' pool'' : Pool),
      s'.mem = (m.setRecord P r c).setPool p pool'' ∧ m.records = s.mem.records ∧
      m.pools p = some pool' ∧ pool'.cleanups = pool.cleanups ∧ c.next = pool'.cleanups ∧
      pool''.cleanups = some r ∧ called s'.events = called s.events ∧
      (pool.freeCleanups = none → env.contents = .inMemory →
        ∀ fit, pool.fit P (P.alignAllocation P.sizeofCleanup) = some fit →
          r = ⟨fit.node.firstAvail, 0⟩) := by
  have hpool₀ : (s.lock P pool.mutex).mem.pools p = some pool := by rwa [State.lock_mem]
  rw [cleanupAdd, State.getPool_bind hpool]
  apply ((takeRecord_same hpool₀).and (takeRecord_aside p _)).bind
  intro x _ hx
  obtain ⟨r, s₁⟩ := x
  obtain ⟨⟨hrecords, ⟨pool', hpool', hcleanups⟩, hplace⟩, haside⟩ := hx
  simp only [State.getPool_ok hpool']
  refine Yields.ok ⟨s₁.mem, r, ⟨pool'.cleanups, data, handler⟩, pool',
    { pool' with cleanups := some r }, by simp, ?_, hpool', hcleanups, rfl, rfl, ?_, hplace⟩
  · rw [hrecords, State.lock_mem]
  · exact (((Aside.lock p s _).trans haside).trans (.push p r _ _ s₁ _)).called

/-- The pool's pointer leads to one node more at most. -/
theorem cleanupAdd_reaches (hpool : s.mem.pools p = some pool) (h : Reaches s.mem p xs n) :
    Yields True (cleanupAdd env p data handler s) fun s' => Reaches s'.mem p xs (n + 1) ∧
      (∃ pool', s'.mem.pools p = some pool') ∧ called s'.events = called s.events := by
  refine (cleanupAdd_writes hpool).mono fun s' _ hs' => ?_
  obtain ⟨m, r, c, pool', pool'', hmem, hrecords, hpool', hcleanups, hnext, hhead, hcalled, -⟩ :=
    hs'
  obtain ⟨rs, hwithin, hlength, hkept⟩ := h
  have hwithin' : Within m p rs := by
    refine ⟨fun pool₀ q hpool₀ hq hsome => ?_, ?_⟩
    · rw [hpool'] at hpool₀
      cases hpool₀
      exact hwithin.head pool q hpool (hcleanups ▸ hq) (hrecords ▸ hsome)
    · rw [hrecords]
      exact hwithin.next
  refine ⟨⟨r :: rs, ?_, Nat.succ_le_succ hlength, fun x hx hsome => ?_⟩, ⟨pool'', ?_⟩, hcalled⟩
  · rw [hmem]
    exact hwithin'.push hpool' hnext hhead (List.mem_cons_self ..) (List.Subset.refl _)
      fun x hx _ => List.mem_cons_of_mem r hx
  · by_cases hxr : x = r
    · exact hxr ▸ List.mem_cons_self ..
    · refine List.mem_cons_of_mem r (hkept x hx fun hnone => hsome ?_)
      rw [hmem, Memory.setPool_records, Memory.setRecord]
      simp only [if_neg hxr, hrecords, hnone, ite_self]
  · rw [hmem, Memory.setPool_self]

theorem registrations_reach (hown : ∀ reg ∈ regs, reg.pool = p) (hpool : s.mem.pools p = some pool)
    (h : Reaches s.mem p xs n) :
    Yields True (regs.foldlM (fun s reg => cleanupAdd env reg.pool reg.data (.user reg.id) s) s)
      fun s' => Reaches s'.mem p xs (n + regs.length) ∧ called s'.events = called s.events := by
  induction regs generalizing s pool n with
  | nil => exact Yields.ok ⟨h, rfl⟩
  | cons reg regs ih =>
      obtain ⟨hreg, hown⟩ := List.forall_mem_cons.mp hown
      rw [List.foldlM_cons, hreg]
      apply (cleanupAdd_reaches hpool h).bind
      intro s₁ _ h₁
      obtain ⟨hreaches₁, ⟨pool₁, hpool₁⟩, hcalled₁⟩ := h₁
      refine (ih hown hpool₁ hreaches₁).mono fun s₂ _ h₂ => ?_
      rw [List.length_cons, ← Nat.add_assoc, Nat.add_right_comm]
      exact ⟨h₂.1, h₂.2.trans hcalled₁⟩

/-! ## A registration over a pending node -/

/-- The pending node is lost, or the new one takes its place. -/
theorem cleanupAdd_misplaced (hfull : P.alignAllocation P.sizeofCleanup = P.sizeofCleanup)
    (h : Held P env.contents s.mem ps pendings frees) (hp : p ∈ ps)
    (hpool : s.mem.pools p = some pool)
    (hsafe : ¬ AddSafe P pool (· ∈ pendings p ++ frees p)) :
    Yields True (cleanupAdd env p data handler s) fun s' =>
      Reaches s'.mem p (pendings p) (pendings p).length ∧ (∃ pool', s'.mem.pools p = some pool') ∧
        called s'.events = called s.events := by
  obtain ⟨hnone, hcarve⟩ := Classical.not_imp.mp hsafe
  simp only [CarveSafe, not_forall] at hcarve
  obtain ⟨fit, hfit, q, hq, ht, hover⟩ := hcarve
  have hok := h.poolOk hp hpool
  have hfree := hok.freeChain
  rw [hnone] at hfree
  rw [hfree.eq_nil, List.append_nil] at hq
  have hcontents : env.contents = .inMemory := by
    have htag := hok.tags q (List.mem_append_left _ hq)
    cases hcase : env.contents with
    | inMemory => rfl
    | abstract =>
        rw [hcase] at htag
        exact absurd ht (Nat.pos_iff_ne_zero.mp htag.1)
  refine (cleanupAdd_writes hpool).mono fun s' _ hs' => ?_
  obtain ⟨m, r, c, pool', pool'', hmem, hrecords, hpool', hcleanups, hnext, hhead, hcalled,
    hplace⟩ := hs'
  have hr := hplace hnone hcontents fit hfit
  rw [hfull] at hover
  have hlost : r ≠ q → (m.setRecord P r c).records q = none := fun hne => by
    rw [Memory.setRecord]
    simp only [if_neg (Ne.symm hne)]
    refine if_pos ⟨by rw [hr], fun huntouched => hover ?_⟩
    have hapart := huntouched ht
    rwa [hr] at hapart
  have hwithin : Within m p (pendings p) := by
    have hheld := h.within hp
    refine ⟨fun pool₀ x hpool₀ hx hsome => ?_, ?_⟩
    · rw [hpool'] at hpool₀
      cases hpool₀
      exact hheld.head pool x hpool (hcleanups ▸ hx) (hrecords ▸ hsome)
    · rw [hrecords]
      exact hheld.next
  refine ⟨?_, ⟨pool'', by rw [hmem, Memory.setPool_self]⟩, hcalled⟩
  rw [hmem]
  by_cases hrq : r = q
  · refine ⟨pendings p, hwithin.push hpool' hnext hhead (hrq ▸ hq) (List.subset_cons_self ..)
      fun x hx _ => hx, Nat.le_refl _, fun x hx _ => hx⟩
  · have hkept : ∀ x ∈ pendings p, (m.setRecord P r c).records x ≠ none →
        x ∈ r :: (pendings p).erase q := fun x hx hsome => by
      have hxq : x ≠ q := by
        rintro rfl
        exact hsome (hlost hrq)
      exact List.mem_cons_of_mem r ((List.mem_erase_of_ne hxq).mpr hx)
    refine ⟨r :: (pendings p).erase q, hwithin.push hpool' hnext hhead (List.mem_cons_self ..)
      (List.cons_subset_cons r (List.erase_subset ..)) hkept, ?_, hkept⟩
    have hpos := List.length_pos_of_mem hq
    rw [List.length_cons, List.length_erase_of_mem hq]
    omega

/-- Of the registrations one goes over a pending node. -/
theorem registrations_misplaced (hfull : P.alignAllocation P.sizeofCleanup = P.sizeofCleanup)
    (hown : ∀ reg ∈ regs, reg.pool = p) (h : Held P env.contents s.mem ps pendings frees)
    (hp : p ∈ ps) (hpool : s.mem.pools p = some pool) (hplaced : ¬ PlacedApart env p regs s) :
    Yields True (regs.foldlM (fun s reg => cleanupAdd env reg.pool reg.data (.user reg.id) s) s)
      fun s' => (∃ n < (pendings p).length + regs.length, Reaches s'.mem p (pendings p) n) ∧
        called s'.events = called s.events := by
  induction regs generalizing s pool pendings frees with
  | nil => exact absurd trivial hplaced
  | cons reg regs ih =>
      obtain ⟨hreg, hown⟩ := List.forall_mem_cons.mp hown
      rw [List.foldlM_cons, hreg]
      by_cases hsafe : AddSafe P pool (· ∈ pendings p ++ frees p)
      · apply ((cleanupAdd_added h hp hpool hsafe).weaken fun _ => trivial).bind
        intro s₁ hok₁ h₁
        obtain ⟨pool₁, r, rest, hadded⟩ := h₁
        have hplaced₁ : ¬ PlacedApart env p regs s₁ := fun hplaced₁ => hplaced
          ⟨fun pool' hpool' => by
            rw [hpool] at hpool'
            cases hpool'
            rwa [(h.poolOk hp hpool).listed_eq],
          fun s' hok' => by
            rw [hok₁] at hok'
            cases hok'
            exact hplaced₁⟩
        refine (ih hown hadded.held hadded.here hplaced₁).mono fun s₂ _ h₂ => ?_
        obtain ⟨⟨n, hn, rs, hwithin, hlength, hkept⟩, hcalled⟩ := h₂
        rw [Function.update_self] at hn hkept
        refine ⟨⟨n, ?_, rs, hwithin, hlength, fun x hx => hkept x (List.mem_cons_of_mem r hx)⟩,
          hcalled.trans hadded.aside.called⟩
        rw [List.length_cons] at hn ⊢
        omega
      · apply (cleanupAdd_misplaced hfull h hp hpool hsafe).bind
        intro s₁ _ h₁
        obtain ⟨hreaches₁, ⟨pool₁, hpool₁⟩, hcalled₁⟩ := h₁
        refine (registrations_reach hown hpool₁ hreaches₁).mono fun s₂ _ h₂ => ?_
        refine ⟨⟨_, ?_, h₂.1⟩, h₂.2.trans hcalled₁⟩
        rw [List.length_cons]
        omega

/-! ## The end of `fpx_pool_cleanup_run1` -/

/-- The node that leaves the list is none of those that stay. -/
theorem unlinkRecord_reaches (prev : Option Ref) (h : Reaches s.mem p [r] n) :
    Yields True (unlinkRecord P p prev r s) fun s' =>
      ∀ es, ListsHold s'.mem p es → es.length < n := by
  obtain ⟨rs, hwithin, hlength, hkept⟩ := h
  have hdetach : Yields True (detachRecord P p prev r s) fun s₁ =>
      Within s₁.mem p rs ∧ r ∈ rs := by
    apply (getPool_yields s p).bind
    intro pool _ hpool
    apply (getRecord_yields s r).bind
    intro c _ hc
    have hr : r ∈ rs := hkept r (List.mem_singleton_self r) (by simp [hc])
    split
    · refine Yields.ok ⟨⟨fun pool' q hpool' hq => ?_, hwithin.next⟩, hr⟩
      rw [State.setPool_mem, Memory.setPool_self, Option.some_inj] at hpool'
      subst hpool'
      exact hwithin.next r hr c hc q hq
    · split
      · exact Yields.error trivial
      · rename_i q
        apply (getRecord_yields s q).bind
        intro cq _ hcq
        have hsome : ∀ x, (s.mem.setRecord P q { cq with next := c.next }).records x ≠ none →
            s.mem.records x ≠ none := fun x hx hnone => by
          by_cases hxq : x = q
          · rw [hxq, hcq] at hnone
            cases hnone
          · refine hx ?_
            rw [Memory.setRecord]
            simp only [if_neg hxq, hnone, ite_self]
        refine Yields.ok ⟨⟨fun pool' x hpool' hx hx' =>
          hwithin.head pool' x hpool' hx (hsome x hx'), fun x hx c' hc' y hy hy' => ?_⟩, hr⟩
        rcases Memory.setRecord_some hc' with ⟨rfl, rfl⟩ | ⟨-, hcx⟩
        · exact hwithin.next r hr c hc y hy (hsome y hy')
        · exact hwithin.next x hx c' hcx y hy (hsome y hy')
  apply hdetach.bind
  intro s₁ _ h₁
  obtain ⟨hwithin₁, hr⟩ := h₁
  rw [reserveRecord, bind_assoc]
  apply (getRecord_yields s₁ r).bind
  intro c _ hc
  rw [bind_assoc]
  apply (getPool_yields s₁ p).bind
  intro pool _ hpool
  refine (getPool_yields _ p).bind fun pool' _ hpool' => Yields.ok fun es hlists => ?_
  rw [State.unlock_mem] at hlists
  obtain ⟨pool'', pending, free, hpool'', hpending, hfree, hnodup, rfl⟩ := hlists
  rw [State.setPool_mem, Memory.setPool_self, Option.some_inj] at hpool''
  subst hpool''
  -- the node is the first free one, so no pending one
  obtain ⟨-, rest, rfl, -, -⟩ := hfree.uncons
  have hnot : r ∉ pending := fun hmem =>
    (List.nodup_append.mp hnodup).2.2 r hmem r (List.mem_cons_self ..) rfl
  have hchain : Chain s₁.mem.records CleanupNode.next pool.cleanups pending := by
    refine hpending.congr fun x hx c' hc' => ⟨c', ?_, rfl⟩
    rcases Memory.setRecord_some hc' with ⟨rfl, -⟩ | ⟨-, hcx⟩
    · exact absurd hx hnot
    · exact hcx
  have hsub := hwithin₁.chain_subset (fun q hq => hwithin₁.head pool q hpool hq) hchain
  have hall : (r :: pending).Nodup :=
    List.nodup_cons.mpr ⟨hnot, (List.nodup_append.mp hnodup).1⟩
  have hle := (List.subperm_of_subset hall (List.cons_subset.mpr ⟨hr, hsub⟩)).length_le
  rw [length_entries hpending]
  rw [List.length_cons] at hle
  omega

theorem cleanupRun_misplaced (hfull : P.alignAllocation P.sizeofCleanup = P.sizeofCleanup)
    (h : Held P env.contents s.mem ps pendings frees) (hp : p ∈ ps)
    (hpool : s.mem.pools p = some pool) (hrounds : (pendings p).length ≤ rounds)
    (he : (data, handler) ∈ entries s.mem (pendings p))
    (hown : ∀ reg ∈ registers env data handler, reg.pool = p)
    (hplaced : ¬ HandlerPlaced env p data handler s) :
    Yields True (cleanupRun env rounds p data handler s) fun s' =>
      called s'.events = called s.events ++ [(data, handler)] ∧ ∀ es, ListsHold s'.mem p es →
        es.length + 1 < (pendings p).length + (registers env data handler).length := by
  have hlock := Aside.lock (P := P) p s pool.mutex
  have hmem : (s.lock P pool.mutex).mem = s.mem := State.lock_mem ..
  obtain ⟨us, r, vs, c, hpending, -, -, hce, hcall⟩ := cleanupRun_found h hp hpool hrounds he
  simp only [HandlerPlaced, not_forall] at hplaced
  obtain ⟨pool', hpool', hplaced⟩ := hplaced
  rw [hpool] at hpool'
  cases hpool'
  cases handler with
  | free => exact absurd trivial hplaced
  | user id =>
      have hheld : Held P env.contents ((s.lock P pool.mutex).log (.run id data)).mem ps pendings
          frees := by rwa [State.log_mem, hmem]
      have hpool₀ : ((s.lock P pool.mutex).log (.run id data)).mem.pools p = some pool := by
        rwa [State.log_mem, hmem]
      rw [hcall, runHandler_registers hce]
      apply (registrations_misplaced hfull hown hheld hp hpool₀ hplaced).bind
      intro s₁ _ h₁
      obtain ⟨⟨n, hn, rs, hwithin, hlength, hkept⟩, hcalled₁⟩ := h₁
      have hr : r ∈ pendings p := by rw [hpending]; simp
      have hreaches : Reaches s₁.mem p [r] n := by
        refine ⟨rs, hwithin, hlength, fun x hx => ?_⟩
        rw [List.mem_singleton.mp hx]
        exact hkept r hr
      refine ((unlinkRecord_reaches us.getLast? hreaches).and
        (unlinkRecord_entries p us.getLast? r s₁)).mono fun s' _ hs' => ⟨?_, fun es hes => ?_⟩
      · rw [hs'.2.1.called, hcalled₁, State.log, called_append, hlock.called]
        rfl
      · exact Nat.lt_of_le_of_lt (hs'.1 es hes) hn

end Floppix.Pools
