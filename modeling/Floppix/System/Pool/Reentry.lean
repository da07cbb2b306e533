import Floppix.System.Pool.Entries

/-! # Registrations by handlers that run

The loop of `fpx_pool_cleanup_run_all` has read the pointer to the next node before it
calls a handler, and drops the list at its end. A node that is registered meanwhile goes
in front of a list that the loop has left: it is taken from the free ones and belongs to
no list any more.
-/

namespace Floppix.Pools

open Layout LinkedList Outcome

variable {P : Platform} {env : Environment P} {m : Memory} {p : Nat} {pool pool' : Pool}
  {ps : List Nat} {pendings frees frees' : Nat → List Ref} {s s' s'' : State} {r : Ref}
  {c : CleanupNode} {ptr : Option Ref} {k : Nat}

def registered (env : Environment P) (es : List Entry) : List Registration :=
  es.flatMap fun e => registers env e.1 e.2

theorem registered_cons (e : Entry) (es : List Entry) :
    registered env (e :: es) = registers env e.1 e.2 ++ registered env es := rfl

theorem runHandler_registers {data id : Nat} (hce : c.entry = (data, .user id)) (s : State) :
    runHandler env p c s = (registers env data (.user id)).foldlM
      (fun s reg => cleanupAdd env reg.pool reg.data (.user reg.id) s) (s.log (.run id data)) := by
  obtain ⟨next, data', handler⟩ := c
  cases hce
  rfl

/-! ## The state as the loop sees it -/

/-- The pending cleanups begin where the loop is. -/
def State.aim (s : State) (p : Nat) (ptr : Option Ref) : State :=
  match s.mem.pools p with
  | some pool => s.setPool p (pool.aim ptr)
  | none => s

theorem State.aim_ok (hpool : s.mem.pools p = some pool) :
    s.aim p ptr = s.setPool p (pool.aim ptr) := by
  rw [State.aim, hpool]

theorem State.setPool_setPool (s : State) (p : Nat) (pool pool' : Pool) :
    (s.setPool p pool).setPool p pool' = s.setPool p pool' := by
  rw [State.setPool, State.setPool_mem, Memory.setPool_setPool]
  rfl

theorem State.setPool_lock (s : State) (p : Nat) (pool : Pool) (mutex : Nat) :
    (s.setPool p pool).lock P mutex = (s.lock P mutex).setPool p pool := by
  unfold State.lock
  split <;> rfl

theorem State.unlock_aim (s : State) (p : Nat) (ptr : Option Ref) (mutex : Nat) :
    (s.unlock P mutex).aim p ptr = (s.aim p ptr).unlock P mutex := by
  unfold State.unlock
  split
  · unfold State.aim
    rw [State.log_mem]
    cases s.mem.pools p <;> rfl
  · rfl

theorem State.setPool_aim (s : State) (p : Nat) (pool : Pool) (ptr : Option Ref) :
    (s.setPool p pool).aim p ptr = s.setPool p (pool.aim ptr) := by
  rw [State.aim_ok (Memory.setPool_self ..), State.setPool_setPool]

theorem memnodeAllocate_setPool (size : Nat) (s : State) (p : Nat) (pool : Pool) :
    memnodeAllocate env size (s.setPool p pool) =
      ((memnodeAllocate env size s).1, (memnodeAllocate env size s).2.setPool p pool) := by
  unfold memnodeAllocate malloc
  have hanswer : env.malloc (s.setPool p pool).mem.mallocs (s.setPool p pool).mem.live size =
      env.malloc s.mem.mallocs s.mem.live size := rfl
  rw [hanswer]
  cases env.malloc s.mem.mallocs s.mem.live size <;> rfl

theorem pallocSlots_aim (a requested : Nat) (record : Bool) (ptr : Option Ref)
    (hpool : s.mem.pools p = some pool) :
    pallocSlots env p a requested record (s.setPool p (pool.aim ptr)) =
      (pallocSlots env p a requested record s).map fun x => (x.1, x.2.aim p ptr) := by
  have haim := Memory.setPool_self s.mem p (pool.aim ptr)
  have hnodes : (pool.aim ptr).nodes = pool.nodes := rfl
  have hmutex : (pool.aim ptr).mutex = pool.mutex := rfl
  unfold pallocSlots
  rw [State.getPool_bind haim, State.getPool_bind hpool]
  simp only [hnodes, hmutex, State.setPool_lock, State.setPool_setPool, memnodeAllocate_setPool]
  cases findFit a pool.nodes (slotsFrom (P.getNpages a - 1)) with
  | some fit =>
      simp only [Except.map, State.unlock_aim, State.setPool_aim]
      rfl
  | none =>
      have hpools := memnodeAllocate_pools env (P.getNpages a * P.pageSize) (s.lock P pool.mutex)
      rw [State.lock_mem] at hpools
      cases hm : memnodeAllocate env (P.getNpages a * P.pageSize) (s.lock P pool.mutex) with
      | mk node s₁ =>
          rw [hm] at hpools
          have hpool₁ : s₁.mem.pools p = some pool := (congrFun hpools p).trans hpool
          cases node with
          | none => simp only [Except.map, State.unlock_aim, State.aim_ok hpool₁]
          | some node =>
              simp only [Except.map, State.unlock_aim, State.setPool_aim, State.setPool_setPool]
              unfold Pool.register
              split <;> rfl

theorem takeRecord_aim (ptr : Option Ref) (hpool : s.mem.pools p = some pool) :
    takeRecord env p (s.setPool p (pool.aim ptr)) =
      (takeRecord env p s).map fun x => (x.1, x.2.aim p ptr) := by
  have haim := Memory.setPool_self s.mem p (pool.aim ptr)
  have hfree : (pool.aim ptr).freeCleanups = pool.freeCleanups := rfl
  unfold takeRecord
  rw [State.getPool_bind haim, State.getPool_bind hpool]
  simp only [hfree]
  cases pool.freeCleanups with
  | some r =>
      have hget : (s.setPool p (pool.aim ptr)).getRecord r = s.getRecord r := rfl
      simp only [hget]
      cases s.getRecord r with
      | error e => rfl
      | ok c =>
          change Except.ok _ = Except.ok (r, State.aim (s.setPool p _) p ptr)
          rw [State.setPool_aim, State.setPool_setPool]
          rfl
  | none =>
      simp only [pallocSlots_aim _ _ _ ptr hpool]
      have hplaces := pallocSlots_places env p (P.alignAllocation P.sizeofCleanup)
        P.sizeofCleanup true s
      cases hok : pallocSlots env p (P.alignAllocation P.sizeofCleanup) P.sizeofCleanup true s with
      | error e => rfl
      | ok x =>
          obtain ⟨mem, s₁⟩ := x
          obtain ⟨pool₁, hpool₁⟩ := ((hplaces.of_ok hok).some_iff p).mpr ⟨pool, hpool⟩
          cases mem with
          | none => rfl
          | some mem =>
              let s₂ : State := { s₁ with
                mem := { s₁.mem with recordCount := s₁.mem.recordCount + 1 } }
              have hcounted : s₂.aim p ptr = s₂.setPool p (pool₁.aim ptr) := State.aim_ok hpool₁
              change Except.ok (_, _) = Except.ok (_, s₂.aim p ptr)
              rw [hcounted]
              simp only [State.aim_ok hpool₁]
              rfl

/-! ## Registrations that are lost -/

structure Midway (env : Environment P) (ps : List Nat) (pendings frees : Nat → List Ref) (p : Nat)
    (ptr : Option Ref) (k : Nat) (pool : Pool) (s : State) : Prop where
  here : s.mem.pools p = some pool
  held : Held P env.contents (s.mem.setPool p (pool.aim ptr)) ps pendings frees
  room : Room P pool (pendings p) (frees p) k

/-- The other pools, their lists and their cleanup nodes stay as they are. -/
structure Elsewhere (ps : List Nat) (p : Nat) (pendings frees : Nat → List Ref) (s : State)
    (pendings' frees' : Nat → List Ref) (s' : State) : Prop where
  pools : ∀ q, q ≠ p → s'.mem.pools q = s.mem.pools q
  pending : ∀ q, q ≠ p → pendings' q = pendings q
  free : ∀ q, q ≠ p → frees' q = frees q
  records : ∀ q ∈ ps, q ≠ p → SameRecords s.mem s'.mem (pendings q ++ frees q)

theorem Elsewhere.refl (ps : List Nat) (p : Nat) (pendings frees : Nat → List Ref) (s : State) :
    Elsewhere ps p pendings frees s pendings frees s :=
  ⟨fun _ _ => rfl, fun _ _ => rfl, fun _ _ => rfl, fun _ _ _ => .refl _ _⟩

theorem Elsewhere.trans {pendings' pendings'' frees'' : Nat → List Ref}
    (h : Elsewhere ps p pendings frees s pendings' frees' s')
    (h' : Elsewhere ps p pendings' frees' s' pendings'' frees'' s'') :
    Elsewhere ps p pendings frees s pendings'' frees'' s'' where
  pools q hq := (h'.pools q hq).trans (h.pools q hq)
  pending q hq := (h'.pending q hq).trans (h.pending q hq)
  free q hq := (h'.free q hq).trans (h.free q hq)
  records q hmem hq := by
    have hrest := h'.records q hmem hq
    rw [h.pending q hq, h.free q hq] at hrest
    exact (h.records q hmem hq).trans hrest

theorem Added.elsewhere {rest : List Ref} {e : Entry}
    (h : Added env ps pendings frees p e pool pool' r rest s s') :
    Elsewhere ps p pendings frees s (Function.update pendings p (r :: pendings p))
      (Function.update frees p rest) s' :=
  ⟨h.aside.pools, fun _ hq => Function.update_of_ne hq _ _,
    fun _ hq => Function.update_of_ne hq _ _, h.others⟩

/-- A registration in the loop takes a node that no list has then. -/
theorem cleanupAdd_lost {data id : Nat} (hp : p ∈ ps)
    (h : Midway env ps pendings frees p ptr (k + 1) pool s) :
    Yields (¬ env.Succeeds) (cleanupAdd env p data (.user id) s) fun s' => ∃ pool' frees',
      Midway env ps pendings frees' p ptr k pool' s' ∧
        Elsewhere ps p pendings frees s pendings frees' s' ∧
        SameRecords s.mem s'.mem (pendings p) ∧ called s'.events = called s.events := by
  obtain ⟨hpool, hheld, hroom⟩ := h
  have hpool₀ : (s.lock P pool.mutex).mem.pools p = some pool := by rwa [State.lock_mem]
  have hheld₀ : Held P env.contents ((s.lock P pool.mutex).setPool p (pool.aim ptr)).mem ps
      pendings frees := by rwa [State.setPool_mem, State.lock_mem]
  have hroom₀ : Room P (pool.aim ptr) (pendings p) (frees p) (k + 1) := hroom
  have haim := takeRecord_taken hheld₀ hp (Memory.setPool_self ..)
    (hheld₀.addSafe hp (Memory.setPool_self ..) hroom₀)
  rw [takeRecord_aim ptr hpool₀] at haim
  have htake := (haim.of_map.and (takeRecord_aside p _)).and (takeRecord_places env p _)
  rw [cleanupAdd, State.getPool_bind hpool]
  apply htake.bind
  intro x _ hx
  obtain ⟨r, s₁⟩ := x
  obtain ⟨⟨⟨pool₀, rest, ht, -, hanchors⟩, haside⟩, hplaces⟩ := hx
  obtain ⟨pool₁, hpool₁⟩ := (hplaces.some_iff p).mpr ⟨pool, hpool₀⟩
  simp only at ht hanchors haside hpool₁
  rw [State.aim_ok hpool₁, State.setPool_mem, State.setPool_mem, State.lock_mem] at ht
  have hsame := ht.here
  rw [Memory.setPool_self, Option.some_inj] at hsame
  subst hsame
  simp only [State.getPool_ok hpool₁]
  -- what is written is separate from all lists
  have hwrite : ∀ q ∈ ps, ∀ x ∈ pendings q ++ Function.update frees p rest q, Separate P r x := by
    intro q hq x hx
    by_cases hqp : q = p
    · subst hqp
      rw [Function.update_self] at hx
      exact ht.loose.separate x hx
    · rw [Function.update_of_ne hqp] at hx
      exact ht.others q hq hqp x hx
  have hdone := ((Aside.lock p s _).trans haside).trans
    (.push (P := P) p r ⟨pool₁.cleanups, data, .user id⟩ { pool₁ with cleanups := some r } s₁
      pool₁.mutex)
  refine Yields.ok ⟨{ pool₁ with cleanups := some r }, Function.update frees p rest,
    ⟨by simp, ?_, ?_⟩, ⟨hdone.pools, fun _ _ => rfl, fun q hq => Function.update_of_ne hq _ _,
      fun q hq hqp x hx => ?_⟩, fun x hx => ?_, hdone.called⟩
  · rw [State.unlock_mem, State.setPool_mem, Memory.setPool_setPool]
    refine ht.held.of_records rfl rfl (Nat.le_refl _) fun q hq x hx => ?_
    exact Memory.setRecord_of_separate _ _ (hwrite q hq x hx)
  · rw [Function.update_self]
    exact (ht.room hheld hp (Memory.setPool_self ..) hanchors hroom₀).1
  all_goals
    rw [State.unlock_mem]
    refine (Memory.setRecord_of_separate _ _ ?_).trans (congrFun ht.records x)
  · apply hwrite q hq x
    rwa [Function.update_of_ne hqp]
  · exact hwrite p hp x (List.mem_append_left _ hx)

theorem registrations_lost {regs : List Registration} (hp : p ∈ ps)
    (hown : ∀ reg ∈ regs, reg.pool = p)
    (h : Midway env ps pendings frees p ptr (regs.length + k) pool s) :
    Yields (¬ env.Succeeds ∧ regs ≠ [])
      (regs.foldlM (fun s reg => cleanupAdd env reg.pool reg.data (.user reg.id) s) s)
      fun s' => ∃ pool' frees', Midway env ps pendings frees' p ptr k pool' s' ∧
        Elsewhere ps p pendings frees s pendings frees' s' ∧
        SameRecords s.mem s'.mem (pendings p) ∧ called s'.events = called s.events := by
  induction regs generalizing s pool frees with
  | nil =>
      rw [List.length_nil, Nat.zero_add] at h
      exact Yields.ok ⟨pool, frees, h, .refl .., .refl _ _, rfl⟩
  | cons reg regs ih =>
      obtain ⟨hreg, hown⟩ := List.forall_mem_cons.mp hown
      rw [List.length_cons, Nat.add_right_comm] at h
      rw [List.foldlM_cons, hreg]
      refine ((cleanupAdd_lost hp h).weaken fun hfail => ⟨hfail, List.cons_ne_nil _ _⟩).bind
        fun s₁ _ h₁ => ?_
      obtain ⟨pool₁, frees₁, hmid₁, helse₁, hpending₁, hcalled₁⟩ := h₁
      refine ((ih hown hmid₁).weaken fun hfail => ⟨hfail.1, List.cons_ne_nil _ _⟩).mono
        fun s₂ _ h₂ => ?_
      obtain ⟨pool₂, frees₂, hmid₂, helse₂, hpending₂, hcalled₂⟩ := h₂
      exact ⟨pool₂, frees₂, hmid₂, helse₁.trans helse₂, hpending₁.trans hpending₂,
        hcalled₂.trans hcalled₁⟩

/-! ## The loop -/

theorem Room.reserve {us vs free : List Ref} (h : Room P pool (us ++ r :: vs) free k)
    (hnodes : pool'.nodes = pool.nodes) : Room P pool' (us ++ vs) (r :: free) k := by
  rcases h with hanchored | hle
  · apply Or.inl
    intro q hq
    unfold Anchored
    rw [hnodes]
    apply hanchored q
    simp only [List.mem_append, List.mem_cons] at hq ⊢
    tauto
  · exact Or.inr (Nat.le_succ_of_le hle)

theorem Room.mono {pending free : List Ref} {l : Nat} (h : Room P pool pending free k)
    (hle : l ≤ k) : Room P pool pending free l :=
  h.imp_right fun hk => Nat.le_trans hle hk

structure Round (env : Environment P) (ps : List Nat) (pendings frees : Nat → List Ref) (p : Nat)
    (s : State) (c : CleanupNode) (rest : List Ref) (s' : State) : Prop where
  midway : ∃ pool' frees',
    Midway env ps (Function.update pendings p rest) frees' p c.next
        (registered env (entries s.mem rest)).length pool' s' ∧
      Elsewhere ps p pendings frees s (Function.update pendings p rest) frees' s'
  records : SameRecords s.mem s'.mem rest
  called : called s'.events = called s.events ++ [c.entry]

/-- The first pending node is separate from the others, also from those of other pools. -/
theorem Held.first_separate {contents : Contents} {rest : List Ref}
    (h : Held P contents m ps pendings frees) (hp : p ∈ ps) (hpending : pendings p = r :: rest) :
    (∀ x ∈ rest, Separate P r x) ∧
      ∀ q ∈ ps, q ≠ p → ∀ x ∈ pendings q ++ frees q, Separate P r x := by
  obtain ⟨pool, hpool, hok, -⟩ := h.pools p hp
  have hmem : r ∈ pendings p ++ frees p := by simp [hpending]
  rw [hpending] at hok
  refine ⟨fun x hx => ?_, fun q hq hqp x hx => h.separate hp hq hqp.symm hmem hx⟩
  exact (pairwise_head hok.records).1 x (List.mem_append_left _ hx)

theorem calm_round {rest : List Ref} (hp : p ∈ ps) (hpending : pendings p = r :: rest)
    (hpool : s.mem.pools p = some pool) (hc : s.mem.records r = some c)
    (hquiet : registers env c.data c.handler = [])
    (h : Held P env.contents (s.mem.setPool p (pool.aim (some r))) ps pendings frees) :
    ∃ s' pool', (runHandler env p c (s.log (.readRecord r.addr)) >>= reserveRecord P p r) = .ok s' ∧
      s'.mem.pools p = some pool' ∧ pool'.nodes = pool.nodes ∧
      Held P env.contents (s'.mem.setPool p (pool'.aim c.next)) ps (Function.update pendings p rest)
        (Function.update frees p (r :: frees p)) ∧
      Elsewhere ps p pendings frees s (Function.update pendings p rest)
        (Function.update frees p (r :: frees p)) s' ∧
      SameRecords s.mem s'.mem rest ∧ called s'.events = called s.events ++ [c.entry] := by
  have hquiet' : ∀ c', s.mem.records r = some c' → registers env c'.data c'.handler = [] :=
    fun c' hc' => by
      rw [hc] at hc'
      cases hc'
      exact hquiet
  obtain ⟨c', rest', s₁, s₂, pool₂, hpending', hc', hrun, hreserve, hevents, hpools, hnodes,
    hrecords, hheld₂⟩ := cleanup_round hquiet' hp hpool h
  rw [hpending] at hpending'
  rw [hc] at hc'
  cases hpending'
  cases hc'
  obtain ⟨hsep, hother⟩ := h.first_separate hp hpending
  refine ⟨s₂, pool₂, by rw [hrun]; exact hreserve, ?_, hnodes.nodes, hheld₂, ?_,
    fun x hx => hrecords x (hsep x hx), ?_⟩
  · rw [hpools, Function.update_self]
  · refine ⟨fun q hq => ?_, fun q hq => Function.update_of_ne hq _ _,
      fun q hq => Function.update_of_ne hq _ _, fun q hq hqp x hx => ?_⟩
    · rw [hpools, Function.update_of_ne hq]
    · exact hrecords x (hother q hq hqp x hx)
  · have hone : called [Event.readRecord r.addr, c.event] = [c.entry] := c.called_event
    rw [hevents, called_append, hone]

theorem quiet_round {rest : List Ref} (hp : p ∈ ps) (hpending : pendings p = r :: rest)
    (hc : s.mem.records r = some c) (hquiet : registers env c.data c.handler = [])
    (h : Midway env ps pendings frees p (some r) (registered env (entries s.mem rest)).length pool
      s) :
    ∃ s', (runHandler env p c (s.log (.readRecord r.addr)) >>= reserveRecord P p r) = .ok s' ∧
      Round env ps pendings frees p s c rest s' := by
  obtain ⟨hpool, hheld, hroom⟩ := h
  obtain ⟨s', pool', hok, hpool', hnodes, hheld', helse, hrecords, hcalled⟩ :=
    calm_round hp hpending hpool hc hquiet hheld
  refine ⟨s', hok, ⟨pool', _, ⟨hpool', hheld', ?_⟩, helse⟩, hrecords, hcalled⟩
  rw [Function.update_self, Function.update_self]
  rw [hpending, ← List.nil_append (r :: rest)] at hroom
  exact hroom.reserve hnodes

theorem user_round {rest : List Ref} (hp : p ∈ ps) (hpending : pendings p = r :: rest)
    (hpool : s.mem.pools p = some pool) (hc : s.mem.records r = some c)
    (h : Held P env.contents (s.mem.setPool p (pool.aim (some r))) ps pendings frees) :
    ∃ s' pool', reserveRecord P p r s = .ok s' ∧ s'.mem.pools p = some pool' ∧
      pool'.nodes = pool.nodes ∧
      Held P env.contents (s'.mem.setPool p (pool'.aim c.next)) ps (Function.update pendings p rest)
        (Function.update frees p (r :: frees p)) ∧
      Elsewhere ps p pendings frees s (Function.update pendings p rest)
        (Function.update frees p (r :: frees p)) s' ∧
      SameRecords s.mem s'.mem rest ∧ s'.events = s.events := by
  have haim := Memory.setPool_self s.mem p (pool.aim (some r))
  have hsplit : pendings p = [] ++ r :: rest := hpending
  obtain ⟨s', hs', hevents, hpools, hrecords, hheld⟩ :=
    reserve_round h hp haim hpending (h.handled_skip hp haim hsplit) hpool hc rfl rfl rfl
      fun x => (Function.update_idem ..).symm
  obtain ⟨hsep, hother⟩ := h.first_separate hp hpending
  refine ⟨s', { pool with freeCleanups := some r }, hs', ?_, rfl, hheld,
    ⟨fun q hq => ?_, fun q hq => Function.update_of_ne hq _ _,
      fun q hq => Function.update_of_ne hq _ _, fun q hq hqp x hx => ?_⟩,
    fun x hx => hrecords x (hsep x hx), hevents⟩
  · rw [hpools, Function.update_self]
  · rw [hpools, Function.update_of_ne hq]
  · exact hrecords x (hother q hq hqp x hx)

theorem loud_round {rest : List Ref} {id : Nat} (hp : p ∈ ps) (hpending : pendings p = r :: rest)
    (hc : s.mem.records r = some c) (hid : c.handler = .user id)
    (hown : ∀ reg ∈ registers env c.data c.handler, reg.pool = p)
    (h : Midway env ps pendings frees p (some r)
      ((registers env c.data c.handler).length + (registered env (entries s.mem rest)).length)
      pool s) :
    Yields (¬ env.Succeeds ∧ registers env c.data c.handler ≠ [])
      (runHandler env p c (s.log (.readRecord r.addr)) >>= reserveRecord P p r)
      (Round env ps pendings frees p s c rest) := by
  have hce : c.entry = (c.data, .user id) := by rw [CleanupNode.entry, hid]
  rw [hid] at hown h ⊢
  have hstart : Midway env ps pendings frees p (some r) _ pool
      ((s.log (.readRecord r.addr)).log (.run id c.data)) := ⟨h.here, h.held, h.room⟩
  rw [runHandler_registers hce]
  apply (registrations_lost hp hown hstart).bind
  intro s₁ _ h₁
  obtain ⟨pool₁, frees₁, ⟨hpool₁, hheld₁, hroom₁⟩, helse₁, hsame₁, hcalled₁⟩ := h₁
  have hc₁ : s₁.mem.records r = some c := by
    rw [hsame₁ r (by simp [hpending])]
    exact hc
  obtain ⟨s₂, pool₂, hs₂, hpool₂, hnodes₂, hheld₂, helse₂, hsame₂, hevents₂⟩ :=
    user_round hp hpending hpool₁ hc₁ hheld₁
  rw [hs₂]
  refine Yields.ok ⟨⟨pool₂, _, ⟨hpool₂, hheld₂, ?_⟩, ?_⟩, ?_, ?_⟩
  · rw [Function.update_self, Function.update_self]
    rw [hpending, ← List.nil_append (r :: rest)] at hroom₁
    exact hroom₁.reserve hnodes₂
  · have helse : Elsewhere ps p pendings frees s pendings frees₁ s₁ :=
      ⟨helse₁.pools, helse₁.pending, helse₁.free, helse₁.records⟩
    exact helse.trans helse₂
  · have hrest : rest ⊆ pendings p := hpending ▸ List.subset_cons_self r rest
    exact SameRecords.trans (hsame₁.subset hrest) hsame₂
  · have hone : called [Event.run id c.data] = [c.entry] := hce.symm ▸ rfl
    rw [hevents₂, hcalled₁, State.log, called_append, hone]
    exact congrArg (· ++ [c.entry]) (called_log rfl s)

theorem lost_round {rest : List Ref} (hp : p ∈ ps) (hpending : pendings p = r :: rest)
    (hc : s.mem.records r = some c)
    (hown : ∀ reg ∈ registers env c.data c.handler, reg.pool = p)
    (h : Midway env ps pendings frees p (some r)
      ((registers env c.data c.handler).length + (registered env (entries s.mem rest)).length)
      pool s) :
    Yields (¬ env.Succeeds ∧ registers env c.data c.handler ≠ [])
      (runHandler env p c (s.log (.readRecord r.addr)) >>= reserveRecord P p r)
      (Round env ps pendings frees p s c rest) := by
  cases hid : c.handler with
  | user id => exact hid ▸ loud_round hp hpending hc hid hown h
  | free =>
      have hquiet : registers env c.data c.handler = [] := by rw [hid]; rfl
      rw [hquiet, List.length_nil, Nat.zero_add] at h
      obtain ⟨s', hok, hround⟩ := quiet_round hp hpending hc hquiet h
      rw [hok]
      exact hround

/-! ## All cleanups -/

/-- Where the loop is: its nodes are those that were pending but for the ones that were
called, and there is room for what their handlers register. -/
structure Losing (env : Environment P) (ps : List Nat) (pendings frees : Nat → List Ref) (p : Nat)
    (s : State) (rs : List Ref) (ptr : Option Ref) (s' : State) : Prop where
  midway : ∃ pool' frees', Midway env ps (Function.update pendings p rs) frees' p ptr
      (registered env (entries s'.mem rs)).length pool' s' ∧
    Elsewhere ps p pendings frees s (Function.update pendings p rs) frees' s'
  called : called s'.events ++ entries s'.mem rs = called s.events ++ entries s.mem (pendings p)
  own : ∀ reg ∈ registered env (entries s'.mem rs), reg.pool = p
  loud : registered env (entries s'.mem rs) ≠ [] →
    registered env (entries s.mem (pendings p)) ≠ []

theorem Losing.chain {rs : List Ref} (hp : p ∈ ps)
    (h : Losing env ps pendings frees p s rs ptr s') :
    Chain s'.mem.records CleanupNode.next ptr rs := by
  obtain ⟨pool', frees', hmid, -⟩ := h.midway
  have hchain := (hmid.held.poolOk hp (Memory.setPool_self ..)).pendingChain
  rwa [Function.update_self] at hchain

theorem Losing.next {rest : List Ref} (hp : p ∈ ps)
    (h : Losing env ps pendings frees p s (r :: rest) (some r) s') :
    ∃ c, s'.mem.records r = some c ∧
      Yields (¬ env.Succeeds ∧ registered env (entries s.mem (pendings p)) ≠ [])
        (runHandler env p c (s'.log (.readRecord r.addr)) >>= reserveRecord P p r)
        (Losing env ps pendings frees p s rest c.next) := by
  obtain ⟨-, c, hc, -⟩ := h.chain hp
  obtain ⟨⟨pool', frees', hmid, helse⟩, hcalled, hown, hloud⟩ := h
  have hpending : Function.update pendings p (r :: rest) p = r :: rest := Function.update_self ..
  rw [entries_cons hc, registered_cons] at hmid hown hloud
  rw [entries_cons hc] at hcalled
  rw [List.length_append] at hmid
  obtain ⟨hself, hrest⟩ := List.forall_mem_append.mp hown
  refine ⟨c, hc, ((lost_round hp hpending hc hself hmid).weaken fun hfail => ⟨hfail.1,
    hloud fun hnil => hfail.2 (List.append_eq_nil_iff.mp hnil).1⟩).mono fun s₁ _ h₁ => ?_⟩
  obtain ⟨⟨pool₁, frees₁, hmid₁, helse₁⟩, hrecords₁, hcalled₁⟩ := h₁
  rw [Function.update_idem, ← hrecords₁.entries] at hmid₁
  rw [Function.update_idem] at helse₁
  refine ⟨⟨pool₁, frees₁, hmid₁, helse.trans helse₁⟩, ?_, ?_, ?_⟩ <;> rw [hrecords₁.entries]
  · rw [hcalled₁, List.append_assoc]
    exact hcalled
  · exact hrest
  · exact fun hne => hloud fun hnil => hne (List.append_eq_nil_iff.mp hnil).2

/-- The loop calls the handlers that were pending, and what they register is in no list at
its end. -/
theorem runCleanups_lost {rounds : Nat} (hp : p ∈ ps)
    (hown : ∀ reg ∈ registered env (entries s.mem (pendings p)), reg.pool = p)
    (h : Midway env ps pendings frees p ptr
      (registered env (entries s.mem (pendings p))).length pool s) :
    Yields (rounds < (pendings p).length ∨
        ¬ env.Succeeds ∧ registered env (entries s.mem (pendings p)) ≠ [])
      (runCleanups env p rounds ptr s) (Losing env ps pendings frees p s [] none) := by
  have hstart : Losing env ps pendings frees p s (pendings p) ptr s := by
    refine ⟨⟨pool, frees, ?_, ?_⟩, rfl, hown, id⟩
    · rwa [Function.update_eq_self]
    · rw [Function.update_eq_self]
      exact .refl ..
  exact runCleanups_rule (J := Losing env ps pendings frees p s)
    (fun h => (h.chain hp).head_eq) (Losing.next hp) hstart

/-- What the loop over the pending cleanups of a pool needs: their handlers register in
this pool, and there is room for that. -/
structure Ready (env : Environment P) (m : Memory) (p : Nat) (pool : Pool)
    (pending free : List Ref) : Prop where
  own : ∀ reg ∈ registered env (entries m pending), reg.pool = p
  room : Room P pool pending free (registered env (entries m pending)).length

/-- `fpx_pool_cleanup_run_all`: no cleanup is pending at its end. -/
theorem cleanupRunAll_lost {rounds : Nat} (h : Held P env.contents s.mem ps pendings frees)
    (hp : p ∈ ps) (hpool : s.mem.pools p = some pool)
    (hready : Ready env s.mem p pool (pendings p) (frees p)) :
    Yields (rounds < (pendings p).length ∨
        ¬ env.Succeeds ∧ registered env (entries s.mem (pendings p)) ≠ [])
      (cleanupRunAll env rounds p s) fun s' => ∃ frees',
        Held P env.contents s'.mem ps (Function.update pendings p []) frees' ∧
          Elsewhere ps p pendings frees s (Function.update pendings p []) frees' s' ∧
          called s'.events = called s.events ++ entries s.mem (pendings p) := by
  have haim : s.mem.setPool p (pool.aim pool.cleanups) = s.mem := Memory.setPool_eq hpool
  rw [← haim] at h
  unfold cleanupRunAll
  rw [State.getPool_bind hpool]
  apply (runCleanups_lost hp hready.own ⟨hpool, h, hready.room⟩).bind
  intro s₁ _ h₁
  obtain ⟨⟨pool₁, frees₁, ⟨hpool₁, hheld₁, -⟩, helse₁⟩, hcalled₁, -, -⟩ := h₁
  rw [entries_nil, List.append_nil] at hcalled₁
  rw [State.getPool_bind hpool₁]
  refine Yields.ok ⟨frees₁, hheld₁, ⟨fun q hq => ?_, helse₁.pending, helse₁.free,
    helse₁.records⟩, hcalled₁⟩
  exact (Memory.setPool_of_ne _ _ hq).trans (helse₁.pools q hq)

end Floppix.Pools
