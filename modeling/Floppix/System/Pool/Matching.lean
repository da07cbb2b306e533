import Floppix.System.Pool.Reentry
import Floppix.System.Pool.Usage

/-! # Running and removing one cleanup

The search finds the newest pending node with the data and the handler. Its node leaves
the list wherever it is, and what its handler registers meanwhile is in front of the
others. Only the first node must not be followed by a registration: the search has no
node before it.
-/

namespace Floppix.Pools

open Layout LinkedList Outcome

variable {P : Platform} {env : Environment P} {m : Memory} {p : Nat} {pool pool' : Pool}
  {ps : List Nat} {pendings frees frees' : Nat → List Ref} {s s' : State} {r : Ref}
  {c : CleanupNode} {us vs : List Ref} {k data rounds : Nat} {handler : Handler} {e : Entry}

/-! ## The search -/

theorem first_match {ptr : Option Ref} {rs : List Ref}
    (hchain : Chain m.records CleanupNode.next ptr rs) (he : e ∈ entries m rs) :
    ∃ us r vs c, rs = us ++ r :: vs ∧ e ∉ entries m us ∧ m.records r = some c ∧ c.entry = e := by
  induction rs generalizing ptr with
  | nil => cases he
  | cons r rs ih =>
      obtain ⟨-, c, hc, hrest⟩ := hchain
      by_cases heq : c.entry = e
      · exact ⟨[], r, rs, c, rfl, List.not_mem_nil, hc, heq⟩
      · rw [entries_cons hc, List.mem_cons] at he
        obtain ⟨us, r', vs, c', rfl, hus, hc', he'⟩ := ih hrest (he.resolve_left (Ne.symm heq))
        refine ⟨r :: us, r', vs, c', rfl, ?_, hc', he'⟩
        rw [entries_cons hc, List.mem_cons, not_or]
        exact ⟨Ne.symm heq, hus⟩

theorem findRecord_step {q : Ref} {cq : CleanupNode} (prev : Option Ref)
    (hq : s.mem.records q = some cq) (hne : cq.entry ≠ (data, handler)) :
    findRecord data handler s (rounds + 1) prev (some q) =
      findRecord data handler s rounds (some q) cq.next := by
  have hother : ¬ (cq.data = data ∧ cq.handler = handler) := fun heq =>
    hne (Prod.ext heq.1 heq.2)
  rw [findRecord, State.getRecord_bind hq, if_neg hother]

theorem findRecord_found (prev : Option Ref) {ptr : Option Ref}
    (hchain : Chain s.mem.records CleanupNode.next ptr (us ++ r :: vs))
    (hus : (data, handler) ∉ entries s.mem us) (hc : s.mem.records r = some c)
    (he : c.entry = (data, handler)) (hrounds : us.length < rounds) :
    findRecord data handler s rounds prev ptr = .ok (some (us.getLast?.or prev, r)) := by
  induction us generalizing prev ptr rounds with
  | nil =>
      obtain ⟨rounds, rfl⟩ := Nat.exists_eq_add_of_lt hrounds
      obtain ⟨rfl, -⟩ := hchain
      have hmatch : c.data = data ∧ c.handler = handler := Prod.mk.injEq .. ▸ he
      rw [findRecord, State.getRecord_bind hc, if_pos hmatch]
      rfl
  | cons q us ih =>
      obtain ⟨rounds, rfl⟩ := Nat.exists_eq_add_of_lt (Nat.lt_of_le_of_lt (Nat.zero_le _) hrounds)
      obtain ⟨rfl, cq, hq, hrest⟩ := hchain
      rw [entries_cons hq, List.mem_cons, not_or] at hus
      rw [findRecord_step prev hq (Ne.symm hus.1),
        ih (some q) hrest hus.2 (by rw [List.length_cons] at hrounds; omega)]
      cases us <;> simp [List.getLast?_cons]

theorem findRecord_missing (prev : Option Ref) {ptr : Option Ref} {rs : List Ref}
    (hchain : Chain s.mem.records CleanupNode.next ptr rs)
    (hrs : (data, handler) ∉ entries s.mem rs) (hrounds : rs.length ≤ rounds) :
    findRecord data handler s rounds prev ptr = .ok none := by
  induction rs generalizing prev ptr rounds with
  | nil =>
      cases hchain
      cases rounds <;> rfl
  | cons q rs ih =>
      obtain ⟨rounds, rfl⟩ := Nat.exists_eq_add_of_lt
        (Nat.lt_of_lt_of_le (Nat.succ_pos _) hrounds)
      obtain ⟨rfl, cq, hq, hrest⟩ := hchain
      rw [entries_cons hq, List.mem_cons, not_or] at hrs
      rw [findRecord_step prev hq (Ne.symm hrs.1),
        ih (some q) hrest hrs.2 (by rw [List.length_cons] at hrounds; omega)]

/-- Nothing has the entry, or the search finds the first node that has it, and the one
before this. -/
theorem findRecord_cases (data : Nat) (handler : Handler) {ptr : Option Ref} {rs : List Ref}
    (hchain : Chain s.mem.records CleanupNode.next ptr rs) (hrounds : rs.length ≤ rounds) :
    (data, handler) ∉ entries s.mem rs ∧ findRecord data handler s rounds none ptr = .ok none ∨
      ∃ us r vs c, rs = us ++ r :: vs ∧ (data, handler) ∉ entries s.mem us ∧
        s.mem.records r = some c ∧ c.entry = (data, handler) ∧
        findRecord data handler s rounds none ptr = .ok (some (us.getLast?, r)) := by
  by_cases he : (data, handler) ∈ entries s.mem rs
  · obtain ⟨us, r, vs, c, rfl, hus, hc, hce⟩ := first_match hchain he
    have hlt : us.length < rounds := by
      rw [List.length_append, List.length_cons] at hrounds
      omega
    have hfind := findRecord_found none hchain hus hc hce hlt
    rw [Option.or_none] at hfind
    exact Or.inr ⟨us, r, vs, c, rfl, hus, hc, hce, hfind⟩
  · exact Or.inl ⟨he, findRecord_missing none hchain he hrounds⟩

/-! ## Unlinking -/

/-- What unlinking a node writes: the pointers of this node, and of the one before it. -/
def Written (P : Platform) (prev : Option Ref) (r x : Ref) : Prop :=
  Separate P r x ∧ ∀ q, prev = some q → x = q ∨ Separate P q x

theorem setRecord_entry {q x : Ref} {cq : CleanupNode} (next : Option Ref)
    (hq : m.records q = some cq) (hx : x = q ∨ Separate P q x) :
    ((m.setRecord P q { cq with next := next }).records x).map CleanupNode.entry =
      (m.records x).map CleanupNode.entry := by
  rcases hx with rfl | hx
  · rw [Memory.setRecord_self, hq]
    rfl
  · rw [Memory.setRecord_of_separate _ _ hx]

theorem detachRecord_entries (p : Nat) (prev : Option Ref) (r : Ref) (s : State) :
    Yields True (detachRecord P p prev r s) fun s' => Aside p s s' ∧ ∀ x, Written P prev r x →
      (s'.mem.records x).map CleanupNode.entry = (s.mem.records x).map CleanupNode.entry := by
  apply (getPool_yields s p).bind
  intro pool _ _
  apply (getRecord_yields s r).bind
  intro c _ _
  split
  · exact Yields.ok ⟨.setPool p _ s, fun _ _ => rfl⟩
  · split
    · trivial
    · rename_i q
      refine (getRecord_yields s q).bind fun cq _ hq => Yields.ok ⟨⟨fun _ _ => rfl, rfl⟩, ?_⟩
      exact fun x hx => setRecord_entry _ hq (hx.2 q rfl)

theorem reserveRecord_entries (p : Nat) (r : Ref) (s : State) :
    Yields True (reserveRecord P p r s) fun s' => Aside p s s' ∧ ∀ x, Separate P r x →
      s'.mem.records x = s.mem.records x := by
  apply (getRecord_yields s r).bind
  intro c _ _
  refine (getPool_yields s p).bind fun pool _ _ => Yields.ok ⟨?_, fun x hx => ?_⟩
  · exact (Aside.setRecord p r _ s).trans (.setPool p _ _)
  · exact Memory.setRecord_of_separate _ _ hx

theorem unlinkRecord_entries (p : Nat) (prev : Option Ref) (r : Ref) (s : State) :
    Yields True (unlinkRecord P p prev r s) fun s' => Aside p s s' ∧ ∀ x, Written P prev r x →
      (s'.mem.records x).map CleanupNode.entry = (s.mem.records x).map CleanupNode.entry := by
  apply (detachRecord_entries p prev r s).bind
  intro s₁ _ h₁
  apply (reserveRecord_entries p r s₁).bind
  intro s₂ _ h₂
  refine (getPool_yields s₂ p).bind fun pool _ _ => Yields.ok ⟨?_, fun x hx => ?_⟩
  · exact (h₁.1.trans h₂.1).trans (.unlock p _ _)
  · rw [State.unlock_mem, h₂.2 x hx.1]
    exact h₁.2 x hx

/-- The nodes of a list are separate from the one that leaves it, and from the one before
this, but for this one itself. -/
theorem PoolOk.written {contents : Contents} {free : List Ref}
    (h : PoolOk P contents m p pool (us ++ r :: vs) free) {x : Ref} (hx : x ∈ us ++ vs) :
    Written P us.getLast? r x := by
  have hperm : (us ++ r :: vs).Perm (r :: (us ++ vs)) := List.perm_middle
  have hall :=
    (hperm.pairwise_iff fun h => Separate.symm h).mp (List.pairwise_append.mp h.records).1
  obtain ⟨hsep, hrest⟩ := List.pairwise_cons.mp hall
  refine ⟨hsep x hx, fun q hq => ?_⟩
  by_cases hxq : x = q
  · exact Or.inl hxq
  · have : Std.Symm (Separate P) := ⟨fun _ _ h => h.symm⟩
    have hqmem : q ∈ us ++ vs := List.mem_append_left _ (List.mem_of_getLast? hq)
    exact Or.inr (hrest.forall hqmem hx (Ne.symm hxq))

structure Relisted (env : Environment P) (ps : List Nat) (pendings frees : Nat → List Ref)
    (p k : Nat) (es : List Entry) (s s' : State) : Prop where
  lists : ∃ pool' rest frees', s'.mem.pools p = some pool' ∧
    Held P env.contents s'.mem ps (Function.update pendings p rest) frees' ∧
    Elsewhere ps p pendings frees s (Function.update pendings p rest) frees' s' ∧
    entries s'.mem rest = es ∧ Room P pool' rest (frees' p) k

theorem unlinkRecord_relisted (h : Held P env.contents m ps pendings frees) (hp : p ∈ ps)
    (hpool₀ : m.pools p = some pool) (hpending : pendings p = us ++ r :: vs)
    (hhandled : Handled P env.contents m s.mem p pool pool' us vs (frees p) r)
    (hpool : s.mem.pools p = some pool')
    (hroom : Room P pool' (pendings p) (frees p) k) :
    ∃ s', unlinkRecord P p us.getLast? r s = .ok s' ∧ called s'.events = called s.events ∧
      ∃ pool'', s'.mem.pools p = some pool'' ∧
        Held P env.contents s'.mem ps (Function.update pendings p (us ++ vs))
          (Function.update frees p (r :: frees p)) ∧
        Elsewhere ps p pendings frees s (Function.update pendings p (us ++ vs))
          (Function.update frees p (r :: frees p)) s' ∧
        entries s'.mem (us ++ vs) = entries m (us ++ vs) ∧
        Room P pool'' (us ++ vs) (r :: frees p) k := by
  obtain ⟨c, hc⟩ := hhandled.ok.pendingChain.cell (a := r) (by simp)
  obtain ⟨s', pool'', m₁, hok, hretired, hmem⟩ := unlinkRecord_spec hpool hhandled.ok hc
  obtain ⟨haside, hentries⟩ := (unlinkRecord_entries p us.getLast? r s).of_ok hok
  refine ⟨s', hok, haside.called, pool'', ?_, ?_, ⟨haside.pools,
    fun q hq => Function.update_of_ne hq _ _, fun q hq => Function.update_of_ne hq _ _,
    fun q hq hqp x hx => ?_⟩, ?_, ?_⟩
  · rw [hmem, Memory.setPool_self]
  · rw [hmem]
    exact h.retire hp hpool₀ hpending hhandled hretired
  · rw [hmem, Memory.setPool_records]
    refine hretired.records x fun y hy => h.separate hp hq hqp.symm ?_ hx
    rw [hpending]
    exact List.mem_append_left _ hy
  · apply List.filterMap_congr
    intro x hx
    rw [hentries x (hhandled.ok.written hx), hhandled.records]
  · rw [hpending] at hroom
    exact hroom.reserve hretired.same.nodes

/-! ## Registrations in front of the others -/

def Registration.entry (reg : Registration) : Entry := (reg.data, .user reg.id)

/-- Each of the registrations in turn takes a free node, or carves one where no node of the
pool lies. -/
def PlacedApart (env : Environment P) (p : Nat) : List Registration → State → Prop
  | [], _ => True
  | reg :: regs, s =>
      (∀ pool, s.mem.pools p = some pool → AddSafe P pool (Listed s.mem pool)) ∧
        ∀ s', cleanupAdd env p reg.data (.user reg.id) s = .ok s' → PlacedApart env p regs s'

/-- The registrations of a handler, where the pool's pointer leads to its pending nodes. -/
structure Preceded (env : Environment P) (ps : List Nat) (pendings frees : Nat → List Ref) (p : Nat)
    (es : List Entry) (s : State) (news : List Ref) (s' : State) : Prop where
  lists : ∃ pool' frees', s'.mem.pools p = some pool' ∧
    Held P env.contents s'.mem ps (Function.update pendings p (news ++ pendings p)) frees' ∧
    Elsewhere ps p pendings frees s (Function.update pendings p (news ++ pendings p)) frees' s'
  entries : entries s'.mem news = es
  pending : SameRecords s.mem s'.mem (pendings p)
  called : called s'.events = called s.events

theorem registrations_added {regs : List Registration} (hp : p ∈ ps)
    (hown : ∀ reg ∈ regs, reg.pool = p) (h : Held P env.contents s.mem ps pendings frees)
    (hpool : s.mem.pools p = some pool) (hplaced : PlacedApart env p regs s) :
    Yields (¬ env.Succeeds)
      (regs.foldlM (fun s reg => cleanupAdd env reg.pool reg.data (.user reg.id) s) s)
      fun s' => ∃ news,
        Preceded env ps pendings frees p (regs.map Registration.entry).reverse s news s' := by
  induction regs generalizing s pool pendings frees with
  | nil =>
      have hsame : Function.update pendings p ([] ++ pendings p) = pendings := by
        rw [List.nil_append, Function.update_eq_self]
      refine Yields.ok ⟨[], ⟨pool, frees, hpool, ?_, ?_⟩, rfl, .refl _ _, rfl⟩
      · rw [hsame]
        exact h
      · rw [hsame]
        exact .refl ..
  | cons reg regs ih =>
      obtain ⟨hreg, hown⟩ := List.forall_mem_cons.mp hown
      obtain ⟨hsafe, hplaced⟩ := hplaced
      have hsafe₀ := hsafe pool hpool
      rw [(h.poolOk hp hpool).listed_eq] at hsafe₀
      rw [List.foldlM_cons, hreg]
      apply (cleanupAdd_added h hp hpool hsafe₀).bind
      intro s₁ hok₁ h₁
      obtain ⟨pool₁, r, rest, hadded⟩ := h₁
      have hpend₁ : Function.update pendings p (r :: pendings p) p = r :: pendings p :=
        Function.update_self ..
      apply (ih hown hadded.held hadded.here (hplaced s₁ hok₁)).mono
      intro s₂ _ h₂
      obtain ⟨news, ⟨pool₂, frees₂, hpool₂, hheld₂, helse₂⟩, hentries₂, hsame₂, hcalled₂⟩ := h₂
      have hlist : news ++ r :: pendings p = news ++ [r] ++ pendings p := by simp
      rw [hpend₁, Function.update_idem, hlist] at hheld₂ helse₂
      rw [hpend₁] at hsame₂
      have hfirst : entries s₂.mem [r] = entries s₁.mem [r] :=
        SameRecords.entries (hsame₂.subset (by simp))
      refine ⟨news ++ [r], ⟨pool₂, frees₂, hpool₂, hheld₂, hadded.elsewhere.trans helse₂⟩,
        ?_, hadded.pending.trans (hsame₂.subset (List.subset_cons_self ..)),
        hcalled₂.trans hadded.aside.called⟩
      rw [entries_append, hfirst, hadded.entry, hentries₂, List.map_cons, List.reverse_cons]
      rfl

/-! ## `fpx_pool_cleanup_remove1` -/

theorem erase_first {es es' : List Entry} (hes : e ∉ es) :
    (es ++ e :: es').erase e = es ++ es' := by
  rw [List.erase_append_right _ hes, List.erase_cons_head]

theorem entries_split {us vs : List Ref} (hc : m.records r = some c) :
    entries m (us ++ r :: vs) = entries m us ++ c.entry :: entries m vs := by
  rw [entries_append, entries_cons hc]

theorem Room.of_nodes {pending free : List Ref} (h : Room P pool pending free k)
    (hnodes : pool'.nodes = pool.nodes) : Room P pool' pending free k := by
  unfold Room Anchored
  rw [hnodes]
  exact h

theorem Elsewhere.lock (ps : List Nat) (p : Nat) (pendings frees : Nat → List Ref) (s : State)
    (mutex : Nat) : Elsewhere ps p pendings frees s pendings frees (s.lock P mutex) := by
  refine ⟨fun q _ => ?_, fun _ _ => rfl, fun _ _ => rfl, fun q _ _ x _ => ?_⟩ <;>
    rw [State.lock_mem]

/-- Where nothing is found the lists stay as they are. -/
theorem Relisted.lock (h : Held P env.contents s.mem ps pendings frees)
    (hpool : s.mem.pools p = some pool) (hroom : Room P pool (pendings p) (frees p) k)
    (mutex : Nat) :
    Relisted env ps pendings frees p k (entries s.mem (pendings p)) s (s.lock P mutex) := by
  have hsame : Function.update pendings p (pendings p) = pendings := Function.update_eq_self ..
  refine ⟨⟨pool, pendings p, frees, ?_, ?_, ?_, ?_, hroom⟩⟩
  · rwa [State.lock_mem]
  · rwa [State.lock_mem, hsame]
  · rw [hsame]
    exact .lock ..
  · rw [State.lock_mem]

theorem cleanupRemove_relisted (data : Nat) (handler : Handler)
    (h : Held P env.contents s.mem ps pendings frees) (hp : p ∈ ps)
    (hpool : s.mem.pools p = some pool) (hroom : Room P pool (pendings p) (frees p) k)
    (hrounds : (pendings p).length ≤ rounds) :
    ∃ s', cleanupRemove P rounds p data handler s = .ok s' ∧ called s'.events = called s.events ∧
      Relisted env ps pendings frees p k
        ((entries s.mem (pendings p)).erase (data, handler)) s s' := by
  have hlock := Aside.lock (P := P) p s pool.mutex
  have hmem : (s.lock P pool.mutex).mem = s.mem := State.lock_mem ..
  have hchain := (h.poolOk hp hpool).pendingChain
  rw [← hmem] at hchain
  rw [cleanupRemove, State.getPool_bind hpool]
  rcases findRecord_cases data handler hchain hrounds with
    ⟨hmissing, hfind⟩ | ⟨us, r, vs, c, hpending, hus, hc, hce, hfind⟩
  · simp only [hfind]
    rw [hmem] at hmissing
    refine ⟨_, rfl, hlock.called, ?_⟩
    rw [List.erase_of_not_mem hmissing]
    exact .lock h hpool hroom pool.mutex
  · simp only [hfind]
    rw [hmem] at hus hc
    have hhandled : Handled P env.contents s.mem (s.lock P pool.mutex).mem p pool pool us vs
        (frees p) r := by
      rw [hmem]
      exact h.handled_skip hp hpool hpending
    obtain ⟨s', hs', hcalled, pool', hpool', hheld', helse, hentries, hroom'⟩ :=
      unlinkRecord_relisted h hp hpool hpending hhandled (by rwa [hmem]) hroom
    refine ⟨s', hs', hcalled.trans hlock.called, ⟨pool', us ++ vs, _, hpool', hheld',
      (Elsewhere.lock ps p pendings frees s pool.mutex).trans helse, ?_, ?_⟩⟩
    · rw [hentries, entries_append, hpending, entries_split hc, hce, erase_first hus]
    · rw [Function.update_self]
      exact hroom'

/-! ## `fpx_pool_cleanup_run1` -/

theorem cleanupRun_missing (h : Held P env.contents s.mem ps pendings frees) (hp : p ∈ ps)
    (hpool : s.mem.pools p = some pool) (hroom : Room P pool (pendings p) (frees p) k)
    (hrounds : (pendings p).length ≤ rounds)
    (he : (data, handler) ∉ entries s.mem (pendings p)) :
    ∃ s', cleanupRun env rounds p data handler s = .ok s' ∧ called s'.events = called s.events ∧
      Relisted env ps pendings frees p k (entries s.mem (pendings p)) s s' := by
  have hlock := Aside.lock (P := P) p s pool.mutex
  have hmem : (s.lock P pool.mutex).mem = s.mem := State.lock_mem ..
  have hchain := (h.poolOk hp hpool).pendingChain
  rw [← hmem] at hchain he
  rw [cleanupRun, State.getPool_bind hpool]
  simp only [findRecord_missing none hchain he hrounds]
  exact ⟨_, rfl, hlock.called, .lock h hpool hroom pool.mutex⟩

/-- What is found is run, and then unlinked. -/
theorem cleanupRun_found (h : Held P env.contents s.mem ps pendings frees) (hp : p ∈ ps)
    (hpool : s.mem.pools p = some pool) (hrounds : (pendings p).length ≤ rounds)
    (he : (data, handler) ∈ entries s.mem (pendings p)) :
    ∃ us r vs c, pendings p = us ++ r :: vs ∧ (data, handler) ∉ entries s.mem us ∧
      s.mem.records r = some c ∧ c.entry = (data, handler) ∧
      cleanupRun env rounds p data handler s =
        runHandler env p c (s.lock P pool.mutex) >>= unlinkRecord P p us.getLast? r := by
  have hmem : (s.lock P pool.mutex).mem = s.mem := State.lock_mem ..
  have hchain := (h.poolOk hp hpool).pendingChain
  rw [← hmem] at hchain he ⊢
  rw [cleanupRun, State.getPool_bind hpool]
  rcases findRecord_cases data handler hchain hrounds with
    ⟨hmissing, -⟩ | ⟨us, r, vs, c, hpending, hus, hc, hce, hfind⟩
  · exact absurd he hmissing
  · simp only [hfind]
    exact ⟨us, r, vs, c, hpending, hus, hc, hce, State.getRecord_bind hc _⟩

theorem cleanupRun_quiet (h : Held P env.contents s.mem ps pendings frees) (hp : p ∈ ps)
    (hpool : s.mem.pools p = some pool) (hroom : Room P pool (pendings p) (frees p) k)
    (hrounds : (pendings p).length ≤ rounds)
    (he : (data, handler) ∈ entries s.mem (pendings p)) (hquiet : registers env data handler = []) :
    ∃ s', cleanupRun env rounds p data handler s = .ok s' ∧
      called s'.events = called s.events ++ [(data, handler)] ∧
      Relisted env ps pendings frees p k
        ((entries s.mem (pendings p)).erase (data, handler)) s s' := by
  have hlock := Aside.lock (P := P) p s pool.mutex
  have hmem : (s.lock P pool.mutex).mem = s.mem := State.lock_mem ..
  obtain ⟨us, r, vs, c, hpending, hus, hc, hce, hcall⟩ := cleanupRun_found h hp hpool hrounds he
  cases hce
  obtain ⟨s₁, hrun, hmem₁, hevents₁⟩ :=
    runHandler_ok hquiet (show (s.lock P pool.mutex).mem.pools p = some pool by rwa [hmem])
  rw [hmem] at hmem₁
  have hhandled := (h.handled_run hp hpool hpending hc).setPool
  rw [← hmem₁] at hhandled
  have hpool₁ : s₁.mem.pools p = some (pool.afterHandler c) := by rw [hmem₁, Memory.setPool_self]
  have hroom₁ : Room P (pool.afterHandler c) (pendings p) (frees p) k :=
    hroom.of_nodes (pool.afterHandler_sameNodes c).nodes
  obtain ⟨s', hs', hcalled, pool', hpool', hheld', helse, hentries, hroom'⟩ :=
    unlinkRecord_relisted h hp hpool hpending hhandled hpool₁ hroom₁
  rw [hcall, hrun]
  refine ⟨s', hs', ?_, ⟨pool', us ++ vs, _, hpool', hheld', ?_, ?_, ?_⟩⟩
  · rw [hcalled, hevents₁, called_append, c.called_event, hlock.called]
    rfl
  · refine Elsewhere.trans ⟨fun q hq => ?_, fun _ _ => rfl, fun _ _ => rfl, fun q _ _ x _ => ?_⟩
      helse
    · rw [hmem₁, Memory.setPool_of_ne _ _ hq, Memory.afterHandler_pools]
    · rw [hmem₁, Memory.setPool_records, Memory.afterHandler_records]
  · rw [hentries, entries_append, hpending, entries_split hc]
    exact (erase_first hus).symm
  · rw [Function.update_self]
    exact hroom'

theorem runHandler_user {id : Nat} (h : Held P env.contents s.mem ps pendings frees) (hp : p ∈ ps)
    (hpool : s.mem.pools p = some pool) (hce : c.entry = (data, .user id))
    (hplaced : PlacedApart env p (registers env data (.user id))
      ((s.lock P pool.mutex).log (.run id data)))
    (hown : ∀ reg ∈ registers env data (.user id), reg.pool = p) :
    ∃ s₀, s₀.mem = s.mem ∧ called s₀.events = called s.events ++ [(data, .user id)] ∧
      Yields (¬ env.Succeeds) (runHandler env p c (s.lock P pool.mutex)) fun s₁ => ∃ news,
        Preceded env ps pendings frees p
          ((registers env data (.user id)).map Registration.entry).reverse s₀ news s₁ := by
  have hlock := Aside.lock (P := P) p s pool.mutex
  have hmem : (s.lock P pool.mutex).mem = s.mem := State.lock_mem ..
  refine ⟨(s.lock P pool.mutex).log (.run id data), hmem, ?_, ?_⟩
  · rw [State.log, called_append, hlock.called]
    rfl
  · rw [← hmem] at h hpool
    rw [runHandler_registers hce]
    exact registrations_added hp hown h hpool hplaced

/-- The handler, called now, returns. -/
def HandlerReturns (env : Environment P) (p data : Nat) (handler : Handler) (s : State) : Prop :=
  ∃ pool s', s.mem.pools p = some pool ∧
    runHandler env p ⟨none, data, handler⟩ (s.lock P pool.mutex) = .ok s'

/-- What the handler, called now, registers finds its places. -/
def HandlerPlaced (env : Environment P) (p data : Nat) (handler : Handler) (s : State) : Prop :=
  ∀ pool, s.mem.pools p = some pool → PlacedApart env p (registers env data handler)
    ((s.lock P pool.mutex).log (CleanupNode.event ⟨none, data, handler⟩))

/-- Running a cleanup does not return without its handler. -/
theorem handlerReturns_of_run (h : Held P env.contents s.mem ps pendings frees) (hp : p ∈ ps)
    (hpool : s.mem.pools p = some pool) (hrounds : (pendings p).length ≤ rounds)
    (he : (data, handler) ∈ entries s.mem (pendings p))
    (hok : cleanupRun env rounds p data handler s = .ok s') :
    HandlerReturns env p data handler s := by
  obtain ⟨us, r, vs, ⟨next, data', handler'⟩, -, -, -, hce, hcall⟩ :=
    cleanupRun_found h hp hpool hrounds he
  cases hce
  rw [hcall] at hok
  obtain ⟨s₁, hrun, -⟩ := exists_of_bind_ok hok
  exact ⟨pool, s₁, hpool, hrun⟩

/-- What a handler of a user registers stays in front of the other cleanups, unless its node
was the first one. -/
theorem cleanupRun_loud (h : Held P env.contents s.mem ps pendings frees) (hp : p ∈ ps)
    (hpool : s.mem.pools p = some pool) (hplaced : HandlerPlaced env p data handler s)
    (hrounds : (pendings p).length ≤ rounds)
    (he : (data, handler) ∈ entries s.mem (pendings p))
    (hfirst : (entries s.mem (pendings p)).head? ≠ some (data, handler))
    (hown : ∀ reg ∈ registers env data handler, reg.pool = p)
    (hloud : registers env data handler ≠ []) :
    Yields (¬ HandlerReturns env p data handler s) (cleanupRun env rounds p data handler s)
      fun s' => called s'.events = called s.events ++ [(data, handler)] ∧
      Relisted env ps pendings frees p 0
        (((registers env data handler).map Registration.entry).reverse ++
          (entries s.mem (pendings p)).erase (data, handler)) s s' := by
  obtain ⟨us, r, vs, c, hpending, hus, hc, hce, hcall⟩ := cleanupRun_found h hp hpool hrounds he
  have hus₀ : us ≠ [] := by
    rintro rfl
    rw [hpending, List.nil_append, entries_cons hc, hce] at hfirst
    exact hfirst rfl
  rw [hcall]
  cases handler with
  | free => exact absurd rfl hloud
  | user id =>
      obtain ⟨s₀, hmem₀, hcalled₀, hrun⟩ :=
        runHandler_user h hp hpool hce (hplaced pool hpool) hown
      have hreturns : (∀ s₁, runHandler env p c (s.lock P pool.mutex) ≠ .ok s₁) →
          ¬ HandlerReturns env p data (.user id) s := by
        rintro hnever ⟨pool', s₁, hpool', hs₁⟩
        rw [hpool] at hpool'
        cases hpool'
        rw [runHandler_registers rfl, ← runHandler_registers hce] at hs₁
        exact hnever s₁ hs₁
      apply (hrun.sharp.weaken hreturns).bind
      intro s₁ _ h₁
      obtain ⟨news, ⟨pool₁, frees₁, hpool₁, hheld₁, helse₁⟩, hentries₁, hsame₁, hcalled₁⟩ := h₁
      -- the node and the one before it are where they were
      have hpending₁ : Function.update pendings p (news ++ pendings p) p =
          (news ++ us) ++ r :: vs := by
        rw [Function.update_self, hpending, List.append_assoc]
      have hprev : (news ++ us).getLast? = us.getLast? := List.getLast?_append_of_ne_nil _ hus₀
      have hlast := unlinkRecord_relisted hheld₁ hp hpool₁ hpending₁
        (hheld₁.handled_skip hp hpool₁ hpending₁) hpool₁ (Or.inr (Nat.zero_le _))
      rw [hprev] at hlast
      obtain ⟨s', hs', hcalled, pool', hpool', hheld', helse, hentries, hroom'⟩ := hlast
      rw [hs']
      rw [Function.update_idem] at hheld' helse
      refine Yields.ok ⟨hcalled.trans (hcalled₁.trans hcalled₀),
        ⟨pool', news ++ us ++ vs, _, hpool', hheld', ?_, ?_, ?_⟩⟩
      · refine Elsewhere.trans ⟨fun q _ => ?_, fun _ _ => rfl, fun _ _ => rfl, fun q _ _ x _ => ?_⟩
          (helse₁.trans helse) <;> rw [hmem₀]
      · have hrest : entries s₁.mem (us ++ vs) = entries s.mem (us ++ vs) := by
          rw [← hmem₀]
          refine SameRecords.entries (hsame₁.subset ?_)
          rw [hpending]
          exact List.append_subset.mpr ⟨List.subset_append_left .., fun x hx =>
            List.mem_append_right _ (List.mem_cons_of_mem r hx)⟩
        rw [hentries, List.append_assoc, entries_append, hentries₁, hrest, hpending,
          entries_split hc, hce, erase_first hus, entries_append]
      · rw [Function.update_self]
        exact hroom'

/-- Without a node before it, one that is not the first cannot be unlinked. -/
theorem unlinkRecord_uninit (hpool : s.mem.pools p = some pool) (hc : s.mem.records r = some c)
    (hfirst : pool.cleanups ≠ some r) : unlinkRecord P p none r s = .error .uninit := by
  have hdetach : detachRecord P p none r s = .error .uninit := by
    unfold detachRecord
    rw [State.getPool_bind hpool, State.getRecord_bind hc, if_neg hfirst]
  rw [unlinkRecord, hdetach]
  rfl

/-- The search has passed no node before the first one, which another one precedes once its
handler has registered something. -/
theorem cleanupRun_first (h : Held P env.contents s.mem ps pendings frees) (hp : p ∈ ps)
    (hpool : s.mem.pools p = some pool) (hplaced : HandlerPlaced env p data handler s)
    (hrounds : (pendings p).length ≤ rounds)
    (hfirst : (entries s.mem (pendings p)).head? = some (data, handler))
    (hown : ∀ reg ∈ registers env data handler, reg.pool = p)
    (hloud : registers env data handler ≠ []) (s' : State) :
    cleanupRun env rounds p data handler s ≠ .ok s' := by
  obtain ⟨us, r, vs, c, hpending, hus, hc, hce, hcall⟩ :=
    cleanupRun_found h hp hpool hrounds (List.mem_of_head? hfirst)
  rw [hcall]
  have hnil : us = [] := by
    cases us with
    | nil => rfl
    | cons q us =>
        obtain ⟨cq, hq⟩ := (h.poolOk hp hpool).pendingChain.cell (a := q) (by simp [hpending])
        rw [hpending, List.cons_append, entries_cons hq, List.head?_cons, Option.some_inj] at hfirst
        rw [entries_cons hq, hfirst] at hus
        exact absurd (List.mem_cons_self ..) hus
  subst hnil
  cases handler with
  | free => exact absurd rfl hloud
  | user id =>
      obtain ⟨s₀, hmem₀, -, hrun⟩ := runHandler_user h hp hpool hce (hplaced pool hpool) hown
      have hnever := (hrun.weaken fun _ => trivial).bind (R := fun _ => False)
        (f := unlinkRecord P p none r) fun s₁ _ h₁ => ?_
      · exact fun hok => hnever.of_ok hok
      obtain ⟨news, ⟨pool₁, frees₁, hpool₁, hheld₁, -⟩, hentries₁, hsame₁, -⟩ := h₁
      have hchain := (hheld₁.poolOk hp hpool₁).pendingChain
      rw [Function.update_self, hpending] at hchain
      have hnews : news ≠ [] := by
        rintro rfl
        rw [entries_nil] at hentries₁
        exact hloud (List.map_eq_nil_iff.mp (List.reverse_eq_nil_iff.mp hentries₁.symm))
      have hc₁ : s₁.mem.records r = some c := by
        rw [hsame₁ r (by simp [hpending]), hmem₀]
        exact hc
      rw [unlinkRecord_uninit hpool₁ hc₁ (hchain.ne_some hnews)]
      trivial

end Floppix.Pools
