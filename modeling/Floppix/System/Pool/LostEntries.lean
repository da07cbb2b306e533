import Floppix.System.Pool.Emptying
import Floppix.System.Pool.Misplaced

/-! # Entries registered while cleanups run

A handler may register cleanups in its pool again. The loops that run all cleanups drop
such an entry: it goes in front of a list that is cut off at the end of the loop. Where
one cleanup is run, the entry is kept if the node of the handler is not the first one. If
it is, the search has passed no node before it.
-/

namespace Floppix.Pools

open Layout LinkedList Outcome

variable {P : Platform} {env : Environment P} {p : Nat} {pool : Pool} {forest : Forest}
  {ps qs : List Nat} {pendings frees frees' : Nat → List Ref} {s s' : State} {keeps : Prop}
  {thread caller data rounds depth : Nat} {handler : Handler} {es cs : List Entry}

inductive CleanupCall where
  | run (data : Nat) (handler : Handler)
  | clear
  | destroy

namespace CleanupCall

def perform (env : Environment P) (rounds depth caller p : Nat) (s : State) :
    CleanupCall → Except Fault State
  | .run data handler => cleanupRun env rounds p data handler s
  | .clear => Pools.clear env rounds depth caller p s
  | .destroy => Pools.destroy env rounds depth caller p s

def reach (forest : Forest) (p : Nat) : CleanupCall → List Nat
  | .run _ _ => [p]
  | .clear => forest.below p
  | .destroy => forest.below p

def Refused (P : Platform) (thread caller : Nat) : CleanupCall → Prop
  | .run _ _ => False
  | .clear => P.threadSafety = true ∧ thread ≠ caller
  | .destroy => P.threadSafety = true ∧ thread ≠ caller

/-- The pools are there when the call returns. -/
def Keeps (P : Platform) (thread caller : Nat) : CleanupCall → Prop
  | .run _ _ => True
  | .clear => True
  | .destroy => P.threadSafety = true ∧ thread ≠ caller

end CleanupCall

/-! ## What a call has to keep -/

/-- What was pending and what was registered between the states was called, or is pending.
The lists are well formed. -/
def EntriesKept (env : Environment P) (keeps : Prop) (qs : List Nat) (s s' : State) : Prop :=
  ∃ before after cs, (∀ q ∈ qs, ListsHold s.mem q (before q)) ∧
    (∀ q ∈ qs, keeps → ListsHold s'.mem q (after q)) ∧ (∀ q ∈ qs, ¬ keeps → after q = []) ∧
    called s'.events = called s.events ++ cs ∧
    (qs.flatMap before ++ (registered env cs).map Registration.entry).Perm (cs ++ qs.flatMap after)

/-- The call returns, and no entry is lost. -/
def CleanupCall.LosesNothing (env : Environment P) (forest : Forest)
    (rounds depth thread caller p : Nat) (s : State) (call : CleanupCall) : Prop :=
  ∃ s', call.perform env rounds depth caller p s = .ok s' ∧
    EntriesKept env (call.Keeps P thread caller) (call.reach forest p) s s'

/-- Nothing that the call runs registers anything, or it is one handler, of a node that is
not the first one, and what it registers finds its places. -/
def CleanupCall.Harmless (env : Environment P) (forest : Forest) (pendings : Nat → List Ref)
    (thread caller p : Nat) (s : State) : CleanupCall → Prop
  | .run data handler =>
      (data, handler) ∉ entries s.mem (pendings p) ∨ registers env data handler = [] ∨
        (entries s.mem (pendings p)).head? ≠ some (data, handler) ∧
          HandlerReturns env p data handler s ∧ HandlerPlaced env p data handler s
  | .clear => (P.threadSafety = true ∧ thread ≠ caller) ∨
      ∀ q ∈ forest.below p, registered env (entries s.mem (pendings q)) = []
  | .destroy => (P.threadSafety = true ∧ thread ≠ caller) ∨
      ∀ q ∈ forest.below p, registered env (entries s.mem (pendings q)) = []

/-- The handlers that the call may run register in their own pools. -/
def CleanupCall.Own (env : Environment P) (forest : Forest) (pendings : Nat → List Ref) (p : Nat)
    (m : Memory) : CleanupCall → Prop
  | .run data handler => (data, handler) ∈ entries m (pendings p) →
      ∀ reg ∈ registers env data handler, reg.pool = p
  | .clear => ∀ q ∈ forest.below p, ∀ reg ∈ registered env (entries m (pendings q)), reg.pool = q
  | .destroy => ∀ q ∈ forest.below p, ∀ reg ∈ registered env (entries m (pendings q)), reg.pool = q

/-- A cleanup node fills its block. Where all cleanups are run, there is room for what the
handlers register apart from the listed nodes. -/
def CleanupCall.Fit (env : Environment P) (forest : Forest) (pendings frees : Nat → List Ref)
    (p : Nat) (s : State) : CleanupCall → Prop
  | .run _ _ => P.alignAllocation P.sizeofCleanup = P.sizeofCleanup
  | .clear => ∀ q ∈ forest.below p, ∀ pool, s.mem.pools q = some pool →
      Room P pool (pendings q) (frees q) (registered env (entries s.mem (pendings q))).length
  | .destroy => ∀ q ∈ forest.below p, ∀ pool, s.mem.pools q = some pool →
      Room P pool (pendings q) (frees q) (registered env (entries s.mem (pendings q))).length

/-! ## `fpx_pool_cleanup_run1` -/

theorem Relisted.kept (h : Held P env.contents s.mem ps pendings frees) (hp : p ∈ ps)
    (hlisted : Relisted env ps pendings frees p k es s s')
    (hcalled : called s'.events = called s.events ++ cs)
    (hperm : (entries s.mem (pendings p) ++ (registered env cs).map Registration.entry).Perm
      (cs ++ es)) : EntriesKept env True [p] s s' := by
  obtain ⟨pool', rest, frees', hpool', hheld', -, hentries, -⟩ := hlisted.lists
  have hlists := hheld'.listsHold hp
  rw [Function.update_self, hentries] at hlists
  refine ⟨fun _ => entries s.mem (pendings p), fun _ => es, cs, fun q hq => ?_, fun q hq _ => ?_,
    fun q hq hnot => absurd trivial hnot, hcalled, ?_⟩
  · rw [List.mem_singleton.mp hq]
    exact h.listsHold hp
  · rw [List.mem_singleton.mp hq]
    exact hlists
  · rw [List.flatMap_singleton, List.flatMap_singleton]
    exact hperm

theorem registered_single (e : Entry) : registered env [e] = registers env e.1 e.2 :=
  List.append_nil _

/-- Running a cleanup keeps what its handler registers, where this finds its places. -/
theorem cleanupRun_keeps (h : Held P env.contents s.mem ps pendings frees) (hp : p ∈ ps)
    (hpool : s.mem.pools p = some pool)
    (hown : (data, handler) ∈ entries s.mem (pendings p) →
      ∀ reg ∈ registers env data handler, reg.pool = p)
    (hrounds : (pendings p).length ≤ rounds)
    (hharmless : (data, handler) ∉ entries s.mem (pendings p) ∨ registers env data handler = [] ∨
      (entries s.mem (pendings p)).head? ≠ some (data, handler) ∧
        HandlerReturns env p data handler s ∧ HandlerPlaced env p data handler s) :
    ∃ s', cleanupRun env rounds p data handler s = .ok s' ∧ EntriesKept env True [p] s s' := by
  have hnone : Room P pool (pendings p) (frees p) 0 := Or.inr (Nat.zero_le _)
  by_cases he : (data, handler) ∈ entries s.mem (pendings p)
  · by_cases hquiet : registers env data handler = []
    · obtain ⟨s', hok, hcalled, hlisted⟩ := cleanupRun_quiet h hp hpool hnone hrounds he hquiet
      refine ⟨s', hok, hlisted.kept h hp hcalled ?_⟩
      rw [registered_single, hquiet, List.map_nil, List.append_nil]
      exact List.perm_cons_erase he
    · obtain ⟨hfirst, hreturns, hplaced⟩ :=
        (hharmless.resolve_left (not_not_intro he)).resolve_left hquiet
      obtain ⟨s', hok, hcalled, hlisted⟩ := (cleanupRun_loud h hp hpool hplaced hrounds he hfirst
        (hown he) hquiet).exists_ok (not_not_intro hreturns)
      refine ⟨s', hok, hlisted.kept h hp hcalled ?_⟩
      rw [registered_single]
      exact ((List.perm_cons_erase he).append (List.reverse_perm _).symm).trans
        (List.perm_append_comm.cons _)
  · obtain ⟨s', hok, hcalled, hlisted⟩ := cleanupRun_missing h hp hpool hnone hrounds he
    have hnew : called s'.events = called s.events ++ [] := by rw [hcalled, List.append_nil]
    exact ⟨s', hok, hlisted.kept h hp hnew (List.Perm.of_eq (List.append_nil _))⟩

/-- It keeps nothing else. -/
theorem cleanupRun_loses (hfull : P.alignAllocation P.sizeofCleanup = P.sizeofCleanup)
    (h : Held P env.contents s.mem ps pendings frees) (hp : p ∈ ps)
    (hpool : s.mem.pools p = some pool)
    (hown : (data, handler) ∈ entries s.mem (pendings p) →
      ∀ reg ∈ registers env data handler, reg.pool = p)
    (hrounds : (pendings p).length ≤ rounds)
    (hok : cleanupRun env rounds p data handler s = .ok s')
    (hkept : EntriesKept env True [p] s s') :
    (data, handler) ∉ entries s.mem (pendings p) ∨ registers env data handler = [] ∨
      (entries s.mem (pendings p)).head? ≠ some (data, handler) ∧
        HandlerReturns env p data handler s ∧ HandlerPlaced env p data handler s := by
  by_cases he : (data, handler) ∈ entries s.mem (pendings p)
  · by_cases hquiet : registers env data handler = []
    · exact Or.inr (Or.inl hquiet)
    · have hplaced : HandlerPlaced env p data handler s := by
        by_contra hplaced
        obtain ⟨hcalled, hfew⟩ := (cleanupRun_misplaced hfull h hp hpool hrounds he (hown he)
          hplaced).of_ok hok
        obtain ⟨before, after, cs, hbefore, hafter, -, hcalled', hperm⟩ := hkept
        have hcs : cs = [(data, handler)] :=
          List.append_cancel_left (hcalled'.symm.trans hcalled)
        have hself := List.mem_singleton_self p
        have hshort := hfew _ (hafter p hself trivial)
        have hsingle : registered env [(data, handler)] = registers env data handler :=
          registered_single _
        have hlength := hperm.length_eq
        rw [List.flatMap_singleton, List.flatMap_singleton, hcs, hsingle,
          h.listsHold_eq hp (hbefore p hself), List.length_append, List.length_append,
          List.length_map, length_entries (h.poolOk hp hpool).pendingChain, List.length_singleton] at hlength
        omega
      refine Or.inr (Or.inr ⟨fun hfirst => ?_,
        handlerReturns_of_run h hp hpool hrounds he hok, hplaced⟩)
      exact cleanupRun_first h hp hpool hplaced hrounds hfirst (hown he) hquiet s' hok
  · exact Or.inl he

/-! ## `fpx_pool_clear` and `fpx_pool_destroy` -/

theorem Finished.kept_iff {order : List Nat} {kept : Bool}
    (hfinished : Finished env kept ps pendings frees order s frees' s')
    (h : Held P env.contents s.mem ps pendings frees) (hsub : order ⊆ ps)
    (hkeeps : keeps ↔ kept = true) :
    EntriesKept env keeps order s s' ↔
      ∀ q ∈ order, registered env (entries s.mem (pendings q)) = [] := by
  have hall : registered env (order.flatMap fun q => entries s.mem (pendings q)) =
      order.flatMap fun q => registered env (entries s.mem (pendings q)) := List.flatMap_assoc ..
  have hheld : keeps → Held P env.contents s'.mem ps (emptied pendings order) frees' := fun hk => by
    have hheld' := hfinished.held
    rwa [hkeeps.mp hk] at hheld'
  constructor
  · rintro ⟨before, after, cs, hbefore, hkept, hgone, hcalled, hperm⟩
    have hafter : order.flatMap after = [] := by
      apply List.flatMap_eq_nil_iff.mpr
      intro q hq
      by_cases hk : keeps
      · rw [(hheld hk).listsHold_eq (hsub hq) (hkept q hq hk), emptied_mem hq, entries_nil]
      · exact hgone q hq hk
    have hcs : cs = order.flatMap fun q => entries s.mem (pendings q) :=
      List.append_cancel_left (hcalled.symm.trans hfinished.called)
    have hsame : order.flatMap before = cs := by
      rw [hcs]
      exact List.flatMap_congr fun q hq => h.listsHold_eq (hsub hq) (hbefore q hq)
    -- what was registered has no place on the other side
    have hlength := hperm.length_eq
    rw [hsame, hafter, List.length_append, List.length_append, List.length_map,
      List.length_nil] at hlength
    have hnone : registered env cs = [] := List.eq_nil_of_length_eq_zero (by omega)
    rw [hcs, hall, List.flatMap_eq_nil_iff] at hnone
    exact hnone
  · intro hquiet
    refine ⟨fun q => entries s.mem (pendings q), fun _ => [], _, fun q hq => h.listsHold (hsub hq),
      fun q hq hk => ?_, fun _ _ _ => rfl, hfinished.called, ?_⟩
    · have hlists := (hheld hk).listsHold (hsub hq)
      rwa [emptied_mem hq, entries_nil] at hlists
    · rw [hall, List.flatMap_eq_nil_iff.mpr hquiet, List.map_nil, List.append_nil,
        List.flatMap_eq_nil_iff.mpr fun _ _ => rfl, List.append_nil]

/-- The walk keeps all entries if no handler registers any, and only then if there is room
for those. -/
theorem Visitor.losesNothing {kept : Bool} {visit : Nat → Nat → State → Except Fault State}
    (hvisit : ∀ excuse, Visitor env kept excuse thread rounds visit)
    (h : Inv P env.contents thread s.mem forest pendings frees) (hp : p ∈ forest.members)
    (hown : ∀ q ∈ forest.below p, ∀ reg ∈ registered env (entries s.mem (pendings q)), reg.pool = q)
    (henough : Enough forest pendings rounds depth) (hkeeps : keeps ↔ kept = true) :
    ((∀ q ∈ forest.below p, registered env (entries s.mem (pendings q)) = []) →
        ∃ s', visit depth p s = .ok s' ∧ EntriesKept env keeps (forest.below p) s s') ∧
      ((∀ q ∈ forest.below p, ∀ pool, s.mem.pools q = some pool →
          Room P pool (pendings q) (frees q) (registered env (entries s.mem (pendings q))).length) →
        (∃ s', visit depth p s = .ok s' ∧ EntriesKept env keeps (forest.below p) s s') →
          ∀ q ∈ forest.below p, registered env (entries s.mem (pendings q)) = []) := by
  have hsub : forest.below p ⊆ forest.members := fun q hq =>
    Forest.subtree_subset hp (Forest.mem_below.mp hq)
  refine ⟨fun hquiet => ?_, fun hroom ⟨s', hok, hkept⟩ => ?_⟩
  · have hready : ∀ q ∈ forest.below p, ∀ pool, s.mem.pools q = some pool →
        Ready env s.mem q pool (pendings q) (frees q) := fun q hq pool _ => by
      refine ⟨hown q hq, ?_⟩
      rw [hquiet q hq]
      exact Or.inr (Nat.zero_le _)
    obtain ⟨s', hok, frees', hfinished⟩ := ((hvisit False).finished h hp
      ⟨hready, fun _ => Or.inr hquiet⟩ fun _ => henough).exists_ok not_false
    exact ⟨s', hok, (hfinished.kept_iff h.held hsub hkeeps).mpr hquiet⟩
  · obtain ⟨frees', hfinished⟩ := ((hvisit True).finished h hp
      ⟨fun q hq pool hpool => ⟨hown q hq, hroom q hq pool hpool⟩, fun hex => absurd trivial hex⟩
      fun _ => henough).of_ok hok
    exact (hfinished.kept_iff h.held hsub hkeeps).mp hkept

theorem EntriesKept.of_same (h : Held P env.contents s.mem ps pendings frees) (hsub : qs ⊆ ps)
    (hmem : s'.mem = s.mem) (hcalled : called s'.events = called s.events) (hkeeps : keeps) :
    EntriesKept env keeps qs s s' := by
  refine ⟨fun q => entries s.mem (pendings q), fun q => entries s.mem (pendings q), [],
    fun q hq => h.listsHold (hsub hq), fun q hq _ => ?_, fun q hq hnot => absurd hkeeps hnot,
    ?_, ?_⟩
  · rw [hmem]
    exact h.listsHold (hsub hq)
  · rw [hcalled, List.append_nil]
  · exact List.Perm.of_eq (List.append_nil _)

/-- Any thread whose calls are not refused stands for the one that has created the pools. -/
theorem Inv.by_caller (h : Inv P env.contents thread s.mem forest pendings frees)
    (hcaller : ¬ (P.threadSafety = true ∧ thread ≠ caller)) :
    Inv P env.contents caller s.mem forest pendings frees where
  held := h.held
  nodup := h.nodup
  linked := h.linked
  owner q hq pool hpool hts := by
    rw [h.owner q hq pool hpool hts]
    by_contra hne
    exact hcaller ⟨hts, hne⟩
  mutex := h.mutex

/-- Of what handlers register while cleanups are run nothing is lost if the call runs no
handler that registers anything, but for one whose node is not the first one and whose
registrations find their places. Otherwise entries are lost: wherever one cleanup is run, and
where all are run if there is room for the registrations. -/
theorem cleanup_calls_keep_iff (h : Inv P env.contents thread s.mem forest pendings frees)
    (hp : p ∈ forest.members) (call : CleanupCall) (hown : call.Own env forest pendings p s.mem)
    (henough : Enough forest pendings rounds depth) :
    (call.Harmless env forest pendings thread caller p s →
        call.LosesNothing env forest rounds depth thread caller p s) ∧
      (call.Fit env forest pendings frees p s →
        call.LosesNothing env forest rounds depth thread caller p s →
          call.Harmless env forest pendings thread caller p s) := by
  obtain ⟨pool, hpool, -, -⟩ := h.held.pools p hp
  have hsub : forest.below p ⊆ forest.members := fun q hq =>
    Forest.subtree_subset hp (Forest.mem_below.mp hq)
  have hother : P.threadSafety = true ∧ thread ≠ caller →
      P.threadSafety = true ∧ pool.owner ≠ caller := fun hother =>
    ⟨hother.1, h.owner p hp pool hpool hother.1 ▸ hother.2⟩
  obtain ⟨depth, rfl⟩ := Nat.exists_eq_add_of_lt (henough.depth_pos hp)
  cases call with
  | run data handler =>
      have hrounds := henough.nodes p hp
      exact ⟨cleanupRun_keeps h.held hp hpool hown hrounds, fun hfull ⟨s', hok, hkept⟩ =>
        cleanupRun_loses hfull h.held hp hpool hown hrounds hok hkept⟩
  | clear =>
      by_cases hcaller : P.threadSafety = true ∧ thread ≠ caller
      · refine ⟨fun _ => ⟨s, ?_, ?_⟩, fun _ _ => Or.inl hcaller⟩
        · rw [CleanupCall.perform, clear, State.getPool_bind hpool, if_pos (hother hcaller)]
        · exact .of_same h.held hsub rfl rfl trivial
      · have hkept : CleanupCall.clear.Keeps P thread caller ↔ true = true :=
          iff_of_true trivial rfl
        obtain ⟨hkeeps, honly⟩ := Visitor.losesNothing (fun _ => clear_visitor)
          (h.by_caller hcaller) hp hown henough hkept
        exact ⟨fun hharmless => hkeeps (hharmless.resolve_left hcaller),
          fun hfit hloses => Or.inr (honly hfit hloses)⟩
  | destroy =>
      by_cases hcaller : P.threadSafety = true ∧ thread ≠ caller
      · refine ⟨fun _ => ⟨s.log (.readPool p), ?_, ?_⟩, fun _ _ => Or.inl hcaller⟩
        · rw [CleanupCall.perform, destroy, State.getPool_bind hpool]
          exact if_pos (hother hcaller)
        · exact .of_same h.held hsub rfl (called_log rfl s) hcaller
      · have hgone : CleanupCall.destroy.Keeps P thread caller ↔ false = true :=
          iff_of_false hcaller Bool.false_ne_true
        obtain ⟨hkeeps, honly⟩ := Visitor.losesNothing (fun _ => destroy_visitor)
          (h.by_caller hcaller) hp hown henough hgone
        exact ⟨fun hharmless => hkeeps (hharmless.resolve_left hcaller),
          fun hfit hloses => Or.inr (honly hfit hloses)⟩

theorem cleanup_calls_keep_first : ∃ s pendings frees, firstState = some s ∧
    (CleanupCall.clear.Harmless (bump lp64 .inMemory) [(firstPool, .nil)] pendings 1 1 firstPool s →
        CleanupCall.clear.LosesNothing (bump lp64 .inMemory) [(firstPool, .nil)] 1 1 1 1 firstPool
          s) ∧
      (CleanupCall.clear.Fit (bump lp64 .inMemory) [(firstPool, .nil)] pendings frees firstPool s →
        CleanupCall.clear.LosesNothing (bump lp64 .inMemory) [(firstPool, .nil)] 1 1 1 1 firstPool
          s →
        CleanupCall.clear.Harmless (bump lp64 .inMemory) [(firstPool, .nil)] pendings 1 1 firstPool
          s) := by
  have hcreated : ∃ s pool, firstState = some s ∧ s.mem.pools firstPool = some pool ∧
      pool.cleanups = none ∧ create (bump lp64 .inMemory) 1 100 none State.empty =
        .ok (Err.ok, some firstPool, s) := ⟨_, _, rfl, rfl, rfl, rfl⟩
  obtain ⟨s, pool, hs, hpool, hnone, hcreate⟩ := hcreated
  have hspec : Yields False (create (bump lp64 .inMemory) 1 100 none State.empty) _ :=
    create_spec (inv_empty .inMemory 1) (by simp)
  obtain ⟨pendings, frees, hinv⟩ := hspec.of_ok hcreate
  have hself : firstPool ∈ Forest.members [(firstPool, .nil)] := List.mem_singleton_self _
  have hchain := (hinv.held.poolOk hself hpool).pendingChain
  rw [hnone] at hchain
  have hnil : ∀ q ∈ [firstPool], pendings q = [] := fun q hq => by
    rw [List.mem_singleton.mp hq]
    exact hchain.eq_nil
  refine ⟨s, pendings, frees, hs, cleanup_calls_keep_iff hinv hself .clear (fun q hq => ?_)
    ⟨fun q hq => ?_, Nat.le_refl 1, Nat.le_refl 1⟩⟩
  · rw [hnil q hq]
    exact fun _ hreg => absurd hreg List.not_mem_nil
  · rw [hnil q hq]
    exact Nat.zero_le _

/-! ## A handler that registers a cleanup -/

/-- What a registration during the call would need is called or pending, and it is neither. -/
theorem not_entriesKept {r : Ref} {e : Entry}
    (hpool : s.mem.pools p = some pool) (hr : pool.cleanups = some r)
    (hcalled : called s'.events = called s.events ++ [e])
    (hregs : registered env [e] ≠ [])
    (hgone : keeps → ∃ pool', s'.mem.pools p = some pool' ∧ pool'.cleanups = none) :
    ¬ EntriesKept env keeps [p] s s' := by
  rintro ⟨before, after, cs, hbefore, hkept, hafter, hcalled', hperm⟩
  have hself := List.mem_singleton_self p
  have hcs : cs = [e] := List.append_cancel_left (hcalled'.symm.trans hcalled)
  have hnone : after p = [] := by
    by_cases hk : keeps
    · obtain ⟨pool', hpool', hcleanups⟩ := hgone hk
      obtain ⟨pool'', pending, free, hpool'', hchain, -, -, hentries⟩ := hkept p hself hk
      rw [hpool'] at hpool''
      cases hpool''
      rw [hcleanups] at hchain
      rw [← hentries, hchain.eq_nil, entries_nil]
    · exact hafter p hself hk
  obtain ⟨pool', pending, free, hpool', hchain, -, -, hentries⟩ := hbefore p hself
  rw [hpool] at hpool'
  cases hpool'
  rw [hr] at hchain
  obtain ⟨c', rest, rfl, hc', -⟩ := hchain.uncons
  have hlength := hperm.length_eq
  have hpos := List.length_pos_of_ne_nil hregs
  rw [List.flatMap_singleton, List.flatMap_singleton, hnone, hcs, ← hentries, entries_cons hc',
    List.length_append, List.length_map, List.length_cons, List.length_append,
    List.length_singleton, List.length_nil] at hlength
  omega

def restless : Environment lp64 :=
  { bump lp64 .inMemory with
    handler := fun id _ => if id = 5 then [⟨firstPool, 8, 6⟩] else [] }

/-- The entry is lost by clearing and by destroying the pool, and running the cleanup reads
a pointer that was never set. -/
theorem registered_entry_lost : ∃ s₀ s, firstState = some s₀ ∧
    cleanupAdd restless firstPool 7 (.user 5) s₀ = .ok s ∧
    ∀ call ∈ [CleanupCall.clear, .destroy, .run 7 (.user 5)],
      ¬ call.LosesNothing restless [(firstPool, .nil)] 2 1 1 1 firstPool s := by
  have h : ∃ s₀ s s₁ s₂ pool r pool₁, firstState = some s₀ ∧
      cleanupAdd restless firstPool 7 (.user 5) s₀ = .ok s ∧
      s.mem.pools firstPool = some pool ∧ pool.cleanups = some r ∧
      clear restless 2 1 1 firstPool s = .ok s₁ ∧ destroy restless 2 1 1 firstPool s = .ok s₂ ∧
      cleanupRun restless 2 firstPool 7 (.user 5) s = .error .uninit ∧
      called s₁.events = called s.events ++ [(7, .user 5)] ∧
      called s₂.events = called s.events ++ [(7, .user 5)] ∧
      s₁.mem.pools firstPool = some pool₁ ∧ pool₁.cleanups = none :=
    ⟨_, _, _, _, _, _, _, rfl, rfl, rfl, rfl, rfl, rfl, rfl, rfl, rfl, rfl, rfl⟩
  obtain ⟨s₀, s, s₁, s₂, pool, r, pool₁, hs₀, hs, hpool, hr, hclear, hdestroy, hrun, hcalled₁,
    hcalled₂, hpool₁, hnone₁⟩ := h
  have hregs : registered restless [(7, .user 5)] ≠ [] := List.cons_ne_nil _ _
  refine ⟨s₀, s, hs₀, hs, ?_⟩
  simp only [List.forall_mem_cons]
  refine ⟨?_, ?_, ?_, fun call hcall => absurd hcall List.not_mem_nil⟩
  · rintro ⟨s', hok, hkept⟩
    cases hclear.symm.trans hok
    exact not_entriesKept hpool hr hcalled₁ hregs (fun _ => ⟨pool₁, hpool₁, hnone₁⟩) hkept
  · rintro ⟨s', hok, hkept⟩
    cases hdestroy.symm.trans hok
    exact not_entriesKept hpool hr hcalled₂ hregs (fun hkeeps => absurd rfl hkeeps.2) hkept
  · rintro ⟨s', hok, -⟩
    cases hrun.symm.trans hok

end Floppix.Pools
