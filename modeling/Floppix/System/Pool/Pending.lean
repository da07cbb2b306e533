import Floppix.System.Pool.Emptying
import Floppix.System.Pool.Sparing

/-! # What the functions leave pending

The entries that are pending in all pools in use after a call, and those whose handlers it has
called. A function that fails says nothing: its caller is gone.
-/

namespace Floppix.Pools

open Layout LinkedList Outcome

variable {P : Platform} {env : Environment P} {m : Memory} {p : Nat} {pool : Pool} {ps : List Nat}
  {pendings frees : Nat → List Ref} {s s' : State} {thread rounds : Nat}

/-! ## What is pending in pools -/

def Pending (env : Environment P) (ps : List Nat) (es : Nat → List Entry) (m : Memory) : Prop :=
  ∃ pendings frees, Held P env.contents m ps pendings frees ∧
    ∀ q ∈ ps, entries m (pendings q) = es q

def entriesIn (m : Memory) (pendings : Nat → List Ref) (q : Nat) : List Entry :=
  entries m (pendings q)

def registerAll (es : Nat → List Entry) (p : Nat) (news : List Entry) : Nat → List Entry :=
  Function.update es p (news ++ es p)

theorem registerAll_nil (es : Nat → List Entry) (p : Nat) : registerAll es p [] = es :=
  Function.update_eq_self p es

def Leaves (env : Environment P) (ps : List Nat) (es : Nat → List Entry) (runs : List Entry)
    (s s' : State) : Prop :=
  Pending env ps es s'.mem ∧ called s'.events = called s.events ++ runs

theorem Leaves.of_held {runs : List Entry} {es : Nat → List Entry}
    (h : Held P env.contents s'.mem ps pendings frees)
    (hes : ∀ q ∈ ps, entries s'.mem (pendings q) = es q)
    (hcalled : called s'.events = called s.events ++ runs) : Leaves env ps es runs s s' :=
  ⟨⟨pendings, frees, h, hes⟩, hcalled⟩

theorem Leaves.subset {qs : List Nat} {runs : List Entry} {es : Nat → List Entry}
    (h : Leaves env ps es runs s s') (hsub : qs ⊆ ps) : Leaves env qs es runs s s' := by
  obtain ⟨⟨pendings, frees, hheld, hes⟩, hcalled⟩ := h
  exact ⟨⟨pendings, frees, hheld.subset hsub, fun q hq => hes q (hsub hq)⟩, hcalled⟩

/-- The nodes and what they hold stay. -/
theorem Leaves.same (h : Held P env.contents s'.mem ps pendings frees)
    (hrecords : s'.mem.records = s.mem.records) (hcalled : called s'.events = called s.events) :
    Leaves env ps (entriesIn s.mem pendings) [] s s' := by
  apply Leaves.of_held h
  · intro q _
    exact SameRecords.entries fun r _ => congrFun hrecords r
  · rw [hcalled, List.append_nil]

theorem Leaves.nothing (h : Held P env.contents s'.mem ps pendings frees)
    (hrecords : s'.mem.records = s.mem.records) (hcalled : called s'.events = called s.events) :
    Leaves env ps (registerAll (entriesIn s.mem pendings) p []) [] s s' := by
  rw [registerAll_nil]
  exact .same h hrecords hcalled

theorem Leaves.unlock {s₀ : State} {runs : List Entry} {es : Nat → List Entry}
    (h : Leaves env ps es runs s s') (hcalled : called s.events = called s₀.events) (p mutex : Nat) :
    Leaves env ps es runs s₀ (s'.unlock P mutex) := by
  constructor
  · rw [State.unlock_mem]
    exact h.1
  · rw [(Aside.unlock p s' mutex).called, h.2, hcalled]

theorem cleanupAdd_leaves {data : Nat} {handler : Handler}
    (h : Held P env.contents s.mem ps pendings frees) (hp : p ∈ ps)
    (hpool : s.mem.pools p = some pool) (hsafe : AddSafe P pool (· ∈ pendings p ++ frees p))
    (hcan : CanFree s.mem pool (pendings p) data handler) :
    Yields True (cleanupAdd env p data handler s)
      (Leaves env ps (registerAll (entriesIn s.mem pendings) p [(data, handler)]) [] s) := by
  have hlock : Held P env.contents (s.lock P pool.mutex).mem ps pendings frees := by
    rwa [State.lock_mem]
  have hpool₀ : (s.lock P pool.mutex).mem.pools p = some pool := by rwa [State.lock_mem]
  have htake : Yields True (takeRecord env p (s.lock P pool.mutex)) _ :=
    (takeRecord_spec hlock hp hpool₀ hsafe).weaken fun _ => trivial
  rw [cleanupAdd, State.getPool_bind hpool]
  apply (htake.and (takeRecord_aside p _)).bind
  intro x _ hx
  obtain ⟨r, s₁⟩ := x
  obtain ⟨⟨pool', rest, ht⟩, haside⟩ := hx
  have hfree := h.taken_ne hp hpool
  rw [State.lock_mem] at ht
  simp only [State.getPool_ok ht.here]
  apply Yields.ok
  have hstay : ∀ q ∈ ps, entries (s₁.mem.setRecord P r ⟨pool'.cleanups, data, handler⟩)
      (pendings q) = entries s.mem (pendings q) := by
    intro q hq
    apply SameRecords.entries
    intro x hx
    apply ht.others_stay _ hq (List.mem_append_left _ hx)
    by_cases hqp : q = p
    · exact hfree.1 x (hqp ▸ hx)
    · exact hfree.2 q hq hqp x (List.mem_append_left _ hx)
  have haside' := ((Aside.lock p s _).trans haside).trans
    (Aside.push (P := P) p r ⟨pool'.cleanups, data, handler⟩ { pool' with cleanups := some r } s₁
      pool'.mutex)
  refine ⟨⟨Function.update pendings p (r :: pendings p), Function.update frees p rest, ?_, ?_⟩, ?_⟩
  · rw [State.unlock_mem]
    exact ht.register hp hcan
  · intro q hq
    rw [State.unlock_mem]
    show entries (s₁.mem.setRecord P r _) _ = _
    by_cases hqp : q = p
    · rw [hqp, registerAll, Function.update_self, Function.update_self,
        entries_cons (Memory.setRecord_self ..), hstay p hp]
      rfl
    · rw [registerAll, Function.update_of_ne hqp, Function.update_of_ne hqp]
      exact hstay q hq
  · rw [List.append_nil]
    exact haside'.called

/-! ## Requests -/

def largeEntry (P : Platform) (size : Nat) (answer : Option Nat) : List Entry :=
  if P.getNpages (P.alignAllocation size) - 1 > maxPoolSlot then
    answer.toList.map fun mem => (mem, .free)
  else []

theorem largeEntry_none (P : Platform) (size : Nat) : largeEntry P size none = [] := by
  unfold largeEntry
  split <;> rfl

theorem malloc_called (env : Environment P) (size : Nat) (s : State) :
    called (malloc env size s).2.events = called s.events := by
  unfold malloc
  cases env.malloc s.mem.mallocs s.mem.live size with
  | none => rfl
  | some a => exact called_log rfl s

theorem large_leaves {mem a size : Nat} (h : Held P env.contents s.mem ps pendings frees)
    (hp : p ∈ ps) (hpool : s.mem.pools p = some pool) (ha : SizeOk P a size)
    (hsafe : AddSafe P pool (· ∈ pendings p ++ frees p)) (hgrown : Grown P s.mem s'.mem ⟨mem, a⟩)
    (hcalled : called s'.events = called s.events) (mutex : Nat) :
    Yields True
      (do let s ← s'.handOut p ⟨mem, a, size, false⟩
          let s ← cleanupAdd env p mem .free s
          .ok (some mem, s.unlock P mutex))
      fun r => r.1 = some mem ∧
        Leaves env ps (registerAll (entriesIn s.mem pendings) p [(mem, .free)]) [] s r.2 := by
  have hpool' : s'.mem.pools p = some pool := (congrFun hgrown.pools p).trans hpool
  obtain ⟨hheld, hcan⟩ := h.handOut hp hpool ha hgrown
  let poolOut : Pool := { pool with large := ⟨mem, a, size, false⟩ :: pool.large }
  have hsame : entriesIn (s'.mem.setPool p poolOut) pendings = entriesIn s.mem pendings := by
    funext q
    exact SameRecords.entries fun r _ => congrFun hgrown.records r
  have hadd : Yields True (cleanupAdd env p mem .free (s'.setPool p poolOut)) _ :=
    cleanupAdd_leaves (s := s'.setPool p poolOut) hheld hp (Memory.setPool_self ..) hsafe hcan
  rw [State.handOut, State.getPool_bind hpool']
  apply hadd.bind
  intro s₁ _ h₁
  rw [State.setPool_mem, hsame] at h₁
  exact Yields.ok ⟨rfl, h₁.unlock hcalled p mutex⟩

theorem palloc_leaves {size : Nat} (h : Held P env.contents s.mem ps pendings frees) (hp : p ∈ ps)
    (hpool : s.mem.pools p = some pool)
    (hsafe : PallocSafe P pool (· ∈ pendings p ++ frees p) size) :
    Yields True (palloc env p size s) fun r =>
      Leaves env ps (registerAll (entriesIn s.mem pendings) p (largeEntry P size r.1)) [] s r.2 := by
  by_cases halign : P.alignAllocation size = 0
  · rw [palloc_zero env hpool halign]
    apply Yields.ok
    rw [largeEntry_none]
    apply Leaves.nothing
    · rwa [State.unlock_mem]
    · rw [State.unlock_mem]
    · exact (Aside.unlock p s _).called
  · have ha := P.sizeOk halign
    obtain ⟨hwrap, hslots⟩ := hsafe.resolve_left halign
    by_cases hindex : P.getNpages (P.alignAllocation size) - 1 > maxPoolSlot
    · rw [if_pos hindex] at hslots
      have hmalloc := malloc_called env (P.alignAllocation size) s
      rw [palloc, State.getPool_bind hpool, if_neg halign, if_pos hindex]
      cases hm : malloc env (P.alignAllocation size) s with
      | mk answer s₁ =>
          rw [hm] at hmalloc
          cases answer with
          | none =>
              obtain ⟨-, hlive, hpools, hrecords, hcount⟩ := malloc_none hm
              apply Yields.ok
              rw [largeEntry_none]
              apply Leaves.nothing
              · rw [State.unlock_mem]
                exact h.of_eq hlive hpools hrecords hcount
              · rw [State.unlock_mem]
                exact hrecords
              · exact (Aside.unlock p s₁ _).called.trans hmalloc
          | some mem =>
              have hentry : largeEntry P size (some mem) = [(mem, .free)] := if_pos hindex
              apply (large_leaves h hp hpool ha hslots (malloc_some hm) hmalloc _).mono
              intro r _ hr
              rw [hr.1, hentry]
              exact hr.2
    · rw [if_neg hindex] at hslots
      have hslot : largeEntry P size = fun _ => [] := funext fun _ => if_neg hindex
      have hspec : Yields False (pallocSlots env p (P.alignAllocation size) size false s) _ :=
        pallocSlots_spec h hp hpool ha hwrap (Nat.not_lt.mp hindex) hslots false
      rw [palloc_slots env hpool halign (by omega), hslot]
      apply ((hspec.weaken False.elim).and (pallocSlots_aside p _ _ false s)).mono
      intro r _ hr
      exact .nothing hr.1.held hr.1.records hr.2.called

/-- Zeros in a block of a user are in no cleanup node. -/
theorem Pending.overwrite {b : Block} {size : Nat} {es : Nat → List Entry}
    (h : Pending env ps es m) (hp : p ∈ ps) (hpool : m.pools p = some pool) (hb : b ∈ pool.blocks)
    (huser : b.record = false) (hsize : size ≤ b.size) :
    Pending env ps es (m.overwrite P ⟨b.addr, size⟩) := by
  obtain ⟨pendings, frees, hheld, hes⟩ := h
  refine ⟨pendings, frees, hheld.overwrite hp hpool hb huser hsize, fun q hq => ?_⟩
  rw [← hes q hq]
  apply SameRecords.entries
  intro r hr
  apply if_pos
  intro ht
  have hapart := hheld.block_apart hp hpool hb huser hq (List.mem_append_left _ hr) ht
  apply hapart.inside _ (.refl _)
  constructor
  · exact Nat.le_refl _
  · simp only [Region.stop, Block.region]
    omega

theorem pcalloc_leaves {size : Nat} (h : Held P env.contents s.mem ps pendings frees) (hp : p ∈ ps)
    (hpool : s.mem.pools p = some pool)
    (hsafe : PallocSafe P pool (· ∈ pendings p ++ frees p) size) :
    Yields True (pcalloc env p size s) fun r =>
      Leaves env ps (registerAll (entriesIn s.mem pendings) p (largeEntry P size r.1)) [] s r.2 := by
  have hspec : Yields True (palloc env p size s) _ :=
    (palloc_spec h hp hpool hsafe).weaken fun _ => trivial
  apply (hspec.and (palloc_leaves h hp hpool hsafe)).bind
  intro r _ hr
  obtain ⟨answer, s₁⟩ := r
  obtain ⟨hanswered, hleaves⟩ := hr
  cases answer with
  | none => exact Yields.ok hleaves
  | some mem =>
      obtain ⟨pool₁, b, hpool₁, hb, rfl, rfl, huser⟩ := hanswered.some mem rfl
      obtain ⟨pendings₁, frees₁, hheld₁⟩ := hanswered.held
      have hlong := ((hheld₁.poolOk hp hpool₁).block_ok hb).long
      exact Yields.ok ⟨hleaves.1.overwrite hp hpool₁ hb huser hlong, hleaves.2⟩

/-! ## One cleanup -/

theorem findRecord_more {data rounds' : Nat} {handler : Handler} {prev ptr : Option Ref}
    {found : Option (Option Ref × Ref)} (hle : rounds ≤ rounds')
    (h : findRecord data handler s rounds prev ptr = .ok found) :
    findRecord data handler s rounds' prev ptr = .ok found := by
  induction rounds generalizing rounds' prev ptr with
  | zero =>
      cases ptr with
      | none =>
          rw [findRecord] at h ⊢
          exact h
      | some r => cases h
  | succ rounds ih =>
      cases ptr with
      | none =>
          rw [findRecord] at h ⊢
          exact h
      | some r =>
          obtain ⟨more, rfl⟩ := Nat.exists_eq_add_of_lt (Nat.lt_of_lt_of_le (Nat.succ_pos _) hle)
          rw [Nat.zero_add] at hle ⊢
          rw [findRecord] at h ⊢
          obtain ⟨c, hc, hrest⟩ := exists_of_bind_ok h
          rw [hc]
          show (if c.data = data ∧ c.handler = handler then _ else _) = _
          by_cases hmatch : c.data = data ∧ c.handler = handler
          · rw [if_pos hmatch] at hrest ⊢
            exact hrest
          · rw [if_neg hmatch] at hrest ⊢
            exact ih (Nat.le_of_succ_le_succ hle) hrest

theorem cleanupRemove_more {rounds' : Nat} (hle : rounds ≤ rounds') (p data : Nat)
    (handler : Handler) (s : State) :
    Yields True (cleanupRemove P rounds p data handler s) fun s' =>
      cleanupRemove P rounds' p data handler s = .ok s' := by
  unfold cleanupRemove
  cases s.getPool p with
  | error e => trivial
  | ok pool =>
      show Yields True (findRecord data handler _ rounds none pool.cleanups >>= _) fun s' =>
        (findRecord data handler _ rounds' none pool.cleanups >>= _) = .ok s'
      cases hfind : findRecord data handler (s.lock P pool.mutex) rounds none pool.cleanups with
      | error e => trivial
      | ok found =>
          rw [findRecord_more hle hfind]
          exact Yields.self _

theorem cleanupRun_more {rounds' : Nat} (hle : rounds ≤ rounds') (p data : Nat)
    (handler : Handler) (s : State) :
    Yields True (cleanupRun env rounds p data handler s) fun s' =>
      cleanupRun env rounds' p data handler s = .ok s' := by
  unfold cleanupRun
  cases s.getPool p with
  | error e => trivial
  | ok pool =>
      show Yields True (findRecord data handler _ rounds none pool.cleanups >>= _) fun s' =>
        (findRecord data handler _ rounds' none pool.cleanups >>= _) = .ok s'
      cases hfind : findRecord data handler (s.lock P pool.mutex) rounds none pool.cleanups with
      | error e => trivial
      | ok found =>
          rw [findRecord_more hle hfind]
          exact Yields.self _

theorem Relisted.leaves {k : Nat} {es runs : List Entry}
    (h : Relisted env ps pendings frees p k es s s')
    (hcalled : called s'.events = called s.events ++ runs) :
    Leaves env ps (Function.update (entriesIn s.mem pendings) p es) runs s s' := by
  obtain ⟨pool', rest, frees', -, hheld, helse, hentries, -⟩ := h.lists
  refine Leaves.of_held hheld (fun q hq => ?_) hcalled
  by_cases hqp : q = p
  · rw [hqp, Function.update_self, Function.update_self, hentries]
  · have hrecords := helse.records q hq hqp
    rw [Function.update_of_ne hqp, Function.update_of_ne hqp]
    exact (hrecords.subset (List.subset_append_left ..)).entries

theorem cleanupRemove_leaves (data : Nat) (handler : Handler)
    (h : Held P env.contents s.mem ps pendings frees) (hp : p ∈ ps)
    (hpool : s.mem.pools p = some pool) :
    Yields True (cleanupRemove P rounds p data handler s) (Leaves env ps
      (Function.update (entriesIn s.mem pendings) p
        ((entries s.mem (pendings p)).erase (data, handler))) [] s) := by
  have hmore : Yields True (cleanupRemove P rounds p data handler s) _ :=
    cleanupRemove_more (Nat.le_max_left rounds (pendings p).length) p data handler s
  obtain ⟨s₁, hok, hcalled, hlisted⟩ := cleanupRemove_relisted (k := 0) data handler h hp hpool
    (Or.inr (Nat.zero_le _)) (Nat.le_max_right rounds (pendings p).length)
  apply hmore.mono
  intro s' _ hs'
  rw [hok] at hs'
  cases hs'
  apply hlisted.leaves
  rw [hcalled, List.append_nil]

def dueIn (es : List Entry) (e : Entry) : List Entry := if e ∈ es then [e] else []

theorem cleanupRun_leaves (hq : env.Quiet) (data : Nat) (handler : Handler)
    (h : Held P env.contents s.mem ps pendings frees) (hp : p ∈ ps)
    (hpool : s.mem.pools p = some pool) :
    Yields True (cleanupRun env rounds p data handler s) (Leaves env ps
      (Function.update (entriesIn s.mem pendings) p
        ((entries s.mem (pendings p)).erase (data, handler)))
      (dueIn (entries s.mem (pendings p)) (data, handler)) s) := by
  have hmore : Yields True (cleanupRun env rounds p data handler s) _ :=
    cleanupRun_more (Nat.le_max_left rounds (pendings p).length) p data handler s
  have hrounds := Nat.le_max_right rounds (pendings p).length
  have hroom : Room P pool (pendings p) (frees p) 0 := Or.inr (Nat.zero_le _)
  apply hmore.mono
  intro s' _ hs'
  by_cases he : (data, handler) ∈ entries s.mem (pendings p)
  · obtain ⟨s₁, hok, hcalled, hlisted⟩ :=
      cleanupRun_quiet h hp hpool hroom hrounds he (registers_quiet hq data handler)
    rw [hok] at hs'
    cases hs'
    rw [dueIn, if_pos he]
    exact hlisted.leaves hcalled
  · obtain ⟨s₁, hok, hcalled, hlisted⟩ := cleanupRun_missing h hp hpool hroom hrounds he
    rw [hok] at hs'
    cases hs'
    rw [dueIn, if_neg he, List.erase_of_not_mem he]
    apply hlisted.leaves
    rw [hcalled, List.append_nil]

/-! ## Clearing and destroying -/

theorem registered_quiet (hq : env.Quiet) (es : List Entry) : registered env es = [] := by
  apply List.flatMap_eq_nil_iff.mpr
  intro e _
  exact registers_quiet hq e.1 e.2

theorem Environment.Quiet.prepared (hq : env.Quiet) (qs : List Nat) :
    Prepared env True m pendings frees qs where
  ready q _ pool _ := by
    constructor
    · rw [registered_quiet hq]
      intro reg hreg
      cases hreg
    · rw [registered_quiet hq]
      exact Or.inr (Nat.zero_le _)
  granted hex := absurd trivial hex

theorem Finished.leaves {kept : Bool} {order : List Nat} {frees' : Nat → List Ref}
    (h : Finished env kept ps pendings frees order s frees' s') :
    Leaves env (left kept ps order)
      (fun q => if q ∈ order then [] else entriesIn s.mem pendings q)
      (order.flatMap (entriesIn s.mem pendings)) s s' := by
  refine Leaves.of_held h.held (fun q hq => ?_) h.called
  by_cases hmem : q ∈ order
  · rw [emptied_mem hmem, if_pos hmem]
    rfl
  · have hrecords := h.records q (left_subset hq) hmem
    rw [emptied_of_not_mem hmem, if_neg hmem]
    exact (hrecords.subset (List.subset_append_left ..)).entries

/-- A visit of a pool in use settles what is pending in it and below it. -/
theorem Visitor.leaves {kept : Bool} {forest : Forest}
    {visit : Nat → Nat → State → Except Fault State} {depth : Nat}
    (hvisit : Visitor env kept True thread rounds visit) (hq : env.Quiet)
    (h : Inv P env.contents thread s.mem forest pendings frees) (hp : p ∈ forest.members) :
    Yields True (visit depth p s) (Leaves env (left kept forest.members (forest.below p))
      (fun q => if q ∈ forest.below p then [] else entriesIn s.mem pendings q)
      ((forest.below p).flatMap (entriesIn s.mem pendings)) s) := by
  have hfinished : Yields True (visit depth p s) _ :=
    hvisit.finished h hp (hq.prepared _) fun hex => absurd trivial hex
  apply hfinished.mono
  intro s' _ hs'
  obtain ⟨frees', hs'⟩ := hs'
  exact hs'.leaves

/-! ## Creating -/

def Memory.heads (m : Memory) (q : Nat) : Option (Option Ref) := (m.pools q).map Pool.cleanups

theorem heads_setPool (m : Memory) {q : Nat} (hpool : m.pools q = some pool) {pool' : Pool}
    (hsame : pool'.cleanups = pool.cleanups) : (m.setPool q pool').heads = m.heads := by
  funext x
  unfold Memory.heads
  by_cases hx : x = q
  · rw [hx, Memory.setPool_self, hpool, Option.map_some, Option.map_some, hsame]
  · rw [Memory.setPool_of_ne _ _ hx]

/-- The new pool, if there is one, has no cleanups, and those of the others are as they were. -/
structure Blank (new : Option Nat) (s s' : State) : Prop where
  records : s'.mem.records = s.mem.records
  called : called s'.events = called s.events
  others : ∀ q, new ≠ some q → s'.mem.heads q = s.mem.heads q
  fresh : ∀ q, new = some q → s'.mem.heads q = some none

theorem Blank.nothing (hrecords : s'.mem.records = s.mem.records)
    (hcalled : Pools.called s'.events = Pools.called s.events)
    (hpools : s'.mem.pools = s.mem.pools) : Blank none s s' where
  records := hrecords
  called := hcalled
  others q _ := by
    unfold Memory.heads
    rw [hpools]
  fresh q hq := by cases hq

theorem Blank.entries_new {new : Option Nat} {q : Nat} (h : Blank new s s')
    (hheld : Held P env.contents s'.mem ps pendings frees) (hq : q ∈ ps) (hnew : new = some q) :
    entriesIn s'.mem pendings q = [] := by
  obtain ⟨pool, hpool, hok, -⟩ := hheld.pools q hq
  have hfresh := h.fresh q hnew
  unfold Memory.heads at hfresh
  rw [hpool, Option.map_some, Option.some_inj] at hfresh
  have hchain := hok.pendingChain
  rw [hfresh] at hchain
  unfold entriesIn
  rw [hchain.eq_nil]
  rfl

theorem Blank.entries_old {new : Option Nat} {q : Nat} {ps' : List Nat}
    {pendings' frees' : Nat → List Ref} (h : Blank new s s')
    (hheld : Held P env.contents s.mem ps pendings frees) (hq : q ∈ ps)
    (hheld' : Held P env.contents s'.mem ps' pendings' frees') (hq' : q ∈ ps')
    (hnew : new ≠ some q) : entriesIn s'.mem pendings' q = entriesIn s.mem pendings q := by
  obtain ⟨pool, hpool, hok, -⟩ := hheld.pools q hq
  obtain ⟨pool', hpool', hok', -⟩ := hheld'.pools q hq'
  have hsame := h.others q hnew
  unfold Memory.heads at hsame
  rw [hpool', hpool, Option.map_some, Option.map_some, Option.some_inj] at hsame
  have hchain := hok'.pendingChain
  rw [hsame, h.records] at hchain
  have hnodes : pendings' q = pendings q := hchain.unique hok.pendingChain
  unfold entriesIn
  rw [hnodes]
  exact SameRecords.entries fun r _ => congrFun h.records r

theorem Blank.opened {new : Nat} (hrecords : s'.mem.records = s.mem.records)
    (hcalled : Pools.called s'.events = Pools.called s.events)
    (hpools : s'.mem.pools = s.mem.pools) (hnone : pool.cleanups = none) :
    Blank (some new) s (s'.setPool new pool) where
  records := hrecords
  called := hcalled
  others q hq := by
    have hne : q ≠ new := fun heq => hq (congrArg some heq.symm)
    unfold Memory.heads
    rw [State.setPool_mem, Memory.setPool_of_ne _ _ hne, hpools]
  fresh q hq := by
    cases hq
    unfold Memory.heads
    rw [State.setPool_mem, Memory.setPool_self, Option.map_some, hnone]

theorem Blank.placed {new : Option Nat} {s₁ : State} (h : Blank new s s₁)
    (hheads : s'.mem.heads = s₁.mem.heads) (hrecords : s'.mem.records = s₁.mem.records)
    (hcalled : Pools.called s'.events = Pools.called s₁.events) : Blank new s s' where
  records := hrecords.trans h.records
  called := hcalled.trans h.called
  others q hq := (congrFun hheads q).trans (h.others q hq)
  fresh q hq := (congrFun hheads q).trans (h.fresh q hq)

theorem addChild_heads (parent new : Nat) (s : State) :
    Yields True (addChild parent new s) fun s' => s'.mem.heads = s.mem.heads ∧
      s'.mem.records = s.mem.records ∧ called s'.events = called s.events := by
  apply (getPool_yields s new).bind
  intro pool _ hpool
  have h₁ : (s.mem.setPool new { pool with parent := some parent }).heads = s.mem.heads :=
    heads_setPool _ hpool rfl
  apply (getPool_yields _ parent).bind
  intro old _ hold
  have h₂ : ((s.mem.setPool new { pool with parent := some parent }).setPool parent
      { old with child := some new }).heads = _ := heads_setPool _ hold rfl
  apply (getPool_yields _ new).bind
  intro pool' _ hpool'
  have h₃ : (((s.mem.setPool new { pool with parent := some parent }).setPool parent
      { old with child := some new }).setPool new { pool' with brother := old.child }).heads = _ :=
    heads_setPool _ hpool' rfl
  exact Yields.ok ⟨h₃.trans (h₂.trans h₁), rfl, rfl⟩

theorem create_blank (env : Environment P) (thread size : Nat) (parent : Option Nat) (s : State) :
    Yields True (create env thread size parent s) fun r => Blank r.2.1 s r.2.2 := by
  have hsame : Blank none s s := .nothing rfl rfl rfl
  unfold create
  show Yields True (if P.alignAllocation size = 0 then _ else _) _
  split
  · exact Yields.ok hsame
  show Yields True (if P.getNpages (P.wrap (P.alignAllocation size + P.poolHeader)) - 1 >
    maxPoolSlot then _ else _) _
  generalize P.getNpages (P.wrap (P.alignAllocation size + P.poolHeader)) = npages
  split
  · exact Yields.ok hsame
  have haside : Aside 0 s (memnodeAllocate env (npages * P.pageSize) s).2 :=
    memnodeAllocate_aside 0 (npages * P.pageSize) s
  split
  · rename_i s₁ hnone
    obtain ⟨-, -, hpools, hrecords, -⟩ := memnodeAllocate_none hnone
    rw [hnone] at haside
    exact Yields.ok (.nothing hrecords haside.called hpools)
  · rename_i node s₁ hsome
    obtain ⟨mem, rfl, hgrown⟩ := memnodeAllocate_some hsome
    rw [hsome] at haside
    apply (Yields.self _).bind
    intro made _ _
    cases made with
    | error err =>
        apply Yields.ok
        have hcalled := called_log (e := .dealloc mem) rfl s₁
        exact .nothing hgrown.records (hcalled.trans haside.called) hgrown.pools
    | ok made =>
        obtain ⟨mutex, n⟩ := made
        have hopened : Blank (some (mem + P.memnodeHeader)) s
            (s₁.setPool (mem + P.memnodeHeader) ((barePool P thread mutex).register (npages - 1)
              { n with firstAvail := n.begin, sizeAvail := n.size })) :=
          .opened hgrown.records haside.called hgrown.pools (Pool.register_cleanups ..)
        cases parent with
        | none => exact Yields.ok hopened
        | some q =>
            show Yields True (addChild q (mem + P.memnodeHeader) _ >>= _) _
            apply (addChild_heads q (mem + P.memnodeHeader) _).bind
            intro s₂ _ h₂
            exact Yields.ok (hopened.placed h₂.1 h₂.2.1 h₂.2.2)

end Floppix.Pools
