import Floppix.System.Pool.Reentry
import Floppix.System.Pool.Usage

/-! # The handlers that clearing and destroying call

`fpx_pool_clear` and `fpx_pool_destroy` walk over a pool and those below it in the same
way: the cleanups of a pool are run, then its children are visited. Every handler that is
pending in one of these pools is called, newest first in each of them.
-/

namespace Floppix.Pools

open Layout LinkedList Outcome Kinship

variable {P : Platform} {env : Environment P} {m m' : Memory} {p : Nat} {pool : Pool}
  {ps order : List Nat} {pendings frees pendings' frees' frees'' : Nat → List Ref}
  {s s' s'' : State} {kept : Bool} {excuse : Prop} {thread rounds loop depth : Nat}

/-! ## What is left -/

def emptied (pendings : Nat → List Ref) (order : List Nat) (q : Nat) : List Ref :=
  if q ∈ order then [] else pendings q

/-- The pools that are still there after some were visited: all, or the others. -/
def left (kept : Bool) (ps order : List Nat) : List Nat :=
  if kept then ps else ps.filter (· ∉ order)

theorem emptied_mem {q : Nat} (h : q ∈ order) : emptied pendings order q = [] := if_pos h

theorem emptied_of_not_mem {q : Nat} (h : q ∉ order) : emptied pendings order q = pendings q :=
  if_neg h

theorem emptied_nil : emptied pendings [] = pendings := by
  funext q
  exact if_neg List.not_mem_nil

theorem emptied_append (order order' : List Nat) :
    emptied (emptied pendings order) order' = emptied pendings (order ++ order') := by
  funext q
  unfold emptied
  by_cases h : q ∈ order <;> by_cases h' : q ∈ order' <;> simp [h, h']

theorem emptied_single : emptied pendings [p] = Function.update pendings p [] := by
  funext q
  by_cases hq : q = p
  · subst hq
    rw [Function.update_self, emptied_mem (List.mem_singleton_self q)]
  · rw [Function.update_of_ne hq, emptied_of_not_mem (by simpa using hq)]

theorem left_nil : left kept ps [] = ps := by
  cases kept <;> simp [left]

theorem left_append (order order' : List Nat) :
    left kept (left kept ps order) order' = left kept ps (order ++ order') := by
  cases kept with
  | true => rfl
  | false =>
      simp only [left, Bool.false_eq_true, if_false, List.filter_filter]
      apply List.filter_congr
      intro q _
      rw [← Bool.decide_and, decide_eq_decide, List.mem_append, not_or]
      exact and_comm

theorem left_subset : left kept ps order ⊆ ps := by
  unfold left
  split
  · exact fun _ h => h
  · exact List.filter_subset_self ps

theorem mem_left {q : Nat} (hq : q ∈ ps) (hnot : q ∉ order) : q ∈ left kept ps order := by
  unfold left
  split
  · exact hq
  · exact List.mem_filter.mpr ⟨hq, by simpa using hnot⟩

/-- The cleanups of the pools were run, and the other pools are as they were. -/
structure Finished (env : Environment P) (kept : Bool) (ps : List Nat)
    (pendings frees : Nat → List Ref) (order : List Nat) (s : State) (frees' : Nat → List Ref)
    (s' : State) : Prop where
  held : Held P env.contents s'.mem (left kept ps order) (emptied pendings order) frees'
  places : SamePlaces s.mem s'.mem
  pools : ∀ q, q ∉ order → s'.mem.pools q = s.mem.pools q
  free : ∀ q, q ∉ order → frees' q = frees q
  records : ∀ q ∈ ps, q ∉ order → SameRecords s.mem s'.mem (pendings q ++ frees q)
  called : called s'.events =
    called s.events ++ order.flatMap fun q => entries s.mem (pendings q)

theorem Finished.nil (h : Held P env.contents s.mem ps pendings frees) :
    Finished env kept ps pendings frees [] s frees s where
  held := by
    rw [left_nil, emptied_nil]
    exact h
  places := SamePlaces.refl _
  pools _ _ := rfl
  free _ _ := rfl
  records _ _ _ := .refl _ _
  called := (List.append_nil _).symm

/-- Some pools, and then others. -/
theorem Finished.append {order' : List Nat}
    (h : Finished env kept ps pendings frees order s frees' s')
    (h' : Finished env kept (left kept ps order) (emptied pendings order) frees' order' s' frees''
      s'')
    (hsub : order' ⊆ ps) (hdisjoint : ∀ q ∈ order, q ∉ order') :
    Finished env kept ps pendings frees (order ++ order') s frees'' s'' where
  held := by
    rw [← left_append, ← emptied_append]
    exact h'.held
  places := h.places.trans h'.places
  pools q hq := by
    rw [List.mem_append, not_or] at hq
    exact (h'.pools q hq.2).trans (h.pools q hq.1)
  free q hq := by
    rw [List.mem_append, not_or] at hq
    exact (h'.free q hq.2).trans (h.free q hq.1)
  records q hmem hq := by
    rw [List.mem_append, not_or] at hq
    have hrest := h'.records q (mem_left hmem hq.1) hq.2
    rw [emptied_of_not_mem hq.1, h.free q hq.1] at hrest
    exact (h.records q hmem hq.1).trans hrest
  called := by
    have hsame : (order'.flatMap fun q => entries s'.mem (emptied pendings order q)) =
        order'.flatMap fun q => entries s.mem (pendings q) := by
      apply List.flatMap_congr
      intro q hq
      have hnot : q ∉ order := fun hmem => hdisjoint q hmem hq
      rw [emptied_of_not_mem hnot]
      have hrecords := h.records q (hsub hq) hnot
      exact (hrecords.subset (List.subset_append_left ..)).entries
    rw [h'.called, h.called, hsame, List.flatMap_append, List.append_assoc]

/-! ## What a walk needs -/

/-- The handlers of the pools register in their own pools, where there is room, and the
system grants it unless a failure is excused. -/
structure Prepared (env : Environment P) (excuse : Prop) (m : Memory)
    (pendings frees : Nat → List Ref) (qs : List Nat) : Prop where
  ready : ∀ q ∈ qs, ∀ pool, m.pools q = some pool → Ready env m q pool (pendings q) (frees q)
  granted : ¬ excuse → env.Succeeds ∨ ∀ q ∈ qs, registered env (entries m (pendings q)) = []

theorem Ready.congr {pending free : List Ref} (h : Ready env m p pool pending free)
    (hsame : SameRecords m m' (pending ++ free)) : Ready env m' p pool pending free := by
  have hentries : entries m' pending = entries m pending :=
    (hsame.subset (List.subset_append_left ..)).entries
  constructor
  · rw [hentries]
    exact h.own
  · rw [hentries]
    exact h.room

theorem Finished.prepared {qs : List Nat}
    (h : Finished env kept ps pendings frees order s frees' s')
    (hprepared : Prepared env excuse s.mem pendings frees qs) (hsub : qs ⊆ ps)
    (hnot : ∀ q ∈ qs, q ∉ order) :
    Prepared env excuse s'.mem (emptied pendings order) frees' qs where
  ready q hq pool hpool := by
    rw [h.pools q (hnot q hq)] at hpool
    rw [emptied_of_not_mem (hnot q hq), h.free q (hnot q hq)]
    exact (hprepared.ready q hq pool hpool).congr (h.records q (hsub hq) (hnot q hq))
  granted hex := by
    apply (hprepared.granted hex).imp_right
    intro hnone q hq
    have hrecords := h.records q (hsub hq) (hnot q hq)
    rw [emptied_of_not_mem (hnot q hq),
      (hrecords.subset (List.subset_append_left ..)).entries]
    exact hnone q hq

theorem Prepared.subset {qs qs' : List Nat} (h : Prepared env excuse m pendings frees qs)
    (hsub : qs' ⊆ qs) : Prepared env excuse m pendings frees qs' where
  ready q hq := h.ready q (hsub hq)
  granted hex := (h.granted hex).imp_right fun hnone q hq => hnone q (hsub hq)

/-! ## One pool -/

theorem cleanupRunAll_finished (h : Held P env.contents s.mem ps pendings frees) (hp : p ∈ ps)
    (hpool : s.mem.pools p = some pool) (hprepared : Prepared env excuse s.mem pendings frees [p])
    (hrounds : ¬ excuse → (pendings p).length ≤ rounds) :
    Yields excuse (cleanupRunAll env rounds p s) fun s' => ∃ frees',
      Finished env true ps pendings frees [p] s frees' s' := by
  have hself := List.mem_singleton_self p
  have hrun : Yields (rounds < (pendings p).length ∨ _) (cleanupRunAll env rounds p s) _ :=
    cleanupRunAll_lost h hp hpool (hprepared.ready p hself pool hpool)
  have hexcuse : rounds < (pendings p).length ∨
      ¬ env.Succeeds ∧ registered env (entries s.mem (pendings p)) ≠ [] → excuse := by
    intro hfail
    by_contra hex
    rcases hfail with hlt | ⟨hrefused, hloud⟩
    · exact Nat.not_le.mpr hlt (hrounds hex)
    · exact (hprepared.granted hex).elim hrefused fun hnone => hloud (hnone p hself)
  apply ((hrun.weaken hexcuse).and (cleanupRunAll_places env rounds p s)).mono
  intro s' _ hs'
  obtain ⟨⟨frees', hheld, helse, hcalled⟩, hplaces⟩ := hs'
  have hne : ∀ q, q ∉ [p] → q ≠ p := fun q hq => by simpa using hq
  refine ⟨frees', ?_, hplaces, fun q hq => helse.pools q (hne q hq),
    fun q hq => helse.free q (hne q hq), fun q hmem hq => helse.records q hmem (hne q hq), ?_⟩
  · rw [emptied_single]
    exact hheld
  · rw [hcalled, List.flatMap_singleton]

/-- What holds of a part of the pools. -/
theorem Finished.restrict {qs : List Nat}
    (h : Finished env kept ps pendings frees order s frees' s')
    (hsub : qs ⊆ ps) : Finished env kept qs pendings frees order s frees' s' where
  held := by
    apply h.held.subset
    intro q hq
    unfold left at hq ⊢
    cases kept with
    | true => exact hsub hq
    | false =>
        obtain ⟨hmem, hnot⟩ := List.mem_filter.mp hq
        exact List.mem_filter.mpr ⟨hsub hmem, hnot⟩
  places := h.places
  pools := h.pools
  free := h.free
  records q hq := h.records q (hsub hq)
  called := h.called

/-- The pools that were visited are not looked at any more. -/
theorem Finished.forget (h : Finished env true ps pendings frees order s frees' s') :
    Finished env kept ps pendings frees order s frees' s' where
  held := h.held.subset left_subset
  places := h.places
  pools := h.pools
  free := h.free
  records := h.records
  called := h.called

theorem Finished.from (h : Finished env kept ps pendings frees order s' frees' s'')
    (hmem : s'.mem = s.mem) (hcalled : Pools.called s'.events = Pools.called s.events) :
    Finished env kept ps pendings frees order s frees' s'' where
  held := h.held
  places := hmem ▸ h.places
  pools := hmem ▸ h.pools
  free := h.free
  records := hmem ▸ h.records
  called := by rw [h.called, hmem, hcalled]

/-- What is done to a pool at the end of its visit. -/
theorem Finished.finish (h : Finished env kept ps pendings frees order s frees' s')
    (hp : p ∈ order) (haside : Aside p s' s'') (hplaces : SamePlaces s'.mem s''.mem)
    (hrecords : s''.mem.records = s'.mem.records)
    (hheld : Held P env.contents s''.mem (left kept ps order) (emptied pendings order) frees') :
    Finished env kept ps pendings frees order s frees' s'' where
  held := hheld
  places := h.places.trans hplaces
  pools q hq := (haside.pools q fun heq => hq (heq ▸ hp)).trans (h.pools q hq)
  free := h.free
  records q hmem hq r hr := (congrFun hrecords r).trans (h.records q hmem hq r hr)
  called := haside.called.trans h.called

/-- A function that visits a pool: it runs the cleanups, visits the children one level
deeper, and then does what keeps the others as they are. -/
structure Visitor (env : Environment P) (kept : Bool) (excuse : Prop) (thread rounds : Nat)
    (visit : Nat → Nat → State → Except Fault State) : Prop where
  zero : ∀ p s, visit 0 p s = .error .fuel
  succ : ∀ {ps c : List Nat} {pendings frees : Nat → List Ref} {s : State} {p : Nat} {pool : Pool}
    {depth : Nat}, Held P env.contents s.mem ps pendings frees → p ∈ ps →
    s.mem.pools p = some pool → (P.threadSafety = true → pool.owner = thread) →
    (¬ excuse → (pendings p).length ≤ rounds) → Prepared env excuse s.mem pendings frees [p] →
    c ⊆ ps → p ∉ c →
    (∀ s₁ frees₁, Finished env true ps pendings frees [p] s frees₁ s₁ →
      Yields excuse (forChildren (visit depth) rounds pool.child s₁) fun s₂ => ∃ frees₂,
        Finished env kept ps (emptied pendings [p]) frees₁ c s₁ frees₂ s₂) →
    Yields excuse (visit (depth + 1) p s) fun s' => ∃ frees',
      Finished env kept ps pendings frees (p :: c) s frees' s'

theorem clear_visitor : Visitor env true excuse thread rounds
    fun depth p s => clear env rounds depth thread p s where
  zero _ _ := rfl
  succ {ps c pendings frees s p pool depth} h hp hpool howner hrounds hprepared hc hpc
      hchildren := by
    unfold clear
    rw [State.getPool_bind hpool]
    split
    · rename_i hother
      exact absurd (howner hother.1) hother.2
    have hlock := Aside.lock (P := P) p s pool.mutex
    have hmem : (s.lock P pool.mutex).mem = s.mem := State.lock_mem ..
    rw [← hmem] at h hpool hprepared
    apply (cleanupRunAll_finished h hp hpool hprepared hrounds).bind
    intro s₁ _ h₁
    obtain ⟨frees₁, h₁⟩ := h₁
    obtain ⟨pool₁, hpool₁⟩ := (h₁.places.some_iff p).mpr ⟨pool, hpool⟩
    rw [State.getPool_bind hpool₁, h₁.places.child hpool hpool₁]
    apply (hchildren s₁ frees₁ (h₁.from hmem hlock.called)).bind
    intro s₂ _ h₂
    obtain ⟨frees₂, h₂⟩ := h₂
    have hboth := (h₁.from hmem hlock.called).append h₂ hc fun q hq hqc => by
      rw [List.mem_singleton.mp hq] at hqc
      exact hpc hqc
    obtain ⟨pool₂, hpool₂⟩ := (h₂.places.some_iff p).mpr ⟨pool₁, hpool₁⟩
    rw [State.getPool_bind hpool₂]
    have hself : p ∈ [p] ++ c := List.mem_cons_self ..
    refine Yields.ok ⟨frees₂, hboth.finish hself ((Aside.setPool p _ s₂).trans (.unlock p _ _))
      ?_ ?_ ?_⟩
    · rw [State.unlock_mem]
      exact SamePlaces.setPool hpool₂ rfl
    · rw [State.unlock_mem]
      rfl
    · rw [State.unlock_mem]
      exact hboth.held.rewind hp hpool₂ (emptied_mem hself)

theorem called_nodeEvents (nodes : List Memnode) : called (nodeEvents nodes) = [] := by
  induction nodes with
  | nil => rfl
  | cons n nodes ih => exact ih

theorem called_slotEvents (p : Nat) (pool : Pool) (slots : List Nat) :
    called (slotEvents p pool slots) = [] := by
  induction slots with
  | nil => rfl
  | cons i slots ih =>
      have hsplit : slotEvents p pool (i :: slots) =
          .readPool p :: nodeEvents (pool.nodes i) ++ slotEvents p pool slots := rfl
      rw [hsplit, called_append, ih, List.append_nil]
      exact called_nodeEvents _

theorem destroy_visitor : Visitor env false excuse thread rounds
    fun depth p s => destroy env rounds depth thread p s where
  zero _ _ := rfl
  succ {ps c pendings frees s p pool depth} h hp hpool howner hrounds hprepared hc hpc
      hchildren := by
    unfold destroy
    rw [State.getPool_bind hpool]
    split
    · rename_i hother
      exact absurd (howner hother.1) hother.2
    have hlog : called (s.log (.readPool p)).events = called s.events := called_log rfl s
    refine (cleanupRunAll_finished (s := s.log (.readPool p)) h hp hpool hprepared hrounds).bind
      fun s₁ _ h₁ => ?_
    obtain ⟨frees₁, h₁⟩ := h₁
    replace h₁ : Finished env true ps pendings frees [p] s frees₁ s₁ := h₁.from rfl hlog
    obtain ⟨pool₁, hpool₁⟩ := (h₁.places.some_iff p).mpr ⟨pool, hpool⟩
    rw [State.getPool_bind hpool₁, h₁.places.child hpool hpool₁]
    apply (hchildren s₁ frees₁ h₁).bind
    intro s₂ _ h₂
    obtain ⟨frees₂, h₂⟩ := h₂
    have hother : ∀ q ∈ [p], q ∉ c := fun q hq hqc => by
      rw [List.mem_singleton.mp hq] at hqc
      exact hpc hqc
    have hboth : Finished env false ps pendings frees ([p] ++ c) s frees₂ s₂ :=
      h₁.forget.append (h₂.restrict left_subset) hc hother
    obtain ⟨pool₂, hpool₂⟩ := (h₂.places.some_iff p).mpr ⟨pool₁, hpool₁⟩
    rw [destroySlots_eq _ hpool₂]
    refine Yields.ok ⟨frees₂, hboth.finish (List.mem_cons_self ..) ⟨fun _ _ => rfl, ?_⟩
      (SamePlaces.of_pools rfl) rfl ?_⟩
    · rw [called_append, called_slotEvents, List.append_nil]
    · -- the pool itself was still there when its children were destroyed
      have hsub : left false ps ([p] ++ c) ⊆ left false ps c := fun q hq => by
        obtain ⟨hmem, hnot⟩ := List.mem_filter.mp hq
        apply mem_left hmem
        intro hqc
        simp [hqc] at hnot
      have hnot : p ∉ left false ps ([p] ++ c) := fun hmem => by
        simp [left] at hmem
      have hheld := h₂.held.release_doomed (mem_left hp hpc) hpool₂ hsub hnot
      rw [Memory.doomed, hpool₂, emptied_append] at hheld
      exact hheld

/-! ## The walk -/

theorem forChildren_finished {visit : Nat → Nat → State → Except Fault State} {f : Family Nat}
    {ptr : Option Nat} (hvisit : Visitor env kept excuse thread rounds visit)
    (h : Held P env.contents s.mem ps pendings frees) (hlinked : Family.Linked s.mem.links f ptr)
    (hsub : f.members ⊆ ps) (hnodup : f.members.Nodup)
    (hwalk : Walk P excuse thread rounds s.mem pendings f loop depth)
    (hprepared : Prepared env excuse s.mem pendings frees f.members) :
    Yields excuse (forChildren (visit depth) loop ptr s) fun s' => ∃ frees',
      Finished env kept ps pendings frees f.members s frees' s' := by
  induction f generalizing depth loop ptr s ps pendings frees with
  | nil =>
      cases hlinked
      cases loop <;> exact Yields.ok ⟨frees, Finished.nil h⟩
  | node a c b ihc ihb =>
      obtain ⟨rfl, child, brother, hlinks, hlc, hlb⟩ := hlinked
      have hself : a ∈ (Family.node a c b).members := List.mem_cons_self ..
      have hcmem : c.members ⊆ (Family.node a c b).members := fun q hq => by
        simp [Family.members, hq]
      have hbmem : b.members ⊆ (Family.node a c b).members := fun q hq => by
        simp [Family.members, hq]
      simp only [Family.members, List.nodup_cons, List.nodup_append, List.mem_append, not_or]
        at hnodup
      obtain ⟨⟨hac, hab⟩, hcn, hbn, hcb⟩ := hnodup
      have ha := hsub hself
      obtain ⟨pool, hpool, -, -⟩ := h.pools a ha
      rw [Memory.links, hpool, Option.map_some, Option.some_inj, Pool.links, Prod.mk.injEq]
        at hlinks
      obtain ⟨rfl, rfl⟩ := hlinks
      obtain _ | loop := loop
      · refine Yields.error (Classical.byContradiction fun hex => ?_)
        exact Nat.lt_irrefl _ (hwalk.positive hex).1
      obtain _ | depth := depth
      · unfold forChildren
        rw [State.getPool_bind hpool, hvisit.zero]
        refine Yields.error (Classical.byContradiction fun hex => ?_)
        exact Nat.lt_irrefl _ (hwalk.positive hex).2
      unfold forChildren
      rw [State.getPool_bind hpool]
      have hlog : called (s.log (.readPool a)).events = called s.events := called_log rfl s
      have hfirst : Yields excuse (visit (depth + 1) a (s.log (.readPool a))) fun s' => ∃ frees',
          Finished env kept ps pendings frees (a :: c.members) (s.log (.readPool a)) frees' s' := by
        refine hvisit.succ (s := s.log (.readPool a)) h ha hpool (hwalk.owner a hself pool hpool)
          (fun hex => hwalk.nodes hex a hself) (hprepared.subset (by simp [Family.members]))
          (fun q hq => hsub (hcmem hq)) hac fun s₁ frees₁ h₁ => ?_
        have hne : ∀ q ∈ c.members, q ∉ [a] := fun q hq hqa => by
          rw [List.mem_singleton.mp hqa] at hq
          exact hac hq
        refine ihc h₁.held (h₁.places.links ▸ hlc) (fun q hq => hsub (hcmem hq)) hcn
          (hwalk.children (fun q hq => h₁.pools q (hne q hq)) fun q hq =>
            emptied_of_not_mem (hne q hq)) ?_
        exact h₁.prepared (hprepared.subset hcmem) (fun q hq => hsub (hcmem hq)) hne
      apply hfirst.bind
      intro s₁ _ h₁
      obtain ⟨frees₁, h₁⟩ := h₁
      replace h₁ : Finished env kept ps pendings frees (a :: c.members) s frees₁ s₁ :=
        h₁.from rfl hlog
      have hne : ∀ q ∈ b.members, q ∉ a :: c.members := fun q hq hmem => by
        rcases List.mem_cons.mp hmem with rfl | hqc
        · exact hab hq
        · exact hcb q hqc q hq rfl
      have hwalk₁ := hwalk.brothers fun q hq => h₁.pools q (hne q hq)
      refine (ihb h₁.held (h₁.places.links ▸ hlb)
        (fun q hq => mem_left (hsub (hbmem hq)) (hne q hq)) hbn
        ⟨hwalk₁.owner, fun hex q hq => ?_, hwalk₁.rounds, hwalk₁.loop, hwalk₁.depth⟩
        (h₁.prepared (hprepared.subset hbmem) (fun q hq => hsub (hbmem hq)) hne)).mono
        fun s₂ _ h₂ => ?_
      · rw [emptied_of_not_mem (hne q hq)]
        exact hwalk₁.nodes hex q hq
      · obtain ⟨frees₂, h₂⟩ := h₂
        exact ⟨frees₂, h₁.append h₂ (fun q hq => hsub (hbmem hq))
          fun q hq hqb => hne q hqb hq⟩

/-- The pool and everything below it, each before its children. -/
def Forest.below (p : Nat) (forest : Forest) : List Nat := p :: (forest.offspring p).members

theorem Forest.mem_below {forest : Forest} {q : Nat} :
    q ∈ forest.below p ↔ q ∈ forest.subtree p := by
  rw [Forest.mem_subtree, Forest.below, List.mem_cons]
  exact or_comm

/-- A visit of a pool in use calls the handlers that are pending in it and below it. -/
theorem Visitor.finished {forest : Forest} {visit : Nat → Nat → State → Except Fault State}
    (hvisit : Visitor env kept excuse thread rounds visit)
    (h : Inv P env.contents thread s.mem forest pendings frees) (hp : p ∈ forest.members)
    (hprepared : Prepared env excuse s.mem pendings frees (forest.below p))
    (henough : ¬ excuse → Enough forest pendings rounds depth) :
    Yields excuse (visit depth p s) fun s' => ∃ frees',
      Finished env kept forest.members pendings frees (forest.below p) s frees' s' := by
  obtain ⟨pool, hpool, hlinked, hnot, hnodup, hsub⟩ := h.offspring hp
  cases depth with
  | zero =>
      rw [hvisit.zero]
      refine Yields.error (Classical.byContradiction fun hex => ?_)
      exact Nat.lt_irrefl 0 ((henough hex).depth_pos hp)
  | succ depth =>
      refine hvisit.succ h.held hp hpool (h.owner p hp pool hpool)
        (fun hex => (henough hex).nodes p hp) (hprepared.subset (by simp [Forest.below])) hsub hnot
        fun s₁ frees₁ h₁ => ?_
      have hne : ∀ q ∈ (forest.offspring p).members, q ∉ [p] := fun q hq hqp => by
        rw [List.mem_singleton.mp hqp] at hq
        exact hnot hq
      exact forChildren_finished hvisit h₁.held (h₁.places.links ▸ hlinked) hsub hnodup
        (h.walk hp henough (fun q hq => h₁.pools q (hne q hq)) fun q hq =>
          emptied_of_not_mem (hne q hq))
        (h₁.prepared (hprepared.subset (List.subset_cons_self ..)) hsub hne)

end Floppix.Pools
