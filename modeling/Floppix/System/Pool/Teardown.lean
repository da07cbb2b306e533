import Floppix.System.Pool.Locks
import Floppix.System.Pool.Usage

/-! # What destroying pools reads and deallocates

The header of a pool lies in one of its memnodes, and `fpx_pool_destroy` reads it again
for each slot. The pools above and beside a destroyed pool keep their links to it.
-/

namespace Floppix.Pools

open Layout LinkedList Outcome Kinship Transition

variable {P : Platform} {env : Environment P} {contents : Contents} {m m' : Memory} {p q : Nat}
  {pool : Pool} {forest : Forest} {pendings frees : Nat → List Ref} {s s' : State} {thread : Nat}
  {w : World} {cs : List Call}

/-! ## Reads -/

theorem Inv.fresh (h : Inv P contents thread m forest pendings frees) (hp : p ∈ forest.members)
    (hpool : m.pools p = some pool) : Fresh m.live [] pool where
  live _ hn := (h.held.poolOk hp hpool).live _ (region_mem_of_memnode hn)
  kept _ _ := List.not_mem_nil

/-- Destroying a pool after any run of safe calls reads nothing that was deallocated, if and
only if no pool below it, nor itself, is in a memnode of a slot before the last one. -/
theorem destroy_reads_iff (hq : env.Quiet) (hcontents : env.contents = .inMemory)
    (hrun : run (World.step env thread) World.empty cs = some w)
    (hsafe : Meets (World.step env thread) (CallSafe P) World.empty cs) :
    ∃ bound, ∀ rounds depth, bound ≤ rounds → bound ≤ depth → ∀ p ∈ w.forest.members,
      ∃ s' es, destroy env rounds depth thread p w.state = .ok s' ∧
        s'.events = w.state.events ++ es ∧
        (ReadsKept w.state.mem.live [] es ↔
          ∀ q ∈ w.forest.subtree p, HomeLast P w.state.mem q) := by
  obtain ⟨pendings, frees, h⟩ := (visits_holds hq hsafe).last hrun
  obtain ⟨bound, hbound⟩ := exists_enough w.forest pendings
  refine ⟨bound, fun rounds depth hrounds hdepth p hp => ?_⟩
  have hspec : Yields False (destroy env rounds depth thread p w.state) _ :=
    h.destroy_spec hq hp fun _ => hbound rounds depth hrounds hdepth
  obtain ⟨s', hs', hd⟩ := hspec.exists_ok not_false
  obtain ⟨es, hes, -, hkept⟩ := hd.trace
  refine ⟨s', es, hs', hes, hkept hcontents _ _ h.held.heap fun q hq pool hpool => ?_⟩
  exact h.fresh (Forest.subtree_subset hp hq) hpool

/-- A pool of one page, which is where every small pool lies. -/
def onePage : List Call := [.use ⟨.create 100 none, 0, 0⟩]

theorem destroy_reads_onePage :
    ∃ w, run (World.step (bump lp64 .inMemory) 1) World.empty onePage = some w ∧
      ∃ bound, ∀ rounds depth, bound ≤ rounds → bound ≤ depth → ∀ p ∈ w.forest.members,
        ∃ s' es, destroy (bump lp64 .inMemory) rounds depth 1 p w.state = .ok s' ∧
          s'.events = w.state.events ++ es ∧
          (ReadsKept w.state.mem.live [] es ↔
            ∀ q ∈ w.forest.subtree p, HomeLast lp64 w.state.mem q) := by
  obtain ⟨w, hw⟩ : ∃ w, run (World.step (bump lp64 .inMemory) 1) World.empty onePage = some w :=
    ⟨_, rfl⟩
  exact ⟨w, hw, destroy_reads_iff (bump_quiet _) rfl hw ⟨trivial, fun _ _ => trivial⟩⟩

/-- Its header is read again after its memnode was deallocated. -/
theorem destroy_reads_freed : ∃ w s' before after,
    run (World.step (bump lp64 .inMemory) 1) World.empty onePage = some w ∧
      destroy (bump lp64 .inMemory) 1 1 1 firstPool w.state = .ok s' ∧
      s'.events = w.state.events ++ (before ++ .readPool firstPool :: after) ∧
      ∃ r ∈ w.state.mem.live, .dealloc r.addr ∈ before ∧ r.addr ≤ firstPool ∧
        firstPool < r.stop :=
  ⟨_, _, [.readPool firstPool, .readPool firstPool, .readNode 8, .dealloc 8],
    List.replicate 18 (.readPool firstPool), rfl, rfl, rfl, ⟨8, 4096⟩, List.mem_singleton_self _,
    by decide⟩

/-! ## Calls in an order -/

/-- `fpx_pool_destroy` of the pools, one after the other. -/
def destroyAll (env : Environment P) (rounds depth thread : Nat) (ps : List Nat) (s : State) :
    Except Fault State :=
  ps.foldlM (fun s p => destroy env rounds depth thread p s) s

/-- No pool is named twice, and none after a pool above it. -/
structure LegalOrder (forest : Forest) (ps : List Nat) : Prop where
  members : ∀ p ∈ ps, p ∈ forest.members
  order : ps.Pairwise fun p q => q ∉ forest.subtree p

/-- The calls deallocate each memnode of each pool they destroy exactly once, and after
each of them no link leads from a pool that is left to one that was destroyed. -/
structure DestroysOnce (env : Environment P) (rounds depth thread : Nat) (w : World)
    (ps : List Nat) : Prop where
  once : ∃ s' es, destroyAll env rounds depth thread ps w.state = .ok s' ∧
    s'.events = w.state.events ++ es ∧
    ∀ q ∈ w.forest.destroyed ps, ∀ pool, w.state.mem.pools q = some pool →
      ∀ n ∈ pool.memnodes, (deallocs es).count n.addr = 1
  unreached : ∀ ps₁ ps₂, ps = ps₁ ++ ps₂ → ∀ t,
    destroyAll env rounds depth thread ps₁ w.state = .ok t →
    ∀ q ∈ w.forest.members, q ∉ w.forest.destroyed ps₁ → ∀ d ∈ w.forest.destroyed ps₁,
      ¬ Relation.ReflTransGen (Family.Points t.mem.links) q d

theorem destroyAll_places (rounds depth : Nat) (ps : List Nat) (s : State) :
    Yields True (destroyAll env rounds depth thread ps s) fun s' => SamePlaces s.mem s'.mem :=
  Yields.foldlM (SamePlaces.refl _) fun s' p hs' =>
    (destroy_places env rounds depth thread p s').mono fun _ _ h => hs'.trans h

theorem Destroyed.subset {ps qs order : List Nat} (h : Destroyed P contents ps pendings s s' order)
    (hsub : qs ⊆ ps) : Destroyed P contents qs pendings s s' order where
  pools := h.pools
  held rs hrs := h.held rs (List.Subset.trans hrs hsub)
  trace := h.trace

/-- Trees are destroyed one after the other. -/
theorem Inv.destroyAll_roots (hq : env.Quiet) {ps : List Nat} {rounds depth : Nat}
    (h : Inv P contents thread s.mem forest pendings frees) (hroots : ∀ p ∈ ps, forest.IsRoot p)
    (hnodup : ps.Nodup) (henough : Enough forest pendings rounds depth) :
    ∃ s', destroyAll env rounds depth thread ps s = .ok s' ∧
      Destroyed P contents forest.members pendings s s' (forest.destroyed ps) ∧
      ∃ forest' frees', Inv P contents thread s'.mem forest' pendings frees' ∧
        (∀ root ∈ forest, root.1 ∉ ps → root ∈ forest') ∧
        Enough forest' pendings rounds depth := by
  induction ps generalizing s forest frees with
  | nil => exact ⟨s, rfl, Destroyed.nil h.held, forest, frees, h, fun _ hr _ => hr, henough⟩
  | cons p ps ih =>
      obtain ⟨hp, hrestNodup⟩ := List.nodup_cons.mp hnodup
      obtain ⟨root, hroot, rfl⟩ := List.mem_map.mp (hroots p (List.mem_cons_self ..))
      have hspec : Yields False (destroy env rounds depth thread root.1 s) _ :=
        h.destroy_spec hq (Forest.root_mem hroot) fun _ => henough
      obtain ⟨s₁, hs₁, hd₁⟩ := hspec.exists_ok not_false
      have hplaces := (destroy_places env rounds depth thread root.1 s).of_ok hs₁
      obtain ⟨frees₁, h₁⟩ := h.without hroot hd₁ hplaces
      obtain ⟨hroots', hsame⟩ := Forest.destroyed_without h.nodup hroot
        (fun q hq => hroots q (List.mem_cons_of_mem _ hq)) hp
      obtain ⟨s', hs', hd', forest', frees', h', hleft, henough'⟩ := ih h₁ hroots' hrestNodup
        (henough.sublist (Forest.without_sublist h.nodup hroot))
      rw [hsame] at hd'
      have hrest := hsame ▸ Forest.destroyed_subset h₁.nodup hroots'
      have hmem : ∀ q, q ∈ (forest.without root.1).members ↔
          q ∈ forest.members ∧ q ∉ forest.subtree root.1 := fun q => by
        rw [Forest.mem_without h.nodup hroot, Forest.mem_subtree_root h.nodup hroot]
      refine ⟨s', ?_, ?_, forest', frees', h', fun other hother hnot => ?_, henough'⟩
      · simp only [destroyAll, List.foldlM_cons, hs₁]
        exact hs'
      · refine Destroyed.append h.held (Forest.subtree_subset (Forest.root_mem hroot))
          (fun q hq => ((hmem q).mp (hrest hq)).1)
          (fun q hq hq' => ((hmem q).mp (hrest hq')).2 hq) hd₁
          (hd'.subset fun q hq => ?_)
        obtain ⟨hq, hnot⟩ := List.mem_filter.mp hq
        rw [decide_eq_true_iff] at hnot
        exact (hmem q).mpr ⟨hq, hnot⟩
      · rw [List.mem_cons, not_or] at hnot
        exact hleft other (Forest.subtree_without h.nodup hroot hother hnot.1).1 hnot.2

/-! ## Each memnode once -/

theorem Held.doomed_nodup {ps order : List Nat} (h : Held P contents m ps pendings frees)
    (hsub : order ⊆ ps) (hnodup : order.Nodup) : (order.flatMap m.doomed).Nodup := by
  refine List.nodup_flatMap.mpr ⟨fun p hp => ?_,
    hnodup.imp_of_mem fun {p q} hp hq hne a ha ha' => ?_⟩
  · obtain ⟨pool, hpool, -, -⟩ := h.pools p (hsub hp)
    have hall := h.addrs_nodup (hsub hp) hpool
    rw [Pool.memnodes, List.map_append] at hall
    rw [Memory.doomed, hpool]
    exact (List.nodup_append.mp hall).1
  · obtain ⟨pool, hpool, -, -⟩ := h.pools p (hsub hp)
    obtain ⟨pool', hpool', -, -⟩ := h.pools q (hsub hq)
    obtain ⟨n, hn, rfl⟩ := mem_doomed hpool ha
    obtain ⟨n', hn', heq⟩ := mem_doomed hpool' ha'
    exact h.addr_ne (hsub hp) (hsub hq) hpool hpool' hn (region_mem_of_memnode hn') (Or.inl hne)
      heq.symm

/-- Every memnode of these pools comes once, if and only if none was stored behind the last
slot. -/
theorem Held.count_doomed {ps order : List Nat} (h : Held P contents m ps pendings frees)
    (hsub : order ⊆ ps) (hnodup : order.Nodup) :
    (∀ q ∈ order, ∀ pool, m.pools q = some pool →
        ∀ n ∈ pool.memnodes, (order.flatMap m.doomed).count n.addr = 1) ↔
      ∀ q ∈ order, ∀ pool, m.pools q = some pool → pool.stray = [] := by
  have hone := h.doomed_nodup hsub hnodup
  constructor
  · intro hcount q hq pool hpool
    apply List.eq_nil_iff_forall_not_mem.mpr
    intro n hn
    have hmem : n ∈ pool.memnodes := mem_memnodes.mpr (Or.inr hn)
    have hpos : 0 < (order.flatMap m.doomed).count n.addr := by
      rw [hcount q hq pool hpool n hmem]
      exact Nat.one_pos
    obtain ⟨q', hq', ha⟩ := List.mem_flatMap.mp (List.count_pos_iff.mp hpos)
    obtain ⟨pool', hpool', -, -⟩ := h.pools q' (hsub hq')
    rw [Memory.doomed, hpool'] at ha
    obtain ⟨n', hn', heq⟩ := List.mem_map.mp ha
    refine h.addr_ne (hsub hq') (hsub hq) hpool' hpool
      (mem_memnodes_of_range (Nat.le_refl _) hn') (region_mem_of_memnode hmem) ?_ heq
    by_cases hqq : q' = q
    · -- the lists of the slots and the other memnodes have nothing in common
      subst hqq
      rw [hpool] at hpool'
      cases hpool'
      have hregions := (List.nodup_append.mp (h.poolOk (hsub hq) hpool).nodup).1
      rw [Pool.memnodes, List.map_append] at hregions
      exact Or.inr ((List.nodup_append.mp hregions).2.2 _ (List.mem_map_of_mem hn') _
        (List.mem_map_of_mem hn))
    · exact Or.inl hqq
  · intro hstray q hq pool hpool n hn
    refine List.count_eq_one_of_mem hone (List.mem_flatMap.mpr ⟨q, hq, ?_⟩)
    rw [Memory.doomed, hpool]
    apply List.mem_map_of_mem
    rw [Pool.memnodes, hstray q hq pool hpool, List.append_nil] at hn
    exact hn

/-! ## When each memnode is deallocated once -/

theorem LegalOrder.nodup {ps : List Nat} (h : LegalOrder forest ps) : ps.Nodup :=
  h.order.imp fun hnot heq => hnot (Forest.mem_subtree.mpr (Or.inr heq.symm))

/-- Where only roots are named, each memnode is deallocated once unless a pool has one that
was stored behind the last slot. -/
theorem Inv.once_iff (hq : env.Quiet) {ps : List Nat} {rounds depth : Nat}
    (h : Inv P contents thread s.mem forest pendings frees) (hroots : ∀ p ∈ ps, forest.IsRoot p)
    (hnodup : ps.Nodup) (henough : Enough forest pendings rounds depth) :
    (∃ s' es, destroyAll env rounds depth thread ps s = .ok s' ∧ s'.events = s.events ++ es ∧
      ∀ q ∈ forest.destroyed ps, ∀ pool, s.mem.pools q = some pool →
        ∀ n ∈ pool.memnodes, (deallocs es).count n.addr = 1) ↔
      ∀ q ∈ forest.destroyed ps, ∀ pool, s.mem.pools q = some pool → pool.stray = [] := by
  obtain ⟨s', hs', hd, -⟩ := h.destroyAll_roots hq hroots hnodup henough
  obtain ⟨es, hes, hdeallocs, -⟩ := hd.trace
  have hcount := h.held.count_doomed (Forest.destroyed_subset h.nodup hroots)
    (Forest.destroyed_nodup h.nodup hroots hnodup)
  constructor
  · rintro ⟨s'', es', hs'', hes', honce⟩
    rw [hs'] at hs''
    cases hs''
    rw [hes, List.append_cancel_left_eq] at hes'
    subst hes'
    rw [hdeallocs] at honce
    exact hcount.mp honce
  · intro hstray
    refine ⟨s', es, hs', hes, ?_⟩
    rw [hdeallocs]
    exact hcount.mpr hstray

theorem Inv.unreached (h : Inv P contents thread s.mem forest pendings frees) {ps : List Nat}
    (hroots : ∀ p ∈ ps, forest.IsRoot p) (hlinks : s'.mem.links = s.mem.links)
    (hq : q ∈ forest.members) (hnot : q ∉ forest.destroyed ps) {d : Nat}
    (hd : d ∈ forest.destroyed ps) :
    ¬ Relation.ReflTransGen (Family.Points s'.mem.links) q d := by
  rw [hlinks]
  intro hreach
  obtain ⟨root, hroot, hqr⟩ := Forest.mem_members.mp hq
  have hdr := (h.linked root hroot).reaches_mem hqr hreach
  refine Forest.not_destroyed h.nodup hroot hroots (fun hp => hnot ?_) hdr hd
  exact (Forest.mem_destroyed h.nodup hroots).mpr ⟨root, hroot, hp, hqr⟩

/-- A pool with a parent is destroyed: the root of its tree still leads to it. -/
theorem Inv.reached (hq : env.Quiet) {ps₁ ps₂ : List Nat} {rounds depth : Nat}
    (h : Inv P contents thread s.mem forest pendings frees)
    (hlegal : LegalOrder forest (ps₁ ++ p :: ps₂)) (hroots : ∀ p ∈ ps₁, forest.IsRoot p)
    (hp : ¬ forest.IsRoot p) (henough : Enough forest pendings rounds depth) :
    ∃ t, destroyAll env rounds depth thread (ps₁ ++ [p]) s = .ok t ∧
      ∃ q ∈ forest.members, q ∉ forest.destroyed (ps₁ ++ [p]) ∧
        Relation.ReflTransGen (Family.Points t.mem.links) q p := by
  have hnodup₁ : ps₁.Nodup := hlegal.nodup.sublist (List.sublist_append_left ..)
  obtain ⟨s₁, hs₁, -, forest₁, frees₁, h₁, hleft, henough₁⟩ :=
    h.destroyAll_roots hq hroots hnodup₁ henough
  have hpmem := hlegal.members p (by simp)
  obtain ⟨root, hroot, hpr⟩ := Forest.mem_members.mp hpmem
  have hne : p ≠ root.1 := fun heq => hp (heq ▸ List.mem_map_of_mem hroot)
  -- the root was not destroyed before, since no pool is named after one above it
  have hnot : root.1 ∉ ps₁ := fun hmem => by
    have hpair := (List.pairwise_append.mp hlegal.order).2.2 root.1 hmem p (List.mem_cons_self ..)
    exact hpair ((Forest.mem_subtree_root h.nodup hroot).mpr hpr)
  have hp₁ : p ∈ forest₁.members := Forest.mem_members.mpr ⟨root, hleft root hroot hnot, hpr⟩
  have hspec : Yields False (destroy env rounds depth thread p s₁) _ :=
    h₁.destroy_spec hq hp₁ fun _ => henough₁
  obtain ⟨t, ht, -⟩ := hspec.exists_ok not_false
  have hall : destroyAll env rounds depth thread (ps₁ ++ [p]) s = .ok t := by
    have hfold : List.foldlM (fun s p => destroy env rounds depth thread p s) s ps₁ = .ok s₁ := hs₁
    simp only [destroyAll, List.foldlM_append, hfold, List.foldlM_cons, List.foldlM_nil, bind_pure]
    exact ht
  refine ⟨t, hall, root.1, Forest.root_mem hroot, fun hmem => ?_, ?_⟩
  · rw [Forest.destroyed, List.flatMap_append, List.mem_append, List.flatMap_singleton] at hmem
    rcases hmem with hmem | hmem
    · exact Forest.not_destroyed h.nodup hroot hroots hnot (List.mem_cons_self ..) hmem
    · exact Forest.root_not_below h.nodup hroot hpr hne hmem
  · rw [((destroyAll_places rounds depth _ s).of_ok hall).links]
    exact (h.linked root hroot).reaches hpr

/-- Destroying pools after any run of safe calls deallocates each of their memnodes once and
leaves no link to them, if and only if only roots are named and no memnode was stored behind
the last slot. -/
theorem destroy_once_iff (hq : env.Quiet)
    (hrun : run (World.step env thread) World.empty cs = some w)
    (hsafe : Meets (World.step env thread) (CallSafe P) World.empty cs) :
    ∃ bound, ∀ rounds depth, bound ≤ rounds → bound ≤ depth → ∀ ps, LegalOrder w.forest ps →
      (DestroysOnce env rounds depth thread w ps ↔
        (∀ p ∈ ps, w.forest.IsRoot p) ∧
          ∀ q ∈ w.forest.destroyed ps, ∀ pool, w.state.mem.pools q = some pool →
            pool.stray = []) := by
  obtain ⟨pendings, frees, h⟩ := (visits_holds hq hsafe).last hrun
  obtain ⟨bound, hbound⟩ := exists_enough w.forest pendings
  refine ⟨bound, fun rounds depth hrounds hdepth ps hlegal => ?_⟩
  have henough := hbound rounds depth hrounds hdepth
  by_cases hroots : ∀ p ∈ ps, w.forest.IsRoot p
  · have honce := h.once_iff hq hroots hlegal.nodup henough
    constructor
    · exact fun hd => ⟨hroots, honce.mp hd.once⟩
    · intro hstray
      refine ⟨honce.mpr hstray.2, fun ps₁ ps₂ hps t ht q hqm hnot d hd => ?_⟩
      have hroots₁ : ∀ p ∈ ps₁, w.forest.IsRoot p := fun p hp =>
        hroots p (hps ▸ List.mem_append_left _ hp)
      exact h.unreached hroots₁ ((destroyAll_places rounds depth ps₁ _).of_ok ht).links hqm hnot hd
  · refine iff_of_false (fun hd => ?_) fun hall => hroots hall.1
    simp only [not_forall] at hroots
    obtain ⟨x, hx, hxr⟩ := hroots
    have hfind : (ps.find? fun p => ¬ w.forest.IsRoot p).isSome = true :=
      List.find?_isSome.mpr ⟨x, hx, by simpa using hxr⟩
    obtain ⟨p, hfirst⟩ := Option.isSome_iff_exists.mp hfind
    obtain ⟨hp, ps₁, ps₂, rfl, hbefore⟩ := List.find?_eq_some_iff_append.mp hfirst
    rw [decide_eq_true_iff] at hp
    have hroots₁ : ∀ q ∈ ps₁, w.forest.IsRoot q := fun q hq => by simpa using hbefore q hq
    obtain ⟨t, ht, q, hqm, hnot, hreach⟩ := h.reached hq hlegal hroots₁ hp henough
    refine hd.unreached (ps₁ ++ [p]) ps₂ (by simp) t ht q hqm hnot p ?_ hreach
    rw [Forest.destroyed, List.flatMap_append]
    apply List.mem_append_right _
    rw [List.flatMap_singleton]
    exact Forest.mem_subtree.mpr (Or.inr rfl)

def family : List Call :=
  [.use ⟨.create 100 none, 0, 0⟩, .use ⟨.create 100 (some firstPool), 0, 0⟩]

theorem destroy_once_family : ∃ w,
    run (World.step (bump lp64 .inMemory) 1) World.empty family = some w ∧
      ∃ bound, ∀ rounds depth, bound ≤ rounds → bound ≤ depth →
        DestroysOnce (bump lp64 .inMemory) rounds depth 1 w [firstPool] := by
  have h : ∃ w, run (World.step (bump lp64 .inMemory) 1) World.empty family = some w ∧
      w.forest.IsRoot firstPool ∧ firstPool ∈ w.forest.members ∧
      ∀ q ∈ w.forest.destroyed [firstPool],
        ((w.state.mem.pools q).all fun pool => pool.stray.isEmpty) = true :=
    ⟨_, rfl, by decide, by decide, by decide⟩
  obtain ⟨w, hw, hroot, hmem, hstray⟩ := h
  obtain ⟨bound, hbound⟩ :=
    destroy_once_iff (bump_quiet _) hw ⟨trivial, fun _ _ => ⟨trivial, fun _ _ => trivial⟩⟩
  refine ⟨w, hw, bound, fun rounds depth hrounds hdepth => ?_⟩
  refine (hbound rounds depth hrounds hdepth [firstPool] ⟨?_, List.pairwise_singleton _ _⟩).mpr
    ⟨?_, fun q hq pool hpool => ?_⟩
  · simpa using hmem
  · simpa using hroot
  · have hempty := hstray q hq
    rw [hpool] at hempty
    simpa using hempty

/-- After the child was destroyed, its parent still leads to it, and the memnode of the child
is deallocated once more with the parent. -/
theorem destroy_twice : ∃ w t t',
    run (World.step (bump lp64 .inMemory) 1) World.empty family = some w ∧
      LegalOrder w.forest [childPool, firstPool] ∧
      destroyAll (bump lp64 .inMemory) 2 2 1 [childPool] w.state = .ok t ∧
      firstPool ∉ w.forest.destroyed [childPool] ∧
      Family.Points t.mem.links firstPool childPool ∧
      destroyAll (bump lp64 .inMemory) 2 2 1 [childPool, firstPool] w.state = .ok t' ∧
      (deallocs t'.events).count (childPool - lp64.memnodeHeader) = 2 :=
  ⟨_, _, _, rfl, ⟨by decide, by decide⟩, rfl, by decide, ⟨_, _, rfl, Or.inl rfl⟩, rfl, by decide⟩

end Floppix.Pools
