import Floppix.Lib.Lifetime
import Floppix.System.Pool.Creation

/-! # Destroying pools

The loops of `fpx_pool_destroy` are followed over the tree of a pool: which memnodes
are deallocated, and whether something is read that already was.
-/

namespace Floppix.Pools

open Layout LinkedList Outcome Kinship Lifetime

variable {P : Platform} {env : Environment P} {contents : Contents} {m m' : Memory} {p q : Nat}
  {pool pool' : Pool} {pending free : List Ref} {ps : List Nat} {pendings frees : Nat → List Ref}
  {s s' : State} {live : List Region} {before : List Nat}

/-! ## Events -/

def Event.reads : Event → Option Nat
  | .readPool a => some a
  | .readNode a => some a
  | .readRecord a => some a
  | _ => none

def Event.gives : Event → Option Nat
  | .dealloc a => some a
  | _ => none

abbrev deallocs (es : List Event) : List Nat := given Event.gives es

/-- Nothing is read in a memnode that was deallocated before, nor in other memory that is
not in use. -/
abbrev ReadsKept (live : List Region) (before : List Nat) (es : List Event) : Prop :=
  Kept Event.reads Event.gives live before es

theorem deallocs_append (es es' : List Event) :
    deallocs (es ++ es') = deallocs es ++ deallocs es' := given_append

theorem readsKept_append {es es' : List Event} : ReadsKept live before (es ++ es') ↔
    ReadsKept live before es ∧ ReadsKept live (before ++ deallocs es) es' := kept_append

/-- The memnodes that `fpx_pool_destroy` finds in the slots of the pool. -/
def Memory.doomed (m : Memory) (p : Nat) : List Nat :=
  match m.pools p with
  | some pool => ((List.range maxPoolSlot).flatMap pool.nodes).map Memnode.addr
  | none => []

/-- The pool is in none of the slots that come before the last one. -/
def HomeLast (P : Platform) (m : Memory) (p : Nat) : Prop :=
  ∀ pool, m.pools p = some pool → ∀ n ∈ (List.range (maxPoolSlot - 1)).flatMap pool.nodes,
    n.addr + P.memnodeHeader ≠ p

/-! ## The slots of one pool -/

def nodeEvents (nodes : List Memnode) : List Event :=
  nodes.flatMap fun n => [.readNode n.addr, .dealloc n.addr]

def slotEvents (p : Nat) (pool : Pool) (slots : List Nat) : List Event :=
  slots.flatMap fun i => .readPool p :: nodeEvents (pool.nodes i)

def Memory.releaseAll (m : Memory) (addrs : List Nat) : Memory :=
  { m with live := m.live.filter fun r => r.addr ∉ addrs }

theorem Memory.releaseAll_append (m : Memory) (as bs : List Nat) :
    (m.releaseAll as).releaseAll bs = m.releaseAll (as ++ bs) := by
  simp only [Memory.releaseAll, List.filter_filter, List.mem_append, not_or, Bool.decide_and,
    Bool.and_comm]

theorem destroyNodes_eq (nodes : List Memnode) (s : State) :
    destroyNodes nodes s =
      ⟨s.mem.releaseAll (nodes.map Memnode.addr), s.events ++ nodeEvents nodes⟩ := by
  induction nodes generalizing s with
  | nil => simp [destroyNodes, Memory.releaseAll, nodeEvents]
  | cons n nodes ih =>
      have hstep : destroyNodes (n :: nodes) s =
          destroyNodes nodes (memnodeDeallocate n (s.log (.readNode n.addr))) := rfl
      have hone : (memnodeDeallocate n (s.log (.readNode n.addr))).mem =
          s.mem.releaseAll [n.addr] := by
        simp [memnodeDeallocate, State.log, Memory.release, Memory.releaseAll]
      rw [hstep, ih, hone, Memory.releaseAll_append]
      simp [memnodeDeallocate, State.log, nodeEvents]

theorem destroySlots_eq (slots : List Nat) (hpool : s.mem.pools p = some pool) :
    destroySlots p slots s =
      .ok ⟨s.mem.releaseAll ((slots.flatMap pool.nodes).map Memnode.addr),
        s.events ++ slotEvents p pool slots⟩ := by
  induction slots generalizing s with
  | nil => simp [destroySlots, Memory.releaseAll, slotEvents]
  | cons i slots ih =>
      unfold destroySlots
      rw [State.getPool_bind hpool, destroyNodes_eq]
      have hrest := ih (s := ⟨s.mem.releaseAll ((pool.nodes i).map Memnode.addr),
        s.events ++ [.readPool p] ++ nodeEvents (pool.nodes i)⟩) hpool
      apply hrest.trans
      rw [Memory.releaseAll_append]
      simp [slotEvents]

theorem deallocs_nodeEvents (nodes : List Memnode) :
    deallocs (nodeEvents nodes) = nodes.map Memnode.addr := by
  induction nodes with
  | nil => rfl
  | cons n nodes ih => exact congrArg (n.addr :: ·) ih

theorem deallocs_slotEvents (p : Nat) (pool : Pool) (slots : List Nat) :
    deallocs (slotEvents p pool slots) = (slots.flatMap pool.nodes).map Memnode.addr := by
  induction slots with
  | nil => rfl
  | cons i slots ih =>
      have hsplit : slotEvents p pool (i :: slots) =
          .readPool p :: nodeEvents (pool.nodes i) ++ slotEvents p pool slots := rfl
      rw [hsplit, deallocs_append, ih, List.flatMap_cons, List.map_append]
      exact congrArg (· ++ _) (deallocs_nodeEvents _)

/-- Each memnode is read before it is deallocated. -/
theorem kept_nodeEvents {nodes : List Memnode}
    (hheap : ∀ r ∈ live, ∀ x ∈ live, r ≠ x → Region.Apart r x)
    (hnodes : ∀ n ∈ nodes, n.region ∈ live ∧ 0 < n.deallocSize ∧ n.addr ∉ before)
    (hnodup : (nodes.map Memnode.addr).Nodup) : ReadsKept live before (nodeEvents nodes) := by
  induction nodes generalizing before with
  | nil => trivial
  | cons n nodes ih =>
      obtain ⟨hlive, hpos, hn⟩ := hnodes n (List.mem_cons_self ..)
      obtain ⟨hnot, hnodup⟩ := List.nodup_cons.mp hnodup
      have huse : InUse live before n.addr :=
        (inUse_iff hheap hlive (Nat.le_refl _) (Nat.lt_add_of_pos_right hpos)).mpr hn
      refine ⟨fun a ha => ?_, fun a ha => absurd ha (by simp [Event.reads]), ih (fun x hx => ?_)
        hnodup⟩
      · cases ha
        exact huse
      · obtain ⟨hxlive, hxpos, hx'⟩ := hnodes x (List.mem_cons_of_mem n hx)
        refine ⟨hxlive, hxpos, ?_⟩
        have hne : x.addr ≠ n.addr := fun heq => hnot (heq ▸ List.mem_map_of_mem hx)
        simpa [Event.gives, hne] using hx'

/-- The header of the pool is read before each slot: this is too late from the slot on
that comes behind its own. -/
theorem kept_slotEvents {slots : List Nat} {last : Nat} {home : Memnode}
    (hheap : ∀ r ∈ live, ∀ x ∈ live, r ≠ x → Region.Apart r x)
    (hnodes : ∀ n ∈ (slots ++ [last]).flatMap pool.nodes,
      n.region ∈ live ∧ 0 < n.deallocSize ∧ n.addr ∉ before)
    (hnodup : (((slots ++ [last]).flatMap pool.nodes).map Memnode.addr).Nodup)
    (hhome : home.region ∈ live) (hlo : home.addr ≤ p) (hhi : p < home.region.stop) :
    ReadsKept live before (slotEvents p pool (slots ++ [last])) ↔
      home.addr ∉ before ++ (slots.flatMap pool.nodes).map Memnode.addr := by
  have huse : ∀ before, InUse live before p ↔ home.addr ∉ before := fun before =>
    inUse_iff hheap hhome hlo hhi
  have hread : ∀ before i rest, (∀ n ∈ pool.nodes i,
      n.region ∈ live ∧ 0 < n.deallocSize ∧ n.addr ∉ before) →
      ((pool.nodes i).map Memnode.addr).Nodup →
      (ReadsKept live before (.readPool p :: nodeEvents (pool.nodes i) ++ rest) ↔
        home.addr ∉ before ∧
          ReadsKept live (before ++ (pool.nodes i).map Memnode.addr) rest) := by
    intro before i rest hok hdup
    have hkept := kept_nodeEvents hheap hok hdup
    have hreads : (∀ a ∈ Event.reads (.readPool p), InUse live before a) ↔ home.addr ∉ before := by
      simp [Event.reads, huse]
    rw [ReadsKept, List.cons_append, kept_cons, hreads]
    have hrest : ReadsKept live before (nodeEvents (pool.nodes i) ++ rest) ↔
        ReadsKept live (before ++ (pool.nodes i).map Memnode.addr) rest := by
      rw [readsKept_append, deallocs_nodeEvents]
      exact and_iff_right hkept
    simpa only [Event.gives, Option.toList_none, List.append_nil] using
      and_congr_right fun _ => hrest
  induction slots generalizing before with
  | nil =>
      have hlast := hread before last [] (by simpa using hnodes) (by simpa using hnodup)
      have hnil : slotEvents p pool ([] ++ [last]) =
          .readPool p :: nodeEvents (pool.nodes last) ++ [] := by simp [slotEvents]
      rw [hnil, hlast]
      simp [ReadsKept, Kept]
  | cons i slots ih =>
      rw [List.cons_append, List.flatMap_cons] at hnodes hnodup
      rw [List.map_append] at hnodup
      obtain ⟨hdup, hdup', hdisjoint⟩ := List.nodup_append.mp hnodup
      have hfirst := hread before i (slotEvents p pool (slots ++ [last]))
        (fun n hn => hnodes n (List.mem_append_left _ hn)) hdup
      have hok : ∀ n ∈ (slots ++ [last]).flatMap pool.nodes, n.region ∈ live ∧
          0 < n.deallocSize ∧ n.addr ∉ before ++ (pool.nodes i).map Memnode.addr := by
        intro n hn
        obtain ⟨hlive, hpos, hnot⟩ := hnodes n (List.mem_append_right _ hn)
        refine ⟨hlive, hpos, fun hmem => ?_⟩
        rcases List.mem_append.mp hmem with hmem | hmem
        · exact hnot hmem
        · exact hdisjoint _ hmem _ (List.mem_map_of_mem hn) rfl
      have hrest : ReadsKept live (before ++ (pool.nodes i).map Memnode.addr)
          (slotEvents p pool (slots ++ [last])) ↔ _ := ih hok hdup'
      have hcons : slotEvents p pool (i :: slots ++ [last]) =
          .readPool p :: nodeEvents (pool.nodes i) ++ slotEvents p pool (slots ++ [last]) := rfl
      rw [hcons, hfirst, hrest, List.flatMap_cons, List.map_append, List.append_assoc]
      simp only [List.mem_append, not_or]
      tauto

/-! ## One pool among the others -/

theorem mem_memnodes_of_range {k : Nat} (hk : k ≤ maxPoolSlot) {n : Memnode}
    (hn : n ∈ (List.range k).flatMap pool.nodes) : n ∈ pool.memnodes := by
  obtain ⟨i, hi, hn⟩ := List.mem_flatMap.mp hn
  exact mem_memnodes_of_slot (Nat.lt_of_lt_of_le (List.mem_range.mp hi) hk) hn

theorem mem_doomed (hpool : m.pools p = some pool) {a : Nat} (ha : a ∈ m.doomed p) :
    ∃ n ∈ pool.memnodes, n.addr = a := by
  rw [Memory.doomed, hpool] at ha
  obtain ⟨n, hn, rfl⟩ := List.mem_map.mp ha
  exact ⟨n, mem_memnodes_of_range (Nat.le_refl _) hn, rfl⟩

theorem doomed_congr (h : m'.pools p = m.pools p) : m'.doomed p = m.doomed p := by
  rw [Memory.doomed, h, Memory.doomed]

theorem HomeLast.congr (h : m'.pools p = m.pools p) : HomeLast P m' p ↔ HomeLast P m p := by
  rw [HomeLast, h, HomeLast]

theorem Held.addr_ne (h : Held P contents m ps pendings frees) (hp : p ∈ ps) (hq : q ∈ ps)
    (hpool : m.pools p = some pool) (hpool' : m.pools q = some pool') {n : Memnode} {r : Region}
    (hn : n ∈ pool.memnodes) (hr : r ∈ pool'.regions) (hne : p ≠ q ∨ n.region ≠ r) :
    n.addr ≠ r.addr := by
  have hnpos := (h.poolOk hp hpool).region_pos (region_mem_of_memnode hn)
  have hrpos := (h.poolOk hq hpool').region_pos hr
  have hapart := h.regions_apart hp hq hpool hpool' (region_mem_of_memnode hn) hr hne
  simp only [Region.Apart, Region.stop, Memnode.region] at hapart hnpos
  omega

theorem Held.addrs_nodup (h : Held P contents m ps pendings frees) (hp : p ∈ ps)
    (hpool : m.pools p = some pool) : (pool.memnodes.map Memnode.addr).Nodup := by
  have hok := h.poolOk hp hpool
  refine List.Nodup.map_on (fun n hn n' hn' heq => ?_)
    (List.Nodup.of_map _ (List.nodup_append.mp hok.nodup).1)
  by_cases hne : n.region = n'.region
  · exact hok.memnode_inj hn hn' hne
  · exact absurd heq (h.addr_ne hp hp hpool hpool hn (region_mem_of_memnode hn') (Or.inr hne))

theorem Held.congr_lists {pendings' frees' : Nat → List Ref}
    (h : Held P contents m ps pendings frees) (hp : ∀ q ∈ ps, pendings' q = pendings q)
    (hf : ∀ q ∈ ps, frees' q = frees q) : Held P contents m ps pendings' frees' where
  heap := h.heap
  pools q hq := by
    rw [hp q hq, hf q hq]
    exact h.pools q hq
  regions := h.regions
  listed q₁ hq₁ q₂ hq₂ hne := by
    rw [hp q₁ hq₁, hf q₁ hq₁, hp q₂ hq₂, hf q₂ hq₂]
    exact h.listed q₁ hq₁ q₂ hq₂ hne

/-- The other pools keep their memory. -/
theorem Held.release_doomed {qs : List Nat} (h : Held P contents m ps pendings frees) (hp : p ∈ ps)
    (hpool : m.pools p = some pool) (hqs : qs ⊆ ps) (hnot : p ∉ qs) :
    Held P contents (m.releaseAll (m.doomed p)) qs pendings frees := by
  have hsub : ∀ x ∈ (m.releaseAll (m.doomed p)).live, x ∈ m.live := fun x hx =>
    (List.mem_filter.mp hx).1
  refine (h.subset hqs).of_live (fun x hx y hy => h.heap x (hsub x hx) y (hsub y hy))
    (fun q hq poolq hpoolq r hr => ?_) rfl rfl rfl
  refine List.mem_filter.mpr ⟨(h.poolOk (hqs hq) hpoolq).live r hr, ?_⟩
  rw [decide_eq_true_iff]
  intro hmem
  obtain ⟨n, hn, heq⟩ := mem_doomed hpool hmem
  have hpq : p ≠ q := fun hpq => hnot (hpq ▸ hq)
  exact h.addr_ne hp (hqs hq) hpool hpoolq hn hr (Or.inl hpq) heq

/-- The stretches of memory are apart, and the memnodes of the pool are among them and
were not deallocated. -/
structure Fresh (live : List Region) (before : List Nat) (pool : Pool) : Prop where
  live : ∀ n ∈ pool.memnodes, n.region ∈ live
  kept : ∀ n ∈ pool.memnodes, n.addr ∉ before

theorem Held.kept_header (h : Held P contents m ps pendings frees) (hp : p ∈ ps)
    (hpool : m.pools p = some pool) (hheap : ∀ r ∈ live, ∀ x ∈ live, r ≠ x → Region.Apart r x)
    (hfresh : Fresh live before pool) (es : List Event) :
    ReadsKept live before (.readPool p :: es) ↔ ReadsKept live before es := by
  obtain ⟨home, hhome, -, hlo, hhi⟩ := (h.poolOk hp hpool).home
  have hfirst : InUse live before p :=
    (inUse_iff hheap (hfresh.live home hhome) hlo hhi).mpr (hfresh.kept home hhome)
  rw [ReadsKept, kept_cons]
  simp only [Event.gives, Option.toList_none, List.append_nil]
  apply and_iff_right
  intro a ha
  cases ha
  exact hfirst

theorem Held.kept_slots (h : Held P contents m ps pendings frees) (hp : p ∈ ps)
    (hpool : m.pools p = some pool) (hheap : ∀ r ∈ live, ∀ x ∈ live, r ≠ x → Region.Apart r x)
    (hfresh : Fresh live before pool) :
    ReadsKept live before (slotEvents p pool (List.range maxPoolSlot)) ↔ HomeLast P m p := by
  have hok := h.poolOk hp hpool
  obtain ⟨home, hhome, haddr, hlo, hhi⟩ := hok.home
  have hrange : List.range maxPoolSlot = List.range (maxPoolSlot - 1) ++ [maxPoolSlot - 1] :=
    List.range_succ
  have hmem : ∀ n ∈ (List.range maxPoolSlot).flatMap pool.nodes, n ∈ pool.memnodes :=
    fun n hn => mem_memnodes_of_range (Nat.le_refl _) hn
  have hnodup : (((List.range maxPoolSlot).flatMap pool.nodes).map Memnode.addr).Nodup := by
    have hall := h.addrs_nodup hp hpool
    rw [Pool.memnodes, List.map_append] at hall
    exact (List.nodup_append.mp hall).1
  rw [hrange] at hmem hnodup ⊢
  rw [kept_slotEvents hheap (fun n hn => ⟨hfresh.live n (hmem n hn), hok.memnode_pos (hmem n hn),
    hfresh.kept n (hmem n hn)⟩) hnodup (hfresh.live home hhome) hlo hhi]
  constructor
  · intro hnot pool' hpool' n hn heq
    rw [hpool] at hpool'
    cases hpool'
    have hsame : n.addr = home.addr := by omega
    exact hnot (List.mem_append_right _ (hsame ▸ List.mem_map_of_mem hn))
  · intro hlast hin
    rcases List.mem_append.mp hin with hin | hin
    · exact hfresh.kept home hhome hin
    · obtain ⟨n, hn, heq⟩ := List.mem_map.mp hin
      exact hlast pool hpool n hn (heq ▸ haddr)

/-- The cleanup nodes of a pool lie in its memnodes. -/
theorem Held.kept_runs (h : Held P .inMemory m ps pendings frees) (hp : p ∈ ps)
    (hpool : m.pools p = some pool) (hheap : ∀ r ∈ live, ∀ x ∈ live, r ≠ x → Region.Apart r x)
    (hfresh : Fresh live before pool) {es : List Event}
    (hes : ∀ e ∈ es, RunEvent (pendings p) e) : ReadsKept live before es := by
  have hok := h.poolOk hp hpool
  refine kept_of_quiet (fun e he => ?_) fun e he a ha => ?_
  · have hrun := hes e he
    cases e with
    | dealloc a => cases hrun
    | _ => rfl
  · have hrun := hes e he
    cases e with
    | readRecord b =>
        cases ha
        obtain ⟨r, hr, rfl⟩ := hrun
        have hlisted := List.mem_append_left (frees p) hr
        obtain ⟨n, hn, hlo, hhi⟩ :=
          hok.housed_inside (hok.houses r hlisted (hok.tags r hlisted))
        have hpos := P.cleanup_pos
        simp only [recordRegion, Region.stop] at hlo hhi
        exact (inUse_iff hheap (hfresh.live n hn) hlo (by simp only [Region.stop]; omega)).mpr
          (hfresh.kept n hn)
    | readPool b => cases hrun
    | readNode b => cases hrun
    | _ => cases ha

/-! ## A tree of pools -/

structure Destroyed (P : Platform) (contents : Contents) (ps : List Nat)
    (pendings : Nat → List Ref) (s s' : State) (order : List Nat) : Prop where
  pools : ∀ q, q ∉ order → s'.mem.pools q = s.mem.pools q
  held : ∀ qs, qs ⊆ ps → qs.Disjoint order →
    ∃ frees', Held P contents s'.mem qs pendings frees'
  trace : ∃ es, s'.events = s.events ++ es ∧ deallocs es = order.flatMap s.mem.doomed ∧
    (contents = .inMemory → ∀ live before,
      (∀ r ∈ live, ∀ x ∈ live, r ≠ x → Region.Apart r x) →
      (∀ q ∈ order, ∀ pool, s.mem.pools q = some pool → Fresh live before pool) →
      (ReadsKept live before es ↔ ∀ q ∈ order, HomeLast P s.mem q))

theorem Destroyed.nil (h : Held P contents s.mem ps pendings frees) :
    Destroyed P contents ps pendings s s [] where
  pools _ _ := rfl
  held qs hqs _ := ⟨frees, h.subset hqs⟩
  trace := ⟨[], (List.append_nil _).symm, rfl, fun _ _ _ _ _ => by simp [ReadsKept, Kept]⟩

theorem Fresh.after {order : List Nat} (h : Held P contents m ps pendings frees)
    (hsub : order ⊆ ps) (hq : q ∈ ps) (hnot : q ∉ order) (hpool : m.pools q = some pool)
    (hfresh : Fresh live before pool) : Fresh live (before ++ order.flatMap m.doomed) pool where
  live := hfresh.live
  kept n hn hmem := by
    rcases List.mem_append.mp hmem with hmem | hmem
    · exact hfresh.kept n hn hmem
    · obtain ⟨x, hx, hmem⟩ := List.mem_flatMap.mp hmem
      obtain ⟨poolx, hpoolx, -, -⟩ := h.pools x (hsub hx)
      obtain ⟨n', hn', heq⟩ := mem_doomed hpoolx hmem
      have hne : x ≠ q := fun hxq => hnot (hxq ▸ hx)
      exact h.addr_ne (hsub hx) hq hpoolx hpool hn' (region_mem_of_memnode hn) (Or.inl hne) heq

theorem Destroyed.append {s₁ : State} {o₁ o₂ : List Nat}
    (h : Held P contents s.mem ps pendings frees) (hsub₁ : o₁ ⊆ ps) (hsub₂ : o₂ ⊆ ps)
    (hdisjoint : o₁.Disjoint o₂) (h₁ : Destroyed P contents ps pendings s s₁ o₁)
    (h₂ : Destroyed P contents (ps.filter (· ∉ o₁)) pendings s₁ s' o₂) :
    Destroyed P contents ps pendings s s' (o₁ ++ o₂) := by
  have hsame : ∀ q ∈ o₂, s₁.mem.pools q = s.mem.pools q := fun q hq =>
    h₁.pools q fun hq₁ => hdisjoint hq₁ hq
  constructor
  · intro q hq
    rw [List.mem_append, not_or] at hq
    rw [h₂.pools q hq.2, h₁.pools q hq.1]
  · intro qs hqs hqd
    refine h₂.held qs (fun q hq => List.mem_filter.mpr ⟨hqs hq, ?_⟩) fun q hq hq₂ =>
      hqd hq (List.mem_append_right _ hq₂)
    rw [decide_eq_true_iff]
    exact fun hq₁ => hqd hq (List.mem_append_left _ hq₁)
  · obtain ⟨es₁, hes₁, hd₁, hk₁⟩ := h₁.trace
    obtain ⟨es₂, hes₂, hd₂, hk₂⟩ := h₂.trace
    have hdoomed : o₂.flatMap s₁.mem.doomed = o₂.flatMap s.mem.doomed :=
      List.flatMap_congr fun q hq => doomed_congr (hsame q hq)
    refine ⟨es₁ ++ es₂, by rw [hes₂, hes₁, List.append_assoc], ?_,
      fun hc live before hheap hf => ?_⟩
    · rw [deallocs_append, hd₁, hd₂, hdoomed, List.flatMap_append]
    · have hk₁' := hk₁ hc live before hheap fun q hq => hf q (List.mem_append_left _ hq)
      have hk₂' := hk₂ hc live (before ++ o₁.flatMap s.mem.doomed) hheap fun q hq pool hpool => by
        rw [hsame q hq] at hpool
        exact Fresh.after h hsub₁ (hsub₂ hq) (fun hq₁ => hdisjoint hq₁ hq) hpool
          (hf q (List.mem_append_right _ hq) pool hpool)
      rw [readsKept_append, hd₁, hk₁', hk₂', List.forall_mem_append]
      exact and_congr_right fun _ => forall₂_congr fun q hq => HomeLast.congr (hsame q hq)

theorem deallocs_runs {es : List Event} (hes : ∀ e ∈ es, RunEvent pending e) :
    deallocs es = [] := by
  apply List.filterMap_eq_nil_iff.mpr
  intro e he
  have hrun := hes e he
  cases e with
  | dealloc a => cases hrun
  | _ => rfl

/-- What `fpx_pool_destroy` does to one pool: its header is read, its cleanups are run, its
children are destroyed, and its slots are emptied. -/
theorem Held.trace_one (h : Held P contents s.mem ps pendings frees) (hp : p ∈ ps)
    (hpool : s.mem.pools p = some pool) {c : List Nat} (hc : c ⊆ ps) (hpc : p ∉ c)
    {runs es : List Event} (hruns : ∀ e ∈ runs, RunEvent (pendings p) e)
    (hdeallocs : deallocs es = c.flatMap s.mem.doomed) :
    deallocs (.readPool p :: (runs ++ (es ++ slotEvents p pool (List.range maxPoolSlot)))) =
        (c ++ [p]).flatMap s.mem.doomed ∧
      (contents = .inMemory → ∀ live before,
        (∀ r ∈ live, ∀ x ∈ live, r ≠ x → Region.Apart r x) → Fresh live before pool →
        (ReadsKept live before
            (.readPool p :: (runs ++ (es ++ slotEvents p pool (List.range maxPoolSlot)))) ↔
          ReadsKept live before es ∧ HomeLast P s.mem p)) := by
  have hown : s.mem.doomed p =
      ((List.range maxPoolSlot).flatMap pool.nodes).map Memnode.addr := by
    rw [Memory.doomed, hpool]
  have hruns' : deallocs runs = [] := deallocs_runs hruns
  constructor
  · have hread : ∀ rest : List Event, deallocs (.readPool p :: rest) = deallocs rest := fun _ => rfl
    rw [hread, deallocs_append, deallocs_append, hruns', hdeallocs, deallocs_slotEvents,
      List.flatMap_append, List.flatMap_singleton, hown, List.nil_append]
  · intro hcontents live before hheap hfresh
    subst hcontents
    have hkept := h.kept_runs hp hpool hheap hfresh hruns
    have hslots := h.kept_slots hp hpool hheap (Fresh.after h hc hp hpc hpool hfresh)
    rw [h.kept_header hp hpool hheap hfresh, readsKept_append, hruns', List.append_nil,
      readsKept_append, hdeallocs, hslots]
    exact and_iff_right hkept

/-- A pool is destroyed once its children are. What the bound on the rounds must be is only
asked for where a failure is not excused. -/
theorem destroy_one {excuse : Prop} (hq : env.Quiet) {rounds depth thread : Nat} {c : List Nat}
    (h : Held P contents s.mem ps pendings frees) (hp : p ∈ ps) (hpool : s.mem.pools p = some pool)
    (howner : P.threadSafety = true → pool.owner = thread)
    (hrounds : ¬ excuse → (pendings p).length ≤ rounds) (hc : c ⊆ ps) (hpc : p ∉ c)
    (hchildren : ∀ s₁ pendings₁ frees₁, (∀ q, q ≠ p → s₁.mem.pools q = s.mem.pools q) →
      s₁.mem.links = s.mem.links → (∀ q, q ≠ p → pendings₁ q = pendings q) →
      Held P contents s₁.mem ps pendings₁ frees₁ →
      Yields excuse (forChildren (destroy env rounds depth thread) rounds pool.child s₁)
        fun s₂ => Destroyed P contents ps pendings₁ s₁ s₂ c) :
    Yields excuse (destroy env rounds (depth + 1) thread p s) fun s' =>
      Destroyed P contents ps pendings s s' (c ++ [p]) := by
  unfold destroy
  rw [State.getPool_bind hpool]
  split
  · rename_i hother
    exact absurd (howner hother.1) hother.2
  have hplaces := cleanupRunAll_places env rounds p (s.log (.readPool p))
  have hrun : Yields excuse (cleanupRunAll env rounds p (s.log (.readPool p))) _ :=
    (cleanupRunAll_spec hq (s := s.log (.readPool p)) h hp hpool).weaken fun hlt =>
      Classical.byContradiction fun hex => absurd (hrounds hex) (Nat.not_le.mpr hlt)
  apply (hrun.and hplaces).bind
  intro s₁ _ h₁
  obtain ⟨⟨⟨runs, hes₁, hruns⟩, pool₁, hran⟩, hplaces₁⟩ := h₁
  rw [State.log_mem] at hran hplaces₁
  obtain ⟨frees₁, hheld₁⟩ := hran.held
  have hpool₁ : s₁.mem.pools p = some pool₁ := by rw [hran.pools, Function.update_self]
  have hsame₁ : ∀ q, q ≠ p → s₁.mem.pools q = s.mem.pools q := fun q hqp => by
    rw [hran.pools, Function.update_of_ne hqp]
  have hchild : pool₁.child = pool.child :=
    congrArg (fun place => place.1.1) hran.same.place
  rw [State.getPool_bind hpool₁, hchild]
  refine (hchildren s₁ _ frees₁ hsame₁ hplaces₁.links
    (fun q hqp => Function.update_of_ne hqp _ _) hheld₁).bind fun s₂ _ h₂ => ?_
  have hpool₂ : s₂.mem.pools p = some pool₁ := (h₂.pools p hpc).trans hpool₁
  rw [destroySlots_eq _ hpool₂]
  have hnodes : slotEvents p pool₁ (List.range maxPoolSlot) =
      slotEvents p pool (List.range maxPoolSlot) := by
    rw [slotEvents, hran.same.nodes, slotEvents]
  have hdoomed₂ : s₂.mem.doomed p =
      ((List.range maxPoolSlot).flatMap pool₁.nodes).map Memnode.addr := by
    rw [Memory.doomed, hpool₂]
  refine Yields.ok ⟨fun q hq => ?_, fun qs hqs hqd => ?_, ?_⟩
  · rw [List.mem_append, List.mem_singleton, not_or] at hq
    exact (h₂.pools q hq.1).trans (hsame₁ q hq.2)
  · have hpqs : p ∉ qs := fun hmem => hqd hmem (List.mem_append_right _ (List.mem_singleton_self p))
    obtain ⟨frees₂, hheld₂⟩ := h₂.held (p :: qs) (List.cons_subset.mpr ⟨hp, hqs⟩) fun x hx hxc => by
      rcases List.mem_cons.mp hx with rfl | hx
      · exact hpc hxc
      · exact hqd hx (List.mem_append_left _ hxc)
    have hheld₃ := hheld₂.release_doomed (List.mem_cons_self ..) hpool₂
      (List.subset_cons_self p qs) hpqs
    rw [hdoomed₂] at hheld₃
    refine ⟨frees₂, hheld₃.congr_lists (fun q hq => ?_) fun _ _ => rfl⟩
    have hqp : q ≠ p := fun heq => hpqs (heq ▸ hq)
    exact (Function.update_of_ne hqp _ _).symm
  · obtain ⟨es₂, hes₂, hd₂, hk₂⟩ := h₂.trace
    have hsamec : ∀ q ∈ c, s₁.mem.pools q = s.mem.pools q := fun q hq =>
      hsame₁ q fun heq => hpc (heq ▸ hq)
    have hdc : deallocs es₂ = c.flatMap s.mem.doomed :=
      hd₂.trans (List.flatMap_congr fun q hq => doomed_congr (hsamec q hq))
    obtain ⟨hdeallocs, hkept⟩ := h.trace_one hp hpool hc hpc hruns hdc
    refine ⟨_, ?_, hdeallocs, fun hcontents live before hheap hfresh => ?_⟩
    · simp only [hes₂, hes₁, hnodes, State.log, List.append_assoc, List.cons_append,
        List.nil_append]
    · have hfp := hfresh p (List.mem_append_right _ (List.mem_singleton_self p)) pool hpool
      have hkc := hk₂ hcontents live before hheap fun q hq poolq hpoolq =>
        hfresh q (List.mem_append_left _ hq) poolq (hsamec q hq ▸ hpoolq)
      rw [hkept hcontents live before hheap hfp, hkc, List.forall_mem_append,
        List.forall_mem_singleton]
      apply and_congr_left
      intro _
      exact forall₂_congr fun q hq => HomeLast.congr (hsamec q hq)

theorem Destroyed.read {order : List Nat} (h : Held P contents s.mem ps pendings frees)
    (hp : p ∈ ps) (hpo : p ∈ order)
    (hd : Destroyed P contents ps pendings (s.log (.readPool p)) s' order) :
    Destroyed P contents ps pendings s s' order where
  pools := hd.pools
  held := hd.held
  trace := by
    obtain ⟨es, hes, hdeallocs, hkept⟩ := hd.trace
    refine ⟨.readPool p :: es, by simp [hes, State.log], hdeallocs,
      fun hcontents live before hheap hfresh => ?_⟩
    obtain ⟨pool, hpool, -, -⟩ := h.pools p hp
    rw [h.kept_header hp hpool hheap (hfresh p hpo pool hpool)]
    exact hkept hcontents live before hheap hfresh

/-- What a walk over a family needs: the thread owns the pools, and the bounds are large
enough unless a failure is excused. -/
structure Walk (P : Platform) (excuse : Prop) (thread rounds : Nat) (m : Memory)
    (pendings : Nat → List Ref) (f : Family Nat) (loop depth : Nat) : Prop where
  owner : ∀ q ∈ f.members, ∀ pool, m.pools q = some pool → P.threadSafety = true →
    pool.owner = thread
  nodes : ¬ excuse → ∀ q ∈ f.members, (pendings q).length ≤ rounds
  rounds : ¬ excuse → f.members.length ≤ rounds
  loop : ¬ excuse → f.members.length ≤ loop
  depth : ¬ excuse → f.members.length ≤ depth

section Walk

variable {excuse : Prop} {thread rounds a loop depth : Nat} {c b f : Family Nat}
  {pendings' : Nat → List Ref}

theorem Walk.positive (h : Walk P excuse thread rounds m pendings (.node a c b) loop depth) :
    ¬ excuse → 0 < loop ∧ 0 < depth := by
  intro hex
  have hloop := h.loop hex
  have hdepth := h.depth hex
  simp only [Family.members, List.length_cons] at hloop hdepth
  omega

theorem Walk.children
    (h : Walk P excuse thread rounds m pendings (.node a c b) loop (depth + 1))
    (hpools : ∀ q ∈ c.members, m'.pools q = m.pools q)
    (hpend : ∀ q ∈ c.members, pendings' q = pendings q) :
    Walk P excuse thread rounds m' pendings' c rounds depth := by
  have hsub : ∀ q ∈ c.members, q ∈ (Family.node a c b).members := fun q hq => by
    simp [Family.members, hq]
  have hlength : c.members.length + 1 ≤ (Family.node a c b).members.length := by
    simp only [Family.members, List.length_cons, List.length_append]
    omega
  refine ⟨fun q hq pool hp => ?_, fun hex q hq => ?_, fun hex => ?_, fun hex => ?_, fun hex => ?_⟩
  · rw [hpools q hq] at hp
    exact h.owner q (hsub q hq) pool hp
  · rw [hpend q hq]
    exact h.nodes hex q (hsub q hq)
  · have := h.rounds hex
    omega
  · have := h.rounds hex
    omega
  · have := h.depth hex
    omega

theorem Walk.brothers
    (h : Walk P excuse thread rounds m pendings (.node a c b) (loop + 1) depth)
    (hpools : ∀ q ∈ b.members, m'.pools q = m.pools q) :
    Walk P excuse thread rounds m' pendings b loop depth := by
  have hsub : ∀ q ∈ b.members, q ∈ (Family.node a c b).members := fun q hq => by
    simp [Family.members, hq]
  have hlength : b.members.length + 1 ≤ (Family.node a c b).members.length := by
    simp only [Family.members, List.length_cons, List.length_append]
    omega
  refine ⟨fun q hq pool hp => ?_, fun hex q hq => h.nodes hex q (hsub q hq), fun hex => ?_,
    fun hex => ?_, fun hex => ?_⟩
  · rw [hpools q hq] at hp
    exact h.owner q (hsub q hq) pool hp
  · have := h.rounds hex
    omega
  · have := h.loop hex
    omega
  · have := h.depth hex
    omega

theorem destroyChildren_spec (hq : env.Quiet) {ptr : Option Nat}
    (h : Held P contents s.mem ps pendings frees) (hlinked : Family.Linked s.mem.links f ptr)
    (hsub : f.members ⊆ ps) (hnodup : f.members.Nodup)
    (hwalk : Walk P excuse thread rounds s.mem pendings f loop depth) :
    Yields excuse (forChildren (destroy env rounds depth thread) loop ptr s) fun s' =>
      Destroyed P contents ps pendings s s' f.postorder := by
  induction f generalizing depth loop ptr s ps pendings frees with
  | nil =>
      cases hlinked
      cases loop <;> exact Destroyed.nil h
  | node a c b ihc ihb =>
      obtain ⟨rfl, child, brother, hlinks, hlc, hlb⟩ := hlinked
      simp only [Family.members, List.cons_subset, List.append_subset] at hsub
      obtain ⟨ha, hcsub, hbsub⟩ := hsub
      simp only [Family.members, List.nodup_cons, List.nodup_append, List.mem_append, not_or]
        at hnodup
      obtain ⟨⟨hac, hab⟩, hcn, hbn, hcb⟩ := hnodup
      obtain ⟨pool, hpool, -, -⟩ := h.pools a ha
      rw [Memory.links, hpool, Option.map_some, Option.some_inj, Pool.links, Prod.mk.injEq]
        at hlinks
      obtain ⟨rfl, rfl⟩ := hlinks
      obtain _ | loop := loop
      · refine Yields.error (Classical.byContradiction fun hex => ?_)
        exact Nat.lt_irrefl _ (hwalk.positive hex).1
      obtain _ | depth := depth
      · unfold forChildren
        rw [State.getPool_bind hpool]
        refine Yields.error (Classical.byContradiction fun hex => ?_)
        exact Nat.lt_irrefl _ (hwalk.positive hex).2
      unfold forChildren
      rw [State.getPool_bind hpool]
      have hmem_post : ∀ {q}, q ∈ c.postorder ++ [a] ↔ q ∈ c.members ∨ q = a := by
        intro q
        rw [List.mem_append, Family.mem_postorder, List.mem_singleton]
      have hfirst : Yields excuse (destroy env rounds (depth + 1) thread a (s.log (.readPool a)))
          fun s' => Destroyed P contents ps pendings (s.log (.readPool a)) s'
            (c.postorder ++ [a]) := by
        have hself : a ∈ (Family.node a c b).members := List.mem_cons_self ..
        refine destroy_one (s := s.log (.readPool a)) hq h ha hpool (hwalk.owner a hself pool hpool)
          (fun hex => hwalk.nodes hex a hself) (fun q hq => hcsub (Family.mem_postorder.mp hq))
          (fun hmem => hac (Family.mem_postorder.mp hmem))
          fun s₁ pendings₁ frees₁ hpools₁ hlinks₁ hpend₁ hheld₁ => ?_
        have hne : ∀ q ∈ c.members, q ≠ a := fun q hq heq => hac (heq ▸ hq)
        exact ihc hheld₁ (hlinks₁ ▸ hlc) hcsub hcn
          (hwalk.children (fun q hq => hpools₁ q (hne q hq)) fun q hq => hpend₁ q (hne q hq))
      apply (hfirst.and (destroy_places env rounds (depth + 1) thread a _)).bind
      intro s₁ _ h₁
      obtain ⟨hd₁, hplaces₁⟩ := h₁
      rw [State.log_mem] at hplaces₁
      have hd₁' := Destroyed.read h ha (List.mem_append_right _ (List.mem_singleton_self a)) hd₁
      have hrest : ∀ q ∈ b.members, q ∉ c.postorder ++ [a] := fun q hq hmem => by
        rcases hmem_post.mp hmem with hqc | rfl
        · exact hcb q hqc q hq rfl
        · exact hab hq
      -- the brothers are among the pools that are left
      obtain ⟨frees₁, hheld₁⟩ := hd₁.held (ps.filter (· ∉ c.postorder ++ [a]))
        (List.filter_subset_self ps) fun q hq hmem => by
          have hnot := (List.mem_filter.mp hq).2
          rw [decide_eq_true_iff] at hnot
          exact hnot hmem
      have hleft : b.members ⊆ ps.filter (· ∉ c.postorder ++ [a]) := fun q hq =>
        List.mem_filter.mpr ⟨hbsub hq, by rw [decide_eq_true_iff]; exact hrest q hq⟩
      refine (ihb hheld₁ (hplaces₁.links ▸ hlb) hleft hbn
        (hwalk.brothers fun q hq => hd₁.pools q (hrest q hq))).mono fun s₂ _ h₂ => ?_
      have happend := Destroyed.append h
        (fun q hq => by
          rcases hmem_post.mp hq with hq | rfl
          · exact hcsub hq
          · exact ha)
        (fun q hq => hbsub (Family.mem_postorder.mp hq))
        (fun q hq hqb => hrest q (Family.mem_postorder.mp hqb) hq) hd₁' h₂
      rwa [List.append_assoc, List.singleton_append] at happend

end Walk

end Floppix.Pools
