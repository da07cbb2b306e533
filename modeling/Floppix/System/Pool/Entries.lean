import Floppix.System.Pool.Requests

/-! # What cleanups are registered with

The data and the handlers of the nodes in a list, and of those that were called. A
registration puts one entry in front of the pending ones. Where it carves a node, this is
apart from the other nodes as long as each of them lies in a block of its own.
-/

namespace Floppix.Pools

open Layout LinkedList Outcome

variable {P : Platform} {env : Environment P} {contents : Contents} {m m' m'' : Memory} {p : Nat}
  {pool pool' : Pool} {ps : List Nat} {pendings frees : Nat → List Ref} {s s' s'' : State}
  {r : Ref} {rs : List Ref} {c : CleanupNode}

/-! ## Entries -/

abbrev Entry := Nat × Handler

def CleanupNode.entry (c : CleanupNode) : Entry := (c.data, c.handler)

def entries (m : Memory) (rs : List Ref) : List Entry :=
  rs.filterMap fun r => (m.records r).map CleanupNode.entry

def Event.entry : Event → Option Entry
  | .run id data => some (data, .user id)
  | .free a => some (a, .free)
  | _ => none

def called (es : List Event) : List Entry := es.filterMap Event.entry

def SameRecords (m m' : Memory) (rs : List Ref) : Prop := ∀ r ∈ rs, m'.records r = m.records r

theorem SameRecords.refl (m : Memory) (rs : List Ref) : SameRecords m m rs := fun _ _ => rfl

theorem SameRecords.trans (h : SameRecords m m' rs) (h' : SameRecords m' m'' rs) :
    SameRecords m m'' rs := fun r hr => (h' r hr).trans (h r hr)

theorem SameRecords.subset {qs : List Ref} (h : SameRecords m m' rs) (hsub : qs ⊆ rs) :
    SameRecords m m' qs := fun r hr => h r (hsub hr)

theorem SameRecords.entries (h : SameRecords m m' rs) : entries m' rs = entries m rs :=
  List.filterMap_congr fun r hr => by rw [h r hr]

theorem entries_nil (m : Memory) : entries m [] = [] := rfl

theorem entries_cons (hc : m.records r = some c) :
    entries m (r :: rs) = c.entry :: entries m rs := by
  simp [entries, hc]

theorem entries_append (m : Memory) (rs qs : List Ref) :
    entries m (rs ++ qs) = entries m rs ++ entries m qs := List.filterMap_append ..

theorem length_entries {ptr : Option Ref} (h : Chain m.records CleanupNode.next ptr rs) :
    (entries m rs).length = rs.length := by
  induction rs generalizing ptr with
  | nil => rfl
  | cons r rs ih =>
      obtain ⟨-, c, hc, hrest⟩ := h
      rw [entries_cons hc, List.length_cons, ih hrest, List.length_cons]

theorem called_append (es es' : List Event) : called (es ++ es') = called es ++ called es' :=
  List.filterMap_append ..

theorem CleanupNode.called_event (c : CleanupNode) : called [c.event] = [c.entry] := by
  obtain ⟨next, data, handler⟩ := c
  cases handler <;> rfl

/-! ## Steps that call no handler -/

/-- The other pools stay as they are, and no handler is called. -/
structure Aside (p : Nat) (s s' : State) : Prop where
  pools : ∀ q, q ≠ p → s'.mem.pools q = s.mem.pools q
  called : called s'.events = called s.events

theorem Aside.refl (p : Nat) (s : State) : Aside p s s := ⟨fun _ _ => rfl, rfl⟩

theorem Aside.trans (h : Aside p s s') (h' : Aside p s' s'') : Aside p s s'' :=
  ⟨fun q hq => (h'.pools q hq).trans (h.pools q hq), h'.called.trans h.called⟩

theorem Aside.setPool (p : Nat) (pool : Pool) (s : State) : Aside p s (s.setPool p pool) :=
  ⟨fun _ hq => Memory.setPool_of_ne _ _ hq, rfl⟩

theorem called_log {e : Event} (he : e.entry = none) (s : State) :
    called (s.log e).events = called s.events := by
  have hnone : called [e] = [] := by simp [called, he]
  rw [State.log, called_append, hnone, List.append_nil]

theorem Aside.lock (p : Nat) (s : State) (mutex : Nat) : Aside p s (s.lock P mutex) := by
  refine ⟨fun q _ => by rw [State.lock_mem], ?_⟩
  unfold State.lock
  split
  · exact called_log rfl s
  · rfl

theorem Aside.unlock (p : Nat) (s : State) (mutex : Nat) : Aside p s (s.unlock P mutex) := by
  refine ⟨fun q _ => by rw [State.unlock_mem], ?_⟩
  unfold State.unlock
  split
  · exact called_log rfl s
  · rfl

theorem Aside.setRecord (p : Nat) (r : Ref) (c : CleanupNode) (s : State) :
    Aside p s (s.setRecord P r c) := ⟨fun _ _ => rfl, rfl⟩

/-- The end of a registration. -/
theorem Aside.push (p : Nat) (r : Ref) (c : CleanupNode) (pool : Pool) (s : State) (mutex : Nat) :
    Aside p s (((s.setRecord P r c).setPool p pool).unlock P mutex) :=
  ((Aside.setRecord p r c s).trans (.setPool p pool _)).trans (.unlock p _ mutex)

theorem memnodeAllocate_aside (p size : Nat) (s : State) :
    Aside p s (memnodeAllocate env size s).2 := by
  unfold memnodeAllocate malloc
  cases env.malloc s.mem.mallocs s.mem.live size with
  | none => exact ⟨fun _ _ => rfl, rfl⟩
  | some a => exact ⟨fun _ _ => rfl, called_log rfl s⟩

theorem pallocSlots_aside (p a requested : Nat) (record : Bool) (s : State) :
    Yields True (pallocSlots env p a requested record s) fun x => Aside p s x.2 := by
  apply (getPool_yields s p).bind
  intro pool _ _
  dsimp only
  split
  · exact Yields.ok (((Aside.lock p s _).trans (.setPool p _ _)).trans (.unlock p _ _))
  · have hnode : Aside p _ (memnodeAllocate env (P.getNpages a * P.pageSize) _).2 :=
      memnodeAllocate_aside p (P.getNpages a * P.pageSize) (s.lock P pool.mutex)
    split
    · rename_i s' heq
      rw [heq] at hnode
      exact Yields.ok (((Aside.lock p s _).trans hnode).trans (.unlock p _ _))
    · rename_i node s' heq
      rw [heq] at hnode
      refine Yields.ok (((Aside.lock p s _).trans hnode).trans ?_)
      exact (Aside.setPool p _ _).trans (.unlock p _ _)

theorem takeRecord_aside (p : Nat) (s : State) :
    Yields True (takeRecord env p s) fun x => Aside p s x.2 := by
  apply (getPool_yields s p).bind
  intro pool _ _
  dsimp only
  split
  · exact (getRecord_yields s _).bind fun c _ _ => Yields.ok (.setPool p _ s)
  · apply (pallocSlots_aside p _ _ true s).bind
    intro x _ hx
    split
    · trivial
    · exact Yields.ok (hx.trans ⟨fun _ _ => rfl, rfl⟩)

/-! ## Nodes in blocks of their own -/

/-- The node lies in its block. A node that a clear has left in `free_cleanups` does not. -/
def Anchored (P : Platform) (pool : Pool) (r : Ref) : Prop :=
  r.tag = 0 → ∃ i, ∃ n ∈ pool.nodes i, Carved P n r

theorem Held.carveSafe (h : Held P contents m ps pendings frees) (hp : p ∈ ps)
    (hpool : m.pools p = some pool) (hanchored : ∀ r ∈ pendings p ++ frees p, Anchored P pool r)
    (a : Nat) : CarveSafe P pool (· ∈ pendings p ++ frees p) a := by
  intro fit hfit r hr ht
  have hok := h.poolOk hp hpool
  obtain ⟨hslot, hnodes, havail⟩ := findFit_some hfit
  have hmem : fit.node ∈ pool.nodes fit.slot := by rw [hnodes]; simp
  obtain ⟨hi, -, hnode⟩ := hok.slots _ _ hmem
  obtain ⟨j, n, hn, hcarved⟩ := hanchored r hr ht
  obtain ⟨hj, -, hnodeOk⟩ := hok.slots _ _ hn
  by_cases hne : fit.node.region = n.region
  · -- the blocks of the memnode end where the new one begins
    have hsame := hok.memnode_inj (mem_memnodes_of_slot hi hmem) (mem_memnodes_of_slot hj hn) hne
    subst hsame
    obtain ⟨b, hb, -, haddr, hsize⟩ := hcarved
    have htile := hnode.tiles.inside (List.mem_map_of_mem hb)
    simp only [Region.stop, Block.region] at htile
    simp only [Region.Apart, Region.stop, recordRegion]
    omega
  · have hapart := h.regions_apart hp hp hpool hpool
      (region_mem_of_memnode (mem_memnodes_of_slot hi hmem))
      (region_mem_of_memnode (mem_memnodes_of_slot hj hn)) (Or.inr hne)
    refine hapart.inside ?_ (hok.house_inside hn (Or.inl hcarved))
    have hheader := hnode.header
    have hfirst := hnode.first
    have hle := hnode.avail
    have hstop := hnode.stop
    simp only [Region.Inside, Region.stop, Memnode.region]
    omega

/-- There are nodes for so many registrations: new ones can be carved apart from those in
the lists, or enough of these are free. -/
def Room (P : Platform) (pool : Pool) (pending free : List Ref) (k : Nat) : Prop :=
  (∀ r ∈ pending ++ free, Anchored P pool r) ∨ k ≤ free.length

theorem Held.addSafe {k : Nat} (h : Held P contents m ps pendings frees) (hp : p ∈ ps)
    (hpool : m.pools p = some pool) (hroom : Room P pool (pendings p) (frees p) (k + 1)) :
    AddSafe P pool (· ∈ pendings p ++ frees p) := by
  intro hnone
  rcases hroom with hanchored | hle
  · exact h.carveSafe hp hpool hanchored _
  · have hchain := (h.poolOk hp hpool).freeChain
    rw [hnone] at hchain
    rw [hchain.eq_nil] at hle
    cases hle

/-- What taking a node does to the blocks of the others, and where the node is. -/
structure Anchors (P : Platform) (pool pool' : Pool) (r : Ref) : Prop where
  keep : ∀ q, Anchored P pool q → Anchored P pool' q
  free : ∀ q, pool.freeCleanups = some q → q = r
  new : pool.freeCleanups = none → Anchored P pool' r

theorem Carved.carve {n : Memnode} (h : Carved P n r) (a requested : Nat) (record : Bool) :
    Carved P (n.carve P a requested record) r := by
  obtain ⟨b, hb, hrest⟩ := h
  exact ⟨b, List.mem_append_left _ hb, hrest⟩

theorem carved_new {a : Nat} (n : Memnode) (hle : P.sizeofCleanup ≤ a) (tag : Nat) :
    Carved P (n.carve P a P.sizeofCleanup true) ⟨n.firstAvail, tag⟩ :=
  ⟨_, List.mem_append_right _ (List.mem_singleton_self _), rfl, rfl, hle⟩

theorem takeRecord_anchors (hpool : s.mem.pools p = some pool) :
    Yields True (takeRecord env p s) fun x =>
      ∃ pool', x.2.mem.pools p = some pool' ∧ Anchors P pool pool' x.1 := by
  rw [takeRecord, State.getPool_bind hpool]
  cases hfree : pool.freeCleanups with
  | some r =>
      refine (getRecord_yields s r).bind fun c _ _ => Yields.ok ?_
      refine ⟨_, Memory.setPool_self .., fun q hq => hq, fun q hq => ?_, fun hnone => ?_⟩
      · rw [hfree] at hq
        exact (Option.some.inj hq).symm
      · rw [hfree] at hnone
        cases hnone
  | none =>
      have hle := (P.sizeOk P.cleanup_aligns).long
      have hno : ∀ {q : Ref}, pool.freeCleanups ≠ some q := fun hq => by
        rw [hfree] at hq
        cases hq
      cases hfit : pool.fit P (P.alignAllocation P.sizeofCleanup) with
      | some fit =>
          obtain ⟨s', hok, hmem⟩ := pallocSlots_fit env P.sizeofCleanup true hpool hfit
          obtain ⟨-, hnodes, -⟩ := findFit_some hfit
          simp only [hok]
          refine Yields.ok ⟨_, by rw [hmem]; exact Memory.setPool_self .., fun q hq ht => ?_,
            fun q hq => absurd hq hno, fun _ _ => ⟨_, _, Pool.carve_mem, carved_new _ hle _⟩⟩
          obtain ⟨i, n, hn, hcarved⟩ := hq ht
          rcases Pool.mem_carve P _ P.sizeofCleanup true hnodes hn with hn | ⟨rfl, rfl⟩
          · exact ⟨i, n, hn, hcarved⟩
          · exact ⟨_, _, Pool.carve_mem, hcarved.carve ..⟩
      | none =>
          cases hanswer : env.answer s.mem
              (P.getNpages (P.alignAllocation P.sizeofCleanup) * P.pageSize) with
          | none =>
              obtain ⟨s', hok, -⟩ :=
                pallocSlots_refused P.sizeofCleanup true hpool hfit hanswer
              simp only [hok]
              exact Yields.error trivial
          | some mem =>
              obtain ⟨s', hok, hmem⟩ :=
                pallocSlots_granted P.sizeofCleanup true hpool hfit hanswer
              simp only [hok]
              refine Yields.ok ⟨_, by rw [hmem]; exact Memory.setPool_self .., fun q hq ht => ?_,
                fun q hq => absurd hq hno, fun _ _ => ?_⟩
              all_goals rw [P.npages_cleanup, Pool.register, if_neg (by decide)]
              · obtain ⟨i, n, hn, hcarved⟩ := hq ht
                refine ⟨i, n, ?_, hcarved⟩
                by_cases hi : i = 0
                · subst hi
                  simp [hn]
                · simpa [Function.update_of_ne hi] using hn
              · refine ⟨0, freshNode P mem (P.alignAllocation P.sizeofCleanup) P.sizeofCleanup true,
                  by simp, ?_⟩
                exact carved_new (newMemnode P mem _) hle _

/-! ## Registrations -/

variable {rest : List Ref} {k : Nat} {e : Entry}

theorem Taken.length_le {m' : Memory} (ht : Taken env ps pendings frees m p pool pool' rest r m')
    (h : Held P contents m ps pendings frees) (hp : p ∈ ps) (hpool : m.pools p = some pool) :
    (frees p).length ≤ rest.length + 1 := by
  have hok := h.poolOk hp hpool
  have hnodup : (frees p).Nodup :=
    ((List.pairwise_append.mp hok.records).2.1).imp fun hsep => hsep.1
  have hchain := hok.freeChain
  cases hfree : frees p with
  | nil => exact Nat.zero_le _
  | cons q free =>
      rw [hfree] at hchain hnodup
      obtain ⟨hq, -⟩ := hchain
      obtain ⟨hnot, hnodup⟩ := List.nodup_cons.mp hnodup
      have hsub : free ⊆ rest := fun x hx => by
        apply ht.keep x (hfree ▸ List.mem_cons_of_mem q hx)
        intro heq
        rw [hq] at heq
        cases heq
        exact hnot hx
      exact Nat.succ_le_succ (List.subperm_of_subset hnodup hsub).length_le

theorem Taken.room {m' : Memory} (ht : Taken env ps pendings frees m p pool pool' rest r m')
    (h : Held P contents m ps pendings frees) (hp : p ∈ ps) (hpool : m.pools p = some pool)
    (hanchors : Anchors P pool pool' r) (hroom : Room P pool (pendings p) (frees p) (k + 1)) :
    Room P pool' (pendings p) rest k ∧ Room P pool' (r :: pendings p) rest k := by
  have hlength := ht.length_le h hp hpool
  rcases hroom with hanchored | hle
  · have hlisted : ∀ q ∈ pendings p ++ rest, Anchored P pool' q := fun q hq => by
      refine hanchors.keep q (hanchored q ?_)
      rcases List.mem_append.mp hq with hq | hq
      · exact List.mem_append_left _ hq
      · exact List.mem_append_right _ (ht.sub q hq)
    have hself : Anchored P pool' r := by
      cases hfree : pool.freeCleanups with
      | none => exact hanchors.new hfree
      | some q =>
          have hchain := (h.poolOk hp hpool).freeChain
          rw [hfree] at hchain
          obtain ⟨c, free, hlist, -, -⟩ := hchain.uncons
          rw [← hanchors.free q hfree]
          exact hanchors.keep q (hanchored q (by simp [hlist]))
    exact ⟨Or.inl hlisted, Or.inl (List.forall_mem_cons.mpr ⟨hself, hlisted⟩)⟩
  · have hleft : k ≤ rest.length := by omega
    exact ⟨Or.inr hleft, Or.inr hleft⟩

structure Added (env : Environment P) (ps : List Nat) (pendings frees : Nat → List Ref) (p : Nat)
    (e : Entry) (pool pool' : Pool) (r : Ref) (rest : List Ref) (s s' : State) : Prop where
  aside : Aside p s s'
  here : s'.mem.pools p = some pool'
  held : Held P env.contents s'.mem ps (Function.update pendings p (r :: pendings p))
    (Function.update frees p rest)
  entry : entries s'.mem [r] = [e]
  pending : SameRecords s.mem s'.mem (pendings p)
  others : ∀ q ∈ ps, q ≠ p → SameRecords s.mem s'.mem (pendings q ++ frees q)
  room : ∀ k, Room P pool (pendings p) (frees p) (k + 1) → Room P pool' (r :: pendings p) rest k

/-- The free node that a registration takes is not pending, and belongs to no other pool. -/
theorem Held.taken_ne (h : Held P contents m ps pendings frees) (hp : p ∈ ps)
    (hpool : m.pools p = some pool) :
    (∀ x ∈ pendings p, pool.freeCleanups ≠ some x) ∧
      ∀ q ∈ ps, q ≠ p → ∀ x ∈ pendings q ++ frees q, pool.freeCleanups ≠ some x := by
  have hok := h.poolOk hp hpool
  have hmem : ∀ x, pool.freeCleanups = some x → x ∈ frees p := fun x hx => by
    have hchain := hok.freeChain
    rw [hx] at hchain
    obtain ⟨c, rest, hlist, -, -⟩ := hchain.uncons
    simp [hlist]
  constructor
  · intro x hx heq
    exact ((List.pairwise_append.mp hok.records).2.2 x hx x (hmem x heq)).1 rfl
  · intro q hq hqp x hx heq
    exact h.listed p hp q hq hqp.symm (List.mem_append_right _ (hmem x heq)) hx

theorem takeRecord_taken (h : Held P env.contents s.mem ps pendings frees) (hp : p ∈ ps)
    (hpool : s.mem.pools p = some pool) (hsafe : AddSafe P pool (· ∈ pendings p ++ frees p)) :
    Yields (¬ env.Succeeds) (takeRecord env p s) fun x => ∃ pool' rest,
      Taken env ps pendings frees s.mem p pool pool' rest x.1 x.2.mem ∧ Aside p s x.2 ∧
        Anchors P pool pool' x.1 := by
  refine (((takeRecord_spec h hp hpool hsafe).and
    (takeRecord_anchors hpool)).and (takeRecord_aside p s)).mono fun x _ hx => ?_
  obtain ⟨⟨⟨pool', rest, ht⟩, pool'', hpool'', hanchors⟩, haside⟩ := hx
  rw [ht.here] at hpool''
  cases hpool''
  exact ⟨pool', rest, ht, haside, hanchors⟩

theorem cleanupAdd_added {data id : Nat} (h : Held P env.contents s.mem ps pendings frees)
    (hp : p ∈ ps) (hpool : s.mem.pools p = some pool)
    (hsafe : AddSafe P pool (· ∈ pendings p ++ frees p)) :
    Yields (¬ env.Succeeds) (cleanupAdd env p data (.user id) s) fun s' =>
      ∃ pool' r rest, Added env ps pendings frees p (data, .user id) pool pool' r rest s s' := by
  have hlock : Held P env.contents (s.lock P pool.mutex).mem ps pendings frees := by
    rwa [State.lock_mem]
  have hpool₀ : (s.lock P pool.mutex).mem.pools p = some pool := by rwa [State.lock_mem]
  rw [cleanupAdd, State.getPool_bind hpool]
  apply (takeRecord_taken hlock hp hpool₀ hsafe).bind
  intro x _ hx
  obtain ⟨r, s₁⟩ := x
  obtain ⟨pool', rest, ht, haside, hanchors⟩ := hx
  obtain ⟨hpend, hother⟩ := h.taken_ne hp hpool
  rw [State.lock_mem] at ht
  simp only [State.getPool_ok ht.here]
  refine Yields.ok ⟨{ pool' with cleanups := some r }, r, rest, ?_, by simp, ?_, ?_, ?_, ?_, ?_⟩
  · exact ((Aside.lock p s _).trans haside).trans (.push p r _ _ s₁ _)
  · rw [State.unlock_mem]
    exact ht.register hp trivial
  · rw [State.unlock_mem]
    exact entries_cons (Memory.setRecord_self s₁.mem r ⟨pool'.cleanups, data, .user id⟩)
  · rw [State.unlock_mem]
    exact fun x hx => ht.others_stay _ hp (List.mem_append_left _ hx) (hpend x hx)
  · rw [State.unlock_mem]
    exact fun q hq hqp x hx => ht.others_stay _ hq hx (hother q hq hqp x hx)
  · exact fun k hroom => (ht.room h hp hpool hanchors hroom).2

/-! ## The lists of a pool -/

/-- The lists of a pool are finite, and no node is in them twice or in both. The first one
holds these entries. -/
def ListsHold (m : Memory) (p : Nat) (es : List Entry) : Prop :=
  ∃ pool pending free, m.pools p = some pool ∧
    Chain m.records CleanupNode.next pool.cleanups pending ∧
    Chain m.records CleanupNode.next pool.freeCleanups free ∧ (pending ++ free).Nodup ∧
    entries m pending = es

theorem PoolOk.nodup_listed {contents : Contents} {pending free : List Ref}
    (h : PoolOk P contents m p pool pending free) : (pending ++ free).Nodup :=
  h.records.imp fun hsep heq => hsep.1 heq

theorem Held.listsHold (h : Held P contents m ps pendings frees) (hp : p ∈ ps) :
    ListsHold m p (entries m (pendings p)) := by
  obtain ⟨pool, hpool, hok, -⟩ := h.pools p hp
  exact ⟨pool, pendings p, frees p, hpool, hok.pendingChain, hok.freeChain, hok.nodup_listed, rfl⟩

theorem Held.listsHold_eq {es : List Entry} (h : Held P contents m ps pendings frees) (hp : p ∈ ps)
    (hlists : ListsHold m p es) : es = entries m (pendings p) := by
  obtain ⟨pool, pending, free, hpool, hchain, -, -, rfl⟩ := hlists
  rw [hchain.unique (h.poolOk hp hpool).pendingChain]

end Floppix.Pools
