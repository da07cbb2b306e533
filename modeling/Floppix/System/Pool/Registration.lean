import Floppix.System.Pool.Allocation

/-! # Registrations and requests keep the invariant

`fpx_pool_cleanup_add1` and the allocation functions as a whole. What a registration
needs is said by `AddSafe`, what a request needs by `PallocSafe`.
-/

namespace Floppix.Pools

open Layout LinkedList Outcome

variable {P : Platform} {env : Environment P} {m m' : Memory} {p : Nat}
  {pool pool' : Pool} {contents : Contents} {pending free : List Ref} {ps : List Nat}
  {pendings frees : Nat → List Ref} {s s' : State}

/-! ## The cleanup node of a registration -/

/-- A registration takes a free node, or carves one where no node lies. -/
def AddSafe (P : Platform) (pool : Pool) (listed : Ref → Prop) : Prop :=
  pool.freeCleanups = none → CarveSafe P pool listed (P.alignAllocation P.sizeofCleanup)

/-- The node a registration works with: it is in no list, and separate from all that
are. -/
structure Taken (env : Environment P) (ps : List Nat) (pendings frees : Nat → List Ref)
    (m : Memory) (p : Nat) (pool pool' : Pool) (rest : List Ref) (r : Ref) (m' : Memory) :
    Prop where
  here : m'.pools p = some pool'
  cleanups : pool'.cleanups = pool.cleanups
  large : pool'.large = pool.large
  held : Held P env.contents m' ps pendings (Function.update frees p rest)
  sub : ∀ q ∈ rest, q ∈ frees p
  keep : ∀ q ∈ frees p, pool.freeCleanups ≠ some q → q ∈ rest
  loose : Loose P env.contents m' pool' (pendings p ++ rest) r
  others : ∀ q ∈ ps, q ≠ p → ∀ r' ∈ pendings q ++ frees q, Separate P r r'
  records : m'.records = m.records

theorem taken_free (h : Held P env.contents m ps pendings frees) (hp : p ∈ ps)
    (hpool : m.pools p = some pool) {r : Ref} {c : CleanupNode}
    (hr : pool.freeCleanups = some r) (hc : m.records r = some c) :
    ∃ rest, Taken env ps pendings frees m p pool { pool with freeCleanups := c.next } rest r
      (m.setPool p { pool with freeCleanups := c.next }) := by
  obtain ⟨rest, hfree, hok, hloose⟩ := (h.poolOk hp hpool).pop hr hc
  have hsub : ∀ q ∈ rest, q ∈ frees p := fun q hq => hfree ▸ List.mem_cons_of_mem r hq
  have hlisted : r ∈ pendings p ++ frees p := by simp [hfree]
  have hkeep : ∀ q ∈ frees p, pool.freeCleanups ≠ some q → q ∈ rest := fun q hq hne => by
    rw [hfree] at hq
    exact (List.mem_cons.mp hq).resolve_left fun heq => hne (heq ▸ hr)
  refine ⟨rest, ⟨m.setPool_self _ _, rfl, rfl, ?_, hsub, hkeep, ?_, fun q hq hqp r' hr' => ?_, rfl⟩⟩
  · have hupdate : Held P env.contents (m.setPool p { pool with freeCleanups := c.next }) ps
        (Function.update pendings p (pendings p)) (Function.update frees p rest) := by
      refine h.update hp hpool rfl h.heap (fun r hr _ => Or.inl hr) (fun _ _ _ _ _ => rfl)
        (Nat.le_refl _) (hok.congr hok.live (fun _ _ => rfl) (Nat.le_refl _))
        ((h.freed hp hpool).congr (fun _ _ => rfl) fun b hb => hb) (fun r hr => Or.inl hr)
        fun q hq => Or.inl ?_
      rcases List.mem_append.mp hq with hq | hq
      · exact List.mem_append_left _ hq
      · exact List.mem_append_right _ (hsub q hq)
    rwa [Function.update_eq_self] at hupdate
  · exact ⟨hloose.separate, hloose.tag, hloose.house⟩
  · exact h.separate hp hq (Ne.symm hqp) hlisted hr'

/-- A node that was just allocated. -/
theorem taken_new (hp : p ∈ ps) {mem a : Nat} {s' : State}
    (hpost : PallocPost env env.contents ps pendings frees s p pool a P.sizeofCleanup true
      (some mem, s')) (hsmall : P.getNpages a ≤ maxPoolSlot) (hle : P.sizeofCleanup ≤ a)
    (hpool : s.mem.pools p = some pool) {tag : Nat}
    (htag : tag = match env.contents with
      | .inMemory => 0
      | .abstract => s'.mem.recordCount + 1) :
    ∃ pool', Taken env ps pendings frees s.mem p pool pool' (frees p) ⟨mem, tag⟩
      { s'.mem with recordCount := s'.mem.recordCount + 1 } := by
  obtain ⟨pool', hpool', halloc⟩ := hpost.some mem rfl
  have hheld := hpost.held
  have hheld' : Held P env.contents { s'.mem with recordCount := s'.mem.recordCount + 1 } ps
      pendings frees := hheld.of_records rfl rfl (Nat.le_succ _) fun _ _ _ _ => rfl
  obtain ⟨i, n, hn, hb⟩ := halloc.slot hsmall
  have hok' := hheld.poolOk hp hpool'
  have hn' := mem_memnodes_of_slot (hok'.slots i n hn).1 hn
  have hin : Region.Inside (recordRegion P ⟨mem, tag⟩)
      (⟨mem, a, P.sizeofCleanup, true⟩ : Block).region := by
    refine ⟨Nat.le_refl _, ?_⟩
    simp only [Region.stop, recordRegion, Block.region]
    omega
  have hsep : ∀ q ∈ ps, ∀ r' ∈ pendings q ++ frees q,
      (⟨mem, tag⟩ : Ref).tag = 0 ∧ r'.tag = 0 ∧
          Region.Apart (recordRegion P ⟨mem, tag⟩) (recordRegion P r') ∨
        (⟨mem, tag⟩ : Ref).tag ≠ 0 ∧ r'.tag < tag := by
    intro q hq r' hr'
    obtain ⟨poolq, hpoolq, hokq, -⟩ := hheld.pools q hq
    have htag' := hokq.tags r' hr'
    cases hcontents : env.contents with
    | inMemory =>
        rw [hcontents] at htag htag'
        refine Or.inl ⟨htag, htag', ?_⟩
        by_cases hqp : q = p
        · subst hqp
          exact (halloc.apart r' hr' htag').inside hin (.refl _)
        · obtain ⟨n', hn₂, hin'⟩ := hokq.housed_inside (hokq.houses r' hr' htag')
          have hapart := hheld.regions_apart hp hq hpool' hpoolq (region_mem_of_memnode hn')
            (region_mem_of_memnode hn₂) (Or.inl (Ne.symm hqp))
          exact hapart.inside (hin.trans (hok'.block_inside hn' hb)) hin'
    | abstract =>
        rw [hcontents] at htag htag'
        have hlt : r'.tag ≤ s'.mem.recordCount := htag'.2
        simp only at htag
        refine Or.inr ⟨?_, ?_⟩
        · simp only [htag]
          omega
        · omega
  have hsep' : ∀ q ∈ ps, ∀ r' ∈ pendings q ++ frees q, Separate P ⟨mem, tag⟩ r' := by
    intro q hq r' hr'
    rcases hsep q hq r' hr' with ⟨-, -, hapart⟩ | ⟨hne, hlt⟩
    · refine ⟨fun heq => ?_, fun _ _ => hapart⟩
      rw [heq] at hapart
      exact hapart.ne P.cleanup_pos rfl
    · refine ⟨fun heq => ?_, fun h0 => absurd h0 hne⟩
      rw [← heq] at hlt
      exact Nat.lt_irrefl _ hlt
  refine ⟨pool', hpool', halloc.cleanups, halloc.large, ?_, fun q hq => hq, fun q hq _ => hq,
    ⟨?_, ?_, ?_⟩, ?_, ?_⟩
  · rwa [Function.update_eq_self]
  · exact hsep' p hp
  · rw [htag]
    cases env.contents with
    | inMemory => rfl
    | abstract => exact ⟨Nat.succ_pos _, Nat.le_refl _⟩
  · exact fun _ => ⟨i, n, hn, Or.inl ⟨_, hb, rfl, rfl, hle⟩⟩
  · exact fun q hq _ => hsep' q hq
  · exact hpost.records

theorem takeRecord_spec (h : Held P env.contents s.mem ps pendings frees) (hp : p ∈ ps)
    (hpool : s.mem.pools p = some pool) (hsafe : AddSafe P pool (· ∈ pendings p ++ frees p)) :
    Yields (¬ env.Succeeds) (takeRecord env p s) fun r =>
      ∃ pool' rest, Taken env ps pendings frees s.mem p pool pool' rest r.1 r.2.mem := by
  have hok := h.poolOk hp hpool
  unfold takeRecord
  rw [State.getPool_bind hpool]
  split
  · rename_i r hr
    have hchain := hok.freeChain
    rw [hr] at hchain
    obtain ⟨c, -, -, hc, -⟩ := hchain.uncons
    rw [State.getRecord_ok hc]
    obtain ⟨rest, htaken⟩ := taken_free h hp hpool hr hc
    exact Yields.ok ⟨_, rest, htaken⟩
  · rename_i hfree
    have hone := P.npages_cleanup
    have hslots : Yields False
        (pallocSlots env p (P.alignAllocation P.sizeofCleanup) P.sizeofCleanup true s)
        (PallocPost env env.contents ps pendings frees s p pool _ _ true) :=
      pallocSlots_spec h hp hpool (P.sizeOk P.cleanup_aligns)
        (Nat.lt_trans P.cleanup_fits (by simpa using P.page_lt (n := 1) (by decide)))
        (by rw [hone]; exact Nat.zero_le _) (hsafe hfree) true
    apply (hslots.weaken False.elim).bind
    intro r _ hpost
    obtain ⟨mem, s'⟩ := r
    cases mem with
    | none => exact Yields.error (hpost.none rfl)
    | some mem =>
        obtain ⟨pool', htaken⟩ := taken_new hp hpost (by rw [hone]; decide)
          (P.sizeOk P.cleanup_aligns).long hpool rfl
        exact Yields.ok ⟨pool', _, htaken⟩

/-! ## `fpx_pool_cleanup_add1` -/

/-- A block that a new cleanup will free has no other one that will. -/
def CanFree (m : Memory) (pool : Pool) (pending : List Ref) (data : Nat) : Handler → Prop
  | .free => data ∉ freeData m pending ∧ ∃ b ∈ pool.large, b.addr = data
  | .user _ => True

theorem Taken.register {rest : List Ref} {r : Ref} {data : Nat} {handler : Handler}
    (ht : Taken env ps pendings frees m p pool pool' rest r m') (hp : p ∈ ps)
    (hcan : CanFree m pool (pendings p) data handler) :
    Held P env.contents ((m'.setRecord P r ⟨pool'.cleanups, data, handler⟩).setPool p
        { pool' with cleanups := some r }) ps
      (Function.update pendings p (r :: pendings p)) (Function.update frees p rest) := by
  have hok' := ht.held.poolOk hp ht.here
  rw [Function.update_self] at hok'
  have hfreed := ht.held.freed hp ht.here
  have hpush := hok'.push ht.loose data handler
  have hself : (m'.setRecord P r ⟨pool'.cleanups, data, handler⟩).records r =
      some ⟨pool'.cleanups, data, handler⟩ := Memory.setRecord_self ..
  have hsame : ∀ q ∈ pendings p,
      (m'.setRecord P r ⟨pool'.cleanups, data, handler⟩).records q = m'.records q :=
    fun q hq => ht.loose.setRecord _ (List.mem_append_left _ hq)
  have hfreed' : Freed (m'.setRecord P r ⟨pool'.cleanups, data, handler⟩)
      { pool' with cleanups := some r } (r :: pendings p) := by
    cases handler with
    | user id => exact hfreed.push_user hsame hself rfl
    | free =>
        refine hfreed.push_free hsame hself rfl ?_ ?_
        · rw [freeData_congr fun q _ => congrFun ht.records q]
          exact hcan.1
        · rw [ht.large]
          exact hcan.2
  have hupdate : Held P env.contents ((m'.setRecord P r ⟨pool'.cleanups, data, handler⟩).setPool p
        { pool' with cleanups := some r }) ps (Function.update pendings p (r :: pendings p))
      (Function.update (Function.update frees p rest) p rest) := by
    refine ht.held.update hp ht.here rfl ht.held.heap (fun r hr _ => Or.inl hr)
      (fun q hq hqp r' hr' => ?_) (Nat.le_refl _)
      (hpush.congr hpush.live (fun _ _ => rfl) (Nat.le_refl _))
      (hfreed'.congr (fun _ _ => rfl) fun b hb => hb) (fun r hr => Or.inl hr) fun q hq => ?_
    · rw [Function.update_of_ne hqp] at hr'
      exact Memory.setRecord_of_separate _ _ (ht.others q hq hqp r' hr')
    · rw [Function.update_self]
      rcases List.mem_cons.mp hq with rfl | hq
      · apply Or.inr
        intro x hx hxp hmem
        rw [Function.update_of_ne hxp] at hmem
        exact (ht.others x hx hxp _ hmem).1 rfl
      · exact Or.inl hq
  rwa [Function.update_idem] at hupdate

/-- Only the node that was taken is written. -/
theorem Taken.others_stay {rest : List Ref} {r x : Ref} {q : Nat}
    (ht : Taken env ps pendings frees m p pool pool' rest r m') (c : CleanupNode) (hq : q ∈ ps)
    (hx : x ∈ pendings q ++ frees q) (hne : pool.freeCleanups ≠ some x) :
    (m'.setRecord P r c).records x = m.records x := by
  rw [← ht.records]
  apply Memory.setRecord_of_separate _ _
  by_cases hqp : q = p
  · subst hqp
    apply ht.loose.separate x
    rcases List.mem_append.mp hx with hx | hx
    · exact List.mem_append_left _ hx
    · exact List.mem_append_right _ (ht.keep x hx hne)
  · exact ht.others q hq hqp x hx

theorem cleanupAdd_spec {data : Nat} {handler : Handler}
    (h : Held P env.contents s.mem ps pendings frees) (hp : p ∈ ps)
    (hpool : s.mem.pools p = some pool) (hsafe : AddSafe P pool (· ∈ pendings p ++ frees p))
    (hcan : CanFree s.mem pool (pendings p) data handler) :
    Yields (¬ env.Succeeds) (cleanupAdd env p data handler s) fun s' =>
      (∃ pendings' frees', Held P env.contents s'.mem ps pendings' frees') ∧
        (∃ pool', s'.mem.pools p = some pool' ∧ pool'.large = pool.large) ∧
        ∀ q ∈ ps, ∀ r ∈ pendings q ++ frees q, pool.freeCleanups ≠ some r →
          s'.mem.records r = s.mem.records r := by
  unfold cleanupAdd
  rw [State.getPool_ok hpool]
  have hlock : Held P env.contents (s.lock P pool.mutex).mem ps pendings frees := by
    rwa [State.lock_mem]
  have hpool₀ : (s.lock P pool.mutex).mem.pools p = some pool := by rwa [State.lock_mem]
  apply (takeRecord_spec hlock hp hpool₀ hsafe).bind
  intro r _ hr
  obtain ⟨r, s₁⟩ := r
  obtain ⟨pool', rest, ht⟩ := hr
  rw [State.lock_mem] at ht
  simp only [State.getPool_ok ht.here]
  refine Yields.ok
    ⟨⟨Function.update pendings p (r :: pendings p), Function.update frees p rest, ?_⟩,
      ⟨{ pool' with cleanups := some r }, by simp, ht.large⟩, fun q hq x hx hne => ?_⟩
  all_goals simp only [State.unlock_mem, State.setPool_mem, State.setRecord_mem]
  · exact ht.register hp hcan
  · rw [Memory.setPool_records]
    exact ht.others_stay _ hq hx hne

/-! ## `fpx_palloc1` and `fpx_pcalloc1` -/

/-- What a request needs: that its page count does not wrap, and that nothing is carved
where a cleanup node lies. -/
def PallocSafe (P : Platform) (pool : Pool) (listed : Ref → Prop) (size : Nat) : Prop :=
  P.alignAllocation size = 0 ∨
    P.alignAllocation size + P.memnodeHeader < P.sizeMax ∧
      if P.getNpages (P.alignAllocation size) - 1 > maxPoolSlot then AddSafe P pool listed
      else CarveSafe P pool listed (P.alignAllocation size)

structure Answered (env : Environment P) (ps : List Nat) (p size : Nat)
    (r : Option Nat × State) : Prop where
  held : ∃ pendings frees, Held P env.contents r.2.mem ps pendings frees
  some : ∀ mem, r.1 = some mem → ∃ pool b, r.2.mem.pools p = some pool ∧ b ∈ pool.blocks ∧
    b.addr = mem ∧ b.requested = size ∧ b.record = false
  none : r.1 = none → P.alignAllocation size = 0 ∨ ¬ env.Succeeds

/-- A block of the system allocator was given to the user. No pending cleanup frees it yet. -/
theorem Held.handOut {mem a size : Nat} (h : Held P env.contents s.mem ps pendings frees)
    (hp : p ∈ ps) (hpool : s.mem.pools p = some pool) (ha : SizeOk P a size)
    (hgrown : Grown P s.mem s'.mem ⟨mem, a⟩) :
    Held P env.contents (s'.mem.setPool p
        { pool with large := ⟨mem, a, size, false⟩ :: pool.large }) ps pendings frees ∧
      CanFree (s'.mem.setPool p { pool with large := ⟨mem, a, size, false⟩ :: pool.large })
        { pool with large := ⟨mem, a, size, false⟩ :: pool.large } (pendings p) mem .free := by
  have hok := h.poolOk hp hpool
  have hlarge : LargeOk P ⟨mem, a, size, false⟩ := ⟨⟨hgrown.aligned, ha.long, ha.pos⟩, rfl⟩
  have hnew : (⟨mem, a⟩ : Region) ∉ s.mem.live := hgrown.new ha.pos
  have hlive : ∀ q ∈ s.mem.live, q ∈ s'.mem.live := fun q hq => by
    rw [hgrown.live]
    exact List.mem_cons_of_mem _ hq
  have hin : (⟨mem, a⟩ : Region) ∈ s'.mem.live := by
    rw [hgrown.live]
    exact List.mem_cons_self ..
  have hokOut := hok.handOut hlarge hin hnew hlive hgrown.records hgrown.recordCount
  constructor
  · refine h.update_blocks hp hpool ?_ (hgrown.heap h.heap) hlive hgrown.records
      hgrown.recordCount (hokOut.congr hokOut.live (fun _ _ => rfl) (Nat.le_refl _))
      (fun b hb => List.mem_cons_of_mem _ hb) fun r hr => ?_
    · simp only [Memory.setPool, hgrown.pools]
    · have hperm : (Pool.regions { pool with large := ⟨mem, a, size, false⟩ :: pool.large }).Perm
          (⟨mem, a⟩ :: pool.regions) := List.perm_middle
      rcases List.mem_cons.mp (hperm.mem_iff.mp hr) with rfl | hr
      · exact Or.inr hnew
      · exact Or.inl hr
  · -- the pending cleanups free older blocks
    refine ⟨fun hd => ?_, ⟨_, List.mem_cons_self .., rfl⟩⟩
    have hsame : freeData
        (s'.mem.setPool p { pool with large := ⟨mem, a, size, false⟩ :: pool.large }) (pendings p) =
          freeData s.mem (pendings p) :=
      freeData_congr fun q _ => congrFun hgrown.records q
    rw [hsame] at hd
    obtain ⟨b, hb, hbaddr⟩ := (h.freed hp hpool).2 _ hd
    have hapart := hgrown.apart _ (hok.live _ (region_mem_of_large hb))
    have hbpos := (hok.large b hb).nonempty
    have hapos := ha.pos
    simp only [Region.Apart, Region.stop, Block.region] at hapart
    omega

theorem large_spec {mem a size : Nat} (h : Held P env.contents s.mem ps pendings frees)
    (hp : p ∈ ps) (hpool : s.mem.pools p = some pool) (ha : SizeOk P a size)
    (hsafe : AddSafe P pool (· ∈ pendings p ++ frees p)) (hgrown : Grown P s.mem s'.mem ⟨mem, a⟩)
    {mutex : Nat} :
    Yields (¬ env.Succeeds)
      (do let s ← s'.handOut p ⟨mem, a, size, false⟩
          let s ← cleanupAdd env p mem .free s
          .ok (some mem, s.unlock P mutex))
      (Answered env ps p size) := by
  have hpool' : s'.mem.pools p = some pool := (congrFun hgrown.pools p).trans hpool
  obtain ⟨hheldOut, hcan⟩ := h.handOut hp hpool ha hgrown
  let poolOut : Pool := { pool with large := ⟨mem, a, size, false⟩ :: pool.large }
  rw [State.handOut, State.getPool_ok hpool']
  apply Yields.bind (Q := fun s₁ => s₁ = s'.setPool p poolOut) (Yields.ok rfl)
  intro s₁ _ h₁
  subst h₁
  have hpoolOut : (s'.setPool p poolOut).mem.pools p = some poolOut := Memory.setPool_self ..
  have hsafeOut : AddSafe P poolOut (· ∈ pendings p ++ frees p) := hsafe
  refine (cleanupAdd_spec hheldOut hp hpoolOut hsafeOut hcan).bind
    fun s₂ _ h₂ => Yields.ok ⟨?_, fun mem' hmem' => ?_, fun hnone => absurd hnone (by simp)⟩
  · rw [State.unlock_mem]
    exact h₂.1
  · cases hmem'
    obtain ⟨pool₂, hpool₂, hlarge₂⟩ := h₂.2.1
    refine ⟨pool₂, ⟨mem, a, size, false⟩, by rwa [State.unlock_mem], mem_blocks.mpr (Or.inr ?_),
      rfl, rfl, rfl⟩
    rw [hlarge₂]
    exact List.mem_cons_self ..

theorem palloc_spec {size : Nat} (h : Held P env.contents s.mem ps pendings frees) (hp : p ∈ ps)
    (hpool : s.mem.pools p = some pool)
    (hsafe : PallocSafe P pool (· ∈ pendings p ++ frees p) size) :
    Yields (¬ env.Succeeds) (palloc env p size s) (Answered env ps p size) := by
  unfold palloc
  rw [State.getPool_ok hpool]
  change Yields _ (if P.alignAllocation size = 0 then _ else _) _
  split
  · rename_i halign
    refine Yields.ok ⟨⟨pendings, frees, by rwa [State.unlock_mem]⟩, fun mem hmem => (nomatch hmem),
      fun _ => Or.inl halign⟩
  · rename_i halign
    have ha := P.sizeOk halign
    obtain ⟨hwrap, hslots⟩ := hsafe.resolve_left halign
    split
    · rename_i hindex
      rw [if_pos hindex] at hslots
      split
      · rename_i s' hm
        obtain ⟨hfail, hlive, hpools, hrecords, hcount⟩ := malloc_none hm
        refine Yields.ok ⟨⟨pendings, frees, ?_⟩, fun mem hmem => (nomatch hmem),
          fun _ => Or.inr hfail⟩
        rw [State.unlock_mem]
        exact h.of_eq hlive hpools hrecords hcount
      · rename_i mem s' hm
        exact large_spec h hp hpool ha hslots (malloc_some hm)
    · rename_i hindex
      rw [if_neg hindex] at hslots
      have hcarve : Yields False (pallocSlots env p (P.alignAllocation size) size false s)
          (PallocPost env env.contents ps pendings frees s p pool _ size false) :=
        pallocSlots_spec h hp hpool ha hwrap (Nat.not_lt.mp hindex) hslots false
      refine (hcarve.weaken False.elim).mono fun r _ hr => ⟨⟨_, _, hr.held⟩, fun mem hmem => ?_,
        fun hnone => Or.inr (hr.none hnone)⟩
      obtain ⟨pool', hpool', halloc⟩ := hr.some mem hmem
      obtain ⟨n, hn, hb⟩ := halloc.node
      exact ⟨pool', _, hpool', mem_blocks.mpr (Or.inl ⟨n, hn, hb⟩), rfl, rfl, rfl⟩

/-- A user's block is apart from the cleanup nodes in the lists of all pools, also after
zeros have been written to it. -/
theorem Held.overwrite {b : Block} {size : Nat} (h : Held P contents m ps pendings frees)
    (hp : p ∈ ps) (hpool : m.pools p = some pool) (hb : b ∈ pool.blocks) (huser : b.record = false)
    (hsize : size ≤ b.size) :
    Held P contents (m.overwrite P ⟨b.addr, size⟩) ps pendings frees := by
  refine h.of_records rfl rfl (Nat.le_refl _) fun q hq r hr => if_pos fun ht => ?_
  have hapart := h.block_apart hp hpool hb huser hq hr ht
  refine hapart.inside ⟨Nat.le_refl _, ?_⟩ (.refl _)
  simp only [Region.stop, Block.region]
  omega

theorem PoolOk.block_ok (h : PoolOk P contents m p pool pending free) {b : Block}
    (hb : b ∈ pool.blocks) : BlockOk P b := by
  rcases mem_blocks.mp hb with ⟨n, hn, hb⟩ | hb
  · exact ((h.carved_inside hn).2.1 b hb).1
  · exact (h.large b hb).toBlockOk

theorem pcalloc_spec {size : Nat} (h : Held P env.contents s.mem ps pendings frees) (hp : p ∈ ps)
    (hpool : s.mem.pools p = some pool)
    (hsafe : PallocSafe P pool (· ∈ pendings p ++ frees p) size) :
    Yields (¬ env.Succeeds) (pcalloc env p size s) (Answered env ps p size) := by
  unfold pcalloc
  apply (palloc_spec h hp hpool hsafe).bind
  intro r _ hr
  obtain ⟨mem, s'⟩ := r
  cases mem with
  | none => exact Yields.ok hr
  | some mem =>
      obtain ⟨pool', b, hpool', hb, rfl, rfl, huser⟩ := hr.some mem rfl
      obtain ⟨pendings', frees', hheld⟩ := hr.held
      have hlong := ((hheld.poolOk hp hpool').block_ok hb).long
      exact Yields.ok ⟨⟨_, _, hheld.overwrite hp hpool' hb huser hlong⟩,
        fun mem hmem => ⟨pool', b, hpool', hb, Option.some.inj hmem, rfl, huser⟩,
        fun hnone => (nomatch hnone)⟩

end Floppix.Pools
