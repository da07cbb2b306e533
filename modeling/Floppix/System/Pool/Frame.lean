import Floppix.System.Pool.Invariant

/-! # What a change of one pool leaves alone

Pools have their own stretches of memory and their own cleanup nodes, so a change of
one pool that keeps its invariant keeps the invariant of all.
-/

namespace Floppix.Pools

open Layout LinkedList

variable {P : Platform} {contents : Contents} {m m' : Memory} {p : Nat} {pool pool' : Pool}
  {pending free pending' free' : List Ref}

/-! ## Access -/

@[simp] theorem State.log_mem (s : State) (e : Event) : (s.log e).mem = s.mem := rfl

@[simp] theorem State.lock_mem (s : State) (mutex : Nat) : (s.lock P mutex).mem = s.mem := by
  unfold State.lock
  split <;> rfl

@[simp] theorem State.unlock_mem (s : State) (mutex : Nat) : (s.unlock P mutex).mem = s.mem := by
  unfold State.unlock
  split <;> rfl

@[simp] theorem State.setPool_mem (s : State) (p : Nat) (pool : Pool) :
    (s.setPool p pool).mem = s.mem.setPool p pool := rfl

@[simp] theorem State.setRecord_mem (s : State) (r : Ref) (c : CleanupNode) :
    (s.setRecord P r c).mem = s.mem.setRecord P r c := rfl

@[simp] theorem Memory.setPool_live (m : Memory) (p : Nat) (pool : Pool) :
    (m.setPool p pool).live = m.live := rfl

@[simp] theorem Memory.setPool_records (m : Memory) (p : Nat) (pool : Pool) :
    (m.setPool p pool).records = m.records := rfl

@[simp] theorem Memory.setPool_recordCount (m : Memory) (p : Nat) (pool : Pool) :
    (m.setPool p pool).recordCount = m.recordCount := rfl

@[simp] theorem Memory.setPool_self (m : Memory) (p : Nat) (pool : Pool) :
    (m.setPool p pool).pools p = some pool := Function.update_self ..

theorem Memory.setPool_of_ne (m : Memory) {p q : Nat} (pool : Pool) (h : q ≠ p) :
    (m.setPool p pool).pools q = m.pools q := Function.update_of_ne h ..

@[simp] theorem Memory.setRecord_pools (m : Memory) (r : Ref) (c : CleanupNode) :
    (m.setRecord P r c).pools = m.pools := rfl

@[simp] theorem Memory.setRecord_live (m : Memory) (r : Ref) (c : CleanupNode) :
    (m.setRecord P r c).live = m.live := rfl

@[simp] theorem Memory.setRecord_recordCount (m : Memory) (r : Ref) (c : CleanupNode) :
    (m.setRecord P r c).recordCount = m.recordCount := rfl

theorem Memory.setPool_eq {m : Memory} {p : Nat} {pool : Pool} (h : m.pools p = some pool) :
    m.setPool p pool = m := by
  rw [Memory.setPool, ← h, Function.update_eq_self]

theorem Memory.setPool_setPool (m : Memory) (p : Nat) (pool pool' : Pool) :
    (m.setPool p pool).setPool p pool' = m.setPool p pool' := by
  simp only [Memory.setPool, Function.update_idem]

theorem State.getPool_ok {s : State} (h : s.mem.pools p = some pool) : s.getPool p = .ok pool := by
  simp [State.getPool, h]

theorem State.getRecord_ok {s : State} {r : Ref} {c : CleanupNode} (h : s.mem.records r = some c) :
    s.getRecord r = .ok c := by
  simp [State.getRecord, h]

theorem State.getPool_bind {α : Type} {s : State} (h : s.mem.pools p = some pool)
    (f : Pool → Except Fault α) : (s.getPool p >>= f) = f pool := by
  rw [State.getPool_ok h]
  rfl

theorem State.getRecord_bind {α : Type} {s : State} {r : Ref} {c : CleanupNode}
    (h : s.mem.records r = some c) (f : CleanupNode → Except Fault α) :
    (s.getRecord r >>= f) = f c := by
  rw [State.getRecord_ok h]
  rfl

/-! ## Records -/

theorem Memory.setRecord_self (m : Memory) (r : Ref) (c : CleanupNode) :
    (m.setRecord P r c).records r = some c := if_pos rfl

theorem Memory.setRecord_some {m : Memory} {r q : Ref} {c c' : CleanupNode}
    (h : (m.setRecord P r c).records q = some c') :
    q = r ∧ c' = c ∨ q ≠ r ∧ m.records q = some c' := by
  by_cases hqr : q = r
  · subst hqr
    rw [Memory.setRecord_self, Option.some_inj] at h
    exact Or.inl ⟨rfl, h.symm⟩
  · refine Or.inr ⟨hqr, ?_⟩
    simp only [Memory.setRecord, if_neg hqr] at h
    split at h
    · cases h
    · exact h

theorem Memory.setRecord_of_separate (m : Memory) {r q : Ref} (c : CleanupNode)
    (h : Separate P r q) : (m.setRecord P r c).records q = m.records q := by
  have hun : ¬ (r.tag = 0 ∧ ¬ Untouched P (recordRegion P r) q) := fun ⟨hr, hq⟩ =>
    hq fun hq0 => h.2 hr hq0
  simp only [Memory.setRecord, if_neg h.1.symm, if_neg hun]

theorem freeData_congr {rs : List Ref} (h : ∀ r ∈ rs, m'.records r = m.records r) :
    freeData m' rs = freeData m rs := by
  unfold freeData
  exact List.filterMap_congr fun r hr => by rw [h r hr]

theorem TagOk.mono {count count' : Nat} {r : Ref} (h : TagOk contents count r)
    (hle : count ≤ count') : TagOk contents count' r := by
  cases contents with
  | inMemory => exact h
  | abstract => exact ⟨h.1, Nat.le_trans h.2 hle⟩

/-! ## Regions -/

theorem mem_memnodes_of_slot {i : Nat} {n : Memnode} (hi : i < maxPoolSlot)
    (hn : n ∈ pool.nodes i) : n ∈ pool.memnodes :=
  List.mem_append_left _ (List.mem_flatMap.mpr ⟨i, List.mem_range.mpr hi, hn⟩)

theorem region_mem_of_memnode {n : Memnode} (hn : n ∈ pool.memnodes) : n.region ∈ pool.regions :=
  List.mem_append_left _ (List.mem_map_of_mem hn)

theorem region_mem_of_large {b : Block} (hb : b ∈ pool.large) : b.region ∈ pool.regions :=
  List.mem_append_right _ (List.mem_map_of_mem hb)

theorem mem_memnodes {n : Memnode} :
    n ∈ pool.memnodes ↔ (∃ i < maxPoolSlot, n ∈ pool.nodes i) ∨ n ∈ pool.stray := by
  simp [Pool.memnodes]

theorem PoolOk.page_le (h : PoolOk P contents m p pool pending free) {n : Memnode}
    (hn : n ∈ pool.memnodes) : P.pageSize ≤ n.deallocSize := by
  rcases mem_memnodes.mp hn with ⟨i, -, hi⟩ | hs
  · rw [(h.slots i n hi).2.1]
    exact Nat.le_mul_of_pos_left _ (Nat.succ_pos i)
  · rw [(h.strays n hs).1]
    exact Nat.le_mul_of_pos_left _ (Nat.succ_pos _)

theorem PoolOk.memnode_pos (h : PoolOk P contents m p pool pending free) {n : Memnode}
    (hn : n ∈ pool.memnodes) : 0 < n.deallocSize :=
  Nat.lt_of_lt_of_le P.page_pos (h.page_le hn)

theorem PoolOk.region_pos (h : PoolOk P contents m p pool pending free) {r : Region}
    (hr : r ∈ pool.regions) : 0 < r.size := by
  rcases List.mem_append.mp hr with hr | hr
  · obtain ⟨n, hn, rfl⟩ := List.mem_map.mp hr
    exact h.memnode_pos hn
  · obtain ⟨b, hb, rfl⟩ := List.mem_map.mp hr
    exact (h.large b hb).nonempty

theorem PoolOk.memnode_inj (h : PoolOk P contents m p pool pending free) {n n' : Memnode}
    (hn : n ∈ pool.memnodes) (hn' : n' ∈ pool.memnodes) (heq : n.region = n'.region) : n = n' :=
  List.inj_on_of_nodup_map (List.nodup_append.mp h.nodup).1 hn hn' heq

theorem PoolOk.house_inside (h : PoolOk P contents m p pool pending free) {r : Ref} {i : Nat}
    {n : Memnode} (hn : n ∈ pool.nodes i) (hin : Carved P n r ∨ Behind P n r) :
    Region.Inside (recordRegion P r) n.region := by
  obtain ⟨hi, -, hok⟩ := h.slots i n hn
  have hheader := hok.header
  have hstop := hok.stop
  have hfirst := hok.first
  have havail := hok.avail
  rcases hin with ⟨b, hb, -, haddr, hsize⟩ | ⟨hlo, hhi⟩
  · have htile := hok.tiles.inside (List.mem_map_of_mem hb)
    simp only [Region.Inside, Region.stop, recordRegion, Memnode.region, Block.region] at *
    omega
  · simp only [Region.Inside, Region.stop, recordRegion, Memnode.region] at *
    omega

theorem PoolOk.housed_inside (h : PoolOk P contents m p pool pending free) {r : Ref}
    (hr : Housed P pool r) : ∃ n ∈ pool.memnodes, Region.Inside (recordRegion P r) n.region := by
  obtain ⟨i, n, hn, hin⟩ := hr
  exact ⟨n, mem_memnodes_of_slot (h.slots i n hn).1 hn, h.house_inside hn hin⟩

/-! ## The frame -/

theorem PoolOk.congr (h : PoolOk P contents m p pool pending free)
    (hlive : ∀ r ∈ pool.regions, r ∈ m'.live)
    (hrec : ∀ r ∈ pending ++ free, m'.records r = m.records r)
    (hcount : m.recordCount ≤ m'.recordCount) : PoolOk P contents m' p pool pending free where
  slots := h.slots
  strays := h.strays
  large := h.large
  live := hlive
  nodup := h.nodup
  header := h.header
  pendingChain := h.pendingChain.congr_cells fun r hr => hrec r (List.mem_append_left _ hr)
  freeChain := h.freeChain.congr_cells fun r hr => hrec r (List.mem_append_right _ hr)
  records := h.records
  tags r hr := (h.tags r hr).mono hcount
  houses := h.houses

theorem Freed.congr (h : Freed m pool pending) (hrec : ∀ r ∈ pending, m'.records r = m.records r)
    (hlarge : ∀ b ∈ pool.large, b ∈ pool'.large) : Freed m' pool' pending := by
  unfold Freed
  rw [freeData_congr hrec]
  refine ⟨h.1, fun d hd => ?_⟩
  obtain ⟨b, hb, hd'⟩ := h.2 d hd
  exact ⟨b, hlarge b hb, hd'⟩

variable {ps : List Nat} {pendings frees : Nat → List Ref}

theorem Held.regions_apart (h : Held P contents m ps pendings frees) {q : Nat} (hp : p ∈ ps)
    (hq : q ∈ ps) (hpool : m.pools p = some pool) (hpool' : m.pools q = some pool')
    {r r' : Region} (hr : r ∈ pool.regions) (hr' : r' ∈ pool'.regions) (hne : p ≠ q ∨ r ≠ r') :
    Region.Apart r r' := by
  apply h.heap r ((h.poolOk hp hpool).live r hr) r' ((h.poolOk hq hpool').live r' hr')
  rcases hne with hne | hne
  · exact fun heq => h.regions p hp q hq hne pool pool' hpool hpool' hr (heq ▸ hr')
  · exact hne

/-- The cleanup nodes of different pools are separate. -/
theorem Held.separate (h : Held P contents m ps pendings frees) {q : Nat} (hp : p ∈ ps)
    (hq : q ∈ ps) (hpq : p ≠ q) {r r' : Ref} (hr : r ∈ pendings p ++ frees p)
    (hr' : r' ∈ pendings q ++ frees q) : Separate P r r' := by
  refine ⟨fun heq => h.listed p hp q hq hpq hr (heq ▸ hr'), fun ht ht' => ?_⟩
  obtain ⟨pool, hpool, hok, -⟩ := h.pools p hp
  obtain ⟨pool', hpool', hok', -⟩ := h.pools q hq
  obtain ⟨n, hn, hin⟩ := hok.housed_inside (hok.houses r hr ht)
  obtain ⟨n', hn', hin'⟩ := hok'.housed_inside (hok'.houses r' hr' ht')
  have hapart := h.regions_apart hp hq hpool hpool' (region_mem_of_memnode hn)
    (region_mem_of_memnode hn') (Or.inl hpq)
  exact hapart.inside hin hin'

/-- One pool changes and keeps its invariant: what it gives up was its own, and what it
takes was nobody's. -/
theorem Held.update (h : Held P contents m ps pendings frees) (hp : p ∈ ps)
    (hpool : m.pools p = some pool) (hpools : m'.pools = Function.update m.pools p (some pool'))
    (hheap : ∀ r ∈ m'.live, ∀ q ∈ m'.live, r ≠ q → Region.Apart r q)
    (hlive : ∀ r ∈ m.live, 0 < r.size → r ∈ m'.live ∨ r ∈ pool.regions)
    (hrec : ∀ q ∈ ps, q ≠ p → ∀ r ∈ pendings q ++ frees q, m'.records r = m.records r)
    (hcount : m.recordCount ≤ m'.recordCount)
    (hok : PoolOk P contents m' p pool' pending' free') (hfreed : Freed m' pool' pending')
    (hreg : ∀ r ∈ pool'.regions, r ∈ pool.regions ∨ r ∉ m.live)
    (hlist : ∀ r ∈ pending' ++ free', r ∈ pendings p ++ frees p ∨
      ∀ q ∈ ps, q ≠ p → r ∉ pendings q ++ frees q) :
    Held P contents m' ps (Function.update pendings p pending')
      (Function.update frees p free') := by
  -- the others do not own what the changed pool owns
  have hother : ∀ q ∈ ps, q ≠ p → ∀ poolq, m.pools q = some poolq →
      pool'.regions.Disjoint poolq.regions := by
    intro q hq hqp poolq hpoolq r hr hrq
    rcases hreg r hr with hold | hnew
    · exact h.regions p hp q hq hqp.symm pool poolq hpool hpoolq hold hrq
    · exact hnew ((h.poolOk hq hpoolq).live r hrq)
  have hlisted : ∀ q ∈ ps, q ≠ p →
      (pending' ++ free').Disjoint (pendings q ++ frees q) := by
    intro q hq hqp r hr hrq
    rcases hlist r hr with hold | hnew
    · exact h.listed p hp q hq hqp.symm hold hrq
    · exact hnew q hq hqp hrq
  have hget : ∀ q, q ≠ p → m'.pools q = m.pools q := fun q hq => by
    rw [hpools, Function.update_of_ne hq]
  have hself : m'.pools p = some pool' := by rw [hpools, Function.update_self]
  constructor
  · exact hheap
  · intro q hq
    by_cases hqp : q = p
    · subst hqp
      rw [Function.update_self, Function.update_self]
      exact ⟨pool', hself, hok, hfreed⟩
    · obtain ⟨poolq, hpoolq, hokq, hfreedq⟩ := h.pools q hq
      rw [Function.update_of_ne hqp, Function.update_of_ne hqp, hget q hqp]
      refine ⟨poolq, hpoolq, hokq.congr (fun r hr => ?_) (hrec q hq hqp) hcount,
        hfreedq.congr (fun r hr => hrec q hq hqp r (List.mem_append_left _ hr)) fun b hb => hb⟩
      apply (hlive r (hokq.live r hr) (hokq.region_pos hr)).resolve_right
      intro hrp
      exact h.regions p hp q hq (Ne.symm hqp) pool poolq hpool hpoolq hrp hr
  · intro q₁ hq₁ q₂ hq₂ hne pool₁ pool₂ h₁ h₂
    by_cases h₁p : q₁ = p
    · subst h₁p
      rw [hself] at h₁
      cases h₁
      exact hother q₂ hq₂ hne.symm pool₂ (hget q₂ hne.symm ▸ h₂)
    · rw [hget q₁ h₁p] at h₁
      by_cases h₂p : q₂ = p
      · subst h₂p
        rw [hself] at h₂
        cases h₂
        exact fun r hr hr' => hother q₁ hq₁ h₁p pool₁ h₁ hr' hr
      · exact h.regions q₁ hq₁ q₂ hq₂ hne pool₁ pool₂ h₁ (hget q₂ h₂p ▸ h₂)
  · intro q₁ hq₁ q₂ hq₂ hne
    by_cases h₁p : q₁ = p
    · subst h₁p
      rw [Function.update_self, Function.update_self, Function.update_of_ne hne.symm,
        Function.update_of_ne hne.symm]
      exact hlisted q₂ hq₂ hne.symm
    · rw [Function.update_of_ne h₁p, Function.update_of_ne h₁p]
      by_cases h₂p : q₂ = p
      · subst h₂p
        rw [Function.update_self, Function.update_self]
        exact fun r hr hr' => hlisted q₁ hq₁ h₁p hr' hr
      · rw [Function.update_of_ne h₂p, Function.update_of_ne h₂p]
        exact h.listed q₁ hq₁ q₂ hq₂ hne

/-- The same when only the blocks of the pool change. -/
theorem Held.update_blocks (h : Held P contents m ps pendings frees) (hp : p ∈ ps)
    (hpool : m.pools p = some pool) (hpools : m'.pools = Function.update m.pools p (some pool'))
    (hheap : ∀ r ∈ m'.live, ∀ q ∈ m'.live, r ≠ q → Region.Apart r q)
    (hlive : ∀ r ∈ m.live, r ∈ m'.live) (hrecords : m'.records = m.records)
    (hcount : m'.recordCount = m.recordCount)
    (hok : PoolOk P contents m' p pool' (pendings p) (frees p))
    (hlarge : ∀ b ∈ pool.large, b ∈ pool'.large)
    (hreg : ∀ r ∈ pool'.regions, r ∈ pool.regions ∨ r ∉ m.live) :
    Held P contents m' ps pendings frees := by
  have hupdate := h.update hp hpool hpools hheap (fun r hr _ => Or.inl (hlive r hr))
    (fun q _ _ r _ => congrFun hrecords r) (Nat.le_of_eq hcount.symm) hok
    ((h.freed hp hpool).congr (fun r _ => congrFun hrecords r) hlarge) hreg
    (fun r hr => Or.inl hr)
  rwa [Function.update_eq_self, Function.update_eq_self] at hupdate

/-- The same memory, with the same cleanup nodes in the lists. -/
theorem Held.of_records (h : Held P contents m ps pendings frees) (hlive : m'.live = m.live)
    (hpools : m'.pools = m.pools) (hcount : m.recordCount ≤ m'.recordCount)
    (hrec : ∀ p ∈ ps, ∀ r ∈ pendings p ++ frees p, m'.records r = m.records r) :
    Held P contents m' ps pendings frees where
  heap := hlive ▸ h.heap
  pools q hq := by
    obtain ⟨pool, hpool, hok, hfreed⟩ := h.pools q hq
    rw [hpools]
    exact ⟨pool, hpool, hok.congr (fun r hr => hlive ▸ hok.live r hr) (hrec q hq) hcount,
      hfreed.congr (fun r hr => hrec q hq r (List.mem_append_left _ hr)) fun b hb => hb⟩
  regions := hpools ▸ h.regions
  listed := h.listed

theorem Held.of_eq (h : Held P contents m ps pendings frees) (hlive : m'.live = m.live)
    (hpools : m'.pools = m.pools) (hrecords : m'.records = m.records)
    (hcount : m'.recordCount = m.recordCount) : Held P contents m' ps pendings frees :=
  h.of_records hlive hpools (Nat.le_of_eq hcount.symm) fun _ _ r _ => congrFun hrecords r

end Floppix.Pools
