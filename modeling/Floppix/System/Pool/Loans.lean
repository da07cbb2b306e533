import Floppix.System.Pool.Accounting
import Floppix.System.Pool.Lasting
import Mathlib.Order.BooleanAlgebra.Set

/-! # What the functions of the pools lend

The blocks that users have of each pool, and what every function makes of them. Cleanup
nodes are carved from the same memnodes, but they are the pool's own. A large block goes
back to the system with its cleanup; all others come back when their pool is cleared.
-/

namespace Floppix.Pools

open Layout LinkedList Outcome Kinship

variable {P : Platform} {env : Environment P} {contents : Contents} {m m' : Memory} {p : Nat}
  {pool pool' : Pool} {ps : List Nat} {pending free : List Ref} {pendings frees : Nat → List Ref}
  {s s' : State} {thread rounds loop depth : Nat} {b : Block} {x : Nat × Block}

/-! ## The blocks of one pool -/

theorem mem_blocks_carve {a requested : Nat} {record : Bool} {fit : Fit}
    (hfit : pool.fit P a = some fit) :
    b ∈ (pool.carve P fit a requested record).blocks ↔
      b = ⟨fit.node.firstAvail, a, requested, record⟩ ∨ b ∈ pool.blocks := by
  obtain ⟨hmem, hnodes, -⟩ := findFit_some hfit
  have hslot := slotsFrom_lt hmem
  rw [mem_blocks, mem_blocks]
  constructor
  · rintro (⟨n, hn, hb⟩ | hb)
    · rcases mem_memnodes.mp hn with ⟨i, hi, hn⟩ | hn
      · rcases Pool.of_mem_carve hnodes hn with hn | ⟨-, rfl⟩
        · exact Or.inr (Or.inl ⟨n, mem_memnodes_of_slot hi hn, hb⟩)
        · rcases List.mem_append.mp hb with hb | hb
          · have hnode : fit.node ∈ pool.nodes fit.slot := by simp [hnodes]
            exact Or.inr (Or.inl ⟨_, mem_memnodes_of_slot hslot hnode, hb⟩)
          · exact Or.inl (List.mem_singleton.mp hb)
      · exact Or.inr (Or.inl ⟨n, mem_memnodes.mpr (Or.inr hn), hb⟩)
    · exact Or.inr (Or.inr hb)
  · rintro (rfl | ⟨n, hn, hb⟩ | hb)
    · have hnew : (⟨fit.node.firstAvail, a, requested, record⟩ : Block) ∈
          (fit.node.carve P a requested record).carved :=
        List.mem_append_right _ (List.mem_singleton_self _)
      exact Or.inl ⟨_, mem_memnodes_of_slot hslot Pool.carve_mem, hnew⟩
    · rcases mem_memnodes.mp hn with ⟨i, hi, hn⟩ | hn
      · rcases Pool.mem_carve P a requested record hnodes hn with hn | ⟨rfl, rfl⟩
        · exact Or.inl ⟨n, mem_memnodes_of_slot hi hn, hb⟩
        · exact Or.inl ⟨_, mem_memnodes_of_slot hslot Pool.carve_mem, List.mem_append_left _ hb⟩
      · exact Or.inl ⟨n, mem_memnodes.mpr (Or.inr hn), hb⟩
    · exact Or.inr hb

theorem mem_blocks_register {index : Nat} {node : Memnode} (hindex : index ≤ maxPoolSlot) :
    b ∈ (pool.register index node).blocks ↔ b ∈ node.carved ∨ b ∈ pool.blocks := by
  rw [mem_blocks, mem_blocks, Pool.register_large]
  simp only [(pool.register_memnodes node hindex).mem_iff, List.mem_cons, or_and_right, exists_or,
    exists_eq_left, or_assoc]

theorem Pool.rewind_blocks (pool : Pool) : pool.rewind.blocks = [] := by
  apply List.eq_nil_iff_forall_not_mem.mpr
  intro b hb
  rcases mem_blocks.mp hb with ⟨n, hn, hb⟩ | hb
  · rcases mem_memnodes.mp hn with ⟨i, -, hn⟩ | hn
    · obtain ⟨n, -, rfl⟩ := List.mem_map.mp hn
      cases hb
    · obtain ⟨n, -, rfl⟩ := List.mem_map.mp hn
      cases hb
  · cases hb

theorem Held.mem_blocks_forget (h : Held P contents m ps pendings frees) (hp : p ∈ ps)
    (hpool : m.pools p = some pool) {large : Block} (hlarge : large ∈ pool.large) :
    b ∈ (pool.forget large.addr).blocks ↔ b ∈ pool.blocks ∧ b.addr ≠ large.addr := by
  have hok := h.poolOk hp hpool
  have hforget : b ∈ (pool.forget large.addr).large ↔ b ∈ pool.large ∧ b.addr ≠ large.addr := by
    show b ∈ pool.large.filter _ ↔ _
    rw [List.mem_filter, decide_eq_true_iff]
  have hmemnodes : (pool.forget large.addr).memnodes = pool.memnodes := rfl
  rw [mem_blocks, mem_blocks, hforget, hmemnodes]
  constructor
  · rintro (⟨n, hn, hb⟩ | ⟨hb, hne⟩)
    · refine ⟨Or.inl ⟨n, hn, hb⟩, fun heq => ?_⟩
      -- a carved block lies in a memnode, which is apart from the large block
      have hpos := (hok.block_ok (mem_blocks.mpr (Or.inl ⟨n, hn, hb⟩))).nonempty
      have hpos' := (hok.large large hlarge).nonempty
      have hne : n.region ≠ large.region := (List.nodup_append.mp hok.nodup).2.2 _
        (List.mem_map_of_mem hn) _ (List.mem_map_of_mem hlarge)
      have hapart := (h.regions_apart hp hp hpool hpool (region_mem_of_memnode hn)
        (region_mem_of_large hlarge) (Or.inr hne)).inside (hok.block_inside hn hb) (.refl _)
      simp only [Region.Apart, Region.stop, Block.region] at hapart
      omega
    · exact ⟨Or.inr hb, hne⟩
  · rintro ⟨hb | hb, hne⟩
    · exact Or.inl hb
    · exact Or.inr ⟨hb, hne⟩

/-! ## The loans of all pools -/

/-- The blocks that users were given of each pool since its last clear. -/
def Memory.loans (m : Memory) : Set (Nat × Block) :=
  {x | ∃ pool, m.pools x.1 = some pool ∧ x.2 ∈ pool.blocks ∧ x.2.record = false}

theorem mem_loans_of_pool (hpool : m.pools x.1 = some pool) :
    x ∈ m.loans ↔ x.2 ∈ pool.blocks ∧ x.2.record = false := by
  constructor
  · rintro ⟨pool', hpool', hx⟩
    rw [hpool] at hpool'
    cases hpool'
    exact hx
  · exact fun hx => ⟨pool, hpool, hx⟩

theorem mem_loans_congr (h : m'.pools x.1 = m.pools x.1) : x ∈ m'.loans ↔ x ∈ m.loans := by
  show (∃ pool, m'.pools x.1 = some pool ∧ _) ↔ ∃ pool, m.pools x.1 = some pool ∧ _
  rw [h]

theorem loans_of_pools (h : m'.pools = m.pools) : m'.loans = m.loans :=
  Set.ext fun _ => mem_loans_congr (congrFun h _)

theorem mem_loans_of_ne (hx : x.1 ≠ p) : x ∈ (m.setPool p pool).loans ↔ x ∈ m.loans :=
  mem_loans_congr (m.setPool_of_ne pool hx)

theorem mem_loans_self : (p, b) ∈ (m.setPool p pool).loans ↔ b ∈ pool.blocks ∧ b.record = false :=
  mem_loans_of_pool (Memory.setPool_self ..)

theorem mem_loans_emptied (hempty : ∀ b, b ∉ pool.blocks) :
    x ∈ (m.setPool p pool).loans ↔ x ∈ m.loans ∧ x.1 ≠ p := by
  obtain ⟨q, b⟩ := x
  by_cases hq : q = p
  · rw [hq, mem_loans_self]
    exact iff_of_false (fun hx => hempty b hx.1) fun hx => hx.2 rfl
  · rw [mem_loans_of_ne hq]
    exact (and_iff_left hq).symm

theorem loans_set (hpool : m.pools p = some pool)
    (h : ∀ b, b.record = false → (b ∈ pool'.blocks ↔ b ∈ pool.blocks)) :
    (m.setPool p pool').loans = m.loans := by
  apply Set.ext
  rintro ⟨q, b⟩
  by_cases hq : q = p
  · rw [hq, mem_loans_self, mem_loans_of_pool (x := (p, b)) hpool]
    exact and_congr_left (h b)
  · exact mem_loans_of_ne hq

/-- The lists and the links of the pool are none of its memory. -/
theorem loans_set_fields (hpool : m.pools p = some pool) (hnodes : pool'.nodes = pool.nodes)
    (hstray : pool'.stray = pool.stray) (hlarge : pool'.large = pool.large) :
    (m.setPool p pool').loans = m.loans := by
  apply loans_set hpool
  intro b _
  rw [Pool.blocks, Pool.blocks, Pool.memnodes, Pool.memnodes, hnodes, hstray, hlarge]

/-! ## Allocating -/

/-- What a request adds to the loans: the block it returns, unless it is for a cleanup
node. -/
def Lends (p a requested : Nat) (record : Bool) (s : State) (r : Option Nat × State) : Prop :=
  ∀ x, x ∈ r.2.mem.loans ↔
    (record = false ∧ ∃ mem, r.1 = some mem ∧ x = (p, ⟨mem, a, requested, false⟩)) ∨
      x ∈ s.mem.loans

theorem lends_nothing {a requested : Nat} {record : Bool} (h : s'.mem.loans = s.mem.loans) :
    Lends p a requested record s (none, s') := by
  intro x
  rw [h]
  constructor
  · exact Or.inr
  · rintro (⟨-, mem, hnone, -⟩ | hx)
    · cases hnone
    · exact hx

theorem lends_block {a requested mem : Nat} {record : Bool} (hpool : m.pools p = some pool)
    (hm : m.loans = s.mem.loans) (hs' : s'.mem = m.setPool p pool')
    (hblocks : ∀ b, b ∈ pool'.blocks ↔ b = ⟨mem, a, requested, record⟩ ∨ b ∈ pool.blocks) :
    Lends p a requested record s (some mem, s') := by
  rintro ⟨q, b⟩
  show (q, b) ∈ s'.mem.loans ↔ _
  rw [hs', ← hm]
  by_cases hq : q = p
  · subst hq
    rw [mem_loans_self, mem_loans_of_pool (x := (q, b)) hpool, hblocks b]
    constructor
    · rintro ⟨rfl | hb, huser⟩
      · cases huser
        exact Or.inl ⟨rfl, mem, rfl, rfl⟩
      · exact Or.inr ⟨hb, huser⟩
    · rintro (⟨rfl, mem', hmem', heq⟩ | ⟨hb, huser⟩)
      · cases hmem'
        cases heq
        exact ⟨Or.inl rfl, rfl⟩
      · exact ⟨Or.inr hb, huser⟩
  · rw [mem_loans_of_ne hq]
    constructor
    · exact Or.inr
    · rintro (⟨-, mem', -, heq⟩ | hx)
      · exact absurd (congrArg Prod.fst heq) hq
      · exact hx

theorem pallocSlots_loans {a requested : Nat} {record : Bool}
    (hpages : P.getNpages a ≤ maxPoolSlot + 1) :
    Yields True (pallocSlots env p a requested record s) (Lends p a requested record s) := by
  cases hpool : s.mem.pools p with
  | none =>
      unfold pallocSlots State.getPool
      rw [hpool]
      trivial
  | some pool =>
      cases hfit : pool.fit P a with
      | some fit =>
          obtain ⟨s', hok, hmem⟩ := pallocSlots_fit env requested record hpool hfit
          rw [hok]
          exact Yields.ok (lends_block hpool rfl hmem fun b => mem_blocks_carve hfit)
      | none =>
          cases hanswer : env.answer s.mem (P.getNpages a * P.pageSize) with
          | none =>
              obtain ⟨s', hok, hmem⟩ := pallocSlots_refused requested record hpool hfit hanswer
              rw [hok]
              exact Yields.ok (lends_nothing (loans_of_pools (by rw [hmem]; rfl)))
          | some mem =>
              obtain ⟨s', hok, hmem⟩ := pallocSlots_granted requested record hpool hfit hanswer
              have hpos := P.npages_pos a
              rw [hok]
              refine Yields.ok (lends_block (m := s.mem.granted _) hpool (loans_of_pools rfl) hmem
                fun b => ?_)
              rw [mem_blocks_register (by omega)]
              exact or_congr_left List.mem_singleton

theorem takeRecord_loans : Yields True (takeRecord env p s) fun r => r.2.mem.loans = s.mem.loans := by
  apply (getPool_yields s p).bind
  intro pool _ hpool
  dsimp only
  split
  · refine (getRecord_yields s _).bind fun c _ _ => Yields.ok ?_
    exact loans_set_fields hpool rfl rfl rfl
  · have hone : P.getNpages (P.alignAllocation P.sizeofCleanup) ≤ maxPoolSlot + 1 := by
      rw [P.npages_cleanup]
      decide
    apply (pallocSlots_loans hone).bind
    intro r _ hr
    split
    · trivial
    · apply Yields.ok
      apply Set.ext
      intro x
      refine (hr x).trans ⟨?_, Or.inr⟩
      rintro (⟨hrecord, -⟩ | hx)
      · cases hrecord
      · exact hx

theorem cleanupAdd_loans (data : Nat) (handler : Handler) :
    Yields True (cleanupAdd env p data handler s) fun s' => s'.mem.loans = s.mem.loans := by
  apply (getPool_yields s p).bind
  intro pool _ _
  apply takeRecord_loans.bind
  intro r _ hr
  rw [State.lock_mem] at hr
  refine (getPool_yields _ p).bind fun pool' _ hpool' => Yields.ok ?_
  rw [State.unlock_mem]
  refine Eq.trans ?_ hr
  exact loans_set_fields (m := r.2.mem.setRecord P _ _) hpool' rfl rfl rfl

theorem palloc_loans (size : Nat) :
    Yields True (palloc env p size s) (Lends p (P.alignAllocation size) size false s) := by
  cases hpool : s.mem.pools p with
  | none =>
      unfold palloc State.getPool
      rw [hpool]
      trivial
  | some pool =>
      by_cases hzero : P.alignAllocation size = 0
      · rw [palloc_zero env hpool hzero]
        exact Yields.ok (lends_nothing (by rw [State.unlock_mem]))
      by_cases hindex : P.getNpages (P.alignAllocation size) ≤ maxPoolSlot + 1
      · rw [palloc_slots env hpool hzero hindex]
        exact pallocSlots_loans hindex
      have hlarge := Nat.lt_of_not_le hindex
      cases hanswer : env.answer s.mem (P.alignAllocation size) with
      | none =>
          obtain ⟨s', hok, hmem⟩ := palloc_refused hpool hzero hlarge hanswer
          rw [hok]
          exact Yields.ok (lends_nothing (loans_of_pools (by rw [hmem]; rfl)))
      | some mem =>
          obtain ⟨s₁, hmem, hok⟩ := palloc_granted hpool hzero hlarge hanswer
          have hs₁ : Lends p (P.alignAllocation size) size false s (some mem, s₁) := by
            refine lends_block (m := s.mem.granted _) hpool (loans_of_pools rfl) hmem fun b => ?_
            rw [mem_blocks, mem_blocks]
            show _ ∨ b ∈ _ :: pool.large ↔ _
            rw [List.mem_cons]
            exact or_left_comm
          rw [hok]
          apply Yields.map
          refine (cleanupAdd_loans mem .free).mono fun s₂ _ h₂ x => ?_
          rw [State.unlock_mem, h₂]
          exact hs₁ x

theorem pcalloc_loans (size : Nat) :
    Yields True (pcalloc env p size s) (Lends p (P.alignAllocation size) size false s) := by
  apply (palloc_loans size).bind
  intro r _ hr
  split
  · exact Yields.ok hr
  · exact Yields.ok hr

/-! ## What is returned is new -/

def Unlent (m : Memory) (ps : List Nat) (r : Region) : Prop :=
  ∀ q ∈ ps, ∀ pool, m.pools q = some pool → ∀ b ∈ pool.blocks, Region.Apart r b.region

/-- Neither does memory that the system has given to nobody yet. -/
theorem Held.unlent_of_live {r r' : Region} (h : Held P contents m ps pendings frees)
    (hlive : ∀ l ∈ m.live, Region.Apart r l) (hin : Region.Inside r' r) : Unlent m ps r' := by
  intro q hq pool hpool b hb
  have hok := h.poolOk hq hpool
  obtain ⟨l, hl, hinside⟩ := hok.block_home hb
  exact (hlive l (hok.live l hl)).inside hin hinside

theorem Held.unlent_of_fit {a : Nat} {fit : Fit} (h : Held P contents m ps pendings frees)
    (hp : p ∈ ps) (hpool : m.pools p = some pool) (hfit : pool.fit P a = some fit) :
    Unlent m ps ⟨fit.node.firstAvail, a⟩ := by
  obtain ⟨hslot, hnodes, havail⟩ := findFit_some hfit
  have hnode : fit.node ∈ pool.nodes fit.slot := by simp [hnodes]
  have hmem := mem_memnodes_of_slot (slotsFrom_lt hslot) hnode
  obtain ⟨-, -, hok⟩ := (h.poolOk hp hpool).slots _ _ hnode
  intro q hq pool' hpool' b hb
  rcases h.block_cases hq hpool' hb hp hpool hmem with ⟨-, hb⟩ | hapart
  · have hbefore := (hok.tiles.inside (List.mem_map_of_mem hb)).2
    exact (Region.apart_of_le hbefore).symm
  · have hheader := hok.header
    have hsize := hok.stop
    have hfirst := hok.first
    have hle := hok.avail
    refine (hapart.inside (.refl _) ⟨?_, ?_⟩).symm
    · show fit.node.addr ≤ fit.node.firstAvail
      omega
    · show fit.node.firstAvail + a ≤ fit.node.addr + fit.node.deallocSize
      omega

theorem pallocSlots_unlent {a requested : Nat} {record : Bool}
    (h : Held P contents s.mem ps pendings frees) (hp : p ∈ ps)
    (hwrap : a + P.memnodeHeader < P.sizeMax) :
    Yields True (pallocSlots env p a requested record s) fun r =>
      ∀ mem, r.1 = some mem → Unlent s.mem ps ⟨mem, a⟩ := by
  obtain ⟨pool, hpool, -⟩ := h.pools p hp
  cases hfit : pool.fit P a with
  | some fit =>
      obtain ⟨s', hok, -⟩ := pallocSlots_fit env requested record hpool hfit
      rw [hok]
      apply Yields.ok
      intro mem hmem
      cases hmem
      exact h.unlent_of_fit hp hpool hfit
  | none =>
      cases hanswer : env.answer s.mem (P.getNpages a * P.pageSize) with
      | none =>
          obtain ⟨s', hok, -⟩ := pallocSlots_refused requested record hpool hfit hanswer
          rw [hok]
          apply Yields.ok
          intro mem hmem
          cases hmem
      | some start =>
          obtain ⟨s', hok, -⟩ := pallocSlots_granted requested record hpool hfit hanswer
          have hroom := P.npages_spec hwrap
          rw [hok]
          apply Yields.ok
          intro mem hmem
          cases hmem
          refine h.unlent_of_live (env.sound _ _ _ _ hanswer).2 ⟨Nat.le_add_right .., ?_⟩
          show start + P.memnodeHeader + a ≤ start + P.getNpages a * P.pageSize
          omega

theorem palloc_unlent {size : Nat} (h : Held P contents s.mem ps pendings frees) (hp : p ∈ ps)
    (hwrap : P.alignAllocation size ≠ 0 → P.alignAllocation size + P.memnodeHeader < P.sizeMax) :
    Yields True (palloc env p size s) fun r =>
      ∀ mem, r.1 = some mem → Unlent s.mem ps ⟨mem, P.alignAllocation size⟩ := by
  obtain ⟨pool, hpool, -⟩ := h.pools p hp
  by_cases hzero : P.alignAllocation size = 0
  · rw [palloc_zero env hpool hzero]
    apply Yields.ok
    intro mem hmem
    cases hmem
  by_cases hindex : P.getNpages (P.alignAllocation size) ≤ maxPoolSlot + 1
  · rw [palloc_slots env hpool hzero hindex]
    exact pallocSlots_unlent h hp (hwrap hzero)
  have hlarge := Nat.lt_of_not_le hindex
  cases hanswer : env.answer s.mem (P.alignAllocation size) with
  | none =>
      obtain ⟨s', hok, -⟩ := palloc_refused hpool hzero hlarge hanswer
      rw [hok]
      apply Yields.ok
      intro mem hmem
      cases hmem
  | some start =>
      obtain ⟨s₁, -, hok⟩ := palloc_granted hpool hzero hlarge hanswer
      rw [hok]
      apply Yields.map
      refine (Yields.self _).mono fun s₂ _ _ mem hmem => ?_
      cases hmem
      exact h.unlent_of_live (env.sound _ _ _ _ hanswer).2 (.refl _)

theorem pcalloc_unlent {size : Nat} (h : Held P contents s.mem ps pendings frees) (hp : p ∈ ps)
    (hwrap : P.alignAllocation size ≠ 0 → P.alignAllocation size + P.memnodeHeader < P.sizeMax) :
    Yields True (pcalloc env p size s) fun r =>
      ∀ mem, r.1 = some mem → Unlent s.mem ps ⟨mem, P.alignAllocation size⟩ := by
  apply (palloc_unlent h hp hwrap).bind
  intro r _ hr
  obtain ⟨answer, s₁⟩ := r
  cases answer <;> exact Yields.ok hr

/-! ## Creating -/

theorem addChild_loans (parent new : Nat) :
    Yields True (addChild parent new s) fun s' => s'.mem.loans = s.mem.loans := by
  apply (getPool_yields s new).bind
  intro pool _ hpool
  have h₁ : (s.mem.setPool new { pool with parent := some parent }).loans = s.mem.loans :=
    loans_set_fields hpool rfl rfl rfl
  apply (getPool_yields _ parent).bind
  intro old _ hold
  have h₂ : ((s.mem.setPool new { pool with parent := some parent }).setPool parent
      { old with child := some new }).loans = _ := loans_set_fields hold rfl rfl rfl
  refine (getPool_yields _ new).bind fun pool' _ hpool' => Yields.ok ?_
  refine Eq.trans ?_ (h₂.trans h₁)
  exact loans_set_fields hpool' rfl rfl rfl

theorem opened_blocks {thread mutex npages : Nat} {n : Memnode} (hpos : 0 < npages)
    (hpages : npages ≤ maxPoolSlot + 1) (hcarved : n.carved = []) :
    ¬ b ∈ ((barePool P thread mutex).register (npages - 1) n).blocks := by
  rw [mem_blocks_register (by omega), hcarved, mem_blocks]
  rintro (hb | ⟨n', hn', -⟩ | hb)
  · cases hb
  · rcases mem_memnodes.mp hn' with ⟨i, -, hn'⟩ | hn'
    · cases hn'
    · cases hn'
  · cases hb

/-- No block of a pool that was not made is lent. -/
theorem loans_unmade (h : s'.mem.loans = s.mem.loans) :
    x ∈ s'.mem.loans ↔ x ∈ s.mem.loans ∧ (none : Option Nat) ≠ some x.1 := by
  rw [h]
  exact (and_iff_left (Option.some_ne_none x.1).symm).symm

theorem settle_loans {size mem : Nat} {parent : Option Nat} {made : Except Err (Nat × Memnode)}
    (hpages : newPages P size ≤ maxPoolSlot + 1)
    (hcarved : ∀ mutex n, made = .ok (mutex, n) → n.carved = []) :
    Yields True (settle P thread size parent mem s made) fun r =>
      ∀ x, x ∈ r.2.2.mem.loans ↔ x ∈ s.mem.loans ∧ r.2.1 ≠ some x.1 := by
  cases made with
  | error err =>
      apply Yields.ok
      intro x
      exact loans_unmade (loans_of_pools rfl)
  | ok made =>
      obtain ⟨mutex, n⟩ := made
      have hopened : ∀ x, x ∈ (s.mem.setPool (mem + P.memnodeHeader)
          ((barePool P thread mutex).register (newPages P size - 1)
            { n with firstAvail := n.begin, sizeAvail := n.size })).loans ↔
          x ∈ s.mem.loans ∧ some (mem + P.memnodeHeader) ≠ some x.1 := by
        intro x
        have hnone : ({ n with firstAvail := n.begin, sizeAvail := n.size } : Memnode).carved = [] :=
          hcarved mutex n rfl
        refine (mem_loans_emptied fun b => opened_blocks (newPages_pos P size) hpages hnone).trans ?_
        exact and_congr_right fun _ => ⟨fun hne heq => hne (Option.some.inj heq).symm,
          fun hne heq => hne (congrArg some heq.symm)⟩
      unfold settle
      cases parent with
      | none => exact Yields.ok hopened
      | some q =>
          apply (addChild_loans q _).bind
          intro s₁ _ h₁
          apply Yields.ok
          intro x
          show x ∈ s₁.mem.loans ↔ _
          rw [h₁]
          exact hopened x

theorem create_loans (size : Nat) (parent : Option Nat) :
    Yields True (create env thread size parent s) fun r =>
      ∀ x, x ∈ r.2.2.mem.loans ↔ x ∈ s.mem.loans ∧ r.2.1 ≠ some x.1 := by
  by_cases hrefuses : RefusesSize P size
  · rw [create_outOfRange env thread parent s hrefuses]
    exact Yields.ok fun x => loans_unmade rfl
  cases hanswer : env.answer s.mem (newPages P size * P.pageSize) with
  | none =>
      obtain ⟨s', hok, hmem⟩ := create_refused thread parent hrefuses hanswer
      rw [hok]
      exact Yields.ok fun x => loans_unmade (loans_of_pools (by rw [hmem]; rfl))
  | some mem =>
      obtain ⟨s₁, hmem, hcreate⟩ := create_granted thread parent hrefuses hanswer
      have h₁ : s₁.mem.loans = s.mem.loans := loans_of_pools (by rw [hmem]; rfl)
      rw [RefusesSize, not_or, Nat.not_lt] at hrefuses
      rw [hcreate]
      apply embedMutex_node.bind
      intro made _ hmade
      have hcarved : ∀ mutex n, made = .ok (mutex, n) → n.carved = [] := by
        intro mutex n hn
        rcases hmade mutex n hn with rfl | rfl <;> rfl
      have hsettle : Yields True (settle P thread size parent mem s₁ made) _ :=
        settle_loans hrefuses.2 hcarved
      rwa [h₁] at hsettle

/-! ## Cleanups -/

/-- Only loans of the pool can have come back. -/
def LoansElsewhere (p : Nat) (m m' : Memory) : Prop := ∀ x, x.1 ≠ p → (x ∈ m'.loans ↔ x ∈ m.loans)

theorem LoansElsewhere.of_eq (h : m'.loans = m.loans) : LoansElsewhere p m m' := by
  intro x _
  rw [h]

theorem LoansElsewhere.trans {m'' : Memory} (h : LoansElsewhere p m m')
    (h' : LoansElsewhere p m' m'') : LoansElsewhere p m m'' := fun x hx => (h' x hx).trans (h x hx)

theorem registrations_loans (registrations : List Registration) :
    Yields True (registrations.foldlM
      (fun s reg => cleanupAdd env reg.pool reg.data (.user reg.id) s) s)
      fun s' => s'.mem.loans = s.mem.loans := by
  refine Yields.foldlM rfl fun s' reg hs' => ?_
  exact (cleanupAdd_loans reg.data (.user reg.id)).mono fun s'' _ hs'' => hs''.trans hs'

theorem runHandler_loans (c : CleanupNode) :
    Yields True (runHandler env p c s) fun s' => LoansElsewhere p s.mem s'.mem := by
  unfold runHandler
  split
  · refine (getPool_yields s p).bind fun pool _ _ => Yields.ok fun x hx => ?_
    exact mem_loans_of_ne (m := s.mem) hx
  · exact (registrations_loans _).mono fun s' _ hs' => LoansElsewhere.of_eq hs'

theorem reserveRecord_loans (r : Ref) :
    Yields True (reserveRecord P p r s) fun s' => s'.mem.loans = s.mem.loans := by
  apply (getRecord_yields s r).bind
  intro c _ _
  refine (getPool_yields s p).bind fun pool _ hpool => Yields.ok ?_
  exact loans_set_fields (m := s.mem.setRecord P _ _) hpool rfl rfl rfl

theorem runCleanups_loans (ptr : Option Ref) :
    Yields True (runCleanups env p rounds ptr s) fun s' => LoansElsewhere p s.mem s'.mem := by
  induction rounds generalizing ptr s with
  | zero =>
      cases ptr with
      | none => exact LoansElsewhere.of_eq rfl
      | some r => trivial
  | succ rounds ih =>
      cases ptr with
      | none => exact LoansElsewhere.of_eq rfl
      | some r =>
          apply (getRecord_yields s r).bind
          intro c _ _
          apply (runHandler_loans (s := s.log (.readRecord r.addr)) c).bind
          intro s₁ _ h₁
          apply (reserveRecord_loans r).bind
          intro s₂ _ h₂
          exact (ih c.next).mono fun s₃ _ h₃ =>
            (LoansElsewhere.trans h₁ (LoansElsewhere.of_eq h₂)).trans h₃

theorem cleanupRunAll_loans :
    Yields True (cleanupRunAll env rounds p s) fun s' => LoansElsewhere p s.mem s'.mem := by
  apply (getPool_yields s p).bind
  intro pool _ _
  apply (runCleanups_loans _).bind
  intro s₁ _ h₁
  refine (getPool_yields s₁ p).bind fun pool' _ hpool' => Yields.ok ?_
  exact h₁.trans (LoansElsewhere.of_eq (loans_set_fields hpool' rfl rfl rfl))

theorem detachRecord_loans (prev : Option Ref) (r : Ref) :
    Yields True (detachRecord P p prev r s) fun s' => s'.mem.loans = s.mem.loans := by
  apply (getPool_yields s p).bind
  intro pool _ hpool
  apply (getRecord_yields s r).bind
  intro c _ _
  split
  · exact loans_set_fields hpool rfl rfl rfl
  · split
    · trivial
    · exact (getRecord_yields s _).bind fun cq _ _ => Yields.ok (loans_of_pools rfl)

theorem unlinkRecord_loans (prev : Option Ref) (r : Ref) :
    Yields True (unlinkRecord P p prev r s) fun s' => s'.mem.loans = s.mem.loans := by
  apply (detachRecord_loans prev r).bind
  intro s₁ _ h₁
  apply (reserveRecord_loans r).bind
  intro s₂ _ h₂
  refine (getPool_yields s₂ p).bind fun pool _ _ => Yields.ok ?_
  rw [State.unlock_mem, h₂, h₁]

theorem cleanupRemove_loans (data : Nat) (handler : Handler) :
    Yields True (cleanupRemove P rounds p data handler s) fun s' => s'.mem.loans = s.mem.loans := by
  apply (getPool_yields s p).bind
  intro pool _ _
  apply (Yields.self (findRecord ..)).bind
  intro found _ _
  split
  · apply Yields.ok
    rw [State.lock_mem]
  · refine (unlinkRecord_loans _ _).mono fun s' _ hs' => ?_
    rw [hs', State.lock_mem]

/-- The block at the address goes back to the system with the cleanup that was registered for
it, and no cleanup of a user takes anything back. -/
def Returned (s : State) (p data : Nat) (handler : Handler) : Set (Nat × Block) :=
  {x | handler = .free ∧ Registered s p data .free ∧ x.1 = p ∧ x.2.addr = data}

theorem returned_user (s : State) (p data id : Nat) : Returned s p data (.user id) = ∅ := by
  apply Set.eq_empty_of_forall_notMem
  intro x hx
  cases hx.1

theorem returned_of_not {data : Nat} {handler : Handler} (h : ¬ Registered s p data handler) :
    Returned s p data handler = ∅ := by
  apply Set.eq_empty_of_forall_notMem
  rintro x ⟨rfl, hreg, -⟩
  exact h hreg

theorem Held.runHandler_loans (h : Held P contents s.mem ps pendings frees) (hp : p ∈ ps)
    {r : Ref} {c : CleanupNode} (hr : r ∈ pendings p) (hc : s.mem.records r = some c)
    (hreg : Registered s p c.data c.handler) :
    Yields True (runHandler env p c s) fun s' =>
      s'.mem.loans = s.mem.loans \ Returned s p c.data c.handler := by
  unfold runHandler
  split
  · rename_i hfree
    refine (getPool_yields s p).bind fun pool _ hpool => Yields.ok (Set.ext ?_)
    have hdata : c.data ∈ freeData s.mem (pendings p) :=
      List.mem_filterMap.mpr ⟨r, hr, by rw [hc, Option.bind_some, if_pos hfree]⟩
    obtain ⟨large, hlarge, haddr⟩ := (h.freed hp hpool).2 _ hdata
    rintro ⟨q, b⟩
    have hreturned : (q, b) ∈ Returned s p c.data c.handler ↔ q = p ∧ b.addr = c.data :=
      ⟨fun hx => hx.2.2, fun hx => ⟨hfree, hfree ▸ hreg, hx⟩⟩
    show (q, b) ∈ (s.mem.setPool p (pool.forget c.data)).loans ↔ _
    rw [Set.mem_sdiff, hreturned]
    by_cases hq : q = p
    · subst hq
      rw [mem_loans_self, mem_loans_of_pool (x := (q, b)) hpool, ← haddr,
        h.mem_blocks_forget hp hpool hlarge]
      tauto
    · rw [mem_loans_of_ne hq]
      tauto
  · rename_i id huser
    refine (registrations_loans _).mono fun s' _ hs' => ?_
    rw [hs', huser, returned_user, Set.sdiff_empty, State.log_mem]

theorem Held.cleanupRun_loans (h : Held P contents s.mem ps pendings frees) (hp : p ∈ ps)
    (data : Nat) (handler : Handler) :
    Yields True (cleanupRun env rounds p data handler s) fun s' =>
      s'.mem.loans = s.mem.loans \ Returned s p data handler := by
  apply (getPool_yields s p).bind
  intro pool _ hpool
  apply ((findRecord_registered (P := P) rounds data handler hpool).and (Yields.self _)).bind
  intro found _ hfound
  cases found with
  | none =>
      have hnot : ¬ Registered s p data handler := by simpa using hfound.1
      apply Yields.ok
      rw [State.lock_mem, returned_of_not hnot, Set.sdiff_empty]
  | some found =>
      obtain ⟨prev, r⟩ := found
      have hreg : Registered s p data handler := hfound.1.mp rfl
      obtain ⟨c, hlead, hc, rfl, rfl⟩ := findRecord_some hfound.2
      rw [State.lock_mem] at hlead hc
      have hr : r ∈ pendings p := by
        rwa [(h.poolOk hp hpool).pendingChain.leads_iff] at hlead
      have hlock : (s.lock P pool.mutex).getRecord r = .ok c := by
        unfold State.getRecord
        rw [State.lock_mem, hc]
      show Yields True ((s.lock P pool.mutex).getRecord r >>= _) _
      rw [hlock]
      have hheld : Held P contents (s.lock P pool.mutex).mem ps pendings frees := by
        rwa [State.lock_mem]
      have hreturned : Returned (s.lock P pool.mutex) p c.data c.handler =
          Returned s p c.data c.handler := by
        unfold Returned Registered
        rw [State.lock_mem]
      have hrun : Yields True (runHandler env p c (s.lock P pool.mutex)) _ :=
        hheld.runHandler_loans hp hr (by rwa [State.lock_mem])
          (by unfold Registered; rwa [State.lock_mem])
      rw [hreturned, State.lock_mem] at hrun
      apply hrun.bind
      intro s₁ _ h₁
      exact (unlinkRecord_loans prev r).mono fun s₂ _ h₂ => h₂.trans h₁

/-! ## Clearing -/

/-- A pool is cleared, once that holds of those below it. -/
theorem clear_loans {order : List Nat} (hpool : s.mem.pools p = some pool)
    (howner : P.threadSafety = true → pool.owner = thread)
    (hchildren : ∀ s₁ : State, SamePlaces s.mem s₁.mem →
      Yields True (forChildren (clear env rounds depth thread) rounds pool.child s₁) fun s₂ =>
        s₂.mem.loans = s₁.mem.loans \ {x | x.1 ∈ order}) :
    Yields True (clear env rounds (depth + 1) thread p s) fun s' =>
      s'.mem.loans = s.mem.loans \ {x | x.1 ∈ p :: order} := by
  unfold clear
  rw [State.getPool_bind hpool, if_neg fun hother => hother.2 (howner hother.1)]
  have hplaces := cleanupRunAll_places env rounds p (s.lock P pool.mutex)
  have hloans : Yields True (cleanupRunAll env rounds p (s.lock P pool.mutex)) _ :=
    cleanupRunAll_loans
  rw [State.lock_mem] at hplaces hloans
  apply (hloans.and hplaces).bind
  intro s₁ _ h₁
  obtain ⟨pool₁, hpool₁⟩ := (h₁.2.some_iff p).mpr ⟨pool, hpool⟩
  rw [State.getPool_bind hpool₁, h₁.2.child hpool hpool₁]
  apply (hchildren s₁ h₁.2).bind
  intro s₂ _ h₂
  refine (getPool_yields s₂ p).bind fun pool₂ _ hpool₂ => Yields.ok (Set.ext fun x => ?_)
  have hempty : ∀ b, b ∉ pool₂.rewind.blocks := by
    rw [pool₂.rewind_blocks]
    exact fun b => List.not_mem_nil
  rw [State.unlock_mem, State.setPool_mem, mem_loans_emptied hempty, h₂, Set.mem_sdiff,
    Set.mem_sdiff, Set.mem_ofPred_eq, Set.mem_ofPred_eq, List.mem_cons, not_or]
  constructor
  · rintro ⟨⟨hx, hbelow⟩, hself⟩
    exact ⟨(h₁.1 x hself).mp hx, hself, hbelow⟩
  · rintro ⟨hx, hself, hbelow⟩
    exact ⟨⟨(h₁.1 x hself).mpr hx, hbelow⟩, hself⟩

theorem clearChildren_loans {f : Family Nat} {ptr : Option Nat}
    (hlinked : Family.Linked s.mem.links f ptr)
    (howner : ∀ q ∈ f.members, ∀ pool, s.mem.pools q = some pool → P.threadSafety = true →
      pool.owner = thread) :
    Yields True (forChildren (clear env rounds depth thread) loop ptr s) fun s' =>
      s'.mem.loans = s.mem.loans \ {x | x.1 ∈ f.members} := by
  induction f generalizing depth loop ptr s with
  | nil =>
      cases hlinked
      have hnone : s.mem.loans = s.mem.loans \ {x | x.1 ∈ (Family.nil : Family Nat).members} := by
        apply Set.ext
        intro x
        exact (and_iff_left List.not_mem_nil).symm
      cases loop <;> exact hnone
  | node a c b ihc ihb =>
      obtain ⟨rfl, child, brother, hlinks, hlc, hlb⟩ := hlinked
      cases loop with
      | zero => trivial
      | succ loop =>
          have hmem : ∀ q, q ∈ (Family.node a c b).members ↔
              q ∈ a :: c.members ∨ q ∈ b.members := by
            intro q
            rw [Family.members, List.mem_cons, List.mem_append, List.mem_cons, or_assoc]
          have hafter : ∀ s₁ : State, SamePlaces s.mem s₁.mem →
              ∀ q ∈ (Family.node a c b).members, ∀ pool, s₁.mem.pools q = some pool →
                P.threadSafety = true → pool.owner = thread := by
            intro s₁ hplaces q hq pool₁ hpool₁ hts
            obtain ⟨pool, hpool⟩ := (hplaces.some_iff q).mp ⟨pool₁, hpool₁⟩
            rw [hplaces.owner hpool hpool₁]
            exact howner q hq pool hpool hts
          apply (getPool_yields s a).bind
          intro pool _ hpool
          rw [Memory.links, hpool, Option.map_some, Option.some_inj, Pool.links, Prod.mk.injEq]
            at hlinks
          obtain ⟨rfl, rfl⟩ := hlinks
          have hfirst : Yields True (clear env rounds depth thread a (s.log (.readPool a)))
              fun s' => s'.mem.loans = s.mem.loans \ {x | x.1 ∈ a :: c.members} := by
            cases depth with
            | zero => trivial
            | succ depth =>
                refine clear_loans (s := s.log (.readPool a)) hpool
                  (howner a ((hmem a).mpr (Or.inl (List.mem_cons_self ..))) pool hpool)
                  fun s₁ hplaces => ihc (hplaces.links ▸ hlc) fun q hq => ?_
                exact hafter s₁ hplaces q ((hmem q).mpr (Or.inl (List.mem_cons_of_mem a hq)))
          apply (hfirst.and (clear_places env rounds depth thread a _)).bind
          intro s₁ _ h₁
          have hrest : Yields True
              (forChildren (clear env rounds depth thread) loop pool.brother s₁) _ :=
            ihb (h₁.2.links ▸ hlb) fun q hq => hafter s₁ h₁.2 q ((hmem q).mpr (Or.inr hq))
          refine hrest.mono fun s₂ _ h₂ => ?_
          rw [h₂, h₁.1, Set.sdiff_sdiff]
          congr 1
          apply Set.ext
          intro x
          exact (hmem x.1).symm

end Floppix.Pools
