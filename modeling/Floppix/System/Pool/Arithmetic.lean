import Floppix.System.Pool.Requests

/-! # Which sizes are allocated safely

`fpx_palloc` rounds a size up, adds the header of a memnode and divides by the page size.
Only the rounding is checked. A size so near to the top that adding the header wraps is
taken for one of a single page.
-/

namespace Floppix.Pools

open Layout Outcome

variable {P : Platform} {env : Environment P} {m m' : Memory} {p : Nat} {pool : Pool}
  {s : State} {size : Nat}

/-! ## Safe calls -/

/-- No decrement of `size_avail` went below zero: it is the exact distance from
`first_avail` to the end. -/
def Memnode.Counted (n : Memnode) : Prop := n.firstAvail + n.sizeAvail = n.begin + n.size

/-- The call returns NULL, or a block of the size inside one allocated region, and the
memnodes of the pool are counted afterwards. -/
def SafePalloc (env : Environment P) (p size : Nat) (s : State) : Prop :=
  ∃ r s', palloc env p size s = .ok (r, s') ∧
    (∀ a, r = some a → ∃ region ∈ s'.mem.live, Region.Inside ⟨a, size⟩ region) ∧
    ∀ pool', s'.mem.pools p = some pool' → ∀ n ∈ pool'.memnodes, n.Counted

/-- Once the system has given a large block, a cleanup node can be had for it. -/
def Registrable (env : Environment P) (m : Memory) (pool : Pool) (a : Nat) : Prop :=
  ∀ mem, env.answer m a = some mem → Obtainable env (m.granted ⟨mem, a⟩) pool

/-- The size cannot be aligned, or its header fits into a `size_t` and a large block can be
registered, or the system refuses the single page that the code asks for. -/
def PallocFits (env : Environment P) (m : Memory) (pool : Pool) (size : Nat) : Prop :=
  let a := P.alignAllocation size
  a = 0 ∨
  (a + P.memnodeHeader < P.sizeMax ∧
    (P.getNpages a ≤ maxPoolSlot + 1 ∨ Registrable env m pool a)) ∨
  (P.sizeMax ≤ a + P.memnodeHeader ∧ env.answer m P.pageSize = none)

/-! ## Sizes whose header wraps -/

theorem Platform.alignAllocation_lt (size : Nat) : P.alignAllocation size < P.sizeMax := by
  have hpages := P.pages_fit
  have hword := Nat.le_of_dvd P.page_pos P.word_dvd_page
  have hmin : P.minAlloc = 2 * P.word := by
    rw [Abi.minAlloc, Nat.shiftLeft_eq, Nat.pow_one, Nat.mul_comm]
  have hpos := P.page_pos
  simp only [maxPoolSlot] at hpages
  unfold Abi.alignAllocation
  simp only
  split
  · omega
  · split
    · omega
    · exact Nat.lt_of_le_of_lt (Nat.sub_le ..) P.wrap_lt

/-- The page count of such a size is that of a small one. -/
theorem Platform.npages_wrapped {a : Nat} (ha : a < P.sizeMax)
    (hwrap : P.sizeMax ≤ a + P.memnodeHeader) : P.getNpages a = 1 := by
  have hheaders := P.headers_fit
  have hpage : P.pageSize < P.sizeMax := by simpa using P.page_lt (n := 1) (by decide)
  have htotal : P.wrap (a + P.memnodeHeader) = a + P.memnodeHeader - P.sizeMax := by
    rw [Abi.wrap, Nat.mod_eq_sub_mod hwrap, Nat.mod_eq_of_lt (by omega)]
  unfold Abi.getNpages
  simp only [htotal]
  rw [if_pos]
  have hpos : 0 < P.pageSize := P.page_pos
  omega

theorem fit_wrapped (h : SlotsOk P m pool) {a : Nat} (hwrap : P.sizeMax ≤ a + P.memnodeHeader) :
    pool.fit P a = none := by
  cases hfit : pool.fit P a with
  | none => rfl
  | some fit =>
      obtain ⟨hmem, hle⟩ := fit_mem hfit
      have havail := h.avail_le hmem
      have hlt : maxPoolSlot * P.pageSize < P.sizeMax := P.page_lt (by decide)
      omega

/-- The memnode that is given up for it has less than it is said to have. -/
theorem freshNode_wrapped {a : Nat} (ha : a < P.sizeMax)
    (hwrap : P.sizeMax ≤ a + P.memnodeHeader) (mem requested : Nat) (record : Bool) :
    ¬ (freshNode P mem a requested record).Counted := by
  have hpage : 2 * P.pageSize < P.sizeMax := P.page_lt (by decide)
  have hheaders := P.headers_fit
  have hpos := P.page_pos
  rw [freshNode, P.npages_wrapped ha hwrap, Nat.one_mul]
  have hsub := P.sub_of_le (a := P.pageSize) (b := P.memnodeHeader) (by omega) (by omega)
  simp only [Memnode.Counted, Memnode.carve, newMemnode, hsub]
  omega

/-! ## Counted memnodes -/

theorem SlotsOk.counted (h : SlotsOk P m pool) (hstray : ∀ n ∈ pool.stray, n.Counted) :
    ∀ n ∈ pool.memnodes, n.Counted := by
  intro n hn
  rcases mem_memnodes.mp hn with ⟨i, -, hi⟩ | hs
  · exact (h.nodes i n hi).2.2.first
  · exact hstray n hs

/-- A large block is registered, and with it comes a cleanup node at most. -/
theorem Registrable.safe (h : PoolSound P s.mem p pool) (hstray : ∀ n ∈ pool.stray, n.Counted)
    (ha : P.alignAllocation size ≠ 0)
    (hindex : maxPoolSlot + 1 < P.getNpages (P.alignAllocation size))
    (hreg : Registrable env s.mem pool (P.alignAllocation size)) : SafePalloc env p size s := by
  cases hanswer : env.answer s.mem (P.alignAllocation size) with
  | none =>
      obtain ⟨s', hok, hmem⟩ := palloc_refused h.here ha hindex hanswer
      refine ⟨none, s', hok, by simp, fun pool' hpool' => ?_⟩
      rw [hmem, Memory.refused, h.here] at hpool'
      cases hpool'
      exact h.slots.counted hstray
  | some mem =>
      obtain ⟨s₁, hmem₁, hok⟩ := palloc_granted h.here ha hindex hanswer
      have hsound := h.handed ⟨mem, P.alignAllocation size, size, false⟩
      have hobt := (obtainable_handed env s.mem p pool
        ⟨mem, P.alignAllocation size, size, false⟩).mpr (hreg mem hanswer)
      rw [← hmem₁] at hsound hobt
      obtain ⟨s₂, pool₂, hadd, hpool₂, hconfined⟩ :=
        cleanupAdd_done mem .free hsound.here hsound.free hobt
      rw [hadd] at hok
      refine ⟨some mem, s₂.unlock P pool.mutex, hok, fun a heq => ?_, fun pool' hpool' => ?_⟩
      · cases heq
        have hlive := hconfined.live ⟨mem, P.alignAllocation size⟩ (by
          rw [hmem₁]
          exact List.mem_cons_self ..)
        rw [State.unlock_mem]
        exact ⟨_, hlive, Nat.le_refl _, Nat.add_le_add_left (P.alignAllocation_spec ha).1 _⟩
      · rw [State.unlock_mem, hpool₂] at hpool'
        cases hpool'
        apply (hconfined.slots hsound.slots).counted
        rw [hconfined.stray]
        exact hstray

/-- Without a wrap the block lies inside the memnode it is carved from. -/
theorem safe_slots (h : PoolSound P s.mem p pool) (hstray : ∀ n ∈ pool.stray, n.Counted)
    (ha : P.alignAllocation size ≠ 0)
    (hwrap : P.alignAllocation size + P.memnodeHeader < P.sizeMax)
    (hindex : P.getNpages (P.alignAllocation size) ≤ maxPoolSlot + 1) :
    SafePalloc env p size s := by
  have hsize := P.sizeOk ha
  have hpos := P.npages_pos (P.alignAllocation size)
  rw [SafePalloc, palloc_slots env h.here ha hindex]
  cases hfit : pool.fit P (P.alignAllocation size) with
  | some fit =>
      obtain ⟨s', hok, hmem⟩ := pallocSlots_fit env size false h.here hfit
      obtain ⟨hnode, hle⟩ := fit_mem hfit
      obtain ⟨-, -, hnodeOk⟩ := h.slots.nodes _ _ hnode
      refine ⟨_, s', hok, fun a heq => ?_, fun pool' hpool' => ?_⟩
      · cases heq
        have hheader := hnodeOk.header
        have hstop := hnodeOk.stop
        have hfirst := hnodeOk.first
        have havail := hnodeOk.avail
        have hlong := hsize.long
        refine ⟨fit.node.region, ?_, ?_, ?_⟩
        · rw [hmem]
          exact h.slots.live _ _ hnode
        · simp only [Memnode.region]
          omega
        · simp only [Memnode.region, Region.stop]
          omega
      · rw [hmem, Memory.setPool_self] at hpool'
        cases hpool'
        exact (h.slots.carve hsize hfit false).counted hstray
  | none =>
      cases hanswer : env.answer s.mem
          (P.getNpages (P.alignAllocation size) * P.pageSize) with
      | none =>
          obtain ⟨s', hok, hmem⟩ := pallocSlots_refused size false h.here hfit hanswer
          refine ⟨none, s', hok, by simp, fun pool' hpool' => ?_⟩
          rw [hmem, Memory.refused, h.here] at hpool'
          cases hpool'
          exact h.slots.counted hstray
      | some mem =>
          obtain ⟨s', hok, hmem⟩ := pallocSlots_granted size false h.here hfit hanswer
          refine ⟨_, s', hok, fun a heq => ?_, fun pool' hpool' n hn => ?_⟩
          · cases heq
            have hroom := P.npages_spec hwrap
            have hlong := hsize.long
            refine ⟨⟨mem, P.getNpages (P.alignAllocation size) * P.pageSize⟩, ?_, ?_, ?_⟩
            · rw [hmem]
              exact List.mem_cons_self ..
            · exact Nat.le_add_right _ _
            · simp only [Region.stop]
              omega
          · rw [hmem, Memory.setPool_self] at hpool'
            cases hpool'
            have hmem' := (pool.register_memnodes (freshNode P mem (P.alignAllocation size) size
              false) (by omega)).mem_iff.mp hn
            rcases List.mem_cons.mp hmem' with rfl | hn
            · exact (freshNode_ok (env.sound _ _ _ _ hanswer).1 hsize hwrap (by omega) false).first
            · exact h.slots.counted hstray n hn

/-- With a wrap the page that is granted is not enough. -/
theorem unsafe_wrapped (h : PoolSound P s.mem p pool) (ha : P.alignAllocation size ≠ 0)
    (hwrap : P.sizeMax ≤ P.alignAllocation size + P.memnodeHeader) {mem : Nat}
    (hanswer : env.answer s.mem P.pageSize = some mem) : ¬ SafePalloc env p size s := by
  rintro ⟨r, s', hok, -, hcounted⟩
  have hlt := P.alignAllocation_lt size
  have hone := P.npages_wrapped hlt hwrap
  rw [palloc_slots env h.here ha (by omega)] at hok
  rw [← Nat.one_mul P.pageSize, ← hone] at hanswer
  obtain ⟨s'', hok', hmem⟩ :=
    pallocSlots_granted size false h.here (fit_wrapped h.slots hwrap) hanswer
  rw [hok'] at hok
  cases hok
  rw [hmem] at hcounted
  refine freshNode_wrapped hlt hwrap mem size false (hcounted _ (Memory.setPool_self ..) _ ?_)
  exact (pool.register_memnodes _ (by omega)).mem_iff.mpr (List.mem_cons_self ..)

/-- Without a node for its cleanup, the call for a large block does not return. -/
theorem unsafe_registered (h : PoolSound P s.mem p pool) (ha : P.alignAllocation size ≠ 0)
    (hindex : maxPoolSlot + 1 < P.getNpages (P.alignAllocation size))
    (hreg : ¬ Registrable env s.mem pool (P.alignAllocation size)) :
    ¬ SafePalloc env p size s := by
  rintro ⟨r, s', hok, -⟩
  rw [Registrable] at hreg
  push Not at hreg
  obtain ⟨mem, hanswer, hnot⟩ := hreg
  obtain ⟨s₁, hmem₁, hcall⟩ := palloc_granted h.here ha hindex hanswer
  have hsound := h.handed ⟨mem, P.alignAllocation size, size, false⟩
  rw [← obtainable_handed env s.mem p pool ⟨mem, P.alignAllocation size, size, false⟩,
    ← hmem₁] at hnot
  rw [← hmem₁] at hsound
  rw [hcall, cleanupAdd_refused mem .free hsound.here hnot] at hok
  cases hok

/-! ## The sizes that are safe -/

/-- A call of `fpx_palloc` is safe exactly for these sizes. -/
theorem palloc_safe_iff (h : PoolSound P s.mem p pool) (hstray : ∀ n ∈ pool.stray, n.Counted) :
    SafePalloc env p size s ↔ PallocFits env s.mem pool size := by
  unfold PallocFits
  by_cases ha : P.alignAllocation size = 0
  · refine ⟨fun _ => Or.inl ha, fun _ => ⟨none, _, palloc_zero env h.here ha, by simp, ?_⟩⟩
    intro pool' hpool'
    rw [State.unlock_mem, h.here] at hpool'
    cases hpool'
    exact h.slots.counted hstray
  by_cases hwrap : P.sizeMax ≤ P.alignAllocation size + P.memnodeHeader
  · cases hanswer : env.answer s.mem P.pageSize with
    | some mem =>
        simp only [ha, Nat.not_lt.mpr hwrap, unsafe_wrapped h ha hwrap hanswer]
        simp
    | none =>
        refine ⟨fun _ => Or.inr (Or.inr ⟨hwrap, rfl⟩), fun _ => ?_⟩
        have hone := P.npages_wrapped (P.alignAllocation_lt size) hwrap
        rw [← Nat.one_mul P.pageSize, ← hone] at hanswer
        obtain ⟨s', hok, hmem⟩ :=
          pallocSlots_refused size false h.here (fit_wrapped h.slots hwrap) hanswer
        rw [SafePalloc, palloc_slots env h.here ha (by omega)]
        refine ⟨none, s', hok, by simp, fun pool' hpool' => ?_⟩
        rw [hmem, Memory.refused, h.here] at hpool'
        cases hpool'
        exact h.slots.counted hstray
  · rw [not_le] at hwrap
    simp only [ha, hwrap, Nat.not_le.mpr hwrap, true_and, false_and, false_or, or_false]
    by_cases hindex : P.getNpages (P.alignAllocation size) ≤ maxPoolSlot + 1
    · exact ⟨fun _ => Or.inl hindex, fun _ => safe_slots h hstray ha hwrap hindex⟩
    · rw [not_le] at hindex
      refine ⟨fun hsafe => Or.inr ?_, fun hor => ?_⟩
      · by_contra hreg
        exact unsafe_registered h ha hindex hreg hsafe
      · exact (hor.resolve_left (Nat.not_le.mpr hindex)).safe h hstray ha hindex

theorem palloc_safe_first : ∃ s pool, firstState = some s ∧ s.mem.pools firstPool = some pool ∧
    (SafePalloc (bump lp64 .inMemory) firstPool 5000 s ↔
      PallocFits (bump lp64 .inMemory) s.mem pool 5000) := by
  have h : ∃ s pool, firstState = some s ∧ s.mem.pools firstPool = some pool ∧ pool.stray = [] :=
    ⟨_, _, rfl, rfl, rfl⟩
  obtain ⟨s, pool, hs, hpool, hstray⟩ := h
  exact ⟨s, pool, hs, hpool, palloc_safe_iff (firstState_sound hs hpool) (by simp [hstray])⟩

def pagesOf (P : Platform) (a : Nat) : Nat :=
  if a + P.memnodeHeader < P.pageSize then 1 else (a + P.memnodeHeader) / P.pageSize + 1

/-- A size that is 16 less than the highest address gets a block in a page. -/
theorem palloc_unsafe : ∃ s pool, firstState = some s ∧ PoolSound lp64 s.mem firstPool pool ∧
    2 ^ 64 - 16 < lp64.sizeMax ∧
    pagesOf lp64 (lp64.alignAllocation (2 ^ 64 - 16)) ≠ maxPoolSlot + 1 ∧
    ¬ SafePalloc (bump lp64 .inMemory) firstPool (2 ^ 64 - 16) s := by
  have h : ∃ s pool a s', firstState = some s ∧ s.mem.pools firstPool = some pool ∧
      palloc (bump lp64 .inMemory) firstPool (2 ^ 64 - 16) s = .ok (some a, s') ∧
      ∀ region ∈ s'.mem.live, ¬ Region.Inside ⟨a, 2 ^ 64 - 16⟩ region :=
    ⟨_, _, _, _, rfl, rfl, rfl, by decide⟩
  obtain ⟨s, pool, a, s', hs, hpool, hok, hout⟩ := h
  refine ⟨s, pool, hs, firstState_sound hs hpool, by decide, by decide, ?_⟩
  rintro ⟨r, s'', hok', hin, -⟩
  rw [hok] at hok'
  cases hok'
  obtain ⟨region, hregion, hinside⟩ := hin a rfl
  exact hout region hregion hinside

end Floppix.Pools
