import Floppix.System.Pool.Accounting
import Floppix.System.Pool.Failures

/-! # What a new pool has room for

`fpx_pool_create` counts pages for the size with the headers of the memnode and of the
pool. A pool without a parent also has its mutex in these pages, which is not counted.
-/

namespace Floppix.Pools

open Layout Outcome

variable {P : Platform} {env : Environment P} {m m' : Memory} {p : Nat} {pool : Pool}
  {s s' : State} {thread size : Nat} {parent : Option Nat}

/-! ## When the search finds nothing -/

theorem fitIn_none_iff {a : Nat} {nodes : List Memnode} :
    fitIn a nodes = none ↔ ∀ n ∈ nodes, n.sizeAvail < a := by
  induction nodes with
  | nil => simp [fitIn]
  | cons n nodes ih =>
      unfold fitIn
      by_cases hle : a ≤ n.sizeAvail
      · rw [if_pos hle]
        simp [hle]
      · rw [if_neg hle, Option.map_eq_none_iff, ih, List.forall_mem_cons]
        simp [Nat.not_le.mp hle]

theorem findFit_none_iff {a : Nat} {nodes : Nat → List Memnode} {slots : List Nat} :
    findFit a nodes slots = none ↔ ∀ i ∈ slots, ∀ n ∈ nodes i, n.sizeAvail < a := by
  induction slots with
  | nil => simp [findFit]
  | cons i slots ih =>
      unfold findFit
      cases hfit : fitIn a (nodes i) with
      | none =>
          rw [List.forall_mem_cons, ← ih, ← fitIn_none_iff, hfit]
          simp
      | some found =>
          rw [List.forall_mem_cons, ← fitIn_none_iff, hfit]
          simp

theorem mem_slotsFrom {i index : Nat} : i ∈ slotsFrom index ↔ index ≤ i ∧ i < maxPoolSlot := by
  rw [slotsFrom, List.range_eq_range', List.drop_range', List.mem_range'_1]
  omega

/-! ## The room of a new pool -/

/-- Once the pool is created it has the size to give, and a block of the size without asking
the system. -/
def Usable (env : Environment P) (s : State) (new size : Nat) : Prop :=
  (∃ pool, s.mem.pools new = some pool ∧ size ≤ getFreeSize P pool) ∧
    ∃ a s', palloc env new size s = .ok (some a, s') ∧ s'.mem.mallocs = s.mem.mallocs

def InitialFits (P : Platform) (size : Nat) (parent : Option Nat) : Prop :=
  P.alignAllocation size + P.memnodeHeader + P.poolHeader + mutexRoom P parent ≤
    newPages P size * P.pageSize

theorem create_opened (hparent : ∀ q, parent = some q → ∃ old, PoolSound P s.mem q old) {new : Nat}
    (h : create env thread size parent s = .ok (Err.ok, some new, s')) :
    ∃ mem pool n, new = mem + P.memnodeHeader ∧ P.alignAllocation size ≠ 0 ∧
      Opened P size parent mem s.mem s'.mem pool n := by
  by_cases hrefuses : RefusesSize P size
  · rw [create_outOfRange env thread parent s hrefuses] at h
    exact absurd (congrArg Prod.fst (Except.ok.inj h)) Err.failed_ne_ok
  cases hanswer : env.answer s.mem (newPages P size * P.pageSize) with
  | none =>
      obtain ⟨s'', hok, -⟩ := create_refused thread parent hrefuses hanswer
      rw [hok] at h
      exact absurd (congrArg Prod.fst (Except.ok.inj h)) env.mallocErrno.code_ne_ok
  | some mem =>
      by_cases hmutex : MutexFails env parent (mem + P.memnodeHeader + P.poolHeader)
      · obtain ⟨err, s'', hok, herr, -⟩ := create_mutexFailed thread hrefuses hanswer hmutex
        rw [hok] at h
        exact absurd (congrArg Prod.fst (Except.ok.inj h)) herr
      · obtain ⟨s'', pool, n, hok, hopened⟩ :=
          create_done thread hrefuses hanswer hmutex hparent
        rw [hok] at h
        cases h
        exact ⟨mem, pool, n, rfl, fun ha => hrefuses (Or.inl ha), hopened⟩

theorem Opened.avail {mem : Nat} {n : Memnode} (h : Opened P size parent mem m m' pool n) :
    n.size + P.memnodeHeader + P.poolHeader + mutexRoom P parent =
      newPages P size * P.pageSize := by
  have hbegin := h.home.begin
  have hstop := h.home.stop
  omega

theorem Opened.slotNodes {mem : Nat} {n : Memnode} (h : Opened P size parent mem m m' pool n)
    (hpages : newPages P size ≤ maxPoolSlot) : pool.slotNodes = [n.rewind] := by
  have hpos := newPages_pos P size
  have hindex : newPages P size - 1 ∈ List.range maxPoolSlot := List.mem_range.mpr (by omega)
  have hperm : ((List.range maxPoolSlot).flatMap
      (Function.update (fun _ => []) (newPages P size - 1) [n.rewind])).Perm
        (n.rewind :: (List.range maxPoolSlot).flatMap fun _ => []) :=
    flatMap_update_perm List.nodup_range hindex
  have hempty : ((List.range maxPoolSlot).flatMap fun _ => ([] : List Memnode)) = [] :=
    List.flatMap_eq_nil_iff.mpr fun _ _ => rfl
  rw [hempty, List.perm_singleton] at hperm
  rw [Pool.slotNodes, h.nodes, if_neg (by omega), hperm]

theorem Opened.freeSize {mem : Nat} {n : Memnode} (h : Opened P size parent mem m m' pool n)
    (hpages : newPages P size ≤ maxPoolSlot) : getFreeSize P pool = n.size := by
  have hlt : newPages P size * P.pageSize < P.sizeMax := P.page_lt (by omega)
  have havail := h.avail
  rw [getFreeSize, sumNodes_eq, h.slotNodes hpages, List.map_singleton, List.sum_singleton]
  exact P.wrap_of_lt (show n.size < P.sizeMax by omega)

theorem Opened.fit_iff {mem a : Nat} {n : Memnode} (h : Opened P size parent mem m m' pool n)
    (hpages : newPages P size ≤ maxPoolSlot) :
    pool.fit P a ≠ none ↔ P.getNpages a ≤ newPages P size ∧ a ≤ n.size := by
  have hpos := newPages_pos P size
  rw [Pool.fit, ne_eq, findFit_none_iff]
  push Not
  constructor
  · rintro ⟨i, hi, n', hn', hle⟩
    rw [mem_slotsFrom] at hi
    rw [h.nodes, if_neg (by omega)] at hn'
    by_cases hsame : i = newPages P size - 1
    · subst hsame
      rw [Function.update_self, List.mem_singleton] at hn'
      subst hn'
      exact ⟨by omega, hle⟩
    · rw [Function.update_of_ne hsame] at hn'
      cases hn'
  · rintro ⟨hindex, hle⟩
    refine ⟨newPages P size - 1, mem_slotsFrom.mpr (by omega), n.rewind, ?_, hle⟩
    rw [h.nodes, if_neg (by omega), Function.update_self]
    exact List.mem_singleton_self _

/-! ## Page counts -/

theorem Platform.npages_mono {a b : Nat} (hab : a ≤ b) (hb : b + P.memnodeHeader < P.sizeMax) :
    P.getNpages a ≤ P.getNpages b := by
  unfold Abi.getNpages
  simp only [P.wrap_of_lt hb, P.wrap_of_lt (Nat.lt_of_le_of_lt (Nat.add_le_add_right hab _) hb)]
  split
  · split
    · exact Nat.le_refl 1
    · exact Nat.succ_le_succ (Nat.zero_le _)
  · rw [if_neg (by omega)]
    exact Nat.succ_le_succ (Nat.div_le_div_right (by omega))

/-- Where the size fits, the counts of pages do not wrap. -/
theorem InitialFits.npages (h : InitialFits P size parent)
    (hpages : newPages P size ≤ maxPoolSlot) :
    P.getNpages (P.alignAllocation size) ≤ newPages P size := by
  have hlt : newPages P size * P.pageSize < P.sizeMax := P.page_lt (by omega)
  unfold InitialFits at h
  have hsum : P.wrap (P.alignAllocation size + P.poolHeader) =
      P.alignAllocation size + P.poolHeader := P.wrap_of_lt (by omega)
  have hmono : P.getNpages (P.alignAllocation size) ≤
      P.getNpages (P.alignAllocation size + P.poolHeader) :=
    P.npages_mono (Nat.le_add_right _ _) (by omega)
  rwa [newPages, hsum]

/-! ## Which sizes are usable -/

/-- A call that asks the system for nothing has found a memnode. -/
theorem fit_of_unasked (ha : P.alignAllocation size ≠ 0)
    (h : pallocAnswers env m pool size = []) : pool.fit P (P.alignAllocation size) ≠ none := by
  intro hfit
  simp only [pallocAnswers, if_neg ha, slotAnswers, if_pos hfit] at h
  split at h
  · split at h <;> cases h
  · cases h

/-- A pool that was created with a page count that has a slot is usable exactly for the
sizes that fit with all headers. -/
theorem initial_size_usable_iff
    (hparent : ∀ q, parent = some q → ∃ old, PoolSound P s.mem q old) {new : Nat}
    (h : create env thread size parent s = .ok (Err.ok, some new, s'))
    (hpages : newPages P size ≤ maxPoolSlot) :
    Usable env s' new size ↔ InitialFits P size parent := by
  obtain ⟨mem, pool, n, rfl, ha, hopened⟩ := create_opened hparent h
  have havail := hopened.avail
  have hfits : InitialFits P size parent ↔ P.alignAllocation size ≤ n.size := by
    unfold InitialFits
    omega
  constructor
  · rintro ⟨-, a, s'', hok, hmallocs⟩
    have hasks : Yields True (palloc env (mem + P.memnodeHeader) size s') _ :=
      palloc_asks hopened.here
    have hcount := hasks.of_ok hok
    simp only [hmallocs] at hcount
    have hnone : pallocAnswers env s'.mem pool size = [] := List.eq_nil_of_length_eq_zero (by omega)
    exact hfits.mpr ((hopened.fit_iff hpages).mp (fit_of_unasked ha hnone)).2
  · intro hfit
    have hindex := hfit.npages hpages
    have hle := hfits.mp hfit
    obtain ⟨fit, hfound⟩ :=
      Option.ne_none_iff_exists'.mp ((hopened.fit_iff hpages).mpr ⟨hindex, hle⟩)
    obtain ⟨s'', hok, hmem⟩ := pallocSlots_fit env size false hopened.here hfound
    rw [← palloc_slots env hopened.here ha (by omega)] at hok
    refine ⟨⟨pool, hopened.here, ?_⟩, _, s'', hok, by rw [hmem]; rfl⟩
    rw [hopened.freeSize hpages]
    exact Nat.le_trans (P.alignAllocation_spec ha).1 hle

/-- With the mutex of the parent, or without one, every size fits that does not wrap. -/
theorem initialFits_shared (hroom : mutexRoom P parent = 0)
    (hwrap : P.alignAllocation size + P.poolHeader + P.memnodeHeader < P.sizeMax) :
    InitialFits P size parent := by
  have hspec := P.npages_spec hwrap
  have hsum : P.wrap (P.alignAllocation size + P.poolHeader) =
      P.alignAllocation size + P.poolHeader := P.wrap_of_lt (by omega)
  rw [InitialFits, hroom, newPages, hsum]
  omega

theorem initial_size_first : ∃ s, firstState = some s ∧
    (Usable (bump lp64 .inMemory) s firstPool 100 ↔ InitialFits lp64 100 none) := by
  have h : ∃ s, firstState = some s ∧ create (bump lp64 .inMemory) 1 100 none State.empty =
      .ok (Err.ok, some firstPool, s) := ⟨_, rfl, rfl⟩
  obtain ⟨s, hs, hok⟩ := h
  refine ⟨s, hs, initial_size_usable_iff (fun q hq => ?_) hok (by decide)⟩
  cases hq

/-- Of a pool of 3800 bytes with a mutex of its own, 3792 bytes are free, and a block of
3800 bytes is taken from a second memnode. -/
theorem initial_size_unusable : ∃ s s' pool a,
    create (bump lp64 .inMemory) 1 3800 none State.empty = .ok (Err.ok, some firstPool, s) ∧
      newPages lp64 3800 = 1 ∧ s.mem.pools firstPool = some pool ∧
      getFreeSize lp64 pool = 3792 ∧
      palloc (bump lp64 .inMemory) firstPool 3800 s = .ok (some a, s') ∧
      s'.mem.mallocs = s.mem.mallocs + 1 ∧
      ¬ Usable (bump lp64 .inMemory) s firstPool 3800 := by
  have h : ∃ s s' pool a,
      create (bump lp64 .inMemory) 1 3800 none State.empty = .ok (Err.ok, some firstPool, s) ∧
        newPages lp64 3800 = 1 ∧ s.mem.pools firstPool = some pool ∧
        getFreeSize lp64 pool = 3792 ∧
        palloc (bump lp64 .inMemory) firstPool 3800 s = .ok (some a, s') ∧
        s'.mem.mallocs = s.mem.mallocs + 1 :=
    ⟨_, _, _, _, rfl, by decide, rfl, by decide, rfl, rfl⟩
  obtain ⟨s, s', pool, a, hok, hpages, hpool, hfree, hpalloc, hmallocs⟩ := h
  refine ⟨s, s', pool, a, hok, hpages, hpool, hfree, hpalloc, hmallocs, ?_⟩
  rintro ⟨⟨pool', hpool', hle⟩, -⟩
  rw [hpool] at hpool'
  cases hpool'
  omega

end Floppix.Pools
