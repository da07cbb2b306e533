import Floppix.System.Pool.Accounting
import Floppix.System.Pool.InitialSize
import Floppix.System.Pool.Lasting

/-! # Where the search for a memnode begins

`fpx_palloc1` searches from the slot of the page count on, as the memnodes in the slots
before it should be too small. For a size that fills whole pages together with the header,
`fpx_get_npages` counts one page more, and a memnode that the block would fill is left out.
-/

namespace Floppix.Pools

open Layout Outcome Transition

variable {P : Platform} {env : Environment P} {m : Memory} {p : Nat} {pool : Pool} {s s' : State}
  {thread a size : Nat}

/-! ## How much memnodes have available -/

/-- What a memnode of a slot has available lies in its pages, behind its header. -/
def InPages (P : Platform) (pool : Pool) : Prop :=
  ∀ i, ∀ n ∈ pool.nodes i,
    n.sizeAvail ≤ n.size ∧ n.size + P.memnodeHeader ≤ (i + 1) * P.pageSize

theorem InPages.carve (h : InPages P pool) {fit : Fit} (hfit : pool.fit P a = some fit)
    (requested : Nat) (record : Bool) : InPages P (pool.carve P fit a requested record) := by
  obtain ⟨hslot, hnodes, hle⟩ := findFit_some hfit
  intro i n hn
  rcases Pool.of_mem_carve hnodes hn with hn | ⟨rfl, rfl⟩
  · exact h i n hn
  · obtain ⟨havail, hsize⟩ := h _ fit.node (fit_mem hfit).1
    have hlt : (fit.slot + 1) * P.pageSize < P.sizeMax :=
      P.page_lt (by have := (mem_slotsFrom.mp hslot).2; omega)
    have hsub := P.sub_of_le hle (show fit.node.sizeAvail < P.sizeMax by omega)
    refine ⟨?_, hsize⟩
    simp only [Memnode.carve, hsub]
    omega

theorem freshNode_room {mem requested : Nat} {record : Bool}
    (ha : a + P.memnodeHeader < P.sizeMax) (hpages : P.getNpages a ≤ maxPoolSlot + 1) :
    (freshNode P mem a requested record).sizeAvail ≤ (freshNode P mem a requested record).size ∧
      (freshNode P mem a requested record).size + P.memnodeHeader =
        P.getNpages a * P.pageSize := by
  have hlt : P.getNpages a * P.pageSize < P.sizeMax := P.page_lt hpages
  have hroom := P.npages_spec ha
  have hsize := P.sub_of_le (a := P.getNpages a * P.pageSize) (b := P.memnodeHeader) (by omega) hlt
  have havail := P.sub_of_le (a := P.getNpages a * P.pageSize - P.memnodeHeader) (b := a)
    (by omega) (by omega)
  simp only [freshNode, Memnode.carve, newMemnode, hsize, havail]
  omega

theorem InPages.register (h : InPages P pool) {node : Memnode} {index : Nat}
    (hnode : node.sizeAvail ≤ node.size)
    (hsize : node.size + P.memnodeHeader = (index + 1) * P.pageSize) :
    InPages P (pool.register index node) := by
  intro i n hn
  rcases Pool.mem_register_nodes.mp hn with hn | ⟨rfl, -, rfl⟩
  · exact h i n hn
  · exact ⟨hnode, Nat.le_of_eq hsize⟩

theorem inPages_opened {mem thread mutex : Nat} {n : Memnode} (h : ¬ RefusesSize P size)
    (hn : n = headedNode P mem (newPages P size) ∨
      n = (headedNode P mem (newPages P size)).behindMutex P) :
    InPages P (openedPool P thread mutex (newPages P size)
      { n with firstAvail := n.begin, sizeAvail := n.size }) := by
  rw [RefusesSize, not_or, Nat.not_lt] at h
  have hpos := newPages_pos P size
  have hlt : newPages P size * P.pageSize < P.sizeMax := P.page_lt h.2
  have hone : P.pageSize ≤ newPages P size * P.pageSize := Nat.le_mul_of_pos_left _ hpos
  have hfits := P.headers_fit
  have hheaded : HomeNode P mem (newPages P size) P.poolHeader
      (headedNode P mem (newPages P size)) := headedNode_home hpos h.2
  have hsize : n.size + P.memnodeHeader ≤ newPages P size * P.pageSize := by
    have hbegin := hheaded.begin
    have hstop := hheaded.stop
    rcases hn with rfl | rfl
    · omega
    · have hsub := P.sub_of_le (a := (headedNode P mem (newPages P size)).size)
        (b := P.mutexHeader) (by omega) (by omega)
      simp only [Memnode.behindMutex, hsub]
      omega
  intro i n' hn'
  simp only [openedPool] at hn'
  split at hn'
  · cases hn'
  · by_cases hi : i = newPages P size - 1
    · subst hi
      rw [Function.update_self, List.mem_singleton] at hn'
      subst hn'
      refine ⟨Nat.le_refl _, ?_⟩
      rwa [Nat.sub_add_cancel hpos]
    · rw [Function.update_of_ne hi] at hn'
      cases hn'

theorem inPages_lasting : Lasting P (fun a => a + P.memnodeHeader < P.sizeMax) (InPages P) where
  fields hnodes _ h := by
    unfold InPages
    rw [hnodes]
    exact h
  carve requested record hfit h := h.carve hfit requested record
  register {pool a} mem requested record ha hpages h := by
    obtain ⟨hnode, hsize⟩ := @freshNode_room P a mem requested record ha hpages
    apply h.register hnode
    rw [hsize, Nat.sub_add_cancel (P.npages_pos a)]
  rewind {pool} h i n hn := by
    obtain ⟨n', hn', rfl⟩ := List.mem_map.mp hn
    exact ⟨Nat.le_refl _, (h i n' hn').2⟩
  opened thread mutex mem _ _ hsize hn := inPages_opened hsize hn
  cleanup := Nat.lt_trans P.cleanup_fits (by simpa using P.page_lt (n := 1) (by decide))

/-! ## What the search leaves out -/

/-- The request goes to the slots, below the last index. -/
def MapsToSlot (P : Platform) (size : Nat) : Prop :=
  P.alignAllocation size ≠ 0 ∧ P.getNpages (P.alignAllocation size) ≤ maxPoolSlot

/-- The search from the slot of the page count on finds a memnode exactly when a search of
all slots does. -/
def FindsAll (P : Platform) (pool : Pool) (a : Nat) : Prop :=
  pool.fit P a ≠ none ↔ findFit a pool.nodes (slotsFrom 0) ≠ none

/-- The call asks the system for a new memnode only if no memnode of the pool has room. -/
def NewOnlyWhenFull (env : Environment P) (s : State) (p : Nat) (pool : Pool) (size : Nat) :
    Prop :=
  ∀ r s', palloc env p size s = .ok (r, s') → s'.mem.mallocs ≠ s.mem.mallocs →
    ∀ n ∈ pool.memnodes, n.sizeAvail < P.alignAllocation size

/-- A memnode in the slot before the first one that is searched has exactly the size left. -/
def FilledBelow (P : Platform) (pool : Pool) (a : Nat) : Prop :=
  2 ≤ P.getNpages a ∧ ∃ n ∈ pool.nodes (P.getNpages a - 2), n.sizeAvail = a

theorem findFit_ne_none_iff {nodes : Nat → List Memnode} {slots : List Nat} :
    findFit a nodes slots ≠ none ↔ ∃ i ∈ slots, ∃ n ∈ nodes i, a ≤ n.sizeAvail := by
  rw [ne_eq, findFit_none_iff]
  push Not
  rfl

/-- The pages that are left out are all filled by the size and the header. -/
theorem InPages.below (h : InPages P pool) {i : Nat} {n : Memnode} (hn : n ∈ pool.nodes i)
    (hi : i < P.getNpages a - 1) (hle : a ≤ n.sizeAvail) :
    i = P.getNpages a - 2 ∧ n.sizeAvail = a := by
  obtain ⟨havail, hsize⟩ := h i n hn
  have hpage := P.page_pos
  have hpages : P.getNpages a = if P.wrap (a + P.memnodeHeader) < P.pageSize then 1
      else P.wrap (a + P.memnodeHeader) / P.pageSize + 1 := rfl
  rw [hpages] at hi ⊢
  split at hi
  · omega
  · rename_i hlarge
    rw [if_neg hlarge]
    have hwrap : P.wrap (a + P.memnodeHeader) ≤ a + P.memnodeHeader := Nat.mod_le ..
    have hdiv := Nat.div_mul_le_self (P.wrap (a + P.memnodeHeader)) P.pageSize
    generalize P.wrap (a + P.memnodeHeader) / P.pageSize = k at hi hdiv ⊢
    have hmul : (i + 1) * P.pageSize ≤ k * P.pageSize := Nat.mul_le_mul_right _ (by omega)
    have heq : (i + 1) * P.pageSize = k * P.pageSize := by omega
    have hk := Nat.eq_of_mul_eq_mul_right hpage heq
    omega

theorem InPages.findAll_iff (h : InPages P pool) (hpages : P.getNpages a ≤ maxPoolSlot) :
    findFit a pool.nodes (slotsFrom 0) ≠ none ↔ pool.fit P a ≠ none ∨ FilledBelow P pool a := by
  rw [Pool.fit, findFit_ne_none_iff, findFit_ne_none_iff]
  constructor
  · rintro ⟨i, hi, n, hn, hle⟩
    rw [mem_slotsFrom] at hi
    by_cases hbelow : i < P.getNpages a - 1
    · obtain ⟨rfl, heq⟩ := h.below hn hbelow hle
      exact Or.inr ⟨by omega, n, hn, heq⟩
    · exact Or.inl ⟨i, mem_slotsFrom.mpr ⟨by omega, hi.2⟩, n, hn, hle⟩
  · rintro (⟨i, hi, n, hn, hle⟩ | ⟨htwo, n, hn, heq⟩)
    · exact ⟨i, mem_slotsFrom.mpr ⟨Nat.zero_le _, (mem_slotsFrom.mp hi).2⟩, n, hn, hle⟩
    · exact ⟨P.getNpages a - 2, mem_slotsFrom.mpr ⟨Nat.zero_le _, by omega⟩, n, hn,
        Nat.le_of_eq heq.symm⟩

theorem InPages.findsAll_iff (h : InPages P pool) (hpages : P.getNpages a ≤ maxPoolSlot) :
    FindsAll P pool a ↔ pool.fit P a ≠ none ∨ ¬ FilledBelow P pool a := by
  rw [FindsAll, h.findAll_iff hpages]
  tauto

/-- A memnode is asked for when the search has found none. -/
theorem newOnlyWhenFull_iff (hpool : s.mem.pools p = some pool) (hmaps : MapsToSlot P size) :
    NewOnlyWhenFull env s p pool size ↔ pool.fit P (P.alignAllocation size) ≠ none ∨
      ∀ n ∈ pool.memnodes, n.sizeAvail < P.alignAllocation size := by
  obtain ⟨ha, hpages⟩ := hmaps
  rw [NewOnlyWhenFull, palloc_slots env hpool ha (by omega)]
  cases hfit : pool.fit P (P.alignAllocation size) with
  | some fit =>
      refine iff_of_true (fun r s' hok hnew => absurd ?_ hnew) (Or.inl (Option.some_ne_none fit))
      obtain ⟨s'', hok', hmem⟩ := pallocSlots_fit env size false hpool hfit
      rw [hok'] at hok
      cases hok
      rw [hmem]
      rfl
  | none =>
      simp only [ne_eq, not_true, false_or]
      refine ⟨fun hall => ?_, fun hall _ _ _ _ => hall⟩
      cases hanswer : env.answer s.mem
          (P.getNpages (P.alignAllocation size) * P.pageSize) with
      | none =>
          obtain ⟨s', hok, hmem⟩ := pallocSlots_refused size false hpool hfit hanswer
          exact hall _ s' hok (by rw [hmem]; exact Nat.succ_ne_self _)
      | some mem =>
          obtain ⟨s', hok, hmem⟩ := pallocSlots_granted size false hpool hfit hanswer
          exact hall _ s' hok (by rw [hmem]; exact Nat.succ_ne_self _)

theorem InPages.memnodes_iff (h : InPages P pool) (hpages : P.getNpages a ≤ maxPoolSlot)
    (hfit : pool.fit P a = none) : (∀ n ∈ pool.memnodes, n.sizeAvail < a) ↔
      ¬ FilledBelow P pool a ∧ ∀ n ∈ pool.stray, n.sizeAvail < a := by
  have hall : findFit a pool.nodes (slotsFrom 0) = none ↔ ¬ FilledBelow P pool a := by
    have hiff := h.findAll_iff hpages
    rw [hfit] at hiff
    tauto
  rw [← hall, findFit_none_iff]
  constructor
  · intro hnone
    refine ⟨fun i hi n hn => hnone n ?_, fun n hn => hnone n (mem_memnodes.mpr (Or.inr hn))⟩
    exact mem_memnodes_of_slot (mem_slotsFrom.mp hi).2 hn
  · rintro ⟨hslots, hstray⟩ n hn
    rcases mem_memnodes.mp hn with ⟨i, hi, hn⟩ | hn
    · exact hslots i (mem_slotsFrom.mpr ⟨Nat.zero_le _, hi⟩) n hn
    · exact hstray n hn

/-- In every state of a run in which no size wraps with the header: the search misses no
memnode in a slot unless one has exactly the size left, and no other memnode unless one was
stored behind the slots. -/
theorem shortcut_iff {cs : List Call}
    (hsizes : Meets (World.step env thread)
      (CallAdmits (fun a => a + P.memnodeHeader < P.sizeMax) env) World.empty cs) :
    Visits (World.step env thread) (fun w => ∀ p pool, w.state.mem.pools p = some pool →
      ∀ size, MapsToSlot P size →
        (FindsAll P pool (P.alignAllocation size) ↔
          pool.fit P (P.alignAllocation size) ≠ none ∨
            ¬ FilledBelow P pool (P.alignAllocation size)) ∧
        (NewOnlyWhenFull env w.state p pool size ↔
          pool.fit P (P.alignAllocation size) ≠ none ∨
            ¬ FilledBelow P pool (P.alignAllocation size) ∧
              ∀ n ∈ pool.stray, n.sizeAvail < P.alignAllocation size)) World.empty cs := by
  apply (visits_lasting inPages_lasting hsizes).mono
  intro w hw p pool hpool size hmaps
  have h := hw p pool hpool
  refine ⟨h.findsAll_iff hmaps.2, ?_⟩
  rw [newOnlyWhenFull_iff hpool hmaps]
  cases hfit : pool.fit P (P.alignAllocation size) with
  | some fit =>
      have hsome := Option.some_ne_none fit
      exact iff_of_true (Or.inl hsome) (Or.inl hsome)
  | none => simp only [ne_eq, not_true, false_or, h.memnodes_iff hmaps.2 hfit]

def emptyPage : List Call :=
  [.use ⟨.create 100 none, 0, 0⟩, .use ⟨.palloc firstPool 3900, 0, 0⟩,
    .use ⟨.clear firstPool, 1, 1⟩]

theorem shortcut_emptyPage :
    Visits (World.step (bump lp64 .inMemory) 1) (fun w => ∀ p pool,
      w.state.mem.pools p = some pool → ∀ size, MapsToSlot lp64 size →
        (FindsAll lp64 pool (lp64.alignAllocation size) ↔
          pool.fit lp64 (lp64.alignAllocation size) ≠ none ∨
            ¬ FilledBelow lp64 pool (lp64.alignAllocation size)) ∧
        (NewOnlyWhenFull (bump lp64 .inMemory) w.state p pool size ↔
          pool.fit lp64 (lp64.alignAllocation size) ≠ none ∨
            ¬ FilledBelow lp64 pool (lp64.alignAllocation size) ∧
              ∀ n ∈ pool.stray, n.sizeAvail < lp64.alignAllocation size)) World.empty emptyPage :=
  shortcut_iff ⟨trivial, fun _ _ => ⟨fun _ _ _ => by decide, fun _ _ => ⟨trivial, fun _ _ =>
    trivial⟩⟩⟩

/-- After the calls the pool has a memnode with room for the size, and the block comes from a
new one. -/
def Misses (cs : List Call) (size : Nat) : Prop :=
  ∃ w pool a s', run (World.step (bump lp64 .inMemory) 1) World.empty cs = some w ∧
    w.state.mem.pools firstPool = some pool ∧ MapsToSlot lp64 size ∧
    palloc (bump lp64 .inMemory) firstPool size w.state = .ok (some a, s') ∧
    s'.mem.mallocs = w.state.mem.mallocs + 1 ∧
    ∃ n ∈ pool.memnodes, lp64.alignAllocation size ≤ n.sizeAvail

theorem Misses.not_newOnlyWhenFull {cs : List Call} (h : Misses cs size) :
    ∃ w pool, run (World.step (bump lp64 .inMemory) 1) World.empty cs = some w ∧
      w.state.mem.pools firstPool = some pool ∧ MapsToSlot lp64 size ∧
      ¬ NewOnlyWhenFull (bump lp64 .inMemory) w.state firstPool pool size := by
  obtain ⟨w, pool, a, s', hw, hpool, hmaps, hok, hmallocs, n, hn, hle⟩ := h
  refine ⟨w, pool, hw, hpool, hmaps, fun hnew => ?_⟩
  exact absurd (hnew _ s' hok (by omega) n hn) (Nat.not_lt.mpr hle)

/-- The block would fill an empty page; the rest of a page is as large as a wrapped size
says; the memnode is behind the slots. -/
theorem free_space_missed :
    Misses emptyPage 4048 ∧
    Misses [.use ⟨.create 100 none, 0, 0⟩, .use ⟨.palloc firstPool (2 ^ 64 - 16), 0, 0⟩] 4064 ∧
    Misses [.use ⟨.create 81920 none, 0, 0⟩] 4000 ∧
    ∃ w pool, run (World.step (bump lp64 .inMemory) 1) World.empty emptyPage = some w ∧
      w.state.mem.pools firstPool = some pool ∧ ¬ FindsAll lp64 pool 4048 ∧
      ¬ NewOnlyWhenFull (bump lp64 .inMemory) w.state firstPool pool 4048 := by
  have hpage : Misses emptyPage 4048 :=
    ⟨_, _, _, _, rfl, rfl, ⟨by decide, by decide⟩, rfl, rfl, _, List.mem_cons_self .., by decide⟩
  refine ⟨hpage, ?_, ?_, ?_⟩
  · exact ⟨_, _, _, _, rfl, rfl, ⟨by decide, by decide⟩, rfl, rfl, _, List.mem_cons_self ..,
      by decide⟩
  · exact ⟨_, _, _, _, rfl, rfl, ⟨by decide, by decide⟩, rfl, rfl, _, List.mem_cons_self ..,
      by decide⟩
  · have hnone : ∃ w pool, run (World.step (bump lp64 .inMemory) 1) World.empty emptyPage = some w ∧
        w.state.mem.pools firstPool = some pool ∧ (pool.fit lp64 4048).isNone = true ∧
        (findFit 4048 pool.nodes (slotsFrom 0)).isSome = true := ⟨_, _, rfl, rfl, rfl, rfl⟩
    obtain ⟨w, pool, hw, hpool, hfit, hall⟩ := hnone
    obtain ⟨w', pool', hw', hpool', -, hnew⟩ := hpage.not_newOnlyWhenFull
    rw [hw] at hw'
    cases hw'
    rw [hpool] at hpool'
    cases hpool'
    refine ⟨w, pool, hw, hpool, fun hfinds => ?_, hnew⟩
    have hsome := hfinds.mpr (Option.isSome_iff_ne_none.mp hall)
    exact hsome (Option.isNone_iff_eq_none.mp hfit)

end Floppix.Pools
