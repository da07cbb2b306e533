import Floppix.System.Pool.Locks
import Floppix.System.Pool.Usage

/-! # What cleanup nodes share memory with

A cleanup node stays what it is as long as nothing else is put where it lies. Clearing a
pool makes room again where the nodes of `free_cleanups` are.
-/

namespace Floppix.Pools

open Layout LinkedList Outcome Transition

variable {P : Platform} {env : Environment P} {contents : Contents} {m : Memory} {p q : Nat}
  {pool pool' : Pool} {pendings frees : Nat → List Ref} {thread : Nat} {w : World} {cs : List Call}

/-! ## Nodes, blocks and writes -/

/-- A cleanup node the pool leads to. -/
def World.Lists (w : World) (p : Nat) (r : Ref) : Prop :=
  ∃ pool, w.Uses p pool ∧ Listed w.state.mem pool r

/-- A block that a user was given since the last clear of the pool. -/
def World.Gave (w : World) (p : Nat) (b : Block) : Prop :=
  ∃ pool, w.Uses p pool ∧ b ∈ pool.blocks ∧ b.record = false

/-- Both lists of each pool end, and no cleanup node shares memory with another one or with
a user's block. -/
structure Intact (P : Platform) (w : World) : Prop where
  lists : ∀ p pool, w.Uses p pool → ∃ pending free,
    Chain w.state.mem.records CleanupNode.next pool.cleanups pending ∧
      Chain w.state.mem.records CleanupNode.next pool.freeCleanups free ∧ (pending ++ free).Nodup
  nodes : ∀ p q r r', w.Lists p r → w.Lists q r' → p ≠ q ∨ r ≠ r' →
    Region.Apart (recordRegion P r) (recordRegion P r')
  blocks : ∀ p q b r, w.Gave p b → w.Lists q r → Region.Apart b.region (recordRegion P r)

/-- Writes of users in their blocks, and registrations, leave every cleanup node alone but
the one that a registration takes. -/
structure RecordsStay (env : Environment P) (w : World) : Prop where
  writes : ∀ p q b r, w.Gave p b → w.Lists q r → ∀ region, Region.Inside region b.region →
    (w.state.mem.overwrite P region).records r = w.state.mem.records r
  registrations : ∀ p pool, w.Uses p pool → AddSafe P pool (Listed w.state.mem pool) →
    ∀ data id s', cleanupAdd env p data (.user id) w.state = .ok s' →
      ∀ q r, w.Lists q r → pool.freeCleanups ≠ some r →
        s'.mem.records r = w.state.mem.records r

theorem Memory.overwrite_of_apart (m : Memory) {region : Region} {r : Ref}
    (h : Region.Apart region (recordRegion P r)) :
    (m.overwrite P region).records r = m.records r := if_pos fun _ => h

theorem Memory.overwrite_over (m : Memory) {region : Region} {r : Ref} (ht : r.tag = 0)
    (h : ¬ Region.Apart region (recordRegion P r)) :
    (m.overwrite P region).records r = none := if_neg fun hun => h (hun ht)

theorem Inv.lists (h : Inv P contents thread w.state.mem w.forest pendings frees) {r : Ref}
    (hr : w.Lists p r) : p ∈ w.forest.members ∧ r ∈ pendings p ++ frees p := by
  obtain ⟨pool, ⟨hp, hpool⟩, hlisted⟩ := hr
  rw [(h.held.poolOk hp hpool).listed_eq] at hlisted
  exact ⟨hp, hlisted⟩

/-- A node lies where its address is. -/
theorem Inv.tag_zero (h : Inv P .inMemory thread w.state.mem w.forest pendings frees) {r : Ref}
    (hp : p ∈ w.forest.members) (hr : r ∈ pendings p ++ frees p) : r.tag = 0 := by
  obtain ⟨pool, -, hok, -⟩ := h.held.pools p hp
  exact hok.tags r hr

theorem Inv.separate (h : Inv P contents thread w.state.mem w.forest pendings frees)
    {r r' : Ref} (hr : w.Lists p r) (hr' : w.Lists q r') (hne : p ≠ q ∨ r ≠ r') :
    Separate P r r' := by
  obtain ⟨hp, hmem⟩ := h.lists hr
  obtain ⟨hq, hmem'⟩ := h.lists hr'
  by_cases hpq : p = q
  · subst hpq
    obtain ⟨pool, -, hok, -⟩ := h.held.pools p hp
    have : Std.Symm (Separate P) := ⟨fun _ _ h => h.symm⟩
    exact hok.records.forall hmem hmem' (hne.resolve_left fun hne => hne rfl)
  · exact h.held.separate hp hq hpq hmem hmem'

theorem Inv.gave_apart (h : Inv P .inMemory thread w.state.mem w.forest pendings frees)
    {b : Block} {r : Ref} (hb : w.Gave p b) (hr : w.Lists q r) :
    Region.Apart b.region (recordRegion P r) := by
  obtain ⟨pool, ⟨hp, hpool⟩, hblock, huser⟩ := hb
  obtain ⟨hq, hmem⟩ := h.lists hr
  exact h.held.block_apart hp hpool hblock huser hq hmem (h.tag_zero hq hmem)

theorem Inv.intact (h : Inv P .inMemory thread w.state.mem w.forest pendings frees) :
    Intact P w where
  lists p pool hp := by
    have hok := h.held.poolOk hp.1 hp.2
    exact ⟨_, _, hok.pendingChain, hok.freeChain, hok.records.imp fun hsep => hsep.1⟩
  nodes p q r r' hr hr' hne := by
    obtain ⟨hp, hmem⟩ := h.lists hr
    obtain ⟨hq, hmem'⟩ := h.lists hr'
    exact (h.separate hr hr' hne).2 (h.tag_zero hp hmem) (h.tag_zero hq hmem')
  blocks p q b r := h.gave_apart

theorem Inv.records_stay (hcontents : env.contents = .inMemory)
    (h : Inv P .inMemory thread w.state.mem w.forest pendings frees) : RecordsStay env w where
  writes p q b r hb hr region hin := by
    exact w.state.mem.overwrite_of_apart ((h.gave_apart hb hr).inside hin (.refl _))
  registrations p pool hp hsafe data id s' hs' q r hr hne := by
    obtain ⟨hq, hmem⟩ := h.lists hr
    have hheld := h.held
    rw [← hcontents] at hheld
    rw [(hheld.poolOk hp.1 hp.2).listed_eq] at hsafe
    have hspec : Yields _ (cleanupAdd env p data (.user id) w.state) _ :=
      cleanupAdd_spec hheld hp.1 hp.2 hsafe trivial
    obtain ⟨-, -, hkeep⟩ := hspec.of_ok hs'
    exact hkeep q hq r hmem hne

/-- In every state of a run of safe calls, cleanup nodes share no memory with each other or
with the users' blocks, and neither writes of users nor registrations change them. -/
theorem visits_intact (hq : env.Quiet) (hcontents : env.contents = .inMemory)
    (hsafe : Meets (World.step env thread) (CallSafe P) World.empty cs) :
    Visits (World.step env thread) (fun w => Intact P w ∧ RecordsStay env w) World.empty cs := by
  refine (visits_holds hq hsafe).mono fun w ⟨pendings, frees, h⟩ => ?_
  rw [hcontents] at h
  exact ⟨h.intact, h.records_stay hcontents⟩

theorem Listed.ne_none {r : Ref} (h : Listed m pool r) :
    ¬ (pool.cleanups = none ∧ pool.freeCleanups = none) := by
  rintro ⟨hcleanups, hfree⟩
  rw [Listed, hcleanups, hfree] at h
  rcases h with h | h <;> cases h

theorem carveSafe_of_none (hcleanups : pool.cleanups = none) (hfree : pool.freeCleanups = none)
    (a : Nat) : CarveSafe P pool (Listed m pool) a :=
  fun _ _ _ hr _ => absurd ⟨hcleanups, hfree⟩ hr.ne_none

def firstBlock : List Call :=
  [.use ⟨.create 100 none, 0, 0⟩, .use ⟨.palloc firstPool 100, 0, 0⟩,
    .use ⟨.cleanupAdd firstPool 7 1, 0, 0⟩]

theorem visits_intact_firstBlock :
    (run (World.step (bump lp64 .inMemory) 1) World.empty firstBlock).isSome = true ∧
      Visits (World.step (bump lp64 .inMemory) 1)
        (fun w => Intact lp64 w ∧ RecordsStay (bump lp64 .inMemory) w) World.empty firstBlock := by
  refine ⟨rfl, visits_intact (bump_quiet _) rfl ?_⟩
  have hnone : ∀ (m : Memory) (pool : Pool), m.pools firstPool = some pool →
      ((m.pools firstPool).all fun pool =>
        pool.cleanups.isNone && pool.freeCleanups.isNone) = true →
      pool.cleanups = none ∧ pool.freeCleanups = none := fun m pool hpool hall => by
    rw [hpool] at hall
    simpa using hall
  refine Meets.cons trivial rfl (Meets.cons (fun pool hpool => Or.inr ⟨by decide, ?_⟩) rfl
    (Meets.cons (fun pool hpool _ => ?_) rfl trivial))
  · rw [if_neg (by decide)]
    obtain ⟨hcleanups, hfree⟩ := hnone _ _ hpool rfl
    exact carveSafe_of_none hcleanups hfree _
  · obtain ⟨hcleanups, hfree⟩ := hnone _ _ hpool rfl
    exact carveSafe_of_none hcleanups hfree _

/-- A cleanup is registered and run by a clear, and the next block of the user is where its
node still lies. -/
def carvedOver : List Call :=
  [.use ⟨.create 100 none, 0, 0⟩, .use ⟨.cleanupAdd firstPool 7 1, 0, 0⟩,
    .use ⟨.clear firstPool, 1, 1⟩, .use ⟨.palloc firstPool 100, 0, 0⟩]

theorem carved_over : ∃ w b r,
    run (World.step (bump lp64 .inMemory) 1) World.empty carvedOver = some w ∧
      w.Gave firstPool b ∧ w.Lists firstPool r ∧
      ¬ Region.Apart b.region (recordRegion lp64 r) ∧
      (w.state.mem.overwrite lp64 b.region).records r ≠ w.state.mem.records r ∧
      ¬ Intact lp64 w := by
  have h : ∃ w, run (World.step (bump lp64 .inMemory) 1) World.empty carvedOver = some w ∧
      w.Gave firstPool ⟨firstAddr, 104, 100, false⟩ ∧ w.Lists firstPool ⟨firstAddr, 0⟩ ∧
      (w.state.mem.records ⟨firstAddr, 0⟩).isSome = true :=
    ⟨_, rfl, ⟨_, ⟨by decide, rfl⟩, by decide, rfl⟩, ⟨_, ⟨by decide, rfl⟩, Or.inr (.here _)⟩, rfl⟩
  obtain ⟨w, hw, hb, hr, hsome⟩ := h
  have hover : ¬ Region.Apart (Block.region ⟨firstAddr, 104, 100, false⟩)
      (recordRegion lp64 ⟨firstAddr, 0⟩) := by decide
  refine ⟨w, _, _, hw, hb, hr, hover, fun heq => ?_, fun hi => hover (hi.blocks _ _ _ _ hb hr)⟩
  rw [← heq, w.state.mem.overwrite_over rfl hover] at hsome
  cases hsome

end Floppix.Pools
