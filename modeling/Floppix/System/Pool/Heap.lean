import Floppix.Lib.Loans
import Floppix.Lib.Simulation
import Floppix.System.Pool.Intact
import Floppix.System.Pool.Loans

/-! # The pools as one heap

For their users the trees of pools are one heap of blocks that are lent to them. A request
lends a block that is apart from all that are out, in whatever pool they are. Blocks come
back when a pool is cleared or destroyed in whose tree they are, and a large block with its
own cleanup.
-/

namespace Floppix.Pools

open Layout Outcome Kinship Transition

variable {P : Platform} {env : Environment P} {contents : Contents} {p : Nat} {s s' : State}
  {pendings frees : Nat → List Ref} {thread : Nat} {w w' : World} {c : Call} {cs cs' : List Call}
  {x : Nat × Block}

/-! ## The heap -/

/-- The blocks that users have, each with its pool. -/
def World.heap (w : World) : Set (Nat × Block) := {x | w.Gave x.1 x.2}

def BlocksApart (x y : Nat × Block) : Prop := Region.Apart x.2.region y.2.region

/-- The blocks that a call takes back. -/
def World.returned (w : World) : Call → Set (Nat × Block)
  | .use ⟨.cleanupRun p data handler, _, _⟩ => Returned w.state p data handler
  | .use ⟨.clear p, _, _⟩ => {x | x.1 ∈ w.forest.subtree p}
  | .destroy p _ _ => {x | x.1 ∈ w.forest.subtree p}
  | _ => ∅

/-- The block at the address that a request returns. -/
def lentBlock (P : Platform) (p size : Nat) :
    Except Fault (Option Nat × State) → List (Nat × Block)
  | .ok (some mem, _) => [(p, ⟨mem, P.alignAllocation size, size, false⟩)]
  | _ => []

def World.lent (env : Environment P) (w : World) : Call → List (Nat × Block)
  | .use ⟨.palloc p size, _, _⟩ => lentBlock P p size (palloc env p size w.state)
  | .use ⟨.pcalloc p size, _, _⟩ => lentBlock P p size (pcalloc env p size w.state)
  | _ => []

def World.loanEvents (env : Environment P) (w : World) (c : Call) :
    List (Loans.Event (Nat × Block)) :=
  .back (w.returned c) :: (w.lent env c).map .lent

theorem mem_heap : x ∈ w.heap ↔ x.1 ∈ w.forest.members ∧ x ∈ w.state.mem.loans := by
  constructor
  · rintro ⟨pool, ⟨hp, hpool⟩, hx⟩
    exact ⟨hp, pool, hpool, hx⟩
  · rintro ⟨hp, pool, hpool, hx⟩
    exact ⟨pool, ⟨hp, hpool⟩, hx⟩

theorem heap_empty : World.empty.heap = ∅ := by
  apply Set.eq_empty_of_forall_notMem
  intro x hx
  cases (mem_heap.mp hx).1

/-- A call that neither lends nor takes back. -/
theorem heap_same (h : s'.mem.loans = w.state.mem.loans) :
    (⟨s', w.forest⟩ : World).heap = w.heap := by
  apply Set.ext
  intro x
  rw [mem_heap, mem_heap]
  show _ ∧ x ∈ s'.mem.loans ↔ _
  rw [h]

theorem heap_sdiff {S : Set (Nat × Block)} (h : s'.mem.loans = w.state.mem.loans \ S) :
    (⟨s', w.forest⟩ : World).heap = w.heap \ S := by
  apply Set.ext
  intro x
  rw [Set.mem_sdiff, mem_heap, mem_heap]
  show _ ∧ x ∈ s'.mem.loans ↔ _
  rw [h, Set.mem_sdiff, and_assoc]

/-! ## The trees -/

/-- A pool that was made holds nothing that users have. -/
theorem heap_joined {parent new : Option Nat} (h : w.forest.members.Nodup)
    (hparent : ∀ q ∈ parent, q ∈ w.forest.members)
    (h' : (w.forest.joined parent new).members.Nodup)
    (hloans : ∀ x, x ∈ s'.mem.loans ↔ x ∈ w.state.mem.loans ∧ new ≠ some x.1) :
    (⟨s', w.forest.joined parent new⟩ : World).heap = w.heap := by
  apply Set.ext
  intro x
  rw [mem_heap, mem_heap]
  show x.1 ∈ (w.forest.joined parent new).members ∧ x ∈ s'.mem.loans ↔ _
  rw [hloans]
  cases new with
  | none => exact and_congr_right fun _ => and_iff_left (Option.some_ne_none x.1).symm
  | some a =>
      have hnew := Forest.new_not_mem h hparent h'
      rw [Forest.mem_joined_iff h hparent]
      constructor
      · rintro ⟨hmem, hx, hne⟩
        exact ⟨hmem.resolve_left hne, hx⟩
      · rintro ⟨hmem, hx⟩
        exact ⟨Or.inr hmem, hx, fun heq => hnew (Option.some.inj heq ▸ hmem)⟩

/-- A tree that was destroyed holds nothing either, and the other pools are as they were. -/
theorem heap_without {root : Nat × Family Nat} (h : w.forest.members.Nodup)
    (hroot : root ∈ w.forest)
    (hpools : ∀ q, q ∉ w.forest.subtree root.1 → s'.mem.pools q = w.state.mem.pools q) :
    (⟨s', w.forest.without root.1⟩ : World).heap =
      w.heap \ {x | x.1 ∈ w.forest.subtree root.1} := by
  apply Set.ext
  intro x
  have hsubtree := Forest.mem_subtree_root (q := x.1) h hroot
  rw [Set.mem_sdiff, mem_heap, mem_heap]
  show x.1 ∈ (w.forest.without root.1).members ∧ x ∈ s'.mem.loans ↔
    _ ∧ ¬ x.1 ∈ w.forest.subtree root.1
  rw [Forest.mem_without h hroot, ← hsubtree]
  constructor
  · rintro ⟨⟨hmem, hout⟩, hx⟩
    exact ⟨⟨hmem, (mem_loans_congr (hpools x.1 hout)).mp hx⟩, hout⟩
  · rintro ⟨⟨hmem, hx⟩, hout⟩
    exact ⟨⟨hmem, hout⟩, (mem_loans_congr (hpools x.1 hout)).mpr hx⟩

/-! ## One call -/

def Refines (env : Environment P) (w : World) (c : Call) (w' : World) : Prop :=
  run (Loans.use BlocksApart) w.heap (w.loanEvents env c) = some w'.heap

theorem refines_back (hlent : w.lent env c = []) (h : w'.heap = w.heap \ w.returned c) :
    Refines env w c w' := by
  unfold Refines World.loanEvents
  rw [hlent, h]
  exact Loans.run_back _

theorem refines_same (hlent : w.lent env c = []) (hreturned : w.returned c = ∅)
    (h : w'.heap = w.heap) : Refines env w c w' :=
  refines_back hlent (by rw [h, hreturned, Set.sdiff_empty])

theorem refines_lent {size : Nat} {r : Option Nat × State}
    (hlent : w.lent env c = lentBlock P p size (.ok r)) (hreturned : w.returned c = ∅)
    (hp : p ∈ w.forest.members)
    (hlends : Lends p (P.alignAllocation size) size false w.state r)
    (hnew : ∀ mem, r.1 = some mem →
      Unlent w.state.mem w.forest.members ⟨mem, P.alignAllocation size⟩) :
    Refines env w c ⟨r.2, w.forest⟩ := by
  obtain ⟨answer, s'⟩ := r
  cases answer with
  | none =>
      refine refines_same hlent hreturned (heap_same (Set.ext fun x => ?_))
      refine (hlends x).trans ⟨?_, Or.inr⟩
      rintro (⟨-, mem, hnone, -⟩ | hx)
      · cases hnone
      · exact hx
  | some mem =>
      have hheap : (⟨s', w.forest⟩ : World).heap =
          insert (p, ⟨mem, P.alignAllocation size, size, false⟩) w.heap := by
        apply Set.ext
        intro x
        rw [Set.mem_insert_iff, mem_heap, mem_heap]
        show _ ∧ x ∈ s'.mem.loans ↔ _
        rw [hlends x]
        constructor
        · rintro ⟨hmem, ⟨-, mem', hmem', rfl⟩ | hx⟩
          · cases hmem'
            exact Or.inl rfl
          · exact Or.inr ⟨hmem, hx⟩
        · rintro (rfl | ⟨hmem, hx⟩)
          · exact ⟨hp, Or.inl ⟨rfl, mem, rfl, rfl⟩⟩
          · exact ⟨hmem, Or.inr hx⟩
      have hapart : ∀ y ∈ w.heap \ ∅,
          BlocksApart (p, ⟨mem, P.alignAllocation size, size, false⟩) y := by
        rintro y ⟨⟨pool, ⟨hq, hpool⟩, hy, -⟩, -⟩
        exact hnew mem rfl y.1 hq pool hpool y.2 hy
      have hrun := Loans.run_back_lent hapart
      unfold Refines World.loanEvents
      rw [hlent, hheap, hreturned]
      rwa [Set.sdiff_empty] at hrun

/-- The thread owns the pools of every tree. -/
theorem Inv.clear_loans {forest : Forest} {rounds depth : Nat}
    (h : Inv P contents thread s.mem forest pendings frees) (hp : p ∈ forest.members) :
    Yields True (clear env rounds depth thread p s) fun s' =>
      s'.mem.loans = s.mem.loans \ {x | x.1 ∈ forest.subtree p} := by
  cases depth with
  | zero => trivial
  | succ depth =>
      obtain ⟨pool, hpool, hlinked, -, -, hsub⟩ := h.offspring hp
      have hspec : Yields True (clear env rounds (depth + 1) thread p s) _ :=
        Pools.clear_loans hpool (h.owner p hp pool hpool) fun s₁ hplaces =>
          clearChildren_loans (hplaces.links ▸ hlinked) fun q hq pool₁ hpool₁ hts => by
            obtain ⟨pool', hpool'⟩ := (hplaces.some_iff q).mp ⟨pool₁, hpool₁⟩
            rw [hplaces.owner hpool' hpool₁]
            exact h.owner q (hsub hq) pool' hpool' hts
      refine hspec.mono fun s' _ hs' => ?_
      rw [hs']
      congr 1
      apply Set.ext
      intro x
      exact List.mem_cons.trans (or_comm.trans Forest.mem_subtree.symm)

theorem PallocSafe.wrap {pool : Pool} {listed : Ref → Prop} {size : Nat}
    (h : PallocSafe P pool listed size) (hzero : P.alignAllocation size ≠ 0) :
    P.alignAllocation size + P.memnodeHeader < P.sizeMax := (h.resolve_left hzero).1

theorem call_refines (hq : env.Quiet) (h : w.Holds P env.contents thread)
    (htarget : ∀ p ∈ c.target, p ∈ w.forest.members) (hsafe : CallSafe P w c) :
    Yields True (w.call env thread c) (Refines env w c) := by
  obtain ⟨pendings, frees, hinv⟩ := h
  cases c with
  | destroy p rounds depth =>
      obtain ⟨root, hroot, rfl⟩ := List.mem_map.mp hsafe
      have hspec : Yields True (destroy env rounds depth thread root.1 w.state) _ :=
        hinv.destroy_spec hq (Forest.root_mem hroot) fun hex => absurd trivial hex
      apply Yields.map
      exact hspec.mono fun s' _ hs' =>
        refines_back rfl (heap_without hinv.nodup hroot hs'.pools)
  | use a =>
      obtain ⟨op, rounds, depth⟩ := a
      cases op with
      | create size parent =>
          have hspec : Yields False (create env thread size parent w.state) _ :=
            create_spec hinv fun q hqp => htarget q hqp
          have hloans : Yields True (create env thread size parent w.state) _ :=
            create_loans size parent
          apply Yields.map
          refine ((hspec.weaken False.elim).and hloans).mono fun r _ hr => ?_
          obtain ⟨⟨pendings', frees', hinv'⟩, hr⟩ := hr
          have hheap := heap_joined hinv.nodup htarget hinv'.nodup fun x => hr x
          exact refines_same rfl rfl hheap
      | palloc p size =>
          have hp : p ∈ w.forest.members := htarget p rfl
          obtain ⟨pool, hpool, -⟩ := hinv.held.pools p hp
          have hlends : Yields True (palloc env p size w.state) _ := palloc_loans size
          have hnew : Yields True (palloc env p size w.state) _ :=
            palloc_unlent hinv.held hp (hsafe pool hpool).wrap
          apply Yields.map
          apply Yields.map
          refine (hlends.and hnew).mono fun r hr hboth => ?_
          refine refines_lent ?_ rfl hp hboth.1 hboth.2
          show lentBlock P p size (palloc env p size w.state) = _
          rw [hr]
      | pcalloc p size =>
          have hp : p ∈ w.forest.members := htarget p rfl
          obtain ⟨pool, hpool, -⟩ := hinv.held.pools p hp
          have hlends : Yields True (pcalloc env p size w.state) _ := pcalloc_loans size
          have hnew : Yields True (pcalloc env p size w.state) _ :=
            pcalloc_unlent hinv.held hp (hsafe pool hpool).wrap
          apply Yields.map
          apply Yields.map
          refine (hlends.and hnew).mono fun r hr hboth => ?_
          refine refines_lent ?_ rfl hp hboth.1 hboth.2
          show lentBlock P p size (pcalloc env p size w.state) = _
          rw [hr]
      | cleanupAdd p data id =>
          apply Yields.map
          exact (cleanupAdd_loans data (.user id)).mono fun s' _ hs' =>
            refines_same rfl rfl (heap_same hs')
      | cleanupRun p data handler =>
          apply Yields.map
          exact (hinv.held.cleanupRun_loans (htarget p rfl) data handler).mono fun s' _ hs' =>
            refines_back rfl (heap_sdiff hs')
      | cleanupRemove p data handler =>
          apply Yields.map
          exact (cleanupRemove_loans data handler).mono fun s' _ hs' =>
            refines_same rfl rfl (heap_same hs')
      | clear p =>
          apply Yields.map
          exact (hinv.clear_loans (htarget p rfl)).mono fun s' _ hs' =>
            refines_back rfl (heap_sdiff hs')

theorem lent_or_returned (env : Environment P) (w : World) (c : Call) :
    w.lent env c = [] ∨ w.returned c = ∅ := by
  cases c with
  | destroy p rounds depth => exact Or.inl rfl
  | use a =>
      obtain ⟨op, rounds, depth⟩ := a
      cases op with
      | palloc p size => exact Or.inr rfl
      | pcalloc p size => exact Or.inr rfl
      | _ => exact Or.inl rfl

/-- A block stays where it is unless the call takes it back. -/
theorem Refines.stays_iff (h : Refines env w c w') (hx : x ∈ w.heap) :
    x ∉ w.returned c ↔ x ∈ w'.heap := by
  obtain ⟨out, hout, hrest⟩ := run_cons_some h
  cases hout
  rcases lent_or_returned env w c with hlent | hreturned
  · rw [hlent] at hrest
    have hheap : w.heap \ w.returned c = w'.heap := Option.some.inj hrest
    rw [← hheap]
    exact (and_iff_right hx).symm
  · have hstays := Loans.run_lent_subset hrest
    rw [hreturned, Set.sdiff_empty] at hstays
    rw [hreturned]
    exact iff_of_true (Set.notMem_empty x) (hstays hx)

theorem step_refines (hq : env.Quiet) (hstep : w.step env thread c = some w')
    (hsafe : CallSafe P w c) (h : w.Holds P env.contents thread) : Refines env w c w' := by
  unfold World.step at hstep
  split at hstep
  · rename_i htarget
    have hcall := call_refines hq h htarget hsafe
    cases hok : w.call env thread c with
    | error e =>
        rw [hok] at hstep
        cases hstep
    | ok w₁ =>
        rw [hok] at hstep
        cases hstep
        exact hcall.of_ok hok
  · cases hstep

/-! ## Runs -/

/-- Along every run of safe calls the pools are one heap of loans: each call takes back what
it is said to, and what it lends is apart from all that is out. -/
theorem heap_refines (hq : env.Quiet)
    (hsafe : Meets (World.step env thread) (CallSafe P) World.empty cs)
    (h : run (World.step env thread) World.empty cs = some w) :
    run (Loans.use BlocksApart) ∅
      (trace (World.step env thread) (World.loanEvents env) World.empty cs) = some w.heap := by
  rw [← heap_empty]
  exact run_trace (fun _ _ _ hstep hsafe h => step_holds hq hstep hsafe h)
    (fun _ _ _ hstep hsafe h => step_refines hq hstep hsafe h) h hsafe (holds_empty _ thread)

def borrowed : List Call :=
  [.use ⟨.create 100 none, 0, 0⟩, .use ⟨.create 100 (some firstPool), 0, 0⟩,
    .use ⟨.palloc firstPool 100, 0, 0⟩, .use ⟨.palloc childPool 200, 0, 0⟩,
    .use ⟨.palloc firstPool 100000, 0, 0⟩]

def broughtBack : List Call :=
  [.use ⟨.clear childPool, 1, 2⟩, .use ⟨.palloc childPool 300, 0, 0⟩,
    .use ⟨.cleanupRun firstPool largeAddr .free, 1, 0⟩]

/-- Small requests are safe where nothing changes a cleanup node. -/
theorem World.Holds.meets_safe (hq : env.Quiet) (hcontents : env.contents = .abstract)
    (h : w.Holds P .abstract thread) (hrun : run (World.step env thread) w cs = some w')
    (hsmall : Meets (World.step env thread) (CallSmall P) w cs) :
    Meets (World.step env thread) (CallSafe P) w cs := by
  induction cs generalizing w with
  | nil => trivial
  | cons c cs ih =>
      obtain ⟨w₁, hw₁, hrest⟩ := run_cons_some hrun
      have hsafe : CallSafe P w c := by
        refine h.callSafe (fun p hp => ?_) hsmall.1
        unfold World.step at hw₁
        split at hw₁
        · rename_i htarget
          exact htarget p hp
        · cases hw₁
      rw [← hcontents] at h
      have h₁ := step_holds hq hw₁ hsafe h
      rw [hcontents] at h₁
      exact Meets.cons hsafe hw₁ (ih h₁ hrest (hsmall.2 w₁ hw₁))

theorem borrowed_safe {w' : World}
    (h : run (World.step (bump lp64 .abstract) 1) World.empty (borrowed ++ broughtBack) = some w') :
    Meets (World.step (bump lp64 .abstract) 1) (CallSafe lp64) World.empty
      (borrowed ++ broughtBack) := by
  have hfirst : SmallSize lp64 100 := by unfold SmallSize; decide
  have hchild : SmallSize lp64 200 := by unfold SmallSize; decide
  have hlarge : SmallSize lp64 100000 := by unfold SmallSize; decide
  have hagain : SmallSize lp64 300 := by unfold SmallSize; decide
  apply (holds_empty .abstract 1).meets_safe (bump_quiet _) rfl h
  exact ⟨trivial, fun _ _ => ⟨trivial, fun _ _ => ⟨hfirst, fun _ _ => ⟨hchild, fun _ _ =>
    ⟨hlarge, fun _ _ => ⟨trivial, fun _ _ => ⟨hagain, fun _ _ => ⟨trivial, fun _ _ =>
      trivial⟩⟩⟩⟩⟩⟩⟩⟩

theorem heap_refines_borrowed : ∃ w,
    run (World.step (bump lp64 .abstract) 1) World.empty (borrowed ++ broughtBack) = some w ∧
      run (Loans.use BlocksApart) ∅ (trace (World.step (bump lp64 .abstract) 1)
        (World.loanEvents (bump lp64 .abstract)) World.empty (borrowed ++ broughtBack)) =
          some w.heap := by
  obtain ⟨w, hw⟩ : ∃ w, run (World.step (bump lp64 .abstract) 1) World.empty
      (borrowed ++ broughtBack) = some w := ⟨_, rfl⟩
  exact ⟨w, hw, heap_refines (bump_quiet _) (borrowed_safe hw) hw⟩

/-- A block that users have stays the same block, along every further run of safe calls, as
long as no call takes it back: none clears or destroys its pool or one above it, and its own
cleanup is not run. -/
theorem block_lasts_iff (hq : env.Quiet)
    (hsafe : Meets (World.step env thread) (CallSafe P) World.empty cs)
    (h : run (World.step env thread) World.empty cs = some w) (hx : x ∈ w.heap)
    (hsafe' : Meets (World.step env thread) (CallSafe P) w cs')
    (h' : run (World.step env thread) w cs' = some w') :
    Visits (World.step env thread) (fun w => x ∈ w.heap) w cs' ↔
      Meets (World.step env thread) (fun w c => x ∉ w.returned c) w cs' :=
  visits_iff_meets_of_kept (fun _ _ _ hstep hsafe h => step_holds hq hstep hsafe h)
    (fun _ _ _ hstep hsafe h hx => (step_refines hq hstep hsafe h).stays_iff hx) h' hsafe'
    ((visits_holds hq hsafe).last h) hx

theorem block_lasts_iff_borrowed : ∃ w w',
    run (World.step (bump lp64 .abstract) 1) World.empty borrowed = some w ∧
      run (World.step (bump lp64 .abstract) 1) w broughtBack = some w' ∧
      Visits (World.step (bump lp64 .abstract) 1)
        (fun w => (firstPool, ⟨firstAddr, 104, 100, false⟩) ∈ w.heap) w broughtBack ∧
      ¬ Visits (World.step (bump lp64 .abstract) 1)
        (fun w => (childPool, ⟨childAddr, 200, 200, false⟩) ∈ w.heap) w broughtBack := by
  have hstart : ∃ w w', run (World.step (bump lp64 .abstract) 1) World.empty borrowed = some w ∧
      run (World.step (bump lp64 .abstract) 1) w broughtBack = some w' ∧
      w.Gave firstPool ⟨firstAddr, 104, 100, false⟩ ∧
      w.Gave childPool ⟨childAddr, 200, 200, false⟩ ∧
      w.forest.subtree childPool = [childPool] :=
    ⟨_, _, rfl, rfl, ⟨_, ⟨by decide, rfl⟩, by decide, rfl⟩, ⟨_, ⟨by decide, rfl⟩, by decide, rfl⟩,
      rfl⟩
  obtain ⟨w, w', hw, hw', hfirst, hchild, hsubtree⟩ := hstart
  have hsafe := (meets_append hw).mp (borrowed_safe (run_trans hw hw'))
  refine ⟨w, w', hw, hw', ?_, fun hvisits => ?_⟩
  · have hfar : firstPool ∉ w.forest.subtree childPool := by
      rw [hsubtree]
      decide
    apply (block_lasts_iff (bump_quiet _) hsafe.1 hw hfirst hsafe.2 hw').mpr
    refine ⟨hfar, fun _ _ => ⟨Set.notMem_empty _, fun _ _ => ⟨fun hx => ?_, fun _ _ => trivial⟩⟩⟩
    exact absurd hx.2.2.2 (by decide)
  · apply ((block_lasts_iff (bump_quiet _) hsafe.1 hw hchild hsafe.2 hw').mp hvisits).1
    show childPool ∈ w.forest.subtree childPool
    rw [hsubtree]
    exact List.mem_singleton_self _

end Floppix.Pools
