import Floppix.Lib.Registry
import Floppix.Lib.Simulation
import Floppix.System.Pool.Heap
import Floppix.System.Pool.Pending

/-! # The cleanups as one registry

For those who register cleanups the trees of pools are one registry, under the addresses of the
pools. A registration waits until it is run or removed, or until its pool, or one above it, is
cleared or destroyed. The cleanup of a large block is registered by the request.
-/

namespace Floppix.Pools

open Outcome Transition
open Registry (Book)

variable {P : Platform} {env : Environment P} {p : Nat} {pendings frees : Nat → List Ref}
  {s s' : State} {thread : Nat} {w w' : World} {c : Call} {cs : List Call} {b : Book Nat Entry}

/-! ## The registry -/

def largeEvents (P : Platform) (p size : Nat) :
    Except Fault (Option Nat × State) → List (Registry.Event Nat Entry)
  | .ok (answer, _) => (largeEntry P size answer).map (.register p)
  | .error _ => []

def World.cleanupEvents (env : Environment P) (w : World) : Call → List (Registry.Event Nat Entry)
  | .use ⟨.palloc p size, _, _⟩ => largeEvents P p size (palloc env p size w.state)
  | .use ⟨.pcalloc p size, _, _⟩ => largeEvents P p size (pcalloc env p size w.state)
  | .use ⟨.cleanupAdd p data id, _, _⟩ => [.register p (data, .user id)]
  | .use ⟨.cleanupRun p data handler, _, _⟩ => [.call p (data, handler)]
  | .use ⟨.cleanupRemove p data handler, _, _⟩ => [.remove p (data, handler)]
  | .use ⟨.clear p, _, _⟩ => [.settle (w.forest.below p)]
  | .destroy p _ _ => [.settle (w.forest.below p)]
  | _ => []

/-- The lists of the pools hold what is pending in the book, and the handlers were called that
it says, in its order. -/
structure World.Keeps (w : World) (b : Book Nat Entry) : Prop where
  pending : ∀ p ∈ w.forest.members, ListsHold w.state.mem p (b.pending p)
  none : ∀ p, p ∉ w.forest.members → b.pending p = []
  called : called w.state.events = b.called.map Prod.snd

theorem keeps_empty : World.empty.Keeps Book.empty where
  pending p hp := by cases hp
  none _ _ := rfl
  called := rfl

theorem World.Keeps.entries (hkeeps : w.Keeps b)
    (h : Inv P env.contents thread w.state.mem w.forest pendings frees) :
    ∀ q ∈ w.forest.members, entriesIn w.state.mem pendings q = b.pending q :=
  fun q hq => (h.held.listsHold_eq hq (hkeeps.pending q hq)).symm

theorem keeps_of_leaves {forest : Forest} {es : Nat → List Entry} {runs : List Entry}
    {b' : Book Nat Entry} (hkeeps : w.Keeps b)
    (h : Leaves env forest.members es runs w.state s')
    (hes : ∀ q ∈ forest.members, es q = b'.pending q)
    (hnone : ∀ q, q ∉ forest.members → b'.pending q = [])
    (hcalled : b'.called.map Prod.snd = b.called.map Prod.snd ++ runs) :
    World.Keeps ⟨s', forest⟩ b' where
  pending q hq := by
    obtain ⟨⟨pendings, frees, hheld, hentries⟩, -⟩ := h
    rw [← hes q hq, ← hentries q hq]
    exact hheld.listsHold hq
  none := hnone
  called := by
    show Pools.called s'.events = _
    rw [h.2, hkeeps.called, hcalled]

theorem keeps_row {es : Nat → List Entry} {row runs : List Entry} {b' : Book Nat Entry}
    (hkeeps : w.Keeps b) (hp : p ∈ w.forest.members)
    (hes : ∀ q ∈ w.forest.members, es q = b.pending q)
    (h : Leaves env w.forest.members (Function.update es p row) runs w.state s')
    (hpending : b'.pending = Function.update b.pending p row)
    (hcalled : b'.called.map Prod.snd = b.called.map Prod.snd ++ runs) :
    World.Keeps ⟨s', w.forest⟩ b' := by
  apply keeps_of_leaves hkeeps h
  · intro q hq
    rw [hpending]
    by_cases hqp : q = p
    · rw [hqp, Function.update_self, Function.update_self]
    · rw [Function.update_of_ne hqp, Function.update_of_ne hqp, hes q hq]
  · intro q hq
    have hqp : q ≠ p := fun heq => hq (heq ▸ hp)
    rw [hpending, Function.update_of_ne hqp]
    exact hkeeps.none q hq
  · exact hcalled

/-! ## One call -/

/-- A request registers one cleanup at most. -/
theorem largeEntry_cases (P : Platform) (size : Nat) (answer : Option Nat) :
    largeEntry P size answer = [] ∨ ∃ e, largeEntry P size answer = [e] := by
  unfold largeEntry
  split
  · cases answer with
    | none => exact Or.inl rfl
    | some mem => exact Or.inr ⟨(mem, .free), rfl⟩
  · exact Or.inl rfl

theorem keeps_registered {es : Nat → List Entry} {news : List Entry} (hkeeps : w.Keeps b)
    (hp : p ∈ w.forest.members) (hes : ∀ q ∈ w.forest.members, es q = b.pending q)
    (h : Leaves env w.forest.members (registerAll es p news) [] w.state s')
    (hnews : news = [] ∨ ∃ e, news = [e]) :
    World.Keeps ⟨s', w.forest⟩ (b.acts (news.map (.register p))) := by
  apply keeps_row hkeeps hp hes h
  · rcases hnews with rfl | ⟨e, rfl⟩
    · rw [List.nil_append, hes p hp]
      exact (Function.update_eq_self ..).symm
    · rw [hes p hp]
      rfl
  · rw [List.append_nil]
    rcases hnews with rfl | ⟨e, rfl⟩ <;> rfl

theorem request_keeps {size : Nat} {x : Except Fault (Option Nat × State)} {es : Nat → List Entry}
    (hkeeps : w.Keeps b) (hp : p ∈ w.forest.members)
    (hes : ∀ q ∈ w.forest.members, es q = b.pending q)
    (hx : Yields True x fun r =>
      Leaves env w.forest.members (registerAll es p (largeEntry P size r.1)) [] w.state r.2) :
    Yields True x fun r => World.Keeps ⟨r.2, w.forest⟩ (b.acts (largeEvents P p size x)) := by
  apply hx.mono
  intro r hr hleaves
  rw [hr]
  exact keeps_registered hkeeps hp hes hleaves (largeEntry_cases P size r.1)

theorem map_snd_due (b : Book Nat Entry) (p : Nat) (e : Entry) :
    (b.due p e).map Prod.snd = dueIn (b.pending p) e := by
  unfold Book.due dueIn
  split <;> rfl

theorem map_snd_settled (b : Book Nat Entry) (qs : List Nat) :
    (qs.flatMap fun q => (b.pending q).map (Prod.mk q)).map Prod.snd = qs.flatMap b.pending := by
  rw [List.map_flatMap]
  apply List.flatMap_congr
  intro q _
  rw [List.map_map]
  exact List.map_id _

theorem keeps_settled {forest : Forest} {qs : List Nat}
    (hinv : Inv P env.contents thread w.state.mem w.forest pendings frees) (hkeeps : w.Keeps b)
    (hqs : qs ⊆ w.forest.members) (hsub : forest.members ⊆ w.forest.members)
    (hgone : ∀ q ∈ w.forest.members, q ∉ forest.members → q ∈ qs)
    (h : Leaves env forest.members
      (fun q => if q ∈ qs then [] else entriesIn w.state.mem pendings q)
      (qs.flatMap (entriesIn w.state.mem pendings)) w.state s') :
    World.Keeps ⟨s', forest⟩ (b.acts [.settle qs]) := by
  have hes := hkeeps.entries hinv
  apply keeps_of_leaves hkeeps h
  · intro q hq
    show _ = if q ∈ qs then [] else b.pending q
    rw [hes q (hsub hq)]
  · intro q hq
    show (if q ∈ qs then [] else b.pending q) = []
    split
    · rfl
    · rename_i hnot
      apply hkeeps.none
      intro hmem
      exact hnot (hgone q hmem hq)
  · show (b.called ++ qs.flatMap fun q => (b.pending q).map (Prod.mk q)).map Prod.snd = _
    rw [List.map_append, map_snd_settled]
    congr 1
    apply List.flatMap_congr
    intro q hq
    exact (hes q (hqs hq)).symm

theorem keeps_created {parent new : Option Nat} {pendings' frees' : Nat → List Ref}
    (hinv : Inv P env.contents thread w.state.mem w.forest pendings frees)
    (hinv' : Inv P env.contents thread s'.mem (w.forest.joined parent new) pendings' frees')
    (hparent : ∀ q ∈ parent, q ∈ w.forest.members) (hblank : Blank new w.state s')
    (hkeeps : w.Keeps b) : World.Keeps ⟨s', w.forest.joined parent new⟩ b := by
  have hmembers : ∀ q, q ∈ (w.forest.joined parent new).members ↔
      new = some q ∨ q ∈ w.forest.members := fun q => Forest.mem_joined_iff hinv.nodup hparent
  have hentries : ∀ q ∈ (w.forest.joined parent new).members,
      entriesIn s'.mem pendings' q = b.pending q := by
    intro q hq
    by_cases hnew : new = some q
    · subst hnew
      have hfresh := Forest.new_not_mem hinv.nodup hparent hinv'.nodup
      rw [hblank.entries_new hinv'.held hq rfl, hkeeps.none q hfresh]
    · have hmem := ((hmembers q).mp hq).resolve_left hnew
      rw [hblank.entries_old hinv.held hmem hinv'.held hq hnew, hkeeps.entries hinv q hmem]
  constructor
  · intro q hq
    rw [← hentries q hq]
    exact hinv'.held.listsHold hq
  · intro q hq
    apply hkeeps.none
    intro hmem
    exact hq ((hmembers q).mpr (Or.inr hmem))
  · show called s'.events = _
    rw [hblank.called, hkeeps.called]

theorem below_subset {forest : Forest} (hp : p ∈ forest.members) :
    forest.below p ⊆ forest.members :=
  fun _ hq => Forest.subtree_subset hp (Forest.mem_below.mp hq)

theorem call_keeps (hq : env.Quiet) (h : w.Holds P env.contents thread) (hkeeps : w.Keeps b)
    (htarget : ∀ p ∈ c.target, p ∈ w.forest.members) (hsafe : CallSafe P w c) :
    Yields True (w.call env thread c) fun w' => w'.Keeps (b.acts (w.cleanupEvents env c)) := by
  obtain ⟨pendings, frees, hinv⟩ := h
  have hes := hkeeps.entries hinv
  cases c with
  | destroy p rounds depth =>
      obtain ⟨root, hroot, rfl⟩ := List.mem_map.mp hsafe
      have hmem := Forest.root_mem hroot
      have hbelow : ∀ q, q ∈ w.forest.below root.1 ↔ q ∈ (Forest.tree root).members := fun q =>
        Forest.mem_below.trans (Forest.mem_subtree_root hinv.nodup hroot)
      have hwithout : ∀ q, q ∈ (w.forest.without root.1).members ↔
          q ∈ w.forest.members ∧ q ∉ w.forest.below root.1 := by
        intro q
        rw [Forest.mem_without hinv.nodup hroot, hbelow]
      apply Yields.map
      apply (destroy_visitor.leaves hq hinv hmem).mono
      intro s' _ hs'
      apply keeps_settled hinv hkeeps (below_subset hmem) _ _ (hs'.subset _)
      · exact fun q hq => ((hwithout q).mp hq).1
      · intro q hin hout
        exact Classical.byContradiction fun hnot => hout ((hwithout q).mpr ⟨hin, hnot⟩)
      · intro q hq
        obtain ⟨hin, hnot⟩ := (hwithout q).mp hq
        exact mem_left hin hnot
  | use a =>
      obtain ⟨op, rounds, depth⟩ := a
      cases op with
      | create size parent =>
          have hspec : Yields True (create env thread size parent w.state) _ :=
            (create_spec hinv fun q hqp => htarget q hqp).weaken False.elim
          apply Yields.map
          apply (hspec.and (create_blank env thread size parent w.state)).mono
          intro r _ hr
          obtain ⟨⟨pendings', frees', hinv'⟩, hblank⟩ := hr
          exact keeps_created hinv hinv' htarget hblank hkeeps
      | palloc p size =>
          have hp : p ∈ w.forest.members := htarget p rfl
          obtain ⟨pool, hpool, hok, -⟩ := hinv.held.pools p hp
          have hleaves := palloc_leaves hinv.held hp hpool (hok.listed_eq ▸ hsafe pool hpool)
          apply Yields.map
          apply Yields.map
          exact request_keeps hkeeps hp hes hleaves
      | pcalloc p size =>
          have hp : p ∈ w.forest.members := htarget p rfl
          obtain ⟨pool, hpool, hok, -⟩ := hinv.held.pools p hp
          have hleaves := pcalloc_leaves hinv.held hp hpool (hok.listed_eq ▸ hsafe pool hpool)
          apply Yields.map
          apply Yields.map
          exact request_keeps hkeeps hp hes hleaves
      | cleanupAdd p data id =>
          have hp : p ∈ w.forest.members := htarget p rfl
          obtain ⟨pool, hpool, hok, -⟩ := hinv.held.pools p hp
          have hleaves : Yields True (cleanupAdd env p data (.user id) w.state) _ :=
            cleanupAdd_leaves hinv.held hp hpool (hok.listed_eq ▸ hsafe pool hpool) trivial
          apply Yields.map
          apply hleaves.mono
          intro s' _ hs'
          exact keeps_registered hkeeps hp hes hs' (Or.inr ⟨_, rfl⟩)
      | cleanupRun p data handler =>
          have hp : p ∈ w.forest.members := htarget p rfl
          obtain ⟨pool, hpool, -, -⟩ := hinv.held.pools p hp
          apply Yields.map
          apply (cleanupRun_leaves hq data handler hinv.held hp hpool).mono
          intro s' _ hs'
          have hrow : Pools.entries w.state.mem (pendings p) = b.pending p := hes p hp
          rw [hrow] at hs'
          apply keeps_row hkeeps hp hes hs' rfl
          show (b.called ++ b.due p (data, handler)).map Prod.snd = _
          rw [List.map_append, map_snd_due]
      | cleanupRemove p data handler =>
          have hp : p ∈ w.forest.members := htarget p rfl
          obtain ⟨pool, hpool, -, -⟩ := hinv.held.pools p hp
          apply Yields.map
          apply (cleanupRemove_leaves data handler hinv.held hp hpool).mono
          intro s' _ hs'
          have hrow : Pools.entries w.state.mem (pendings p) = b.pending p := hes p hp
          rw [hrow] at hs'
          exact keeps_row hkeeps hp hes hs' rfl (List.append_nil _).symm
      | clear p =>
          have hp : p ∈ w.forest.members := htarget p rfl
          apply Yields.map
          apply (clear_visitor.leaves hq hinv hp).mono
          intro s' _ hs'
          apply keeps_settled hinv hkeeps (below_subset hp) (List.Subset.refl _) _ hs'
          intro q hmem hnot
          exact absurd hmem hnot

theorem step_keeps (hq : env.Quiet) (hstep : w.step env thread c = some w')
    (hsafe : CallSafe P w c) (h : w.Holds P env.contents thread) (hkeeps : w.Keeps b) :
    w'.Keeps (b.acts (w.cleanupEvents env c)) := by
  unfold World.step at hstep
  split at hstep
  · rename_i htarget
    have hcall := call_keeps hq h hkeeps htarget hsafe
    cases hok : w.call env thread c with
    | error e =>
        rw [hok] at hstep
        cases hstep
    | ok w₁ =>
        rw [hok] at hstep
        cases hstep
        exact hcall.of_ok hok
  · cases hstep

/-- No pool is below another one twice. -/
theorem proper_events (h : w.Holds P env.contents thread)
    (hstep : w.step env thread c = some w') : ∀ e ∈ w.cleanupEvents env c, e.Proper := by
  obtain ⟨pendings, frees, hinv⟩ := h
  have hlarge : ∀ p size x, ∀ e ∈ largeEvents P p size x, Registry.Event.Proper e := by
    intro p size x e he
    cases x with
    | error f => cases he
    | ok r =>
        obtain ⟨y, -, rfl⟩ := List.mem_map.mp he
        trivial
  have hsettle : ∀ p, c.target = some p →
      ∀ e ∈ ([.settle (w.forest.below p)] : List (Registry.Event Nat Entry)), e.Proper := by
    intro p htarget e he
    cases List.mem_singleton.mp he
    unfold World.step at hstep
    split at hstep
    · rename_i hall
      exact Forest.offspring_nodup hinv.nodup (hall p htarget)
    · cases hstep
  have hone : ∀ e' : Registry.Event Nat Entry, e'.Proper → ∀ e ∈ [e'], e.Proper := by
    intro e' hproper e he
    cases List.mem_singleton.mp he
    exact hproper
  cases c with
  | destroy p rounds depth => exact hsettle p rfl
  | use a =>
      obtain ⟨op, rounds, depth⟩ := a
      cases op with
      | create size parent =>
          intro e he
          cases he
      | palloc p size => exact hlarge p size _
      | pcalloc p size => exact hlarge p size _
      | cleanupAdd p data id => exact hone _ trivial
      | cleanupRun p data handler => exact hone _ trivial
      | cleanupRemove p data handler => exact hone _ trivial
      | clear p => exact hsettle p rfl

/-! ## Runs -/

def registryOf (env : Environment P) (thread : Nat) (cs : List Call) :
    List (Registry.Event Nat Entry) :=
  trace (World.step env thread) (World.cleanupEvents env) World.empty cs

/-- Safe calls keep the invariant and keep to the book. -/
theorem run_keeps (hq : env.Quiet) (hsafe : Meets (World.step env thread) (CallSafe P) w cs)
    (h : run (World.step env thread) w cs = some w') (hholds : w.Holds P env.contents thread)
    (hkeeps : w.Keeps b) :
    w'.Holds P env.contents thread ∧
      w'.Keeps (b.acts (trace (World.step env thread) (World.cleanupEvents env) w cs)) := by
  apply foldl_trace (R := fun w b => World.Holds P env.contents thread w ∧ World.Keeps w b)
    _ h hsafe ⟨hholds, hkeeps⟩
  intro w c w₁ b hstep hsafe h
  exact ⟨step_holds hq hstep hsafe h.1, step_keeps hq hstep hsafe h.1 h.2⟩

theorem proper_registryOf (hq : env.Quiet)
    (hsafe : Meets (World.step env thread) (CallSafe P) World.empty cs)
    (h : run (World.step env thread) World.empty cs = some w) :
    ∀ e ∈ registryOf env thread cs, e.Proper :=
  forall_trace (fun _ _ _ hstep hsafe h => step_holds hq hstep hsafe h)
    (fun _ _ _ hstep _ h => proper_events h hstep) h hsafe (holds_empty env.contents thread)

/-- Along every run of safe calls the pools are one registry: each list holds what the registry
says is pending in its pool, the handlers were called that it says were called, in its order,
and every registration is, as often as it was made, called, removed or pending. -/
theorem registry_refines (hq : env.Quiet)
    (hsafe : Meets (World.step env thread) (CallSafe P) World.empty cs)
    (h : run (World.step env thread) World.empty cs = some w) :
    w.Keeps (Registry.after (registryOf env thread cs)) ∧ ∀ p e,
      (Registry.after (registryOf env thread cs)).called.count (p, e) +
        (Registry.after (registryOf env thread cs)).removed.count (p, e) +
        ((Registry.after (registryOf env thread cs)).pending p).count e =
          (Registry.registered (registryOf env thread cs)).count (p, e) :=
  ⟨(run_keeps hq hsafe h (holds_empty env.contents thread) keeps_empty).2,
    Registry.accounted (proper_registryOf hq hsafe h)⟩

def signedUp : List Call :=
  [.use ⟨.create 100 none, 0, 0⟩, .use ⟨.create 100 (some firstPool), 0, 0⟩,
    .use ⟨.cleanupAdd firstPool 7 1, 0, 0⟩, .use ⟨.cleanupAdd childPool 8 1, 0, 0⟩,
    .use ⟨.palloc firstPool 100000, 0, 0⟩, .use ⟨.cleanupAdd childPool 9 2, 0, 0⟩,
    .use ⟨.cleanupRun firstPool 7 (.user 1), 2, 0⟩]

theorem registry_refines_signedUp : ∃ w,
    run (World.step (bump lp64 .abstract) 1) World.empty (signedUp ++ [.destroy firstPool 2 2]) =
        some w ∧
      w.Keeps (Registry.after
        (registryOf (bump lp64 .abstract) 1 (signedUp ++ [.destroy firstPool 2 2]))) ∧
      called w.state.events = [(7, .user 1), (largeAddr, .free), (9, .user 2), (8, .user 1)] := by
  have hlarge : SmallSize lp64 100000 := by unfold SmallSize; decide
  have hstart : ∃ w w', run (World.step (bump lp64 .abstract) 1) World.empty signedUp = some w ∧
      w.forest.IsRoot firstPool ∧
      run (World.step (bump lp64 .abstract) 1) w [.destroy firstPool 2 2] = some w' ∧
      called w'.state.events = [(7, .user 1), (largeAddr, .free), (9, .user 2), (8, .user 1)] :=
    ⟨_, _, rfl, List.mem_cons_self, rfl, by decide⟩
  obtain ⟨w, w', hw, hroot, hw', hcalled⟩ := hstart
  have hsafe : Meets (World.step (bump lp64 .abstract) 1) (CallSafe lp64) World.empty
      (signedUp ++ [.destroy firstPool 2 2]) := by
    apply (holds_empty .abstract 1).meets_safe (bump_quiet _) rfl (run_trans hw hw')
    refine (meets_append hw).mpr ⟨?_, And.intro hroot fun _ _ => trivial⟩
    exact ⟨trivial, fun _ _ => ⟨trivial, fun _ _ => ⟨trivial, fun _ _ => ⟨trivial, fun _ _ =>
      ⟨hlarge, fun _ _ => ⟨trivial, fun _ _ => ⟨trivial, fun _ _ => trivial⟩⟩⟩⟩⟩⟩⟩
  exact ⟨w', run_trans hw hw', (registry_refines (bump_quiet _) hsafe (run_trans hw hw')).1,
    hcalled⟩

end Floppix.Pools
