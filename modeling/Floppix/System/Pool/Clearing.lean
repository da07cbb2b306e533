import Floppix.System.Pool.Running

/-! # Clearing keeps the invariant

`fpx_pool_clear` runs the cleanups of a pool, clears its children and rewinds its
memnodes. Of the pools nothing is needed but that their links do not lead out of them.
-/

namespace Floppix.Pools

open Layout LinkedList Outcome Kinship

variable {P : Platform} {env : Environment P} {contents : Contents} {m m' : Memory} {p : Nat}
  {pool pool' : Pool} {ps : List Nat} {pendings frees : Nat → List Ref} {s s' : State}

/-- The links of the pools lead to pools among them. -/
def Closed (m : Memory) (ps : List Nat) : Prop :=
  ∀ p ∈ ps, ∀ q, Family.Points m.links p q → q ∈ ps

theorem Closed.congr (h : Closed m ps) (hplaces : SamePlaces m m') : Closed m' ps := by
  unfold Closed
  rw [hplaces.links]
  exact h

theorem Closed.child (h : Closed m ps) (hp : p ∈ ps) (hpool : m.pools p = some pool) {q : Nat}
    (hq : pool.child = some q) : q ∈ ps :=
  h p hp q ⟨pool.child, pool.brother, by rw [Memory.links, hpool]; rfl, Or.inl hq⟩

theorem Closed.brother (h : Closed m ps) (hp : p ∈ ps) (hpool : m.pools p = some pool) {q : Nat}
    (hq : pool.brother = some q) : q ∈ ps :=
  h p hp q ⟨pool.child, pool.brother, by rw [Memory.links, hpool]; rfl, Or.inr hq⟩

/-- The invariant again, with no cleanup pending where none was. -/
structure Settled (P : Platform) (contents : Contents) (ps : List Nat)
    (pendings : Nat → List Ref) (m m' : Memory) : Prop where
  places : SamePlaces m m'
  held : ∃ pendings' frees', Held P contents m' ps pendings' frees' ∧
    ∀ q, pendings q = [] → pendings' q = []

theorem Settled.refl (h : Held P contents m ps pendings frees) :
    Settled P contents ps pendings m m :=
  ⟨SamePlaces.refl m, pendings, frees, h, fun _ hq => hq⟩

theorem Held.rewind (h : Held P contents m ps pendings frees) (hp : p ∈ ps)
    (hpool : m.pools p = some pool) (hnone : pendings p = []) :
    Held P contents (m.setPool p pool.rewind) ps pendings frees := by
  have hok := h.poolOk hp hpool
  have hfreed : Freed (m.setPool p pool.rewind) pool.rewind (pendings p) := by
    rw [hnone]
    exact ⟨List.nodup_nil, fun d hd => absurd hd List.not_mem_nil⟩
  have hupdate : Held P contents (m.setPool p pool.rewind) ps
      (Function.update pendings p (pendings p)) (Function.update frees p (frees p)) := by
    refine h.update hp hpool rfl h.heap (fun r hr _ => Or.inl hr) (fun _ _ _ _ _ => rfl)
      (Nat.le_refl _) (hok.rewind.congr hok.rewind.live (fun _ _ => rfl) (Nat.le_refl _)) hfreed
      (fun r hr => Or.inl ?_) fun r hr => Or.inl hr
    rw [pool.rewind_regions] at hr
    exact List.mem_append_left _ hr
  rwa [Function.update_eq_self, Function.update_eq_self] at hupdate

theorem forChildren_spec {visit : Nat → State → Except Fault State}
    (hvisit : ∀ child ∈ ps, ∀ s pendings frees, Held P contents s.mem ps pendings frees →
      Closed s.mem ps →
      Yields True (visit child s) fun s' => Settled P contents ps pendings s.mem s'.mem)
    {rounds : Nat} {ptr : Option Nat} (hptr : ∀ q, ptr = some q → q ∈ ps)
    (h : Held P contents s.mem ps pendings frees) (hclosed : Closed s.mem ps) :
    Yields True (forChildren visit rounds ptr s) fun s' =>
      Settled P contents ps pendings s.mem s'.mem := by
  induction rounds generalizing ptr s pendings frees with
  | zero =>
      cases ptr with
      | none => exact Settled.refl h
      | some q => trivial
  | succ rounds ih =>
      cases ptr with
      | none => exact Settled.refl h
      | some child =>
          have hmem := hptr child rfl
          obtain ⟨pool, hpool, -, -⟩ := h.pools child hmem
          unfold forChildren
          rw [State.getPool_bind hpool]
          refine (hvisit child hmem (s.log (.readPool child)) pendings frees h hclosed).bind
            fun s₁ _ h₁ => ?_
          obtain ⟨hplaces, pendings₁, frees₁, hheld, hnone⟩ := h₁
          refine (ih (fun q hq => hclosed.brother hmem hpool hq) hheld
            (hclosed.congr hplaces)).mono fun s₂ _ h₂ => ?_
          obtain ⟨hplaces₂, pendings₂, frees₂, hheld₂, hnone₂⟩ := h₂
          exact ⟨SamePlaces.trans hplaces hplaces₂, pendings₂, frees₂, hheld₂,
            fun q hq => hnone₂ q (hnone q hq)⟩

theorem clear_spec (hq : env.Quiet) {rounds depth thread : Nat} (hp : p ∈ ps)
    (h : Held P contents s.mem ps pendings frees) (hclosed : Closed s.mem ps) :
    Yields True (clear env rounds depth thread p s) fun s' =>
      Settled P contents ps pendings s.mem s'.mem := by
  induction depth generalizing p s pendings frees with
  | zero => trivial
  | succ depth ih =>
      obtain ⟨pool, hpool, -, -⟩ := h.pools p hp
      unfold clear
      rw [State.getPool_bind hpool]
      split
      · exact Settled.refl h
      · have hlock : Held P contents (s.lock P pool.mutex).mem ps pendings frees := by
          rwa [State.lock_mem]
        have hpool₀ : (s.lock P pool.mutex).mem.pools p = some pool := by rwa [State.lock_mem]
        have hrun : Yields True (cleanupRunAll env rounds p (s.lock P pool.mutex)) _ :=
          (cleanupRunAll_spec hq hlock hp hpool₀).weaken fun _ => trivial
        apply (hrun.and (cleanupRunAll_places env rounds p _)).bind
        intro s₁ _ h₁
        obtain ⟨⟨-, pool₁, hran⟩, hplaces₁⟩ := h₁
        rw [State.lock_mem] at hran hplaces₁
        obtain ⟨frees₁, hheld₁⟩ := hran.held
        have hpool₁ : s₁.mem.pools p = some pool₁ := by rw [hran.pools, Function.update_self]
        have hclosed₁ := hclosed.congr hplaces₁
        rw [State.getPool_bind hpool₁]
        have hchildren : Yields True
            (forChildren (clear env rounds depth thread) rounds pool₁.child s₁) _ :=
          forChildren_spec (fun child hchild s pendings frees hs hc => ih hchild hs hc)
            (fun q hq => hclosed₁.child hp hpool₁ hq) hheld₁ hclosed₁
        apply hchildren.bind
        intro s₂ _ h₂
        obtain ⟨hplaces₂, pendings₂, frees₂, hheld₂, hnone₂⟩ := h₂
        obtain ⟨pool₂, hpool₂, -, -⟩ := hheld₂.pools p hp
        have hp₂ : pendings₂ p = [] := hnone₂ p (Function.update_self ..)
        rw [State.getPool_bind hpool₂]
        refine Yields.ok ⟨?_, pendings₂, frees₂, ?_, fun q hq => hnone₂ q ?_⟩
        · rw [State.unlock_mem]
          exact (hplaces₁.trans hplaces₂).trans (SamePlaces.setPool hpool₂ rfl)
        · rw [State.unlock_mem]
          exact hheld₂.rewind hp hpool₂ hp₂
        · by_cases hqp : q = p
          · subst hqp
            exact Function.update_self ..
          · rwa [Function.update_of_ne hqp]

end Floppix.Pools
