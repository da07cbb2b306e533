import Floppix.Core.Connection
import Floppix.Lib.Custody

/-! # Who closes which descriptor

Listeners and connections keep the descriptors of their sockets, and connections keep a pool.
Nothing but these fields says what has to be closed and destroyed in the end, so that each
open socket and each pool should be in one of them, once.
-/

namespace Floppix.Connecting

open Listening Transition Custody Descriptors

/-! ## The process -/

/-- The listeners and the connections of a process, with their sockets that are open and their
pools. -/
structure Process where
  objects : Objects
  sockets : Nat → Bool
  pools : Nat → Bool
  /-- history: how often a descriptor was closed that was not open -/
  strayCloses : Nat

def Process.fresh : Process := ⟨Objects.fresh, fun _ => false, fun _ => false, 0⟩

inductive Event where
  | opened (fd : Nat)
  | closed (fd : Nat)
  | created (pool : Nat)
  | destroyed (pool : Nat)

/-- The system gives out no descriptor that is open, and no pool that is there. -/
def Process.event (s : Process) : Event → Option Process
  | .opened fd =>
      if s.sockets fd then none else some { s with sockets := Function.update s.sockets fd true }
  | .closed fd =>
      some (if s.sockets fd then { s with sockets := Function.update s.sockets fd false }
        else { s with strayCloses := s.strayCloses + 1 })
  | .created pool =>
      if s.pools pool then none else some { s with pools := Function.update s.pools pool true }
  | .destroyed pool => some { s with pools := Function.update s.pools pool false }

def listenerClear (x : Tagged Listening.Listener) : Tagged Listening.Listener × List Syscall :=
  (⟨false, { textAddr := [], textPort := [], fd := some 0, sockaddr := ⟨0, []⟩ }⟩,
    (listenerClose x.object).2)

def connectionDestroy (connect : Tagged Connection) :
    Tagged Connection × List Release × Option Nat :=
  let (connect, released) := connectionClose connect
  (connect, released, connect.object.pool)

inductive Call where
  | plain (a : Action)
  | listenerClear (l : Nat)
  | connectionDestroy (k : Nat)

def Syscall.event : Syscall → List Event
  | .socket fd _ _ _ => [.opened fd]
  | .bind _ _ => []
  | .close fd => [.closed fd]

def Release.event : Release → List Event
  | .shutdown _ => []
  | .close fd => [.closed fd]
  | .poolClear _ => []

def Objects.events (s : Objects) : Call → List Event
  | .plain (.listenerInitIpv4 _ _ _) => []
  | .plain (.listenerInitIpv6 _ _ _) => []
  | .plain (.listenerBind l os junk) =>
      (s.listeners l).elim [] fun x => (listenerBind os junk x.object).2.2.flatMap Syscall.event
  | .plain (.listenerClose l) =>
      (s.listeners l).elim [] fun x => (listenerClose x.object).2.flatMap Syscall.event
  | .plain (.connectionInit _ poolCreate) =>
      match poolCreate with
      | .error _ => []
      | .ok pool => [.created pool]
  | .plain (.connectionAccept k l accept nonblocking) =>
      (s.connections k).elim [] fun x =>
        match accept with
        | .error _ => []
        | .ok (fd, _) =>
            .opened fd ::
              (connectionAccept accept nonblocking l x).2.2.flatMap Release.event
  | .plain (.connectionClose k) =>
      (s.connections k).elim [] fun x => (connectionClose x).2.flatMap Release.event
  | .plain (.connectionClear k) =>
      (s.connections k).elim [] fun x => (connectionClear x).2.flatMap Release.event
  | .listenerClear l =>
      (s.listeners l).elim [] fun x => (listenerClear x).2.flatMap Syscall.event
  | .connectionDestroy k =>
      (s.connections k).elim [] fun x =>
        (connectionDestroy x).2.1.flatMap Release.event ++
          ((connectionDestroy x).2.2.map Event.destroyed).toList

/-- What a call makes of the objects. A connection that was destroyed is not one any more. -/
def Objects.call (s : Objects) : Call → Option Objects
  | .plain a => step s a
  | .listenerClear l => (s.listeners l).map fun x => s.setListener l (listenerClear x).1
  | .connectionDestroy k => (s.connections k).map fun _ => s.setConnection k none

def Process.step (s : Process) (c : Call) : Option Process :=
  (s.objects.call c).bind fun objects =>
    run Process.event { s with objects } (s.objects.events c)

/-! ## What is kept where -/

def Objects.sockets (s : Objects) : Nat ⊕ Nat → Option Nat
  | .inl l => (s.listeners l).bind fun x => x.object.fd
  | .inr k => (s.connections k).bind fun x => x.object.fd

def Objects.pools (s : Objects) (k : Nat) : Option Nat :=
  (s.connections k).bind fun x => x.object.pool

/-- Every open socket and every pool is kept in one place, all that is kept is there, and
nothing was closed that was not open. -/
structure Owned (s : Process) : Prop where
  sockets : Exact s.objects.sockets s.sockets
  pools : Exact s.objects.pools s.pools
  straight : s.strayCloses = 0

/-- The addresses of a listener leave no descriptor behind in `fd` that was closed already. -/
def BindsCleanly (os : NetOs) (listener : Listening.Listener) : Prop :=
  match os.getaddrinfo listener.textAddr listener.textPort listener.hints with
  | .error _ => True
  | .ok result => (∃ rp ∈ result, rp.Available) ∨ ∀ rp ∈ result, rp.Refused

/-- The answers let the listener be bound: its first available address has a name. -/
def CanBind (os : NetOs) (listener : Listening.Listener) : Prop :=
  ∃ busy rp rest fd sockaddr,
    os.getaddrinfo listener.textAddr listener.textPort listener.hints =
        .ok (busy ++ rp :: rest) ∧
      (∀ rp' ∈ busy, ¬ rp'.Available) ∧ rp.Available ∧ rp.socket = .ok fd ∧
        os.getsockname (some fd) = .ok sockaddr

/-- What the callers have to see to: an object that is initialised, bound or given a
connection has nothing open, a listener with several addresses can be bound, and no listener
is cleared, as that leaves it with descriptor 0. -/
def Careful (s : Process) : Call → Prop
  | .plain (.listenerInitIpv4 l _ _) => s.objects.sockets (.inl l) = none
  | .plain (.listenerInitIpv6 l _ _) => s.objects.sockets (.inl l) = none
  | .plain (.listenerBind l os _) =>
      ∀ x, s.objects.listeners l = some x → BindsCleanly os x.object ∧
        (CanBind os x.object → x.object.fd = none)
  | .plain (.connectionInit k _) =>
      s.objects.sockets (.inr k) = none ∧ s.objects.pools k = none
  | .plain (.connectionAccept k _ accept nonblocking) =>
      (∃ fd name, accept = .ok (fd, name)) → nonblocking = none →
        s.objects.sockets (.inr k) = none
  | .listenerClear _ => False
  | _ => True

/-! ## What changes in the objects -/

variable {s t : Process} {o : Objects} {fd : Nat} {h : Nat ⊕ Nat}

theorem sockets_setListener (o : Objects) (l : Nat) (x : Tagged Listening.Listener) :
    (o.setListener l x).sockets = Function.update o.sockets (.inl l) x.object.fd := by
  funext h
  cases h with
  | inl l' =>
      by_cases heq : l' = l
      · rw [heq, Function.update_self]
        simp only [Objects.sockets, Objects.setListener, Function.update_self, Option.bind_some]
      · have hne : (Sum.inl l' : Nat ⊕ Nat) ≠ .inl l := fun h => heq (Sum.inl.inj h)
        rw [Function.update_of_ne hne]
        simp only [Objects.sockets, Objects.setListener, Function.update_of_ne heq]
  | inr k =>
      have hne : (Sum.inr k : Nat ⊕ Nat) ≠ .inl l := Sum.inr_ne_inl
      rw [Function.update_of_ne hne]
      rfl

theorem pools_setListener (o : Objects) (l : Nat) (x : Tagged Listening.Listener) :
    (o.setListener l x).pools = o.pools := rfl

theorem sockets_setConnection (o : Objects) (k : Nat) (x : Option (Tagged Connection)) :
    (o.setConnection k x).sockets =
      Function.update o.sockets (.inr k) (x.bind fun x => x.object.fd) := by
  funext h
  cases h with
  | inl l =>
      have hne : (Sum.inl l : Nat ⊕ Nat) ≠ .inr k := Sum.inl_ne_inr
      rw [Function.update_of_ne hne]
      rfl
  | inr k' =>
      by_cases heq : k' = k
      · rw [heq, Function.update_self]
        simp only [Objects.sockets, Objects.setConnection, Function.update_self]
      · have hne : (Sum.inr k' : Nat ⊕ Nat) ≠ .inr k := fun h => heq (Sum.inr.inj h)
        rw [Function.update_of_ne hne]
        simp only [Objects.sockets, Objects.setConnection, Function.update_of_ne heq]

theorem pools_setConnection (o : Objects) (k : Nat) (x : Option (Tagged Connection)) :
    (o.setConnection k x).pools = Function.update o.pools k (x.bind fun x => x.object.pool) := by
  funext k'
  by_cases heq : k' = k
  · rw [heq, Function.update_self]
    simp only [Objects.pools, Objects.setConnection, Function.update_self]
  · rw [Function.update_of_ne heq]
    simp only [Objects.pools, Objects.setConnection, Function.update_of_ne heq]

/-! ## Opening and closing -/

theorem owned_forget_iff (hs : Owned s)
    (hsockets : o.sockets = Function.update s.objects.sockets h none)
    (hpools : o.pools = s.objects.pools) :
    Owned { s with objects := o } ↔ s.objects.sockets h = none := by
  rw [← hs.sockets.forget_iff, ← hsockets]
  constructor
  · exact fun ho => ho.sockets
  · exact fun hexact => ⟨hexact, by rw [hpools]; exact hs.pools, hs.straight⟩

theorem owned_opened_iff (hs : Owned s)
    (hsockets : o.sockets = Function.update s.objects.sockets h (some fd))
    (hpools : o.pools = s.objects.pools) (hfresh : s.sockets fd = false) :
    Owned { s with objects := o, sockets := Function.update s.sockets fd true } ↔
      s.objects.sockets h = none := by
  rw [← hs.sockets.take_iff hfresh, ← hsockets]
  constructor
  · exact fun ho => ho.sockets
  · exact fun hexact => ⟨hexact, by rw [hpools]; exact hs.pools, hs.straight⟩

theorem closed_exact (hs : Owned s)
    (ht : run Process.event { s with objects := o }
      ((s.objects.sockets h).toList.map Event.closed) = some t) :
    Exact (Function.update s.objects.sockets h none) t.sockets ∧
      t = { s with objects := o, sockets := t.sockets } := by
  cases hh : s.objects.sockets h with
  | none =>
      rw [hh] at ht
      cases ht
      exact ⟨hs.sockets.same hh, rfl⟩
  | some fd =>
      have hlive := hs.sockets.lives hh
      rw [hh] at ht
      simp only [Option.toList_some, List.map_cons, List.map_nil, run, Process.event, hlive,
        if_true, Option.bind_some] at ht
      cases ht
      exact ⟨hs.sockets.release hh, rfl⟩

theorem owned_closed (hs : Owned s)
    (hsockets : o.sockets = Function.update s.objects.sockets h none)
    (hpools : o.pools = s.objects.pools)
    (ht : run Process.event { s with objects := o }
      ((s.objects.sockets h).toList.map Event.closed) = some t) : Owned t := by
  obtain ⟨hexact, hrest⟩ := closed_exact hs ht
  rw [hrest]
  exact ⟨by rw [hsockets]; exact hexact, by rw [hpools]; exact hs.pools, hs.straight⟩

theorem opened_some (ht : s.event (.opened fd) = some t) :
    s.sockets fd = false ∧ t = { s with sockets := Function.update s.sockets fd true } := by
  simp only [Process.event] at ht
  split at ht
  · cases ht
  · rename_i hfree
    cases ht
    exact ⟨Bool.eq_false_iff.mpr hfree, rfl⟩

theorem opened_closed (ht : run Process.event s [.opened fd, .closed fd] = some t) : t = s := by
  obtain ⟨m, hm, hrest⟩ := run_cons_some ht
  obtain ⟨hfree, hopen⟩ := opened_some hm
  rw [hopen] at hrest
  simp only [run, Process.event, Function.update_self, if_true, Function.update_idem,
    Option.bind_some] at hrest
  have hback : Function.update s.sockets fd false = s.sockets := by
    rw [← hfree, Function.update_eq_self]
  rw [hback] at hrest
  cases hrest
  rfl

/-! ## Binding -/

def opEvent : Op Nat → List Event
  | .opened fd => [.opened fd]
  | .bound _ => []
  | .closed fd => [.closed fd]

theorem syscalls_events (calls : List Syscall) :
    calls.flatMap Syscall.event = (calls.map Syscall.op).flatMap opEvent := by
  induction calls with
  | nil => rfl
  | cons c calls ih =>
      rw [List.flatMap_cons, List.map_cons, List.flatMap_cons, ih]
      cases c <;> rfl

/-- The process while a function uses descriptors of its own: they are open beside the others,
and the rest is as it was. -/
structure Beside (s : Process) (table : Table Nat) (t : Process) : Prop where
  sockets : ∀ fd, t.sockets fd = (s.sockets fd || (table fd).isSome)
  apart : ∀ fd, table fd ≠ none → s.sockets fd = false
  rest : t = { s with sockets := t.sockets }

theorem Beside.start (s : Process) : Beside s Table.empty s :=
  ⟨fun _ => (Bool.or_false _).symm, fun _ hfd => absurd rfl hfd, rfl⟩

theorem Beside.nothing (hb : Beside s Table.empty t) : t = s := by
  have hsockets : t.sockets = s.sockets :=
    funext fun fd => (hb.sockets fd).trans (Bool.or_false _)
  rw [hb.rest, hsockets]

theorem Beside.set {table : Table Nat} {m : Process} (hb : Beside s table m)
    (hapart : s.sockets fd = false) (state : Option Bool) :
    Beside s (Function.update table fd state)
      { m with sockets := Function.update m.sockets fd state.isSome } := by
  constructor
  · intro fd'
    show Function.update m.sockets fd state.isSome fd' = _
    by_cases heq : fd' = fd
    · rw [heq, Function.update_self, Function.update_self, hapart, Bool.false_or]
    · rw [Function.update_of_ne heq, Function.update_of_ne heq]
      exact hb.sockets fd'
  · intro fd' hfd'
    by_cases heq : fd' = fd
    · rw [heq]
      exact hapart
    · rw [Function.update_of_ne heq] at hfd'
      exact hb.apart fd' hfd'
  · rw [hb.rest]

theorem Beside.use {table table' : Table Nat} {op : Op Nat} {m : Process} (hb : Beside s table m)
    (huse : use table op = some table') (ht : run Process.event m (opEvent op) = some t) :
    Beside s table' t := by
  cases op with
  | opened fd =>
      obtain ⟨u, hu, hrest⟩ := run_cons_some ht
      cases hrest
      obtain ⟨hfree, rfl⟩ := opened_some hu
      have hapart : s.sockets fd = false := by
        have hboth := hb.sockets fd
        rw [hfree] at hboth
        exact (Bool.or_eq_false_iff.mp hboth.symm).1
      simp only [Descriptors.use] at huse
      split at huse
      · cases huse
        exact hb.set hapart (some false)
      · cases huse
  | bound fd =>
      cases ht
      simp only [Descriptors.use] at huse
      split at huse
      · cases huse
      · rename_i hsome
        cases huse
        have hopen : t.sockets fd = true := by
          rw [hb.sockets fd, Option.isSome_iff_ne_none.mpr hsome, Bool.or_true]
        have hsame : Function.update t.sockets fd true = t.sockets := by
          rw [← hopen, Function.update_eq_self]
        have hset := hb.set (hb.apart fd hsome) (some true)
        rw [Option.isSome_some, hsame] at hset
        exact hset
  | closed fd =>
      simp only [Descriptors.use] at huse
      split at huse
      · cases huse
      · rename_i hsome
        cases huse
        have hopen : m.sockets fd = true := by
          rw [hb.sockets fd, Option.isSome_iff_ne_none.mpr hsome, Bool.or_true]
        simp only [opEvent, run, Process.event, hopen, if_true, Option.bind_some] at ht
        cases ht
        exact hb.set (hb.apart fd hsome) none

theorem run_append_some {σ α : Type} {step : σ → α → Option σ} {s t : σ} {as bs : List α}
    (h : run step s (as ++ bs) = some t) : ∃ m, run step s as = some m ∧ run step m bs = some t := by
  rw [run_append] at h
  exact Option.bind_eq_some_iff.mp h

/-- What a function does to a table of its own it does to the process. -/
theorem Beside.run {table table' : Table Nat} {ops : List (Op Nat)} {m : Process}
    (hb : Beside s table m) (huse : Transition.run Descriptors.use table ops = some table')
    (ht : Transition.run Process.event m (ops.flatMap opEvent) = some t) : Beside s table' t := by
  induction ops generalizing table m with
  | nil =>
      cases huse
      cases ht
      exact hb
  | cons op ops ih =>
      obtain ⟨mid, hmid, hrest⟩ := run_cons_some huse
      rw [List.flatMap_cons] at ht
      obtain ⟨u, hu, ht⟩ := run_append_some ht
      exact ih (hb.use hmid hu) hrest ht

theorem tryAddress_available {rp : Candidate} (locals : Locals) (h : rp.Available)
    (hfd : rp.socket = .ok fd) :
    (tryAddress rp locals).1 = true ∧ (tryAddress rp locals).2.fd = some fd := by
  obtain ⟨-, hnopush, hnonblocking, hbind⟩ := h
  have hdone : bindLoop rp maxBindAttempts 0 Err.ok = (Err.ok, true) :=
    bindLoop_done (by simpa only [Nat.zero_add] using hbind)
  simp only [tryAddress, socketInit, hfd, Locals.call, ne_eq, not_true_eq_false, if_false,
    hnopush, hnonblocking, status, hdone, if_true, and_self]

theorem tryAddresses_first {busy rest : List Candidate} {rp : Candidate} (locals : Locals)
    (hreturned : Returned locals.ops) (hbusy : ∀ rp' ∈ busy, ¬ rp'.Available) (h : rp.Available)
    (hfd : rp.socket = .ok fd) : (tryAddresses (busy ++ rp :: rest) locals).1 = true ∧
      (tryAddresses (busy ++ rp :: rest) locals).2.fd = some fd := by
  induction busy generalizing locals with
  | nil =>
      obtain ⟨hfound, hfd'⟩ := tryAddress_available locals h hfd
      simp only [List.nil_append, tryAddresses, hfound, if_true]
      exact ⟨trivial, hfd'⟩
  | cons rp' busy ih =>
      obtain ⟨hbusy', hbusy⟩ := List.forall_mem_cons.mp hbusy
      have htried := tryAddress_tried rp' hreturned
      generalize htry : tryAddress rp' locals = out at htried
      simp only [List.cons_append, tryAddresses, htry]
      cases htried with
      | bound havailable =>
          obtain ⟨rp'', hrp'', havailable⟩ := havailable
          cases List.mem_singleton.mp hrp''
          exact absurd havailable hbusy'
      | @refused locals₁ hrefused hfd' hcalls =>
          have hops : locals₁.ops = locals.ops := congrArg (List.map Syscall.op) hcalls
          exact ih locals₁ (hops ▸ hreturned) hbusy
      | closed havailable hrefused hfd' hreturned' => exact ih _ hreturned' hbusy

theorem exists_first {α : Type*} {p : α → Prop} {as : List α} (h : ∃ a ∈ as, p a) :
    ∃ us a vs, as = us ++ a :: vs ∧ (∀ b ∈ us, ¬ p b) ∧ p a := by
  induction as with
  | nil => simp at h
  | cons a as ih =>
      by_cases ha : p a
      · exact ⟨[], a, as, rfl, by simp, ha⟩
      · obtain ⟨b, hb, hpb⟩ := h
        have hrest : b ∈ as := (List.mem_cons.mp hb).resolve_left fun heq => ha (heq ▸ hpb)
        obtain ⟨us, c, vs, rfl, hus, hc⟩ := ih ⟨b, hrest, hpb⟩
        exact ⟨a :: us, c, vs, rfl, List.forall_mem_cons.mpr ⟨ha, hus⟩, hc⟩

/-- Which descriptor is asked for its name. -/
theorem canBind_iff {os : NetOs} {x : Listening.Listener} {result : List Candidate}
    {locals : Locals} {junk : Err}
    (hresult : os.getaddrinfo x.textAddr x.textPort x.hints = .ok result) {found : Bool}
    (htry : tryAddresses result ⟨none, junk, []⟩ = (found, locals)) :
    CanBind os x ↔ found = true ∧ ∃ sockaddr, os.getsockname locals.fd = .ok sockaddr := by
  have hfirst : ∀ busy rp rest fd, result = busy ++ rp :: rest → (∀ rp' ∈ busy, ¬ rp'.Available) →
      rp.Available → rp.socket = .ok fd → found = true ∧ locals.fd = some fd := by
    rintro busy rp rest fd rfl hbusy h hfd
    have hboth : (tryAddresses (busy ++ rp :: rest) ⟨none, junk, []⟩).1 = true ∧ _ :=
      tryAddresses_first _ returned_nil hbusy h hfd
    rwa [htry] at hboth
  constructor
  · rintro ⟨busy, rp, rest, fd, sockaddr, hresult', hbusy, h, hfd, hname⟩
    cases hresult.symm.trans hresult'
    obtain ⟨hfound, hfd'⟩ := hfirst busy rp rest fd rfl hbusy h hfd
    exact ⟨hfound, sockaddr, by rw [hfd', hname]⟩
  · rintro ⟨rfl, sockaddr, hname⟩
    have htried : Tried result ⟨none, junk, []⟩ (tryAddresses result ⟨none, junk, []⟩) :=
      tryAddresses_tried result returned_nil
    rw [htry] at htried
    cases htried with
    | bound havailable =>
        obtain ⟨busy, rp, rest, rfl, hbusy, h⟩ := exists_first havailable
        obtain ⟨fd, hfd⟩ := h.1
        obtain ⟨-, hfd'⟩ := hfirst busy rp rest fd rfl hbusy h hfd
        exact ⟨busy, rp, rest, fd, sockaddr, hresult, hbusy, h, hfd, hfd' ▸ hname⟩

inductive BindLeaves (os : NetOs) (x : Listening.Listener) :
    Listening.Listener → List (Op Nat) → Prop where
  | nothing {x' : Listening.Listener} {ops : List (Op Nat)} (hcannot : ¬ CanBind os x)
      (hreturned : Returned ops) (hfd : x'.fd = x.fd) : BindLeaves os x x' ops
  | one {x' : Listening.Listener} {ops : List (Op Nat)} {fd : Nat} (hcan : CanBind os x)
      (hleaves : Leaves ops fd) (hfd : x'.fd = some fd) : BindLeaves os x x' ops

theorem bind_leaves {os : NetOs} (junk : Err) {x : Listening.Listener} (hclean : BindsCleanly os x) :
    BindLeaves os x (listenerBind os junk x).2.1
      ((listenerBind os junk x).2.2.map Syscall.op) := by
  unfold BindsCleanly at hclean
  cases hresult : os.getaddrinfo x.textAddr x.textPort x.hints with
  | error errno =>
      simp only [listenerBind, hresult]
      refine .nothing ?_ returned_nil rfl
      rintro ⟨busy, rp, rest, fd, sockaddr, hresult', -⟩
      rw [hresult] at hresult'
      cases hresult'
  | ok result =>
      simp only [hresult] at hclean
      have htried : Tried result ⟨none, junk, []⟩ (tryAddresses result ⟨none, junk, []⟩) :=
        tryAddresses_tried result returned_nil
      generalize htry : tryAddresses result ⟨none, junk, []⟩ = out at htried
      cases htried with
      | @bound s fd havailable hfd hleaves =>
          rw [listenerBind_eq hresult htry]
          simp only [Bool.not_true, Bool.false_eq_true, if_false]
          cases hname : os.getsockname s.fd with
          | error e =>
              dsimp only
              have hfd' : ({ s with err := e.code } : Locals).fd = some fd := hfd
              rw [bindFailed_some hfd']
              refine .nothing ?_ ?_ rfl
              · rw [canBind_iff hresult htry, hname]
                rintro ⟨-, sockaddr, heq⟩
                cases heq
              · rw [Locals.call, List.map_append]
                exact hleaves.closed
          | ok sockaddr => exact .one ((canBind_iff hresult htry).mpr ⟨rfl, _, hname⟩) hleaves hfd
      | @refused s hrefused hfd hcalls hjunk herr =>
          rw [listenerBind_eq hresult htry, Bool.not_false, if_pos rfl, bindFailed_none hfd, hcalls]
          refine .nothing (fun hcan => ?_) returned_nil rfl
          exact Bool.false_ne_true ((canBind_iff hresult htry).mp hcan).1
      | closed havailable hrefused hfd hreturned =>
          cases hclean with
          | inl h => exact absurd h havailable
          | inr h => exact absurd h hrefused

/-- Otherwise the descriptor of the last address is closed once more. -/
theorem bind_closes_again {os : NetOs} (junk : Err) {x : Listening.Listener}
    (hunclean : ¬ BindsCleanly os x) :
    (listenerBind os junk x).2.1 = x ∧ ∃ ops fd, Returned ops ∧
      (listenerBind os junk x).2.2.map Syscall.op = ops ++ [.closed fd] := by
  unfold BindsCleanly at hunclean
  cases hresult : os.getaddrinfo x.textAddr x.textPort x.hints with
  | error errno =>
      simp only [hresult] at hunclean
      exact absurd trivial hunclean
  | ok result =>
      simp only [hresult] at hunclean
      have htried : Tried result ⟨none, junk, []⟩ (tryAddresses result ⟨none, junk, []⟩) :=
        tryAddresses_tried result returned_nil
      generalize htry : tryAddresses result ⟨none, junk, []⟩ = out at htried
      cases htried with
      | bound havailable hfd hleaves => exact absurd (Or.inl havailable) hunclean
      | refused hrefused hfd hcalls hjunk herr => exact absurd (Or.inr hrefused) hunclean
      | @closed s fd havailable hrefused hfd hreturned =>
          rw [listenerBind_eq hresult htry, Bool.not_false, if_pos rfl, bindFailed_some hfd]
          refine ⟨rfl, s.ops, fd, hreturned, ?_⟩
          rw [Locals.call, List.map_append]
          rfl

/-- A bind keeps the books exactly if it does not close a descriptor twice and a listener that
gets a descriptor had none. -/
theorem owned_bind_iff (hs : Owned s) {l : Nat} {x : Tagged Listening.Listener} {os : NetOs}
    {junk : Err} (hx : s.objects.listeners l = some x)
    (ho : o = s.objects.setListener l { x with object := (listenerBind os junk x.object).2.1 })
    (ht : run Process.event { s with objects := o }
      ((listenerBind os junk x.object).2.2.flatMap Syscall.event) = some t) :
    Owned t ↔ BindsCleanly os x.object ∧ (CanBind os x.object → x.object.fd = none) := by
  have hkept : s.objects.sockets (.inl l) = x.object.fd := by
    rw [Objects.sockets, hx, Option.bind_some]
  rw [syscalls_events] at ht
  by_cases hclean : BindsCleanly os x.object
  · rw [and_iff_right hclean]
    have hleft := bind_leaves junk hclean
    generalize (listenerBind os junk x.object).2.1 = x' at hleft ho ⊢
    generalize (listenerBind os junk x.object).2.2.map Syscall.op = ops at hleft ht
    have hsockets : o.sockets = Function.update s.objects.sockets (.inl l) x'.fd := by
      rw [ho, sockets_setListener]
    have hpools : o.pools = s.objects.pools := by rw [ho, pools_setListener]
    cases hleft with
    | nothing hcannot hreturned hfd =>
        have hsame := ((Beside.start _).run hreturned ht).nothing
        rw [hsame]
        rw [hfd, ← hkept, Function.update_eq_self] at hsockets
        have howned : Owned { s with objects := o } :=
          ⟨by rw [hsockets]; exact hs.sockets, by rw [hpools]; exact hs.pools, hs.straight⟩
        exact iff_of_true howned fun hcan => absurd hcan hcannot
    | @one fd hcan hleaves hfd =>
        have hbeside := (Beside.start _).run hleaves ht
        have hapart : s.sockets fd = false := hbeside.apart fd (by
          rw [Function.update_self]
          exact fun h => nomatch h)
        have hopen : t.sockets = Function.update s.sockets fd true := by
          funext fd'
          rw [hbeside.sockets fd']
          by_cases heq : fd' = fd
          · rw [heq, Function.update_self, Function.update_self]
            exact Bool.or_true _
          · rw [Function.update_of_ne heq, Function.update_of_ne heq]
            exact Bool.or_false _
        rw [hfd] at hsockets
        have htaken := owned_opened_iff hs hsockets hpools hapart
        rw [hbeside.rest, hopen]
        refine htaken.trans ?_
        rw [hkept]
        exact ⟨fun hnone _ => hnone, fun hnone => hnone hcan⟩
  · apply iff_of_false _ fun h => hclean h.1
    obtain ⟨hsame, ops, fd, hreturned, hops⟩ := bind_closes_again junk hclean
    rw [hops, List.flatMap_append] at ht
    obtain ⟨m, hm, hrest⟩ := run_append_some ht
    rw [((Beside.start _).run hreturned hm).nothing] at hrest
    have hsockets : o.sockets = s.objects.sockets := by
      rw [ho, sockets_setListener, hsame, ← hkept, Function.update_eq_self]
    simp only [List.flatMap_cons, List.flatMap_nil, List.append_nil, opEvent, run, Process.event,
      Option.bind_some] at hrest
    intro howned
    cases hopen : s.sockets fd with
    | true =>
        simp only [hopen, if_true] at hrest
        cases hrest
        have hexact := howned.sockets
        rw [hsockets] at hexact
        exact hs.sockets.not_ended hopen hexact
    | false =>
        simp only [hopen, Bool.false_eq_true, if_false] at hrest
        cases hrest
        exact absurd howned.straight (Nat.succ_ne_zero _)

/-! ## All calls -/

theorem listenerClose_events (x : Listening.Listener) :
    (listenerClose x).2.flatMap Syscall.event = x.fd.toList.map Event.closed ∧
      (listenerClose x).1.fd = none := by
  unfold listenerClose
  split
  · rename_i hfd
    rw [hfd]
    exact ⟨rfl, rfl⟩
  · rename_i hfd
    rw [hfd]
    exact ⟨rfl, rfl⟩

theorem connectionClose_events (x : Tagged Connection) :
    (connectionClose x).2.flatMap Release.event = x.object.fd.toList.map Event.closed ∧
      (connectionClose x).1.object.fd = none ∧
      (connectionClose x).1.object.pool = x.object.pool := by
  unfold connectionClose
  split
  · rename_i hfd
    rw [hfd]
    exact ⟨rfl, rfl, rfl⟩
  · rename_i hfd
    rw [hfd]
    exact ⟨rfl, rfl, rfl⟩

theorem process_step {c : Call} (ht : s.step c = some t) :
    ∃ o, s.objects.call c = some o ∧
      run Process.event { s with objects := o } (s.objects.events c) = some t :=
  Option.bind_eq_some_iff.mp ht

theorem owned_listenerInit_iff (hs : Owned s) (l : Nat) {x : Tagged Listening.Listener}
    (hx : x.object.fd = none) :
    Owned { s with objects := s.objects.setListener l x } ↔ s.objects.sockets (.inl l) = none := by
  apply owned_forget_iff hs
  · rw [sockets_setListener, hx]
  · exact pools_setListener ..

theorem owned_connectionClose (hs : Owned s) {k : Nat} {x : Tagged Connection}
    (hx : s.objects.connections k = some x)
    (ht : run Process.event { s with objects := s.objects.setConnection k (connectionClose x).1 }
      ((connectionClose x).2.flatMap Release.event) = some t) : Owned t := by
  obtain ⟨hevents, hfd, hpool⟩ := connectionClose_events x
  have hkept : s.objects.sockets (.inr k) = x.object.fd := by
    rw [Objects.sockets, hx, Option.bind_some]
  have hheld : s.objects.pools k = x.object.pool := by
    rw [Objects.pools, hx, Option.bind_some]
  rw [hevents, ← hkept] at ht
  refine owned_closed hs ?_ ?_ ht
  · rw [sockets_setConnection, Option.bind_some, hfd]
  · rw [pools_setConnection, Option.bind_some, hpool, ← hheld, Function.update_eq_self]

theorem owned_connectionInit_iff (hs : Owned s) {k : Nat} {poolCreate : Except Errno Nat}
    (ht : s.step (.plain (.connectionInit k poolCreate)) = some t) :
    Owned t ↔ s.objects.sockets (.inr k) = none ∧ s.objects.pools k = none := by
  obtain ⟨o, ho, hrun⟩ := process_step ht
  cases poolCreate with
  | error e =>
      rw [Objects.call, step_connectionInit_error] at ho
      cases ho
      cases hrun
      rw [← hs.sockets.forget_iff, ← hs.pools.forget_iff]
      have hsockets := sockets_setConnection s.objects k none
      have hpools := pools_setConnection s.objects k none
      rw [Option.bind_none] at hsockets hpools
      rw [← hsockets, ← hpools]
      constructor
      · exact fun howned => ⟨howned.sockets, howned.pools⟩
      · exact fun hexact => ⟨hexact.1, hexact.2, hs.straight⟩
  | ok pool =>
      rw [Objects.call, step_connectionInit_ok] at ho
      cases ho
      have hsockets := sockets_setConnection s.objects k (some (connectionInit (.ok pool)).2)
      have hpools := pools_setConnection s.objects k (some (connectionInit (.ok pool)).2)
      simp only [Option.bind_some, connectionInit] at hsockets hpools
      simp only [Objects.events, run, Process.event] at hrun
      split at hrun
      · cases hrun
      · rename_i hfresh
        cases hrun
        rw [← hs.sockets.forget_iff, ← hs.pools.take_iff (Bool.eq_false_iff.mpr hfresh),
          ← hsockets, ← hpools]
        constructor
        · exact fun howned => ⟨howned.sockets, howned.pools⟩
        · exact fun hexact => ⟨hexact.1, hexact.2, hs.straight⟩

theorem owned_connectionAccept_iff (hs : Owned s) {k l : Nat}
    {accept : Except Errno (Nat × Sockaddr)} {nonblocking : Option Errno}
    (ht : s.step (.plain (.connectionAccept k l accept nonblocking)) = some t) :
    Owned t ↔ ((∃ fd name, accept = .ok (fd, name)) → nonblocking = none →
      s.objects.sockets (.inr k) = none) := by
  obtain ⟨o, ho, hrun⟩ := process_step ht
  obtain ⟨_, -, ho⟩ := Option.bind_eq_some_iff.mp ho
  obtain ⟨x, hx, hset⟩ := Option.map_eq_some_iff.mp ho
  have hkept : s.objects.sockets (.inr k) = x.object.fd := by
    rw [Objects.sockets, hx, Option.bind_some]
  have hheld : s.objects.pools k = x.object.pool := by
    rw [Objects.pools, hx, Option.bind_some]
  have hsockets : o.sockets = Function.update s.objects.sockets (.inr k)
      (connectionAccept accept nonblocking l x).2.1.object.fd := by
    rw [← hset, sockets_setConnection, Option.bind_some]
  have hpools : (connectionAccept accept nonblocking l x).2.1.object.pool = x.object.pool →
      o.pools = s.objects.pools := by
    intro hpool
    rw [← hset, pools_setConnection, Option.bind_some, hpool, ← hheld, Function.update_eq_self]
  simp only [Objects.events, hx, Option.elim_some] at hrun
  cases accept with
  | error e =>
      cases hrun
      have hsame : o.sockets = s.objects.sockets := by
        rw [hsockets, connectionAccept, ← hkept, Function.update_eq_self]
      have howned : Owned { s with objects := o } :=
        ⟨by rw [hsame]; exact hs.sockets, by rw [hpools rfl]; exact hs.pools, hs.straight⟩
      apply iff_of_true howned
      rintro ⟨fd, name, heq⟩
      cases heq
  | ok given =>
      obtain ⟨fd, name⟩ := given
      cases nonblocking with
      | some e =>
          have hsame : o.sockets = s.objects.sockets := by
            rw [hsockets, connectionAccept, ← hkept, Function.update_eq_self]
          rw [opened_closed hrun]
          have howned : Owned { s with objects := o } :=
            ⟨by rw [hsame]; exact hs.sockets, by rw [hpools rfl]; exact hs.pools, hs.straight⟩
          exact iff_of_true howned fun _ hnone => absurd hnone (Option.some_ne_none e)
      | none =>
          obtain ⟨m, hm, hrest⟩ := run_cons_some hrun
          obtain ⟨hfresh, hopen⟩ := opened_some hm
          cases hrest
          rw [hopen, owned_opened_iff hs hsockets (hpools rfl) hfresh]
          exact ⟨fun hnone _ _ => hnone, fun h => h ⟨fd, name, rfl⟩ rfl⟩

/-- A listener that is cleared has a descriptor that it did not open. -/
theorem listenerClear_not_owned (hs : Owned s) {l : Nat}
    (ht : s.step (.listenerClear l) = some t) : ¬ Owned t := by
  obtain ⟨o, ho, hrun⟩ := process_step ht
  obtain ⟨x, hx, hset⟩ := Option.map_eq_some_iff.mp ho
  have hkept : s.objects.sockets (.inl l) = x.object.fd := by
    rw [Objects.sockets, hx, Option.bind_some]
  simp only [Objects.events, hx, Option.elim_some, listenerClear,
    (listenerClose_events x.object).1] at hrun
  rw [← hkept] at hrun
  obtain ⟨hexact, hrest⟩ := closed_exact hs hrun
  intro howned
  have hsockets := howned.sockets
  rw [hrest, ← hset, sockets_setListener] at hsockets
  apply hexact.not_forged (Function.update_self ..)
  rw [Function.update_idem]
  exact hsockets

theorem owned_connectionDestroy (hs : Owned s) {k : Nat}
    (ht : s.step (.connectionDestroy k) = some t) : Owned t := by
  obtain ⟨o, ho, hrun⟩ := process_step ht
  obtain ⟨x, hx, hset⟩ := Option.map_eq_some_iff.mp ho
  obtain ⟨hevents, -, hpool⟩ := connectionClose_events x
  have hkept : s.objects.sockets (.inr k) = x.object.fd := by
    rw [Objects.sockets, hx, Option.bind_some]
  have hheld : s.objects.pools k = x.object.pool := by
    rw [Objects.pools, hx, Option.bind_some]
  have hsockets : o.sockets = Function.update s.objects.sockets (.inr k) none := by
    rw [← hset, sockets_setConnection, Option.bind_none]
  have hpools : o.pools = Function.update s.objects.pools k none := by
    rw [← hset, pools_setConnection, Option.bind_none]
  simp only [Objects.events, hx, Option.elim_some, connectionDestroy, hevents, hpool] at hrun
  rw [← hkept, ← hheld] at hrun
  obtain ⟨m, hm, hrest⟩ := run_append_some hrun
  obtain ⟨hexact, hm'⟩ := closed_exact hs hm
  rw [hm'] at hrest
  cases hk : s.objects.pools k with
  | none =>
      rw [hk] at hrest
      cases hrest
      exact ⟨by rw [hsockets]; exact hexact, by rw [hpools]; exact hs.pools.same hk, hs.straight⟩
  | some pool =>
      rw [hk] at hrest
      cases hrest
      exact ⟨by rw [hsockets]; exact hexact, by rw [hpools]; exact hs.pools.release hk,
        hs.straight⟩

/-- Each call keeps the books exactly if it is a careful one. -/
theorem careful_iff_owned {c : Call} (hs : Owned s) (ht : s.step c = some t) :
    Careful s c ↔ Owned t := by
  obtain ⟨o, ho, hrun⟩ := process_step ht
  cases c with
  | plain a =>
      cases a with
      | listenerInitIpv4 l addr port =>
          cases ho
          cases hrun
          exact (owned_listenerInit_iff hs l rfl).symm
      | listenerInitIpv6 l addr port =>
          cases ho
          cases hrun
          exact (owned_listenerInit_iff hs l rfl).symm
      | listenerBind l os junk =>
          obtain ⟨x, hx, hset⟩ := Option.map_eq_some_iff.mp ho
          simp only [Objects.events, hx, Option.elim_some] at hrun
          rw [owned_bind_iff hs hx hset.symm hrun]
          constructor
          · exact fun h => h x hx
          · intro h y hy
            rw [hx] at hy
            cases hy
            exact h
      | listenerClose l =>
          obtain ⟨x, hx, hset⟩ := Option.map_eq_some_iff.mp ho
          obtain ⟨hevents, hfd⟩ := listenerClose_events x.object
          have hkept : s.objects.sockets (.inl l) = x.object.fd := by
            rw [Objects.sockets, hx, Option.bind_some]
          simp only [Objects.events, hx, Option.elim_some, hevents] at hrun
          rw [← hkept] at hrun
          refine iff_of_true trivial (owned_closed hs ?_ ?_ hrun)
          · rw [← hset, sockets_setListener, hfd]
          · rw [← hset, pools_setListener]
      | connectionInit k poolCreate => exact (owned_connectionInit_iff hs ht).symm
      | connectionAccept k l accept nonblocking => exact (owned_connectionAccept_iff hs ht).symm
      | connectionClose k =>
          obtain ⟨x, hx, hset⟩ := Option.map_eq_some_iff.mp ho
          simp only [Objects.events, hx, Option.elim_some] at hrun
          rw [← hset] at hrun
          exact iff_of_true trivial (owned_connectionClose hs hx hrun)
      | connectionClear k =>
          obtain ⟨x, hx, hset⟩ := Option.map_eq_some_iff.mp ho
          simp only [Objects.events, hx, Option.elim_some, connectionClear, List.flatMap_append,
            List.flatMap_cons, List.flatMap_nil, Release.event, List.append_nil] at hrun
          rw [← hset] at hrun
          exact iff_of_true trivial (owned_connectionClose hs hx hrun)
  | listenerClear l => exact iff_of_false id (listenerClear_not_owned hs ht)
  | connectionDestroy k => exact iff_of_true trivial (owned_connectionDestroy hs ht)

theorem owned_fresh : Owned Process.fresh where
  sockets := by
    have hnone : Objects.fresh.sockets = fun _ => none := by
      funext h
      cases h <;> rfl
    show Exact Objects.fresh.sockets _
    rw [hnone]
    exact exact_empty
  pools := exact_empty
  straight := rfl

/-- Along every run of calls each open socket and each pool is kept by one object, and no
descriptor is closed that is not open, exactly if all calls are careful ones. -/
theorem visits_owned_iff {calls : List Call} (h : run Process.step Process.fresh calls = some t) :
    Visits Process.step Owned Process.fresh calls ↔
      Meets Process.step Careful Process.fresh calls :=
  visits_iff_meets_of_run (fun _ _ _ hs ht => careful_iff_owned hs ht) h owned_fresh

/-- A connection is given a second socket before the first one is closed. -/
def acceptedTwice : List Call :=
  [.plain (.listenerInitIpv4 0 (ascii "0.0.0.0") (ascii "80")),
    .plain (.connectionInit 0 (.ok 0)),
    .plain (.connectionAccept 0 0 (.ok (4, ⟨2, []⟩)) none),
    .plain (.connectionAccept 0 0 (.ok (5, ⟨2, []⟩)) none)]

theorem visits_owned_iff_accepted_twice :
    ∃ t, run Process.step Process.fresh acceptedTwice = some t ∧
      ¬ Visits Process.step Owned Process.fresh acceptedTwice := by
  obtain ⟨t, ht⟩ : ∃ t, run Process.step Process.fresh acceptedTwice = some t := ⟨_, rfl⟩
  refine ⟨t, ht, fun hvisits => ?_⟩
  have hmeets := (visits_owned_iff ht).mp hvisits
  have hlast := (((hmeets.2 _ rfl).2 _ rfl).2 _ rfl).1 ⟨5, ⟨2, []⟩, rfl⟩ rfl
  cases hlast

end Floppix.Connecting
