import Floppix.Core.Listen
import Floppix.Lib.Transition
import Mathlib.Logic.Function.Basic

/-! # Listeners and connections

The event loop gets a pointer to a listener or to a connection and tells them apart by
`type_id`, the first field of both. The field is a `bool`, and so are the values it can keep:
the id of a listener is `1` and stays itself, but the id of a connection is `2` and becomes `1`.
-/

namespace Floppix.Connecting

open Listening Transition

/-! ## The tag -/

def listenerId : Nat := 1

def connectionId : Nat := 2

/-- A structure behind its `bool type_id`. -/
structure Tagged (α : Type) where
  typeId : Bool
  object : α
deriving DecidableEq, Repr

/-- The assignment of a number to a `bool`. -/
def toBool (v : Nat) : Bool := v ≠ 0

def isListener {α : Type} (x : Tagged α) : Bool := x.typeId.toNat = listenerId

def isConnection {α : Type} (x : Tagged α) : Bool := x.typeId.toNat = connectionId

/-! ## The functions -/

def afInet : Int := 2
def afInet6 : Int := 10

def listenerInit (family : Int) (addr port : Bytes) : Tagged Listening.Listener where
  typeId := toBool listenerId
  object :=
    { textAddr := addr
      textPort := port
      fd := none
      sockaddr := ⟨family, []⟩ }

def listenerInitIpv4 : Bytes → Bytes → Tagged Listening.Listener := listenerInit afInet

def listenerInitIpv6 : Bytes → Bytes → Tagged Listening.Listener := listenerInit afInet6

/-- `fpx_connect_t` behind its tag. The owner and the pool are known by numbers, and `fd` is
`none` for `FPX_INVALID_SOCKET`. -/
structure Connection where
  fd : Option Nat
  sockaddr : Sockaddr
  owner : Option Nat
  pool : Option Nat
deriving DecidableEq, Repr

/-- `fpx_memzero`. -/
def connectionZero : Tagged Connection := ⟨false, ⟨some 0, ⟨0, []⟩, none, none⟩⟩

def connectionInit (poolCreate : Except Errno Nat) : Err × Tagged Connection :=
  match poolCreate with
  | .error e => (e.code, connectionZero)
  | .ok pool =>
      (Err.ok, ⟨toBool connectionId, { connectionZero.object with fd := none, pool := some pool }⟩)

/-- The calls that end a connection's use of its descriptor and its pool. -/
inductive Release where
  | shutdown (fd : Nat)
  | close (fd : Nat)
  | poolClear (pool : Option Nat)
deriving DecidableEq, Repr

/-- `fpx_connection_accept` on a listener, with the answers of `accept` and of `fcntl` in
`fpx_socket_nonblocking`. -/
def connectionAccept (accept : Except Errno (Nat × Sockaddr)) (nonblocking : Option Errno)
    (listener : Nat) (connect : Tagged Connection) : Err × Tagged Connection × List Release :=
  match accept with
  | .error e => (e.code, connect, [])
  | .ok (fd, sockaddr) =>
      let connect := { connect with object := { connect.object with sockaddr } }
      match nonblocking with
      | some e => (e.code, connect, [.close fd])
      | none =>
          (Err.ok, { connect with
            object := { connect.object with fd := some fd, owner := some listener } }, [])

def connectionClose (connect : Tagged Connection) : Tagged Connection × List Release :=
  match connect.object.fd with
  | none => (connect, [])
  | some fd =>
      ({ connect with object := { connect.object with fd := none } }, [.shutdown fd, .close fd])

def connectionClear (connect : Tagged Connection) : Tagged Connection × List Release :=
  let (connect, released) := connectionClose connect
  (connect, released ++ [.poolClear connect.object.pool])

/-! ## Runs -/

/-- The listeners and the connections that have been initialised, by number. -/
structure Objects where
  listeners : Nat → Option (Tagged Listening.Listener)
  connections : Nat → Option (Tagged Connection)

def Objects.fresh : Objects := ⟨fun _ => none, fun _ => none⟩

inductive Action where
  | listenerInitIpv4 (l : Nat) (addr port : Bytes)
  | listenerInitIpv6 (l : Nat) (addr port : Bytes)
  | listenerBind (l : Nat) (os : NetOs) (junk : Err)
  | listenerClose (l : Nat)
  | connectionInit (k : Nat) (poolCreate : Except Errno Nat)
  | connectionAccept (k l : Nat) (accept : Except Errno (Nat × Sockaddr))
      (nonblocking : Option Errno)
  | connectionClose (k : Nat)
  | connectionClear (k : Nat)

namespace Objects

def setListener (s : Objects) (l : Nat) (x : Tagged Listening.Listener) : Objects :=
  { s with listeners := Function.update s.listeners l (some x) }

def setConnection (s : Objects) (k : Nat) (x : Option (Tagged Connection)) : Objects :=
  { s with connections := Function.update s.connections k x }

end Objects

/-- One call. Only an initialised object can be used, and a connection whose initialisation
fails is not one. -/
def step (s : Objects) : Action → Option Objects
  | .listenerInitIpv4 l addr port => some (s.setListener l (listenerInitIpv4 addr port))
  | .listenerInitIpv6 l addr port => some (s.setListener l (listenerInitIpv6 addr port))
  | .listenerBind l os junk =>
      (s.listeners l).map fun x =>
        s.setListener l { x with object := (listenerBind os junk x.object).2.1 }
  | .listenerClose l =>
      (s.listeners l).map fun x => s.setListener l { x with object := (listenerClose x.object).1 }
  | .connectionInit k poolCreate =>
      let (err, x) := connectionInit poolCreate
      some (s.setConnection k (if err = Err.ok then some x else none))
  | .connectionAccept k l accept nonblocking =>
      (s.listeners l).bind fun _ =>
        (s.connections k).map fun x =>
          s.setConnection k (some (connectionAccept accept nonblocking l x).2.1)
  | .connectionClose k =>
      (s.connections k).map fun x => s.setConnection k (some (connectionClose x).1)
  | .connectionClear k =>
      (s.connections k).map fun x => s.setConnection k (some (connectionClear x).1)

/-- What the event loop relies on. -/
structure TellsApart (s : Objects) : Prop where
  listeners : ∀ l x, s.listeners l = some x → isListener x = true ∧ isConnection x = false
  connections : ∀ k x, s.connections k = some x → isConnection x = true ∧ isListener x = false

def Action.OpensNone : Action → Prop
  | .connectionInit _ (.ok _) => False
  | _ => True

/-! ## What becomes of the tags -/

variable {s t : Objects} {a : Action}

theorem isListener_iff {α : Type} {x : Tagged α} : isListener x = true ↔ x.typeId = true := by
  cases h : x.typeId <;> simp [isListener, listenerId, h]

theorem isConnection_eq_false {α : Type} (x : Tagged α) : isConnection x = false := by
  cases h : x.typeId <;> simp [isConnection, connectionId, h]

structure Stamped (s : Objects) : Prop where
  listeners : ∀ l x, s.listeners l = some x → x.typeId = true
  connections : ∀ k x, s.connections k = some x → x.typeId = true

theorem Stamped.setListener (h : Stamped s) (l : Nat) {x : Tagged Listening.Listener}
    (hx : x.typeId = true) : Stamped (s.setListener l x) := by
  constructor
  · intro l' y hy
    simp only [Objects.setListener, Function.update_apply] at hy
    split at hy
    · cases hy
      exact hx
    · exact h.listeners l' y hy
  · exact h.connections

theorem Stamped.setConnection (h : Stamped s) (k : Nat) {x : Option (Tagged Connection)}
    (hx : ∀ y, x = some y → y.typeId = true) : Stamped (s.setConnection k x) := by
  constructor
  · exact h.listeners
  · intro k' y hy
    simp only [Objects.setConnection, Function.update_apply] at hy
    split at hy
    · exact hx y hy
    · exact h.connections k' y hy

theorem Stamped.setInitialised (h : Stamped s) (k : Nat) {x : Tagged Connection}
    (hx : x.typeId = true) : Stamped (s.setConnection k (some x)) := by
  apply h.setConnection k
  intro y hy
  cases hy
  exact hx

theorem connectionClose_typeId (x : Tagged Connection) :
    (connectionClose x).1.typeId = x.typeId := by
  unfold connectionClose
  split <;> rfl

theorem connectionAccept_typeId (accept : Except Errno (Nat × Sockaddr))
    (nonblocking : Option Errno) (l : Nat) (x : Tagged Connection) :
    (connectionAccept accept nonblocking l x).2.1.typeId = x.typeId := by
  unfold connectionAccept
  split
  · rfl
  · simp only
    split <;> rfl

theorem step_connectionInit_error (s : Objects) (k : Nat) (e : Errno) :
    step s (.connectionInit k (.error e)) = some (s.setConnection k none) := by
  simp [step, connectionInit, e.code_ne_ok]

theorem step_connectionInit_ok (s : Objects) (k pool : Nat) :
    step s (.connectionInit k (.ok pool)) =
      some (s.setConnection k (some (connectionInit (.ok pool)).2)) := rfl

/-- Each call leaves the tags as the initialisations have set them. -/
theorem step_stamped (h : step s a = some t) (hs : Stamped s) : Stamped t := by
  cases a with
  | listenerInitIpv4 l addr port =>
      cases h
      exact hs.setListener l rfl
  | listenerInitIpv6 l addr port =>
      cases h
      exact hs.setListener l rfl
  | listenerBind l os junk =>
      obtain ⟨x, hx, rfl⟩ := Option.map_eq_some_iff.mp h
      exact hs.setListener l (hs.listeners l x hx)
  | listenerClose l =>
      obtain ⟨x, hx, rfl⟩ := Option.map_eq_some_iff.mp h
      exact hs.setListener l (hs.listeners l x hx)
  | connectionInit k poolCreate =>
      cases poolCreate with
      | error e =>
          rw [step_connectionInit_error] at h
          cases h
          exact hs.setConnection k fun _ hy => by cases hy
      | ok pool =>
          rw [step_connectionInit_ok] at h
          cases h
          exact hs.setInitialised k rfl
  | connectionAccept k l accept nonblocking =>
      obtain ⟨_, _, h⟩ := Option.bind_eq_some_iff.mp h
      obtain ⟨x, hx, rfl⟩ := Option.map_eq_some_iff.mp h
      apply hs.setInitialised k
      rw [connectionAccept_typeId]
      exact hs.connections k x hx
  | connectionClose k =>
      obtain ⟨x, hx, rfl⟩ := Option.map_eq_some_iff.mp h
      apply hs.setInitialised k
      rw [connectionClose_typeId]
      exact hs.connections k x hx
  | connectionClear k =>
      obtain ⟨x, hx, rfl⟩ := Option.map_eq_some_iff.mp h
      apply hs.setInitialised k
      rw [connectionClear, connectionClose_typeId]
      exact hs.connections k x hx

/-- Whether there are connections changes only where one is initialised. -/
theorem step_connections (h : step s a = some t) (hs : ∀ k, s.connections k = none)
    (ha : a.OpensNone) : ∀ k, t.connections k = none := by
  cases a with
  | listenerInitIpv4 l addr port =>
      cases h
      exact hs
  | listenerInitIpv6 l addr port =>
      cases h
      exact hs
  | listenerBind l os junk =>
      obtain ⟨x, hx, rfl⟩ := Option.map_eq_some_iff.mp h
      exact hs
  | listenerClose l =>
      obtain ⟨x, hx, rfl⟩ := Option.map_eq_some_iff.mp h
      exact hs
  | connectionInit k poolCreate =>
      cases poolCreate with
      | error e =>
          rw [step_connectionInit_error] at h
          cases h
          intro k'
          simp only [Objects.setConnection, Function.update_apply, hs, ite_self]
      | ok pool => exact ha.elim
  | connectionAccept k l accept nonblocking =>
      obtain ⟨_, _, h⟩ := Option.bind_eq_some_iff.mp h
      rw [hs] at h
      cases h
  | connectionClose k =>
      rw [step, hs] at h
      cases h
  | connectionClear k =>
      rw [step, hs] at h
      cases h

/-! ## When the event loop can rely on them -/

theorem tellsApart_iff :
    TellsApart s ↔ Stamped s ∧ ∀ k, s.connections k = none := by
  constructor
  · intro h
    have hnone : ∀ k, s.connections k = none := by
      intro k
      cases hk : s.connections k with
      | none => rfl
      | some x =>
          have hx := (h.connections k x hk).1
          rw [isConnection_eq_false] at hx
          cases hx
    constructor
    · constructor
      · intro l x hx
        exact isListener_iff.mp (h.listeners l x hx).1
      · intro k x hx
        rw [hnone] at hx
        cases hx
    · exact hnone
  · intro h
    constructor
    · intro l x hx
      exact ⟨isListener_iff.mpr (h.1.listeners l x hx), isConnection_eq_false x⟩
    · intro k x hx
      rw [h.2] at hx
      cases hx

theorem stamped_fresh : Stamped Objects.fresh := by
  constructor
  · intro l x h
    cases h
  · intro k x h
    cases h

/-- In every run every initialised connection is taken for a listener, whatever is done
with it. -/
theorem connections_look_like_listeners (as : List Action) :
    Visits step (fun s => ∀ k x, s.connections k = some x →
      isListener x = true ∧ isConnection x = false) Objects.fresh as := by
  apply Visits.mono _ (visits_of_invariant (fun _ _ _ => step_stamped) as stamped_fresh)
  intro s hs k x hx
  exact ⟨isListener_iff.mpr (hs.connections k x hx), isConnection_eq_false x⟩

/-- Listeners and connections are told apart in every state that a run visits exactly if the
run initialises no connection. -/
theorem visits_tellsApart_iff (as : List Action) :
    Visits step TellsApart Objects.fresh as ↔
      Meets step (fun _ a => a.OpensNone) Objects.fresh as := by
  apply visits_iff_meets
  · intro s a hs
    rw [tellsApart_iff] at hs
    constructor
    · intro ha t ht
      exact tellsApart_iff.mpr ⟨step_stamped ht hs.1, step_connections ht hs.2 ha⟩
    · intro h
      cases a with
      | connectionInit k poolCreate =>
          cases poolCreate with
          | error e => trivial
          | ok pool =>
              have hnone := (tellsApart_iff.mp (h _ (step_connectionInit_ok s k pool))).2 k
              simp [Objects.setConnection] at hnone
      | _ => trivial
  · exact tellsApart_iff.mpr ⟨stamped_fresh, fun _ => rfl⟩

/-- One connection, initialised with success. -/
theorem connection_taken_for_listener :
    ¬ Visits step TellsApart Objects.fresh [.connectionInit 0 (.ok 0)] := by
  intro h
  have hlast := (h.2 _ (step_connectionInit_ok Objects.fresh 0 0)).connections 0 _ rfl
  exact absurd hlast.1 (by decide)

end Floppix.Connecting
