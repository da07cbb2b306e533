import Floppix.Core.Server
import Floppix.Lib.Descriptors

/-! # Binding a listener

`fpx_listener_bind` tries the addresses that `getaddrinfo` gives it, one after another, with
one descriptor at a time. Its locals `fd` and `err` stay as they are from one address to the
next, and where no address is left the descriptor in `fd` is closed once more.
-/

namespace Floppix.Listening

open Transition Descriptors

/-- `struct sockaddr_storage`. -/
structure Sockaddr where
  family : Int
  data : Bytes
deriving DecidableEq, Repr

/-- `fpx_listener_t`; `fd` is `none` for `FPX_INVALID_SOCKET`. -/
structure Listener extends Floppix.Listener where
  fd : Option Nat
  sockaddr : Sockaddr
deriving DecidableEq, Repr

/-- The fields of `struct addrinfo` that `getaddrinfo` is given as hints. -/
structure Hints where
  flags : Int
  family : Int
  socktype : Int
  protocol : Int

/-- An address from `getaddrinfo`, with what the operating system answers to the calls for it.
A failed call leaves a positive value in `errno`. -/
structure Candidate where
  family : Int
  socktype : Int
  protocol : Int
  addr : Bytes
  /-- `socket` -/
  socket : Except Errno Nat
  /-- `setsockopt` in `fpx_socket_nopush` -/
  nopush : Option Errno
  /-- `fcntl` in `fpx_socket_nonblocking` -/
  nonblocking : Option Errno
  /-- `bind`, at each of the attempts -/
  bind : Nat → Option Errno

/-- What the operating system answers to the other calls. `getaddrinfo` returns its error, and
what `errno` then holds may be anything. -/
structure NetOs where
  getaddrinfo : Bytes → Bytes → Hints → Except Err (List Candidate)
  getsockname : Option Nat → Except Errno Sockaddr

/-- The system calls that open, bind and close descriptors, with their arguments. -/
inductive Syscall where
  | socket (fd : Nat) (family socktype protocol : Int)
  | bind (fd : Nat) (addr : Bytes)
  | close (fd : Nat)
deriving DecidableEq

def Syscall.op : Syscall → Op Nat
  | .socket fd _ _ _ => .opened fd
  | .bind fd _ => .bound fd
  | .close fd => .closed fd

structure Locals where
  fd : Option Nat
  err : Err
  /-- history -/
  calls : List Syscall

def Locals.call (s : Locals) (c : Syscall) : Locals := { s with calls := s.calls ++ [c] }

def aiPassive : Int := 1
def sockStream : Int := 1
def ipprotoTcp : Int := 6

def maxBindAttempts : Nat := 3

def socketInit (rp : Candidate) (s : Locals) : Locals :=
  match rp.socket with
  | .error e => { s with err := e.code }
  | .ok fd =>
      { s with fd := some fd, err := Err.ok }.call (.socket fd rp.family rp.socktype rp.protocol)

/-- The loop over `tries`, with what is left of the attempts: the status of the last one, and
whether it is done. -/
def bindLoop (rp : Candidate) : (left tries : Nat) → Err → Err × Bool
  | 0, _, err => (err, false)
  | left + 1, tries, _ =>
      let err := status (rp.bind tries)
      if err ≠ Err.ok then bindLoop rp left (tries + 1) err else (err, true)

/-- The body of the loop over the addresses; whether it ends the loop. -/
def tryAddress (rp : Candidate) (s : Locals) : Bool × Locals :=
  let s := socketInit rp s
  if s.err ≠ Err.ok then (false, s)
  else
    match s.fd with
    | none => (false, s)
    | some fd =>
        let s := { s with err := status rp.nopush }
        if s.err ≠ Err.ok then (false, s.call (.close fd))
        else
          let s := { s with err := status rp.nonblocking }
          if s.err ≠ Err.ok then (false, s.call (.close fd))
          else
            let (err, done) := bindLoop rp maxBindAttempts 0 s.err
            let s := { s with err := err }
            if done then (true, s.call (.bind fd rp.addr)) else (false, s.call (.close fd))

def tryAddresses : List Candidate → Locals → Bool × Locals
  | [], s => (false, s)
  | rp :: rest, s =>
      let (found, s) := tryAddress rp s
      if found then (true, s) else tryAddresses rest s

def bindFailed (listener : Listener) (s : Locals) : Err × Listener × List Syscall :=
  match s.fd with
  | none => (s.err, listener, s.calls)
  | some fd => (s.err, listener, (s.call (.close fd)).calls)

def Listener.hints (listener : Listener) : Hints :=
  ⟨aiPassive, listener.sockaddr.family, sockStream, ipprotoTcp⟩

/-- `fpx_listener_bind`, with the value its local `err` happens to have at first. -/
def listenerBind (os : NetOs) (junk : Err) (listener : Listener) :
    Err × Listener × List Syscall :=
  match os.getaddrinfo listener.textAddr listener.textPort listener.hints with
  | .error errno => bindFailed listener ⟨none, errno, []⟩
  | .ok result =>
      let (found, s) := tryAddresses result ⟨none, junk, []⟩
      if !found then bindFailed listener s
      else
        match os.getsockname s.fd with
        | .error e => bindFailed listener { s with err := e.code }
        | .ok sockaddr => (Err.ok, { listener with sockaddr, fd := s.fd }, s.calls)

def listenerClose (listener : Listener) : Listener × List Syscall :=
  match listener.fd with
  | none => (listener, [])
  | some fd => ({ listener with fd := none }, [.close fd])

/-! ## What becomes of the descriptors -/

/-- On success one of the descriptors that were opened is open and bound, and it is the
listener's; otherwise none is open. All others were closed once. -/
structure Accounts (out : Err × Listener × List Syscall) : Prop where
  ok : out.1 = Err.ok → ∃ fd, Leaves (out.2.2.map Syscall.op) fd ∧ out.2.1.fd = some fd
  failed : out.1 ≠ Err.ok → Returned (out.2.2.map Syscall.op)

def Candidate.Available (rp : Candidate) : Prop :=
  (∃ fd, rp.socket = .ok fd) ∧ rp.nopush = none ∧ rp.nonblocking = none ∧
    ∃ tries < maxBindAttempts, rp.bind tries = none

def Candidate.Refused (rp : Candidate) : Prop := ∃ e, rp.socket = .error e

theorem Candidate.Available.not_refused {rp : Candidate} (h : rp.Available) : ¬ rp.Refused := by
  obtain ⟨⟨fd, hfd⟩, -⟩ := h
  rintro ⟨e, he⟩
  rw [hfd] at he
  cases he

def Locals.ops (s : Locals) : List (Op Nat) := s.calls.map Syscall.op

/-- Where the loop over the addresses is: an address was bound, there was no socket for any,
or all descriptors have been closed again and the last one is still in `fd`. -/
inductive Tried (result : List Candidate) (s : Locals) : Bool × Locals → Prop where
  | bound {s' : Locals} {fd : Nat} (havailable : ∃ rp ∈ result, rp.Available)
      (hfd : s'.fd = some fd) (hleaves : Leaves s'.ops fd) : Tried result s (true, s')
  | refused {s' : Locals} (hrefused : ∀ rp ∈ result, rp.Refused) (hfd : s'.fd = s.fd)
      (hcalls : s'.calls = s.calls) (hjunk : result = [] → s'.err = s.err)
      (herr : result ≠ [] → s'.err ≠ Err.ok) : Tried result s (false, s')
  | closed {s' : Locals} {fd : Nat} (havailable : ¬ ∃ rp ∈ result, rp.Available)
      (hrefused : ¬ ∀ rp ∈ result, rp.Refused) (hfd : s'.fd = some fd)
      (hreturned : Returned s'.ops) : Tried result s (false, s')

variable {rp : Candidate} {result rest : List Candidate} {s s' : Locals} {os : NetOs} {junk : Err}
  {listener : Listener} {fd : Nat}

theorem Locals.ops_call (s : Locals) (c : Syscall) : (s.call c).ops = s.ops ++ [c.op] :=
  List.map_append

/-! ## The loop over the attempts -/

theorem bindLoop_done {left tries : Nat} {err : Err}
    (h : ∃ k < left, rp.bind (tries + k) = none) : bindLoop rp left tries err = (Err.ok, true) := by
  induction left generalizing tries err with
  | zero =>
      obtain ⟨k, hk, -⟩ := h
      exact absurd hk (Nat.not_lt_zero k)
  | succ left ih =>
      cases hbind : rp.bind tries with
      | none => simp only [bindLoop, hbind, status, ne_eq, not_true_eq_false, if_false]
      | some e =>
          simp only [bindLoop, hbind, status, ne_eq, e.code_ne_ok, not_false_eq_true, if_true]
          obtain ⟨k, hk, hnone⟩ := h
          cases k with
          | zero =>
              rw [Nat.add_zero, hbind] at hnone
              cases hnone
          | succ k =>
              refine ih ⟨k, by omega, ?_⟩
              rwa [Nat.add_right_comm]

theorem bindLoop_failed {left tries : Nat} {err : Err}
    (h : ∀ k < left, rp.bind (tries + k) ≠ none) : (bindLoop rp left tries err).2 = false := by
  induction left generalizing tries err with
  | zero => rfl
  | succ left ih =>
      obtain ⟨e, hbind⟩ := Option.ne_none_iff_exists'.mp (h 0 (Nat.succ_pos left))
      rw [Nat.add_zero] at hbind
      simp only [bindLoop, hbind, status, ne_eq, e.code_ne_ok, not_false_eq_true, if_true]
      apply ih
      intro k hk
      have hnext := h (k + 1) (by omega)
      rwa [← Nat.add_assoc, Nat.add_right_comm] at hnext

/-! ## The loop over the addresses -/

theorem tried_closed (hfd : rp.socket = .ok fd) (hbusy : ¬ rp.Available)
    (hs : Returned s.ops) (err : Err) :
    Tried [rp] s (false, ({ s with fd := some fd, err := err }.call
      (.socket fd rp.family rp.socktype rp.protocol)).call (.close fd)) := by
  refine .closed ?_ ?_ rfl ?_
  · simpa using hbusy
  · rintro h
    obtain ⟨e, he⟩ := h rp (List.mem_singleton_self rp)
    rw [hfd] at he
    cases he
  · rw [Locals.ops_call, Locals.ops_call, List.append_assoc]
    exact hs.opened_closed fd

theorem tryAddress_tried (rp : Candidate) (hs : Returned s.ops) :
    Tried [rp] s (tryAddress rp s) := by
  unfold tryAddress socketInit
  cases hsocket : rp.socket with
  | error e =>
      simp only [ne_eq, e.code_ne_ok, not_false_eq_true, if_true]
      refine .refused ?_ rfl rfl (fun h => absurd h (List.cons_ne_nil _ _)) fun _ => e.code_ne_ok
      exact List.forall_mem_singleton.mpr ⟨e, hsocket⟩
  | ok fd =>
      simp only [Locals.call, ne_eq, not_true_eq_false, if_false]
      cases hnopush : rp.nopush with
      | some e =>
          simp only [status, e.code_ne_ok, not_false_eq_true, if_true]
          exact tried_closed hsocket (fun h => by simp [h.2.1] at hnopush) hs e.code
      | none =>
          simp only [status, not_true_eq_false, if_false]
          cases hnonblocking : rp.nonblocking with
          | some e =>
              simp only [e.code_ne_ok, not_false_eq_true, if_true]
              exact tried_closed hsocket (fun h => by simp [h.2.2.1] at hnonblocking) hs e.code
          | none =>
              simp only [not_true_eq_false, if_false]
              by_cases hbind : ∃ tries < maxBindAttempts, rp.bind tries = none
              · have hdone : bindLoop rp maxBindAttempts 0 Err.ok = (Err.ok, true) :=
                  bindLoop_done (by simpa only [Nat.zero_add] using hbind)
                simp only [hdone, if_true]
                refine .bound ⟨rp, List.mem_singleton_self rp, ⟨fd, hsocket⟩, hnopush,
                  hnonblocking, hbind⟩ rfl ?_
                have hleaves := hs.leaves fd
                simpa [Locals.ops, Syscall.op] using hleaves
              · have hfailed : (bindLoop rp maxBindAttempts 0 Err.ok).2 = false :=
                  bindLoop_failed fun k hk hnone =>
                    hbind ⟨k, hk, by simpa only [Nat.zero_add] using hnone⟩
                simp only [hfailed, Bool.false_eq_true, if_false]
                exact tried_closed hsocket (fun h => hbind h.2.2.2) hs _

/-- There was no socket for the first address. -/
theorem Tried.after_refused {s₁ : Locals} {out : Bool × Locals} (hrefused : rp.Refused)
    (hfd : s₁.fd = s.fd) (hcalls : s₁.calls = s.calls) (herr : s₁.err ≠ Err.ok)
    (hrest : Tried rest s₁ out) : Tried (rp :: rest) s out := by
  cases hrest with
  | bound havailable hfd' hleaves =>
      obtain ⟨rp', hrp', h⟩ := havailable
      exact .bound ⟨rp', List.mem_cons_of_mem rp hrp', h⟩ hfd' hleaves
  | refused hrefused' hfd' hcalls' hjunk' herr' =>
      refine .refused (List.forall_mem_cons.mpr ⟨hrefused, hrefused'⟩) (hfd'.trans hfd)
        (hcalls'.trans hcalls) (fun h => absurd h (List.cons_ne_nil _ _)) fun _ => ?_
      cases rest with
      | nil => exact hjunk' rfl ▸ herr
      | cons _ _ => exact herr' (List.cons_ne_nil _ _)
  | closed havailable hrefused' hfd' hreturned =>
      refine .closed ?_ (fun h => hrefused' (List.forall_mem_cons.mp h).2) hfd' hreturned
      rintro ⟨rp', hrp', h⟩
      rcases List.mem_cons.mp hrp' with rfl | hrp'
      · exact h.not_refused hrefused
      · exact havailable ⟨rp', hrp', h⟩

theorem Tried.after_closed {s₁ : Locals} {out : Bool × Locals} (hbusy : ¬ rp.Available)
    (hopened : ¬ rp.Refused) (hfd : s₁.fd = some fd) (hreturned : Returned s₁.ops)
    (hrest : Tried rest s₁ out) : Tried (rp :: rest) s out := by
  have hnone (h : ¬ ∃ rp ∈ rest, rp.Available) : ¬ ∃ rp' ∈ rp :: rest, rp'.Available := by
    rintro ⟨rp', hrp', hav⟩
    rcases List.mem_cons.mp hrp' with rfl | hrp'
    · exact hbusy hav
    · exact h ⟨rp', hrp', hav⟩
  have hsome : ¬ ∀ rp' ∈ rp :: rest, rp'.Refused := fun h => hopened (h rp (List.mem_cons_self ..))
  cases hrest with
  | bound havailable hfd' hleaves =>
      obtain ⟨rp', hrp', h⟩ := havailable
      exact .bound ⟨rp', List.mem_cons_of_mem rp hrp', h⟩ hfd' hleaves
  | @refused s₂ hrefused' hfd' hcalls' hjunk' herr' =>
      have hops : s₂.ops = s₁.ops := congrArg (List.map Syscall.op) hcalls'
      refine .closed (hnone ?_) hsome (hfd'.trans hfd) (hops ▸ hreturned)
      rintro ⟨rp', hrp', h⟩
      exact h.not_refused (hrefused' rp' hrp')
  | closed havailable' hrefused' hfd' hreturned' =>
      exact .closed (hnone havailable') hsome hfd' hreturned'

theorem tryAddresses_tried (result : List Candidate) (hs : Returned s.ops) :
    Tried result s (tryAddresses result s) := by
  induction result generalizing s with
  | nil => exact .refused (by simp) rfl rfl (fun _ => rfl) (fun h => absurd rfl h)
  | cons rp rest ih =>
      unfold tryAddresses
      generalize htry : tryAddress rp s = out
      have hfirst := tryAddress_tried rp hs
      rw [htry] at hfirst
      cases hfirst with
      | bound havailable hfd hleaves =>
          obtain ⟨rp', hrp', h⟩ := havailable
          cases List.mem_singleton.mp hrp'
          exact .bound ⟨rp, List.mem_cons_self .., h⟩ hfd hleaves
      | @refused s₁ hrefused hfd hcalls hjunk herr =>
          have hops : s₁.ops = s.ops := congrArg (List.map Syscall.op) hcalls
          simp only [Bool.false_eq_true, if_false]
          exact (ih (hops ▸ hs)).after_refused (hrefused rp (List.mem_singleton_self rp)) hfd
            hcalls (herr (List.cons_ne_nil _ _))
      | @closed s₁ fd havailable hrefused hfd hreturned =>
          simp only [Bool.false_eq_true, if_false]
          exact (ih hreturned).after_closed
            (fun h => havailable ⟨rp, List.mem_singleton_self rp, h⟩)
            (fun h => hrefused (List.forall_mem_singleton.mpr h)) hfd hreturned

/-! ## The whole function -/

/-- `getaddrinfo` fails and says so in `errno`; or one of its addresses can be bound; or there
is no socket for any of them, and where there is no address `err` holds an error. -/
def ClosesOnce (os : NetOs) (junk : Err) (listener : Listener) : Prop :=
  match os.getaddrinfo listener.textAddr listener.textPort listener.hints with
  | .error errno => errno ≠ Err.ok
  | .ok result => (∃ rp ∈ result, rp.Available) ∨
      (∀ rp ∈ result, rp.Refused) ∧ (result = [] → junk ≠ Err.ok)

theorem bindFailed_none (h : s.fd = none) :
    bindFailed listener s = (s.err, listener, s.calls) := by
  simp only [bindFailed, h]

theorem bindFailed_some (h : s.fd = some fd) :
    bindFailed listener s = (s.err, listener, (s.call (.close fd)).calls) := by
  simp only [bindFailed, h]

/-- Without a descriptor in `fd` the status decides. -/
theorem bindFailed_none_iff (hfd : s.fd = none) (hcalls : s.calls = []) :
    Accounts (bindFailed listener s) ↔ s.err ≠ Err.ok := by
  rw [bindFailed_none hfd, hcalls]
  constructor
  · intro h herr
    obtain ⟨fd, hleaves, -⟩ := h.ok herr
    exact hleaves.not_returned returned_nil
  · exact fun herr => ⟨fun hok => absurd hok herr, fun _ => returned_nil⟩

/-- The descriptor of the last address is closed a second time. -/
theorem bindFailed_closed (hfd : s.fd = some fd) (hreturned : Returned s.ops) :
    ¬ Accounts (bindFailed listener s) := by
  rw [bindFailed_some hfd]
  have hagain : run use Table.empty ((s.call (.close fd)).calls.map Syscall.op) = none := by
    rw [Locals.call, List.map_append]
    exact hreturned.closed_again fd
  intro h
  by_cases herr : s.err = Err.ok
  · obtain ⟨fd', hleaves, -⟩ := h.ok herr
    exact absurd (hagain.symm.trans hleaves) (by simp)
  · exact absurd (hagain.symm.trans (h.failed herr)) (by simp)

/-- The descriptor of the address that was bound is closed once. -/
theorem bindFailed_bound (hfd : s.fd = some fd) (hleaves : Leaves s.ops fd) (e : Errno) :
    Accounts (bindFailed listener { s with err := e.code }) := by
  have hfd' : ({ s with err := e.code } : Locals).fd = some fd := hfd
  rw [bindFailed_some hfd']
  refine ⟨fun hok => absurd hok e.code_ne_ok, fun _ => ?_⟩
  rw [Locals.call, List.map_append]
  exact hleaves.closed

theorem listenerBind_eq {found : Bool}
    (hresult : os.getaddrinfo listener.textAddr listener.textPort listener.hints = .ok result)
    (htry : tryAddresses result ⟨none, junk, []⟩ = (found, s)) :
    listenerBind os junk listener =
      if !found then bindFailed listener s
      else
        match os.getsockname s.fd with
        | .error e => bindFailed listener { s with err := e.code }
        | .ok sockaddr => (Err.ok, { listener with sockaddr, fd := s.fd }, s.calls) := by
  simp only [listenerBind, hresult, htry]

theorem listenerClose_returned {out : Err × Listener × List Syscall} (h : Accounts out)
    (hok : out.1 = Err.ok) :
    Returned ((out.2.2 ++ (listenerClose out.2.1).2).map Syscall.op) ∧
      (listenerClose out.2.1).1.fd = none := by
  obtain ⟨fd, hleaves, hfd⟩ := h.ok hok
  simp only [listenerClose, hfd, List.map_append]
  exact ⟨hleaves.closed, trivial⟩

/-- `fpx_listener_bind` accounts for its descriptors exactly when a failure of `getaddrinfo`
leaves an error in `errno`, or one of the addresses can be bound, or there is no socket for
any of them. -/
theorem listenerBind_accounts_iff (os : NetOs) (junk : Err) (listener : Listener) :
    Accounts (listenerBind os junk listener) ↔ ClosesOnce os junk listener := by
  unfold ClosesOnce
  cases hresult : os.getaddrinfo listener.textAddr listener.textPort listener.hints with
  | error errno =>
      simp only [listenerBind, hresult]
      exact bindFailed_none_iff rfl rfl
  | ok result =>
      have htried : Tried result ⟨none, junk, []⟩ (tryAddresses result ⟨none, junk, []⟩) :=
        tryAddresses_tried result returned_nil
      generalize htry : tryAddresses result ⟨none, junk, []⟩ = out at htried
      cases htried with
      | @bound s fd havailable hfd hleaves =>
          rw [listenerBind_eq hresult htry]
          refine iff_of_true ?_ (Or.inl havailable)
          cases hname : os.getsockname s.fd with
          | error e => exact bindFailed_bound hfd hleaves e
          | ok sockaddr => exact ⟨fun _ => ⟨fd, hleaves, hfd⟩, fun hne => absurd rfl hne⟩
      | @refused s hrefused hfd hcalls hjunk herr =>
          rw [listenerBind_eq hresult htry]
          apply (bindFailed_none_iff hfd hcalls).trans
          have hnone : ¬ ∃ rp ∈ result, rp.Available := by
            rintro ⟨rp, hrp, h⟩
            exact h.not_refused (hrefused rp hrp)
          refine Iff.trans ?_ (or_iff_right hnone).symm
          rw [and_iff_right hrefused]
          by_cases hnil : result = []
          · rw [hjunk hnil]
            exact ⟨fun h _ => h, fun h => h hnil⟩
          · exact iff_of_true (herr hnil) fun h => absurd h hnil
      | closed havailable hrefused hfd hreturned =>
          rw [listenerBind_eq hresult htry]
          apply iff_of_false (bindFailed_closed hfd hreturned)
          rintro (h | ⟨h, -⟩)
          · exact havailable h
          · exact hrefused h

def busyAddress : Candidate where
  family := 2
  socktype := sockStream
  protocol := ipprotoTcp
  addr := ascii "127.0.0.1"
  socket := .ok 3
  nopush := none
  nonblocking := none
  bind _ := some ⟨98, by decide⟩

def busyOs : NetOs := ⟨fun _ _ _ => .ok [busyAddress], fun _ => .ok ⟨2, []⟩⟩

def unknownHost : NetOs := ⟨fun _ _ _ => .error Err.ok, fun _ => .ok ⟨2, []⟩⟩

def localListener : Listener where
  textAddr := ascii "127.0.0.1"
  textPort := ascii "80"
  fd := none
  sockaddr := ⟨2, []⟩

/-- The socket of an address that is in use is closed twice; and a listener whose address is
unknown is bound, with nothing to listen on. -/
theorem descriptor_closed_twice :
    ((listenerBind busyOs Err.ok localListener).1 = 98 ∧
      (listenerBind busyOs Err.ok localListener).2.2 =
        [.socket 3 2 sockStream ipprotoTcp, .close 3, .close 3] ∧
      ¬ Accounts (listenerBind busyOs Err.ok localListener)) ∧
    listenerBind unknownHost Err.failed localListener = (Err.ok, localListener, []) ∧
      ¬ Accounts (listenerBind unknownHost Err.failed localListener) := by
  refine ⟨⟨rfl, rfl, fun h => ?_⟩, rfl, fun h => ?_⟩
  · have hagain := (returned_nil.opened_closed 3).closed_again 3
    cases hagain.symm.trans (h.failed (by decide))
  · obtain ⟨fd, -, hfd⟩ := h.ok rfl
    cases hfd

end Floppix.Listening
