import Floppix.Lib.Transition

/-! # Bounded broadcast channels

A channel holds the messages that have been sent and not yet given up. The oldest
one is handed to the readers in turn and given up when all of them have it, so
what the readers got is a function of what was sent and of where the channel is.
-/

namespace Broadcast

open Transition

variable {M O : Type*}

structure Channel (M O : Type*) where
  queue : List M
  /-- How many readers have been handed the oldest message. -/
  next : Nat
  out : List O

def Channel.empty : Channel M O := ⟨[], 0, []⟩

inductive Action (M : Type*) where
  | send (m : M)
  | hand
  | drop
deriving DecidableEq

/-- Sending needs room, handing a message and a reader without it, giving up a message
that every reader has. -/
def step (capacity readers : Nat) (render : Nat → M → O) (ch : Channel M O) :
    Action M → Option (Channel M O)
  | .send m =>
      if ch.queue.length < capacity then some { ch with queue := ch.queue ++ [m] } else none
  | .hand =>
      match ch.queue with
      | [] => none
      | m :: _ =>
          if ch.next < readers then
            some { ch with next := ch.next + 1, out := ch.out ++ [render ch.next m] }
          else none
  | .drop =>
      match ch.queue with
      | [] => none
      | _ :: rest => if ch.next = readers then some { ch with queue := rest, next := 0 } else none

def Action.sent : Action M → Option M
  | .send m => some m
  | _ => none

def sends (as : List (Action M)) : List M := as.filterMap Action.sent

def handAll (readers : Nat) (render : Nat → M → O) (m : M) : List O :=
  (List.range readers).map fun j => render j m

/-- The channel after the given messages have been sent: the first of them were handed to
every reader, the next one to the first few, and the rest waits. -/
structure After (capacity readers : Nat) (render : Nat → M → O) (sent : List M)
    (ch : Channel M O) : Prop where
  bounded : ch.queue.length ≤ capacity
  next : ch.next ≤ readers
  idle : ch.queue = [] → ch.next = 0
  split : ∃ done, sent = done ++ ch.queue ∧
    ch.out = done.flatMap (handAll readers render) ++
      ch.queue.head?.elim [] (handAll ch.next render)

variable {capacity readers : Nat} {render : Nat → M → O} {sent : List M} {ch ch' : Channel M O}

theorem after_empty : After capacity readers render [] (Channel.empty : Channel M O) :=
  ⟨Nat.zero_le _, Nat.zero_le _, fun _ => rfl, [], rfl, rfl⟩

theorem after_send {m : M} (h : After capacity readers render sent ch)
    (hs : step capacity readers render ch (.send m) = some ch') :
    After capacity readers render (sent ++ [m]) ch' := by
  rw [step] at hs
  split at hs
  · rename_i hroom
    cases hs
    obtain ⟨done, hsent, hout⟩ := h.split
    refine ⟨?_, h.next, ?_, done, ?_, ?_⟩
    · rw [List.length_append]
      exact hroom
    · intro hnil
      exact absurd hnil (List.append_ne_nil_of_right_ne_nil _ (List.cons_ne_nil m []))
    · rw [hsent, List.append_assoc]
    · rw [hout]
      cases hq : ch.queue with
      | nil =>
          -- nothing has been handed of a message that was not there
          have hzero : ch.next = 0 := h.idle hq
          simp [handAll, hzero]
      | cons m' rest => rfl
  · cases hs

theorem after_hand (h : After capacity readers render sent ch)
    (hs : step capacity readers render ch .hand = some ch') :
    After capacity readers render sent ch' := by
  rw [step] at hs
  cases hq : ch.queue with
  | nil =>
      rw [hq] at hs
      cases hs
  | cons m rest =>
      rw [hq] at hs
      obtain ⟨done, hsent, hout⟩ := h.split
      have hbound := h.bounded
      rw [hq] at hsent hout hbound
      by_cases hlt : ch.next < readers
      · simp only [if_pos hlt, Option.some.injEq] at hs
        subst hs
        have hmore : handAll (ch.next + 1) render m =
            handAll ch.next render m ++ [render ch.next m] := by
          simp [handAll, List.range_succ]
        refine ⟨hbound, hlt, fun hnil => absurd hnil (List.cons_ne_nil m rest), done, hsent, ?_⟩
        show ch.out ++ [render ch.next m] = _
        simp only [hout, List.head?_cons, Option.elim_some, hmore, List.append_assoc]
      · simp only [if_neg hlt, reduceCtorEq] at hs

theorem after_drop (h : After capacity readers render sent ch)
    (hs : step capacity readers render ch .drop = some ch') :
    After capacity readers render sent ch' := by
  rw [step] at hs
  cases hq : ch.queue with
  | nil =>
      rw [hq] at hs
      cases hs
  | cons m rest =>
      rw [hq] at hs
      obtain ⟨done, hsent, hout⟩ := h.split
      have hbound := h.bounded
      rw [hq] at hsent hout hbound
      by_cases hall : ch.next = readers
      · simp only [if_pos hall, Option.some.injEq] at hs
        subst hs
        refine ⟨Nat.le_of_succ_le hbound, Nat.zero_le _, fun _ => rfl, done ++ [m], ?_, ?_⟩
        · rw [hsent, List.append_assoc]
          rfl
        · have hnone : rest.head?.elim [] (handAll 0 render) = [] := by
            cases rest <;> rfl
          rw [hnone, hout, hall, List.flatMap_append, List.flatMap_singleton, List.append_nil]
          rfl
      · simp only [if_neg hall, reduceCtorEq] at hs

/-- What the readers of a channel have got after any run is fixed by what was sent. -/
theorem after_run {as : List (Action M)}
    (h : run (step capacity readers render) ch as = some ch')
    (hch : After capacity readers render sent ch) :
    After capacity readers render (sent ++ sends as) ch' := by
  induction as generalizing ch sent with
  | nil =>
      cases h
      rwa [sends, List.filterMap_nil, List.append_nil]
  | cons a as ih =>
      obtain ⟨m, hm, hrest⟩ := run_cons_some h
      cases a with
      | send c =>
          have hnext := ih hrest (after_send hch hm)
          rwa [List.append_assoc] at hnext
      | hand => exact ih hrest (after_hand hch hm)
      | drop => exact ih hrest (after_drop hch hm)

end Broadcast
