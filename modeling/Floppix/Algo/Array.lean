import Floppix.Lib.Transition
import Floppix.System.Errno
import Floppix.Util.Bytes
import Mathlib.Algebra.GroupWithZero.Nat

/-! # Arrays

`fpx_array_t` is meant for a bounded vector: a buffer from a pool, the size of an element, and
how many of the elements that fit are there. `fpx_array_push` counts up the size of the element
in place of their number, and `fpx_array_clear` gives the buffer away.
-/

namespace Floppix.Arrays

open Transition

/-- `fpx_array_t`. The data pointer is a position in the buffer, or `NULL`. -/
structure ArrayHeader where
  data : Option Nat
  size : Nat
  nTotal : Nat
  nCurrent : Nat

inductive Fault
  /-- a write through `NULL` -/
  | nullWrite
  /-- a read behind the argument -/
  | overread
  /-- a write behind the buffer -/
  | overrun
deriving DecidableEq, Repr

/-- A push: what it returns, how many bytes of its argument it reads, and what is then in the
array and in the buffer. -/
structure Pushed where
  status : Err
  read : Nat
  array : ArrayHeader
  buffer : Bytes

/-! ## The functions -/

/-- `fpx_array_init`, when both allocations succeed: the array, and the buffer of zeros. -/
def arrayInit (sizeMax size n : Nat) : ArrayHeader × Bytes :=
  (⟨some 0, size, n, 0⟩, List.replicate (size * n % sizeMax) 0)

/-- `fpx_memmove` of so many bytes to a position in the buffer. -/
def memmove (buffer : Bytes) (mem : Option Nat) (data : Bytes) (size : Nat) :
    Except Fault Bytes :=
  match mem with
  | none => .error .nullWrite
  | some pos =>
      if data.length < size then .error .overread
      else if buffer.length < pos + size then .error .overrun
      else .ok (buffer.take pos ++ data.take size ++ buffer.drop (pos + size))

/-- `fpx_array_push`. The argument is what can be read where its pointer leads. -/
def arrayPush (sizeMax : Nat) (array : ArrayHeader) (buffer data : Bytes) :
    Except Fault Pushed :=
  if array.nTotal ≤ array.nCurrent then .ok ⟨Err.failed, 0, array, buffer⟩
  else do
    let mem := array.data.map fun pos => pos + array.nCurrent * array.size % sizeMax
    let buffer ← memmove buffer mem data array.size
    .ok ⟨Err.ok, array.size, { array with size := (array.size + 1) % sizeMax }, buffer⟩

def arrayClear (array : ArrayHeader) : ArrayHeader := { array with nCurrent := 0, data := none }

/-! ## Runs -/

inductive Call
  | push (data : Bytes)
  | clear

/-- An array, its buffer, and the number of elements that were pushed since the last clear. -/
structure World where
  array : ArrayHeader
  buffer : Bytes
  pushed : Nat

def World.start (sizeMax size n : Nat) : World :=
  ⟨(arrayInit sizeMax size n).1, (arrayInit sizeMax size n).2, 0⟩

def step (sizeMax : Nat) (w : World) : Call → Option World
  | .push data =>
      match arrayPush sizeMax w.array w.buffer data with
      | .ok p => some ⟨p.array, p.buffer, if p.status = Err.ok then w.pushed + 1 else w.pushed⟩
      | .error _ => none
  | .clear => some ⟨arrayClear w.array, w.buffer, 0⟩

/-- The push of a vector of at most `n` elements of the given size, `k` of which are there: it
stores the element behind them, or finds the vector full. -/
structure PushesBounded (sizeMax size n : Nat) (w : World) (data : Bytes) : Prop where
  space : w.pushed < n → ∃ p, arrayPush sizeMax w.array w.buffer data = .ok p ∧
    p.status = Err.ok ∧ p.read = size ∧ p.buffer.length = w.buffer.length ∧
    (p.buffer.drop (w.pushed * size)).take size = data.take size ∧
    p.buffer.take (w.pushed * size) = w.buffer.take (w.pushed * size)
  full : n ≤ w.pushed →
    arrayPush sizeMax w.array w.buffer data = .ok ⟨Err.failed, 0, w.array, w.buffer⟩

def Bounded (sizeMax size n : Nat) (w : World) : Call → Prop
  | .push data => PushesBounded sizeMax size n w data
  | .clear => True

variable {sizeMax size n : Nat} {w : World} {data : Bytes} {cs : List Call}

/-! ## Pushing -/

theorem arrayPush_full (h : w.array.nTotal ≤ w.array.nCurrent) :
    arrayPush sizeMax w.array w.buffer data = .ok ⟨Err.failed, 0, w.array, w.buffer⟩ :=
  if_pos h

/-- A push that finds space reads as many bytes as the size of an element says. -/
theorem arrayPush_ok {p : Pushed} (h : w.array.nCurrent < w.array.nTotal)
    (hok : arrayPush sizeMax w.array w.buffer data = .ok p) :
    p.status = Err.ok ∧ p.read = w.array.size ∧ w.array.data ≠ none := by
  rw [arrayPush, if_neg (Nat.not_le.mpr h)] at hok
  cases hdata : w.array.data with
  | none =>
      rw [hdata] at hok
      cases hok
  | some pos =>
      rw [hdata] at hok
      dsimp only at hok
      cases hmove : memmove w.buffer (some (pos + w.array.nCurrent * w.array.size % sizeMax)) data
          w.array.size with
      | error e =>
          rw [Option.map_some, hmove] at hok
          cases hok
      | ok buffer =>
          rw [Option.map_some, hmove] at hok
          cases hok
          exact ⟨rfl, rfl, Option.some_ne_none pos⟩

/-- The array looks as if it had space, but cannot take an element. -/
structure Spent (size n : Nat) (w : World) : Prop where
  space : w.array.nCurrent < w.array.nTotal
  lost : w.array.data = none ∨ n ≤ w.pushed ∨ w.array.size ≠ size

theorem Spent.not_bounded (h : Spent size n w) : ¬ PushesBounded sizeMax size n w data := by
  intro hbounded
  by_cases hspace : w.pushed < n
  · obtain ⟨p, hok, -, hread, -⟩ := hbounded.space hspace
    obtain ⟨-, hsize, hdata⟩ := arrayPush_ok h.space hok
    obtain hnull | hfull | hne := h.lost
    · exact hdata hnull
    · omega
    · exact hne (hsize.symm.trans hread)
  · have hok := hbounded.full (Nat.not_lt.mp hspace)
    have hstatus := (arrayPush_ok h.space hok).1
    exact absurd hstatus Err.failed_ne_ok

theorem Spent.meets_iff (h : Spent size n w) (sizeMax : Nat) (cs : List Call) :
    Meets (step sizeMax) (Bounded sizeMax size n) w cs ↔ ∀ c ∈ cs, c = .clear := by
  induction cs generalizing w with
  | nil => exact ⟨fun _ c hc => absurd hc List.not_mem_nil, fun _ => trivial⟩
  | cons c cs ih =>
      rw [List.forall_mem_cons]
      cases c with
      | push data =>
          constructor
          · exact fun hmeets => absurd hmeets.1 h.not_bounded
          · exact fun hall => absurd hall.1 (by simp)
      | clear =>
          have hcleared : Spent size n ⟨arrayClear w.array, w.buffer, 0⟩ :=
            ⟨Nat.zero_lt_of_lt h.space, Or.inl rfl⟩
          constructor
          · exact fun hmeets => ⟨rfl, (ih hcleared).mp (hmeets.2 _ rfl)⟩
          · exact fun hall => Meets.cons trivial rfl ((ih hcleared).mpr hall.2)

/-! ## The first call -/

theorem meets_of_empty (h : w.array.nTotal = 0) :
    Meets (step sizeMax) (Bounded sizeMax size 0) w cs := by
  refine meets_of_invariant (I := fun w : World => w.array.nTotal = 0) ?_ ?_ cs h
  · intro w c w' hstep h
    cases c with
    | push data =>
        rw [step, arrayPush_full (by omega)] at hstep
        cases hstep
        exact h
    | clear =>
        cases hstep
        exact h
  · intro w c h
    cases c with
    | push data => exact ⟨fun hspace => absurd hspace (Nat.not_lt_zero _),
        fun _ => arrayPush_full (by omega)⟩
    | clear => trivial

/-- The first push stores its element, and counts up the size of an element. -/
theorem start_push (hn : 0 < n) (hfits : size * n < sizeMax) (hdata : size ≤ data.length) :
    arrayPush sizeMax (World.start sizeMax size n).array (World.start sizeMax size n).buffer data =
      .ok ⟨Err.ok, size, ⟨some 0, (size + 1) % sizeMax, n, 0⟩,
        data.take size ++ (List.replicate (size * n) 0).drop size⟩ := by
  have hle : size ≤ size * n := Nat.le_mul_of_pos_right size hn
  have hmove : memmove (List.replicate (size * n) 0) (some 0) data size =
      .ok (data.take size ++ (List.replicate (size * n) 0).drop size) := by
    rw [memmove, if_neg (Nat.not_lt.mpr hdata), if_neg, Nat.zero_add, List.take_zero,
      List.nil_append]
    rw [List.length_replicate]
    omega
  rw [arrayPush, World.start, arrayInit, Nat.mod_eq_of_lt hfits, if_neg (Nat.not_le.mpr hn)]
  dsimp only
  rw [Nat.zero_mul, Nat.zero_mod, Option.map_some, hmove]
  rfl

theorem start_pushesBounded (hn : 0 < n) (hfits : size * n < sizeMax)
    (hdata : size ≤ data.length) :
    PushesBounded sizeMax size n (World.start sizeMax size n) data where
  space _ := by
    have hle : size ≤ size * n := Nat.le_mul_of_pos_right size hn
    refine ⟨_, start_push hn hfits hdata, rfl, rfl, ?_, ?_, ?_⟩
    · simp only [World.start, arrayInit, Nat.mod_eq_of_lt hfits, List.length_append,
        List.length_take, List.length_drop, List.length_replicate]
      omega
    · rw [show (World.start sizeMax size n).pushed = 0 from rfl, Nat.zero_mul, List.drop_zero,
        List.take_append_of_le_length (by rw [List.length_take]; omega), List.take_take,
        Nat.min_self]
    · rw [show (World.start sizeMax size n).pushed = 0 from rfl, Nat.zero_mul, List.take_zero,
        List.take_zero]
  full h := absurd hn (Nat.not_lt.mpr h)

def World.second (sizeMax size n : Nat) (data : Bytes) : World :=
  ⟨⟨some 0, (size + 1) % sizeMax, n, 0⟩,
    data.take size ++ (List.replicate (size * n) 0).drop size, 1⟩

theorem start_step (hn : 0 < n) (hfits : size * n < sizeMax) (hdata : size ≤ data.length) :
    step sizeMax (World.start sizeMax size n) (.push data) =
      some (World.second sizeMax size n data) := by
  rw [step, start_push hn hfits hdata]
  rfl

theorem spent_of_start (hn : 0 < n) (hsize : 1 ≤ size) (hfits : size * n < sizeMax)
    (data : Bytes) : Spent size n (World.second sizeMax size n data) where
  space := hn
  lost := by
    by_cases hone : n ≤ 1
    · exact Or.inr (Or.inl hone)
    · -- the size of an element has changed, and has not wrapped
      have hdouble : size * 2 ≤ size * n := Nat.mul_le_mul_left size (by omega)
      refine Or.inr (Or.inr ?_)
      show (size + 1) % sizeMax ≠ size
      rw [Nat.mod_eq_of_lt (by omega)]
      omega

/-- For every sequence of calls on an array from `fpx_array_init` each push is that of a bounded
vector, exactly if the array has no elements or no push is behind another call. -/
theorem array_bounded_iff (sizeMax size n : Nat) (hsize : 1 ≤ size) (hfits : size * n < sizeMax)
    (cs : List Call) (hdata : ∀ data, Call.push data ∈ cs → size ≤ data.length) :
    Meets (step sizeMax) (Bounded sizeMax size n) (World.start sizeMax size n) cs ↔
      n = 0 ∨ ∀ c ∈ cs.tail, c = .clear := by
  obtain rfl | hn := Nat.eq_zero_or_pos n
  · exact ⟨fun _ => Or.inl rfl, fun _ => meets_of_empty rfl⟩
  have hne : n ≠ 0 := Nat.ne_of_gt hn
  cases cs with
  | nil => exact ⟨fun _ => Or.inr (by simp), fun _ => trivial⟩
  | cons c cs =>
      rw [or_iff_right hne, List.tail_cons]
      cases c with
      | clear =>
          have hspent : Spent size n ⟨arrayClear (World.start sizeMax size n).array,
              (World.start sizeMax size n).buffer, 0⟩ := ⟨hn, Or.inl rfl⟩
          rw [← hspent.meets_iff sizeMax cs]
          exact ⟨fun hmeets => hmeets.2 _ rfl, fun hmeets => Meets.cons trivial rfl hmeets⟩
      | push data =>
          have hlength := hdata data (List.mem_cons_self ..)
          have hbounded := start_pushesBounded hn hfits hlength
          rw [← (spent_of_start hn hsize hfits data).meets_iff sizeMax cs]
          constructor
          · exact fun hmeets => hmeets.2 _ (start_step hn hfits hlength)
          · exact fun hmeets => Meets.cons hbounded (start_step hn hfits hlength) hmeets

/-- One push, and clearing afterwards. -/
theorem array_bounded_once :
    Meets (step (2 ^ 64)) (Bounded (2 ^ 64) 4 2) (World.start (2 ^ 64) 4 2)
      [.push [1, 2, 3, 4], .clear, .clear] :=
  (array_bounded_iff (2 ^ 64) 4 2 (by decide) (by decide) [.push [1, 2, 3, 4], .clear, .clear]
    (by simp)).mpr (Or.inr (by simp))

/-- The second push into an array of two elements of four bytes reads a fifth byte of its
argument, and a push behind a clear writes through `NULL`. -/
theorem array_not_bounded :
    arrayPush (2 ^ 64) (World.second (2 ^ 64) 4 2 [1, 2, 3, 4]).array
        (World.second (2 ^ 64) 4 2 [1, 2, 3, 4]).buffer [5, 6, 7, 8] = .error .overread ∧
      ¬ Meets (step (2 ^ 64)) (Bounded (2 ^ 64) 4 2) (World.start (2 ^ 64) 4 2)
        [.push [1, 2, 3, 4], .push [5, 6, 7, 8]] ∧
      arrayPush (2 ^ 64) (arrayClear (World.start (2 ^ 64) 4 2).array)
        (World.start (2 ^ 64) 4 2).buffer [1, 2, 3, 4] = .error .nullWrite ∧
      ¬ Meets (step (2 ^ 64)) (Bounded (2 ^ 64) 4 2) (World.start (2 ^ 64) 4 2)
        [.clear, .push [1, 2, 3, 4]] := by
  have hover : arrayPush (2 ^ 64) (World.second (2 ^ 64) 4 2 [1, 2, 3, 4]).array
      (World.second (2 ^ 64) 4 2 [1, 2, 3, 4]).buffer [5, 6, 7, 8] = .error .overread := rfl
  have hnull : arrayPush (2 ^ 64) (arrayClear (World.start (2 ^ 64) 4 2).array)
      (World.start (2 ^ 64) 4 2).buffer [1, 2, 3, 4] = .error .nullWrite := rfl
  refine ⟨hover, fun hmeets => ?_, hnull, fun hmeets => ?_⟩
  · obtain ⟨p, hok, -⟩ := (hmeets.2 _ (start_step (by decide) (by decide) (by decide))).1.space
      (by decide)
    rw [hover] at hok
    cases hok
  · obtain ⟨p, hok, -⟩ := (hmeets.2 _ rfl).1.space (by decide)
    have hok : arrayPush (2 ^ 64) (arrayClear (World.start (2 ^ 64) 4 2).array)
      (World.start (2 ^ 64) 4 2).buffer [1, 2, 3, 4] = .ok p := hok
    rw [hnull] at hok
    cases hok

end Floppix.Arrays
