import Floppix.Lib.Outcome
import Floppix.Lib.Unicode
import Floppix.Util.Bytes
import Mathlib.Algebra.Order.Group.Nat
import Mathlib.Data.Nat.Bits

/-! # Paths in wide characters

On Windows a path goes through `fpx_path_to_wchar` before a system call gets it. The decoder
takes the bits of a character from its bytes and tests the value at the end: the lead byte
gives the number of bytes, and a byte behind it is one of the character when it is not ASCII.
-/

namespace Floppix.WidePath

open Outcome Unicode

inductive Fault
  /-- a read behind the terminator of the string -/
  | overread
  /-- a write behind the end of the array -/
  | overrun
  | outOfRounds
deriving DecidableEq, Repr

/-- What the conversion returns, `outstr` or `NULL`, and the units that it has written. -/
structure Converted where
  done : Bool
  out : List Nat
deriving DecidableEq, Repr

/-! ## The functions -/

/-- `*p`, and what comes behind it. The terminator is the last byte that there is. -/
def readByte : Bytes → Except Fault (Nat × Bytes)
  | [] => .error .overread
  | c :: p => .ok (c.toNat, p)

def decodeTail : Nat → Nat → Bytes → Except Fault (Option Nat × Bytes)
  | 0, u, p => .ok (some u, p)
  | len + 1, u, p => do
      let (i, p) ← readByte p
      if i < 0x80 then .ok (none, p)
      else decodeTail len ((u <<< 6) % 2 ^ 32 ||| (i &&& 0x3f)) p

/-- `fpx_utf8_decode` behind the choice by the first byte, with `n` at least `1`. -/
def decodeFrom (n : Nat) (p rest : Bytes) (u valid len : Nat) : Except Fault (Nat × Bytes) :=
  if n - 1 < len then .ok (0xfffffffe, p)
  else do
    let (u, p) ← decodeTail len u rest
    match u with
    | none => .ok (0xffffffff, p)
    | some u => .ok (if valid < u then u else 0xffffffff, p)

def utf8Decode (n : Nat) (p : Bytes) : Except Fault (Nat × Bytes) := do
  let (u, rest) ← readByte p
  if 0xf0 ≤ u then decodeFrom n p rest (u &&& 0x07) 0xffff 3
  else if 0xe0 ≤ u then decodeFrom n p rest (u &&& 0x0f) 0x7ff 2
  else if 0xc2 ≤ u then decodeFrom n p rest (u &&& 0x1f) 0x7f 1
  else .ok (0xffffffff, rest)

/-- `*u++ = (uint16_t) unit`, in an array that has so many units. -/
def put (cap : Nat) (out : List Nat) (unit : Nat) : Except Fault (List Nat) :=
  if out.length < cap then .ok (out ++ [unit % 2 ^ 16]) else .error .overrun

/-- The loop of `fpx_path_to_wchar`, which is told that the array has `outlen` units. -/
def wcharLoop (cap outlen : Nat) : Nat → List Nat → Bytes → Except Fault Converted
  | 0, _, _ => .error .outOfRounds
  | rounds + 1, out, p =>
      if outlen ≤ out.length then .ok ⟨false, out⟩
      else do
        let (c, rest) ← readByte p
        if c < 0x80 then do
          let out ← put cap out c
          if c = 0 then .ok ⟨true, out⟩ else wcharLoop cap outlen rounds out rest
        else if out.length + 1 = outlen then .ok ⟨false, out⟩
        else do
          let (n, p) ← utf8Decode 4 p
          if 0x10ffff < n then .ok ⟨false, out⟩
          else if 0xffff < n then do
            let n := n - 0x10000
            let out ← put cap out (0xd800 + (n >>> 10))
            let out ← put cap out (0xdc00 + (n &&& 0x03ff))
            wcharLoop cap outlen rounds out p
          else do
            let out ← put cap out n
            wcharLoop cap outlen rounds out p

def pathToWchar (cap outlen rounds : Nat) (instr : Bytes) : Except Fault Converted :=
  wcharLoop cap outlen rounds [] (instr ++ [0])

/-! ## What the decoder takes for a character -/

def gather (u : Nat) (conts : Bytes) : Nat := conts.foldl (fun u i => u * 0x40 + i.toNat % 0x40) u

inductive Decoded : Nat → Bytes → Prop
  | two {a b : UInt8} (hlow : 0xc2 ≤ a.toNat) (hhigh : a.toNat < 0xe0) (hb : 0x80 ≤ b.toNat) :
      Decoded (gather (a.toNat % 0x20) [b]) [a, b]
  | three {a b c : UInt8} (hlow : 0xe0 ≤ a.toNat) (hhigh : a.toNat < 0xf0)
      (hb : 0x80 ≤ b.toNat) (hc : 0x80 ≤ c.toNat)
      (hn : 0x7ff < gather (a.toNat % 0x10) [b, c]) :
      Decoded (gather (a.toNat % 0x10) [b, c]) [a, b, c]
  | four {a b c d : UInt8} (hlow : 0xf0 ≤ a.toNat) (hb : 0x80 ≤ b.toNat) (hc : 0x80 ≤ c.toNat)
      (hd : 0x80 ≤ d.toNat) (hn : 0xffff < gather (a.toNat % 8) [b, c, d])
      (hmax : gather (a.toNat % 8) [b, c, d] ≤ 0x10ffff) :
      Decoded (gather (a.toNat % 8) [b, c, d]) [a, b, c, d]

inductive Spelled : List Nat → Bytes → Prop
  | nil : Spelled [] []
  | ascii {c : UInt8} {cs : List Nat} {str : Bytes} (hc : c.toNat < 0x80)
      (h : Spelled cs str) : Spelled (c.toNat :: cs) (c :: str)
  | char {n : Nat} {cs : List Nat} {bytes str : Bytes} (hn : Decoded n bytes)
      (h : Spelled cs str) : Spelled (n :: cs) (bytes ++ str)

variable {u n len : Nat} {p str bytes conts rest : Bytes} {c i : UInt8}

/-! ## The decoder -/

theorem shift_or (hu : u < 2 ^ 26) : (u <<< 6) % 2 ^ 32 ||| (i.toNat &&& 0x3f) =
    u * 0x40 + i.toNat % 0x40 := by
  have hlt : u * 2 ^ 6 < 2 ^ 32 := by omega
  have hand : i.toNat &&& 0x3f = i.toNat % 2 ^ 6 := Nat.and_two_pow_sub_one_eq_mod i.toNat 6
  rw [hand, Nat.shiftLeft_eq, Nat.mod_eq_of_lt hlt, ← Nat.shiftLeft_eq,
    ← Nat.shiftLeft_add_eq_or_of_lt (Nat.mod_lt _ (by decide)), Nat.shiftLeft_eq]

theorem decodeTail_cons (hi : 0x80 ≤ i.toNat) (hu : u < 2 ^ 26) :
    decodeTail (len + 1) u (i :: p) = decodeTail len (u * 0x40 + i.toNat % 0x40) p := by
  rw [← shift_or hu]
  exact if_neg (Nat.not_lt.mpr hi)

theorem decodeTail_low (hi : i.toNat < 0x80) :
    decodeTail (len + 1) u (i :: p) = .ok (none, p) := if_pos hi

/-- Another byte leaves room for the bits of those behind it. -/
theorem room_cons (hu : (u + 1) * 0x40 ^ (len + 1) ≤ 2 ^ 32) (i : UInt8) :
    u < 2 ^ 26 ∧ (u * 0x40 + i.toNat % 0x40 + 1) * 0x40 ^ len ≤ 2 ^ 32 := by
  have hpos : 0 < 0x40 ^ len := Nat.pow_pos (by decide)
  have hmod : i.toNat % 0x40 < 0x40 := Nat.mod_lt _ (by decide)
  rw [Nat.pow_succ', ← Nat.mul_assoc] at hu
  have hle : (u * 0x40 + i.toNat % 0x40 + 1) * 0x40 ^ len ≤ (u + 1) * 0x40 * 0x40 ^ len :=
    Nat.mul_le_mul_right _ (by omega)
  have hone : (u + 1) * 0x40 ≤ (u + 1) * 0x40 * 0x40 ^ len := Nat.le_mul_of_pos_right _ hpos
  omega

theorem decodeTail_conts (h : ∀ i ∈ conts, 0x80 ≤ i.toNat)
    (hu : (u + 1) * 0x40 ^ conts.length ≤ 2 ^ 32) :
    decodeTail conts.length u (conts ++ p) = .ok (some (gather u conts), p) := by
  induction conts generalizing u with
  | nil => rfl
  | cons i conts ih =>
      obtain ⟨hi, hconts⟩ := List.forall_mem_cons.mp h
      obtain ⟨hlt, hroom⟩ := room_cons hu i
      rw [List.length_cons, List.cons_append, decodeTail_cons hi hlt]
      exact ih hconts hroom

/-- The bytes behind the first one are not read behind the terminator. -/
theorem decodeTail_inv (hu : (u + 1) * 0x40 ^ len ≤ 2 ^ 32) :
    Yields False (decodeTail len u (str ++ [0])) fun (v, p) => ∀ n, v = some n →
      ∃ conts rest, str = conts ++ rest ∧ conts.length = len ∧ (∀ i ∈ conts, 0x80 ≤ i.toNat) ∧
        n = gather u conts ∧ p = rest ++ [0] := by
  induction len generalizing u str with
  | zero =>
      intro n hn
      cases hn
      exact ⟨[], str, rfl, rfl, by simp, rfl, rfl⟩
  | succ len ih =>
      cases str with
      | nil =>
          rw [List.nil_append, decodeTail_low (by decide)]
          exact fun n hn => absurd hn (by simp)
      | cons i str =>
          by_cases hi : i.toNat < 0x80
          · rw [List.cons_append, decodeTail_low hi]
            exact fun n hn => absurd hn (by simp)
          · obtain ⟨hlt, hroom⟩ := room_cons hu i
            rw [List.cons_append, decodeTail_cons (Nat.not_lt.mp hi) hlt]
            apply (ih hroom).mono
            rintro ⟨v, p⟩ - h n hn
            obtain ⟨conts, rest, rfl, rfl, hconts, hgather, hp⟩ := h n hn
            exact ⟨i :: conts, rest, rfl, rfl,
              List.forall_mem_cons.mpr ⟨Nat.not_lt.mp hi, hconts⟩, hgather, hp⟩

theorem decodeFrom_conts (conts : Bytes) {valid : Nat} (hlength : conts.length ≤ 3) (hlt : u < 0x20)
    (h : ∀ i ∈ conts, 0x80 ≤ i.toNat) (hvalid : valid < gather u conts) :
    decodeFrom 4 p (conts ++ rest) u valid conts.length = .ok (gather u conts, rest) := by
  have hpow : (0x40 : Nat) ^ conts.length ≤ 0x40 ^ 3 := Nat.pow_le_pow_right (by decide) hlength
  have hroom : (u + 1) * 0x40 ^ conts.length ≤ 0x20 * 0x40 ^ 3 := Nat.mul_le_mul hlt hpow
  rw [decodeFrom, if_neg (by omega), decodeTail_conts h (Nat.le_trans hroom (by decide))]
  exact congrArg (fun n => Except.ok (n, rest)) (if_pos hvalid)

theorem decodeFrom_inv {valid : Nat} (hlength : len ≤ 3) (hlt : u < 0x20) :
    Yields False (decodeFrom 4 p (str ++ [0]) u valid len) fun (n, p) => n ≤ 0x10ffff →
      ∃ conts rest, str = conts ++ rest ∧ conts.length = len ∧ (∀ i ∈ conts, 0x80 ≤ i.toNat) ∧
        n = gather u conts ∧ valid < n ∧ p = rest ++ [0] := by
  have hpow : (0x40 : Nat) ^ len ≤ 0x40 ^ 3 := Nat.pow_le_pow_right (by decide) hlength
  have hroom : (u + 1) * 0x40 ^ len ≤ 0x20 * 0x40 ^ 3 := Nat.mul_le_mul hlt hpow
  rw [decodeFrom, if_neg (by omega)]
  apply Yields.bind (decodeTail_inv (Nat.le_trans hroom (by decide)))
  rintro ⟨v, p⟩ - h
  cases v with
  | none => exact fun hn => absurd hn (by decide)
  | some n =>
      obtain ⟨conts, rest, hstr, hlen, hconts, hgather, hp⟩ := h n rfl
      show (if valid < n then n else 0xffffffff) ≤ 0x10ffff → _
      by_cases hvalid : valid < n
      · rw [if_pos hvalid]
        exact fun _ => ⟨conts, rest, hstr, hlen, hconts, hgather, hvalid, hp⟩
      · rw [if_neg hvalid]
        exact fun hn => absurd hn (by decide)

/-! ## Characters -/

theorem utf8Decode_four {a : UInt8} (ha : 0xf0 ≤ a.toNat) (p : Bytes) :
    utf8Decode 4 (a :: p) = decodeFrom 4 (a :: p) p (a.toNat % 8) 0xffff 3 := by
  have hmask : a.toNat &&& 0x07 = a.toNat % 2 ^ 3 := Nat.and_two_pow_sub_one_eq_mod a.toNat 3
  rw [← show a.toNat &&& 0x07 = a.toNat % 8 from hmask]
  exact if_pos ha

theorem utf8Decode_three {a : UInt8} (hlow : 0xe0 ≤ a.toNat) (hhigh : a.toNat < 0xf0)
    (p : Bytes) : utf8Decode 4 (a :: p) = decodeFrom 4 (a :: p) p (a.toNat % 0x10) 0x7ff 2 := by
  have hmask : a.toNat &&& 0x0f = a.toNat % 2 ^ 4 := Nat.and_two_pow_sub_one_eq_mod a.toNat 4
  rw [← show a.toNat &&& 0x0f = a.toNat % 0x10 from hmask]
  exact (if_neg (Nat.not_le.mpr hhigh)).trans (if_pos hlow)

theorem utf8Decode_two {a : UInt8} (hlow : 0xc2 ≤ a.toNat) (hhigh : a.toNat < 0xe0)
    (p : Bytes) : utf8Decode 4 (a :: p) = decodeFrom 4 (a :: p) p (a.toNat % 0x20) 0x7f 1 := by
  have hmask : a.toNat &&& 0x1f = a.toNat % 2 ^ 5 := Nat.and_two_pow_sub_one_eq_mod a.toNat 5
  rw [← show a.toNat &&& 0x1f = a.toNat % 0x20 from hmask]
  have hfour : ¬ 0xf0 ≤ a.toNat := by omega
  exact (if_neg hfour).trans ((if_neg (Nat.not_le.mpr hhigh)).trans (if_pos hlow))

theorem utf8Decode_bad {a : UInt8} (ha : a.toNat < 0xc2) (p : Bytes) :
    utf8Decode 4 (a :: p) = .ok (0xffffffff, p) := by
  have hfour : ¬ 0xf0 ≤ a.toNat := by omega
  have hthree : ¬ 0xe0 ≤ a.toNat := by omega
  exact (if_neg hfour).trans ((if_neg hthree).trans (if_neg (Nat.not_le.mpr ha)))

theorem Decoded.utf8Decode_eq (h : Decoded n bytes) (rest : Bytes) :
    utf8Decode 4 (bytes ++ rest) = .ok (n, rest) := by
  cases h with
  | @two a b hlow hhigh hb =>
      have hvalid : 0x7f < gather (a.toNat % 0x20) [b] := by
        simp only [gather, List.foldl_cons, List.foldl_nil]
        omega
      rw [List.cons_append, utf8Decode_two hlow hhigh]
      exact decodeFrom_conts [b] (by simp) (Nat.mod_lt _ (by decide)) (by simpa using hb) hvalid
  | @three a b c hlow hhigh hb hc hn =>
      rw [List.cons_append, utf8Decode_three hlow hhigh]
      have hlt : a.toNat % 0x10 < 0x20 := by omega
      exact decodeFrom_conts [b, c] (by simp) hlt (by simp [hb, hc]) hn
  | @four a b c d hlow hb hc hd hn hmax =>
      rw [List.cons_append, utf8Decode_four hlow]
      have hlt : a.toNat % 8 < 0x20 := by omega
      exact decodeFrom_conts [b, c, d] (by simp) hlt (by simp [hb, hc, hd]) hn

theorem Decoded.le (h : Decoded n bytes) : n ≤ 0x10ffff := by
  cases h with
  | two => simp only [gather, List.foldl_cons, List.foldl_nil]; omega
  | three => simp only [gather, List.foldl_cons, List.foldl_nil]; omega
  | four _ _ _ _ _ hmax => exact hmax

theorem Decoded.head (h : Decoded n bytes) : ∃ a tail, bytes = a :: tail ∧ 0x80 ≤ a.toNat := by
  cases h with
  | two hlow => exact ⟨_, _, rfl, by omega⟩
  | three hlow => exact ⟨_, _, rfl, by omega⟩
  | four hlow => exact ⟨_, _, rfl, by omega⟩

/-- A value of at most `0x10ffff` is that of a character at the start of the string. -/
theorem utf8Decode_inv (a : UInt8) (str : Bytes) :
    Yields False (utf8Decode 4 (a :: str ++ [0])) fun (n, p) => n ≤ 0x10ffff →
      ∃ bytes rest, a :: str = bytes ++ rest ∧ Decoded n bytes ∧ p = rest ++ [0] := by
  rw [List.cons_append]
  by_cases hbad : a.toNat < 0xc2
  · rw [utf8Decode_bad hbad]
    exact fun hn => absurd hn (by decide)
  by_cases htwo : a.toNat < 0xe0
  · rw [utf8Decode_two (Nat.not_lt.mp hbad) htwo]
    apply (decodeFrom_inv (by decide) (Nat.mod_lt _ (by decide))).mono
    rintro ⟨n, p⟩ - h hn
    obtain ⟨conts, rest, rfl, hlength, hconts, rfl, -, hp⟩ := h hn
    obtain ⟨b, rfl⟩ := List.length_eq_one_iff.mp hlength
    rw [List.forall_mem_singleton] at hconts
    exact ⟨[a, b], rest, rfl, .two (Nat.not_lt.mp hbad) htwo hconts, hp⟩
  by_cases hthree : a.toNat < 0xf0
  · rw [utf8Decode_three (Nat.not_lt.mp htwo) hthree]
    apply (decodeFrom_inv (by decide) (by omega)).mono
    rintro ⟨n, p⟩ - h hn
    obtain ⟨conts, rest, rfl, hlength, hconts, rfl, hvalid, hp⟩ := h hn
    obtain ⟨b, c, rfl⟩ := List.length_eq_two.mp hlength
    obtain ⟨hb, hc, -⟩ := by simpa only [List.forall_mem_cons] using hconts
    exact ⟨[a, b, c], rest, rfl, .three (Nat.not_lt.mp htwo) hthree hb hc hvalid, hp⟩
  · rw [utf8Decode_four (Nat.not_lt.mp hthree)]
    apply (decodeFrom_inv (by decide) (by omega)).mono
    rintro ⟨n, p⟩ - h hn
    obtain ⟨conts, rest, rfl, hlength, hconts, rfl, hvalid, hp⟩ := h hn
    obtain ⟨b, c, d, rfl⟩ := List.length_eq_three.mp hlength
    obtain ⟨hb, hc, hd, -⟩ := by simpa only [List.forall_mem_cons] using hconts
    exact ⟨[a, b, c, d], rest, rfl, .four (Nat.not_lt.mp hthree) hb hc hd hvalid hn, hp⟩

end Floppix.WidePath
