import Floppix.Lib.FirstDifference
import Floppix.Util.Bytes
import Mathlib.Algebra.Order.Group.Int

/-! # Comparing strings without regard to case

`fpx_strcasecmp` and `fpx_strncasecmp` walk along two strings and return the difference of
the first two characters that differ after mapping capital letters to small ones. They
compute on `unsigned int` values of sign-extended characters. The difference of two such
values, read as an `int`, is the difference of the signed characters, so both functions
compare lexicographically and the terminator takes part as a character of its own.
-/

namespace Floppix.Strings

open FirstDifference

/-- A read behind the memory that belongs to a string. -/
inductive Fault where
  | overread
deriving DecidableEq, Repr

/-! ## The two functions -/

/-- `(uint) *str` where `char` is signed. -/
def uintOfChar (b : UInt8) : BitVec 32 := b.toBitVec.signExtend 32

/-- `(c >= 'A' && c <= 'Z') ? (c | 0x20) : c`. -/
def lowered (c : BitVec 32) : BitVec 32 :=
  if 0x41#32 ≤ c ∧ c ≤ 0x5A#32 then c ||| 0x20#32 else c

/-- `fpx_strcasecmp` on the memory from the two pointers on. -/
def strcasecmp : Bytes → Bytes → Except Fault Int
  | b1 :: str1, b2 :: str2 =>
      let c1 := lowered (uintOfChar b1)
      let c2 := lowered (uintOfChar b2)
      if c1 = c2 then
        if c1 ≠ 0 then strcasecmp str1 str2 else .ok 0
      else .ok (c1 - c2).toInt
  | _, _ => .error .overread

/-- `fpx_strncasecmp` on the memory from the two pointers on. -/
def strncasecmp : Bytes → Bytes → Nat → Except Fault Int
  | _, _, 0 => .ok 0
  | b1 :: str1, b2 :: str2, n + 1 =>
      let c1 := lowered (uintOfChar b1)
      let c2 := lowered (uintOfChar b2)
      if c1 = c2 then
        if c1 ≠ 0 then strncasecmp str1 str2 n else .ok 0
      else .ok (c1 - c2).toInt
  | _, _, _ + 1 => .error .overread

/-! ## Characters -/

def tolower (b : UInt8) : UInt8 := if 0x41 ≤ b ∧ b ≤ 0x5A then b + 0x20 else b

/-- What a character counts in a comparison. -/
def weight (b : UInt8) : Int := (tolower b).toBitVec.toInt

theorem forall_byte {p : UInt8 → Prop} (h : ∀ v : BitVec 8, p (UInt8.ofBitVec v)) (b : UInt8) :
    p b := h b.toBitVec

theorem lowered_uintOfChar (b : UInt8) : lowered (uintOfChar b) = uintOfChar (tolower b) := by
  apply forall_byte (p := fun b => lowered (uintOfChar b) = uintOfChar (tolower b))
  decide +kernel

theorem toInt_uintOfChar (b : UInt8) : (uintOfChar b).toInt = b.toBitVec.toInt :=
  BitVec.toInt_signExtend_of_le (by decide)

theorem toInt_lowered (b : UInt8) : (lowered (uintOfChar b)).toInt = weight b := by
  rw [lowered_uintOfChar, toInt_uintOfChar, weight]

theorem weight_bounds (b : UInt8) : -128 ≤ weight b ∧ weight b < 128 :=
  ⟨BitVec.le_toInt _, BitVec.toInt_lt⟩

theorem weight_inj {b c : UInt8} : weight b = weight c ↔ tolower b = tolower c := by
  rw [weight, weight, BitVec.toInt_inj, UInt8.toBitVec_inj]

@[simp] theorem weight_zero : weight 0 = 0 := by decide

theorem tolower_eq_zero_iff {b : UInt8} : tolower b = 0 ↔ b = 0 := by
  apply forall_byte (p := fun b => tolower b = 0 ↔ b = 0)
  decide +kernel

theorem weight_eq_zero_iff {b : UInt8} : weight b = 0 ↔ b = 0 := by
  rw [← weight_zero, weight_inj, tolower_eq_zero_iff.symm]
  rfl

/-- Two characters are equal for the loops if they count the same. -/
theorem lowered_eq_iff {b c : UInt8} :
    lowered (uintOfChar b) = lowered (uintOfChar c) ↔ weight b = weight c := by
  rw [← BitVec.toInt_inj, toInt_lowered, toInt_lowered]

theorem lowered_eq_zero_iff {b : UInt8} : lowered (uintOfChar b) = 0 ↔ b = 0 := by
  rw [← BitVec.toInt_inj, toInt_lowered]
  exact weight_eq_zero_iff

/-- The wrapped difference is the difference: it lies far inside the range of `int`. -/
theorem toInt_sub_lowered (b c : UInt8) :
    (lowered (uintOfChar b) - lowered (uintOfChar c)).toInt = weight b - weight c := by
  have hb := weight_bounds b
  have hc := weight_bounds c
  rw [BitVec.toInt_sub, toInt_lowered, toInt_lowered]
  exact Int.bmod_eq_of_le (by omega) (by omega)

/-! ## Strings -/

/-- The characters of a string, none of them the terminator. -/
structure CString where
  chars : Bytes
  ended : (0 : UInt8) ∉ chars

namespace CString

def cells (s : CString) : Bytes := s.chars ++ [0]

def take (s : CString) (n : Nat) : CString :=
  ⟨s.chars.take n, fun h => s.ended (List.mem_of_mem_take h)⟩

def weights (s : CString) : List Int := s.cells.map weight

def compare (s t : CString) : Int := firstDifference s.weights t.weights

theorem cells_ended (s : CString) : Ended 0 s.cells := ended_append s.ended

theorem weights_ended (s : CString) : Ended 0 s.weights := by
  rw [weights, cells, List.map_append]
  apply ended_append
  intro h
  obtain ⟨b, hb, hzero⟩ := List.mem_map.mp h
  exact s.ended (weight_eq_zero_iff.mp hzero ▸ hb)

theorem map_weight_inj {xs ys : Bytes} :
    xs.map weight = ys.map weight ↔ xs.map tolower = ys.map tolower := by
  induction xs generalizing ys with
  | nil => cases ys <;> simp
  | cons x xs ih =>
      cases ys with
      | nil => simp
      | cons y ys => simp only [List.map_cons, List.cons.injEq, weight_inj, ih]

theorem weights_inj {s t : CString} :
    s.weights = t.weights ↔ s.chars.map tolower = t.chars.map tolower := by
  rw [weights, weights, cells, cells, List.map_append, List.map_append,
    List.append_cancel_right_eq, map_weight_inj]

/-- The order is zero exactly on strings that are equal up to case. -/
theorem compare_eq_zero_iff (s t : CString) :
    compare s t = 0 ↔ s.chars.map tolower = t.chars.map tolower := by
  rw [compare, firstDifference_eq_zero_iff s.weights_ended t.weights_ended, weights_inj]

theorem compare_swap (s t : CString) : compare t s = -compare s t :=
  firstDifference_swap _ _

theorem compare_nonpos_trans {s t u : CString} (hst : compare s t ≤ 0) (htu : compare t u ≤ 0) :
    compare s u ≤ 0 := by
  rw [compare, firstDifference_nonpos_iff s.weights_ended t.weights_ended] at hst
  rw [compare, firstDifference_nonpos_iff t.weights_ended u.weights_ended] at htu
  rw [compare, firstDifference_nonpos_iff s.weights_ended u.weights_ended]
  exact le_trans hst htu

theorem compare_neg_trans {s t u : CString} (hst : compare s t < 0) (htu : compare t u < 0) :
    compare s u < 0 := by
  rw [compare, firstDifference_neg_iff s.weights_ended t.weights_ended] at hst
  rw [compare, firstDifference_neg_iff t.weights_ended u.weights_ended] at htu
  rw [compare, firstDifference_neg_iff s.weights_ended u.weights_ended]
  exact lt_trans hst htu

end CString

/-! ## What the functions return -/

theorem strcasecmp_cons_of_ne {b1 b2 : UInt8} (h : weight b1 ≠ weight b2) (str1 str2 : Bytes) :
    strcasecmp (b1 :: str1) (b2 :: str2) = .ok (weight b1 - weight b2) := by
  rw [strcasecmp]
  simp only [if_neg (mt lowered_eq_iff.mp h), toInt_sub_lowered]

theorem strcasecmp_cons_of_eq {b1 b2 : UInt8} (h : weight b1 = weight b2) (hb : b1 ≠ 0)
    (str1 str2 : Bytes) :
    strcasecmp (b1 :: str1) (b2 :: str2) = strcasecmp str1 str2 := by
  rw [strcasecmp]
  simp only [if_pos (lowered_eq_iff.mpr h), if_pos (mt lowered_eq_zero_iff.mp hb)]

theorem strncasecmp_cons_of_ne {b1 b2 : UInt8} (h : weight b1 ≠ weight b2) (str1 str2 : Bytes)
    (n : Nat) :
    strncasecmp (b1 :: str1) (b2 :: str2) (n + 1) = .ok (weight b1 - weight b2) := by
  rw [strncasecmp]
  simp only [if_neg (mt lowered_eq_iff.mp h), toInt_sub_lowered]

theorem strncasecmp_cons_of_eq {b1 b2 : UInt8} (h : weight b1 = weight b2) (hb : b1 ≠ 0)
    (str1 str2 : Bytes) (n : Nat) :
    strncasecmp (b1 :: str1) (b2 :: str2) (n + 1) = strncasecmp str1 str2 n := by
  rw [strncasecmp]
  simp only [if_pos (lowered_eq_iff.mpr h), if_pos (mt lowered_eq_zero_iff.mp hb)]

theorem weight_ne_zero {b : UInt8} (h : b ≠ 0) : weight b ≠ weight 0 :=
  mt (fun hb => weight_eq_zero_iff.mp (hb.trans weight_zero)) h

theorem strcasecmp_walk {xs ys : Bytes} (hxs : Ended 0 xs) (hys : Ended 0 ys)
    (behind1 behind2 : Bytes) :
    strcasecmp (xs ++ behind1) (ys ++ behind2) =
      .ok (firstDifference (xs.map weight) (ys.map weight)) := by
  induction hxs generalizing ys with
  | last =>
      cases hys with
      | last => rfl
      | cons hy hys =>
          have hne := Ne.symm (weight_ne_zero hy)
          simp only [List.cons_append, List.map_cons]
          rw [strcasecmp_cons_of_ne hne, firstDifference_cons_of_ne hne]
  | @cons x xs hx hxs ih =>
      cases hys with
      | last =>
          have hne := weight_ne_zero hx
          simp only [List.cons_append, List.map_cons]
          rw [strcasecmp_cons_of_ne hne, firstDifference_cons_of_ne hne]
      | @cons y ys hy hys =>
          simp only [List.cons_append, List.map_cons]
          by_cases h : weight x = weight y
          · rw [strcasecmp_cons_of_eq h hx, ih hys, h, firstDifference_cons_self]
          · rw [strcasecmp_cons_of_ne h, firstDifference_cons_of_ne h]

/-- `fpx_strcasecmp` on two strings returns their order. -/
theorem strcasecmp_cells (s t : CString) (behind1 behind2 : Bytes) :
    strcasecmp (s.cells ++ behind1) (t.cells ++ behind2) = .ok (s.compare t) := by
  rw [strcasecmp_walk s.cells_ended t.cells_ended, CString.compare, CString.weights,
    CString.weights]

/-- With nothing behind the two strings. -/
theorem strcasecmp_alone (s t : CString) : strcasecmp s.cells t.cells = .ok (s.compare t) := by
  have h := strcasecmp_cells s t [] []
  rwa [List.append_nil, List.append_nil] at h

/-- The bounded walk, on the part of the strings and their terminators that its count covers,
is the other walk on the strings cut there. -/
theorem strncasecmp_walk (n : Nat) (str1 str2 : Bytes) (h1 : (0 : UInt8) ∉ str1)
    (h2 : (0 : UInt8) ∉ str2) (behind1 behind2 : Bytes) :
    strncasecmp ((str1 ++ [0]).take n ++ behind1) ((str2 ++ [0]).take n ++ behind2) n =
      strcasecmp (str1.take n ++ [0]) (str2.take n ++ [0]) := by
  induction n generalizing str1 str2 with
  | zero =>
      rw [strncasecmp, List.take_zero, List.take_zero]
      rfl
  | succ n ih =>
      cases str1 with
      | nil =>
          cases str2 with
          | nil => rfl
          | cons c str2 =>
              have hne := Ne.symm (weight_ne_zero (List.ne_of_not_mem_cons h2).symm)
              simp only [List.nil_append, List.cons_append, List.take_succ_cons, List.take_nil]
              rw [strncasecmp_cons_of_ne hne, strcasecmp_cons_of_ne hne]
      | cons b str1 =>
          have hb := (List.ne_of_not_mem_cons h1).symm
          cases str2 with
          | nil =>
              have hne := weight_ne_zero hb
              simp only [List.nil_append, List.cons_append, List.take_succ_cons, List.take_nil]
              rw [strncasecmp_cons_of_ne hne, strcasecmp_cons_of_ne hne]
          | cons c str2 =>
              simp only [List.cons_append, List.take_succ_cons]
              by_cases h : weight b = weight c
              · rw [strncasecmp_cons_of_eq h hb, strcasecmp_cons_of_eq h hb]
                exact ih str1 str2 (List.not_mem_of_not_mem_cons h1)
                  (List.not_mem_of_not_mem_cons h2)
              · rw [strncasecmp_cons_of_ne h, strcasecmp_cons_of_ne h]

/-- Case-insensitive comparison is a consistent order. On any two strings `fpx_strcasecmp`
ends without a read behind a terminator, whatever is there; it returns `0` exactly on strings
that are equal up to case; swapping the strings swaps the sign, and the sign is transitive.
`fpx_strncasecmp` returns what `fpx_strcasecmp` does on the strings cut to the count, and reads
only what the count and the terminators allow. -/
theorem strcasecmp_orders :
    ∃ order : CString → CString → Int,
      (∀ s t behind1 behind2,
        strcasecmp (s.cells ++ behind1) (t.cells ++ behind2) = .ok (order s t)) ∧
      (∀ s t, order s t = 0 ↔ s.chars.map tolower = t.chars.map tolower) ∧
      (∀ s t, (order t s).sign = -(order s t).sign) ∧
      (∀ s t u, order s t < 0 → order t u < 0 → order s u < 0) ∧
      (∀ s t u, order s t ≤ 0 → order t u ≤ 0 → order s u ≤ 0) ∧
      ∀ (n : Nat) (s t : CString) behind1 behind2,
        strncasecmp (s.cells.take n ++ behind1) (t.cells.take n ++ behind2) n =
          .ok (order (s.take n) (t.take n)) := by
  refine ⟨CString.compare, strcasecmp_cells, CString.compare_eq_zero_iff, ?_, ?_, ?_, ?_⟩
  · intro s t
    rw [CString.compare_swap, Int.sign_neg]
  · intro s t u hst htu
    exact CString.compare_neg_trans hst htu
  · intro s t u hst htu
    exact CString.compare_nonpos_trans hst htu
  · intro n s t behind1 behind2
    rw [CString.cells, CString.cells, strncasecmp_walk n _ _ s.ended t.ended]
    exact strcasecmp_alone (s.take n) (t.take n)

end Floppix.Strings
