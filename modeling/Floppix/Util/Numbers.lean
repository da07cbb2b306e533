import Floppix.Lib.Numeral
import Floppix.Lib.Signed
import Floppix.Util.Bytes

/-! # Reading numbers

`fpx_atoi` and `fpx_atosz` are one loop at two types. The loop tests before each digit
whether the value would pass the largest one of the type, so that none of its operations
does; `-1` stands for everything that is not such a number.
-/

namespace Floppix

open Numeral

/-- What C leaves undefined in the handlers of directives and in what they call. -/
inductive Undefined where
  /-- a signed operation whose result does not fit -/
  | overflow
  /-- a write through `NULL` -/
  | nullWrite
  /-- a pointer that was not assigned -/
  | unassigned
deriving DecidableEq, Repr

theorem intBits_pos : 0 < 32 := by decide

/-- `int`. -/
def intType : Signed := ⟨32, intBits_pos⟩

/-- `ssize_t`, which is not narrower than `int`. -/
structure SsizeType extends Signed where
  wide : intType.bits ≤ bits

def ssize64 : SsizeType := ⟨⟨64, by decide⟩, by decide⟩

def signedOp (T : Signed) (result : Int) : Except Undefined Int :=
  if T.Fits result then .ok result else .error .overflow

theorem signedOp_ok {T : Signed} {n : Nat} (h : n ≤ T.max) : signedOp T n = .ok (n : Int) :=
  if_pos (Signed.fits_of_nonneg h)

def isdigit (c : UInt8) : Bool := decide (0x30 ≤ c) && decide (c ≤ 0x39)

/-- `fpx_strchr`, as a position. -/
def strchr (str : Bytes) (c : UInt8) : Option Nat := str.findIdx? fun x => x = c

/-- The loop of `fpx_atoi` and `fpx_atosz` with `n` bytes to go. Behind the string is the
terminator. -/
def atoLoop (T : Signed) : Nat → Bytes → Int → Except Undefined Int
  | 0, _, value => .ok value
  | _ + 1, [], _ => .ok (-1)
  | n + 1, c :: str, value =>
      if c < 0x30 ∨ 0x39 < c then .ok (-1)
      else
        let temp : Int := c.toNat - 0x30
        let cutoff : Int := T.max / 10
        let cutlim : Int := T.max % 10
        if cutoff ≤ value ∧ (cutoff < value ∨ cutlim < temp) then .ok (-1)
        else do
          let tens ← signedOp T (value * 10)
          let value ← signedOp T (tens + temp)
          atoLoop T n str value

/-- The body of both functions. -/
def ato (T : Signed) (str : Bytes) (n : Nat) : Except Undefined Int :=
  if n = 0 then .ok (-1) else atoLoop T n str 0

def atoi (str : Bytes) (n : Nat) : Except Undefined Int := ato intType str n

def atosz (T : SsizeType) (str : Bytes) (n : Nat) : Except Undefined Int := ato T.toSigned str n

/-! ## What they read -/

def digits (str : Bytes) : List Nat := str.map fun c => c.toNat - 0x30

def decimal (str : Bytes) : Nat := value 10 (digits str)

def IsNumber (str : Bytes) : Prop := str ≠ [] ∧ ∀ c ∈ str, isdigit c = true

instance (str : Bytes) : Decidable (IsNumber str) :=
  haveI := List.decidableBAll (fun c => isdigit c = true) str
  inferInstanceAs (Decidable (_ ∧ _))

theorem isdigit_iff {c : UInt8} : isdigit c = true ↔ ¬ (c < 0x30 ∨ 0x39 < c) := by
  rw [isdigit, Bool.and_eq_true, decide_eq_true_iff, decide_eq_true_iff, not_or, UInt8.not_lt,
    UInt8.not_lt]

theorem isdigit_toNat {c : UInt8} (h : isdigit c = true) : 0x30 ≤ c.toNat ∧ c.toNat ≤ 0x39 := by
  rw [isdigit, Bool.and_eq_true, decide_eq_true_iff, decide_eq_true_iff, UInt8.le_iff_toNat_le,
    UInt8.le_iff_toNat_le] at h
  exact h

/-- From a value that fits, the loop adds the digits to it, and gives up at a byte that is no
digit, at the end of the string, and where the value would not fit. -/
theorem atoLoop_eq (T : Signed) {v : Nat} (hv : v ≤ T.max) (n : Nat) (str : Bytes) :
    atoLoop T n str v = .ok (if n ≤ str.length ∧ (str.take n).all isdigit = true ∧
      valueFrom 10 v (digits (str.take n)) ≤ T.max
      then valueFrom 10 v (digits (str.take n)) else -1) := by
  induction n generalizing str v with
  | zero => simp [atoLoop, digits, hv]
  | succ n ih =>
      cases str with
      | nil => simp [atoLoop]
      | cons c str =>
          by_cases hc : isdigit c = true
          · have hrange := isdigit_toNat hc
            have hdigit : c.toNat - 0x30 < 10 := by omega
            have htemp : (c.toNat : Int) - 0x30 = (c.toNat - 0x30 : Nat) := by omega
            rw [atoLoop, if_neg (isdigit_iff.mp hc)]
            simp only [htemp]
            have hguard : ((T.max : Int) / 10 ≤ v ∧ ((T.max : Int) / 10 < v ∨
                (T.max : Int) % 10 < (c.toNat - 0x30 : Nat))) ↔
                T.max < v * 10 + (c.toNat - 0x30) := by
              rw [← exceeds_iff hdigit]
              omega
            have hnumeral : valueFrom 10 v (digits ((c :: str).take (n + 1))) =
                valueFrom 10 (v * 10 + (c.toNat - 0x30)) (digits (str.take n)) := rfl
            rw [hnumeral]
            by_cases hexceeds : T.max < v * 10 + (c.toNat - 0x30)
            · rw [if_pos (hguard.mpr hexceeds), if_neg]
              rintro ⟨-, -, hle⟩
              have hten : 0 < 10 := by decide
              have hgrow := le_valueFrom hten (v * 10 + (c.toNat - 0x30)) (digits (str.take n))
              omega
            · have htens : ((v : Int) * 10) = (v * 10 : Nat) := by push_cast; rfl
              have hsum : ((v * 10 : Nat) : Int) + (c.toNat - 0x30 : Nat) =
                  (v * 10 + (c.toNat - 0x30) : Nat) := by push_cast; rfl
              rw [if_neg (mt hguard.mp hexceeds), htens, signedOp_ok (by omega)]
              simp only [Bind.bind, Except.bind]
              rw [hsum, signedOp_ok (by omega)]
              simp only [ih (v := v * 10 + (c.toNat - 0x30)) (by omega) str, List.take_succ_cons,
                List.all_cons, hc, Bool.true_and, List.length_cons, Nat.add_le_add_iff_right]
          · rw [atoLoop, if_pos (not_not.mp (mt isdigit_iff.mpr hc)), if_neg]
            rintro ⟨-, hall, -⟩
            exact hc (List.all_eq_true.mp hall c (by simp))

/-- A number that fits is read, and everything else is `-1`. No operation overflows. -/
theorem ato_eq (T : Signed) {str : Bytes} {n : Nat} (hn : n ≤ str.length) :
    ato T str n = .ok (if IsNumber (str.take n) ∧ decimal (str.take n) ≤ T.max
      then decimal (str.take n) else -1) := by
  unfold ato IsNumber
  by_cases hzero : n = 0
  · simp [hzero]
  · have hne : str.take n ≠ [] := by
      rw [ne_eq, List.take_eq_nil_iff, not_or]
      refine ⟨hzero, fun hnil => hzero ?_⟩
      rw [hnil] at hn
      exact Nat.le_zero.mp hn
    rw [if_neg hzero]
    have hloop := atoLoop_eq T (Nat.zero_le T.max) n str
    simp only [hn, true_and, List.all_eq_true] at hloop
    simp only [hne, ne_eq, not_false_eq_true, true_and]
    exact hloop

end Floppix
