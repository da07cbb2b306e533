import Floppix.System.Errno
import Floppix.Util.Numbers
import Mathlib.Data.List.Induction
import Mathlib.Logic.Function.Basic

/-! # Sizes

A size is a number with an optional letter for its unit. `fpx_config_parse_size` tests the
number against the largest value of `ssize_t` over the unit, before the two are multiplied.
`fpx_handler_uint` keeps the size in an `int` and looks for `-1` only there.
-/

namespace Floppix.Configuration

/-- The `switch` of `fpx_config_parse_size` over the last byte: the length without the unit,
`max` and `scale`. -/
def sizeUnit (T : SsizeType) (len : Nat) (unit : UInt8) : Nat × Int × Int :=
  if unit = 0x4B ∨ unit = 0x6B then (len - 1, (T.max : Int) / 1024, 1024)
  else if unit = 0x4D ∨ unit = 0x6D then
    (len - 1, (T.max : Int) / (1024 * 1024), 1024 * 1024)
  else if unit = 0x47 ∨ unit = 0x67 then
    (len - 1, (T.max : Int) / (1024 * 1024 * 1024), 1024 * 1024 * 1024)
  else (len, (T.max : Int), 1)

/-- The end of `fpx_config_parse_size`, after the number was read into `size`. -/
def scaleSize (T : SsizeType) (max scale size : Int) : Except Undefined Int :=
  if size = -1 ∨ max < size then .ok (-1) else signedOp T.toSigned (size * scale)

def parseSize (T : SsizeType) (str : Bytes) : Except Undefined Int :=
  if str.length = 0 then .ok (-1)
  else
    let (len, max, scale) := sizeUnit T str.length (str.getD (str.length - 1) 0)
    do
      let size ← atosz T str len
      scaleSize T max scale size

/-! ## What a size denotes -/

def unitScale (unit : UInt8) : Option Nat :=
  if unit = 0x4B ∨ unit = 0x6B then some (2 ^ 10)
  else if unit = 0x4D ∨ unit = 0x6D then some (2 ^ 20)
  else if unit = 0x47 ∨ unit = 0x67 then some (2 ^ 30)
  else none

def IsSuffix (suffix : Bytes) (scale : Nat) : Prop :=
  suffix = [] ∧ scale = 1 ∨ ∃ unit, suffix = [unit] ∧ unitScale unit = some scale

/-- The string is a number with an optional unit, and `v` is its value. -/
def Denotes (str : Bytes) (v : Nat) : Prop :=
  ∃ number suffix scale, str = number ++ suffix ∧ IsNumber number ∧ IsSuffix suffix scale ∧
    v = decimal number * scale

theorem unitScale_pos {unit : UInt8} {scale : Nat} (h : unitScale unit = some scale) :
    0 < scale := by
  unfold unitScale at h
  split_ifs at h <;> cases h <;> decide

theorem unitScale_not_digit {unit : UInt8} {scale : Nat} (h : unitScale unit = some scale) :
    isdigit unit = false := by
  unfold unitScale at h
  split_ifs at h with hk hm hg
  · rcases hk with rfl | rfl <;> rfl
  · rcases hm with rfl | rfl <;> rfl
  · rcases hg with rfl | rfl <;> rfl

theorem denotes_concat_iff {init : Bytes} {c : UInt8} {v : Nat} :
    Denotes (init ++ [c]) v ↔
      match unitScale c with
      | some scale => IsNumber init ∧ v = decimal init * scale
      | none => IsNumber (init ++ [c]) ∧ v = decimal (init ++ [c]) := by
  constructor
  · rintro ⟨number, suffix, scale, heq, hnumber, hsuffix, rfl⟩
    rcases hsuffix with ⟨rfl, rfl⟩ | ⟨unit, rfl, hscale⟩
    · rw [List.append_nil] at heq
      subst heq
      have hdigit : isdigit c = true := hnumber.2 c (by simp)
      split
      · rename_i hc
        rw [unitScale_not_digit hc] at hdigit
        cases hdigit
      · exact ⟨hnumber, Nat.mul_one _⟩
    · obtain ⟨rfl, hunit⟩ := List.append_inj' heq rfl
      cases hunit
      rw [hscale]
      exact ⟨hnumber, rfl⟩
  · split
    · rename_i scale hscale
      rintro ⟨hnumber, rfl⟩
      exact ⟨init, [c], scale, rfl, hnumber, Or.inr ⟨c, rfl, hscale⟩, rfl⟩
    · rintro ⟨hnumber, rfl⟩
      exact ⟨init ++ [c], [], 1, (List.append_nil _).symm, hnumber, Or.inl ⟨rfl, rfl⟩,
        (Nat.mul_one _).symm⟩

theorem not_denotes_nil (v : Nat) : ¬ Denotes [] v := by
  rintro ⟨number, suffix, scale, heq, hnumber, -, -⟩
  exact hnumber.1 (List.append_eq_nil_iff.mp heq.symm).1

/-! ## The bound -/

theorem sizeUnit_eq (T : SsizeType) (len : Nat) (unit : UInt8) :
    sizeUnit T len unit =
      match unitScale unit with
      | some scale => (len - 1, ((T.max / scale : Nat) : Int), (scale : Int))
      | none => (len, (T.max : Int), 1) := by
  unfold sizeUnit unitScale
  split_ifs <;> simp

theorem scaleSize_error (T : SsizeType) (max scale : Int) :
    scaleSize T max scale (-1) = .ok (-1) := if_pos (Or.inl rfl)

/-- The quotient of the largest value is the exact bound on the number. -/
theorem scaleSize_eq (T : SsizeType) {scale : Nat} (hscale : 0 < scale) (n : Nat) :
    scaleSize T (T.max / scale : Nat) scale n =
      .ok (if n * scale ≤ T.max then ((n * scale : Nat) : Int) else -1) := by
  have hguard : n ≤ T.max / scale ↔ n * scale ≤ T.max := Nat.le_div_iff_mul_le hscale
  have hcast : (n : Int) * scale = (n * scale : Nat) := by
    push_cast
    rfl
  rw [scaleSize]
  by_cases hfits : n * scale ≤ T.max
  · have hle := hguard.mpr hfits
    rw [if_neg (by omega), if_pos hfits, hcast]
    exact signedOp_ok hfits
  · have hlt : ¬ n ≤ T.max / scale := fun h => hfits (hguard.mp h)
    rw [if_pos (by omega), if_neg hfits]

theorem scaleSize_ato (T : SsizeType) (number : Bytes) {scale : Nat} (hscale : 0 < scale) :
    scaleSize T (T.max / scale : Nat) scale
        (if IsNumber number ∧ decimal number ≤ T.max then (decimal number : Int) else -1) =
      .ok (if IsNumber number ∧ decimal number * scale ≤ T.max
        then ((decimal number * scale : Nat) : Int) else -1) := by
  by_cases hnumber : IsNumber number
  · simp only [hnumber, true_and]
    by_cases hmax : decimal number ≤ T.max
    · rw [if_pos hmax]
      exact scaleSize_eq T hscale _
    · have hgrow : decimal number ≤ decimal number * scale := Nat.le_mul_of_pos_right _ hscale
      rw [if_neg hmax, if_neg (by omega)]
      exact scaleSize_error ..
  · simp only [hnumber, false_and, if_false]
    exact scaleSize_error ..

theorem parseSize_concat (T : SsizeType) (init : Bytes) (c : UInt8) :
    ∃ number scale,
      (∀ v, Denotes (init ++ [c]) v ↔ IsNumber number ∧ v = decimal number * scale) ∧
      parseSize T (init ++ [c]) =
        .ok (if IsNumber number ∧ decimal number * scale ≤ T.max
          then ((decimal number * scale : Nat) : Int) else -1) := by
  have hlen : (init ++ [c]).length = init.length + 1 := by simp
  have hlast : (init ++ [c]).getD (init ++ [c]).length.pred 0 = c := by simp
  have hparse : parseSize T (init ++ [c]) =
      (match sizeUnit T (init.length + 1) c with
      | (len, max, scale) => do
          let size ← atosz T (init ++ [c]) len
          scaleSize T max scale size) := by
    rw [parseSize, if_neg (by simp), ← Nat.pred_eq_sub_one, hlast, hlen]
  rw [hparse, sizeUnit_eq]
  cases hunit : unitScale c with
  | some scale =>
      refine ⟨init, scale, fun v => ?_, ?_⟩
      · rw [denotes_concat_iff, hunit]
      · have hle : init.length ≤ (init ++ [c]).length := by simp
        have hato := ato_eq T.toSigned hle
        rw [List.take_left' rfl] at hato
        simp only [Nat.add_sub_cancel, atosz, hato]
        exact scaleSize_ato T init (unitScale_pos hunit)
  | none =>
      refine ⟨init ++ [c], 1, fun v => ?_, ?_⟩
      · rw [denotes_concat_iff, hunit, Nat.mul_one]
      · have hato := ato_eq T.toSigned (Nat.le_refl (init ++ [c]).length)
        rw [List.take_length, hlen] at hato
        have hscaled := scaleSize_ato T (init ++ [c]) Nat.one_pos
        rw [Nat.div_one] at hscaled
        simp only [atosz, hato]
        exact hscaled

/-- What is parsed is the denoted value where it fits, and `-1` otherwise. -/
theorem parseSize_eq (T : SsizeType) (str : Bytes) :
    (∃ v, (∀ v', Denotes str v' ↔ v' = v) ∧
      parseSize T str = .ok (if v ≤ T.max then (v : Int) else -1)) ∨
    (∀ v, ¬ Denotes str v) ∧ parseSize T str = .ok (-1) := by
  cases str using List.reverseRecOn with
  | nil => exact Or.inr ⟨not_denotes_nil, rfl⟩
  | append_singleton init c =>
      obtain ⟨number, scale, hvalue, heq⟩ := parseSize_concat T init c
      by_cases hnumber : IsNumber number
      · refine Or.inl ⟨decimal number * scale, fun v' => ?_, ?_⟩
        · rw [hvalue, and_iff_right hnumber]
        · simpa only [hnumber, true_and] using heq
      · refine Or.inr ⟨fun v h => hnumber ((hvalue v).mp h).1, ?_⟩
        simpa only [hnumber, false_and, if_false] using heq

/-- A size that fits in `ssize_t` is parsed as the value that it denotes, and everything else
as `-1`. No operation overflows on the way. -/
theorem parseSize_exact (T : SsizeType) (str : Bytes) :
    (∀ v : Nat, parseSize T str = .ok (v : Int) ↔ Denotes str v ∧ v ≤ T.max) ∧
      ((¬ ∃ v, Denotes str v ∧ v ≤ T.max) → parseSize T str = .ok (-1)) := by
  rcases parseSize_eq T str with ⟨n, hn, heq⟩ | ⟨hno, heq⟩
  · rw [heq]
    by_cases hfits : n ≤ T.max
    · rw [if_pos hfits]
      refine ⟨fun v => ?_, fun h => absurd ⟨n, (hn n).mpr rfl, hfits⟩ h⟩
      rw [hn, Except.ok.injEq, Int.ofNat_inj]
      exact ⟨fun h => ⟨h.symm, h ▸ hfits⟩, fun h => h.1.symm⟩
    · rw [if_neg hfits]
      refine ⟨fun v => iff_of_false (fun h => ?_) (fun h => ?_), fun _ => rfl⟩
      · rw [Except.ok.injEq] at h
        omega
      · exact hfits ((hn v).mp h.1 ▸ h.2)
  · rw [heq]
    refine ⟨fun v => iff_of_false (fun h => ?_) (fun h => hno v h.1), fun _ => rfl⟩
    rw [Except.ok.injEq] at h
    omega

/-! ## The handlers -/

def invalidValue (arg name : Bytes) : Bytes :=
  ascii "Invalid value \"" ++ arg ++ ascii "\" in directive \"" ++ name ++ ascii "\""

/-- The body of `fpx_handler_size` and `fpx_handler_uint`, with the conversion to the type of
their local `n`. `data` are the fields of the context at their offsets; the result is the
status, the fields and what was logged. -/
def handlerNumber (T : SsizeType) (convert : Int → Int) (name : Bytes) (offset : Nat)
    (arg : Bytes) (data : Nat → Int) : Except Undefined (Err × (Nat → Int) × List Bytes) := do
  let size ← parseSize T arg
  let n := convert size
  if n = -1 then .ok (Err.configSyntax, data, [invalidValue arg name])
  else .ok (Err.ok, Function.update data offset n, [])

def handlerSize (T : SsizeType) := handlerNumber T id

def handlerUint (T : SsizeType) := handlerNumber T intType.convert

/-- The denoted value was stored in the field, or the argument was refused and all fields are
as they were. -/
def StoresOrRefuses (name : Bytes) (offset : Nat) (arg : Bytes) (data : Nat → Int)
    (out : Except Undefined (Err × (Nat → Int) × List Bytes)) : Prop :=
  (∃ v : Nat, Denotes arg v ∧ out = .ok (Err.ok, Function.update data offset v, [])) ∨
    out = .ok (Err.configSyntax, data, [invalidValue arg name])

variable {T : SsizeType} {convert : Int → Int} {name arg : Bytes} {offset v : Nat}
  {data : Nat → Int}

theorem handlerNumber_eq {size : Int} (hparse : parseSize T arg = .ok size) :
    handlerNumber T convert name offset arg data =
      if convert size = -1 then .ok (Err.configSyntax, data, [invalidValue arg name])
      else .ok (Err.ok, Function.update data offset (convert size), []) := by
  simp only [handlerNumber, hparse, Bind.bind, Except.bind]

theorem handlerNumber_refuses (hparse : parseSize T arg = .ok (-1)) (hminus : convert (-1) = -1) :
    StoresOrRefuses name offset arg data (handlerNumber T convert name offset arg data) := by
  rw [handlerNumber_eq hparse, if_pos hminus]
  exact Or.inr rfl

/-- A size is stored or refused exactly when the conversion keeps it or makes it `-1`. -/
theorem handlerNumber_iff (hparse : parseSize T arg = .ok (v : Int))
    (hdenotes : ∀ v', Denotes arg v' ↔ v' = v) :
    StoresOrRefuses name offset arg data (handlerNumber T convert name offset arg data) ↔
      convert v = v ∨ convert v = -1 := by
  rw [handlerNumber_eq hparse]
  by_cases hminus : convert v = -1
  · rw [if_pos hminus]
    exact iff_of_true (Or.inr rfl) (Or.inr hminus)
  · rw [if_neg hminus, or_iff_left hminus]
    constructor
    · rintro (⟨v', hv', heq⟩ | heq)
      · rw [(hdenotes v').mp hv', Except.ok.injEq, Prod.mk.injEq, Prod.mk.injEq] at heq
        have hfield := congrFun heq.2.1 offset
        rwa [Function.update_self, Function.update_self] at hfield
      · rw [Except.ok.injEq, Prod.mk.injEq] at heq
        exact absurd heq.1.symm Err.configSyntax_ne_ok
    · intro h
      exact Or.inl ⟨v, (hdenotes v).mpr rfl, by rw [h]⟩

theorem convert_int_minus : intType.convert (-1) = -1 := by decide

theorem convert_int_iff (v : Nat) :
    intType.convert v = v ∨ intType.convert v = -1 ↔
      v ≤ intType.max ∨ v % 2 ^ intType.bits = 2 ^ intType.bits - 1 := by
  refine or_congr ?_ ?_
  · rw [Signed.convert_eq_iff]
    exact ⟨fun h => Int.ofNat_le.mp h.2, Signed.fits_of_nonneg⟩
  · simp only [Signed.convert, intType, Int.bmod_def]
    omega

/-- `fpx_handler_size` stores every size that it accepts. `fpx_handler_uint` does so exactly
when the size is within the range of `int`, or its low bits are those of `-1`, so that it is
refused. -/
theorem handlers_store_iff (T : SsizeType) (name : Bytes) (offset : Nat) (arg : Bytes)
    (data : Nat → Int) :
    StoresOrRefuses name offset arg data (handlerSize T name offset arg data) ∧
      (StoresOrRefuses name offset arg data (handlerUint T name offset arg data) ↔
        ∀ v, Denotes arg v → v ≤ T.max →
          v ≤ intType.max ∨ v % 2 ^ intType.bits = 2 ^ intType.bits - 1) := by
  rcases parseSize_eq T arg with ⟨v, hv, hparse⟩ | ⟨hno, hparse⟩
  · by_cases hfits : v ≤ T.max
    · rw [if_pos hfits] at hparse
      refine ⟨(handlerNumber_iff hparse hv).mpr (Or.inl rfl), ?_⟩
      apply ((handlerNumber_iff hparse hv).trans (convert_int_iff v)).trans
      exact ⟨fun h v' hv' _ => (hv v').mp hv' ▸ h, fun h => h v ((hv v).mpr rfl) hfits⟩
    · rw [if_neg hfits] at hparse
      refine ⟨handlerNumber_refuses hparse rfl,
        iff_of_true (handlerNumber_refuses hparse convert_int_minus) fun v' hv' hle => ?_⟩
      exact absurd ((hv v').mp hv' ▸ hle) hfits
  · exact ⟨handlerNumber_refuses hparse rfl,
      iff_of_true (handlerNumber_refuses hparse convert_int_minus) fun v hv => absurd hv (hno v)⟩

def fives : Nat → Int := fun _ => 5

/-- `priority 4G` stores zero, and `priority 3G` a negative value. -/
theorem priority_truncated :
    handlerUint ssize64 (ascii "priority") 0 (ascii "4G") fives =
        .ok (Err.ok, Function.update fives 0 0, []) ∧
      handlerUint ssize64 (ascii "priority") 0 (ascii "3G") fives =
        .ok (Err.ok, Function.update fives 0 (-1073741824), []) ∧
      ¬ StoresOrRefuses (ascii "priority") 0 (ascii "4G") fives
        (handlerUint ssize64 (ascii "priority") 0 (ascii "4G") fives) := by
  have hfour : parseSize ssize64 (ascii "4G") = .ok ((4294967296 : Nat) : Int) := rfl
  have hthree : parseSize ssize64 (ascii "3G") = .ok ((3221225472 : Nat) : Int) := rfl
  have hzero : intType.convert (4294967296 : Nat) = 0 := by decide
  have hnegative : intType.convert (3221225472 : Nat) = -1073741824 := by decide
  refine ⟨?_, ?_, ?_⟩
  · rw [handlerUint, handlerNumber_eq hfour, hzero]
    rfl
  · rw [handlerUint, handlerNumber_eq hthree, hnegative]
    rfl
  · have hvalue (v : Nat) : Denotes (ascii "4G") v ↔ v = 4294967296 := by
      have hdigit : IsNumber (ascii "4") := by decide
      have hdenotes := @denotes_concat_iff (ascii "4") 0x47 v
      exact hdenotes.trans (and_iff_right hdigit)
    rw [handlerUint, handlerNumber_iff hfour hvalue, hzero]
    decide

end Floppix.Configuration
