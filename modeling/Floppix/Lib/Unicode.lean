import Mathlib.Data.List.Basic

/-! # Encodings of characters

The encodings of a sequence of scalar values in bytes and in units of 16 bits. A string of
bytes is well-formed when it is the first encoding of some sequence.
-/

namespace Unicode

/-- The units of a code point: itself, or a pair of surrogates. -/
def utf16 (n : Nat) : List Nat :=
  if n ≤ 0xffff then [n] else [0xd800 + (n - 0x10000) / 0x400, 0xdc00 + (n - 0x10000) % 0x400]

def utf16All (cs : List Nat) : List Nat := cs.flatMap utf16

def utf8All (cs : List Char) : List UInt8 := cs.flatMap String.utf8EncodeChar

def WellFormed (str : List UInt8) : Prop := ∃ cs, str = utf8All cs

@[simp] theorem utf16All_nil : utf16All [] = [] := rfl

@[simp] theorem utf16All_cons (n : Nat) (cs : List Nat) :
    utf16All (n :: cs) = utf16 n ++ utf16All cs := rfl

@[simp] theorem utf8All_cons (c : Char) (cs : List Char) :
    utf8All (c :: cs) = String.utf8EncodeChar c ++ utf8All cs := rfl

theorem utf16_small {n : Nat} (h : n ≤ 0xffff) : utf16 n = [n] := if_pos h

theorem utf16_large {n : Nat} (h : 0xffff < n) :
    utf16 n = [0xd800 + (n - 0x10000) / 0x400, 0xdc00 + (n - 0x10000) % 0x400] :=
  if_neg (Nat.not_le.mpr h)

theorem utf16_length_pos (n : Nat) : 0 < (utf16 n).length := by
  unfold utf16
  split <;> simp

theorem utf16_length_le (n : Nat) : (utf16 n).length ≤ 2 := by
  unfold utf16
  split <;> simp

/-! ## The bytes of a character -/

theorem toNat_lt (c : Char) : c.toNat < 0x110000 := by
  obtain hlow | ⟨-, hhigh⟩ := c.valid
  · have hlow : c.toNat < 0xd800 := hlow
    omega
  · exact hhigh

theorem toNat_not_surrogate (c : Char) : c.toNat < 0xd800 ∨ 0xdfff < c.toNat := by
  obtain hlow | ⟨hhigh, -⟩ := c.valid
  · exact Or.inl hlow
  · exact Or.inr hhigh

/-- The first byte, and the bytes behind it with six bits each. -/
theorem utf8EncodeChar_cases (c : Char) :
    (c.toNat ≤ 0x7f ∧ ∃ a, String.utf8EncodeChar c = [a] ∧ a.toNat = c.toNat) ∨
    (0x7f < c.toNat ∧ c.toNat ≤ 0x7ff ∧ ∃ a b, String.utf8EncodeChar c = [a, b] ∧
      a.toNat = 0xc0 + c.toNat / 0x40 ∧ b.toNat = 0x80 + c.toNat % 0x40) ∨
    (0x7ff < c.toNat ∧ c.toNat ≤ 0xffff ∧ ∃ a b d, String.utf8EncodeChar c = [a, b, d] ∧
      a.toNat = 0xe0 + c.toNat / 0x1000 ∧ b.toNat = 0x80 + c.toNat / 0x40 % 0x40 ∧
      d.toNat = 0x80 + c.toNat % 0x40) ∨
    (0xffff < c.toNat ∧ ∃ a b d e, String.utf8EncodeChar c = [a, b, d, e] ∧
      a.toNat = 0xf0 + c.toNat / 0x40000 ∧ b.toNat = 0x80 + c.toNat / 0x1000 % 0x40 ∧
      d.toNat = 0x80 + c.toNat / 0x40 % 0x40 ∧ e.toNat = 0x80 + c.toNat % 0x40) := by
  have hlt := toNat_lt c
  have hbyte : ∀ n, n < 256 → (UInt8.ofNat n).toNat = n := fun n hn => UInt8.toNat_ofNat_of_lt' hn
  unfold String.utf8EncodeChar
  change c.val.toNat < _ at hlt
  simp only [Char.toNat]
  by_cases hone : c.val.toNat ≤ 0x7f
  · exact Or.inl ⟨hone, _, if_pos hone, hbyte _ (by omega)⟩
  right
  rw [if_neg hone]
  by_cases htwo : c.val.toNat ≤ 0x7ff
  · left
    refine ⟨by omega, htwo, _, _, if_pos htwo, ?_, ?_⟩
    · rw [hbyte _ (by omega)]
      omega
    · rw [hbyte _ (by omega), Nat.add_comm]
  right
  rw [if_neg htwo]
  by_cases hthree : c.val.toNat ≤ 0xffff
  · left
    refine ⟨by omega, hthree, _, _, _, if_pos hthree, ?_, ?_, ?_⟩
    · rw [hbyte _ (by omega)]
      omega
    · rw [hbyte _ (by omega), Nat.add_comm]
    · rw [hbyte _ (by omega), Nat.add_comm]
  right
  refine ⟨by omega, _, _, _, _, if_neg hthree, ?_, ?_, ?_, ?_⟩
  · rw [hbyte _ (by omega)]
    omega
  · rw [hbyte _ (by omega), Nat.add_comm]
  · rw [hbyte _ (by omega), Nat.add_comm]
  · rw [hbyte _ (by omega), Nat.add_comm]

theorem utf8EncodeChar_bounds {c : Char} {a : UInt8} {conts : List UInt8}
    (h : String.utf8EncodeChar c = a :: conts) :
    a.toNat < 0xf8 ∧ ∀ i ∈ conts, i.toNat < 0xc0 := by
  have hlt := toNat_lt c
  obtain ⟨hmax, x, henc, hx⟩ | ⟨-, hmax, x, y, henc, hx, hy⟩ |
    ⟨-, hmax, x, y, z, henc, hx, hy, hz⟩ | ⟨-, w, x, y, z, henc, hw, hx, hy, hz⟩ :=
    utf8EncodeChar_cases c
  all_goals
    rw [h] at henc
    cases henc
    simp only [List.forall_mem_cons, List.not_mem_nil, false_implies, implies_true, and_true]
    omega

theorem utf8EncodeChar_ascii {a : UInt8} (ha : a.toNat < 0x80) :
    String.utf8EncodeChar (Char.ofNat a.toNat) = [a] := by
  have hvalid : a.toNat.isValidChar := Or.inl (by omega)
  have hnat : (Char.ofNat a.toNat).toNat = a.toNat := by
    rw [Char.ofNat, dif_pos hvalid]
    rfl
  obtain ⟨-, b, henc, hb⟩ | ⟨hlow, -⟩ | ⟨hlow, -⟩ | ⟨hlow, -⟩ :=
    utf8EncodeChar_cases (Char.ofNat a.toNat)
  · rw [henc, UInt8.toNat_inj.mp (hb.trans hnat)]
  all_goals omega

theorem WellFormed.cons {c : Char} {str : List UInt8} (h : WellFormed str) :
    WellFormed (String.utf8EncodeChar c ++ str) := by
  obtain ⟨cs, rfl⟩ := h
  exact ⟨c :: cs, rfl⟩

end Unicode
