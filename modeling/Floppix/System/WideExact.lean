import Floppix.System.WideConversion

/-! # Well-formed and ill-formed paths

A well-formed path is converted exactly. An ill-formed one is refused, but for three things
that the decoder does not look at: the bit that a lead byte from `0xf8` on has more than one
from `0xf0` on, the bit that tells a lead byte from one behind it, and the surrogates.
-/

namespace Floppix.WidePath

open Outcome Unicode

variable {n : Nat} {cs ds : List Nat} {str bytes : Bytes}

/-! ## Well-formed paths -/

theorem Decoded.high (h : Decoded n bytes) : ∀ i ∈ bytes, 0x80 ≤ i.toNat := by
  cases h with
  | two hlow _ hb => simp only [List.forall_mem_cons]; exact ⟨by omega, hb, by simp⟩
  | three hlow _ hb hc => simp only [List.forall_mem_cons]; exact ⟨by omega, hb, hc, by simp⟩
  | four hlow hb hc hd => simp only [List.forall_mem_cons]; exact ⟨by omega, hb, hc, hd, by simp⟩

theorem Spelled.unique (h : Spelled cs str) (h' : Spelled ds str) : ds = cs := by
  induction h generalizing ds with
  | nil => exact spelled_nil_iff.mp h'
  | ascii hc _ ih =>
      obtain ⟨ds', rfl, hrest⟩ := (spelled_ascii_iff hc).mp h'
      rw [ih hrest]
  | char hn _ ih =>
      obtain ⟨ds', rfl, hrest⟩ := (spelled_char_iff hn).mp h'
      rw [ih hrest]

theorem decoded_utf8EncodeChar {c : Char} (hc : 0x7f < c.toNat) :
    Decoded c.toNat (String.utf8EncodeChar c) := by
  have hlt := toNat_lt c
  obtain ⟨hone, -⟩ | ⟨-, hmax, a, b, henc, ha, hb⟩ | ⟨hmin, hmax, a, b, d, henc, ha, hb, hd⟩ |
    ⟨hmin, a, b, d, e, henc, ha, hb, hd, he⟩ := utf8EncodeChar_cases c
  · omega
  · have hgather : gather (a.toNat % 0x20) [b] = c.toNat := by
      simp only [gather, List.foldl_cons, List.foldl_nil]
      omega
    rw [henc, ← hgather]
    exact .two (by omega) (by omega) (by omega)
  · have hgather : gather (a.toNat % 0x10) [b, d] = c.toNat := by
      simp only [gather, List.foldl_cons, List.foldl_nil]
      omega
    rw [henc, ← hgather]
    exact .three (by omega) (by omega) (by omega) (by omega) (by omega)
  · have hgather : gather (a.toNat % 8) [b, d, e] = c.toNat := by
      simp only [gather, List.foldl_cons, List.foldl_nil]
      omega
    rw [henc, ← hgather]
    exact .four (by omega) (by omega) (by omega) (by omega) (by omega) (by omega)

theorem spelled_utf8All (cs : List Char) : Spelled (cs.map Char.toNat) (utf8All cs) := by
  induction cs with
  | nil => exact .nil
  | cons c cs ih =>
      rw [List.map_cons, utf8All_cons]
      by_cases hc : c.toNat ≤ 0x7f
      · obtain ⟨-, a, henc, ha⟩ | ⟨hlow, -⟩ | ⟨hlow, -⟩ | ⟨hlow, -⟩ := utf8EncodeChar_cases c
        · rw [henc, ← ha]
          exact .ascii (by omega) ih
        all_goals omega
      · exact .char (decoded_utf8EncodeChar (Nat.not_le.mp hc)) ih

theorem zero_not_mem_utf8All {cs : List Char} (h : ∀ c ∈ cs, c.toNat ≠ 0) : 0 ∉ utf8All cs := by
  intro hmem
  obtain ⟨c, hc, hzero⟩ := List.mem_flatMap.mp hmem
  have hne := h c hc
  by_cases hlow : c.toNat ≤ 0x7f
  · obtain ⟨-, a, henc, ha⟩ | ⟨hlow, -⟩ | ⟨hlow, -⟩ | ⟨hlow, -⟩ := utf8EncodeChar_cases c
    · rw [henc, List.mem_singleton] at hzero
      rw [← hzero] at ha
      exact hne ha.symm
    all_goals omega
  · have hhigh := (decoded_utf8EncodeChar (Nat.not_le.mp hlow)).high 0 hzero
    exact absurd hhigh (by decide)

/-- The encoding of every sequence of scalar values in bytes is converted to its encoding in
units of 16 bits, if there is a place for these and for the terminator, and refused if not. -/
theorem pathToWchar_exact (cs : List Char) (hnul : ∀ c ∈ cs, c.toNat ≠ 0) (outlen rounds : Nat)
    (hrounds : outlen < rounds) :
    ∃ res, pathToWchar outlen outlen rounds (utf8All cs) = .ok res ∧ res.out.length ≤ outlen ∧
      ((utf16All (cs.map Char.toNat)).length + 1 ≤ outlen →
        res = ⟨true, utf16All (cs.map Char.toNat) ++ [0]⟩) ∧
      (outlen < (utf16All (cs.map Char.toNat)).length + 1 → res.done = false) := by
  have hconverts := wcharLoop_converts (zero_not_mem_utf8All hnul) (Nat.zero_le outlen)
    (show outlen < [].length + rounds by simpa using hrounds)
  obtain ⟨res, hok, h⟩ := hconverts.exists_ok not_false
  refine ⟨res, hok, h.bound, fun hfits => ?_, fun hlong => ?_⟩
  · exact h.fits _ (spelled_utf8All cs) (by simpa using hfits)
  · by_contra hdone
    obtain ⟨ds, hds, hle⟩ := h.done (by simpa using hdone)
    rw [(spelled_utf8All cs).unique hds, List.length_nil] at hle
    omega

/-- Characters of one, two, three and four bytes, in an array that ends with the terminator. -/
theorem pathToWchar_exact_mixed :
    ∃ res, pathToWchar 6 6 7 (utf8All ['a', 'é', '€', '😀']) = .ok res ∧ res.out.length ≤ 6 ∧
      ((utf16All (['a', 'é', '€', '😀'].map Char.toNat)).length + 1 ≤ 6 →
        res = ⟨true, utf16All (['a', 'é', '€', '😀'].map Char.toNat) ++ [0]⟩) ∧
      (6 < (utf16All (['a', 'é', '€', '😀'].map Char.toNat)).length + 1 → res.done = false) :=
  pathToWchar_exact ['a', 'é', '€', '😀'] (by simp) 6 7 (by decide)

/-! ## Ill-formed paths -/

/-- Bytes that the decoder takes for a character and that are not those of one: the lead byte is
`0xf8` or above, a byte behind it is `0xc0` or above, or the value is that of a surrogate. -/
inductive Slip : Nat → Bytes → Prop
  | lead {n : Nat} {a : UInt8} {conts : Bytes} (h : Decoded n (a :: conts))
      (ha : 0xf8 ≤ a.toNat) : Slip n (a :: conts)
  | behind {n : Nat} {a i : UInt8} {conts : Bytes} (h : Decoded n (a :: conts))
      (hi : i ∈ conts) (hhigh : 0xc0 ≤ i.toNat) : Slip n (a :: conts)
  | surrogate {n : Nat} {bytes : Bytes} (h : Decoded n bytes) (hlow : 0xd800 ≤ n)
      (hhigh : n ≤ 0xdfff) : Slip n bytes

def Slipped (cs : List Nat) (str : Bytes) : Prop :=
  ∃ before n behind us bytes vs, cs = before ++ n :: behind ∧ str = us ++ (bytes ++ vs) ∧
    Spelled before us ∧ Slip n bytes ∧ Spelled behind vs

theorem Slip.decoded (h : Slip n bytes) : Decoded n bytes := by
  cases h with
  | lead h => exact h
  | behind h => exact h
  | surrogate h => exact h

theorem Spelled.append {us vs : Bytes} (h : Spelled cs us) (h' : Spelled ds vs) :
    Spelled (cs ++ ds) (us ++ vs) := by
  induction h with
  | nil => exact h'
  | ascii hc _ ih => exact .ascii hc ih
  | char hn _ ih =>
      rw [List.append_assoc]
      exact .char hn ih

theorem Slipped.spelled (h : Slipped cs str) : Spelled cs str := by
  obtain ⟨before, n, behind, us, bytes, vs, rfl, rfl, hbefore, hslip, hbehind⟩ := h
  exact hbefore.append (.char hslip.decoded hbehind)

theorem Slipped.append {us : Bytes} (h : Slipped ds str) (hus : Spelled cs us) :
    Slipped (cs ++ ds) (us ++ str) := by
  obtain ⟨before, n, behind, us', bytes, vs, rfl, rfl, hbefore, hslip, hbehind⟩ := h
  exact ⟨cs ++ before, n, behind, us ++ us', bytes, vs, by simp, by simp, hus.append hbefore,
    hslip, hbehind⟩

/-- The last byte gives the last six bits. -/
theorem gather_mod (u : Nat) (conts : Bytes) (i : UInt8) :
    gather u (conts ++ [i]) % 0x40 = i.toNat % 0x40 := by
  rw [gather, List.foldl_append]
  simp only [List.foldl_cons, List.foldl_nil]
  omega

theorem gather_div (u : Nat) (conts : Bytes) (i : UInt8) :
    gather u (conts ++ [i]) / 0x40 = gather u conts := by
  simp only [gather, List.foldl_append, List.foldl_cons, List.foldl_nil]
  omega

theorem gather_div_two (u : Nat) (conts : Bytes) (i j : UInt8) :
    gather u (conts ++ [i, j]) / 0x1000 = gather u conts := by
  rw [show (0x1000 : Nat) = 0x40 * 0x40 from rfl, ← Nat.div_div_eq_div_mul,
    show conts ++ [i, j] = (conts ++ [i]) ++ [j] by simp, gather_div, gather_div]

theorem gather_div_three (u : Nat) (conts : Bytes) (i j k : UInt8) :
    gather u (conts ++ [i, j, k]) / 0x40000 = gather u conts := by
  rw [show (0x40000 : Nat) = 0x1000 * 0x40 from rfl, ← Nat.div_div_eq_div_mul,
    show conts ++ [i, j, k] = (conts ++ [i]) ++ [j, k] by simp, gather_div_two, gather_div]

/-- A byte that is one behind a lead byte has its six bits under the mark. -/
theorem toNat_of_mod {x i : UInt8} {n : Nat} (hx : x.toNat = 0x80 + n % 0x40)
    (hn : n % 0x40 = i.toNat % 0x40) (hlow : 0x80 ≤ i.toNat) (hhigh : i.toNat < 0xc0) :
    x = i := by
  apply UInt8.toNat_inj.mp
  omega

theorem toNat_of_lead {x a : UInt8} {n mark room : Nat} (hx : x.toNat = mark + n)
    (hn : n = a.toNat % room) (ha : a.toNat = mark + a.toNat % room) : x = a := by
  apply UInt8.toNat_inj.mp
  omega

/-- Without a slip the bytes are those of a character. -/
theorem Decoded.strict {a : UInt8} {conts : Bytes} (h : Decoded n (a :: conts))
    (ha : a.toNat < 0xf8) (hconts : ∀ i ∈ conts, i.toNat < 0xc0)
    (hn : n < 0xd800 ∨ 0xdfff < n) : ∃ c : Char, String.utf8EncodeChar c = a :: conts := by
  have hmax := h.le
  have hvalid : n.isValidChar := by
    unfold Nat.isValidChar
    omega
  obtain ⟨ch, hch⟩ : ∃ ch : Char, ch.toNat = n := ⟨Char.ofNatAux n hvalid, rfl⟩
  refine ⟨ch, ?_⟩
  have hcases := utf8EncodeChar_cases ch
  rw [hch] at hcases
  cases h with
  | @two a b hlow hhigh hb =>
      have hb' := hconts b (by simp)
      have hlast : gather (a.toNat % 0x20) [b] % 0x40 = b.toNat % 0x40 := gather_mod _ [] b
      have hlead : gather (a.toNat % 0x20) [b] / 0x40 = a.toNat % 0x20 := gather_div _ [] b
      obtain ⟨hone, -⟩ | ⟨-, -, x, y, henc, hx, hy⟩ | ⟨hmin, -⟩ | ⟨hmin, -⟩ := hcases
      · omega
      · rw [henc, toNat_of_lead hx hlead (by omega), toNat_of_mod hy hlast hb hb']
      · omega
      · omega
  | @three a b c hlow hhigh hb hc hmin =>
      have hb' := hconts b (by simp)
      have hc' := hconts c (by simp)
      have hlead : gather (a.toNat % 0x10) [b, c] / 0x1000 = a.toNat % 0x10 :=
        gather_div_two _ [] b c
      have hfront : gather (a.toNat % 0x10) [b, c] / 0x40 = gather (a.toNat % 0x10) [b] :=
        gather_div _ [b] c
      have hsecond : gather (a.toNat % 0x10) [b, c] / 0x40 % 0x40 = b.toNat % 0x40 :=
        hfront ▸ gather_mod _ [] b
      have hlast : gather (a.toNat % 0x10) [b, c] % 0x40 = c.toNat % 0x40 := gather_mod _ [b] c
      obtain ⟨hone, -⟩ | ⟨-, hmax, -⟩ | ⟨-, -, x, y, z, henc, hx, hy, hz⟩ | ⟨hmin, -⟩ := hcases
      · omega
      · omega
      · rw [henc, toNat_of_lead hx hlead (by omega), toNat_of_mod hy hsecond hb hb',
          toNat_of_mod hz hlast hc hc']
      · omega
  | @four a b c d hlow hb hc hd hmin =>
      have hb' := hconts b (by simp)
      have hc' := hconts c (by simp)
      have hd' := hconts d (by simp)
      have hlead : gather (a.toNat % 8) [b, c, d] / 0x40000 = a.toNat % 8 :=
        gather_div_three _ [] b c d
      have hfront : gather (a.toNat % 8) [b, c, d] / 0x1000 = gather (a.toNat % 8) [b] :=
        gather_div_two _ [b] c d
      have hfront' : gather (a.toNat % 8) [b, c, d] / 0x40 = gather (a.toNat % 8) [b, c] :=
        gather_div _ [b, c] d
      have hsecond : gather (a.toNat % 8) [b, c, d] / 0x1000 % 0x40 = b.toNat % 0x40 :=
        hfront ▸ gather_mod _ [] b
      have hthird : gather (a.toNat % 8) [b, c, d] / 0x40 % 0x40 = c.toNat % 0x40 :=
        hfront' ▸ gather_mod _ [b] c
      have hlast : gather (a.toNat % 8) [b, c, d] % 0x40 = d.toNat % 0x40 :=
        gather_mod _ [b, c] d
      obtain ⟨hone, -⟩ | ⟨-, hmax, -⟩ | ⟨-, hmax, -⟩ | ⟨-, w, x, y, z, henc, hw, hx, hy, hz⟩ :=
        hcases
      · omega
      · omega
      · omega
      · rw [henc, toNat_of_lead hw hlead (by omega), toNat_of_mod hx hsecond hb hb',
          toNat_of_mod hy hthird hc hc', toNat_of_mod hz hlast hd hd']

theorem Decoded.slip_or_strict (h : Decoded n bytes) :
    Slip n bytes ∨ ∃ c : Char, String.utf8EncodeChar c = bytes := by
  obtain ⟨a, conts, rfl, -⟩ := h.head
  by_cases ha : 0xf8 ≤ a.toNat
  · exact Or.inl (.lead h ha)
  by_cases hconts : ∃ i ∈ conts, 0xc0 ≤ i.toNat
  · obtain ⟨i, hi, hhigh⟩ := hconts
    exact Or.inl (.behind h hi hhigh)
  by_cases hn : 0xd800 ≤ n ∧ n ≤ 0xdfff
  · exact Or.inl (.surrogate h hn.1 hn.2)
  · refine Or.inr (h.strict (Nat.not_le.mp ha) (fun i hi => ?_) (by omega))
    exact Nat.not_le.mp fun hhigh => hconts ⟨i, hi, hhigh⟩

/-- What the decoder takes is well-formed, or there is a slip in it. -/
theorem Spelled.slipped (h : Spelled cs str) (hill : ¬ WellFormed str) : Slipped cs str := by
  induction h with
  | nil => exact absurd ⟨[], rfl⟩ hill
  | @ascii c cs str hc h ih =>
      have hrest := ih fun hwell => hill (by
        rw [← List.singleton_append, ← utf8EncodeChar_ascii hc]
        exact hwell.cons)
      exact hrest.append (.ascii hc .nil)
  | @char n cs bytes str hn h ih =>
      obtain hslip | ⟨c, rfl⟩ := hn.slip_or_strict
      · exact ⟨[], n, cs, [], bytes, str, rfl, rfl, .nil, hslip, h⟩
      · have hone : Spelled [n] (String.utf8EncodeChar c) := by
          have happend := Spelled.char hn .nil
          rwa [List.append_nil] at happend
        exact (ih fun hwell => hill hwell.cons).append hone

/-- An ill-formed string is refused, exactly if the decoder does not take it in spite of a slip
for a string that has a place in the array. -/
theorem pathToWchar_refuses_iff (str : Bytes) (hnul : 0 ∉ str) (hill : ¬ WellFormed str)
    (outlen rounds : Nat) (hrounds : outlen < rounds) :
    (∃ res, pathToWchar outlen outlen rounds str = .ok res ∧ res.done = false) ↔
      ¬ ∃ cs, Slipped cs str ∧ (utf16All cs).length + 1 ≤ outlen := by
  have hconverts := wcharLoop_converts hnul (Nat.zero_le outlen)
    (show outlen < [].length + rounds by simpa using hrounds)
  obtain ⟨res, hok, h⟩ := hconverts.exists_ok not_false
  constructor
  · rintro ⟨res', hok', hdone⟩ ⟨cs, hcs, hle⟩
    rw [pathToWchar, hok] at hok'
    cases hok'
    rw [h.fits cs hcs.spelled (by simpa using hle)] at hdone
    cases hdone
  · intro hnone
    refine ⟨res, hok, ?_⟩
    by_contra hdone
    obtain ⟨cs, hcs, hle⟩ := h.done (by simpa using hdone)
    exact hnone ⟨cs, hcs.slipped hill, by simpa using hle⟩

theorem not_spelled_stray (cs : List Nat) : ¬ Spelled cs [0x61, 0x80] := by
  intro h
  obtain ⟨cs', -, hrest⟩ := (spelled_ascii_iff (by decide)).mp h
  obtain ⟨n, ds, bytes, rest, -, hsplit, hn, -⟩ := hrest.high (by decide)
  cases hn with
  | two => cases hsplit
  | three => cases hsplit
  | four => cases hsplit

/-- A byte that is behind no lead byte is refused. -/
theorem pathToWchar_refuses_stray :
    ∃ res, pathToWchar 10 10 11 [0x61, 0x80] = .ok res ∧ res.done = false :=
  (pathToWchar_refuses_iff [0x61, 0x80] (by decide)
    (fun ⟨cs, hcs⟩ => not_spelled_stray _ (hcs ▸ spelled_utf8All cs)) 10 11 (by decide)).mpr
    fun ⟨cs, hcs, _⟩ => not_spelled_stray cs hcs.spelled

theorem Slip.not_wellFormed (h : Slip n bytes) : ¬ WellFormed bytes := by
  rintro ⟨cs, hcs⟩
  have hone : Spelled [n] (bytes ++ []) := .char h.decoded .nil
  rw [List.append_nil, hcs] at hone
  obtain ⟨c, rfl, hc⟩ := List.map_eq_singleton_iff.mp (hone.unique (spelled_utf8All cs))
  have henc : bytes = String.utf8EncodeChar c := by rw [hcs, utf8All_cons]; exact List.append_nil _
  cases h with
  | lead _ ha =>
      have hbound := (utf8EncodeChar_bounds henc.symm).1
      omega
  | behind _ hi hhigh =>
      have hbound := (utf8EncodeChar_bounds henc.symm).2 _ hi
      omega
  | surrogate _ hlow hhigh =>
      have hnot := toNat_not_surrogate c
      omega

/-- Three ill-formed strings get past the conversion: a lead byte `0xf8`, a byte `0xe9` behind a
lead byte, which makes the path that of another string, and a surrogate. -/
theorem illFormed_converted :
    ¬ WellFormed [0xf8, 0x90, 0x80, 0x80] ∧
      pathToWchar 10 10 11 [0xf8, 0x90, 0x80, 0x80] = .ok ⟨true, [0xd800, 0xdc00, 0]⟩ ∧
    ¬ WellFormed [0xc3, 0xe9] ∧
      pathToWchar 10 10 11 [0xc3, 0xe9] = pathToWchar 10 10 11 [0xc3, 0xa9] ∧
      pathToWchar 10 10 11 [0xc3, 0xe9] = .ok ⟨true, [0xe9, 0]⟩ ∧
    ¬ WellFormed [0xed, 0xa0, 0x80] ∧
      pathToWchar 10 10 11 [0xed, 0xa0, 0x80] = .ok ⟨true, [0xd800, 0]⟩ := by
  have hlead : Decoded 0x10000 [0xf8, 0x90, 0x80, 0x80] :=
    Decoded.four (a := 0xf8) (b := 0x90) (c := 0x80) (d := 0x80) (by decide) (by decide)
      (by decide) (by decide) (by decide) (by decide)
  have hbehind : Decoded 0xe9 [0xc3, 0xe9] :=
    Decoded.two (a := 0xc3) (b := 0xe9) (by decide) (by decide) (by decide)
  have hsurrogate : Decoded 0xd800 [0xed, 0xa0, 0x80] :=
    Decoded.three (a := 0xed) (b := 0xa0) (c := 0x80) (by decide) (by decide) (by decide)
      (by decide) (by decide)
  exact ⟨(Slip.lead hlead (by decide)).not_wellFormed, rfl,
    (Slip.behind hbehind (List.mem_singleton_self _) (by decide)).not_wellFormed, rfl, rfl,
    (Slip.surrogate hsurrogate (by decide) (by decide)).not_wellFormed, rfl⟩

end Floppix.WidePath
