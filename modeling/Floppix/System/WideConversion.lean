import Floppix.System.WidePath

/-! # What becomes of a path

The conversion reads the characters that the decoder takes and writes their units, until the
terminator is written or there is no place for the next character. It neither reads behind the
terminator nor writes behind the array.
-/

namespace Floppix.WidePath

open Outcome Unicode

variable {cap outlen rounds n unit : Nat} {out cs : List Nat} {str bytes rest : Bytes} {a c : UInt8}
  {res : Converted}

/-! ## Characters of a string -/

theorem spelled_nil_iff : Spelled cs [] ↔ cs = [] := by
  constructor
  · intro h
    generalize hs : ([] : Bytes) = s at h
    cases h with
    | nil => rfl
    | ascii => cases hs
    | char hn _ =>
        obtain ⟨a, tail, rfl, -⟩ := hn.head
        cases hs
  · rintro rfl
    exact .nil

theorem spelled_ascii_iff (hc : c.toNat < 0x80) :
    Spelled cs (c :: str) ↔ ∃ cs', cs = c.toNat :: cs' ∧ Spelled cs' str := by
  constructor
  · intro h
    generalize hs : c :: str = s at h
    cases h with
    | nil => cases hs
    | ascii _ h =>
        cases hs
        exact ⟨_, rfl, h⟩
    | char hn _ =>
        obtain ⟨a, tail, rfl, ha⟩ := hn.head
        cases hs
        omega
  · rintro ⟨cs', rfl, h⟩
    exact .ascii hc h

theorem Spelled.high (h : Spelled cs (a :: str)) (ha : 0x80 ≤ a.toNat) :
    ∃ n cs' bytes rest, cs = n :: cs' ∧ a :: str = bytes ++ rest ∧ Decoded n bytes ∧
      Spelled cs' rest := by
  generalize hs : a :: str = s at h
  cases h with
  | nil => cases hs
  | ascii hc =>
      cases hs
      omega
  | char hn h => exact ⟨_, _, _, _, rfl, rfl, hn, h⟩

theorem spelled_char_iff (hn : Decoded n bytes) :
    Spelled cs (bytes ++ rest) ↔ ∃ cs', cs = n :: cs' ∧ Spelled cs' rest := by
  constructor
  · intro h
    obtain ⟨a, tail, rfl, ha⟩ := hn.head
    obtain ⟨n', cs', bytes', rest', rfl, hsplit, hn', h'⟩ := Spelled.high h ha
    have hdecode : utf8Decode 4 (a :: tail ++ rest) = .ok (n', rest') := by
      rw [show a :: tail ++ rest = bytes' ++ rest' from hsplit]
      exact hn'.utf8Decode_eq rest'
    rw [hn.utf8Decode_eq rest] at hdecode
    cases hdecode
    exact ⟨cs', rfl, h'⟩
  · rintro ⟨cs', rfl, h⟩
    exact .char hn h

/-! ## The loop -/

/-- What the conversion makes of the rest of a string behind the units that are there. -/
structure Converts (outlen : Nat) (out : List Nat) (str : Bytes) (res : Converted) : Prop where
  bound : res.out.length ≤ outlen
  fits : ∀ cs, Spelled cs str → out.length + (utf16All cs).length + 1 ≤ outlen →
    res = ⟨true, out ++ utf16All cs ++ [0]⟩
  done : res.done = true → ∃ cs, Spelled cs str ∧ out.length + (utf16All cs).length + 1 ≤ outlen

theorem Converts.stop (hout : out.length ≤ outlen)
    (h : ∀ cs, Spelled cs str → outlen < out.length + (utf16All cs).length + 1) :
    Converts outlen out str ⟨false, out⟩ where
  bound := hout
  fits cs hcs hle := absurd (h cs hcs) (Nat.not_lt.mpr hle)
  done hdone := absurd hdone (by simp)

/-- The units of the first character are written. -/
theorem Converts.next (hstr : ∀ cs, Spelled cs str ↔ ∃ cs', cs = n :: cs' ∧ Spelled cs' rest)
    (h : Converts outlen (out ++ utf16 n) rest res) : Converts outlen out str res where
  bound := h.bound
  fits cs hcs hle := by
    obtain ⟨cs', rfl, hcs'⟩ := (hstr cs).mp hcs
    rw [utf16All_cons, List.length_append] at hle
    rw [h.fits cs' hcs' (by rw [List.length_append]; omega), utf16All_cons]
    simp only [List.append_assoc]
  done hdone := by
    obtain ⟨cs', hcs', hle⟩ := h.done hdone
    refine ⟨n :: cs', (hstr _).mpr ⟨cs', rfl, hcs'⟩, ?_⟩
    rw [utf16All_cons, List.length_append]
    rw [List.length_append] at hle
    omega

theorem put_ok (h : out.length < cap) (hunit : unit < 2 ^ 16) :
    put cap out unit = .ok (out ++ [unit]) := by
  rw [put, if_pos h, Nat.mod_eq_of_lt hunit]

theorem put_overrun (h : cap ≤ out.length) : put cap out unit = .error .overrun :=
  if_neg (Nat.not_lt.mpr h)

theorem putAll_ok {units : List Nat} (h : out.length + units.length ≤ cap)
    (hunits : ∀ unit ∈ units, unit < 2 ^ 16) :
    units.foldlM (put cap) out = .ok (out ++ units) := by
  induction units generalizing out with
  | nil =>
      rw [List.append_nil]
      rfl
  | cons unit units ih =>
      obtain ⟨hunit, hunits⟩ := List.forall_mem_cons.mp hunits
      rw [List.length_cons] at h
      rw [List.foldlM_cons, put_ok (by omega) hunit, List.append_cons out unit units]
      refine ih ?_ hunits
      rw [List.length_append, List.length_singleton]
      omega

theorem putAll_overrun {units : List Nat} (hout : out.length ≤ cap)
    (h : cap < out.length + units.length) (hunits : ∀ unit ∈ units, unit < 2 ^ 16) :
    units.foldlM (put cap) out = .error .overrun := by
  induction units generalizing out with
  | nil => exact absurd h (by rw [List.length_nil]; omega)
  | cons unit units ih =>
      obtain ⟨hunit, hunits⟩ := List.forall_mem_cons.mp hunits
      rw [List.length_cons] at h
      by_cases hfull : cap ≤ out.length
      · rw [List.foldlM_cons, put_overrun hfull]
        rfl
      · rw [List.foldlM_cons, put_ok (Nat.not_le.mp hfull) hunit]
        refine ih ?_ ?_ hunits
        · rw [List.length_append, List.length_singleton]
          omega
        · rw [List.length_append, List.length_singleton]
          omega

theorem utf16_lt (hn : n ≤ 0x10ffff) : ∀ unit ∈ utf16 n, unit < 2 ^ 16 := by
  unfold utf16
  split <;> simp <;> omega

theorem wcharLoop_end (hroom : out.length < outlen) :
    wcharLoop cap outlen (rounds + 1) out [0] =
      (put cap out 0).map fun out => ⟨true, out⟩ := by
  rw [wcharLoop, if_neg (Nat.not_le.mpr hroom)]
  show (put cap out 0 >>= _) = _
  cases put cap out 0 with
  | error e => rfl
  | ok out => rfl

theorem wcharLoop_ascii (hroom : out.length < outlen) (ha : a.toNat < 0x80) (hne : a ≠ 0)
    (p : Bytes) :
    wcharLoop cap outlen (rounds + 1) out (a :: p) =
      (utf16 a.toNat).foldlM (put cap) out >>= fun out => wcharLoop cap outlen rounds out p := by
  have hnonzero : a.toNat ≠ 0 := fun hzero => hne (UInt8.toNat_inj.mp hzero)
  rw [wcharLoop, if_neg (Nat.not_le.mpr hroom), utf16_small (by omega)]
  show (if a.toNat < 0x80 then put cap out a.toNat >>= _ else _) = _
  rw [if_pos ha, List.foldlM_cons]
  cases put cap out a.toNat with
  | error e => rfl
  | ok out => exact if_neg hnonzero

theorem wcharLoop_last (hlast : out.length + 1 = outlen) (ha : 0x80 ≤ a.toNat) (p : Bytes) :
    wcharLoop cap outlen (rounds + 1) out (a :: p) = .ok ⟨false, out⟩ := by
  rw [wcharLoop, if_neg (by omega)]
  exact (if_neg (Nat.not_lt.mpr ha)).trans (if_pos hlast)

theorem wcharLoop_bad (hroom : out.length + 1 < outlen) (ha : 0x80 ≤ a.toNat) {p p' : Bytes}
    (hdecode : utf8Decode 4 (a :: p) = .ok (n, p')) (hn : 0x10ffff < n) :
    wcharLoop cap outlen (rounds + 1) out (a :: p) = .ok ⟨false, out⟩ := by
  rw [wcharLoop, if_neg (by omega)]
  show (if a.toNat < 0x80 then _ else if out.length + 1 = outlen then _ else
    utf8Decode 4 (a :: p) >>= _) = _
  rw [if_neg (Nat.not_lt.mpr ha), if_neg (by omega), hdecode]
  exact if_pos hn

theorem wcharLoop_char (hroom : out.length + 1 < outlen) (ha : 0x80 ≤ a.toNat) {p p' : Bytes}
    (hdecode : utf8Decode 4 (a :: p) = .ok (n, p')) (hn : n ≤ 0x10ffff) :
    wcharLoop cap outlen (rounds + 1) out (a :: p) =
      (utf16 n).foldlM (put cap) out >>= fun out => wcharLoop cap outlen rounds out p' := by
  rw [wcharLoop, if_neg (by omega)]
  show (if a.toNat < 0x80 then _ else if out.length + 1 = outlen then _ else
    utf8Decode 4 (a :: p) >>= _) = _
  rw [if_neg (Nat.not_lt.mpr ha), if_neg (by omega), hdecode]
  apply (if_neg (Nat.not_lt.mpr hn)).trans
  by_cases hlarge : 0xffff < n
  · -- a pair of surrogates
    have hand : (n - 0x10000) &&& 0x03ff = (n - 0x10000) % 0x400 :=
      Nat.and_two_pow_sub_one_eq_mod (n - 0x10000) 10
    have hshift : (n - 0x10000) >>> 10 = (n - 0x10000) / 0x400 := Nat.shiftRight_eq_div_pow _ 10
    apply (if_pos hlarge).trans
    dsimp only
    rw [hand, hshift, utf16_large hlarge, List.foldlM_cons]
    cases put cap out (0xd800 + (n - 0x10000) / 0x400) with
    | error e => rfl
    | ok out =>
        show put cap out _ >>= _ = List.foldlM (put cap) out [_] >>= _
        rw [List.foldlM_cons]
        cases put cap out (0xdc00 + (n - 0x10000) % 0x400) with
        | error e => rfl
        | ok out => rfl
  · apply (if_neg hlarge).trans
    rw [utf16_small (Nat.not_lt.mp hlarge), List.foldlM_cons]
    cases put cap out n with
    | error e => rfl
    | ok out => rfl

/-- A character that is not ASCII needs a place in front of that of the terminator. -/
theorem Spelled.needs (h : Spelled cs (a :: str)) (ha : 0x80 ≤ a.toNat) :
    0 < (utf16All cs).length := by
  obtain ⟨n, cs', -, -, rfl, -⟩ := h.high ha
  rw [utf16All_cons, List.length_append]
  have hpos := utf16_length_pos n
  omega

/-- Neither does the loop read behind the terminator nor does it write behind the array. -/
theorem wcharLoop_converts (hnul : 0 ∉ str) (hout : out.length ≤ outlen)
    (hrounds : outlen < out.length + rounds) :
    Yields False (wcharLoop outlen outlen rounds out (str ++ [0])) (Converts outlen out str) := by
  induction rounds generalizing out str with
  | zero => exact absurd hrounds (by omega)
  | succ rounds ih =>
      by_cases hfull : outlen ≤ out.length
      · rw [wcharLoop, if_pos hfull]
        exact .stop hout fun cs _ => by omega
      have hroom : out.length < outlen := Nat.not_le.mp hfull
      cases str with
      | nil =>
          rw [List.nil_append, wcharLoop_end hroom, put_ok hroom (by decide)]
          refine ⟨?_, fun cs hcs _ => ?_, fun _ => ⟨[], .nil, hroom⟩⟩
          · rw [List.length_append]
            exact hroom
          · rw [spelled_nil_iff.mp hcs]
            simp
      | cons a str =>
          obtain ⟨ha0, hnul'⟩ := not_or.mp (mt List.mem_cons.mpr hnul)
          by_cases ha : a.toNat < 0x80
          · have hsmall : utf16 a.toNat = [a.toNat] := utf16_small (by omega)
            rw [List.cons_append, wcharLoop_ascii hroom ha fun heq => ha0 heq.symm,
              putAll_ok (hsmall ▸ hroom) (utf16_lt (by omega))]
            refine (ih hnul' ?_ ?_).mono fun res _ h => h.next fun cs => spelled_ascii_iff ha
            · rw [hsmall, List.length_append]
              exact hroom
            · rw [hsmall, List.length_append, List.length_singleton]
              omega
          · have ha : 0x80 ≤ a.toNat := Nat.not_lt.mp ha
            by_cases hlast : out.length + 1 = outlen
            · rw [List.cons_append, wcharLoop_last hlast ha]
              exact .stop hout fun cs hcs => by
                have hpos := hcs.needs ha
                omega
            have hplaces : out.length + 1 < outlen := by omega
            obtain ⟨⟨n, p⟩, hdecode, hinv⟩ := (utf8Decode_inv a str).exists_ok not_false
            rw [List.cons_append] at hdecode ⊢
            by_cases hn : n ≤ 0x10ffff
            · obtain ⟨bytes, rest, hsplit, hdecoded, rfl⟩ := hinv hn
              have hle := utf16_length_le n
              rw [wcharLoop_char hplaces ha hdecode hn, putAll_ok (by omega) (utf16_lt hn), hsplit]
              refine (ih ?_ ?_ ?_).mono fun res _ h => h.next fun cs => spelled_char_iff hdecoded
              · exact fun hmem => hnul (hsplit ▸ List.mem_append_right bytes hmem)
              · rw [List.length_append]
                have hle := utf16_length_le n
                omega
              · rw [List.length_append]
                have hpos := utf16_length_pos n
                omega
            · rw [wcharLoop_bad hplaces ha hdecode (Nat.not_le.mp hn)]
              exact .stop hout fun cs hcs => by
                obtain ⟨n', cs', bytes, rest, rfl, hsplit, hdecoded, -⟩ := hcs.high ha
                have hother := hdecoded.utf8Decode_eq (rest ++ [0])
                rw [← List.append_assoc, ← hsplit, List.cons_append, hdecode] at hother
                cases hother
                exact absurd hdecoded.le hn

end Floppix.WidePath
