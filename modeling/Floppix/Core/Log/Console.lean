import Floppix.Core.Log.Message
import Floppix.Lib.Patching

/-! # Messages on the console

`fpx_log_console` formats a message and its ending into an array of its own and hands it to
`fpx_write_fd`, with the sum of the two lengths that `snprintf` returned. These lengths are
those of the whole texts, so the sum is the length of what the array holds only if both texts
fit into it. One text fits in another way: the one that is as long as the array.
-/

namespace Floppix.Logging

open Patching

/-- An array of the stack. Nothing is known of a byte that was never written. -/
abbrev Cells := List (Option UInt8)

/-- `snprintf(cells + pos, size, ..)` for an already expanded text, with its terminator. -/
def snprintfAt (cells : Cells) (pos size : Nat) (text : Bytes) : Cells × Nat :=
  let (stored, len) := snprintf size text
  (patch none cells pos ((stored ++ [0]).map some), len)

def consoleSuffix (err : Err) (strerror : Bytes) : Bytes :=
  if err ≠ Err.ok then
    ascii " (" ++ decimal err ++ ascii ": " ++ strerror ++ ascii ")\n"
  else ascii "\n"

/-- `fpx_log_console`: the array and the length that `fpx_write_fd` gets. -/
def logConsole (err : Err) (text strerror : Bytes) : Cells × Nat :=
  let logstr : Cells := List.replicate logStrSize none
  let (logstr, len) := snprintfAt logstr 0 logStrSize text
  if len < logStrSize then
    let (logstr, n) := snprintfAt logstr len (logStrSize - len) (consoleSuffix err strerror)
    (logstr, len + n)
  else (patch none logstr (logStrSize - 1) [some 0x0A], len)

/-- The length stays in the array, covers written bytes only, and the last of them is a
newline. -/
structure WritesLine (out : Cells × Nat) : Prop where
  inside : out.2 ≤ logStrSize
  line : ∃ bytes : Bytes, out.1.take out.2 = bytes.map some ∧ bytes.getLast? = some 0x0A

/-! ## What the array holds -/

variable (err : Err) (text strerror : Bytes)

/-- An array of which only the first bytes were written. -/
def filled (bytes : Bytes) : Cells :=
  patch none (List.replicate logStrSize none) 0 (bytes.map some)

theorem filled_take (bytes more : Bytes) :
    (filled (bytes ++ more)).take bytes.length = bytes.map some := by
  rw [filled, patch_zero, List.map_append, List.append_assoc]
  exact List.take_left' (List.length_map _)

theorem consoleSuffix_newline : ∃ front : Bytes, consoleSuffix err strerror = front ++ [0x0A] := by
  rw [consoleSuffix]
  split
  · apply Exists.intro (ascii " (" ++ decimal err ++ ascii ": " ++ strerror ++ ascii ")")
    have hend : ascii ")\n" = ascii ")" ++ [0x0A] := by decide
    rw [hend]
    simp only [List.append_assoc]
  · exact ⟨[], by decide⟩

theorem patch_filled {old bytes : Bytes} (hold : old.length ≤ bytes.length) (hbytes : bytes ≠ [])
    (front : Bytes) :
    patch none (filled (front ++ old)) front.length (bytes.map some) =
      filled (front ++ bytes) := by
  have hlen : (old.map some).length ≤ (bytes.map some).length := by
    rwa [List.length_map, List.length_map]
  have hmap : bytes.map some ≠ [] := mt List.map_eq_nil_iff.mp hbytes
  have hover : patch none (patch none (List.replicate logStrSize none) 0
      (front.map some ++ old.map some)) (0 + (front.map some).length) (bytes.map some) =
        patch none (List.replicate logStrSize none) 0 (front.map some ++ bytes.map some) :=
    patch_over hlen hmap
  rw [Nat.zero_add, List.length_map] at hover
  rw [filled, filled, List.map_append, List.map_append, hover]

/-- A text that is shorter than the array: the ending comes over its terminator, as far as
there is room. -/
theorem logConsole_short (h : text.length < logStrSize) :
    logConsole err text strerror =
      (filled (text ++ ((consoleSuffix err strerror).take (logStrSize - text.length - 1) ++ [0])),
        text.length + (consoleSuffix err strerror).length) := by
  have hstored : text.take (logStrSize - 1) = text := List.take_of_length_le (by omega)
  have hfirst : patch none (List.replicate logStrSize none) 0 ((text ++ [0]).map some) =
      filled (text ++ [0]) := rfl
  simp only [logConsole, snprintfAt, snprintf, if_pos h, hstored, hfirst]
  rw [patch_filled (by simp) (by simp)]

/-- A text that does not fit: its last byte in the array is replaced by a newline. -/
theorem logConsole_long (h : logStrSize ≤ text.length) :
    logConsole err text strerror =
      (filled (text.take (logStrSize - 1) ++ [0x0A]), text.length) := by
  have hstored : (text.take (logStrSize - 1)).length = logStrSize - 1 :=
    List.length_take_of_le (by omega)
  have hfirst : patch none (List.replicate logStrSize none) 0
      ((text.take (logStrSize - 1) ++ [0]).map some) =
        filled (text.take (logStrSize - 1) ++ [0]) := rfl
  have hlast : patch none (filled (text.take (logStrSize - 1) ++ [0]))
      (text.take (logStrSize - 1)).length ([0x0A].map some) =
        filled (text.take (logStrSize - 1) ++ [0x0A]) :=
    @patch_filled [0] [0x0A] (Nat.le_refl 1) (List.cons_ne_nil _ _) _
  rw [hstored] at hlast
  simp only [logConsole, snprintfAt, snprintf, if_neg (Nat.not_lt.mpr h), hfirst]
  rw [← hlast]
  rfl

/-! ## When the line is complete -/

theorem writesLine_iff {bytes more : Bytes} {len : Nat} (hlen : len = bytes.length) :
    WritesLine (filled (bytes ++ more), len) ↔
      len ≤ logStrSize ∧ bytes.getLast? = some 0x0A := by
  subst hlen
  constructor
  · intro h
    obtain ⟨line, hline, hlast⟩ := h.line
    have hbytes : bytes = line := by
      rw [filled_take] at hline
      exact (List.map_inj_right fun _ _ => Option.some.inj).mp hline
    exact ⟨h.inside, hbytes ▸ hlast⟩
  · intro h
    exact ⟨h.1, bytes, filled_take bytes more, h.2⟩

theorem not_writesLine {out : Cells × Nat} (h : logStrSize < out.2) : ¬ WritesLine out :=
  fun hline => absurd hline.inside (Nat.not_le.mpr h)

theorem writesLine_of_room
    (h : text.length + (consoleSuffix err strerror).length < logStrSize) :
    WritesLine (logConsole err text strerror) := by
  have hsuffix : (consoleSuffix err strerror).take (logStrSize - text.length - 1) =
      consoleSuffix err strerror := List.take_of_length_le (by omega)
  obtain ⟨front, hfront⟩ := consoleSuffix_newline err strerror
  rw [logConsole_short err text strerror (by omega), hsuffix, ← List.append_assoc]
  apply (writesLine_iff (List.length_append).symm).mpr
  constructor
  · exact Nat.le_of_lt h
  · rw [hfront, ← List.append_assoc, List.getLast?_concat]

/-- Where the terminator has no room left, it takes the place of the newline. -/
theorem not_writesLine_of_full
    (h : text.length + (consoleSuffix err strerror).length = logStrSize) :
    ¬ WritesLine (logConsole err text strerror) := by
  obtain ⟨front, hfront⟩ := consoleSuffix_newline err strerror
  have hlen := congrArg List.length hfront
  rw [List.length_append, List.length_singleton] at hlen
  have htake : ((consoleSuffix err strerror).take (logStrSize - text.length - 1)).length =
      logStrSize - text.length - 1 := List.length_take_of_le (by omega)
  rw [logConsole_short err text strerror (by omega), ← List.append_assoc]
  intro hline
  rw [← List.append_nil (text ++ _ ++ [0]), writesLine_iff] at hline
  · rw [List.getLast?_concat] at hline
    exact absurd hline.2 (by decide)
  · simp only [List.length_append, List.length_singleton, htake]
    omega

/-- A text that is as long as the array is cut, and the newline is in its last place. -/
theorem writesLine_of_exact (h : text.length = logStrSize) :
    WritesLine (logConsole err text strerror) := by
  rw [logConsole_long err text strerror (Nat.le_of_eq h.symm),
    ← List.append_nil (text.take (logStrSize - 1) ++ [0x0A])]
  apply (writesLine_iff _).mpr
  · constructor
    · exact Nat.le_of_eq h
    · exact List.getLast?_concat
  · rw [List.length_append, List.length_take_of_le (by omega), List.length_singleton, h]
    rfl

/-- Console messages stay in the buffer exactly if the text and its ending are together shorter
than the buffer, or the text alone is as long as it. -/
theorem logConsole_writesLine_iff :
    WritesLine (logConsole err text strerror) ↔
      text.length + (consoleSuffix err strerror).length < logStrSize ∨
        text.length = logStrSize := by
  constructor
  · intro h
    by_cases hshort : text.length < logStrSize
    · left
      apply Nat.lt_of_le_of_ne
      · have hinside := h.inside
        rwa [logConsole_short err text strerror hshort] at hinside
      · intro hfull
        exact not_writesLine_of_full err text strerror hfull h
    · right
      have hinside := h.inside
      rw [logConsole_long err text strerror (Nat.le_of_not_lt hshort)] at hinside
      exact Nat.le_antisymm hinside (Nat.le_of_not_lt hshort)
  · intro h
    exact h.elim (writesLine_of_room err text strerror) (writesLine_of_exact err text strerror)

/-- A text of twice the size of the buffer: the length passes the end of the array. -/
theorem logConsole_overread :
    ¬ WritesLine (logConsole Err.ok (List.replicate 2000 0x61) []) := by
  have hlong : logStrSize < (List.replicate 2000 (0x61 : UInt8)).length := by
    rw [List.length_replicate]
    decide
  rw [logConsole_long _ _ _ (Nat.le_of_lt hlong)]
  exact not_writesLine hlong

end Floppix.Logging
