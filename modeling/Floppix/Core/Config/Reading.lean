import Floppix.Core.Config.Scanner

/-! # What a configuration reads as

The words the reader stores are those the grammar finds, as long as the text is not
refused and the pool grants the memory. A word is complete when something ends it: on
a line that is ended these are all words, on the last line of a buffer the word in
front of the terminator is not among them.
-/

namespace Floppix.Configuration

variable {answers : PoolAnswers} {filename : Option Nat}

/-! ## Complete words -/

/-- The words that a blank follows. -/
def completeWords (text : Bytes) : List Bytes := Fields.whole isSep text

def openRun (text : Bytes) : Bytes := Fields.lastRun isSep text

def lineWords (l : Bytes) : List Bytes := words (beforeComment true l)

theorem words_run {w : Bytes} (hw : ∀ c ∈ w, isSep c = false) :
    words w = if w = [] then [] else [w] := by
  by_cases hne : w = []
  · simp [words, hne]
  · rw [if_neg hne]
    exact Fields.fields_word hw hne

theorem words_eq_complete (text : Bytes) :
    words text = completeWords text ++ words (openRun text) :=
  Fields.fields_eq_whole text

/-! ## What stops the reader -/

/-- The pool grants the next `n` allocations. -/
def Grants (answers : PoolAnswers) (used n : Nat) : Prop := ∀ i < n, answers (used + i) = none

instance (answers : PoolAnswers) (used n : Nat) : Decidable (Grants answers used n) :=
  inferInstanceAs (Decidable (∀ i < n, _))

theorem Grants.zero {used : Nat} : Grants answers used 0 :=
  fun _ h => absurd h (Nat.not_lt_zero _)

theorem grants_succ {used n : Nat} :
    Grants answers used (n + 1) ↔ answers used = none ∧ Grants answers (used + 1) n := by
  constructor
  · intro h
    refine ⟨h 0 (by omega), fun i hi => ?_⟩
    rw [Nat.add_assoc, Nat.add_comm 1 i]
    exact h (i + 1) (by omega)
  · rintro ⟨h0, h⟩ i hi
    cases i with
    | zero => exact h0
    | succ i =>
        have := h i (by omega)
        rwa [Nat.add_assoc, Nat.add_comm 1 i] at this

theorem grants_add {used m n : Nat} :
    Grants answers used (m + n) ↔ Grants answers used m ∧ Grants answers (used + m) n := by
  induction m generalizing used with
  | zero => simp [Grants.zero]
  | succ m ih =>
      rw [Nat.add_right_comm, grants_succ, ih, grants_succ, and_assoc, Nat.add_assoc,
        Nat.add_comm 1 m]

theorem Grants.of_all (hok : ∀ k, answers k = none) (used n : Nat) : Grants answers used n :=
  fun _ _ => hok _

/-- The statuses the reader stops with. -/
def ScanError (answers : PoolAnswers) (err : Err) : Prop :=
  err = Err.configSyntax ∨ ∃ k e, answers k = some e ∧ err = e.code

theorem ScanError.ne_ok {err : Err} (h : ScanError answers err) : err ≠ Err.ok := by
  rcases h with rfl | ⟨k, e, -, rfl⟩
  · exact Err.configSyntax_ne_ok
  · exact e.code_ne_ok

theorem ScanError.syntax {err : Err} (h : ScanError answers err) (hok : ∀ k, answers k = none) :
    err = Err.configSyntax := by
  rcases h with rfl | ⟨k, e, hk, rfl⟩
  · rfl
  · rw [hok k] at hk
    cases hk

/-- The reader gives the value if `good` holds, and stops otherwise. -/
def Reads {α : Type} (answers : PoolAnswers) (r : Except Stop α) (good : Prop) (value : α) :
    Prop :=
  (good → r = .ok value) ∧ (¬ good → ∃ err n, r = .error (err, n) ∧ ScanError answers err)

theorem Reads.congr {α : Type} {r : Except Stop α} {good good' : Prop} {value value' : α}
    (h : Reads answers r good value) (hgood : good' ↔ good) (hvalue : good → value' = value) :
    Reads answers r good' value' := by
  refine ⟨fun hg => ?_, fun hg => h.2 fun hg' => hg (hgood.mpr hg')⟩
  have hg' := hgood.mp hg
  rw [hvalue hg']
  exact h.1 hg'

theorem Reads.stop {α : Type} {r : Except Stop α} {good : Prop} {value : α} {err : Err} {n : Nat}
    (hr : r = .error (err, n)) (herr : ScanError answers err) (hbad : ¬ good) :
    Reads answers r good value :=
  ⟨fun hg => absurd hg hbad, fun _ => ⟨err, n, hr, herr⟩⟩

theorem endWord_reads (answers : PoolAnswers) {ws : List Bytes} {w : Bytes}
    (hw : ∀ c ∈ w, isSep c = false) (hlen : ws.length ≤ maxTakes) (used : Nat) :
    Reads answers (endWord answers ws w used)
      (¬ maxTakes < (ws ++ words w).length ∧ Grants answers used (words w).length)
      (ws ++ words w, used + (words w).length) := by
  rw [words_run hw]
  by_cases hne : w = []
  · rw [if_pos hne, endWord, if_pos hne, List.append_nil]
    exact ⟨fun _ => rfl, fun h => absurd ⟨by omega, Grants.zero⟩ h⟩
  · rw [if_neg hne, endWord, if_neg hne, List.length_append, List.length_singleton, storeWord]
    cases ha : answers used with
    | some e =>
        apply Reads.stop rfl (Or.inr ⟨used, e, ha, rfl⟩)
        intro h
        have := (grants_succ.mp h.2).1
        rw [ha] at this
        cases this
    | none =>
        by_cases hroom : ws.length < maxTakes
        · simp only [if_pos hroom]
          exact ⟨fun _ => rfl, fun h =>
            absurd ⟨by omega, grants_succ.mpr ⟨ha, Grants.zero⟩⟩ h⟩
        · simp only [if_neg hroom]
          exact Reads.stop rfl (Or.inl rfl) fun h => h.1 (by omega)

/-! ## The text of a line -/

/-- The text of the line that is still to be read, its comment dropped. -/
def ahead (comment : Bool) (w l : Bytes) : Bytes :=
  if comment then [] else beforeComment (w = []) l

/-- A line is rejected for a byte that is not ASCII, a `#` inside a word of its text, or
too many words. -/
def BadText (l text : Bytes) (all : List Bytes) : Prop :=
  (∃ b ∈ l, 0x80 ≤ b) ∨ charHash ∈ text ∨ maxTakes < all.length

theorem badText_cons_low {c : UInt8} {l text : Bytes} {all : List Bytes} (hlow : ¬ 0x80 ≤ c) :
    BadText (c :: l) text all ↔ BadText l text all := by
  simp [BadText, hlow]

theorem badText_cons {c : UInt8} {l text : Bytes} {all : List Bytes} (hlow : ¬ 0x80 ≤ c)
    (hne : c ≠ charHash) : BadText (c :: l) (c :: text) all ↔ BadText l text all := by
  simp [BadText, hlow, Ne.symm hne]

def TextReads (answers : PoolAnswers) (l : Bytes) : Prop :=
  ∀ comment ws w used, (comment = true → w = []) → (∀ c ∈ w, isSep c = false) →
    ws.length ≤ maxTakes →
    Reads answers (readText answers l comment ws w used)
      (¬ BadText l (ahead comment w l) (ws ++ completeWords (w ++ ahead comment w l)) ∧
        Grants answers used (completeWords (w ++ ahead comment w l)).length)
      (ws ++ completeWords (w ++ ahead comment w l), openRun (w ++ ahead comment w l),
        used + (completeWords (w ++ ahead comment w l)).length)

section Text

variable {c : UInt8} {l : Bytes}

theorem ahead_cons {w : Bytes} (hc : c ≠ charHash) :
    ahead false w (c :: l) = c :: beforeComment (isSep c) l := by
  rw [ahead, if_neg (by simp), beforeComment_cons hc]

theorem ahead_nil (comment : Bool) (w : Bytes) : ahead comment w [] = [] := by
  cases comment <;> rfl

theorem TextReads.skip (ih : TextReads answers l) (comment : Bool) {ws : List Bytes}
    {used : Nat} {text : Bytes} (hlow : ¬ 0x80 ≤ c) (hlen : ws.length ≤ maxTakes)
    (htext : text = ahead comment [] l ∨ text = c :: ahead comment [] l ∧ isSep c = true) :
    Reads answers (readText answers l comment ws [] used)
      (¬ BadText (c :: l) text (ws ++ completeWords text) ∧
        Grants answers used (completeWords text).length)
      (ws ++ completeWords text, openRun text, used + (completeWords text).length) := by
  have hread := ih comment ws [] used (fun _ => rfl) (by simp) hlen
  rw [List.nil_append] at hread
  rcases htext with htext | ⟨htext, hsep⟩
  · subst htext
    exact hread.congr (by rw [badText_cons_low hlow]) fun _ => rfl
  · have hcomplete : completeWords text = completeWords (ahead comment [] l) := by
      rw [htext]
      exact Fields.whole_cons_sep hsep
    have hopen : openRun text = openRun (ahead comment [] l) := by
      rw [htext]
      exact Fields.lastRun_word_sep (w := []) hsep
    rw [hcomplete, hopen, htext]
    exact hread.congr (by rw [badText_cons hlow (ne_hash_of_isSep hsep)]) fun _ => rfl

theorem TextReads.blank (hblank : isBlank c = true) (ih : TextReads answers l) :
    TextReads answers (c :: l) := by
  intro comment ws w used hcm hw hlen
  have hsep := isSep_of_isBlank hblank
  have hne := ne_hash_of_isSep hsep
  have hlow := not_high_of_isSep hsep
  rw [readText, if_pos hblank]
  by_cases hwe : w = []
  · subst hwe
    rw [endWord, if_pos rfl, List.nil_append]
    apply ih.skip comment hlow hlen
    cases comment with
    | true => exact Or.inl rfl
    | false => exact Or.inr ⟨by rw [ahead_cons hne, hsep]; rfl, hsep⟩
  · -- the word is complete, and the rest is read behind it
    obtain rfl : comment = false := by
      cases comment with
      | true => exact absurd (hcm rfl) hwe
      | false => rfl
    have htext : ahead false w (c :: l) = c :: ahead false [] l := by
      rw [ahead_cons hne, hsep]
      rfl
    have hcomplete : completeWords (w ++ ahead false w (c :: l)) =
        w :: completeWords (ahead false [] l) := by
      rw [htext]
      exact Fields.whole_word_sep hw hwe hsep
    have hopen : openRun (w ++ ahead false w (c :: l)) = openRun (ahead false [] l) := by
      rw [htext]
      exact Fields.lastRun_word_sep hsep
    have hend := endWord_reads answers hw hlen used
    rw [words_run hw, if_neg hwe, List.length_singleton] at hend
    rw [hcomplete, hopen, htext, badText_cons hlow hne]
    by_cases hgood : ¬ maxTakes < (ws ++ [w]).length ∧ Grants answers used 1
    · simp only [hend.1 hgood]
      have hread := ih false (ws ++ [w]) [] (used + 1) (fun h => (by cases h)) (by simp)
        (by omega)
      rw [List.nil_append] at hread
      have hws : ws ++ w :: completeWords (ahead false [] l) =
          ws ++ [w] ++ completeWords (ahead false [] l) := by simp
      have hfirst := (grants_succ.mp hgood.2).1
      refine hread.congr ?_ fun _ => ?_
      · rw [hws, List.length_cons, grants_succ]
        simp [hfirst]
      · rw [hws, List.length_cons, Nat.add_assoc, Nat.add_comm 1]
    · obtain ⟨err, n, hstop, herr⟩ := hend.2 hgood
      simp only [hstop]
      refine Reads.stop rfl herr fun h => hgood ⟨?_, ?_⟩
      · intro hlong
        refine h.1 (Or.inr (Or.inr ?_))
        simp only [List.length_append, List.length_cons, List.length_nil] at hlong ⊢
        omega
      · rw [List.length_cons] at h
        exact grants_succ.mpr ⟨(grants_succ.mp h.2).1, Grants.zero⟩

theorem TextReads.hash (ih : TextReads answers l) : TextReads answers (charHash :: l) := by
  intro comment ws w used hcm hw hlen
  have hblank : ¬ isBlank charHash = true := by decide
  rw [readText, if_neg hblank, if_pos rfl]
  by_cases hwe : w = []
  · subst hwe
    have htext : ahead comment [] (charHash :: l) = [] := by
      cases comment with
      | true => rfl
      | false => simp [ahead, beforeComment_comment]
    rw [if_pos rfl, List.nil_append, htext]
    exact ih.skip true (by decide) hlen (Or.inl rfl)
  · have hmem : charHash ∈ ahead comment w (charHash :: l) := by
      cases comment with
      | true => exact absurd (hcm rfl) hwe
      | false => simp [ahead, hwe, beforeComment_hash]
    rw [if_neg hwe]
    exact Reads.stop rfl (Or.inl rfl) fun h => h.1 (Or.inr (Or.inl hmem))

theorem TextReads.byte (hsep : isSep c = false) (hhash : c ≠ charHash)
    (ih : TextReads answers l) : TextReads answers (c :: l) := by
  intro comment ws w used hcm hw hlen
  have hblank : ¬ isBlank c = true := fun hb => by simp [isSep, hb] at hsep
  rw [readText, if_neg hblank, if_neg hhash]
  by_cases hhigh : 0x80 ≤ c
  · rw [if_pos hhigh]
    exact Reads.stop rfl (Or.inl rfl) fun h => h.1 (Or.inl ⟨c, List.mem_cons_self .., hhigh⟩)
  rw [if_neg hhigh]
  cases comment with
  | true =>
      have hwe := hcm rfl
      subst hwe
      exact ih.skip true hhigh hlen (Or.inl rfl)
  | false =>
      have hrun : ∀ d ∈ w ++ [c], isSep d = false := by
        intro d hd
        rcases List.mem_append.mp hd with hd | hd
        · exact hw d hd
        · rw [List.mem_singleton.mp hd]
          exact hsep
      have hread := ih false ws (w ++ [c]) used (fun h => (by cases h)) hrun hlen
      have htext : ahead false w (c :: l) = c :: ahead false (w ++ [c]) l := by
        rw [ahead_cons hhash, hsep]
        simp [ahead]
      have hall : w ++ c :: ahead false (w ++ [c]) l =
          w ++ [c] ++ ahead false (w ++ [c]) l := by simp
      rw [if_neg (by simp), htext, hall, badText_cons hhigh hhash]
      exact hread

end Text

theorem readText_reads (answers : PoolAnswers) {l : Bytes} (hl : ∀ c ∈ l, isEol c = false) :
    TextReads answers l := by
  induction l with
  | nil =>
      intro comment ws w used _ hw hlen
      have hcomplete : completeWords w = [] := Fields.whole_word hw
      have hopen : openRun w = w := Fields.lastRun_word hw
      rw [ahead_nil, List.append_nil, hcomplete, hopen, List.append_nil]
      refine ⟨fun _ => rfl, fun h => absurd ⟨?_, Grants.zero⟩ h⟩
      rintro (⟨b, hb, -⟩ | hhash | hlong)
      · cases hb
      · cases hhash
      · omega
  | cons c l ih =>
      obtain ⟨hc, hl'⟩ := List.forall_mem_cons.mp hl
      by_cases hblank : isBlank c = true
      · exact (ih hl').blank hblank
      by_cases hhash : c = charHash
      · subst hhash
        exact (ih hl').hash
      · refine (ih hl').byte ?_ hhash
        simp only [isSep, Bool.or_eq_false_iff]
        exact ⟨by simpa using hblank, hc⟩

end Floppix.Configuration
