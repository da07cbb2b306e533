import Floppix.Core.Config.Parse
import Floppix.Lib.Fields

/-! # The grammar of a configuration

A buffer is split into lines at every LF and every CR. A `#` at a word boundary
starts a comment, and what stands before it is split into words: the name of a
directive and its arguments. The scanner is shown to implement this grammar.
-/

namespace Floppix.Configuration

/-! ## Lines, comments and words -/

def isBlank (c : UInt8) : Bool := c = charTab ∨ c = charSpace

def isEol (c : UInt8) : Bool := c = charLf ∨ c = charCr

def isSep (c : UInt8) : Bool := isBlank c || isEol c

def splitLines (content : Bytes) : List Bytes := content.splitOnP isEol

/-- The line up to its comment; the flag says whether the text starts at a word
boundary. -/
def beforeComment : Bool → Bytes → Bytes
  | _, [] => []
  | boundary, c :: rest =>
      if c = charHash ∧ boundary = true then [] else c :: beforeComment (isSep c) rest

def words (text : Bytes) : List Bytes := Fields.fields isSep text

def HashInWord (text : Bytes) : Prop :=
  ∃ before c after, text = before ++ c :: charHash :: after ∧ isSep c = false

/-- More words than a directive can have: its name and `FPX_MAX_TAKES - 1` arguments. -/
def TooManyWords (text : Bytes) : Prop := 1 + (maxTakes - 1) < (words text).length

def BadLine (line : Bytes) : Prop :=
  HashInWord (beforeComment true line) ∨ TooManyWords (beforeComment true line)

def Rejected (content : Bytes) : Prop :=
  (∃ b ∈ content, 0x80 ≤ b) ∨ ∃ line ∈ splitLines content, BadLine line

def wordsDirective (filename : Option Nat) (line : Nat) : List Bytes → Option Directive
  | [] => none
  | name :: args => some (.of name args filename line)

def Directive.key (d : Directive) : Bytes × List Bytes := (d.name, d.argv)

def Config.keys (config : Config) : List (Bytes × List Bytes) := config.confList.map Directive.key

def wordsKey : List Bytes → Option (Bytes × List Bytes)
  | [] => none
  | name :: args => some (name, args)

def lineDirectives (filename : Option Nat) (line : Nat) : List Bytes → List Directive
  | [] => []
  | l :: ls =>
      (wordsDirective filename line (words (beforeComment true l))).toList ++
        lineDirectives filename (line + 1) ls

def directives (filename : Option Nat) (content : Bytes) : List Directive :=
  lineDirectives filename 1 (splitLines content)

/-- Empty, or the last line is ended by LF or CR. -/
def Terminated (content : Bytes) : Prop :=
  content = [] ∨ ∃ before e, content = before ++ [e] ∧ isEol e = true

/-! ## Facts about the grammar -/

theorem wordsDirective_key (filename : Option Nat) (line : Nat) (ws : List Bytes) :
    (wordsDirective filename line ws).toList.map Directive.key = (wordsKey ws).toList := by
  cases ws <;> rfl

theorem isSep_hash : isSep charHash = false := by decide

theorem isSep_of_isBlank {c : UInt8} (h : isBlank c = true) : isSep c = true := by
  simp [isSep, h]

theorem ne_hash_of_isSep {c : UInt8} (h : isSep c = true) : c ≠ charHash := by
  rintro rfl
  exact absurd h (by decide)

theorem ne_null_of_isSep {c : UInt8} (h : isSep c = true) : c ≠ charNull := by
  rintro rfl
  exact absurd h (by decide)

theorem not_high_of_isSep {c : UInt8} (h : isSep c = true) : ¬ 0x80 ≤ c := by
  simp only [isSep, isBlank, isEol, Bool.or_eq_true, decide_eq_true_eq] at h
  rcases h with (rfl | rfl) | (rfl | rfl) <;> decide

theorem beforeComment_comment {rest : Bytes} :
    beforeComment true (charHash :: rest) = [] := by
  simp [beforeComment]

theorem beforeComment_cons {c : UInt8} {b : Bool} {rest : Bytes} (h : c ≠ charHash) :
    beforeComment b (c :: rest) = c :: beforeComment (isSep c) rest := by
  simp [beforeComment, h]

theorem beforeComment_hash {rest : Bytes} :
    beforeComment false (charHash :: rest) = charHash :: beforeComment false rest := by
  simp [beforeComment, isSep_hash]

/-- A `#` that stays in front of the comment stands inside a word. -/
theorem hash_mem_beforeComment_iff (b : Bool) (line : Bytes) :
    charHash ∈ beforeComment b line ↔
      HashInWord (beforeComment b line) ∨ ∃ after, beforeComment b line = charHash :: after := by
  induction line generalizing b with
  | nil => simp [beforeComment, HashInWord]
  | cons c rest ih =>
      by_cases hc : c = charHash ∧ b = true
      · obtain ⟨rfl, rfl⟩ := hc
        simp [beforeComment_comment, HashInWord]
      · have hb : beforeComment b (c :: rest) = c :: beforeComment (isSep c) rest := by
          simp [beforeComment, hc]
        rw [hb]
        constructor
        · intro hm
          rcases List.mem_cons.mp hm with rfl | hm
          · exact Or.inr ⟨_, rfl⟩
          rcases (ih _).mp hm with ⟨before, d, after, heq, hd⟩ | ⟨after, heq⟩
          · exact Or.inl ⟨c :: before, d, after, by rw [heq, List.cons_append], hd⟩
          · -- the rest of the text does not start with a comment
            cases hs : isSep c with
            | false => exact Or.inl ⟨[], c, after, by rw [List.nil_append, ← heq, hs], hs⟩
            | true =>
                rw [hs] at heq
                cases rest with
                | nil => cases heq
                | cons d rest =>
                    by_cases hd : d = charHash
                    · simp [hd, beforeComment_comment] at heq
                    · rw [beforeComment_cons hd] at heq
                      exact absurd (List.cons.inj heq).1 hd
        · rintro (⟨before, d, after, heq, -⟩ | ⟨after, heq⟩)
          · rw [heq]
            simp
          · rw [heq]
            exact List.mem_cons_self ..

theorem hashInWord_iff (line : Bytes) :
    HashInWord (beforeComment true line) ↔ charHash ∈ beforeComment true line := by
  rw [hash_mem_beforeComment_iff]
  refine ⟨Or.inl, fun h => h.resolve_right ?_⟩
  rintro ⟨after, heq⟩
  cases line with
  | nil => cases heq
  | cons c rest =>
      by_cases hc : c = charHash
      · simp [hc, beforeComment_comment] at heq
      · rw [beforeComment_cons hc] at heq
        exact hc (List.cons.inj heq).1

instance (line : Bytes) : Decidable (BadLine line) :=
  decidable_of_iff (charHash ∈ beforeComment true line ∨
    1 + (maxTakes - 1) < (words (beforeComment true line)).length)
    (or_congr_left (hashInWord_iff line).symm)

instance (content : Bytes) : Decidable (Rejected content) :=
  inferInstanceAs (Decidable (_ ∨ _))

theorem splitLines_append {l rest : Bytes} {e : UInt8} (hl : ∀ c ∈ l, isEol c = false)
    (he : isEol e = true) : splitLines (l ++ e :: rest) = l :: splitLines rest :=
  List.splitOnP_append_cons_of_forall_mem hl e he rest

theorem rejected_append {l rest : Bytes} {e : UInt8} (hl : ∀ c ∈ l, isEol c = false)
    (he : isEol e = true) :
    Rejected (l ++ e :: rest) ↔ ((∃ b ∈ l, 0x80 ≤ b) ∨ BadLine l) ∨ Rejected rest := by
  have hhigh : ¬ 0x80 ≤ e := not_high_of_isSep (by simp [isSep, he])
  simp only [Rejected, splitLines_append hl he, List.mem_append, List.mem_cons, or_and_right,
    exists_or, exists_eq_left, hhigh, false_or]
  exact or_or_or_comm

theorem not_rejected_nil : ¬ Rejected [] := by
  rintro (⟨b, hb, -⟩ | ⟨line, hline, hbad⟩)
  · cases hb
  · simp only [splitLines, List.splitOnP_nil, List.mem_singleton] at hline
    subst hline
    rcases hbad with ⟨before, c, after, heq, -⟩ | hbad
    · simp [beforeComment] at heq
    · simp [TooManyWords, words, beforeComment, maxTakes] at hbad

/-- What follows a line break ends as the buffer does. -/
theorem Terminated.rest {l rest : Bytes} {e : UInt8} (h : Terminated (l ++ e :: rest)) :
    Terminated rest := by
  obtain h | ⟨before, e', heq, he'⟩ := h
  · simp at h
  rcases List.eq_nil_or_concat rest with rfl | ⟨front, e'', rfl⟩
  · exact Or.inl rfl
  · have hcat : before ++ [e'] = (l ++ e :: front) ++ [e''] := by simpa using heq.symm
    have hlast : e' = e'' := List.singleton_inj.mp (List.append_inj' hcat rfl).2
    exact Or.inr ⟨front, e'', by simp, hlast ▸ he'⟩

/-- The last line of a buffer that ends with its last line is empty. -/
theorem Terminated.eq_nil {l : Bytes} (hl : ∀ c ∈ l, isEol c = false) (h : Terminated l) :
    l = [] := by
  obtain h | ⟨before, e, rfl, he⟩ := h
  · exact h
  · rw [hl e (by simp)] at he
    cases he

end Floppix.Configuration
