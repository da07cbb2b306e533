import Floppix.Core.Config.Buffer
import Mathlib.Data.List.Forall2
import Mathlib.Data.List.Infix

/-! # Line numbers of directives

The line counter goes up at every LF and at every CR. It is the number of line breaks
as long as no CR LF pair has been read: a pair is one line break, and counts twice.
-/

namespace Floppix.Configuration

variable {answers : PoolAnswers} {filename : Option Nat}

/-! ## Line breaks -/

/-- The line breaks of a text. A CR in front of a LF is counted with the LF. -/
def lineBreaks : Bytes → Nat
  | [] => 0
  | c :: rest =>
      if c = charCr ∧ rest.head? = some charLf then lineBreaks rest
      else (if isEol c then 1 else 0) + lineBreaks rest

def HasCrLf (text : Bytes) : Prop := [charCr, charLf] <:+: text

theorem hasCrLf_cons (c : UInt8) (rest : Bytes) :
    HasCrLf (c :: rest) ↔ (c = charCr ∧ rest.head? = some charLf) ∨ HasCrLf rest := by
  rw [HasCrLf, List.infix_cons_iff, List.cons_prefix_cons, eq_comm (a := charCr)]
  cases rest with
  | nil => simp [HasCrLf]
  | cons d rest => simp [HasCrLf, eq_comm]

theorem lineBreaks_le (text : Bytes) : lineBreaks text ≤ text.countP isEol := by
  induction text with
  | nil => exact Nat.le_refl 0
  | cons c rest ih =>
      rw [lineBreaks, List.countP_cons]
      split
      · omega
      · omega

/-- The bytes that end lines and the line breaks differ as soon as there is a pair. -/
theorem lineBreaks_eq_iff (text : Bytes) :
    lineBreaks text = text.countP isEol ↔ ¬ HasCrLf text := by
  induction text with
  | nil => simp [lineBreaks, HasCrLf]
  | cons c rest ih =>
      rw [lineBreaks, List.countP_cons, hasCrLf_cons]
      by_cases hpair : c = charCr ∧ rest.head? = some charLf
      · have heol : isEol c = true := by
          rw [hpair.1]
          decide
        have hle := lineBreaks_le rest
        rw [if_pos hpair, if_pos heol]
        exact ⟨fun h => absurd h (by omega), fun h => absurd (Or.inl hpair) h⟩
      · rw [if_neg hpair, or_iff_right hpair, ← ih]
        omega

theorem not_hasCrLf {text : Bytes} (h : charLf ∉ text) : ¬ HasCrLf text := by
  intro hpair
  exact h (hpair.subset (by simp))

/-! ## Where a directive stands -/

def indent (l : Bytes) : Bytes := l.takeWhile isBlank

/-- What stands in front of the names of the directives that are saved, in order. -/
def savedPlaces (answers : PoolAnswers) : Bytes → List (Bytes × UInt8) → Nat → List Bytes
  | _, [], _ => []
  | before, (l, e) :: ls, used =>
      (if lineWords l ≠ [] ∧ Grants answers (used + (lineWords l).length) 2 then
        [before ++ indent l] else []) ++
        savedPlaces answers (before ++ l ++ [e]) ls (afterLine answers l used)

theorem beforeComment_isPrefix (b : Bool) (l : Bytes) : beforeComment b l <+: l := by
  induction l generalizing b with
  | nil => exact List.prefix_rfl
  | cons c l ih =>
      rw [beforeComment]
      split
      · exact List.nil_prefix
      · exact List.cons_prefix_cons.mpr ⟨rfl, ih _⟩

theorem takeWhile_beforeComment {l : Bytes} (hl : ∀ c ∈ l, isEol c = false) :
    (beforeComment true l).takeWhile isSep = indent l := by
  induction l with
  | nil => rfl
  | cons c l ih =>
      obtain ⟨hc, hl'⟩ := List.forall_mem_cons.mp hl
      have hsep : isSep c = isBlank c := by rw [isSep, hc, Bool.or_false]
      by_cases hhash : c = charHash
      · subst hhash
        rw [beforeComment_comment]
        rfl
      · rw [beforeComment_cons hhash, indent, List.takeWhile_cons, List.takeWhile_cons, hsep]
        cases hblank : isBlank c with
        | false => rfl
        | true =>
            rw [if_pos rfl, if_pos rfl, ih hl']
            rfl

theorem indent_name {l name : Bytes} {args : List Bytes} (hl : ∀ c ∈ l, isEol c = false)
    (hws : lineWords l = name :: args) : indent l ++ name <+: l := by
  rw [← takeWhile_beforeComment hl]
  exact (Fields.takeWhile_append_head hws).trans (beforeComment_isPrefix true l)

theorem countP_indent (l : Bytes) (hl : ∀ c ∈ l, isEol c = false) :
    (indent l).countP isEol = 0 := by
  rw [List.countP_eq_zero]
  intro c hc
  rw [hl c ((List.takeWhile_prefix _).subset hc)]
  exact Bool.false_ne_true

/-- A directive of the buffer stands at its place, and its line is one more than `count` finds
in front of it. -/
def StandsAt (count : Bytes → Nat) (content place : Bytes) (d : Directive) : Prop :=
  place ++ d.name <+: content ∧ d.line = 1 + count place

theorem savedDirectives_stand {content before last : Bytes} {ls : List (Bytes × UInt8)}
    (hcontent : content = before ++ ls.flatMap (fun x => x.1 ++ [x.2]) ++ last)
    (hls : ∀ x ∈ ls, (∀ c ∈ x.1, isEol c = false) ∧ isEol x.2 = true) (used : Nat) :
    List.Forall₂ (StandsAt (fun place => place.countP isEol) content)
      (savedPlaces answers before ls used)
      (savedDirectives answers filename ls (1 + before.countP isEol) used) := by
  induction ls generalizing before used with
  | nil => exact List.Forall₂.nil
  | cons x ls ih =>
      obtain ⟨l, e⟩ := x
      obtain ⟨⟨hl, he⟩, hls'⟩ := List.forall_mem_cons.mp hls
      have hcount : (before ++ l ++ [e]).countP isEol = before.countP isEol + 1 := by
        have hzero : l.countP isEol = 0 := List.countP_eq_zero.mpr fun c hc => by simp [hl c hc]
        rw [List.countP_append, List.countP_append, hzero, List.countP_singleton, if_pos he]
      have hrest := @ih (before ++ l ++ [e]) (by simpa using hcontent) hls'
        (afterLine answers l used)
      rw [hcount] at hrest
      rw [savedPlaces, savedDirectives]
      refine List.rel_append ?_ hrest
      rw [savedDirective]
      by_cases hgrant : Grants answers (used + (lineWords l).length) 2
      · rw [if_pos hgrant]
        cases hws : lineWords l with
        | nil => simp [wordsDirective]
        | cons name args =>
            rw [hws] at hgrant
            rw [if_pos ⟨List.cons_ne_nil _ _, hgrant⟩]
            refine List.Forall₂.cons ⟨?_, ?_⟩ List.Forall₂.nil
            · have hname := indent_name hl hws
              rw [hcontent, List.flatMap_cons, List.append_assoc, List.append_assoc]
              refine (List.prefix_append_right_inj before).mpr (hname.trans ?_)
              simp
            · show 1 + before.countP isEol = 1 + (before ++ indent l).countP isEol
              rw [List.countP_append, countP_indent l hl, Nat.add_zero]
      · rw [if_neg hgrant, if_neg fun h => hgrant h.2]
        exact List.Forall₂.nil

theorem flatMap_closedLines (content : Bytes) :
    (closedLines content).flatMap (fun x => x.1 ++ [x.2]) ++ openLine content = content :=
  Fields.flatMap_ended content

/-- Counting line breaks instead is right in front of the first pair only. -/
theorem stands_iff {content : Bytes} {places : List Bytes} {ds : List Directive}
    (h : List.Forall₂ (StandsAt (fun place => place.countP isEol) content) places ds) :
    List.Forall₂ (StandsAt lineBreaks content) places ds ↔ ∀ place ∈ places, ¬ HasCrLf place := by
  induction h with
  | nil => simp
  | @cons place d places ds hd _ ih =>
      rw [List.forall₂_cons, ih, List.forall_mem_cons, ← lineBreaks_eq_iff]
      refine and_congr_left fun _ => ⟨fun h => ?_, fun h => ⟨hd.1, ?_⟩⟩
      · have h₁ := h.2
        have h₂ : d.line = 1 + place.countP isEol := hd.2
        omega
      · have h₂ : d.line = 1 + place.countP isEol := hd.2
        omega

/-! ## The other line ending -/

def withCrLf (text : Bytes) : Bytes :=
  text.flatMap fun c => if c = charLf then [charCr, charLf] else [c]

def crLfLines (ls : List (Bytes × UInt8)) : List (Bytes × UInt8) :=
  ls.flatMap fun x => if x.2 = charLf then [(x.1, charCr), ([], charLf)] else [x]

theorem withCrLf_line {l : Bytes} (hl : ∀ c ∈ l, isEol c = false) : withCrLf l = l := by
  induction l with
  | nil => rfl
  | cons c l ih =>
      obtain ⟨hc, hl'⟩ := List.forall_mem_cons.mp hl
      have hlf : c ≠ charLf := by
        rintro rfl
        exact absurd hc (by decide)
      rw [withCrLf, List.flatMap_cons, if_neg hlf]
      exact congrArg (c :: ·) (ih hl')

theorem withCrLf_append (text text' : Bytes) :
    withCrLf (text ++ text') = withCrLf text ++ withCrLf text' :=
  List.flatMap_append

theorem withCrLf_cons (c : UInt8) (text : Bytes) :
    withCrLf (c :: text) = (if c = charLf then [charCr, charLf] else [c]) ++ withCrLf text :=
  List.flatMap_cons

theorem null_withCrLf {text : Bytes} (h0 : charNull ∉ text) : charNull ∉ withCrLf text := by
  intro h
  obtain ⟨c, hc, hmem⟩ := List.mem_flatMap.mp h
  split at hmem
  · exact absurd hmem (by decide)
  · rw [List.mem_singleton] at hmem
    exact h0 (hmem ▸ hc)

theorem lines_withCrLf (content : Bytes) :
    closedLines (withCrLf content) = crLfLines (closedLines content) ∧
      openLine (withCrLf content) = openLine content := by
  have hcr : isEol charCr = true := by decide
  have hlf : isEol charLf = true := by decide
  induction content using Fields.run_induction (p := isEol) with
  | word l hl =>
      rw [withCrLf_line hl, closedLines, Fields.ended_word hl]
      exact ⟨rfl, rfl⟩
  | sep l e content hl he ih =>
      rw [withCrLf_append, withCrLf_cons, withCrLf_line hl]
      simp only [closedLines, openLine] at ih ⊢
      rw [Fields.ended_word_sep hl he, Fields.lastRun_word_sep he, crLfLines, List.flatMap_cons]
      by_cases h : e = charLf
      · have hempty : Fields.ended isEol (charLf :: withCrLf content) =
            ([], charLf) :: Fields.ended isEol (withCrLf content) :=
          Fields.ended_word_sep (w := []) (by simp) hlf
        have hlast : Fields.lastRun isEol (charLf :: withCrLf content) =
            Fields.lastRun isEol (withCrLf content) := Fields.lastRun_word_sep (w := []) hlf
        rw [if_pos h, if_pos h, List.cons_append, List.singleton_append,
          Fields.ended_word_sep hl hcr, Fields.lastRun_word_sep hcr, hempty, hlast, ih.1, ih.2]
        exact ⟨rfl, rfl⟩
      · rw [if_neg h, if_neg h, List.singleton_append, Fields.ended_word_sep hl he,
          Fields.lastRun_word_sep he, ih.1, ih.2]
        exact ⟨rfl, rfl⟩

theorem lineReads_nil (used : Nat) : LineReads answers [] used := by
  refine ⟨?_, Grants.zero⟩
  decide

theorem lastLineAt_crLf (ls : List (Bytes × UInt8)) (used : Nat) :
    lastLineAt answers (crLfLines ls) used = lastLineAt answers ls used := by
  induction ls generalizing used with
  | nil => rfl
  | cons x ls ih =>
      obtain ⟨l, e⟩ := x
      rw [crLfLines, List.flatMap_cons]
      split
      · rw [List.cons_append, List.singleton_append, lastLineAt, lastLineAt, lastLineAt,
          if_pos (lineReads_nil _)]
        exact congrArg (if LineReads answers l used then · else none) (ih _)
      · rw [List.singleton_append, lastLineAt, lastLineAt]
        exact congrArg (if LineReads answers l used then · else none) (ih _)

theorem readable_withCrLf (content : Bytes) (used : Nat) :
    Readable answers (withCrLf content) used ↔ Readable answers content used := by
  obtain ⟨hclosed, hopen⟩ := lines_withCrLf content
  rw [Readable, Readable, hclosed, hopen, lastLineAt_crLf]

theorem savedDirective_shift (before l : Bytes) (line used : Nat) :
    savedDirective answers filename l (line + before.count charLf) used =
        savedDirective answers filename l line used ↔
      ¬ (lineWords l ≠ [] ∧ Grants answers (used + (lineWords l).length) 2) ∨
        charLf ∉ before := by
  rw [savedDirective, savedDirective]
  by_cases hgrant : Grants answers (used + (lineWords l).length) 2
  · rw [if_pos hgrant, if_pos hgrant]
    cases hws : lineWords l with
    | nil => simp [wordsDirective]
    | cons name args =>
        rw [hws, List.length_cons] at hgrant
        simp [wordsDirective, Directive.of, hgrant, List.count_eq_zero]
  · simp [hgrant]

theorem savedDirectives_crLf (answers : PoolAnswers) (filename : Option Nat)
    {ls : List (Bytes × UInt8)} (hls : ∀ x ∈ ls, ∀ c ∈ x.1, isEol c = false) (before : Bytes)
    (line used : Nat) :
    savedDirectives answers filename (crLfLines ls) (line + before.count charLf) used =
        savedDirectives answers filename ls line used ↔
      ∀ place ∈ savedPlaces answers before ls used, charLf ∉ place := by
  induction ls generalizing before line used with
  | nil => simp [crLfLines, savedDirectives, savedPlaces]
  | cons x ls ih =>
      obtain ⟨l, e⟩ := x
      obtain ⟨hl, hls'⟩ := List.forall_mem_cons.mp hls
      have hnolf (b : Bytes) (hb : b <+: l) : charLf ∉ b := fun h =>
        absurd (hl charLf (hb.subset h)) (by decide)
      have hcount : (before ++ l ++ [e]).count charLf =
          before.count charLf + if e = charLf then 1 else 0 := by
        rw [List.count_append, List.count_append, List.count_eq_zero.mpr (hnolf l List.prefix_rfl),
          List.count_singleton]
        simp
      have hstep : savedDirectives answers filename (crLfLines ((l, e) :: ls))
            (line + before.count charLf) used =
          savedDirective answers filename l (line + before.count charLf) used ++
            savedDirectives answers filename (crLfLines ls)
              (line + 1 + (before ++ l ++ [e]).count charLf) (afterLine answers l used) := by
        rw [crLfLines, List.flatMap_cons, hcount]
        split
        · rw [List.cons_append, List.singleton_append, savedDirectives, savedDirectives]
          have hempty (n m : Nat) : savedDirective answers filename [] n m = [] := by
            rw [savedDirective]
            split <;> rfl
          rw [hempty, List.nil_append, Nat.add_right_comm line 1, ← Nat.add_assoc]
          rfl
        · rw [List.singleton_append, savedDirectives, Nat.add_zero, Nat.add_right_comm]
          rfl
      have hlen : (savedDirective answers filename l (line + before.count charLf) used).length =
          (savedDirective answers filename l line used).length := by
        rw [savedDirective, savedDirective]
        split
        · cases lineWords l <;> rfl
        · rfl
      have hboth (rest rest' : List Directive) :
          savedDirective answers filename l (line + before.count charLf) used ++ rest =
              savedDirective answers filename l line used ++ rest' ↔
            savedDirective answers filename l (line + before.count charLf) used =
              savedDirective answers filename l line used ∧ rest = rest' :=
        ⟨fun h => List.append_inj h hlen, fun h => by rw [h.1, h.2]⟩
      rw [hstep, savedDirectives, hboth, savedDirective_shift,
        ih hls' (before ++ l ++ [e]) (line + 1), savedPlaces, List.forall_mem_append]
      apply and_congr_left
      intro _
      by_cases hsaved : lineWords l ≠ [] ∧ Grants answers (used + (lineWords l).length) 2
      · simp [hsaved, hnolf (indent l) (List.takeWhile_prefix _)]
      · simp [hsaved]

/-! ## Parsing -/

/-- If the buffer is accepted, the line of each directive it saves is one more than the line
breaks in front of its name, and CR LF for every LF changes no directive and no line. -/
def NumbersLines (answers : PoolAnswers) (config : Config) (used : Nat) (content rest : Bytes) :
    Prop :=
  ∀ config' n, parse answers config used (content ++ charNull :: rest) =
      .ok (Err.ok, config', n) →
    List.Forall₂ (StandsAt lineBreaks content)
      (savedPlaces answers [] (closedLines content) used)
      (config'.confList.drop config.confList.length) ∧
    ∃ n', parse answers config used (withCrLf content ++ charNull :: rest) =
      .ok (Err.ok, config', n')

/-- The lines are right in front of the first CR LF pair. -/
theorem parse_stands_iff {config config' : Config} {used n : Nat} {content rest : Bytes}
    (h0 : charNull ∉ content)
    (hp : parse answers config used (content ++ charNull :: rest) = .ok (Err.ok, config', n)) :
    List.Forall₂ (StandsAt lineBreaks content)
        (savedPlaces answers [] (closedLines content) used)
        (config'.confList.drop config.confList.length) ↔
      ∀ place ∈ savedPlaces answers [] (closedLines content) used, ¬ HasCrLf place := by
  obtain ⟨-, rfl⟩ := parse_ok h0 hp
  rw [Config.drop_append]
  exact stands_iff (savedDirectives_stand (flatMap_closedLines content).symm
    (fun x hx => Fields.sep_of_mem_ended hx) used)

theorem parse_withCrLf_iff {config config' : Config} {used n : Nat} {content rest : Bytes}
    (h0 : charNull ∉ content)
    (hp : parse answers config used (content ++ charNull :: rest) = .ok (Err.ok, config', n)) :
    (∃ n', parse answers config used (withCrLf content ++ charNull :: rest) =
        .ok (Err.ok, config', n')) ↔
      ∀ place ∈ savedPlaces answers [] (closedLines content) used, charLf ∉ place := by
  obtain ⟨hread, rfl⟩ := parse_ok h0 hp
  have hclosed : ∀ x ∈ closedLines content, ∀ c ∈ x.1, isEol c = false :=
    fun _ hx => closedLines_no_eol hx
  have hshift := savedDirectives_crLf answers config.fileName hclosed [] 1 used
  rw [List.count_nil, Nat.add_zero, ← (lines_withCrLf content).1] at hshift
  rw [← hshift]
  constructor
  · rintro ⟨n', hp'⟩
    have hlist := congrArg Config.confList (parse_ok (null_withCrLf h0) hp').2
    exact (List.append_cancel_left hlist).symm
  · intro heq
    obtain ⟨n', hp'⟩ := (parse_reads answers config used rest (null_withCrLf h0)).1
      ((readable_withCrLf content used).mpr hread)
    exact ⟨n', by rw [hp', heq]⟩

/-- Line numbers are right for either line ending exactly as long as no LF stands in front
of a directive that is saved. -/
theorem numbers_lines_iff (answers : PoolAnswers) (config : Config) (used : Nat)
    {content : Bytes} (rest : Bytes) (h0 : charNull ∉ content) :
    NumbersLines answers config used content rest ↔ ¬ Readable answers content used ∨
      ∀ place ∈ savedPlaces answers [] (closedLines content) used, charLf ∉ place := by
  constructor
  · intro h
    by_cases hread : Readable answers content used
    · obtain ⟨n, hp⟩ := (parse_reads answers config used rest h0).1 hread
      exact Or.inr ((parse_withCrLf_iff h0 hp).mp (h _ n hp).2)
    · exact Or.inl hread
  · intro h config' n hp
    have hplaces := h.resolve_left fun hn => hn (parse_ok h0 hp).1
    exact ⟨(parse_stands_iff h0 hp).mpr fun place hplace => not_hasCrLf (hplaces place hplace),
      (parse_withCrLf_iff h0 hp).mpr hplaces⟩

/-- One directive on the first line. -/
theorem numbers_lines_first :
    NumbersLines (fun _ => none) Config.empty 0 (ascii "listen 80\n") [] := by
  refine (numbers_lines_iff (fun _ => none) Config.empty 0 [] (by decide)).mpr (Or.inr ?_)
  decide

/-- On the second line of a file with CR LF line breaks the directive has line 3. -/
theorem second_line_counted_third :
    ¬ NumbersLines (fun _ => none) Config.empty 0 (ascii "# comment\r\nlisten 80\r\n") [] := by
  intro h
  have hp : parse (fun _ => none) Config.empty 0
      (ascii "# comment\r\nlisten 80\r\n" ++ charNull :: []) = .ok (Err.ok,
        Config.empty.append [⟨ascii "listen", 1, [ascii "80"], none, 3, rfl⟩], 4) := rfl
  have hplaces : savedPlaces (fun _ => none) []
      (closedLines (ascii "# comment\r\nlisten 80\r\n")) 0 = [ascii "# comment\r\n"] := by
    decide
  have hstands := (h _ _ hp).1
  rw [hplaces] at hstands
  have hline := (List.forall₂_cons.mp hstands).1.2
  exact absurd hline (by decide)

end Floppix.Configuration
