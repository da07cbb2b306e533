import Floppix.Core.Config.Reading

/-! # What a buffer parses to

A line asks the pool for one allocation a word and, if it has words, for two more when
its directive is saved. The parser goes through the buffer as long as the lines are not
refused and the words are granted; a directive that is not granted is missing from the
result, and the parser goes on.
-/

namespace Floppix.Configuration

variable {answers : PoolAnswers} {filename : Option Nat}

/-! ## One line -/

def LineRefused (l : Bytes) : Prop := (∃ b ∈ l, 0x80 ≤ b) ∨ BadLine l

/-- The words of a line that LF or CR ends are all stored. -/
def LineReads (answers : PoolAnswers) (l : Bytes) (used : Nat) : Prop :=
  ¬ LineRefused l ∧ Grants answers used (lineWords l).length

/-- The words of the last line that something follows are all stored. -/
def OpenReads (answers : PoolAnswers) (l : Bytes) (used : Nat) : Prop :=
  ¬ BadText l (beforeComment true l) (completeWords (beforeComment true l)) ∧
    Grants answers used (completeWords (beforeComment true l)).length

instance (l : Bytes) : Decidable (LineRefused l) := inferInstanceAs (Decidable (_ ∨ _))

instance (answers : PoolAnswers) (l : Bytes) (used : Nat) : Decidable (LineReads answers l used) :=
  inferInstanceAs (Decidable (_ ∧ _))

instance (l text : Bytes) (all : List Bytes) : Decidable (BadText l text all) :=
  inferInstanceAs (Decidable (_ ∨ _ ∨ _))

instance (answers : PoolAnswers) (l : Bytes) (used : Nat) : Decidable (OpenReads answers l used) :=
  inferInstanceAs (Decidable (_ ∧ _))

theorem badText_lineWords (l : Bytes) :
    BadText l (beforeComment true l) (lineWords l) ↔ LineRefused l := by
  rw [BadText, LineRefused, BadLine, hashInWord_iff, TooManyWords]
  rfl

/-- The last run of a line can only make it too long. -/
theorem badText_complete (l text : Bytes) :
    BadText l text (words text) ↔ BadText l text (completeWords text) ∨
      maxTakes < (words text).length := by
  have hle : (completeWords text).length ≤ (words text).length := by
    rw [words_eq_complete, List.length_append]
    omega
  constructor
  · rintro (hhigh | hhash | hlong)
    · exact Or.inl (Or.inl hhigh)
    · exact Or.inl (Or.inr (Or.inl hhash))
    · exact Or.inr hlong
  · rintro ((hhigh | hhash | hlong) | hlong)
    · exact Or.inl hhigh
    · exact Or.inr (Or.inl hhash)
    · exact Or.inr (Or.inr (by omega))
    · exact Or.inr (Or.inr hlong)

theorem openRun_run (text : Bytes) : ∀ c ∈ openRun text, isSep c = false :=
  Fields.lastRun_no_sep text

theorem readOpen_reads (answers : PoolAnswers) {l : Bytes} (hl : ∀ c ∈ l, isEol c = false)
    (used : Nat) :
    Reads answers (readText answers l false [] [] used) (OpenReads answers l used)
      (completeWords (beforeComment true l), openRun (beforeComment true l),
        used + (completeWords (beforeComment true l)).length) :=
  readText_reads answers hl false [] [] used (fun _ => rfl) (by simp) (by simp [maxTakes])

theorem readLine_reads (answers : PoolAnswers) {l : Bytes} (hl : ∀ c ∈ l, isEol c = false)
    (used : Nat) :
    Reads answers (readLine answers l used) (LineReads answers l used)
      (lineWords l, used + (lineWords l).length) := by
  have htext := readOpen_reads answers hl used
  have hwords : lineWords l = completeWords (beforeComment true l) ++
      words (openRun (beforeComment true l)) := words_eq_complete _
  have hbad := badText_complete l (beforeComment true l)
  have hrefused : BadText l (beforeComment true l) (words (beforeComment true l)) ↔
      LineRefused l := badText_lineWords l
  rw [readLine]
  by_cases hopen : OpenReads answers l used
  · simp only [htext.1 hopen]
    have hlen : (completeWords (beforeComment true l)).length ≤ maxTakes := by
      by_contra h
      exact hopen.1 (Or.inr (Or.inr (by omega)))
    refine (endWord_reads _ (openRun_run _) hlen _).congr ?_ fun _ => ?_
    · rw [LineReads, ← hrefused, hbad, ← words_eq_complete, hwords, List.length_append,
        grants_add]
      simp [hopen.1, hopen.2]
    · rw [hwords, List.length_append, Nat.add_assoc]
  · obtain ⟨err, n, hstop, herr⟩ := htext.2 hopen
    simp only [hstop]
    refine Reads.stop rfl herr fun h => hopen ⟨?_, ?_⟩
    · intro h'
      exact h.1 (hrefused.mp (hbad.mpr (Or.inl h')))
    · have hgrants := h.2
      rw [hwords, List.length_append, grants_add] at hgrants
      exact hgrants.1

/-! ## The lines of a buffer -/

/-- The number of allocations made when a line has been read and saved. -/
def afterLine (answers : PoolAnswers) (l : Bytes) (used : Nat) : Nat :=
  if lineWords l = [] then used
  else if answers (used + (lineWords l).length) = none then used + (lineWords l).length + 2
  else used + (lineWords l).length + 1

def savedDirective (answers : PoolAnswers) (filename : Option Nat) (l : Bytes) (line used : Nat) :
    List Directive :=
  if Grants answers (used + (lineWords l).length) 2 then
    (wordsDirective filename line (lineWords l)).toList
  else []

def savedDirectives (answers : PoolAnswers) (filename : Option Nat) :
    List (Bytes × UInt8) → Nat → Nat → List Directive
  | [], _, _ => []
  | (l, _) :: ls, line, used => savedDirective answers filename l line used ++
      savedDirectives answers filename ls (line + 1) (afterLine answers l used)

def lastLineAt (answers : PoolAnswers) : List (Bytes × UInt8) → Nat → Option Nat
  | [], used => some used
  | (l, _) :: ls, used =>
      if LineReads answers l used then lastLineAt answers ls (afterLine answers l used) else none

/-- The parser gets to the end of the buffer. -/
def Readable (answers : PoolAnswers) (content : Bytes) (used : Nat) : Prop :=
  ∃ n ∈ lastLineAt answers (closedLines content) used, OpenReads answers (openLine content) n

theorem grants_two {used : Nat} :
    Grants answers used 2 ↔ answers used = none ∧ answers (used + 1) = none := by
  rw [grants_succ, grants_succ]
  simp [Grants.zero]

theorem saveWords_eq (answers : PoolAnswers) (filename : Option Nat) (line : Nat) (l : Bytes)
    (config : Config) (used : Nat) :
    saveWords answers filename line (lineWords l) config (used + (lineWords l).length) =
      (config.append (savedDirective answers filename l line used),
        afterLine answers l used) := by
  rw [saveWords, savedDirective, afterLine]
  cases hws : lineWords l with
  | nil => simp [wordsDirective, Config.append]
  | cons name args =>
      simp only [wordsDirective, saveDirective, grants_two]
      cases answers (used + (name :: args).length) with
      | some e => simp [Config.append]
      | none =>
          cases answers (used + (name :: args).length + 1) with
          | some e => simp [Config.append]
          | none => simp

theorem saveWords_appends (answers : PoolAnswers) (filename : Option Nat) (line : Nat)
    (ws : List Bytes) (config : Config) (used : Nat) :
    ∃ ds, (saveWords answers filename line ws config used).1 = config.append ds ∧
      ∀ d ∈ ds, d.filename = filename := by
  have hnone : ∃ ds, config = config.append ds ∧ ∀ d ∈ ds, d.filename = filename :=
    ⟨[], by simp [Config.append], by simp⟩
  rw [saveWords]
  cases ws with
  | nil => exact hnone
  | cons name args =>
      simp only [wordsDirective, saveDirective]
      cases answers used with
      | some e => exact hnone
      | none =>
          cases answers (used + 1) with
          | some e => exact hnone
          | none => exact ⟨_, rfl, by simp [Directive.of]⟩

theorem readLines_cons (answers : PoolAnswers) (filename : Option Nat) {l : Bytes}
    (hl : ∀ c ∈ l, isEol c = false) (e : UInt8) (ls : List (Bytes × UInt8)) (last : Bytes)
    (line : Nat) (config : Config) (used : Nat) :
    (LineReads answers l used → readLines answers filename ((l, e) :: ls) last line config used =
      readLines answers filename ls last (line + 1)
        (config.append (savedDirective answers filename l line used))
        (afterLine answers l used)) ∧
    (¬ LineReads answers l used → ∃ err n,
      readLines answers filename ((l, e) :: ls) last line config used = (err, config, n) ∧
      readLine answers l used = .error (err, n) ∧ ScanError answers err) := by
  have hread := readLine_reads answers hl used
  constructor
  · intro hline
    rw [readLines, hread.1 hline]
    simp only [saveWords_eq]
  · intro hline
    obtain ⟨err, n, hstop, herr⟩ := hread.2 hline
    exact ⟨err, n, by rw [readLines, hstop], hstop, herr⟩

theorem Config.append_append (config : Config) (ds ds' : List Directive) :
    (config.append ds).append ds' = config.append (ds ++ ds') := by
  simp [Config.append]

theorem Config.drop_append (config : Config) (ds : List Directive) :
    (config.append ds).confList.drop config.confList.length = ds :=
  List.drop_left

/-- The lines are read to the end, or the reader stops. -/
theorem readLines_spec (answers : PoolAnswers) (filename : Option Nat)
    {ls : List (Bytes × UInt8)} {last : Bytes} (hls : ∀ x ∈ ls, ∀ c ∈ x.1, isEol c = false)
    (hlast : ∀ c ∈ last, isEol c = false)
    (line : Nat) (config : Config) (used : Nat) :
    (∀ n ∈ lastLineAt answers ls used, OpenReads answers last n →
      ∃ m, readLines answers filename ls last line config used =
        (Err.ok, config.append (savedDirectives answers filename ls line used), m)) ∧
    ((∀ n ∈ lastLineAt answers ls used, ¬ OpenReads answers last n) →
      ∃ err config' m, readLines answers filename ls last line config used = (err, config', m) ∧
        ScanError answers err) := by
  induction ls generalizing line config used with
  | nil =>
      have hread := readOpen_reads answers hlast used
      constructor
      · intro n hn hopen
        obtain rfl : used = n := by simpa [lastLineAt] using hn
        rw [readLines, hread.1 hopen]
        exact ⟨_, by simp [savedDirectives, Config.append]; rfl⟩
      · intro h
        obtain ⟨err, m, hstop, herr⟩ := hread.2 (h used rfl)
        exact ⟨err, config, m, by rw [readLines, hstop], herr⟩
  | cons x ls ih =>
      obtain ⟨l, e⟩ := x
      obtain ⟨hl, hls'⟩ := List.forall_mem_cons.mp hls
      obtain ⟨hgo, hstop⟩ := readLines_cons answers filename hl e ls last
        line config used
      by_cases hline : LineReads answers l used
      · obtain ⟨hok, herr⟩ := ih hls' (line + 1)
          (config.append (savedDirective answers filename l line used)) (afterLine answers l used)
        rw [lastLineAt, if_pos hline, hgo hline, savedDirectives, ← Config.append_append]
        exact ⟨hok, herr⟩
      · obtain ⟨err, n, hr, -, herr⟩ := hstop hline
        rw [lastLineAt, if_neg hline]
        exact ⟨fun m hm => (by cases hm), fun _ => ⟨err, config, n, hr, herr⟩⟩

theorem closedLines_no_eol {content : Bytes} {x : Bytes × UInt8} (h : x ∈ closedLines content) :
    ∀ c ∈ x.1, isEol c = false :=
  (Fields.sep_of_mem_ended h).1

theorem openLine_no_eol (content : Bytes) : ∀ c ∈ openLine content, isEol c = false :=
  Fields.lastRun_no_sep content

/-- `fpx_config_parse` succeeds exactly on the buffers that are read to the end, and has
then appended the directives the pool granted. -/
theorem parse_reads (answers : PoolAnswers) (config : Config) (used : Nat) {content : Bytes}
    (rest : Bytes) (h0 : charNull ∉ content) :
    (Readable answers content used → ∃ n,
      parse answers config used (content ++ charNull :: rest) = .ok (Err.ok,
        config.append (savedDirectives answers config.fileName (closedLines content) 1 used), n)) ∧
    (¬ Readable answers content used → ∃ err config' n,
      parse answers config used (content ++ charNull :: rest) = .ok (err, config', n) ∧
        ScanError answers err) := by
  obtain ⟨hok, herr⟩ := readLines_spec answers config.fileName
    (fun _ hx => closedLines_no_eol hx) (openLine_no_eol content) 1 config used
  rw [parse_eq_readLines answers config used rest h0]
  constructor
  · rintro ⟨n, hn, hopen⟩
    obtain ⟨m, hm⟩ := hok n hn hopen
    exact ⟨m, by rw [hm]⟩
  · intro h
    obtain ⟨err, config', m, hm, hs⟩ := herr fun n hn hopen => h ⟨n, hn, hopen⟩
    exact ⟨err, config', m, by rw [hm], hs⟩

theorem parse_ok {config config' : Config} {used n : Nat} {content rest : Bytes}
    (h0 : charNull ∉ content)
    (hp : parse answers config used (content ++ charNull :: rest) = .ok (Err.ok, config', n)) :
    Readable answers content used ∧ config' =
      config.append (savedDirectives answers config.fileName (closedLines content) 1 used) := by
  obtain ⟨hgood, hbad⟩ := parse_reads answers config used rest h0
  by_cases hread : Readable answers content used
  · obtain ⟨m, hp'⟩ := hgood hread
    rw [hp] at hp'
    cases hp'
    exact ⟨hread, rfl⟩
  · obtain ⟨err, config'', m, hp', herr⟩ := hbad hread
    rw [hp] at hp'
    cases hp'
    exact absurd rfl herr.ne_ok

/-! ## A pool that grants everything -/

theorem lineReads_iff (hok : ∀ k, answers k = none) (l : Bytes) (used : Nat) :
    LineReads answers l used ↔ ¬ LineRefused l :=
  and_iff_left (Grants.of_all hok _ _)

theorem openReads_nil (used : Nat) : OpenReads answers [] used := by
  refine ⟨?_, Grants.zero⟩
  rintro (⟨b, hb, -⟩ | hhash | hlong)
  · cases hb
  · cases hhash
  · exact absurd hlong (by decide)

/-- The buffers that are read to the end are those the grammar does not reject. -/
theorem readable_iff (hok : ∀ k, answers k = none) {content : Bytes} (ht : Terminated content)
    (used : Nat) : Readable answers content used ↔ ¬ Rejected content := by
  induction content using Fields.run_induction (p := isEol) generalizing used with
  | word l hl =>
      obtain rfl := ht.eq_nil hl
      exact ⟨fun _ => not_rejected_nil, fun _ => ⟨used, rfl, openReads_nil used⟩⟩
  | sep l e content hl he ih =>
      have hline := lineReads_iff hok l used
      rw [rejected_append hl he, not_or, ← ih ht.rest (afterLine answers l used), Readable,
        closedLines, openLine, Fields.ended_word_sep hl he, Fields.lastRun_word_sep he, lastLineAt]
      by_cases hr : LineRefused l
      · rw [if_neg fun h => hline.mp h hr]
        refine iff_of_false ?_ fun h => h.1 hr
        rintro ⟨n, hn, -⟩
        cases hn
      · rw [if_pos (hline.mpr hr)]
        exact ⟨fun h => ⟨hr, h⟩, fun h => h.2⟩

theorem savedDirectives_all (hok : ∀ k, answers k = none) {content : Bytes}
    (ht : Terminated content) (filename : Option Nat) (line used : Nat) :
    savedDirectives answers filename (closedLines content) line used =
      lineDirectives filename line (splitLines content) := by
  induction content using Fields.run_induction (p := isEol) generalizing line used with
  | word l hl =>
      obtain rfl := ht.eq_nil hl
      rfl
  | sep l e content hl he ih =>
      rw [splitLines_append hl he, lineDirectives, ← ih ht.rest (line + 1)
        (afterLine answers l used), closedLines, Fields.ended_word_sep hl he, savedDirectives,
        savedDirective, if_pos (Grants.of_all hok _ _)]
      rfl

/-- `fpx_config_parse` rejects exactly the buffers the grammar rejects, and from every
other one it appends the directives of its lines, in file order. No word is stored
outside `argv`, and no byte behind the terminator is read. -/
theorem parse_grammar (hok : ∀ k, answers k = none) (config : Config) (used : Nat)
    {content : Bytes} (rest : Bytes) (h0 : charNull ∉ content) (ht : Terminated content) :
    ∃ err config' n, parse answers config used (content ++ charNull :: rest) =
        .ok (err, config', n) ∧
      (err = Err.configSyntax ↔ Rejected content) ∧
      (¬ Rejected content → err = Err.ok ∧
        config' = config.append (directives config.fileName content)) := by
  obtain ⟨hgood, hbad⟩ := parse_reads answers config used rest h0
  have hread := readable_iff hok ht used
  by_cases hrej : Rejected content
  · obtain ⟨err, config', n, hp, herr⟩ := hbad fun h => hread.mp h hrej
    exact ⟨err, config', n, hp, by simp [hrej, herr.syntax hok], fun h => absurd hrej h⟩
  · obtain ⟨n, hp⟩ := hgood (hread.mpr hrej)
    refine ⟨Err.ok, _, n, hp, ?_, fun _ => ⟨rfl, by rw [savedDirectives_all hok ht]; rfl⟩⟩
    simp [hrej, Err.configSyntax_ne_ok.symm]

/-- Two lines with comments: one directive, of the second. -/
theorem parse_grammar_listen :
    ∃ config' n, parse (fun _ => none) Config.empty 0
        (ascii "# here\nlisten 80 # there\n" ++ charNull :: []) = .ok (Err.ok, config', n) ∧
      config' = Config.empty.append [⟨ascii "listen", 1, [ascii "80"], none, 2, rfl⟩] := by
  have hgood : ¬ Rejected (ascii "# here\nlisten 80 # there\n") := by decide
  obtain ⟨err, config', n, hp, -, hok⟩ := @parse_grammar (fun _ => none) (fun _ => rfl)
    Config.empty 0 (ascii "# here\nlisten 80 # there\n") [] (by decide)
    (Or.inr ⟨ascii "# here\nlisten 80 # there", charLf, rfl, rfl⟩)
  obtain ⟨rfl, hc⟩ := hok hgood
  exact ⟨config', n, hp, by rw [hc]; decide⟩

end Floppix.Configuration
