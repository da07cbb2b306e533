import Floppix.Core.Config.Buffer

/-! # The last line of a configuration

Where the terminator is met, the loop returns: a word in front of it is not stored,
and the words before that one are not saved. So a last line without a line break
counts only for what is wrong with it.
-/

namespace Floppix.Configuration

variable {answers : PoolAnswers} {filename : Option Nat}

/-- The same status, and the same names and arguments on the list. -/
def SameParse (r r' : Err × Config × Nat) : Prop := r.1 = r'.1 ∧ r.2.1.keys = r'.2.1.keys

def EndsLastLine (answers : PoolAnswers) (config : Config) (used : Nat) (content rest : Bytes) :
    Prop :=
  ∃ r r', parse answers config used (content ++ charNull :: rest) = .ok r ∧
    parse answers config used (content ++ [charLf] ++ charNull :: rest) = .ok r' ∧ SameParse r r'

/-- A last line that makes no difference: the parser stops in it, it has no words, or the
pool grants the words and denies the directive. -/
def LastLineIdle (answers : PoolAnswers) (last : Bytes) (used : Nat) : Prop :=
  ¬ OpenReads answers last used ∨ lineWords last = [] ∨
    LineReads answers last used ∧ ¬ Grants answers (used + (lineWords last).length) 2

theorem readLine_of_stop {l : Bytes} {used : Nat} {stop : Stop}
    (h : readText answers l false [] [] used = .error stop) :
    readLine answers l used = .error stop := by
  rw [readLine, h]

theorem lineReads_of_no_words {l : Bytes} {used : Nat} (h : OpenReads answers l used)
    (hws : lineWords l = []) : LineReads answers l used := by
  have hwords : words (beforeComment true l) = [] := hws
  refine ⟨fun hbad => h.1 ?_, by rw [hws]; exact Grants.zero⟩
  rcases (badText_complete _ _).mp ((badText_lineWords l).mpr hbad) with hbad | hlong
  · exact hbad
  · rw [hwords] at hlong
    exact absurd hlong (by decide)

theorem savedDirective_eq_nil_iff (filename : Option Nat) (l : Bytes) (line used : Nat) :
    savedDirective answers filename l line used = [] ↔
      lineWords l = [] ∨ ¬ Grants answers (used + (lineWords l).length) 2 := by
  rw [savedDirective]
  cases hws : lineWords l with
  | nil => simp [wordsDirective]
  | cons name args => simp [wordsDirective]

theorem keys_append_eq_iff (config : Config) (ds : List Directive) :
    config.keys = (config.append ds).keys ↔ ds = [] := by
  rw [Config.keys, Config.keys, Config.append, List.map_append, List.self_eq_append_right,
    List.map_eq_nil_iff]

theorem last_line_iff {last : Bytes} (hlast : ∀ c ∈ last, isEol c = false) (e : UInt8)
    (line : Nat) (config : Config) (used : Nat) :
    SameParse (readLines answers filename [] last line config used)
      (readLines answers filename [(last, e)] [] line config used) ↔
    LastLineIdle answers last used := by
  have hread := readOpen_reads answers hlast used
  obtain ⟨hgo, hstop⟩ := readLines_cons answers filename hlast e [] []
    line config used
  by_cases hopen : OpenReads answers last used
  · have hleft : readLines answers filename [] last line config used = (Err.ok, config,
        used + (completeWords (beforeComment true last)).length) := by
      rw [readLines, hread.1 hopen]
    rw [hleft]
    by_cases hline : LineReads answers last used
    · have hright : readLines answers filename [(last, e)] [] line config used =
          (Err.ok, config.append (savedDirective answers filename last line used),
            afterLine answers last used) := by
        rw [hgo hline, readLines]
        rfl
      rw [hright]
      constructor
      · intro h
        have hnil := (keys_append_eq_iff _ _).mp h.2
        rcases (savedDirective_eq_nil_iff filename last line used).mp hnil with hws | hdenied
        · exact Or.inr (Or.inl hws)
        · exact Or.inr (Or.inr ⟨hline, hdenied⟩)
      · intro h
        refine ⟨rfl, (keys_append_eq_iff _ _).mpr ?_⟩
        rw [savedDirective_eq_nil_iff]
        rcases h with h | hws | ⟨-, hdenied⟩
        · exact absurd hopen h
        · exact Or.inl hws
        · exact Or.inr hdenied
    · obtain ⟨err, n, hright, -, herr⟩ := hstop hline
      rw [hright]
      constructor
      · intro h
        exact absurd h.1.symm herr.ne_ok
      · rintro (h | hws | ⟨h, -⟩)
        · exact absurd hopen h
        · exact absurd (lineReads_of_no_words hopen hws) hline
        · exact absurd h hline
  · obtain ⟨err, n, hr, -⟩ := hread.2 hopen
    refine ⟨fun _ => Or.inl hopen, fun _ => ?_⟩
    rw [readLines, readLines, hr, readLine_of_stop hr]
    exact ⟨rfl, rfl⟩

/-- Up to the last line both runs are one. -/
theorem readLines_last_iff (answers : PoolAnswers) (filename : Option Nat)
    {ls : List (Bytes × UInt8)} {last : Bytes} (hls : ∀ x ∈ ls, ∀ c ∈ x.1, isEol c = false)
    (hlast : ∀ c ∈ last, isEol c = false) (e : UInt8)
    (line : Nat) (config : Config) (used : Nat) :
    SameParse (readLines answers filename ls last line config used)
      (readLines answers filename (ls ++ [(last, e)]) [] line config used) ↔
    ∀ n ∈ lastLineAt answers ls used, LastLineIdle answers last n := by
  induction ls generalizing line config used with
  | nil =>
      rw [List.nil_append, last_line_iff hlast]
      simp [lastLineAt]
  | cons x ls ih =>
      obtain ⟨l, e'⟩ := x
      obtain ⟨hl, hls'⟩ := List.forall_mem_cons.mp hls
      obtain ⟨hgo, hstop⟩ := readLines_cons answers filename hl e' ls
        last line config used
      obtain ⟨hgo', hstop'⟩ := readLines_cons answers filename hl e'
        (ls ++ [(last, e)]) [] line config used
      rw [List.cons_append, lastLineAt]
      by_cases hline : LineReads answers l used
      · rw [if_pos hline, hgo hline, hgo' hline]
        exact ih hls' _ _ _
      · obtain ⟨err, n, hr, hread, -⟩ := hstop hline
        obtain ⟨err', n', hr', hread', -⟩ := hstop' hline
        rw [hread] at hread'
        cases hread'
        rw [if_neg hline, hr, hr']
        exact ⟨fun _ m hm => (by cases hm), fun _ => ⟨rfl, rfl⟩⟩

/-- A LF at the end changes nothing, exactly when the parser stops before the end, the
last line has no words, or its directive is denied its memory anyway. -/
theorem ends_last_line_iff (answers : PoolAnswers) (config : Config) (used : Nat)
    {content : Bytes} (rest : Bytes) (h0 : charNull ∉ content) :
    EndsLastLine answers config used content rest ↔
      ∀ n ∈ lastLineAt answers (closedLines content) used,
        LastLineIdle answers (openLine content) n := by
  have h0' : charNull ∉ content ++ [charLf] := by
    rw [List.mem_append, List.mem_singleton]
    rintro (h | h)
    · exact h0 h
    · exact absurd h (by decide)
  have hlf : isEol charLf = true := by decide
  have hclosed : closedLines (content ++ [charLf]) =
      closedLines content ++ [(openLine content, charLf)] := Fields.ended_concat content hlf
  have hopen : openLine (content ++ [charLf]) = [] := Fields.lastRun_concat content hlf
  rw [EndsLastLine, parse_eq_readLines answers config used rest h0,
    parse_eq_readLines answers config used rest h0', hclosed, hopen,
    ← readLines_last_iff answers config.fileName
      (fun x hx => closedLines_no_eol hx) (openLine_no_eol content) charLf 1 config used]
  constructor
  · rintro ⟨r, r', hr, hr', h⟩
    cases hr
    cases hr'
    exact h
  · exact fun h => ⟨_, _, rfl, rfl, h⟩

/-- A comment needs no line break. -/
theorem ends_last_line_comment :
    EndsLastLine (fun _ => none) Config.empty 0 (ascii "listen 80\n# end") [] := by
  apply (ends_last_line_iff (fun _ => none) Config.empty 0 [] (by decide)).mpr
  intro n hn
  exact Or.inr (Or.inl (by decide))

/-- The directive of the last line is lost. -/
theorem last_directive_lost :
    ¬ EndsLastLine (fun _ => none) Config.empty 0 (ascii "listen 80") [] := by
  rintro ⟨r, r', hr, hr', -, hkeys⟩
  have hr₀ : parse (fun _ => none) Config.empty 0 (ascii "listen 80" ++ charNull :: []) =
      .ok (Err.ok, Config.empty, 1) := rfl
  have hr₁ : parse (fun _ => none) Config.empty 0
      (ascii "listen 80" ++ [charLf] ++ charNull :: []) = .ok (Err.ok,
        Config.empty.append [⟨ascii "listen", 1, [ascii "80"], none, 1, rfl⟩], 4) := rfl
  rw [hr₀] at hr
  rw [hr₁] at hr'
  cases hr
  cases hr'
  exact absurd hkeys (by decide)

end Floppix.Configuration
