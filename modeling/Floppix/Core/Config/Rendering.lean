import Floppix.Core.Config.Inclusion
import Floppix.Core.Config.LineNumbers

/-! # Writing a configuration

The text of a list of directives, with a space between the words and a line break behind each
directive. `fpx_config_parse` has no quotes and no escapes, so that not every name and not
every argument can be written; what can be written is what it reads.
-/

namespace Floppix.Configuration

open Fields

structure IsWord (w : Bytes) : Prop where
  nonempty : w ≠ []
  run : ∀ c ∈ w, isSep c = false
  text : ∀ c ∈ w, c ≠ charHash ∧ c ≠ charNull ∧ ¬ 0x80 ≤ c

/-- A directive that can be written: its words are words of a file, and not too many. -/
structure Writable (k : Bytes × List Bytes) : Prop where
  name : IsWord k.1
  args : ∀ arg ∈ k.2, IsWord arg
  count : k.2.length < maxTakes

def renderLine (k : Bytes × List Bytes) : Bytes := joined charSpace (k.1 :: k.2)

def render (ks : List (Bytes × List Bytes)) : Bytes :=
  (ks.map renderLine).flatMap fun line => line ++ [charLf]

/-! ## The lines -/

theorem Writable.isWord {k : Bytes × List Bytes} (h : Writable k) : ∀ w ∈ k.1 :: k.2, IsWord w :=
  List.forall_mem_cons.mpr ⟨h.name, h.args⟩

theorem Writable.bytes {k : Bytes × List Bytes} (h : Writable k) {c : UInt8}
    (hc : c ∈ renderLine k) : isEol c = false ∧ c ≠ charHash ∧ c ≠ charNull ∧ ¬ 0x80 ≤ c := by
  cases mem_joined hc with
  | inl hspace =>
      rw [hspace]
      decide
  | inr hword =>
      obtain ⟨w, hw, hmem⟩ := hword
      have hsep := (h.isWord w hw).run c hmem
      rw [isSep, Bool.or_eq_false_iff] at hsep
      exact ⟨hsep.2, (h.isWord w hw).text c hmem⟩

theorem beforeComment_of_no_hash (b : Bool) {line : Bytes} (h : charHash ∉ line) :
    beforeComment b line = line := by
  induction line generalizing b with
  | nil => rfl
  | cons c line ih =>
      have hc : c ≠ charHash := fun heq => h (heq ▸ List.mem_cons_self ..)
      rw [beforeComment_cons hc, ih _ fun hmem => h (List.mem_cons_of_mem c hmem)]

theorem Writable.beforeComment {k : Bytes × List Bytes} (h : Writable k) :
    beforeComment true (renderLine k) = renderLine k :=
  beforeComment_of_no_hash true fun hmem => (h.bytes hmem).2.1 rfl

theorem Writable.lineWords {k : Bytes × List Bytes} (h : Writable k) :
    lineWords (renderLine k) = k.1 :: k.2 := by
  rw [Configuration.lineWords, h.beforeComment]
  exact fields_joined (by decide) fun w hw => ⟨(h.isWord w hw).nonempty, (h.isWord w hw).run⟩

theorem Writable.not_refused {k : Bytes × List Bytes} (h : Writable k) :
    ¬ LineRefused (renderLine k) := by
  rintro (⟨b, hb, hhigh⟩ | hhash | hlong)
  · exact (h.bytes hb).2.2.2 hhigh
  · rw [hashInWord_iff, h.beforeComment] at hhash
    exact (h.bytes hhash).2.1 rfl
  · have hcount := h.count
    have hwords : words (Configuration.beforeComment true (renderLine k)) = k.1 :: k.2 := h.lineWords
    rw [TooManyWords, hwords, List.length_cons] at hlong
    omega

/-! ## Reading what was written -/

variable {answers : PoolAnswers} {ks : List (Bytes × List Bytes)}

theorem closedLines_render (hks : ∀ k ∈ ks, Writable k) :
    closedLines (render ks) = ks.map fun k => (renderLine k, charLf) := by
  rw [closedLines, render, ended_flatMap (by decide), List.map_map]
  · rfl
  · intro line hline
    obtain ⟨k, hk, rfl⟩ := List.mem_map.mp hline
    exact fun c hc => ((hks k hk).bytes hc).1

theorem openLine_render (ks : List (Bytes × List Bytes)) : openLine (render ks) = [] :=
  lastRun_flatMap (by decide) _

theorem no_null_render (hks : ∀ k ∈ ks, Writable k) : charNull ∉ render ks := by
  intro hmem
  obtain ⟨line, hline, hc⟩ := List.mem_flatMap.mp hmem
  obtain ⟨k, hk, rfl⟩ := List.mem_map.mp hline
  cases List.mem_append.mp hc with
  | inl hc => exact ((hks k hk).bytes hc).2.2.1 rfl
  | inr hc => exact absurd (List.mem_singleton.mp hc) (by decide)

theorem lines_render (hok : ∀ i, answers i = none) (hks : ∀ k ∈ ks, Writable k)
    (filename : Option Nat) (line used : Nat) :
    (∃ n, lastLineAt answers (ks.map fun k => (renderLine k, charLf)) used = some n) ∧
      (savedDirectives answers filename (ks.map fun k => (renderLine k, charLf)) line used).map
        Directive.key = ks := by
  induction ks generalizing line used with
  | nil => exact ⟨⟨used, rfl⟩, rfl⟩
  | cons k ks ih =>
      have hk := hks k (List.mem_cons_self ..)
      have hrest : ∀ k' ∈ ks, Writable k' := fun k' hk' => hks k' (List.mem_cons_of_mem k hk')
      have hreads : LineReads answers (renderLine k) used :=
        (lineReads_iff hok _ used).mpr hk.not_refused
      obtain ⟨hend, hkeys⟩ := ih hrest (line + 1) (afterLine answers (renderLine k) used)
      constructor
      · rw [List.map_cons, lastLineAt, if_pos hreads]
        exact hend
      · rw [List.map_cons, savedDirectives, List.map_append, hkeys, savedDirective,
          if_pos (Grants.of_all hok _ _), wordsDirective_key, hk.lineWords]
        rfl

theorem parse_render (hok : ∀ i, answers i = none) (hks : ∀ k ∈ ks, Writable k) (config : Config)
    (used : Nat) : ∃ config' n,
      parse answers config used (render ks ++ [charNull]) = .ok (Err.ok, config', n) ∧
        config'.keys = config.keys ++ ks := by
  obtain ⟨⟨last, hlast⟩, hkeys⟩ := lines_render hok hks config.fileName 1 used
  have hreadable : Readable answers (render ks) used := by
    refine ⟨last, ?_, ?_⟩
    · rw [closedLines_render hks]
      exact hlast
    · rw [openLine_render]
      exact openReads_nil last
  obtain ⟨n, hparse⟩ :=
    (parse_reads answers config used [] (no_null_render hks)).1 hreadable
  refine ⟨_, n, hparse, ?_⟩
  rw [closedLines_render hks]
  simp only [Config.keys, Config.append, List.map_append, hkeys]

/-! ## What is read can be written -/

theorem writable_of_line {l : Bytes} {filename : Option Nat} {line : Nat} (h0 : charNull ∉ l)
    (hread : ¬ LineRefused l) {d : Directive}
    (hd : d ∈ (wordsDirective filename line (lineWords l)).toList) : Writable d.key := by
  have hword {w : Bytes} (hw : w ∈ lineWords l) : IsWord w := by
    obtain ⟨hne, hmem⟩ := mem_fields hw
    have hbefore {c : UInt8} (hc : c ∈ w) : c ∈ beforeComment true l := (hmem c hc).2
    have hline {c : UInt8} (hc : c ∈ w) : c ∈ l :=
      (beforeComment_isPrefix true l).subset (hbefore hc)
    refine ⟨hne, fun c hc => (hmem c hc).1, fun c hc => ⟨?_, ?_, ?_⟩⟩
    · intro heq
      apply hread
      refine Or.inr (Or.inl ((hashInWord_iff l).mpr ?_))
      exact heq ▸ hbefore hc
    · exact fun heq => h0 (heq ▸ hline hc)
    · exact fun hhigh => hread (Or.inl ⟨c, hline hc, hhigh⟩)
  have hcount : (lineWords l).length ≤ maxTakes := by
    by_contra hlong
    refine hread (Or.inr (Or.inr ?_))
    rw [TooManyWords]
    exact Nat.lt_of_not_le hlong
  cases hws : lineWords l with
  | nil =>
      rw [hws] at hd
      cases hd
  | cons name args =>
      rw [hws] at hd hword hcount
      have heq : d = .of name args filename line := by simpa [wordsDirective] using hd
      rw [heq]
      refine ⟨hword (List.mem_cons_self ..), fun arg harg => hword (List.mem_cons_of_mem _ harg), ?_⟩
      exact hcount

theorem writable_of_lines {ls : List (Bytes × UInt8)} {filename : Option Nat} {line used : Nat}
    (h0 : ∀ x ∈ ls, charNull ∉ x.1) (hreads : lastLineAt answers ls used ≠ none) {d : Directive}
    (hd : d ∈ savedDirectives answers filename ls line used) : Writable d.key := by
  induction ls generalizing line used with
  | nil => cases hd
  | cons x ls ih =>
      obtain ⟨l, e⟩ := x
      by_cases hline : LineReads answers l used
      · rw [lastLineAt, if_pos hline] at hreads
        rw [savedDirectives] at hd
        cases List.mem_append.mp hd with
        | inl hd =>
            rw [savedDirective] at hd
            split at hd
            · exact writable_of_line (h0 _ (List.mem_cons_self ..)) hline.1 hd
            · cases hd
        | inr hd => exact ih (fun x hx => h0 x (List.mem_cons_of_mem _ hx)) hreads hd
      · rw [lastLineAt, if_neg hline] at hreads
        exact absurd rfl hreads

theorem closedLines_no_null {content : Bytes} (h0 : charNull ∉ content) :
    ∀ x ∈ closedLines content, charNull ∉ x.1 := by
  intro x hx hmem
  apply h0
  rw [← flatMap_ended (p := isEol) content]
  apply List.mem_append_left
  exact List.mem_flatMap.mpr ⟨x, hx, List.mem_append_left _ hmem⟩

/-- Whatever a buffer holds and whatever the pool grants, a directive that is read can be
written. -/
theorem parse_writable {config config' : Config} {used n : Nat} {content rest : Bytes}
    (h0 : charNull ∉ content)
    (hp : parse answers config used (content ++ charNull :: rest) = .ok (Err.ok, config', n)) :
    ∃ ds, config' = config.append ds ∧ ∀ d ∈ ds, Writable d.key := by
  obtain ⟨⟨last, hlast, -⟩, hconfig⟩ := parse_ok h0 hp
  refine ⟨_, hconfig, fun d hd => ?_⟩
  have hreads : lastLineAt answers (closedLines content) used ≠ none := by
    rw [Option.mem_def.mp hlast]
    exact Option.some_ne_none _
  exact writable_of_lines (closedLines_no_null h0) hreads hd

/-- What was read from a file, however it was laid out, is read again from its text in any
other place. -/
theorem reparse {config config' : Config} {used n : Nat} {content rest : Bytes}
    (h0 : charNull ∉ content)
    (hp : parse answers config used (content ++ charNull :: rest) = .ok (Err.ok, config', n))
    (other : Config) (used' : Nat) :
    ∃ ds, config' = config.append ds ∧ ∃ other' n',
      parse plenty other used' (render (ds.map Directive.key) ++ [charNull]) =
          .ok (Err.ok, other', n') ∧ other'.keys = other.keys ++ ds.map Directive.key := by
  obtain ⟨ds, hconfig, hds⟩ := parse_writable h0 hp
  have hks : ∀ k ∈ ds.map Directive.key, Writable k := by
    intro k hk
    obtain ⟨d, hd, rfl⟩ := List.mem_map.mp hk
    exact hds d hd
  exact ⟨ds, hconfig, parse_render (fun _ => rfl) hks other used'⟩

def looseText : Bytes := ascii "# main\n\n\tlisten   80 # http\r\nuser\tnobody\n"

theorem reparse_loose :
    ∃ ds : List Directive,
      ds.map Directive.key = [(ascii "listen", [ascii "80"]), (ascii "user", [ascii "nobody"])] ∧
      ∃ other' n', parse plenty Config.empty 0 (render (ds.map Directive.key) ++ [charNull]) =
          .ok (Err.ok, other', n') ∧ other'.keys = ds.map Directive.key := by
  have h0 : charNull ∉ looseText := by decide
  obtain ⟨config', n, hp, hkeys⟩ : ∃ config' n, parse plenty Config.empty 0
      (looseText ++ [charNull]) = .ok (Err.ok, config', n) ∧
        config'.keys = [(ascii "listen", [ascii "80"]), (ascii "user", [ascii "nobody"])] :=
    ⟨_, _, rfl, rfl⟩
  obtain ⟨ds, hconfig, other', n', hother, hagain⟩ := reparse h0 hp Config.empty 0
  rw [hconfig] at hkeys
  exact ⟨ds, hkeys, other', n', hother, hagain⟩

end Floppix.Configuration
