import Floppix.Core.Config.Include
import Floppix.Core.Config.Buffer

/-! # Reading a file in any configuration

The scanner never leaves its buffers, whatever it is given to read. What it appends
and the status it returns depend on the bytes alone and not on the configuration it
appends to, and the same goes for the include functions, as long as allocations
succeed.
-/

namespace Floppix.Configuration

variable {answers : PoolAnswers}

/-- A buffer with a terminator is read up to the first one. -/
theorem parse_total (answers : PoolAnswers) (config : Config) (used : Nat) {buf : Bytes}
    (hnul : charNull ∈ buf) : ∃ r, parse answers config used buf = .ok r := by
  obtain ⟨content, rest, rfl, h0⟩ := List.eq_append_cons_of_mem hnul
  exact ⟨_, parse_eq_readLines answers config used rest h0⟩

/-! ## The configuration as a frame -/

/-- `config'` is `config` with directives of the given names and arguments appended. -/
def Config.Extends (config config' : Config) (ks : List (Bytes × List Bytes)) : Prop :=
  config'.keys = config.keys ++ ks ∧ config'.confFiles = config.confFiles

theorem Config.Extends.refl (config : Config) : config.Extends config [] := by
  simp [Config.Extends]

theorem Config.Extends.trans {c₁ c₂ c₃ : Config} {ks ks' : List (Bytes × List Bytes)}
    (h₁ : c₁.Extends c₂ ks) (h₂ : c₂.Extends c₃ ks') : c₁.Extends c₃ (ks ++ ks') :=
  ⟨by rw [h₂.1, h₁.1, List.append_assoc], h₂.2.trans h₁.2⟩

theorem Config.extends_append (config : Config) (ds : List Directive) :
    config.Extends (config.append ds) (ds.map Directive.key) :=
  ⟨by simp [Config.keys, Config.append], rfl⟩

/-- Which words are appended and which status is returned depends on the lines alone. -/
theorem readLines_frame (hok : ∀ k, answers k = none) {ls : List (Bytes × UInt8)} {last : Bytes}
    (hls : ∀ x ∈ ls, ∀ c ∈ x.1, isEol c = false) (hlast : ∀ c ∈ last, isEol c = false) :
    ∃ err ks, ∀ filename line config used, ∃ config' n,
      readLines answers filename ls last line config used = (err, config', n) ∧
        config.Extends config' ks := by
  induction ls with
  | nil =>
      have hread (used : Nat) := readOpen_reads answers hlast used
      by_cases hbad : BadText last (beforeComment true last)
          (completeWords (beforeComment true last))
      · refine ⟨Err.configSyntax, [], fun filename line config used => ?_⟩
        obtain ⟨err, n, hstop, herr⟩ := (hread used).2 fun h => h.1 hbad
        exact ⟨config, n, by rw [readLines, hstop, herr.syntax hok], .refl config⟩
      · refine ⟨Err.ok, [], fun filename line config used => ⟨config,
          used + (completeWords (beforeComment true last)).length, ?_, .refl config⟩⟩
        rw [readLines, (hread used).1 ⟨hbad, Grants.of_all hok _ _⟩]
  | cons x ls ih =>
      obtain ⟨l, e⟩ := x
      obtain ⟨hl, hls'⟩ := List.forall_mem_cons.mp hls
      by_cases hbad : LineRefused l
      · refine ⟨Err.configSyntax, [], fun filename line config used => ?_⟩
        obtain ⟨err, n, hr, -, herr⟩ := (readLines_cons answers filename hl e ls last line
          config used).2 fun h => h.1 hbad
        exact ⟨config, n, by rw [hr, herr.syntax hok], .refl config⟩
      · obtain ⟨err, ks, hrest⟩ := ih hls'
        refine ⟨err, (wordsKey (lineWords l)).toList ++ ks, fun filename line config used => ?_⟩
        have hgo := (readLines_cons answers filename hl e ls last line
          config used).1 ⟨hbad, Grants.of_all hok _ _⟩
        obtain ⟨config', n, hr, hext⟩ := hrest filename (line + 1)
          (config.append (savedDirective answers filename l line used)) (afterLine answers l used)
        refine ⟨config', n, by rw [hgo, hr], Config.Extends.trans ?_ hext⟩
        rw [savedDirective, if_pos (Grants.of_all hok _ _), ← wordsDirective_key filename line]
        exact Config.extends_append _ _

theorem parse_frame (hok : ∀ k, answers k = none) {buf : Bytes} (hnul : charNull ∈ buf) :
    ∃ err ks, ∀ config used, ∃ config' n,
      parse answers config used buf = .ok (err, config', n) ∧ config.Extends config' ks := by
  obtain ⟨content, rest, rfl, h0⟩ := List.eq_append_cons_of_mem hnul
  obtain ⟨err, ks, h⟩ := readLines_frame hok
    (fun _ hx => closedLines_no_eol hx) (openLine_no_eol content)
  refine ⟨err, ks, fun config used => ?_⟩
  obtain ⟨config', n, hr, hext⟩ := h config.fileName 1 config used
  exact ⟨config', n, by rw [parse_eq_readLines answers config used rest h0, hr], hext⟩

/-! ## The list only grows -/

theorem readLines_appends (answers : PoolAnswers) (filename : Option Nat)
    (ls : List (Bytes × UInt8)) (last : Bytes) (line : Nat) (config : Config) (used : Nat) :
    ∃ ds, (readLines answers filename ls last line config used).2.1 = config.append ds ∧
      ∀ d ∈ ds, d.filename = filename := by
  induction ls generalizing line config used with
  | nil =>
      refine ⟨[], ?_, by simp⟩
      rw [readLines]
      cases readText answers last false [] [] used <;> simp [Config.append]
  | cons x ls ih =>
      obtain ⟨l, e⟩ := x
      rw [readLines]
      cases readLine answers l used with
      | error stop => exact ⟨[], by simp [Config.append], by simp⟩
      | ok read =>
          obtain ⟨ds, hds, hfile⟩ := saveWords_appends answers filename
            line read.1 config read.2
          obtain ⟨ds', hds', hfile'⟩ := ih (line + 1)
            (saveWords answers filename line read.1 config read.2).1
            (saveWords answers filename line read.1 config read.2).2
          refine ⟨ds ++ ds', ?_, fun d hd => ?_⟩
          · rw [← Config.append_append, ← hds]
            exact hds'
          · rcases List.mem_append.mp hd with hd | hd
            · exact hfile d hd
            · exact hfile' d hd

theorem parse_appends {config config' : Config} {used n : Nat} {err : Err} {buf : Bytes}
    (hnul : charNull ∈ buf) (h : parse answers config used buf = .ok (err, config', n)) :
    ∃ ds, config' = config.append ds ∧ ∀ d ∈ ds, d.filename = config.fileName := by
  obtain ⟨content, rest, rfl, h0⟩ := List.eq_append_cons_of_mem hnul
  rw [parse_eq_readLines answers config used rest h0] at h
  obtain ⟨ds, hds, hfile⟩ := readLines_appends answers config.fileName
    (closedLines content) (openLine content) 1 config used
  rw [Except.ok.inj h] at hds
  exact ⟨ds, hds, hfile⟩

end Floppix.Configuration
