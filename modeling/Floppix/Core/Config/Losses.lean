import Floppix.Core.Config.Buffer
import Mathlib.Data.List.Perm.Subperm

/-! # Directives lost while the parse succeeds

The status of `fpx_config_save_directive` goes nowhere. A failed allocation for a
word ends the parse, a failed allocation for a directive takes the directive out of
the result and nothing else.
-/

namespace Floppix.Configuration

variable {answers : PoolAnswers} {filename : Option Nat}

def lineKeys (ls : List (Bytes × UInt8)) : List (Bytes × List Bytes) :=
  ls.flatMap fun x => (wordsKey (lineWords x.1)).toList

/-- If `fpx_config_parse` returns `FPX_OK`, each directive line that LF or CR ends has a
directive of its own among those appended. -/
def LosesNothing (answers : PoolAnswers) (config : Config) (used : Nat) (content rest : Bytes) :
    Prop :=
  ∀ config' n, parse answers config used (content ++ charNull :: rest) =
      .ok (Err.ok, config', n) →
    (lineKeys (closedLines content)).Subperm
      ((config'.confList.drop config.confList.length).map Directive.key)

def AllSaved (answers : PoolAnswers) : List (Bytes × UInt8) → Nat → Prop
  | [], _ => True
  | (l, _) :: ls, used =>
      (lineWords l ≠ [] → Grants answers (used + (lineWords l).length) 2) ∧
        AllSaved answers ls (afterLine answers l used)

theorem allSaved_of_granted (hok : ∀ k, answers k = none) (ls : List (Bytes × UInt8))
    (used : Nat) : AllSaved answers ls used := by
  induction ls generalizing used with
  | nil => trivial
  | cons x ls ih => exact ⟨fun _ => Grants.of_all hok _ _, ih _⟩

theorem savedDirective_keys (l : Bytes) (line used : Nat) :
    (savedDirective answers filename l line used).map Directive.key =
      if Grants answers (used + (lineWords l).length) 2 then (wordsKey (lineWords l)).toList
      else [] := by
  rw [savedDirective]
  split
  · exact wordsDirective_key _ _ _
  · rfl

theorem lineKeys_cons (l : Bytes) (e : UInt8) (ls : List (Bytes × UInt8)) :
    lineKeys ((l, e) :: ls) = (wordsKey (lineWords l)).toList ++ lineKeys ls :=
  List.flatMap_cons

theorem savedDirectives_keys {ls : List (Bytes × UInt8)} (line : Nat) {used : Nat}
    (h : AllSaved answers ls used) :
    (savedDirectives answers filename ls line used).map Directive.key = lineKeys ls := by
  induction ls generalizing line used with
  | nil => rfl
  | cons x ls ih =>
      obtain ⟨l, e⟩ := x
      rw [savedDirectives, List.map_append, savedDirective_keys, lineKeys_cons,
        ih (line + 1) h.2]
      by_cases hws : lineWords l = []
      · simp [hws, wordsKey]
      · rw [if_pos (h.1 hws)]

theorem savedDirectives_length_le (answers : PoolAnswers) (filename : Option Nat)
    (ls : List (Bytes × UInt8)) (line used : Nat) :
    (savedDirectives answers filename ls line used).length ≤ (lineKeys ls).length := by
  induction ls generalizing line used with
  | nil => exact Nat.le_refl 0
  | cons x ls ih =>
      obtain ⟨l, e⟩ := x
      have hrest := ih (line + 1) (afterLine answers l used)
      have hfirst : (savedDirective answers filename l line used).length ≤
          (wordsKey (lineWords l)).toList.length := by
        rw [← List.length_map Directive.key, savedDirective_keys]
        split
        · exact Nat.le_refl _
        · exact Nat.zero_le _
      rw [savedDirectives, List.length_append, lineKeys_cons, List.length_append]
      omega

theorem savedDirectives_length_lt (answers : PoolAnswers) (filename : Option Nat)
    {ls : List (Bytes × UInt8)} (line : Nat) {used : Nat} (h : ¬ AllSaved answers ls used) :
    (savedDirectives answers filename ls line used).length < (lineKeys ls).length := by
  induction ls generalizing line used with
  | nil => exact absurd trivial h
  | cons x ls ih =>
      obtain ⟨l, e⟩ := x
      rw [savedDirectives, List.length_append, lineKeys_cons, List.length_append,
        ← List.length_map Directive.key, savedDirective_keys]
      by_cases hfirst : lineWords l ≠ [] → Grants answers (used + (lineWords l).length) 2
      · have hrest := ih (line + 1) fun hls => h ⟨hfirst, hls⟩
        split
        · omega
        · simp only [List.length_nil]
          omega
      · obtain ⟨hne, hdenied⟩ := Classical.not_imp.mp hfirst
        have hrest := savedDirectives_length_le answers filename ls
          (line + 1) (afterLine answers l used)
        have hone : (wordsKey (lineWords l)).toList.length = 1 := by
          obtain ⟨name, args, hws⟩ := List.exists_cons_of_ne_nil hne
          rw [hws]
          rfl
        rw [if_neg hdenied, hone, List.length_nil]
        omega

/-- A parse that succeeds has lost nothing exactly when no allocation for a directive
failed. -/
theorem loses_nothing_iff (answers : PoolAnswers) (config : Config) (used : Nat)
    {content : Bytes} (rest : Bytes) (h0 : charNull ∉ content) :
    LosesNothing answers config used content rest ↔
      ¬ Readable answers content used ∨ AllSaved answers (closedLines content) used := by
  obtain ⟨hgood, -⟩ := parse_reads answers config used rest h0
  constructor
  · intro h
    by_cases hread : Readable answers content used
    · refine Or.inr (by_contra fun hlost => ?_)
      obtain ⟨n, hp⟩ := hgood hread
      have hle := (h _ n hp).length_le
      rw [Config.drop_append, List.length_map] at hle
      have hlt := savedDirectives_length_lt _ config.fileName 1 hlost
      omega
    · exact Or.inl hread
  · intro h config' n hp
    obtain ⟨hread, rfl⟩ := parse_ok h0 hp
    rw [Config.drop_append, savedDirectives_keys 1 (h.resolve_left fun hn => hn hread)]

/-- A buffer of two directives that are both saved. -/
theorem loses_nothing_granted :
    LosesNothing (fun _ => none) Config.empty 0 (ascii "listen 80\nworkers 4\n") [] :=
  (loses_nothing_iff (fun _ => none) Config.empty 0 [] (by decide)).mpr
    (Or.inr (allSaved_of_granted (fun _ => rfl) _ _))

/-- `ENOMEM` for the directive itself: the parse succeeds with an empty list. -/
theorem directive_lost :
    ¬ LosesNothing (fun k => if k = 1 then some ⟨12, by decide⟩ else none) Config.empty 0
      (ascii "listen\n") [] := by
  intro h
  have hp : parse (fun k => if k = 1 then some ⟨12, by decide⟩ else none) Config.empty 0
      (ascii "listen\n" ++ charNull :: []) = .ok (Err.ok, Config.empty, 2) := by rfl
  have hle := (h _ _ hp).length_le
  have hlines : (lineKeys (closedLines (ascii "listen\n"))).length = 1 := by decide
  rw [hlines] at hle
  exact absurd hle (by decide)

end Floppix.Configuration
