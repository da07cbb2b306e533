import Floppix.Core.Config.Dispatch
import Mathlib.Data.Nat.Bitwise

/-! # How many arguments a command takes

`takes` is a set of argument counts, one bit each. `fpx_check_directive_arguments`
keeps of it the least and the greatest count, with zero for a least count that has not
been found, and accepts what lies between the two.
-/

namespace Floppix.Configuration

variable {H C σ : Type}

def Declared (takes argc : Nat) : Prop := argc < maxTakes ∧ takes.testBit argc = true

instance (takes argc : Nat) : Decidable (Declared takes argc) :=
  inferInstanceAs (Decidable (_ ∧ _))

/-! ## What the check accepts -/

theorem and_takesBit (takes i : Nat) : takes &&& 1 <<< i ≠ 0 ↔ takes.testBit i = true := by
  rw [Nat.one_shiftLeft, Nat.and_two_pow]
  cases takes.testBit i <;> simp

theorem takesBounds_append (takes : Nat) (xs ys : List (Nat × Nat)) (bounds : Nat × Nat) :
    takesBounds takes (xs ++ ys) bounds = takesBounds takes ys (takesBounds takes xs bounds) := by
  induction xs generalizing bounds with
  | nil => rfl
  | cons x xs ih =>
      obtain ⟨i, bit⟩ := x
      obtain ⟨lo, hi⟩ := bounds
      simp only [List.cons_append, takesBounds]
      split <;> exact ih _

/-- The bounds after the first `n` bits: the least set bit but the first, and the greatest
one, or zero where there is none. -/
structure BoundsOf (takes n lo hi : Nat) : Prop where
  least : ∀ i, 0 < i → i < n → takes.testBit i = true → 0 < lo ∧ lo ≤ i
  leastSet : lo = 0 ∨ (lo < n ∧ takes.testBit lo = true)
  greatest : ∀ i, i < n → takes.testBit i = true → i ≤ hi
  greatestSet : hi = 0 ∨ (hi < n ∧ takes.testBit hi = true)

theorem takesBounds_range (takes n : Nat) :
    BoundsOf takes n
      (takesBounds takes ((List.range n).map fun i => (i, 1 <<< i)) (0, 0)).1
      (takesBounds takes ((List.range n).map fun i => (i, 1 <<< i)) (0, 0)).2 := by
  induction n with
  | zero => exact ⟨by omega, Or.inl rfl, by omega, Or.inl rfl⟩
  | succ n ih =>
      rw [List.range_succ, List.map_append, takesBounds_append]
      generalize takesBounds takes ((List.range n).map fun i => (i, 1 <<< i)) (0, 0) = bounds at ih
      obtain ⟨lo, hi⟩ := bounds
      obtain ⟨hleast, hleastSet, hgreatest, hgreatestSet⟩ := ih
      simp only at hleast hleastSet hgreatest hgreatestSet
      simp only [List.map_cons, List.map_nil, takesBounds, and_takesBit]
      cases hbit : takes.testBit n with
      | false =>
          simp only [Bool.false_eq_true, if_false]
          have hlt {i : Nat} (hi : i < n + 1) (hset : takes.testBit i = true) : i < n := by
            rcases Nat.lt_succ_iff_lt_or_eq.mp hi with h | rfl
            · exact h
            · rw [hbit] at hset
              cases hset
          refine ⟨fun i h0 hi hset => hleast i h0 (hlt hi hset) hset, ?_,
            fun i hi hset => hgreatest i (hlt hi hset) hset, ?_⟩
          · exact hleastSet.imp_right fun h => ⟨by omega, h.2⟩
          · exact hgreatestSet.imp_right fun h => ⟨by omega, h.2⟩
      | true =>
          simp only [if_true]
          refine ⟨fun i h0 hi hset => ?_, ?_, fun i hi hset => ?_, ?_⟩
          · rcases Nat.lt_succ_iff_lt_or_eq.mp hi with h | rfl
            · obtain ⟨hpos, hle⟩ := hleast i h0 h hset
              rw [if_neg (by omega)]
              exact ⟨hpos, hle⟩
            · split
              · exact ⟨h0, le_rfl⟩
              · rcases hleastSet with h | h
                · omega
                · omega
          · split
            · exact Or.inr ⟨by omega, hbit⟩
            · exact hleastSet.imp_right fun h => ⟨by omega, h.2⟩
          · rcases Nat.lt_succ_iff_lt_or_eq.mp hi with h | rfl
            · have := hgreatest i h hset
              split <;> omega
            · split <;> omega
          · split
            · exact Or.inr ⟨by omega, hbit⟩
            · exact hgreatestSet.imp_right fun h => ⟨by omega, h.2⟩

/-- No argument for a command without any other count, else a count between two that are
declared. -/
def Accepts (takes argc : Nat) : Prop :=
  (argc = 0 ∧ ∀ i, 0 < i → i < maxTakes → takes.testBit i = false) ∨
    ∃ i j, 0 < i ∧ i ≤ argc ∧ argc ≤ j ∧ j < maxTakes ∧ takes.testBit i = true ∧
      takes.testBit j = true

theorem checkArgumentCount_ok_iff {argc : Nat} {cmd : Command H} :
    checkArgumentCount argc cmd = Err.ok ↔ Accepts cmd.takes argc := by
  have hzip : (List.range maxTakes).zip takesBits =
      (List.range maxTakes).map fun i => (i, 1 <<< i) := by decide
  have hb := takesBounds_range cmd.takes maxTakes
  rw [← hzip] at hb
  unfold checkArgumentCount
  generalize takesBounds cmd.takes ((List.range maxTakes).zip takesBits) (0, 0) = bounds at hb ⊢
  obtain ⟨lo, hi⟩ := bounds
  obtain ⟨hleast, hleastSet, hgreatest, hgreatestSet⟩ := hb
  simp only at hleast hleastSet hgreatest hgreatestSet
  have hif : (if ¬ (argc = lo ∨ (argc ≤ hi ∧ argc ≥ lo)) then Err.configSyntax else Err.ok) =
      Err.ok ↔ (argc = lo ∨ (argc ≤ hi ∧ argc ≥ lo)) := by
    split_ifs with h
    · exact iff_of_true rfl h
    · exact iff_of_false Err.configSyntax_ne_ok h
  change _ = Err.ok ↔ _
  rw [hif]
  constructor
  · intro h
    rcases Nat.eq_zero_or_pos lo with rfl | hlo
    · -- no count but zero has been found
      have hnone : ∀ i, 0 < i → i < maxTakes → cmd.takes.testBit i = false := by
        intro i h0 hi
        by_contra hset
        exact absurd (hleast i h0 hi (by simpa using hset)).1 (lt_irrefl 0)
      have hhi : hi = 0 := by
        rcases hgreatestSet with h | ⟨hlt, hset⟩
        · exact h
        · by_contra hpos
          rw [hnone hi (by omega) hlt] at hset
          cases hset
      exact Or.inl ⟨by omega, hnone⟩
    · have hloSet := hleastSet.resolve_left (by omega)
      rcases h with rfl | ⟨hle, hge⟩
      · exact Or.inr ⟨argc, argc, hlo, le_rfl, le_rfl, hloSet.1, hloSet.2, hloSet.2⟩
      · have hhiSet := hgreatestSet.resolve_left (by omega)
        exact Or.inr ⟨lo, hi, hlo, hge, hle, hhiSet.1, hloSet.2, hhiSet.2⟩
  · rintro (⟨rfl, hnone⟩ | ⟨i, j, h0, hi, hj, hlt, hseti, hsetj⟩)
    · refine Or.inl (Eq.symm ?_)
      rcases hleastSet with h | ⟨hlt, hset⟩
      · exact h
      · by_contra hpos
        rw [hnone lo (by omega) hlt] at hset
        cases hset
    · have h1 := hleast i h0 (by omega) hseti
      have h2 := hgreatest j hlt hsetj
      exact Or.inr ⟨by omega, by omega⟩

/-! ## Where it goes wrong -/

/-- The check and the set disagree on a count: there is no argument and no count at all is
declared; or there is none, which is declared together with other counts; or the count is
missing between two that are declared. -/
def Misjudged (takes argc : Nat) : Prop :=
  (argc = 0 ∧ ∀ i, i < maxTakes → takes.testBit i = false) ∨
    (argc = 0 ∧ takes.testBit 0 = true ∧
      ∃ i, 0 < i ∧ i < maxTakes ∧ takes.testBit i = true) ∨
    (takes.testBit argc = false ∧ ∃ i j, 0 < i ∧ i < argc ∧ argc < j ∧ j < maxTakes ∧
      takes.testBit i = true ∧ takes.testBit j = true)

theorem declared_of_accepts {takes argc : Nat} (hno : ¬ Misjudged takes argc)
    (h : Accepts takes argc) : Declared takes argc := by
  rcases h with ⟨rfl, hnone⟩ | ⟨i, j, h0, hi, hj, hlt, hseti, hsetj⟩
  · refine ⟨by decide, ?_⟩
    by_contra hbit
    refine hno (Or.inl ⟨rfl, fun i hi => ?_⟩)
    rcases Nat.eq_zero_or_pos i with rfl | hpos
    · simpa using hbit
    · exact hnone i hpos hi
  · refine ⟨by omega, ?_⟩
    by_contra hbit
    have hi' : i ≠ argc := fun h => hbit (h ▸ hseti)
    have hj' : argc ≠ j := fun h => hbit (h ▸ hsetj)
    exact hno (Or.inr (Or.inr
      ⟨by simpa using hbit, i, j, h0, by omega, by omega, hlt, hseti, hsetj⟩))

theorem accepts_of_declared {takes argc : Nat} (hno : ¬ Misjudged takes argc)
    (h : Declared takes argc) : Accepts takes argc := by
  obtain ⟨hlt, hset⟩ := h
  rcases Nat.eq_zero_or_pos argc with rfl | hpos
  · refine Or.inl ⟨rfl, fun i h0 hi => ?_⟩
    by_contra hbit
    exact hno (Or.inr (Or.inl ⟨rfl, hset, i, h0, hi, by simpa using hbit⟩))
  · exact Or.inr ⟨argc, argc, hpos, le_rfl, le_rfl, hlt, hset, hset⟩

/-- The check accepts exactly the declared counts, those it misjudges apart. -/
theorem accepts_iff_declared (takes argc : Nat) :
    (Accepts takes argc ↔ Declared takes argc) ↔ ¬ Misjudged takes argc := by
  constructor
  · rintro h (⟨rfl, hnone⟩ | ⟨rfl, hset, i, h0, hi, hbit⟩ |
      ⟨hbit, i, j, h0, hi, hj, hlt, hseti, hsetj⟩)
    · have hdeclared := h.mp (Or.inl ⟨rfl, fun i _ hi => hnone i hi⟩)
      exact absurd hdeclared.2 (by simp [hnone 0 hdeclared.1])
    · rcases h.mpr ⟨by decide, hset⟩ with ⟨-, hnone⟩ | ⟨i', j, h0', hi', -⟩
      · rw [hnone i h0 hi] at hbit
        cases hbit
      · omega
    · have hdeclared := h.mp (Or.inr ⟨i, j, h0, by omega, by omega, hlt, hseti, hsetj⟩)
      exact absurd hdeclared.2 (by simp [hbit])
  · exact fun hno => ⟨declared_of_accepts hno, accepts_of_declared hno⟩

/-! ## Whole runs -/

/-- Every handler that was called has been given a declared number of arguments, and a
directive whose number is declared has not been refused for it. -/
structure CountsRespected (w : World H C σ) (calls : List (Call H C))
    (refused : Option Directive) : Prop where
  called : ∀ c ∈ calls, Declared c.cmd.takes c.directive.argc
  refused : ∀ d ∈ refused, ∀ m cmd, Owner w.modules d.name m cmd → ¬ Declared cmd.takes d.argc

/-- No directive among those whose handler the loop calls, up to the one it refuses, has a
number of arguments that its command's set misjudges. -/
def NoneMisjudged (called : Called) (w : World H C σ) (n : Nat) (refused : Option Directive) :
    Prop :=
  ∀ d ∈ (w.confList.take n).filter called ++ refused.toList, ∀ m cmd,
    Owner w.modules d.name m cmd → ¬ Misjudged cmd.takes d.argc

theorem Dispatched.counts_iff {called : Called} {w : World H C σ} {err : Err}
    {calls : List (Call H C)} {n : Nat} {refused : Option Directive}
    (h : Dispatched called 0 w err calls n refused) :
    CountsRespected w calls refused ↔ NoneMisjudged called w n refused := by
  have horder := h.inOrder
  rw [List.drop_zero] at horder
  have hcall {c : Call H C} (hc : c ∈ calls) :
      Accepts c.cmd.takes c.directive.argc ∧
        ∃ m, Owner w.modules c.directive.name m c.cmd := by
    obtain ⟨hpre, -, m, hacc, -⟩ := h.owned c hc
    exact ⟨checkArgumentCount_ok_iff.mp hacc.args, m, hacc.owner.append hpre⟩
  have hrefused {d : Directive} (hd : d ∈ refused) {m : Module H C} {cmd : Command H}
      (howner : Owner w.modules d.name m cmd) : ¬ Accepts cmd.takes d.argc := by
    rcases (h.atRefused d hd).2 with hno | ⟨m', cmd', howner', hargs⟩
    · exact absurd hno howner.not_undeclared
    · obtain ⟨rfl, rfl⟩ := howner.unique howner'
      exact fun haccepts => hargs (checkArgumentCount_ok_iff.mpr haccepts)
  constructor
  · intro hresp d hd m cmd howner
    rw [← accepts_iff_declared]
    rcases List.mem_append.mp hd with hd | hd
    · rw [← horder] at hd
      obtain ⟨c, hc, rfl⟩ := List.mem_map.mp hd
      obtain ⟨haccepts, m', howner'⟩ := hcall hc
      obtain ⟨rfl, rfl⟩ := howner.unique howner'
      exact iff_of_true haccepts (hresp.called c hc)
    · rw [Option.mem_toList] at hd
      exact iff_of_false (hrefused hd howner) (hresp.refused d hd m cmd howner)
  · intro hno
    constructor
    · intro c hc
      obtain ⟨haccepts, m, howner⟩ := hcall hc
      have hmem : c.directive ∈ (w.confList.take n).filter called := by
        rw [← horder]
        exact List.mem_map_of_mem hc
      exact declared_of_accepts (hno _ (List.mem_append_left _ hmem) m c.cmd howner) haccepts
    · intro d hd m cmd howner hdeclared
      have hmem : d ∈ refused.toList := by rwa [Option.mem_toList]
      exact hrefused hd howner
        (accepts_of_declared (hno d (List.mem_append_right _ hmem) m cmd howner) hdeclared)

def quietHandlers : Handlers Unit Unit Unit := fun _ _ _ _ w => .ok (Err.ok, w)

def oneCommand (takes : Nat) (d : Directive) : World Unit Unit Unit where
  reading := { Reading.empty with config := ⟨[d], []⟩ }
  modules := [⟨[⟨ascii "pair", takes, ()⟩], ()⟩]
  rest := ()

def pairDirective (argv : List Bytes) : Directive := .of (ascii "pair") argv none 1

end Floppix.Configuration
