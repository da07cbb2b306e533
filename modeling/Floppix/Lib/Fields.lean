import Mathlib.Data.List.Basic

/-! # Fields of a list between separators

The maximal runs of elements that are not separators, in order. A run is complete
when a separator follows it; the last one is open.
-/

namespace Fields

variable {α : Type*} (p : α → Bool)

/-- The maximal non-empty runs of elements that do not satisfy `p`. -/
def fields (l : List α) : List (List α) := (l.splitOnP p).filter fun w => w ≠ []

/-- The runs that a separator ends, each with its separator. -/
def ended : List α → List (List α × α)
  | [] => []
  | c :: rest =>
      if p c then ([], c) :: ended rest
      else
        match ended rest with
        | [] => []
        | (w, e) :: ws => (c :: w, e) :: ws

def lastRun : List α → List α
  | [] => []
  | c :: rest => if p c || rest.any p then lastRun rest else c :: rest

def whole (l : List α) : List (List α) := ((ended p l).map Prod.fst).filter fun w => w ≠ []

variable {p} {w l : List α} {c : α}

/-! ## Reading from the front -/

@[simp] theorem fields_nil : fields p ([] : List α) = [] := by
  simp [fields]

/-- A separator in front adds nothing. -/
theorem fields_cons_sep (hc : p c = true) : fields p (c :: l) = fields p l := by
  have h : ([] ++ c :: l).splitOnP p = [] :: l.splitOnP p :=
    List.splitOnP_append_cons_of_forall_mem (by simp) c hc l
  rw [List.nil_append] at h
  simp [fields, h]

/-- A run that reaches the end of the list is its only field. -/
theorem fields_word (hw : ∀ x ∈ w, p x = false) (hne : w ≠ []) : fields p w = [w] := by
  simp [fields, List.splitOnP_eq_singleton hw, hne]

theorem fields_word_sep (hw : ∀ x ∈ w, p x = false) (hne : w ≠ []) (hc : p c = true) :
    fields p (w ++ c :: l) = w :: fields p l := by
  simp [fields, List.splitOnP_append_cons_of_forall_mem hw c hc, hne]

theorem ended_word (hw : ∀ x ∈ w, p x = false) : ended p w = [] := by
  induction w with
  | nil => rfl
  | cons c w ih =>
      obtain ⟨hc, hw⟩ := List.forall_mem_cons.mp hw
      simp [ended, hc, ih hw]

theorem ended_word_sep (hw : ∀ x ∈ w, p x = false) (hc : p c = true) :
    ended p (w ++ c :: l) = (w, c) :: ended p l := by
  induction w with
  | nil => simp [ended, hc]
  | cons d w ih =>
      obtain ⟨hd, hw⟩ := List.forall_mem_cons.mp hw
      simp [ended, hd, ih hw]

theorem lastRun_word (hw : ∀ x ∈ w, p x = false) : lastRun p w = w := by
  cases w with
  | nil => rfl
  | cons c w =>
      obtain ⟨hc, hw⟩ := List.forall_mem_cons.mp hw
      have hany : w.any p = false := List.any_eq_false.mpr fun x hx => by simp [hw x hx]
      simp [lastRun, hc, hany]

theorem lastRun_word_sep (hc : p c = true) : lastRun p (w ++ c :: l) = lastRun p l := by
  induction w with
  | nil => simp [lastRun, hc]
  | cons d w ih => simp [lastRun, hc, ih]

theorem whole_word (hw : ∀ x ∈ w, p x = false) : whole p w = [] := by
  simp [whole, ended_word hw]

theorem whole_cons_sep (hc : p c = true) : whole p (c :: l) = whole p l := by
  simp [whole, ended, hc]

theorem whole_word_sep (hw : ∀ x ∈ w, p x = false) (hne : w ≠ []) (hc : p c = true) :
    whole p (w ++ c :: l) = w :: whole p l := by
  simp [whole, ended_word_sep hw hc, hne]

/-! ## All runs -/

@[elab_as_elim]
theorem run_induction {motive : List α → Prop}
    (word : ∀ w, (∀ x ∈ w, p x = false) → motive w)
    (sep : ∀ w c l, (∀ x ∈ w, p x = false) → p c = true → motive l → motive (w ++ c :: l))
    (l : List α) : motive l := by
  induction hn : l.length using Nat.strongRecOn generalizing l with
  | _ n ih =>
      cases hf : l.find? p with
      | none => exact word l fun x hx => by simpa using List.find?_eq_none.mp hf x hx
      | some c =>
          obtain ⟨hc, w, rest, rfl, hw⟩ := List.find?_eq_some_iff_append.mp hf
          refine sep w c rest (fun x hx => by simpa using hw x hx) hc (ih rest.length ?_ rest rfl)
          rw [← hn, List.length_append, List.length_cons]
          omega

theorem fields_eq_whole (l : List α) : fields p l = whole p l ++ fields p (lastRun p l) := by
  induction l using run_induction (p := p) with
  | word w hw => rw [whole_word hw, lastRun_word hw, List.nil_append]
  | sep w c l hw hc ih =>
      rw [lastRun_word_sep hc]
      by_cases hne : w = []
      · rw [hne, List.nil_append, fields_cons_sep hc, whole_cons_sep hc, ih]
      · rw [fields_word_sep hw hne hc, whole_word_sep hw hne hc, ih, List.cons_append]

theorem takeWhile_append_head {ws : List (List α)} (h : fields p l = w :: ws) :
    l.takeWhile p ++ w <+: l := by
  have hword : ∀ u v : List α, (∀ x ∈ u, p x = false) → u ≠ [] → (u ++ v).takeWhile p = [] := by
    intro u v hu hne
    obtain ⟨c, u, rfl⟩ := List.exists_cons_of_ne_nil hne
    rw [List.cons_append, List.takeWhile_cons, hu c (List.mem_cons_self ..)]
    rfl
  induction l using run_induction (p := p) with
  | word u hu =>
      by_cases hne : u = []
      · rw [hne, fields_nil] at h
        cases h
      · rw [fields_word hu hne] at h
        cases h
        have htake := hword w [] hu hne
        rw [List.append_nil] at htake
        rw [htake]
        exact List.prefix_rfl
  | sep u c l hu hc ih =>
      by_cases hne : u = []
      · rw [hne, List.nil_append, fields_cons_sep hc] at h
        rw [hne, List.nil_append, List.takeWhile_cons, if_pos hc]
        exact List.cons_prefix_cons.mpr ⟨rfl, ih h⟩
      · rw [fields_word_sep hu hne hc] at h
        cases h
        rw [hword w (c :: l) hu hne]
        exact List.prefix_append ..

theorem flatMap_ended (l : List α) :
    (ended p l).flatMap (fun x => x.1 ++ [x.2]) ++ lastRun p l = l := by
  induction l using run_induction (p := p) with
  | word w hw => rw [ended_word hw, lastRun_word hw]; rfl
  | sep w c l hw hc ih =>
      rw [ended_word_sep hw hc, lastRun_word_sep hc, List.flatMap_cons, List.append_assoc, ih]
      simp

theorem sep_of_mem_ended {x : List α × α} (h : x ∈ ended p l) :
    (∀ c ∈ x.1, p c = false) ∧ p x.2 = true := by
  induction l using run_induction (p := p) with
  | word w hw => simp [ended_word hw] at h
  | sep w c l hw hc ih =>
      rw [ended_word_sep hw hc] at h
      rcases List.mem_cons.mp h with rfl | h
      · exact ⟨hw, hc⟩
      · exact ih h

theorem lastRun_no_sep (l : List α) : ∀ c ∈ lastRun p l, p c = false := by
  induction l using run_induction (p := p) with
  | word w hw => rwa [lastRun_word hw]
  | sep w c l hw hc ih => rwa [lastRun_word_sep hc]

/-- A separator at the end completes the open run. -/
theorem ended_concat (l : List α) (hc : p c = true) :
    ended p (l ++ [c]) = ended p l ++ [(lastRun p l, c)] := by
  induction l using run_induction (p := p) with
  | word w hw => rw [ended_word_sep hw hc, ended_word hw, lastRun_word hw]; rfl
  | sep w d l hw hd ih =>
      rw [List.append_assoc, List.cons_append, ended_word_sep hw hd, ended_word_sep hw hd,
        lastRun_word_sep hd, ih, List.cons_append]

theorem lastRun_concat (l : List α) (hc : p c = true) : lastRun p (l ++ [c]) = [] := by
  rw [lastRun_word_sep hc]
  rfl

/-! ## Writing -/

theorem mem_fields (h : w ∈ fields p l) : w ≠ [] ∧ ∀ c ∈ w, p c = false ∧ c ∈ l := by
  induction l using run_induction (p := p) with
  | word u hu =>
      by_cases hne : u = []
      · rw [hne, fields_nil] at h
        cases h
      · rw [fields_word hu hne] at h
        rw [List.mem_singleton.mp h]
        exact ⟨hne, fun c hc => ⟨hu c hc, hc⟩⟩
  | sep u c l hu hc ih =>
      have hrest (h : w ∈ fields p l) : w ≠ [] ∧ ∀ d ∈ w, p d = false ∧ d ∈ u ++ c :: l := by
        obtain ⟨hne, hmem⟩ := ih h
        refine ⟨hne, fun d hd => ⟨(hmem d hd).1, ?_⟩⟩
        exact List.mem_append_right _ (List.mem_cons_of_mem _ (hmem d hd).2)
      by_cases hne : u = []
      · rw [hne, List.nil_append, fields_cons_sep hc] at h
        exact hrest h
      · rw [fields_word_sep hu hne hc] at h
        cases List.mem_cons.mp h with
        | inl heq =>
            rw [heq]
            exact ⟨hne, fun d hd => ⟨hu d hd, List.mem_append_left _ hd⟩⟩
        | inr hmem => exact hrest hmem

def joined (c : α) : List (List α) → List α
  | [] => []
  | [w] => w
  | w :: ws => w ++ c :: joined c ws

theorem mem_joined {d : α} {ws : List (List α)} (h : d ∈ joined c ws) :
    d = c ∨ ∃ w ∈ ws, d ∈ w := by
  induction ws with
  | nil => cases h
  | cons w ws ih =>
      cases ws with
      | nil => exact Or.inr ⟨w, List.mem_singleton_self w, h⟩
      | cons w' ws =>
          rw [joined, List.mem_append, List.mem_cons] at h
          · rcases h with h | h | h
            · exact Or.inr ⟨w, List.mem_cons_self .., h⟩
            · exact Or.inl h
            · cases ih h with
              | inl heq => exact Or.inl heq
              | inr hmem =>
                  obtain ⟨u, hu, hd⟩ := hmem
                  exact Or.inr ⟨u, List.mem_cons_of_mem w hu, hd⟩
          · exact List.cons_ne_nil _ _

/-- What was written with separators is read again. -/
theorem fields_joined (hc : p c = true) {ws : List (List α)}
    (hws : ∀ w ∈ ws, w ≠ [] ∧ ∀ x ∈ w, p x = false) : fields p (joined c ws) = ws := by
  induction ws with
  | nil => exact fields_nil
  | cons w ws ih =>
      obtain ⟨hne, hw⟩ := hws w (List.mem_cons_self ..)
      cases ws with
      | nil => exact fields_word hw hne
      | cons w' ws =>
          rw [joined, fields_word_sep hw hne hc, ih fun u hu => hws u (List.mem_cons_of_mem w hu)]
          exact List.cons_ne_nil _ _

/-- Runs that were written with a separator behind each. -/
theorem ended_flatMap (hc : p c = true) {ws : List (List α)} (hws : ∀ w ∈ ws, ∀ x ∈ w, p x = false) :
    ended p (ws.flatMap fun w => w ++ [c]) = ws.map fun w => (w, c) := by
  induction ws with
  | nil => rfl
  | cons w ws ih =>
      have hw := hws w (List.mem_cons_self ..)
      rw [List.flatMap_cons, List.append_assoc, List.singleton_append, ended_word_sep hw hc,
        ih fun u hu => hws u (List.mem_cons_of_mem w hu), List.map_cons]

theorem lastRun_flatMap (hc : p c = true) (ws : List (List α)) :
    lastRun p (ws.flatMap fun w => w ++ [c]) = [] := by
  induction ws with
  | nil => rfl
  | cons w ws ih =>
      rw [List.flatMap_cons, List.append_assoc, List.singleton_append, lastRun_word_sep hc, ih]

end Fields
