import Floppix.Core.Config.Handlers

/-! # The handlers that are called

A handler is called with the command and the context that two separate searches find.
The handlers are given a notebook here: they do what they did and note every call. What
stands in the notebook after a run says which calls the loop has made, and nothing
but the handlers can write into it.
-/

namespace Floppix.Configuration

variable {H C σ : Type}

/-! ## A command and its owner -/

def FirstWith {α : Type} (p : α → Prop) (xs : List α) (x : α) : Prop :=
  ∃ before after, xs = before ++ x :: after ∧ p x ∧ ∀ y ∈ before, ¬ p y

def Module.Declares (m : Module H C) (name : Bytes) : Prop := ∃ cmd ∈ m.cmd, cmd.name = name

/-- The first module that declares the name, and its first command of that name. -/
structure Owner (ms : List (Module H C)) (name : Bytes) (m : Module H C) (cmd : Command H) :
    Prop where
  inModules : FirstWith (fun m => m.Declares name) ms m
  inTable : FirstWith (fun cmd => cmd.name = name) m.cmd cmd

def Undeclared (ms : List (Module H C)) (name : Bytes) : Prop := ∀ m ∈ ms, ¬ m.Declares name

theorem find?_firstWith {cmds : List (Command H)} {name : Bytes} {cmd : Command H} :
    cmds.find? (fun c => c.name = name) = some cmd ↔
      FirstWith (fun c => c.name = name) cmds cmd := by
  rw [List.find?_eq_some_iff_append]
  constructor
  · rintro ⟨hname, before, after, heq, hno⟩
    exact ⟨before, after, heq, by simpa using hname, fun c hc => by simpa using hno c hc⟩
  · rintro ⟨before, after, heq, hname, hno⟩
    exact ⟨by simpa using hname, before, after, heq, fun c hc => by simpa using hno c hc⟩

theorem not_declares_of_find? {m : Module H C} {name : Bytes}
    (h : m.cmd.find? (fun c => c.name = name) = none) : ¬ m.Declares name := by
  rintro ⟨cmd, hcmd, hname⟩
  exact absurd hname (by simpa using List.find?_eq_none.mp h cmd hcmd)

theorem FirstWith.declares {m : Module H C} {name : Bytes} {cmd : Command H}
    (h : FirstWith (fun c => c.name = name) m.cmd cmd) : m.Declares name := by
  obtain ⟨before, after, heq, hname, -⟩ := h
  exact ⟨cmd, heq ▸ List.mem_append_right _ (List.mem_cons_self ..), hname⟩

/-- The two searches agree: both find nothing, or a command and the module that owns it. -/
theorem find_cases (ms : List (Module H C)) (name : Bytes) :
    (findCommandInModules ms name = none ∧ findModuleByCommand ms name = none ∧
      Undeclared ms name) ∨
    ∃ m cmd, findCommandInModules ms name = some cmd ∧ findModuleByCommand ms name = some m ∧
      Owner ms name m cmd := by
  induction ms with
  | nil => exact Or.inl ⟨rfl, rfl, by simp [Undeclared]⟩
  | cons m ms ih =>
      simp only [findCommandInModules, findModuleByCommand]
      cases hf : m.cmd.find? fun c => c.name = name with
      | some cmd =>
          have hfirst := find?_firstWith.mp hf
          exact Or.inr ⟨m, cmd, rfl, rfl, ⟨[], ms, rfl, hfirst.declares, by simp⟩, hfirst⟩
      | none =>
          have hno := not_declares_of_find? hf
          rcases ih with ⟨hc, hm, hall⟩ | ⟨m', cmd, hc, hm, ⟨before, after, heq, hd, hb⟩, hcmd⟩
          · exact Or.inl ⟨hc, hm, List.forall_mem_cons.mpr ⟨hno, hall⟩⟩
          · refine Or.inr ⟨m', cmd, hc, hm, ⟨m :: before, after, by rw [heq]; rfl, hd, ?_⟩, hcmd⟩
            exact List.forall_mem_cons.mpr ⟨hno, hb⟩

theorem Owner.not_undeclared {ms : List (Module H C)} {name : Bytes} {m : Module H C}
    {cmd : Command H} (h : Owner ms name m cmd) : ¬ Undeclared ms name := by
  obtain ⟨before, after, heq, hd, -⟩ := h.inModules
  exact fun hno => hno m (heq ▸ List.mem_append_right _ (List.mem_cons_self ..)) hd

theorem FirstWith.unique {α : Type} {p : α → Prop} {xs : List α} {x y : α}
    (hx : FirstWith p xs x) (hy : FirstWith p xs y) : x = y := by
  obtain ⟨b, a, rfl, hpx, hb⟩ := hx
  obtain ⟨b', a', heq, hpy, hb'⟩ := hy
  rcases List.append_eq_append_iff.mp heq with ⟨c, rfl, hc⟩ | ⟨c, rfl, hc⟩
  · cases c with
    | nil => exact (List.cons.inj hc).1
    | cons z c =>
        obtain ⟨rfl, -⟩ := List.cons.inj hc
        exact absurd hpx (hb' _ (List.mem_append_right _ (List.mem_cons_self ..)))
  · cases c with
    | nil => exact (List.cons.inj hc).1.symm
    | cons z c =>
        obtain ⟨rfl, -⟩ := List.cons.inj hc
        exact absurd hpy (hb _ (List.mem_append_right _ (List.mem_cons_self ..)))

theorem Owner.unique {ms : List (Module H C)} {name : Bytes} {m m' : Module H C}
    {cmd cmd' : Command H} (h : Owner ms name m cmd) (h' : Owner ms name m' cmd') :
    m = m' ∧ cmd = cmd' := by
  obtain rfl := h.inModules.unique h'.inModules
  exact ⟨rfl, h.inTable.unique h'.inTable⟩

theorem Owner.find {ms : List (Module H C)} {name : Bytes} {m : Module H C} {cmd : Command H}
    (h : Owner ms name m cmd) :
    findCommandInModules ms name = some cmd ∧ findModuleByCommand ms name = some m := by
  rcases find_cases ms name with ⟨-, -, hno⟩ | ⟨m', cmd', hc, hm, howner⟩
  · exact absurd hno h.not_undeclared
  · obtain ⟨rfl, rfl⟩ := h.unique howner
    exact ⟨hc, hm⟩

theorem Owner.append {ms ms' : List (Module H C)} {name : Bytes} {m : Module H C}
    {cmd : Command H} (h : Owner ms name m cmd) (hpre : ms <+: ms') : Owner ms' name m cmd := by
  obtain ⟨more, rfl⟩ := hpre
  obtain ⟨before, after, rfl, hd, hb⟩ := h.inModules
  exact ⟨⟨before, after ++ more, by simp, hd, hb⟩, h.inTable⟩

/-! ## One directive -/

def Refused (ms : List (Module H C)) (d : Directive) : Prop :=
  Undeclared ms d.name ∨
    ∃ m cmd, Owner ms d.name m cmd ∧ checkDirectiveArguments d cmd ≠ Err.ok

structure Accepted (ms : List (Module H C)) (d : Directive) (m : Module H C)
    (cmd : Command H) : Prop where
  owner : Owner ms d.name m cmd
  args : checkDirectiveArguments d cmd = Err.ok

theorem refused_or_accepted (ms : List (Module H C)) (d : Directive) :
    Refused ms d ∨ ∃ m cmd, Accepted ms d m cmd := by
  rcases find_cases ms d.name with ⟨-, -, hno⟩ | ⟨m, cmd, -, -, howner⟩
  · exact Or.inl (Or.inl hno)
  · by_cases hargs : checkDirectiveArguments d cmd = Err.ok
    · exact Or.inr ⟨m, cmd, howner, hargs⟩
    · exact Or.inl (Or.inr ⟨m, cmd, howner, hargs⟩)

theorem Accepted.append {ms ms' : List (Module H C)} {d : Directive} {m : Module H C}
    {cmd : Command H} (h : Accepted ms d m cmd) (hpre : ms <+: ms') : Accepted ms' d m cmd :=
  ⟨h.owner.append hpre, h.args⟩

abbrev Called := Directive → Bool

def calledByProcess : Called := fun _ => true

def calledByCheck : Called := fun d => d.name = ascii "include"

def handleDirective (called : Called) (handlers : Handlers H C σ) (d : Directive)
    (w : World H C σ) : Outcome (Err × World H C σ) :=
  match findCommandInModules w.modules d.name with
  | none => .ok (Err.configSyntax, w)
  | some cmd =>
      if checkDirectiveArguments d cmd ≠ Err.ok then .ok (Err.configSyntax, w)
      else if ¬ called d then .ok (Err.ok, w)
      else callHandler handlers cmd d w

theorem processDirective_eq (handlers : Handlers H C σ) :
    processDirective handlers = handleDirective calledByProcess handlers := by
  funext d w
  unfold processDirective handleDirective
  cases findCommandInModules w.modules d.name with
  | none => rfl
  | some cmd => simp [calledByProcess]

theorem checkDirective_eq (handlers : Handlers H C σ) :
    checkDirective handlers = handleDirective calledByCheck handlers := by
  funext d w
  unfold checkDirective handleDirective
  cases findCommandInModules w.modules d.name with
  | none => rfl
  | some cmd => simp [calledByCheck]

variable {called : Called} {handlers : Handlers H C σ} {d : Directive} {w w' : World H C σ}

theorem handleDirective_refused (h : Refused w.modules d) :
    handleDirective called handlers d w = .ok (Err.configSyntax, w) := by
  rcases h with hno | ⟨m, cmd, howner, hargs⟩
  · rcases find_cases w.modules d.name with ⟨hc, -, -⟩ | ⟨m, cmd, -, -, howner⟩
    · simp only [handleDirective, hc]
    · exact absurd hno howner.not_undeclared
  · simp only [handleDirective, howner.find.1, if_pos hargs]

theorem handleDirective_accepted {m : Module H C} {cmd : Command H}
    (h : Accepted w.modules d m cmd) :
    handleDirective called handlers d w =
      if called d then handlers cmd.handler cmd d m.cntx w else .ok (Err.ok, w) := by
  obtain ⟨hc, hm⟩ := h.owner.find
  simp only [handleDirective, hc, h.args, ne_eq, not_true, if_false, callHandler, hm]
  cases called d <;> rfl

/-! ## The notebook -/

/-- A call of a handler: what it was given, the modules of the server at that time, and
the status it returned. -/
structure Call (H C : Type) where
  handler : H
  cmd : Command H
  directive : Directive
  cntx : C
  modules : List (Module H C)
  status : Err

def World.noting (w : World H C σ) (calls : List (Call H C)) : World H C (σ × List (Call H C)) :=
  ⟨w.reading, w.modules, (w.rest, calls)⟩

def World.plain (w : World H C (σ × List (Call H C))) : World H C σ :=
  ⟨w.reading, w.modules, w.rest.1⟩

def noting (handlers : Handlers H C σ) : Handlers H C (σ × List (Call H C)) :=
  fun h cmd directive cntx w =>
    (handlers h cmd directive cntx w.plain).map fun (err, w') =>
      (err, w'.noting (w.rest.2 ++ [⟨h, cmd, directive, cntx, w.modules, err⟩]))

/-- Handlers that append to `conf_list` and to the modules, and change nothing that is
there. -/
structure Appending (handlers : Handlers H C σ) : Prop where
  confList : ∀ {h cmd d x w err w'}, handlers h cmd d x w = .ok (err, w') →
    w.confList <+: w'.confList
  modules : ∀ {h cmd d x w err w'}, handlers h cmd d x w = .ok (err, w') →
    w.modules <+: w'.modules

@[simp] theorem noting_confList (w : World H C σ) (calls : List (Call H C)) :
    (w.noting calls).confList = w.confList := rfl

@[simp] theorem noting_modules (w : World H C σ) (calls : List (Call H C)) :
    (w.noting calls).modules = w.modules := rfl

theorem noting_ok {h : H} {cmd : Command H} {cntx : C} {err : Err}
    (hcall : handlers h cmd d cntx w = .ok (err, w')) (pre : List (Call H C)) :
    noting handlers h cmd d cntx (w.noting pre) =
      .ok (err, w'.noting (pre ++ [⟨h, cmd, d, cntx, w.modules, err⟩])) := by
  have hplain : (w.noting pre).plain = w := rfl
  simp only [noting, hplain, hcall, Except.map]
  rfl

/-! ## A whole run -/

/-- What a loop that called the given handlers has done when it returns the status in the
world, from position `i` of `conf_list` on. -/
structure Dispatched (called : Called) (i : Nat) (w : World H C σ) (err : Err)
    (calls : List (Call H C)) (n : Nat) (refused : Option Directive) : Prop where
  /-- `n` directives have been accepted, one after the other, and their handlers called as
  far as the loop calls them. -/
  inOrder : calls.map Call.directive = ((w.confList.drop i).take n).filter called
  length : i + n ≤ w.confList.length
  accepted : ∀ d ∈ (w.confList.drop i).take n, ∃ m cmd, Accepted w.modules d m cmd
  /-- Each handler is that of the directive's command, with the context of the module that
  owns the command. -/
  owned : ∀ c ∈ calls, c.modules <+: w.modules ∧ c.handler = c.cmd.handler ∧
    ∃ m, Accepted c.modules c.directive m c.cmd ∧ c.cntx = m.cntx
  /-- Only the last handler can have failed. -/
  before : ∀ c ∈ calls.dropLast, c.status = Err.ok
  atRefused : ∀ d, refused = some d → w.confList[i + n]? = some d ∧ Refused w.modules d
  /-- The status is `FPX_OK` at the end of the list and no other where a directive is
  refused or a handler fails. -/
  status : (err = Err.ok ∧ refused = none ∧ i + n = w.confList.length ∧
      ∀ c ∈ calls, c.status = Err.ok) ∨
    (err ≠ Err.ok ∧ refused ≠ none ∧ ∀ c ∈ calls, c.status = Err.ok) ∨
    (err ≠ Err.ok ∧ refused = none ∧ ∃ c, calls.getLast? = some c ∧ c.status = err)

theorem drop_of_isPrefix {α : Type} {xs ys : List α} {i : Nat} {x : α} (h : xs[i]? = some x)
    (hpre : xs <+: ys) : ys.drop i = x :: ys.drop (i + 1) := by
  obtain ⟨hi, hx⟩ := List.getElem?_eq_some_iff.mp h
  rw [List.drop_eq_getElem_cons (lt_of_lt_of_le hi hpre.length_le), ← hpre.getElem hi, hx]

theorem Dispatched.cons {i : Nat} {err : Err} {calls : List (Call H C)} {n : Nat}
    {refused : Option Directive} {m : Module H C} {cmd : Command H}
    (h : Dispatched called (i + 1) w' err calls n refused)
    (hd : w'.confList.drop i = d :: w'.confList.drop (i + 1)) (ha : Accepted w'.modules d m cmd)
    {noted : List (Call H C)} (hnoted : noted.map Call.directive = [d].filter called)
    (howned : ∀ c ∈ noted, c.modules <+: w'.modules ∧ c.handler = c.cmd.handler ∧
      ∃ m, Accepted c.modules c.directive m c.cmd ∧ c.cntx = m.cntx)
    (hok : ∀ c ∈ noted, c.status = Err.ok) :
    Dispatched called i w' err (noted ++ calls) (n + 1) refused where
  inOrder := by
    rw [hd, List.take_succ_cons, List.map_append, hnoted, h.inOrder, ← List.filter_append]
    rfl
  length := by
    have := h.length
    omega
  accepted := by
    rw [hd, List.take_succ_cons]
    exact List.forall_mem_cons.mpr ⟨⟨m, cmd, ha⟩, h.accepted⟩
  owned := List.forall_mem_append.mpr ⟨howned, h.owned⟩
  before := by
    intro c hc
    cases hcalls : calls with
    | nil =>
        rw [hcalls, List.append_nil] at hc
        exact hok c (List.mem_of_mem_dropLast hc)
    | cons c' calls' =>
        rw [List.dropLast_append_of_ne_nil (by simp [hcalls])] at hc
        rcases List.mem_append.mp hc with hc | hc
        · exact hok c hc
        · exact h.before c hc
  atRefused := by
    intro d' hd'
    have := h.atRefused d' hd'
    rwa [Nat.add_right_comm, Nat.add_assoc] at this
  status := by
    have hall (hcalls : ∀ c ∈ calls, c.status = Err.ok) : ∀ c ∈ noted ++ calls, c.status = Err.ok :=
      List.forall_mem_append.mpr ⟨hok, hcalls⟩
    rcases h.status with ⟨herr, hnone, hlen, hcalls⟩ | ⟨herr, hsome, hcalls⟩ |
      ⟨herr, hnone, c, hc, hst⟩
    · exact Or.inl ⟨herr, hnone, by omega, hall hcalls⟩
    · exact Or.inr (Or.inl ⟨herr, hsome, hall hcalls⟩)
    · refine Or.inr (Or.inr ⟨herr, hnone, c, ?_, hst⟩)
      rw [List.getLast?_append, hc, Option.some_or]

theorem dispatched_end {i : Nat} (hlen : i = w.confList.length) :
    Dispatched called i w Err.ok ([] : List (Call H C)) 0 none :=
  ⟨by simp, by omega, by simp, by simp, by simp, by simp,
    Or.inl ⟨rfl, rfl, by omega, by simp⟩⟩

theorem dispatched_refused {i : Nat} (hd : w.confList[i]? = some d) (href : Refused w.modules d) :
    Dispatched called i w Err.configSyntax ([] : List (Call H C)) 0 (some d) := by
  have hlt := (List.getElem?_eq_some_iff.mp hd).1
  refine ⟨by simp, by omega, by simp, by simp, by simp, ?_,
    Or.inr (Or.inl ⟨Err.configSyntax_ne_ok, by simp, by simp⟩)⟩
  rintro d' ⟨⟩
  exact ⟨hd, href⟩

theorem dispatched_failed {i : Nat} {err : Err} {m : Module H C} {cmd : Command H}
    (hd : w.confList[i]? = some d) (hconf : w.confList <+: w'.confList)
    (hms : w.modules <+: w'.modules) (hacc : Accepted w.modules d m cmd)
    (hcalled : called d = true) (herr : err ≠ Err.ok) :
    Dispatched called i w' err [⟨cmd.handler, cmd, d, m.cntx, w.modules, err⟩] 1 none := by
  have hlt := (List.getElem?_eq_some_iff.mp hd).1
  have hdrop := drop_of_isPrefix hd hconf
  have hlen := hconf.length_le
  refine ⟨by simp [hdrop, hcalled], by omega, ?_, ?_, by simp, by simp,
    Or.inr (Or.inr ⟨herr, rfl, _, rfl, rfl⟩)⟩
  · simpa [hdrop] using ⟨m, cmd, hacc.append hms⟩
  · exact List.forall_mem_singleton.mpr ⟨hms, rfl, m, hacc, rfl⟩

/-- Both loops: the run with the notebook is the run without it, and the notebook shows
what has been dispatched. -/
theorem foreach_dispatched (hap : Appending handlers) {rounds i : Nat} {err : Err}
    (hrun : foreachDirective (handleDirective called handlers) rounds i w = .ok (err, w'))
    (hi : i ≤ w.confList.length) (pre : List (Call H C)) :
    w.confList <+: w'.confList ∧ w.modules <+: w'.modules ∧ ∃ calls n refused,
      foreachDirective (handleDirective called (noting handlers)) rounds i (w.noting pre) =
        .ok (err, w'.noting (pre ++ calls)) ∧ Dispatched called i w' err calls n refused := by
  induction rounds generalizing i w pre with
  | zero => cases hrun
  | succ rounds ih =>
      simp only [foreachDirective] at hrun ⊢
      rw [noting_confList]
      cases hd : w.confList[i]? with
      | none =>
          simp only [hd, Except.ok.injEq, Prod.mk.injEq] at hrun ⊢
          obtain ⟨rfl, rfl⟩ := hrun
          have hlen := List.getElem?_eq_none_iff.mp hd
          exact ⟨List.prefix_rfl, List.prefix_rfl, [], 0, none, by simp,
            dispatched_end (by omega)⟩
      | some d =>
          simp only [hd] at hrun ⊢
          have hlt := (List.getElem?_eq_some_iff.mp hd).1
          rcases refused_or_accepted w.modules d with href | ⟨m, cmd, hacc⟩
          · rw [handleDirective_refused href] at hrun
            simp only [Err.configSyntax_ne_ok, ne_eq, not_false_eq_true, if_true, Except.ok.injEq,
              Prod.mk.injEq] at hrun
            obtain ⟨rfl, rfl⟩ := hrun
            refine ⟨List.prefix_rfl, List.prefix_rfl, [], 0, some d, ?_,
              dispatched_refused hd href⟩
            rw [handleDirective_refused (by exact href)]
            simp [Err.configSyntax_ne_ok]
          · rw [handleDirective_accepted hacc] at hrun
            have hnote : handleDirective called (noting handlers) d (w.noting pre) =
                if called d then noting handlers cmd.handler cmd d m.cntx (w.noting pre)
                else .ok (Err.ok, w.noting pre) := handleDirective_accepted hacc
            rw [hnote]
            cases hcalled : called d with
            | false =>
                simp only [hcalled, Bool.false_eq_true, if_false, ne_eq, not_true] at hrun ⊢
                obtain ⟨hconf, hms, calls, n, refused, hnoted, hdisp⟩ := ih hrun hlt pre
                refine ⟨hconf, hms, [] ++ calls, n + 1, refused, hnoted, ?_⟩
                exact hdisp.cons (drop_of_isPrefix hd hconf) (hacc.append hms) (by simp [hcalled])
                  (by simp) (by simp)
            | true =>
                simp only [hcalled, if_true] at hrun ⊢
                cases hcall : handlers cmd.handler cmd d m.cntx w with
                | error halt => simp [hcall] at hrun
                | ok out =>
                    obtain ⟨err', u⟩ := out
                    rw [noting_ok hcall pre]
                    have hconf := hap.confList hcall
                    have hms := hap.modules hcall
                    simp only [hcall] at hrun
                    by_cases herr : err' = Err.ok
                    · simp only [herr, ne_eq, not_true, if_false] at hrun ⊢
                      obtain ⟨hconf', hms', calls, n, refused, hnoted, hdisp⟩ := ih hrun
                        (lt_of_lt_of_le hlt hconf.length_le)
                        (pre ++ [⟨cmd.handler, cmd, d, m.cntx, w.modules, Err.ok⟩])
                      refine ⟨hconf.trans hconf', hms.trans hms',
                        [⟨cmd.handler, cmd, d, m.cntx, w.modules, Err.ok⟩] ++ calls, n + 1, refused,
                        ?_, ?_⟩
                      · rw [← List.append_assoc]
                        exact hnoted
                      · refine hdisp.cons (drop_of_isPrefix hd (hconf.trans hconf'))
                          (hacc.append (hms.trans hms')) (by simp [hcalled]) ?_ (by simp)
                        exact List.forall_mem_singleton.mpr ⟨hms.trans hms', rfl, m, hacc, rfl⟩
                    · simp only [ne_eq, herr, not_false_eq_true, if_true, Except.ok.injEq,
                        Prod.mk.injEq] at hrun ⊢
                      obtain ⟨rfl, rfl⟩ := hrun
                      exact ⟨hconf, hms, [⟨cmd.handler, cmd, d, m.cntx, w.modules, err'⟩], 1,
                        none, ⟨rfl, rfl⟩, dispatched_failed hd hconf hms hacc hcalled herr⟩

/-- `fpx_config_process` goes through `conf_list` in order, with what the handlers append
to it, and calls for each directive one handler: that of the first command of its name in
the first module that declares it, with the context of that module. It stops with another
status than `FPX_OK` at the first directive that is unknown, has a wrong number of
arguments or whose handler fails, and returns `FPX_OK` only at the end of the list. -/
theorem config_process_dispatch (hap : Appending handlers) {rounds : Nat} {err : Err}
    (hrun : configProcess handlers rounds w = .ok (err, w')) :
    (∃ calls n refused,
      configProcess (noting handlers) rounds (w.noting []) = .ok (err, w'.noting calls) ∧
        w.confList <+: w'.confList ∧ w.modules <+: w'.modules ∧
        Dispatched calledByProcess 0 w' err calls n refused) ∧
    ∀ (ms : List (Module H C)) (name : Bytes),
      (findCommandInModules ms name = none ∧ findModuleByCommand ms name = none ∧
        Undeclared ms name) ∨
      ∃ m cmd, findCommandInModules ms name = some cmd ∧ findModuleByCommand ms name = some m ∧
        Owner ms name m cmd := by
  refine ⟨?_, find_cases⟩
  unfold configProcess at hrun ⊢
  rw [processDirective_eq] at hrun ⊢
  obtain ⟨hconf, hms, calls, n, refused, hnoted, hdisp⟩ :=
    foreach_dispatched hap hrun (Nat.zero_le _) []
  exact ⟨calls, n, refused, hnoted, hconf, hms, hdisp⟩

/-! ## The handlers of a server -/

/-- The handlers of the core module append, whatever the others do. -/
theorem coreHandlers_appending (fs : FileSystem) (answers : PoolAnswers) (depth : Nat)
    (others : Others H C σ) : Appending (coreHandlers fs answers (depth + 1) others) where
  confList := by
    intro h cmd d x w err w' hcall
    cases h with
    | incl =>
        change handlerInclude fs answers (depth + 1) d w = _ at hcall
        unfold handlerInclude at hcall
        split at hcall
        · cases hcall
        · split at hcall
          · cases hcall
          · rename_i hread
            cases hcall
            exact readIncluded_grows hread
    | other h =>
        have hrun : others.run h cmd d x w = (err, w') := Except.ok.inj hcall
        have hkeep := others.confList h cmd d x w
        rw [hrun] at hkeep
        rw [hkeep]
  modules := by
    intro h cmd d x w err w' hcall
    cases h with
    | incl =>
        change handlerInclude fs answers (depth + 1) d w = _ at hcall
        unfold handlerInclude at hcall
        split at hcall
        · cases hcall
        · split at hcall
          · cases hcall
          · cases hcall
            exact List.prefix_rfl
    | other h =>
        have hrun : others.run h cmd d x w = (err, w') := Except.ok.inj hcall
        obtain ⟨ms, hms, -⟩ := others.modules h cmd d x w
        rw [hrun] at hms
        exact ⟨ms, hms.symm⟩

def listenDirective : Directive := .of (ascii "listen") [ascii "80"] none 1

/-- A server with one directive to process. -/
theorem config_process_dispatch_listen :
    ∃ calls n refused,
      configProcess (noting (coreHandlers (listedFs [] [] []) plenty 1 quietOthers)) 2
          ((startWorld [listenDirective]).noting []) =
        .ok (Err.ok, (startWorld [listenDirective]).noting calls) ∧
      Dispatched calledByProcess 0 (startWorld [listenDirective]) Err.ok calls n refused := by
  have hap := coreHandlers_appending (C := Unit) (σ := Unit) (listedFs [] [] []) plenty 0
    (quietOthers (H := CoreHandler))
  have hprocess : configProcess (coreHandlers (listedFs [] [] []) plenty 1 quietOthers) 2
      (startWorld [listenDirective]) = .ok (Err.ok, startWorld [listenDirective]) := rfl
  obtain ⟨⟨calls, n, refused, hrun, -, -, hdisp⟩, -⟩ := config_process_dispatch hap hprocess
  exact ⟨calls, n, refused, hrun, hdisp⟩

end Floppix.Configuration
