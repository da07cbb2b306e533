import Floppix.Core.Module
import Floppix.Lib.Transition
import Mathlib.Data.List.Nodup
import Mathlib.Logic.Function.Basic

/-! # The modules of shared objects

A module that is loaded is static data of its shared object, with its name and its place in
`server->modules`. The object stays mapped for as long as it has been opened more often
than closed, and opening it again gives the same module.
-/

namespace Floppix.Modules

open Transition

/-! ## The functions -/

structure Symbol where
  name : Bytes
  /-- `fini` is not `NULL` -/
  fini : Bool
deriving DecidableEq, Repr

structure Image where
  /-- how often it has been opened and not closed again -/
  refs : Nat
  /-- what `fpx_dlsym` finds under `fpx_module` -/
  module : Option Symbol
deriving DecidableEq, Repr

/-- Where a module on the list is: in the program, or in the object with a handle. -/
inductive Place where
  | prelinked (symbol : Symbol)
  | image (handle : Nat)
deriving DecidableEq, Repr

/-- The shared objects of a process, by handle, and `server->modules`. -/
structure Linked where
  images : Nat → Option Image
  modules : List Place

namespace Linked

def prelinked : Linked := ⟨fun _ => none, [.prelinked ⟨ascii "core", false⟩]⟩

/-- `module->name`, unless it is no longer mapped. -/
def nameOf (s : Linked) : Place → Option Bytes
  | .prelinked symbol => some symbol.name
  | .image h => ((s.images h).bind Image.module).map Symbol.name

/-- The loop of `fpx_add_module`: whether a module with the name is plugged. -/
def plugged (s : Linked) (name : Bytes) : List Place → Option Bool
  | [] => some false
  | p :: rest =>
      match s.nameOf p with
      | none => none
      | some other => if other = name then some true else s.plugged name rest

/-- `fpx_add_module` for the module of a shared object. There is no result where a name is read
that is not mapped. -/
def addModule (s : Linked) (h : Nat) : Option (Err × Linked) :=
  match s.nameOf (.image h) with
  | none => none
  | some name =>
      match s.plugged name s.modules with
      | none => none
      | some true => some (Err.failed, s)
      | some false => some (Err.ok, { s with modules := s.modules ++ [.image h] })

/-- `fpx_dlopen` gives a handle. An object that is mapped already is opened once more, and any
other one is mapped. -/
def dlopen (s : Linked) (h : Nat) (module : Option Symbol) : Linked :=
  match s.images h with
  | none => { s with images := Function.update s.images h (some ⟨1, module⟩) }
  | some image =>
      { s with images := Function.update s.images h (some { image with refs := image.refs + 1 }) }

def dlclose (s : Linked) (h : Nat) : Linked :=
  match s.images h with
  | none => s
  | some image =>
      let left := if image.refs = 1 then none else some { image with refs := image.refs - 1 }
      { s with images := Function.update s.images h left }

/-- `fpx_load_module`, with the handle that `fpx_dlopen` gives, and the module of the object if
it has to be mapped. -/
def loadModule (s : Linked) (fname : Bytes) (answer : Option (Nat × Option Symbol)) :
    Option (Err × Linked) :=
  if checkAbsolutePath fname ≠ Err.ok then some (checkAbsolutePath fname, s)
  else
    match answer with
    | none => some (Err.failed, s)
    | some (h, module) =>
        let s := s.dlopen h module
        match (s.images h).bind Image.module with
        | none => some (Err.failed, s.dlclose h)
        | some _ =>
            match s.addModule h with
            | none => none
            | some (err, s) => if err ≠ Err.ok then some (err, s.dlclose h) else some (err, s)

/-- `fpx_unload_module` for a module of the list. It calls `fini`, which must not be `NULL`. -/
def unloadModule (s : Linked) (p : Place) : Option Linked :=
  if p ∉ s.modules then none
  else
    match p with
    | .prelinked symbol => if symbol.fini then some s else none
    | .image h =>
        match (s.images h).bind Image.module with
        | none => none
        | some symbol => if symbol.fini then some (s.dlclose h) else none

end Linked

inductive LinkCall where
  | load (fname : Bytes) (answer : Option (Nat × Option Symbol))
  | unload (p : Place)

def Linked.step (s : Linked) : LinkCall → Option Linked
  | .load fname answer => (s.loadModule fname answer).map Prod.snd
  | .unload p => s.unloadModule p

/-! ## What is mapped -/

/-- The names on the list can be read and are different, and each shared object that is mapped
is on the list and has been opened once. -/
structure Linked.Intact (s : Linked) : Prop where
  named : ∀ p ∈ s.modules, s.nameOf p ≠ none
  distinct : (s.modules.map s.nameOf).Nodup
  opened : ∀ h image, s.images h = some image → image.refs = 1 ∧ .image h ∈ s.modules

/-- What `fpx_load_module` returns: a failure leaves everything as it was, and with success the
module of the object is the last one. -/
inductive Loads (s : Linked) : Err → Linked → Prop where
  | failed {err : Err} (herr : err ≠ Err.ok) : Loads s err s
  | plugged {h : Nat} {symbol : Symbol} (hnew : s.images h = none)
      (hname : some symbol.name ∉ s.modules.map s.nameOf) :
      Loads s Err.ok ⟨Function.update s.images h (some ⟨1, some symbol⟩), s.modules ++ [.image h]⟩

namespace Linked

variable {s t : Linked} {h : Nat} {name : Bytes}

theorem plugged_eq {ps : List Place} (hps : ∀ p ∈ ps, s.nameOf p ≠ none) :
    s.plugged name ps = some (decide (some name ∈ ps.map s.nameOf)) := by
  induction ps with
  | nil => rfl
  | cons p ps ih =>
      have hrest := ih fun q hq => hps q (List.mem_cons_of_mem p hq)
      obtain ⟨other, hother⟩ := Option.ne_none_iff_exists'.mp (hps p (List.mem_cons_self ..))
      rw [plugged, hother, List.map_cons, hother]
      by_cases heq : other = name
      · simp [heq]
      · have hne : some name ≠ some other := fun h => heq (Option.some.inj h).symm
        simp [heq, hrest, hne]

theorem nameOf_update {h : Nat} {image : Option Image} {p : Place} (hp : p ≠ .image h)
    (modules : List Place) :
    nameOf ⟨Function.update s.images h image, modules⟩ p = s.nameOf p := by
  cases p with
  | prelinked symbol => rfl
  | image h' =>
      have hne : h' ≠ h := fun heq => hp (heq ▸ rfl)
      simp only [nameOf, Function.update_of_ne hne]

theorem names_update {h : Nat} {image : Option Image} {ps : List Place} (hps : .image h ∉ ps)
    (modules : List Place) :
    ps.map (nameOf ⟨Function.update s.images h image, modules⟩) = ps.map s.nameOf := by
  apply List.map_congr_left
  intro p hp
  apply nameOf_update
  intro heq
  rw [heq] at hp
  exact hps hp

theorem Intact.not_listed (hs : s.Intact) (hnew : s.images h = none) : .image h ∉ s.modules := by
  intro hmem
  apply hs.named _ hmem
  rw [nameOf, hnew]
  rfl

theorem addModule_eq {symbol : Symbol} (hs : ∀ p ∈ s.modules, s.nameOf p ≠ none)
    (hname : s.nameOf (.image h) = some symbol.name) :
    s.addModule h =
      if some symbol.name ∈ s.modules.map s.nameOf then some (Err.failed, s)
      else some (Err.ok, { s with modules := s.modules ++ [.image h] }) := by
  rw [addModule, hname]
  simp only [plugged_eq hs]
  by_cases hmem : some symbol.name ∈ s.modules.map s.nameOf
  · simp only [hmem, decide_true, if_true]
  · simp only [hmem, decide_false, if_false]

/-- An object that is opened once more and closed again. -/
theorem reopened {image : Image} (himage : s.images h = some image) (hrefs : image.refs ≠ 0)
    (module : Option Symbol) : (s.dlopen h module).dlclose h = s := by
  have hmore : image.refs + 1 ≠ 1 := by omega
  simp only [dlopen, himage, dlclose, Function.update_self, if_neg hmore, Nat.add_sub_cancel,
    Function.update_idem]
  rw [← himage, Function.update_eq_self]

theorem unmapped (hnew : s.images h = none) (module : Option Symbol) :
    (s.dlopen h module).dlclose h = s := by
  simp only [dlopen, hnew, dlclose, Function.update_self, if_true, Function.update_idem]
  rw [← hnew, Function.update_eq_self]

/-- A second opening gives the module that is plugged already. -/
theorem reopened_name {image : Image} (himage : s.images h = some image) (module : Option Symbol)
    (p : Place) : (s.dlopen h module).nameOf p = s.nameOf p := by
  cases p with
  | prelinked symbol => rfl
  | image h' =>
      by_cases heq : h' = h
      · rw [heq]
        simp only [dlopen, himage, nameOf, Function.update_self, Option.bind_some]
      · simp only [dlopen, himage, nameOf, Function.update_of_ne heq]

theorem load_reopened (hs : s.Intact) {image : Image} (himage : s.images h = some image)
    {fname : Bytes} (hpath : checkAbsolutePath fname = Err.ok) (module : Option Symbol) :
    s.loadModule fname (some (h, module)) = some (Err.failed, s) := by
  obtain ⟨hrefs, hlisted⟩ := hs.opened h image himage
  obtain ⟨symbol, hsymbol⟩ : ∃ symbol, image.module = some symbol := by
    have hnamed := hs.named _ hlisted
    rw [nameOf, himage, Option.bind_some] at hnamed
    cases hmodule : image.module with
    | none => exact absurd (by rw [hmodule]; rfl) hnamed
    | some symbol => exact ⟨symbol, rfl⟩
  have hbound : ((s.dlopen h module).images h).bind Image.module = some symbol := by
    simp only [dlopen, himage, Function.update_self, Option.bind_some, hsymbol]
  have hname : s.nameOf (.image h) = some symbol.name := by
    rw [nameOf, himage, Option.bind_some, hsymbol, Option.map_some]
  have hlist : (s.dlopen h module).modules = s.modules := by
    rw [dlopen, himage]
  have hnames : (s.dlopen h module).nameOf = s.nameOf := funext (reopened_name himage module)
  have hnamed : ∀ p ∈ (s.dlopen h module).modules, (s.dlopen h module).nameOf p ≠ none := by
    rw [hlist, hnames]
    exact hs.named
  have hadd := addModule_eq hnamed (hnames ▸ hname)
  have hmem : some symbol.name ∈ s.modules.map s.nameOf :=
    hname ▸ List.mem_map_of_mem hlisted
  rw [hlist, hnames, if_pos hmem] at hadd
  have hzero : image.refs ≠ 0 := by omega
  simp only [loadModule, hpath, ne_eq, not_true, if_false, hbound, hadd, Err.failed_ne_ok,
    not_false_eq_true, if_true, reopened himage hzero]

theorem load_mapped (hs : s.Intact) (hnew : s.images h = none) {fname : Bytes}
    (hpath : checkAbsolutePath fname = Err.ok) (module : Option Symbol) :
    s.loadModule fname (some (h, module)) =
      match module with
      | none => some (Err.failed, s)
      | some symbol =>
          if some symbol.name ∈ s.modules.map s.nameOf then some (Err.failed, s)
          else some (Err.ok, ⟨Function.update s.images h (some ⟨1, some symbol⟩),
            s.modules ++ [.image h]⟩) := by
  have hopen : s.dlopen h module =
      ⟨Function.update s.images h (some ⟨1, module⟩), s.modules⟩ := by
    rw [dlopen, hnew]
  have hclose := unmapped hnew module
  rw [hopen] at hclose
  cases module with
  | none =>
      simp only [loadModule, hpath, ne_eq, not_true, if_false, hopen, Function.update_self,
        Option.bind_some, hclose]
  | some symbol =>
      have hnames : s.modules.map
          (nameOf ⟨Function.update s.images h (some ⟨1, some symbol⟩), s.modules⟩) =
            s.modules.map s.nameOf :=
        names_update (hs.not_listed hnew) s.modules
      have hnamed : ∀ p ∈ s.modules,
          nameOf ⟨Function.update s.images h (some ⟨1, some symbol⟩), s.modules⟩ p ≠ none := by
        intro p hp
        have hne : p ≠ .image h := fun heq => hs.not_listed hnew (heq ▸ hp)
        rw [nameOf_update hne]
        exact hs.named p hp
      have hname : nameOf ⟨Function.update s.images h (some ⟨1, some symbol⟩), s.modules⟩
          (.image h) = some symbol.name := by
        simp only [nameOf, Function.update_self, Option.bind_some, Option.map_some]
      have hadd := addModule_eq hnamed hname
      simp only [hnames] at hadd
      simp only [loadModule, hpath, ne_eq, not_true, if_false, hopen, Function.update_self,
        Option.bind_some, hadd]
      by_cases hmem : some symbol.name ∈ s.modules.map s.nameOf
      · simp only [if_pos hmem, Err.failed_ne_ok, not_false_eq_true, if_true, hclose]
      · simp only [if_neg hmem, not_true, if_false]

/-- `fpx_load_module` always returns, and either nothing has changed or a new object with a new
name is on the list. -/
theorem load_spec (hs : s.Intact) (fname : Bytes) (answer : Option (Nat × Option Symbol)) :
    ∃ err t, s.loadModule fname answer = some (err, t) ∧ Loads s err t := by
  by_cases hpath : checkAbsolutePath fname = Err.ok
  · cases answer with
    | none =>
        refine ⟨Err.failed, s, ?_, .failed Err.failed_ne_ok⟩
        simp only [loadModule, hpath, ne_eq, not_true, if_false]
    | some given =>
        obtain ⟨h, module⟩ := given
        cases himage : s.images h with
        | some image =>
            exact ⟨Err.failed, s, load_reopened hs himage hpath module, .failed Err.failed_ne_ok⟩
        | none =>
            rw [load_mapped hs himage hpath module]
            cases module with
            | none => exact ⟨Err.failed, s, rfl, .failed Err.failed_ne_ok⟩
            | some symbol =>
                by_cases hmem : some symbol.name ∈ s.modules.map s.nameOf
                · exact ⟨Err.failed, s, if_pos hmem, .failed Err.failed_ne_ok⟩
                · exact ⟨Err.ok, _, if_neg hmem, .plugged himage hmem⟩
  · refine ⟨checkAbsolutePath fname, s, ?_, .failed hpath⟩
    unfold loadModule
    exact if_pos hpath

/-! ## Runs -/

theorem Intact.plug (hs : s.Intact) (hnew : s.images h = none) {symbol : Symbol}
    (hname : some symbol.name ∉ s.modules.map s.nameOf) :
    Intact ⟨Function.update s.images h (some ⟨1, some symbol⟩), s.modules ++ [.image h]⟩ := by
  have hlast : nameOf ⟨Function.update s.images h (some ⟨1, some symbol⟩),
      s.modules ++ [.image h]⟩ (.image h) = some symbol.name := by
    simp only [nameOf, Function.update_self, Option.bind_some, Option.map_some]
  constructor
  · intro p hp
    cases List.mem_append.mp hp with
    | inl hmem =>
        have hne : p ≠ .image h := fun heq => hs.not_listed hnew (heq ▸ hmem)
        rw [nameOf_update hne]
        exact hs.named p hmem
    | inr hmem =>
        rw [List.mem_singleton.mp hmem, hlast]
        exact Option.some_ne_none _
  · simp only [List.map_append, List.map_singleton, hlast,
      names_update (s := s) (hs.not_listed hnew)]
    exact List.nodup_append_comm.mp (List.nodup_cons.mpr ⟨hname, hs.distinct⟩)
  · intro h' image himage
    change Function.update s.images h (some ⟨1, some symbol⟩) h' = some image at himage
    by_cases heq : h' = h
    · rw [heq, Function.update_self] at himage
      cases himage
      rw [heq]
      exact ⟨rfl, List.mem_append_right _ (List.mem_singleton_self _)⟩
    · rw [Function.update_of_ne heq] at himage
      obtain ⟨hrefs, hmem⟩ := hs.opened h' image himage
      exact ⟨hrefs, List.mem_append_left _ hmem⟩

theorem loads_intact {err : Err} (hs : s.Intact) (h : Loads s err t) : t.Intact := by
  cases h with
  | failed herr => exact hs
  | plugged hnew hname => exact hs.plug hnew hname

/-- A module whose shared object is closed stays on the list. -/
theorem unload_not_intact (hs : s.Intact) (ht : s.unloadModule (.image h) = some t) :
    ¬ t.Intact := by
  simp only [unloadModule] at ht
  split at ht
  · cases ht
  · rename_i hmem
    rw [not_not] at hmem
    cases himage : s.images h with
    | none => exact absurd hmem (hs.not_listed himage)
    | some image =>
        obtain ⟨hrefs, -⟩ := hs.opened h image himage
        have hgone : (s.dlclose h).nameOf (.image h) = none := by
          simp only [dlclose, himage, hrefs, if_true, nameOf, Function.update_self,
            Option.bind_none, Option.map_none]
        have hlist : (s.dlclose h).modules = s.modules := by
          rw [dlclose, himage]
        split at ht
        · cases ht
        · split at ht
          · cases ht
            intro hintact
            exact hintact.named _ (hlist ▸ hmem) hgone
          · cases ht

end Linked

def LinkCall.Unmaps : LinkCall → Prop
  | .unload (.image _) => True
  | _ => False

theorem intact_iff_not_unmaps {s t : Linked} {c : LinkCall} (hs : s.Intact)
    (ht : s.step c = some t) : ¬ c.Unmaps ↔ t.Intact := by
  cases c with
  | load fname answer =>
      obtain ⟨err, u, hload, hloads⟩ := Linked.load_spec hs fname answer
      rw [Linked.step, hload] at ht
      cases ht
      exact iff_of_true id (Linked.loads_intact hs hloads)
  | unload p =>
      cases p with
      | prelinked symbol =>
          simp only [Linked.step, Linked.unloadModule] at ht
          split at ht
          · cases ht
          · split at ht
            · cases ht
              exact iff_of_true id hs
            · cases ht
      | image h => exact iff_of_false (fun hno => hno trivial) (Linked.unload_not_intact hs ht)

theorem prelinked_intact : Linked.prelinked.Intact where
  named := by
    intro p hp
    rw [List.mem_singleton.mp hp]
    exact Option.some_ne_none _
  distinct := List.nodup_singleton _
  opened := by
    intro h image himage
    cases himage

/-- Along every run of loads and unloads, with whatever objects are found, the modules have
different names, all of which are mapped, and each shared object is open once for its
module, exactly if no module of a shared object is unloaded. -/
theorem visits_intact_iff {calls : List LinkCall} {t : Linked}
    (h : run Linked.step Linked.prelinked calls = some t) :
    Visits Linked.step Linked.Intact Linked.prelinked calls ↔
      Meets Linked.step (fun _ c => ¬ c.Unmaps) Linked.prelinked calls :=
  visits_iff_meets_of_run (fun _ _ _ hs ht => intact_iff_not_unmaps hs ht) h prelinked_intact

def unloadedFirst : List LinkCall :=
  [.load (ascii "/a.so") (some (1, some ⟨ascii "a", true⟩)),
    .load (ascii "/b.so") (some (2, some ⟨ascii "b", true⟩)),
    .load (ascii "/a.so") (some (1, some ⟨ascii "a", true⟩)),
    .unload (.image 1)]

theorem visits_intact_iff_unloaded_first :
    ∃ t, run Linked.step Linked.prelinked unloadedFirst = some t ∧
      ¬ Visits Linked.step Linked.Intact Linked.prelinked unloadedFirst := by
  obtain ⟨t, ht⟩ : ∃ t, run Linked.step Linked.prelinked unloadedFirst = some t := ⟨_, rfl⟩
  refine ⟨t, ht, fun hvisits => ?_⟩
  have hmeets := (visits_intact_iff ht).mp hvisits
  exact (((hmeets.2 _ rfl).2 _ rfl).2 _ rfl).1 trivial

/-! ## The modules of the server -/

variable {H C σ : Type} {s : Linked} {server : Server H C σ} {dso : Dso H C σ} {fname : Bytes}
  {answer : Option (Nat × Option Symbol)}

/-- The objects are those that the server finds: the handle is there if the object can be
opened, and a module is found in it with the name that it has there. -/
structure Finds (dso : Dso H C σ) (s : Linked) (fname : Bytes)
    (answer : Option (Nat × Option Symbol)) : Prop where
  dlopen : dso.dlopen fname = answer.isSome
  dlsym : ∀ h module, answer = some (h, module) →
    (dso.dlsym fname).map Declaration.name = (s.dlopen h module).nameOf (.image h)

def SameNames (s : Linked) (server : Server H C σ) : Prop :=
  s.modules.map s.nameOf = server.modules.map fun m => some m.name

theorem any_name_iff (hnames : SameNames s server) (name : Bytes) :
    (server.modules.any fun other => other.name = name) = true ↔
      some name ∈ s.modules.map s.nameOf := by
  rw [hnames, List.any_eq_true, List.mem_map]
  constructor
  · rintro ⟨m, hm, heq⟩
    exact ⟨m, hm, congrArg some (of_decide_eq_true heq)⟩
  · rintro ⟨m, hm, heq⟩
    exact ⟨m, hm, decide_eq_true (Option.some.inj heq)⟩

theorem loadModule_found {d : Declaration H C σ} (hpath : checkAbsolutePath fname = Err.ok)
    (hopen : dso.dlopen fname = true) (hsym : dso.dlsym fname = some d) :
    loadModule dso server fname =
      if (server.modules.any fun other => other.name = d.name) = true then .error Err.failed
      else .ok { server with modules := server.modules ++ [d.load] } := by
  have hname : d.load.name = d.name := rfl
  unfold loadModule addModule
  simp only [hpath, ne_eq, not_true, if_false, hopen, hsym, Bool.not_true, Bool.false_eq_true,
    hname]
  by_cases hany : (server.modules.any fun other => other.name = d.name) = true
  · simp only [if_pos hany, Err.failed_ne_ok, not_false_eq_true, if_true]
  · simp only [if_neg hany, not_true, if_false]

theorem loadModule_without (hpath : checkAbsolutePath fname = Err.ok)
    (hsym : dso.dlsym fname = none) : loadModule dso server fname = .error Err.failed := by
  unfold loadModule
  simp only [hpath, ne_eq, not_true, if_false, hsym]
  split
  · rfl
  · rfl

/-- What `fpx_load_module` does to the shared objects is what it does to the modules of the
server. -/
theorem load_refines (hs : s.Intact) (hnames : SameNames s server)
    (hfinds : Finds dso s fname answer) :
    ∃ err t, s.loadModule fname answer = some (err, t) ∧
      match loadModule dso server fname with
      | .error failed => err = failed ∧ t = s
      | .ok server' => err = Err.ok ∧ SameNames t server' := by
  by_cases hpath : checkAbsolutePath fname = Err.ok
  · cases answer with
    | none =>
        have hopen : dso.dlopen fname = false := hfinds.dlopen
        refine ⟨Err.failed, s, ?_, ?_⟩
        · simp only [Linked.loadModule, hpath, ne_eq, not_true, if_false]
        · simp [loadModule, hpath, hopen]
    | some given =>
        obtain ⟨h, module⟩ := given
        have hopen : dso.dlopen fname = true := hfinds.dlopen
        have hsym := hfinds.dlsym h module rfl
        cases himage : s.images h with
        | some image =>
            refine ⟨Err.failed, s, Linked.load_reopened hs himage hpath module, ?_⟩
            rw [Linked.reopened_name himage] at hsym
            cases hd : dso.dlsym fname with
            | none =>
                rw [loadModule_without hpath hd]
                exact ⟨rfl, rfl⟩
            | some d =>
                rw [hd, Option.map_some] at hsym
                have hmem : some d.name ∈ s.modules.map s.nameOf :=
                  hsym ▸ List.mem_map_of_mem (hs.opened h image himage).2
                rw [loadModule_found hpath hopen hd, if_pos ((any_name_iff hnames _).mpr hmem)]
                exact ⟨rfl, rfl⟩
        | none =>
            rw [Linked.load_mapped hs himage hpath module]
            have hbound : (s.dlopen h module).nameOf (.image h) = module.map Symbol.name := by
              simp only [Linked.dlopen, himage, Linked.nameOf, Function.update_self,
                Option.bind_some]
            rw [hbound] at hsym
            cases module with
            | none =>
                have hd : dso.dlsym fname = none := by simpa using hsym
                rw [loadModule_without hpath hd]
                exact ⟨Err.failed, s, rfl, rfl, rfl⟩
            | some symbol =>
                obtain ⟨d, hd, hname⟩ := Option.map_eq_some_iff.mp hsym
                rw [loadModule_found hpath hopen hd, hname]
                by_cases hmem : some symbol.name ∈ s.modules.map s.nameOf
                · rw [if_pos ((any_name_iff hnames _).mpr hmem)]
                  exact ⟨Err.failed, s, if_pos hmem, rfl, rfl⟩
                · rw [if_neg (mt (any_name_iff hnames _).mp hmem)]
                  refine ⟨Err.ok, _, if_neg hmem, rfl, ?_⟩
                  have hlast : (d.load : Module H C σ).name = symbol.name := hname
                  simp only [SameNames, List.map_append, List.map_singleton, hlast,
                    Linked.names_update (hs.not_listed himage), Linked.nameOf,
                    Function.update_self, Option.bind_some, Option.map_some]
                  rw [hnames]
  · refine ⟨checkAbsolutePath fname, s, ?_, ?_⟩
    · unfold Linked.loadModule
      exact if_pos hpath
    · have hfailed : loadModule dso server fname = .error (checkAbsolutePath fname) := by
        unfold loadModule
        exact if_pos hpath
      rw [hfailed]
      exact ⟨rfl, rfl⟩

end Floppix.Modules
