import Floppix.Core.Config.Inclusion

/-! # Which file a directive refers to

`fpx_config_parse` takes the head of `conf_files` for an element of the list. With the
declared layouts the step back from it leads to the start of the configuration, and the
name is read where `conf_list.tail` is stored. So a directive refers to the last
directive of the files before its own, or to nothing.
-/

namespace Floppix.Configuration

/-! ## Layouts -/

/-- A word of memory, by what it is: pointers say what they point at. -/
inductive Word where
  | descriptor
  | number (n : Nat)
  /-- the list node of a directive on `conf_list`, by position, or `NULL` -/
  | directiveNode (node : Option Nat)
  /-- the list node of a file on `conf_files`, by position, or `NULL` -/
  | fileNode (node : Option Nat)
  /-- the path of a file on `conf_files`, by position -/
  | path (file : Nat)
deriving DecidableEq, Repr

def lastNode : Nat → Option Nat
  | 0 => none
  | n + 1 => some n

/-- `fpx_list_t` with so many elements: the head, the tail and the size. -/
def listWords (node : Option Nat → Word) (size : Nat) : List Word :=
  [node (if size = 0 then none else some 0), node (lastNode size), .number size]

/-- `fpx_config_t`. -/
def Config.memory (config : Config) : List Word :=
  listWords .directiveNode config.confList.length ++ listWords .fileNode config.confFiles.length

def confFilesOffset : Nat := 3

/-- `fpx_file_t` of the file at a position of `conf_files`, its node with the given
neighbours: the descriptor, which is padded to a word, the name, the offset and the node. -/
def fileMemory (file offset : Nat) (next prev : Option Nat) : List Word :=
  [.descriptor, .path file, .number offset, .fileNode next, .fileNode prev]

def nameOffset : Nat := 1

def listNodeOffset : Nat := 3

/-- `fpx_list_data(ptr, fpx_file_t, list_node)->name`, for a pointer into a structure. -/
def listDataName (memory : List Word) (ptr : Nat) : Option Word :=
  memory[ptr - listNodeOffset + nameOffset]?

theorem listDataName_file (file offset : Nat) (next prev : Option Nat) :
    listDataName (fileMemory file offset next prev) listNodeOffset = some (.path file) := rfl

/-- From the head of `conf_files` it is the tail of `conf_list`. -/
theorem listDataName_config (config : Config) :
    listDataName config.memory confFilesOffset = some (.directiveNode config.fileName) := by
  simp only [Config.fileName]
  cases h : config.confList.length with
  | zero => simp [listDataName, Config.memory, listWords, confFilesOffset, listNodeOffset,
      nameOffset, lastNode, h]
  | succ n => simp [listDataName, Config.memory, listWords, confFilesOffset, listNodeOffset,
      nameOffset, lastNode, h]

/-- The word stored in `filename`. -/
def Directive.filenameWord (d : Directive) : Word := .directiveNode d.filename

theorem fileName_eq (config : Config) : config.fileName = lastNode config.confList.length := by
  simp only [Config.fileName]
  cases config.confList.length <;> rfl

/-! ## Reading files one after the other -/

/-- Where a directive came from: the position of its file on `conf_files`, and the number of
directives on `conf_list` when `fpx_config_parse` started on that file. -/
structure Origin where
  file : Nat
  first : Nat
deriving DecidableEq, Repr

/-- What has been read, with the origins of the directives as history. -/
structure History where
  reading : Reading
  origins : List Origin
deriving DecidableEq, Repr

/-- The directives appended between two states came from the file pushed last. -/
def History.after (h : History) (r : Reading) : History where
  reading := r
  origins := h.origins ++ List.replicate
    (r.config.confList.length - h.reading.config.confList.length)
    ⟨r.config.confFiles.length - 1, h.reading.config.confList.length⟩

variable (fs : FileSystem) (answers : PoolAnswers)

/-- `fpx_config_read`: both lists are initialised, and the rest of it is the body of
`fpx_config_read_included_file`. -/
def configRead (filename : Bytes) (r : Reading) : Outcome (Err × Reading) :=
  readIncludedFile fs answers filename { r with config := Config.empty }

def readIncludedFiles : List Bytes → History → Outcome History
  | [], h => .ok h
  | filename :: rest, h =>
      match readIncludedFile fs answers filename h.reading with
      | .error halt => .error halt
      | .ok (_, r) => readIncludedFiles rest (h.after r)

def readFiles (filename : Bytes) (included : List Bytes) (r : Reading) : Outcome History :=
  match configRead fs answers filename r with
  | .error halt => .error halt
  | .ok (_, r') =>
      readIncludedFiles fs answers included
        (History.after ⟨{ r with config := Config.empty }, []⟩ r')

variable {fs answers}

/-- Each directive has its origin, and refers to the last directive before its file. -/
structure Tracked (h : History) : Prop where
  length_eq : h.origins.length = h.reading.config.confList.length
  refers : ∀ (i : Nat) (d : Directive) (o : Origin), h.reading.config.confList[i]? = some d →
    h.origins[i]? = some o →
    d.filename = lastNode o.first ∧ o.first ≤ i ∧ o.file < h.reading.config.confFiles.length

theorem tracked_empty (r : Reading) : Tracked ⟨{ r with config := Config.empty }, []⟩ :=
  ⟨rfl, fun i d o hd _ => by simp [Config.empty] at hd⟩

theorem Tracked.step {h : History} {filename : Bytes} {err : Err} {r : Reading} (ht : Tracked h)
    (hr : readIncludedFile fs answers filename h.reading = .ok (err, r)) :
    Tracked (h.after r) := by
  obtain hsame | ⟨ds, hconfig, hfile⟩ := readIncludedFile_appends hr
  · have horigins : (h.after r).origins = h.origins := by
      simp [History.after, hsame]
    refine ⟨?_, fun i d o hd ho => ?_⟩
    · rw [horigins, ht.length_eq]
      exact congrArg (fun c => c.confList.length) hsame.symm
    · rw [horigins] at ho
      have hd' : h.reading.config.confList[i]? = some d := hsame ▸ hd
      have hrefers := ht.refers i d o hd' ho
      rw [← hsame] at hrefers
      exact hrefers
  · have hlist : r.config.confList = h.reading.config.confList ++ ds := by rw [hconfig]; rfl
    have hfiles : r.config.confFiles = h.reading.config.confFiles ++ [filename] := by
      rw [hconfig]; rfl
    have horigins : (h.after r).origins = h.origins ++ List.replicate ds.length
        ⟨h.reading.config.confFiles.length, h.reading.config.confList.length⟩ := by
      simp [History.after, hlist, hfiles]
    have hlen := ht.length_eq
    constructor
    · rw [horigins, List.length_append, List.length_replicate, hlen]
      exact (congrArg List.length hlist).trans List.length_append |>.symm
    · intro i d o hd ho
      have hd' : (h.reading.config.confList ++ ds)[i]? = some d := hlist ▸ hd
      have hcount : (h.after r).reading.config.confFiles.length =
          h.reading.config.confFiles.length + 1 := by
        simp [History.after, hfiles]
      rw [horigins] at ho
      rw [hcount]
      by_cases hi : i < h.reading.config.confList.length
      · rw [List.getElem?_append_left hi] at hd'
        rw [List.getElem?_append_left (by omega)] at ho
        obtain ⟨h₁, h₂, h₃⟩ := ht.refers i d o hd' ho
        exact ⟨h₁, h₂, by omega⟩
      · -- the directive is one of the new file
        rw [List.getElem?_append_right (by omega)] at hd' ho
        have hmem : d ∈ ds := List.mem_of_getElem? hd'
        obtain rfl := (List.mem_replicate.mp (List.mem_of_getElem? ho)).2
        exact ⟨(hfile d hmem).trans (fileName_eq _), by simp only; omega, by simp⟩

theorem readIncludedFiles_tracked {included : List Bytes} {h h' : History} (ht : Tracked h)
    (hr : readIncludedFiles fs answers included h = .ok h') : Tracked h' := by
  induction included generalizing h with
  | nil =>
      cases hr
      exact ht
  | cons filename rest ih =>
      rw [readIncludedFiles] at hr
      split at hr
      · cases hr
      · rename_i hfile
        exact ih (ht.step hfile) hr

/-- `filename` is what the name of the file is where its node is the start. -/
def RefersTo (d : Directive) (o : Origin) : Prop :=
  ∀ offset next prev, listDataName (fileMemory o.file offset next prev) listNodeOffset =
    some d.filenameWord

/-- Every directive refers to the file it was parsed from. -/
def Attributed (h : History) : Prop :=
  ∀ (i : Nat) (d : Directive) (o : Origin), h.reading.config.confList[i]? = some d →
    h.origins[i]? = some o → RefersTo d o

/-- No directive ever refers to its file. It refers to the directive that was the last one
when its file was parsed, or to nothing if there was none. -/
theorem directives_misattributed (fs : FileSystem) (answers : PoolAnswers) (filename : Bytes)
    (included : List Bytes) (r : Reading) {h : History}
    (hr : readFiles fs answers filename included r = .ok h) :
    h.origins.length = h.reading.config.confList.length ∧
    ∀ (i : Nat) (d : Directive) (o : Origin), h.reading.config.confList[i]? = some d →
      h.origins[i]? = some o → o.file < h.reading.config.confFiles.length ∧
        d.filenameWord = .directiveNode (lastNode o.first) ∧ ¬ RefersTo d o := by
  have ht : Tracked h := by
    unfold readFiles at hr
    split at hr
    · cases hr
    · rename_i hmain
      exact readIncludedFiles_tracked ((tracked_empty r).step hmain) hr
  refine ⟨ht.length_eq, fun i d o hd ho => ?_⟩
  obtain ⟨hname, -, hlt⟩ := ht.refers i d o hd ho
  refine ⟨hlt, congrArg Word.directiveNode hname, fun href => ?_⟩
  have heq := href 0 none none
  rw [listDataName_file] at heq
  cases heq

def twoFilesFs : FileSystem :=
  listedFs [(ascii "/a", ascii "include /b\n"), (ascii "/b", ascii "listen 80\n")] [] []

/-- The directive of the included file refers to the `include` directive. -/
theorem directives_misattributed_include :
    ∃ h d, readFiles twoFilesFs plenty (ascii "/a") [ascii "/b"] Reading.empty = .ok h ∧
      h.reading.config.confList[1]? = some d ∧ d.name = ascii "listen" ∧
      d.filenameWord = .directiveNode (some 0) := by
  obtain ⟨h, hr, hlist, horigin⟩ : ∃ h,
      readFiles twoFilesFs plenty (ascii "/a") [ascii "/b"] Reading.empty = .ok h ∧
      (∃ d, h.reading.config.confList[1]? = some d ∧ d.name = ascii "listen") ∧
      h.origins[1]? = some ⟨1, 1⟩ := by
    refine ⟨_, rfl, ⟨_, rfl, rfl⟩, rfl⟩
  obtain ⟨d, hd, hname⟩ := hlist
  obtain ⟨-, hrefers⟩ := directives_misattributed twoFilesFs plenty (ascii "/a") [ascii "/b"]
    Reading.empty hr
  exact ⟨h, d, hr, hd, hname, (hrefers 1 d _ hd horigin).2.1⟩

/-- One file with one directive, which has no file name. -/
theorem directive_without_file :
    ∃ h, readFiles (listedFs [(ascii "/b", ascii "listen 80\n")] [] []) plenty (ascii "/b") []
        Reading.empty = .ok h ∧ ¬ Attributed h := by
  refine ⟨_, rfl, fun hall => ?_⟩
  have href := hall 0 _ _ rfl rfl 0 none none
  exact absurd href (by decide)

end Floppix.Configuration
