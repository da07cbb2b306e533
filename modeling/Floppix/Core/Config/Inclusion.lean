import Floppix.Core.Config.Frame
import Mathlib.Data.List.Perm.Basic

/-! # What an include does

Every include function comes to an end with a status. A directory is opened and
nothing else: no file in it is read, and it is never closed. A mask reads its
matches in order and forgets their statuses.
-/

namespace Floppix.Configuration

variable {fs : FileSystem}

/-! ## In front of the parser -/

variable {answers : PoolAnswers} {filename buf : Bytes} {r r' : Reading} {err : Err}

theorem readIncludedFile_error (h : fileBuffer fs answers filename r = .ok (.error (err, r'))) :
    readIncludedFile fs answers filename r = .ok (err, r') := by
  rw [readIncludedFile, h]

theorem readIncludedFile_ok (h : fileBuffer fs answers filename r = .ok (.ok (buf, r'))) :
    readIncludedFile fs answers filename r = parseFile answers buf r' := by
  rw [readIncludedFile, h]

/-- The way to the buffer ends in a fault where the file is open and its cleanup node is
refused. -/
theorem fileBuffer_halt_iff : (∃ halt, fileBuffer fs answers filename r = .error halt) ↔
    answers r.used = none ∧ fs.openFile filename = none ∧ answers (r.used + 1) ≠ none := by
  unfold fileBuffer palloc
  dsimp only
  cases hfile : answers r.used with
  | some e => simp
  | none =>
      cases hopen : fs.openFile filename with
      | some e => simp
      | none =>
          cases hnode : answers (r.used + 1) with
          | some e => simp
          | none =>
              simp only [ne_eq, not_true, and_false, iff_false, not_exists]
              intro halt hhalt
              split at hhalt
              · cases hhalt
              · split at hhalt
                · cases hhalt
                · split at hhalt <;> cases hhalt

/-- A status in front of the parser is that of something that fails there, and the
configuration is as it was. -/
theorem fileBuffer_error (h : fileBuffer fs answers filename r = .ok (.error (err, r'))) :
    err ≠ Err.ok ∧ r'.config = r.config ∧
      (answers r.used ≠ none ∨ fs.openFile filename ≠ none ∨ (answers (r.used + 1) = none ∧
        ((∃ e, fs.size filename = .error e) ∨ answers (r.used + 2) ≠ none ∨
          ∃ e, fs.read filename = .error e))) := by
  unfold fileBuffer palloc at h
  dsimp only at h
  split at h
  · rename_i e hfile
    cases h
    exact ⟨e.code_ne_ok, rfl, Or.inl (by rw [hfile]; exact Option.some_ne_none e)⟩
  · split at h
    · rename_i e hopen
      cases h
      exact ⟨e.code_ne_ok, rfl, Or.inr (Or.inl (by rw [hopen]; exact Option.some_ne_none e))⟩
    · split at h
      · cases h
      · rename_i hnode
        split at h
        · rename_i e hsize
          cases h
          exact ⟨e.code_ne_ok, rfl, Or.inr (Or.inr ⟨hnode, Or.inl ⟨e, hsize⟩⟩)⟩
        · split at h
          · rename_i e hbuf
            cases h
            refine ⟨e.code_ne_ok, rfl, Or.inr (Or.inr ⟨hnode, Or.inr (Or.inl ?_)⟩)⟩
            exact fun hnone => absurd (hbuf.symm.trans hnone) (Option.some_ne_none e)
          · split at h
            · rename_i e hread
              cases h
              exact ⟨e.code_ne_ok, rfl, Or.inr (Or.inr ⟨hnode, Or.inr (Or.inr ⟨e, hread⟩)⟩)⟩
            · cases h

/-- The parser is given what one `read` has returned, when everything in front of it is granted. -/
theorem fileBuffer_ok (h : fileBuffer fs answers filename r = .ok (.ok (buf, r'))) :
    answers r.used = none ∧ fs.openFile filename = none ∧ answers (r.used + 1) = none ∧
      (∃ n, fs.size filename = .ok n) ∧
      answers (r.used + 2) = none ∧ (∃ bytes, fs.read filename = .ok bytes ∧
        buf = bytes ++ [charNull]) ∧
      r' = { r with
        config := { r.config with confFiles := r.config.confFiles ++ [filename] }
        used := r.used + 3 } := by
  unfold fileBuffer palloc at h
  dsimp only at h
  split at h
  · cases h
  · rename_i hfile
    split at h
    · cases h
    · rename_i hopen
      split at h
      · cases h
      · rename_i hnode
        split at h
        · cases h
        · rename_i n hsize
          split at h
          · cases h
          · rename_i hbuf
            split at h
            · cases h
            · rename_i bytes hread
              cases h
              exact ⟨hfile, hopen, hnode, ⟨n, hsize⟩, hbuf, ⟨bytes, hread, rfl⟩, rfl⟩

theorem fileBuffer_granted {size : Nat} {bytes : Bytes} (hfile : answers r.used = none)
    (hopen : fs.openFile filename = none) (hnode : answers (r.used + 1) = none)
    (hsize : fs.size filename = .ok size) (hbuf : answers (r.used + 2) = none)
    (hread : fs.read filename = .ok bytes) :
    fileBuffer fs answers filename r = .ok (.ok (bytes ++ [charNull],
      { r with
        config := { r.config with confFiles := r.config.confFiles ++ [filename] }
        used := r.used + 3 })) := by
  simp [fileBuffer, palloc, hfile, hopen, hnode, hsize, hbuf, hread]

/-! ## Ends -/

theorem walkdirNonwildcard_eq (fs : FileSystem) (answers : PoolAnswers) (depth : Nat)
    (path : Bytes) (r : Reading) :
    walkdirNonwildcard fs answers (depth + 1) path r =
      .ok ((dirOpen fs path r).1, (dirOpen fs path r).2.2) := by
  have hne : (dirOpen fs path r).1 ≠ Err.done := by
    unfold dirOpen
    cases fs.opendir path with
    | error e => exact e.code_ne_done
    | ok entries => exact Int.noConfusion
  simp only [walkdirNonwildcard]
  exact if_pos hne

/-- The status of a mask is `FPX_OK`, whatever its matches return. -/
theorem walkMatches_ok {depth : Nat} {found : List Bytes} {type : FileType}
    (h : walkMatches fs answers depth found type r = .ok (err, r')) : err = Err.ok := by
  induction found generalizing type r with
  | nil =>
      cases h
      rfl
  | cons fullpath rest ih =>
      unfold walkMatches at h
      split at h
      · exact ih h
      · dsimp only at h
        split at h
        · cases h
        · exact ih h

def GlobFails (fs : FileSystem) (path : Bytes) : Prop :=
  checkAbsolutePath path = Err.ok ∧ isPathHasWildcard path = true ∧ ∃ e, fs.glob path = .error e

theorem readIncluded_globFails {path : Bytes} (h : GlobFails fs path) (answers : PoolAnswers)
    (depth : Nat) (r : Reading) :
    readIncluded fs answers depth path r = .error (.fault .uninit) := by
  obtain ⟨habs, hwild, e, hglob⟩ := h
  simp [readIncluded, habs, hwild, walkdirWildcard, globOpen, hglob]

/-- A file that is not parsed leaves the configuration as it is. One that is parsed is
pushed first, and its directives go behind those that are there. -/
theorem readIncludedFile_appends {answers : PoolAnswers} {filename : Bytes} {r r' : Reading}
    {err : Err} (h : readIncludedFile fs answers filename r = .ok (err, r')) :
    r'.config = r.config ∨ ∃ ds,
      r'.config =
        { r.config with confFiles := r.config.confFiles ++ [filename] }.append ds ∧
      ∀ d ∈ ds, d.filename = r.config.fileName := by
  cases hbuffer : fileBuffer fs answers filename r with
  | error halt =>
      rw [readIncludedFile, hbuffer] at h
      cases h
  | ok reached =>
      cases reached with
      | error failed =>
          rw [readIncludedFile_error hbuffer] at h
          cases h
          exact Or.inl (fileBuffer_error hbuffer).2.1
      | ok given =>
          obtain ⟨buf, r₀⟩ := given
          rw [readIncludedFile_ok hbuffer] at h
          obtain ⟨-, -, -, -, -, ⟨bytes, -, rfl⟩, rfl⟩ := fileBuffer_ok hbuffer
          unfold parseFile at h
          split at h
          · cases h
          · rename_i hparse
            cases h
            exact Or.inr (parse_appends (by simp) hparse)

theorem readIncludedFile_grows {answers : PoolAnswers} {filename : Bytes} {r r' : Reading}
    {err : Err} (h : readIncludedFile fs answers filename r = .ok (err, r')) :
    r.config.confList <+: r'.config.confList := by
  rcases readIncludedFile_appends h with hc | ⟨ds, hc, -⟩
  · rw [hc]
  · rw [hc]
    exact List.prefix_append ..

theorem readMatch_grows {answers : PoolAnswers} {depth : Nat} {type : FileType} {path : Bytes}
    {r r' : Reading} {err : Err}
    (h : readMatch fs answers (depth + 1) type path r = .ok (err, r')) :
    r.config.confList <+: r'.config.confList := by
  unfold readMatch at h
  split at h
  · exact readIncludedFile_grows h
  · rw [walkdirNonwildcard_eq] at h
    cases h
    unfold dirOpen
    split <;> exact List.prefix_rfl

theorem walkMatches_grows {answers : PoolAnswers} {depth : Nat} {found : List Bytes}
    {type : FileType} {r r' : Reading} {err : Err}
    (h : walkMatches fs answers (depth + 1) found type r = .ok (err, r')) :
    r.config.confList <+: r'.config.confList := by
  induction found generalizing type r with
  | nil =>
      cases h
      exact List.prefix_rfl
  | cons fullpath rest ih =>
      unfold walkMatches at h
      split at h
      · exact ih h
      · simp only at h
        split at h
        · cases h
        · rename_i hm
          exact (readMatch_grows hm).trans (ih h)

theorem readIncluded_grows {answers : PoolAnswers} {depth : Nat} {path : Bytes} {r r' : Reading}
    {err : Err} (h : readIncluded fs answers (depth + 1) path r = .ok (err, r')) :
    r.config.confList <+: r'.config.confList := by
  unfold readIncluded at h
  split_ifs at h
  · cases h
    exact List.prefix_rfl
  · exact readMatch_grows h
  · unfold walkdirWildcard at h
    split at h
    · cases h
    · exact walkMatches_grows h

/-! ## What is appended depends on the path alone -/

/-- A pool that never runs out. -/
def plenty : PoolAnswers := fun _ => none

def parsed (content : Bytes) : Except Fault (Err × List (Bytes × List Bytes)) :=
  (parse plenty Config.empty 0 (content ++ [charNull])).map fun r => (r.1, r.2.1.keys)

/-- The directive stands in some file. -/
def OnDisk (fs : FileSystem) (k : Bytes × List Bytes) : Prop :=
  ∃ path content err ks, fs.openFile path = none ∧ fs.read path = .ok content ∧
    parsed content = .ok (err, ks) ∧ k ∈ ks

/-- A reader of files that appends the same directives and returns the same status in
every configuration. -/
def Uniform (fs : FileSystem) (f : Reading → Outcome (Err × Reading)) : Prop :=
  ∃ err ks, (∀ k ∈ ks, OnDisk fs k) ∧
    ∀ r, ∃ r', f r = .ok (err, r') ∧ r'.config.keys = r.config.keys ++ ks

/-- A reader that returns without touching `conf_list`. -/
theorem Uniform.of_quiet {f : Reading → Outcome (Err × Reading)} (err : Err)
    (h : ∀ r, ∃ r', f r = .ok (err, r') ∧ r'.config = r.config) : Uniform fs f := by
  refine ⟨err, [], by simp, fun r => ?_⟩
  obtain ⟨r', hr, hc⟩ := h r
  exact ⟨r', hr, by rw [hc, List.append_nil]⟩

theorem parsed_eq {content : Bytes} {err : Err} {ks : List (Bytes × List Bytes)}
    (h : ∀ config used, ∃ config' n,
      parse plenty config used (content ++ [charNull]) = .ok (err, config', n) ∧
        config.Extends config' ks) : parsed content = .ok (err, ks) := by
  obtain ⟨config', n, hp, hext⟩ := h Config.empty 0
  have hks : config'.keys = ks := hext.1
  simp only [parsed, hp, Except.map, hks]

theorem uniform_readIncludedFile (fs : FileSystem) (filename : Bytes) :
    Uniform fs (readIncludedFile fs plenty filename) := by
  cases ho : fs.openFile filename with
  | some e =>
      exact .of_quiet e.code fun r => ⟨{ r with used := r.used + 1 },
        by simp [readIncludedFile, fileBuffer, palloc, plenty, ho], rfl⟩
  | none =>
      cases hs : fs.size filename with
      | error e =>
          exact .of_quiet e.code fun r => ⟨{ r with used := r.used + 1 + 1 },
            by simp [readIncludedFile, fileBuffer, palloc, plenty, ho, hs], rfl⟩
      | ok n =>
          cases hr : fs.read filename with
          | error e =>
              exact .of_quiet e.code fun r => ⟨{ r with used := r.used + 1 + 1 + 1 },
                by simp [readIncludedFile, fileBuffer, palloc, plenty, ho, hs, hr], rfl⟩
          | ok bytes =>
              obtain ⟨err, ks, hp⟩ := parse_frame (show ∀ k, plenty k = none from fun _ => rfl)
                (show charNull ∈ bytes ++ [charNull] by simp)
              refine ⟨err, ks, fun k hk => ⟨filename, bytes, err, ks, ho, hr, parsed_eq hp, hk⟩,
                fun r => ?_⟩
              obtain ⟨config', n', hpr, hext⟩ := hp
                { r.config with confFiles := r.config.confFiles ++ [filename] } (r.used + 3)
              refine ⟨⟨config', n', r.openedDirs, r.closedDirs⟩, ?_, hext.1⟩
              rw [readIncludedFile_ok (fileBuffer_granted rfl ho rfl hs rfl hr), parseFile, hpr]

theorem uniform_readMatch (fs : FileSystem) (depth : Nat) (type : FileType) (path : Bytes) :
    Uniform fs (readMatch fs plenty (depth + 1) type path) := by
  by_cases ht : type = .file
  · obtain ⟨err, ks, hks, h⟩ := uniform_readIncludedFile fs path
    exact ⟨err, ks, hks, fun r => by simpa only [readMatch, ht, if_true] using h r⟩
  · cases hd : fs.opendir path with
    | error e =>
        exact .of_quiet e.code fun r =>
          ⟨r, by simp [readMatch, ht, walkdirNonwildcard_eq, dirOpen, hd], rfl⟩
    | ok entries =>
        exact .of_quiet Err.ok fun r => ⟨{ r with openedDirs := r.openedDirs ++ [path] },
          by simp [readMatch, ht, walkdirNonwildcard_eq, dirOpen, hd], rfl⟩

theorem uniform_walkMatches (fs : FileSystem) (depth : Nat) (found : List Bytes)
    (type : FileType) : Uniform fs (walkMatches fs plenty (depth + 1) found type) := by
  induction found generalizing type with
  | nil => exact .of_quiet Err.ok fun r => ⟨r, rfl, rfl⟩
  | cons fullpath rest ih =>
      by_cases hdot : fullpath = ascii "." ∨ fullpath = ascii ".."
      · obtain ⟨err, ks, hks, h⟩ := ih type
        exact ⟨err, ks, hks, fun r => by simpa only [walkMatches, hdot, if_true] using h r⟩
      · obtain ⟨err, ks, hks, hm⟩ := uniform_readMatch fs depth
          (fileInfoByPath fs fullpath type) fullpath
        obtain ⟨err', ks', hks', hrest⟩ := ih (fileInfoByPath fs fullpath type)
        refine ⟨err', ks ++ ks', List.forall_mem_append.mpr ⟨hks, hks'⟩, fun r => ?_⟩
        obtain ⟨r₁, h₁, hk₁⟩ := hm r
        obtain ⟨r₂, h₂, hk₂⟩ := hrest r₁
        refine ⟨r₂, ?_, by rw [hk₂, hk₁, List.append_assoc]⟩
        simp only [walkMatches, hdot, if_false, h₁, h₂]

theorem uniform_readIncluded {fs : FileSystem} {path : Bytes} (depth : Nat)
    (hglob : ¬ GlobFails fs path) : Uniform fs (readIncluded fs plenty (depth + 1) path) := by
  by_cases habs : checkAbsolutePath path = Err.ok
  · cases hw : isPathHasWildcard path with
    | false =>
        obtain ⟨err, ks, hks, h⟩ := uniform_readMatch fs depth
          (fileInfoByPath fs path fs.junkType) path
        exact ⟨err, ks, hks, fun r => by simpa [readIncluded, habs, hw] using h r⟩
    | true =>
        cases hg : fs.glob path with
        | error err => exact absurd ⟨habs, hw, err, hg⟩ hglob
        | ok found =>
            obtain ⟨err, ks, hks, h⟩ := uniform_walkMatches fs depth found fs.junkType
            exact ⟨err, ks, hks, fun r => by
              simpa [readIncluded, habs, hw, walkdirWildcard, globOpen, hg] using h r⟩
  · exact .of_quiet (checkAbsolutePath path) fun r => ⟨r, by simp [readIncluded, habs], rfl⟩

def Reading.empty : Reading := ⟨Config.empty, 0, [], []⟩

def included (fs : FileSystem) (depth : Nat) (path : Bytes) : Err × List (Bytes × List Bytes) :=
  match readIncluded fs plenty depth path Reading.empty with
  | .ok (err, r) => (err, r.config.keys)
  | .error _ => (Err.failed, [])

theorem included_globFails {path : Bytes} (h : GlobFails fs path) (depth : Nat) :
    included fs depth path = (Err.failed, []) := by
  rw [included, readIncluded_globFails h]

theorem included_spec {fs : FileSystem} {path : Bytes} (depth : Nat) (h : ¬ GlobFails fs path) :
    (∀ k ∈ (included fs (depth + 1) path).2, OnDisk fs k) ∧
    ∀ r, ∃ r', readIncluded fs plenty (depth + 1) path r =
        .ok ((included fs (depth + 1) path).1, r') ∧
      r'.config.keys = r.config.keys ++ (included fs (depth + 1) path).2 := by
  obtain ⟨err, ks, hks, h⟩ := uniform_readIncluded depth h
  obtain ⟨r₀, h₀, hk₀⟩ := h Reading.empty
  have hinc : included fs (depth + 1) path = (err, ks) := by
    simp only [included, h₀, hk₀, Prod.mk.injEq, true_and]
    rfl
  rw [hinc]
  exact ⟨hks, h⟩

theorem included_onDisk {path : Bytes} {depth : Nat} {k : Bytes × List Bytes}
    (hk : k ∈ (included fs (depth + 1) path).2) : OnDisk fs k := by
  by_cases hglob : GlobFails fs path
  · rw [included_globFails hglob] at hk
    cases hk
  · exact (included_spec depth hglob).1 k hk

/-! ## Directories -/

inductive Tree where
  | file (content : Bytes)
  | dir (entries : List (Bytes × Tree))

def Tree.type : Tree → FileType
  | .file _ => .file
  | .dir _ => .dir

mutual

def Tree.files (path : Bytes) : Tree → List (Bytes × Bytes)
  | .file content => [(path, content)]
  | .dir entries => Tree.entryFiles path entries

def Tree.entryFiles (path : Bytes) : List (Bytes × Tree) → List (Bytes × Bytes)
  | [] => []
  | entry :: rest => Tree.files (fileFullPath path entry.1) entry.2 ++ Tree.entryFiles path rest

end

inductive Serves (fs : FileSystem) : Bytes → Tree → Prop where
  | file {path content : Bytes} : fs.stat path = .ok .file → fs.openFile path = none →
      fs.size path = .ok content.length → fs.read path = .ok content →
      Serves fs path (.file content)
  | dir {path : Bytes} {entries : List (Bytes × Tree)} {listing : List Dirent} :
      fs.stat path = .ok .dir → fs.opendir path = .ok listing →
      listing.filter (fun e => e.name ≠ ascii "." ∧ e.name ≠ ascii "..") =
        entries.map (fun e => ⟨e.1, e.2.type⟩) →
      (∀ e ∈ entries, Serves fs (fileFullPath path e.1) e.2) → Serves fs path (.dir entries)

structure Complete (files : List (Bytes × Bytes)) (r : Reading) (err : Err) (r' : Reading) :
    Prop where
  /-- every file has been read and parsed once -/
  once : err = Err.ok → r'.config.confFiles.Perm (r.config.confFiles ++ files.map Prod.fst)
  /-- and its directives are in the configuration -/
  directives : err = Err.ok → ∀ f ∈ files, ∀ e ks, parsed f.2 = .ok (e, ks) →
    ∀ k ∈ ks, k ∈ r'.config.keys
  /-- every directory opened on the way has been closed -/
  closed : err = Err.ok → ∃ opened closed, r'.openedDirs = r.openedDirs ++ opened ∧
    r'.closedDirs = r.closedDirs ++ closed ∧ opened.Perm closed
  /-- a file that does not parse makes the include fail -/
  fails : (∃ f ∈ files, ∀ ks, parsed f.2 ≠ .ok (Err.ok, ks)) → err ≠ Err.ok

/-- For no directory the include is complete: it succeeds with the configuration as it
was, and leaves the directory open. -/
theorem directory_include_incomplete (answers : PoolAnswers) (depth : Nat) {path : Bytes}
    {entries : List (Bytes × Tree)} (r : Reading) (habs : checkAbsolutePath path = Err.ok)
    (hplain : isPathHasWildcard path = false) (hs : Serves fs path (.dir entries)) :
    ∃ r', readIncluded fs answers (depth + 1) path r = .ok (Err.ok, r') ∧
      r'.config = r.config ∧
      ¬ Complete (Tree.files path (.dir entries)) r Err.ok r' := by
  obtain ⟨hstat, hopen⟩ : fs.stat path = .ok .dir ∧ ∃ listing, fs.opendir path = .ok listing := by
    cases hs with
    | dir hstat hopen _ _ => exact ⟨hstat, _, hopen⟩
  obtain ⟨listing, hopen⟩ := hopen
  refine ⟨{ r with openedDirs := r.openedDirs ++ [path] }, ?_, rfl, fun hc => ?_⟩
  · simp [readIncluded, habs, hplain, fileInfoByPath, hstat, readMatch, walkdirNonwildcard_eq,
      dirOpen, hopen]
  · obtain ⟨opened, closed, ho, hcl, hperm⟩ := hc.closed rfl
    have hopened : opened = [path] := List.append_cancel_left ho.symm
    have hclosed : closed = [] := by simpa using hcl
    subst hopened hclosed
    simpa using hperm.length_eq

def directoryFs : FileSystem :=
  listedFs [(ascii "/c/a", ascii "listen 80\n")]
    [(ascii "/c", [⟨ascii ".", .dir⟩, ⟨ascii "..", .dir⟩, ⟨ascii "a", .file⟩])] []

theorem serves_directory :
    Serves directoryFs (ascii "/c") (.dir [(ascii "a", .file (ascii "listen 80\n"))]) := by
  refine .dir rfl rfl (by decide) fun e he => ?_
  cases List.mem_singleton.mp he
  exact .file (by rfl) (by rfl) (by rfl) (by rfl)

theorem directory_include_incomplete_listen :
    ∃ r', readIncluded directoryFs plenty 1 (ascii "/c") Reading.empty = .ok (Err.ok, r') ∧
      r'.config = Config.empty ∧
      ¬ Complete (Tree.files (ascii "/c") (.dir [(ascii "a", .file (ascii "listen 80\n"))]))
        Reading.empty Err.ok r' :=
  directory_include_incomplete plenty 0 Reading.empty (by decide) (by decide) serves_directory

/-- The include of the directory succeeds, and its file is not among the files read. -/
theorem directory_file_skipped :
    readIncluded directoryFs plenty 1 (ascii "/c") Reading.empty =
        .ok (Err.ok, { Reading.empty with openedDirs := [ascii "/c"] }) ∧
      Serves directoryFs (ascii "/c") (.dir [(ascii "a", .file (ascii "listen 80\n"))]) ∧
      ¬ Complete (Tree.files (ascii "/c") (.dir [(ascii "a", .file (ascii "listen 80\n"))]))
        Reading.empty Err.ok { Reading.empty with openedDirs := [ascii "/c"] } := by
  refine ⟨by decide, serves_directory, fun h => ?_⟩
  have hlen := (h.once rfl).length_eq
  simp [Reading.empty, Config.empty, Tree.files, Tree.entryFiles] at hlen

end Floppix.Configuration
