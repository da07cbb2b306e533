import Floppix.Core.Config.Attribution
import Floppix.System.FileIo
import Mathlib.Data.List.TakeWhile

/-! # Files that one call reads

`fpx_config_read` and `fpx_config_read_included_file` read a file with one `fpx_file_read`, and
this one with one `read`. What the call does not return is not in the buffer of the parser, and
neither is what is behind a zero byte in its string.
-/

namespace Floppix.Configuration

variable (fs : FileSystem) (answers : PoolAnswers)

/-! ## The buffer of the parser -/

def cString (buf : Bytes) : Bytes := buf.takeWhile fun c => c ≠ charNull

/-- The status is not `FPX_OK`, or the parser is given the whole content. -/
def ReadsWhole (answers : PoolAnswers) (read : Reading → Outcome (Err × Reading))
    (buffer : Reading → Outcome (Except (Err × Reading) (Bytes × Reading))) (content : Bytes)
    (r : Reading) : Prop :=
  ∃ err r', read r = .ok (err, r') ∧ (err ≠ Err.ok ∨
    ∃ buf r₀, buffer r = .ok (.ok (buf, r₀)) ∧ read r = parseFile answers buf r₀ ∧
      cString buf = content)

def opened (content : Bytes) : FileIo.OpenFile := ⟨content, 0, 0, []⟩

/-- `fpx_file_size` reports the length of the content, and `fpx_file_read` gets these answers. -/
structure Holds (filename content : Bytes) (lseek : Option Errno) (answer : Except Errno Nat) :
    Prop where
  size : ∀ n, fs.size filename = .ok n → n = content.length
  read : fs.read filename = (FileIo.fileRead lseek answer content.length 0 (opened content)).1

/-- The file is not opened. Or it is, and there is a node for its cleanup; and then something
fails in front of the parser, or the call returns all of a content without a zero byte, or the
parser refuses the string that is there. -/
def WholeOrRefused (filename content : Bytes) (lseek : Option Errno) (answer : Except Errno Nat)
    (used : Nat) : Prop :=
  answers used ≠ none ∨ fs.openFile filename ≠ none ∨
    (answers (used + 1) = none ∧
      ((∃ e, fs.size filename = .error e) ∨ answers (used + 2) ≠ none ∨ lseek ≠ none ∨
        (∃ e, answer = .error e) ∨
        ∃ n, answer = .ok n ∧ ((content.length ≤ n ∧ charNull ∉ content) ∨
          ¬ Readable answers (cString (content.take n)) (used + 3))))

variable {fs answers} {filename content buf : Bytes} {lseek : Option Errno}
  {answer : Except Errno Nat} {r : Reading}

/-! ## Strings -/

theorem cString_terminated (buf : Bytes) : cString (buf ++ [charNull]) = cString buf := by
  induction buf with
  | nil => rfl
  | cons c buf ih =>
      unfold cString at ih ⊢
      rw [List.cons_append, List.takeWhile_cons, List.takeWhile_cons, ih]

theorem null_not_mem_cString : charNull ∉ cString buf := by
  intro hmem
  have hne := List.mem_takeWhile_imp hmem
  exact absurd rfl (of_decide_eq_true hne)

theorem cString_split (h : charNull ∈ buf) : ∃ rest, buf = cString buf ++ charNull :: rest := by
  obtain ⟨text, rest, rfl, hnul⟩ := List.eq_append_cons_of_mem h
  have hall : ∀ c ∈ text, decide (c ≠ charNull) = true :=
    fun c hc => decide_eq_true fun heq => hnul (heq ▸ hc)
  refine ⟨rest, ?_⟩
  rw [cString, List.takeWhile_append_of_pos hall, List.takeWhile_cons_of_neg (by simp),
    List.append_nil]

theorem cString_take_eq_iff {n : Nat} :
    cString (content.take n) = content ↔ content.length ≤ n ∧ charNull ∉ content := by
  constructor
  · intro h
    have hle : (cString (content.take n)).length ≤ (content.take n).length :=
      (List.takeWhile_prefix _).length_le
    rw [h, List.length_take] at hle
    refine ⟨by omega, ?_⟩
    rw [← h]
    exact null_not_mem_cString
  · rintro ⟨hle, hnul⟩
    rw [List.take_of_length_le hle, cString, List.takeWhile_eq_self_iff]
    exact fun c hc => decide_eq_true fun heq => hnul (heq ▸ hc)

/-! ## One call -/

/-- The parser reads the string in its buffer to the end, or it returns another status. -/
theorem parseFile_reads (answers : PoolAnswers) (delivered : Bytes) (r : Reading) :
    (Readable answers (cString delivered) r.used →
      ∃ r', parseFile answers (delivered ++ [charNull]) r = .ok (Err.ok, r')) ∧
    (¬ Readable answers (cString delivered) r.used →
      ∃ err r', parseFile answers (delivered ++ [charNull]) r = .ok (err, r') ∧ err ≠ Err.ok) := by
  obtain ⟨rest, hsplit⟩ :=
    cString_split (List.mem_append_right delivered (List.mem_singleton_self _))
  rw [cString_terminated] at hsplit
  have hnul : charNull ∉ cString delivered := null_not_mem_cString
  obtain ⟨hgood, hbad⟩ := parse_reads answers r.config r.used rest hnul
  rw [← hsplit] at hgood hbad
  constructor
  · intro hreads
    obtain ⟨n, hp⟩ := hgood hreads
    exact ⟨_, by rw [parseFile, hp]⟩
  · intro hreads
    obtain ⟨err, config, n, hp, herr⟩ := hbad hreads
    exact ⟨err, _, by rw [parseFile, hp], herr.ne_ok⟩

/-- What the parser is given decides whether the file is read whole. -/
theorem readsWhole_of_buffer {delivered : Bytes} {r₀ : Reading}
    (h : fileBuffer fs answers filename r = .ok (.ok (delivered ++ [charNull], r₀))) :
    ReadsWhole answers (readIncludedFile fs answers filename) (fileBuffer fs answers filename)
        content r ↔
      cString delivered = content ∨ ¬ Readable answers (cString delivered) r₀.used := by
  have hparse : readIncludedFile fs answers filename r =
      parseFile answers (delivered ++ [charNull]) r₀ := readIncludedFile_ok h
  obtain ⟨hgood, hbad⟩ := parseFile_reads answers delivered r₀
  by_cases hreads : Readable answers (cString delivered) r₀.used
  · obtain ⟨r₁, hp⟩ := hgood hreads
    have hok := hparse.trans hp
    constructor
    · rintro ⟨err, r', hrun, hne | ⟨buf, r₂, hbuf, -, hwhole⟩⟩
      · rw [hok] at hrun
        cases hrun
        exact absurd rfl hne
      · rw [h] at hbuf
        cases hbuf
        rw [cString_terminated] at hwhole
        exact Or.inl hwhole
    · rintro (hwhole | hnot)
      · rw [← cString_terminated] at hwhole
        exact ⟨_, _, hok, Or.inr ⟨_, _, h, hparse, hwhole⟩⟩
      · exact absurd hreads hnot
  · obtain ⟨err, r', hp, herr⟩ := hbad hreads
    exact iff_of_true ⟨err, r', hparse.trans hp, Or.inl herr⟩ (Or.inr hreads)

theorem fileRead_opened (n : Nat) :
    (FileIo.fileRead none (.ok n) content.length 0 (opened content)).1 = .ok (content.take n) := by
  show Except.ok (((content.drop 0).take content.length).take n) = _
  rw [List.drop_zero, List.take_length]

theorem readIncludedFile_readsWhole_iff (h : Holds fs filename content lseek answer) :
    ReadsWhole answers (readIncludedFile fs answers filename) (fileBuffer fs answers filename)
        content r ↔
      WholeOrRefused fs answers filename content lseek answer r.used := by
  unfold WholeOrRefused
  have hread := h.read
  cases hbuffer : fileBuffer fs answers filename r with
  | error halt =>
      obtain ⟨hfile, hopen, hnode⟩ := fileBuffer_halt_iff.mp ⟨halt, hbuffer⟩
      refine iff_of_false ?_ (by simp [hfile, hopen, hnode])
      rintro ⟨err, r', hrun, -⟩
      rw [readIncludedFile, hbuffer] at hrun
      cases hrun
  | ok reached =>
      cases reached with
      | error failed =>
          obtain ⟨err, r'⟩ := failed
          obtain ⟨hne, -, hwhy⟩ := fileBuffer_error hbuffer
          apply iff_of_true ⟨err, r', readIncludedFile_error hbuffer, Or.inl hne⟩
          obtain hfile | hopen | ⟨hnode, hsize | hbuf | ⟨e, hfails⟩⟩ := hwhy
          · exact Or.inl hfile
          · exact Or.inr (Or.inl hopen)
          · exact Or.inr (Or.inr ⟨hnode, Or.inl hsize⟩)
          · exact Or.inr (Or.inr ⟨hnode, Or.inr (Or.inl hbuf)⟩)
          · rw [hfails] at hread
            refine Or.inr (Or.inr ⟨hnode, Or.inr (Or.inr ?_)⟩)
            cases lseek with
            | some e => simp
            | none =>
                cases answer with
                | error e => simp
                | ok n => cases hread
      | ok given =>
          obtain ⟨buf, r₀⟩ := given
          obtain ⟨hfile, hopen, hnode, ⟨size, hsize⟩, hbuf, ⟨bytes, hbytes, rfl⟩, rfl⟩ :=
            fileBuffer_ok hbuffer
          rw [hbytes] at hread
          cases lseek with
          | some e => cases hread
          | none =>
              cases answer with
              | error e => cases hread
              | ok n =>
                  rw [fileRead_opened] at hread
                  cases hread
                  rw [readsWhole_of_buffer hbuffer, cString_take_eq_iff]
                  simp [hfile, hopen, hnode, hsize, hbuf]

/-! ## Both functions -/

/-- `fpx_config_read` does with empty lists what the other function does. -/
theorem configRead_readsWhole_iff :
    ReadsWhole answers (configRead fs answers filename)
        (fun r => fileBuffer fs answers filename { r with config := Config.empty }) content r ↔
      ReadsWhole answers (readIncludedFile fs answers filename) (fileBuffer fs answers filename)
        content { r with config := Config.empty } :=
  Iff.rfl

/-- Both functions parse the whole content or fail exactly if the file is not opened, or there is
a node for its cleanup and something else in front of the parser fails, or the one `read` returns
the whole content and there is no zero byte in it, or the parser refuses the part that it is
given. -/
theorem config_readsWhole_iff (fs : FileSystem) (answers : PoolAnswers) (filename content : Bytes)
    (lseek : Option Errno) (answer : Except Errno Nat) (r : Reading)
    (h : Holds fs filename content lseek answer) :
    (ReadsWhole answers (readIncludedFile fs answers filename) (fileBuffer fs answers filename)
        content r ↔
      WholeOrRefused fs answers filename content lseek answer r.used) ∧
    (ReadsWhole answers (configRead fs answers filename)
        (fun r => fileBuffer fs answers filename { r with config := Config.empty }) content r ↔
      WholeOrRefused fs answers filename content lseek answer r.used) :=
  ⟨readIncludedFile_readsWhole_iff h,
    configRead_readsWhole_iff.trans (readIncludedFile_readsWhole_iff h)⟩

def partFs (filename content : Bytes) (n : Nat) : FileSystem :=
  { listedFs [(filename, content)] [] [] with read := fun _ => .ok (content.take n) }

theorem holds_partFs (filename content : Bytes) (n : Nat) :
    Holds (partFs filename content n) filename content none (.ok n) where
  size size h := by
    simp only [partFs, listedFs, List.lookup_cons_self, Option.map_some, Option.elim_some,
      Except.ok.injEq] at h
    exact h.symm
  read := (fileRead_opened n).symm

def twoLines : Bytes := ascii "listen 80\nuser a\n"

/-- A `read` that returns all of two lines. -/
theorem config_readsWhole_lines :
    (ReadsWhole plenty (readIncludedFile (partFs (ascii "/f") twoLines 17) plenty (ascii "/f"))
        (fileBuffer (partFs (ascii "/f") twoLines 17) plenty (ascii "/f")) twoLines Reading.empty ↔
      WholeOrRefused (partFs (ascii "/f") twoLines 17) plenty (ascii "/f") twoLines none (.ok 17)
        Reading.empty.used) ∧
    (ReadsWhole plenty (configRead (partFs (ascii "/f") twoLines 17) plenty (ascii "/f"))
        (fun r => fileBuffer (partFs (ascii "/f") twoLines 17) plenty (ascii "/f")
          { r with config := Config.empty }) twoLines Reading.empty ↔
      WholeOrRefused (partFs (ascii "/f") twoLines 17) plenty (ascii "/f") twoLines none (.ok 17)
        Reading.empty.used) :=
  config_readsWhole_iff (partFs (ascii "/f") twoLines 17) plenty (ascii "/f") twoLines none (.ok 17)
    Reading.empty (holds_partFs _ _ _)

def firstLineRead : Reading where
  config := ⟨[.of (ascii "listen") [ascii "80"] none 1], [ascii "/f"]⟩
  used := 7
  openedDirs := []
  closedDirs := []

theorem readIncludedFile_firstLine :
    readIncludedFile (partFs (ascii "/f") twoLines 10) plenty (ascii "/f") Reading.empty =
      .ok (Err.ok, firstLineRead) := by
  rfl

/-- A `read` that returns ten bytes of the two lines: the second line is gone, and the status of
both functions is `FPX_OK`. -/
theorem config_tail_lost :
    readIncludedFile (partFs (ascii "/f") twoLines 10) plenty (ascii "/f") Reading.empty =
        .ok (Err.ok, firstLineRead) ∧
      ¬ ReadsWhole plenty (readIncludedFile (partFs (ascii "/f") twoLines 10) plenty (ascii "/f"))
        (fileBuffer (partFs (ascii "/f") twoLines 10) plenty (ascii "/f")) twoLines Reading.empty ∧
      configRead (partFs (ascii "/f") twoLines 10) plenty (ascii "/f") Reading.empty =
        .ok (Err.ok, firstLineRead) ∧
      ¬ ReadsWhole plenty (configRead (partFs (ascii "/f") twoLines 10) plenty (ascii "/f"))
        (fun r => fileBuffer (partFs (ascii "/f") twoLines 10) plenty (ascii "/f")
          { r with config := Config.empty }) twoLines Reading.empty := by
  have hnot : ¬ ReadsWhole plenty
      (readIncludedFile (partFs (ascii "/f") twoLines 10) plenty (ascii "/f"))
      (fileBuffer (partFs (ascii "/f") twoLines 10) plenty (ascii "/f")) twoLines
      Reading.empty := by
    rintro ⟨err, r', hrun, hne | ⟨buf, r₀, hbuf, -, hwhole⟩⟩
    · rw [readIncludedFile_firstLine] at hrun
      cases hrun
      exact absurd rfl hne
    · cases hbuf
      exact absurd hwhole (by decide)
  exact ⟨readIncludedFile_firstLine, hnot, readIncludedFile_firstLine,
    mt configRead_readsWhole_iff.mp hnot⟩

end Floppix.Configuration
