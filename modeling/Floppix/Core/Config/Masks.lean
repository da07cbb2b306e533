import Floppix.Core.Config.Handlers
import Floppix.Core.Config.WholeFile

/-! # Including a mask

A file that is included by its name reports its failure. The loop over the matches of
a mask forgets the status of every match, so nothing that fails in it is reported.
-/

namespace Floppix.Configuration

variable {fs : FileSystem} {answers : PoolAnswers} {H C σ : Type}

/-! ## Matches that fail -/

/-- The walk that `fpx_config_walkdir_nonwildcard` is written for: the status of `fpx_dir_open`
is compared with `FPX_OK`. -/
def walkTree (fs : FileSystem) (answers : PoolAnswers) :
    Nat → Bytes → Reading → Outcome (Err × Reading)
  | 0, _, _ => .error .fuel
  | depth + 1, path, r =>
      let (err, entries, r) := dirOpen fs path r
      if err ≠ Err.ok then .ok (err, r)
      else walkEntries fs answers (walkTree fs answers depth) path entries r

/-- The path can be opened, read and parsed as a file, or walked as a directory. A file also needs
the memory for its structure, the node of its cleanup and its buffer. -/
def Includable (fs : FileSystem) (answers : PoolAnswers) (type : FileType) (path : Bytes)
    (r : Reading) : Prop :=
  if type = .file then
    answers r.used = none ∧ fs.openFile path = none ∧ answers (r.used + 1) = none ∧
      (∃ n, fs.size path = .ok n) ∧ answers (r.used + 2) = none ∧
      ∃ bytes, fs.read path = .ok bytes ∧ Readable answers (cString bytes) (r.used + 3)
  else ∃ depth r', walkTree fs answers depth path r = .ok (Err.ok, r')

/-- One of the matches cannot be included in its turn. -/
def SomeMatchFails (fs : FileSystem) (answers : PoolAnswers) (depth : Nat) :
    List Bytes → FileType → Reading → Prop
  | [], _, _ => False
  | fullpath :: rest, type, r =>
      if fullpath = ascii "." ∨ fullpath = ascii ".." then
        SomeMatchFails fs answers depth rest type r
      else
        ¬ Includable fs answers (fileInfoByPath fs fullpath type) fullpath r ∨
          ∃ err r', readMatch fs answers depth (fileInfoByPath fs fullpath type) fullpath r =
            .ok (err, r') ∧
            SomeMatchFails fs answers depth rest (fileInfoByPath fs fullpath type) r'

/-- The mask has matches, and one of them cannot be included in its turn. -/
def MaskFails (fs : FileSystem) (answers : PoolAnswers) (depth : Nat) (path : Bytes) (r : Reading) :
    Prop :=
  ∃ found, fs.glob path = .ok found ∧ SomeMatchFails fs answers depth found fs.junkType r

/-- A file is included with `FPX_OK` exactly when nothing about it fails. -/
theorem readIncludedFile_succeeds_iff {path : Bytes} {r : Reading} :
    (∃ r', readIncludedFile fs answers path r = .ok (Err.ok, r')) ↔
      Includable fs answers .file path r := by
  unfold Includable
  rw [if_pos rfl]
  constructor
  · rintro ⟨r', h⟩
    cases hbuffer : fileBuffer fs answers path r with
    | error halt =>
        rw [readIncludedFile, hbuffer] at h
        cases h
    | ok reached =>
        cases reached with
        | error failed =>
            obtain ⟨err, r₀⟩ := failed
            rw [readIncludedFile_error hbuffer] at h
            cases h
            exact absurd rfl (fileBuffer_error hbuffer).1
        | ok given =>
            rw [readIncludedFile_ok hbuffer] at h
            obtain ⟨hfile, hopen, hnode, hsize, hbuf, ⟨bytes, hread, heq⟩, hr⟩ :=
              fileBuffer_ok hbuffer
            refine ⟨hfile, hopen, hnode, hsize, hbuf, bytes, hread, ?_⟩
            by_contra hreads
            obtain ⟨err, r'', hp, herr⟩ := (parseFile_reads answers bytes given.2).2
              (by rw [hr]; exact hreads)
            rw [heq, hp] at h
            cases h
            exact herr rfl
  · rintro ⟨hfile, hopen, hnode, ⟨n, hsize⟩, hbuf, bytes, hread, hreads⟩
    rw [readIncludedFile_ok (fileBuffer_granted hfile hopen hnode hsize hbuf hread)]
    exact (parseFile_reads answers bytes _).1 hreads

theorem path_reports (fs : FileSystem) (answers : PoolAnswers) (depth : Nat) {path : Bytes}
    (r : Reading) (habs : checkAbsolutePath path = Err.ok) (hplain : isPathHasWildcard path = false)
    (hfile : fileInfoByPath fs path fs.junkType = .file) :
    (∃ r', readIncluded fs answers depth path r = .ok (Err.ok, r')) ↔
      Includable fs answers .file path r := by
  rw [← readIncludedFile_succeeds_iff]
  simp [readIncluded, readMatch, habs, hplain, hfile]

/-! ## Masks -/

/-- A mask is included with `FPX_OK` or not at all. -/
theorem readIncluded_mask {depth : Nat} {path : Bytes} {r r' : Reading} {err : Err}
    (habs : checkAbsolutePath path = Err.ok) (hwild : isPathHasWildcard path = true)
    (h : readIncluded fs answers depth path r = .ok (err, r')) : err = Err.ok := by
  simp only [readIncluded, habs, hwild, ne_eq, not_true, if_false, Bool.not_true,
    Bool.false_eq_true, walkdirWildcard] at h
  split at h
  · cases h
  · exact walkMatches_ok h

/-- A mask reports the failures of its matches exactly when its path is relative or there are
none, and so does the processing of an include directive with the mask. -/
theorem mask_reports_iff (fs : FileSystem) (answers : PoolAnswers) (depth : Nat)
    {path : Bytes} (hwild : isPathHasWildcard path = true) :
    (∀ r, (MaskFails fs answers (depth + 1) path r →
        ∃ err r', readIncluded fs answers (depth + 1) path r = .ok (err, r') ∧ err ≠ Err.ok) ↔
      checkAbsolutePath path ≠ Err.ok ∨ ¬ MaskFails fs answers (depth + 1) path r) ∧
    (∀ (others : Others H C σ) (d : Directive) (w : World (Handler H) C σ),
      IncludeIsCore w.modules → d.key = (ascii "include", [path]) →
      ((MaskFails fs answers (depth + 1) path w.reading →
          ∃ err w', processDirective (coreHandlers fs answers (depth + 1) others) d w =
            .ok (err, w') ∧ err ≠ Err.ok) ↔
        checkAbsolutePath path ≠ Err.ok ∨ ¬ MaskFails fs answers (depth + 1) path w.reading)) := by
  have hread (r : Reading) :
      (∃ err r', readIncluded fs answers (depth + 1) path r = .ok (err, r') ∧ err ≠ Err.ok) ↔
        checkAbsolutePath path ≠ Err.ok := by
    constructor
    · rintro ⟨err, r', h, hne⟩ habs
      exact hne (readIncluded_mask habs hwild h)
    · intro habs
      exact ⟨_, r, if_pos habs, habs⟩
  constructor
  · intro r
    rw [hread r]
    tauto
  · intro others d w h hd
    have hargv : d.argv = [path] := congrArg Prod.snd hd
    have hargc : d.argc = 1 := by rw [d.argc_eq, hargv]; rfl
    have hprocess : (∃ err w', processDirective (coreHandlers fs answers (depth + 1) others) d w =
        .ok (err, w') ∧ err ≠ Err.ok) ↔ checkAbsolutePath path ≠ Err.ok := by
      rw [← hread w.reading,
        (include_handled fs answers (depth + 1) others h (congrArg Prod.fst hd) hargc).1]
      simp only [handlerInclude, hargv]
      cases readIncluded fs answers (depth + 1) path w.reading with
      | error halt => simp
      | ok out =>
          obtain ⟨err, reading⟩ := out
          simp
    rw [hprocess]
    tauto

def maskFs : FileSystem :=
  listedFs [(ascii "/d/b.conf", ascii "listen a#b\n")] [] [(ascii "/d/*", [ascii "/d/b.conf"])]

theorem maskFs_fails : MaskFails maskFs plenty 1 (ascii "/d/*") Reading.empty := by
  refine ⟨_, rfl, Or.inl ?_⟩
  show ¬ Includable maskFs plenty .file (ascii "/d/b.conf") Reading.empty
  rw [← readIncludedFile_succeeds_iff]
  rintro ⟨r', h⟩
  have hstatus : ∃ r₀, readIncludedFile maskFs plenty (ascii "/d/b.conf") Reading.empty =
      .ok (Err.configSyntax, r₀) := ⟨_, rfl⟩
  obtain ⟨r₀, h₀⟩ := hstatus
  rw [h₀] at h
  exact Err.configSyntax_ne_ok (Prod.ext_iff.mp (Except.ok.inj h)).1

theorem mask_reports_iff_broken :
    ¬ (MaskFails maskFs plenty 1 (ascii "/d/*") Reading.empty → ∃ err r',
      readIncluded maskFs plenty 1 (ascii "/d/*") Reading.empty = .ok (err, r') ∧ err ≠ Err.ok) := by
  have hiff := (@mask_reports_iff CoreHandler Unit Unit maskFs plenty 0 (ascii "/d/*")
    (by decide)).1 Reading.empty
  rw [hiff]
  exact fun h => h.elim (fun hrelative => hrelative (by decide)) fun hno => hno maskFs_fails

/-- The file is not in the configuration, and the server processes the rest. -/
theorem mask_hides_syntax_error :
    MaskFails maskFs plenty 1 (ascii "/d/*") Reading.empty ∧
      maskFs.glob (ascii "/d/*") = .ok [ascii "/d/b.conf"] ∧
      (∃ r', readIncluded maskFs plenty 1 (ascii "/d/*") Reading.empty = .ok (Err.ok, r')) ∧
      ∃ w', configProcess (coreHandlers maskFs plenty 1 quietOthers) 2
        (startWorld [includeDirective (ascii "/d/*")]) = .ok (Err.ok, w') :=
  ⟨maskFs_fails, rfl, ⟨_, rfl⟩, ⟨_, rfl⟩⟩

end Floppix.Configuration
