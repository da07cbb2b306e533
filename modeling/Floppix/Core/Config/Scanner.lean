import Floppix.Core.Config.Lines

/-! # The scanner reads line by line

The flags of the loop describe how much of the current line has been read: the
words that are complete, the bytes of the word the cursor is in, and whether a
comment has started. One lemma takes the scanner over the text of a line, whatever the
pool answers, and the result for a buffer is an induction over its lines.
-/

namespace Floppix.Configuration

variable {answers : PoolAnswers} {filename : Option Nat}

/-! ## The switch -/

theorem isascii_iff (c : UInt8) : isascii c = true ↔ ¬ 0x80 ≤ c := by
  have hval : c.toInt8.toInt = if c.toNat < 128 then (c.toNat : Int) else c.toNat - 256 := by
    rw [Int8.toInt, UInt8.toBitVec_toInt8, BitVec.toInt_eq_toNat_cond]
    simp only [UInt8.toNat_toBitVec, Nat.reducePow]
    omega
  simp only [isascii, Bool.and_eq_true, decide_eq_true_eq]
  rw [UInt8.le_iff_toNat_le, UInt8.le_iff_toNat_le, Int8.le_iff_toInt_le, hval]
  simp
  split <;> omega

theorem scanChar_blank {c : UInt8} (cursor : Bytes) (st : Scan) (h : isBlank c = true) :
    scanChar cursor c st = some (st, ⟨st.begin.isSome, false, false⟩) := by
  have h0 : c ≠ charNull := ne_null_of_isSep (isSep_of_isBlank h)
  simp only [isBlank, decide_eq_true_eq] at h
  simp [scanChar, h0, h]

theorem scanChar_eol {c : UInt8} (cursor : Bytes) (st : Scan) (h : isEol c = true) :
    scanChar cursor c st = some ({ st with comment := false }, ⟨st.begin.isSome, true, false⟩) := by
  simp only [isEol, decide_eq_true_eq] at h
  have h0 : c ≠ charNull ∧ ¬ (c = charTab ∨ c = charSpace) := by
    rcases h with rfl | rfl <;> decide
  simp [scanChar, h0.1, h0.2, h]

theorem scanChar_hash (cursor : Bytes) (st : Scan) :
    scanChar cursor charHash st =
      if st.begin.isSome then none
      else some ({ st with comment := true }, ⟨false, false, false⟩) := rfl

theorem scanChar_other {c : UInt8} (cursor : Bytes) (st : Scan) (h0 : c ≠ charNull)
    (hs : isSep c = false) (hh : c ≠ charHash) :
    scanChar cursor c st =
      if isascii c = false then none
      else if st.begin.isNone && !st.comment then
        some ({ st with begin := some cursor }, ⟨false, false, false⟩)
      else some (st, ⟨false, false, false⟩) := by
  simp only [isSep, isBlank, isEol, Bool.or_eq_false_iff, decide_eq_false_iff_not] at hs
  simp [scanChar, h0, hs.1, hs.2, hh]

/-! ## The state in the middle of a line -/

/-- The words of the line so far, as the loop keeps them. -/
def HoldsWords (st : Scan) : List Bytes → Prop
  | [] => st.inDirective = false ∧ st.argc = 0
  | name :: args => st.inDirective = true ∧ st.str = name ∧ st.argc = args.length ∧
      (List.range st.argc).map st.argv = args ∧ args.length < maxTakes

/-- The scanner has read the words `ws` of the current line, and `w` of a further one
that goes up to the cursor. -/
structure LineState (st : Scan) (ws : List Bytes) (w cursor : Bytes) : Prop where
  begin : st.begin = if w = [] then none else some (w ++ cursor)
  comment : st.comment = true → w = []
  run : ∀ c ∈ w, isSep c = false
  words : HoldsWords st ws

theorem HoldsWords.congr {st st' : Scan} {ws : List Bytes} (h : HoldsWords st ws)
    (hin : st'.inDirective = st.inDirective) (hstr : st'.str = st.str)
    (hargc : st'.argc = st.argc) (hargv : st'.argv = st.argv) : HoldsWords st' ws := by
  cases ws with
  | nil => exact ⟨hin.trans h.1, hargc.trans h.2⟩
  | cons name args =>
      obtain ⟨h₁, h₂, h₃, h₄, h₅⟩ := h
      exact ⟨hin.trans h₁, hstr.trans h₂, hargc.trans h₃, by rw [hargc, hargv, h₄], h₅⟩

/-- A new argument goes behind those that are there. -/
theorem map_update_succ (argv : Nat → Bytes) (n : Nat) (w : Bytes) :
    (List.range (n + 1)).map (Function.update argv n w) = (List.range n).map argv ++ [w] := by
  rw [List.range_succ, List.map_append, List.map_singleton, Function.update_self]
  congr 1
  apply List.map_congr_left
  intro i hi
  rw [Function.update_of_ne (Nat.ne_of_lt (List.mem_range.mp hi))]

structure WordTaken (st st' : Scan) (ws : List Bytes) (used : Nat) : Prop where
  begin : st'.begin = none
  comment : st'.comment = st.comment
  words : HoldsWords st' ws
  config : st'.config = st.config
  line : st'.line = st.line
  used : st'.used = used

/-- The block under `if (found)` does what storing the word in front of the cursor
does. -/
theorem takeWord_spec {st : Scan} {ws : List Bytes} {w cursor : Bytes}
    (h : LineState st ws w cursor) (hw : w ≠ []) :
    match storeWord answers ws w st.used with
    | .error (err, n) => ∃ st', takeWord answers cursor st = .ok (some err, st') ∧
        st'.config = st.config ∧ st'.used = n
    | .ok (ws', n) => ∃ st', takeWord answers cursor st = .ok (none, st') ∧
        WordTaken st st' ws' n := by
  have hb : st.begin = some (w ++ cursor) := by rw [h.begin, if_neg hw]
  have htake : (w ++ cursor).take ((w ++ cursor).length - cursor.length) = w := by
    rw [List.length_append, Nat.add_sub_cancel, List.take_left]
  have hwords := h.words
  cases ha : answers st.used with
  | some e =>
      simp only [storeWord, ha]
      exact ⟨{ st with used := st.used + 1 }, by simp [takeWord, hb, ha], rfl, rfl⟩
  | none =>
      simp only [takeWord, storeWord, hb, ha, htake]
      cases ws with
      | nil =>
          refine ⟨{ st with used := st.used + 1, inDirective := true, str := w, begin := none },
            ?_, rfl, rfl, ⟨rfl, rfl, hwords.2, ?_, ?_⟩, rfl, rfl, rfl⟩
          · simp [hwords.1]
          · simp [hwords.2]
          · simp [maxTakes]
      | cons name args =>
          obtain ⟨hin, hstr, hargc, hargv, hlt⟩ := hwords
          rw [← hargc] at hlt
          by_cases hfull : st.argc + 1 ≥ maxTakes
          · have hlen : ¬ (name :: args).length < maxTakes := by
              rw [List.length_cons]
              omega
            rw [if_neg hlen]
            refine ⟨{ st with
              used := st.used + 1
              argv := Function.update st.argv st.argc w
              argc := st.argc + 1 }, ?_, rfl, rfl⟩
            simp [hin, hlt, hfull, hb]
          · have hlen : (name :: args).length < maxTakes := by
              rw [List.length_cons]
              omega
            rw [if_pos hlen]
            refine ⟨{ st with
              used := st.used + 1
              argv := Function.update st.argv st.argc w
              argc := st.argc + 1
              begin := none }, ?_, rfl, rfl, ⟨hin, hstr, ?_, ?_, ?_⟩, rfl, rfl, rfl⟩
            · simp [hin, hlt, hfull]
            · simp [hargc]
            · show (List.range (st.argc + 1)).map (Function.update st.argv st.argc w) =
                args ++ [w]
              rw [map_update_succ, hargv]
            · show (args ++ [w]).length < maxTakes
              simp only [List.length_append, List.length_cons, List.length_nil]
              omega

theorem found_spec (answers : PoolAnswers) {st : Scan} {ws : List Bytes} {w cursor : Bytes}
    (h : LineState st ws w cursor) :
    match endWord answers ws w st.used with
    | .error (err, n) => ∃ st', (if st.begin.isSome then takeWord answers cursor st
        else .ok (none, st)) = .ok (some err, st') ∧ st'.config = st.config ∧ st'.used = n
    | .ok (ws', n) => ∃ st', (if st.begin.isSome then takeWord answers cursor st
        else .ok (none, st)) = .ok (none, st') ∧ WordTaken st st' ws' n := by
  by_cases hw : w = []
  · have hb : st.begin = none := by rw [h.begin, if_pos hw]
    rw [endWord, if_pos hw]
    exact ⟨st, by simp [hb], hb, rfl, h.words, rfl, rfl, rfl⟩
  · have hb : st.begin.isSome = true := by rw [h.begin, if_neg hw]; rfl
    rw [endWord, if_neg hw, if_pos hb]
    exact takeWord_spec h hw

theorem closeLine_spec (answers : PoolAnswers) (filename : Option Nat) {st : Scan}
    {ws : List Bytes} (h : HoldsWords st ws) :
    ((closeLine answers filename st).config, (closeLine answers filename st).used) =
        saveWords answers filename st.line ws st.config st.used ∧
      (closeLine answers filename st).line = st.line + 1 ∧
      (closeLine answers filename st).comment = st.comment ∧
      (closeLine answers filename st).begin = st.begin ∧
      HoldsWords (closeLine answers filename st) [] := by
  cases ws with
  | nil => simp [closeLine, h.1, saveWords, wordsDirective, HoldsWords]
  | cons name args =>
      obtain ⟨hin, hstr, hargc, hargv, -⟩ := h
      rw [hargc] at hargv
      simp [closeLine, hin, saveWords, wordsDirective, Directive.of, HoldsWords, hstr, hargv, hargc]

/-! ## The text of a line -/

def LineStart (st : Scan) : Prop :=
  st.begin = none ∧ st.comment = false ∧ HoldsWords st []

/-- The loop goes the way the reader went: it returns the reader's status, or it comes to
the end of the text with what the reader has. -/
def Follows (answers : PoolAnswers) (filename : Option Nat) (st : Scan) (cursor tail : Bytes) :
    Except Stop (List Bytes × Bytes × Nat) → Prop
  | .error (err, n) => parseLoop answers filename cursor st = .ok (err, st.config, n)
  | .ok (ws, w, n) => ∃ st', parseLoop answers filename cursor st =
      parseLoop answers filename tail st' ∧ LineState st' ws w tail ∧
      st'.config = st.config ∧ st'.line = st.line ∧ st'.used = n

theorem Follows.of_step {st st' : Scan} {cursor cursor' tail : Bytes}
    {r : Except Stop (List Bytes × Bytes × Nat)}
    (hstep : parseLoop answers filename cursor st = parseLoop answers filename cursor' st')
    (hconfig : st'.config = st.config) (hline : st'.line = st.line)
    (h : Follows answers filename st' cursor' tail r) :
    Follows answers filename st cursor tail r := by
  cases r with
  | error stop => exact hstep.trans (hconfig ▸ h)
  | ok read =>
      obtain ⟨st'', hp, hstate, hc, hl, hu⟩ := h
      exact ⟨st'', hstep.trans hp, hstate, hc.trans hconfig, hl.trans hline, hu⟩

/-- A round that sets none of the flags. -/
theorem parseLoop_quiet {st st' : Scan} {c : UInt8} {cursor : Bytes}
    (h : scanChar (c :: cursor) c st = some (st', ⟨false, false, false⟩)) :
    parseLoop answers filename (c :: cursor) st = parseLoop answers filename cursor st' := by
  simp [parseLoop, h]

/-- A round in which the switch returns. -/
theorem parseLoop_reject {st : Scan} {c : UInt8} {cursor : Bytes}
    (h : scanChar (c :: cursor) c st = none) :
    parseLoop answers filename (c :: cursor) st = .ok (Err.configSyntax, st.config, st.used) := by
  simp [parseLoop, h]

/-- The text up to the end of the line is scanned as it is read, whatever was read of the
line before. -/
def TextScans (answers : PoolAnswers) (filename : Option Nat) (l tail : Bytes) : Prop :=
  ∀ st ws w, LineState st ws w (l ++ tail) →
    Follows answers filename st (l ++ tail) tail (readText answers l st.comment ws w st.used)

section Text

variable {c : UInt8} {l tail w : Bytes} {st : Scan} {ws : List Bytes}

theorem scan_blank (hblank : isBlank c = true) (ih : TextScans answers filename l tail)
    (h : LineState st ws w (c :: (l ++ tail))) :
    Follows answers filename st (c :: (l ++ tail)) tail
      (readText answers (c :: l) st.comment ws w st.used) := by
  have hsc := scanChar_blank (c :: (l ++ tail)) st hblank
  have hfound := found_spec answers h
  rw [readText, if_pos hblank]
  cases hend : endWord answers ws w st.used with
  | error stop =>
      rw [hend] at hfound
      obtain ⟨st', htk, hc, hu⟩ := hfound
      show parseLoop answers filename (c :: (l ++ tail)) st = .ok (stop.1, st.config, stop.2)
      simp [parseLoop, hsc, htk, hc, hu]
  | ok stored =>
      rw [hend] at hfound
      obtain ⟨st', htk, hst'⟩ := hfound
      have hstate : LineState st' stored.1 [] (l ++ tail) :=
        ⟨hst'.begin, fun _ => rfl, by simp, hst'.words⟩
      have hrest := ih st' stored.1 [] hstate
      rw [hst'.comment, hst'.used] at hrest
      refine Follows.of_step ?_ hst'.config hst'.line hrest
      simp [parseLoop, hsc, htk]

theorem scan_hash (ih : TextScans answers filename l tail)
    (h : LineState st ws w (charHash :: (l ++ tail))) :
    Follows answers filename st (charHash :: (l ++ tail)) tail
      (readText answers (charHash :: l) st.comment ws w st.used) := by
  have hsc := scanChar_hash (charHash :: (l ++ tail)) st
  have hblank : ¬ isBlank charHash = true := by decide
  rw [readText, if_neg hblank, if_pos rfl]
  by_cases hw : w = []
  · have hb : st.begin = none := by rw [h.begin, if_pos hw]
    rw [if_neg (by simp [hb])] at hsc
    rw [if_pos hw]
    have hstate : LineState { st with comment := true } ws [] (l ++ tail) :=
      ⟨hb, fun _ => rfl, by simp, h.words.congr rfl rfl rfl rfl⟩
    exact Follows.of_step (parseLoop_quiet hsc) rfl rfl (ih _ _ _ hstate)
  · have hb : st.begin.isSome = true := by rw [h.begin, if_neg hw]; rfl
    rw [if_pos hb] at hsc
    rw [if_neg hw]
    exact parseLoop_reject hsc

theorem scan_byte (hc0 : c ≠ charNull) (hsep : isSep c = false) (hhash : c ≠ charHash)
    (ih : TextScans answers filename l tail) (h : LineState st ws w (c :: (l ++ tail))) :
    Follows answers filename st (c :: (l ++ tail)) tail
      (readText answers (c :: l) st.comment ws w st.used) := by
  have hsc := scanChar_other (c :: (l ++ tail)) st hc0 hsep hhash
  have hblank : ¬ isBlank c = true := fun hb => by simp [isSep, hb] at hsep
  rw [readText, if_neg hblank, if_neg hhash]
  by_cases hhigh : 0x80 ≤ c
  · have hascii : isascii c = false :=
      Bool.eq_false_iff.mpr fun ha => (isascii_iff c).mp ha hhigh
    rw [if_pos hascii] at hsc
    rw [if_pos hhigh]
    exact parseLoop_reject hsc
  · rw [if_neg (by simp [(isascii_iff c).mpr hhigh])] at hsc
    rw [if_neg hhigh]
    by_cases hcm : st.comment = true
    · have hw := h.comment hcm
      subst hw
      have hb : st.begin = none := h.begin
      have hquiet : scanChar (c :: (l ++ tail)) c st = some (st, ⟨false, false, false⟩) := by
        simpa [hcm] using hsc
      have hstate : LineState st ws [] (l ++ tail) := ⟨hb, fun _ => rfl, by simp, h.words⟩
      rw [if_pos hcm]
      exact Follows.of_step (parseLoop_quiet hquiet) rfl rfl (ih _ _ _ hstate)
    · -- the word goes on, or starts here
      have hrun : ∀ d ∈ w ++ [c], isSep d = false := by
        intro d hd
        rcases List.mem_append.mp hd with hd | hd
        · exact h.run d hd
        · rw [List.mem_singleton.mp hd]
          exact hsep
      have hquiet : scanChar (c :: (l ++ tail)) c st =
          some ({ st with begin := some (w ++ [c] ++ (l ++ tail)) }, ⟨false, false, false⟩) := by
        by_cases hw : w = []
        · subst hw
          have hb : st.begin = none := h.begin
          exact hsc.trans (if_pos (by simp [hb, hcm]))
        · have hb : st.begin = some (w ++ [c] ++ (l ++ tail)) := by
            rw [h.begin, if_neg hw, List.append_assoc]
            rfl
          rw [← hb]
          exact hsc.trans (if_neg (by simp [hb]))
      have hstate : LineState { st with begin := some (w ++ [c] ++ (l ++ tail)) } ws
          (w ++ [c]) (l ++ tail) :=
        ⟨by simp, fun hc => absurd hc hcm, hrun, h.words.congr rfl rfl rfl rfl⟩
      rw [if_neg hcm]
      exact Follows.of_step (parseLoop_quiet hquiet) rfl rfl (ih _ _ _ hstate)

end Text

/-- From the cursor to the end of the line. -/
theorem scan_text (answers : PoolAnswers) (filename : Option Nat) (tail : Bytes) {l : Bytes}
    (hl : ∀ c ∈ l, c ≠ charNull ∧ isEol c = false) : TextScans answers filename l tail := by
  induction l with
  | nil =>
      intro st ws w h
      exact ⟨st, rfl, h, rfl, rfl, rfl⟩
  | cons c l ih =>
      intro st ws w h
      obtain ⟨⟨hc0, hce⟩, hl'⟩ := List.forall_mem_cons.mp hl
      by_cases hblank : isBlank c = true
      · exact scan_blank hblank (ih hl') h
      by_cases hhash : c = charHash
      · subst hhash
        exact scan_hash (ih hl') h
      · have hsep : isSep c = false := by
          simp only [isSep, Bool.or_eq_false_iff]
          exact ⟨by simpa using hblank, hce⟩
        exact scan_byte hc0 hsep hhash (ih hl') h

/-! ## Lines -/

theorem LineStart.lineState {st : Scan} {cursor : Bytes} (h : LineStart st) :
    LineState st [] [] cursor :=
  ⟨h.1, fun _ => rfl, by simp, h.2.2⟩

theorem scan_line (answers : PoolAnswers) (filename : Option Nat) {st : Scan} {l : Bytes}
    {e : UInt8} (hst : LineStart st) (hl : ∀ c ∈ l, c ≠ charNull ∧ isEol c = false)
    (he : isEol e = true) (rest : Bytes) :
    match readLine answers l st.used with
    | .error (err, n) => parseLoop answers filename (l ++ e :: rest) st =
        .ok (err, st.config, n)
    | .ok (ws, n) => ∃ st', parseLoop answers filename (l ++ e :: rest) st =
        parseLoop answers filename rest st' ∧ LineStart st' ∧ st'.line = st.line + 1 ∧
        (st'.config, st'.used) = saveWords answers filename st.line ws st.config n := by
  have htext := scan_text answers filename (e :: rest) hl st [] [] hst.lineState
  rw [hst.2.1] at htext
  rw [readLine]
  cases hread : readText answers l false [] [] st.used with
  | error stop =>
      rw [hread] at htext
      exact htext
  | ok read =>
      obtain ⟨ws, w, n⟩ := read
      rw [hread] at htext
      obtain ⟨st₁, hp, hstate, hc₁, hl₁, hu₁⟩ := htext
      subst hu₁
      have hsc := scanChar_eol (e :: rest) st₁ he
      have hstate' : LineState { st₁ with comment := false } ws w (e :: rest) :=
        ⟨hstate.begin, fun hc => (by cases hc), hstate.run,
          hstate.words.congr rfl rfl rfl rfl⟩
      have hfound := found_spec answers hstate'
      rw [hp]
      cases hend : endWord answers ws w st₁.used with
      | error stop =>
          rw [hend] at hfound
          obtain ⟨st₂, htk, hc₂, hu₂⟩ := hfound
          have hc : st₂.config = st.config := hc₂.trans hc₁
          simp [parseLoop, hsc, htk, hc, hu₂, hend]
      | ok stored =>
          rw [hend] at hfound
          obtain ⟨st₂, htk, hst₂⟩ := hfound
          obtain ⟨hsave, hline, hcom, hbeg, hhold⟩ :=
            closeLine_spec answers filename hst₂.words
          simp only [hend]
          refine ⟨closeLine answers filename st₂, ?_,
            ⟨hbeg.trans hst₂.begin, hcom.trans hst₂.comment, hhold⟩, ?_, ?_⟩
          · simp [parseLoop, hsc, htk]
          · rw [hline, hst₂.line, ← hl₁]
          · rw [hsave, hst₂.config, hst₂.line, hst₂.used, ← hc₁, ← hl₁]

theorem parseLoop_content (filename : Option Nat) (rest : Bytes) {content : Bytes} {st : Scan}
    (h0 : charNull ∉ content) (hst : LineStart st) :
    parseLoop answers filename (content ++ charNull :: rest) st =
      .ok (readLines answers filename (closedLines content) (openLine content) st.line st.config
        st.used) := by
  induction content using Fields.run_induction (p := isEol) generalizing st with
  | word l hl =>
      have hl0 : ∀ c ∈ l, c ≠ charNull ∧ isEol c = false := fun c hc =>
        ⟨fun h => h0 (h ▸ hc), hl c hc⟩
      have htext := scan_text answers filename (charNull :: rest) hl0 st [] [] hst.lineState
      rw [hst.2.1] at htext
      rw [closedLines, openLine, Fields.ended_word hl, Fields.lastRun_word hl, readLines]
      cases hread : readText answers l false [] [] st.used with
      | error stop =>
          rw [hread] at htext
          exact htext
      | ok read =>
          rw [hread] at htext
          obtain ⟨st', hp, -, hc, -, hu⟩ := htext
          rw [hp]
          simp [parseLoop, scanChar, hc, hu]
  | sep l e content hl he ih =>
      have hl0 : ∀ c ∈ l, c ≠ charNull ∧ isEol c = false := fun c hc =>
        ⟨fun h => h0 (h ▸ by simp [hc]), hl c hc⟩
      have hline := scan_line answers filename hst hl0 he (content ++ charNull :: rest)
      rw [closedLines, openLine, Fields.ended_word_sep hl he, Fields.lastRun_word_sep he, readLines,
        List.append_assoc, List.cons_append]
      cases hread : readLine answers l st.used with
      | error stop =>
          rw [hread] at hline
          exact hline
      | ok read =>
          obtain ⟨ws, n⟩ := read
          rw [hread] at hline
          obtain ⟨st', hp, hst', hn, hsave⟩ := hline
          simp only [← hsave]
          rw [hp, ih (fun h => h0 (by simp [h])) hst', hn]
          rfl

/-- `fpx_config_parse` reads its buffer line by line. -/
theorem parse_eq_readLines (answers : PoolAnswers) (config : Config) (used : Nat)
    {content : Bytes} (rest : Bytes) (h0 : charNull ∉ content) :
    parse answers config used (content ++ charNull :: rest) =
      .ok (readLines answers config.fileName (closedLines content) (openLine content) 1 config
        used) :=
  parseLoop_content config.fileName rest h0 ⟨rfl, rfl, rfl, rfl⟩

end Floppix.Configuration
