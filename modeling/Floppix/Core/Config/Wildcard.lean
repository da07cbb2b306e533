import Floppix.Core.Config.Include
import Floppix.System.Glob

/-! # The loop over the matches of a mask

`fpx_config_walkdir_wildcard` takes every status but `FPX_DONE` for that of a match. On POSIX
`fpx_glob_read` has no other status. On Windows it has two: a path that is too long is refused
without going on to the next match, and what `GetLastError` returns after a successful
`FindNextFile` ends the search.
-/

namespace Floppix.Wildcard

open Glob

inductive Stop
  | fault (fault : Glob.Fault)
  | outOfRounds
deriving DecidableEq, Repr

variable {σ : Type}

/-! ## The loop -/

/-- The loop of `fpx_config_walkdir_wildcard`, with what `fullpath` holds and the paths that
have been given to `fpx_config_read_included_file` or `fpx_config_walkdir_nonwildcard`. -/
def wildcardLoop (globRead : σ → Bytes → Except Glob.Fault (Err × σ × Bytes)) :
    Nat → σ → Bytes → List Bytes → Except Stop (List Bytes)
  | 0, _, _, _ => .error .outOfRounds
  | rounds + 1, gl, fullpath, handed =>
      match globRead gl fullpath with
      | .error fault => .error (.fault fault)
      | .ok (err, gl, fullpath) =>
          if err = Err.done then .ok handed
          else if fullpath = ascii "." ∨ fullpath = ascii ".." then
            wildcardLoop globRead rounds gl fullpath handed
          else wildcardLoop globRead rounds gl fullpath (handed ++ [fullpath])

def Ends (globRead : σ → Bytes → Except Glob.Fault (Err × σ × Bytes)) (gl : σ) (fullpath : Bytes)
    (handed out : List Bytes) : Prop :=
  ∃ rounds, wildcardLoop globRead rounds gl fullpath handed = .ok out

/-- The paths are the matches that fit, in order; it does not matter what is done with those in
`dots`. -/
def Visits (maxPathLen : Nat) (dots found handed : List Bytes) : Prop :=
  handed.filter (fun path => path ∉ dots) =
    found.filter fun path => path.length + 1 ≤ maxPathLen ∧ path ∉ dots

/-- The loop ends, and each match that fits has been given to the include step once. -/
def VisitsOnce (globRead : σ → Bytes → Except Glob.Fault (Err × σ × Bytes)) (gl : σ)
    (fullpath : Bytes) (maxPathLen : Nat) (dots found : List Bytes) : Prop :=
  ∃ handed, Ends globRead gl fullpath [] handed ∧ Visits maxPathLen dots found handed

variable {globRead : σ → Bytes → Except Glob.Fault (Err × σ × Bytes)} {gl gl' : σ} {err : Err}
  {maxPathLen : Nat} {fullpath path name : Bytes} {handed out found dots : List Bytes}

/-! ## One round -/

theorem ends_done (h : globRead gl fullpath = .ok (Err.done, gl', path)) :
    Ends globRead gl fullpath handed out ↔ out = handed := by
  constructor
  · rintro ⟨rounds, hrun⟩
    cases rounds with
    | zero => cases hrun
    | succ rounds =>
        rw [wildcardLoop, h] at hrun
        cases hrun
        rfl
  · rintro rfl
    exact ⟨1, by rw [wildcardLoop, h]; rfl⟩

theorem not_ends_fault {fault : Glob.Fault} (h : globRead gl fullpath = .error fault) :
    ¬ Ends globRead gl fullpath handed out := by
  rintro ⟨rounds, hrun⟩
  cases rounds with
  | zero => cases hrun
  | succ rounds =>
      rw [wildcardLoop, h] at hrun
      cases hrun

/-- The rounds behind the first one. -/
theorem ends_next (h : globRead gl fullpath = .ok (err, gl', path)) (hdone : err ≠ Err.done) :
    Ends globRead gl fullpath handed out ↔
      Ends globRead gl' path
        (if path = ascii "." ∨ path = ascii ".." then handed else handed ++ [path]) out := by
  have hround : ∀ rounds, wildcardLoop globRead (rounds + 1) gl fullpath handed =
      wildcardLoop globRead rounds gl' path
        (if path = ascii "." ∨ path = ascii ".." then handed else handed ++ [path]) := by
    intro rounds
    rw [wildcardLoop, h]
    dsimp only
    rw [if_neg hdone]
    split
    · rfl
    · rfl
  constructor
  · rintro ⟨rounds, hrun⟩
    cases rounds with
    | zero => cases hrun
    | succ rounds => exact ⟨rounds, (hround rounds).symm.trans hrun⟩
  · rintro ⟨rounds, hrun⟩
    exact ⟨rounds + 1, (hround rounds).trans hrun⟩

/-- A status that leaves the glob as it is comes again in every round. -/
theorem not_ends_stuck (h : ∀ res, globRead gl res = .ok (err, gl, res)) (hdone : err ≠ Err.done) :
    ¬ Ends globRead gl fullpath handed out := by
  rintro ⟨rounds, hrun⟩
  induction rounds generalizing fullpath handed with
  | zero => cases hrun
  | succ rounds ih =>
      rw [wildcardLoop, h] at hrun
      dsimp only at hrun
      rw [if_neg hdone] at hrun
      split at hrun
      · exact ih hrun
      · exact ih hrun

/-! ## POSIX -/

/-- The paths that the loop does not leave out itself. -/
def wanted (found : List Bytes) : List Bytes :=
  found.filter fun path => ¬ (path = ascii "." ∨ path = ascii "..")

theorem wanted_cons (path : Bytes) (found : List Bytes) : wanted (path :: found) =
    (if path = ascii "." ∨ path = ascii ".." then [] else [path]) ++ wanted found := by
  unfold wanted
  by_cases hdot : path = ascii "." ∨ path = ascii ".."
  · rw [if_pos hdot, List.filter_cons_of_neg (by simp [hdot]), List.nil_append]
  · rw [if_neg hdot, List.filter_cons_of_pos (by simp [hdot]), List.singleton_append]

theorem posix_ends {gl : PosixGlob} (hfound : gl.pathv.drop gl.last = found) :
    Ends (posixRead maxPathLen) gl fullpath handed out ↔
      (∀ path ∈ found, path.length + 1 ≤ maxPathLen) ∧ out = handed ++ wanted found := by
  induction found generalizing gl fullpath handed with
  | nil =>
      rw [ends_done (posixRead_done (List.drop_eq_nil_iff.mp hfound))]
      simp [wanted]
  | cons path found ih =>
      have hpath : gl.pathv[gl.last]? = some path := by
        rw [← List.head?_drop, hfound]
        rfl
      have hnext : gl.pathv.drop (gl.last + 1) = found := by
        rw [← List.tail_drop, hfound]
        rfl
      by_cases hfits : path.length < maxPathLen
      · have hfit : path.length + 1 ≤ maxPathLen := hfits
        rw [ends_next (posixRead_ok hpath hfits) (by decide), ih hnext, List.forall_mem_cons,
          wanted_cons, and_iff_right hfit]
        split
        · rw [List.nil_append]
        · rw [List.append_assoc]
      · apply iff_of_false (not_ends_fault (posixRead_long hpath (Nat.not_lt.mp hfits)))
        exact fun h => hfits (h.1 path (List.mem_cons_self ..))

def posixDots : List Bytes := [ascii ".", ascii ".."]

theorem posix_visitsOnce_iff (pathv : List Bytes) :
    VisitsOnce (posixRead maxPathLen) (.start pathv) fullpath maxPathLen posixDots pathv ↔
      ∀ path ∈ pathv, path.length + 1 ≤ maxPathLen := by
  have hends : ∀ {out}, Ends (posixRead maxPathLen) (.start pathv) fullpath [] out ↔
      (∀ path ∈ pathv, path.length + 1 ≤ maxPathLen) ∧ out = wanted pathv :=
    fun {out} => posix_ends rfl
  constructor
  · rintro ⟨handed, hrun, -⟩
    exact (hends.mp hrun).1
  · intro hfits
    refine ⟨_, hends.mpr ⟨hfits, rfl⟩, ?_⟩
    unfold Visits wanted
    rw [List.filter_filter]
    apply List.filter_congr
    intro path hpath
    have hfit := hfits path hpath
    simp [posixDots, hfit]

/-- The include step sees the matches that the loop gives to it, and no others. -/
theorem walkMatches_of_ends {fs : FileSystem} {answers : Configuration.PoolAnswers} {depth : Nat}
    {pathv : List Bytes} (h : Ends (posixRead maxPathLen) (.start pathv) fullpath [] out)
    (type : FileType) (r : Configuration.Reading) :
    Configuration.walkMatches fs answers depth pathv type r =
      Configuration.walkMatches fs answers depth out type r := by
  obtain ⟨-, rfl⟩ := (posix_ends rfl).mp h
  show Configuration.walkMatches fs answers depth pathv type r =
    Configuration.walkMatches fs answers depth (wanted pathv) type r
  clear h
  induction pathv generalizing type r with
  | nil => rfl
  | cons path pathv ih =>
      rw [wanted_cons]
      by_cases hdot : path = ascii "." ∨ path = ascii ".."
      · rw [if_pos hdot, List.nil_append, Configuration.walkMatches, if_pos hdot]
        exact ih type r
      · rw [if_neg hdot, List.singleton_append, Configuration.walkMatches,
          Configuration.walkMatches, if_neg hdot, if_neg hdot]
        dsimp only
        split
        · rfl
        · exact ih _ _

/-! ## Windows -/

/-- The paths of the entries that nothing is said about. -/
def winDots (gl : WinGlob) : List Bytes := [gl.path (ascii "."), gl.path (ascii "..")]

def winHanded (maxPathLen : Nat) (path : Bytes → Bytes) :
    Bytes → List (Bytes × Err) → Option (List Bytes)
  | name, [] => if (path name).length + 1 ≤ maxPathLen then some [path name] else none
  | name, (next, err) :: rest =>
      if (path name).length + 1 ≤ maxPathLen then
        if err ≠ Err.ok ∧ err ≠ noMoreFiles then some (if err = Err.done then [] else [path name])
        else (winHanded maxPathLen path next rest).map fun handed => path name :: handed
      else none

theorem path_not_dot {gl : WinGlob} (h : gl.Anchored) (name : Bytes) :
    ¬ (gl.path name = ascii "." ∨ gl.path name = ascii "..") := by
  have hmem : 0x5c ∈ gl.path name := List.mem_append_left _ h.separator
  rintro (hdot | hdot)
  · rw [hdot] at hmem
    exact absurd hmem (by decide)
  · rw [hdot] at hmem
    exact absurd hmem (by decide)

theorem win_ends {gl : WinGlob} (hgl : gl.Anchored) (hopen : gl.done = false) :
    Ends (winRead maxPathLen) gl fullpath handed out ↔
      ∃ hs, winHanded maxPathLen gl.path gl.name gl.rest = some hs ∧ out = handed ++ hs := by
  induction hrest : gl.rest generalizing gl fullpath handed with
  | nil =>
      rw [winHanded, hgl.length_path]
      by_cases hfits : gl.prefixLen + gl.name.length + 1 ≤ maxPathLen
      · have hread := winRead_fits hgl hopen hfits fullpath
        rw [hrest] at hread
        rw [ends_next hread (by decide), if_neg (path_not_dot hgl _), ends_done (winRead_done rfl),
          if_pos hfits]
        simp
      · rw [if_neg hfits]
        refine iff_of_false (not_ends_stuck (winRead_long hopen (Nat.not_le.mp hfits))
          (by decide)) ?_
        rintro ⟨hs, hnone, -⟩
        cases hnone
  | cons next rest ih =>
      obtain ⟨next, err⟩ := next
      rw [winHanded, hgl.length_path]
      by_cases hfits : gl.prefixLen + gl.name.length + 1 ≤ maxPathLen
      · have hread := winRead_fits hgl hopen hfits fullpath
        rw [hrest] at hread
        rw [if_pos hfits]
        dsimp only at hread
        by_cases hstale : err ≠ Err.ok ∧ err ≠ noMoreFiles
        · rw [if_pos hstale] at hread ⊢
          by_cases hdone : err = Err.done
          · rw [hdone] at hread
            rw [ends_done hread, if_pos hdone]
            simp
          · rw [ends_next hread hdone, if_neg (path_not_dot hgl _), ends_done (winRead_done rfl),
              if_neg hdone]
            simp
        · rw [if_neg hstale] at hread ⊢
          have hnext : Ends (winRead maxPathLen) { gl with name := next, rest := rest }
              (gl.path gl.name) (handed ++ [gl.path gl.name]) out ↔ _ :=
            ih ⟨hgl.le, hgl.separator⟩ hopen rfl
          rw [ends_next hread (by decide), if_neg (path_not_dot hgl _), hnext]
          show (∃ hs, winHanded maxPathLen gl.path next rest = some hs ∧ _) ↔ _
          cases winHanded maxPathLen gl.path next rest with
          | none => simp
          | some hs => simp
      · rw [if_neg hfits]
        refine iff_of_false (not_ends_stuck (winRead_long hopen (Nat.not_le.mp hfits))
          (by decide)) ?_
        rintro ⟨hs, hnone, -⟩
        cases hnone

/-- All the paths are short enough, until a last-error value ends the search. There is no match
behind that one which would have to be visited, and the status is not `FPX_DONE`, unless the
match in front of it need not be visited either. -/
def SearchedWhole (maxPathLen : Nat) (path : Bytes → Bytes) (dots : List Bytes) :
    Bytes → List (Bytes × Err) → Prop
  | name, [] => (path name).length + 1 ≤ maxPathLen
  | name, (next, err) :: rest =>
      (path name).length + 1 ≤ maxPathLen ∧
        if err ≠ Err.ok ∧ err ≠ noMoreFiles then
          (err = Err.done → path name ∈ dots) ∧
            ∀ other ∈ next :: rest.map Prod.fst,
              (path other).length + 1 ≤ maxPathLen → path other ∈ dots
        else SearchedWhole maxPathLen path dots next rest

theorem visits_cons (hfits : path.length + 1 ≤ maxPathLen) :
    Visits maxPathLen dots (path :: found) (path :: handed) ↔
      Visits maxPathLen dots found handed := by
  unfold Visits
  by_cases hdot : path ∈ dots
  · rw [List.filter_cons_of_neg (by simpa using hdot), List.filter_cons_of_neg (by simp [hdot])]
  · rw [List.filter_cons_of_pos (by simpa using hdot),
      List.filter_cons_of_pos (by simp [hdot, hfits]), List.cons_inj_right]

theorem visits_nil : Visits maxPathLen dots found [] ↔
    ∀ path ∈ found, path.length + 1 ≤ maxPathLen → path ∈ dots := by
  rw [Visits, List.filter_nil, eq_comm, List.filter_eq_nil_iff]
  apply forall₂_congr
  intro path _
  simp

theorem winHanded_visits_iff {paths : Bytes → Bytes} {rest : List (Bytes × Err)} :
    (∃ hs, winHanded maxPathLen paths name rest = some hs ∧
        Visits maxPathLen dots ((name :: rest.map Prod.fst).map paths) hs) ↔
      SearchedWhole maxPathLen paths dots name rest := by
  induction rest generalizing name with
  | nil =>
      rw [winHanded, SearchedWhole]
      by_cases hfits : (paths name).length + 1 ≤ maxPathLen
      · rw [if_pos hfits]
        refine iff_of_true ⟨_, rfl, (visits_cons hfits).mpr ?_⟩ hfits
        exact visits_nil.mpr (by simp)
      · rw [if_neg hfits]
        simp [hfits]
  | cons next rest ih =>
      obtain ⟨next, err⟩ := next
      rw [winHanded, SearchedWhole, List.map_cons, List.map_cons]
      by_cases hfits : (paths name).length + 1 ≤ maxPathLen
      · rw [if_pos hfits, and_iff_right hfits]
        by_cases hstale : err ≠ Err.ok ∧ err ≠ noMoreFiles
        · rw [if_pos hstale, if_pos hstale]
          simp only [Option.some.injEq, exists_eq_left']
          by_cases hdone : err = Err.done
          · rw [if_pos hdone, visits_nil, List.forall_mem_cons]
            simp only [hdone, hfits, true_implies, List.forall_mem_map]
          · rw [if_neg hdone, visits_cons hfits, visits_nil]
            simp only [hdone, false_implies, true_and, List.forall_mem_map]
        · rw [if_neg hstale, if_neg hstale, ← ih]
          cases winHanded maxPathLen paths next rest with
          | none => simp
          | some hs =>
              simp only [Option.map_some, Option.some.injEq, exists_eq_left', visits_cons hfits]
      · rw [if_neg hfits]
        simp [hfits]

theorem win_visitsOnce_iff {pattern : Bytes} {rest : List (Bytes × Err)} {gl : WinGlob}
    (hopen : winOpen pattern (some (name, rest)) = .ok gl) :
    VisitsOnce (winRead maxPathLen) gl fullpath maxPathLen (winDots gl)
        ((name :: rest.map Prod.fst).map gl.path) ↔
      SearchedWhole maxPathLen gl.path (winDots gl) name rest := by
  obtain ⟨hgl, rfl, rfl, hdone⟩ := winOpen_ok hopen
  rw [← winHanded_visits_iff]
  unfold VisitsOnce
  simp only [win_ends hgl hdone, List.nil_append]
  constructor
  · rintro ⟨handed, ⟨hs, hhanded, rfl⟩, hvisits⟩
    exact ⟨handed, hhanded, hvisits⟩
  · rintro ⟨hs, hhanded, hvisits⟩
    exact ⟨hs, ⟨hs, hhanded, rfl⟩, hvisits⟩

/-- On POSIX the loop ends and visits every match that fits once, in order, exactly if all the
matches fit. On Windows it does so exactly if the paths are short enough as far as the search
goes, and the search goes as far as there is a match to visit. -/
theorem wildcard_visitsOnce_iff (maxPathLen : Nat) (fullpath : Bytes) (pathv : List Bytes)
    (pattern name : Bytes) (rest : List (Bytes × Err)) (gl : WinGlob)
    (hopen : winOpen pattern (some (name, rest)) = .ok gl) :
    (VisitsOnce (posixRead maxPathLen) (.start pathv) fullpath maxPathLen posixDots pathv ↔
        ∀ path ∈ pathv, path.length + 1 ≤ maxPathLen) ∧
      (VisitsOnce (winRead maxPathLen) gl fullpath maxPathLen (winDots gl)
          ((name :: rest.map Prod.fst).map gl.path) ↔
        SearchedWhole maxPathLen gl.path (winDots gl) name rest) :=
  ⟨posix_visitsOnce_iff pathv, win_visitsOnce_iff hopen⟩

def globOfDrive (name : Bytes) (rest : List (Bytes × Err)) : WinGlob :=
  ⟨ascii "C:\\a\\*", 5, name, rest, false⟩

theorem winOpen_drive (name : Bytes) (rest : List (Bytes × Err)) :
    winOpen (ascii "C:\\a\\*") (some (name, rest)) = .ok (globOfDrive name rest) := rfl

/-- Two matches, and `ERROR_NO_MORE_FILES` behind the call that finds the second one. -/
theorem wildcard_visitsOnce_two :
    (VisitsOnce (posixRead 260) (.start [ascii "/a/b", ascii "/a/c"]) [] 260 posixDots
          [ascii "/a/b", ascii "/a/c"] ↔
        ∀ path ∈ [ascii "/a/b", ascii "/a/c"], path.length + 1 ≤ 260) ∧
      (VisitsOnce (winRead 260) (globOfDrive (ascii "b") [(ascii "c", noMoreFiles)]) [] 260
          (winDots (globOfDrive (ascii "b") [(ascii "c", noMoreFiles)]))
          ([ascii "b", ascii "c"].map (globOfDrive (ascii "b") [(ascii "c", noMoreFiles)]).path) ↔
        SearchedWhole 260 (globOfDrive (ascii "b") [(ascii "c", noMoreFiles)]).path
          (winDots (globOfDrive (ascii "b") [(ascii "c", noMoreFiles)])) (ascii "b")
          [(ascii "c", noMoreFiles)]) :=
  wildcard_visitsOnce_iff 260 [] [ascii "/a/b", ascii "/a/c"] (ascii "C:\\a\\*") (ascii "b")
    [(ascii "c", noMoreFiles)] (globOfDrive (ascii "b") [(ascii "c", noMoreFiles)])
    (winOpen_drive _ _)

/-- A match of 4096 bytes on POSIX, a match of 261 bytes with its terminator on Windows, and
`ERROR_ACCESS_DENIED` as the last-error value behind the call that finds the second match. -/
theorem wildcard_not_visitsOnce :
    ¬ VisitsOnce (posixRead 4096) (.start [0x2f :: List.replicate 4095 0x61]) [] 4096 posixDots
        [0x2f :: List.replicate 4095 0x61] ∧
      ¬ VisitsOnce (winRead 260) (globOfDrive (List.replicate 255 0x62) []) [] 260
        (winDots (globOfDrive (List.replicate 255 0x62) []))
        ([List.replicate 255 0x62].map (globOfDrive (List.replicate 255 0x62) []).path) ∧
      ¬ VisitsOnce (winRead 260) (globOfDrive (ascii "b") [(ascii "c", 5)]) [] 260
        (winDots (globOfDrive (ascii "b") [(ascii "c", 5)]))
        ([ascii "b", ascii "c"].map (globOfDrive (ascii "b") [(ascii "c", 5)]).path) := by
  refine ⟨fun honce => ?_, fun honce => ?_, fun honce => ?_⟩
  · have hfits := (posix_visitsOnce_iff _).mp honce _ (List.mem_singleton_self _)
    rw [List.length_cons, List.length_replicate] at hfits
    omega
  · have hfits : (_ : Nat) + 1 ≤ 260 := (win_visitsOnce_iff (winOpen_drive _ [])).mp honce
    rw [WinGlob.path, List.length_append, List.length_replicate] at hfits
    exact absurd hfits (by decide)
  · have hwhole := (win_visitsOnce_iff (winOpen_drive _ [(ascii "c", 5)])).mp honce
    rw [SearchedWhole, if_pos (by decide)] at hwhole
    have hlost := hwhole.2.2 (ascii "c") (List.mem_cons_self ..)
    exact absurd hlost (by decide)

end Floppix.Wildcard
