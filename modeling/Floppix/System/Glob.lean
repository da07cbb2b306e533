import Floppix.System.Errno
import Floppix.Util.Bytes

/-! # The matches of a mask

`fpx_glob_read` hands out one path after the other in an array of its caller. On POSIX the
paths are in a vector, and no length is compared with that of the array. On Windows the name of
the next match is in the `finddata` of the search, and `FindNextFile` fetches the one behind it.
-/

namespace Floppix.Glob

inductive Fault
  /-- a read in front of a string -/
  | underread
  /-- a write behind the end of the array -/
  | overrun
deriving DecidableEq, Repr

/-- Bytes that are written behind those which an array of so many has already. -/
def fill (cap : Nat) (buf data : Bytes) : Except Fault Bytes :=
  if buf.length + data.length ≤ cap then .ok (buf ++ data) else .error .overrun

/-! ## POSIX -/

structure PosixGlob where
  pathv : List Bytes
  last : Nat

def PosixGlob.start (pathv : List Bytes) : PosixGlob := ⟨pathv, 0⟩

/-- `fpx_glob_read` into an array of `maxPathLen` bytes, which holds a string. -/
def posixRead (maxPathLen : Nat) (gl : PosixGlob) (res : Bytes) :
    Except Fault (Err × PosixGlob × Bytes) :=
  match gl.pathv[gl.last]? with
  | none => .ok (Err.done, gl, res)
  | some path => do
      let _ ← fill maxPathLen [] (path ++ [0])
      .ok (Err.ok, { gl with last := gl.last + 1 }, path)

/-! ## Windows -/

/-- `fpx_glob_t`. The name in `finddata` is what `last_res` points to; behind it are the names
that `FindNextFile` will put there, each with what `GetLastError` returns after the call. -/
structure WinGlob where
  pattern : Bytes
  prefixLen : Nat
  name : Bytes
  rest : List (Bytes × Err)
  done : Bool

def noMoreFiles : Err := 18

/-- The loop of `fpx_glob_open` that looks for the last separator, from a position down. -/
def lastSeparator (pattern : Bytes) : Nat → Nat
  | 0 => 0
  | i + 1 => if pattern[i + 1]? = some 0x5c then i + 1 else lastSeparator pattern i

def winOpen (pattern : Bytes) (found : Option (Bytes × List (Bytes × Err))) :
    Except Err WinGlob :=
  match found with
  | none => .error Err.failed
  | some (name, rest) =>
      let len := lastSeparator pattern pattern.length
      if len = 0 then .error Err.filesysAbsPath
      else .ok ⟨pattern, len + 1, name, rest, false⟩

def WinGlob.path (gl : WinGlob) (name : Bytes) : Bytes := gl.pattern.take gl.prefixLen ++ name

/-- `fpx_glob_read` into an array of `maxPathLen` bytes, which holds a string. -/
def winRead (maxPathLen : Nat) (gl : WinGlob) (res : Bytes) :
    Except Fault (Err × WinGlob × Bytes) :=
  if gl.done then .ok (Err.done, gl, res)
  else if maxPathLen < gl.prefixLen + gl.name.length + 1 then
    .ok (Err.filesysLongPath, gl, res)
  else do
    let buf ← fill maxPathLen [] (gl.pattern.take gl.prefixLen)
    let _ ← fill maxPathLen buf (gl.name ++ [0])
    let res := gl.path gl.name
    match gl.rest with
    | [] => .ok (Err.ok, { gl with done := true }, res)
    | (name, err) :: rest =>
        if err ≠ Err.ok ∧ err ≠ noMoreFiles then
          .ok (err, { gl with name, rest, done := true }, res)
        else .ok (Err.ok, { gl with name, rest }, res)

variable {cap maxPathLen : Nat} {buf data res path : Bytes}

/-! ## Buffers -/

theorem fill_ok (h : buf.length + data.length ≤ cap) : fill cap buf data = .ok (buf ++ data) :=
  if_pos h

theorem fill_error (h : cap < buf.length + data.length) : fill cap buf data = .error .overrun :=
  if_neg (Nat.not_le.mpr h)

/-- What is written fits, and what comes behind it has a result. -/
theorem fill_bind_iff {β : Type} {f : Bytes → Except Fault β} :
    (∃ r, (fill cap buf data >>= f) = .ok r) ↔
      buf.length + data.length ≤ cap ∧ ∃ r, f (buf ++ data) = .ok r := by
  by_cases hfits : buf.length + data.length ≤ cap
  · rw [fill_ok hfits]
    exact ⟨fun h => ⟨hfits, h⟩, fun h => h.2⟩
  · rw [fill_error (Nat.not_le.mp hfits)]
    constructor
    · rintro ⟨r, hr⟩
      cases hr
    · exact fun h => absurd h.1 hfits

theorem ok_of_fill_bind {β : Type} {f : Bytes → Except Fault β} {r : β}
    (h : (fill cap buf data >>= f) = .ok r) : f (buf ++ data) = .ok r := by
  have hfits := (fill_bind_iff.mp ⟨r, h⟩).1
  rwa [fill_ok hfits] at h

/-! ## Reading -/

theorem posixRead_done {gl : PosixGlob} (h : gl.pathv.length ≤ gl.last) :
    posixRead maxPathLen gl res = .ok (Err.done, gl, res) := by
  rw [posixRead, List.getElem?_eq_none h]

theorem posixRead_ok {gl : PosixGlob} (h : gl.pathv[gl.last]? = some path)
    (hfits : path.length < maxPathLen) :
    posixRead maxPathLen gl res = .ok (Err.ok, { gl with last := gl.last + 1 }, path) := by
  rw [posixRead, h]
  dsimp only
  rw [fill_ok]
  · rfl
  · rw [List.length_append, List.length_nil, List.length_singleton]
    omega

theorem posixRead_long {gl : PosixGlob} (h : gl.pathv[gl.last]? = some path)
    (hlong : maxPathLen ≤ path.length) : posixRead maxPathLen gl res = .error .overrun := by
  rw [posixRead, h]
  dsimp only
  rw [fill_error]
  · rfl
  · rw [List.length_append, List.length_nil, List.length_singleton]
    omega

/-! ## Searching on Windows -/

structure WinGlob.Anchored (gl : WinGlob) : Prop where
  le : gl.prefixLen ≤ gl.pattern.length
  separator : 0x5c ∈ gl.pattern.take gl.prefixLen

theorem WinGlob.Anchored.length_path {gl : WinGlob} (h : gl.Anchored) (name : Bytes) :
    (gl.path name).length = gl.prefixLen + name.length := by
  rw [path, List.length_append, List.length_take, Nat.min_eq_left h.le]

theorem lastSeparator_found {pattern : Bytes} {i : Nat} (h : lastSeparator pattern i ≠ 0) :
    pattern[lastSeparator pattern i]? = some 0x5c := by
  induction i with
  | zero => exact absurd rfl h
  | succ i ih =>
      rw [lastSeparator] at h ⊢
      by_cases hfound : pattern[i + 1]? = some 0x5c
      · rwa [if_pos hfound]
      · rw [if_neg hfound] at h ⊢
        exact ih h

theorem winOpen_ok {pattern name : Bytes} {rest : List (Bytes × Err)} {gl : WinGlob}
    (h : winOpen pattern (some (name, rest)) = .ok gl) :
    gl.Anchored ∧ gl.name = name ∧ gl.rest = rest ∧ gl.done = false := by
  unfold winOpen at h
  by_cases hnone : lastSeparator pattern pattern.length = 0
  · dsimp only at h
    rw [if_pos hnone] at h
    cases h
  · dsimp only at h
    rw [if_neg hnone] at h
    cases h
    have hfound := lastSeparator_found hnone
    obtain ⟨hlt, -⟩ := List.getElem?_eq_some_iff.mp hfound
    refine ⟨⟨hlt, ?_⟩, rfl, rfl, rfl⟩
    rw [← List.getElem?_take_of_lt (Nat.lt_succ_self _)] at hfound
    exact List.mem_of_getElem? hfound

variable {gl : WinGlob} {name : Bytes} {rest : List (Bytes × Err)} {err : Err}

theorem winRead_done (h : gl.done = true) :
    winRead maxPathLen gl res = .ok (Err.done, gl, res) := if_pos h

theorem winRead_long (h : gl.done = false) (hlong : maxPathLen < gl.prefixLen + gl.name.length + 1)
    (res : Bytes) : winRead maxPathLen gl res = .ok (Err.filesysLongPath, gl, res) := by
  rw [winRead, if_neg (by rw [h]; exact Bool.false_ne_true), if_pos hlong]

theorem winRead_fits (hgl : gl.Anchored) (h : gl.done = false)
    (hfits : gl.prefixLen + gl.name.length + 1 ≤ maxPathLen) (res : Bytes) :
    winRead maxPathLen gl res = match gl.rest with
      | [] => .ok (Err.ok, { gl with done := true }, gl.path gl.name)
      | (name, err) :: rest =>
          if err ≠ Err.ok ∧ err ≠ noMoreFiles then
            .ok (err, { gl with name, rest, done := true }, gl.path gl.name)
          else .ok (Err.ok, { gl with name, rest }, gl.path gl.name) := by
  have hprefix : (gl.pattern.take gl.prefixLen).length = gl.prefixLen := by
    rw [List.length_take, Nat.min_eq_left hgl.le]
  rw [winRead, if_neg (by rw [h]; exact Bool.false_ne_true), if_neg (Nat.not_lt.mpr hfits),
    fill_ok]
  · show (fill maxPathLen ([] ++ gl.pattern.take gl.prefixLen) (gl.name ++ [0]) >>= _) = _
    rw [fill_ok]
    · rfl
    · rw [List.nil_append, List.length_append, hprefix, List.length_singleton]
      omega
  · rw [List.length_nil, hprefix]
    omega

end Floppix.Glob
