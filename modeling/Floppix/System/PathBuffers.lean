import Floppix.System.Filesys
import Floppix.System.Glob
import Floppix.System.WideConversion

/-! # Arrays for paths

The functions that build a path write it into an array of `FPX_MAX_PATH_LEN` elements of their
caller, or of three elements more. Two of them do not ask for the length of what they write,
one compares it with the length of the array where it has to leave room for three bytes, and
one is told the size of the array in bytes.
-/

namespace Floppix.PathBuffers

open Glob Outcome Unicode WidePath

/-! ## The functions -/

/-- `fpx_file_full_path` into an array of so many bytes, with the string it leaves there and the
length that it returns. -/
def fileFullPathInto (separator : UInt8) (cap : Nat) (path file : Bytes) :
    Except Glob.Fault (Bytes × Nat) := do
  if path = [] then .error .underread
  else
    let path := if path.getLast? = some separator then path.dropLast else path
    let buf ← fill cap [] path
    let buf ← fill cap buf [separator]
    let buf ← fill cap buf file
    let copied := buf.length
    let _ ← fill cap buf [0]
    .ok (buf, copied)

def tooBig : Err := 7

/-- `fpx_dir_open` on Windows, for what `FindFirstFile` answers: a handle, or the error that
`GetLastError` then returns. -/
def winDirOpen (maxPathLen : Nat) (findFirst : Bytes → Option Err) (path : Bytes) :
    Except Glob.Fault Err := do
  let len := path.length
  if maxPathLen + 3 ≤ len then .ok tooBig
  else
    let str ← fill (maxPathLen + 3) [] path
    let str ← fill (maxPathLen + 3) str [0x5c]
    let str ← fill (maxPathLen + 3) str [0x2a]
    let _ ← fill (maxPathLen + 3) str [0]
    match findFirst str with
    | none => .ok Err.ok
    | some err => .ok (if err ≠ Err.ok then err else Err.done)

/-- `MAX_PATH`, which is `FPX_MAX_PATH_LEN` on Windows. -/
def maxPath : Nat := 260

/-- The call of `fpx_path_to_wchar` in `fpx_file_open` and `fpx_file_stat_by_path`: the array
has `maxPath` units, and its size in bytes is passed for their number. -/
def widePath (rounds : Nat) (path : Bytes) : Except WidePath.Fault Converted :=
  pathToWchar maxPath (2 * maxPath) rounds path

/-! ## Lengths -/

def trimmedLength (separator : UInt8) (path : Bytes) : Nat :=
  if path.getLast? = some separator then path.length - 1 else path.length

def Stray (rest : Bytes) : Prop :=
  ∃ a tail, rest = a :: tail ∧ 0x80 ≤ a.toNat ∧ ∀ n bytes vs, Decoded n bytes → rest ≠ bytes ++ vs

/-- The units of a path up to its first stray byte, or of all of it and of the terminator. -/
inductive WideLength : Bytes → Nat → Prop
  | whole {cs : List Nat} {path : Bytes} (h : Spelled cs path) :
      WideLength path ((utf16All cs).length + 1)
  | part {cs : List Nat} {us rest : Bytes} (h : Spelled cs us) (hrest : Stray rest) :
      WideLength (us ++ rest) (utf16All cs).length

variable {separator : UInt8} {cap maxPathLen : Nat} {path file : Bytes}

/-! ## Paths of bytes -/

theorem trimmedLength_eq :
    (if path.getLast? = some separator then path.dropLast else path).length =
      trimmedLength separator path := by
  unfold trimmedLength
  split
  · exact List.length_dropLast
  · rfl

theorem fileFullPathInto_iff : (∃ r, fileFullPathInto separator cap path file = .ok r) ↔
    path ≠ [] ∧ trimmedLength separator path + file.length + 2 ≤ cap := by
  unfold fileFullPathInto
  by_cases hpath : path = []
  · rw [if_pos hpath]
    constructor
    · rintro ⟨r, hr⟩
      cases hr
    · exact fun h => absurd hpath h.1
  · rw [if_neg hpath]
    simp only [fill_bind_iff, List.length_append, List.length_nil, List.length_singleton,
      trimmedLength_eq]
    constructor
    · rintro ⟨-, -, -, hfits, -⟩
      exact ⟨hpath, by omega⟩
    · rintro ⟨-, hfits⟩
      exact ⟨by omega, by omega, by omega, by omega, _, rfl⟩

/-- On POSIX the string is the path that the walks use. -/
theorem fileFullPathInto_eq {r : Bytes × Nat}
    (h : fileFullPathInto pathSeparator cap path file = .ok r) :
    r = (fileFullPath path file, (fileFullPath path file).length) := by
  obtain ⟨hpath, -⟩ := fileFullPathInto_iff.mp ⟨r, h⟩
  unfold fileFullPathInto at h
  rw [if_neg hpath] at h
  have h := ok_of_fill_bind (ok_of_fill_bind (ok_of_fill_bind (ok_of_fill_bind h)))
  cases h
  simp [fileFullPath]

theorem posixRead_iff {gl : PosixGlob} {res : Bytes} :
    (∃ r, posixRead maxPathLen gl res = .ok r) ↔
      ∀ found, gl.pathv[gl.last]? = some found → found.length + 1 ≤ maxPathLen := by
  unfold posixRead
  cases hpath : gl.pathv[gl.last]? with
  | none => exact ⟨fun _ found hfound => absurd hfound (by simp), fun _ => ⟨_, rfl⟩⟩
  | some path =>
      simp only [fill_bind_iff, List.length_append, List.length_nil, List.length_singleton]
      constructor
      · rintro ⟨hfits, -⟩ found hfound
        cases hfound
        omega
      · intro hall
        have hfits := hall path rfl
        exact ⟨by omega, _, rfl⟩

theorem winDirOpen_iff {findFirst : Bytes → Option Err} :
    (∃ r, winDirOpen maxPathLen findFirst path = .ok r) ↔
      path.length ≤ maxPathLen ∨ maxPathLen + 3 ≤ path.length := by
  unfold winDirOpen
  by_cases hlong : maxPathLen + 3 ≤ path.length
  · dsimp only
    rw [if_pos hlong]
    exact ⟨fun _ => Or.inr hlong, fun _ => ⟨_, rfl⟩⟩
  · dsimp only
    rw [if_neg hlong, or_iff_left hlong]
    simp only [fill_bind_iff, List.length_append, List.length_nil, List.length_singleton]
    constructor
    · rintro ⟨-, -, -, hfits, -⟩
      omega
    · intro hfits
      refine ⟨by omega, by omega, by omega, by omega, ?_⟩
      cases findFirst ([] ++ path ++ [0x5c] ++ [0x2a]) with
      | none => exact ⟨_, rfl⟩
      | some err => exact ⟨_, rfl⟩

/-! ## Wide paths -/

variable {outlen k rounds : Nat} {cs : List Nat} {us rest tail : Bytes}

/-- The rest of a string has a result when its units and `k` more places fit. -/
def Fits (cap outlen k rounds : Nat) (cs : List Nat) (p : Bytes) : Prop :=
  ∀ out : List Nat, out.length ≤ cap → outlen < out.length + rounds →
    ((∃ res, wcharLoop cap outlen rounds out p = .ok res) ↔
      out.length + (utf16All cs).length + k ≤ cap)

/-- The units of a character are written, or one of them is behind the array. -/
theorem Fits.next {n : Nat} {p : Bytes} {out : List Nat} (h : Fits cap outlen k rounds cs p)
    (hn : n ≤ 0x10ffff) (hout : out.length ≤ cap) (hrounds : outlen < out.length + (rounds + 1)) :
    (∃ res, ((utf16 n).foldlM (put cap) out >>= fun out =>
        wcharLoop cap outlen rounds out p) = .ok res) ↔
      out.length + (utf16All (n :: cs)).length + k ≤ cap := by
  have hpos := utf16_length_pos n
  rw [utf16All_cons, List.length_append]
  by_cases hfits : out.length + (utf16 n).length ≤ cap
  · rw [putAll_ok hfits (utf16_lt hn)]
    refine (h (out ++ utf16 n) ?_ ?_).trans ?_
    all_goals
      rw [List.length_append]
      omega
  · rw [putAll_overrun hout (Nat.not_le.mp hfits) (utf16_lt hn)]
    constructor
    · rintro ⟨res, hres⟩
      cases hres
    · omega

/-- What the loop does with the characters in front of a part of the string that needs `k`
places. -/
theorem wcharLoop_spelled (hcap : cap + 1 < outlen)
    (hbase : ∀ rounds, Fits cap outlen k rounds [] tail) (h : Spelled cs us) (hnul : 0 ∉ us) :
    Fits cap outlen k rounds cs (us ++ tail) := by
  induction h generalizing rounds with
  | nil => exact hbase rounds
  | @ascii c cs us hc h ih =>
      intro out hout hrounds
      obtain ⟨hc0, hnul⟩ := not_or.mp (mt List.mem_cons.mpr hnul)
      cases rounds with
      | zero => omega
      | succ rounds =>
          rw [List.cons_append, wcharLoop_ascii (by omega) hc fun heq => hc0 heq.symm]
          exact (ih hnul).next (by omega) hout hrounds
  | @char n cs bytes us hn h ih =>
      intro out hout hrounds
      obtain ⟨a, p, rfl, ha⟩ := hn.head
      have hnul : 0 ∉ us := fun hmem => hnul (List.mem_append_right _ hmem)
      have hdecode := hn.utf8Decode_eq (us ++ tail)
      rw [← List.append_assoc, List.cons_append, List.cons_append] at hdecode
      cases rounds with
      | zero => omega
      | succ rounds =>
          rw [List.cons_append, List.cons_append, wcharLoop_char (by omega) ha hdecode hn.le]
          exact (ih hnul).next hn.le hout hrounds

/-- The terminator needs a place. -/
theorem fits_whole (hcap : cap + 1 < outlen) (h : Spelled cs us) (hnul : 0 ∉ us) :
    Fits cap outlen 1 rounds cs (us ++ [0]) := by
  refine wcharLoop_spelled hcap ?_ h hnul
  intro rounds out hout hrounds
  cases rounds with
  | zero => omega
  | succ rounds =>
      rw [wcharLoop_end (by omega)]
      by_cases hfits : out.length < cap
      · rw [put_ok hfits (by decide)]
        exact ⟨fun _ => hfits, fun _ => ⟨_, rfl⟩⟩
      · rw [put_overrun (Nat.not_lt.mp hfits)]
        constructor
        · rintro ⟨res, hres⟩
          cases hres
        · exact fun h => absurd h hfits

theorem fits_part (hcap : cap + 1 < outlen) (h : Spelled cs us) (hnul : 0 ∉ us)
    (hrest : Stray rest) : Fits cap outlen 0 rounds cs (us ++ (rest ++ [0])) := by
  refine wcharLoop_spelled hcap ?_ h hnul
  intro rounds out hout hrounds
  obtain ⟨a, p, rfl, ha, hnone⟩ := hrest
  cases rounds with
  | zero => omega
  | succ rounds =>
      obtain ⟨⟨n, p'⟩, hdecode, hinv⟩ := (utf8Decode_inv a p).exists_ok not_false
      have hbad : 0x10ffff < n := by
        apply Nat.not_le.mp
        intro hn
        obtain ⟨bytes, vs, hsplit, hdecoded, -⟩ := hinv hn
        exact hnone n bytes vs hdecoded hsplit
      rw [List.cons_append] at hdecode ⊢
      rw [wcharLoop_bad (by omega) ha hdecode hbad]
      exact ⟨fun _ => hout, fun _ => ⟨_, rfl⟩⟩

theorem exists_wideLength_append {n : Nat} {bytes : Bytes}
    (hchar : ∀ {cs us}, Spelled cs us → Spelled (n :: cs) (bytes ++ us))
    (h : ∃ len, WideLength path len) : ∃ len, WideLength (bytes ++ path) len := by
  obtain ⟨len, hlen⟩ := h
  cases hlen with
  | whole h => exact ⟨_, .whole (hchar h)⟩
  | part h hrest =>
      rw [← List.append_assoc]
      exact ⟨_, .part (hchar h) hrest⟩

theorem exists_wideLength (path : Bytes) : ∃ len, WideLength path len := by
  induction hlen : path.length using Nat.strong_induction_on generalizing path with
  | _ len ih =>
      cases path with
      | nil => exact ⟨_, .whole .nil⟩
      | cons a path =>
          by_cases ha : a.toNat < 0x80
          · show ∃ len, WideLength ([a] ++ path) len
            refine exists_wideLength_append (.ascii ha) (ih _ ?_ path rfl)
            rw [← hlen, List.length_cons]
            omega
          by_cases hchar : ∃ n bytes vs, Decoded n bytes ∧ a :: path = bytes ++ vs
          · obtain ⟨n, bytes, vs, hdecoded, hsplit⟩ := hchar
            rw [hsplit] at hlen ⊢
            refine exists_wideLength_append (.char hdecoded) (ih _ ?_ vs rfl)
            obtain ⟨b, tail, rfl, -⟩ := hdecoded.head
            rw [← hlen, List.length_append, List.length_cons]
            omega
          · refine ⟨_, .part .nil ⟨a, path, rfl, Nat.not_lt.mp ha, ?_⟩⟩
            exact fun n bytes vs hdecoded hsplit => hchar ⟨n, bytes, vs, hdecoded, hsplit⟩

theorem widePath_iff (hnul : 0 ∉ path) (hrounds : 2 * maxPath < rounds) :
    (∃ res, widePath rounds path = .ok res) ↔ ∃ len, WideLength path len ∧ len ≤ maxPath := by
  have hcap : maxPath + 1 < 2 * maxPath := by decide
  have hall : ∀ {path len}, WideLength path len → 0 ∉ path →
      ((∃ res, widePath rounds path = .ok res) ↔ len ≤ maxPath) := by
    intro path len hlen hnul
    unfold widePath pathToWchar
    cases hlen with
    | whole h =>
        have hfits : Fits maxPath (2 * maxPath) 1 rounds _ _ := fits_whole hcap h hnul
        have hfits := hfits [] (Nat.zero_le _) (by simpa)
        rwa [List.length_nil, Nat.zero_add] at hfits
    | part h hrest =>
        have hnul := fun hmem => hnul (List.mem_append_left _ hmem)
        have hfits : Fits maxPath (2 * maxPath) 0 rounds _ _ := fits_part hcap h hnul hrest
        have hfits := hfits [] (Nat.zero_le _) (by simpa)
        rwa [List.length_nil, Nat.zero_add, ← List.append_assoc] at hfits
  obtain ⟨len, hlen⟩ := exists_wideLength path
  constructor
  · exact fun hok => ⟨len, hlen, (hall hlen hnul).mp hok⟩
  · rintro ⟨len, hlen, hle⟩
    exact (hall hlen hnul).mpr hle

/-- Each of the four stays inside of its array exactly if what it writes fits. `fpx_dir_open`
also does so when it refuses the path, and the others refuse nothing in time. -/
theorem pathBuffers_bounded_iff (separator : UInt8) (maxPathLen rounds : Nat)
    (path file res : Bytes) (gl : PosixGlob) (findFirst : Bytes → Option Err) (hnul : 0 ∉ path)
    (hrounds : 2 * maxPath < rounds) :
    ((∃ r, fileFullPathInto separator maxPathLen path file = .ok r) ↔
        path ≠ [] ∧ trimmedLength separator path + file.length + 2 ≤ maxPathLen) ∧
      ((∃ r, posixRead maxPathLen gl res = .ok r) ↔
        ∀ found, gl.pathv[gl.last]? = some found → found.length + 1 ≤ maxPathLen) ∧
      ((∃ r, winDirOpen maxPathLen findFirst path = .ok r) ↔
        path.length ≤ maxPathLen ∨ maxPathLen + 3 ≤ path.length) ∧
      ((∃ r, widePath rounds path = .ok r) ↔ ∃ len, WideLength path len ∧ len ≤ maxPath) :=
  ⟨fileFullPathInto_iff, posixRead_iff, winDirOpen_iff, widePath_iff hnul hrounds⟩

/-- A path of two bytes, a name and a match that fit. -/
theorem pathBuffers_bounded_short :
    ((∃ r, fileFullPathInto 0x2f 4096 [0x2f, 0x61] [0x62] = .ok r) ↔
        [(0x2f : UInt8), 0x61] ≠ [] ∧
          trimmedLength 0x2f [0x2f, 0x61] + [(0x62 : UInt8)].length + 2 ≤ 4096) ∧
      ((∃ r, posixRead 4096 (.start [[0x2f, 0x61]]) [] = .ok r) ↔
        ∀ found, (PosixGlob.start [[0x2f, 0x61]]).pathv[0]? = some found →
          found.length + 1 ≤ 4096) ∧
      ((∃ r, winDirOpen 4096 (fun _ => none) [0x2f, 0x61] = .ok r) ↔
        [(0x2f : UInt8), 0x61].length ≤ 4096 ∨ 4096 + 3 ≤ [(0x2f : UInt8), 0x61].length) ∧
      ((∃ r, widePath 521 [0x2f, 0x61] = .ok r) ↔
        ∃ len, WideLength [0x2f, 0x61] len ∧ len ≤ maxPath) :=
  pathBuffers_bounded_iff 0x2f 4096 521 [0x2f, 0x61] [0x62] [] (.start [[0x2f, 0x61]])
    (fun _ => none) (by decide) (by decide)

/-- A path of 4001 bytes with a name of 255, a match of 4096 bytes, a directory of 261 bytes and
a path of 260 characters are written behind the arrays. -/
theorem pathBuffers_overrun :
    fileFullPathInto 0x2f 4096 (0x2f :: List.replicate 4000 0x61) (List.replicate 255 0x62) =
        .error .overrun ∧
      posixRead 4096 (.start [0x2f :: List.replicate 4095 0x61]) [] = .error .overrun ∧
      winDirOpen maxPath (fun _ => none) (List.replicate 261 0x61) = .error .overrun ∧
      widePath 521 (List.replicate 260 0x61) = .error .overrun := by
  refine ⟨?_, ?_, ?_, ?_⟩
  · decide +kernel
  · refine posixRead_long (List.getElem?_cons_zero ..) ?_
    rw [List.length_cons, List.length_replicate]
  · decide +kernel
  · decide +kernel

end Floppix.PathBuffers
