import Floppix.System.Errno
import Floppix.Util.Bytes
import Mathlib.Data.Set.Finite.Basic

/-! # The file system

The POSIX calls behind `system/filesys.c`, as the configuration code uses them.
Their answers do not change while a configuration is read. Paths are strings
without their terminators.
-/

namespace Floppix

/-- `FPX_FILE_TYPE_*`. -/
inductive FileType where
  | unkfile
  | file
  | dir
  | chr
  | blk
  | pipe
  | link
  | sock
deriving DecidableEq, Repr

structure Dirent where
  name : Bytes
  type : FileType
deriving DecidableEq, Repr

structure FileSystem where
  stat : Bytes → Except Errno FileType
  openFile : Bytes → Option Errno
  size : Bytes → Except Errno Nat
  /-- The bytes one `read` of the whole file delivers. -/
  read : Bytes → Except Errno Bytes
  /-- The entries `readdir` yields before its `NULL`, or the failure of `opendir`. -/
  opendir : Bytes → Except Errno (List Dirent)
  /-- The paths `glob` finds. It does not set `errno` where nothing matches, so the
  value read after a failure may be anything. -/
  glob : Bytes → Except Err (List Bytes)
  /-- The value of a local `fpx_file_info_t` that has not been written. -/
  junkType : FileType

def pathSeparator : UInt8 := 0x2F

def fileFullPath (path file : Bytes) : Bytes :=
  (if path.getLast? = some pathSeparator then path.dropLast else path) ++
    pathSeparator :: file

def checkAbsolutePath (path : Bytes) : Err :=
  if path.head? = some pathSeparator then Err.ok else Err.filesysAbsPath

def isPathHasWildcard (path : Bytes) : Bool := path.any fun c => c = 0x3F ∨ c = 0x2A

/-- `fpx_file_info_by_path` into an `info` that held the given type: a failed `stat`
leaves it alone. -/
def fileInfoByPath (fs : FileSystem) (path : Bytes) (type : FileType) : FileType :=
  match fs.stat path with
  | .ok type => type
  | .error _ => type

/-- `ENOENT`. -/
def noEntry : Errno := ⟨2, by decide⟩

def listedFs (files : List (Bytes × Bytes)) (dirs : List (Bytes × List Dirent))
    (masks : List (Bytes × List Bytes)) : FileSystem where
  stat path :=
    if (files.lookup path).isSome then .ok .file
    else if (dirs.lookup path).isSome then .ok .dir
    else .error noEntry
  openFile path := if (files.lookup path).isSome then none else some noEntry
  size path := ((files.lookup path).map List.length).elim (.error noEntry) .ok
  read path := (files.lookup path).elim (.error noEntry) .ok
  opendir path := (dirs.lookup path).elim (.error noEntry) .ok
  glob path := (masks.lookup path).elim (.error Err.ok) .ok
  junkType := .unkfile

theorem listedFs_files_finite (files : List (Bytes × Bytes)) (dirs : List (Bytes × List Dirent))
    (masks : List (Bytes × List Bytes)) :
    {path | (listedFs files dirs masks).openFile path = none}.Finite := by
  apply (List.finite_toSet (files.map Prod.fst)).subset
  intro path hp
  simp only [Set.mem_ofPred_eq, listedFs, ite_eq_left_iff, reduceCtorEq, imp_false, not_not] at hp
  obtain ⟨content, hc⟩ := Option.isSome_iff_exists.mp hp
  obtain ⟨l₁, l₂, heq, -⟩ := List.lookup_eq_some_iff.mp hc
  simp [heq]

end Floppix
