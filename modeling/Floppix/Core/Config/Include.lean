import Floppix.Core.Config.Parse
import Floppix.System.Filesys

/-! # Including files

`fpx_config_read_included` and the functions under it. They work on the
configuration, on the pool and on open directories, and all of it is passed along.
The walk through a directory calls itself on subdirectories, so it is given an upper
bound on the depth.
-/

namespace Floppix.Configuration

structure Reading where
  config : Config
  /-- Allocations made so far. -/
  used : Nat
  /-- history: the directories `fpx_dir_open` has opened, in order -/
  openedDirs : List Bytes
  /-- history: the directories `fpx_dir_close` has closed, in order -/
  closedDirs : List Bytes
deriving DecidableEq, Repr

/-- Why a run of the model has no result. -/
inductive Halt where
  | fault (fault : Fault)
  /-- the bound on the depth, or on the number of rounds, is used up -/
  | fuel
deriving DecidableEq, Repr

abbrev Outcome (α : Type) := Except Halt α

variable (fs : FileSystem) (answers : PoolAnswers)

def palloc (r : Reading) : Option Errno × Reading := (answers r.used, { r with used := r.used + 1 })

def parseFile (fileBuf : Bytes) (r : Reading) : Outcome (Err × Reading) :=
  match parse answers r.config r.used fileBuf with
  | .error fault => .error (.fault fault)
  | .ok (err, config, used) => .ok (err, { r with config := config, used := used })

/-- `fpx_config_read_included_file` up to the call of the parser: a status, or the buffer that
the parser is given. -/
def fileBuffer (filename : Bytes) (r : Reading) :
    Outcome (Except (Err × Reading) (Bytes × Reading)) :=
  let (failure, r) := palloc answers r
  match failure with
  | some e => .ok (.error (e.code, r))
  | none =>
      match fs.openFile filename with
      | some e => .ok (.error (e.code, r))
      | none =>
          let (failure, r) := palloc answers r
          match failure with
          | some _ => .error (.fault (.undefined .nullWrite))
          | none =>
              match fs.size filename with
              | .error e => .ok (.error (e.code, r))
              | .ok _ =>
                  let (failure, r) := palloc answers r
                  match failure with
                  | some e => .ok (.error (e.code, r))
                  | none =>
                      match fs.read filename with
                      | .error e => .ok (.error (e.code, r))
                      | .ok bytes =>
                          let config :=
                            { r.config with confFiles := r.config.confFiles ++ [filename] }
                          .ok (.ok (bytes ++ [charNull], { r with config := config }))

def readIncludedFile (filename : Bytes) (r : Reading) : Outcome (Err × Reading) :=
  match fileBuffer fs answers filename r with
  | .error halt => .error halt
  | .ok (.error failed) => .ok failed
  | .ok (.ok (fileBuf, r)) => parseFile answers fileBuf r

def dirOpen (path : Bytes) (r : Reading) : Err × List Dirent × Reading :=
  match fs.opendir path with
  | .error e => (e.code, [], r)
  | .ok entries => (Err.ok, entries, { r with openedDirs := r.openedDirs ++ [path] })

def dirClose (path : Bytes) (r : Reading) : Reading :=
  { r with closedDirs := r.closedDirs ++ [path] }

/-- The loop of `fpx_config_walkdir_nonwildcard` over the entries of `path`; `walk` is the
function itself, for subdirectories. -/
def walkEntries (walk : Bytes → Reading → Outcome (Err × Reading)) (path : Bytes) :
    List Dirent → Reading → Outcome (Err × Reading)
  | [], r => .ok (Err.ok, dirClose path r)
  | entry :: rest, r =>
      if entry.name = ascii "." ∨ entry.name = ascii ".." then walkEntries walk path rest r
      else
        let fullpath := fileFullPath path entry.name
        let result :=
          if entry.type = .file then readIncludedFile fs answers fullpath r else walk fullpath r
        match result with
        | .error halt => .error halt
        | .ok (err, r) =>
            if err ≠ Err.ok then .ok (err, dirClose path r)
            else walkEntries walk path rest r

/-- `fpx_config_walkdir_nonwildcard`. The status of `fpx_dir_open` is compared with
`FPX_DONE`, which it never is. -/
def walkdirNonwildcard : Nat → Bytes → Reading → Outcome (Err × Reading)
  | 0, _, _ => .error .fuel
  | depth + 1, path, r =>
      let (err, entries, r) := dirOpen fs path r
      if err ≠ Err.done then .ok (err, r)
      else walkEntries fs answers (walkdirNonwildcard depth) path entries r

def readMatch (depth : Nat) (type : FileType) (fullpath : Bytes) (r : Reading) :
    Outcome (Err × Reading) :=
  if type = .file then readIncludedFile fs answers fullpath r
  else walkdirNonwildcard fs answers depth fullpath r

/-- The loop of `fpx_config_walkdir_wildcard` over the matches. The status of a match is
overwritten by the next one, and at the end it is not returned. -/
def walkMatches (depth : Nat) : List Bytes → FileType → Reading → Outcome (Err × Reading)
  | [], _, r => .ok (Err.ok, r)
  | fullpath :: rest, type, r =>
      if fullpath = ascii "." ∨ fullpath = ascii ".." then walkMatches depth rest type r
      else
        let type := fileInfoByPath fs fullpath type
        match readMatch fs answers depth type fullpath r with
        | .error halt => .error halt
        | .ok (_, r) => walkMatches depth rest type r

/-- `fpx_glob_open`. The message about a failed `glob`, which is also one that finds nothing,
shows `gl->pattern`, and this is written behind it. -/
def globOpen (path : Bytes) : Outcome (List Bytes) :=
  match fs.glob path with
  | .error _ => .error (.fault .uninit)
  | .ok found => .ok found

def walkdirWildcard (depth : Nat) (path : Bytes) (r : Reading) : Outcome (Err × Reading) :=
  match globOpen fs path with
  | .error halt => .error halt
  | .ok found => walkMatches fs answers depth found fs.junkType r

def readIncluded (depth : Nat) (path : Bytes) (r : Reading) : Outcome (Err × Reading) :=
  if checkAbsolutePath path ≠ Err.ok then .ok (checkAbsolutePath path, r)
  else if !isPathHasWildcard path then
    readMatch fs answers depth (fileInfoByPath fs path fs.junkType) path r
  else walkdirWildcard fs answers depth path r

end Floppix.Configuration
