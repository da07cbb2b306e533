import Floppix.Util.Numbers
import Floppix.System.Errno
import Mathlib.Logic.Function.Basic

/-! # The configuration scanner

`fpx_config_parse` is one loop over the bytes of a buffer. A pointer into the
buffer is the part of the buffer from there on, so the difference of two pointers
is a difference of lengths. The pool is seen through its answers: whether each
allocation in turn succeeds.
-/

namespace Floppix.Configuration

def charNull : UInt8 := 0x0
def charTab : UInt8 := 0x9
def charLf : UInt8 := 0xA
def charCr : UInt8 := 0xD
def charSpace : UInt8 := 0x20
def charHash : UInt8 := 0x23

def isascii (c : UInt8) : Bool := decide (0 ≤ c.toInt8) && decide (c ≤ 0x7f)

def maxTakes : Nat := 8

/-- `fpx_directive_t`. The pointer `filename` is the position of the list node it
points at, see `Config.fileName`. -/
structure Directive where
  name : Bytes
  argc : Nat
  argv : List Bytes
  filename : Option Nat
  line : Nat
  argc_eq : argc = argv.length
deriving DecidableEq, Repr

def Directive.of (name : Bytes) (argv : List Bytes) (filename : Option Nat) (line : Nat) :
    Directive := ⟨name, argv.length, argv, filename, line, rfl⟩

/-- `fpx_config_t`; of a file the name stays. -/
structure Config where
  confList : List Directive
  confFiles : List Bytes
deriving DecidableEq, Repr

def Config.empty : Config := ⟨[], []⟩

def Config.append (config : Config) (ds : List Directive) : Config :=
  { config with confList := config.confList ++ ds }

/-- The word `file->name` reads. `fpx_list_data(&config->conf_files, fpx_file_t,
list_node)` steps back from the list head itself, and where the name would be there is
`conf_list.tail`: the node of the last directive, or `NULL`. -/
def Config.fileName (config : Config) : Option Nat :=
  match config.confList.length with
  | 0 => none
  | n + 1 => some n

/-- The answers of the pool: `none` where the allocation succeeds, else the `errno`. -/
abbrev PoolAnswers := Nat → Option Errno

inductive Fault where
  /-- a read behind the buffer -/
  | overread
  /-- a write at `argv[FPX_MAX_TAKES]` or above -/
  | argvOverflow
  /-- a read of `gl->pattern`, which nothing has written yet -/
  | uninit
  /-- in a handler, or in what a handler shares with the rest of the program -/
  | undefined (undefined : Undefined)
deriving DecidableEq, Repr

/-- The variables of the loop, with the list and the pool it works on. -/
structure Scan where
  begin : Option Bytes
  comment : Bool
  inDirective : Bool
  str : Bytes
  argc : Nat
  argv : Nat → Bytes
  line : Nat
  config : Config
  used : Nat

def Scan.init (config : Config) (used : Nat) : Scan where
  begin := none
  comment := false
  inDirective := false
  str := []
  argc := 0
  argv := fun _ => []
  line := 1
  config := config
  used := used

/-- The variables one round sets and the rest of the round tests. -/
structure Flags where
  found : Bool
  endLine : Bool
  endFile : Bool

/-- The `switch` over the byte at the cursor; `none` where it returns
`FPX_ERR_CONFIG_SYNTAX`. -/
def scanChar (cursor : Bytes) (c : UInt8) (st : Scan) : Option (Scan × Flags) :=
  if c = charNull then some (st, ⟨false, false, true⟩)
  else if c = charTab ∨ c = charSpace then some (st, ⟨st.begin.isSome, false, false⟩)
  else if c = charLf ∨ c = charCr then
    some ({ st with comment := false }, ⟨st.begin.isSome, true, false⟩)
  else if c = charHash then
    if st.begin.isSome then none
    else some ({ st with comment := true }, ⟨false, false, false⟩)
  else if !isascii c then none
  else if st.begin.isNone && !st.comment then
    some ({ st with begin := some cursor }, ⟨false, false, false⟩)
  else some (st, ⟨false, false, false⟩)

/-- The block under `if (found)`: the word from `begin` to the cursor becomes the name or
an argument. With a status the function returns it. -/
def takeWord (answers : PoolAnswers) (cursor : Bytes) (st : Scan) :
    Except Fault (Option Err × Scan) :=
  match st.begin with
  | none => .ok (none, st)
  | some begin =>
      let len := begin.length - cursor.length
      match answers st.used with
      | some e => .ok (some e.code, { st with used := st.used + 1 })
      | none =>
          let allocStr := begin.take len
          let st := { st with used := st.used + 1 }
          if !st.inDirective then
            .ok (none, { st with inDirective := true, str := allocStr, begin := none })
          else if st.argc < maxTakes then
            let st := { st with
              argv := Function.update st.argv st.argc allocStr
              argc := st.argc + 1 }
            if st.argc ≥ maxTakes then .ok (some Err.configSyntax, st)
            else .ok (none, { st with begin := none })
          else .error .argvOverflow

/-- `fpx_config_save_directive`, with the number of allocations made. -/
def saveDirective (answers : PoolAnswers) (config : Config) (used : Nat) (d : Directive) :
    Err × Config × Nat :=
  match answers used with
  | some e => (e.code, config, used + 1)
  | none =>
      match answers (used + 1) with
      | some e => (e.code, config, used + 2)
      | none => (Err.ok, config.append [d], used + 2)

/-- The block under `if (end_line)`. The status of `fpx_config_save_directive` is
dropped. -/
def closeLine (answers : PoolAnswers) (filename : Option Nat) (st : Scan) : Scan :=
  let st :=
    if st.inDirective then
      let saved := saveDirective answers st.config st.used
        ⟨st.str, st.argc, (List.range st.argc).map st.argv, filename, st.line, by simp⟩
      { st with config := saved.2.1, used := saved.2.2 }
    else st
  { st with inDirective := false, argc := 0, line := st.line + 1 }

def parseLoop (answers : PoolAnswers) (filename : Option Nat) :
    Bytes → Scan → Except Fault (Err × Config × Nat)
  | [], _ => .error .overread
  | c :: rest, st =>
      match scanChar (c :: rest) c st with
      | none => .ok (Err.configSyntax, st.config, st.used)
      | some (st, flags) =>
          match if flags.found then takeWord answers (c :: rest) st else .ok (none, st) with
          | .error fault => .error fault
          | .ok (some err, st) => .ok (err, st.config, st.used)
          | .ok (none, st) =>
              let st := if flags.endLine then closeLine answers filename st else st
              if flags.endFile then .ok (Err.ok, st.config, st.used)
              else parseLoop answers filename rest st

/-- `fpx_config_parse`: the status, the configuration and the number of allocations
made. -/
def parse (answers : PoolAnswers) (config : Config) (used : Nat) (fileBuf : Bytes) :
    Except Fault (Err × Config × Nat) :=
  parseLoop answers config.fileName fileBuf (Scan.init config used)

end Floppix.Configuration
