import Floppix.Core.Config.Grammar

/-! # Reading a configuration line by line

What one pass over a buffer does, said in words and lines instead of cursor and
flags: the words of a line are stored one after the other, and a line that LF or CR
ends is saved as a directive. An allocation that fails, or text that is not allowed,
stops the reader. Both kinds of stop carry the status and the number of allocations
made.
-/

namespace Floppix.Configuration

/-- The lines of a buffer that LF or CR ends, each with the byte that ends it. -/
def closedLines (content : Bytes) : List (Bytes × UInt8) := Fields.ended isEol content

def openLine (content : Bytes) : Bytes := Fields.lastRun isEol content

/-- A status other than `FPX_OK`, with the number of allocations made so far. -/
abbrev Stop := Err × Nat

/-- A word goes behind the words of its line, if there is memory and room. -/
def storeWord (answers : PoolAnswers) (ws : List Bytes) (w : Bytes) (used : Nat) :
    Except Stop (List Bytes × Nat) :=
  match answers used with
  | some e => .error (e.code, used + 1)
  | none =>
      if ws.length < maxTakes then .ok (ws ++ [w], used + 1)
      else .error (Err.configSyntax, used + 1)

def endWord (answers : PoolAnswers) (ws : List Bytes) (w : Bytes) (used : Nat) :
    Except Stop (List Bytes × Nat) :=
  if w = [] then .ok (ws, used) else storeWord answers ws w used

def readText (answers : PoolAnswers) :
    Bytes → Bool → List Bytes → Bytes → Nat → Except Stop (List Bytes × Bytes × Nat)
  | [], _, ws, w, used => .ok (ws, w, used)
  | c :: l, comment, ws, w, used =>
      if isBlank c then
        match endWord answers ws w used with
        | .error stop => .error stop
        | .ok (ws, used) => readText answers l comment ws [] used
      else if c = charHash then
        if w = [] then readText answers l true ws [] used
        else .error (Err.configSyntax, used)
      else if 0x80 ≤ c then .error (Err.configSyntax, used)
      else if comment then readText answers l comment ws w used
      else readText answers l comment ws (w ++ [c]) used

def readLine (answers : PoolAnswers) (l : Bytes) (used : Nat) :
    Except Stop (List Bytes × Nat) :=
  match readText answers l false [] [] used with
  | .error stop => .error stop
  | .ok (ws, w, used) => endWord answers ws w used

def saveWords (answers : PoolAnswers) (filename : Option Nat) (line : Nat) (ws : List Bytes)
    (config : Config) (used : Nat) : Config × Nat :=
  match wordsDirective filename line ws with
  | none => (config, used)
  | some d => (saveDirective answers config used d).2

/-- The lines of a buffer, the first of which has the given number, and what follows the
last line break. -/
def readLines (answers : PoolAnswers) (filename : Option Nat) :
    List (Bytes × UInt8) → Bytes → Nat → Config → Nat → Err × Config × Nat
  | [], last, _, config, used =>
      match readText answers last false [] [] used with
      | .error (err, used) => (err, config, used)
      | .ok (_, _, used) => (Err.ok, config, used)
  | (l, _) :: ls, last, line, config, used =>
      match readLine answers l used with
      | .error (err, used) => (err, config, used)
      | .ok (ws, used) =>
          let saved := saveWords answers filename line ws config used
          readLines answers filename ls last (line + 1) saved.1 saved.2

end Floppix.Configuration
