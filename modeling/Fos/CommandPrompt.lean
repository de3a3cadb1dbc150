import Mathlib.Logic.Function.Basic
import Mathlib.Tactic.Common

/-!
# The command prompt

`command_prompt_readline` of `kern/command_prompt.c`, key by key. An access outside `buf` or
`command_history` has no result. What is printed is left out, and so is the Tab key.
-/

namespace Fos

open Function (update)

/-- `BUFLEN` -/
abbrev bufLen : Nat := 1024

/-- `HISTORY_MAX` -/
abbrev historyMax : Int := 9

/-- The local variables of `command_prompt_readline`, its buffer, and the history. -/
structure Prompt where
  buf : Nat → UInt8
  i : Int
  lastIndex : Int
  commandidx : Int
  commandHistory : Nat → Nat → UInt8
  lastCommandIdx : Int

namespace Prompt

/-! ## The arrays -/

def readBuf (s : Prompt) (k : Int) : Option UInt8 :=
  if 0 ≤ k ∧ k < bufLen then some (s.buf k.toNat) else none

def writeBuf (s : Prompt) (k : Int) (c : UInt8) : Option Prompt :=
  if 0 ≤ k ∧ k < bufLen then some { s with buf := update s.buf k.toNat c } else none

/-- Row `r` of `command_history`. -/
def historyRow (s : Prompt) (r : Int) : Option (Nat → UInt8) :=
  if 0 ≤ r ∧ r ≤ historyMax then some (s.commandHistory r.toNat) else none

def writeHistory (s : Prompt) (r : Int) (row : Nat → UInt8) : Option Prompt :=
  if 0 ≤ r ∧ r ≤ historyMax then
    some { s with commandHistory := update s.commandHistory r.toNat row }
  else none

/-- `strlen` of a row. -/
def rowLength (row : Nat → UInt8) : Option Nat := (List.range bufLen).find? fun k => row k == 0

/-- `strcmp` of two rows, from index `k` on for at most `n` characters: whether they are equal. -/
def rowsEqual (row row' : Nat → UInt8) : Nat → Nat → Option Bool
  | 0, _ => none
  | n + 1, k =>
    if row k ≠ 0 ∧ row k = row' k then rowsEqual row row' n (k + 1) else some (row k = row' k)

/-! ## Keys -/

/-- The loop of `clearandwritecommand` over the `n` characters that are left. -/
def copyCommand (row : Nat → UInt8) : Nat → Prompt → Option Prompt
  | 0, s => some s
  | n + 1, s => do
    let s ← s.writeBuf s.i (row s.i.toNat)
    copyCommand row n { s with i := s.i + 1 }

/-- `clearandwritecommand` -/
def clearAndWriteCommand (s : Prompt) (commandidx : Int) : Option Prompt := do
  let row ← s.historyRow commandidx
  let len ← rowLength row
  let s ← copyCommand row len { s with buf := fun _ => 0, i := 0 }
  return { s with lastIndex := len }

/-- The loop of the delete key over `n` characters from index `var` on. -/
def deleteLoop : Nat → Int → Prompt → Option Prompt
  | 0, _, s => some s
  | n + 1, var, s => do
    let c ← s.readBuf (var + 1)
    let s ← s.writeBuf var c
    deleteLoop n (var + 1) s

/-- What the enter key does. -/
def enter (s : Prompt) : Option Prompt := do
  let s ← s.writeBuf s.lastIndex 0
  if s.lastCommandIdx = historyMax then
    return { s with commandHistory := fun r =>
      if r < 9 then s.commandHistory (r + 1) else if r = 9 then s.buf else s.commandHistory r }
  else do
    let row ← s.historyRow s.lastCommandIdx
    if ← rowsEqual row s.buf bufLen 0 then return s
    else
      let s ← s.writeHistory (s.lastCommandIdx + 1) s.buf
      return { s with lastCommandIdx := s.lastCommandIdx + 1 }

/-- A key leaves the loop running, or `command_prompt_readline` returns. -/
inductive Outcome
  | editing (s : Prompt)
  | returned (s : Prompt)

/-- The correction at the head of the loop. -/
def correct (s : Prompt) : Prompt := if s.lastIndex < s.i then { s with lastIndex := s.i } else s

/-- The branches of the loop, for the key `c`. -/
def branch (c : Nat) (s : Prompt) : Option Outcome :=
  if c = 226 then do  -- up
    let s := if s.commandidx ≠ 0 then { s with commandidx := s.commandidx - 1 } else s
    return .editing (← s.clearAndWriteCommand s.commandidx)
  else if c = 227 then do  -- down
    let s :=
      if s.commandidx < s.lastCommandIdx then { s with commandidx := s.commandidx + 1 } else s
    if 0 ≤ s.lastCommandIdx then return .editing (← s.clearAndWriteCommand s.commandidx)
    else return .editing s
  else if c = 228 then  -- left
    return .editing (if 0 < s.i then { s with i := s.i - 1 } else s)
  else if c = 229 then  -- right
    return .editing (if s.i < s.lastIndex then { s with i := s.i + 1 } else s)
  else if c = 0xE9 ∧ 0 < s.i then do  -- delete
    let s ← deleteLoop (s.lastIndex + 1 - s.i).toNat s.i s
    return .editing { s with lastIndex := s.lastIndex - 1 }
  else if 32 ≤ c ∧ s.i < bufLen - 1 then do
    let s ← s.writeBuf s.i (.ofNat c)
    return .editing { s with i := s.i + 1, lastIndex := s.lastIndex + 1 }
  else if c = 8 ∧ 0 < s.i then do  -- backspace
    let d ← s.readBuf s.i
    let s ← s.writeBuf (s.i - 1) d
    return .editing { s with i := s.i - 1 }
  else if c = 10 ∨ c = 13 then return .returned (← s.enter)
  else return .editing s

/-- One round of the loop of `command_prompt_readline`. -/
def processKey (c : Nat) (s : Prompt) : Option Outcome := branch c s.correct

/-- The next line: `run_command_prompt` clears the buffer and calls `command_prompt_readline`. -/
def startLine (s : Prompt) : Prompt :=
  { s with buf := fun _ => 0, i := 0, lastIndex := 0, commandidx := s.lastCommandIdx + 1 }

/-- The state in which the next key is read. -/
def Outcome.next : Outcome → Prompt
  | .editing s => s
  | .returned s => s.startLine

end Prompt

end Fos
