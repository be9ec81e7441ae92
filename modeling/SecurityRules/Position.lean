import SecurityRules.Number.Signed
import SecurityRules.SourceFile
import SecurityRules.Text.Quoted

/-!
# Positions on the command line

A position is written `line:column`, both counted from one, columns in characters.
-/

namespace SecurityRules

/-- Why a text is no position in a file. -/
inductive PositionError where
  /-- There is no colon. -/
  | shape (value : Bytes)
  | line (value : Bytes)
  | column (value : Bytes)
  | pastEnd (line : Nat) (path : Bytes) (lineCount : Nat)
deriving Repr, DecidableEq

def PositionError.message : PositionError → Bytes
  | shape value => "invalid position " ++ Text.quoted value ++ " (expected line:col)"
  | line value => "invalid line in " ++ Text.quoted value
  | column value => "invalid column in " ++ Text.quoted value
  | pastEnd number path lineCount =>
    "line " ++ Bytes.decimal number ++ " is past the end of " ++ path ++ " (" ++
      Bytes.decimal lineCount ++ " lines)"

namespace Position

/-- A number from one on, with white space around it. -/
def ordinal? (s : Bytes) : Option Nat :=
  match Number.signed? (Text.trimBlanks s) with
  | some n => if 1 ≤ n then some n.toNat else none
  | none => none

/-- The number of bytes of the first `n` characters. -/
def bytesOfCharacters (n : Nat) (text : Bytes) : Nat :=
  (((Utf8.decodeAll text).take n).map (·.size)).sum

/-- Reads a position. A column behind the end of the line is its end. -/
def parse (file : SourceFile) (value : Bytes) : Except PositionError Point :=
  match Bytes.cut? 0x3A value with
  | none => .error (.shape value)
  | some (lineText, columnText) =>
    match ordinal? lineText, ordinal? columnText with
    | none, _ => .error (.line value)
    | some _, none => .error (.column value)
    | some line, some column =>
      if file.lineCount < line then .error (.pastEnd line file.path file.lineCount)
      else
        let row := UInt32.ofNat (line - 1)
        .ok ⟨row, UInt32.ofNat (bytesOfCharacters (column - 1) (file.line row))⟩

end Position

end SecurityRules
