import Conditionals.Text.Basic

/-!
# Lines

A line ends at a line feed, and a carriage return right before the line feed belongs to the
terminator. A `LineTable` holds every line with the offset where it starts. It counts lines the
way an editor does: a text has at least one line, and a final line feed starts an empty last line.
`terminatedLines` counts the other way: a final line feed ends the last line.
-/

namespace Conditionals

/-- One line: the offset of its first byte, and its text without the terminator. -/
structure Line where
  start : Nat
  text : Text
  deriving DecidableEq, Repr

def Line.stop (line : Line) : Nat :=
  line.start + Text.byteLength line.text

def Text.dropReturn (text : Text) : Text :=
  if text.getLast? = some '\r' then text.dropLast else text

structure LineTable where
  lines : List Line
  deriving DecidableEq, Repr

namespace LineTable

def place (offset : Nat) : List Text → List Line
  | [] => []
  | piece :: rest =>
    { start := offset, text := Text.dropReturn piece } ::
      place (offset + Text.byteLength piece + 1) rest

def ofText (text : Text) : LineTable :=
  { lines := place 0 (text.splitOn '\n') }

def lineCount (table : LineTable) : Nat :=
  table.lines.length

/-- The line that holds the byte at `offset`; the last one for an offset past the end. -/
def lineOf (table : LineTable) (offset : Nat) : Nat :=
  table.lines.findIdx (fun line => offset < line.start) - 1

def line? (table : LineTable) (number : Nat) : Option Line :=
  table.lines[number]?

def range? (table : LineTable) (number : Nat) : Option (Nat × Nat) :=
  (table.line? number).map fun line => (line.start, line.stop)

def text? (table : LineTable) (number : Nat) : Option Text :=
  (table.line? number).map Line.text

def texts (table : LineTable) : List Text :=
  table.lines.map Line.text

end LineTable

/-- The lines of a text when a line feed ends a line instead of separating two. Only a line feed
takes a carriage return with it, so an unterminated last line keeps its own. -/
def Text.terminatedLines (text : Text) : List Text :=
  let pieces := text.splitOn '\n'
  pieces.dropLast.map Text.dropReturn ++ (pieces.getLast?.filter fun last => last ≠ []).toList

end Conditionals
