/-!
# Line tables

A line table says where each line of a text starts, and how long the text is. Lines are counted
from zero; a line ends where the next one starts and the last line ends with the text. The starts
are taken as they are given: only that there is a line and that the last one starts inside the
text is required.

## Main definitions

* `LineTable.ofStarts?`: a table from given starts
* `LineTable.ofBytes`: the table of a text, where a line starts after each line feed
* `LineTable.lineRange`: where a line starts and ends
* `LineTable.lineOf`: which line an offset lies on, by bisection
-/

namespace LoxLexer

/-- The byte that ends a line. -/
def lineFeed : UInt8 := 0x0A

/-- A range of byte offsets, the stop excluded. -/
structure Span where
  /-- The first offset. -/
  start : Nat
  /-- The offset after the last one. -/
  stop : Nat
deriving DecidableEq, Repr, Inhabited

/-- **The lines of a text.** -/
structure LineTable where
  /-- The offset each line starts at. -/
  starts : Array Nat
  /-- The length of the text in bytes. -/
  length : Nat
deriving DecidableEq, Repr, Inhabited

/-- Why a question to a line table has no answer. -/
inductive LineError where
  /-- The offset lies behind the end of the text. -/
  | offsetOutOfBounds
  /-- There is no such line. -/
  | lineOutOfBounds
  /-- The offset lies before the start of the first line. -/
  | beforeFirstLine
deriving DecidableEq, Repr, Inhabited

namespace LineTable

/-- The table with the given starts. There must be a line, and the last start must lie inside the
text. -/
def ofStarts? (starts : Array Nat) (length : Nat) : Option LineTable :=
  match starts.back? with
  | some last => if last ≤ length then some ⟨starts, length⟩ else none
  | none => none

/-- The offsets behind each line feed. -/
def breaks (bs : List UInt8) : List Nat :=
  (bs.zipIdx.filter fun b => b.1 == lineFeed).map fun b => b.2 + 1

/-- **The lines of a byte string**: one at the beginning and one after each line feed. -/
def ofBytes (bs : List UInt8) : LineTable :=
  ⟨(0 :: breaks bs).toArray, bs.length⟩

/-- The number of lines. -/
def lines (t : LineTable) : Nat :=
  t.starts.size

/-- **The range of a line**, its line break included. -/
def lineRange (t : LineTable) (line : Nat) : Except LineError Span :=
  match t.starts[line]? with
  | none => .error .lineOutOfBounds
  | some start => .ok ⟨start, t.starts.getD (line + 1) t.length⟩

/-- The ranges of all lines. -/
def lineRanges (t : LineTable) : List Span :=
  (List.range t.lines).filterMap fun line => (t.lineRange line).toOption

/-- Halves the lines `base, …, base + size - 1` until one is left: the upper half is kept when its
first line starts at the offset or before it. -/
def bisect (starts : Array Nat) (offset base size : Nat) : Nat :=
  if size ≤ 1 then base
  else
    let half := size / 2
    let middle := base + half
    bisect starts offset (if starts.getD middle 0 ≤ offset then middle else base) (size - half)
termination_by size

/-- **The line of an offset.** The end of the text lies on the last line; where no line starts at
the offset or before it, there is none. -/
def lineOf (t : LineTable) (offset : Nat) : Except LineError Nat :=
  if t.length < offset then .error .offsetOutOfBounds
  else
    let line := bisect t.starts offset 0 t.lines
    if t.starts[line]?.any (· ≤ offset) then .ok line else .error .beforeFirstLine

end LineTable

end LoxLexer
