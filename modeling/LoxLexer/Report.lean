import LoxLexer.Diagnostic
import LoxLexer.FileTable
import LoxLexer.Text.Width

/-!
# Reports

How a diagnostic is shown to a user. The plain style is the one line of the diagnostic. The rich
style shows the source line underlined, below a header that names file, line and column:

    error: Unexpected character.
      ┌─ main.lox:1:1
      │
    1 │ var a = #;
      │ ^^^^^^^^^^ error on line 1

followed by an empty line. A report is a list of pieces, text and changes of ink, so that the
coloured and the colourless form have the same text.

## Main definitions

* `Piece`, `Piece.render`: text and changes of ink
* `Snippet`, `Snippet.ofLine`: what is shown of a source line
* `Snippet.carets`: the underline
* `Snippet.block`: the whole rich report of a diagnostic
* `Style`: which form is used
-/

namespace LoxLexer

/-- How diagnostics are shown. -/
inductive Style where
  /-- The source line, underlined. -/
  | rich
  /-- One line for each diagnostic. -/
  | plain
deriving DecidableEq, Repr, Inhabited

/-- What a stretch of a report is printed in. -/
inductive Ink where
  /-- The word that opens a report. -/
  | severity
  /-- The message of a report. -/
  | title
  /-- Lines around the source, and line numbers. -/
  | frame
  /-- Source text, underline and note. -/
  | mark
deriving DecidableEq, Repr, Inhabited

/-- The terminal code that returns to plain text. -/
def Ink.reset : String := "\x1b[0m"

/-- The terminal code of an ink. -/
def Ink.code : Ink → String
  | severity => "\x1b[1m\x1b[38;5;9m"
  | title => "\x1b[1m"
  | frame => "\x1b[34m"
  | mark => "\x1b[31m"

/-- A piece of a report. -/
inductive Piece where
  /-- Text in the present ink. -/
  | text (s : String)
  /-- A change to an ink. -/
  | ink (i : Ink)
  /-- A change back to plain text. -/
  | plain
deriving DecidableEq, Repr, Inhabited

namespace Piece

/-- A piece as it is written; inks leave no trace without colours. -/
def render (coloured : Bool) : Piece → String
  | text s => s
  | ink i => if coloured then Ink.reset ++ i.code else ""
  | plain => if coloured then Ink.reset else ""

@[simp] theorem render_text (coloured : Bool) (s : String) : (text s).render coloured = s := rfl

@[simp] theorem render_ink_false (i : Ink) : (ink i).render false = "" := rfl

@[simp] theorem render_plain_false : plain.render false = "" := rfl

/-- Text in an ink of its own. -/
def inked (i : Ink) (s : String) : List Piece :=
  [ink i, text s, plain]

end Piece

/-- **What is shown of a source line.** -/
structure Snippet where
  /-- The name of the file. -/
  name : String
  /-- The line, counted from one. -/
  row : Nat
  /-- The column of the underlined text, counted from one. -/
  column : Nat
  /-- The line without the line breaks and NULs at its end. -/
  shown : List Char
  /-- How many bytes are underlined. -/
  label : Nat
deriving DecidableEq, Repr, Inhabited

namespace Snippet

/-- A character that is not shown at the end of a line. -/
def isHidden (c : Char) : Bool :=
  c == '\n' || c == '\r' || c == '\x00'

/-- **The snippet of a line** of a known file, counted from one. -/
def ofLine (files : FileTable) (id line : Nat) : Except LookupError Snippet := do
  let span ← files.lineSpan id line
  let place ← files.location id span.start
  let index ← files.lineIndex id span.start
  let bytes ← files.lineBytes id index
  let name ← files.name id
  return {
    name
    row := place.1
    column := place.2
    shown := ((Utf8.decode bytes).reverse.dropWhile isHidden).reverse
    label := span.stop - span.start }

/-- How many bytes the shown text has. -/
def shownBytes (s : Snippet) : Nat :=
  (String.ofList s.shown).utf8ByteSize

/-- **The underline**: a caret for every column of the shown text, and one more when the underlined
bytes, at least one, reach behind it. -/
def carets (s : Snippet) : String :=
  let beyond := if s.shownBytes < max s.label 1 then 1 else 0
  String.ofList (List.replicate (Width.ofLine 0 s.shown + beyond) '^')

/-- Spaces as wide as the line number. -/
def padding (s : Snippet) : String :=
  String.ofList (List.replicate (toString s.row).length ' ')

/-- The shown text with its tabs expanded. -/
def source (s : Snippet) : String :=
  String.ofList (Width.expand 0 s.shown)

/-- The first line: what is wrong. -/
def headerLine (message : String) : List Piece :=
  [.ink .severity, .text "error", .ink .title, .text (": " ++ message), .plain, .text "\n"]

/-- The second line: where it is wrong. -/
def originLine (s : Snippet) : List Piece :=
  [.text s.padding, .text " ", .ink .frame, .text "┌─", .plain,
    .text (" " ++ s.name ++ ":" ++ toString s.row ++ ":" ++ toString s.column), .text "\n"]

/-- The third line: only the frame. -/
def emptyLine (s : Snippet) : List Piece :=
  [.text s.padding, .text " ", .ink .frame, .text "│", .plain, .text "\n"]

/-- The fourth line: the source behind its line number. -/
def sourceLine (s : Snippet) : List Piece :=
  [.ink .frame, .text (toString s.row), .plain, .text " ", .ink .frame, .text "│", .plain,
    .text " "] ++ (if s.shown.isEmpty then [] else Piece.inked .mark s.source) ++ [.text "\n"]

/-- The fifth line: the underline with a note behind it. -/
def underline (s : Snippet) (note : String) : List Piece :=
  [.text s.padding, .text " ", .ink .frame, .text "│", .plain, .text " ", .ink .mark,
    .text s.carets, .plain, .text " ", .ink .mark, .text note, .plain, .text "\n"]

/-- **The rich report** of a message and a note about a line; an empty line ends it. -/
def block (s : Snippet) (message note : String) : List Piece :=
  List.flatten [headerLine message, s.originLine, s.emptyLine, s.sourceLine, s.underline note,
    [.text "\n"]]

end Snippet

namespace Diagnostic

/-- The note that stands behind the underline. -/
def note (d : Diagnostic) : String :=
  "error on line " ++ toString d.line

/-- **The rich report of a diagnostic** about a known file. -/
def block (d : Diagnostic) (files : FileTable) (id : Nat) : Except LookupError (List Piece) := do
  let snippet ← Snippet.ofLine files id d.line
  return snippet.block d.fault.message d.note

end Diagnostic

end LoxLexer
