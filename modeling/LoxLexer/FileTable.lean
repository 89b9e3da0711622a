import LoxLexer.LineTable
import LoxLexer.Text.Utf8

/-!
# File tables

The sources that diagnostics are shown against. Files are numbered in the order in which their
names first appear; putting a file under a known name replaces text and lines and keeps the
number. All questions name a file by its number.

## Main definitions

* `FileTable.put`: adds or replaces a file
* `FileTable.lineIndex`, `FileTable.lineRange`: from offsets to lines and back
* `FileTable.lineSpan`: a line without its line break
* `FileTable.location`: line and column of an offset, both counted from one
* `LookupError`: why a question has no answer
-/

namespace LoxLexer

/-- A byte that belongs to a line break. -/
def isLineEnd (b : UInt8) : Bool :=
  b == lineFeed || b == '\r'.toUInt8

/-- A line without the line feeds and carriage returns at its end. -/
def trimLineEnd (bs : List UInt8) : List UInt8 :=
  (bs.reverse.dropWhile isLineEnd).reverse

/-- A named source text with its lines. -/
structure SourceFile where
  /-- The name it is shown under. -/
  name : String
  /-- The text. -/
  text : String
  /-- Where the lines start. -/
  lines : LineTable
deriving Repr, Inhabited

/-- Why a question to a file table has no answer. -/
inductive LookupError where
  /-- No file has this number. -/
  | fileMissing
  /-- The offset lies behind the end of the file. -/
  | indexTooLarge (given max : Nat)
  /-- The file has no such line. -/
  | lineTooLarge (given max : Nat)
  /-- The offset lies before the first line of the file. -/
  | beforeFirstLine
  /-- The lines of the file do not fit its text. -/
  | notInText
deriving DecidableEq, Repr, Inhabited

/-- What a user is told about a failed question. There is nothing to tell where the lines of a file
do not fit its text: no such file is ever kept. -/
def LookupError.message : LookupError → String
  | fileMissing => "file missing"
  | indexTooLarge given max =>
    "invalid index " ++ toString given ++ ", maximum index is " ++ toString max
  | lineTooLarge given max =>
    "invalid line " ++ toString given ++ ", maximum line is " ++ toString max
  | beforeFirstLine | notInText => ""

/-- **The known files**, and the number of each name. -/
structure FileTable where
  /-- The files by number. -/
  files : Array SourceFile := #[]
  /-- The number of each file name. -/
  index : List (String × Nat) := []
deriving Repr

namespace FileTable

/-- The table without files. -/
def empty : FileTable := {}

instance : Inhabited FileTable := ⟨empty⟩

/-- **Puts a file** under its name, and says which number it has. -/
def put (t : FileTable) (file : SourceFile) : Nat × FileTable :=
  match t.index.lookup file.name with
  | some id => (id, { t with files := t.files.setIfInBounds id file })
  | none => (t.files.size, ⟨t.files.push file, (file.name, t.files.size) :: t.index⟩)

/-- The file with a number. -/
def get (t : FileTable) (id : Nat) : Except LookupError SourceFile :=
  match t.files[id]? with
  | some file => .ok file
  | none => .error .fileMissing

/-- The name of a file. -/
def name (t : FileTable) (id : Nat) : Except LookupError String := do
  return (← t.get id).name

/-- The text of a file. -/
def text (t : FileTable) (id : Nat) : Except LookupError String := do
  return (← t.get id).text

/-- The line that an offset lies on, counted from zero. -/
def lineIndex (t : FileTable) (id offset : Nat) : Except LookupError Nat := do
  let file ← t.get id
  match file.lines.lineOf offset with
  | .ok line => return line
  | .error .beforeFirstLine => .error .beforeFirstLine
  | .error _ => .error (.indexTooLarge offset file.text.utf8ByteSize)

/-- The range of a line, counted from zero, with its line break. -/
def lineRange (t : FileTable) (id line : Nat) : Except LookupError Span := do
  let file ← t.get id
  match file.lines.lineRange line with
  | .ok range => return range
  | .error _ => .error (.lineTooLarge line file.lines.lines)

/-- The bytes of a line, counted from zero, with its line break. -/
def lineBytes (t : FileTable) (id line : Nat) : Except LookupError (List UInt8) := do
  let file ← t.get id
  let range ← t.lineRange id line
  match Utf8.slice? file.text range.start range.stop with
  | some bytes => return bytes
  | none => .error .notInText

/-- **A line without its line break**, counted from one; line zero is line one. -/
def lineSpan (t : FileTable) (id line : Nat) : Except LookupError Span := do
  let range ← t.lineRange id (line - 1)
  let bytes ← t.lineBytes id (line - 1)
  return ⟨range.start, range.start + (trimLineEnd bytes).length⟩

/-- How many characters of a text end between two offsets. -/
def charactersBetween (text : String) (start stop : Nat) : Nat :=
  (List.range' start (stop - start)).countP fun i => Utf8.isBoundary text (i + 1)

/-- **Line and column of an offset**, counted from one. Columns are characters, and an offset
behind the line or the text counts as its end. -/
def location (t : FileTable) (id offset : Nat) : Except LookupError (Nat × Nat) := do
  let file ← t.get id
  let line ← t.lineIndex id offset
  let range ← t.lineRange id line
  let stop := min offset (min range.stop file.text.utf8ByteSize)
  return (line + 1, charactersBetween file.text range.start stop + 1)

end FileTable

end LoxLexer
