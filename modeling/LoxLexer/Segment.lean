import LoxLexer.Token
import LoxLexer.Diagnostic
import LoxLexer.Text.Utf8
import LoxLexer.LineTable

/-!
# Segments

Reading a source cuts it into segments from left to right, each as long as its class allows:
marks and operators, comments, blanks, line breaks, strings, numbers, words, and single bytes that
start nothing. A quote that is never closed takes the rest of the source. What a segment means is
decided from the segment alone: most become one token, two classes are faults, and comments and
white space are silent.

## Main definitions

* `Segment`: a run of bytes with its lexical class
* `Segment.extent`: the class of the next segment, and how far it reaches
* `Segment.split`: the segments of a source
* `Segment.readNumeral?`: the number that a numeral denotes
* `Segment.token?`, `Segment.fault?`: what a segment means

## Main results

* `Segment.bytes_append_rest`: the next segment and the rest make up the input
* `Segment.flatMap_bytes_split`: the segments of a source make up the source
-/

namespace LoxLexer

/-- The lexical classes. -/
inductive SegmentClass where
  /-- A punctuation mark or an operator. -/
  | mark (kind : TokenKind)
  /-- Two slashes and the rest of the line, its line feed excluded. -/
  | comment
  /-- A space, a tab or a carriage return. -/
  | blank
  /-- A line feed. -/
  | lineBreak
  /-- Everything from a quote to the next one, both included. -/
  | string
  /-- A quote that no other one follows, and the rest of the source. -/
  | openString
  /-- Digits, with a fraction if a point and a digit follow. -/
  | number
  /-- A letter or underscore, and the letters, underscores and digits after it. -/
  | word
  /-- A byte that starts nothing else. -/
  | stray
deriving DecidableEq, Repr, Inhabited

/-- **A segment** of a source. -/
structure Segment where
  /-- What the segment is. -/
  cls : SegmentClass
  /-- The bytes it consists of. -/
  bytes : List UInt8
deriving DecidableEq, Repr, Inhabited

namespace Segment

/-- The byte that opens and closes a string. -/
def quote : UInt8 := '\x22'.toUInt8

/-- The byte of division, and of comments when doubled. -/
def slash : UInt8 := '/'.toUInt8

/-- The byte between a number and its fraction. -/
def point : UInt8 := '.'.toUInt8

/-- The byte that turns a comparison into its second form. -/
def equals : UInt8 := '='.toUInt8

/-- The byte of a space. -/
def space : UInt8 := ' '.toUInt8

/-- A decimal digit. -/
def isDigit (b : UInt8) : Bool :=
  '0'.toUInt8 ≤ b && b ≤ '9'.toUInt8

/-- A byte that a word can start with. -/
def isLetter (b : UInt8) : Bool :=
  ('a'.toUInt8 ≤ b && b ≤ 'z'.toUInt8) || ('A'.toUInt8 ≤ b && b ≤ 'Z'.toUInt8) ||
    b == '_'.toUInt8

/-- A byte that a word can go on with. -/
def isWordByte (b : UInt8) : Bool :=
  isLetter b || isDigit b

/-- A byte that only separates tokens within a line. -/
def isBlank (b : UInt8) : Bool :=
  b == space || b == '\t'.toUInt8 || b == '\r'.toUInt8

/-- The marks that are always a token by themselves. -/
def punctuation : List (UInt8 × TokenKind) :=
  [('('.toUInt8, .leftParen), (')'.toUInt8, .rightParen), ('\x7b'.toUInt8, .leftBrace),
    ('\x7d'.toUInt8, .rightBrace), (','.toUInt8, .comma), ('.'.toUInt8, .dot),
    ('-'.toUInt8, .minus), ('+'.toUInt8, .plus), (';'.toUInt8, .semicolon), ('*'.toUInt8, .star)]

/-- The operators that an equals sign extends: the kind alone, and the kind with it. -/
def extensible : List (UInt8 × TokenKind × TokenKind) :=
  [('!'.toUInt8, .bang, .bangEqual), ('='.toUInt8, .equal, .equalEqual),
    ('<'.toUInt8, .less, .lessEqual), ('>'.toUInt8, .greater, .greaterEqual)]

/-- The length of the fraction that `bs` begins with: a point and at least one digit. -/
def fractionLength : List UInt8 → Nat
  | b :: d :: bs => if b == point && isDigit d then 2 + (bs.takeWhile isDigit).length else 0
  | _ => 0

/-- **The next segment** of the input `b :: rest`: its class, and how many bytes of `rest` belong
to it. -/
def extent (b : UInt8) (rest : List UInt8) : SegmentClass × Nat :=
  match punctuation.lookup b, extensible.lookup b with
  | some kind, _ => (.mark kind, 0)
  | none, some (alone, extended) =>
    if rest.head? = some equals then (.mark extended, 1) else (.mark alone, 0)
  | none, none =>
    if b = slash then
      if rest.head? = some slash then (.comment, (rest.takeWhile (· != lineFeed)).length)
      else (.mark .slash, 0)
    else if isBlank b then (.blank, 0)
    else if b = lineFeed then (.lineBreak, 0)
    else if b = quote then
      if rest.contains quote then (.string, (rest.takeWhile (· != quote)).length + 1)
      else (.openString, rest.length)
    else if isDigit b then
      (.number, (rest.takeWhile isDigit).length + fractionLength (rest.dropWhile isDigit))
    else if isLetter b then (.word, (rest.takeWhile isWordByte).length)
    else (.stray, 0)

/-- The segment that the input `b :: rest` begins with. -/
def next (b : UInt8) (rest : List UInt8) : Segment :=
  ⟨(extent b rest).1, b :: rest.take (extent b rest).2⟩

/-- The input after the segment that `b :: rest` begins with. -/
def after (b : UInt8) (rest : List UInt8) : List UInt8 :=
  rest.drop (extent b rest).2

/-- Nothing is lost and nothing is read twice. -/
theorem bytes_append_rest (b : UInt8) (rest : List UInt8) :
    (next b rest).bytes ++ after b rest = b :: rest := by
  simp [next, after]

theorem length_after_lt (b : UInt8) (rest : List UInt8) :
    (after b rest).length < (b :: rest).length := by
  simp only [after, List.length_drop, List.length_cons]
  omega

/-- **The segments of a source.** -/
def split : List UInt8 → List Segment
  | [] => []
  | b :: rest => next b rest :: split (after b rest)
termination_by bs => bs.length
decreasing_by exact length_after_lt b rest

@[simp] theorem split_nil : split [] = [] := by
  rw [split]

theorem split_cons (b : UInt8) (rest : List UInt8) :
    split (b :: rest) = next b rest :: split (after b rest) := by
  rw [split]

/-- The segments cover the source in order. -/
theorem flatMap_bytes_split (bs : List UInt8) : (split bs).flatMap Segment.bytes = bs := by
  fun_induction split bs with
  | case1 => rfl
  | case2 b rest ih => rw [List.flatMap_cons, ih, bytes_append_rest]

/-- The bytes of a string without its two quotes. -/
def unquoted (bs : List UInt8) : List UInt8 :=
  bs.tail.dropLast

/-- **Reads a numeral**: digits, or digits with a point and more digits behind them. Nothing else is
one. -/
def readNumeral? (bs : List UInt8) : Option Binary64 :=
  let whole := bs.takeWhile isDigit
  match bs.dropWhile isDigit with
  | [] => if whole.isEmpty then none else some (.ofDigits whole [])
  | b :: fraction =>
    if b == point && !whole.isEmpty && !fraction.isEmpty && fraction.all isDigit then
      some (.ofDigits whole fraction)
    else none

/-- The number that bytes denote: what is no numeral is no number. -/
def numeral (bs : List UInt8) : Binary64 :=
  (readNumeral? bs).getD .nan

/-- **The token that a segment is**, when it starts on the given line. -/
def token? (line : Nat) (s : Segment) : Option Token :=
  match s.cls with
  | .mark kind => some ⟨kind, Utf8.text s.bytes, none, line⟩
  | .string =>
    some ⟨.string, Utf8.text s.bytes, some (.string (Utf8.text (unquoted s.bytes))), line⟩
  | .number => some ⟨.number, Utf8.text s.bytes, some (.number (numeral s.bytes)), line⟩
  | .word => some ⟨.ofWord s.bytes, Utf8.text s.bytes, none, line⟩
  | .comment | .blank | .lineBreak | .openString | .stray => none

/-- **The fault that a segment is.** -/
def fault? (s : Segment) : Option Fault :=
  match s.cls with
  | .stray => some .unexpectedCharacter
  | .openString => some .unterminatedString
  | _ => none

/-- How many lines end within a segment. -/
def lineFeeds (s : Segment) : Nat :=
  s.bytes.count lineFeed

/-- Where lines start because of a segment that itself starts at `offset`. -/
def lineStarts (offset : Nat) : List UInt8 → List Nat
  | [] => []
  | b :: bs =>
    if b == lineFeed then (offset + 1) :: lineStarts (offset + 1) bs
    else lineStarts (offset + 1) bs

end Segment

end LoxLexer
