import LoxLexer.Keyword
import LoxLexer.Number.Shortest

/-!
# Tokens

A token is a kind, the text it was read from, the value it carries if it is a literal, and the
line it starts on. A token is written as its kind, its lexeme and its literal, one space between
each, so that a token without literal ends in a space.

## Main definitions

* `TokenKind`: the thirty-nine kinds, with `TokenKind.name` and `TokenKind.all`
* `Literal`: the values that tokens carry
* `Token`: a token, with `Token.display` and the equality `Token.same`

## Main results

* `TokenKind.ofName?_name`: kinds are told apart by their names
-/

namespace LoxLexer

/-- The kinds of tokens. -/
inductive TokenKind where
  | leftParen
  | rightParen
  | leftBrace
  | rightBrace
  | comma
  | dot
  | minus
  | plus
  | semicolon
  | slash
  | star
  | bang
  | bangEqual
  | equal
  | equalEqual
  | greater
  | greaterEqual
  | less
  | lessEqual
  | identifier
  | string
  | number
  | keyword (word : Keyword)
  | endOfInput
deriving DecidableEq, Repr, Inhabited

namespace TokenKind

/-- All kinds: marks, operators, literals, reserved words and the end of the input. -/
def all : List TokenKind :=
  [leftParen, rightParen, leftBrace, rightBrace, comma, dot, minus, plus, semicolon, slash, star,
    bang, bangEqual, equal, equalEqual, greater, greaterEqual, less, lessEqual,
    identifier, string, number] ++ Keyword.all.map keyword ++ [endOfInput]

/-- The name of a kind. A reserved word is named by its spelling in capitals. -/
def name : TokenKind → String
  | leftParen => "LEFT_PAREN"
  | rightParen => "RIGHT_PAREN"
  | leftBrace => "LEFT_BRACE"
  | rightBrace => "RIGHT_BRACE"
  | comma => "COMMA"
  | dot => "DOT"
  | minus => "MINUS"
  | plus => "PLUS"
  | semicolon => "SEMICOLON"
  | slash => "SLASH"
  | star => "STAR"
  | bang => "BANG"
  | bangEqual => "BANG_EQUAL"
  | equal => "EQUAL"
  | equalEqual => "EQUAL_EQUAL"
  | greater => "GREATER"
  | greaterEqual => "GREATER_EQUAL"
  | less => "LESS"
  | lessEqual => "LESS_EQUAL"
  | identifier => "IDENTIFIER"
  | string => "STRING"
  | number => "NUMBER"
  | keyword .andWord => "AND"
  | keyword .classWord => "CLASS"
  | keyword .elseWord => "ELSE"
  | keyword .falseWord => "FALSE"
  | keyword .funWord => "FUN"
  | keyword .forWord => "FOR"
  | keyword .ifWord => "IF"
  | keyword .nilWord => "NIL"
  | keyword .orWord => "OR"
  | keyword .printWord => "PRINT"
  | keyword .returnWord => "RETURN"
  | keyword .superWord => "SUPER"
  | keyword .thisWord => "THIS"
  | keyword .trueWord => "TRUE"
  | keyword .varWord => "VAR"
  | keyword .whileWord => "WHILE"
  | endOfInput => "EOF"

/-- The kind with a given name. -/
def ofName? (s : String) : Option TokenKind :=
  all.find? fun k => k.name == s

/-- The kind of a word: that of the reserved word it spells, or an identifier. -/
def ofWord (bs : List UInt8) : TokenKind :=
  match Keyword.ofBytes? bs with
  | some k => keyword k
  | none => identifier

theorem ofName?_name (k : TokenKind) : ofName? k.name = some k := by
  cases k with
  | keyword w => cases w <;> decide
  | _ => decide

end TokenKind

/-- The value of a literal token. -/
inductive Literal where
  /-- A number. -/
  | number (value : Binary64)
  /-- The text between the quotes. -/
  | string (value : String)
deriving Repr, Inhabited

namespace Literal

/-- The text of a literal; a string is written without quotes. -/
def display : Literal → String
  | number x => x.display
  | string s => s

/-- Equality of literals; numbers are compared as numbers. -/
def same : Literal → Literal → Bool
  | number x, number y => x == y
  | string s, string t => s == t
  | _, _ => false

instance : BEq Literal := ⟨same⟩

end Literal

/-- **A token** of the language. -/
structure Token where
  /-- Which kind of token it is. -/
  kind : TokenKind
  /-- The text it was read from. -/
  lexeme : String
  /-- The value it carries. -/
  literal : Option Literal
  /-- The line of its first byte, counted from one. -/
  line : Nat
deriving Repr, Inhabited

namespace Token

/-- The token that ends every token list. -/
def endOfInput (line : Nat) : Token :=
  ⟨.endOfInput, "", none, line⟩

/-- A token in one line: kind, lexeme and literal. -/
def display (t : Token) : String :=
  t.kind.name ++ " " ++ t.lexeme ++ " " ++ (t.literal.map Literal.display).getD ""

/-- Equality of tokens in all four parts. -/
def same (s t : Token) : Bool :=
  s.kind == t.kind && s.lexeme == t.lexeme && s.literal == t.literal && s.line == t.line

instance : BEq Token := ⟨same⟩

end Token

end LoxLexer
