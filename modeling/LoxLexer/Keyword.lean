/-!
# Reserved words

The sixteen words that cannot be used as identifiers. A word is reserved only in its exact
spelling: case counts, and neither a beginning nor an extension of a reserved word is reserved.

## Main definitions

* `Keyword`: the reserved words
* `Keyword.spelling`: how each is written
* `Keyword.ofBytes?`: the reserved word with a given spelling

## Main results

* `Keyword.ofBytes?_eq_some_iff`: a byte string is a reserved word iff it is its spelling
-/

namespace LoxLexer

/-- The reserved words, in the order of their token kinds. -/
inductive Keyword where
  | andWord
  | classWord
  | elseWord
  | falseWord
  | funWord
  | forWord
  | ifWord
  | nilWord
  | orWord
  | printWord
  | returnWord
  | superWord
  | thisWord
  | trueWord
  | varWord
  | whileWord
deriving DecidableEq, Repr, Inhabited

namespace Keyword

/-- All reserved words. -/
def all : List Keyword :=
  [andWord, classWord, elseWord, falseWord, funWord, forWord, ifWord, nilWord, orWord, printWord,
    returnWord, superWord, thisWord, trueWord, varWord, whileWord]

/-- How a reserved word is written. -/
def spelling : Keyword → String
  | andWord => "and"
  | classWord => "class"
  | elseWord => "else"
  | falseWord => "false"
  | funWord => "fun"
  | forWord => "for"
  | ifWord => "if"
  | nilWord => "nil"
  | orWord => "or"
  | printWord => "print"
  | returnWord => "return"
  | superWord => "super"
  | thisWord => "this"
  | trueWord => "true"
  | varWord => "var"
  | whileWord => "while"

/-- The spelling of a reserved word, byte by byte. -/
def bytes (k : Keyword) : List UInt8 :=
  k.spelling.toList.map Char.toUInt8

/-- **Classification of words**: the reserved word that is spelled so, if there is one. -/
def ofBytes? (bs : List UInt8) : Option Keyword :=
  all.find? fun k => k.bytes == bs

/-- Different words have different spellings, so that each is found by its own. -/
theorem ofBytes?_bytes (k : Keyword) : ofBytes? k.bytes = some k := by
  cases k <;> decide

theorem ofBytes?_eq_some_iff {bs : List UInt8} {k : Keyword} :
    ofBytes? bs = some k ↔ k.bytes = bs := by
  constructor
  · intro h
    simpa using List.find?_some h
  · rintro rfl
    exact ofBytes?_bytes k

end Keyword

end LoxLexer
