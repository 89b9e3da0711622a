/-!
# Diagnostics

What can be wrong with a source at the lexical level, and where. Neither fault stops a scan.

## Main definitions

* `Fault`: the two lexical faults, with their messages
* `Diagnostic`: a fault on a line, with its one-line text
-/

namespace LoxLexer

/-- A lexical fault. -/
inductive Fault where
  /-- A byte that no token starts with. -/
  | unexpectedCharacter
  /-- A string whose closing quote is missing. -/
  | unterminatedString
deriving DecidableEq, Repr, Inhabited

/-- What a user is told about a fault. -/
def Fault.message : Fault → String
  | unexpectedCharacter => "Unexpected character."
  | unterminatedString => "Unterminated string."

/-- **A fault on a line**, counted from one. -/
structure Diagnostic where
  /-- The line. -/
  line : Nat
  /-- What is wrong there. -/
  fault : Fault
deriving DecidableEq, Repr, Inhabited

/-- A diagnostic in one line. -/
def Diagnostic.display (d : Diagnostic) : String :=
  "[line " ++ toString d.line ++ "] Error: " ++ d.fault.message

end LoxLexer
