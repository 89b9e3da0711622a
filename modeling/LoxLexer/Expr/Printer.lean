import LoxLexer.Expr

/-!
# Printing expressions

Expressions are printed with the operator first and every node but the literals in parentheses:
`(* (- 123) (group 45.67))`. A printer keeps the text of the last expression it printed.

## Main definitions

* `Expr.render`: the text of an expression
* `Printer`, `Printer.append`, `Printer.print`: the same by appending to a buffer
* `Printer.parenthesize`: what all nodes but the literals have in common
-/

namespace LoxLexer

/-- The word that a grouping is printed with. -/
def Expr.groupWord : String := "group"

/-- **The text of an expression.** -/
def Expr.render : Expr → String
  | .literal v => v.display
  | .grouping inner => "(" ++ Expr.groupWord ++ " " ++ inner.render ++ ")"
  | .unary operator right => "(" ++ operator.lexeme ++ " " ++ right.render ++ ")"
  | .binary left operator right =>
    "(" ++ operator.lexeme ++ " " ++ left.render ++ " " ++ right.render ++ ")"

/-- **A printer** with the text that it printed last. -/
structure Printer where
  /-- What was printed. -/
  buffer : String := ""
deriving DecidableEq, Repr, Inhabited

namespace Printer

/-- Writes a text behind what is in the buffer. -/
def push (p : Printer) (s : String) : Printer :=
  ⟨p.buffer ++ s⟩

/-- Empties the buffer. -/
def clear (p : Printer) : Printer :=
  { p with buffer := "" }

/-- Writes a word in parentheses, and behind it operands with a space before each. An operand is
given by what writes it. -/
def parenthesize (p : Printer) (word : String) (operands : List (Printer → Printer)) : Printer :=
  (operands.foldl (fun q write => write (q.push " ")) ((p.push "(").push word)).push ")"

/-- Writes an expression behind what is in the buffer. -/
def append (p : Printer) : Expr → Printer
  | .literal v => p.push v.display
  | .grouping inner => p.parenthesize Expr.groupWord [fun q => q.append inner]
  | .unary operator right => p.parenthesize operator.lexeme [fun q => q.append right]
  | .binary left operator right =>
    p.parenthesize operator.lexeme [fun q => q.append left, fun q => q.append right]

/-- **Prints an expression** in place of what was printed before. -/
def print (p : Printer) (e : Expr) : Printer :=
  p.clear.append e

end Printer

end LoxLexer
