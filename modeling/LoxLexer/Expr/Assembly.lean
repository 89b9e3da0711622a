import LoxLexer.Expr.Printer

/-!
# Assembling expressions

Expressions are assembled on a stack: values are pushed, operators take their operands from the
top, right operand first. The expression on top can be printed and compared with the one below it.

## Main definitions

* `Assembly`: the stack, a printer, and the answers so far
* `Assembly.Step`: what can be done
* `Assembly.run`: a sequence of steps; there is no result when the stack holds too little
-/

namespace LoxLexer

/-- **An assembly** of expressions. -/
structure Assembly where
  /-- The expressions, the latest first. -/
  stack : List Expr := []
  /-- The printer in use. -/
  printer : Printer := {}
deriving Repr, Inhabited

namespace Assembly

/-- A step of an assembly. -/
inductive Step where
  /-- Push a value. -/
  | value (v : Value)
  /-- Push the value that a token denotes. -/
  | token (t : Token)
  /-- Apply an operator to the top. -/
  | unary (operator : Token)
  /-- Apply an operator to the two on top. -/
  | binary (operator : Token)
  /-- Put the top in parentheses. -/
  | grouping
  /-- Drop the top. -/
  | pop
  /-- Take some steps several times. -/
  | times (n : Nat) (steps : List Step)
  /-- Print the top. -/
  | print
  /-- Ask for what was printed last. -/
  | printed
  /-- Compare the two on top. -/
  | compare
deriving Inhabited

/-- What a step answers. -/
inductive Answer where
  /-- A printed expression. -/
  | text (s : String)
  /-- Whether two expressions are equal. -/
  | equal (b : Bool)
  /-- The token denotes no value. -/
  | notAValue
deriving DecidableEq, Repr, Inhabited

/-- An assembly, and the answers given so far. -/
abbrev Progress := Assembly × Array Answer

/-- Applies a step as often as asked. -/
def iterate (f : Progress → Option Progress) : Nat → Progress → Option Progress
  | 0, p => some p
  | n + 1, p => (f p).bind (iterate f n)

mutual

/-- **Takes one step.** -/
def step : Step → Progress → Option Progress
  | .value v, (a, out) => some ({ a with stack := .literal v :: a.stack }, out)
  | .token t, (a, out) =>
    match Value.ofToken? t with
    | some v => some ({ a with stack := .literal v :: a.stack }, out)
    | none => some (a, out.push .notAValue)
  | .unary operator, (a, out) =>
    match a.stack with
    | right :: rest => some ({ a with stack := .unary operator right :: rest }, out)
    | _ => none
  | .binary operator, (a, out) =>
    match a.stack with
    | right :: left :: rest => some ({ a with stack := .binary left operator right :: rest }, out)
    | _ => none
  | .grouping, (a, out) =>
    match a.stack with
    | inner :: rest => some ({ a with stack := .grouping inner :: rest }, out)
    | _ => none
  | .pop, (a, out) =>
    match a.stack with
    | _ :: rest => some ({ a with stack := rest }, out)
    | _ => none
  | .times n steps, p => iterate (run steps) n p
  | .print, (a, out) =>
    match a.stack with
    | top :: _ =>
      let printer := a.printer.print top
      some ({ a with printer }, out.push (.text printer.buffer))
    | _ => none
  | .printed, (a, out) => some (a, out.push (.text a.printer.buffer))
  | .compare, (a, out) =>
    match a.stack with
    | top :: below :: _ => some (a, out.push (.equal (below == top)))
    | _ => none

/-- **Takes steps in a row.** -/
def run : List Step → Progress → Option Progress
  | [], p => some p
  | s :: ss, p => (step s p).bind (run ss)

end

/-- The answers to a sequence of steps from an empty stack. -/
def answers (steps : List Step) : Option (List Answer) :=
  (run steps ({}, #[])).map fun p => p.2.toList

end Assembly

end LoxLexer
