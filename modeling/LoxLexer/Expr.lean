import LoxLexer.Value

/-!
# Expressions

Expressions of the language as trees: literals, groupings, and operators before one or between two
operands. Operators are whole tokens, so that two expressions with the same operators on different
lines differ.

## Main definitions

* `Expr`: the expressions
* `Expr.same`: equality of expressions
* `Expr.nodes`: how many nodes are no literals
-/

namespace LoxLexer

/-- **An expression.** -/
inductive Expr where
  /-- A value. -/
  | literal (value : Value)
  /-- An expression in parentheses. -/
  | grouping (inner : Expr)
  /-- An operator before its operand. -/
  | unary (operator : Token) (right : Expr)
  /-- An operator between its operands. -/
  | binary (left : Expr) (operator : Token) (right : Expr)
deriving Repr, Inhabited

namespace Expr

/-- **Equality of expressions**: the same shape with the same tokens and values. -/
def same : Expr → Expr → Bool
  | literal v, literal w => v == w
  | grouping a, grouping b => a.same b
  | unary s a, unary t b => s == t && a.same b
  | binary a s b, binary c t d => a.same c && s == t && b.same d
  | _, _ => false

instance : BEq Expr := ⟨same⟩

/-- How many nodes of an expression are not literals. -/
def nodes : Expr → Nat
  | literal _ => 0
  | grouping inner => inner.nodes + 1
  | unary _ right => right.nodes + 1
  | binary left _ right => left.nodes + right.nodes + 1

end Expr

end LoxLexer
