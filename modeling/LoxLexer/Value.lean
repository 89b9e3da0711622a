import LoxLexer.Token

/-!
# Values

The values that a program can write down: `nil`, the truth values, numbers and strings. A token
denotes a value by its kind; a number or string token also needs a literal of its own sort.

## Main definitions

* `Value`: the values, with their text `Value.display`
* `Value.ofToken?`: the value that a token denotes
-/

namespace LoxLexer

/-- **A value** of the language. -/
inductive Value where
  /-- The absence of a value. -/
  | nil
  /-- A truth value. -/
  | bool (value : Bool)
  /-- A number. -/
  | number (value : Binary64)
  /-- A text. -/
  | string (value : String)
deriving Repr, Inhabited

namespace Value

/-- The text of a value; a string is written without quotes. -/
def display : Value → String
  | nil => "nil"
  | bool b => if b then "true" else "false"
  | number x => x.display
  | string s => s

/-- Equality of values; numbers are compared as numbers. -/
def same : Value → Value → Bool
  | nil, nil => true
  | bool a, bool b => a == b
  | number x, number y => x == y
  | string s, string t => s == t
  | _, _ => false

instance : BEq Value := ⟨same⟩

/-- **The value that a token denotes.** The literal of `nil` and of the truth values is of no
account. -/
def ofToken? (t : Token) : Option Value :=
  match t.kind, t.literal with
  | .keyword .nilWord, _ => some nil
  | .keyword .trueWord, _ => some (bool true)
  | .keyword .falseWord, _ => some (bool false)
  | .number, some (.number x) => some (number x)
  | .string, some (.string s) => some (string s)
  | _, _ => none

end Value

end LoxLexer
