import LoxLexer.Expr.Printer
import Mathlib.Combinatorics.Enumerative.DyckWord

/-!
# Printing to a buffer

A printer writes to a buffer that all parts of an expression share, and never looks at what is in it.
So whatever it writes stands behind what was there, and an expression is written as its text,
wherever it stands in a larger one. As the buffer is emptied before each expression, nothing is left
of those that were printed earlier.

The text has a pair of parentheses for each node, around those of the operands. If operators and
literals hold no parentheses, then there are no others, and the text is balanced.

## Main definitions

* `Printer.Writes write text`: `write` appends `text`, whatever is in the buffer
* `Printer.printEach p es`: prints the expressions `es` one after the other, and collects the texts
* `parentheses s`: the parentheses of the text `s`, as steps up and down
* `Balanced s`: the parentheses of `s` form a Dyck word
* `Expr.words e`: the operators and the texts of the literals of `e`
* `Expr.outline e`: the Dyck word with a pair of parentheses for each node of `e`

## Main results

* `Printer.Writes.parenthesize`: what is written in parentheses, by what the operands write
* `Printer.writes_append`: an expression is written as its text
* `Printer.printEach_eq`: what a printer answers and holds after many expressions
* `Expr.parentheses_render`: the parentheses of a text are the outline of the expression
* `Printer.printing_renders`: printing is rendering, and gives balanced texts
-/

namespace LoxLexer

/-! ## Writing to the buffer -/

namespace Printer

section Writes

variable {write write' : Printer → Printer} {operands : List (Printer → Printer)}
  {text text' : String} {texts : List String}

/-- **What is written to a printer**: the text is appended, whatever is in the buffer. -/
def Writes (write : Printer → Printer) (text : String) : Prop :=
  ∀ p, (write p).buffer = p.buffer ++ text

theorem writes_push (s : String) : Writes (fun p => p.push s) s := by
  intro p
  rfl

theorem Writes.andThen (h : Writes write text) (h' : Writes write' text') :
    Writes (fun p => write' (write p)) (text ++ text') := by
  intro p
  rw [h', h, String.append_assoc]

/-- The loop over the operands writes a space before each. -/
theorem Writes.foldl (h : List.Forall₂ Writes operands texts) :
    Writes (fun p => operands.foldl (fun q write => write (q.push " ")) p)
      (String.join (texts.map (" " ++ ·))) := by
  induction h with
  | nil =>
    intro p
    exact String.append_empty.symm
  | cons hwrite _ ih =>
    rw [List.map_cons, String.join_cons]
    exact ((writes_push " ").andThen hwrite).andThen ih

/-- **What is written in parentheses**, by what the operands write. -/
theorem Writes.parenthesize (word : String) (h : List.Forall₂ Writes operands texts) :
    Writes (fun p => p.parenthesize word operands)
      ("(" ++ word ++ String.join (texts.map (" " ++ ·)) ++ ")") :=
  (((writes_push "(").andThen (writes_push word)).andThen (.foldl h)).andThen (writes_push ")")

/-- **An expression is written as its text.** -/
theorem writes_append (e : Expr) : Writes (fun p => p.append e) e.render := by
  -- `Writes` speaks of every buffer, so the hypotheses fit the operands wherever these are written
  induction e with
  | literal v => exact writes_push v.display
  | grouping inner ih =>
    have written := Writes.parenthesize Expr.groupWord (.cons ih .nil)
    simpa [append, Expr.render, String.append_assoc] using written
  | unary operator right ih =>
    have written := Writes.parenthesize operator.lexeme (.cons ih .nil)
    simpa [append, Expr.render, String.append_assoc] using written
  | binary left operator right ihl ihr =>
    -- the right operand finds the left one in the buffer, and leaves it there
    have written := Writes.parenthesize operator.lexeme (.cons ihl (.cons ihr .nil))
    simpa [append, Expr.render, String.append_assoc] using written

end Writes

/-! ## Printing again and again -/

section Runs

theorem print_eq (p : Printer) (e : Expr) : p.print e = ⟨e.render⟩ := by
  have written : (p.print e).buffer = "" ++ e.render := writes_append e p.clear
  rw [String.empty_append] at written
  rw [← written]

theorem buffer_print (p : Printer) (e : Expr) : (p.print e).buffer = e.render := by
  rw [print_eq]

/-- Prints expressions one after the other, and collects their texts. -/
def printEach (p : Printer) : List Expr → List String × Printer
  | [] => ([], p)
  | e :: es =>
    ((p.print e).buffer :: ((p.print e).printEach es).1, ((p.print e).printEach es).2)

/-- **Every expression is answered by its own text**, and the last text remains. -/
theorem printEach_eq (p : Printer) (es : List Expr) :
    p.printEach es = (es.map Expr.render, ⟨(es.map Expr.render).getLastD p.buffer⟩) := by
  induction es generalizing p with
  | nil => rfl
  | cons e es ih => rw [printEach, ih, buffer_print, List.map_cons, List.getLastD_cons]

end Runs

end Printer

/-! ## Parentheses -/

section Parentheses

open DyckStep

/-- A parenthesis as a step: up where it opens, and down where it closes. -/
def parenthesis? : Char → Option DyckStep
  | '(' => some U
  | ')' => some D
  | _ => none

/-- **The parentheses of a text**, in their order. -/
def parentheses (s : String) : List DyckStep :=
  s.toList.filterMap parenthesis?

/-- **A balanced text**: its parentheses form a Dyck word, so as many close as open, and nowhere have
more closed than opened. -/
def Balanced (s : String) : Prop :=
  ∃ w : DyckWord, parentheses s = w

@[simp] theorem parentheses_append (s t : String) :
    parentheses (s ++ t) = parentheses s ++ parentheses t := by
  rw [parentheses, String.toList_append, List.filterMap_append]
  rfl

@[simp] theorem parentheses_open : parentheses "(" = [U] := rfl

@[simp] theorem parentheses_close : parentheses ")" = [D] := rfl

@[simp] theorem parentheses_space : parentheses " " = [] := rfl

@[simp] theorem parentheses_groupWord : parentheses Expr.groupWord = [] := rfl

theorem parentheses_eq_nil {s : String} (hopen : '(' ∉ s.toList) (hclose : ')' ∉ s.toList) :
    parentheses s = [] := by
  apply List.filterMap_eq_nil_iff.mpr
  intro c hc
  rw [parenthesis?]
  · rintro rfl
    exact hopen hc
  · rintro rfl
    exact hclose hc

/-- The steps up are the parentheses that open. -/
theorem count_U_parentheses (s : String) : (parentheses s).count U = s.toList.count '(' := by
  rw [parentheses, List.count, List.countP_filterMap, List.count]
  congr 1
  ext c
  rw [parenthesis?.eq_def]
  split <;> simp_all

@[simp] theorem toList_nest (w : DyckWord) : w.nest.toList = U :: (w.toList ++ [D]) := rfl

@[simp] theorem toList_add (w v : DyckWord) : (w + v).toList = w.toList ++ v.toList := rfl

namespace Expr

/-- **The words of an expression**: its operators and the texts of its literals. -/
def words : Expr → List String
  | literal v => [v.display]
  | grouping inner => inner.words
  | unary operator right => operator.lexeme :: right.words
  | binary left operator right => operator.lexeme :: (left.words ++ right.words)

/-- **The outline of an expression**: a pair of parentheses for each node that is no literal, around
those of its operands. -/
def outline : Expr → DyckWord
  | literal _ => 0
  | grouping inner => inner.outline.nest
  | unary _ right => right.outline.nest
  | binary left _ right => (left.outline + right.outline).nest

theorem semilength_outline (e : Expr) : e.outline.semilength = e.nodes := by
  induction e with
  | literal v => rfl
  | grouping inner ih => rw [outline, DyckWord.semilength_nest, ih, nodes]
  | unary operator right ih => rw [outline, DyckWord.semilength_nest, ih, nodes]
  | binary left operator right ihl ihr =>
    rw [outline, DyckWord.semilength_nest, DyckWord.semilength_add, ihl, ihr, nodes]

/-- **The parentheses of a text are the outline of the expression**, if its words hold none. -/
theorem parentheses_render {e : Expr} (h : ∀ s ∈ e.words, parentheses s = []) :
    parentheses e.render = e.outline := by
  induction e with
  | literal v => exact h _ List.mem_cons_self
  | grouping inner ih => simp [render, outline, ih h]
  | unary operator right ih =>
    obtain ⟨hop, hright⟩ := List.forall_mem_cons.mp h
    simp [render, outline, hop, ih hright]
  | binary left operator right ihl ihr =>
    obtain ⟨hop, hrest⟩ := List.forall_mem_cons.mp h
    obtain ⟨hleft, hright⟩ := List.forall_mem_append.mp hrest
    simp [render, outline, hop, ihl hleft, ihr hright]

end Expr

end Parentheses

/-- **Printing is rendering.** Whatever is in the buffer, writing an expression of any size appends
its text and leaves the rest as it is. So a new printer answers each of any expressions with its own
text, and holds the last of these texts, or nothing if there is none. If neither operators nor
literals hold parentheses, then what is printed is balanced, with as many parentheses that open as
the expression has nodes that are no literals. -/
theorem Printer.printing_renders :
    (∀ (p : Printer) (e : Expr), (p.append e).buffer = p.buffer ++ e.render) ∧
    (∀ es : List Expr, ({} : Printer).printEach es =
      (es.map Expr.render, ⟨(es.map Expr.render).getLastD ""⟩)) ∧
    ∀ (p : Printer) (e : Expr), (∀ s ∈ e.words, '(' ∉ s.toList ∧ ')' ∉ s.toList) →
      Balanced (p.print e).buffer ∧ (p.print e).buffer.toList.count '(' = e.nodes := by
  refine ⟨?_, ?_, ?_⟩
  · intro p e
    exact writes_append e p
  · intro es
    exact printEach_eq {} es
  · intro p e h
    have outlined : parentheses e.render = e.outline := by
      apply Expr.parentheses_render
      intro s hs
      exact parentheses_eq_nil (h s hs).1 (h s hs).2
    rw [buffer_print]
    refine ⟨⟨e.outline, outlined⟩, ?_⟩
    calc
      e.render.toList.count '(' = (parentheses e.render).count .U := (count_U_parentheses _).symm
      _ = e.outline.semilength := by rw [outlined, DyckWord.semilength]
      _ = e.nodes := e.semilength_outline

/-- A product with a literal that is no word, printed after a text that is not balanced. -/
theorem Printer.printing_renders_spaced :
    let p := ({} : Printer).print (.literal (.string "(("))
    let e := Expr.binary (.unary ⟨.minus, "-", none, 1⟩ (.literal (.string "a b")))
      ⟨.star, "*", none, 1⟩ (.grouping (.literal .nil))
    (∀ s ∈ e.words, '(' ∉ s.toList ∧ ')' ∉ s.toList) ∧
    Balanced (p.print e).buffer ∧ (p.print e).buffer.toList.count '(' = 3 := by
  intro p e
  have he : ∀ s ∈ e.words, '(' ∉ s.toList ∧ ')' ∉ s.toList := by decide
  exact ⟨he, printing_renders.2.2 p e he⟩

/-- A literal may bring parentheses of its own, and then they are not those of the nodes. -/
example :
    let e := Expr.grouping (.literal (.string ")("))
    (({} : Printer).print e).buffer = "(group )()" ∧ e.nodes = 1 := by decide

end LoxLexer
