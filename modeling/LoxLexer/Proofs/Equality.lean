import LoxLexer.Proofs.PrefixNotation

/-!
# Equality of expressions from sources

Numbers are compared as numbers, so equality of expressions is not identity: a NaN differs from
itself, and zeros with and without a sign are equal while their texts are not. Neither can be written
down. A numeral has no sign and can always be read, so the numbers in the literals and in the
operators of an expression from sources are plain, and between plain numbers equality is identity.

## Main definitions

* `Binary64.Plain x`: the number `x` is no NaN and has no sign
* `Expr.numbers e`: all numbers that `e` holds, in its values and in its operators
* `Expr.FromSources e`: the values and operators of `e` are taken from tokens of sources

## Main results

* `Expr.beq_iff`: equality of expressions that hold plain numbers is identity
* `plain_of_mem_tokens`, `Expr.FromSources.plain`: what is taken from sources holds plain numbers
* `Expr.equality_of_sources`: equality of expressions from sources is an equivalence, and equal ones
  have the same text
-/

namespace LoxLexer

/-! ## Plain numbers -/

namespace Binary64

variable {x y : Binary64}

/-- **A plain number**: no NaN, and without a sign. -/
structure Plain (x : Binary64) : Prop where
  isNaN_eq : x.isNaN = false
  isNegative_eq : x.isNegative = false

/-- A plain number is its magnitude. -/
theorem Plain.magnitude_eq (h : x.Plain) : x.magnitude = x.bits.toNat := by
  have small : x.bits.toNat < twoPow 63 := by
    have := h.isNegative_eq
    rwa [isNegative, decide_eq_false_iff_not, not_le] at this
  rw [magnitude, Nat.mod_eq_of_lt small]

/-- **Plain numbers are equal only to themselves.** -/
theorem Plain.beq_iff (hx : x.Plain) (hy : y.Plain) : (x == y) = true ↔ x = y := by
  change x.same y = true ↔ x = y
  rw [same, hx.isNaN_eq, hy.isNaN_eq]
  constructor
  · intro h
    have bits : x.bits = y.bits := by
      simp only [Bool.not_false, Bool.true_and, Bool.or_eq_true, Bool.and_eq_true, beq_iff_eq] at h
      rcases h with hbits | ⟨hzero, hzero'⟩
      · exact hbits
      · -- of the two zeros only one is plain
        rw [hx.magnitude_eq] at hzero
        rw [hy.magnitude_eq] at hzero'
        exact UInt64.toNat_inj.mp (hzero.trans hzero'.symm)
    exact congrArg Binary64.mk bits
  · rintro rfl
    simp

theorem plain_ofDigits (ds es : List UInt8) : (ofDigits ds es).Plain :=
  ⟨isNaN_ofRatio _ _, isNegative_ofRatio _ _⟩

end Binary64

/-! ## The numbers of an expression -/

section Numbers

/-- The number of a literal. -/
def Literal.numbers : Literal → List Binary64
  | number x => [x]
  | string _ => []

/-- The number in the literal of a token. -/
def Token.numbers (t : Token) : List Binary64 :=
  t.literal.toList.flatMap Literal.numbers

/-- The number of a value. -/
def Value.numbers : Value → List Binary64
  | number x => [x]
  | nil | bool _ | string _ => []

/-- **All numbers that an expression holds**, in its values and in its operators. -/
def Expr.numbers : Expr → List Binary64
  | literal v => v.numbers
  | grouping inner => inner.numbers
  | unary operator right => operator.numbers ++ right.numbers
  | binary left operator right => left.numbers ++ (operator.numbers ++ right.numbers)

/-- The numbers of the value that a token denotes are those of the token. -/
theorem Value.numbers_of_ofToken? {t : Token} {v : Value} (h : ofToken? t = some v) :
    ∀ x ∈ v.numbers, x ∈ t.numbers := by
  intro x hx
  cases v with
  | number y =>
    rw [numbers, List.mem_singleton] at hx
    subst hx
    have hliteral : t.literal = some (.number x) := by
      rw [ofToken?] at h
      split at h <;> simp_all
    rw [Token.numbers, hliteral]
    exact List.mem_singleton_self x
  | nil | bool | string => cases hx

end Numbers

/-! ## Equality is identity -/

section Identity

theorem Literal.beq_iff {l m : Literal} (hl : ∀ x ∈ l.numbers, x.Plain)
    (hm : ∀ x ∈ m.numbers, x.Plain) : (l == m) = true ↔ l = m := by
  change l.same m = true ↔ l = m
  cases l with
  | number x =>
    cases m with
    | number y =>
      have hx := hl x List.mem_cons_self
      have hy := hm y List.mem_cons_self
      rw [same, hx.beq_iff hy, number.injEq]
    | string t => simp [same]
  | string s =>
    cases m with
    | number y => simp [same]
    | string t => simp [same]

theorem Value.beq_iff {v w : Value} (hv : ∀ x ∈ v.numbers, x.Plain)
    (hw : ∀ x ∈ w.numbers, x.Plain) : (v == w) = true ↔ v = w := by
  change v.same w = true ↔ v = w
  cases v with
  | number x =>
    cases w with
    | number y =>
      have hx := hv x List.mem_cons_self
      have hy := hw y List.mem_cons_self
      rw [same, hx.beq_iff hy, number.injEq]
    | nil | bool | string => simp [same]
  | nil => cases w <;> simp [same]
  | bool b => cases w <;> simp [same]
  | string s => cases w <;> simp [same]

theorem Token.beq_iff {s t : Token} (hs : ∀ x ∈ s.numbers, x.Plain)
    (ht : ∀ x ∈ t.numbers, x.Plain) : (s == t) = true ↔ s = t := by
  obtain ⟨kind, lexeme, literal, line⟩ := s
  obtain ⟨kind', lexeme', literal', line'⟩ := t
  have literals : (literal == literal') = true ↔ literal = literal' := by
    cases literal with
    | none => cases literal' <;> simp
    | some l =>
      cases literal' with
      | none => simp
      | some m =>
        have hl : ∀ x ∈ l.numbers, x.Plain := by simpa [numbers] using hs
        have hm : ∀ x ∈ m.numbers, x.Plain := by simpa [numbers] using ht
        rw [Option.some_beq_some, Literal.beq_iff hl hm, Option.some.injEq]
  change same _ _ = true ↔ _
  simp [same, literals, and_assoc]

/-- **Equality of expressions that hold plain numbers is identity.** -/
theorem Expr.beq_iff {e f : Expr} (he : ∀ x ∈ e.numbers, x.Plain)
    (hf : ∀ x ∈ f.numbers, x.Plain) : (e == f) = true ↔ e = f := by
  change e.same f = true ↔ e = f
  -- the induction is on one expression, for all others; those of another sort are not equal to it
  induction e generalizing f with
  | literal v =>
    cases f with
    | literal w => rw [same, Value.beq_iff he hf, literal.injEq]
    | grouping | unary | binary => simp [same]
  | grouping inner ih =>
    cases f with
    | grouping inner' =>
      have hinner' : ∀ x ∈ inner'.numbers, x.Plain := hf
      rw [same, ih he hinner', grouping.injEq]
    | literal | unary | binary => simp [same]
  | unary s right ih =>
    cases f with
    | unary t right' =>
      obtain ⟨hs, hright⟩ := List.forall_mem_append.mp he
      obtain ⟨ht, hright'⟩ := List.forall_mem_append.mp hf
      rw [same, Bool.and_eq_true, Token.beq_iff hs ht, ih hright hright', unary.injEq]
    | literal | grouping | binary => simp [same]
  | binary left s right ihl ihr =>
    cases f with
    | binary left' t right' =>
      obtain ⟨hleft, hrest⟩ := List.forall_mem_append.mp he
      obtain ⟨hs, hright⟩ := List.forall_mem_append.mp hrest
      obtain ⟨hleft', hrest'⟩ := List.forall_mem_append.mp hf
      obtain ⟨ht, hright'⟩ := List.forall_mem_append.mp hrest'
      rw [same, Bool.and_eq_true, Bool.and_eq_true, ihl hleft hleft', Token.beq_iff hs ht,
        ihr hright hright', binary.injEq, and_assoc]
    | literal | grouping | unary => simp [same]

/-- Of other numbers this is not true: the zeros are equal, but their texts are not, and a NaN is not
even equal to itself. -/
example :
    let zero := Expr.literal (.number ⟨0⟩)
    let signed := Expr.literal (.number ⟨0x8000000000000000⟩)
    let nan := Expr.literal (.number .nan)
    (zero == signed) = true ∧ zero.render ≠ signed.render ∧ (nan == nan) = false := by
  decide +kernel

end Identity

/-! ## Expressions from sources -/

section Sources

/-- **The tokens of a source hold plain numbers.** -/
theorem plain_of_mem_tokens {source : List UInt8} {t : Token} (ht : t ∈ (scan source).tokens) :
    ∀ x ∈ t.numbers, x.Plain := by
  intro x hx
  rw [tokens_scan] at ht
  rcases List.mem_append.mp ht with ht | ht
  · obtain ⟨c, spells⟩ := Grammar.exists_spells ht
    rcases Grammar.literal_of_token? spells.token?_eq with hnone | ⟨-, hstring⟩ | ⟨hc, hnumber⟩
    · simp [Token.numbers, hnone] at hx
    · simp [Token.numbers, hstring, Literal.numbers] at hx
    · -- a numeral that could not be read would be a NaN
      obtain rfl : c = .number := hc
      obtain ⟨ds, es, hnumeral⟩ := Numeral.exists_of_mem_language spells.mem_language
      rw [Segment.numeral, hnumeral.readNumeral?_eq, Option.getD_some] at hnumber
      obtain rfl : x = .ofDigits ds es := by
        simpa [Token.numbers, hnumber, Literal.numbers] using hx
      exact Binary64.plain_ofDigits ds es
  · rw [List.mem_singleton.mp ht] at hx
    cases hx

namespace Expr

/-- **An expression from sources**: its values are denoted by tokens of sources, and its operators
are such tokens. Each may be taken from a source of its own. -/
inductive FromSources : Expr → Prop
  | literal {source : List UInt8} {t : Token} {v : Value} (ht : t ∈ (scan source).tokens)
      (hv : Value.ofToken? t = some v) : FromSources (literal v)
  | grouping {inner : Expr} (h : FromSources inner) : FromSources (grouping inner)
  | unary {source : List UInt8} {t : Token} {right : Expr} (ht : t ∈ (scan source).tokens)
      (h : FromSources right) : FromSources (unary t right)
  | binary {source : List UInt8} {t : Token} {left right : Expr} (hleft : FromSources left)
      (ht : t ∈ (scan source).tokens) (hright : FromSources right) :
    FromSources (binary left t right)

/-- **Expressions from sources hold plain numbers.** -/
theorem FromSources.plain {e : Expr} (h : e.FromSources) : ∀ x ∈ e.numbers, x.Plain := by
  induction h with
  | literal ht hv =>
    intro x hx
    exact plain_of_mem_tokens ht x (Value.numbers_of_ofToken? hv x hx)
  | grouping _ ih => exact ih
  | unary ht _ ih => exact List.forall_mem_append.mpr ⟨plain_of_mem_tokens ht, ih⟩
  | binary _ ht _ ihl ihr =>
    have rest := List.forall_mem_append.mpr ⟨plain_of_mem_tokens ht, ihr⟩
    exact List.forall_mem_append.mpr ⟨ihl, rest⟩

theorem FromSources.beq_iff {e f : Expr} (he : e.FromSources) (hf : f.FromSources) :
    (e == f) = true ↔ e = f :=
  Expr.beq_iff he.plain hf.plain

/-- **Equality of expressions from sources.** Among the expressions of any size whose values and
operators come from tokens of any sources, equality is reflexive, symmetric and transitive, and equal
ones are printed alike, whatever the printers have printed before. No number in such an expression is
a NaN or has a sign, so the zero with a sign is not among them either. -/
theorem equality_of_sources :
    Equivalence (fun e f : {e : Expr // e.FromSources} => (e.val == f.val) = true) ∧
    (∀ e f : Expr, e.FromSources → f.FromSources → (e == f) = true →
      ∀ p q : Printer, (p.print e).buffer = (q.print f).buffer) ∧
    ∀ e : Expr, e.FromSources → ∀ x ∈ e.numbers, x.isNaN = false ∧ x.isNegative = false := by
  refine ⟨⟨?_, ?_, ?_⟩, ?_, ?_⟩
  · rintro ⟨e, he⟩
    exact (he.beq_iff he).mpr rfl
  · rintro ⟨e, he⟩ ⟨f, hf⟩ h
    exact (hf.beq_iff he).mpr ((he.beq_iff hf).mp h).symm
  · rintro ⟨e, he⟩ ⟨f, hf⟩ ⟨g, hg⟩ h h'
    exact (he.beq_iff hg).mpr (((he.beq_iff hf).mp h).trans ((hf.beq_iff hg).mp h'))
  · intro e f he hf h p q
    rw [(he.beq_iff hf).mp h, Printer.buffer_print, Printer.buffer_print]
  · intro e he x hx
    exact ⟨(he.plain x hx).isNaN_eq, (he.plain x hx).isNegative_eq⟩

/-- A number with a minus before it, from two sources that write the number in two ways. -/
theorem equality_of_sources_minus :
    ∃ e f : Expr, e.FromSources ∧ f.FromSources ∧ (e == f) = true ∧ (f == e) = true ∧
      (∀ p q : Printer, (p.print e).buffer = (q.print f).buffer) ∧
      ∀ x ∈ e.numbers, x.isNaN = false ∧ x.isNegative = false := by
  obtain ⟨equivalence, texts, numbers⟩ := equality_of_sources
  -- the tokens of the numbers differ in their lexemes, but denote the same value
  have tokens : ((scan (Utf8.bytes "-1")).tokens.zip (scan (Utf8.bytes "-1.0")).tokens).map
      (fun p => (p.1 == p.2, (Value.ofToken? p.1).isSome, Value.ofToken? p.1 == Value.ofToken? p.2)) =
      [(true, false, true), (false, true, true), (true, false, true)] := by decide +kernel
  obtain ⟨⟨s, t⟩, rest, hzip, hst, hrest⟩ := List.map_eq_cons_iff.mp tokens
  obtain ⟨⟨m, n⟩, rest', rfl, hmn, -⟩ := List.map_eq_cons_iff.mp hrest
  simp only [Prod.mk.injEq] at hst hmn
  obtain ⟨hs, ht⟩ := List.of_mem_zip (hzip ▸ List.mem_cons_self : (s, t) ∈ _)
  obtain ⟨hm, hn⟩ := List.of_mem_zip
    (hzip ▸ List.mem_cons_of_mem _ List.mem_cons_self : (m, n) ∈ _)
  obtain ⟨v, hv⟩ := Option.isSome_iff_exists.mp hmn.2.1
  obtain ⟨w, hw⟩ : ∃ w, Value.ofToken? n = some w := by
    cases hw : Value.ofToken? n with
    | none => simp [hv, hw] at hmn
    | some w => exact ⟨w, rfl⟩
  have he : (unary s (literal v)).FromSources := .unary hs (.literal hm hv)
  have hf : (unary t (literal w)).FromSources := .unary ht (.literal hn hw)
  have equal : (unary s (literal v) == unary t (literal w)) = true := by
    have hvw : (v == w) = true := by simpa [hv, hw] using hmn.2.2
    change (s == t && v == w) = true
    rw [hst.1, hvw]
    rfl
  exact ⟨_, _, he, hf, equal, equivalence.symm (x := ⟨_, he⟩) (y := ⟨_, hf⟩) equal,
    texts _ _ he hf equal, numbers _ he⟩

end Expr

end Sources

end LoxLexer
