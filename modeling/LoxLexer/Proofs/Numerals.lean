import Mathlib.Data.Nat.Digits.Defs
import Mathlib.Tactic.FieldSimp
import LoxLexer.Proofs.Lexemes
import LoxLexer.Proofs.Rounding

/-!
# Numerals and their numbers

A numeral is a string of digits of any length, with or without a fraction, and denotes a rational
by place value. The lexeme of every number token is one, so it can always be read, and its literal
is the denoted rational, rounded correctly: digits are collected without rounding, and rounding
happens once, in the division by the power of ten that the length of the fraction gives.

## Main definitions

* `Numeral w ds es`: the bytes `w` are the digits `ds` and the digits `es` of a fraction
* `Numeral.decimal ds es`: the rational that the digits denote

## Main results

* `Numeral.readNumeral?_eq`: every numeral can be read
* `Numeral.natOfDigits_append_div`: the digits are collected exactly
* `Grammar.Spells.number`: only numerals are number tokens
* `scan_numbers`: the literals of number tokens are correctly rounded
-/

namespace LoxLexer

open Segment

/-- **A numeral**: digits, or digits with a point and more digits behind them. -/
inductive Numeral : List UInt8 → List UInt8 → List UInt8 → Prop
  | whole {ds : List UInt8} (nonempty : ds ≠ []) (digits : ∀ b ∈ ds, isDigit b = true) :
    Numeral ds ds []
  | fraction {ds es : List UInt8} (nonempty : ds ≠ []) (digits : ∀ b ∈ ds, isDigit b = true)
      (nonempty' : es ≠ []) (digits' : ∀ b ∈ es, isDigit b = true) :
    Numeral (ds ++ point :: es) ds es

namespace Numeral

/-! ## What numerals denote -/

section Decimal

/-- **The rational that digits denote**, before and after a point: each digit is worth a tenth of
the one before. -/
def decimal (ds es : List UInt8) : ℚ :=
  Nat.ofDigits 10 (ds.map Binary64.digitValue).reverse +
    Nat.ofDigits 10 (es.map Binary64.digitValue).reverse / 10 ^ es.length

/-- Digits are collected from the left. -/
theorem natOfDigits_eq (ds : List UInt8) :
    Binary64.natOfDigits ds = Nat.ofDigits 10 (ds.map Binary64.digitValue).reverse := by
  rw [Binary64.natOfDigits_eq_foldl]
  induction ds using List.reverseRecOn with
  | nil => rfl
  | append_singleton ds b ih =>
    rw [List.foldl_append, ih, List.map_append, List.reverse_append, List.map_singleton,
      List.reverse_singleton, List.singleton_append, Nat.ofDigits_cons]
    simp only [List.foldl_cons, List.foldl_nil]
    ring

/-- **Digits are collected exactly**, and the length of the fraction gives the power of ten to
divide by. -/
theorem natOfDigits_append_div (ds es : List UInt8) :
    (Binary64.natOfDigits (ds ++ es) : ℚ) / (tenPow es.length : ℕ) = decimal ds es := by
  have hne : (10 : ℚ) ^ es.length ≠ 0 := by positivity
  have power : tenPow es.length = 10 ^ es.length := rfl
  rw [natOfDigits_eq, List.map_append, List.reverse_append, Nat.ofDigits_append,
    List.length_reverse, List.length_map, power, decimal]
  push_cast
  field_simp
  ring

end Decimal

/-! ## Reading them -/

section Reading

variable {w ds es : List UInt8}

/-- **Every numeral can be read.** -/
theorem readNumeral?_eq (h : Numeral w ds es) : readNumeral? w = some (.ofDigits ds es) := by
  cases h with
  | whole nonempty digits =>
    have all : w.takeWhile isDigit = w := List.takeWhile_eq_self_iff.mpr digits
    have none : w.dropWhile isDigit = [] := List.dropWhile_eq_nil_iff.mpr digits
    rw [readNumeral?, all, none]
    simp [nonempty]
  | fraction nonempty digits nonempty' digits' =>
    have stop : isDigit point = false := rfl
    have whole : (ds ++ point :: es).takeWhile isDigit = ds := by
      rw [List.takeWhile_append_of_pos digits, List.takeWhile_cons_of_neg (by simp [stop]),
        List.append_nil]
    have rest : (ds ++ point :: es).dropWhile isDigit = point :: es := by
      rw [List.dropWhile_append_of_pos digits, List.dropWhile_cons_of_neg (by simp [stop])]
    rw [readNumeral?, whole, rest]
    simp [nonempty, nonempty', List.all_eq_true.mpr digits']

/-- The words of the number class are the numerals. -/
theorem exists_of_mem_language (hw : w ∈ Grammar.language .number) : ∃ ds es, Numeral w ds es := by
  obtain ⟨d, ds, fraction, rfl, hd, hds, hfraction⟩ := Grammar.mem_number_iff.mp hw
  have digits : ∀ b ∈ d :: ds, isDigit b = true := List.forall_mem_cons.mpr ⟨hd, hds⟩
  rcases hfraction with rfl | ⟨e, es, rfl, he, hes⟩
  · rw [List.append_nil]
    exact ⟨d :: ds, [], .whole (List.cons_ne_nil _ _) digits⟩
  · have digits' : ∀ b ∈ e :: es, isDigit b = true := List.forall_mem_cons.mpr ⟨he, hes⟩
    exact ⟨d :: ds, e :: es, .fraction (List.cons_ne_nil _ _) digits (List.cons_ne_nil _ _) digits'⟩

end Reading

end Numeral

/-! ## The number tokens -/

namespace Grammar

variable {c : SegmentClass} {t : Token}

/-- **The literal of a number token** is what its lexeme denotes, and only numerals are number
tokens. -/
theorem Spells.number (h : Spells c t) (hkind : t.kind = .number) :
    c = .number ∧ t.literal = some (.number (numeral (Utf8.bytes t.lexeme))) := by
  obtain ⟨x, hliteral⟩ := h.reads.1.number_iff.mpr hkind
  rcases literal_of_token? h.token?_eq with hnone | ⟨-, hstring⟩ | hnumber
  · rw [hnone] at hliteral
    cases hliteral
  · rw [hstring] at hliteral
    cases hliteral
  · exact hnumber

end Grammar

/-- **The literals of number tokens are correctly rounded.** The lexeme of a number token is always
a numeral and can be read. With `q` for the rational that its digits denote, however many they are,
the literal is a number without a sign. It is infinite exactly if `q` is at least halfway between
the greatest finite number and the power of two behind it; otherwise no finite number is nearer to
`q`, and if another one is as near, then the literal is the even one of the two. -/
theorem scan_numbers {source : List UInt8} {t : Token} (ht : t ∈ (scan source).tokens)
    (hkind : t.kind = .number) :
    ∃ ds es x, Numeral (Utf8.bytes t.lexeme) ds es ∧
      readNumeral? (Utf8.bytes t.lexeme) = some x ∧ t.literal = some (.number x) ∧
      x.isNaN = false ∧ x.isNegative = false ∧
      (x.isInfinite = true ↔ (2 ^ 1024 - 2 ^ 970 : ℚ) ≤ Numeral.decimal ds es) ∧
      (Numeral.decimal ds es < (2 ^ 1024 - 2 ^ 970 : ℚ) →
        x.isFinite = true ∧ Binary64.Nearest (Numeral.decimal ds es) x) := by
  have hmem : t ∈ tokensFrom 1 (split source) := by
    rw [tokens_scan] at ht
    rcases List.mem_append.mp ht with h | h
    · exact h
    · rw [List.mem_singleton.mp h] at hkind
      cases hkind
  obtain ⟨c, hspells⟩ := Grammar.exists_spells hmem
  obtain ⟨rfl, hliteral⟩ := hspells.number hkind
  obtain ⟨ds, es, hnumeral⟩ := Numeral.exists_of_mem_language hspells.mem_language
  have hread := hnumeral.readNumeral?_eq
  have hscale : 0 < tenPow es.length := Nat.pow_pos (by norm_num)
  have hratio := Numeral.natOfDigits_append_div ds es
  refine ⟨ds, es, .ofDigits ds es, hnumeral, hread, ?_, ?_, ?_, ?_, ?_⟩
  · rw [hliteral, numeral, hread, Option.getD_some]
  · exact Binary64.isNaN_ofRatio _ _
  · exact Binary64.isNegative_ofRatio _ _
  · rw [Binary64.ofDigits, Binary64.isInfinite_ofRatio_iff _ hscale, hratio]
  · intro hlt
    have hfinite : (Binary64.ofDigits ds es).isFinite = true := by
      rw [Binary64.ofDigits, Binary64.isFinite_ofRatio_iff _ hscale, hratio]
      exact hlt
    refine ⟨hfinite, ?_⟩
    rw [← hratio]
    exact Binary64.nearest_ofRatio hscale hfinite

/-- A numeral halfway between two numbers. -/
theorem scan_numbers_halfway :
    ∃ t ∈ (scan (Utf8.bytes "9007199254740993")).tokens, t.kind = .number ∧
      ∃ ds es x, Numeral (Utf8.bytes t.lexeme) ds es ∧
        readNumeral? (Utf8.bytes t.lexeme) = some x ∧ t.literal = some (.number x) ∧
        x.isNaN = false ∧ x.isNegative = false ∧
        (x.isInfinite = true ↔ (2 ^ 1024 - 2 ^ 970 : ℚ) ≤ Numeral.decimal ds es) ∧
        (Numeral.decimal ds es < (2 ^ 1024 - 2 ^ 970 : ℚ) →
          x.isFinite = true ∧ Binary64.Nearest (Numeral.decimal ds es) x) := by
  have kinds : (scan (Utf8.bytes "9007199254740993")).tokens.map Token.kind =
      [.number, .endOfInput] := by decide +kernel
  obtain ⟨t, rest, htokens, hkind, -⟩ := List.map_eq_cons_iff.mp kinds
  have ht : t ∈ (scan (Utf8.bytes "9007199254740993")).tokens := by
    rw [htokens]
    exact List.mem_cons_self
  exact ⟨t, ht, hkind, scan_numbers ht hkind⟩

/-- The tie goes to the number with the even significand. -/
example : (readNumeral? (Utf8.bytes "9007199254740993")).map Binary64.bits =
    some 0x4340000000000000 := by decide +kernel

end LoxLexer
