import Mathlib.Computability.Language
import Mathlib.Data.List.TakeWhile
import LoxLexer.Segment

/-!
# The lexical grammar

Each lexical class is a regular language over bytes, written with the operations of Kleene
algebra: `*` for concatenation, `+` for choice, `∗` for repetition and `1` for the empty word. The
languages are independent of how segments are found. A word of a language fits at the front of an
input when it is followed by the rest of that input; a string without its closing quote fits only
when nothing follows.

## Main definitions

* `language c`: the words of the lexical class `c`
* `reserved k`: the word that is reserved as `k`
* `Fits c w rest`: `w` is of the class `c` and stands at the front of `w ++ rest`

## Main results

* `mem_comment_iff`, `mem_string_iff`, `mem_openString_iff`, `mem_number_iff`, `mem_word_iff`: the
  shape of the words of each class
* `mem_reserved_iff`: the reserved words are those of the table of keywords
* `fits_next`: the next segment fits at the front of the input, unless it is stray
* `Fits.bounded_extent`: no word that fits is longer than the next segment, and one that is as
  long is of the same class
-/

namespace LoxLexer.Grammar

open Segment
open scoped Computability

/-! ## The languages -/

section Languages

/-- The words of one byte that has a property. -/
def byteWhere (p : UInt8 → Prop) : Language UInt8 :=
  {w | ∃ b, p b ∧ w = [b]}

/-- The word of one given byte. -/
def only (c : Char) : Language UInt8 :=
  byteWhere (· = c.toUInt8)

/-- The words of one byte other than the given one. -/
def anyBut (c : Char) : Language UInt8 :=
  byteWhere (· ≠ c.toUInt8)

/-- The words of one byte in an interval, ends included. -/
def within (first last : Char) : Language UInt8 :=
  byteWhere fun b => first.toUInt8 ≤ b ∧ b ≤ last.toUInt8

/-- Decimal digits. -/
def digit : Language UInt8 := within '0' '9'

/-- Letters and the underscore. -/
def letter : Language UInt8 := within 'A' 'Z' + within 'a' 'z' + only '_'

/-- How the marks and operators are spelled. -/
def markSpelling : TokenKind → Option String
  | .leftParen => some "("
  | .rightParen => some ")"
  | .leftBrace => some "\x7b"
  | .rightBrace => some "\x7d"
  | .comma => some ","
  | .dot => some "."
  | .minus => some "-"
  | .plus => some "+"
  | .semicolon => some ";"
  | .star => some "*"
  | .slash => some "/"
  | .bang => some "!"
  | .bangEqual => some "!="
  | .equal => some "="
  | .equalEqual => some "=="
  | .less => some "<"
  | .lessEqual => some "<="
  | .greater => some ">"
  | .greaterEqual => some ">="
  | _ => none

/-- The word that spells a mark. -/
def mark (kind : TokenKind) : Language UInt8 :=
  {w | (markSpelling kind).map (fun s => s.toList.map Char.toUInt8) = some w}

/-- How the reserved words are spelled. -/
def reservedSpelling : Keyword → String
  | .andWord => "and"
  | .classWord => "class"
  | .elseWord => "else"
  | .falseWord => "false"
  | .funWord => "fun"
  | .forWord => "for"
  | .ifWord => "if"
  | .nilWord => "nil"
  | .orWord => "or"
  | .printWord => "print"
  | .returnWord => "return"
  | .superWord => "super"
  | .thisWord => "this"
  | .trueWord => "true"
  | .varWord => "var"
  | .whileWord => "while"

/-- The word that is reserved. -/
def reserved (k : Keyword) : Language UInt8 :=
  {w | w = (reservedSpelling k).toList.map Char.toUInt8}

/-- **The words of each lexical class.** No word is stray by itself: a byte is stray when nothing
else fits there. -/
def language : SegmentClass → Language UInt8
  | .mark kind => mark kind
  | .comment => only '/' * only '/' * (anyBut '\n')∗
  | .blank => only ' ' + only '\r' + only '\t'
  | .lineBreak => only '\n'
  | .string => only '\x22' * (anyBut '\x22')∗ * only '\x22'
  | .openString => only '\x22' * (anyBut '\x22')∗
  | .number => digit * digit∗ * (1 + only '.' * digit * digit∗)
  | .word => letter * (letter + digit)∗
  | .stray => 0

/-- **A word of a class at the front of an input**: what follows it is `rest`, and a string without
its closing quote reaches to the end. -/
def Fits (c : SegmentClass) (w rest : List UInt8) : Prop :=
  w ∈ language c ∧ (c = .openString → rest = [])

end Languages

/-! ## The shape of the words -/

section Shape

variable {w : List UInt8} {p q : UInt8 → Prop}

theorem byteWhere_add : byteWhere p + byteWhere q = byteWhere fun b => p b ∨ q b := by
  ext w
  constructor
  · rintro (⟨b, h, rfl⟩ | ⟨b, h, rfl⟩)
    · exact ⟨b, .inl h, rfl⟩
    · exact ⟨b, .inr h, rfl⟩
  · rintro ⟨b, h | h, rfl⟩
    · exact .inl ⟨b, h, rfl⟩
    · exact .inr ⟨b, h, rfl⟩

theorem mem_kstar_byteWhere : w ∈ (byteWhere p)∗ ↔ ∀ b ∈ w, p b := by
  rw [Language.mem_kstar]
  constructor
  · rintro ⟨parts, rfl, h⟩ b hb
    obtain ⟨part, hpart, hb⟩ := List.mem_flatten.mp hb
    obtain ⟨b', hp, rfl⟩ := h part hpart
    rwa [List.mem_singleton.mp hb]
  · intro h
    refine ⟨w.map fun b => [b], (List.flatMap_singleton' w).symm, ?_⟩
    intro part hpart
    obtain ⟨b, hb, rfl⟩ := List.mem_map.mp hpart
    exact ⟨b, h b hb, rfl⟩

theorem mem_byteWhere_mul {l : Language UInt8} :
    w ∈ byteWhere p * l ↔ ∃ b v, p b ∧ v ∈ l ∧ w = b :: v := by
  rw [Language.mem_mul]
  constructor
  · rintro ⟨_, ⟨b, hb, rfl⟩, v, hv, rfl⟩
    exact ⟨b, v, hb, hv, rfl⟩
  · rintro ⟨b, v, hb, hv, rfl⟩
    exact ⟨[b], ⟨b, hb, rfl⟩, v, hv, rfl⟩

theorem mem_kstar_mul {l : Language UInt8} :
    w ∈ (byteWhere p)∗ * l ↔ ∃ u v, (∀ b ∈ u, p b) ∧ v ∈ l ∧ w = u ++ v := by
  simp only [Language.mem_mul, mem_kstar_byteWhere]
  constructor
  · rintro ⟨u, hu, v, hv, rfl⟩
    exact ⟨u, v, hu, hv, rfl⟩
  · rintro ⟨u, v, hu, hv, rfl⟩
    exact ⟨u, hu, v, hv, rfl⟩

theorem digit_eq : digit = byteWhere fun b => isDigit b = true := by
  simp [digit, within, isDigit]

theorem letter_eq : letter = byteWhere fun b => isLetter b = true := by
  simp only [letter, within, only, byteWhere_add]
  congr 1
  funext b
  simp [isLetter, or_comm]

theorem letter_add_digit_eq : letter + digit = byteWhere fun b => isWordByte b = true := by
  simp only [letter_eq, digit_eq, byteWhere_add, isWordByte, Bool.or_eq_true]

theorem mem_comment_iff :
    w ∈ language .comment ↔ ∃ body, w = slash :: slash :: body ∧ ∀ b ∈ body, b ≠ lineFeed := by
  simp only [language, only, anyBut, mul_assoc, mem_byteWhere_mul, mem_kstar_byteWhere]
  constructor
  · rintro ⟨_, _, rfl, ⟨_, body, rfl, h, rfl⟩, rfl⟩
    exact ⟨body, rfl, h⟩
  · rintro ⟨body, rfl, h⟩
    exact ⟨_, _, rfl, ⟨_, body, rfl, h, rfl⟩, rfl⟩

theorem mem_openString_iff :
    w ∈ language .openString ↔ ∃ body, w = quote :: body ∧ ∀ b ∈ body, b ≠ quote := by
  simp only [language, only, anyBut, mem_byteWhere_mul, mem_kstar_byteWhere]
  constructor
  · rintro ⟨_, body, rfl, h, rfl⟩
    exact ⟨body, rfl, h⟩
  · rintro ⟨body, rfl, h⟩
    exact ⟨_, body, rfl, h, rfl⟩

theorem mem_string_iff :
    w ∈ language .string ↔ ∃ body, w = quote :: (body ++ [quote]) ∧ ∀ b ∈ body, b ≠ quote := by
  simp only [language, only, anyBut, mul_assoc, mem_byteWhere_mul, mem_kstar_mul]
  constructor
  · rintro ⟨_, _, rfl, ⟨body, _, h, ⟨_, rfl, rfl⟩, rfl⟩, rfl⟩
    exact ⟨body, rfl, h⟩
  · rintro ⟨body, rfl, h⟩
    exact ⟨_, _, rfl, ⟨body, _, h, ⟨_, rfl, rfl⟩, rfl⟩, rfl⟩

/-- A number is a digit and more of them, and perhaps a point with a digit and more of them. -/
theorem mem_number_iff :
    w ∈ language .number ↔ ∃ d ds fraction, w = d :: (ds ++ fraction) ∧ isDigit d = true ∧
      (∀ b ∈ ds, isDigit b = true) ∧
      (fraction = [] ∨ ∃ e es, fraction = point :: e :: es ∧ isDigit e = true ∧
        ∀ b ∈ es, isDigit b = true) := by
  simp only [language, digit_eq, only, mul_assoc, mem_byteWhere_mul, mem_kstar_mul,
    Language.mem_add, Language.mem_one, mem_kstar_byteWhere]
  constructor
  · rintro ⟨d, _, hd, ⟨ds, fraction, hds, hf, rfl⟩, rfl⟩
    refine ⟨d, ds, fraction, rfl, hd, hds, ?_⟩
    rcases hf with rfl | ⟨_, _, rfl, ⟨e, es, he, hes, rfl⟩, rfl⟩
    · exact .inl rfl
    · exact .inr ⟨e, es, rfl, he, hes⟩
  · rintro ⟨d, ds, fraction, rfl, hd, hds, hf⟩
    refine ⟨d, _, hd, ⟨ds, fraction, hds, ?_, rfl⟩, rfl⟩
    rcases hf with rfl | ⟨e, es, rfl, he, hes⟩
    · exact .inl rfl
    · exact .inr ⟨_, _, rfl, ⟨e, es, he, hes, rfl⟩, rfl⟩

theorem mem_word_iff :
    w ∈ language .word ↔ ∃ b bs, w = b :: bs ∧ isLetter b = true ∧
      ∀ c ∈ bs, isWordByte c = true := by
  simp only [language, letter_add_digit_eq]
  simp only [letter_eq, mem_byteWhere_mul, mem_kstar_byteWhere]
  constructor
  · rintro ⟨b, bs, hb, hbs, rfl⟩
    exact ⟨b, bs, rfl, hb, hbs⟩
  · rintro ⟨b, bs, rfl, hb, hbs⟩
    exact ⟨b, bs, hb, hbs, rfl⟩

/-- A mark is a punctuation mark, an operator alone, an operator with an equals sign, or a
slash. -/
theorem mem_mark_iff {b : UInt8} {kind : TokenKind} :
    b :: w ∈ mark kind ↔ (w = [] ∧ punctuation.lookup b = some kind) ∨
      (w = [] ∧ punctuation.lookup b = none ∧
        ∃ extended, extensible.lookup b = some (kind, extended)) ∨
      (w = [equals] ∧ punctuation.lookup b = none ∧
        ∃ alone, extensible.lookup b = some (alone, kind)) ∨
      (w = [] ∧ b = slash ∧ kind = .slash) := by
  constructor
  · intro h
    have spelled : (markSpelling kind).map (fun s => s.toList.map Char.toUInt8) = some (b :: w) := h
    cases kind with
    | leftParen | rightParen | leftBrace | rightBrace | comma | dot | minus | plus | semicolon
    | star =>
      obtain ⟨rfl, rfl⟩ := List.cons.inj (Option.some.inj spelled)
      exact .inl ⟨rfl, rfl⟩
    | bang | equal | less | greater =>
      obtain ⟨rfl, rfl⟩ := List.cons.inj (Option.some.inj spelled)
      exact .inr (.inl ⟨rfl, rfl, _, rfl⟩)
    | bangEqual | equalEqual | lessEqual | greaterEqual =>
      obtain ⟨rfl, rfl⟩ := List.cons.inj (Option.some.inj spelled)
      exact .inr (.inr (.inl ⟨rfl, rfl, _, rfl⟩))
    | slash =>
      obtain ⟨rfl, rfl⟩ := List.cons.inj (Option.some.inj spelled)
      exact .inr (.inr (.inr ⟨rfl, rfl, rfl⟩))
    | identifier | string | number | keyword _ | endOfInput => cases spelled
  · rintro (⟨rfl, h⟩ | ⟨rfl, -, extended, h⟩ | ⟨rfl, -, alone, h⟩ | ⟨rfl, rfl, rfl⟩)
    · obtain ⟨l₁, l₂, hl, -⟩ := List.lookup_eq_some_iff.mp h
      have spelled : ∀ p ∈ punctuation,
          (markSpelling p.2).map (fun s => s.toList.map Char.toUInt8) = some [p.1] := by decide
      exact spelled (b, kind) (by simp [hl])
    · obtain ⟨l₁, l₂, hl, -⟩ := List.lookup_eq_some_iff.mp h
      have spelled : ∀ p ∈ extensible,
          (markSpelling p.2.1).map (fun s => s.toList.map Char.toUInt8) = some [p.1] := by decide
      exact spelled (b, kind, extended) (by simp [hl])
    · obtain ⟨l₁, l₂, hl, -⟩ := List.lookup_eq_some_iff.mp h
      have spelled : ∀ p ∈ extensible,
          (markSpelling p.2.2).map (fun s => s.toList.map Char.toUInt8) = some [p.1, equals] := by
        decide
      exact spelled (b, alone, kind) (by simp [hl])
    · rfl

theorem reservedSpelling_eq (k : Keyword) : reservedSpelling k = k.spelling := by
  cases k <;> rfl

/-- The table of keywords has the reserved words. -/
theorem mem_reserved_iff {k : Keyword} : w ∈ reserved k ↔ k.bytes = w := by
  rw [Keyword.bytes, ← reservedSpelling_eq]
  exact eq_comm

theorem mem_blank_iff : w ∈ language .blank ↔ ∃ b, w = [b] ∧ isBlank b = true := by
  simp only [language, only, byteWhere_add]
  constructor
  · rintro ⟨b, h, rfl⟩
    exact ⟨b, rfl, by simpa [isBlank, space, or_assoc, or_comm, or_left_comm] using h⟩
  · rintro ⟨b, rfl, h⟩
    exact ⟨b, by simpa [isBlank, space, or_assoc, or_comm, or_left_comm] using h, rfl⟩

theorem mem_lineBreak_iff : w ∈ language .lineBreak ↔ w = [lineFeed] := by
  constructor
  · rintro ⟨b, rfl, rfl⟩
    rfl
  · rintro rfl
    exact ⟨lineFeed, rfl, rfl⟩

end Shape

/-! ## The next segment fits, and nothing longer does -/

section Extent

variable {b : UInt8} {w rest : List UInt8} {c : SegmentClass}

/-- A property of bytes can be checked byte by byte. -/
theorem forall_byte {p : UInt8 → Prop} (h : ∀ n : Fin 256, p (UInt8.ofFin n)) : ∀ b, p b :=
  fun b => h b.toFin

theorem extent_punctuation {kind : TokenKind} (h : punctuation.lookup b = some kind)
    (rest : List UInt8) : extent b rest = (.mark kind, 0) := by
  simp [extent, h]

theorem extent_extensible {alone extended : TokenKind} (hp : punctuation.lookup b = none)
    (he : extensible.lookup b = some (alone, extended)) (rest : List UInt8) :
    extent b rest =
      if rest.head? = some equals then (.mark extended, 1) else (.mark alone, 0) := by
  simp only [extent, hp, he]

theorem extent_digit (h : isDigit b = true) (rest : List UInt8) :
    extent b rest =
      (.number, (rest.takeWhile isDigit).length + fractionLength (rest.dropWhile isDigit)) := by
  have other : ∀ b, isDigit b = true → punctuation.lookup b = none ∧ extensible.lookup b = none ∧
      b ≠ slash ∧ isBlank b = false ∧ b ≠ lineFeed ∧ b ≠ quote :=
    forall_byte (by decide +kernel)
  obtain ⟨h₁, h₂, h₃, h₄, h₅, h₆⟩ := other b h
  simp [extent, h, h₁, h₂, h₃, h₄, h₅, h₆]

theorem extent_letter (h : isLetter b = true) (rest : List UInt8) :
    extent b rest = (.word, (rest.takeWhile isWordByte).length) := by
  have other : ∀ b, isLetter b = true → punctuation.lookup b = none ∧ extensible.lookup b = none ∧
      b ≠ slash ∧ isBlank b = false ∧ b ≠ lineFeed ∧ b ≠ quote ∧ isDigit b = false :=
    forall_byte (by decide +kernel)
  obtain ⟨h₁, h₂, h₃, h₄, h₅, h₆, h₇⟩ := other b h
  simp [extent, h, h₁, h₂, h₃, h₄, h₅, h₆, h₇]

theorem extent_blank (h : isBlank b = true) (rest : List UInt8) : extent b rest = (.blank, 0) := by
  simp only [isBlank, Bool.or_eq_true, beq_iff_eq] at h
  rcases h with (rfl | rfl) | rfl <;> rfl

theorem extent_quote (rest : List UInt8) :
    extent quote rest = if rest.contains quote then
      (.string, (rest.takeWhile (· != quote)).length + 1) else (.openString, rest.length) := rfl

theorem extent_slash (rest : List UInt8) :
    extent slash rest = if rest.head? = some slash then
      (.comment, (rest.takeWhile (· != lineFeed)).length) else (.mark .slash, 0) := rfl

/-- A word that takes at most as much of the input as `e` says, and less unless it has the same
class; something other than a stray byte is there. -/
structure Bounded (c : SegmentClass) (w : List UInt8) (e : SegmentClass × Nat) : Prop where
  ne_stray : e.1 ≠ .stray
  length_le : w.length ≤ e.2
  cls_eq : w.length = e.2 → c = e.1

theorem length_le_takeWhile {p : UInt8 → Bool} (h : ∀ x ∈ w, p x = true) (rest : List UInt8) :
    w.length ≤ ((w ++ rest).takeWhile p).length := by
  rw [List.takeWhile_append_of_pos h, List.length_append]
  omega

theorem bounded_mark {kind : TokenKind} (h : b :: w ∈ mark kind) (rest : List UInt8) :
    Bounded (.mark kind) w (extent b (w ++ rest)) := by
  rcases mem_mark_iff.mp h with ⟨rfl, hp⟩ | ⟨rfl, hp, extended, he⟩ | ⟨rfl, hp, alone, he⟩ |
    ⟨rfl, rfl, rfl⟩
  · rw [extent_punctuation hp]
    exact ⟨by simp, by simp, fun _ => rfl⟩
  · rw [extent_extensible hp he]
    split
    · -- an equals sign follows, and the longer operator is of another kind
      exact ⟨by simp, by simp, by simp⟩
    · exact ⟨by simp, by simp, fun _ => rfl⟩
  · rw [extent_extensible hp he, if_pos (by simp)]
    exact ⟨by simp, by simp, fun _ => rfl⟩
  · rw [extent_slash]
    split
    · -- a second slash makes the comment the longer word
      rename_i hs
      obtain ⟨rest, rfl⟩ := List.head?_eq_some_iff.mp hs
      have : slash != lineFeed := by decide
      exact ⟨by simp, by simp, by simp [this]⟩
    · exact ⟨by simp, by simp, fun _ => rfl⟩

theorem bounded_comment (h : b :: w ∈ language .comment) (rest : List UInt8) :
    Bounded .comment w (extent b (w ++ rest)) := by
  obtain ⟨body, hw, hbody⟩ := mem_comment_iff.mp h
  obtain ⟨rfl, rfl⟩ := List.cons.inj hw
  have inside : ∀ x ∈ slash :: body, (x != lineFeed) = true := by
    rintro x (_ | ⟨_, hx⟩)
    · decide
    · simpa using hbody x hx
  rw [extent_slash, if_pos (by simp)]
  exact ⟨by simp, length_le_takeWhile inside rest, fun _ => rfl⟩

theorem bounded_string (h : b :: w ∈ language .string) (rest : List UInt8) :
    Bounded .string w (extent b (w ++ rest)) := by
  obtain ⟨body, hw, hbody⟩ := mem_string_iff.mp h
  obtain ⟨rfl, rfl⟩ := List.cons.inj hw
  have inside : ∀ x ∈ body, (x != quote) = true := fun x hx => by simpa using hbody x hx
  have ends : ((body ++ [quote] ++ rest).takeWhile (· != quote)) = body := by
    rw [List.append_assoc, List.takeWhile_append_of_pos inside]
    simp
  rw [extent_quote, if_pos (by simp), ends]
  exact ⟨by simp, by simp, fun _ => rfl⟩

theorem bounded_openString (h : b :: w ∈ language .openString) :
    Bounded .openString w (extent b w) := by
  obtain ⟨body, hw, hbody⟩ := mem_openString_iff.mp h
  obtain ⟨rfl, rfl⟩ := List.cons.inj hw
  have unclosed : w.contains quote = false := by
    simpa using fun hq => hbody quote hq rfl
  rw [extent_quote, unclosed]
  exact ⟨by simp, by simp, fun _ => rfl⟩

theorem bounded_number (h : b :: w ∈ language .number) (rest : List UInt8) :
    Bounded .number w (extent b (w ++ rest)) := by
  obtain ⟨d, ds, fraction, hw, hd, hds, hf⟩ := mem_number_iff.mp h
  obtain ⟨rfl, rfl⟩ := List.cons.inj hw
  rw [extent_digit hd]
  refine ⟨by simp, ?_, fun _ => rfl⟩
  -- digits may follow the word, so that only an inequality holds
  rcases hf with rfl | ⟨e, es, rfl, he, hes⟩
  · simpa using Nat.le_add_right_of_le (length_le_takeWhile hds rest)
  · -- the point ends the digits, so the fraction is read where the word has it
    have point_ends : isDigit point = false := by decide
    have before : (ds ++ point :: e :: es ++ rest).takeWhile isDigit = ds := by
      rw [List.append_assoc, List.takeWhile_append_of_pos hds]
      simp [point_ends]
    have behind : (ds ++ point :: e :: es ++ rest).dropWhile isDigit = point :: e :: (es ++ rest) := by
      rw [List.append_assoc, List.dropWhile_append_of_pos hds]
      simp [point_ends]
    have := length_le_takeWhile hes rest
    rw [before, behind]
    simp only [fractionLength, beq_self_eq_true, he, Bool.and_self, if_true, List.length_append,
      List.length_cons]
    omega

theorem bounded_word (h : b :: w ∈ language .word) (rest : List UInt8) :
    Bounded .word w (extent b (w ++ rest)) := by
  obtain ⟨_, _, hw, hb, hbs⟩ := mem_word_iff.mp h
  obtain ⟨rfl, rfl⟩ := List.cons.inj hw
  rw [extent_letter hb]
  exact ⟨by simp, length_le_takeWhile hbs rest, fun _ => rfl⟩

/-- **No word that fits is longer than the next segment**, and one that is as long is of the same
class. -/
theorem Fits.bounded_extent (h : Fits c (b :: w) rest) : Bounded c w (extent b (w ++ rest)) := by
  obtain ⟨hw, hopen⟩ := h
  cases c with
  | mark kind => exact bounded_mark hw rest
  | comment => exact bounded_comment hw rest
  | blank =>
    obtain ⟨_, hb, hblank⟩ := mem_blank_iff.mp hw
    obtain ⟨rfl, rfl⟩ := List.cons.inj hb
    rw [extent_blank hblank]
    exact ⟨by simp, by simp, fun _ => rfl⟩
  | lineBreak =>
    obtain ⟨rfl, rfl⟩ := List.cons.inj (mem_lineBreak_iff.mp hw)
    exact ⟨by rintro ⟨⟩, by simp, fun _ => rfl⟩
  | string => exact bounded_string hw rest
  | openString =>
    rw [hopen rfl, List.append_nil]
    exact bounded_openString hw
  | number => exact bounded_number hw rest
  | word => exact bounded_word hw rest
  | stray => exact (Language.notMem_zero _ hw).elim

theorem Fits.ne_nil (h : Fits c w rest) : w ≠ [] := by
  rintro rfl
  obtain ⟨hw, -⟩ := h
  cases c with
  | mark kind => cases kind <;> cases (show Option.map _ _ = some [] from hw)
  | comment => obtain ⟨_, h, -⟩ := mem_comment_iff.mp hw; cases h
  | blank => obtain ⟨_, h, -⟩ := mem_blank_iff.mp hw; cases h
  | lineBreak => cases mem_lineBreak_iff.mp hw
  | string => obtain ⟨_, h, -⟩ := mem_string_iff.mp hw; cases h
  | openString => obtain ⟨_, h, -⟩ := mem_openString_iff.mp hw; cases h
  | number => obtain ⟨_, _, _, h, -⟩ := mem_number_iff.mp hw; cases h
  | word => obtain ⟨_, _, h, -⟩ := mem_word_iff.mp hw; cases h
  | stray => exact Language.notMem_zero _ hw

/-- What is to be shown for one class: the word that `extent` cuts off is of that class. -/
theorem fits_of_extent {n : Nat} (h : extent b rest = (c, n)) (hw : b :: rest.take n ∈ language c)
    (hopen : c = .openString → rest.drop n = []) :
    Fits (next b rest).cls (next b rest).bytes (after b rest) := by
  simp only [next, after, h]
  exact ⟨hw, hopen⟩

/-- A word that goes on behind the bytes of one sort. -/
theorem take_past_takeWhile (p : UInt8 → Bool) (l : List UInt8) (n : Nat) :
    l.take ((l.takeWhile p).length + n) = l.takeWhile p ++ (l.dropWhile p).take n := by
  calc l.take ((l.takeWhile p).length + n)
      = (l.takeWhile p ++ l.dropWhile p).take ((l.takeWhile p).length + n) := by
        rw [List.takeWhile_append_dropWhile]
    _ = l.takeWhile p ++ (l.dropWhile p).take n := List.take_length_add_append n

theorem take_length_takeWhile (p : UInt8 → Bool) (l : List UInt8) :
    l.take (l.takeWhile p).length = l.takeWhile p :=
  (List.prefix_iff_eq_take.mp (List.takeWhile_prefix p)).symm

theorem fits_slash (rest : List UInt8) :
    Fits (next slash rest).cls (next slash rest).bytes (after slash rest) := by
  have hx := extent_slash rest
  split at hx
  · rename_i hs
    obtain ⟨rest, rfl⟩ := List.head?_eq_some_iff.mp hs
    refine fits_of_extent hx (mem_comment_iff.mpr
      ⟨rest.takeWhile (· != lineFeed), ?_, fun b hb => ?_⟩) (by simp)
    · have inside : (slash != lineFeed) = true := by decide
      rw [take_length_takeWhile, List.takeWhile_cons, if_pos inside]
    · simpa using List.mem_takeWhile_imp hb
  · exact fits_of_extent hx (mem_mark_iff.mpr (.inr (.inr (.inr ⟨rfl, rfl, rfl⟩)))) (by simp)

theorem fits_quote (rest : List UInt8) :
    Fits (next quote rest).cls (next quote rest).bytes (after quote rest) := by
  have hx := extent_quote rest
  split at hx
  · rename_i hq
    refine fits_of_extent hx (mem_string_iff.mpr
      ⟨rest.takeWhile (· != quote), ?_, fun b hb => ?_⟩) (by simp)
    · have closed : rest.dropWhile (· != quote) ≠ [] := by simpa using hq
      obtain ⟨q, behind, hd⟩ := List.exists_cons_of_ne_nil closed
      have hq : q = quote := by simpa [hd] using List.head_dropWhile_not (· != quote) closed
      rw [take_past_takeWhile, hd, hq]
      rfl
    · simpa using List.mem_takeWhile_imp hb
  · rename_i hq
    refine fits_of_extent hx (mem_openString_iff.mpr ⟨rest, by simp, fun b hb => ?_⟩) (by simp)
    rintro rfl
    exact hq (List.contains_iff_mem.mpr hb)

/-- What `fractionLength` cuts off is a fraction, or nothing. -/
theorem take_fractionLength (bs : List UInt8) :
    bs.take (fractionLength bs) = [] ∨ ∃ e es, bs.take (fractionLength bs) = point :: e :: es ∧
      isDigit e = true ∧ ∀ b ∈ es, isDigit b = true := by
  unfold fractionLength
  split
  · rename_i p d bs
    split
    · rename_i h
      simp only [Bool.and_eq_true, beq_iff_eq] at h
      obtain ⟨rfl, hd⟩ := h
      refine .inr ⟨d, bs.takeWhile isDigit, ?_, hd, fun b hb => List.mem_takeWhile_imp hb⟩
      rw [Nat.add_comm, List.take_succ_cons, List.take_succ_cons, take_length_takeWhile]
    · exact .inl rfl
  · exact .inl rfl

theorem fits_number (h : isDigit b = true) (rest : List UInt8) :
    Fits (next b rest).cls (next b rest).bytes (after b rest) := by
  refine fits_of_extent (extent_digit h rest) (mem_number_iff.mpr ⟨b, rest.takeWhile isDigit,
    (rest.dropWhile isDigit).take (fractionLength (rest.dropWhile isDigit)), ?_, h,
    fun _ hb => List.mem_takeWhile_imp hb, take_fractionLength _⟩) (by simp)
  rw [take_past_takeWhile]

theorem fits_word (h : isLetter b = true) (rest : List UInt8) :
    Fits (next b rest).cls (next b rest).bytes (after b rest) := by
  refine fits_of_extent (extent_letter h rest) (mem_word_iff.mpr
    ⟨b, rest.takeWhile isWordByte, ?_, h, fun _ hb => List.mem_takeWhile_imp hb⟩) (by simp)
  rw [take_length_takeWhile]

/-- **The next segment fits at the front of the input**, unless it is a stray byte. -/
theorem fits_next (h : (extent b rest).1 ≠ .stray) :
    Fits (next b rest).cls (next b rest).bytes (after b rest) := by
  cases hp : punctuation.lookup b with
  | some kind =>
    exact fits_of_extent (extent_punctuation hp rest) (mem_mark_iff.mpr (.inl ⟨rfl, hp⟩)) (by simp)
  | none =>
    cases he : extensible.lookup b with
    | some kinds =>
      obtain ⟨alone, extended⟩ := kinds
      have hx := extent_extensible hp he rest
      split at hx
      · rename_i hs
        obtain ⟨rest, rfl⟩ := List.head?_eq_some_iff.mp hs
        exact fits_of_extent hx (mem_mark_iff.mpr (.inr (.inr (.inl ⟨rfl, hp, alone, he⟩)))) (by simp)
      · exact fits_of_extent hx (mem_mark_iff.mpr (.inr (.inl ⟨rfl, hp, extended, he⟩))) (by simp)
    | none =>
      -- the rest of the cases in the order in which `extent` asks for them
      by_cases hs : b = slash
      · exact hs ▸ fits_slash rest
      by_cases hb : isBlank b = true
      · exact fits_of_extent (extent_blank hb rest) (mem_blank_iff.mpr ⟨b, rfl, hb⟩) (by simp)
      by_cases hl : b = lineFeed
      · exact hl ▸ fits_of_extent (b := lineFeed) rfl (mem_lineBreak_iff.mpr rfl) (by simp)
      by_cases hq : b = quote
      · exact hq ▸ fits_quote rest
      by_cases hd : isDigit b = true
      · exact fits_number hd rest
      by_cases hw : isLetter b = true
      · exact fits_word hw rest
      · simp [extent, hp, he, hs, hb, hl, hq, hd, hw] at h

end Extent

end LoxLexer.Grammar
