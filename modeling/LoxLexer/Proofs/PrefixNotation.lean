import LoxLexer.Proofs.Printing
import LoxLexer.Proofs.Numerals

/-!
# Prefix notation can be read in one way

A printed expression begins with a parenthesis, unless it is a literal. Behind the parenthesis stands
a word, which ends at the first space, and behind each operand stands either a space, with another
operand behind it, or the parenthesis that closes. So if operators and literals are words, then a
text can be read in one way only: operators before one and before two operands differ in what
follows the first operand, and groupings differ from operators in their word.

## Main definitions

* `IsWord s`: the text `s` is not empty and holds neither spaces nor parentheses
* `Expr.Readable e`: the operators and the literals of `e` are words, and no operator is the word of
  groupings
* `Expr.Matches e f`: `e` and `f` are node by node of the same sort, with the same operator lexemes
  and the same texts of literals

## Main results

* `Expr.render_append_inj`: the first expression of a text can be read back
* `Grammar.Spells.isWord`, `Binary64.isWord_display`: the tokens and the numbers that are words
* `prefix_readable`: texts of readable expressions are the same exactly if the expressions match
-/

namespace LoxLexer

/-! ## Words -/

section Word

variable {s w w' : String} {xs ys : List Char}

/-- **A word of prefix notation**: not empty, and without spaces and parentheses. -/
def IsWord (s : String) : Prop :=
  s ≠ "" ∧ ∀ c ∈ s.toList, c ≠ ' ' ∧ c ≠ '(' ∧ c ≠ ')'

-- only the characters of the text are searched, and not all characters there are
instance (s : String) : Decidable (IsWord s) :=
  @instDecidableAnd _ _ inferInstance (List.decidableBAll _ s.toList)

/-- A character that no word holds. -/
def isDelimiter (c : Char) : Bool :=
  c == ' ' || c == '(' || c == ')'

/-- What can stand behind a word: nothing, or something that begins with a delimiter. -/
def Delimited (xs : List Char) : Prop :=
  ∀ c ∈ xs.head?, isDelimiter c = true

theorem Delimited.nil : Delimited [] := by
  intro c hc
  cases hc

theorem Delimited.cons {c : Char} (hc : isDelimiter c = true) (xs : List Char) :
    Delimited (c :: xs) := by
  intro d hd
  rwa [← Option.some.inj hd]

theorem IsWord.not_isDelimiter (h : IsWord s) : ∀ c ∈ s.toList, isDelimiter c = false := by
  intro c hc
  obtain ⟨hspace, hopen, hclose⟩ := h.2 c hc
  simp [isDelimiter, hspace, hopen, hclose]

/-- A word goes up to the first delimiter. -/
theorem IsWord.takeWhile_append (h : IsWord s) (hxs : Delimited xs) :
    (s.toList ++ xs).takeWhile (fun c => !isDelimiter c) = s.toList := by
  have passes : ∀ c ∈ s.toList, (!isDelimiter c) = true := by
    intro c hc
    rw [h.not_isDelimiter c hc]
    rfl
  rw [List.takeWhile_append_of_pos passes]
  cases xs with
  | nil => exact List.append_nil _
  | cons x xs =>
    have stops := hxs x rfl
    rw [List.takeWhile_cons_of_neg (by simp [stops]), List.append_nil]

/-- **A word can be read back**, and what is behind it is left over. -/
theorem IsWord.append_inj (hw : IsWord w) (hw' : IsWord w') (hxs : Delimited xs)
    (hys : Delimited ys) (h : w.toList ++ xs = w'.toList ++ ys) : w = w' ∧ xs = ys := by
  have same : w.toList = w'.toList := by
    rw [← hw.takeWhile_append hxs, h, hw'.takeWhile_append hys]
  rw [same] at h
  exact ⟨String.toList_inj.mp same, List.append_cancel_left h⟩

/-- A word begins with no parenthesis. -/
theorem IsWord.append_ne_cons (hw : IsWord w) (xs ys : List Char) : w.toList ++ xs ≠ '(' :: ys := by
  intro h
  cases hlist : w.toList with
  | nil => exact hw.1 (by simpa using hlist)
  | cons c cs =>
    rw [hlist, List.cons_append] at h
    have hc : c ∈ w.toList := by
      rw [hlist]
      exact List.mem_cons_self
    exact (hw.2 c hc).2.1 (List.cons.inj h).1

end Word

/-! ## Reading expressions back -/

namespace Expr

variable {e f : Expr} {xs ys : List Char}

section Reading

/-- **An expression whose text can be read**: its operators and the texts of its literals are words,
and no operator is the word of groupings. -/
def Readable : Expr → Prop
  | literal v => IsWord v.display
  | grouping inner => inner.Readable
  | unary operator right =>
    (IsWord operator.lexeme ∧ operator.lexeme ≠ groupWord) ∧ right.Readable
  | binary left operator right =>
    left.Readable ∧ (IsWord operator.lexeme ∧ operator.lexeme ≠ groupWord) ∧ right.Readable

/-- **Expressions that match**: node by node they are of the same sort, and have the same operator
lexeme or the same text of a literal. -/
inductive Matches : Expr → Expr → Prop
  | literal {v w : Value} (h : v.display = w.display) : Matches (literal v) (literal w)
  | grouping {a b : Expr} (h : Matches a b) : Matches (grouping a) (grouping b)
  | unary {s t : Token} {a b : Expr} (hop : s.lexeme = t.lexeme) (h : Matches a b) :
    Matches (unary s a) (unary t b)
  | binary {s t : Token} {a b c d : Expr} (hleft : Matches a c) (hop : s.lexeme = t.lexeme)
      (hright : Matches b d) :
    Matches (binary a s b) (binary c t d)

/-- The characters of a node that begins with a word, and of what stands behind it. -/
def node (word : String) (rest : List Char) : List Char :=
  '(' :: (word.toList ++ ' ' :: rest)

theorem toList_grouping_append (inner : Expr) (xs : List Char) :
    (grouping inner).render.toList ++ xs = node groupWord (inner.render.toList ++ ')' :: xs) := by
  simp [render, node]

theorem toList_unary_append (operator : Token) (right : Expr) (xs : List Char) :
    (unary operator right).render.toList ++ xs =
      node operator.lexeme (right.render.toList ++ ')' :: xs) := by
  simp [render, node]

theorem toList_binary_append (left : Expr) (operator : Token) (right : Expr) (xs : List Char) :
    (binary left operator right).render.toList ++ xs =
      node operator.lexeme (left.render.toList ++ ' ' :: (right.render.toList ++ ')' :: xs)) := by
  simp [render, node]

/-- The word of a node can be read back. -/
theorem node_inj {w w' : String} (hw : IsWord w) (hw' : IsWord w') (h : node w xs = node w' ys) :
    w = w' ∧ xs = ys := by
  obtain ⟨hword, hrest⟩ := hw.append_inj hw' (.cons rfl _) (.cons rfl _) (List.cons.inj h).2
  exact ⟨hword, (List.cons.inj hrest).2⟩

theorem isWord_groupWord : IsWord groupWord := by decide

/-- **The first expression of a text can be read back**, and what is behind it is left over. -/
theorem render_append_inj (he : e.Readable) (hf : f.Readable) (hxs : Delimited xs)
    (hys : Delimited ys) (h : e.render.toList ++ xs = f.render.toList ++ ys) :
    e.Matches f ∧ xs = ys := by
  -- the induction is on one expression, for all others and for all that may stand behind the two
  induction e generalizing f xs ys with
  | literal v =>
    have hv : IsWord v.display := he
    cases f with
    | literal w =>
      obtain ⟨hdisplay, hrest⟩ := hv.append_inj hf hxs hys h
      exact ⟨.literal hdisplay, hrest⟩
    | grouping inner =>
      rw [toList_grouping_append] at h
      exact absurd h (hv.append_ne_cons _ _)
    | unary t right =>
      rw [toList_unary_append] at h
      exact absurd h (hv.append_ne_cons _ _)
    | binary left t right =>
      rw [toList_binary_append] at h
      exact absurd h (hv.append_ne_cons _ _)
  | grouping inner ih =>
    have hinner : inner.Readable := he
    rw [toList_grouping_append] at h
    cases f with
    | literal w => exact absurd h.symm (IsWord.append_ne_cons hf _ _)
    | grouping inner' =>
      have hinner' : inner'.Readable := hf
      rw [toList_grouping_append] at h
      obtain ⟨-, hbody⟩ := node_inj isWord_groupWord isWord_groupWord h
      obtain ⟨hmatch, hrest⟩ := ih hinner hinner' (.cons rfl _) (.cons rfl _) hbody
      exact ⟨.grouping hmatch, (List.cons.inj hrest).2⟩
    | unary t right =>
      obtain ⟨⟨ht, hgroup⟩, -⟩ := hf
      rw [toList_unary_append] at h
      exact absurd (node_inj isWord_groupWord ht h).1.symm hgroup
    | binary left t right =>
      obtain ⟨-, ⟨ht, hgroup⟩, -⟩ := hf
      rw [toList_binary_append] at h
      exact absurd (node_inj isWord_groupWord ht h).1.symm hgroup
  | unary s right ih =>
    obtain ⟨⟨hs, hgroup⟩, hright⟩ := he
    rw [toList_unary_append] at h
    cases f with
    | literal w => exact absurd h.symm (IsWord.append_ne_cons hf _ _)
    | grouping inner =>
      rw [toList_grouping_append] at h
      exact absurd (node_inj hs isWord_groupWord h).1 hgroup
    | unary t right' =>
      obtain ⟨⟨ht, -⟩, hright'⟩ := hf
      rw [toList_unary_append] at h
      obtain ⟨hword, hbody⟩ := node_inj hs ht h
      obtain ⟨hmatch, hrest⟩ := ih hright hright' (.cons rfl _) (.cons rfl _) hbody
      exact ⟨.unary hword hmatch, (List.cons.inj hrest).2⟩
    | binary left t right' =>
      -- behind the first operand one text closes, and the other goes on
      obtain ⟨hleft, ⟨ht, -⟩, -⟩ := hf
      rw [toList_binary_append] at h
      obtain ⟨-, hbody⟩ := node_inj hs ht h
      obtain ⟨-, hrest⟩ := ih hright hleft (.cons rfl _) (.cons rfl _) hbody
      exact absurd (List.cons.inj hrest).1 (by decide)
  | binary left s right ihl ihr =>
    obtain ⟨hleft, ⟨hs, hgroup⟩, hright⟩ := he
    rw [toList_binary_append] at h
    cases f with
    | literal w => exact absurd h.symm (IsWord.append_ne_cons hf _ _)
    | grouping inner =>
      rw [toList_grouping_append] at h
      exact absurd (node_inj hs isWord_groupWord h).1 hgroup
    | unary t right' =>
      obtain ⟨⟨ht, -⟩, hright'⟩ := hf
      rw [toList_unary_append] at h
      obtain ⟨-, hbody⟩ := node_inj hs ht h
      obtain ⟨-, hrest⟩ := ihl hleft hright' (.cons rfl _) (.cons rfl _) hbody
      exact absurd (List.cons.inj hrest).1 (by decide)
    | binary left' t right' =>
      obtain ⟨hleft', ⟨ht, -⟩, hright'⟩ := hf
      rw [toList_binary_append] at h
      obtain ⟨hword, hbody⟩ := node_inj hs ht h
      obtain ⟨hmatch, hbehind⟩ := ihl hleft hleft' (.cons rfl _) (.cons rfl _) hbody
      obtain ⟨hmatch', hrest⟩ :=
        ihr hright hright' (.cons rfl _) (.cons rfl _) (List.cons.inj hbehind).2
      exact ⟨.binary hmatch hword hmatch', (List.cons.inj hrest).2⟩

/-- Expressions that match have the same text. -/
theorem Matches.render_eq (h : e.Matches f) : e.render = f.render := by
  induction h with
  | literal h => exact h
  | grouping _ ih => rw [render, render, ih]
  | unary hop _ ih => rw [render, render, hop, ih]
  | binary _ hop _ ihl ihr => rw [render, render, ihl, hop, ihr]

/-- **Readable expressions have the same text exactly if they match.** -/
theorem render_eq_iff (he : e.Readable) (hf : f.Readable) : e.render = f.render ↔ e.Matches f := by
  constructor
  · intro h
    exact (render_append_inj he hf .nil .nil (by rw [h])).1
  · exact Matches.render_eq

end Reading

end Expr

/-! ## Tokens that are words -/

section Tokens

open Segment

/-- The bytes of a delimiter are never those of another character, so a text without them is a
word. -/
theorem isWord_of_bytes {s : String} (hne : Utf8.bytes s ≠ [])
    (h : ∀ b ∈ Utf8.bytes s, b ≠ ' '.toUInt8 ∧ b ≠ '('.toUInt8 ∧ b ≠ ')'.toUInt8) : IsWord s := by
  have encoded : Utf8.bytes s = s.toList.flatMap String.utf8EncodeChar := by
    rw [← Utf8.bytes_ofList, String.ofList_toList]
  refine ⟨?_, ?_⟩
  · rintro rfl
    exact hne rfl
  · intro c hc
    have mem : ∀ b, b ∈ String.utf8EncodeChar c → b ∈ Utf8.bytes s := by
      intro b hb
      rw [encoded]
      exact List.mem_flatMap.mpr ⟨c, hc, hb⟩
    refine ⟨?_, ?_, ?_⟩
    · rintro rfl
      exact (h _ (mem _ List.mem_cons_self)).1 rfl
    · rintro rfl
      exact (h _ (mem _ List.mem_cons_self)).2.1 rfl
    · rintro rfl
      exact (h _ (mem _ List.mem_cons_self)).2.2 rfl

namespace Grammar

variable {c : SegmentClass} {t : Token} {w : List UInt8}

/-- A numeral holds digits and points only. -/
theorem mem_numeral {ds es : List UInt8} (h : Numeral w ds es) :
    ∀ b ∈ w, isDigit b = true ∨ b = point := by
  intro b hb
  cases h with
  | whole _ digits => exact .inl (digits b hb)
  | fraction _ digits _ digits' =>
    rcases List.mem_append.mp hb with hb | hb
    · exact .inl (digits b hb)
    · rcases List.mem_cons.mp hb with rfl | hb
      · exact .inr rfl
      · exact .inl (digits' b hb)

/-- Only strings and the marks of parentheses hold parentheses. -/
theorem not_parenthesis_of_mem_language (ht : isToken c = true) (hstring : c ≠ .string)
    (hopen : c ≠ .mark .leftParen) (hclose : c ≠ .mark .rightParen) (hw : w ∈ language c) :
    ∀ b ∈ w, b ≠ '('.toUInt8 ∧ b ≠ ')'.toUInt8 := by
  have word_ne : ∀ b, isWordByte b = true → b ≠ '('.toUInt8 ∧ b ≠ ')'.toUInt8 :=
    forall_byte (by decide +kernel)
  intro b hb
  cases c with
  | mark kind =>
    have spelled : ∀ kind s, kind ≠ .leftParen → kind ≠ .rightParen → markSpelling kind = some s →
        ∀ b ∈ s.toList.map Char.toUInt8, b ≠ '('.toUInt8 ∧ b ≠ ')'.toUInt8 := by
      intro kind s hopen hclose hs
      cases kind with
      | leftParen => exact absurd rfl hopen
      | rightParen => exact absurd rfl hclose
      | _ => cases hs <;> decide +kernel
    obtain ⟨s, hs, rfl⟩ := Option.map_eq_some_iff.mp hw
    exact spelled kind s (by simpa using hopen) (by simpa using hclose) hs b hb
  | number =>
    obtain ⟨ds, es, hnumeral⟩ := Numeral.exists_of_mem_language hw
    rcases mem_numeral hnumeral b hb with hdigit | rfl
    · exact word_ne b (by simp [isWordByte, hdigit])
    · decide
  | word =>
    obtain ⟨x, xs, rfl, hx, hxs⟩ := mem_word_iff.mp hw
    rcases List.mem_cons.mp hb with rfl | hb
    · exact word_ne b (by simp [isWordByte, hx])
    · exact word_ne b (hxs b hb)
  | string => exact absurd rfl hstring
  | comment | blank | lineBreak | openString | stray => cases ht

/-- The word of groupings is read as an identifier. -/
theorem Spells.kind_of_groupWord (h : Spells c t) (hlexeme : t.lexeme = Expr.groupWord) :
    t.kind = .identifier := by
  have bytes : Utf8.bytes t.lexeme = [0x67, 0x72, 0x6F, 0x75, 0x70] := by
    rw [hlexeme]
    decide
  obtain ⟨-, hw, htoken⟩ := h
  rw [bytes] at hw htoken
  -- the bytes alone decide the class, and then the kind, as the word is not reserved
  have alone := extent_of_mem_language hw
  obtain rfl : .word = c := congrArg Prod.fst alone
  have hkind : t.kind = .ofWord [0x67, 0x72, 0x6F, 0x75, 0x70] :=
    (congrArg Token.kind (Option.some.inj htoken)).symm
  rw [hkind]
  decide

/-- **The tokens that are words**: all but parentheses and strings. Only identifiers can be the word
of groupings. -/
theorem Spells.isWord (h : Spells c t) (hopen : t.kind ≠ .leftParen) (hclose : t.kind ≠ .rightParen)
    (hstring : t.kind ≠ .string) (hidentifier : t.kind ≠ .identifier) :
    IsWord t.lexeme ∧ t.lexeme ≠ Expr.groupWord := by
  obtain ⟨ht, hw, htoken⟩ := h
  -- the class of the lexeme decides the kind of the token
  have kind_mark : ∀ kind, c = .mark kind → t.kind = kind := by
    rintro kind rfl
    exact (congrArg Token.kind (Option.some.inj htoken)).symm
  have hc : c ≠ .string := by
    rintro rfl
    exact hstring (congrArg Token.kind (Option.some.inj htoken)).symm
  have hne : Utf8.bytes t.lexeme ≠ [] := (fits_of_mem_language hw).ne_nil
  refine ⟨isWord_of_bytes hne ?_, ?_⟩
  · intro b hb
    have hwhite := (graphic_of_mem_language ht hc hw b hb).2
    refine ⟨?_, not_parenthesis_of_mem_language ht hc (fun h => hopen (kind_mark _ h))
      (fun h => hclose (kind_mark _ h)) hw b hb⟩
    rintro rfl
    exact absurd hwhite (by decide)
  · intro hgroup
    exact hidentifier (Spells.kind_of_groupWord ⟨ht, hw, htoken⟩ hgroup)

end Grammar

theorem isWord_of_mem_tokens {source : List UInt8} {t : Token} (ht : t ∈ (scan source).tokens)
    (hkind : t.kind ∉ [.leftParen, .rightParen, .string, .identifier, .endOfInput]) :
    IsWord t.lexeme ∧ t.lexeme ≠ Expr.groupWord := by
  simp only [List.mem_cons, List.not_mem_nil, or_false, not_or] at hkind
  obtain ⟨hopen, hclose, hstring, hidentifier, hend⟩ := hkind
  rw [tokens_scan] at ht
  rcases List.mem_append.mp ht with ht | ht
  · obtain ⟨c, spells⟩ := Grammar.exists_spells ht
    exact spells.isWord hopen hclose hstring hidentifier
  · rw [List.mem_singleton.mp ht] at hend
    exact absurd rfl hend

end Tokens

/-! ## Numbers are words -/

section Numbers

/-- The characters of a decimal are digits and points, and there are some. -/
theorem Decimal.isWord_positional (d : Decimal) : IsWord d.positional := by
  have digits : ∀ c ∈ natDigits d.digits, c.isDigit = true := by
    intro c hc
    exact Nat.isDigit_of_mem_toDigits (by decide) (by decide) hc
  have nonempty : natDigits d.digits ≠ [] := Nat.toDigits_ne_nil
  have zeros : ∀ n, ∀ c ∈ List.replicate n '0', c.isDigit = true := by
    intro n c hc
    rw [List.eq_of_mem_replicate hc]
    rfl
  have numeric : ∀ c ∈ d.positional.toList, c.isDigit = true ∨ c = '.' := by
    intro c hc
    -- there is no point, or it stands before all digits, or between two of them
    rw [positional, String.toList_ofList] at hc
    split_ifs at hc
    · rcases List.mem_append.mp hc with hc | hc
      · exact .inl (digits c hc)
      · exact .inl (zeros _ c hc)
    · simp only [List.mem_cons, List.mem_append] at hc
      rcases hc with rfl | rfl | hc | hc
      · exact .inl rfl
      · exact .inr rfl
      · exact .inl (zeros _ c hc)
      · exact .inl (digits c hc)
    · simp only [List.mem_cons, List.mem_append] at hc
      rcases hc with hc | rfl | hc
      · exact .inl (digits c (List.mem_of_mem_take hc))
      · exact .inr rfl
      · exact .inl (digits c (List.mem_of_mem_drop hc))
  refine ⟨?_, ?_⟩
  · rw [ne_eq, ← String.toList_inj, positional, String.toList_ofList]
    split_ifs <;> simp [nonempty]
  · intro c hc
    rcases numeric c hc with hdigit | rfl
    · refine ⟨?_, ?_, ?_⟩ <;> rintro rfl <;> cases hdigit
    · decide

theorem IsWord.append {s t : String} (hs : IsWord s) (ht : IsWord t) : IsWord (s ++ t) := by
  refine ⟨?_, ?_⟩
  · intro h
    exact hs.1 (String.append_eq_empty_iff.mp h).1
  · intro c hc
    rw [String.toList_append, List.mem_append] at hc
    exact hc.elim (hs.2 c) (ht.2 c)

/-- **The text of every number is a word**, whether it is finite or not. -/
theorem Binary64.isWord_display (x : Binary64) : IsWord x.display := by
  have size : IsWord (if x.isInfinite then "inf" else if x.magnitude = 0 then "0"
      else x.shortest.positional) := by
    split_ifs
    · decide
    · decide
    · exact x.shortest.isWord_positional
  have signed : ∀ s, IsWord s → IsWord (if x.isNegative then "-" ++ s else s) := by
    intro s hs
    split_ifs
    · exact IsWord.append (by decide) hs
    · exact hs
  cases hnan : x.isNaN with
  | true =>
    rw [display, if_pos hnan]
    decide
  | false =>
    rw [display, if_neg (by simp [hnan])]
    exact signed _ size

end Numbers

/-- **Prefix notation can be read in one way.** Whatever two printers have printed before, they print
the same text for two readable expressions of any size exactly if these match node by node. Most
expressions are readable: the lexemes of the tokens of any source, parentheses, strings, identifiers
and the end of the input apart, are words other than that of groupings, and the texts of `nil`, of
the truth values and of all numbers are words. -/
theorem prefix_readable :
    (∀ (p q : Printer) (e f : Expr), e.Readable → f.Readable →
      ((p.print e).buffer = (q.print f).buffer ↔ e.Matches f)) ∧
    (∀ source, ∀ t ∈ (scan source).tokens,
      t.kind ∉ [.leftParen, .rightParen, .string, .identifier, .endOfInput] →
        IsWord t.lexeme ∧ t.lexeme ≠ Expr.groupWord) ∧
    IsWord Value.nil.display ∧ (∀ b, IsWord (Value.bool b).display) ∧
    ∀ x, IsWord (Value.number x).display := by
  refine ⟨?_, ?_, by decide, by decide, Binary64.isWord_display⟩
  · intro p q e f he hf
    rw [Printer.buffer_print, Printer.buffer_print, Expr.render_eq_iff he hf]
  · intro source t ht hkind
    exact isWord_of_mem_tokens ht hkind

/-- A product, and the same one with its operator on the next line; its first operator can be read
from a source. -/
theorem prefix_readable_product :
    let e := Expr.binary (.unary ⟨.minus, "-", none, 1⟩ (.literal (.number ⟨0x405EC00000000000⟩)))
      ⟨.star, "*", none, 1⟩ (.grouping (.literal (.number ⟨0x4046D5C28F5C28F6⟩)))
    let f := Expr.binary (.unary ⟨.minus, "-", none, 1⟩ (.literal (.number ⟨0x405EC00000000000⟩)))
      ⟨.star, "*", none, 2⟩ (.grouping (.literal (.number ⟨0x4046D5C28F5C28F6⟩)))
    e.Readable ∧ f.Readable ∧ e.Matches f ∧
    ∃ t ∈ (scan (Utf8.bytes "-123")).tokens, t.kind = .minus ∧
      IsWord t.lexeme ∧ t.lexeme ≠ Expr.groupWord := by
  intro e f
  obtain ⟨texts, tokens, -, -, numbers⟩ := prefix_readable
  have minus : IsWord "-" ∧ "-" ≠ Expr.groupWord := by decide
  have star : IsWord "*" ∧ "*" ≠ Expr.groupWord := by decide
  have he : e.Readable := ⟨⟨minus, numbers _⟩, star, numbers _⟩
  have hf : f.Readable := ⟨⟨minus, numbers _⟩, star, numbers _⟩
  have kinds : (scan (Utf8.bytes "-123")).tokens.map Token.kind =
      [.minus, .number, .endOfInput] := by decide +kernel
  obtain ⟨t, rest, htokens, hkind, -⟩ := List.map_eq_cons_iff.mp kinds
  have ht : t ∈ (scan (Utf8.bytes "-123")).tokens := by
    rw [htokens]
    exact List.mem_cons_self
  have isWord := tokens _ t ht (by rw [hkind]; decide)
  exact ⟨he, hf, (texts {} {} e f he hf).mp rfl, t, ht, hkind, isWord⟩

end LoxLexer
