import LoxLexer.Proofs.Composition
import LoxLexer.Proofs.LineNumbers

/-!
# Lexemes

A token can be read back from its lexeme. The lexeme of a string may differ from what was read, as
decoding replaces bytes that encode nothing, but it is a string again, and one that decoding leaves
as it is; all other lexemes are ASCII. So the layout of a source does not matter: tokens that are
written out with white space between them, however much of it and of whichever sort, are scanned as
the same tokens, without faults and comments.

## Main definitions

* `Token.content t`: the kind, the lexeme and the literal of the token `t`
* `Grammar.Spells c t`: the lexeme of the token `t` is of the class `c`, and reads as `t`

## Main results

* `Grammar.recoded_mem_language`, `Grammar.token?_recoded`: decoding keeps classes and tokens
* `Grammar.exists_spells`: every token of a scan is spelled by its lexeme
* `Grammar.Spells.split_append`: a lexeme in front of white space is cut off
* `scan_layout`: tokens are scanned from their lexemes, whatever white space is between these
-/

namespace LoxLexer

namespace Grammar

open Segment

/-! ## Decoding keeps tokens -/

section Recoded

variable {c : SegmentClass} {w body : List UInt8}

/-- A word by itself fits. -/
theorem fits_of_mem_language (hw : w ∈ language c) : Fits c w [] :=
  ⟨hw, fun _ => rfl⟩

/-- **Only strings hold white space**, and bytes that are not ASCII. -/
theorem graphic_of_mem_language (ht : isToken c = true) (hc : c ≠ .string) (hw : w ∈ language c) :
    ∀ b ∈ w, b.toNat < 0x80 ∧ isWhite b = false := by
  have word_graphic : ∀ b, isWordByte b = true → b.toNat < 0x80 ∧ isWhite b = false :=
    forall_byte (by decide +kernel)
  have digit_graphic : ∀ b, isDigit b = true → b.toNat < 0x80 ∧ isWhite b = false := by
    intro b hb
    exact word_graphic b (by simp [isWordByte, hb])
  intro b hb
  cases c with
  | mark kind =>
    have spelled : ∀ kind s, markSpelling kind = some s →
        ∀ b ∈ s.toList.map Char.toUInt8, b.toNat < 0x80 ∧ isWhite b = false := by
      intro kind s hs
      cases kind <;> cases hs <;> decide +kernel
    obtain ⟨s, hs, rfl⟩ := Option.map_eq_some_iff.mp hw
    exact spelled kind s hs b hb
  | number =>
    obtain ⟨d, ds, fraction, rfl, hd, hds, hf⟩ := mem_number_iff.mp hw
    simp only [List.mem_cons, List.mem_append] at hb
    rcases hb with rfl | hb | hb
    · exact digit_graphic b hd
    · exact digit_graphic b (hds b hb)
    · rcases hf with rfl | ⟨e, es, rfl, he, hes⟩
      · cases hb
      · simp only [List.mem_cons] at hb
        rcases hb with rfl | rfl | hb
        · decide
        · exact digit_graphic b he
        · exact digit_graphic b (hes b hb)
  | word =>
    obtain ⟨x, xs, rfl, hx, hxs⟩ := mem_word_iff.mp hw
    rcases List.mem_cons.mp hb with rfl | hb
    · exact word_graphic b (by simp [isWordByte, hx])
    · exact word_graphic b (hxs b hb)
  | string => exact absurd rfl hc
  | comment | blank | lineBreak | openString | stray => cases ht

theorem recoded_of_mem_language (ht : isToken c = true) (hc : c ≠ .string)
    (hw : w ∈ language c) : Utf8.recoded w = w := by
  apply Utf8.recoded_of_ascii
  intro b hb
  exact (graphic_of_mem_language ht hc hw b hb).1

theorem quote_ascii : quote.toNat < 0x80 := by decide

/-- The quotes around a string are decoded by themselves. -/
theorem recoded_quoted (body : List UInt8) :
    Utf8.recoded (quote :: (body ++ [quote])) = quote :: (Utf8.recoded body ++ [quote]) := by
  rw [Utf8.recoded_cons_of_ascii quote_ascii, Utf8.recoded_append (.inr (.cons quote_ascii)),
    Utf8.recoded_cons_of_ascii quote_ascii, Utf8.recoded_nil]

theorem quote_notMem_recoded (h : quote ∉ body) : quote ∉ Utf8.recoded body := by
  rw [← List.count_eq_zero] at h ⊢
  rw [Utf8.count_recoded quote_ascii, h]

theorem mem_string_iff_notMem :
    w ∈ language .string ↔ ∃ body, w = quote :: (body ++ [quote]) ∧ quote ∉ body := by
  simp only [mem_string_iff, List.forall_mem_ne']

/-- **Decoding keeps the class of a token.** -/
theorem recoded_mem_language (ht : isToken c = true) (hw : w ∈ language c) :
    Utf8.recoded w ∈ language c := by
  by_cases hc : c = .string
  · subst hc
    obtain ⟨body, rfl, hbody⟩ := mem_string_iff_notMem.mp hw
    exact mem_string_iff_notMem.mpr ⟨_, recoded_quoted body, quote_notMem_recoded hbody⟩
  · rwa [recoded_of_mem_language ht hc hw]

theorem unquoted_quoted (body : List UInt8) : unquoted (quote :: (body ++ [quote])) = body := by
  simp [unquoted]

/-- **Decoding keeps the token**: a second decoding changes nothing. -/
theorem token?_recoded (ht : isToken c = true) (hw : w ∈ language c) (line : Nat) :
    token? line ⟨c, Utf8.recoded w⟩ = token? line ⟨c, w⟩ := by
  by_cases hc : c = .string
  · subst hc
    obtain ⟨body, rfl, -⟩ := mem_string_iff_notMem.mp hw
    have lexeme : Utf8.text (Utf8.recoded (quote :: (body ++ [quote]))) =
        Utf8.text (quote :: (body ++ [quote])) := Utf8.text_bytes _
    have value : Utf8.text (Utf8.recoded body) = Utf8.text body := Utf8.text_bytes _
    simp only [token?, lexeme]
    rw [recoded_quoted, unquoted_quoted, unquoted_quoted, value]
  · rw [recoded_of_mem_language ht hc hw]

end Recoded

/-! ## Tokens from their lexemes -/

section Spelling

variable {c : SegmentClass} {t : Token} {line : Nat} {source : List UInt8}

/-- **A token that is spelled by its lexeme**: the lexeme is of the class `c`, and reads as the
token. -/
structure Spells (c : SegmentClass) (t : Token) : Prop where
  isToken_eq : isToken c = true
  mem_language : Utf8.bytes t.lexeme ∈ language c
  token?_eq : token? t.line ⟨c, Utf8.bytes t.lexeme⟩ = some t

theorem Spells.reads (h : Spells c t) :
    Reads t ⟨c, Utf8.bytes t.lexeme⟩ ∧ t.kind ≠ .endOfInput := by
  have admits : Admits c (Utf8.bytes t.lexeme) [] := .lexeme (fits_of_mem_language h.mem_language)
  obtain ⟨t', htoken, hreads⟩ :=
    Admits.exists_token (s := ⟨c, Utf8.bytes t.lexeme⟩) admits h.isToken_eq t.line
  rw [h.token?_eq] at htoken
  obtain rfl := Option.some.inj htoken
  exact hreads

theorem Spells.kind_ne (h : Spells c t) : t.kind ≠ .endOfInput :=
  h.reads.2

theorem exists_of_mem_tokensFrom {ss : List Segment} (h : t ∈ tokensFrom line ss) :
    ∃ s ∈ ss, ∃ line, s.token? line = some t := by
  induction ss generalizing line with
  | nil => cases h
  | cons s ss ih =>
    rcases List.mem_append.mp h with h | h
    · exact ⟨s, List.mem_cons_self, line, Option.mem_toList.mp h⟩
    · obtain ⟨s', hs', htoken⟩ := ih h
      exact ⟨s', List.mem_cons_of_mem s hs', htoken⟩

theorem lexeme_of_token? {s : Segment} (h : s.token? line = some t) :
    t.lexeme = Utf8.text s.bytes := by
  obtain ⟨cls, bytes⟩ := s
  cases cls with
  | mark | string | number | word => cases h; rfl
  | comment | blank | lineBreak | openString | stray => cases h

/-- Only strings and numbers have a literal. -/
theorem literal_of_token? {s : Segment} (h : s.token? line = some t) :
    t.literal = none ∨
      (s.cls = .string ∧ t.literal = some (.string (Utf8.text (unquoted s.bytes)))) ∨
      (s.cls = .number ∧ t.literal = some (.number (numeral s.bytes))) := by
  obtain ⟨cls, bytes⟩ := s
  cases cls with
  | string => cases h; exact .inr (.inl ⟨rfl, rfl⟩)
  | number => cases h; exact .inr (.inr ⟨rfl, rfl⟩)
  | mark | word => cases h; exact .inl rfl
  | comment | blank | lineBreak | openString | stray => cases h

theorem mem_language_of_mem_split {s : Segment} (hs : s ∈ split source)
    (ht : isToken s.cls = true) : s.bytes ∈ language s.cls := by
  obtain ⟨before, behind, hsplit⟩ := List.append_of_mem hs
  have admits := ((maximalMunch_split source).longest before s behind hsplit).admits
  obtain ⟨cls, bytes⟩ := s
  cases admits with
  | lexeme h => exact h.1
  | other h => cases ht

/-- **Every token of a source is spelled by its lexeme.** -/
theorem exists_spells (h : t ∈ tokensFrom line (split source)) : ∃ c, Spells c t := by
  obtain ⟨s, hs, line, htoken⟩ := exists_of_mem_tokensFrom h
  have ht : isToken s.cls = true := by
    by_contra hnot
    rw [token?_eq_none (Bool.not_eq_true _ ▸ hnot)] at htoken
    cases htoken
  have hw := mem_language_of_mem_split hs ht
  have bytes : Utf8.bytes t.lexeme = Utf8.recoded s.bytes := by
    rw [lexeme_of_token? htoken, Utf8.recoded]
  refine ⟨s.cls, ht, ?_, ?_⟩
  · rw [bytes]
    exact recoded_mem_language ht hw
  · rw [bytes, token?_recoded ht hw, line_of_token? htoken]
    exact htoken

end Spelling

end Grammar

/-! ## What segments stand for -/

/-- **What a token says**, wherever it stands: its kind, its lexeme and its literal. -/
def Token.content (t : Token) : TokenKind × String × Option Literal :=
  (t.kind, t.lexeme, t.literal)

namespace Segment

section Contents

/-- What the tokens of segments say. -/
def contents (ss : List Segment) : List (TokenKind × String × Option Literal) :=
  ss.filterMap fun s => (s.token? 0).map Token.content

/-- The faults of segments. -/
def faults (ss : List Segment) : List Fault :=
  ss.filterMap fault?

@[simp] theorem contents_append (ss ts : List Segment) :
    contents (ss ++ ts) = contents ss ++ contents ts :=
  List.filterMap_append

@[simp] theorem faults_append (ss ts : List Segment) :
    faults (ss ++ ts) = faults ss ++ faults ts :=
  List.filterMap_append

/-- What a token says does not depend on its line. -/
theorem map_content_tokensFrom (line : Nat) (ss : List Segment) :
    (tokensFrom line ss).map Token.content = contents ss := by
  induction ss generalizing line with
  | nil => rfl
  | cons s ss ih =>
    have unplaced : (s.token? line).map Token.content = (s.token? 0).map Token.content := by
      rw [← Nat.zero_add line, token?_add, Option.map_map]
      rfl
    rw [tokensFrom, List.map_append, ih, ← Option.toList_map, unplaced, contents, contents,
      List.filterMap_cons]
    cases (s.token? 0).map Token.content <;> rfl

theorem map_fault_diagnosticsFrom (line : Nat) (ss : List Segment) :
    (diagnosticsFrom line ss).map Diagnostic.fault = faults ss := by
  induction ss generalizing line with
  | nil => rfl
  | cons s ss ih =>
    rw [diagnosticsFrom, List.map_append, ih, faults, faults, List.filterMap_cons]
    cases s.fault? <;> rfl

end Contents

/-! ## White space between lexemes -/

section White

variable {b y : UInt8} {w : List UInt8} {c : SegmentClass}

/-- The segment that a byte of white space is. -/
def white (b : UInt8) : Segment :=
  ⟨if isBlank b then .blank else .lineBreak, [b]⟩

theorem extent_white (hb : isWhite b = true) (rest : List UInt8) :
    extent b rest = ((white b).cls, 0) := by
  by_cases hblank : isBlank b = true
  · rw [Grammar.extent_blank hblank, white, if_pos hblank]
  · have hfeed : b = lineFeed := by
      simpa [isWhite, hblank] using hb
    subst hfeed
    rfl

/-- White space is cut byte by byte. -/
theorem split_white_append (hw : ∀ b ∈ w, isWhite b = true) (rest : List UInt8) :
    split (w ++ rest) = w.map white ++ split rest := by
  induction w with
  | nil => rfl
  | cons b w ih =>
    have alone := extent_white (hw b List.mem_cons_self) (w ++ rest)
    rw [List.cons_append, split_cons, next, after, alone, List.drop_zero,
      ih fun x hx => hw x (List.mem_cons_of_mem b hx)]
    rfl

theorem split_of_white (hw : ∀ b ∈ w, isWhite b = true) : split w = w.map white := by
  have cut := split_white_append hw []
  rwa [List.append_nil, split_nil, List.append_nil] at cut

@[simp] theorem contents_map_white (w : List UInt8) : contents (w.map white) = [] := by
  have silent (b : UInt8) : (white b).token? 0 = none := by
    unfold white
    split <;> rfl
  simp [contents, silent]

@[simp] theorem faults_map_white (w : List UInt8) : faults (w.map white) = [] := by
  have silent (b : UInt8) : (white b).fault? = none := by
    unfold white
    split <;> rfl
  simp [faults, silent]

/-- A word by itself is one segment. -/
theorem extent_of_mem_language (hw : b :: w ∈ Grammar.language c) :
    extent b w = (c, w.length) := by
  have bounded := (Grammar.fits_of_mem_language hw).bounded_extent
  rw [List.append_nil] at bounded
  have whole : w.length = (extent b w).2 :=
    Nat.le_antisymm bounded.length_le (Grammar.extent_le b w)
  exact Prod.ext (bounded.cls_eq whole).symm whole.symm

/-- **A word of a token's class is cut off in front of white space.** -/
theorem split_word_append (ht : Grammar.isToken c = true) (hw : w ∈ Grammar.language c)
    (hy : isWhite y = true) (ys : List UInt8) :
    split (w ++ y :: ys) = ⟨c, w⟩ :: split (y :: ys) := by
  obtain ⟨b, v, rfl⟩ := List.exists_cons_of_ne_nil (Grammar.fits_of_mem_language hw).ne_nil
  have alone := extent_of_mem_language hw
  -- of the classes that white space can change, neither is that of a token
  have hopen : (extent b v).1 ≠ .openString := by
    rw [alone]
    rintro rfl
    cases ht
  have hcomment : (extent b v).1 = .comment → y = lineFeed := by
    rw [alone]
    rintro rfl
    cases ht
  have same := extent_append hy hopen hcomment ys
  rw [List.cons_append, split_cons, next_append_of_extent same, after_append_of_extent same, next,
    after, alone, List.take_length, List.drop_length, List.nil_append]

end White

end Segment

/-! ## Layout -/

section Layout

open Segment

variable {c : SegmentClass} {t : Token} {w : List UInt8} {layout : List (Token × List UInt8)}

theorem Grammar.Spells.split_append (h : Spells c t) (hw : w ≠ [])
    (hwhite : ∀ b ∈ w, isWhite b = true) (rest : List UInt8) :
    split (Utf8.bytes t.lexeme ++ w ++ rest) =
      ⟨c, Utf8.bytes t.lexeme⟩ :: (w.map white ++ split rest) := by
  obtain ⟨y, ys, rfl⟩ := List.exists_cons_of_ne_nil hw
  have hy := hwhite y List.mem_cons_self
  rw [List.append_assoc, List.cons_append, split_word_append h.isToken_eq h.mem_language hy,
    ← List.cons_append, split_white_append hwhite]

theorem Grammar.Spells.contents_cons (h : Spells c t) (ss : List Segment) :
    contents (⟨c, Utf8.bytes t.lexeme⟩ :: ss) = t.content :: contents ss := by
  have token : (token? 0 ⟨c, Utf8.bytes t.lexeme⟩).map Token.content = some t.content := by
    rw [← Option.map_some, ← h.token?_eq, ← Nat.zero_add t.line, token?_add, Option.map_map]
    rfl
  exact List.filterMap_cons_some token

theorem Grammar.Spells.faults_cons (h : Spells c t) (ss : List Segment) :
    faults (⟨c, Utf8.bytes t.lexeme⟩ :: ss) = faults ss := by
  refine List.filterMap_cons_none (fault?_eq_none ?_)
  have ht := h.isToken_eq
  cases c with
  | mark | string | number | word => rfl
  | comment | blank | lineBreak | openString | stray => cases ht

/-- Tokens written out, each with what follows it. -/
def layOut (layout : List (Token × List UInt8)) : List UInt8 :=
  layout.flatMap fun p => Utf8.bytes p.1.lexeme ++ p.2

/-- **Tokens that are written out** are found again, and no faults are among them. -/
theorem split_layOut_append (hspells : ∀ p ∈ layout, ∃ c, Grammar.Spells c p.1)
    (hwhite : ∀ p ∈ layout, p.2 ≠ [] ∧ ∀ b ∈ p.2, isWhite b = true) (rest : List UInt8) :
    contents (split (layOut layout ++ rest)) =
      layout.map (fun p => p.1.content) ++ contents (split rest) ∧
    faults (split (layOut layout ++ rest)) = faults (split rest) := by
  induction layout with
  | nil => exact ⟨rfl, rfl⟩
  | cons p layout ih =>
    obtain ⟨t, w⟩ := p
    obtain ⟨c, spells⟩ := hspells (t, w) List.mem_cons_self
    obtain ⟨hw, hwhite'⟩ := hwhite (t, w) List.mem_cons_self
    obtain ⟨hcontents, hfaults⟩ := ih
      (fun p hp => hspells p (List.mem_cons_of_mem _ hp))
      (fun p hp => hwhite p (List.mem_cons_of_mem _ hp))
    have cut : split (layOut ((t, w) :: layout) ++ rest) =
        ⟨c, Utf8.bytes t.lexeme⟩ :: (w.map white ++ split (layOut layout ++ rest)) := by
      rw [layOut, List.flatMap_cons, List.append_assoc, spells.split_append hw hwhite']
      rfl
    constructor
    · rw [cut, spells.contents_cons, contents_append, contents_map_white, hcontents]
      rfl
    · rw [cut, spells.faults_cons, faults_append, faults_map_white, hfaults]
      rfl

/-- **The layout of a source does not matter.** Let the tokens of a source be written out in order,
each with white space behind it, of which there is some unless the token ends the input. This text
is scanned without a fault, and its tokens have the kinds, the lexemes and the literals of those of
the source, whatever faults or comments that has, and whatever bytes its strings hold. -/
theorem scan_layout (source : List UInt8) (layout : List (Token × List UInt8))
    (htokens : layout.map Prod.fst = (scan source).tokens)
    (hwhite : ∀ p ∈ layout, (p.1.kind ≠ .endOfInput → p.2 ≠ []) ∧ ∀ b ∈ p.2, isWhite b = true) :
    let again := scan (layOut layout)
    again.diagnostics = [] ∧
    again.tokens.map Token.content = (scan source).tokens.map Token.content := by
  dsimp only
  rw [tokens_scan] at htokens
  obtain ⟨own, last, rfl, hown, hlast⟩ := List.map_eq_append_iff.mp htokens
  obtain ⟨⟨_, w⟩, rfl, rfl⟩ := List.map_eq_singleton_iff.mp hlast
  have spells : ∀ p ∈ own, ∃ c, Grammar.Spells c p.1 := by
    intro p hp
    have mem : p.1 ∈ tokensFrom 1 (split source) := by
      rw [← hown]
      exact List.mem_map_of_mem hp
    exact Grammar.exists_spells mem
  have separated : ∀ p ∈ own, p.2 ≠ [] ∧ ∀ b ∈ p.2, isWhite b = true := by
    intro p hp
    obtain ⟨c, spelled⟩ := spells p hp
    obtain ⟨hne, hblank⟩ := hwhite p (List.mem_append_left _ hp)
    exact ⟨hne spelled.kind_ne, hblank⟩
  -- the last token has an empty lexeme, so only its white space is written
  have written : layOut (own ++ [(.endOfInput (1 + source.count lineFeed), w)]) =
      layOut own ++ w := by
    rw [layOut, List.flatMap_append]
    exact congrArg (layOut own ++ ·) (List.append_nil w)
  have silent := split_of_white (hwhite _ (List.mem_append_right own List.mem_cons_self)).2
  obtain ⟨hcontents, hfaults⟩ := split_layOut_append spells separated w
  rw [silent, contents_map_white, List.append_nil] at hcontents
  rw [silent, faults_map_white] at hfaults
  constructor
  · have none := map_fault_diagnosticsFrom 1 (split (layOut own ++ w))
    rw [hfaults] at none
    rw [diagnostics_scan, written]
    exact List.map_eq_nil_iff.mp none
  · rw [tokens_scan, tokens_scan, List.map_append, List.map_append, map_content_tokensFrom, written,
      hcontents, ← hown, List.map_map]
    rfl

/-- A stray byte, a string with a byte that encodes nothing, a comment, and a number with a point
behind it: written out again, each token on a line of its own. -/
theorem scan_layout_ragged :
    let source := [0x40, 0x22, 0xFF, 0x22, 0x2F, 0x2F, 0x0A, 0x31, 0x2E]
    let layout := (scan source).tokens.map fun t => (t, [0x0D, lineFeed])
    (scan source).hadError = true ∧ (scan (layOut layout)).diagnostics = [] ∧
    (scan (layOut layout)).tokens.map Token.content = (scan source).tokens.map Token.content := by
  have white : ∀ b ∈ [0x0D, lineFeed], isWhite b = true := by decide +kernel
  refine ⟨by decide +kernel, scan_layout _ _ ?_ ?_⟩
  · rw [List.map_map]
    exact List.map_id _
  · intro p hp
    obtain ⟨t, -, rfl⟩ := List.mem_map.mp hp
    exact ⟨fun _ => List.cons_ne_nil _ _, white⟩

end Layout

end LoxLexer
