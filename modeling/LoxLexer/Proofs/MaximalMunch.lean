import LoxLexer.Proofs.Grammar
import LoxLexer.Proofs.Walk

/-!
# Maximal munch

A source is cut into segments from left to right, each the longest that the lexical grammar admits
where it starts. There is exactly one way to do so, and a scan yields what the segments of this
way stand for: one token for each mark, string, number and word, one diagnostic for each stray
byte and for a string without its closing quote, and the token that ends the input.

## Main definitions

* `Admits c w rest`: the grammar admits `w` as a `c` at the front of `w ++ rest`
* `Longest s rest`: `s` is the longest segment admitted at the front of `s.bytes ++ rest`
* `MaximalMunch source segs`: `source` consists of `segs`, each the longest where it starts
* `Reads t s`, `Reports d s`: what a token and a diagnostic say about their segment

## Main results

* `maximalMunch_iff`: the segments of a source are the only maximal munch of it
* `scan_maximalMunch`: a scan yields what they stand for
-/

namespace LoxLexer.Grammar

open Segment

/-! ## The longest segment -/

section Longest

/-- **What the grammar admits at the front of an input**: a word of a class, or any byte if there
is none. -/
inductive Admits : SegmentClass → List UInt8 → List UInt8 → Prop where
  | lexeme {c : SegmentClass} {w rest : List UInt8} (h : Fits c w rest) : Admits c w rest
  | other {b : UInt8} {rest : List UInt8}
      (h : ∀ c w rest', w ++ rest' = b :: rest → ¬ Fits c w rest') : Admits .stray [b] rest

/-- **The longest segment** at the front of an input. -/
structure Longest (s : Segment) (rest : List UInt8) : Prop where
  /-- The grammar admits the segment. -/
  admits : Admits s.cls s.bytes rest
  /-- It admits no longer one. -/
  maximal : ∀ {c w rest'}, Admits c w rest' → w ++ rest' = s.bytes ++ rest →
    w.length ≤ s.bytes.length

variable {b : UInt8} {w rest : List UInt8} {c : SegmentClass} {s : Segment}

theorem Admits.ne_nil (h : Admits c w rest) : w ≠ [] := by
  cases h with
  | lexeme h => exact h.ne_nil
  | other h => simp

theorem extent_of_stray (h : (extent b rest).1 = .stray) : (extent b rest).2 = 0 := by
  revert h
  fun_cases extent b rest <;> simp

theorem Admits.length_le_extent (h : Admits c (b :: w) rest) :
    w.length ≤ (extent b (w ++ rest)).2 := by
  cases h with
  | lexeme h => exact h.bounded_extent.length_le
  | other h => simp

/-- The class of a segment follows from its length. -/
theorem Admits.cls_eq (h : Admits c (b :: w) rest) (hw : w.length = (extent b (w ++ rest)).2) :
    c = (extent b (w ++ rest)).1 := by
  cases h with
  | lexeme h => exact h.bounded_extent.cls_eq hw
  | other h =>
    by_contra hne
    exact h _ _ _ (bytes_append_rest b rest) (fits_next (Ne.symm hne))

theorem admits_next (b : UInt8) (rest : List UInt8) :
    Admits (next b rest).cls (next b rest).bytes (after b rest) := by
  by_cases hs : (extent b rest).1 = .stray
  · have alone : next b rest = ⟨.stray, [b]⟩ := by simp [next, hs, extent_of_stray hs]
    have behind : after b rest = rest := by simp [after, extent_of_stray hs]
    rw [alone, behind]
    -- a word that fits here would bound the extent from below by something other than stray
    refine .other fun c w rest' hw hfits => ?_
    obtain ⟨_, w, rfl⟩ := List.exists_cons_of_ne_nil hfits.ne_nil
    obtain ⟨rfl, rfl⟩ := List.cons.inj hw
    exact hfits.bounded_extent.ne_stray hs
  · exact .lexeme (fits_next hs)

theorem fractionLength_le (bs : List UInt8) : fractionLength bs ≤ bs.length := by
  unfold fractionLength
  split
  · rename_i p d bs
    have := (List.takeWhile_prefix isDigit (l := bs)).length_le
    split
    · simp only [List.length_cons]
      omega
    · exact Nat.zero_le _
  · exact Nat.zero_le _

/-- A segment takes no more than there is. -/
theorem extent_le (b : UInt8) (rest : List UInt8) : (extent b rest).2 ≤ rest.length := by
  have taken_le (p : UInt8 → Bool) : (rest.takeWhile p).length ≤ rest.length :=
    (List.takeWhile_prefix p).length_le
  have whole (p : UInt8 → Bool) :
      (rest.takeWhile p).length + (rest.dropWhile p).length = rest.length := by
    rw [← List.length_append, List.takeWhile_append_dropWhile]
  fun_cases extent b rest with
  | case2 _ _ _ _ h =>
    obtain ⟨rest, rfl⟩ := List.head?_eq_some_iff.mp h
    simp
  | case4 => exact taken_le _
  | case8 _ _ _ _ _ _ h =>
    -- the closing quote is behind the bytes before it
    have closed : 0 < (rest.dropWhile (· != quote)).length := by
      rw [List.length_pos_iff]
      simpa using h
    have := whole (· != quote)
    simp only
    omega
  | case9 => exact Nat.le_refl _
  | case10 =>
    have := whole isDigit
    have := fractionLength_le (rest.dropWhile isDigit)
    simp only
    omega
  | case11 => exact taken_le _
  | _ => exact Nat.zero_le _

theorem length_bytes_next (b : UInt8) (rest : List UInt8) :
    (next b rest).bytes.length = (extent b rest).2 + 1 := by
  simp [next, extent_le b rest]

/-- **The next segment is the longest** at the front of the input. -/
theorem longest_next (b : UInt8) (rest : List UInt8) : Longest (next b rest) (after b rest) := by
  refine ⟨admits_next b rest, ?_⟩
  intro c w rest' h hw
  rw [bytes_append_rest] at hw
  obtain ⟨_, w, rfl⟩ := List.exists_cons_of_ne_nil h.ne_nil
  obtain ⟨rfl, rfl⟩ := List.cons.inj hw
  rw [length_bytes_next]
  exact Nat.succ_le_succ h.length_le_extent

/-- No other segment is. -/
theorem Longest.eq_next (h : Longest s w) (hw : s.bytes ++ w = b :: rest) :
    s = next b rest ∧ w = after b rest := by
  have hnext := longest_next b rest
  have whole : s.bytes ++ w = (next b rest).bytes ++ after b rest := by
    rw [hw, bytes_append_rest]
  -- both are longest, hence of the same length, and the length decides the class
  have same_length : s.bytes.length = (next b rest).bytes.length :=
    Nat.le_antisymm (hnext.maximal h.admits whole) (h.maximal hnext.admits whole.symm)
  obtain ⟨same_bytes, same_rest⟩ := List.append_inj whole same_length
  refine ⟨?_, same_rest⟩
  obtain ⟨cls, bytes⟩ := s
  have hadmits : Admits cls bytes w := h.admits
  obtain ⟨_, v, rfl⟩ := List.exists_cons_of_ne_nil hadmits.ne_nil
  obtain ⟨rfl, rfl⟩ := List.cons.inj hw
  rw [length_bytes_next] at same_length
  have same_class := hadmits.cls_eq (Nat.succ.inj same_length)
  exact congrArg₂ Segment.mk same_class same_bytes

end Longest

/-! ## The only way to cut a source -/

section Munch

/-- **A maximal munch of a source**: non-empty segments that make up the source in order, each the
longest that the grammar admits at the front of what is left there. -/
structure MaximalMunch (source : List UInt8) (segs : List Segment) : Prop where
  /-- Nothing is lost, and nothing is read twice. -/
  covers : segs.flatMap Segment.bytes = source
  /-- Every segment takes something. -/
  nonempty : ∀ s ∈ segs, s.bytes ≠ []
  /-- Every segment is the longest where it starts. -/
  longest : ∀ before s behind, segs = before ++ s :: behind →
    Longest s (behind.flatMap Segment.bytes)

variable {source rest : List UInt8} {segs : List Segment} {s : Segment} {b : UInt8}

theorem MaximalMunch.tail (h : MaximalMunch source (s :: segs)) :
    MaximalMunch (segs.flatMap Segment.bytes) segs where
  covers := rfl
  nonempty := fun t ht => h.nonempty t (List.mem_cons_of_mem s ht)
  longest := fun before t behind ht => h.longest (s :: before) t behind (by rw [ht]; rfl)

theorem MaximalMunch.cons (hs : Longest s rest) (h : MaximalMunch rest segs) :
    MaximalMunch (s.bytes ++ rest) (s :: segs) := by
  refine ⟨by rw [List.flatMap_cons, h.covers], ?_, ?_⟩
  · rintro t (_ | ⟨_, ht⟩)
    · exact hs.admits.ne_nil
    · exact h.nonempty t ht
  · intro before t behind ht
    cases before with
    | nil =>
      obtain ⟨rfl, rfl⟩ := List.cons.inj ht
      exact h.covers ▸ hs
    | cons _ before => exact h.longest before t behind (List.cons.inj ht).2

theorem maximalMunch_split (source : List UInt8) : MaximalMunch source (split source) := by
  fun_induction split source with
  | case1 => exact ⟨rfl, by simp, by simp⟩
  | case2 b rest ih => exact bytes_append_rest b rest ▸ ih.cons (longest_next b rest)

/-- **The segments of a source are the only maximal munch of it.** -/
theorem maximalMunch_iff : MaximalMunch source segs ↔ segs = split source := by
  constructor
  · intro h
    induction segs generalizing source with
    | nil =>
      obtain rfl := h.covers
      simp
    | cons s segs ih =>
      obtain ⟨b, rest, hb⟩ := List.exists_cons_of_ne_nil (h.nonempty s (List.mem_cons_self))
      obtain rfl := h.covers
      have whole : s.bytes ++ segs.flatMap Segment.bytes =
          b :: (rest ++ segs.flatMap Segment.bytes) := by
        rw [hb, List.cons_append]
      -- the first segment is the next one, and what is behind it is cut by the hypothesis
      obtain ⟨hs, hrest⟩ := (h.longest [] s segs rfl).eq_next whole
      rw [List.flatMap_cons, whole, split_cons, ← hs, ← hrest, ← ih h.tail]
  · rintro rfl
    exact maximalMunch_split source

end Munch

/-! ## What a scan makes of the segments -/

section Meaning

/-- The classes whose segments are tokens. -/
def isToken : SegmentClass → Bool
  | .mark _ | .string | .number | .word => true
  | .comment | .blank | .lineBreak | .openString | .stray => false

/-- The classes whose segments are faults. -/
def isFault : SegmentClass → Bool
  | .openString | .stray => true
  | .mark _ | .comment | .blank | .lineBreak | .string | .number | .word => false

/-- **What a token says about its segment.** -/
structure Reads (t : Token) (s : Segment) : Prop where
  /-- The lexeme is the decoded segment. -/
  lexeme : t.lexeme = Utf8.text s.bytes
  /-- A mark has the kind that it spells. -/
  kind_mark : ∀ kind, s.cls = .mark kind → t.kind = kind
  /-- A string is a string. -/
  kind_string : s.cls = .string → t.kind = .string
  /-- A number is a number. -/
  kind_number : s.cls = .number → t.kind = .number
  /-- A word is a reserved word exactly when it is spelled so. -/
  keyword_iff : s.cls = .word → ∀ k : Keyword, t.kind = .keyword k ↔ s.bytes ∈ reserved k
  /-- Every other word is an identifier. -/
  identifier_iff : s.cls = .word → (t.kind = .identifier ↔ ∀ k : Keyword, s.bytes ∉ reserved k)
  /-- Numbers and only numbers carry a number. -/
  number_iff : (∃ x, t.literal = some (.number x)) ↔ t.kind = .number
  /-- Strings and only strings carry a text. -/
  string_iff : (∃ v, t.literal = some (.string v)) ↔ t.kind = .string
  /-- The text is what stands between the quotes. -/
  string_value : s.cls = .string →
    ∃ body, s.bytes = quote :: (body ++ [quote]) ∧ t.literal = some (.string (Utf8.text body))

/-- **What a diagnostic says about its segment.** -/
def Reports (d : Diagnostic) (s : Segment) : Prop :=
  (s.cls = .stray ∧ d.fault = .unexpectedCharacter) ∨
    (s.cls = .openString ∧ d.fault = .unterminatedString)

variable {s : Segment} {rest : List UInt8} {t : Token} {line : Nat}

theorem token?_eq_none (h : isToken s.cls = false) : s.token? line = none := by
  obtain ⟨cls, bytes⟩ := s
  cases cls <;> first | rfl | cases h

/-- A word of a mark's language spells a kind that no other class has. -/
theorem kind_of_mem_mark {kind : TokenKind} {w : List UInt8} (h : w ∈ mark kind) :
    kind ≠ .number ∧ kind ≠ .string ∧ kind ≠ .endOfInput := by
  refine ⟨?_, ?_, ?_⟩ <;> rintro rfl <;> cases h

/-- A word is a reserved word or an identifier, never both. -/
theorem ofWord_cases (bs : List UInt8) :
    (∃ k : Keyword, bs ∈ reserved k ∧ TokenKind.ofWord bs = .keyword k) ∨
      ((∀ k : Keyword, bs ∉ reserved k) ∧ TokenKind.ofWord bs = .identifier) := by
  simp only [mem_reserved_iff, ← Keyword.ofBytes?_eq_some_iff]
  unfold TokenKind.ofWord
  cases h : Keyword.ofBytes? bs with
  | some k => exact .inl ⟨k, rfl, rfl⟩
  | none =>
    refine .inr ⟨?_, rfl⟩
    intro k hk
    cases hk

/-- No word is reserved twice. -/
theorem eq_of_mem_reserved {k k' : Keyword} {w : List UInt8} (h : w ∈ reserved k)
    (h' : w ∈ reserved k') : k = k' := by
  rw [mem_reserved_iff, ← Keyword.ofBytes?_eq_some_iff] at h h'
  exact Option.some.inj (h.symm.trans h')

theorem reads_mark {kind : TokenKind} {bs : List UInt8} (h : bs ∈ mark kind) (line : Nat) :
    Reads ⟨kind, Utf8.text bs, none, line⟩ ⟨.mark kind, bs⟩ := by
  obtain ⟨hn, hs, -⟩ := kind_of_mem_mark h
  constructor <;> simp [hn, hs]

theorem reads_word (bs : List UInt8) (line : Nat) :
    Reads ⟨.ofWord bs, Utf8.text bs, none, line⟩ ⟨.word, bs⟩ := by
  rcases ofWord_cases bs with ⟨k, hw, hk⟩ | ⟨hw, hk⟩
  · have same (k' : Keyword) : bs ∈ reserved k' ↔ k = k' :=
      ⟨eq_of_mem_reserved hw, fun h => h ▸ hw⟩
    constructor <;> simp [hk, same]
  · constructor <;> simp [hk, hw]

theorem reads_string (body : List UInt8) (line : Nat) :
    Reads ⟨.string, Utf8.text (quote :: (body ++ [quote])),
        some (.string (Utf8.text (unquoted (quote :: (body ++ [quote]))))), line⟩
      ⟨.string, quote :: (body ++ [quote])⟩ := by
  constructor <;> simp [unquoted]

theorem reads_number (bs : List UInt8) (line : Nat) :
    Reads ⟨.number, Utf8.text bs, some (.number (numeral bs)), line⟩ ⟨.number, bs⟩ := by
  constructor <;> simp

/-- **A segment of a token class is one token.** -/
theorem Admits.exists_token (h : Admits s.cls s.bytes rest) (ht : isToken s.cls = true)
    (line : Nat) : ∃ t, s.token? line = some t ∧ Reads t s ∧ t.kind ≠ .endOfInput := by
  obtain ⟨cls, bs⟩ := s
  cases h with
  | other h => cases ht
  | lexeme h =>
    obtain ⟨hw, -⟩ := h
    cases cls with
    | mark kind => exact ⟨_, rfl, reads_mark hw line, (kind_of_mem_mark hw).2.2⟩
    | string =>
      obtain ⟨body, rfl, -⟩ := mem_string_iff.mp hw
      exact ⟨_, rfl, reads_string body line, by simp⟩
    | number => exact ⟨_, rfl, reads_number bs line, by simp⟩
    | word =>
      refine ⟨_, rfl, reads_word bs line, ?_⟩
      rcases ofWord_cases bs with ⟨k, -, hk⟩ | ⟨-, hk⟩ <;> simp [hk]
    | comment | blank | lineBreak | openString | stray => cases ht

/-- The tokens of segments, one for each segment of a token class. -/
theorem forall₂_tokensFrom {segs : List Segment}
    (h : ∀ s ∈ segs, ∃ rest, Admits s.cls s.bytes rest) (line : Nat) :
    List.Forall₂ (fun t s => Reads t s ∧ t.kind ≠ .endOfInput) (tokensFrom line segs)
      (segs.filter fun s => isToken s.cls) := by
  induction segs generalizing line with
  | nil => exact .nil
  | cons s segs ih =>
    have later := ih (fun t ht => h t (List.mem_cons_of_mem s ht)) (line + s.lineFeeds)
    obtain ⟨rest, hs⟩ := h s List.mem_cons_self
    cases ht : isToken s.cls with
    | true =>
      obtain ⟨t, htoken, hreads⟩ := hs.exists_token ht line
      rw [List.filter_cons, if_pos ht, tokensFrom, htoken]
      exact .cons hreads later
    | false =>
      rw [List.filter_cons, if_neg (by simp [ht]), tokensFrom, token?_eq_none ht]
      exact later

/-- The diagnostics of segments, one for each segment of a fault class. -/
theorem forall₂_diagnosticsFrom (segs : List Segment) (line : Nat) :
    List.Forall₂ Reports (diagnosticsFrom line segs) (segs.filter fun s => isFault s.cls) := by
  induction segs generalizing line with
  | nil => exact .nil
  | cons s segs ih =>
    have later := ih (line + s.lineFeeds)
    obtain ⟨cls, bs⟩ := s
    cases cls with
    | stray => exact .cons (.inl ⟨rfl, rfl⟩) later
    | openString => exact .cons (.inr ⟨rfl, rfl⟩) later
    | mark _ | comment | blank | lineBreak | string | number | word => exact later

/-- **A scan is the maximal munch of its source.** There is exactly one list of segments that make
up the source in order, each the longest that the grammar admits where it starts. The tokens of
the scan are one for each mark, string, number and word among them, and behind these the token
that ends the input; the diagnostics are one for each stray byte and for a string without its
closing quote. -/
theorem scan_maximalMunch (source : List UInt8) :
    ∃ segs tokens,
      (∀ ss, MaximalMunch source ss ↔ ss = segs) ∧
      (scan source).tokens = tokens ++ [.endOfInput (1 + source.count lineFeed)] ∧
      List.Forall₂ (fun t s => Reads t s ∧ t.kind ≠ .endOfInput) tokens
        (segs.filter fun s => isToken s.cls) ∧
      List.Forall₂ Reports (scan source).diagnostics (segs.filter fun s => isFault s.cls) := by
  refine ⟨split source, tokensFrom 1 (split source), fun ss => maximalMunch_iff,
    tokens_scan source, forall₂_tokensFrom ?_ 1, ?_⟩
  · intro s hs
    obtain ⟨before, behind, hsplit⟩ := List.append_of_mem hs
    exact ⟨_, ((maximalMunch_split source).longest before s behind hsplit).admits⟩
  · rw [diagnostics_scan]
    exact forall₂_diagnosticsFrom _ 1

end Meaning

end LoxLexer.Grammar
