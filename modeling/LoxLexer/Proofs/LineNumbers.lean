import Mathlib.Data.List.Forall2
import LoxLexer.Proofs.Lines
import LoxLexer.Proofs.MaximalMunch

/-!
# Line numbers

The line that a token or a diagnostic names, in terms of the place in the source where its segment
stands. A token is on the line of its first byte, and so is a stray byte; a string without its
closing quote is reported on the last line, and the input ends there. Lines are counted by line
feeds, no matter which segments these stand in, so that they never decrease on the way through a
source.

## Main definitions

* `Place source`: a segment in `source`, with all that is before and behind it
* `Place.all source`: the places of all segments, in order
* `Place.line p`, `Place.lastLine p`: the lines that the segment starts and ends on

## Main results

* `Place.tokens_scan_eq`, `Place.diagnostics_scan_eq`: a scan, in terms of the places of its source
* `Place.pairwise_all`: a segment starts on the line that the one before it ends on, or later
* `scan_lineNumbers`: the lines of tokens and diagnostics
-/

namespace LoxLexer

/-- **A place in a source** where a segment stands. -/
structure Place (source : List UInt8) where
  /-- All that is read before the segment. -/
  before : List UInt8
  /-- The segment. -/
  segment : Segment
  /-- All that is read after the segment. -/
  behind : List UInt8
  /-- These make up the source. -/
  whole : before ++ (segment.bytes ++ behind) = source

namespace Place

variable {source before : List UInt8} {ss : List Segment} {p : Place source}

/-! ## The places of a source -/

/-- The line of the first byte of a place, counted from one. -/
def line (p : Place source) : Nat :=
  1 + p.before.count lineFeed

/-- The line behind the last byte of a place. -/
def lastLine (p : Place source) : Nat :=
  p.line + p.segment.lineFeeds

theorem append_bytes_append {s : Segment}
    (h : before ++ (s :: ss).flatMap Segment.bytes = source) :
    before ++ s.bytes ++ ss.flatMap Segment.bytes = source := by
  rw [List.append_assoc, ← List.flatMap_cons, h]

/-- The places of segments that make up a source together with what is before them. -/
def walk (before : List UInt8) :
    (ss : List Segment) → before ++ ss.flatMap Segment.bytes = source → List (Place source)
  | [], _ => []
  | s :: ss, h =>
    ⟨before, s, ss.flatMap Segment.bytes, h⟩ ::
      walk (before ++ s.bytes) ss (append_bytes_append h)

/-- **The places of all segments** of a source. -/
def all (source : List UInt8) : List (Place source) :=
  walk [] (Segment.split source) (Segment.flatMap_bytes_split source)

theorem map_segment_walk (h : before ++ ss.flatMap Segment.bytes = source) :
    (walk before ss h).map segment = ss := by
  induction ss generalizing before with
  | nil => rfl
  | cons s ss ih => rw [walk, List.map_cons, ih]

theorem map_segment_all (source : List UInt8) :
    (all source).map segment = Segment.split source :=
  map_segment_walk _

/-- What stands at the places of a maximal munch is admitted there. -/
theorem admits_of_mem_walk (h : before ++ ss.flatMap Segment.bytes = source)
    (hmunch : Grammar.MaximalMunch (ss.flatMap Segment.bytes) ss) (hp : p ∈ walk before ss h) :
    Grammar.Admits p.segment.cls p.segment.bytes p.behind := by
  induction ss generalizing before with
  | nil => cases hp
  | cons s ss ih =>
    rcases List.mem_cons.mp hp with rfl | hp
    · exact (hmunch.longest [] s ss rfl).admits
    · exact ih _ hmunch.tail hp

theorem admits_of_mem_all (hp : p ∈ all source) :
    Grammar.Admits p.segment.cls p.segment.bytes p.behind := by
  refine admits_of_mem_walk _ ?_ hp
  rw [Segment.flatMap_bytes_split]
  exact Grammar.maximalMunch_split source

/-! ## A scan, place by place -/

theorem tokensFrom_eq (h : before ++ ss.flatMap Segment.bytes = source) :
    Segment.tokensFrom (1 + before.count lineFeed) ss =
      (walk before ss h).filterMap fun p => p.segment.token? p.line := by
  induction ss generalizing before with
  | nil => rfl
  | cons s ss ih =>
    -- the count goes on behind the segment, where the next place starts
    have behind := ih (append_bytes_append h)
    rw [List.count_append, ← Nat.add_assoc] at behind
    rw [Segment.tokensFrom, Segment.lineFeeds, behind, walk, List.filterMap_cons]
    simp only [line]
    cases s.token? (1 + before.count lineFeed) <;> rfl

theorem diagnosticsFrom_eq (h : before ++ ss.flatMap Segment.bytes = source) :
    Segment.diagnosticsFrom (1 + before.count lineFeed) ss =
      (walk before ss h).filterMap fun p => p.segment.fault?.map fun f => ⟨p.lastLine, f⟩ := by
  induction ss generalizing before with
  | nil => rfl
  | cons s ss ih =>
    have behind := ih (append_bytes_append h)
    rw [List.count_append, ← Nat.add_assoc] at behind
    rw [Segment.diagnosticsFrom, Segment.lineFeeds, behind, walk, List.filterMap_cons]
    simp only [lastLine, line, Segment.lineFeeds]
    cases s.fault? <;> rfl

/-- **The tokens of a scan**, each from its place and on the line of that. -/
theorem tokens_scan_eq (source : List UInt8) :
    (scan source).tokens = ((all source).filterMap fun p => p.segment.token? p.line) ++
      [.endOfInput (1 + source.count lineFeed)] := by
  rw [tokens_scan, all, ← tokensFrom_eq]
  rfl

/-- **The diagnostics of a scan**, each from its place and on the last line of that. -/
theorem diagnostics_scan_eq (source : List UInt8) :
    (scan source).diagnostics =
      (all source).filterMap fun p => p.segment.fault?.map fun f => ⟨p.lastLine, f⟩ := by
  rw [diagnostics_scan, all, ← diagnosticsFrom_eq]
  rfl

/-! ## Lines on the way through a source -/

theorem line_le_lastLine (p : Place source) : p.line ≤ p.lastLine :=
  Nat.le_add_right _ _

theorem lastLine_eq (p : Place source) :
    p.lastLine = 1 + (p.before ++ p.segment.bytes).count lineFeed := by
  rw [List.count_append, ← Nat.add_assoc]
  rfl

theorem lastLine_le (p : Place source) : p.lastLine ≤ 1 + source.count lineFeed := by
  have begins : p.before ++ p.segment.bytes <+: source := by
    refine ⟨p.behind, ?_⟩
    rw [List.append_assoc, p.whole]
  rw [lastLine_eq]
  exact Nat.add_le_add_left (begins.sublist.count_le lineFeed) 1

theorem le_line_of_mem_walk (h : before ++ ss.flatMap Segment.bytes = source)
    (hp : p ∈ walk before ss h) : 1 + before.count lineFeed ≤ p.line := by
  induction ss generalizing before with
  | nil => cases hp
  | cons s ss ih =>
    rcases List.mem_cons.mp hp with rfl | hp
    · exact Nat.le_refl _
    · have behind := ih _ hp
      rw [List.count_append] at behind
      omega

/-- Every place starts on the line that an earlier one ends on, or later. -/
theorem pairwise_walk (h : before ++ ss.flatMap Segment.bytes = source) :
    (walk before ss h).Pairwise fun p q => p.lastLine ≤ q.line := by
  induction ss generalizing before with
  | nil => exact .nil
  | cons s ss ih =>
    refine List.pairwise_cons.mpr ⟨?_, ih _⟩
    intro q hq
    rw [lastLine_eq]
    exact le_line_of_mem_walk _ hq

theorem pairwise_all (source : List UInt8) :
    (all source).Pairwise fun p q => p.lastLine ≤ q.line :=
  pairwise_walk _

end Place

/-! ## Lines of tokens and diagnostics -/

section LineNumbers

variable {source : List UInt8} {p : Place source}

/-- A list without the members that a function drops, against the list that the function makes. -/
theorem forall₂_filterMap {α β : Type} {f : α → Option β} {keeps : α → Bool} {R : β → α → Prop}
    {l : List α} (hsome : ∀ a ∈ l, keeps a = true → ∃ b, f a = some b ∧ R b a)
    (hnone : ∀ a ∈ l, keeps a = false → f a = none) :
    List.Forall₂ R (l.filterMap f) (l.filter keeps) := by
  induction l with
  | nil => exact .nil
  | cons a l ih =>
    have later := ih (fun b hb => hsome b (List.mem_cons_of_mem a hb))
      (fun b hb => hnone b (List.mem_cons_of_mem a hb))
    cases hkeeps : keeps a with
    | true =>
      obtain ⟨b, hb, hR⟩ := hsome a List.mem_cons_self hkeeps
      rw [List.filterMap_cons_some hb, List.filter_cons_of_pos hkeeps]
      exact .cons hR later
    | false =>
      rw [List.filterMap_cons_none (hnone a List.mem_cons_self hkeeps),
        List.filter_cons_of_neg (by simp [hkeeps])]
      exact later

theorem Segment.line_of_token? {s : Segment} {line : Nat} {t : Token}
    (h : s.token? line = some t) : t.line = line := by
  obtain ⟨cls, bytes⟩ := s
  cases cls with
  | mark | string | number | word => cases h; rfl
  | comment | blank | lineBreak | openString | stray => cases h

theorem Segment.fault?_eq_none {s : Segment} (h : Grammar.isFault s.cls = false) :
    s.fault? = none := by
  obtain ⟨cls, bytes⟩ := s
  cases cls with
  | stray | openString => cases h
  | mark | comment | blank | lineBreak | string | number | word => rfl

/-- A line feed is never stray. -/
theorem Grammar.Admits.lineFeed_notMem {w rest : List UInt8}
    (h : Grammar.Admits .stray w rest) : lineFeed ∉ w := by
  cases h with
  | lexeme h => exact (Language.notMem_zero w h.1).elim
  | other h =>
    intro hmem
    obtain rfl := List.mem_singleton.mp hmem
    -- the line break would be a word that fits there
    refine h .lineBreak [lineFeed] rest rfl ⟨Grammar.mem_lineBreak_iff.mpr rfl, ?_⟩
    intro hopen
    cases hopen

/-- Nothing is behind a string without its closing quote. -/
theorem Grammar.Admits.eq_nil {w rest : List UInt8} (h : Grammar.Admits .openString w rest) :
    rest = [] := by
  cases h with
  | lexeme h => exact h.2 rfl

/-- A stray byte is reported on its own line. -/
theorem Place.lastLine_of_stray (hp : p ∈ Place.all source) (hcls : p.segment.cls = .stray) :
    p.lastLine = p.line := by
  have admits := Place.admits_of_mem_all hp
  rw [hcls] at admits
  rw [Place.lastLine, Segment.lineFeeds, List.count_eq_zero.mpr admits.lineFeed_notMem,
    Nat.add_zero]

/-- A string without its closing quote is reported on the last line of the source. -/
theorem Place.lastLine_of_openString (hp : p ∈ Place.all source)
    (hcls : p.segment.cls = .openString) : p.lastLine = 1 + source.count lineFeed := by
  have admits := Place.admits_of_mem_all hp
  rw [hcls] at admits
  have whole := p.whole
  rw [admits.eq_nil, List.append_nil] at whole
  rw [Place.lastLine_eq, whole]

theorem forall₂_tokens (source : List UInt8) :
    List.Forall₂
      (fun t p => Grammar.Reads t p.segment ∧ t.line = 1 + p.before.count lineFeed)
      ((Place.all source).filterMap fun p => p.segment.token? p.line)
      ((Place.all source).filter fun p => Grammar.isToken p.segment.cls) := by
  refine forall₂_filterMap ?_ ?_
  · intro p hp htoken
    obtain ⟨t, ht, reads, -⟩ := (Place.admits_of_mem_all hp).exists_token htoken p.line
    exact ⟨t, ht, reads, Segment.line_of_token? ht⟩
  · intro p hp htoken
    exact Grammar.token?_eq_none htoken

theorem forall₂_diagnostics (source : List UInt8) :
    List.Forall₂
      (fun d p =>
        (p.segment.cls = .stray ∧ d = ⟨1 + p.before.count lineFeed, .unexpectedCharacter⟩) ∨
        (p.segment.cls = .openString ∧ d = ⟨1 + source.count lineFeed, .unterminatedString⟩))
      (scan source).diagnostics
      ((Place.all source).filter fun p => Grammar.isFault p.segment.cls) := by
  rw [Place.diagnostics_scan_eq]
  refine forall₂_filterMap ?_ ?_
  · intro p hp hfault
    cases hcls : p.segment.cls with
    | stray =>
      refine ⟨⟨p.line, .unexpectedCharacter⟩, ?_, .inl ⟨rfl, rfl⟩⟩
      rw [Segment.fault?, hcls, ← Place.lastLine_of_stray hp hcls]
      rfl
    | openString =>
      refine ⟨⟨1 + source.count lineFeed, .unterminatedString⟩, ?_, .inr ⟨rfl, rfl⟩⟩
      rw [Segment.fault?, hcls, ← Place.lastLine_of_openString hp hcls]
      rfl
    | mark | comment | blank | lineBreak | string | number | word =>
      rw [hcls] at hfault
      cases hfault
  · intro p hp hfault
    rw [Segment.fault?_eq_none hfault, Option.map_none]

theorem line_le_of_mem_tokens {t : Token} (ht : t ∈ (scan source).tokens) :
    1 ≤ t.line ∧ t.line ≤ 1 + source.count lineFeed := by
  rw [Place.tokens_scan_eq] at ht
  rcases List.mem_append.mp ht with ht | ht
  · obtain ⟨p, -, hp⟩ := List.mem_filterMap.mp ht
    rw [Segment.line_of_token? hp]
    exact ⟨Nat.le_add_right _ _, p.line_le_lastLine.trans p.lastLine_le⟩
  · rw [List.mem_singleton.mp ht]
    exact ⟨Nat.le_add_right _ _, Nat.le_refl _⟩

/-- Tokens stand in the order of their lines, and the one that ends the input behind all others. -/
theorem pairwise_tokens (source : List UInt8) :
    (scan source).tokens.Pairwise fun t t' => t.line ≤ t'.line := by
  rw [Place.tokens_scan_eq]
  refine List.pairwise_append.mpr ⟨?_, List.pairwise_singleton _ _, ?_⟩
  · refine (Place.pairwise_all source).filterMap _ ?_
    intro p q hpq t ht t' ht'
    rw [Segment.line_of_token? ht, Segment.line_of_token? ht']
    exact p.line_le_lastLine.trans hpq
  · intro t ht last hlast
    rw [List.mem_singleton.mp hlast]
    refine (line_le_of_mem_tokens ?_).2
    rw [Place.tokens_scan_eq]
    exact List.mem_append_left _ ht

theorem pairwise_diagnostics (source : List UInt8) :
    (scan source).diagnostics.Pairwise fun d d' => d.line ≤ d'.line := by
  rw [Place.diagnostics_scan_eq]
  refine (Place.pairwise_all source).filterMap _ ?_
  intro p q hpq d hd d' hd'
  obtain ⟨f, -, rfl⟩ := Option.map_eq_some_iff.mp hd
  obtain ⟨f', -, rfl⟩ := Option.map_eq_some_iff.mp hd'
  exact hpq.trans q.line_le_lastLine

theorem lines_lines_scan (source : List UInt8) :
    (scan source).lines.lines = 1 + source.count lineFeed := by
  rw [lines_scan, LineTable.lines_ofBytes, Nat.add_comm]

/-- **The lines of tokens and diagnostics.** The segments of a source stand at their places, each
the longest that the grammar admits there. One token stands for each mark, string, number and word
among them, on the line of its first byte: one more than there are line feeds before it. The input
ends on the last line. One diagnostic stands for each stray byte, on the line of that, and one for a
string without its closing quote, on the last line. So lines never decrease, and all of them are
lines of the line table. -/
theorem scan_lineNumbers (source : List UInt8) :
    let places := Place.all source
    Grammar.MaximalMunch source (places.map Place.segment) ∧
    (∃ tokens, (scan source).tokens = tokens ++ [.endOfInput (1 + source.count lineFeed)] ∧
      List.Forall₂
        (fun t p => Grammar.Reads t p.segment ∧ t.line = 1 + p.before.count lineFeed)
        tokens (places.filter fun p => Grammar.isToken p.segment.cls)) ∧
    List.Forall₂
      (fun d p =>
        (p.segment.cls = .stray ∧ d = ⟨1 + p.before.count lineFeed, .unexpectedCharacter⟩) ∨
        (p.segment.cls = .openString ∧ d = ⟨1 + source.count lineFeed, .unterminatedString⟩))
      (scan source).diagnostics (places.filter fun p => Grammar.isFault p.segment.cls) ∧
    ((scan source).tokens.Pairwise fun t t' => t.line ≤ t'.line) ∧
    ((scan source).diagnostics.Pairwise fun d d' => d.line ≤ d'.line) ∧
    (∀ t ∈ (scan source).tokens, 1 ≤ t.line ∧ t.line ≤ (scan source).lines.lines) ∧
    (∀ d ∈ (scan source).diagnostics, 1 ≤ d.line ∧ d.line ≤ (scan source).lines.lines) := by
  refine ⟨?_, ⟨_, Place.tokens_scan_eq source, forall₂_tokens source⟩, forall₂_diagnostics source,
    pairwise_tokens source, pairwise_diagnostics source, ?_, ?_⟩
  · rw [Place.map_segment_all]
    exact Grammar.maximalMunch_split source
  · intro t ht
    rw [lines_lines_scan]
    exact line_le_of_mem_tokens ht
  · intro d hd
    rw [lines_lines_scan]
    exact line_le_of_mem_diagnostics hd

/-- A string over two lines starts on the first of them, and the word behind it is on the second. -/
example : (scan [0x22, 0x0A, 0x22, 0x78]).tokens.map Token.line = [1, 2, 2] := by decide +kernel

end LineNumbers

end LoxLexer
