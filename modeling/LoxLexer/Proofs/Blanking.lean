import LoxLexer.Proofs.Lexemes
import LoxLexer.Proofs.Lookahead

/-!
# Comments and stray bytes as blanks

A comment and a byte that starts nothing yield no token, and they are skipped without a trace: with
spaces written over them, a source has the same tokens on the same lines. What stands in front of
them cannot tell the difference, since a space goes on with nothing that they do not go on with. The
two slashes of a comment and a stray byte mean nothing inside a string, and are not blanked there.

## Main definitions

* `Segment.isSkipped s`: the segment `s` is a comment, or reported as an unexpected character
* `Segment.blankOut source`: `source` with spaces written over all that is skipped

## Main results

* `Segment.forall₂_blankOut`: spaces stand in for what they are written over
* `Segment.split_blankOut`: a blanked source is cut where the source is
* `Place.slice_blankOut`: what stands at each place of a source in the blanked one
* `scan_blankOut`: a blanked source has the same tokens and lines, and no unexpected characters
-/

namespace LoxLexer

namespace Segment

variable {b : UInt8} {rest source : List UInt8} {s : Segment} {line : Nat}

/-! ## Writing spaces -/

section Blanked

/-- A comment, or something that is reported as an unexpected character. -/
def isSkipped (s : Segment) : Bool :=
  s.cls == .comment || s.fault? == some .unexpectedCharacter

/-- The bytes of a segment, with spaces in their place if it is skipped. -/
def blanked (s : Segment) : List UInt8 :=
  if s.isSkipped then List.replicate s.bytes.length space else s.bytes

/-- **A source with spaces written over** its comments and unexpected characters. -/
def blankOut (source : List UInt8) : List UInt8 :=
  (split source).flatMap blanked

theorem isSkipped_iff : s.isSkipped = true ↔ s.cls = .comment ∨ s.cls = .stray := by
  obtain ⟨cls, bytes⟩ := s
  cases cls <;> simp [isSkipped, fault?]

@[simp] theorem length_blanked (s : Segment) : s.blanked.length = s.bytes.length := by
  unfold blanked
  split
  · exact List.length_replicate
  · rfl

theorem blankOut_cons (b : UInt8) (rest : List UInt8) :
    blankOut (b :: rest) = (next b rest).blanked ++ blankOut (after b rest) := by
  unfold blankOut
  rw [split_cons, List.flatMap_cons]

/-- Neither a comment nor a stray byte holds a line feed. -/
theorem lineFeed_notMem_of_isSkipped (h : (next b rest).isSkipped = true) :
    lineFeed ∉ (next b rest).bytes := by
  have admits := Grammar.admits_next b rest
  rcases isSkipped_iff.mp h with hcls | hcls
  · rw [hcls] at admits
    cases admits with
    | lexeme fits =>
      obtain ⟨body, hbytes, hbody⟩ := Grammar.mem_comment_iff.mp fits.1
      rw [hbytes]
      intro hmem
      simp only [List.mem_cons] at hmem
      rcases hmem with hslash | hslash | hmem
      · exact absurd hslash (by decide)
      · exact absurd hslash (by decide)
      · exact hbody lineFeed hmem rfl
  · rw [hcls] at admits
    exact admits.lineFeed_notMem

theorem forall₂_replicate_space {bs : List UInt8} (h : lineFeed ∉ bs) :
    List.Forall₂ StandsIn (List.replicate bs.length space) bs := by
  induction bs with
  | nil => exact .nil
  | cons x bs ih =>
    rw [List.mem_cons, not_or] at h
    exact .cons (.inr ⟨rfl, Ne.symm h.1⟩) (ih h.2)

theorem forall₂_blanked_next (b : UInt8) (rest : List UInt8) :
    List.Forall₂ StandsIn (next b rest).blanked (next b rest).bytes := by
  unfold blanked
  split
  · rename_i h
    exact forall₂_replicate_space (lineFeed_notMem_of_isSkipped h)
  · exact List.forall₂_same.mpr fun x _ => .refl x

/-- **Spaces stand in for what they are written over**, byte by byte. -/
theorem forall₂_blankOut (source : List UInt8) :
    List.Forall₂ StandsIn (blankOut source) source := by
  fun_induction split source with
  | case1 =>
    rw [blankOut, split_nil]
    exact .nil
  | case2 b rest ih =>
    rw [blankOut_cons, ← bytes_append_rest b rest]
    exact List.rel_append (forall₂_blanked_next b rest) ih

end Blanked

/-! ## The segments of a blanked source -/

section Whitened

/-- What a segment is cut into when it is blanked: a skipped one becomes blanks. -/
def whitened (s : Segment) : List Segment :=
  if s.isSkipped then (List.replicate s.bytes.length space).map white else [s]

/-- **A blanked source is cut where the source is**, and byte by byte where spaces are written. -/
theorem split_blankOut (source : List UInt8) :
    split (blankOut source) = (split source).flatMap whitened := by
  fun_induction split source with
  | case1 =>
    rw [blankOut, split_nil]
    exact split_nil
  | case2 b rest ih =>
    rw [blankOut_cons, List.flatMap_cons, ← ih, blanked, whitened]
    split
    · apply split_white_append
      intro x hx
      rw [(List.mem_replicate.mp hx).2]
      rfl
    · -- the segment is read in front of spaces as it is in front of what they stand in for
      rw [split_bytes_append (ahead_of_forall₂ (forall₂_blankOut (after b rest)))]
      rfl

theorem flatMap_bytes_whitened (s : Segment) : s.whitened.flatMap Segment.bytes = s.blanked := by
  unfold whitened blanked
  split
  · rw [List.flatMap_map]
    exact List.flatMap_singleton' _
  · exact List.flatMap_singleton _ _

/-- Blanks yield no token, and neither does what they are written over. -/
theorem tokensFrom_whitened (line : Nat) (s : Segment) :
    tokensFrom line s.whitened = (s.token? line).toList := by
  unfold whitened
  split
  · rename_i h
    have silent : s.token? line = none := by
      apply Grammar.token?_eq_none
      rcases isSkipped_iff.mp h with hcls | hcls
      · rw [hcls]
        rfl
      · rw [hcls]
        rfl
    have nothing := map_content_tokensFrom line ((List.replicate s.bytes.length space).map white)
    rw [contents_map_white] at nothing
    rw [List.map_eq_nil_iff.mp nothing, silent]
    rfl
  · exact List.append_nil _

/-- Blanks yield no diagnostic, and an open string is not written over. -/
theorem diagnosticsFrom_whitened (line : Nat) (s : Segment) :
    diagnosticsFrom line s.whitened =
      (diagnosticsFrom line [s]).filter (·.fault = .unterminatedString) := by
  obtain ⟨cls, bytes⟩ := s
  cases cls with
  | comment | stray =>
    have faultless := map_fault_diagnosticsFrom line
      ((List.replicate bytes.length space).map white)
    rw [faults_map_white] at faultless
    exact List.map_eq_nil_iff.mp faultless
  | mark | blank | lineBreak | string | openString | number | word => rfl

end Whitened

/-! ## What a blanked source yields -/

section Yield

/-- A line feed is a line feed in both, and nothing else is. -/
theorem StandsIn.lineFeed_iff {y x : UInt8} (h : StandsIn y x) : y = lineFeed ↔ x = lineFeed := by
  rcases h with rfl | ⟨hblank, hx⟩
  · rfl
  · constructor
    · rintro rfl
      cases hblank
    · intro hfeed
      exact absurd hfeed hx

theorem lineStarts_eq_of_forall₂ {xs ys : List UInt8} (h : List.Forall₂ StandsIn ys xs)
    (offset : Nat) : lineStarts offset ys = lineStarts offset xs := by
  induction h generalizing offset with
  | nil => rfl
  | cons hyx _ ih => simp only [lineStarts, beq_iff_eq, hyx.lineFeed_iff, ih]

theorem count_eq_of_forall₂ {xs ys : List UInt8} (h : List.Forall₂ StandsIn ys xs) :
    ys.count lineFeed = xs.count lineFeed := by
  rw [← length_lineStarts 0, ← length_lineStarts 0, lineStarts_eq_of_forall₂ h]

/-- **What segments yield** when they are blanked: the same tokens on the same lines, and of the
diagnostics those about an open string. -/
theorem yield_flatMap_whitened (line : Nat) (source : List UInt8) :
    tokensFrom line ((split source).flatMap whitened) = tokensFrom line (split source) ∧
      diagnosticsFrom line ((split source).flatMap whitened) =
        (diagnosticsFrom line (split source)).filter (·.fault = .unterminatedString) := by
  fun_induction split source generalizing line with
  | case1 => exact ⟨rfl, rfl⟩
  | case2 b rest ih =>
    -- the line behind the segment is the same, as spaces are not written over line feeds
    have feeds : ((next b rest).whitened.flatMap Segment.bytes).count lineFeed =
        (next b rest).lineFeeds := by
      rw [flatMap_bytes_whitened]
      exact count_eq_of_forall₂ (forall₂_blanked_next b rest)
    obtain ⟨htokens, hdiagnostics⟩ := ih (line + (next b rest).lineFeeds)
    rw [List.flatMap_cons]
    refine ⟨?_, ?_⟩
    · rw [tokensFrom_append, feeds, htokens, tokensFrom_whitened, tokensFrom]
    · rw [diagnosticsFrom_append, feeds, hdiagnostics, diagnosticsFrom_whitened, diagnosticsFrom,
        diagnosticsFrom, diagnosticsFrom, List.append_nil, List.filter_append]

/-- An open string is the last segment, so there is at most one. -/
theorem length_filter_diagnosticsFrom_le (line : Nat) (source : List UInt8) :
    ((diagnosticsFrom line (split source)).filter (·.fault = .unterminatedString)).length ≤ 1 := by
  fun_induction split source generalizing line with
  | case1 => exact Nat.zero_le 1
  | case2 b rest ih =>
    rw [diagnosticsFrom, List.filter_append, fault?]
    cases hcls : (next b rest).cls with
    | openString =>
      have admits := Grammar.admits_next b rest
      rw [hcls] at admits
      rw [admits.eq_nil, split_nil]
      exact Nat.le_refl 1
    | mark | comment | blank | lineBreak | string | number | word | stray => exact ih _

end Yield

end Segment

/-! ## The places of a blanked source -/

namespace Place

variable {source : List UInt8} {p : Place source}

/-- What is skipped at a place: a comment, or what is reported there as an unexpected character. -/
theorem isSkipped_iff_diagnostic? (hp : p ∈ all source) :
    p.segment.isSkipped = true ↔
      p.segment.cls = .comment ∨ p.diagnostic? = some ⟨p.line, .unexpectedCharacter⟩ := by
  rw [Segment.isSkipped_iff]
  apply or_congr_right
  constructor
  · intro hcls
    rw [diagnostic?, Segment.fault?, hcls, lastLine_of_stray hp hcls]
    rfl
  · intro hdiagnostic
    obtain ⟨f, hf, hd⟩ := Option.map_eq_some_iff.mp hdiagnostic
    obtain rfl : f = .unexpectedCharacter := congrArg Diagnostic.fault hd
    unfold Segment.fault? at hf
    split at hf
    · assumption
    · cases hf
    · cases hf

/-- **What stands at a place** in the blanked source: spaces if the segment there is skipped, and
else the same. -/
theorem slice_blankOut (hp : p ∈ all source) :
    ((Segment.blankOut source).drop p.start).take p.segment.bytes.length = p.segment.blanked := by
  obtain ⟨i, hi⟩ := List.getElem?_of_mem hp
  obtain ⟨hsegment, hbefore⟩ := getElem?_all.mp hi
  obtain ⟨hlt, hget⟩ := List.getElem?_eq_some_iff.mp hsegment
  -- spaces are written in place, so what is before keeps its length
  have before : (((Segment.split source).take i).flatMap Segment.blanked).length = p.start := by
    rw [start, hbefore, List.length_flatMap, List.length_flatMap]
    simp only [Segment.length_blanked]
  have whole : Segment.blankOut source = ((Segment.split source).take i).flatMap Segment.blanked ++
      (p.segment.blanked ++
        ((Segment.split source).drop (i + 1)).flatMap Segment.blanked) := by
    rw [Segment.blankOut, ← List.flatMap_cons, ← hget, ← List.drop_eq_getElem_cons hlt,
      ← List.flatMap_append, List.take_append_drop]
  rw [whole, List.drop_left' before, List.take_left' p.segment.length_blanked]

end Place

/-! ## Scans of blanked sources -/

section Blanking

open Segment

/-- **Comments and unexpected characters are as good as blanks.** Let spaces be written over every
comment of a source and over every byte that is reported as an unexpected character, and all else be
left as it is. The scan then yields the same tokens on the same lines, has the same line table, and
of the diagnostics only that about a string without its closing quote, if there is one. -/
theorem scan_blankOut (source : List UInt8) :
    let blank := blankOut source
    (blank.length = source.length ∧
      ∀ p ∈ Place.all source, (blank.drop p.start).take p.segment.bytes.length =
        if p.segment.cls = .comment ∨ p.diagnostic? = some ⟨p.line, .unexpectedCharacter⟩ then
          List.replicate p.segment.bytes.length ' '.toUInt8
        else p.segment.bytes) ∧
    (scan blank).tokens = (scan source).tokens ∧
    (scan blank).lines = (scan source).lines ∧
    (scan blank).diagnostics =
      (scan source).diagnostics.filter (·.fault = .unterminatedString) ∧
    (scan blank).diagnostics.length ≤ 1 := by
  have standsIn := forall₂_blankOut source
  obtain ⟨htokens, hdiagnostics⟩ := yield_flatMap_whitened 1 source
  rw [← split_blankOut] at htokens hdiagnostics
  refine ⟨⟨standsIn.length_eq, ?_⟩, ?_, ?_, ?_, ?_⟩
  · intro p hp
    rw [Place.slice_blankOut hp, blanked]
    simp only [Place.isSkipped_iff_diagnostic? hp]
    rfl
  · rw [tokens_scan, tokens_scan, htokens, count_eq_of_forall₂ standsIn]
  · rw [lines_scan, lines_scan, LineTable.ofBytes, LineTable.ofBytes, ← lineStarts_zero,
      ← lineStarts_zero, lineStarts_eq_of_forall₂ standsIn, standsIn.length_eq]
  · rw [diagnostics_scan, diagnostics_scan, hdiagnostics]
  · rw [diagnostics_scan, hdiagnostics]
    exact length_filter_diagnosticsFrom_le 1 source

/-- A number before a point and a stray byte, an operator before a comment, and a string that holds
both a stray byte and two slashes. -/
example : blankOut (Utf8.bytes "1.@!//=\n\x22@//\x22") = Utf8.bytes "1. !   \n\x22@//\x22" := by
  decide +kernel

end Blanking

end LoxLexer
