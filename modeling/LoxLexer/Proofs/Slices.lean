import LoxLexer.Proofs.Lexemes
import LoxLexer.Proofs.Lookahead

/-!
# Lexemes and the bytes they were read from

A lexeme is decoded from a slice of the source, and the literal of a string from the same slice
without its quotes. The two decodings agree: a character that is cut short in front of the closing
quote is replaced in both, and the quote is never taken for a part of it. All other tokens are
ASCII, and are their slices. Where the source is a text, a token starts and ends between two
characters of it, as its first and its last byte are ASCII, so nothing is replaced at all.

## Main definitions

* `Place.Slices p t`: what the lexeme and the literal of `t` have to do with the bytes at `p`

## Main results

* `Utf8.recoded_parts`: the parts of a text on both sides of an ASCII byte are texts
* `Utf8.slice?_of_ends`: a piece with ASCII at both ends is cut out without cutting a character
* `Grammar.ascii_ends`: a token starts and ends with an ASCII byte
* `scan_slices`: the lexemes of a scan, and the bytes they were read from
-/

namespace LoxLexer

/-! ## Texts are cut at ASCII bytes -/

namespace Utf8

section Parts

variable {s : String} {b : UInt8} {xs ys bs : List UInt8}

/-- A byte string that decoding keeps is the bytes of a text. -/
theorem recoded_eq_self_iff : recoded bs = bs ↔ ∃ s, bytes s = bs := by
  constructor
  · intro h
    exact ⟨text bs, h⟩
  · rintro ⟨s, rfl⟩
    exact recoded_bytes s

theorem isUTF8FirstByte_of_ascii (hb : b.toNat < 0x80) : b.IsUTF8FirstByte := by
  have low : ∀ b : UInt8, b.toNat < 0x80 → b &&& 0x80 = 0 :=
    Grammar.forall_byte (by decide +kernel)
  exact .inl (low b hb)

/-- A character starts at every ASCII byte of a text. -/
theorem isBoundary_of_ascii (hb : b.toNat < 0x80) (h : bytes s = xs ++ b :: ys) :
    isBoundary s xs.length = true := by
  have inside : xs.length < s.toByteArray.size := by
    have hlength := congrArg List.length h
    rw [length_bytes, List.length_append, List.length_cons] at hlength
    rw [String.size_toByteArray]
    omega
  have here : s.toByteArray[xs.length] = b := by
    have hget : (bytes s)[xs.length]? = some b := by
      rw [h, List.getElem?_append_right (Nat.le_refl _), Nat.sub_self]
      rfl
    rw [bytes, Array.getElem?_toList] at hget
    exact (Array.getElem?_eq_some_iff.mp hget).2
  rw [isBoundary, String.Pos.Raw.isValid_eq_true_iff, String.Pos.Raw.isValid_iff_isUTF8FirstByte]
  refine .inr ⟨?_, ?_⟩
  · simpa [String.Pos.Raw.lt_iff] using inside
  · change (s.toByteArray[xs.length]).IsUTF8FirstByte
    rw [here]
    exact isUTF8FirstByte_of_ascii hb

/-- **The parts of a text on both sides of an ASCII byte** are texts themselves. -/
theorem recoded_parts (hb : b.toNat < 0x80) (h : recoded (xs ++ b :: ys) = xs ++ b :: ys) :
    recoded xs = xs ∧ recoded ys = ys := by
  obtain ⟨s, hs⟩ := recoded_eq_self_iff.mp h
  have boundary := isBoundary_of_ascii hb hs
  rw [isBoundary, String.Pos.Raw.isValid_eq_true_iff,
    String.Pos.Raw.isValid_iff_exists_append] at boundary
  obtain ⟨s₁, s₂, rfl, hlength⟩ := boundary
  -- the first part of the text has the length of `xs`, so its bytes are `xs`
  rw [bytes_append] at hs
  obtain ⟨h₁, h₂⟩ := List.append_inj hs (by
    rw [length_bytes]
    exact (congrArg String.Pos.Raw.byteIdx hlength).symm)
  have tail : recoded (b :: ys) = b :: ys := recoded_eq_self_iff.mpr ⟨s₂, h₂⟩
  rw [recoded_cons_of_ascii hb] at tail
  exact ⟨recoded_eq_self_iff.mpr ⟨s₁, h₁⟩, (List.cons.inj tail).2⟩

/-- **A piece that starts and ends with ASCII bytes** is cut out of a text without cutting a
character, and decoding keeps it. -/
theorem slice?_of_ends {zs : List UInt8} (hfirst : ∃ b v, ys = b :: v ∧ b.toNat < 0x80)
    (hlast : ∃ v b, ys = v ++ [b] ∧ b.toNat < 0x80) (hs : bytes s = xs ++ (ys ++ zs)) :
    recoded ys = ys ∧ slice? s xs.length (xs.length + ys.length) = some ys := by
  obtain ⟨b, v, hb, ascii⟩ := hfirst
  obtain ⟨v', b', hb', ascii'⟩ := hlast
  have kept : recoded (xs ++ (ys ++ zs)) = xs ++ (ys ++ zs) := recoded_eq_self_iff.mpr ⟨s, hs⟩
  have first : Separate xs (ys ++ zs) := by
    rw [hb]
    exact .inr (.cons ascii)
  have last : Separate ys zs := by
    refine .inl fun x hx => ?_
    rw [hb', List.getLast?_concat] at hx
    exact Option.some.inj hx ▸ ascii'
  -- the text is cut at the first byte of the piece, and at its last one
  have before : recoded xs = xs := by
    rw [hb, List.cons_append] at kept
    exact (recoded_parts ascii kept).1
  have behind : recoded zs = zs := by
    rw [hb', List.append_assoc, ← List.append_assoc] at kept
    exact (recoded_parts ascii' kept).2
  have piece : recoded ys = ys := by
    rw [recoded_append first, recoded_append last, before, behind] at kept
    exact List.append_cancel_right (List.append_cancel_left kept)
  have decoded : text (xs ++ (ys ++ zs)) = s := by rw [← hs, text_bytes]
  have cut := slice?_text rfl first last
  rw [before, piece, decoded] at cut
  exact ⟨piece, cut⟩

end Parts

end Utf8

/-! ## Tokens and their slices -/

namespace Grammar

open Segment

variable {c : SegmentClass} {s : Segment} {t : Token} {w : List UInt8} {line : Nat}

/-- **A token starts and ends with an ASCII byte**, and a string with a quote. -/
theorem ascii_ends (ht : isToken c = true) (hw : w ∈ language c) :
    (∃ b v, w = b :: v ∧ b.toNat < 0x80) ∧ ∃ v b, w = v ++ [b] ∧ b.toNat < 0x80 := by
  by_cases hc : c = .string
  · subst hc
    obtain ⟨body, rfl, -⟩ := mem_string_iff.mp hw
    exact ⟨⟨quote, body ++ [quote], rfl, quote_ascii⟩, quote :: body, quote, rfl, quote_ascii⟩
  · have ascii : ∀ b ∈ w, b.toNat < 0x80 := fun b hb => (graphic_of_mem_language ht hc hw b hb).1
    have nonempty : w ≠ [] := (fits_of_mem_language hw).ne_nil
    refine ⟨?_, ?_⟩
    · obtain ⟨b, v, rfl⟩ := List.exists_cons_of_ne_nil nonempty
      exact ⟨b, v, rfl, ascii b List.mem_cons_self⟩
    · obtain rfl | ⟨v, b, rfl⟩ := List.eq_nil_or_concat w
      · exact absurd rfl nonempty
      · exact ⟨v, b, List.concat_eq_append, ascii b (by simp)⟩

/-- Only the segments of strings are string tokens. -/
theorem cls_eq_string (hreads : Reads t s) (htoken : s.token? line = some t)
    (hkind : t.kind = .string) : s.cls = .string := by
  obtain ⟨v, hliteral⟩ := hreads.string_iff.mpr hkind
  rcases literal_of_token? htoken with h | ⟨hcls, -⟩ | ⟨-, h⟩
  · rw [h] at hliteral
    cases hliteral
  · exact hcls
  · rw [h] at hliteral
    cases hliteral

end Grammar

namespace Utf8

/-- No quote is decoded from bytes among which there is none. -/
theorem quote_notMem_text {body : List UInt8} (h : Segment.quote ∉ body) :
    '\x22' ∉ (text body).toList := by
  intro hmem
  have hbytes : Segment.quote ∈ recoded body := by
    rw [recoded_eq]
    rw [text, String.toList_ofList] at hmem
    exact List.mem_flatMap.mpr ⟨'\x22', hmem, by decide⟩
  exact Grammar.quote_notMem_recoded h hbytes

/-- **A string in quotes** decodes to what is between them, in quotes. -/
theorem text_quoted (body : List UInt8) :
    text (Segment.quote :: (body ++ [Segment.quote])) = "\x22" ++ text body ++ "\x22" := by
  have mark : bytes "\x22" = [Segment.quote] := by decide
  apply bytes_injective
  rw [bytes_append, bytes_append, mark]
  exact Grammar.recoded_quoted body

end Utf8

namespace Place

open Segment

variable {source : List UInt8} {p : Place source} {t : Token}

/-- **What a token has to do with the bytes it was read from.** -/
structure Slices (p : Place source) (t : Token) : Prop where
  /-- The lexeme is decoded from the whole slice. -/
  lexeme : t.lexeme = Utf8.text p.segment.bytes
  /-- The lexeme of a string is its literal in quotes, and the literal is decoded from what is
  between the quotes of the slice. No other quote is in it. -/
  string : t.kind = .string → ∃ body value, p.segment.bytes = quote :: (body ++ [quote]) ∧
    value = Utf8.text body ∧ t.literal = some (.string value) ∧ '\x22' ∉ value.toList ∧
    t.lexeme = "\x22" ++ value ++ "\x22"
  /-- The lexeme of any other token is the slice, and all of it is ASCII. -/
  other : t.kind ≠ .string →
    Utf8.bytes t.lexeme = p.segment.bytes ∧ ∀ b ∈ p.segment.bytes, b.toNat < 0x80
  /-- If the source is a text, the lexeme is the slice, which is cut between characters. -/
  text : ∀ s, Utf8.bytes s = source →
    Utf8.bytes t.lexeme = p.segment.bytes ∧ Utf8.slice? s p.start p.stop = some p.segment.bytes

theorem mem_language_of_mem_all (hp : p ∈ all source) (ht : Grammar.isToken p.segment.cls = true) :
    p.segment.bytes ∈ Grammar.language p.segment.cls := by
  have mem : p.segment ∈ Segment.split source := by
    rw [← map_segment_all source]
    exact List.mem_map_of_mem hp
  exact Grammar.mem_language_of_mem_split mem ht

/-- **A token is cut out of a text without cutting a character.** -/
theorem slice?_eq (hp : p ∈ all source) (ht : Grammar.isToken p.segment.cls = true) {s : String}
    (hs : Utf8.bytes s = source) :
    Utf8.recoded p.segment.bytes = p.segment.bytes ∧
      Utf8.slice? s p.start p.stop = some p.segment.bytes := by
  obtain ⟨first, last⟩ := Grammar.ascii_ends ht (mem_language_of_mem_all hp ht)
  exact Utf8.slice?_of_ends first last (hs.trans p.whole.symm)

theorem slices (hp : p ∈ all source) (ht : Grammar.isToken p.segment.cls = true)
    (hreads : Grammar.Reads t p.segment) (htoken : p.segment.token? p.line = some t) :
    p.Slices t := by
  have hw := mem_language_of_mem_all hp ht
  have bytes : Utf8.bytes t.lexeme = Utf8.recoded p.segment.bytes := by
    rw [hreads.lexeme, Utf8.recoded]
  refine ⟨hreads.lexeme, ?_, ?_, ?_⟩
  · intro hkind
    have hcls := Grammar.cls_eq_string hreads htoken hkind
    rw [hcls] at hw
    obtain ⟨body, hbody, hquote⟩ := Grammar.mem_string_iff_notMem.mp hw
    obtain ⟨body', hbody', hliteral⟩ := hreads.string_value hcls
    obtain rfl : body' = body :=
      List.append_cancel_right (List.cons.inj (hbody'.symm.trans hbody)).2
    refine ⟨body', Utf8.text body', hbody', rfl, hliteral, Utf8.quote_notMem_text hquote, ?_⟩
    rw [hreads.lexeme, hbody', Utf8.text_quoted]
  · intro hkind
    have hcls : p.segment.cls ≠ .string := fun hcls => hkind (hreads.kind_string hcls)
    refine ⟨?_, fun b hb => (Grammar.graphic_of_mem_language ht hcls hw b hb).1⟩
    rw [bytes, Grammar.recoded_of_mem_language ht hcls hw]
  · intro s hs
    obtain ⟨kept, cut⟩ := slice?_eq hp ht hs
    exact ⟨bytes.trans kept, cut⟩

end Place

/-- **The lexemes of a scan, and the bytes they were read from.** The tokens of a scan stand for the
marks, strings, numbers and words of the source, in order, and behind them one with an empty lexeme
ends the input. The lexeme of a string is its literal in quotes, although the one is decoded from
the bytes with their quotes and the other from those between them, and no quote is in the literal.
The lexeme of any other token is what it was read from, and all of that is ASCII. If the source is a
text, then the lexeme of every token is what it was read from, byte for byte, and no character is
cut at either end of it. -/
theorem scan_slices (source : List UInt8) :
    ∃ tokens last, (scan source).tokens = tokens ++ [last] ∧
      last.kind = .endOfInput ∧ last.lexeme = "" ∧
      List.Forall₂ (fun t p => p.Slices t) tokens
        ((Place.all source).filter fun p => Grammar.isToken p.segment.cls) := by
  refine ⟨_, _, Place.tokens_scan_eq source, rfl, rfl, ?_⟩
  apply forall₂_filterMap
  · intro p hp ht
    obtain ⟨t, htoken, hreads, -⟩ := (Place.admits_of_mem_all hp).exists_token ht p.line
    exact ⟨t, htoken, Place.slices hp ht hreads htoken⟩
  · intro p _ ht
    exact Grammar.token?_eq_none ht

/-- A character that is cut short in front of the closing quote: the quote closes the string. -/
example : (scan [0x22, 0xE2, 0x82, 0x22]).tokens.map Token.lexeme = ["\x22\uFFFD\x22", ""] := by
  decide +kernel

end LoxLexer
