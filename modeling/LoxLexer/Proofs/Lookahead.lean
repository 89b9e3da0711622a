import Mathlib.Data.List.Forall2
import LoxLexer.Proofs.Composition
import LoxLexer.Proofs.LineNumbers

/-!
# Lookahead

Where a segment ends is decided by the segment and by two bytes behind it: the second of these
matters only to a number, which goes on behind a point if a digit follows. What is read of a source
therefore stays the same whatever comes later, up to two bytes before the change.

## Main definitions

* `Segment.StandsIn y x`: the byte `y` is `x`, or a blank in its place
* `Segment.Ahead ys xs`: the next two bytes of `ys` stand in for those of `xs`
* `Place.start p`, `Place.stop p`: the offsets between which the segment at `p` stands
* `Place.token? p`, `Place.diagnostic? p`: what the segment at `p` yields

## Main results

* `Segment.extent_of_ahead`: a segment is the same in front of bytes that stand in for others
* `Segment.split_of_agree`: sources that agree are cut alike, up to two bytes before they differ
* `Place.getElem?_all`: the places of a source, by its segments
* `scan_lookahead`: what is read of a source does not depend on what comes later
-/

namespace LoxLexer

namespace Segment

/-! ## Two bytes ahead -/

section Ahead

variable {b x y : UInt8} {rest rest' xs ys : List UInt8} {p : UInt8 → Bool}

/-- **What can stand in for a byte** behind a segment: the byte itself, or a blank unless the byte
is a line feed. -/
def StandsIn (y x : UInt8) : Prop :=
  y = x ∨ isBlank y = true ∧ x ≠ lineFeed

/-- The next two bytes of `ys` stand in for those of `xs`, and there are as many of them. -/
def Ahead (ys xs : List UInt8) : Prop :=
  List.Forall₂ StandsIn (ys.take 2) (xs.take 2)

theorem StandsIn.refl (x : UInt8) : StandsIn x x :=
  .inl rfl

/-- A byte that ends a run of digits or letters has no substitute that goes on with it. -/
theorem StandsIn.stops (hp : ∀ y, isBlank y = true → p y = false) (h : StandsIn y x)
    (hx : p x = false) : p y = false := by
  rcases h with rfl | ⟨hblank, -⟩
  · exact hx
  · exact hp y hblank

/-- A line feed has no substitute. -/
theorem StandsIn.stops_line (h : StandsIn y x) (hx : (x != lineFeed) = false) :
    (y != lineFeed) = false := by
  rcases h with rfl | ⟨-, hfeed⟩
  · exact hx
  · exact absurd (by simpa using hx) hfeed

theorem ahead_of_take_eq (h : ys.take 2 = xs.take 2) : Ahead ys xs := by
  unfold Ahead
  rw [h]
  exact List.forall₂_same.mpr fun x _ => .refl x

theorem ahead_of_forall₂ (h : List.Forall₂ StandsIn ys xs) : Ahead ys xs :=
  List.forall₂_take 2 h

theorem Ahead.eq_nil (h : Ahead ys []) : ys = [] := by
  cases ys with
  | nil => rfl
  | cons y ys => cases h

theorem digit_of_blank : ∀ y, isBlank y = true → isDigit y = false :=
  Grammar.forall_byte (by decide +kernel)

/-- What does not go on with `xs` does not go on with `ys`. -/
theorem Ahead.stops (h : Ahead ys xs)
    (hp : ∀ y x, StandsIn y x → p x = false → p y = false)
    (hxs : ∀ x ∈ xs.head?, p x = false) : ∀ y ∈ ys.head?, p y = false := by
  intro y hy
  obtain ⟨ys, rfl⟩ := List.head?_eq_some_iff.mp hy
  cases xs with
  | nil => cases h
  | cons x xs =>
    obtain ⟨hyx, -⟩ := List.forall₂_cons.mp h
    exact hp y x hyx (hxs x rfl)

/-- No fraction begins where a blank stands in for its point or its first digit. -/
theorem Ahead.fractionLength_eq_zero (h : Ahead ys xs) (hxs : fractionLength xs = 0) :
    fractionLength ys = 0 := by
  have blank : ∀ y, isBlank y = true → y ≠ point ∧ isDigit y = false :=
    Grammar.forall_byte (by decide +kernel)
  match ys, xs with
  | [], _ => rfl
  | [_], _ => rfl
  | _ :: _ :: _, [] => cases h
  | _ :: _ :: _, [_] => cases List.Forall₂.length_eq h
  | y :: e :: ys, x :: d :: xs =>
    obtain ⟨hyx, hed⟩ := List.forall₂_cons.mp h
    obtain ⟨hed, -⟩ := List.forall₂_cons.mp hed
    -- a point with a digit behind it stands for itself, and so it would begin one in `xs` too
    rw [fractionLength, if_neg]
    intro hpoint
    obtain ⟨rfl, he⟩ : y = point ∧ isDigit e = true := by simpa using hpoint
    rcases hyx with rfl | ⟨hyx, -⟩
    · rcases hed with rfl | ⟨hed, -⟩
      · simp [fractionLength, he] at hxs
      · rw [(blank e hed).2] at he
        cases he
    · exact (blank point hyx).1 rfl

/-- A run of bytes ends in front of a byte that does not go on with it. -/
theorem takeWhile_append_of_stops (hxs : ∀ x ∈ xs, p x = true)
    (hys : ∀ y ∈ ys.head?, p y = false) : (xs ++ ys).takeWhile p = xs := by
  rw [List.takeWhile_append_of_pos hxs]
  cases ys with
  | nil => exact List.append_nil xs
  | cons y ys => rw [List.takeWhile_cons_of_neg (by simp [hys y rfl]), List.append_nil]

theorem dropWhile_append_of_stops (hxs : ∀ x ∈ xs, p x = true)
    (hys : ∀ y ∈ ys.head?, p y = false) : (xs ++ ys).dropWhile p = ys := by
  rw [List.dropWhile_append_of_pos hxs]
  cases ys with
  | nil => rfl
  | cons y ys => rw [List.dropWhile_cons_of_neg (by simp [hys y rfl])]

theorem stops_dropWhile (p : UInt8 → Bool) (bs : List UInt8) :
    ∀ x ∈ (bs.dropWhile p).head?, p x = false := by
  intro x hx
  have stopped := List.head?_dropWhile_not p bs
  rw [hx] at stopped
  exact stopped

theorem drop_length_takeWhile (p : UInt8 → Bool) (bs : List UInt8) :
    bs.drop (bs.takeWhile p).length = bs.dropWhile p := by
  calc bs.drop (bs.takeWhile p).length
      = (bs.takeWhile p ++ bs.dropWhile p).drop (bs.takeWhile p).length := by
        rw [List.takeWhile_append_dropWhile]
    _ = bs.dropWhile p := List.drop_left

/-- **A run of bytes is the same** in front of bytes that stand in for those behind it. -/
theorem Ahead.takeWhile_eq (h : Ahead rest' (rest.drop (rest.takeWhile p).length))
    (hp : ∀ y x, StandsIn y x → p x = false → p y = false) :
    (rest.take (rest.takeWhile p).length ++ rest').takeWhile p = rest.takeWhile p := by
  rw [drop_length_takeWhile] at h
  rw [Grammar.take_length_takeWhile]
  apply takeWhile_append_of_stops
  · intro x hx
    exact List.mem_takeWhile_imp hx
  · exact h.stops hp (stops_dropWhile p rest)

/-- **A fraction is the same**, too; where there is none, a point may be followed by anything but a
digit. -/
theorem Ahead.fractionLength_eq (h : Ahead rest' (rest.drop (fractionLength rest))) :
    fractionLength (rest.take (fractionLength rest) ++ rest') = fractionLength rest := by
  match rest with
  | [] => exact h.fractionLength_eq_zero rfl
  | [_] => exact h.fractionLength_eq_zero rfl
  | x :: d :: rest =>
    by_cases hpoint : (x == point && isDigit d) = true
    · have length : fractionLength (x :: d :: rest) = 2 + (rest.takeWhile isDigit).length := by
        rw [fractionLength, if_pos hpoint]
      rw [length, Nat.add_comm] at h ⊢
      -- the digits behind the first one are a run like any other
      have digits := h.takeWhile_eq fun y x => StandsIn.stops (p := isDigit) digit_of_blank
      rw [List.take_succ_cons, List.take_succ_cons, List.cons_append, List.cons_append,
        fractionLength, if_pos hpoint, digits, Nat.add_comm]
    · have none : fractionLength (x :: d :: rest) = 0 := by
        rw [fractionLength, if_neg hpoint]
      rw [none] at h ⊢
      exact h.fractionLength_eq_zero none

theorem word_of_blank : ∀ y, isBlank y = true → isWordByte y = false :=
  Grammar.forall_byte (by decide +kernel)

/-- A byte that is not ahead has no substitute that is. -/
theorem Ahead.head?_ne (h : Ahead ys xs) {z : UInt8} (hz : isBlank z = false)
    (hxs : xs.head? ≠ some z) : ys.head? ≠ some z := by
  intro hys
  obtain ⟨ys, rfl⟩ := List.head?_eq_some_iff.mp hys
  cases xs with
  | nil => cases h
  | cons x xs =>
    obtain ⟨hzx, -⟩ := List.forall₂_cons.mp h
    rcases hzx with rfl | ⟨hblank, -⟩
    · exact hxs rfl
    · rw [hblank] at hz
      cases hz

/-! ### One class after the other -/

theorem extent_extensible_of_ahead {kinds : TokenKind × TokenKind}
    (hp : punctuation.lookup b = none) (he : extensible.lookup b = some kinds)
    (h : Ahead rest' (after b rest)) :
    extent b (rest.take (extent b rest).2 ++ rest') = extent b rest := by
  by_cases hhead : rest.head? = some equals
  · have hx : extent b rest = (.mark kinds.2, 1) := by
      rw [Grammar.extent_extensible hp he, if_pos hhead]
    -- the equals sign is part of the segment
    obtain ⟨rest, rfl⟩ := List.head?_eq_some_iff.mp hhead
    rw [hx, Grammar.extent_extensible hp he]
    exact if_pos rfl
  · have hx : extent b rest = (.mark kinds.1, 0) := by
      rw [Grammar.extent_extensible hp he, if_neg hhead]
    rw [after, hx] at h
    rw [hx, Grammar.extent_extensible hp he, if_neg]
    exact h.head?_ne rfl hhead

theorem extent_slash_of_ahead (h : Ahead rest' (after slash rest)) :
    extent slash (rest.take (extent slash rest).2 ++ rest') = extent slash rest := by
  by_cases hhead : rest.head? = some slash
  · have hx : extent slash rest = (.comment, (rest.takeWhile (· != lineFeed)).length) := by
      rw [Grammar.extent_slash, if_pos hhead]
    rw [after, hx] at h
    have line := h.takeWhile_eq fun y x => StandsIn.stops_line
    -- the second slash is part of the comment
    have begins : (rest.take (rest.takeWhile (· != lineFeed)).length ++ rest').head? =
        some slash := by
      obtain ⟨rest, rfl⟩ := List.head?_eq_some_iff.mp hhead
      rfl
    rw [hx, Grammar.extent_slash, if_pos begins, line]
  · have hx : extent slash rest = (.mark .slash, 0) := by
      rw [Grammar.extent_slash, if_neg hhead]
    rw [after, hx] at h
    rw [hx, Grammar.extent_slash, if_neg]
    exact h.head?_ne rfl hhead

/-- Nothing is asked of the bytes behind a closing quote, and without one nothing is behind. -/
theorem extent_quote_of_ahead (h : Ahead rest' (after quote rest)) :
    extent quote (rest.take (extent quote rest).2 ++ rest') = extent quote rest := by
  by_cases hquote : quote ∈ rest
  · obtain ⟨body, behind, rfl, hbody⟩ := List.eq_append_cons_of_mem hquote
    have inside : ∀ x ∈ body, (x != quote) = true := by
      intro x hx
      simpa using ne_of_mem_of_not_mem hx hbody
    have string (ys : List UInt8) :
        extent quote (body ++ quote :: ys) = (.string, body.length + 1) := by
      rw [Grammar.extent_quote, if_pos (by simp), takeWhile_append_of_stops inside (by simp)]
    rw [string, List.append_cons, List.take_left' (by simp), ← List.append_cons, string]
  · have hx : extent quote rest = (.openString, rest.length) := by
      rw [Grammar.extent_quote, if_neg (by simpa using hquote)]
    rw [after, hx, List.drop_length] at h
    rw [hx, h.eq_nil, List.take_length, List.append_nil, hx]

theorem extent_digit_of_ahead (hd : isDigit b = true) (h : Ahead rest' (after b rest)) :
    extent b (rest.take (extent b rest).2 ++ rest') = extent b rest := by
  rw [after, Grammar.extent_digit hd, ← List.drop_drop, drop_length_takeWhile] at h
  rw [Grammar.extent_digit hd, Grammar.extent_digit hd, Grammar.take_past_takeWhile,
    List.append_assoc]
  have digits : ∀ x ∈ rest.takeWhile isDigit, isDigit x = true := by
    intro x hx
    exact List.mem_takeWhile_imp hx
  -- the digits end at the point of a fraction, or in front of what stands in for the rest
  have stops : ∀ y ∈ ((rest.dropWhile isDigit).take (fractionLength (rest.dropWhile isDigit)) ++
      rest').head?, isDigit y = false := by
    have stopped := stops_dropWhile isDigit rest
    generalize rest.dropWhile isDigit = later at h stopped
    rcases Grammar.take_fractionLength later with none | ⟨e, es, fraction, -, -⟩
    · have whole := List.take_append_drop (fractionLength later) later
      rw [none, List.nil_append] at whole
      rw [whole] at h
      rw [none]
      exact h.stops (fun y x => StandsIn.stops digit_of_blank) stopped
    · rw [fraction]
      intro y hy
      obtain rfl : point = y := Option.some.inj hy
      rfl
  rw [takeWhile_append_of_stops digits stops, dropWhile_append_of_stops digits stops,
    h.fractionLength_eq]

theorem extent_letter_of_ahead (hw : isLetter b = true) (h : Ahead rest' (after b rest)) :
    extent b (rest.take (extent b rest).2 ++ rest') = extent b rest := by
  rw [after, Grammar.extent_letter hw] at h
  have letters := h.takeWhile_eq fun y x => StandsIn.stops (p := isWordByte) word_of_blank
  rw [Grammar.extent_letter hw, Grammar.extent_letter hw, letters]

/-- **A segment is the same in front of bytes that stand in for others.** What is asked of the bytes
behind it are the next one and, by a number, the one after that. -/
theorem extent_of_ahead (h : Ahead rest' (after b rest)) :
    extent b (rest.take (extent b rest).2 ++ rest') = extent b rest := by
  cases hp : punctuation.lookup b with
  | some kind => rw [Grammar.extent_punctuation hp, Grammar.extent_punctuation hp]
  | none =>
    cases he : extensible.lookup b with
    | some kinds => exact extent_extensible_of_ahead hp he h
    | none =>
      -- the rest of the cases in the order in which `extent` asks for them
      by_cases hs : b = slash
      · subst hs
        exact extent_slash_of_ahead h
      by_cases hb : isBlank b = true
      · rw [Grammar.extent_blank hb, Grammar.extent_blank hb]
      by_cases hl : b = lineFeed
      · subst hl
        rfl
      by_cases hq : b = quote
      · subst hq
        exact extent_quote_of_ahead h
      by_cases hd : isDigit b = true
      · exact extent_digit_of_ahead hd h
      by_cases hw : isLetter b = true
      · exact extent_letter_of_ahead hw h
      · simp [extent, hp, he, hs, hb, hl, hq, hd, hw]

theorem next_of_ahead (h : Ahead rest' (after b rest)) :
    next b (rest.take (extent b rest).2 ++ rest') = next b rest := by
  unfold next
  rw [extent_of_ahead h, List.take_left' (by simp [Grammar.extent_le])]

theorem after_of_ahead (h : Ahead rest' (after b rest)) :
    after b (rest.take (extent b rest).2 ++ rest') = rest' := by
  unfold after
  rw [extent_of_ahead h, List.drop_left' (by simp [Grammar.extent_le])]

/-- **A segment is read again** in front of bytes that stand in for those behind it. -/
theorem split_bytes_append (h : Ahead rest' (after b rest)) :
    split ((next b rest).bytes ++ rest') = next b rest :: split rest' := by
  change split (b :: (rest.take (extent b rest).2 ++ rest')) = _
  rw [split_cons, next_of_ahead h, after_of_ahead h]

end Ahead

/-! ## Sources that agree -/

section Agree

variable {xs ys : List UInt8} {n : Nat}

/-- What agrees with `w ++ rest` begins with `w`, and agrees with `rest` behind it. -/
theorem exists_append_of_take_eq {w rest : List UInt8} (h : (w ++ rest).take n = ys.take n)
    (hn : w.length ≤ n) :
    ∃ rest', ys = w ++ rest' ∧ rest.take (n - w.length) = rest'.take (n - w.length) := by
  refine ⟨ys.drop w.length, ?_, ?_⟩
  · have begins : w = ys.take w.length := by
      calc w = ((w ++ rest).take n).take w.length := by
            rw [List.take_take, Nat.min_eq_left hn, List.take_left]
        _ = ys.take w.length := by rw [h, List.take_take, Nat.min_eq_left hn]
    conv_lhs => rw [← List.take_append_drop w.length ys, ← begins]
  · calc rest.take (n - w.length) = ((w ++ rest).take n).drop w.length := by
          rw [List.drop_take, List.drop_left]
      _ = (ys.drop w.length).take (n - w.length) := by rw [h, List.drop_take]

/-- **Sources that agree are cut alike**, as far as the segments end two bytes before the sources
may differ. -/
theorem split_of_agree {ss later : List Segment} (hsplit : split xs = ss ++ later)
    (hn : (ss.flatMap Segment.bytes).length + 2 ≤ n) (h : xs.take n = ys.take n) :
    ∃ later', split ys = ss ++ later' := by
  -- one segment is read from both, and what is behind it agrees on the bytes that are left
  induction ss generalizing xs ys n with
  | nil => exact ⟨split ys, rfl⟩
  | cons s ss ih =>
    cases xs with
    | nil =>
      rw [split_nil] at hsplit
      cases hsplit
    | cons b rest =>
      rw [split_cons] at hsplit
      obtain ⟨rfl, htail⟩ := List.cons.inj hsplit
      rw [List.flatMap_cons, List.length_append] at hn
      rw [← bytes_append_rest b rest] at h
      obtain ⟨rest', rfl, hrest⟩ := exists_append_of_take_eq h (by omega)
      have ahead : Ahead rest' (after b rest) := by
        apply ahead_of_take_eq
        have shorter := congrArg (List.take 2) hrest
        rwa [List.take_take, List.take_take, Nat.min_eq_left (by omega), eq_comm] at shorter
      obtain ⟨later', hlater⟩ := ih htail (by omega) hrest
      exact ⟨later', by rw [split_bytes_append ahead, hlater, List.cons_append]⟩

end Agree

end Segment

/-! ## Places by their segments -/

namespace Place

variable {source before : List UInt8} {ss : List Segment} {p q : Place source} {i : Nat}

/-- The offset of the first byte of a place. -/
def start (p : Place source) : Nat :=
  p.before.length

/-- The offset behind the last byte of a place. -/
def stop (p : Place source) : Nat :=
  p.start + p.segment.bytes.length

/-- The token at a place. -/
def token? (p : Place source) : Option Token :=
  p.segment.token? p.line

/-- The diagnostic at a place. -/
def diagnostic? (p : Place source) : Option Diagnostic :=
  p.segment.fault?.map fun f => ⟨p.lastLine, f⟩

/-- What is behind a place follows from what is before it, and from its segment. -/
theorem ext_of_before (hbefore : p.before = q.before) (hsegment : p.segment = q.segment) :
    p = q := by
  have hbehind : p.behind = q.behind := by
    have whole := p.whole.trans q.whole.symm
    rw [hbefore, hsegment] at whole
    exact List.append_cancel_left (List.append_cancel_left whole)
  obtain ⟨before, segment, behind, whole⟩ := p
  obtain ⟨before', segment', behind', whole'⟩ := q
  dsimp only at hbefore hsegment hbehind
  subst hbefore hsegment hbehind
  rfl

theorem getElem?_walk (h : before ++ ss.flatMap Segment.bytes = source) :
    (walk before ss h)[i]? = some p ↔
      ss[i]? = some p.segment ∧ p.before = before ++ (ss.take i).flatMap Segment.bytes := by
  induction ss generalizing before i with
  | nil => simp [walk]
  | cons s ss ih =>
    cases i with
    | zero =>
      simp only [walk, List.getElem?_cons_zero, List.take_zero, List.flatMap_nil, List.append_nil,
        Option.some.injEq]
      constructor
      · rintro rfl
        exact ⟨rfl, rfl⟩
      · rintro ⟨hsegment, hbefore⟩
        exact ext_of_before hbefore.symm hsegment
    | succ i =>
      rw [walk, List.getElem?_cons_succ, List.getElem?_cons_succ, List.take_succ_cons,
        List.flatMap_cons, ← List.append_assoc]
      exact ih _

/-- **The places of a source, by its segments**: each stands behind those before it. -/
theorem getElem?_all : (all source)[i]? = some p ↔
    (Segment.split source)[i]? = some p.segment ∧
      p.before = ((Segment.split source).take i).flatMap Segment.bytes := by
  rw [all, getElem?_walk, List.nil_append]

end Place

/-! ## What is read of a source -/

section Lookahead

variable {a b : List UInt8} {n i : Nat}

open Segment

/-- What the first segments of a source yield is the beginning of what its scan yields. -/
theorem yield_prefix_scan {source : List UInt8} {ss later : List Segment}
    (h : split source = ss ++ later) :
    tokensFrom 1 ss <+: (scan source).tokens ∧
      diagnosticsFrom 1 ss <+: (scan source).diagnostics := by
  rw [tokens_scan, diagnostics_scan, h, tokensFrom_append, diagnosticsFrom_append,
    List.append_assoc]
  exact ⟨List.prefix_append _ _, List.prefix_append _ _⟩

/-- **What is read of a source does not depend on what comes later.** Let two sources agree on their
first `n` bytes, and let a segment of the one end two bytes before that, or earlier. Then the same
segment is read from the other, as the same in number, between the same offsets, and it yields the
same token or the same diagnostic. All that was read up to there has yielded the same, and this is
where what both scans yield begins. -/
theorem scan_lookahead (h : a.take n = b.take n) {p : Place a}
    (hp : (Place.all a)[i]? = some p) (hstop : p.stop + 2 ≤ n) :
    (∃ q : Place b, (Place.all b)[i]? = some q ∧ q.start = p.start ∧ q.stop = p.stop ∧
      q.segment = p.segment ∧ q.token? = p.token? ∧ q.diagnostic? = p.diagnostic?) ∧
    let read := (split a).take (i + 1)
    tokensFrom 1 read <+: (scan a).tokens ∧ tokensFrom 1 read <+: (scan b).tokens ∧
    diagnosticsFrom 1 read <+: (scan a).diagnostics ∧
      diagnosticsFrom 1 read <+: (scan b).diagnostics := by
  obtain ⟨hsegment, hbefore⟩ := Place.getElem?_all.mp hp
  have hread : (split a).take (i + 1) = (split a).take i ++ [p.segment] := by
    rw [List.take_add_one, hsegment]
    rfl
  have hend : (((split a).take (i + 1)).flatMap Segment.bytes).length = p.stop := by
    rw [hread, List.flatMap_append, ← hbefore, List.length_append, List.flatMap_singleton]
    rfl
  have hsplit : split a = (split a).take (i + 1) ++ (split a).drop (i + 1) :=
    (List.take_append_drop (i + 1) _).symm
  obtain ⟨later, hlater⟩ := split_of_agree hsplit (by omega) h
  refine ⟨?_, ?_⟩
  · -- the place in `b` has the same before it, and the same segment
    have hlt : i < (split a).length := (List.getElem?_eq_some_iff.mp hsegment).1
    have whole : p.before ++ (p.segment.bytes ++ later.flatMap Segment.bytes) = b := by
      calc p.before ++ (p.segment.bytes ++ later.flatMap Segment.bytes)
          = (split b).flatMap Segment.bytes := by simp [hlater, hread, hbefore]
        _ = b := flatMap_bytes_split b
    refine ⟨⟨p.before, p.segment, _, whole⟩, ?_, rfl, rfl, rfl, rfl, rfl⟩
    apply Place.getElem?_all.mpr
    have count : ((split a).take i).length = i := List.length_take_of_le hlt.le
    rw [hlater, hread, List.append_assoc]
    refine ⟨?_, ?_⟩
    · rw [List.getElem?_append_right count.le, count, Nat.sub_self]
      rfl
    · rw [List.take_left' count]
      exact hbefore
  · obtain ⟨tokens, diagnostics⟩ := yield_prefix_scan hsplit
    obtain ⟨tokens', diagnostics'⟩ := yield_prefix_scan hlater
    exact ⟨tokens, tokens', diagnostics, diagnostics'⟩

/-- Two sources that differ behind a number, a point and a stray byte: the number is read alike. -/
theorem scan_lookahead_dotted :
    let a := [0x31, 0x2E, 0x40, 0x22]
    let b := [0x31, 0x2E, 0x40, 0x35, 0x0A]
    a.take 3 = b.take 3 ∧ ∃ q : Place b, (Place.all b)[0]? = some q ∧ q.stop = 1 ∧
      q.segment = ⟨.number, [0x31]⟩ ∧ q.diagnostic? = none := by
  have agree : [0x31, 0x2E, 0x40, (0x22 : UInt8)].take 3 = [0x31, 0x2E, 0x40, 0x35, 0x0A].take 3 :=
    rfl
  have first : (Place.all [0x31, 0x2E, 0x40, 0x22])[0]? =
      some ⟨[], ⟨.number, [0x31]⟩, [0x2E, 0x40, 0x22], rfl⟩ :=
    Place.getElem?_all.mpr ⟨by decide +kernel, rfl⟩
  obtain ⟨⟨q, hq, -, hstop, hsegment, -, hdiagnostic⟩, -⟩ := scan_lookahead agree first (by decide)
  exact ⟨agree, q, hq, hstop, hsegment, hdiagnostic⟩

/-- One byte is not enough: whether a point ends a number depends on the byte behind it. -/
example : [0x31, 0x2E, 0x32].take 2 = [0x31, 0x2E, (0x40 : UInt8)].take 2 ∧
    (split [0x31, 0x2E, 0x32])[0]? = some ⟨.number, [0x31, 0x2E, 0x32]⟩ ∧
    (split [0x31, 0x2E, 0x40])[0]? = some ⟨.number, [0x31]⟩ := by
  decide +kernel

end Lookahead

end LoxLexer
