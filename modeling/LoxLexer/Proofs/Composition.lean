import LoxLexer.Proofs.Lines
import LoxLexer.Proofs.MaximalMunch

/-!
# Composition at line feeds

White space ends every segment that does not hold it: a number, a word or an operator ends in front
of a blank or a line feed just as it ends with the source, and a comment ends in front of a line
feed. Only a string goes on. So a source in which no string is left open can be scanned by itself,
and what follows its line feed by itself too; all that the second scan does not know is how many
lines and bytes there were before.

## Main definitions

* `Segment.isWhite b`: the byte `b` is a blank or a line feed
* `Token.later n`, `Diagnostic.later n`: the same `n` lines further down

## Main results

* `Segment.extent_append`: white space behind a segment does not change it
* `Segment.split_append_lineFeed`: a source is cut at a line feed
* `Segment.tokensFrom_add`, `Segment.diagnosticsFrom_add`: lines are only counted on
* `scan_append_lineFeed`: a scan is composed of the scans of its parts
-/

namespace LoxLexer

namespace Segment

/-! ## White space ends segments -/

section White

variable {b y : UInt8} {rest ys a : List UInt8} {p : UInt8 → Bool}

/-- A byte that separates tokens. -/
def isWhite (b : UInt8) : Bool :=
  isBlank b || b == lineFeed

theorem of_isWhite : ∀ y, isWhite y = true → isDigit y = false ∧ isWordByte y = false ∧
    y ≠ equals ∧ y ≠ slash ∧ y ≠ quote ∧ y ≠ point :=
  Grammar.forall_byte (by decide +kernel)

theorem takeWhile_append_cons (hy : p y = false) (rest ys : List UInt8) :
    (rest ++ y :: ys).takeWhile p = rest.takeWhile p := by
  rw [List.takeWhile_append, List.takeWhile_cons_of_neg (by simp [hy]), List.append_nil]
  split
  · rename_i whole
    exact ((List.takeWhile_prefix p).eq_of_length whole).symm
  · rfl

/-- Nothing behind the byte that ends it changes a run of bytes. -/
theorem takeWhile_append_of_mem {z : UInt8} (hz : z ∈ rest) (hpz : p z = false)
    (ys : List UInt8) : (rest ++ ys).takeWhile p = rest.takeWhile p := by
  rw [List.takeWhile_append, if_neg]
  intro whole
  have all := (List.takeWhile_prefix p).eq_of_length whole
  rw [← all] at hz
  simpa [hpz] using List.mem_takeWhile_imp hz

theorem dropWhile_append_cons (hy : p y = false) (rest ys : List UInt8) :
    (rest ++ y :: ys).dropWhile p = rest.dropWhile p ++ y :: ys := by
  rw [List.dropWhile_append, List.dropWhile_cons_of_neg (by simp [hy])]
  split
  · rename_i none
    rw [List.isEmpty_iff.mp none, List.nil_append]
  · rfl

theorem head?_append_cons {z : UInt8} (hy : y ≠ z) (rest ys : List UInt8) :
    (rest ++ y :: ys).head? = some z ↔ rest.head? = some z := by
  cases rest with
  | nil => simpa using hy
  | cons x rest => rfl

/-- A fraction needs a point and a digit, and white space is neither. -/
theorem fractionLength_append_cons (hdigit : isDigit y = false) (hpoint : y ≠ point)
    (rest ys : List UInt8) : fractionLength (rest ++ y :: ys) = fractionLength rest := by
  match rest with
  | [] =>
    cases ys with
    | nil => rfl
    | cons z ys => simp [fractionLength, hpoint]
  | [x] => simp [fractionLength, hdigit]
  | x :: d :: ds => simp only [List.cons_append, fractionLength, takeWhile_append_cons hdigit]

/-- **White space behind a segment does not change it**, unless the segment would take it: a string
without its closing quote takes everything, and a comment takes blanks. -/
theorem extent_append (hy : isWhite y = true) (hopen : (extent b rest).1 ≠ .openString)
    (hcomment : (extent b rest).1 = .comment → y = lineFeed) (ys : List UInt8) :
    extent b (rest ++ y :: ys) = extent b rest := by
  obtain ⟨hdigit, hword, hequals, hslash, hquote, hpoint⟩ := of_isWhite y hy
  cases hp : punctuation.lookup b with
  | some kind => rw [Grammar.extent_punctuation hp, Grammar.extent_punctuation hp]
  | none =>
    cases he : extensible.lookup b with
    | some kinds =>
      rw [Grammar.extent_extensible hp he, Grammar.extent_extensible hp he]
      simp only [head?_append_cons hequals]
    | none =>
      -- the rest of the cases in the order in which `extent` asks for them
      by_cases hs : b = slash
      · subst hs
        rw [Grammar.extent_slash] at hcomment
        rw [Grammar.extent_slash, Grammar.extent_slash]
        simp only [head?_append_cons hslash]
        split
        · rename_i hhead
          rw [if_pos hhead] at hcomment
          rw [takeWhile_append_cons (by simp [hcomment rfl])]
        · rfl
      by_cases hb : isBlank b = true
      · rw [Grammar.extent_blank hb, Grammar.extent_blank hb]
      by_cases hl : b = lineFeed
      · subst hl
        rfl
      by_cases hq : b = quote
      · subst hq
        rw [Grammar.extent_quote] at hopen
        rw [Grammar.extent_quote, Grammar.extent_quote]
        -- the string is closed before the white space, or else it is an open one
        have closed : quote ∈ rest := by
          by_contra hnot
          rw [if_neg (by simpa using hnot)] at hopen
          exact hopen rfl
        rw [if_pos (by simp [closed]), if_pos (by simp [closed]),
          takeWhile_append_of_mem closed (by simp)]
      by_cases hd : isDigit b = true
      · rw [Grammar.extent_digit hd, Grammar.extent_digit hd, takeWhile_append_cons hdigit,
          dropWhile_append_cons hdigit, fractionLength_append_cons hdigit hpoint]
      by_cases hw : isLetter b = true
      · rw [Grammar.extent_letter hw, Grammar.extent_letter hw, takeWhile_append_cons hword]
      · simp [extent, hp, he, hs, hb, hl, hq, hd, hw]

/-- Where the bytes of the next segment stop, what follows them stops too. -/
theorem next_append_of_extent (h : extent b (rest ++ ys) = extent b rest) :
    next b (rest ++ ys) = next b rest := by
  simp only [next, h, List.take_append_of_le_length (Grammar.extent_le b rest)]

theorem after_append_of_extent (h : extent b (rest ++ ys) = extent b rest) :
    after b (rest ++ ys) = after b rest ++ ys := by
  simp only [after, h, List.drop_append_of_le_length (Grammar.extent_le b rest)]

/-- **A source is cut at a line feed**, if no string in front of it is left open. -/
theorem split_append_lineFeed (h : ∀ s ∈ split a, s.cls ≠ .openString) (ys : List UInt8) :
    split (a ++ lineFeed :: ys) = split a ++ ⟨.lineBreak, [lineFeed]⟩ :: split ys := by
  fun_induction split a with
  | case1 => exact split_cons lineFeed ys
  | case2 b rest ih =>
    have closed : (extent b rest).1 ≠ .openString := h _ List.mem_cons_self
    have same := extent_append rfl closed (fun _ => rfl) ys
    rw [List.cons_append, split_cons, next_append_of_extent same, after_append_of_extent same,
      ih fun s hs => h s (List.mem_cons_of_mem _ hs)]
    rfl

end White

end Segment

/-! ## Lines are only counted on -/

/-- The token `n` lines further down. -/
def Token.later (n : Nat) (t : Token) : Token :=
  { t with line := t.line + n }

/-- The diagnostic `n` lines further down. -/
def Diagnostic.later (n : Nat) (d : Diagnostic) : Diagnostic :=
  { d with line := d.line + n }

namespace Segment

section Later

theorem token?_add (s : Segment) (line n : Nat) :
    s.token? (line + n) = (s.token? line).map (Token.later n) := by
  obtain ⟨cls, bytes⟩ := s
  cases cls <;> rfl

theorem tokensFrom_add (line n : Nat) (ss : List Segment) :
    tokensFrom (line + n) ss = (tokensFrom line ss).map (Token.later n) := by
  induction ss generalizing line with
  | nil => rfl
  | cons s ss ih =>
    have behind : line + n + s.lineFeeds = line + s.lineFeeds + n := Nat.add_right_comm ..
    rw [tokensFrom, tokensFrom, behind, ih, token?_add, List.map_append, Option.toList_map]

theorem diagnosticsFrom_add (line n : Nat) (ss : List Segment) :
    diagnosticsFrom (line + n) ss = (diagnosticsFrom line ss).map (Diagnostic.later n) := by
  induction ss generalizing line with
  | nil => rfl
  | cons s ss ih =>
    have behind : line + n + s.lineFeeds = line + s.lineFeeds + n := Nat.add_right_comm ..
    rw [diagnosticsFrom, diagnosticsFrom, behind, ih, List.map_append, ← Option.toList_map,
      Option.map_map]
    rfl

theorem tokensFrom_append (line : Nat) (ss ts : List Segment) :
    tokensFrom line (ss ++ ts) =
      tokensFrom line ss ++ tokensFrom (line + (ss.flatMap Segment.bytes).count lineFeed) ts := by
  induction ss generalizing line with
  | nil => rfl
  | cons s ss ih =>
    rw [List.cons_append, tokensFrom, ih, tokensFrom, List.append_assoc, List.flatMap_cons,
      List.count_append, ← Nat.add_assoc]
    rfl

theorem diagnosticsFrom_append (line : Nat) (ss ts : List Segment) :
    diagnosticsFrom line (ss ++ ts) = diagnosticsFrom line ss ++
      diagnosticsFrom (line + (ss.flatMap Segment.bytes).count lineFeed) ts := by
  induction ss generalizing line with
  | nil => rfl
  | cons s ss ih =>
    rw [List.cons_append, diagnosticsFrom, ih, diagnosticsFrom, List.append_assoc,
      List.flatMap_cons, List.count_append, ← Nat.add_assoc]
    rfl

/-- Every fault among segments is reported. -/
theorem exists_mem_diagnosticsFrom {ss : List Segment} {s : Segment} {f : Fault} (hs : s ∈ ss)
    (hf : s.fault? = some f) (line : Nat) : ∃ d ∈ diagnosticsFrom line ss, d.fault = f := by
  induction ss generalizing line with
  | nil => cases hs
  | cons s' ss ih =>
    rcases List.mem_cons.mp hs with rfl | hs
    · refine ⟨⟨line + s.lineFeeds, f⟩, ?_, rfl⟩
      simp [diagnosticsFrom, hf]
    · obtain ⟨d, hd, hfault⟩ := ih hs (line + s'.lineFeeds)
      exact ⟨d, List.mem_append_right _ hd, hfault⟩

theorem lineStarts_add (offset n : Nat) (bs : List UInt8) :
    lineStarts (offset + n) bs = (lineStarts offset bs).map (· + n) := by
  induction bs generalizing offset with
  | nil => rfl
  | cons b bs ih =>
    have next : offset + n + 1 = offset + 1 + n := Nat.add_right_comm ..
    simp only [lineStarts, next, ih]
    split <;> rfl

end Later

end Segment

/-! ## Scans of composed sources -/

section Compose

variable {a : List UInt8}

/-- No string is left open. -/
def Scan.Closed (result : Scan) : Prop :=
  ∀ d ∈ result.diagnostics, d.fault ≠ .unterminatedString

instance (result : Scan) : Decidable result.Closed :=
  inferInstanceAs (Decidable (∀ d ∈ result.diagnostics, d.fault ≠ .unterminatedString))

theorem Scan.Closed.cls_ne (h : (scan a).Closed) :
    ∀ s ∈ Segment.split a, s.cls ≠ .openString := by
  intro s hs hcls
  have fault : s.fault? = some .unterminatedString := by rw [Segment.fault?, hcls]
  obtain ⟨d, hd, hfault⟩ := Segment.exists_mem_diagnosticsFrom hs fault 1
  rw [← diagnostics_scan] at hd
  exact h d hd hfault

/-- The line feed itself yields nothing, and raises the line by one. -/
theorem Scan.Closed.tokensFrom_eq (h : (scan a).Closed) (line : Nat) (b : List UInt8) :
    Segment.tokensFrom line (Segment.split (a ++ lineFeed :: b)) =
      Segment.tokensFrom line (Segment.split a) ++
        Segment.tokensFrom (line + (1 + a.count lineFeed)) (Segment.split b) := by
  rw [Segment.split_append_lineFeed h.cls_ne, Segment.tokensFrom_append,
    Segment.flatMap_bytes_split, Nat.add_comm 1, ← Nat.add_assoc]
  rfl

theorem Scan.Closed.diagnosticsFrom_eq (h : (scan a).Closed) (line : Nat) (b : List UInt8) :
    Segment.diagnosticsFrom line (Segment.split (a ++ lineFeed :: b)) =
      Segment.diagnosticsFrom line (Segment.split a) ++
        Segment.diagnosticsFrom (line + (1 + a.count lineFeed)) (Segment.split b) := by
  rw [Segment.split_append_lineFeed h.cls_ne, Segment.diagnosticsFrom_append,
    Segment.flatMap_bytes_split, Nat.add_comm 1, ← Nat.add_assoc]
  rfl

theorem count_append_lineFeed (a b : List UInt8) :
    (a ++ lineFeed :: b).count lineFeed = b.count lineFeed + (1 + a.count lineFeed) := by
  rw [List.count_append, List.count_cons_self]
  omega

theorem LineTable.starts_ofBytes_append (a b : List UInt8) :
    (ofBytes (a ++ lineFeed :: b)).starts =
      (ofBytes a).starts ++ (ofBytes b).starts.map (· + (a.length + 1)) := by
  rw [← Array.toList_inj, Array.toList_append, Array.toList_map, starts_ofBytes, starts_ofBytes,
    starts_ofBytes, Segment.lineStarts_append, Nat.zero_add, List.map_cons,
    ← Segment.lineStarts_add, Nat.zero_add]
  rfl

/-- **A scan is composed at a line feed.** If no string of `a` is left open, then a scan of `a`, a
line feed and `b` yields what the scans of `a` and of `b` yield: the tokens of `a` up to the end of
the input, and then those of `b`; the diagnostics of `a`, and then those of `b`; the lines of `a`,
and then those of `b`. What comes from `b` is further down by the lines of `a`, and starts behind
the bytes of `a` and the line feed. -/
theorem scan_append_lineFeed (h : (scan a).Closed) (b : List UInt8) :
    let whole := scan (a ++ lineFeed :: b)
    let lines := 1 + a.count lineFeed
    (∃ own, (scan a).tokens = own ++ [.endOfInput lines] ∧
      whole.tokens = own ++ (scan b).tokens.map (Token.later lines)) ∧
    whole.diagnostics =
      (scan a).diagnostics ++ (scan b).diagnostics.map (Diagnostic.later lines) ∧
    whole.lines.starts =
      (scan a).lines.starts ++ (scan b).lines.starts.map (· + (a.length + 1)) ∧
    whole.lines.length = a.length + 1 + b.length := by
  dsimp only
  refine ⟨⟨_, tokens_scan a, ?_⟩, ?_, ?_, ?_⟩
  · have last : Token.endOfInput (1 + (a ++ lineFeed :: b).count lineFeed) =
        (Token.endOfInput (1 + b.count lineFeed)).later (1 + a.count lineFeed) := by
      rw [count_append_lineFeed, ← Nat.add_assoc]
      rfl
    rw [tokens_scan, tokens_scan, h.tokensFrom_eq, Segment.tokensFrom_add, last, List.map_append,
      List.append_assoc]
    rfl
  · rw [diagnostics_scan, diagnostics_scan, diagnostics_scan, h.diagnosticsFrom_eq,
      Segment.diagnosticsFrom_add]
  · rw [lines_scan, lines_scan, lines_scan, LineTable.starts_ofBytes_append]
  · rw [lines_scan]
    change (a ++ lineFeed :: b).length = _
    rw [List.length_append, List.length_cons]
    omega

/-- A stray byte and an operator on the first line, a number with a point that starts no fraction on
the second, and another stray byte behind the digit that follows. -/
theorem scan_append_lineFeed_dotted :
    let a := [0x40, 0x21, lineFeed, 0x31, 0x2E]
    let b := [0x32, 0x40]
    (scan a).Closed ∧
    (scan (a ++ lineFeed :: b)).diagnostics =
      [⟨1, .unexpectedCharacter⟩, ⟨3, .unexpectedCharacter⟩] ∧
    (scan (a ++ lineFeed :: b)).lines.starts = #[0, 3, 6] := by
  have closed : (scan [0x40, 0x21, lineFeed, 0x31, 0x2E]).Closed := by decide +kernel
  obtain ⟨-, hdiagnostics, hstarts, -⟩ := scan_append_lineFeed closed [0x32, 0x40]
  exact ⟨closed, hdiagnostics.trans (by decide +kernel), hstarts.trans (by decide +kernel)⟩

end Compose

end LoxLexer
