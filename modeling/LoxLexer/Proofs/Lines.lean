import Mathlib.Data.List.TakeWhile
import LoxLexer.Proofs.Decoding
import LoxLexer.Proofs.Walk

/-!
# Lines

A line of a byte string lies between two line feeds, or between a line feed and an end. The line
table of the byte string finds it: the line starts where the table says, ends at its line feed,
and every offset on it leads back to it by bisection. Decoding keeps lines: the lines of a decoded
text are the decoded lines.

## Main definitions

* `LineTable.WellFormed t`: the starts of `t` begin with zero, increase, and lie inside the text
* `IsLine bs i before line after`: `line` is line `i` of `bs`, counted from zero

## Main results

* `LineTable.WellFormed.lineOf_eq`: bisection finds the last line that starts at an offset or
  before it
* `LineTable.wellFormed_ofBytes`: the line table of a byte string is well formed
* `IsLine.lineRange_eq`, `IsLine.lineOf_eq`: where the line table has a line, and which line it
  gives for an offset
* `IsLine.recoded`: decoding keeps lines
-/

namespace LoxLexer

/-! ## Bisection -/

namespace LineTable

/-- Bisection keeps a line that starts at the offset or before it, and rules out all lines behind
the part that is left. -/
theorem bisect_spec {starts : Array Nat} {offset : Nat}
    (hs : ∀ i j, i ≤ j → j < starts.size → starts.getD i 0 ≤ starts.getD j 0) (base size : Nat)
    (hsize : 0 < size) (hbound : base + size ≤ starts.size)
    (hbase : starts.getD base 0 ≤ offset)
    (hbehind : ∀ j, base + size ≤ j → j < starts.size → offset < starts.getD j 0) :
    bisect starts offset base size < starts.size ∧
      starts.getD (bisect starts offset base size) 0 ≤ offset ∧
      ∀ j, bisect starts offset base size < j → j < starts.size → offset < starts.getD j 0 := by
  fun_induction bisect starts offset base size with
  | case1 base size h => exact ⟨by omega, hbase, fun j hj => hbehind j (by omega)⟩
  | case2 base size h half middle ih =>
    by_cases hmiddle : starts.getD middle 0 ≤ offset
    · rw [dif_pos hmiddle] at ih
      rw [if_pos hmiddle]
      exact ih (by omega) (by omega) hmiddle fun j hj => hbehind j (by omega)
    · rw [dif_neg hmiddle] at ih
      rw [if_neg hmiddle]
      refine ih (by omega) (by omega) hbase fun j hj hj' => ?_
      -- the middle line starts behind the offset, and so do all after it
      have := hs middle j (by omega) hj'
      omega

/-- **A well-formed line table**: the first line starts at zero, each line starts behind the one
before it, and all start inside the text. -/
structure WellFormed (t : LineTable) : Prop where
  /-- The first line starts at zero. -/
  first : t.starts[0]? = some 0
  /-- Starts increase. -/
  increasing : t.starts.toList.Pairwise (· < ·)
  /-- All lines start inside the text. -/
  inside : ∀ start ∈ t.starts, start ≤ t.length

variable {t : LineTable}

theorem WellFormed.starts_lt (h : t.WellFormed) {i j : Nat} (hij : i < j) (hj : j < t.starts.size) :
    t.starts.getD i 0 < t.starts.getD j 0 := by
  have := List.pairwise_iff_getElem.mp h.increasing i j (by simp; omega) (by simpa using hj) hij
  simpa [Array.getD, hj, Nat.lt_trans hij hj] using this

theorem WellFormed.starts_le (h : t.WellFormed) {i j : Nat} (hij : i ≤ j) (hj : j < t.starts.size) :
    t.starts.getD i 0 ≤ t.starts.getD j 0 := by
  rcases Nat.eq_or_lt_of_le hij with rfl | hij
  · exact Nat.le_refl _
  · exact Nat.le_of_lt (h.starts_lt hij hj)

/-- Bisection of all lines ends at a line that starts at the offset or before it, and all lines
behind that one start behind the offset. -/
theorem WellFormed.bisect_lines (h : t.WellFormed) (offset : Nat) :
    bisect t.starts offset 0 t.lines < t.starts.size ∧
      t.starts.getD (bisect t.starts offset 0 t.lines) 0 ≤ offset ∧
      ∀ j, bisect t.starts offset 0 t.lines < j → j < t.starts.size →
        offset < t.starts.getD j 0 := by
  have hpos : 0 < t.starts.size := (Array.getElem?_eq_some_iff.mp h.first).1
  have hzero : t.starts.getD 0 0 = 0 := by
    rw [Array.getD_eq_getD_getElem?, h.first]
    rfl
  exact bisect_spec (fun i j => h.starts_le) 0 t.starts.size hpos (by omega)
    (by omega : t.starts.getD 0 0 ≤ offset) (fun j hj hj' => by omega)

/-- **Bisection finds the line of an offset**: the last line that starts there or before. -/
theorem WellFormed.lineOf_eq (h : t.WellFormed) {offset line start : Nat}
    (hoffset : offset ≤ t.length) (hline : t.starts[line]? = some start) (hstart : start ≤ offset)
    (hnext : ∀ next, t.starts[line + 1]? = some next → offset < next) :
    t.lineOf offset = .ok line := by
  obtain ⟨hline', rfl⟩ := Array.getElem?_eq_some_iff.mp hline
  obtain ⟨hfound, hle, hbehind⟩ := h.bisect_lines offset
  have hstart' : t.starts.getD line 0 ≤ offset := by
    simpa [Array.getD, hline'] using hstart
  have same : bisect t.starts offset 0 t.lines = line := by
    rcases Nat.lt_trichotomy (bisect t.starts offset 0 t.lines) line with hlt | heq | hgt
    · have := hbehind line hlt hline'
      omega
    · exact heq
    · -- the line behind `line` would start at the offset or before it
      have hnext' : offset < t.starts.getD (line + 1) 0 := by
        have hlt : line + 1 < t.starts.size := by omega
        rw [Array.getD_eq_getD_getElem?, Array.getElem?_eq_getElem hlt]
        exact hnext _ (Array.getElem?_eq_getElem hlt)
      have := h.starts_le (show line + 1 ≤ _ from hgt) hfound
      omega
  rw [lineOf, if_neg (by omega)]
  simp only [same, hline, Option.any_some, hstart, decide_true, if_true]

theorem pairwise_lineStarts (offset : Nat) (bs : List UInt8) :
    (offset :: Segment.lineStarts offset bs).Pairwise (· < ·) ∧
      ∀ start ∈ Segment.lineStarts offset bs, start ≤ offset + bs.length := by
  induction bs generalizing offset with
  | nil => simp [Segment.lineStarts]
  | cons b bs ih =>
    obtain ⟨hlt, hle⟩ := ih (offset + 1)
    obtain ⟨hlt₁, hlt₂⟩ := List.pairwise_cons.mp hlt
    have hlen : (b :: bs).length = bs.length + 1 := rfl
    simp only [Segment.lineStarts]
    split
    · refine ⟨List.pairwise_cons.mpr ⟨?_, hlt⟩, ?_⟩
      · rintro start (_ | ⟨_, hs⟩)
        · omega
        · have := hlt₁ start hs
          omega
      · rintro start (_ | ⟨_, hs⟩)
        · omega
        · have := hle start hs
          omega
    · refine ⟨List.pairwise_cons.mpr ⟨?_, hlt₂⟩, ?_⟩
      · intro start hs
        have := hlt₁ start hs
        omega
      · intro start hs
        have := hle start hs
        omega

theorem starts_ofBytes (bs : List UInt8) :
    (ofBytes bs).starts.toList = 0 :: Segment.lineStarts 0 bs := by
  simp [ofBytes, Segment.lineStarts_zero]

theorem wellFormed_ofBytes (bs : List UInt8) : (ofBytes bs).WellFormed := by
  obtain ⟨hlt, hle⟩ := pairwise_lineStarts 0 bs
  refine ⟨rfl, starts_ofBytes bs ▸ hlt, ?_⟩
  intro start hs
  rw [← Array.mem_toList_iff, starts_ofBytes] at hs
  rcases List.mem_cons.mp hs with rfl | hs
  · exact Nat.zero_le _
  · have hle := hle start hs
    rw [Nat.zero_add] at hle
    exact hle

theorem lines_ofBytes (bs : List UInt8) : (ofBytes bs).lines = bs.count lineFeed + 1 := by
  rw [lines, ← Array.length_toList, starts_ofBytes, List.length_cons, Segment.length_lineStarts]

end LineTable

/-! ## The lines of a byte string -/

section IsLine

/-- **A line of a byte string**, counted from zero: what lies between two line feeds, or between a
line feed and an end. -/
structure IsLine (bs : List UInt8) (i : Nat) (before line after : List UInt8) : Prop where
  /-- The line stands between two other pieces. -/
  whole : bs = before ++ (line ++ after)
  /-- The lines before it are counted by their line feeds. -/
  index : before.count lineFeed = i
  /-- It starts at the beginning or behind a line feed. -/
  starts : before = [] ∨ ∃ earlier, before = earlier ++ [lineFeed]
  /-- It holds no line feed. -/
  clean : lineFeed ∉ line
  /-- It ends at the end or at a line feed. -/
  ends : after = [] ∨ ∃ later, after = lineFeed :: later

variable {bs before line after : List UInt8} {i : Nat}

theorem isLine_takeWhile (before bs : List UInt8)
    (hstarts : before = [] ∨ ∃ earlier, before = earlier ++ [lineFeed]) :
    IsLine (before ++ bs) (before.count lineFeed) before (bs.takeWhile (· != lineFeed))
      (bs.dropWhile (· != lineFeed)) := by
  refine ⟨by rw [List.takeWhile_append_dropWhile], rfl, hstarts, ?_, ?_⟩
  · intro hmem
    simpa using List.mem_takeWhile_imp hmem
  · cases hd : bs.dropWhile (· != lineFeed) with
    | nil => exact .inl rfl
    | cons b later =>
      have hb := List.head_dropWhile_not (· != lineFeed) (l := bs) (by simp [hd])
      simp only [hd, List.head_cons, bne_eq_false_iff_eq] at hb
      exact .inr ⟨later, by rw [hb]⟩

/-- There are as many lines as line feeds, and one more. -/
theorem exists_isLine (h : i ≤ bs.count lineFeed) :
    ∃ before line after, IsLine bs i before line after := by
  induction i with
  | zero => exact ⟨[], _, _, isLine_takeWhile [] bs (.inl rfl)⟩
  | succ i ih =>
    obtain ⟨before, line, after, hline⟩ := ih (by omega)
    rcases hline.ends with rfl | ⟨later, rfl⟩
    · -- no line feed is left, so there is no line `i + 1` to look for
      have hcount : bs.count lineFeed = i := by
        rw [hline.whole, List.append_nil, List.count_append, hline.index,
          List.count_eq_zero.mpr hline.clean]
        rfl
      omega
    · have next := isLine_takeWhile (before ++ (line ++ [lineFeed])) later
        (.inr ⟨before ++ line, by simp⟩)
      have hcount : (before ++ (line ++ [lineFeed])).count lineFeed = i + 1 := by
        simp [hline.index, List.count_eq_zero.mpr hline.clean]
      rw [hcount] at next
      exact ⟨_, _, _, by simpa [hline.whole] using next⟩

/-- The starts of all lines, cut behind the line. -/
theorem IsLine.starts_ofBytes (h : IsLine bs i before line after) :
    (LineTable.ofBytes bs).starts.toList = (0 :: Segment.lineStarts 0 before) ++
      Segment.lineStarts (before.length + line.length) after := by
  have none_inside : Segment.lineStarts before.length line = [] := by
    rw [← List.length_eq_zero_iff, Segment.length_lineStarts, List.count_eq_zero.mpr h.clean]
  rw [LineTable.starts_ofBytes, h.whole, Segment.lineStarts_append, Segment.lineStarts_append,
    Nat.zero_add, none_inside, List.nil_append, List.cons_append]

/-- The line starts behind what is before it. -/
theorem IsLine.start_eq (h : IsLine bs i before line after) :
    (LineTable.ofBytes bs).starts[i]? = some before.length := by
  have last : (0 :: Segment.lineStarts 0 before)[i]? = some before.length := by
    rw [← h.index]
    rcases h.starts with rfl | ⟨earlier, rfl⟩
    · rfl
    · simp [Segment.lineStarts_append, Segment.lineStarts]
  have inside : i < (0 :: Segment.lineStarts 0 before).length := by
    rw [List.length_cons, Segment.length_lineStarts, h.index]
    omega
  rw [← Array.getElem?_toList, h.starts_ofBytes, List.getElem?_append_left inside, last]

/-- The next line starts behind the line feed, if there is one. -/
theorem IsLine.next_start_eq (h : IsLine bs i before line after) :
    (LineTable.ofBytes bs).starts[i + 1]? =
      after.head?.map fun _ => before.length + line.length + 1 := by
  have behind : (0 :: Segment.lineStarts 0 before).length = i + 1 := by
    rw [List.length_cons, Segment.length_lineStarts, h.index]
  rw [← Array.getElem?_toList, h.starts_ofBytes, List.getElem?_append_right (by omega), behind,
    Nat.sub_self]
  rcases h.ends with rfl | ⟨later, rfl⟩ <;> rfl

/-- **Where a line is**: it ends with its line feed, or at the end of the text. -/
theorem IsLine.lineRange_eq (h : IsLine bs i before line after) :
    (LineTable.ofBytes bs).lineRange i =
      .ok ⟨before.length, before.length + line.length + (after.take 1).length⟩ := by
  have stop : (LineTable.ofBytes bs).starts.getD (i + 1) bs.length =
      before.length + line.length + (after.take 1).length := by
    rw [Array.getD_eq_getD_getElem?, h.next_start_eq]
    rcases h.ends with rfl | ⟨later, rfl⟩
    · simp [h.whole]
    · simp
  rw [LineTable.lineRange, h.start_eq]
  exact congrArg (fun stop => Except.ok (Span.mk before.length stop)) stop

/-- **Every offset on a line leads back to it.** -/
theorem IsLine.lineOf_eq (h : IsLine bs i before line after) {offset : Nat}
    (hstart : before.length ≤ offset) (hstop : offset ≤ before.length + line.length) :
    (LineTable.ofBytes bs).lineOf offset = .ok i := by
  refine (LineTable.wellFormed_ofBytes bs).lineOf_eq ?_ h.start_eq hstart ?_
  · have : bs.length = before.length + (line.length + after.length) := by simp [h.whole]
    change offset ≤ bs.length
    omega
  · intro next hnext
    rw [h.next_start_eq] at hnext
    obtain ⟨_, -, rfl⟩ := Option.map_eq_some_iff.mp hnext
    omega

theorem length_splitOn (bs : List UInt8) :
    (bs.splitOn lineFeed).length = bs.count lineFeed + 1 := by
  induction bs with
  | nil => rfl
  | cons b bs ih =>
    rw [List.splitOn_cons_eq_if_modifyHead, List.count_cons]
    split <;> simp [ih]

/-- The line is what lies between the line feeds around it. -/
theorem IsLine.splitOn_eq (h : IsLine bs i before line after) :
    (bs.splitOn lineFeed)[i]? = some line := by
  have first : ((line ++ after).splitOn lineFeed)[0]? = some line := by
    rcases h.ends with rfl | ⟨later, rfl⟩
    · rw [List.append_nil, List.splitOn_eq_singleton h.clean]
      rfl
    · rw [List.splitOn_append_cons_self_of_not_mem h.clean]
      rfl
  rw [h.whole, ← h.index]
  rcases h.starts with rfl | ⟨earlier, rfl⟩
  · exact first
  · -- the pieces before the line are those of what stands before its line feed
    have count : (earlier ++ [lineFeed]).count lineFeed = (earlier.splitOn lineFeed).length := by
      simp [length_splitOn]
    rw [List.append_assoc, List.singleton_append, List.splitOn_append_cons_self, count,
      List.getElem?_append_right (Nat.le_refl _), Nat.sub_self, first]

/-! ### Decoding keeps lines -/

theorem lineFeed_ascii : lineFeed.toNat < 0x80 := by decide

theorem IsLine.detached_after (h : IsLine bs i before line after) : Utf8.Detached after := by
  rcases h.ends with rfl | ⟨later, rfl⟩
  · exact .nil
  · exact .cons lineFeed_ascii

theorem IsLine.separate_before (h : IsLine bs i before line after) (xs : List UInt8) :
    Utf8.Separate before xs := by
  refine .inl fun x hx => ?_
  rcases h.starts with rfl | ⟨earlier, rfl⟩
  · cases hx
  · rw [List.getLast?_concat] at hx
    exact Option.some.inj hx ▸ lineFeed_ascii

/-- **Decoding keeps lines**: a line of a decoded text is the decoded line. -/
theorem IsLine.recoded (h : IsLine bs i before line after) :
    IsLine (Utf8.recoded bs) i (Utf8.recoded before) (Utf8.recoded line) (Utf8.recoded after) where
  whole := by
    rw [h.whole, Utf8.recoded_append (h.separate_before _), Utf8.recoded_append (.inr h.detached_after)]
  index := by rw [Utf8.count_recoded lineFeed_ascii, h.index]
  starts := by
    rcases h.starts with rfl | ⟨earlier, rfl⟩
    · exact .inl Utf8.recoded_nil
    · refine .inr ⟨Utf8.recoded earlier, ?_⟩
      rw [Utf8.recoded_append (.inr (.cons lineFeed_ascii)),
        Utf8.recoded_cons_of_ascii lineFeed_ascii, Utf8.recoded_nil]
  clean := by
    rw [← List.count_eq_zero, Utf8.count_recoded lineFeed_ascii]
    exact List.count_eq_zero.mpr h.clean
  ends := by
    rcases h.ends with rfl | ⟨later, rfl⟩
    · exact .inl Utf8.recoded_nil
    · exact .inr ⟨Utf8.recoded later, Utf8.recoded_cons_of_ascii lineFeed_ascii later⟩

/-- The line feed at the end of a line, as far as there is one. -/
theorem IsLine.take_recoded (h : IsLine bs i before line after) :
    (Utf8.recoded after).take 1 = after.take 1 := by
  rcases h.ends with rfl | ⟨later, rfl⟩
  · rw [Utf8.recoded_nil]
  · rw [Utf8.recoded_cons_of_ascii lineFeed_ascii]
    rfl

theorem IsLine.ascii_take (h : IsLine bs i before line after) :
    ∀ b ∈ after.take 1, b.toNat < 0x80 := by
  rcases h.ends with rfl | ⟨later, rfl⟩
  · simp
  · simpa using lineFeed_ascii

end IsLine

end LoxLexer
