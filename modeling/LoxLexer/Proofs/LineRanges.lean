import LoxLexer.Proofs.LineStarts

/-!
# Line ranges and the lines of offsets

A line table answers in two directions: where a line is, and which line an offset is on. If its
starts increase from zero and end inside the text, then the ranges of the lines, one after the
other, run through the offsets of the text, each once and in order, and each offset is on the line
whose range it is in. The end of the text is in no range; it is on the last line, which is empty
behind a line feed at the end.

## Main definitions

* `LineTable.bound t i`: where line `i` starts, and behind the last line the end of the text
* `LineTable.Tiling t`: what is true of ranges and lines of a table with increasing starts

## Main results

* `LineTable.wellFormed_of_last`: if the last start is inside the text, then all are
* `LineTable.flatMap_range'`: adjoining ranges, one after the other
* `LineTable.WellFormed.lineOf_spec`: the line of an offset is found by counting starts
* `lines_tiling`: the ranges of the lines tile the text, and lines are found from offsets
-/

namespace LoxLexer

namespace LineTable

variable {t : LineTable} {i o : Nat}

/-- **Lines that tile a text**, and are found from the offsets in it. -/
structure Tiling (t : LineTable) : Prop where
  /-- Every line has a range, which starts where the line does and ends where the next one starts
  or, for the last line, where the text ends. -/
  range : ∀ i < t.lines, ∃ r, t.lineRange i = .ok r ∧ t.starts[i]? = some r.start ∧
    r.start ≤ r.stop ∧ (i = 0 → r.start = 0) ∧ (i + 1 = t.lines → r.stop = t.length) ∧
    ∀ r', t.lineRange (i + 1) = .ok r' → r'.start = r.stop
  /-- There are no more ranges than lines. -/
  no_range : ∀ i, t.lineRange i = .error .lineOutOfBounds ↔ t.lines ≤ i
  /-- The ranges of all lines are those of each, in order. -/
  ranges : t.lineRanges.map .ok = (List.range t.lines).map t.lineRange
  /-- The ranges, one after the other, hold each offset of the text once and in order. -/
  tile : t.lineRanges.flatMap (fun r => List.range' r.start (r.stop - r.start)) =
    List.range t.length
  /-- Every offset up to the end of the text is on a line: the last one of those that start there
  or before. Its range holds the offset, unless that is the end of the text. -/
  line : ∀ o ≤ t.length, ∃ i r, t.lineOf o = .ok i ∧
    t.starts.toList.countP (· ≤ o) = i + 1 ∧ t.lineRange i = .ok r ∧ r.start ≤ o ∧
    (o < r.stop ∨ o = t.length ∧ i + 1 = t.lines)
  /-- Nothing is on a line behind the end of the text. -/
  no_line : ∀ o, t.length < o → t.lineOf o = .error .offsetOutOfBounds
  /-- Later offsets are on later lines, or on the same. -/
  monotone : ∀ o o' i i', o ≤ o' → t.lineOf o = .ok i → t.lineOf o' = .ok i' → i ≤ i'
  /-- The start of a line is on that line. -/
  inverse : ∀ i r, t.lineRange i = .ok r → t.lineOf r.start = .ok i

/-! ## Ranges -/

section Ranges

/-- Where a line starts; behind the last line, where the text ends. -/
def bound (t : LineTable) (i : Nat) : Nat :=
  t.starts.getD i t.length

theorem bound_of_lt (hi : i < t.lines) : t.starts[i]? = some (t.bound i) := by
  have hi' : i < t.starts.size := hi
  simp [bound, Array.getD, hi']

@[simp] theorem bound_lines (t : LineTable) : t.bound t.lines = t.length := by
  simp [bound, lines, Array.getD]

theorem lineRange_of_lt (hi : i < t.lines) : t.lineRange i = .ok ⟨t.bound i, t.bound (i + 1)⟩ := by
  rw [lineRange, bound_of_lt hi]
  rfl

theorem lineRange_of_le (hi : t.lines ≤ i) : t.lineRange i = .error .lineOutOfBounds := by
  rw [lineRange, Array.getElem?_eq_none hi]

theorem lineRange_eq_ok_iff {r : Span} :
    t.lineRange i = .ok r ↔ i < t.lines ∧ r = ⟨t.bound i, t.bound (i + 1)⟩ := by
  by_cases hi : i < t.lines
  · rw [lineRange_of_lt hi]
    simp [hi, eq_comm]
  · rw [lineRange_of_le (Nat.le_of_not_lt hi)]
    simp [hi]

theorem lineRanges_eq (t : LineTable) :
    t.lineRanges = (List.range t.lines).map fun i => ⟨t.bound i, t.bound (i + 1)⟩ := by
  rw [lineRanges, ← List.filterMap_eq_map]
  refine List.filterMap_congr fun i hi => ?_
  rw [lineRange_of_lt (List.mem_range.mp hi)]
  rfl

/-- **Adjoining ranges, one after the other**, are one range. -/
theorem flatMap_range' {f : Nat → Nat} {k : Nat} (h : ∀ i < k, f i ≤ f (i + 1)) :
    f 0 ≤ f k ∧ (List.range k).flatMap (fun i => List.range' (f i) (f (i + 1) - f i)) =
      List.range' (f 0) (f k - f 0) := by
  induction k with
  | zero => simp
  | succ k ih =>
    obtain ⟨hle, hranges⟩ := ih fun i hi => h i (by omega)
    have hlast := h k (by omega)
    refine ⟨by omega, ?_⟩
    -- the last range starts where the others end
    have start : f 0 + (f k - f 0) = f k := by omega
    have length : f k - f 0 + (f (k + 1) - f k) = f (k + 1) - f 0 := by omega
    rw [List.range_succ, List.flatMap_append, hranges, List.flatMap_singleton, ← length,
      ← List.range'_append_1, start]

end Ranges

/-! ## Well-formed tables -/

/-- **Starts that increase are all inside the text if the last one is.** -/
theorem wellFormed_of_last (increasing : t.starts.toList.Pairwise (· < ·))
    (first : t.starts[0]? = some 0)
    (last : ∀ start, t.starts.back? = some start → start ≤ t.length) : t.WellFormed := by
  refine ⟨first, increasing, ?_⟩
  intro start hmem
  rw [← Array.mem_toList_iff] at hmem
  rw [← Array.getLast?_toList] at last
  obtain hnil | ⟨init, final, hstarts⟩ := List.eq_nil_or_concat t.starts.toList
  · rw [hnil] at hmem
    cases hmem
  · rw [List.concat_eq_append] at hstarts
    rw [hstarts] at increasing hmem last
    have hfinal := last final List.getLast?_concat
    rcases List.mem_append.mp hmem with hinit | hlast
    · have := (List.pairwise_append.mp increasing).2.2 start hinit final List.mem_cons_self
      omega
    · rw [List.mem_singleton.mp hlast]
      exact hfinal

theorem getD_eq_bound (hi : i < t.lines) : t.starts.getD i 0 = t.bound i := by
  rw [Array.getD_eq_getD_getElem?, bound_of_lt hi]
  rfl

/-- Only offsets up to the end of the text are on a line. -/
theorem le_length_of_lineOf (hline : t.lineOf o = .ok i) : o ≤ t.length := by
  by_contra hlt
  rw [lineOf, if_pos (Nat.lt_of_not_le hlt)] at hline
  cases hline

namespace WellFormed

theorem bound_zero (h : t.WellFormed) : t.bound 0 = 0 := by
  rw [bound, Array.getD_eq_getD_getElem?, h.first]
  rfl

theorem bound_lt (h : t.WellFormed) {j : Nat} (hij : i < j) (hj : j < t.lines) :
    t.bound i < t.bound j := by
  rw [← getD_eq_bound (hij.trans hj), ← getD_eq_bound hj]
  exact h.starts_lt hij hj

theorem bound_le_length (h : t.WellFormed) (hi : i < t.lines) : t.bound i ≤ t.length :=
  h.inside _ (Array.mem_of_getElem? (bound_of_lt hi))

/-- No line ends before it starts. -/
theorem bound_le (h : t.WellFormed) (hi : i < t.lines) : t.bound i ≤ t.bound (i + 1) := by
  by_cases hnext : i + 1 < t.lines
  · exact (h.bound_lt (Nat.lt_succ_self i) hnext).le
  · have hlast : i + 1 = t.lines := by omega
    rw [hlast, bound_lines]
    exact h.bound_le_length hi

/-- The starts up to an offset are those of its line and of the lines before. -/
theorem countP_starts (h : t.WellFormed) (hi : i < t.lines) (hle : t.bound i ≤ o)
    (hbehind : ∀ j, i < j → j < t.lines → o < t.bound j) :
    t.starts.toList.countP (· ≤ o) = i + 1 := by
  have hsize : t.starts.toList.length = t.lines := Array.length_toList
  have get (j : Nat) (hj : j < t.starts.toList.length) : t.starts.toList[j] = t.bound j := by
    have := bound_of_lt (hsize ▸ hj)
    rw [← Array.getElem?_toList, List.getElem?_eq_getElem hj] at this
    exact Option.some.inj this
  have before : (t.starts.toList.take (i + 1)).countP (· ≤ o) = i + 1 := by
    rw [List.countP_eq_length.mpr, List.length_take, hsize]
    · omega
    · intro start hstart
      obtain ⟨j, hj, rfl⟩ := List.mem_take_iff_getElem.mp hstart
      rw [get, decide_eq_true_iff]
      rcases Nat.lt_or_ge j i with hlt | hge
      · exact (h.bound_lt hlt hi).le.trans hle
      · have : j = i := by omega
        rw [this]
        exact hle
  have behind : (t.starts.toList.drop (i + 1)).countP (· ≤ o) = 0 := by
    rw [List.countP_eq_zero]
    intro start hstart
    obtain ⟨j, hj, rfl⟩ := List.mem_drop_iff_getElem.mp hstart
    rw [get, decide_eq_true_iff]
    have := hbehind (i + 1 + j) (by omega) (by omega)
    omega
  rw [← List.take_append_drop (i + 1) t.starts.toList, List.countP_append, before, behind]

/-- **The line of an offset** is found by counting starts, and its range holds the offset, unless
that is the end of the text. -/
theorem lineOf_spec (h : t.WellFormed) (ho : o ≤ t.length) :
    ∃ i < t.lines, t.lineOf o = .ok i ∧ t.starts.toList.countP (· ≤ o) = i + 1 ∧
      t.bound i ≤ o ∧ (o < t.bound (i + 1) ∨ o = t.length ∧ i + 1 = t.lines) := by
  obtain ⟨hline, hle, hbehind⟩ := h.bisect_lines o
  generalize bisect t.starts o 0 t.lines = i at hline hle hbehind
  have hle' : t.bound i ≤ o := getD_eq_bound hline ▸ hle
  have hbehind' : ∀ j, i < j → j < t.lines → o < t.bound j :=
    fun j hij hj => getD_eq_bound hj ▸ hbehind j hij hj
  refine ⟨i, hline, ?_, h.countP_starts hline hle' hbehind', hle', ?_⟩
  · refine h.lineOf_eq ho (bound_of_lt hline) hle' ?_
    intro next hnext
    have hlt : i + 1 < t.lines := (Array.getElem?_eq_some_iff.mp hnext).1
    rw [bound_of_lt hlt] at hnext
    rw [← Option.some.inj hnext]
    exact hbehind' (i + 1) (Nat.lt_succ_self i) hlt
  · by_cases hnext : i + 1 < t.lines
    · exact .inl (hbehind' (i + 1) (Nat.lt_succ_self i) hnext)
    · have hlast : i + 1 = t.lines := Nat.le_antisymm hline (Nat.le_of_not_lt hnext)
      rw [hlast, bound_lines]
      rcases Nat.lt_or_eq_of_le ho with hlt | heq
      · exact .inl hlt
      · exact .inr ⟨heq, rfl⟩

theorem lineOf_bound (h : t.WellFormed) (hi : i < t.lines) : t.lineOf (t.bound i) = .ok i := by
  refine h.lineOf_eq (h.bound_le_length hi) (bound_of_lt hi) (Nat.le_refl _) ?_
  intro next hnext
  have hlt : i + 1 < t.lines := (Array.getElem?_eq_some_iff.mp hnext).1
  rw [bound_of_lt hlt] at hnext
  rw [← Option.some.inj hnext]
  exact h.bound_lt (Nat.lt_succ_self i) hlt

/-- The number of starts up to an offset grows with it, and so does its line. -/
theorem lineOf_le (h : t.WellFormed) {o' i' : Nat} (hoo' : o ≤ o') (hi : t.lineOf o = .ok i)
    (hi' : t.lineOf o' = .ok i') : i ≤ i' := by
  obtain ⟨j, -, hj, hcount, -⟩ := h.lineOf_spec (le_length_of_lineOf hi)
  obtain ⟨j', -, hj', hcount', -⟩ := h.lineOf_spec (le_length_of_lineOf hi')
  obtain rfl : j = i := Except.ok.inj (hj.symm.trans hi)
  obtain rfl : j' = i' := Except.ok.inj (hj'.symm.trans hi')
  have mono : t.starts.toList.countP (· ≤ o) ≤ t.starts.toList.countP (· ≤ o') := by
    apply List.countP_mono_left
    intro start _ hstart
    rw [decide_eq_true_iff] at hstart ⊢
    exact hstart.trans hoo'
  omega

/-- **The lines of a well-formed table tile its text.** -/
theorem tiling (h : t.WellFormed) : t.Tiling where
  range i hi := by
    refine ⟨_, lineRange_of_lt hi, bound_of_lt hi, h.bound_le hi, ?_, ?_, ?_⟩
    · rintro rfl
      exact h.bound_zero
    · intro hlast
      dsimp only
      rw [hlast, bound_lines]
    · intro r' hr'
      rw [(lineRange_eq_ok_iff.mp hr').2]
  no_range i := by
    constructor
    · intro herror
      by_contra hi
      rw [lineRange_of_lt (Nat.lt_of_not_le hi)] at herror
      cases herror
    · exact lineRange_of_le
  ranges := by
    rw [lineRanges_eq, List.map_map]
    refine List.map_congr_left fun i hi => ?_
    exact (lineRange_of_lt (List.mem_range.mp hi)).symm
  tile := by
    have bounds : ∀ i < t.lines, t.bound i ≤ t.bound (i + 1) := fun i hi => h.bound_le hi
    rw [lineRanges_eq, List.flatMap_map, (flatMap_range' bounds).2, h.bound_zero, bound_lines,
      Nat.sub_zero, List.range_eq_range']
  line o ho := by
    obtain ⟨i, hi, hline, hcount, hle, hend⟩ := h.lineOf_spec ho
    exact ⟨i, _, hline, hcount, lineRange_of_lt hi, hle, hend⟩
  no_line o ho := by
    rw [lineOf, if_pos ho]
  monotone o o' i i' := h.lineOf_le
  inverse i r hr := by
    obtain ⟨hi, rfl⟩ := lineRange_eq_ok_iff.mp hr
    exact h.lineOf_bound hi

end WellFormed

end LineTable

/-- **The lines of a text tile it, and are found from its offsets.** If the starts of a line table
increase, begin with zero and end inside the text, then the ranges of its lines, one after the
other, are the offsets of the text in order, and there is no range for a line that the table does
not have. An offset of the text or its end is on the line whose number is one less than the number
of starts up to it, which the search never steps in front of; an offset behind the end is on none.
Later offsets are on later lines, and the start of a line is on that line, even if the line is
empty. All this holds of the lines of every scan and of every text. -/
theorem lines_tiling :
    (∀ t : LineTable, t.starts.toList.Pairwise (· < ·) → t.starts[0]? = some 0 →
      (∀ last, t.starts.back? = some last → last ≤ t.length) → t.Tiling) ∧
    (∀ source, (scan source).lines.Tiling) ∧
    ∀ text, (LineTable.ofText text).Tiling := by
  refine ⟨?_, ?_, ?_⟩
  · intro t increasing first last
    exact (LineTable.wellFormed_of_last increasing first last).tiling
  · intro source
    rw [lines_scan]
    exact (LineTable.wellFormed_ofBytes source).tiling
  · intro text
    rw [LineTable.ofText_eq]
    exact (LineTable.wellFormed_ofBytes _).tiling

/-- Three lines, the last of which is empty. -/
theorem lines_tiling_empty : (⟨#[0, 2, 5], 5⟩ : LineTable).Tiling :=
  lines_tiling.1 ⟨#[0, 2, 5], 5⟩ (by decide) rfl (by
    rintro last ⟨⟩
    exact Nat.le_refl 5)

end LoxLexer
