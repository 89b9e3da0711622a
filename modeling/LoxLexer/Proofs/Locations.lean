import Mathlib.Data.Prod.Basic
import LoxLexer.Proofs.LineStarts

/-!
# Lines and columns of a text

A file table answers for an offset with a line, found by bisection, and a column, found by counting
the bytes up to the offset behind which a character starts. Where the offset itself lies between two
characters of the text, this comes to counting characters: the line is the number of line feeds in
front of the offset, and the column the number of characters behind the last of them. One character
more moves either to the next column or to the next line, so that locations grow with the offset.

## Main definitions

* `lineColumn cs`: line and column behind the characters `cs`
* `FileTable.Located t id text o earlier line later`: the offset `o` of `text` is behind the lines
  `earlier` and the characters `line`, and `t` says so about the file `id`

## Main results

* `lineColumn_lt_append`: every character moves the location on
* `Utf8.isBoundary_iff`: a boundary is the end of some characters
* `FileTable.charactersBetween_eq`: counting boundaries is counting characters
* `FileTable.locations_of_text`: the locations of a text, in characters, and their order
-/

namespace LoxLexer

/-! ## Counting characters -/

section LineColumn

/-- **Line and column behind characters**, both counted from one. -/
def lineColumn (cs : List Char) : Nat × Nat :=
  (1 + cs.count '\n', 1 + (cs.rtakeWhile (· != '\n')).length)

theorem lineColumn_concat_lineFeed (cs : List Char) :
    lineColumn (cs ++ ['\n']) = ((lineColumn cs).1 + 1, 1) := by
  rw [lineColumn, List.rtakeWhile_concat_neg _ _ _ (by simp)]
  simp [lineColumn, Nat.add_assoc]

theorem lineColumn_concat_of_ne {c : Char} (hc : c ≠ '\n') (cs : List Char) :
    lineColumn (cs ++ [c]) = ((lineColumn cs).1, (lineColumn cs).2 + 1) := by
  rw [lineColumn, List.rtakeWhile_concat_pos _ _ _ (by simpa using hc)]
  simp [lineColumn, hc, Nat.add_assoc]

/-- A line feed leads to a later line, and any other character to a later column. -/
theorem lineColumn_lt_concat (cs : List Char) (c : Char) :
    Prod.Lex (· < ·) (· < ·) (lineColumn cs) (lineColumn (cs ++ [c])) := by
  by_cases hc : c = '\n'
  · rw [hc, lineColumn_concat_lineFeed]
    exact .left _ _ (Nat.lt_succ_self _)
  · rw [lineColumn_concat_of_ne hc]
    exact .right _ (Nat.lt_succ_self _)

/-- **Characters move the location on.** -/
theorem lineColumn_lt_append (cs : List Char) {ds : List Char} (hds : ds ≠ []) :
    Prod.Lex (· < ·) (· < ·) (lineColumn cs) (lineColumn (cs ++ ds)) := by
  induction ds using List.reverseRecOn with
  | nil => exact absurd rfl hds
  | append_singleton ds d ih =>
    rw [← List.append_assoc]
    have last := lineColumn_lt_concat (cs ++ ds) d
    rcases eq_or_ne ds [] with rfl | hne
    · rwa [List.append_nil] at last ⊢
    · exact Prod.Lex.trans (ih hne) last

end LineColumn

/-! ## Boundaries -/

namespace Utf8

section Boundary

variable {s : String} {o : Nat}

/-- **A boundary is the end of some characters** that the text begins with. -/
theorem isBoundary_iff : isBoundary s o = true ↔ ∃ a b, s = a ++ b ∧ a.utf8ByteSize = o := by
  rw [isBoundary, String.Pos.Raw.isValid_eq_true_iff, String.Pos.Raw.isValid_iff_exists_append]
  constructor
  · rintro ⟨a, b, hs, ho⟩
    exact ⟨a, b, hs, (congrArg String.Pos.Raw.byteIdx ho).symm⟩
  · rintro ⟨a, b, hs, rfl⟩
    exact ⟨a, b, hs, rfl⟩

/-- Of two beginnings of a text, the shorter one is a beginning of the longer one. -/
theorem exists_append_of_size_le {a b a' b' : String} (h : a ++ b = a' ++ b')
    (hle : a.utf8ByteSize ≤ a'.utf8ByteSize) : ∃ m, a' = a ++ m ∧ b = m ++ b' := by
  rw [← String.toList_inj, String.toList_append, String.toList_append,
    List.append_eq_append_iff] at h
  rcases h with ⟨m, ha, hb⟩ | ⟨m, ha, hb⟩
  · refine ⟨String.ofList m, ?_, ?_⟩
    · rw [← String.toList_inj, String.toList_append, String.toList_ofList, ha]
    · rw [← String.toList_inj, String.toList_append, String.toList_ofList, hb]
  · -- both beginnings are of the same size, so nothing is between their ends
    have ha' : a = a' ++ String.ofList m := by
      rw [← String.toList_inj, String.toList_append, String.toList_ofList, ha]
    have hsize := congrArg String.utf8ByteSize ha'
    rw [String.utf8ByteSize_append] at hsize
    have hempty : String.ofList m = "" := String.utf8ByteSize_eq_zero_iff.mp (by omega)
    rw [hempty, String.append_empty] at ha'
    have hm : m = [] := by simpa using hempty
    rw [hm, List.nil_append, String.toList_inj] at hb
    exact ⟨"", by rw [ha', String.append_empty], by rw [hb, String.empty_append]⟩

/-- No boundary lies inside a character. -/
theorem isBoundary_inside {c : Char} {k : Nat} (a b : String) (hk : 0 < k) (hk' : k < c.utf8Size) :
    isBoundary (a ++ (String.singleton c ++ b)) (a.utf8ByteSize + k) = false := by
  rw [Bool.eq_false_iff]
  intro hboundary
  obtain ⟨a', b', hs, ha'⟩ := isBoundary_iff.mp hboundary
  -- the character would have to be in what is between the two ends
  obtain ⟨m, rfl, hm⟩ := exists_append_of_size_le hs (by omega)
  rw [String.utf8ByteSize_append] at ha'
  cases hlist : m.toList with
  | nil =>
    have hempty : m = "" := by simpa using hlist
    rw [hempty, String.utf8ByteSize_empty] at ha'
    omega
  | cons x xs =>
    rw [← String.toList_inj, String.toList_append, String.toList_append, hlist,
      String.toList_singleton, List.singleton_append, List.cons_append] at hm
    obtain ⟨rfl, -⟩ := List.cons.inj hm
    have hsize : m.utf8ByteSize = c.utf8Size + (String.ofList xs).utf8ByteSize := by
      rw [← String.ofList_toList (s := m), hlist, String.ofList_cons, String.utf8ByteSize_append,
        String.utf8ByteSize_singleton]
    omega

/-- The line feeds of a text are those among its bytes. -/
theorem count_lineFeed_bytes (s : String) : (bytes s).count lineFeed = s.toList.count '\n' := by
  rw [← String.ofList_toList (s := s), bytes_ofList, String.toList_ofList]
  induction s.toList with
  | nil => rfl
  | cons c cs ih =>
    rw [List.flatMap_cons, List.count_append, ih]
    by_cases hc : c = '\n'
    · rw [hc, List.count_cons_self, Nat.add_comm]
      rfl
    · rw [List.count_eq_zero.mpr (LineTable.lineFeed_notMem_utf8EncodeChar hc), Nat.zero_add,
        List.count_cons_of_ne hc]

end Boundary

end Utf8

namespace FileTable

variable {t : FileTable} {id : Nat} {file : SourceFile}

/-! ## Columns -/

section Columns

theorem charactersBetween_add (text : String) (start m n : Nat) :
    charactersBetween text start (start + (m + n)) =
      charactersBetween text start (start + m) +
        charactersBetween text (start + m) (start + m + n) := by
  simp only [charactersBetween, Nat.add_sub_cancel_left]
  rw [← List.countP_append, List.range'_append_1]

/-- **The bytes of one character** hold one boundary, at their end. -/
theorem charactersBetween_singleton (a : String) (c : Char) (b : String) :
    charactersBetween (a ++ (String.singleton c ++ b)) a.utf8ByteSize
      (a.utf8ByteSize + c.utf8Size) = 1 := by
  obtain ⟨k, hk⟩ : ∃ k, c.utf8Size = k + 1 := ⟨c.utf8Size - 1, by have := c.utf8Size_pos; omega⟩
  have inside : (List.range' a.utf8ByteSize k).countP
      (fun i => Utf8.isBoundary (a ++ (String.singleton c ++ b)) (i + 1)) = 0 := by
    rw [List.countP_eq_zero]
    intro i hi
    obtain ⟨hle, hlt⟩ := List.mem_range'_1.mp hi
    have hplace : i + 1 = a.utf8ByteSize + (i + 1 - a.utf8ByteSize) := by omega
    rw [hplace, Utf8.isBoundary_inside a b (by omega) (by omega)]
    exact Bool.false_ne_true
  have last : Utf8.isBoundary (a ++ (String.singleton c ++ b)) (a.utf8ByteSize + k + 1) = true := by
    rw [Utf8.isBoundary_iff]
    refine ⟨a ++ String.singleton c, b, String.append_assoc.symm, ?_⟩
    rw [String.utf8ByteSize_append, String.utf8ByteSize_singleton, hk, Nat.add_assoc]
  rw [charactersBetween, Nat.add_sub_cancel_left, hk, List.range'_1_concat, List.countP_append,
    inside, List.countP_singleton, last]
  rfl

/-- **Counting boundaries is counting characters.** -/
theorem charactersBetween_eq (a m b : String) :
    charactersBetween (a ++ (m ++ b)) a.utf8ByteSize (a.utf8ByteSize + m.utf8ByteSize) =
      m.length := by
  rw [← String.length_toList, ← String.ofList_toList (s := m), String.toList_ofList]
  induction m.toList generalizing a with
  | nil => simp [charactersBetween]
  | cons c cs ih =>
    -- behind the first character, its end is the place where the others start
    have later := ih (a ++ String.singleton c)
    rw [String.utf8ByteSize_append, String.utf8ByteSize_singleton, String.append_assoc] at later
    rw [String.ofList_cons, String.utf8ByteSize_append, String.utf8ByteSize_singleton,
      String.append_assoc, charactersBetween_add, charactersBetween_singleton, later,
      List.length_cons, Nat.add_comm]

end Columns

/-! ## Locations -/

section Location

/-- **Where an offset of a text is**: behind `earlier`, which ends with a line feed or is empty, and
behind `line`, which holds none. The file table finds the line by its start, and counts the
characters of `line`. -/
structure Located (t : FileTable) (id : Nat) (text : String) (o : Nat)
    (earlier line later : String) : Prop where
  /-- These make up the text. -/
  whole : text = earlier ++ line ++ later
  /-- The offset is in front of `later`. -/
  offset : (earlier ++ line).utf8ByteSize = o
  /-- The line of the offset starts at the beginning or behind a line feed. -/
  starts : earlier = "" ∨ ∃ before, earlier = before ++ "\n"
  /-- The offset is on the line that starts there. -/
  clean : '\n' ∉ line.toList
  /-- The number of the line is the number of line feeds before the offset. -/
  lineIndex : t.lineIndex id o = .ok (((Utf8.bytes text).take o).count lineFeed)
  /-- The range of the line starts behind `earlier`. -/
  lineRange : ∃ stop, t.lineRange id (((Utf8.bytes text).take o).count lineFeed) =
    .ok ⟨earlier.utf8ByteSize, stop⟩
  /-- The column is the number of characters between the start of the line and the offset, and line
  and column are counted from one. -/
  location : t.location id o =
    .ok (1 + ((Utf8.bytes text).take o).count lineFeed, 1 + line.length)

/-- A text, cut where the line of an offset starts and at the offset. -/
theorem exists_line (before : String) :
    ∃ earlier line, before = earlier ++ line ∧
      (earlier = "" ∨ ∃ e, earlier = e ++ "\n") ∧ '\n' ∉ line.toList ∧
      lineColumn before.toList = (1 + before.toList.count '\n', 1 + line.length) := by
  refine ⟨String.ofList (before.toList.rdropWhile (· != '\n')),
    String.ofList (before.toList.rtakeWhile (· != '\n')), ?_, ?_, ?_, ?_⟩
  · rw [← String.ofList_append, List.rdropWhile_append_rtakeWhile, String.ofList_toList]
  · rcases eq_or_ne (before.toList.rdropWhile (· != '\n')) [] with hnil | hne
    · left
      rw [hnil, String.ofList_nil]
    · right
      have hlast := List.rdropWhile_last_not (· != '\n') before.toList hne
      have hfeed : (before.toList.rdropWhile (· != '\n')).getLast hne = '\n' := by
        simpa using hlast
      refine ⟨String.ofList (before.toList.rdropWhile (· != '\n')).dropLast, ?_⟩
      rw [← String.toList_inj, String.toList_append, String.toList_ofList, String.toList_ofList]
      conv_lhs => rw [← List.dropLast_append_getLast hne, hfeed]
      rfl
  · rw [String.toList_ofList]
    intro hmem
    have := List.mem_rtakeWhile_imp hmem
    simp at this
  · rw [← String.length_toList, String.toList_ofList]
    rfl

theorem lines_eq_ofBytes
    (hlines : file.lines = .ofText file.text ∨ file.lines = (scan (Utf8.bytes file.text)).lines) :
    file.lines = .ofBytes (Utf8.bytes file.text) := by
  rcases hlines with h | h
  · rw [h, LineTable.ofText_eq]
  · rw [h, lines_scan]

/-- Line and location of an offset, from the line table of the file. -/
theorem location_of_lines {o i : Nat} {r : Span} (hfile : t.get id = .ok file)
    (hline : file.lines.lineOf o = .ok i) (hrange : file.lines.lineRange i = .ok r) :
    t.lineIndex id o = .ok i ∧ t.lineRange id i = .ok r ∧
      t.location id o = .ok (i + 1, charactersBetween file.text r.start
        (min o (min r.stop file.text.utf8ByteSize)) + 1) := by
  have hindex : t.lineIndex id o = .ok i := by
    rw [FileTable.lineIndex, hfile]
    simp only [bind, Except.bind, hline]
    rfl
  have hrange' : t.lineRange id i = .ok r := by
    rw [FileTable.lineRange, hfile]
    simp only [bind, Except.bind, hrange]
    rfl
  refine ⟨hindex, hrange', ?_⟩
  rw [FileTable.location, hfile]
  simp only [bind, Except.bind, hindex, hrange']
  rfl

variable {earlier line later : String}

theorem lineFeed_notMem_bytes (hclean : '\n' ∉ line.toList) : lineFeed ∉ Utf8.bytes line := by
  rw [← List.count_eq_zero, Utf8.count_lineFeed_bytes, List.count_eq_zero]
  exact hclean

/-- The line goes on behind the characters that are given of it, up to the next line feed. -/
theorem isLine_of_append (hstarts : earlier = "" ∨ ∃ before, earlier = before ++ "\n")
    (hclean : '\n' ∉ line.toList) (later : String) :
    IsLine (Utf8.bytes (earlier ++ line ++ later)) ((Utf8.bytes earlier).count lineFeed)
      (Utf8.bytes earlier) (Utf8.bytes line ++ (Utf8.bytes later).takeWhile (· != lineFeed))
      ((Utf8.bytes later).dropWhile (· != lineFeed)) := by
  have hpass : ∀ b ∈ Utf8.bytes line, (b != lineFeed) = true := by
    intro b hb
    simpa using ne_of_mem_of_not_mem hb (lineFeed_notMem_bytes hclean)
  rw [Utf8.bytes_append, Utf8.bytes_append, List.append_assoc,
    ← List.takeWhile_append_of_pos hpass, ← List.dropWhile_append_of_pos hpass]
  apply isLine_takeWhile
  rcases hstarts with rfl | ⟨before, rfl⟩
  · exact .inl rfl
  · exact .inr ⟨Utf8.bytes before, Utf8.bytes_append before "\n"⟩

/-- **The location behind a part of a line.** -/
theorem located_of_append (hfile : t.get id = .ok file)
    (hlines : file.lines = .ofBytes (Utf8.bytes file.text))
    (hwhole : file.text = earlier ++ line ++ later)
    (hstarts : earlier = "" ∨ ∃ before, earlier = before ++ "\n") (hclean : '\n' ∉ line.toList) :
    t.Located id file.text (earlier ++ line).utf8ByteSize earlier line later := by
  have hsize : (earlier ++ line).utf8ByteSize = earlier.utf8ByteSize + line.utf8ByteSize :=
    String.utf8ByteSize_append
  have hcount : ((Utf8.bytes file.text).take (earlier ++ line).utf8ByteSize).count lineFeed =
      (Utf8.bytes earlier).count lineFeed := by
    rw [hwhole, Utf8.bytes_append, ← Utf8.length_bytes, List.take_left, Utf8.bytes_append,
      List.count_append, List.count_eq_zero.mpr (lineFeed_notMem_bytes hclean), Nat.add_zero]
  have isLine := isLine_of_append hstarts hclean later
  rw [← hwhole] at isLine
  have hline : (LineTable.ofBytes (Utf8.bytes file.text)).lineOf (earlier ++ line).utf8ByteSize =
      .ok ((Utf8.bytes earlier).count lineFeed) := by
    apply isLine.lineOf_eq
    · rw [Utf8.length_bytes]
      omega
    · rw [List.length_append, Utf8.length_bytes, Utf8.length_bytes]
      omega
  have hrange := isLine.lineRange_eq
  rw [← hlines] at hline hrange
  obtain ⟨hindex, hrange', hlocation⟩ := location_of_lines hfile hline hrange
  -- the offset is neither behind its line nor behind the text
  have hstop : (earlier ++ line).utf8ByteSize ≤ (Utf8.bytes earlier).length +
      (Utf8.bytes line ++ (Utf8.bytes later).takeWhile (· != lineFeed)).length +
        (((Utf8.bytes later).dropWhile (· != lineFeed)).take 1).length := by
    rw [List.length_append, Utf8.length_bytes, Utf8.length_bytes]
    omega
  have hinside : (earlier ++ line).utf8ByteSize ≤ file.text.utf8ByteSize := by
    rw [hwhole, String.utf8ByteSize_append (t := later)]
    exact Nat.le_add_right _ _
  dsimp only at hlocation
  rw [Nat.min_eq_left (Nat.le_min.mpr ⟨hstop, hinside⟩), Utf8.length_bytes, hsize, hwhole,
    String.append_assoc, charactersBetween_eq] at hlocation
  rw [Utf8.length_bytes] at hrange'
  refine ⟨hwhole, rfl, hstarts, hclean, ?_, ?_, ?_⟩
  · rw [hcount, hindex]
  · rw [hcount]
    exact ⟨_, hrange'⟩
  · rw [hcount, hsize, hlocation, Nat.add_comm 1, Nat.add_comm 1]

/-- **The location behind the first characters of a text** is where these lead. -/
theorem exists_located {before : String} (hfile : t.get id = .ok file)
    (hlines : file.lines = .ofBytes (Utf8.bytes file.text)) (hwhole : file.text = before ++ later) :
    ∃ earlier line, t.Located id file.text before.utf8ByteSize earlier line later ∧
      t.location id before.utf8ByteSize = .ok (lineColumn before.toList) := by
  obtain ⟨earlier, line, rfl, hstarts, hclean, hplace⟩ := exists_line before
  have located := located_of_append hfile hlines hwhole hstarts hclean
  refine ⟨earlier, line, located, ?_⟩
  rw [located.location, hplace, hwhole, Utf8.bytes_append, ← Utf8.length_bytes, List.take_left,
    Utf8.count_lineFeed_bytes]

/-- **The locations of a text**, whose lines were found by searching it or by scanning it. The
location of an offset between two characters, or at an end of the text, is a line and a column, both
counted from one: the line by the line feeds in front of the offset, and the column by the
characters between the start of that line and the offset. So a later offset has a later location,
on a later line or in a later column, and no two offsets have the same. -/
theorem locations_of_text (hfile : t.get id = .ok file)
    (hlines : file.lines = .ofText file.text ∨ file.lines = (scan (Utf8.bytes file.text)).lines) :
    (∀ o ≤ file.text.utf8ByteSize, Utf8.isBoundary file.text o = true →
      ∃ earlier line later, t.Located id file.text o earlier line later) ∧
    (∀ o o', Utf8.isBoundary file.text o = true → Utf8.isBoundary file.text o' = true → o < o' →
      ∃ p p', t.location id o = .ok p ∧ t.location id o' = .ok p' ∧
        Prod.Lex (· < ·) (· < ·) p p') ∧
    ∀ o o', Utf8.isBoundary file.text o = true → Utf8.isBoundary file.text o' = true →
      t.location id o = t.location id o' → o = o' := by
  have hlines' := lines_eq_ofBytes hlines
  have increasing : ∀ o o', Utf8.isBoundary file.text o = true →
      Utf8.isBoundary file.text o' = true → o < o' →
      ∃ p p', t.location id o = .ok p ∧ t.location id o' = .ok p' ∧
        Prod.Lex (· < ·) (· < ·) p p' := by
    intro o o' ho ho' hlt
    obtain ⟨before, later, hwhole, rfl⟩ := Utf8.isBoundary_iff.mp ho
    obtain ⟨before', later', hwhole', rfl⟩ := Utf8.isBoundary_iff.mp ho'
    obtain ⟨-, -, -, hlocation⟩ := exists_located hfile hlines' hwhole
    obtain ⟨-, -, -, hlocation'⟩ := exists_located hfile hlines' hwhole'
    -- the later offset is behind some characters more
    obtain ⟨m, rfl, -⟩ := Utf8.exists_append_of_size_le (hwhole.symm.trans hwhole') hlt.le
    refine ⟨_, _, hlocation, hlocation', ?_⟩
    rw [String.toList_append]
    apply lineColumn_lt_append
    intro hnil
    have hempty : m = "" := by simpa using hnil
    rw [hempty, String.append_empty] at hlt
    exact Nat.lt_irrefl _ hlt
  refine ⟨?_, increasing, ?_⟩
  · intro o _ ho
    obtain ⟨before, later, hwhole, rfl⟩ := Utf8.isBoundary_iff.mp ho
    obtain ⟨earlier, line, located, -⟩ := exists_located hfile hlines' hwhole
    exact ⟨earlier, line, later, located⟩
  · -- of two different offsets one is later, and then so is its location
    have apart : ∀ o o', Utf8.isBoundary file.text o = true →
        Utf8.isBoundary file.text o' = true → o < o' → t.location id o ≠ t.location id o' := by
      intro o o' ho ho' hlt hsame
      obtain ⟨p, p', hp, hp', hlex⟩ := increasing o o' ho ho' hlt
      obtain rfl : p = p' := Except.ok.inj (hp.symm.trans (hsame.trans hp'))
      exact irrefl p hlex
    intro o o' ho ho' hsame
    rcases Nat.lt_trichotomy o o' with hlt | heq | hgt
    · exact absurd hsame (apart o o' ho ho' hlt)
    · exact heq
    · exact absurd hsame.symm (apart o' o ho' ho hgt)

/-- A text whose last line has characters of three bytes and of two: the offset behind the first of
them is behind the start of the line, and on it. -/
theorem locations_of_text_accented :
    let file : SourceFile := ⟨"main.lox", "a\n€é", .ofText "a\n€é"⟩
    let t := (empty.put file).2
    t.get 0 = .ok file ∧
    (∃ earlier line later, t.Located 0 file.text 5 earlier line later) ∧
    (∃ p p', t.location 0 2 = .ok p ∧ t.location 0 5 = .ok p' ∧ Prod.Lex (· < ·) (· < ·) p p') ∧
    (t.location 0 2 = t.location 0 5 → 2 = 5) := by
  intro file t
  have boundary : Utf8.isBoundary file.text 2 = true := by decide +kernel
  have boundary' : Utf8.isBoundary file.text 5 = true := by decide +kernel
  have hfile : t.get 0 = .ok file := rfl
  obtain ⟨located, increasing, injective⟩ := locations_of_text hfile (.inl rfl)
  exact ⟨hfile, located 5 (by decide +kernel) boundary', increasing 2 5 boundary boundary' (by omega),
    injective 2 5 boundary boundary'⟩

/-- The offset behind the first character of the second line. -/
example : (empty.put ⟨"main.lox", "a\n€é", .ofText "a\n€é"⟩).2.location 0 5 = .ok (2, 2) := by
  decide +kernel

end Location

end FileTable

end LoxLexer
