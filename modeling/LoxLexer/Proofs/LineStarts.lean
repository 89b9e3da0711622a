import LoxLexer.Proofs.ReportLines

/-!
# Line starts

There are two ways to the lines of a source. A scan records where lines start while it passes the
segments, and the lines of a text are found by searching its characters. Both give the same line
table: a line starts at the beginning and behind each line feed, whether that separates tokens, ends
a comment or stands inside a string. So it does not matter which of the two a session keeps.

## Main definitions

* `LineTable.ofText text`: the lines of `text`, by its characters

## Main results

* `Segment.lineStarts_eq_range`: recorded line starts, by the positions of the line feeds
* `LineTable.ofText_eq`: the lines of a text are those of its bytes
* `scan_lineStarts`: both ways agree, and what a session keeps of a source
-/

namespace LoxLexer

/-! ## The positions of line feeds -/

/-- **Recorded line starts**: one behind each position that holds a line feed, in order. -/
theorem Segment.lineStarts_eq_range (offset : Nat) (bs : List UInt8) :
    lineStarts offset bs =
      ((List.range bs.length).filter fun i => bs[i]? == some lineFeed).map (offset + · + 1) := by
  induction bs generalizing offset with
  | nil => rfl
  | cons b bs ih =>
    -- the positions behind the first are those of the rest, shifted by one
    have later : ((List.range bs.length).map Nat.succ).filter
        (fun i => (b :: bs)[i]? == some lineFeed) =
          ((List.range bs.length).filter fun i => bs[i]? == some lineFeed).map Nat.succ := by
      rw [List.filter_map]
      rfl
    have shifted : ((List.range bs.length).filter fun i => bs[i]? == some lineFeed).map
        (offset + 1 + · + 1) =
          (((List.range bs.length).filter fun i => bs[i]? == some lineFeed).map Nat.succ).map
            (offset + · + 1) := by
      rw [List.map_map]
      refine List.map_congr_left fun i _ => ?_
      simp only [Function.comp_apply]
      omega
    rw [lineStarts, ih, shifted, List.length_cons, List.range_succ_eq_map, List.filter_cons, later]
    by_cases hb : b = lineFeed
    · simp [hb]
    · simp [hb]

/-! ## The characters of a text -/

namespace LineTable

/-- The offsets behind each line feed of characters, the first of which is at `offset`. -/
def charBreaks (offset : Nat) : List Char → List Nat
  | [] => []
  | c :: cs =>
    if c = '\n' then (offset + 1) :: charBreaks (offset + c.utf8Size) cs
    else charBreaks (offset + c.utf8Size) cs

/-- **The lines of a text**, found by searching its characters. -/
def ofText (text : String) : LineTable :=
  ⟨(0 :: charBreaks 0 text.toList).toArray, text.utf8ByteSize⟩

/-- Only the line feed is encoded with the byte of a line feed. -/
theorem lineFeed_notMem_utf8EncodeChar {c : Char} (hc : c ≠ '\n') :
    lineFeed ∉ String.utf8EncodeChar c := by
  have code : c.val.toNat ≠ 10 := by
    intro h
    exact hc (Char.ext (UInt32.toNat_inj.mp h))
  unfold String.utf8EncodeChar lineFeed
  dsimp only
  split_ifs <;> simp only [List.mem_cons, List.not_mem_nil, or_false, ← UInt8.toNat_inj,
    UInt8.toNat_ofNat', UInt8.reduceToNat] <;> omega

theorem charBreaks_eq (offset : Nat) (cs : List Char) :
    charBreaks offset cs = Segment.lineStarts offset (cs.flatMap String.utf8EncodeChar) := by
  induction cs generalizing offset with
  | nil => rfl
  | cons c cs ih =>
    rw [charBreaks, ih, List.flatMap_cons, Segment.lineStarts_append, String.length_utf8EncodeChar]
    by_cases hc : c = '\n'
    · rw [if_pos hc, hc]
      rfl
    · have none_inside : Segment.lineStarts offset (String.utf8EncodeChar c) = [] := by
        rw [← List.length_eq_zero_iff, Segment.length_lineStarts,
          List.count_eq_zero.mpr (lineFeed_notMem_utf8EncodeChar hc)]
      rw [if_neg hc, none_inside, List.nil_append]

/-- **The lines of a text are those of its bytes.** -/
theorem ofText_eq (text : String) : ofText text = ofBytes (Utf8.bytes text) := by
  have encoded : Utf8.bytes text = text.toList.flatMap String.utf8EncodeChar := by
    conv_lhs => rw [← String.ofList_toList (s := text)]
    exact Utf8.bytes_ofList _
  rw [ofText, charBreaks_eq, ← encoded, Segment.lineStarts_zero, ofBytes, Utf8.length_bytes]

end LineTable

/-! ## The lines of a scan -/

/-- What a scan has recorded at its end: the beginning, and behind each line feed. -/
theorem Cursor.starts_drain_start (source : List UInt8) :
    (Cursor.start source).drain.2.starts.reverse = 0 :: Segment.lineStarts 0 source := by
  simp [Cursor.drain_eq, Cursor.start]

/-- Of a source with faults, a session keeps the decoded text with the lines of its characters. -/
theorem Session.fileOf_eq_ofText (name : String) (source : List UInt8) :
    fileOf name source (scan source) =
      ⟨name, Utf8.text source, .ofText (Utf8.text source)⟩ := by
  rw [fileOf_scan, LineTable.ofText_eq, Utf8.recoded]

/-- **Both ways to the lines agree.** When a scan is complete, it has recorded the beginning and,
in increasing order, one start behind each position of the source that holds a line feed. These
make a line table, which is that of the scan. On the bytes of a text it is the one that a search of
its characters finds; and so a session that keeps a source, whether its bytes are those of the
decoded text or not, keeps it with the lines of the decoded text. -/
theorem scan_lineStarts (source : List UInt8) :
    let recorded := (Cursor.start source).drain.2.starts.reverse
    recorded = 0 ::
      ((List.range source.length).filter fun i => source[i]? == some lineFeed).map (· + 1) ∧
    recorded.Pairwise (· < ·) ∧
    LineTable.ofStarts? recorded.toArray source.length = some (scan source).lines ∧
    (∀ text : String, (scan (Utf8.bytes text)).lines = LineTable.ofText text) ∧
    ∀ (s : Session) (name : String),
      Session.fileOf name source (scan source) =
        ⟨name, Utf8.text source, .ofText (Utf8.text source)⟩ ∧
      (s.run name source).2.files =
        if (s.emit (Session.dump source)).1.isOk && (scan source).hadError then
          (s.files.put ⟨name, Utf8.text source, .ofText (Utf8.text source)⟩).2
        else s.files := by
  dsimp only
  rw [Cursor.starts_drain_start]
  refine ⟨?_, (LineTable.pairwise_lineStarts 0 source).1, ?_, ?_, ?_⟩
  · rw [Segment.lineStarts_eq_range]
    simp only [Nat.zero_add]
  · rw [lines_scan, ← FileTable.ofStarts?_ofBytes, Segment.lineStarts_zero]
    rfl
  · intro text
    rw [lines_scan, LineTable.ofText_eq]
  · intro s name
    refine ⟨Session.fileOf_eq_ofText name source, ?_⟩
    rw [Session.files_run, Session.keep, Session.fileOf_eq_ofText]

/-- Line feeds inside a string, behind a comment and inside a string that is never closed. -/
example : (scan [0x22, 0x0A, 0x22, 0x2F, 0x2F, 0x0A, 0x22, 0x0A]).lines.starts = #[0, 2, 6, 8] := by
  decide +kernel

end LoxLexer
