import Mathlib.Data.List.DropRight
import LoxLexer.Session
import LoxLexer.Proofs.Lines

/-!
# Stored files

A session keeps the sources that it reports on in its file table. In every session that can be
reached, the index of the table sends each name to the file of that name, so that a file which is
put can be found again. What is kept of a source is its decoded text with the lines of that text,
and all questions about a line of it are answered from the line of the source.

## Main definitions

* `withoutLineEnd bs`: `bs` without the line feeds and carriage returns at its end
* `FileTable.WellFormed t`: the index of `t` sends exactly the names of files to their numbers
* `FileTable.Keeps t id name source`: file `id` of `t` is what is kept of a source
* `Session.Reachable s`: what sessions come to, whatever happens to their streams and files

## Main results

* `trimLineEnd_eq`: what is trimmed off a line is its line end
* `withoutLineEnd_recoded`: decoding keeps line ends
* `FileTable.WellFormed.get_put`: a file that was put is found under its number
* `FileTable.Keeps.lineSpan_eq`, `FileTable.Keeps.lineIndex_eq`, `FileTable.Keeps.location_eq`: the
  answers about a line of a kept source
* `Session.Reachable.wellFormed`: the file table of a reachable session is well formed
-/

namespace LoxLexer

/-! ## Line ends -/

/-- A byte that a line can end with: a line feed or a carriage return. -/
def isBreakByte (b : UInt8) : Bool :=
  b == 0x0A || b == 0x0D

/-- **A line without its line end**: all such bytes at its end are dropped. -/
def withoutLineEnd (bs : List UInt8) : List UInt8 :=
  bs.rdropWhile isBreakByte

theorem trimLineEnd_eq (bs : List UInt8) : trimLineEnd bs = withoutLineEnd bs := rfl

theorem ascii_of_isBreakByte {b : UInt8} (h : isBreakByte b = true) : b.toNat < 0x80 := by
  rcases Bool.or_eq_true_iff.mp h with h | h
  · rw [eq_of_beq h]
    decide
  · rw [eq_of_beq h]
    decide

/-- **Decoding keeps line ends**: it does not matter whether they are cut off before or after. -/
theorem withoutLineEnd_recoded (bs : List UInt8) :
    withoutLineEnd (Utf8.recoded bs) = Utf8.recoded (withoutLineEnd bs) := by
  simp only [withoutLineEnd]
  induction bs using List.reverseRecOn with
  | nil => simp
  | append_singleton bs b ih =>
    by_cases hb : isBreakByte b = true
    · have ascii := ascii_of_isBreakByte hb
      rw [Utf8.recoded_append (.inr (.cons ascii)), Utf8.recoded_cons_of_ascii ascii,
        Utf8.recoded_nil, List.rdropWhile_concat_pos _ _ _ hb, List.rdropWhile_concat_pos _ _ _ hb,
        ih]
    · rw [List.rdropWhile_concat_neg _ _ _ hb, List.rdropWhile_eq_self_iff]
      intro hne hlast
      -- a line end that closes the decoded text closes the source too, but there stands `b`
      have hsource := Utf8.getLast?_of_recoded (ascii_of_isBreakByte hlast)
        (List.getLast?_eq_some_getLast hne)
      rw [List.getLast?_concat] at hsource
      exact hb (Option.some.inj hsource ▸ hlast)

theorem IsLine.withoutLineEnd_eq {bs before line after : List UInt8} {i : Nat}
    (h : IsLine bs i before line after) :
    withoutLineEnd (line ++ after.take 1) = withoutLineEnd line := by
  rcases h.ends with rfl | ⟨later, rfl⟩
  · rw [List.take_nil, List.append_nil]
  · exact List.rdropWhile_concat_pos isBreakByte line lineFeed rfl

theorem length_withoutLineEnd_le (bs : List UInt8) : (withoutLineEnd bs).length ≤ bs.length :=
  (List.rdropWhile_prefix isBreakByte bs).length_le

/-- A line falls into what is kept and its line end. -/
theorem exists_withoutLineEnd_append (bs : List UInt8) :
    ∃ ending, bs = withoutLineEnd bs ++ ending ∧ ∀ b ∈ ending, isBreakByte b = true :=
  ⟨bs.rtakeWhile isBreakByte, List.rdropWhile_append_rtakeWhile.symm,
    fun _ hb => List.mem_rtakeWhile_imp hb⟩

/-! ## File tables -/

namespace FileTable

variable {t : FileTable} {id : Nat} {file : SourceFile}

/-- **A well-formed file table**: its index sends exactly the names of files to their numbers. -/
def WellFormed (t : FileTable) : Prop :=
  ∀ name id, t.index.lookup name = some id ↔ t.files[id]?.map SourceFile.name = some name

theorem wellFormed_empty : WellFormed {} := by
  intro name id
  simp

/-- Putting a file keeps a table well formed. -/
theorem WellFormed.put (h : t.WellFormed) (file : SourceFile) : (t.put file).2.WellFormed := by
  unfold FileTable.put
  cases hlookup : t.index.lookup file.name with
  | some known =>
    -- the name stays where it is, so the names of all files are the same as before
    intro name id
    rw [h name id, Array.getElem?_setIfInBounds]
    split
    · rename_i heq
      subst heq
      obtain ⟨old, hold, hname⟩ := Option.map_eq_some_iff.mp ((h _ _).mp hlookup)
      obtain ⟨hlt, -⟩ := Array.getElem?_eq_some_iff.mp hold
      rw [if_pos hlt, hold, Option.map_some, Option.map_some, hname]
    · rfl
  | none =>
    -- the name is new, and so is the number behind all others
    intro name id
    rw [List.lookup_cons, Array.getElem?_push]
    by_cases hname : name = file.name
    · subst hname
      have hnew : ∀ id : Nat, t.files[id]?.map SourceFile.name ≠ some file.name := by
        intro id hid
        rw [(h _ _).mpr hid] at hlookup
        cases hlookup
      by_cases hid : id = t.files.size
      · simp [hid]
      · simpa [hid, Ne.symm hid] using hnew id
    · have hne : (name == file.name) = false := by simpa using hname
      simp only [hne]
      rw [h name id]
      by_cases hid : id = t.files.size
      · simp [hid, Ne.symm hname]
      · simp [hid]

/-- **A file that was put is found** under the number that it was given. -/
theorem WellFormed.get_put (h : t.WellFormed) (file : SourceFile) :
    (t.put file).2.get (t.put file).1 = .ok file := by
  unfold FileTable.put
  cases hlookup : t.index.lookup file.name with
  | some known =>
    obtain ⟨old, hold, -⟩ := Option.map_eq_some_iff.mp ((h _ _).mp hlookup)
    obtain ⟨hlt, -⟩ := Array.getElem?_eq_some_iff.mp hold
    simp [get, hlt]
  | none => simp [get]

/-- File `id` is what is kept of a source: its decoded text, with the lines of that text. -/
def Keeps (t : FileTable) (id : Nat) (name : String) (source : List UInt8) : Prop :=
  t.get id = .ok ⟨name, Utf8.text source, .ofBytes (Utf8.recoded source)⟩

section Keeps

variable {name : String} {source before line after : List UInt8} {i : Nat}

theorem Keeps.lineRange_eq (h : t.Keeps id name source) (hline : IsLine source i before line after) :
    t.lineRange id i = .ok ⟨(Utf8.recoded before).length,
      (Utf8.recoded before).length + (Utf8.recoded line).length + (after.take 1).length⟩ := by
  rw [lineRange, h, ← hline.take_recoded]
  simp only [bind, Except.bind, hline.recoded.lineRange_eq]
  rfl

theorem Keeps.lineBytes_eq (h : t.Keeps id name source) (hline : IsLine source i before line after) :
    t.lineBytes id i = .ok (Utf8.recoded line ++ after.take 1) := by
  have ending : Utf8.recoded (line ++ after.take 1) = Utf8.recoded line ++ after.take 1 := by
    have detached := Utf8.Detached.append hline.ascii_take .nil
    rw [List.append_nil] at detached
    rw [Utf8.recoded_append (.inr detached), Utf8.recoded_of_ascii hline.ascii_take]
  have behind : Utf8.Separate (line ++ after.take 1) (after.drop 1) := by
    rcases hline.ends with rfl | ⟨later, rfl⟩
    · exact .inr .nil
    · refine .inl fun b hb => hline.ascii_take b ?_
      simpa [List.mem_singleton, eq_comm] using hb
  have whole : source = before ++ (line ++ after.take 1 ++ after.drop 1) := by
    rw [List.append_assoc, List.take_append_drop, hline.whole]
  have cut := Utf8.slice?_text whole (hline.separate_before _) behind
  rw [ending, List.length_append, ← Nat.add_assoc] at cut
  rw [lineBytes, h]
  simp only [bind, Except.bind, h.lineRange_eq hline, cut]
  rfl

/-- **The span of a line** is that of the line without its line end. -/
theorem Keeps.lineSpan_eq (h : t.Keeps id name source) (hline : IsLine source i before line after) :
    t.lineSpan id (i + 1) = .ok ⟨(Utf8.recoded before).length,
      (Utf8.recoded before).length + (Utf8.recoded (withoutLineEnd line)).length⟩ := by
  have trimmed : withoutLineEnd (Utf8.recoded line ++ after.take 1) =
      Utf8.recoded (withoutLineEnd line) := by
    rw [← hline.take_recoded, hline.recoded.withoutLineEnd_eq, withoutLineEnd_recoded]
  rw [lineSpan, Nat.add_sub_cancel, h.lineRange_eq hline, h.lineBytes_eq hline, ← trimmed]
  rfl

/-- **The line of an offset** on a line is that line. -/
theorem Keeps.lineIndex_eq (h : t.Keeps id name source) (hline : IsLine source i before line after)
    {offset : Nat} (hstart : (Utf8.recoded before).length ≤ offset)
    (hstop : offset ≤ (Utf8.recoded before).length + (Utf8.recoded line).length) :
    t.lineIndex id offset = .ok i := by
  rw [lineIndex, h]
  simp only [bind, Except.bind, hline.recoded.lineOf_eq hstart hstop]
  rfl

/-- **The location of the start of a line** is column one. -/
theorem Keeps.location_eq (h : t.Keeps id name source) (hline : IsLine source i before line after) :
    t.location id (Utf8.recoded before).length = .ok (i + 1, 1) := by
  have inside : (Utf8.recoded before).length ≤ (Utf8.text source).utf8ByteSize := by
    rw [← Utf8.length_bytes, ← Utf8.recoded, hline.recoded.whole, List.length_append]
    omega
  have hindex := h.lineIndex_eq hline (Nat.le_refl _) (by omega)
  -- the column counts the characters from the start of the line to itself
  rw [location, h]
  simp only [bind, Except.bind, hindex, h.lineRange_eq hline]
  rw [Nat.min_eq_left (by omega), charactersBetween, Nat.sub_self]
  rfl

/-- **The text at the span of a line** is the decoded line without its line end. -/
theorem slice?_line (hline : IsLine source i before line after) :
    Utf8.slice? (Utf8.text source) (Utf8.recoded before).length
        ((Utf8.recoded before).length + (Utf8.recoded (withoutLineEnd line)).length) =
      some (Utf8.recoded (withoutLineEnd line)) := by
  obtain ⟨ending, hending, hends⟩ := exists_withoutLineEnd_append line
  have whole : source = before ++ (withoutLineEnd line ++ (ending ++ after)) := by
    rw [← List.append_assoc (withoutLineEnd line), ← hending, hline.whole]
  have detached : Utf8.Detached (ending ++ after) :=
    .append (fun b hb => ascii_of_isBreakByte (hends b hb)) hline.detached_after
  exact Utf8.slice?_text whole (hline.separate_before _) (.inr detached)

end Keeps

end FileTable

/-! ## Sessions -/

namespace Session

variable {s : Session}

/-- The tokens of a source as they are written. -/
def dump (source : List UInt8) : List String :=
  (scan source).tokens.map fun t => t.display ++ "\n"

/-- A source with the number and the file table under which it is kept. -/
def keep (s : Session) (name : String) (source : List UInt8) : Nat × FileTable :=
  s.files.put (fileOf name source (scan source))

/-- What comes of the report of a source that is kept. -/
def reported (s : Session) (name : String) (source : List UInt8) : Except Failure Unit × Session :=
  { (s.emit (dump source)).2 with files := (s.keep name source).2 }.report
    (s.keep name source).1 (scan source).diagnostics

/-- **The courses of a run**: what it comes to, and when. -/
inductive Course (s : Session) (name : String) (source : List UInt8) : Exit × Session → Prop
  /-- The tokens cannot be written. -/
  | unwritten (f : Failure) (hf : (s.emit (dump source)).1 = .error f) :
    Course s name source ((s.emit (dump source)).2.fail f)
  /-- The source has no faults. -/
  | clean (hok : (s.emit (dump source)).1 = .ok ()) (herr : (scan source).hadError = false) :
    Course s name source (.ok, (s.emit (dump source)).2)
  /-- The faults are reported. -/
  | reported (hok : (s.emit (dump source)).1 = .ok ()) (herr : (scan source).hadError = true)
    (hreported : (s.reported name source).1 = .ok ()) :
    Course s name source (.dataError, (s.reported name source).2)
  /-- The faults cannot be reported. -/
  | unreported (f : Failure) (hok : (s.emit (dump source)).1 = .ok ())
    (herr : (scan source).hadError = true) (hf : (s.reported name source).1 = .error f) :
    Course s name source ((s.reported name source).2.fail f)

/-- Both ways to the lines of a source give those of the decoded text. -/
theorem fileOf_scan (name : String) (source : List UInt8) :
    fileOf name source (scan source) =
      ⟨name, Utf8.text source, .ofBytes (Utf8.recoded source)⟩ := by
  simp only [fileOf]
  split
  · rename_i same
    rw [lines_scan, Utf8.recoded, same]
  · rfl

/-! ### What a step does to the file table -/

@[simp] theorem files_emit (s : Session) (texts : List String) :
    (s.emit texts).2.files = s.files := by
  unfold emit
  split
  · rfl
  · split <;> rfl

theorem files_reportPlain (s : Session) (ds : List Diagnostic) :
    (s.reportPlain ds).2.files = s.files := by
  unfold reportPlain
  split <;> rfl

theorem files_reportRich (s : Session) (id : Nat) (ds : List Diagnostic) :
    (s.reportRich id ds).2.files = s.files := by
  induction ds generalizing s with
  | nil => rfl
  | cons d ds ih =>
    unfold reportRich
    split
    · rfl
    · split
      · rfl
      · exact ih _

@[simp] theorem files_report (s : Session) (id : Nat) (ds : List Diagnostic) :
    (s.report id ds).2.files = s.files := by
  unfold report
  split
  · exact files_reportPlain s ds
  · exact files_reportRich s id ds

@[simp] theorem files_reported (s : Session) (name : String) (source : List UInt8) :
    (s.reported name source).2.files = (s.keep name source).2 := by
  rw [reported, files_report]

@[simp] theorem files_fail (s : Session) (f : Failure) : (s.fail f).2.files = s.files := rfl

theorem showSource_eq (s : Session) (name : String) (source : List UInt8) :
    s.showSource name source =
      match (s.emit (dump source)).1 with
      | .error f => (.error f, (s.emit (dump source)).2)
      | .ok () =>
        if (scan source).hadError then
          ((s.reported name source).1.map fun _ => true, (s.reported name source).2)
        else (.ok false, (s.emit (dump source)).2) := by
  have same := s.files_emit (dump source)
  simp only [showSource, reported, keep]
  cases hemit : s.emit (dump source) with
  | mk result s' =>
    rw [hemit] at same
    rw [dump] at hemit
    cases result with
    | error f => simp only [hemit]
    | ok =>
      simp only [hemit, ← same]
      -- the report is made with the file table that the tokens were written with
      generalize report _ _ _ = done
      obtain ⟨_ | _, s''⟩ := done <;> rfl

/-- **Every run takes one of these courses.** -/
theorem course_run (s : Session) (name : String) (source : List UInt8) :
    Course s name source (s.run name source) := by
  rw [run, showSource_eq]
  cases hemit : (s.emit (dump source)).1 with
  | error f => exact .unwritten f hemit
  | ok =>
    cases herr : (scan source).hadError with
    | false => exact .clean hemit herr
    | true =>
      cases hreported : (s.reported name source).1 with
      | error f => exact .unreported f hemit herr hreported
      | ok => exact .reported hemit herr hreported

/-- **What a run keeps**: the source, if it has faults and its tokens are written and flushed. -/
theorem files_run (s : Session) (name : String) (source : List UInt8) :
    (s.run name source).2.files =
      if (s.emit (dump source)).1.isOk && (scan source).hadError then (s.keep name source).2
      else s.files := by
  have course := s.course_run name source
  generalize s.run name source = done at course ⊢
  cases course with
  | unwritten f hf => simp [hf, Except.isOk, Except.toBool]
  | clean hok herr => simp [herr]
  | reported hok herr _ => simp [hok, herr, Except.isOk, Except.toBool]
  | unreported f hok herr _ => simp [hok, herr, Except.isOk, Except.toBool]

section Invariant

variable {P : FileTable → Prop}
  (hkeep : ∀ (t : FileTable) (name : String) (source : List UInt8),
    P t → P (t.put (fileOf name source (scan source))).2)
include hkeep

theorem files_run_of (s : Session) (name : String) (source : List UInt8) (h : P s.files) :
    P (s.run name source).2.files := by
  rw [files_run]
  split
  · exact hkeep s.files name source h
  · exact h

theorem files_enter_of (s : Session) (r : Read) (h : P s.files) : P (s.enter r).2.files := by
  cases r with
  | failure complaint => exact h
  | bytes line =>
    have ran := files_run_of hkeep s promptName (trimLineEnd line) h
    simp only [enter]
    split
    · exact h
    · split
      · rename_i hrun
        rwa [hrun] at ran
      · rename_i hrun
        rwa [hrun] at ran

theorem files_promptFrom_of (s : Session) (reads : List Read) (h : P s.files) :
    P (s.promptFrom reads).2.files := by
  induction reads generalizing s with
  | nil =>
    have asked : P s.ask.2.files := by rwa [ask, files_emit]
    unfold promptFrom
    split
    · rename_i hask
      rwa [hask] at asked
    · rename_i hask
      rwa [hask] at asked
  | cons r rest ih =>
    have asked : P s.ask.2.files := by rwa [ask, files_emit]
    unfold promptFrom
    split
    · rename_i hask
      rwa [hask] at asked
    · rename_i s' hask
      rw [hask] at asked
      have entered := files_enter_of hkeep (s'.withInput rest) r asked
      split
      · rename_i henter
        rwa [henter] at entered
      · rename_i henter
        rw [henter] at entered
        exact ih _ entered

/-- **What holds of all file tables**: what holds of a file table, and still holds when a source is
kept, holds after every step. -/
theorem files_step_of (s : Session) (step : Step) (h : P s.files) : P (s.step step).2.files := by
  cases step with
  | run name source => exact files_run_of hkeep s name source h
  | runFile path =>
    change P (s.runFile path).2.files
    unfold runFile
    split
    · exact files_run_of hkeep s path _ h
    · exact h
  | prompt => exact files_promptFrom_of hkeep s s.console.input h

end Invariant

/-- **The sessions that can be reached** from one that knows no file, by steps of all kinds. Between
steps anything can happen to the streams and to the files that scripts are read from. -/
inductive Reachable : Session → Prop
  /-- A session starts without files. -/
  | start (style : Style) (console : Console) (store : FileStore) :
    Reachable { style, console, store }
  /-- A step is taken. -/
  | step {s : Session} (h : Reachable s) (step : Step) : Reachable (s.step step).2
  /-- The world around it changes. -/
  | world {s : Session} (h : Reachable s) (console : Console) (store : FileStore) :
    Reachable { s with console, store }

/-- **The file table of a reachable session is well formed.** -/
theorem Reachable.wellFormed (h : Reachable s) : s.files.WellFormed := by
  induction h with
  | start => exact FileTable.wellFormed_empty
  | step _ step ih => exact files_step_of (fun t name source ht => ht.put _) _ step ih
  | world _ _ _ ih => exact ih

/-- **What a reachable session keeps** of a source can be found. -/
theorem Reachable.keeps (h : Reachable s) (name : String) (source : List UInt8) :
    (s.keep name source).2.Keeps (s.keep name source).1 name source := by
  rw [FileTable.Keeps, keep, h.wellFormed.get_put, fileOf_scan]

end Session

end LoxLexer
