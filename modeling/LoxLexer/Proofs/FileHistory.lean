import Mathlib.Data.List.Nodup
import LoxLexer.Proofs.Dialogue
import LoxLexer.Proofs.LineStarts

/-!
# The history of a file table

The file table of a session is decided by the sources that were run before: each file is the last
source under its name that had faults and whose tokens were written and flushed. Nothing else leaves
a trace, neither sources without faults nor runs that failed on the standard output, and whatever
happens to the streams between two moves.

A prompt is taken apart into its turns, so that a history knows the table after each of them.

## Main definitions

* `FileTable.putAll t fs`: the table `t` with the files `fs` put into it one after the other
* `Sink.Delivers s bs`: the sink `s` takes `bs` completely, and can be flushed then
* `Session.Attempt`: a source that was run, with the standard output as the run found it
* `Session.Move`, `Session.after s m`: runs, scripts and turns of the prompt
* `Session.Idle s m`: the move `m` finds nothing to keep
* `Session.History s log`: moves in which the attempts `log` were made lead to `s`

## Main results

* `FileTable.mem_putAll`: the files of a table are the last ones put under their names
* `Session.files_after`: what a move does to the file table
* `Session.History.files_eq`: a file table is what was kept of the attempts
* `Session.History.stored_files`: what the file table of a session holds, and what changes it
-/

namespace LoxLexer

/-! ## Files put one after the other -/

namespace FileTable

variable {t : FileTable} {file : SourceFile} {fs : List SourceFile}

theorem WellFormed.lookup_name (h : t.WellFormed) {id : Nat} (hid : t.files[id]? = some file) :
    t.index.lookup file.name = some id := by
  rw [h, hid, Option.map_some]

/-- In a well-formed table, no two files have the same name. -/
theorem WellFormed.nodup_names (h : t.WellFormed) :
    (t.files.toList.map SourceFile.name).Nodup := by
  rw [List.nodup_iff_getElem?_ne_getElem?]
  intro i j hij hj heq
  rw [List.length_map, Array.length_toList] at hj
  have second : t.files[j]? = some t.files[j] := Array.getElem?_eq_getElem hj
  rw [List.getElem?_map, List.getElem?_map, Array.getElem?_toList, Array.getElem?_toList,
    second] at heq
  obtain ⟨file, first, hname⟩ := Option.map_eq_some_iff.mp heq
  -- the index sends the name that both have to both of their numbers
  have same := (h.lookup_name first).symm.trans (hname ▸ h.lookup_name second)
  exact Nat.ne_of_lt hij (Option.some.inj same)

/-- **The files of a table after a put**: the new one, and those with other names. -/
theorem WellFormed.mem_put (h : t.WellFormed) (new : SourceFile) :
    file ∈ (t.put new).2.files ↔ file = new ∨ file ∈ t.files ∧ file.name ≠ new.name := by
  unfold FileTable.put
  cases hlookup : t.index.lookup new.name with
  | some known =>
    -- the file that is replaced is the one that has the name
    obtain ⟨old, hold, hname⟩ := Option.map_eq_some_iff.mp ((h _ _).mp hlookup)
    obtain ⟨hlt, -⟩ := Array.getElem?_eq_some_iff.mp hold
    simp only [Array.mem_iff_getElem?, Array.getElem?_setIfInBounds]
    constructor
    · rintro ⟨id, hid⟩
      by_cases heq : known = id
      · rw [if_pos heq, if_pos (heq ▸ hlt)] at hid
        exact .inl (Option.some.inj hid).symm
      · rw [if_neg heq] at hid
        refine .inr ⟨⟨id, hid⟩, fun hsame => heq ?_⟩
        exact Option.some.inj (hlookup.symm.trans (hsame ▸ h.lookup_name hid))
    · rintro (rfl | ⟨⟨id, hid⟩, hne⟩)
      · exact ⟨known, by rw [if_pos rfl, if_pos hlt]⟩
      · refine ⟨id, ?_⟩
        rw [if_neg]
        · exact hid
        · rintro rfl
          rw [hold] at hid
          exact hne (Option.some.inj hid ▸ hname)
  | none =>
    have other : file ∈ t.files → file.name ≠ new.name := by
      intro hmem hname
      obtain ⟨id, hid⟩ := Array.mem_iff_getElem?.mp hmem
      rw [← hname, h.lookup_name hid] at hlookup
      cases hlookup
    rw [Array.mem_push]
    constructor
    · rintro (hmem | rfl)
      · exact .inr ⟨hmem, other hmem⟩
      · exact .inl rfl
    · rintro (rfl | ⟨hmem, -⟩)
      · exact .inr rfl
      · exact .inl hmem

/-- The table with files put into it one after the other. -/
def putAll (t : FileTable) (fs : List SourceFile) : FileTable :=
  fs.foldl (fun t file => (t.put file).2) t

theorem putAll_append (t : FileTable) (fs gs : List SourceFile) :
    t.putAll (fs ++ gs) = (t.putAll fs).putAll gs :=
  List.foldl_append

theorem putAll_concat (t : FileTable) (fs : List SourceFile) (file : SourceFile) :
    t.putAll (fs ++ [file]) = ((t.putAll fs).put file).2 :=
  t.putAll_append fs [file]

theorem WellFormed.putAll (h : t.WellFormed) (fs : List SourceFile) :
    (t.putAll fs).WellFormed := by
  induction fs using List.reverseRecOn with
  | nil => exact h
  | append_singleton fs file ih =>
    rw [putAll_concat]
    exact ih.put file

/-- **The files of a table** are the last ones that were put under their names. -/
theorem mem_putAll (fs : List SourceFile) :
    file ∈ (putAll {} fs).files ↔
      (fs.filter fun f => f.name = file.name).getLast? = some file := by
  induction fs using List.reverseRecOn with
  | nil => simp [putAll]
  | append_singleton fs new ih =>
    rw [putAll_concat, (wellFormed_empty.putAll fs).mem_put, ih, List.filter_append]
    by_cases hname : new.name = file.name
    · simp [hname, eq_comm]
    · have hne : file ≠ new := by
        rintro rfl
        exact hname rfl
      simp [hname, hne, Ne.symm hname]

end FileTable

/-! ## Complete output -/

namespace Sink

/-- A sink takes an output completely: there is room for it, and the flush behind it succeeds. -/
def Delivers (s : Sink) (bs : List UInt8) : Prop :=
  s.Fits bs ∧ s.failingFlush ≠ some s.flushes

instance (s : Sink) (bs : List UInt8) : Decidable (s.Fits bs) :=
  decidable_of_iff (∀ room ∈ s.room, bs.length ≤ room) Iff.rfl

instance (s : Sink) (bs : List UInt8) : Decidable (s.Delivers bs) :=
  inferInstanceAs (Decidable (_ ∧ _))

end Sink

namespace Session

open Sink (bytesOf)

variable {s : Session}

/-- **Output succeeds** if and only if the standard output takes it completely. -/
theorem isOk_emit_iff (s : Session) (texts : List String) :
    (s.emit texts).1.isOk = true ↔ s.console.stdout.Delivers (bytesOf texts) := by
  rcases s.console.stdout.fits_or_short (bytesOf texts) with hfits | ⟨room, hroom, hlt⟩
  · obtain ⟨sink, hemit, -⟩ := emit_of_fits hfits
    rw [hemit, Sink.Delivers, and_iff_right hfits]
    by_cases hflush : s.console.stdout.failingFlush = some s.console.stdout.flushes
    · simp [hflush, Except.isOk, Except.toBool]
    · simp [hflush, Except.isOk, Except.toBool]
  · obtain ⟨sink, hemit, -⟩ := emit_of_short hroom hlt
    have short : ¬ s.console.stdout.Fits (bytesOf texts) :=
      fun hfits => absurd (hfits room hroom) (Nat.not_le.mpr hlt)
    rw [hemit, Sink.Delivers]
    simp [short, Except.isOk, Except.toBool]

/-! ## Attempts -/

/-- **A source that was run**, with the standard output as the run found it. -/
structure Attempt where
  /-- The name it was run under. -/
  name : String
  /-- Its bytes. -/
  source : List UInt8
  /-- The standard output before the run. -/
  stdout : Sink
deriving Repr

namespace Attempt

/-- The source has faults, and its tokens were written and flushed. -/
def Kept (a : Attempt) : Prop :=
  a.stdout.Delivers (dumpBytes a.source) ∧ (scan a.source).hadError = true

instance (a : Attempt) : Decidable a.Kept :=
  inferInstanceAs (Decidable (_ ∧ _))

/-- What is kept of the source: its decoded text, with the lines of that text. -/
def file (a : Attempt) : SourceFile :=
  ⟨a.name, Utf8.text a.source, .ofText (Utf8.text a.source)⟩

end Attempt

/-- The attempt that a run of a source is. -/
def attempt (s : Session) (name : String) (source : List UInt8) : Attempt :=
  ⟨name, source, s.console.stdout⟩

/-- The files that are kept of attempts. -/
def keptFiles (log : List Attempt) : List SourceFile :=
  (log.filter fun a => a.Kept).map Attempt.file

theorem keptFiles_singleton (a : Attempt) :
    keptFiles [a] = if a.Kept then [a.file] else [] := by
  rw [keptFiles, List.filter_singleton]
  by_cases h : a.Kept
  · rw [if_pos h, decide_eq_true h]
    rfl
  · rw [if_neg h, decide_eq_false h]
    rfl

theorem keptFiles_append (log log' : List Attempt) :
    keptFiles (log ++ log') = keptFiles log ++ keptFiles log' := by
  rw [keptFiles, List.filter_append, List.map_append]
  rfl

/-- **What a run does to the file table**, as an attempt. -/
theorem files_run_attempt (s : Session) (name : String) (source : List UInt8) :
    (s.run name source).2.files = s.files.putAll (keptFiles [s.attempt name source]) := by
  have kept : (s.attempt name source).Kept ↔
      ((s.emit (dump source)).1.isOk && (scan source).hadError) = true := by
    rw [Bool.and_eq_true, isOk_emit_iff]
    rfl
  rw [files_run, keep, fileOf_eq_ofText, keptFiles_singleton]
  by_cases hkept : (s.attempt name source).Kept
  · rw [if_pos (kept.mp hkept), if_pos hkept]
    rfl
  · rw [if_neg (fun h => hkept (kept.mpr h)), if_neg hkept]
    rfl

/-! ## Moves -/

/-- **A move of a session**: a run, a script, or one turn of the prompt. -/
inductive Move where
  /-- Run a source under a name. -/
  | run (name : String) (source : List UInt8)
  /-- Run a script. -/
  | runFile (path : String)
  /-- Ask for a line, and run it. -/
  | turn
deriving DecidableEq, Repr

/-- The session after a move, whether it failed or not. -/
def after (s : Session) : Move → Session
  | .run name source => (s.run name source).2
  | .runFile path => (s.runFile path).2
  | .turn =>
    match s.turn with
    | .error done => done.2
    | .ok t => t

/-- The attempt that a move makes, if it comes to running a source. -/
def attempts (s : Session) : Move → List Attempt
  | .run name source => [s.attempt name source]
  | .runFile path =>
    match s.store.read path with
    | .ok source => [s.attempt path source]
    | .error _ => []
  | .turn =>
    match (s.emit ["> "]).1, s.console.read.1 with
    | .ok (), .bytes (b :: bs) => [s.asked.attempt "repl" (withoutLineEnd (b :: bs))]
    | _, _ => []

/-- **A move that finds nothing to keep**: it fails on the standard output, has nothing to run, or
what it runs has no faults. -/
inductive Idle : Session → Move → Prop
  /-- The tokens are not written and flushed completely. -/
  | unwritten {s : Session} {name : String} {source : List UInt8}
    (h : ¬ s.console.stdout.Delivers (dumpBytes source)) : Idle s (.run name source)
  /-- The source has no faults. -/
  | clean {s : Session} {name : String} {source : List UInt8}
    (h : (scan source).hadError = false) : Idle s (.run name source)
  /-- The script cannot be read. -/
  | unreadable {s : Session} {path complaint : String}
    (h : s.store.read path = .error complaint) : Idle s (.runFile path)
  /-- The script can be read, and there is nothing to keep of it. -/
  | script {s : Session} {path : String} {source : List UInt8}
    (hread : s.store.read path = .ok source) (h : Idle s (.run path source)) :
    Idle s (.runFile path)
  /-- The mark is not written and flushed completely. -/
  | unasked {s : Session} (h : ¬ s.console.stdout.Delivers (bytesOf ["> "])) :
    Idle s .turn
  /-- No line is read. -/
  | unread {s : Session} (h : ∀ line ≠ [], s.console.read.1 ≠ .bytes line) : Idle s .turn
  /-- A line is read, and there is nothing to keep of it. -/
  | line {s : Session} {line : List UInt8} (hread : s.console.read.1 = .bytes line)
    (h : Idle s.asked (.run "repl" (withoutLineEnd line))) : Idle s .turn

theorem files_asked (s : Session) : s.asked.files = s.files :=
  s.files_emit ["> "]

theorem files_after_turn (s : Session) :
    (s.after .turn).files = s.files.putAll (keptFiles (s.attempts .turn)) := by
  have course := s.turn_spec
  unfold after attempts
  generalize s.turn = result at course ⊢
  cases course with
  | unasked f hf =>
    rw [hf]
    exact s.files_emit ["> "]
  | unread complaint hok hread =>
    rw [hok, hread]
    exact s.files_asked
  | ended hok hread =>
    rw [hok, hread]
    exact s.files_asked
  | broken line hok hread hline _ =>
    obtain ⟨b, bs, rfl⟩ := List.exists_cons_of_ne_nil hline
    rw [hok, hread, ← s.files_asked]
    exact s.asked.files_run_attempt "repl" _
  | entered line hok hread hline _ =>
    obtain ⟨b, bs, rfl⟩ := List.exists_cons_of_ne_nil hline
    rw [hok, hread, ← s.files_asked]
    exact s.asked.files_run_attempt "repl" _

/-- **What a move does to the file table**: the source that it runs is put there, if it is kept. -/
theorem files_after (s : Session) (m : Move) :
    (s.after m).files = s.files.putAll (keptFiles (s.attempts m)) := by
  cases m with
  | run name source => exact s.files_run_attempt name source
  | runFile path =>
    dsimp only [after, attempts, runFile]
    cases s.store.read path with
    | ok source => exact s.files_run_attempt path source
    | error complaint => rfl
  | turn => exact s.files_after_turn

theorem keptFiles_eq_nil {a : Attempt} (h : ¬ a.Kept) : keptFiles [a] = [] := by
  rw [keptFiles_singleton, if_neg h]

theorem Idle.keptFiles_eq {m : Move} (h : Idle s m) : keptFiles (s.attempts m) = [] := by
  induction h with
  | unwritten h => exact keptFiles_eq_nil fun kept => h kept.1
  | clean h => exact keptFiles_eq_nil fun kept => Bool.false_ne_true (h.symm.trans kept.2)
  | unreadable h =>
    rw [attempts, h]
    rfl
  | script hread _ ih =>
    rw [attempts, hread]
    exact ih
  | @unasked s h =>
    have failed : (s.emit ["> "]).1.isOk ≠ true := fun hok => h ((s.isOk_emit_iff _).mp hok)
    rw [attempts]
    cases hask : (s.emit ["> "]).1 with
    | error f => rfl
    | ok =>
      rw [hask] at failed
      exact absurd rfl failed
  | unread h =>
    rw [attempts]
    split
    · rename_i hread
      exact absurd hread (h _ (List.cons_ne_nil _ _))
    · rfl
  | line hread _ ih =>
    rw [attempts]
    split
    · -- asking changes the standard output, and the line is run in the session that asked
      rename_i hread'
      obtain rfl := Read.bytes.inj (hread.symm.trans hread')
      exact ih
    · rfl

/-- **An idle move** leaves the file table as it was. -/
theorem Idle.files_eq {m : Move} (h : Idle s m) : (s.after m).files = s.files := by
  rw [files_after, h.keptFiles_eq]
  rfl

/-! ## Histories -/

/-- **Moves that lead to a session**, with the attempts that were made. Between moves anything can
happen to the streams and to the files that scripts are read from. -/
inductive History : Session → List Attempt → Prop
  /-- A session starts without files. -/
  | start (style : Style) (console : Console) (store : FileStore) :
    History { style, console, store } []
  /-- A move is made. -/
  | move {s : Session} {log : List Attempt} (h : History s log) (m : Move) :
    History (s.after m) (log ++ s.attempts m)
  /-- The world around the session changes. -/
  | world {s : Session} {log : List Attempt} (h : History s log) (console : Console)
    (store : FileStore) : History { s with console, store } log

variable {log : List Attempt}

/-- **A file table is what was kept of the attempts**, in their order. -/
theorem History.files_eq (h : History s log) :
    s.files = FileTable.putAll {} (keptFiles log) := by
  induction h with
  | start => rfl
  | move _ m ih => rw [files_after, ih, keptFiles_append, FileTable.putAll_append]
  | world _ _ _ ih => exact ih

/-- A prompt is a sequence of turns. -/
theorem History.prompt (h : History s log) : ∃ later, History s.prompt.2 (log ++ later) := by
  induction s using prompt_induction generalizing log with
  | last s hturn =>
    have last := h.move .turn
    rw [after, hturn] at last
    exact ⟨_, last⟩
  | next s t hturn ih =>
    have next := h.move .turn
    rw [after, hturn] at next
    obtain ⟨later, hlater⟩ := ih next
    rw [List.append_assoc, ← prompt_of_turn_ok hturn] at hlater
    exact ⟨_, hlater⟩

/-- Histories go on with whole steps. -/
theorem History.step (h : History s log) (step : Step) :
    ∃ later, History (s.step step).2 (log ++ later) := by
  cases step with
  | run name source => exact ⟨_, h.move (.run name source)⟩
  | runFile path => exact ⟨_, h.move (.runFile path)⟩
  | prompt => exact h.prompt

/-- The last of the files that are kept under a name is that of the last attempt. -/
theorem getLast?_keptFiles (log : List Attempt) (name : String) :
    ((keptFiles log).filter fun f => f.name = name).getLast? =
      (log.filter fun a => a.Kept ∧ a.name = name).getLast?.map Attempt.file := by
  have named : (fun f : SourceFile => decide (f.name = name)) ∘ Attempt.file =
      fun a => decide (a.name = name) := rfl
  rw [keptFiles, List.filter_map, List.getLast?_map, List.filter_filter, named]
  simp only [Bool.decide_and, Bool.and_comm]

/-- **What the file table of a session holds, and what changes it.** No two files have the same
name, and the index sends exactly the names of files to their numbers. A file is there if and only
if some attempt under its name was kept, that is, had faults and its tokens written and flushed
completely; then it is the decoded source of the last such attempt, with the lines of that text. A
move that fails on the standard output, has nothing to run, or runs a source without faults leaves
the table exactly as it was. Whole steps, a prompt among them, are sequences of moves. -/
theorem History.stored_files (h : History s log) :
    (s.files.files.toList.map SourceFile.name).Nodup ∧
    (∀ name id, s.files.index.lookup name = some id ↔
      s.files.files[id]?.map SourceFile.name = some name) ∧
    (∀ file, file ∈ s.files.files ↔
      ∃ a, (log.filter fun a => a.Kept ∧ a.name = file.name).getLast? = some a ∧
        file = ⟨a.name, Utf8.text a.source, .ofText (Utf8.text a.source)⟩) ∧
    (∀ m, Idle s m → (s.after m).files = s.files) ∧
    (∀ step, ∃ later, History (s.step step).2 (log ++ later)) := by
  have wellFormed : s.files.WellFormed := by
    rw [h.files_eq]
    exact FileTable.wellFormed_empty.putAll _
  refine ⟨wellFormed.nodup_names, wellFormed, ?_, fun m idle => idle.files_eq, h.step⟩
  intro file
  rw [h.files_eq, FileTable.mem_putAll, getLast?_keptFiles, Option.map_eq_some_iff]
  exact exists_congr fun a => and_congr_right fun _ => eq_comm

/-- A session that has run a source with a fault and one without under one name, then a faulty one
without room for its tokens, then a line of bytes that do not decode, and at last another one under
the first name. -/
def revised : Session :=
  let first : Session := { store := .sample }
  let full := { (first.after (.run "a" [0x40])).after (.run "a" [0x78]) with
    console := { stdout := { room := some 1 } }, store := .sample }
  let asking := { full.after (.run "a" [0x23]) with
    console := .withInput [[0xFF, lineFeed]], store := .sample }
  (asking.after .turn).after (.run "a" [0x23, lineFeed])

theorem stored_files_revised :
    (∃ log, History revised log ∧
      log.map (fun a => (a.name, a.source, decide a.Kept)) =
        [("a", [0x40], true), ("a", [0x78], false), ("a", [0x23], false),
          ("repl", [0xFF], true), ("a", [0x23, lineFeed], true)]) ∧
    (revised.files.files.toList.map fun f => (f.name, f.text, f.lines.starts)) =
      [("a", "#\n", #[0, 2]), ("repl", "\uFFFD", #[0])] ∧
    (revised.files.files.toList.map SourceFile.name).Nodup ∧
    revised.files.index.lookup "repl" = some 1 ∧
    (revised.after (.run "repl" [])).files = revised.files := by
  have history := (((((((History.start .rich {} .sample).move (.run "a" [0x40])).move
    (.run "a" [0x78])).world { stdout := { room := some 1 } } .sample).move
    (.run "a" [0x23])).world (.withInput [[0xFF, lineFeed]]) .sample).move .turn).move
    (.run "a" [0x23, lineFeed])
  obtain ⟨nodup, index, -, idle, -⟩ := history.stored_files
  refine ⟨⟨_, history, by decide +kernel⟩, by decide +kernel, nodup,
    (index "repl" 1).mpr (by decide +kernel), idle _ (.clean (by decide +kernel))⟩

end Session

end LoxLexer
