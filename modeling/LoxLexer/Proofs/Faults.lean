import LoxLexer.Proofs.ReportLines

/-!
# Faults of the streams

What a run does on streams that fail, in terms of what it does on streams that do not. Let it write
a dump of the tokens to the standard output there, and a report to the standard error. Wherever the
streams fail, each of them takes a beginning of its share, the report is not begun before the dump
is written and flushed, and one line about the failure is all that is written otherwise.

## Main definitions

* `Session.unfailing s`: the session `s` on new streams that never fail
* `Session.Ends done exit out err`: how a run ends, and what its streams hold then

## Main results

* `Session.run_of_short`, `Session.run_of_unflushed`, `Session.Reachable.run_of_unreported`,
  `Session.Reachable.run_of_fits`: how a run ends, by the stream that fails first
* `Session.Reachable.run_faults`: what a run does on failing streams
-/

namespace LoxLexer

namespace Session

open Sink (bytesOf)

variable {s : Session} {name : String} {source : List UInt8} {room : Nat}

/-- The session on new streams that never fail. -/
def unfailing (s : Session) : Session :=
  (s.withStdout {}).withStderr {}

/-- **How a run ends**, and what its streams hold then. -/
structure Ends (done : Exit × Session) (exit : Exit) (out err : List UInt8) : Prop where
  /-- How the run ends. -/
  exit_eq : done.1 = exit
  /-- What the standard output holds. -/
  stdout_eq : done.2.console.stdout.written = out
  /-- What the standard error holds. -/
  stderr_eq : done.2.console.stderr.written = err

/-- The bytes of a dump. -/
def dumpBytes (source : List UInt8) : List UInt8 :=
  bytesOf (dump source)

/-- The bytes of a report. -/
def reportBytes (s : Session) (name : String) (source : List UInt8) : List UInt8 :=
  bytesOf (s.reportOf name source)

theorem reportBytes_eq_nil (s : Session) (name : String)
    (herr : (scan source).hadError = false) : s.reportBytes name source = [] := by
  have none : (scan source).diagnostics = [] := by
    simpa [Scan.hadError] using herr
  rw [reportBytes, reportOf, none, reportTexts]
  cases s.style <;> rfl

/-- The line about a failure. -/
def failureLine (f : Failure) : List UInt8 :=
  Utf8.bytes (f.message ++ "\n")

/-- A run whose tokens cannot be written. -/
theorem ends_of_emit_error {f : Failure} {sink : Sink}
    (hemit : s.emit (dump source) = (.error f, s.withStdout sink)) :
    Ends (s.run name source) f.exit sink.written
      (s.console.stderr.take (s.console.stderr.clip (failureLine f))).written := by
  rw [run, showSource_eq, hemit]
  exact ⟨rfl, rfl, Sink.written_write _ _⟩

/-- The dump does not fit. -/
theorem run_of_short (hroom : s.console.stdout.room = some room)
    (hlt : room < (dumpBytes source).length) :
    Ends (s.run name source) .ioError
      (s.console.stdout.take ((dumpBytes source).take room)).written
      (s.console.stderr.take
        (s.console.stderr.clip (failureLine (.write s.console.stdout.complaint)))).written := by
  obtain ⟨sink, hemit, hwritten⟩ := emit_of_short hroom hlt
  rw [dumpBytes, ← hwritten]
  exact ends_of_emit_error hemit

/-- The dump fits, and cannot be flushed. -/
theorem run_of_unflushed (hfits : s.console.stdout.Fits (dumpBytes source))
    (hflush : s.console.stdout.failingFlush = some s.console.stdout.flushes) :
    Ends (s.run name source) .ioError (s.console.stdout.take (dumpBytes source)).written
      (s.console.stderr.take
        (s.console.stderr.clip (failureLine (.write s.console.stdout.complaint)))).written := by
  obtain ⟨sink, hemit, hwritten⟩ := emit_of_fits hfits
  rw [if_pos hflush] at hemit
  rw [dumpBytes, ← hwritten]
  exact ends_of_emit_error hemit

/-- The dump fits and is flushed, and the report does not fit. -/
theorem Reachable.run_of_unreported (h : Reachable s)
    (hfits : s.console.stdout.Fits (dumpBytes source))
    (hflush : s.console.stdout.failingFlush ≠ some s.console.stdout.flushes)
    (hroom : s.console.stderr.room = some room)
    (hlt : room < (s.reportBytes name source).length) :
    Ends (s.run name source) .ioError (s.console.stdout.take (dumpBytes source)).written
      (s.console.stderr.take ((s.reportBytes name source).take room ++
        if s.console.stderr.recovers then
          failureLine (reportFailure s.style s.console.stderr.complaint)
        else [])).written := by
  obtain ⟨sink, hemit, hwritten⟩ := emit_of_fits hfits
  rw [if_neg hflush] at hemit
  -- a report that runs out of room is not empty
  have herr : (scan source).hadError = true := by
    by_contra hclean
    rw [reportBytes_eq_nil s name (Bool.not_eq_true _ ▸ hclean)] at hlt
    exact absurd hlt (Nat.not_lt_zero room)
  have hreported := h.reported_eq (congrArg Prod.snd hemit) name
  obtain ⟨hresult, hsink⟩ := s.console.stderr.printAll_eq (s.reportOf name source)
  rw [← reportBytes, Sink.write_of_short hroom hlt] at hresult hsink
  rw [hresult] at hreported
  rw [run, showSource_eq, hemit, hreported, herr, dumpBytes, ← hwritten]
  refine ⟨?_, rfl, ?_⟩
  · cases s.style <;> rfl
  · -- the line about the failure goes to a sink that has just failed
    rw [← Sink.written_write_took]
    exact Sink.written_write_congr hsink _

/-- The dump fits and is flushed, and the report fits. -/
theorem Reachable.run_of_fits (h : Reachable s)
    (hfits : s.console.stdout.Fits (dumpBytes source))
    (hflush : s.console.stdout.failingFlush ≠ some s.console.stdout.flushes)
    (hreport : s.console.stderr.Fits (s.reportBytes name source)) :
    Ends (s.run name source) (if (scan source).hadError then .dataError else .ok)
      (s.console.stdout.take (dumpBytes source)).written
      (s.console.stderr.take (s.reportBytes name source)).written := by
  obtain ⟨sink, hemit, hwritten⟩ := emit_of_fits hfits
  rw [if_neg hflush] at hemit
  rw [run, showSource_eq, hemit, dumpBytes, ← hwritten]
  cases herr : (scan source).hadError with
  | false =>
    rw [reportBytes_eq_nil s name herr]
    exact ⟨rfl, rfl, (Sink.written_take_nil _).symm⟩
  | true =>
    have hreported := h.reported_eq (congrArg Prod.snd hemit) name
    obtain ⟨hresult, hsink⟩ := s.console.stderr.printAll_eq (s.reportOf name source)
    rw [← reportBytes, Sink.write_of_fits hreport] at hresult hsink
    rw [hresult] at hreported
    rw [hreported]
    refine ⟨rfl, rfl, ?_⟩
    exact (Sink.written_eq_of_joined hsink).trans (Sink.written_took _ _ _)

/-- On streams that never fail, a run writes its dump and its report. -/
theorem Reachable.run_unfailing (h : Reachable s) (name : String) (source : List UInt8) :
    Ends (s.unfailing.run name source) (if (scan source).hadError then .dataError else .ok)
      (dumpBytes source) (s.reportBytes name source) := by
  have reachable : Reachable s.unfailing :=
    h.world { s.console with stdout := {}, stderr := {} } s.store
  have fits : ∀ bs, Sink.Fits {} bs := by
    intro bs room hroom
    cases hroom
  have flushed : s.unfailing.console.stdout.failingFlush ≠
      some s.unfailing.console.stdout.flushes := by
    intro hflush
    cases hflush
  have ends := reachable.run_of_fits (fits (dumpBytes source)) flushed
    (fits (s.unfailing.reportBytes name source))
  exact {
    exit_eq := ends.exit_eq
    stdout_eq := ends.stdout_eq.trans (Sink.written_take rfl _)
    stderr_eq := ends.stderr_eq.trans (Sink.written_take rfl _) }

/-- **What a run does on failing streams.** Let `dumped` and `reported` be what it writes on streams
that never fail. If the standard output has no room for `dumped`, it takes a beginning; if it has,
it takes all, but its flush may fail; and only then the standard error takes `reported`, or a
beginning of it. A failure is told in one line on the standard error, as far as that takes it. -/
theorem Reachable.run_faults (h : Reachable s) (name : String) (source : List UInt8) :
    let dumped := (s.unfailing.run name source).2.console.stdout.written
    let reported := (s.unfailing.run name source).2.console.stderr.written
    let done := s.run name source
    let out := s.console.stdout
    let err := s.console.stderr
    dumped = (scan source).tokens.flatMap (fun t => Utf8.bytes (t.display ++ "\n")) ∧
    (∀ a, out.room = some a → a < dumped.length →
      Ends done .ioError (out.take (dumped.take a)).written
        (err.take (err.clip
          (Utf8.bytes ("Could not write output: " ++ out.complaint ++ "\n")))).written) ∧
    (out.Fits dumped → out.failingFlush = some out.flushes →
      Ends done .ioError (out.take dumped).written
        (err.take (err.clip
          (Utf8.bytes ("Could not write output: " ++ out.complaint ++ "\n")))).written) ∧
    (out.Fits dumped → out.failingFlush ≠ some out.flushes →
      ∀ b, err.room = some b → b < reported.length →
        Ends done .ioError (out.take dumped).written
          (err.take (reported.take b ++
            if err.recovers then
              Utf8.bytes ((match s.style with
                | .plain => "Could not write output: "
                | .rich => "Could not render diagnostic: ") ++ err.complaint ++ "\n")
            else [])).written) ∧
    (out.Fits dumped → out.failingFlush ≠ some out.flushes → err.Fits reported →
      Ends done (if (scan source).hadError then .dataError else .ok) (out.take dumped).written
        (err.take reported).written) := by
  obtain ⟨-, hdumped, hreported⟩ := h.run_unfailing name source
  dsimp only
  rw [hdumped, hreported]
  refine ⟨?_, ?_, run_of_unflushed, ?_, h.run_of_fits⟩
  · rw [dumpBytes, bytesOf, dump, List.flatMap_map]
  · intro a hroom hlt
    exact run_of_short hroom hlt
  · intro hfits hflush b hroom hlt
    have ends := h.run_of_unreported hfits hflush hroom hlt
    cases hstyle : s.style with
    | plain =>
      rw [hstyle] at ends
      exact ends
    | rich =>
      rw [hstyle] at ends
      exact ends

/-- A session whose standard error has room for seven bytes until it recovers. -/
def crowded : Session :=
  { reporting with
    console := { stderr := { room := some 7, recovers := true, complaint := "disk full" } } }

theorem run_faults_crowded :
    (crowded.run "main.lox" [0x23]).1 = .ioError ∧
      (crowded.run "main.lox" [0x23]).2.console.stderr.written =
        Utf8.bytes "error: Could not render diagnostic: disk full\n" := by
  have reachable : Reachable crowded := reachable_reporting.world _ _
  obtain ⟨-, -, -, unreported, -⟩ := reachable.run_faults "main.lox" [0x23]
  have ends := unreported (fun room hroom => by cases hroom) (fun hflush => by cases hflush) 7 rfl
    (by decide +kernel)
  exact ⟨ends.exit_eq, ends.stderr_eq.trans (by decide +kernel)⟩

end Session

end LoxLexer
