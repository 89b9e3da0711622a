import LoxLexer.Console
import LoxLexer.FileStore
import LoxLexer.Report
import LoxLexer.Scan

/-!
# Sessions

A session reads sources and shows what is in them: every token on the standard output, one line
each, then a report of every diagnostic on the standard error. A source with diagnostics is kept
in the file table once its tokens are written and flushed. What goes wrong with a stream or a
script ends the step with a line about it on the standard error, which may fail in turn without
further consequences.

The prompt runs the lines that a user enters, each on its own. Diagnostics do not end it; it ends
with the input, or when a stream fails.

## Main definitions

* `Exit`: how a step ends, with its code
* `Failure`: what can go wrong with streams and scripts
* `Session.run`: shows one source
* `Session.runFile`: reads a script and shows it
* `Session.prompt`: shows the lines of the input one by one
* `Session.Step`, `Session.perform`: a step with what it wrote
-/

namespace LoxLexer

/-- How a step, or the whole program, ends. -/
inductive Exit where
  /-- All went well. -/
  | ok
  /-- The command line was wrong. -/
  | usage
  /-- A source had lexical faults. -/
  | dataError
  /-- A script could not be read. -/
  | noInput
  /-- A stream failed. -/
  | ioError
deriving DecidableEq, Repr, Inhabited

/-- The exit code for each ending. -/
def Exit.code : Exit → Nat
  | ok => 0
  | usage => 64
  | dataError => 65
  | noInput => 66
  | ioError => 74

/-- Why a report could not be shown. -/
inductive RenderError where
  /-- The file table had no answer. -/
  | lookup (error : LookupError)
  /-- The stream failed. -/
  | stream (complaint : String)
deriving DecidableEq, Repr, Inhabited

/-- What a user is told about a report that could not be shown. -/
def RenderError.message : RenderError → String
  | lookup error => error.message
  | stream complaint => complaint

/-- **What can go wrong** with streams and scripts. -/
inductive Failure where
  /-- A script cannot be read. -/
  | read (path complaint : String)
  /-- The output cannot be written, or the input not be read. -/
  | write (complaint : String)
  /-- A report cannot be shown. -/
  | render (error : RenderError)
deriving DecidableEq, Repr, Inhabited

namespace Failure

/-- The complaint behind a failure. -/
def cause : Failure → String
  | read _ complaint => complaint
  | write complaint => complaint
  | render error => error.message

/-- What a user is told about a failure. -/
def message : Failure → String
  | read path complaint => "Could not read " ++ path ++ ": " ++ complaint
  | write complaint => "Could not write output: " ++ complaint
  | render error => "Could not render diagnostic: " ++ error.message

/-- How a step with this failure ends. -/
def exit : Failure → Exit
  | read _ _ => .noInput
  | write _ => .ioError
  | render _ => .ioError

end Failure

/-- **A session**: how it reports, the sources it knows, and what it is connected to. -/
structure Session where
  /-- How diagnostics are shown. -/
  style : Style := .rich
  /-- The sources that were reported on. -/
  files : FileTable := {}
  /-- The standard streams. -/
  console : Console := {}
  /-- Where scripts are read from. -/
  store : FileStore

namespace Session

/-- The session with another state of the standard output. -/
def withStdout (s : Session) (sink : Sink) : Session :=
  { s with console := { s.console with stdout := sink } }

/-- The session with another state of the standard error. -/
def withStderr (s : Session) (sink : Sink) : Session :=
  { s with console := { s.console with stderr := sink } }

/-- **Gives up a step**: tells the user why, as far as that is possible. -/
def fail (s : Session) (f : Failure) : Exit × Session :=
  (f.exit, s.withStderr (s.console.stderr.print (f.message ++ "\n")).2)

/-- Writes texts to the standard output and flushes it. -/
def emit (s : Session) (texts : List String) : Except Failure Unit × Session :=
  match s.console.stdout.printAll texts with
  | (.error complaint, sink) => (.error (.write complaint), s.withStdout sink)
  | (.ok (), sink) =>
    match sink.flush with
    | (.error complaint, sink) => (.error (.write complaint), s.withStdout sink)
    | (.ok (), sink) => (.ok (), s.withStdout sink)

/-- Writes one line for each diagnostic to the standard error. -/
def reportPlain (s : Session) (ds : List Diagnostic) : Except Failure Unit × Session :=
  match s.console.stderr.printAll (ds.map fun d => d.display ++ "\n") with
  | (.error complaint, sink) => (.error (.write complaint), s.withStderr sink)
  | (.ok (), sink) => (.ok (), s.withStderr sink)

/-- Writes a block for each diagnostic about a known file to the standard error. -/
def reportRich (s : Session) (id : Nat) : List Diagnostic → Except Failure Unit × Session
  | [] => (.ok (), s)
  | d :: ds =>
    match d.block s.files id with
    | .error error => (.error (.render (.lookup error)), s)
    | .ok pieces =>
      match s.console.stderr.printAll (pieces.map (Piece.render s.console.coloured)) with
      | (.error complaint, sink) =>
        (.error (.render (.stream complaint)), s.withStderr sink)
      | (.ok (), sink) => (s.withStderr sink).reportRich id ds

/-- Reports diagnostics about a known file in the style of the session. -/
def report (s : Session) (id : Nat) (ds : List Diagnostic) : Except Failure Unit × Session :=
  match s.style with
  | .plain => s.reportPlain ds
  | .rich => s.reportRich id ds

/-- A source as it is kept: decoded, with the lines of the decoded text. A source that decodes to
itself keeps the lines of its scan. -/
def fileOf (name : String) (source : List UInt8) (result : Scan) : SourceFile :=
  let text := Utf8.text source
  let bytes := Utf8.bytes text
  ⟨name, text, if bytes = source then result.lines else .ofBytes bytes⟩

/-- Shows a source: its tokens, and a report if it has faults. The answer is whether it has. -/
def showSource (s : Session) (name : String) (source : List UInt8) :
    Except Failure Bool × Session :=
  let result := scan source
  match s.emit (result.tokens.map fun t => t.display ++ "\n") with
  | (.error f, s) => (.error f, s)
  | (.ok (), s) =>
    if result.hadError then
      let stored := s.files.put (fileOf name source result)
      match { s with files := stored.2 }.report stored.1 result.diagnostics with
      | (.error f, s) => (.error f, s)
      | (.ok (), s) => (.ok true, s)
    else (.ok false, s)

/-- **Runs a source** under a name. -/
def run (s : Session) (name : String) (source : List UInt8) : Exit × Session :=
  match s.showSource name source with
  | (.ok false, s) => (.ok, s)
  | (.ok true, s) => (.dataError, s)
  | (.error f, s) => s.fail f

/-- **Runs a script**, read from its path. -/
def runFile (s : Session) (path : String) : Exit × Session :=
  match s.store.read path with
  | .ok source => s.run path source
  | .error complaint => s.fail (.read path complaint)

/-- The name that entered lines are reported under. -/
def promptName : String := "repl"

/-- What asks a user for a line. -/
def promptMark : String := "> "

/-- Asks a user for a line. -/
def ask (s : Session) : Except Failure Unit × Session :=
  s.emit [promptMark]

/-- What becomes of one read at the prompt: its line is run without the line break. The prompt
ends with a read that brings no bytes and when a stream fails; otherwise it goes on. -/
def enter (s : Session) : Read → Option Exit × Session
  | .failure complaint =>
    let done := s.fail (.write complaint)
    (some done.1, done.2)
  | .bytes line =>
    if line.isEmpty then (some .ok, s)
    else
      match s.run promptName (trimLineEnd line) with
      | (.ioError, s) => (some .ioError, s)
      | (_, s) => (none, s)

/-- The session with other reads to come. -/
def withInput (s : Session) (reads : List Read) : Session :=
  { s with console := { s.console with input := reads } }

/-- The prompt over the reads that are still to come: asks, reads, and enters what was read. -/
def promptFrom (s : Session) : List Read → Exit × Session
  | [] =>
    match s.ask with
    | (.error f, s) => s.fail f
    | (.ok (), s) => (.ok, s)
  | r :: rest =>
    match s.ask with
    | (.error f, s) => s.fail f
    | (.ok (), s) =>
      match (s.withInput rest).enter r with
      | (some exit, s) => (exit, s)
      | (none, s) => s.promptFrom rest

/-- **Runs the input** line by line. -/
def prompt (s : Session) : Exit × Session :=
  s.promptFrom s.console.input

end Session

/-- What a session can be asked to do. -/
inductive Session.Step where
  /-- Run a source under a name. -/
  | run (name : String) (source : List UInt8)
  /-- Run a script. -/
  | runFile (path : String)
  /-- Run the input line by line. -/
  | prompt
deriving DecidableEq, Repr, Inhabited

/-- What came of a step: how it ended, and what it wrote. -/
structure Outcome where
  /-- How the step ended. -/
  exit : Exit
  /-- What it wrote to the standard output. -/
  stdout : List UInt8
  /-- What it wrote to the standard error. -/
  stderr : List UInt8
deriving DecidableEq, Repr, Inhabited

namespace Session

/-- Takes a step. -/
def step (s : Session) : Step → Exit × Session
  | .run name source => s.run name source
  | .runFile path => s.runFile path
  | .prompt => s.prompt

/-- Empties both sinks of what was written. -/
def collect (s : Session) : (List UInt8 × List UInt8) × Session :=
  let out := s.console.stdout.collect
  let err := s.console.stderr.collect
  ((out.1, err.1), (s.withStdout out.2).withStderr err.2)

/-- **Takes a step** and collects what it wrote. -/
def perform (s : Session) (step : Step) : Outcome × Session :=
  let done := s.step step
  let wrote := done.2.collect
  (⟨done.1, wrote.1.1, wrote.1.2⟩, wrote.2)

/-- The outcomes of a sequence of steps; a failed step does not keep the next from being taken. -/
def performAll (s : Session) : List Step → List Outcome
  | [] => []
  | step :: steps =>
    let done := s.perform step
    done.1 :: done.2.performAll steps

end Session

end LoxLexer
