import LoxLexer.CommandLine

/-!
# The program

Connects sessions to the streams and the files of the process. Everything that is decided is
decided by `Command.parse` and by the steps of `Session`.
-/

open LoxLexer

/-- The complaint with a number of the system. -/
def numberedComplaint (code : UInt32) (details : String) : String :=
  let number := if code < 0x80000000 then code else 0 - code
  if number = 2 then PathError.notFound.message
  else if number = 20 then PathError.notADirectory.message
  else if number = 21 then PathError.isADirectory.message
  else if number = 36 then PathError.nameTooLong.message
  else details ++ " (os error " ++ toString number ++ ")"

/-- The complaint about a stream or a script that the system could not serve. -/
def systemComplaint : IO.Error → String
  | .noFileOrDirectory _ code details => numberedComplaint code details
  | .permissionDenied _ code details => numberedComplaint code details
  | .inappropriateType _ code details => numberedComplaint code details
  | .invalidArgument _ code details => numberedComplaint code details
  | e => toString e

/-- Writes what a session has written, and forgets it. -/
def release (s : Session) : IO Session := do
  let wrote := s.collect
  let out ← IO.getStdout
  let err ← IO.getStderr
  out.write ⟨wrote.1.1.toArray⟩
  out.flush
  err.write ⟨wrote.1.2.toArray⟩
  err.flush
  return wrote.2

/-- Reads up to the next line feed, or to the end of the input. -/
partial def readLine (line : Array UInt8) : IO (Array UInt8) := do
  let chunk ← (← IO.getStdin).read 1
  match chunk.toList with
  | [] => return line
  | b :: _ => if b == lineFeed then return line.push b else readLine (line.push b)

/-- Reads one line of the input. -/
def readOnce : IO Read := do
  try
    return .bytes (← readLine #[]).toList
  catch e => return .failure (systemComplaint e)

/-- The prompt on the streams of the process. -/
partial def promptLoop (s : Session) : IO Exit := do
  match s.ask with
  | (.error f, s) =>
    let done := s.fail f
    let _ ← release done.2
    return done.1
  | (.ok (), s) =>
    let s ← release s
    match s.enter (← readOnce) with
    | (some exit, s) =>
      let _ ← release s
      return exit
    | (none, s) => promptLoop (← release s)

/-- The program. -/
def main (arguments : List String) : IO UInt32 := do
  match Command.parse arguments with
  | .ok (.start o) =>
    let terminal ← (← IO.getStderr).isTty
    let exit ←
      match o.script with
      | none => promptLoop (Program.session o terminal [] ⟨fun _ => .error ""⟩)
      | some path =>
        let content ←
          try
            pure (Except.ok (← IO.FS.readBinFile path).toList)
          catch e => pure (Except.error (systemComplaint e))
        let done := (Program.session o terminal [] ⟨fun _ => content⟩).runFile path
        let _ ← release done.2
        pure done.1
    return exit.code.toUInt32
  | _ =>
    let o := Program.outcome arguments [] false ⟨fun _ => .error ""⟩
    (← IO.getStdout).write ⟨o.stdout.toArray⟩
    (← IO.getStderr).write ⟨o.stderr.toArray⟩
    return o.exit.code.toUInt32
