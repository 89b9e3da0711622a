import LoxLexer.Text.Utf8

/-!
# Consoles

The standard streams as values. A sink takes bytes as long as it has room; the first byte beyond
fails, either from then on or only once. A console is two sinks and the reads that are still to
come, each of which brings some bytes or fails.

## Main definitions

* `Sink`, `Sink.write`, `Sink.flush`: where output goes
* `Sink.written`: what a sink holds, in order
* `Sink.printAll`: several texts in a row, up to the first failure
* `Read`, `Console`, `Console.read`: both sinks, and the input

## Main results

* `Sink.written_take`: what is taken stands behind what was there before
* `Sink.write_of_room_none`: without a limit, everything is taken
-/

namespace LoxLexer

/-- **A stream for output.** -/
structure Sink where
  /-- The outputs taken so far, and not yet collected, the latest first. -/
  taken : List (List UInt8) := []
  /-- Nothing is kept of what is taken. -/
  discards : Bool := false
  /-- How many more bytes are taken; without a limit if there is none. -/
  room : Option Nat := none
  /-- The limit is gone after the first failure. -/
  recovers : Bool := false
  /-- What a failure says. -/
  complaint : String := ""
  /-- How many flushes there were. -/
  flushes : Nat := 0
  /-- Which flush fails, counted from zero. -/
  failingFlush : Option Nat := none
deriving Repr, Inhabited

namespace Sink

/-- The bytes taken so far, in order. -/
def written (s : Sink) : List UInt8 :=
  s.taken.reverse.flatten

/-- The sink that took some more bytes. -/
def take (s : Sink) (bs : List UInt8) : Sink :=
  if s.discards then s else { s with taken := bs :: s.taken }

theorem written_take {s : Sink} (h : s.discards = false) (bs : List UInt8) :
    (s.take bs).written = s.written ++ bs := by
  simp [take, written, h]

/-- **Writes to a sink.** It takes as many bytes as it has room for, and fails if that is not
all. -/
def write (s : Sink) (bs : List UInt8) : Except String Unit × Sink :=
  match s.room with
  | none => (.ok (), s.take bs)
  | some room =>
    if bs.length ≤ room then (.ok (), { s.take bs with room := some (room - bs.length) })
    else (.error s.complaint,
      { s.take (bs.take room) with room := if s.recovers then none else some 0 })

theorem write_of_room_none {s : Sink} (h : s.room = none) (bs : List UInt8) :
    s.write bs = (.ok (), s.take bs) := by
  simp [write, h]

/-- Writes a text. -/
def print (s : Sink) (text : String) : Except String Unit × Sink :=
  s.write (Utf8.bytes text)

/-- Writes several texts in a row, up to the first failure. -/
def printAll (s : Sink) : List String → Except String Unit × Sink
  | [] => (.ok (), s)
  | text :: texts =>
    match s.print text with
    | (.ok (), s) => s.printAll texts
    | (.error complaint, s) => (.error complaint, s)

/-- **Flushes a sink.** -/
def flush (s : Sink) : Except String Unit × Sink :=
  (if s.failingFlush = some s.flushes then .error s.complaint else .ok (),
    { s with flushes := s.flushes + 1 })

/-- The bytes written since the last collection, and the sink without them. -/
def collect (s : Sink) : List UInt8 × Sink :=
  (s.written, { s with taken := [] })

end Sink

/-- What one attempt to read brings. -/
inductive Read where
  /-- Some bytes; none at the end of the input. -/
  | bytes (bs : List UInt8)
  /-- A failure. -/
  | failure (complaint : String)
deriving DecidableEq, Repr, Inhabited

/-- **The standard streams.** -/
structure Console where
  /-- Where results go. -/
  stdout : Sink := {}
  /-- Where complaints go. -/
  stderr : Sink := {}
  /-- The reads that are still to come. -/
  input : List Read := []
  /-- Reports are coloured. -/
  coloured : Bool := false
deriving Repr, Inhabited

namespace Console

/-- A console without input that drops all output. -/
def silent : Console :=
  { stdout := { discards := true }, stderr := { discards := true } }

/-- A console whose input is read piece by piece. -/
def withInput (pieces : List (List UInt8)) : Console :=
  { input := pieces.map .bytes }

/-- Reads once. When nothing is left, a read brings no bytes. -/
def read (c : Console) : Read × Console :=
  match c.input with
  | [] => (.bytes [], c)
  | r :: rest => (r, { c with input := rest })

/-- Reads once behind the bytes that a buffer already holds: the number of bytes read and the
buffer, or the complaint. -/
def readInto (c : Console) (buffer : List UInt8) : Except String (Nat × List UInt8) × Console :=
  match c.read with
  | (.bytes bs, c) => (.ok (bs.length, buffer ++ bs), c)
  | (.failure complaint, c) => (.error complaint, c)

end Console

end LoxLexer
