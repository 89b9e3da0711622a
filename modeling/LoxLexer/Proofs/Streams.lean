import LoxLexer.Session

/-!
# Output streams

A sink does not care how its output is cut into pieces: printing texts one after the other takes
the same bytes, and fails in the same way, as writing all of them at once. So what a session writes
to a stream, tokens or reports, is one byte string, of which the stream takes all or a beginning.

## Main definitions

* `Sink.joined s`: the sink `s`, with all that it took in one piece
* `Sink.Fits s bs`: the sink `s` has room for `bs`
* `Session.reportTexts s id ds`: the texts that a report of diagnostics consists of

## Main results

* `Sink.printAll_eq`: printing texts is writing their bytes
* `Session.emit_of_fits`, `Session.emit_of_short`: what comes of output to the standard output
* `Session.report_eq`: a report prints its texts to the standard error
-/

namespace LoxLexer

namespace Sink

variable {s t : Sink} {xs ys bs : List UInt8} {room : Nat}

/-- The sink with all that it took in one piece. -/
def joined (s : Sink) : Sink :=
  { s with taken := [s.written] }

@[simp] theorem written_joined (s : Sink) : s.joined.written = s.written := by
  simp [joined, written]

@[simp] theorem room_joined (s : Sink) : s.joined.room = s.room := rfl

@[simp] theorem discards_joined (s : Sink) : s.joined.discards = s.discards := rfl

@[simp] theorem complaint_joined (s : Sink) : s.joined.complaint = s.complaint := rfl

@[simp] theorem flushes_joined (s : Sink) : s.joined.flushes = s.flushes := rfl

@[simp] theorem failingFlush_joined (s : Sink) : s.joined.failingFlush = s.failingFlush := rfl

theorem written_eq_of_joined (h : s.joined = t.joined) : s.written = t.written := by
  rw [← written_joined s, h, written_joined]

/-- The sink that took some more bytes and has some room left. -/
def took (s : Sink) (bs : List UInt8) (room : Option Nat) : Sink :=
  { s.take bs with room }

section Took

variable (s : Sink) (bs : List UInt8) (room : Option Nat)

@[simp] theorem room_took : (s.took bs room).room = room := rfl

@[simp] theorem recovers_took : (s.took bs room).recovers = s.recovers := by
  simp only [took, take]
  split <;> rfl

@[simp] theorem complaint_took : (s.took bs room).complaint = s.complaint := by
  simp only [took, take]
  split <;> rfl

@[simp] theorem flushes_took : (s.took bs room).flushes = s.flushes := by
  simp only [took, take]
  split <;> rfl

@[simp] theorem failingFlush_took : (s.took bs room).failingFlush = s.failingFlush := by
  simp only [took, take]
  split <;> rfl

theorem written_took : (s.took bs room).written = (s.take bs).written := rfl

theorem take_eq_took : s.take bs = s.took bs s.room := by
  simp only [took, take]
  split <;> rfl

/-- What a sink takes in two pieces, it could take in one. -/
theorem joined_took_took (xs ys : List UInt8) (room' : Option Nat) :
    ((s.took xs room).took ys room').joined = (s.took (xs ++ ys) room').joined := by
  cases h : s.discards <;> simp [took, take, joined, written, h]

theorem written_take_nil : (s.take []).written = s.written := by
  cases h : s.discards <;> simp [take, written, h]

theorem joined_took_nil : (s.took [] s.room).joined = s.joined := by
  cases h : s.discards <;> simp [took, take, joined, written, h]

end Took

/-- A sink has room for an output. -/
def Fits (s : Sink) (bs : List UInt8) : Prop :=
  ∀ room, s.room = some room → bs.length ≤ room

theorem fits_or_short (s : Sink) (bs : List UInt8) :
    s.Fits bs ∨ ∃ room, s.room = some room ∧ room < bs.length := by
  cases hroom : s.room with
  | none => exact .inl fun room h => by rw [hroom] at h; cases h
  | some room =>
    rcases Nat.lt_or_ge room bs.length with hlt | hge
    · exact .inr ⟨room, rfl, hlt⟩
    · refine .inl fun room' h => ?_
      rw [hroom] at h
      exact Option.some.inj h ▸ hge

/-- An output that fits is taken. -/
theorem write_of_fits (h : s.Fits bs) :
    s.write bs = (.ok (), s.took bs (s.room.map (· - bs.length))) := by
  cases hroom : s.room with
  | none => rw [write_of_room_none hroom, take_eq_took, hroom, Option.map_none]
  | some room =>
    rw [write, hroom]
    exact if_pos (h room hroom)

/-- The room that is left after a failure. -/
def roomAfterFailure (s : Sink) : Option Nat :=
  if s.recovers then none else some 0

/-- Of an output that does not fit, a beginning is taken. -/
theorem write_of_short (hroom : s.room = some room) (hlt : room < bs.length) :
    s.write bs = (.error s.complaint, s.took (bs.take room) s.roomAfterFailure) := by
  rw [write, hroom]
  exact if_neg (Nat.not_le.mpr hlt)

/-- **What follows an output that fits** is taken as if both were one. -/
theorem write_append (h : s.Fits xs) (ys : List UInt8) :
    ((s.write xs).2.write ys).1 = (s.write (xs ++ ys)).1 ∧
      ((s.write xs).2.write ys).2.joined = (s.write (xs ++ ys)).2.joined := by
  rw [write_of_fits h]
  rcases fits_or_short s (xs ++ ys) with hfits | ⟨room, hroom, hlt⟩
  · -- both fit, and the room shrinks by both lengths
    have hys : (s.took xs (s.room.map (· - xs.length))).Fits ys := by
      intro room hroom
      obtain ⟨room', hroom', rfl⟩ := Option.map_eq_some_iff.mp hroom
      have := hfits room' hroom'
      rw [List.length_append] at this
      omega
    have left : (s.room.map (· - xs.length)).map (· - ys.length) =
        s.room.map (· - (xs ++ ys).length) := by
      cases s.room with
      | none => rfl
      | some room => simp [Nat.sub_sub]
    rw [write_of_fits hys, write_of_fits hfits, ← left]
    exact ⟨rfl, joined_took_took s _ xs ys _⟩
  · -- the room ends inside the second output, which is cut where the whole is cut
    have hle := h room hroom
    have hroom' : (s.took xs (s.room.map (· - xs.length))).room = some (room - xs.length) := by
      rw [room_took, hroom, Option.map_some]
    have hlt' : room - xs.length < ys.length := by
      rw [List.length_append] at hlt
      omega
    have begun : (xs ++ ys).take room = xs ++ ys.take (room - xs.length) := by
      rw [List.take_append, List.take_of_length_le hle]
    rw [write_of_short hroom' hlt', write_of_short hroom hlt, begun, roomAfterFailure,
      roomAfterFailure, recovers_took, complaint_took]
    exact ⟨rfl, joined_took_took s _ xs _ _⟩

/-- The bytes of several texts in a row. -/
def bytesOf (texts : List String) : List UInt8 :=
  texts.flatMap Utf8.bytes

/-- **Printing texts is writing their bytes.** -/
theorem printAll_eq (s : Sink) (texts : List String) :
    (s.printAll texts).1 = (s.write (bytesOf texts)).1 ∧
      (s.printAll texts).2.joined = (s.write (bytesOf texts)).2.joined := by
  induction texts generalizing s with
  | nil =>
    have hfits : s.Fits (bytesOf []) := fun room _ => Nat.zero_le room
    have same : s.room.map (· - (bytesOf []).length) = s.room := by
      cases s.room <;> rfl
    rw [write_of_fits hfits, same]
    exact ⟨rfl, (joined_took_nil s).symm⟩
  | cons text texts ih =>
    have whole : bytesOf (text :: texts) = Utf8.bytes text ++ bytesOf texts := List.flatMap_cons
    rw [whole]
    unfold printAll print
    rcases fits_or_short s (Utf8.bytes text) with hfits | ⟨room, hroom, hlt⟩
    · -- the sink is another one now, so the hypothesis is used for that
      obtain ⟨hresult, hsink⟩ := write_append hfits (bytesOf texts)
      rw [write_of_fits hfits] at hresult hsink ⊢
      exact ⟨(ih _).1.trans hresult, (ih _).2.trans hsink⟩
    · -- the first text is cut already, and the others are not printed
      have hlt' : room < (Utf8.bytes text ++ bytesOf texts).length := by
        rw [List.length_append]
        omega
      rw [write_of_short hroom hlt, write_of_short hroom hlt',
        List.take_append_of_le_length (Nat.le_of_lt hlt)]
      exact ⟨rfl, rfl⟩

/-- A sink fails with its own complaint. -/
theorem printAll_cases (s : Sink) (texts : List String) :
    (s.printAll texts).1 = .ok () ∨ (s.printAll texts).1 = .error s.complaint := by
  rw [(s.printAll_eq texts).1]
  rcases fits_or_short s (bytesOf texts) with hfits | ⟨room, hroom, hlt⟩
  · rw [write_of_fits hfits]
    exact .inl rfl
  · rw [write_of_short hroom hlt]
    exact .inr rfl

theorem printAll_append (s : Sink) (texts texts' : List String) :
    s.printAll (texts ++ texts') =
      match s.printAll texts with
      | (.ok (), s) => s.printAll texts'
      | (.error complaint, s) => (.error complaint, s) := by
  induction texts generalizing s with
  | nil => rfl
  | cons text texts ih =>
    simp only [List.cons_append, printAll]
    obtain ⟨_ | _, s'⟩ := s.print text
    · rfl
    · exact ih s'

/-- What a sink takes of an output. -/
def clip (s : Sink) (bs : List UInt8) : List UInt8 :=
  match s.room with
  | none => bs
  | some room => bs.take room

theorem written_write (s : Sink) (bs : List UInt8) :
    (s.write bs).2.written = (s.take (s.clip bs)).written := by
  rcases fits_or_short s bs with hfits | ⟨room, hroom, hlt⟩
  · have all : s.clip bs = bs := by
      cases hroom : s.room with
      | none => rw [clip, hroom]
      | some room =>
        rw [clip, hroom]
        exact List.take_of_length_le (hfits room hroom)
    rw [write_of_fits hfits, written_took, all]
  · rw [write_of_short hroom hlt, written_took, clip, hroom]

/-- What a sink takes does not depend on the pieces in which it took the rest. -/
theorem written_write_congr (h : s.joined = t.joined) (bs : List UInt8) :
    (s.write bs).2.written = (t.write bs).2.written := by
  have hroom : s.room = t.room := by rw [← room_joined, h, room_joined]
  have hdiscards : s.discards = t.discards := by rw [← discards_joined, h, discards_joined]
  have hwritten := written_eq_of_joined h
  rw [written_write, written_write, clip, clip, hroom]
  cases hd : t.discards with
  | true =>
    rw [hd] at hdiscards
    simpa [take, hdiscards, hd] using hwritten
  | false =>
    rw [hd] at hdiscards
    rw [written_take hdiscards, written_take hd, hwritten]

/-- **Behind a failure** a sink takes all or nothing. -/
theorem written_write_took (s : Sink) (xs ys : List UInt8) :
    ((s.took xs s.roomAfterFailure).write ys).2.written =
      (s.take (xs ++ if s.recovers then ys else [])).written := by
  have clipped : (s.took xs s.roomAfterFailure).clip ys = if s.recovers then ys else [] := by
    rw [clip, room_took, roomAfterFailure]
    cases s.recovers <;> rfl
  rw [written_write, clipped, take_eq_took (s.took _ _)]
  exact (written_eq_of_joined (joined_took_took s _ xs _ _)).trans (written_took s _ _)

end Sink

namespace Session

open Sink (bytesOf)

variable {s : Session} {texts : List String} {room : Nat}

/-! ## The standard output -/

/-- Output for which there is no room. -/
theorem emit_of_short (hroom : s.console.stdout.room = some room)
    (hlt : room < (bytesOf texts).length) :
    ∃ sink, s.emit texts = (.error (.write s.console.stdout.complaint), s.withStdout sink) ∧
      sink.written = (s.console.stdout.take ((bytesOf texts).take room)).written := by
  obtain ⟨hresult, hsink⟩ := s.console.stdout.printAll_eq texts
  rw [Sink.write_of_short hroom hlt] at hresult hsink
  cases hprint : s.console.stdout.printAll texts with
  | mk result sink =>
    rw [hprint] at hresult hsink
    dsimp only at hresult hsink
    subst hresult
    refine ⟨sink, by rw [emit, hprint], ?_⟩
    rw [Sink.written_eq_of_joined hsink, Sink.written_took]

theorem emit_of_printAll {sink : Sink} (h : s.console.stdout.printAll texts = (.ok (), sink)) :
    s.emit texts =
      (if sink.failingFlush = some sink.flushes then .error (.write sink.complaint) else .ok (),
        s.withStdout sink.flush.2) := by
  simp only [emit, h, Sink.flush]
  by_cases hflush : sink.failingFlush = some sink.flushes
  · simp only [if_pos hflush]
  · simp only [if_neg hflush]

/-- Output for which there is room, up to the flush. -/
theorem emit_of_fits (hfits : s.console.stdout.Fits (bytesOf texts)) :
    ∃ sink, s.emit texts =
        (if s.console.stdout.failingFlush = some s.console.stdout.flushes then
          .error (.write s.console.stdout.complaint) else .ok (), s.withStdout sink) ∧
      sink.written = (s.console.stdout.take (bytesOf texts)).written := by
  obtain ⟨hresult, hsink⟩ := s.console.stdout.printAll_eq texts
  rw [Sink.write_of_fits hfits] at hresult hsink
  cases hprint : s.console.stdout.printAll texts with
  | mk result sink =>
    rw [hprint] at hresult hsink
    dsimp only at hresult hsink
    subst hresult
    have hfailing : sink.joined.failingFlush = s.console.stdout.failingFlush := by
      rw [hsink, Sink.failingFlush_joined, Sink.failingFlush_took]
    have hflushes : sink.joined.flushes = s.console.stdout.flushes := by
      rw [hsink, Sink.flushes_joined, Sink.flushes_took]
    have hcomplaint : sink.joined.complaint = s.console.stdout.complaint := by
      rw [hsink, Sink.complaint_joined, Sink.complaint_took]
    have hwritten : sink.written = (s.console.stdout.take (bytesOf texts)).written := by
      rw [Sink.written_eq_of_joined hsink, Sink.written_took]
    refine ⟨sink.flush.2, ?_, hwritten⟩
    rw [emit_of_printAll hprint, ← hfailing, ← hflushes, ← hcomplaint]
    rfl

/-- **Output changes the standard output alone**, and fails with its complaint. -/
theorem emit_cases (s : Session) (texts : List String) :
    (∃ sink, (s.emit texts).2 = s.withStdout sink) ∧
      ((s.emit texts).1 = .ok () ∨ (s.emit texts).1 = .error (.write s.console.stdout.complaint)) := by
  rcases s.console.stdout.fits_or_short (bytesOf texts) with hfits | ⟨room, hroom, hlt⟩
  · obtain ⟨sink, hemit, -⟩ := emit_of_fits hfits
    rw [hemit]
    refine ⟨⟨sink, rfl⟩, ?_⟩
    split
    · exact .inr rfl
    · exact .inl rfl
  · obtain ⟨sink, hemit, -⟩ := emit_of_short hroom hlt
    rw [hemit]
    exact ⟨⟨sink, rfl⟩, .inr rfl⟩

/-! ## The standard error -/

/-- The failure of a report in a style. -/
def reportFailure : Style → String → Failure
  | .plain, complaint => .write complaint
  | .rich, complaint => .render (.stream complaint)

/-- The texts that a report of diagnostics consists of. -/
def reportTexts (s : Session) (id : Nat) (ds : List Diagnostic) : List String :=
  match s.style with
  | .plain => ds.map fun d => d.display ++ "\n"
  | .rich => ds.flatMap fun d =>
    ((d.block s.files id).toOption.getD []).map (Piece.render s.console.coloured)

theorem reportTexts_withStdout (s : Session) (sink : Sink) (id : Nat) (ds : List Diagnostic) :
    (s.withStdout sink).reportTexts id ds = s.reportTexts id ds := by
  unfold reportTexts
  rfl

theorem reportPlain_eq (s : Session) (ds : List Diagnostic) :
    s.reportPlain ds =
      let printed := s.console.stderr.printAll (ds.map fun d => d.display ++ "\n")
      (printed.1.mapError .write, s.withStderr printed.2) := by
  unfold reportPlain
  generalize s.console.stderr.printAll _ = printed
  obtain ⟨_ | _, sink⟩ := printed <;> rfl

/-- Blocks are printed one after the other, as long as the file table answers. -/
theorem reportRich_eq {id : Nat} {ds : List Diagnostic}
    (hblock : ∀ d ∈ ds, ∃ pieces, d.block s.files id = .ok pieces) :
    s.reportRich id ds =
      let printed := s.console.stderr.printAll (ds.flatMap fun d =>
        ((d.block s.files id).toOption.getD []).map (Piece.render s.console.coloured))
      (printed.1.mapError fun complaint => .render (.stream complaint),
        s.withStderr printed.2) := by
  induction ds generalizing s with
  | nil => rfl
  | cons d ds ih =>
    -- the next block goes to the sink that this one leaves, as `printAll_append` has it
    obtain ⟨pieces, hd⟩ := hblock d List.mem_cons_self
    simp only [reportRich, hd, List.flatMap_cons, Sink.printAll_append, Except.toOption,
      Option.getD_some]
    cases hprint : s.console.stderr.printAll (pieces.map (Piece.render s.console.coloured)) with
    | mk result sink =>
      cases result with
      | error complaint => rfl
      | ok => exact ih fun d' hd' => hblock d' (List.mem_cons_of_mem d hd')

/-- **A report prints its texts** to the standard error, as long as the file table answers. -/
theorem report_eq {id : Nat} {ds : List Diagnostic}
    (hblock : ∀ d ∈ ds, ∃ pieces, d.block s.files id = .ok pieces) :
    s.report id ds =
      let printed := s.console.stderr.printAll (s.reportTexts id ds)
      (printed.1.mapError (reportFailure s.style), s.withStderr printed.2) := by
  rw [report, reportTexts]
  cases s.style with
  | plain => exact reportPlain_eq s ds
  | rich => exact reportRich_eq hblock

end Session

end LoxLexer
