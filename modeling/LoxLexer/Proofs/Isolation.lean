import LoxLexer.Proofs.Faults
import LoxLexer.Proofs.Independence

/-!
# What a run depends on

A run reads nothing, and whether it fails is a matter of its streams alone. Apart from the way in
which these fail it depends on its source and on nothing else: it shows what a session without files
shows that has not written anything yet.

## Main definitions

* `Sink.NeverFails`, `Session.NeverFails`: streams that never fail
* `Session.Shows s name source`: the streams of `s` take all that a run shows of `source`
* `Session.blank s`: the session `s` without files or input, with nothing written

## Main results

* `Session.input_run`, `Session.NeverFails.run`: what a run leaves as it is
* `Session.Reachable.exit_run_ne_ioError_iff`: a run fails exactly if a stream does
* `Session.Reachable.ends_blank`: a run shows what a blank session shows
-/

namespace LoxLexer

namespace Sink

variable {s : Sink}

/-- A sink that never fails. -/
structure NeverFails (s : Sink) : Prop where
  room_eq : s.room = none
  failingFlush_eq : s.failingFlush = none

theorem NeverFails.fits (h : s.NeverFails) (bs : List UInt8) : s.Fits bs := by
  intro room hroom
  rw [h.room_eq] at hroom
  cases hroom

theorem NeverFails.flushed (h : s.NeverFails) : s.failingFlush ≠ some s.flushes := by
  rw [h.failingFlush_eq]
  exact (Option.some_ne_none _).symm

theorem NeverFails.write (h : s.NeverFails) (bs : List UInt8) : (s.write bs).2.NeverFails := by
  rw [write_of_fits (h.fits bs), h.room_eq]
  exact ⟨rfl, (failingFlush_took ..).trans h.failingFlush_eq⟩

theorem NeverFails.printAll (h : s.NeverFails) (texts : List String) :
    (s.printAll texts).2.NeverFails := by
  induction texts generalizing s with
  | nil => exact h
  | cons text texts ih =>
    have written := h.write (Utf8.bytes text)
    unfold Sink.printAll print
    rw [write_of_fits (h.fits _)] at written ⊢
    exact ih written

/-- What a sink takes does not depend on what it has taken before. -/
theorem written_take_eq (s : Sink) (bs : List UInt8) :
    (s.take bs).written = s.written ++ (s.collect.2.take bs).written := by
  cases h : s.discards <;> simp [take, collect, written, h]

end Sink

namespace Session

open Sink (bytesOf)

variable {s : Session} {name : String} {source : List UInt8}

/-- A session whose streams never fail. -/
structure NeverFails (s : Session) : Prop where
  stdout : s.console.stdout.NeverFails
  stderr : s.console.stderr.NeverFails

/-! ## What a run leaves as it is -/

section Frame

theorem snd_emit_cases (s : Session) (texts : List String) :
    (s.emit texts).2 = s.withStdout (s.console.stdout.printAll texts).2 ∨
      (s.emit texts).2 = s.withStdout (s.console.stdout.printAll texts).2.flush.2 := by
  cases hprint : s.console.stdout.printAll texts with
  | mk result sink =>
    cases result with
    | error complaint => exact .inl (by rw [emit, hprint])  -- nothing is flushed
    | ok => exact .inr (by rw [emit_of_printAll hprint])

theorem exists_reportRich_eq (s : Session) (id : Nat) (ds : List Diagnostic) :
    ∃ texts, (s.reportRich id ds).2 = s.withStderr (s.console.stderr.printAll texts).2 := by
  induction ds generalizing s with
  | nil => exact ⟨[], rfl⟩
  | cons d ds ih =>
    unfold reportRich
    split
    · exact ⟨[], rfl⟩
    · rename_i pieces _
      split
      · rename_i hprint
        exact ⟨_, congrArg s.withStderr (congrArg Prod.snd hprint).symm⟩
      · -- the texts of this block, and those of the blocks behind it
        rename_i sink hprint
        obtain ⟨texts, htexts⟩ := ih (s.withStderr sink)
        refine ⟨pieces.map (Piece.render s.console.coloured) ++ texts, ?_⟩
        rw [htexts, Sink.printAll_append, hprint]
        rfl

/-- Whatever becomes of a report, it has printed some texts to the standard error. -/
theorem exists_reported_eq (s : Session) (name : String) (source : List UInt8) :
    ∃ texts, (s.reported name source).2 =
      { (s.emit (dump source)).2 with files := (s.keep name source).2 }.withStderr
        ((s.emit (dump source)).2.console.stderr.printAll texts).2 := by
  unfold reported report
  split
  · exact ⟨_, congrArg Prod.snd (reportPlain_eq _ _)⟩
  · exact exists_reportRich_eq _ _ _

@[simp] theorem input_emit (s : Session) (texts : List String) :
    (s.emit texts).2.console.input = s.console.input := by
  rcases s.snd_emit_cases texts with h | h
  · rw [h]
    rfl
  · rw [h]
    rfl

theorem input_reported (s : Session) (name : String) (source : List UInt8) :
    (s.reported name source).2.console.input = s.console.input := by
  obtain ⟨texts, htexts⟩ := s.exists_reported_eq name source
  rw [htexts]
  exact s.input_emit (dump source)

/-- **A run reads nothing.** -/
@[simp] theorem input_run (s : Session) (name : String) (source : List UInt8) :
    (s.run name source).2.console.input = s.console.input := by
  have course := s.course_run name source
  generalize s.run name source = done at course ⊢
  cases course with
  | unwritten f _ => exact s.input_emit (dump source)
  | clean _ _ => exact s.input_emit (dump source)
  | reported _ _ _ => exact s.input_reported name source
  | unreported f _ _ _ => exact s.input_reported name source

theorem NeverFails.emit (h : NeverFails s) (texts : List String) :
    NeverFails (s.emit texts).2 := by
  have printed := h.stdout.printAll texts
  rcases s.snd_emit_cases texts with hemit | hemit
  · rw [hemit]
    exact ⟨printed, h.stderr⟩
  · rw [hemit]
    exact ⟨⟨printed.room_eq, printed.failingFlush_eq⟩, h.stderr⟩

theorem NeverFails.fail (h : NeverFails s) (f : Failure) : NeverFails (s.fail f).2 :=
  ⟨h.stdout, h.stderr.write _⟩

theorem NeverFails.reported (h : NeverFails s) (name : String) (source : List UInt8) :
    NeverFails (s.reported name source).2 := by
  have emitted := h.emit (dump source)
  obtain ⟨texts, htexts⟩ := s.exists_reported_eq name source
  rw [htexts]
  exact ⟨emitted.stdout, emitted.stderr.printAll texts⟩

theorem NeverFails.run (h : NeverFails s) (name : String) (source : List UInt8) :
    NeverFails (s.run name source).2 := by
  have course := s.course_run name source
  generalize s.run name source = done at course ⊢
  cases course with
  | unwritten f _ => exact (h.emit (dump source)).fail f
  | clean _ _ => exact h.emit (dump source)
  | reported _ _ _ => exact h.reported name source
  | unreported f _ _ _ => exact (h.reported name source).fail f

end Frame

/-! ## When a run fails -/

section Failing

/-- The streams take all that a run shows of a source. -/
structure Shows (s : Session) (name : String) (source : List UInt8) : Prop where
  dump_fits : s.console.stdout.Fits (dumpBytes source)
  flushed : s.console.stdout.failingFlush ≠ some s.console.stdout.flushes
  report_fits : s.console.stderr.Fits (s.reportBytes name source)

theorem NeverFails.shows (h : NeverFails s) (name : String) (source : List UInt8) :
    s.Shows name source :=
  ⟨h.stdout.fits _, h.stdout.flushed, h.stderr.fits _⟩

/-- All is shown, or else one of the streams is the first to fail. -/
theorem shows_or_fails (s : Session) (name : String) (source : List UInt8) :
    s.Shows name source ∨
      (∃ room, s.console.stdout.room = some room ∧ room < (dumpBytes source).length) ∨
      (s.console.stdout.Fits (dumpBytes source) ∧
        s.console.stdout.failingFlush = some s.console.stdout.flushes) ∨
      (s.console.stdout.Fits (dumpBytes source) ∧
        s.console.stdout.failingFlush ≠ some s.console.stdout.flushes ∧
        ∃ room, s.console.stderr.room = some room ∧
          room < (s.reportBytes name source).length) := by
  rcases s.console.stdout.fits_or_short (dumpBytes source) with hfits | hshort
  · by_cases hflush : s.console.stdout.failingFlush = some s.console.stdout.flushes
    · exact .inr (.inr (.inl ⟨hfits, hflush⟩))
    · rcases s.console.stderr.fits_or_short (s.reportBytes name source) with hreport | hshort
      · exact .inl ⟨hfits, hflush, hreport⟩
      · exact .inr (.inr (.inr ⟨hfits, hflush, hshort⟩))
  · exact .inr (.inl hshort)

/-- **Only its streams can make a run fail**, whatever the source. -/
theorem Reachable.exit_run_ne_ioError_iff (h : Reachable s) :
    (s.run name source).1 ≠ .ioError ↔ s.Shows name source := by
  constructor
  · intro hexit
    rcases s.shows_or_fails name source with hshows | ⟨room, hroom, hlt⟩ | ⟨hfits, hflush⟩ |
      ⟨hfits, hflush, room, hroom, hlt⟩
    · exact hshows
    · exact absurd (run_of_short hroom hlt).exit_eq hexit
    · exact absurd (run_of_unflushed hfits hflush).exit_eq hexit
    · exact absurd (h.run_of_unreported hfits hflush hroom hlt).exit_eq hexit
  · rintro ⟨hfits, hflush, hreport⟩
    rw [(h.run_of_fits hfits hflush hreport).exit_eq]
    split <;> exact Exit.noConfusion

end Failing

/-! ## Blank sessions -/

section Blank

/-- The session without files or input, with nothing written: what is left is how it reports, and
when its streams fail. -/
def blank (s : Session) : Session where
  style := s.style
  console :=
    { s.console with
      stdout := s.console.stdout.collect.2, stderr := s.console.stderr.collect.2, input := [] }
  store := s.store

theorem reachable_blank (s : Session) : Reachable s.blank :=
  .start _ _ _

theorem Reachable.reportBytes_blank (h : Reachable s) (name : String) (source : List UInt8) :
    s.blank.reportBytes name source = s.reportBytes name source := by
  have style : s.blank.style = s.style := rfl
  apply congrArg bytesOf
  unfold reportOf reportTexts
  dsimp only
  rw [style]
  cases s.style with
  | plain => rfl
  | rich =>
    -- the file tables differ, but not in what they answer about this source
    refine List.flatMap_congr ?_
    intro d hd
    rw [block_keep_eq s.reachable_blank h hd]
    rfl

/-- Two runs that write the same, one of them behind what its streams hold already. -/
theorem Ends.blank {done own : Exit × Session} {exit : Exit} {out err : Sink}
    {xs ys : List UInt8} (h : Ends done exit (out.take xs).written (err.take ys).written)
    (hown : Ends own exit (out.collect.2.take xs).written (err.collect.2.take ys).written) :
    Ends done own.1 (out.written ++ own.2.console.stdout.written)
      (err.written ++ own.2.console.stderr.written) := by
  refine ⟨h.exit_eq.trans hown.exit_eq.symm, ?_, ?_⟩
  · rw [h.stdout_eq, hown.stdout_eq, Sink.written_take_eq]
  · rw [h.stderr_eq, hown.stderr_eq, Sink.written_take_eq]

/-- **A run shows what a blank session shows**, behind what was written before. -/
theorem Reachable.ends_blank (h : Reachable s) (name : String) (source : List UInt8) :
    let own := s.blank.run name source
    Ends (s.run name source) own.1
      (s.console.stdout.written ++ own.2.console.stdout.written)
      (s.console.stderr.written ++ own.2.console.stderr.written) := by
  -- both runs take the same course, as the streams of both fail in the same way
  have new := s.reachable_blank
  have same := h.reportBytes_blank name source
  rcases s.shows_or_fails name source with hshows | ⟨room, hroom, hlt⟩ | ⟨hfits, hflush⟩ |
    ⟨hfits, hflush, room, hroom, hlt⟩
  · apply (h.run_of_fits hshows.dump_fits hshows.flushed hshows.report_fits).blank
    rw [← same]
    exact new.run_of_fits hshows.dump_fits hshows.flushed (same ▸ hshows.report_fits)
  · exact (run_of_short hroom hlt).blank (run_of_short (s := s.blank) hroom hlt)
  · exact (run_of_unflushed hfits hflush).blank (run_of_unflushed (s := s.blank) hfits hflush)
  · apply (h.run_of_unreported hfits hflush hroom hlt).blank
    rw [← same] at hlt ⊢
    exact new.run_of_unreported hfits hflush hroom hlt

end Blank

end Session

end LoxLexer
