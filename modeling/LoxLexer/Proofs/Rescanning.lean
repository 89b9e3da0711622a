import Mathlib.Data.List.DropRight
import LoxLexer.Proofs.Walk

/-!
# Scanning again

A desk has one cursor at a time and one list of diagnostics for all of them. A cursor that is
drained stands at the end, so that draining it again yields the last token alone and leaves
everything as it is; a new cursor yields all tokens and reports all diagnostics again. What a desk
answers therefore depends on two things only: on the steps that were taken with its present cursor,
and on how many of its cursors were drained.

## Main definitions

* `Desk.after d steps`: the desk after some steps
* `Desk.turns steps`: the steps that were taken with each cursor
* `Desk.turn steps`: the steps that were taken with the present cursor
* `Desk.drained turn`, `Desk.givenUp turn`: what became of a cursor
* `Desk.stateAfter source steps`: the state that steps lead to
* `Desk.reply source before s`: the answer to the step `s` behind the steps `before`

## Main results

* `Cursor.drain_finish`: a drained cursor yields the last token, and stays as it is
* `Desk.step_stateAfter`: one step, in terms of the steps before it
* `Desk.after_start`, `Desk.run_start`: the state and the answers of a desk, in terms of the steps
  that were taken
* `Desk.run_scanners`: a source can be scanned again and again
-/

namespace LoxLexer

/-! ## A drained cursor -/

namespace Cursor

/-- The cursor at the end of a source. -/
def finish (source : List UInt8) : Cursor :=
  (start source).drain.2

theorem line_finish (source : List UInt8) : (finish source).line = 1 + source.count lineFeed := by
  rw [finish, drain_eq]
  rfl

/-- **A drained cursor** yields the last token on the last line, and stays as it is. -/
theorem drain_finish (source : List UInt8) :
    (finish source).drain =
      (⟨[.endOfInput (1 + source.count lineFeed)], []⟩, finish source) := by
  have atEnd : (finish source).unread = [] := unread_drain (start source)
  rw [drain_of_unread_nil atEnd, line_finish]

end Cursor

namespace Desk

variable {source : List UInt8} {steps u : List Step} {s : Step}

/-! ## Turns -/

section Turns

/-- The steps that were taken with each cursor. -/
def turns (steps : List Step) : List (List Step) :=
  steps.splitOn .restart

/-- **The steps that were taken with the present cursor.** -/
def turn (steps : List Step) : List Step :=
  steps.rtakeWhile (· != .restart)

/-- The cursor of a turn was given up. -/
def givenUp (turn : List Step) : Bool :=
  turn.contains .lineTable

/-- The cursor of a turn was drained, at least once, before it was given up. -/
def drained (turn : List Step) : Bool :=
  (turn.takeWhile (· != .lineTable)).contains .drain

theorem turn_concat_restart (steps : List Step) : turn (steps ++ [.restart]) = [] :=
  List.rtakeWhile_concat_neg _ _ _ (by simp)

theorem turn_concat_of_ne (hs : s ≠ .restart) (steps : List Step) :
    turn (steps ++ [s]) = turn steps ++ [s] :=
  List.rtakeWhile_concat_pos _ _ _ (by simpa using hs)

/-- The present turn is the last one, and goes on until the next restart. -/
theorem exists_turns (steps : List Step) :
    ∃ earlier, ∀ more, .restart ∉ more →
      turns (steps ++ more) = earlier ++ [turn steps ++ more] := by
  induction steps using List.reverseRecOn with
  | nil =>
    refine ⟨[], fun more hmore => ?_⟩
    exact List.splitOn_eq_singleton hmore
  | append_singleton steps s ih =>
    by_cases hs : s = .restart
    · refine ⟨turns steps, fun more hmore => ?_⟩
      rw [hs, turn_concat_restart, List.append_assoc, List.singleton_append, turns,
        List.splitOn_append_cons_self, List.splitOn_eq_singleton hmore]
      rfl
    · obtain ⟨earlier, hearlier⟩ := ih
      refine ⟨earlier, fun more hmore => ?_⟩
      have hnext : Step.restart ∉ s :: more := by
        rw [List.mem_cons, not_or]
        exact ⟨Ne.symm hs, hmore⟩
      rw [turn_concat_of_ne hs, List.append_assoc, List.append_assoc]
      exact hearlier _ hnext

theorem givenUp_concat_drain (u : List Step) : givenUp (u ++ [.drain]) = givenUp u := by
  simp [givenUp]

theorem givenUp_concat_lineTable (u : List Step) : givenUp (u ++ [.lineTable]) = true := by
  simp [givenUp]

/-- Only what is done before a cursor is given up counts. -/
theorem drained_append_of_givenUp (h : givenUp u = true) (v : List Step) :
    drained (u ++ v) = drained u := by
  have stops : (u.takeWhile (· != .lineTable)).length ≠ u.length := by
    intro hlength
    have hall := List.takeWhile_eq_self_iff.mp
      ((List.takeWhile_prefix (· != Step.lineTable)).eq_of_length hlength)
    have hstep := hall .lineTable (by simpa [givenUp] using h)
    simp at hstep
  rw [drained, List.takeWhile_append, if_neg stops, drained]

theorem drained_append (h : givenUp u = false) (v : List Step) :
    drained (u ++ v) = (u.contains .drain || drained v) := by
  have passes : ∀ s ∈ u, (s != Step.lineTable) = true := by
    intro s hs
    have hne : s ≠ .lineTable := by
      rintro rfl
      simp [givenUp, hs] at h
    simpa using hne
  rw [drained, List.takeWhile_append_of_pos passes, List.contains_append, drained]

theorem drained_concat_drain (h : givenUp u = false) : drained (u ++ [.drain]) = true := by
  rw [drained_append h]
  exact Bool.or_true _

theorem drained_concat_lineTable (u : List Step) : drained (u ++ [.lineTable]) = drained u := by
  cases h : givenUp u with
  | true => exact drained_append_of_givenUp h _
  | false =>
    have alone := drained_append h []
    rw [List.append_nil] at alone
    rw [drained_append h, alone]
    rfl

end Turns

/-! ## The state of a desk -/

section State

/-- The desk after some steps. -/
def after (d : Desk) : List Step → Desk
  | [] => d
  | s :: ss => (d.step s).2.after ss

theorem after_concat (d : Desk) (steps : List Step) (s : Step) :
    d.after (steps ++ [s]) = ((d.after steps).step s).2 := by
  induction steps generalizing d with
  | nil => rfl
  | cons s' steps ih => exact ih _

theorem run_concat (d : Desk) (steps : List Step) (s : Step) :
    d.run (steps ++ [s]) = d.run steps ++ [((d.after steps).step s).1] := by
  induction steps generalizing d with
  | nil => rfl
  | cons s' steps ih =>
    rw [List.cons_append, run, ih]
    rfl

/-- **How many cursors were drained**, at least once each. -/
def scans (steps : List Step) : Nat :=
  (turns steps).countP drained

/-- **All that was reported**: the diagnostics of the source, once for each drained cursor. -/
def reports (source : List UInt8) (steps : List Step) : List Diagnostic :=
  (List.replicate (scans steps) (scan source).diagnostics).flatten

/-- The present cursor, after the steps that were taken with it. -/
def present (source : List UInt8) (turn : List Step) : Option Cursor :=
  if givenUp turn then none
  else if drained turn then some (.finish source) else some (.start source)

theorem scans_concat_restart (steps : List Step) : scans (steps ++ [.restart]) = scans steps := by
  rw [scans, turns, List.splitOn_append_cons_self, List.countP_append]
  rfl

/-- One more step of the present turn can add its cursor to those that were drained. -/
theorem scans_concat_of_ne (hs : s ≠ .restart) (steps : List Step) :
    scans (steps ++ [s]) + (drained (turn steps)).toNat =
      scans steps + (drained (turn steps ++ [s])).toNat := by
  obtain ⟨earlier, hearlier⟩ := exists_turns steps
  have before := hearlier [] List.not_mem_nil
  have behind := hearlier [s] (by simpa using Ne.symm hs)
  rw [List.append_nil, List.append_nil] at before
  rw [scans, scans, before, behind, List.countP_append, List.countP_append, List.countP_singleton,
    List.countP_singleton]
  cases drained (turn steps) <;> cases drained (turn steps ++ [s]) <;> rfl

theorem reports_concat_restart (source : List UInt8) (steps : List Step) :
    reports source (steps ++ [.restart]) = reports source steps := by
  rw [reports, scans_concat_restart, reports]

/-- What was reported before is reported again by a cursor that was not drained yet. -/
theorem reports_concat_drain (hup : givenUp (turn steps) = false)
    (hdrained : drained (turn steps) = false) :
    reports source (steps ++ [.drain]) = reports source steps ++ (scan source).diagnostics := by
  have count := scans_concat_of_ne (s := .drain) (by simp) steps
  rw [hdrained, drained_concat_drain hup] at count
  rw [reports, show scans (steps ++ [.drain]) = scans steps + 1 from count,
    List.replicate_succ', List.flatten_concat, reports]

/-- Nothing is reported by a step that leaves the present cursor as drained as it was. -/
theorem reports_concat_of_drained_eq (hs : s ≠ .restart)
    (h : drained (turn steps ++ [s]) = drained (turn steps)) :
    reports source (steps ++ [s]) = reports source steps := by
  have count := scans_concat_of_ne hs steps
  rw [h] at count
  rw [reports, Nat.add_right_cancel count, reports]

/-- To drain a cursor once more reports nothing. -/
theorem reports_concat_drain_of_drained (hup : givenUp (turn steps) = false)
    (hdrained : drained (turn steps) = true) :
    reports source (steps ++ [.drain]) = reports source steps := by
  apply reports_concat_of_drained_eq (by simp)
  rw [drained_concat_drain hup, hdrained]

/-- **The answer to a step**, in terms of the steps before it. -/
def reply (source : List UInt8) (before : List Step) : Step → Answer
  | .restart => .restarted
  | .drain =>
    if givenUp (turn before) then .consumed
    else
      .drained
        (if drained (turn before) then [.endOfInput (1 + source.count lineFeed)]
        else (scan source).tokens)
        (reports source (before ++ [.drain]))
  | .lineTable =>
    if givenUp (turn before) then .consumed
    else .lines (if drained (turn before) then (scan source).lines else ⟨#[0], source.length⟩)

/-- The state of a desk after some steps. -/
def stateAfter (source : List UInt8) (steps : List Step) : Desk :=
  ⟨source, present source (turn steps), reports source steps⟩

/-- **One step**, from the state that the steps before it lead to. -/
theorem step_stateAfter (source : List UInt8) (steps : List Step) (s : Step) :
    (stateAfter source steps).step s = (reply source steps s, stateAfter source (steps ++ [s])) := by
  cases s with
  | restart =>
    rw [stateAfter, stateAfter, reports_concat_restart, turn_concat_restart]
    rfl
  | drain =>
    have hturn : turn (steps ++ [.drain]) = turn steps ++ [.drain] := turn_concat_of_ne (by simp) _
    rw [stateAfter, stateAfter, hturn, present, present, givenUp_concat_drain, step, reply]
    cases hup : givenUp (turn steps) with
    | true =>
      -- without a cursor nothing is done
      have same := drained_append_of_givenUp hup [.drain]
      rw [reports_concat_of_drained_eq (by simp) same]
      rfl
    | false =>
      rw [drained_concat_drain hup]
      cases hdrained : drained (turn steps) with
      | true =>
        -- the cursor is at the end already
        rw [reports_concat_drain_of_drained hup hdrained]
        simp [Cursor.drain_finish]
      | false =>
        rw [reports_concat_drain hup hdrained]
        rfl
  | lineTable =>
    have hturn : turn (steps ++ [.lineTable]) = turn steps ++ [.lineTable] :=
      turn_concat_of_ne (by simp) _
    rw [stateAfter, stateAfter, hturn, present, present, givenUp_concat_lineTable, step, reply,
      reports_concat_of_drained_eq (by simp) (drained_concat_lineTable _)]
    cases hup : givenUp (turn steps) with
    | true => rfl
    | false => cases drained (turn steps) <;> rfl

/-- **The state of a desk** is determined by the steps that were taken. -/
theorem after_start (source : List UInt8) (steps : List Step) :
    (start source).after steps = stateAfter source steps := by
  induction steps using List.reverseRecOn with
  | nil => rfl
  | append_singleton steps s ih => rw [after_concat, ih, step_stateAfter]

/-- **The answers of a desk** are determined by the steps before each. -/
theorem run_start (source : List UInt8) (steps : List Step) :
    (start source).run steps = steps.mapIdx fun i s => reply source (steps.take i) s := by
  induction steps using List.reverseRecOn with
  | nil => rfl
  | append_singleton steps s ih =>
    rw [run_concat, ih, after_start, step_stateAfter, List.mapIdx_concat, List.take_left]
    -- the steps before an earlier one are the same without the last one
    congr 1
    apply List.ext_getElem?
    intro i
    rw [List.getElem?_mapIdx, List.getElem?_mapIdx]
    cases hget : steps[i]? with
    | none => rfl
    | some s' =>
      have hi := (List.getElem?_eq_some_iff.mp hget).1
      rw [List.take_append_of_le_length hi.le]

/-- **A source can be scanned again and again.** Whatever steps are taken at a desk, the answer to
each depends on the steps before it as `reply` says: a new cursor yields the tokens of the scan, a
drained one only the token that ends the input on the last line, and a cursor that is given up
leaves the lines of the scan if it was drained, and else one line for the whole source. The desk has
then reported the diagnostics of the scan once for each cursor that was drained, however often. To
drain a cursor once more reports nothing and changes nothing at the desk, neither its diagnostics
nor the lines that the cursor has recorded. -/
theorem run_scanners (source : List UInt8) (steps : List Step) :
    let desk := (start source).after steps
    (start source).run steps = (steps.mapIdx fun i s => reply source (steps.take i) s) ∧
    desk.diagnostics =
      (List.replicate ((turns steps).countP drained) (scan source).diagnostics).flatten ∧
    (drained (turn steps) = true → givenUp (turn steps) = false →
      desk.step .drain =
        (.drained [.endOfInput (1 + source.count lineFeed)] desk.diagnostics, desk)) := by
  dsimp only
  rw [after_start]
  refine ⟨run_start source steps, rfl, ?_⟩
  intro hdrained hup
  have quiet : reports source (steps ++ [.drain]) = reports source steps :=
    reports_concat_drain_of_drained hup hdrained
  have unmoved : stateAfter source (steps ++ [.drain]) = stateAfter source steps := by
    rw [stateAfter, turn_concat_of_ne (by simp), quiet, stateAfter, present, present,
      givenUp_concat_drain, drained_concat_drain hup, hdrained]
  rw [step_stateAfter, unmoved, reply, hup, hdrained, quiet]
  rfl

/-- A stray byte in front of a line feed, scanned twice with one cursor and once with another. -/
theorem run_scanners_stray :
    let steps : List Step := [.drain, .drain, .restart, .drain]
    let desk := (start [0x40, 0x0A]).after steps
    drained (turn steps) = true ∧ givenUp (turn steps) = false ∧
    desk.step .drain = (.drained [.endOfInput 2] desk.diagnostics, desk) := by
  intro steps desk
  have hdrained : drained (turn steps) = true := by decide
  have hup : givenUp (turn steps) = false := by decide
  exact ⟨hdrained, hup, (run_scanners [0x40, 0x0A] steps).2.2 hdrained hup⟩

/-- Two of these cursors were drained, and each has reported the stray byte. -/
example : ((start [0x40, 0x0A]).after [.drain, .drain, .restart, .drain]).diagnostics =
    [⟨1, .unexpectedCharacter⟩, ⟨1, .unexpectedCharacter⟩] := by decide +kernel

end State

end Desk

end LoxLexer
