import LoxLexer.Proofs.Isolation

/-!
# Dialogues

A prompt is a fold of turns. Each turn asks, reads once, and runs what was read, in the session that
the turn before has left; the first turn that fails or reads nothing is the last. Between two turns
nothing is handed on but the state of the streams: what is shown of a line is what a blank session
shows of it.

## Main definitions

* `Session.turn s`: one turn of the prompt, which may be the last
* `Session.Turn s result`: the courses of a turn
* `Session.Dialogue s lines t`: turns in which `lines` are entered lead from `s` to `t`

## Main results

* `Session.prompt_eq`: a prompt is one turn, and the prompt that follows unless it was the last
* `Session.prompt_induction`: induction along a prompt
* `Session.Reachable.prompt_turns`: what a prompt does, turn by turn
-/

namespace LoxLexer

namespace Console

/-- One read less, also when nothing is left. -/
theorem read_eq (c : Console) :
    c.read = (c.input.head?.getD (.bytes []), { c with input := c.input.tail }) := by
  obtain ⟨stdout, stderr, input, coloured⟩ := c
  cases input <;> rfl

theorem readInto_nil (c : Console) :
    c.readInto [] =
      (match c.read.1 with
        | .bytes bs => .ok (bs.length, bs)
        | .failure complaint => .error complaint,
      c.read.2) := by
  unfold readInto
  cases c.read with
  | mk r c' => cases r <;> rfl

end Console

namespace Session

open Sink (bytesOf)

variable {s t : Session} {line : List UInt8} {lines : List (List UInt8)} {rest : List Read}
  {done : Exit × Session}

/-! ## Turns -/

section Turns

/-- What a turn makes of the number of bytes read and of the bytes. -/
def answer (s : Session) : Except String (Nat × List UInt8) → Except (Exit × Session) Session
  | .error complaint => .error (s.fail (.write complaint))
  | .ok (0, _) => .error (.ok, s)
  | .ok (_ + 1, line) =>
    let done := s.run "repl" (withoutLineEnd line)
    if done.1 = .ioError then .error done else .ok done.2

/-- **One turn of the prompt**: asks, reads once, and runs what was read without the line break. The
last turn gives the end of the prompt, any other the session in which the prompt goes on. -/
def turn (s : Session) : Except (Exit × Session) Session :=
  match s.emit ["> "] with
  | (.error f, s) => .error (s.fail f)
  | (.ok (), s) =>
    let got := s.console.readInto []
    { s with console := got.2 }.answer got.1

/-- What is left of a session when it was asked and has read once. -/
def asked (s : Session) : Session :=
  (s.emit ["> "]).2.withInput s.console.input.tail

/-- **The courses of a turn**: what it comes to, and when. -/
inductive Turn (s : Session) : Except (Exit × Session) Session → Prop
  /-- The mark cannot be written or flushed, and nothing is read. -/
  | unasked (f : Failure) (hf : (s.emit ["> "]).1 = .error f) :
    Turn s (.error ((s.emit ["> "]).2.fail f))
  /-- The read fails. -/
  | unread (complaint : String) (hok : (s.emit ["> "]).1 = .ok ())
    (hread : s.console.read.1 = .failure complaint) :
    Turn s (.error (s.asked.fail (.write complaint)))
  /-- The read brings no bytes. -/
  | ended (hok : (s.emit ["> "]).1 = .ok ()) (hread : s.console.read.1 = .bytes []) :
    Turn s (.error (.ok, s.asked))
  /-- A stream fails while a line is run. -/
  | broken (line : List UInt8) (hok : (s.emit ["> "]).1 = .ok ())
    (hread : s.console.read.1 = .bytes line) (hline : line ≠ [])
    (hrun : (s.asked.run "repl" (withoutLineEnd line)).1 = .ioError) :
    Turn s (.error (s.asked.run "repl" (withoutLineEnd line)))
  /-- A line is run. -/
  | entered (line : List UInt8) (hok : (s.emit ["> "]).1 = .ok ())
    (hread : s.console.read.1 = .bytes line) (hline : line ≠ [])
    (hrun : (s.asked.run "repl" (withoutLineEnd line)).1 ≠ .ioError) :
    Turn s (.ok (s.asked.run "repl" (withoutLineEnd line)).2)

theorem turn_eq (s : Session) :
    s.turn =
      match (s.emit ["> "]).1 with
      | .error f => .error ((s.emit ["> "]).2.fail f)
      | .ok () =>
        s.asked.answer (match s.console.read.1 with
          | .bytes bs => .ok (bs.length, bs)
          | .failure complaint => .error complaint) := by
  -- asking leaves the input as it is, so the read is the one that stood there before
  have read : (s.emit ["> "]).2.console.read.1 = s.console.read.1 := by
    rw [Console.read_eq, Console.read_eq, input_emit]
  have left : { (s.emit ["> "]).2 with console := (s.emit ["> "]).2.console.read.2 } = s.asked := by
    rw [Console.read_eq, input_emit]
    rfl
  rw [← read, ← left]
  unfold turn
  cases s.emit ["> "] with
  | mk result s' =>
    cases result with
    | error f => rfl
    | ok =>
      dsimp only
      rw [Console.readInto_nil]

theorem turn_of_line (hok : (s.emit ["> "]).1 = .ok ()) (hread : s.console.read.1 = .bytes line)
    (hline : line ≠ []) :
    s.turn =
      let done := s.asked.run "repl" (withoutLineEnd line)
      if done.1 = .ioError then .error done else .ok done.2 := by
  rw [turn_eq, hok, hread]
  cases line with
  | nil => exact absurd rfl hline
  | cons b bs => rfl

theorem turn_of_end (hok : (s.emit ["> "]).1 = .ok ()) (hread : s.console.read.1 = .bytes []) :
    s.turn = .error (.ok, s.asked) := by
  rw [turn_eq, hok, hread]
  rfl

/-- **Every turn takes one of these courses.** -/
theorem turn_spec (s : Session) : Turn s s.turn := by
  cases hok : (s.emit ["> "]).1 with
  | error f =>
    rw [turn_eq, hok]
    exact .unasked f hok
  | ok =>
    cases hread : s.console.read.1 with
    | failure complaint =>
      rw [turn_eq, hok, hread]
      exact .unread complaint hok hread
    | bytes line =>
      by_cases hline : line = []
      · rw [hline] at hread
        rw [turn_of_end hok hread]
        exact .ended hok hread
      · rw [turn_of_line hok hread hline]
        dsimp only
        split
        · rename_i hrun
          exact .broken line hok hread hline hrun
        · rename_i hrun
          exact .entered line hok hread hline hrun

theorem read_of_input (hinput : s.console.input = .bytes line :: rest) :
    s.console.read.1 = .bytes line := by
  rw [Console.read_eq, hinput]
  rfl

theorem input_of_read (hread : s.console.read.1 = .bytes line) (hline : line ≠ []) :
    s.console.input = .bytes line :: s.console.input.tail := by
  rw [Console.read_eq] at hread
  cases hinput : s.console.input with
  | nil =>
    rw [hinput] at hread
    exact absurd (Read.bytes.inj hread).symm hline
  | cons r rest =>
    rw [hinput] at hread
    exact congrArg (· :: rest) hread

/-- The prompt over an input that has ended is that over an input with an empty read. -/
theorem prompt_eq_enter (s : Session) :
    s.prompt =
      match (s.emit ["> "]).1 with
      | .error f => (s.emit ["> "]).2.fail f
      | .ok () =>
        let entered := s.asked.enter s.console.read.1
        match entered.1 with
        | some exit => (exit, entered.2)
        | none => entered.2.promptFrom s.console.input.tail := by
  rw [prompt, asked, Console.read_eq]
  cases hinput : s.console.input with
  | nil =>
    -- nothing is left to take from the input
    have same : (s.emit ["> "]).2.withInput [] = (s.emit ["> "]).2 := by
      rw [← hinput, ← s.input_emit ["> "]]
      rfl
    rw [promptFrom_nil, List.tail_nil, same]
    rfl
  | cons r rest => exact promptFrom_cons s r rest

theorem input_asked (s : Session) : s.asked.console.input = s.console.input.tail := rfl

/-- **A prompt is one turn**, and the prompt that follows unless it was the last. -/
theorem prompt_eq (s : Session) :
    s.prompt =
      match s.turn with
      | .error done => done
      | .ok t => t.prompt := by
  rw [prompt_eq_enter]
  have course := s.turn_spec
  generalize s.turn = result at course ⊢
  cases course with
  | unasked f hf => rw [hf]
  | unread complaint hok hread =>
    rw [hok, hread]
    rfl
  | ended hok hread =>
    rw [hok, hread]
    rfl
  | broken line hok hread hline hrun =>
    rw [hok, hread, enter_bytes, if_neg (by simpa using hline)]
    dsimp only
    rw [if_pos hrun]
    exact Prod.ext hrun.symm rfl
  | entered line hok hread hline hrun =>
    rw [hok, hread, enter_bytes, if_neg (by simpa using hline)]
    dsimp only
    rw [if_neg hrun]
    dsimp only
    -- the run has read nothing, so the reads to come are those of the session
    rw [prompt, input_run, input_asked]

theorem prompt_of_turn_error (hturn : s.turn = .error done) : s.prompt = done := by
  rw [prompt_eq, hturn]

theorem prompt_of_turn_ok (hturn : s.turn = .ok t) : s.prompt = t.prompt := by
  rw [prompt_eq, hturn]

/-- What a turn leaves of the input: one read less, if it came to reading. -/
theorem Turn.input_eq (h : Turn s (.error done)) :
    done.2.console.input =
      if (s.emit ["> "]).1.isOk then s.console.input.tail else s.console.input := by
  cases h with
  | unasked f hf =>
    rw [hf]
    exact s.input_emit _
  | unread complaint hok _ =>
    rw [hok]
    rfl
  | ended hok _ =>
    rw [hok]
    rfl
  | broken line hok _ _ _ =>
    rw [hok]
    exact s.asked.input_run _ _

/-- **How a prompt ends with a turn**: well if nothing is read, else because a stream failed. -/
theorem Turn.exit_cases (h : Turn s (.error done)) :
    done.1 = .ok ∧ (s.emit ["> "]).1 = .ok () ∧ s.console.read.1 = .bytes [] ∨
      done.1 = .ioError := by
  cases h with
  | unasked f hf =>
    -- the mark goes to a stream, so what fails is a stream
    obtain ⟨-, hask | hask⟩ := s.emit_cases ["> "]
    · rw [hask] at hf
      cases hf
    · rw [hask] at hf
      cases hf
      exact .inr rfl
  | unread complaint _ _ => exact .inr rfl
  | ended hok hread => exact .inl ⟨rfl, hok, hread⟩
  | broken line _ _ _ hrun => exact .inr hrun

end Turns

/-! ## Dialogues -/

section Dialogues

/-- **A dialogue**: turns in which lines are entered, and the prompt goes on. -/
inductive Dialogue : Session → List (List UInt8) → Session → Prop
  | silence (s : Session) : Dialogue s [] s
  | turn {s s' t : Session} {line : List UInt8} {lines : List (List UInt8)}
    (hread : s.console.read.1 = .bytes line) (hturn : s.turn = .ok s')
    (h : Dialogue s' lines t) : Dialogue s (line :: lines) t

/-- What is known of a session in which the prompt goes on. -/
theorem of_turn_ok (hturn : s.turn = .ok t) :
    ∃ line, (s.emit ["> "]).1 = .ok () ∧ s.console.input = .bytes line :: t.console.input ∧
      line ≠ [] ∧ t = (s.asked.run "repl" (withoutLineEnd line)).2 := by
  have course := s.turn_spec
  rw [hturn] at course
  cases course with
  | entered line hok hread hline hrun =>
    refine ⟨line, hok, ?_, hline, rfl⟩
    rw [input_run, input_asked]
    exact input_of_read hread hline

theorem Dialogue.prompt_eq (h : Dialogue s lines t) : s.prompt = t.prompt := by
  induction h with
  | silence => rfl
  | turn _ hturn _ ih => exact (prompt_of_turn_ok hturn).trans ih

theorem Dialogue.input_eq (h : Dialogue s lines t) :
    s.console.input = lines.map .bytes ++ t.console.input := by
  induction h with
  | silence => rfl
  | turn hread hturn _ ih =>
    obtain ⟨line, -, hinput, -, -⟩ := of_turn_ok hturn
    obtain rfl := Read.bytes.inj (hread.symm.trans (read_of_input hinput))
    rw [hinput, ih]
    rfl

theorem Reachable.asked (h : Reachable s) : Reachable s.asked :=
  (h.emit _).withInput _

theorem Reachable.turn (h : Reachable s) (hturn : s.turn = .ok t) : Reachable t := by
  obtain ⟨line, -, -, -, rfl⟩ := of_turn_ok hturn
  exact h.asked.run _ _

theorem Dialogue.reachable (h : Dialogue s lines t) (hs : Reachable s) : Reachable t := by
  induction h with
  | silence => exact hs
  | turn _ hturn _ ih => exact ih (hs.turn hturn)

/-- **Induction along a prompt**, from its last turn back to the first. -/
theorem prompt_induction {P : Session → Prop}
    (last : ∀ s, s.turn = .error s.prompt → P s)
    (next : ∀ s t, s.turn = .ok t → P t → P s) (s : Session) : P s := by
  cases hturn : s.turn with
  | error done =>
    apply last
    rw [prompt_of_turn_error hturn, hturn]
  | ok t =>
    have fewer : t.console.input.length < s.console.input.length := by
      obtain ⟨line, -, hinput, -, -⟩ := of_turn_ok hturn
      rw [hinput]
      exact Nat.lt_succ_self _
    exact next s t hturn (prompt_induction last next t)
termination_by s.console.input.length

/-- **A prompt is the fold of its turns**, one for each read and one for the end of the input. -/
theorem foldlM_turn (s : Session) :
    (s.console.input ++ [Read.bytes []]).foldlM (fun t _ => turn t) s = Except.error s.prompt := by
  induction s using prompt_induction with
  | last s hturn =>
    -- the fold stops here, whatever is still to be read
    cases s.console.input with
    | nil =>
      rw [List.nil_append, List.foldlM_cons, hturn]
      rfl
    | cons r rest =>
      rw [List.cons_append, List.foldlM_cons, hturn]
      rfl
  | next s t hturn ih =>
    obtain ⟨line, -, hinput, -, -⟩ := of_turn_ok hturn
    rw [hinput, List.cons_append, List.foldlM_cons, hturn, prompt_of_turn_ok hturn]
    exact ih

/-- The turns of a prompt are a dialogue up to the last. -/
theorem exists_dialogue (s : Session) :
    ∃ lines t, Dialogue s lines t ∧ Turn t (.error s.prompt) := by
  induction s using prompt_induction with
  | last s hturn => exact ⟨[], s, .silence s, hturn ▸ s.turn_spec⟩
  | next s t hturn ih =>
    obtain ⟨line, -, hinput, -, -⟩ := of_turn_ok hturn
    obtain ⟨lines, u, hdialogue, hlast⟩ := ih
    refine ⟨line :: lines, u, .turn (read_of_input hinput) hturn hdialogue, ?_⟩
    rw [prompt_of_turn_ok hturn]
    exact hlast

end Dialogues

/-! ## When a prompt goes on -/

section Progress

theorem Reachable.turn_ok_iff (h : Reachable s) (hok : (s.emit ["> "]).1 = .ok ())
    (hread : s.console.read.1 = .bytes line) (hline : line ≠ []) :
    (∃ t, s.turn = .ok t) ↔ s.asked.Shows "repl" (withoutLineEnd line) := by
  rw [← h.asked.exit_run_ne_ioError_iff, turn_of_line hok hread hline]
  dsimp only
  split
  · rename_i hrun
    simp [hrun]
  · rename_i hrun
    simp [hrun]

theorem NeverFails.ask_eq (h : NeverFails s) : (s.emit ["> "]).1 = .ok () := by
  obtain ⟨sink, hemit, -⟩ := emit_of_fits (h.stdout.fits (bytesOf ["> "]))
  rw [hemit, if_neg h.stdout.flushed]

theorem NeverFails.asked (h : NeverFails s) : NeverFails s.asked :=
  have emitted := h.emit ["> "]
  ⟨emitted.stdout, emitted.stderr⟩

theorem NeverFails.turn (h : NeverFails s) (hturn : s.turn = .ok t) : NeverFails t := by
  obtain ⟨line, -, -, -, rfl⟩ := of_turn_ok hturn
  exact h.asked.run _ _

/-- **Lines do not end a prompt** on streams that never fail, whatever faults they have. -/
theorem Reachable.dialogue_of_neverFails (hs : Reachable s) (h : NeverFails s)
    (hinput : s.console.input = lines.map .bytes ++ rest) (hlines : ∀ line ∈ lines, line ≠ []) :
    ∃ t, Dialogue s lines t ∧ t.console.input = rest := by
  induction lines generalizing s with
  | nil => exact ⟨s, .silence s, hinput⟩
  | cons line lines ih =>
    have hread := read_of_input hinput
    obtain ⟨s', hturn⟩ := (hs.turn_ok_iff h.ask_eq hread (hlines line List.mem_cons_self)).mpr
      (h.asked.shows _ _)
    obtain ⟨line', -, hinput', -, -⟩ := of_turn_ok hturn
    have left := (List.cons.inj (hinput.symm.trans hinput')).2.symm
    obtain ⟨t, hdialogue, ht⟩ := ih (hs.turn hturn) (h.turn hturn) left
      (fun line' hmem => hlines line' (List.mem_cons_of_mem line hmem))
    exact ⟨t, .turn hread hturn hdialogue, ht⟩

/-- A prompt ends well exactly when its dialogue comes to an empty read. -/
theorem exit_prompt_eq_ok_iff (s : Session) :
    s.prompt.1 = .ok ↔
      ∃ lines t, Dialogue s lines t ∧ (t.emit ["> "]).1 = .ok () ∧
        t.console.read.1 = .bytes [] := by
  constructor
  · intro hexit
    obtain ⟨lines, t, hdialogue, hlast⟩ := s.exists_dialogue
    rcases hlast.exit_cases with ⟨-, hok, hread⟩ | herror
    · exact ⟨lines, t, hdialogue, hok, hread⟩
    · rw [hexit] at herror
      cases herror
  · rintro ⟨lines, t, hdialogue, hok, hread⟩
    rw [hdialogue.prompt_eq, prompt_of_turn_error (turn_of_end hok hread)]

end Progress

/-- **What a prompt does, turn by turn.** It is the fold of its turns, each of which asks, reads
once and runs what was read. Up to the last turn they are a dialogue; what has been read by then is gone
from the input, and nothing else. The prompt ends well exactly if its dialogue comes to an empty
read, and otherwise with a failed stream: a line ends it only if the streams do not take all that is
shown of it, and that is what a blank session shows. -/
theorem Reachable.prompt_turns (h : Reachable s) :
    (s.console.input ++ [Read.bytes []]).foldlM (fun (t : Session) _ => t.turn) s =
      Except.error s.prompt ∧
    (∃ lines t, Dialogue s lines t ∧ Turn t (.error s.prompt) ∧
      s.console.input = lines.map .bytes ++ t.console.input ∧
      s.prompt.2.console.input =
        if (t.emit ["> "]).1.isOk then t.console.input.tail else t.console.input) ∧
    (s.prompt.1 = .ok ∨ s.prompt.1 = .ioError) ∧
    (s.prompt.1 = .ok ↔
      ∃ lines t, Dialogue s lines t ∧ (t.emit ["> "]).1 = .ok () ∧ t.console.read.1 = .bytes []) ∧
    (∀ lines t line, Dialogue s lines t →
      (t.emit ["> "]).1 = .ok () → t.console.read.1 = .bytes line → line ≠ [] →
        ((∃ u, t.turn = .ok u) ↔ t.asked.Shows "repl" (withoutLineEnd line)) ∧
        let own := t.asked.blank.run "repl" (withoutLineEnd line)
        Ends (t.asked.run "repl" (withoutLineEnd line)) own.1
          (t.asked.console.stdout.written ++ own.2.console.stdout.written)
          (t.asked.console.stderr.written ++ own.2.console.stderr.written)) ∧
    (NeverFails s → ∀ lines rest,
      s.console.input = lines.map .bytes ++ rest → (∀ line ∈ lines, line ≠ []) →
        ∃ t, Dialogue s lines t ∧ t.console.input = rest) := by
  obtain ⟨lines, t, hdialogue, hlast⟩ := s.exists_dialogue
  refine ⟨s.foldlM_turn, ⟨lines, t, hdialogue, hlast, hdialogue.input_eq, hlast.input_eq⟩, ?_,
    s.exit_prompt_eq_ok_iff, ?_, ?_⟩
  · rcases hlast.exit_cases with ⟨hok, -, -⟩ | herror
    · exact .inl hok
    · exact .inr herror
  · intro lines t line hdialogue hok hread hline
    have reached := hdialogue.reachable h
    exact ⟨reached.turn_ok_iff hok hread hline, reached.asked.ends_blank _ _⟩
  · intro hsound lines rest hinput hlines
    exact h.dialogue_of_neverFails hsound hinput hlines

/-- A session in which a line with a fault and a carriage return is entered before the input
pauses. -/
def pausing : Session :=
  { store := .sample, console := .withInput [[0x40, 0x0D, 0x0A], [], [0x78]] }

theorem prompt_turns_pausing :
    (∃ t, Dialogue pausing [[0x40, 0x0D, 0x0A]] t ∧
      t.console.input = [.bytes [], .bytes [0x78]]) ∧
    pausing.prompt.1 = .ok ∧ pausing.prompt.2.console.input = [.bytes [0x78]] ∧
    pausing.prompt.2.console.stdout.written = Utf8.bytes "> EOF  \n> " ∧
    pausing.prompt.2.console.stderr.written =
      Utf8.bytes ("error: Unexpected character.\n" ++ "  ┌─ repl:1:1\n" ++ "  │\n" ++ "1 │ @\n" ++
        "  │ ^ error on line 1\n" ++ "\n") := by
  have reachable : Reachable pausing := .start .rich _ .sample
  obtain ⟨-, -, -, -, -, sound⟩ := reachable.prompt_turns
  refine ⟨?_, by decide +kernel, by decide +kernel, by decide +kernel, by decide +kernel⟩
  apply sound ⟨⟨rfl, rfl⟩, ⟨rfl, rfl⟩⟩
  · rfl
  · decide

end Session

end LoxLexer
