import LoxLexer.Proofs.ReportLines

/-!
# Independence of the past

All that a session carries from one step to the next, apart from its streams, is its file table.
It never shows: two sessions that can be reached, on the same streams and with the same store and
style, write the same and end in the same way, whatever sources each of them has reported on. The
numbers under which they keep a source may differ, but the report of a source asks only about that
source, and gets the same answers.

## Main definitions

* `Session.Alike s t`: the sessions `s` and `t` differ in their file tables alone
* `Session.Match x y`: the results `x` and `y` are the same, up to file tables

## Main results

* `Session.block_keep_eq`: the report of a diagnostic does not depend on the file table
* `Session.Alike.run`, `Session.Alike.step`: alike sessions take alike steps
* `Session.Reachable.steps_independent`: the past of a session does not show in its steps
-/

namespace LoxLexer.Session

variable {s t : Session} {name : String} {source : List UInt8}

/-- **Alike sessions** differ in their file tables alone. -/
structure Alike (s t : Session) : Prop where
  /-- They report in the same style. -/
  style_eq : s.style = t.style
  /-- Their streams are in the same state. -/
  console_eq : s.console = t.console
  /-- They read scripts from the same store. -/
  store_eq : s.store = t.store

/-- The same result, and alike sessions. -/
def Match {α : Type} (x y : α × Session) : Prop :=
  x.1 = y.1 ∧ Alike x.2 y.2

/-! ## Output -/

section Output

theorem Alike.withStdout (h : Alike s t) (sink : Sink) :
    Alike (s.withStdout sink) (t.withStdout sink) := by
  refine ⟨h.style_eq, ?_, h.store_eq⟩
  simp only [Session.withStdout, h.console_eq]

theorem Alike.withStderr (h : Alike s t) (sink : Sink) :
    Alike (s.withStderr sink) (t.withStderr sink) := by
  refine ⟨h.style_eq, ?_, h.store_eq⟩
  simp only [Session.withStderr, h.console_eq]

theorem Alike.withInput (h : Alike s t) (reads : List Read) :
    Alike (s.withInput reads) (t.withInput reads) := by
  refine ⟨h.style_eq, ?_, h.store_eq⟩
  simp only [Session.withInput, h.console_eq]

theorem Alike.withFiles (h : Alike s t) (files files' : FileTable) :
    Alike { s with files } { t with files := files' } :=
  ⟨h.style_eq, h.console_eq, h.store_eq⟩

theorem Alike.fail (h : Alike s t) (f : Failure) : Match (s.fail f) (t.fail f) := by
  refine ⟨rfl, ?_⟩
  simp only [Session.fail, h.console_eq]
  exact h.withStderr _

theorem Alike.emit (h : Alike s t) (texts : List String) : Match (s.emit texts) (t.emit texts) := by
  unfold Session.emit
  rw [h.console_eq]
  split
  · exact ⟨rfl, h.withStdout _⟩
  · split
    · exact ⟨rfl, h.withStdout _⟩
    · exact ⟨rfl, h.withStdout _⟩

theorem Alike.reportPlain (h : Alike s t) (ds : List Diagnostic) :
    Match (s.reportPlain ds) (t.reportPlain ds) := by
  unfold Session.reportPlain
  rw [h.console_eq]
  split
  · exact ⟨rfl, h.withStderr _⟩
  · exact ⟨rfl, h.withStderr _⟩

/-- Alike sessions show the same blocks, if their file tables give the same answers. -/
theorem Alike.reportRich {id id' : Nat} {ds : List Diagnostic} (h : Alike s t)
    (hblock : ∀ d ∈ ds, d.block s.files id = d.block t.files id') :
    Match (s.reportRich id ds) (t.reportRich id' ds) := by
  induction ds generalizing s t with
  | nil => exact ⟨rfl, h⟩
  | cons d ds ih =>
    unfold Session.reportRich
    rw [hblock d List.mem_cons_self, h.console_eq]
    split
    · exact ⟨rfl, h⟩
    · split
      · exact ⟨rfl, h.withStderr _⟩
      · -- what is printed leaves the file tables as they are
        refine ih (h.withStderr _) ?_
        intro d' hd'
        exact hblock d' (List.mem_cons_of_mem d hd')

theorem Alike.report {id id' : Nat} {ds : List Diagnostic} (h : Alike s t)
    (hblock : ∀ d ∈ ds, d.block s.files id = d.block t.files id') :
    Match (s.report id ds) (t.report id' ds) := by
  unfold Session.report
  rw [h.style_eq]
  split
  · exact h.reportPlain ds
  · exact h.reportRich hblock

end Output

/-! ## Steps -/

section Steps

/-- **The report of a diagnostic does not depend on the file table** that its source is put into. -/
theorem block_keep_eq (hs : Reachable s) (ht : Reachable t) {d : Diagnostic}
    (hd : d ∈ (scan source).diagnostics) :
    d.block (s.keep name source).2 (s.keep name source).1 =
      d.block (t.keep name source).2 (t.keep name source).1 := by
  obtain ⟨i, before, line, after, hi, hline⟩ := exists_isLine_of_mem_diagnostics hd
  rw [(hs.keeps name source).block_eq hline hi, (ht.keeps name source).block_eq hline hi]

theorem Alike.reported (h : Alike s t) (hs : Reachable s) (ht : Reachable t) (name : String)
    (source : List UInt8) :
    Match (s.reported name source) (t.reported name source) := by
  unfold Session.reported
  refine Alike.report ((h.emit _).2.withFiles _ _) ?_
  intro d hd
  exact block_keep_eq hs ht hd

/-- **Alike sessions run a source alike.** -/
theorem Alike.run (h : Alike s t) (hs : Reachable s) (ht : Reachable t) (name : String)
    (source : List UInt8) : Match (s.run name source) (t.run name source) := by
  obtain ⟨hresult, hemit⟩ := h.emit (dump source)
  obtain ⟨hresult', hreported⟩ := h.reported hs ht name source
  rw [Session.run, Session.run, showSource_eq, showSource_eq, ← hresult, ← hresult']
  cases (s.emit (dump source)).1 with
  | error f => exact hemit.fail f
  | ok =>
    cases (scan source).hadError with
    | false => exact ⟨rfl, hemit⟩
    | true =>
      cases (s.reported name source).1 with
      | error f => exact hreported.fail f
      | ok => exact ⟨rfl, hreported⟩

theorem enter_bytes (s : Session) (line : List UInt8) :
    s.enter (.bytes line) =
      if line.isEmpty then (some .ok, s)
      else
        let done := s.run "repl" (withoutLineEnd line)
        (if done.1 = .ioError then some .ioError else none, done.2) := by
  rw [enter, promptName, trimLineEnd_eq]
  generalize s.run "repl" (withoutLineEnd line) = done
  obtain ⟨exit, s'⟩ := done
  cases exit <;> rfl

theorem promptFrom_nil (s : Session) :
    s.promptFrom [] =
      match (s.emit ["> "]).1 with
      | .error f => (s.emit ["> "]).2.fail f
      | .ok () => (.ok, (s.emit ["> "]).2) := by
  rw [promptFrom, ask, promptMark]
  obtain ⟨_ | _, s'⟩ := s.emit ["> "] <;> rfl

theorem promptFrom_cons (s : Session) (r : Read) (rest : List Read) :
    s.promptFrom (r :: rest) =
      match (s.emit ["> "]).1 with
      | .error f => (s.emit ["> "]).2.fail f
      | .ok () =>
        let entered := ((s.emit ["> "]).2.withInput rest).enter r
        match entered.1 with
        | some exit => (exit, entered.2)
        | none => entered.2.promptFrom rest := by
  rw [promptFrom, ask, promptMark]
  obtain ⟨_ | _, s'⟩ := s.emit ["> "]
  · rfl
  · dsimp only
    obtain ⟨_ | _, s''⟩ := (s'.withInput rest).enter r <;> rfl

/-! ### Steps lead from reachable sessions to reachable ones -/

theorem Reachable.emit (h : Reachable s) (texts : List String) : Reachable (s.emit texts).2 := by
  obtain ⟨⟨sink, hsink⟩, -⟩ := s.emit_cases texts
  rw [hsink]
  exact h.world _ _

theorem Reachable.withInput (h : Reachable s) (reads : List Read) :
    Reachable (s.withInput reads) :=
  h.world _ _

theorem Reachable.run (h : Reachable s) (name : String) (source : List UInt8) :
    Reachable (s.run name source).2 :=
  h.step (.run name source)

theorem Reachable.enter (h : Reachable s) (r : Read) : Reachable (s.enter r).2 := by
  cases r with
  | failure complaint => exact h.world _ _
  | bytes line =>
    rw [enter_bytes]
    split
    · exact h
    · exact h.run _ _

/-! ### Alike sessions take alike steps -/

theorem Alike.enter (h : Alike s t) (hs : Reachable s) (ht : Reachable t) (r : Read) :
    Match (s.enter r) (t.enter r) := by
  cases r with
  | failure complaint => exact ⟨rfl, (h.fail _).2⟩
  | bytes line =>
    rw [enter_bytes, enter_bytes]
    split
    · exact ⟨rfl, h⟩
    · obtain ⟨hexit, halike⟩ := h.run hs ht "repl" (withoutLineEnd line)
      refine ⟨?_, halike⟩
      dsimp only
      rw [hexit]

theorem Alike.promptFrom (h : Alike s t) (hs : Reachable s) (ht : Reachable t)
    (reads : List Read) : Match (s.promptFrom reads) (t.promptFrom reads) := by
  induction reads generalizing s t with
  | nil =>
    obtain ⟨hresult, hask⟩ := h.emit ["> "]
    rw [promptFrom_nil, promptFrom_nil, ← hresult]
    cases (s.emit ["> "]).1 with
    | error f => exact hask.fail f
    | ok => exact ⟨rfl, hask⟩
  | cons r rest ih =>
    obtain ⟨hresult, hask⟩ := h.emit ["> "]
    have hs' := (hs.emit ["> "]).withInput rest
    have ht' := (ht.emit ["> "]).withInput rest
    obtain ⟨hresult', hentered⟩ := (hask.withInput rest).enter hs' ht' r
    rw [promptFrom_cons, promptFrom_cons, ← hresult]
    cases (s.emit ["> "]).1 with
    | error f => exact hask.fail f
    | ok =>
      dsimp only
      rw [← hresult']
      cases (((s.emit ["> "]).2.withInput rest).enter r).1 with
      | some exit => exact ⟨rfl, hentered⟩
      | none => exact ih hentered (hs'.enter r) (ht'.enter r)

/-- **Alike sessions take alike steps**, whatever the step. -/
theorem Alike.step (h : Alike s t) (hs : Reachable s) (ht : Reachable t) (step : Step) :
    Match (s.step step) (t.step step) := by
  cases step with
  | run name source => exact h.run hs ht name source
  | runFile path =>
    change Match (s.runFile path) (t.runFile path)
    unfold runFile
    rw [h.store_eq]
    split
    · exact h.run hs ht path _
    · exact h.fail _
  | prompt =>
    change Match (s.promptFrom s.console.input) (t.promptFrom t.console.input)
    rw [h.console_eq]
    exact h.promptFrom hs ht _

theorem Alike.perform (h : Alike s t) (hs : Reachable s) (ht : Reachable t) (step : Step) :
    Match (s.perform step) (t.perform step) := by
  obtain ⟨hexit, halike⟩ := h.step hs ht step
  have hcollect : Match (s.step step).2.collect (t.step step).2.collect := by
    unfold collect
    rw [halike.console_eq]
    exact ⟨rfl, (halike.withStdout _).withStderr _⟩
  refine ⟨?_, hcollect.2⟩
  simp only [Session.perform, hexit, hcollect.1]

theorem Reachable.perform (h : Reachable s) (step : Step) : Reachable (s.perform step).2 :=
  (h.step step).world _ _

theorem Alike.performAll (h : Alike s t) (hs : Reachable s) (ht : Reachable t)
    (steps : List Step) : s.performAll steps = t.performAll steps := by
  induction steps generalizing s t with
  | nil => rfl
  | cons step steps ih =>
    obtain ⟨houtcome, halike⟩ := h.perform hs ht step
    rw [Session.performAll, Session.performAll, houtcome,
      ih halike (hs.perform step) (ht.perform step)]

end Steps

/-- **The past of a session does not show.** Two sessions that can be reached, each by steps of its
own, and that have the same style, streams and store, run every source in the same way: they end
alike, and leave their streams in the same state, having written the same bytes. The same holds of
all other steps, and so of everything that is asked of them from then on. -/
theorem Reachable.steps_independent (hs : Reachable s) (ht : Reachable t)
    (hstyle : s.style = t.style) (hconsole : s.console = t.console) (hstore : s.store = t.store) :
    (∀ name source,
      (s.run name source).1 = (t.run name source).1 ∧
      (s.run name source).2.console = (t.run name source).2.console ∧
      (s.perform (.run name source)).1 = (t.perform (.run name source)).1) ∧
    (∀ step,
      (s.step step).1 = (t.step step).1 ∧
      (s.step step).2.console = (t.step step).2.console) ∧
    ∀ steps, s.performAll steps = t.performAll steps := by
  have alike : Alike s t := ⟨hstyle, hconsole, hstore⟩
  refine ⟨?_, ?_, alike.performAll hs ht⟩
  · intro name source
    have ran := alike.run hs ht name source
    exact ⟨ran.1, ran.2.console_eq, (alike.perform hs ht _).1⟩
  · intro step
    have stepped := alike.step hs ht step
    exact ⟨stepped.1, stepped.2.console_eq⟩

/-- A session that has reported on another text under the same name does so again like a new one. -/
theorem steps_independent_reporting :
    reporting.files.files.size = 1 ∧
      (({ reporting with console := {}, store := .sample } : Session).perform
          (.run "main.lox" brokenText)).1 =
        (({ store := .sample } : Session).perform (.run "main.lox" brokenText)).1 := by
  have old : Reachable { reporting with console := {}, store := .sample } :=
    reachable_reporting.world {} .sample
  have new : Reachable { store := .sample } := .start .rich {} .sample
  have style : reporting.style = .rich := by decide +kernel
  refine ⟨by decide +kernel, ?_⟩
  exact ((old.steps_independent new style rfl rfl).1 "main.lox" brokenText).2.2

end LoxLexer.Session
