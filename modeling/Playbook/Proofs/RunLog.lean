import Mathlib.Data.List.Basic
import Playbook.RunLog

/-! # What a log holds

A logger passes over some events before it asks whether an event ends the run, so it stops at the end of a run only
because every level admits that end. Its lines are then told by a filter of the events that were published.

Main statements: `passes_of_isTerminal` says that no level hides the end of a run, `event_eq_of_entry_eq` that a line
tells its event, `Logger.receive_cases` what a logger does with one event, `Logger.run_eq` what it does with a
sequence of them, and `Logger.log_of_events` puts together what it has written, when it has stopped, and how the
levels compare.
-/

namespace Playbook.RunLog

/-! ## Levels -/

/-- Every level admits the end of a run. -/
theorem passes_of_isTerminal {level : Nat} {e : Event} (h : e.isTerminal = true) : passes level e = true := by
  rcases e with ⟨agent, what⟩
  have hlevel : levelOf what = 0 := by
    cases what with
    | runCompleted _ _ _ => rfl
    | runCancelled _ => rfl
    | runFailed _ _ => rfl
    | _ => cases h
  simp [passes, hlevel]

/-- What a level admits, a higher one admits. -/
theorem passes_mono {level higher : Nat} (hle : level ≤ higher) {e : Event} (h : passes level e = true) :
    passes higher e = true := by
  simp only [passes, decide_eq_true_eq] at h ⊢
  omega

/-! ## Lines -/

/-- What a line holds: whose event it is, of which kind, what else is told of it, and when, if this is known. -/
theorem field?_entry (n : Notice) :
    (entry n).field? "agent_id" = some (.str n.event.agent) ∧
    (entry n).field? "event_type" = some (.str n.event.what.name) ∧
    (entry n).field? "detail" = some (detail n.reading? n.event.what) ∧
    (entry n).field? "timestamp" = n.reading?.map (.str ·.moment.text) := by
  rcases n with ⟨e, _ | r⟩ <;> simp [entry, Json.field?, Fields.get?]

/-- Events of one kind that differ have different details, save emissions that begin alike. -/
theorem eq_of_detail_eq {what what' : Happening} {reading? reading?' : Option Reading}
    (hkind : what.name = what'.name) (hdetail : detail reading? what = detail reading?' what') :
    what = what' ∨ ∃ content content', what = .emitted content ∧ what' = .emitted content' ∧
      Text.truncated contentLimit content = Text.truncated contentLimit content' := by
  -- of one kind, the two details have the same keys, and so the same values; only the clock may be missing in one
  cases what <;> cases what' <;> simp only [Happening.name, String.reduceEq] at hkind
  case' nodeCompleted.nodeCompleted => cases reading? <;> cases reading?'
  all_goals
    simp only [detail, Option.map_none, Option.map_some, Option.toList_none, Option.toList_some, Json.ofFields,
      Dict.ofList, Dict.empty, Dict.insert, Fields.insert, List.foldl_cons, List.foldl_nil, String.reduceLT,
      String.reduceEq, if_true, if_false, Json.obj.injEq, List.cons.injEq, Prod.mk.injEq, Json.str.injEq,
      Json.bool.injEq, Json.int.injEq, Int.natCast_inj, true_and, and_true, false_and] at hdetail
  case emitted.emitted content content' => exact .inr ⟨content, content', rfl, rfl, hdetail⟩
  case usageUpdate.usageUpdate usage usage' =>
    cases usage
    cases usage'
    obtain ⟨rfl, rfl⟩ := hdetail
    exact .inl rfl
  all_goals
    refine .inl ?_
    simp only [hdetail]

/-- A line tells the event, of an emission at least its beginning. -/
theorem event_eq_of_entry_eq {n n' : Notice} (h : entry n = entry n') :
    n.event = n'.event ∨ ∃ agent content content', n.event = ⟨agent, .emitted content⟩ ∧
      n'.event = ⟨agent, .emitted content'⟩ ∧
      Text.truncated contentLimit content = Text.truncated contentLimit content' := by
  obtain ⟨hagent, hkind, hdetail, -⟩ := field?_entry n
  obtain ⟨hagent', hkind', hdetail', -⟩ := field?_entry n'
  rw [h] at hagent hkind hdetail
  have hsame : n.event.agent = n'.event.agent := by simpa [hagent] using hagent'
  have hkinds : n.event.what.name = n'.event.what.name := by simpa [hkind] using hkind'
  have hdetails : detail n.reading? n.event.what = detail n'.reading? n'.event.what := by
    simpa [hdetail] using hdetail'
  rcases n with ⟨⟨agent, what⟩, reading?⟩
  rcases n' with ⟨⟨agent', what'⟩, reading?'⟩
  obtain rfl : agent = agent' := hsame
  rcases eq_of_detail_eq hkinds hdetails with rfl | ⟨content, content', rfl, rfl, hbegin⟩
  · exact .inl rfl
  · exact .inr ⟨agent, content, content', rfl, rfl, hbegin⟩

/-! ## The run of an agent -/

/-- What is told up to the first end of a run, with this one. -/
def throughEnd : List Notice → List Notice
  | [] => []
  | n :: rest => if n.event.isTerminal then [n] else n :: throughEnd rest

/-- What is told of an agent up to the end of its run. -/
def runOf (agent : String) (notices : List Notice) : List Notice :=
  throughEnd (notices.filter (·.event.agent == agent))

theorem runOf_cons_of_ne {agent : String} {n : Notice} {notices : List Notice} (h : n.event.agent ≠ agent) :
    runOf agent (n :: notices) = runOf agent notices := by
  rw [runOf, List.filter_cons_of_neg (by simp [h]), runOf]

theorem runOf_cons_of_eq {agent : String} {n : Notice} {notices : List Notice} (h : n.event.agent = agent) :
    runOf agent (n :: notices) = if n.event.isTerminal then [n] else n :: runOf agent notices := by
  rw [runOf, List.filter_cons_of_pos (by simp [h]), throughEnd, runOf]

/-- The run of an agent has an end if the agent has published one. -/
theorem any_isTerminal_runOf (agent : String) (notices : List Notice) :
    (runOf agent notices).any (·.event.isTerminal) = true ↔
      ∃ n ∈ notices, n.event.agent = agent ∧ n.event.isTerminal = true := by
  induction notices with
  | nil => simp [runOf, throughEnd]
  | cons n notices ih =>
    by_cases hagent : n.event.agent = agent
    · rw [runOf_cons_of_eq hagent]
      cases hend : n.event.isTerminal with
      | true => simp [hagent, hend]
      | false => simp [hend, ih]
    · rw [runOf_cons_of_ne hagent, ih]
      simp [hagent]

/-! ## One event, and all of them -/

namespace Logger

variable {l : Logger}

theorem run_cons (l : Logger) (n : Notice) (notices : List Notice) :
    l.run (n :: notices) = (l.receive n).run notices :=
  rfl

theorem receive_of_stopped (h : l.stopped = true) (n : Notice) : l.receive n = l := by
  rw [receive, if_pos h]

/-- A logger that has stopped receives nothing. -/
theorem run_of_stopped (h : l.stopped = true) (notices : List Notice) : l.run notices = l := by
  induction notices with
  | nil => rfl
  | cons n notices ih =>
    rw [run_cons, receive_of_stopped h, ih]

/-- A logger that has not stopped passes over an event, or writes its line and stops if it ends the run. -/
theorem receive_cases (h : l.stopped = false) (n : Notice) :
    (n.event.agent ≠ l.agent ∧ l.receive n = l) ∨
    (n.event.agent = l.agent ∧ passes l.level n.event = false ∧ l.receive n = l) ∨
    (n.event.agent = l.agent ∧ passes l.level n.event = true ∧
      l.receive n = { l with written := l.written ++ [entry n], stopped := n.event.isTerminal }) := by
  unfold receive entry?
  rw [h]
  by_cases hagent : n.event.agent = l.agent
  · cases hpasses : passes l.level n.event with
    | false => simp [hagent]
    | true => simp [hagent]
  · simp [hagent]

/-- A logger writes the lines of the agent's run that its level admits, and stops if the run ends. -/
theorem run_eq (h : l.stopped = false) (notices : List Notice) :
    l.run notices =
      { l with
        written := l.written ++ ((runOf l.agent notices).filter (passes l.level ·.event)).map entry
        stopped := (runOf l.agent notices).any (·.event.isTerminal) } := by
  -- the lines that are already there stand before those that follow
  induction notices generalizing l with
  | nil => simp [run, runOf, throughEnd, ← h]
  | cons n notices ih =>
    rw [run_cons]
    rcases receive_cases h n with ⟨hagent, hsame⟩ | ⟨hagent, hhidden, hsame⟩ | ⟨hagent, hpasses, hline⟩
    · rw [hsame, runOf_cons_of_ne hagent]
      exact ih h
    · -- what is hidden is not the end of the run
      have hgoes : n.event.isTerminal = false := by
        cases hend : n.event.isTerminal with
        | false => rfl
        | true =>
          rw [passes_of_isTerminal hend] at hhidden
          cases hhidden
      rw [hsame, runOf_cons_of_eq hagent]
      simpa [hgoes, hhidden] using ih h
    · rw [hline, runOf_cons_of_eq hagent]
      cases hend : n.event.isTerminal with
      | true =>
        refine (run_of_stopped rfl notices).trans ?_
        simp [hend, hpasses]
      | false =>
        refine (ih rfl).trans ?_
        simp [hend, hpasses]

/-- What a logger writes are the lines of its agent's run that its level admits. -/
theorem log_eq (agent : String) (level : Nat) (notices : List Notice) :
    log agent level notices = ((runOf agent notices).filter (passes level ·.event)).map entry := by
  rw [log, run_eq rfl notices]
  rfl

/-- For all events that agents publish, in any order, and whatever the clock shows: what a logger has written are the
lines of its agent's run up to the end of it, as far as the level admits them; it has stopped exactly if that run has
ended, which no level hides; and a higher level adds lines and drops none. -/
theorem log_of_events (agent : String) (level : Nat) (notices : List Notice) :
    ((start agent level).run notices).written = ((runOf agent notices).filter (passes level ·.event)).map entry ∧
    (((start agent level).run notices).stopped = true ↔
      ∃ n ∈ notices, n.event.agent = agent ∧ n.event.isTerminal = true) ∧
    (∀ e : Event, e.isTerminal = true → passes level e = true) ∧
    ∀ higher, level ≤ higher → (log agent level notices).Sublist (log agent higher notices) := by
  refine ⟨log_eq agent level notices, ?_, fun e => passes_of_isTerminal, ?_⟩
  · rw [run_eq rfl notices]
    exact any_isTerminal_runOf agent notices
  · intro higher hle
    rw [log_eq agent level, log_eq agent higher]
    exact (List.monotone_filter_right (runOf agent notices) fun n => passes_mono hle).map entry

end Logger

namespace Newsroom

/-- What is told some seconds into 2024. -/
def told (seconds : Int) (e : Event) : Notice := ⟨e, some ⟨⟨1704067200 + seconds, 0⟩, 0⟩⟩

/-- Two agents run at the same time; one of them starts again when its run is over. -/
def notices : List Notice :=
  [told 0 ⟨"ada", .runStarted "greet"⟩, told 1 ⟨"bo", .runStarted "tell"⟩,
    told 2 ⟨"ada", .nodeStarted "greet" "compose" 1⟩, told 2 ⟨"bo", .runFailed "tell" "no words"⟩,
    told 5 ⟨"ada", .runCompleted "greet" 1 0⟩, told 8 ⟨"ada", .runStarted "part"⟩]

end Newsroom

/-- A log of the lowest level holds the start and the end of the first run. -/
theorem Newsroom.log_of_ada :
    ((Logger.start "ada" 0).run notices).written =
      [entry (told 0 ⟨"ada", .runStarted "greet"⟩), entry (told 5 ⟨"ada", .runCompleted "greet" 1 0⟩)] ∧
    ((Logger.start "ada" 0).run notices).stopped = true ∧
    passes 0 ⟨"bo", .runFailed "tell" "no words"⟩ = true ∧
    (log "ada" 0 notices).Sublist (log "ada" 3 notices) := by
  obtain ⟨hwritten, hstopped, hpasses, hlevels⟩ := Logger.log_of_events "ada" 0 notices
  have hrun : (runOf "ada" notices).filter (passes 0 ·.event) =
      [told 0 ⟨"ada", .runStarted "greet"⟩, told 5 ⟨"ada", .runCompleted "greet" 1 0⟩] := by decide
  rw [hrun] at hwritten
  exact ⟨hwritten, hstopped.2 ⟨told 5 ⟨"ada", .runCompleted "greet" 1 0⟩, by decide, rfl, rfl⟩, hpasses _ rfl,
    hlevels 3 (by decide)⟩

end Playbook.RunLog
