import Playbook.Proofs.Run.Replay
import Playbook.Proofs.RunLog
import Playbook.RunLog.Shutdown

/-! # What a log has lost when its logger is stopped

A logger that has been told to stop may do so although events of the run are left for it. What it has written by then
is the log of the events that it has received, so it can be any beginning of the complete log, and its end, which tells
how the run has ended, is what is lost first.

Main statements: `Received.step` says that a logger has received a beginning of the events, whatever happens next,
`exists_stopped` that it can be any of them, `logs_at_shutdown` which logs a run can leave, and `isRun_published` that
the engine publishes the events of a run.
-/

namespace Playbook.RunLog

/-! ## The channel -/

theorem le_powerAbove (n : Nat) : n ≤ powerAbove n := by
  rw [powerAbove]
  split
  case isTrue hle => exact hle
  case isFalse _ =>
    have hlt : n - 1 < 2 ^ (Nat.log2 (n - 1) + 1) := Nat.lt_log2_self
    exact Nat.le_of_pred_lt hlt

/-- A channel keeps all events if it has room for them. -/
theorem retained_of_le {α : Type} {capacity : Nat} {published : List α} (hroom : published.length ≤ capacity) :
    retained capacity published = published := by
  rw [retained, Nat.sub_eq_zero_of_le (hroom.trans (le_powerAbove capacity)), List.drop_zero]

/-- One more event finds room if there is room for those that follow as well. -/
theorem retained_concat {α : Type} {capacity : Nat} {queue ahead : List α} {a : α}
    (hroom : (queue ++ a :: ahead).length ≤ capacity) : retained capacity (queue ++ [a]) = queue ++ [a] := by
  refine retained_of_le (le_trans ?_ hroom)
  simp only [List.length_append, List.length_cons, List.length_nil]
  omega

/-! ## Logs of runs -/

/-- The events of a run are those of its agent, and only the last one ends a run. -/
structure IsRun (agent : String) (events : List Event) : Prop where
  own : ∀ e ∈ events, e.agent = agent
  ends : ∃ before last, events = before ++ [last] ∧ last.isTerminal = true ∧ ∀ e ∈ before, e.isTerminal = false

theorem throughEnd_append {before : List Notice} (hgoes : ∀ n ∈ before, n.event.isTerminal = false)
    (notices : List Notice) : throughEnd (before ++ notices) = before ++ throughEnd notices := by
  induction before with
  | nil => rfl
  | cons n before ih =>
    have hfirst : n.event.isTerminal = false := hgoes n List.mem_cons_self
    rw [List.cons_append, throughEnd, hfirst, ih fun n' hn' => hgoes n' (List.mem_cons_of_mem n hn')]
    rfl

namespace IsRun

variable {agent : String} {notices : List Notice}

/-- Of a run that is told only the last notice tells its end. -/
theorem exists_last (hrun : IsRun agent (notices.map Notice.event)) :
    ∃ before last, notices = before ++ [last] ∧ last.event.isTerminal = true ∧
      ∀ n ∈ before, n.event.isTerminal = false := by
  obtain ⟨before, last, heq, hlast, hgoes⟩ := hrun.ends
  obtain ⟨before, ending, rfl, rfl, hending⟩ := List.map_eq_append_iff.1 heq
  obtain ⟨n, rfl, rfl⟩ := List.map_eq_singleton_iff.1 hending
  exact ⟨before, n, rfl, hlast, fun n' hn' => hgoes n'.event (List.mem_map_of_mem hn')⟩

/-- Before its last event a run goes on. -/
theorem goes_on (hrun : IsRun agent (notices.map Notice.event)) {k : Nat} (hk : k < notices.length) :
    ∀ n ∈ notices.take k, n.event.isTerminal = false := by
  obtain ⟨before, last, rfl, -, hgoes⟩ := hrun.exists_last
  have hle : k ≤ before.length := by simpa [Nat.lt_succ_iff] using hk
  rw [List.take_append_of_le_length hle]
  exact fun n hn => hgoes n (List.mem_of_mem_take hn)

/-- Nothing comes after the end of a run, and there is none in its beginnings. -/
theorem runOf_take (hrun : IsRun agent (notices.map Notice.event)) (k : Nat) :
    runOf agent (notices.take k) = notices.take k := by
  have hown : (notices.take k).filter (·.event.agent == agent) = notices.take k :=
    List.filter_eq_self.2 fun n hn =>
      beq_iff_eq.2 (hrun.own n.event (List.mem_map_of_mem (List.mem_of_mem_take hn)))
  rw [runOf, hown]
  rcases Nat.lt_or_ge k notices.length with hlt | hge
  · simpa [throughEnd] using throughEnd_append (hrun.goes_on hlt) []
  · obtain ⟨before, last, rfl, hlast, hgoes⟩ := hrun.exists_last
    rw [List.take_of_length_le hge, throughEnd_append hgoes, throughEnd, if_pos hlast]

theorem log_take (hrun : IsRun agent (notices.map Notice.event)) (level k : Nat) :
    log agent level (notices.take k) = ((notices.take k).filter (passes level ·.event)).map entry := by
  rw [Logger.log_eq, hrun.runOf_take]

/-- The complete log has a line for each event that the level admits. -/
theorem log_eq (hrun : IsRun agent (notices.map Notice.event)) (level : Nat) :
    log agent level notices = (notices.filter (passes level ·.event)).map entry := by
  simpa using hrun.log_take level notices.length

/-- The last line of the complete log is that of the end of the run. -/
theorem getLast?_log (hrun : IsRun agent (notices.map Notice.event)) (level : Nat) :
    ∃ last, notices.getLast? = some last ∧ last.event.isTerminal = true ∧
      (log agent level notices).getLast? = some (entry last) := by
  rw [hrun.log_eq level]
  obtain ⟨before, last, rfl, hlast, -⟩ := hrun.exists_last
  refine ⟨last, List.getLast?_concat, hlast, ?_⟩
  rw [List.filter_append, List.filter_singleton, passes_of_isTerminal hlast, List.map_append]
  exact List.getLast?_concat

/-- A log without the last event lacks a line. -/
theorem length_log_take_lt (hrun : IsRun agent (notices.map Notice.event)) (level : Nat) {k : Nat}
    (hk : k < notices.length) :
    (log agent level (notices.take k)).length < (log agent level notices).length := by
  rw [hrun.log_take, hrun.log_eq]
  obtain ⟨before, last, rfl, hlast, -⟩ := hrun.exists_last
  have hle : k ≤ before.length := by simpa [Nat.lt_succ_iff] using hk
  have hfewer : ((before.take k).filter (passes level ·.event)).length ≤
      (before.filter (passes level ·.event)).length :=
    ((List.take_sublist k before).filter _).length_le
  rw [List.take_append_of_le_length hle, List.filter_append, List.filter_singleton, passes_of_isTerminal hlast]
  simpa using Nat.lt_succ_of_le hfewer

end IsRun

/-! ## What has been received -/

namespace Logging

variable {agent : String} {level capacity : Nat} {notices received : List Notice} {s s' : Logging} {m : Move}

/-- The logger has received these events, and all the others are still to come, in their order. It has stopped
because one of them ends the run, or because it has been told to. -/
structure Received (agent : String) (level : Nat) (notices received : List Notice) (s : Logging) : Prop where
  notices_eq : received ++ (s.queue ++ s.ahead) = notices
  ended : s.cancelled = true → s.ahead = []
  logger : s.logger = (Logger.start agent level).run received ∨
    s.cancelled = true ∧ s.logger = { (Logger.start agent level).run received with stopped := true }

theorem Received.written (hr : Received agent level notices received s) :
    s.logger.written = log agent level received := by
  rcases hr.logger with heq | ⟨-, heq⟩ <;> rw [heq] <;> rfl

/-- A logger that goes on has not been stopped. -/
theorem Received.logger_eq (hr : Received agent level notices received s) (hgoes : s.logger.stopped = false) :
    s.logger = (Logger.start agent level).run received := by
  rcases hr.logger with heq | ⟨-, heq⟩
  · exact heq
  · rw [heq] at hgoes
    cases hgoes

theorem Received.eq_take (hr : Received agent level notices received s) :
    received = notices.take received.length := by
  rw [← hr.notices_eq, List.take_left]

/-- As long as something is left, what has been received is a proper beginning. -/
theorem Received.length_lt (hr : Received agent level notices received s) (hleft : s.queue ++ s.ahead ≠ []) :
    received.length < notices.length := by
  rw [← hr.notices_eq, List.length_append]
  exact Nat.lt_add_of_pos_right (List.length_pos_iff.2 hleft)

/-- The log is complete exactly if nothing is left. -/
theorem Received.written_eq_iff (hr : Received agent level notices received s)
    (hrun : IsRun agent (notices.map Notice.event)) :
    s.logger.written = log agent level notices ↔ s.queue ++ s.ahead = [] := by
  rw [hr.written]
  constructor
  · intro hcomplete
    by_contra hleft
    have hless := hrun.length_log_take_lt level (hr.length_lt hleft)
    rw [← hr.eq_take, hcomplete] at hless
    exact lt_irrefl _ hless
  · intro hnone
    have hall := hr.notices_eq
    rw [hnone, List.append_nil] at hall
    rw [hall]

/-- A logger that stops without being told to has received the end of the run. -/
theorem Received.nothing_left (hr : Received agent level notices received s)
    (hrun : IsRun agent (notices.map Notice.event)) (hstopped : s.logger.stopped = true)
    (huntold : s.cancelled = false) : s.queue ++ s.ahead = [] := by
  have hlogger : s.logger = (Logger.start agent level).run received := by
    refine hr.logger.resolve_right fun htold => ?_
    rw [huntold] at htold
    cases htold.1
  rw [hlogger, Logger.run_eq rfl] at hstopped
  obtain ⟨n, hn, -, hend⟩ := (any_isTerminal_runOf agent received).1 hstopped
  -- were something left, the end of the run would be among the events before the last
  by_contra hleft
  rw [hr.eq_take] at hn
  have hgoes := hrun.goes_on (hr.length_lt hleft) n hn
  rw [hend] at hgoes
  cases hgoes

/-- Everything that can happen. -/
theorem step_cases (hs : s.step capacity m = some s') :
    (m = .publish ∧ ∃ n ahead, s.ahead = n :: ahead ∧
      s' = { s with ahead, queue := retained capacity (s.queue ++ [n]) }) ∨
    (m = .cancel ∧ s.ahead = [] ∧ s' = { s with cancelled := true }) ∨
    (m = .receive ∧ s.logger.stopped = false ∧ ∃ n queue, s.queue = n :: queue ∧
      s' = { s with queue, logger := s.logger.receive n }) ∨
    (m = .stop ∧ s.cancelled = true ∧ s.logger.stopped = false ∧
      s' = { s with logger := { s.logger with stopped := true } }) := by
  cases m with
  | publish =>
    rw [step] at hs
    split at hs
    · cases hs
    · rename_i n ahead hahead
      exact .inl ⟨rfl, n, ahead, hahead, (Option.some.inj hs).symm⟩
  | cancel =>
    rw [step, Option.ite_none_right_eq_some] at hs
    exact .inr (.inl ⟨rfl, hs.1, (Option.some.inj hs.2).symm⟩)
  | receive =>
    rw [step] at hs
    split at hs
    · cases hs
    · rename_i n queue hqueue
      rw [Option.ite_none_left_eq_some, Bool.not_eq_true] at hs
      exact .inr (.inr (.inl ⟨rfl, hs.1, n, queue, hqueue, (Option.some.inj hs.2).symm⟩))
  | stop =>
    rw [step, Option.ite_none_right_eq_some, Bool.and_eq_true, Bool.not_eq_true'] at hs
    exact .inr (.inr (.inr ⟨rfl, hs.1.1, hs.1.2, (Option.some.inj hs.2).symm⟩))

/-- Whatever happens next, the logger has then received a beginning of the events. -/
theorem Received.step (hr : Received agent level notices received s) (hroom : notices.length ≤ capacity)
    (hs : s.step capacity m = some s') : ∃ received', Received agent level notices received' s' := by
  rcases step_cases hs with ⟨-, n, ahead, hahead, rfl⟩ | ⟨-, hended, rfl⟩ | ⟨-, hgoes, n, queue, hqueue, rfl⟩ |
    ⟨-, hcancelled, hgoes, rfl⟩
  · -- the event goes from the run to the channel
    have hnotices := hr.notices_eq
    rw [hahead] at hnotices
    have hqueue : retained capacity (s.queue ++ [n]) = s.queue ++ [n] := by
      have hpart : (s.queue ++ n :: ahead).length ≤ notices.length := by
        rw [← hnotices]
        exact (List.sublist_append_right received _).length_le
      exact retained_concat (hpart.trans hroom)
    refine ⟨received, by simpa [hqueue] using hnotices, fun hcancelled => ?_, hr.logger⟩
    have hended := hr.ended hcancelled
    rw [hahead] at hended
    cases hended
  · -- the logger is told, and goes on as it was
    exact ⟨received, hr.notices_eq, fun _ => hended, hr.logger.imp_right fun hstopped => ⟨rfl, hstopped.2⟩⟩
  · -- the event goes from the channel to the logger
    have hnotices := hr.notices_eq
    rw [hqueue] at hnotices
    refine ⟨received ++ [n], by simpa using hnotices, hr.ended, .inl ?_⟩
    rw [hr.logger_eq hgoes, Logger.run, Logger.run, List.foldl_append]
    rfl
  · -- the logger stops with what it has
    refine ⟨received, hr.notices_eq, hr.ended, .inr ⟨hcancelled, ?_⟩⟩
    rw [hr.logger_eq hgoes]

/-- This holds as long as the two are at work. -/
theorem Received.run (hr : Received agent level notices received s) (hroom : notices.length ≤ capacity)
    {moves : List Move} (hs : s.run capacity moves = some s') :
    ∃ received', Received agent level notices received' s' := by
  induction moves generalizing s received with
  | nil =>
    obtain rfl : s = s' := Option.some.inj hs
    exact ⟨received, hr⟩
  | cons m moves ih =>
    obtain ⟨mid, hstep, hrest⟩ := Option.bind_eq_some_iff.1 hs
    obtain ⟨received', hr'⟩ := hr.step hroom hstep
    exact ih hr' hrest

/-- Of a run that fits into the channel, the logger has at any time received a beginning. -/
theorem Reaches.exists_received (hs : (start agent level notices).Reaches capacity s)
    (hroom : notices.length ≤ capacity) : ∃ received, Received agent level notices received s := by
  obtain ⟨moves, hmoves⟩ := hs
  have hstart : Received agent level notices [] (start agent level notices) :=
    ⟨rfl, fun hcancelled => absurd hcancelled Bool.false_ne_true, .inl rfl⟩
  exact hstart.run hroom hmoves

/-! ## Stopping at any time -/

theorem Reaches.refl (s : Logging) : s.Reaches capacity s := ⟨[], rfl⟩

theorem Reaches.head (hs : s.step capacity m = some s') {s'' : Logging} (hrest : s'.Reaches capacity s'') :
    s.Reaches capacity s'' := by
  obtain ⟨moves, hmoves⟩ := hrest
  exact ⟨m :: moves, by rw [run, hs, Option.bind_some, hmoves]⟩

theorem Reaches.trans {s'' : Logging} (hs : s.Reaches capacity s') (hs' : s'.Reaches capacity s'') :
    s.Reaches capacity s'' := by
  obtain ⟨moves, hmoves⟩ := hs
  induction moves generalizing s with
  | nil =>
    obtain rfl : s = s' := Option.some.inj hmoves
    exact hs'
  | cons m moves ih =>
    obtain ⟨mid, hstep, hrest⟩ := Option.bind_eq_some_iff.1 hmoves
    exact .head hstep (ih hrest)

/-- The run can publish all its events before the logger receives one. -/
theorem reaches_published {ahead queue : List Notice} (hroom : (queue ++ ahead).length ≤ capacity) (cancelled : Bool)
    (l : Logger) : Reaches capacity ⟨ahead, queue, cancelled, l⟩ ⟨[], queue ++ ahead, cancelled, l⟩ := by
  induction ahead generalizing queue with
  | nil =>
    rw [List.append_nil]
    exact .refl _
  | cons n ahead ih =>
    have hstep : step capacity ⟨n :: ahead, queue, cancelled, l⟩ .publish =
        some ⟨ahead, queue ++ [n], cancelled, l⟩ := by
      simp only [step, retained_concat hroom]
    rw [List.append_cons] at hroom ⊢
    exact .head hstep (ih hroom)

/-- The logger can receive as many events as it likes. -/
theorem reaches_received (capacity : Nat) (queue : List Notice) (k : Nat) (l : Logger) :
    ∃ rest, Reaches capacity ⟨[], queue, false, l⟩ ⟨[], rest, false, l.run (queue.take k)⟩ := by
  induction queue generalizing k l with
  | nil => exact ⟨[], by simpa using .refl _⟩
  | cons n queue ih =>
    cases k with
    | zero => exact ⟨n :: queue, .refl _⟩
    | succ k =>
      cases hstopped : l.stopped with
      | true =>
        rw [Logger.run_of_stopped hstopped]
        exact ⟨n :: queue, .refl _⟩
      | false =>
        obtain ⟨rest, hrest⟩ := ih k (l.receive n)
        have hstep : step capacity ⟨[], n :: queue, false, l⟩ .receive = some ⟨[], queue, false, l.receive n⟩ := by
          simp [step, hstopped]
        exact ⟨rest, .head hstep hrest⟩

/-- When the run is over, the logger can be stopped at once. -/
theorem reaches_stopped (capacity : Nat) (queue : List Notice) (l : Logger) :
    ∃ s, Reaches capacity ⟨[], queue, false, l⟩ s ∧ s.logger.stopped = true ∧ s.logger.written = l.written := by
  cases hstopped : l.stopped with
  | true => exact ⟨_, .refl _, hstopped, rfl⟩
  | false =>
    have hcancel : step capacity ⟨[], queue, false, l⟩ .cancel = some ⟨[], queue, true, l⟩ := rfl
    have hstop : step capacity ⟨[], queue, true, l⟩ .stop = some ⟨[], queue, true, { l with stopped := true }⟩ := by
      simp [step, hstopped]
    exact ⟨_, .head hcancel (.head hstop (.refl _)), rfl, rfl⟩

/-- Each beginning of the events can be all that the logger has received when it stops. -/
theorem exists_stopped (agent : String) (level : Nat) (hroom : notices.length ≤ capacity) (k : Nat) :
    ∃ s, (start agent level notices).Reaches capacity s ∧ s.logger.stopped = true ∧
      s.logger.written = log agent level (notices.take k) := by
  have hpublished : (start agent level notices).Reaches capacity ⟨[], notices, false, .start agent level⟩ :=
    reaches_published hroom false (.start agent level)
  obtain ⟨rest, hreceived⟩ := reaches_received capacity notices k (.start agent level)
  obtain ⟨s, hstopped, hstop, hwritten⟩ := reaches_stopped capacity rest _
  exact ⟨s, (hpublished.trans hreceived).trans hstopped, hstop, hwritten⟩

end Logging

/-! ## Runs of the engine -/

section

variable {σ : Type} {e : Engine σ} {w : World σ}

/-- Before its walk a run tells at most that it has begun. -/
theorem told_before_walk (hs : Settled e w) (caller : Caller) (name : String) (args : Dict Json) :
    Settled e (e.opened caller name args w) ∧ ∃ whats : List Happening,
      (e.opened caller name args w).events = (w.told caller.agent.id whats).events ∧
        ∀ what ∈ whats, what.isTerminal = false := by
  cases hb : e.bindArguments name args with
  | error cause =>
    rw [Engine.opened_of_error hb]
    exact ⟨hs, [], by simp [World.told], fun _ hin => nomatch hin⟩
  | ok bound =>
    rw [Engine.opened_of_ok hb]
    refine ⟨⟨hs.openPath, hs.fresh⟩, [.runStarted bound.1.name], rfl, fun what hin => ?_⟩
    rw [List.mem_singleton.1 hin]
    rfl

/-- What a run publishes are the events of a run. -/
theorem isRun_published (hinj : Function.Injective e.supply) (hs : Settled e w) (caller : Caller) (name : String)
    (args : Dict Json) :
    ∃ events, (e.run caller name args w).2.events = w.events ++ events ∧ IsRun caller.agent.id events := by
  rcases hrun : e.run caller name args w with ⟨r, w'⟩
  rcases Engine.run_does hrun fun _ _ => Engine.exists_abortRun hinj hs caller name args with ⟨w₂, hdeeds, rfl, -⟩
  obtain ⟨hs', whats, hbegun, hgoes⟩ := told_before_walk hs caller name args
  rcases hdeeds.replays hinj hs' with ⟨whats', hdone, -, hgoes'⟩
  refine ⟨(whats ++ whats' ++ [Happening.ending name r]).map (⟨caller.agent.id, ·⟩), ?_, ?_, ?_⟩
  · simp only [World.told] at hbegun hdone ⊢
    rw [hdone, hbegun]
    simp
  · intro event hin
    obtain ⟨what, -, rfl⟩ := List.mem_map.1 hin
    rfl
  · refine ⟨(whats ++ whats').map (⟨caller.agent.id, ·⟩), ⟨caller.agent.id, .ending name r⟩, by simp,
      Happening.isTerminal_ending name r, fun event hin => ?_⟩
    obtain ⟨what, hwhat, rfl⟩ := List.mem_map.1 hin
    rcases List.mem_append.1 hwhat with hwhat | hwhat
    · exact hgoes what hwhat
    · exact hgoes' what hwhat

end

/-- What the outing publishes. -/
def outingEvents : List Event := (Outing.engine.run Outing.traveller "outing" .empty Outing.world).2.events

theorem outing_isRun : IsRun "agent" outingEvents := by
  obtain ⟨events, hevents, hrun⟩ :=
    isRun_published Hierarchy.unary_injective Outing.settled Outing.traveller "outing" .empty
  rw [outingEvents, hevents]
  exact hrun

/-- The outing takes no time. -/
def outingTold (e : Event) : Notice := ⟨e, some ⟨Outing.engine.now, 0⟩⟩

theorem outingTold_isRun : IsRun "agent" ((outingEvents.map outingTold).map Notice.event) := by
  rw [List.map_map]
  simpa [Function.comp_def, outingTold] using outing_isRun

/-! ## Which logs are left -/

/-- For every run that fits into the channel, in every order of events: a logger that has stopped leaves the log of a
beginning of the run, and each beginning can be the one of which a log is left. The complete log has a line for each
event that the level admits, and ends with the end of the run; a logger that has stopped leaves it exactly if there is
nothing that it has not received, as when it has stopped without being told to. -/
theorem logs_at_shutdown {agent : String} {notices : List Notice} (hrun : IsRun agent (notices.map Notice.event))
    {capacity : Nat} (hroom : notices.length < capacity) (level : Nat) :
    (∀ left, (∃ s, (Logging.start agent level notices).Reaches capacity s ∧ s.logger.stopped = true ∧
        s.logger.written = left) ↔ ∃ k, left = log agent level (notices.take k)) ∧
    log agent level notices = (notices.filter (passes level ·.event)).map entry ∧
    (∃ last, notices.getLast? = some last ∧ last.event.isTerminal = true ∧
      (log agent level notices).getLast? = some (entry last)) ∧
    ∀ s, (Logging.start agent level notices).Reaches capacity s → s.logger.stopped = true →
      (s.logger.written = log agent level notices ↔ s.queue ++ s.ahead = []) ∧
      (s.cancelled = false → s.logger.written = log agent level notices) := by
  refine ⟨fun left => ⟨?_, ?_⟩, hrun.log_eq level, hrun.getLast?_log level, fun s hs hstopped => ?_⟩
  · rintro ⟨s, hs, -, rfl⟩
    obtain ⟨received, hr⟩ := hs.exists_received hroom.le
    exact ⟨received.length, hr.written.trans (congrArg _ hr.eq_take)⟩
  · rintro ⟨k, rfl⟩
    exact Logging.exists_stopped agent level hroom.le k
  · obtain ⟨received, hr⟩ := hs.exists_received hroom.le
    have hiff := hr.written_eq_iff hrun
    exact ⟨hiff, fun huntold => hiff.2 (hr.nothing_left hrun hstopped huntold)⟩

/-- The outing fails, and of its log only the beginning may be left. -/
theorem logs_of_outing :
    IsRun "agent" ((outingEvents.map outingTold).map Notice.event) ∧ (outingEvents.map outingTold).length < 256 ∧
    ∃ s, (Logging.start "agent" 0 (outingEvents.map outingTold)).Reaches 256 s ∧ s.logger.stopped = true ∧
      s.logger.written = [entry (outingTold ⟨"agent", .runStarted "outing"⟩)] := by
  have hroom : (outingEvents.map outingTold).length < 256 := by decide +kernel
  have hbeginning : [entry (outingTold ⟨"agent", .runStarted "outing"⟩)] =
      log "agent" 0 ((outingEvents.map outingTold).take 1) := by
    decide +kernel
  exact ⟨outingTold_isRun, hroom, ((logs_at_shutdown outingTold_isRun hroom 0).1 _).2 ⟨1, hbeginning⟩⟩

/-- If the logger is stopped before it has received anything, it leaves no line, although the run has begun and
failed. -/
theorem failure_of_outing_lost :
    (outingEvents.map outingTold).length < 256 ∧
    ((Logging.start "agent" 0 (outingEvents.map outingTold)).run 256
        (.replicate 15 .publish ++ [.cancel, .stop])).map
        (fun s => (s.ahead, s.logger.stopped, s.logger.written)) = some ([], true, []) ∧
    log "agent" 0 (outingEvents.map outingTold) =
      [entry (outingTold ⟨"agent", .runStarted "outing"⟩),
        entry (outingTold ⟨"agent", .runFailed "outing" "Tool not found: lamp"⟩)] := by
  decide +kernel

end Playbook.RunLog
