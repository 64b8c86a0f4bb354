import Playbook.Proofs.Hierarchy.Snapshot
import Playbook.Proofs.Run.Accounts
import Playbook.Proofs.Run.Deeds
import Playbook.Sessions

/-! # Restarts

What stays of an agent between runs is its hierarchy, and the archive has it. After every run the snapshot of
the agent loads back to the hierarchy that is live, however the run has ended; so everything can be started
again with nothing but the archive, and no run can tell.

Main statements: `Engine.run_filed` says that runs keep hierarchies such that they can be stored,
`Sessions.Archived.hierarchy_eq` that sessions answer as they would after a restart, and
`Station.serve_restarts` that a sequence of runs is the same with restarts and without.
-/

namespace Playbook

variable {σ : Type}

/-! ## What runs keep -/

section

variable {e : Engine σ} {agent : String} {S : Scope} {w w' : World σ} {owner : String} {limits : Limits}

/-- A hierarchy that has its place in an archive keeps it, whatever a run does. -/
theorem Deed.filed (hlimits : limits.maxDepth < 2 ^ 64) (hnow : e.now.IsCommon)
    (hd : Deed e agent S w w') (hf : w.hierarchy.Filed owner limits) :
    w'.hierarchy.Filed owner limits := by
  cases hd with
  | recorded host cancels thread content h hS hr => exact hf.recordIn hr
  | entered ratio label h t he ht => exact hf.enter hlimits hnow he
  | left id chronicle h hl => exact hf.leave hnow hl
  | aborted id h ids ha => exact hf.abort hnow ha
  | _ => exact hf

/-- So it does over a whole run. -/
theorem Deeds.filed (hlimits : limits.maxDepth < 2 ^ 64) (hnow : e.now.IsCommon)
    (hd : Deeds e agent S w w') (hf : w.hierarchy.Filed owner limits) :
    w'.hierarchy.Filed owner limits := by
  induction hd with
  | refl => exact hf
  | tail _ hlast ih => exact hlast.filed hlimits hnow ih

/-- However a run ends, its hierarchy can be stored if it could be before. -/
theorem Engine.run_filed (hlimits : limits.maxDepth < 2 ^ 64) (hnow : e.now.IsCommon)
    (caller : Caller) (name : String) (args : Dict Json) (hf : w.hierarchy.Filed owner limits) :
    (e.run caller name args w).2.hierarchy.Filed owner limits := by
  have hopened : (e.opened caller name args w).hierarchy.Filed owner limits := by
    rw [opened]
    split <;> exact hf
  have hstart := (start_does e caller name args w.hierarchy.active w).filed hlimits hnow hopened
  obtain ⟨whats, h, hworld, rfl | ⟨ids, ha⟩⟩ := run_world e caller name args w
  · rw [hworld]
    exact hstart
  · rw [hworld]
    exact hstart.abortRun hnow ha

end

/-! ## Archives -/

namespace Archive

variable {a : Archive} {h : Hierarchy} {agent : String} {limits : Limits} {now : Time}

/-- What has been saved last is found. -/
theorem get?_save_self (a : Archive) (h : Hierarchy) (now : Time) :
    (a.save h now).get? h.agent = some ⟨h.toJson.compact, h.threads.size, now⟩ := by
  simp [get?, save]

/-- Other agents keep their snapshots. -/
theorem get?_save_of_ne (hne : agent ≠ h.agent) : (a.save h now).get? agent = a.get? agent := by
  have hskip : (h.agent == agent) = false := by
    simp [Ne.symm hne]
  have hrows : (fun r : String × Snapshot => decide ((r.1 != h.agent) = true ∧ (r.1 == agent) = true)) =
      fun r => r.1 == agent := by
    funext r
    by_cases hr : r.1 = agent
    · simp [hr, hne]
    · simp [hr]
  rw [get?, get?, save, delete, List.find?_cons, hskip, List.find?_filter, hrows]

/-- Saving for one agent changes nothing for another. -/
theorem load_save_of_ne (hne : agent ≠ h.agent) :
    (a.save h now).load agent limits = a.load agent limits := by
  rw [load, load, get?_save_of_ne hne]

/-- What is saved loads back. -/
theorem load_save_self (hf : h.Filed agent limits) (hl : h.IsLegible) :
    (a.save h now).load agent limits = .ok (some h) := by
  have htext := Hierarchy.parse?_compact hf hl
  have hread := Hierarchy.ofJson?_toJson hf
  rcases Option.map_eq_some_iff.1 hread with ⟨h', hh', hset⟩
  have hsnapshot := get?_save_self a h now
  rw [hf.agent] at hsnapshot
  simp only [load, hsnapshot, htext, Option.bind_some, hh', hset]

/-- Every snapshot is one of a hierarchy of its agent that can be stored. -/
def Intact (a : Archive) (limits : Limits) : Prop :=
  ∀ agent, ∃ found, a.load agent limits = .ok found ∧ ∀ h ∈ found, h.Filed agent limits

theorem intact_empty (limits : Limits) : empty.Intact limits :=
  fun _ => ⟨none, rfl, fun _ hh => nomatch hh⟩

/-- An archive stays intact when a hierarchy is saved that can be read back. -/
theorem Intact.save (ha : a.Intact limits) (hf : h.Filed agent limits) (hl : h.IsLegible) (now : Time) :
    (a.save h now).Intact limits := by
  intro other
  by_cases hother : other = agent
  · refine ⟨some h, hother ▸ load_save_self hf hl, ?_⟩
    intro h' hh'
    cases hh'
    exact hother ▸ hf
  · rw [load_save_of_ne (hf.agent ▸ hother)]
    exact ha other

end Archive

/-! ## Sessions that are archived -/

namespace Sessions

variable {c : ThreadConfig} {a : Archive} {s : Sessions}

/-- The archive holds every hierarchy that is live, and is intact. -/
structure Archived (c : ThreadConfig) (a : Archive) (s : Sessions) : Prop where
  archive : s.archive = some a
  rootBudget : s.rootBudget = c.rootTokens
  limits : s.limits = c.limits
  intact : a.Intact c.limits
  live : ∀ agent h, s.live.get? agent = some h → a.load agent c.limits = .ok (some h)

/-- After a restart nothing is live. -/
theorem archived_new (ha : a.Intact c.limits) : (new c (some a)).Archived c a where
  archive := rfl
  rootBudget := rfl
  limits := rfl
  intact := ha
  live := fun _ _ hlive => nomatch hlive

namespace Archived

/-- What an agent has, once it is needed, is told by the archive. -/
theorem hierarchy_of_load (hs : s.Archived c a) {agent : String} {found : Option Hierarchy}
    (hload : a.load agent c.limits = .ok found) (fresh : ThreadId) (now : Time) :
    s.hierarchy agent fresh now =
      .ok (found.elim (.new agent fresh c.rootTokens c.limits now, true) fun h => (h, false)) := by
  cases hlive : s.live.get? agent with
  | some h =>
    -- what is live is what has been loaded
    have hfound : Except.ok found = Except.ok (ε := Error) (some h) :=
      hload.symm.trans (hs.live agent h hlive)
    cases hfound
    simp only [hierarchy, hlive]
    rfl
  | none =>
    simp only [hierarchy, hlive, hs.archive, hs.limits, hs.rootBudget, Option.map_some,
      Option.getD_some, hload]
    cases found <;> rfl

/-- So it does not depend on what is live. -/
theorem hierarchy_eq {s' : Sessions} (hs : s.Archived c a) (hs' : s'.Archived c a) (agent : String)
    (fresh : ThreadId) (now : Time) : s.hierarchy agent fresh now = s'.hierarchy agent fresh now := by
  rcases hs.intact agent with ⟨found, hload, _⟩
  rw [hs.hierarchy_of_load hload, hs'.hierarchy_of_load hload]

/-- A hierarchy that is kept and saved for its agent is live and in the archive. -/
theorem save (hs : s.Archived c a) {agent : String} {h : Hierarchy} (hf : h.Filed agent c.limits)
    (hl : h.IsLegible) (now : Time) :
    ((s.put agent h).save h now).Archived c (a.save h now) where
  archive := by
    show s.archive.map (fun a => a.save h now) = some (a.save h now)
    rw [hs.archive, Option.map_some]
  rootBudget := hs.rootBudget
  limits := hs.limits
  intact := hs.intact.save hf hl now
  live := by
    intro other h' hlive
    replace hlive : (s.live.insert agent h).get? other = some h' := hlive
    rw [Dict.get?_insert] at hlive
    by_cases hother : other = agent
    · rw [if_pos hother] at hlive
      cases hlive
      rw [hother]
      exact Archive.load_save_self hf hl
    · rw [if_neg hother] at hlive
      rw [Archive.load_save_of_ne (hf.agent ▸ hother)]
      exact hs.live other h' hlive

end Archived

theorem put_put (s : Sessions) (agent : String) (h h' : Hierarchy) :
    (s.put agent h).put agent h' = s.put agent h' := by
  have hinsert : (s.live.insert agent h).insert agent h' = s.live.insert agent h' := by
    refine Dict.ext_get? fun other => ?_
    rw [Dict.get?_insert, Dict.get?_insert, Dict.get?_insert]
    split <;> rfl
  rw [put, put, put, hinsert]

end Sessions

/-! ## Stations that cannot be told apart -/

/-- Whatever is to be saved is kept. -/
def Host.Keeps (host : Host σ) : Prop := ∀ s h, (host.keep s h).1 = .ok ()

namespace Station

variable {e : Engine σ} {a : Archive} {s s' : Station σ} {agent : String}

/-- Two stations that differ in what is live only, both with everything in the same archive. -/
structure Twins (c : ThreadConfig) (a : Archive) (s s' : Station σ) : Prop where
  host : s'.host = s.host
  drawn : s'.drawn = s.drawn
  left : s.sessions.Archived c a
  right : s'.sessions.Archived c a

/-- Starting again leaves nothing live, and the rest as it was. -/
theorem Twins.restart (ht : Twins e.config.threads a s s') : Twins e.config.threads a s (s'.restart e) where
  host := ht.host
  drawn := ht.drawn
  left := ht.left
  right := by
    rw [Station.restart, ht.right.archive]
    exact Sessions.archived_new ht.left.intact

/-- The hierarchy with which a run starts. -/
def opening (e : Engine σ) (agent : String) (drawn : Nat) (found : Option Hierarchy) : Hierarchy :=
  found.getD (.new agent (e.supply drawn) e.config.threads.rootTokens e.config.threads.limits e.now)

/-- After a restart the hierarchy of an agent is the one in the archive, or a new one. -/
theorem session_of_load {found : Option Hierarchy} (hs : s.sessions.Archived e.config.threads a)
    (hload : a.load agent e.config.threads.limits = .ok found) :
    s.session e agent =
      .ok (⟨s.sessions.put agent (opening e agent s.drawn found), s.host,
        if found.isNone then s.drawn + 1 else s.drawn⟩, opening e agent s.drawn found) := by
  rw [session, hs.hierarchy_of_load hload]
  cases found <;> rfl

/-- A host that keeps what it is given never fails to save. -/
theorem save_of_keeps (hkeeps : e.host.Keeps) (harchive : s.sessions.archive = some a) (h : Hierarchy) :
    s.save e h = (.ok (), ⟨s.sessions.save h e.now, (e.host.keep s.host h).2, s.drawn⟩) := by
  have hkept := hkeeps s.host h
  unfold save
  rw [harchive, Option.isNone_some, if_neg Bool.false_ne_true]
  rcases hkeep : e.host.keep s.host h with ⟨saved, host⟩
  rw [hkeep] at hkept
  cases hkept
  rfl

/-- A run of an agent whose sessions are archived: it starts with what the archive tells, and what it leaves
is live and saved. -/
theorem run_of_load (hkeeps : e.host.Keeps) {found : Option Hierarchy}
    (hs : s.sessions.Archived e.config.threads a) {caller : Caller}
    (hload : a.load caller.agent.id e.config.threads.limits = .ok found) {name : String}
    {args : Dict Json} {cancelled : Bool} {result : Except Error Outcome} {w : World σ}
    (hrun : e.run caller name args (.start s.host (opening e caller.agent.id s.drawn found)
      (if found.isNone then s.drawn + 1 else s.drawn) cancelled) = (result, w)) :
    s.run e caller name args cancelled =
      (⟨(s.sessions.put caller.agent.id w.hierarchy).save w.hierarchy e.now, (e.host.keep w.host w.hierarchy).2,
          w.drawn⟩,
        ⟨result, w.events, w.fragments ++ [.ending result], w.interactions⟩) := by
  have hsave := save_of_keeps (s := ⟨s.sessions.put caller.agent.id w.hierarchy, w.host, w.drawn⟩) hkeeps hs.archive
    w.hierarchy
  rw [← Sessions.put_put s.sessions caller.agent.id (opening e caller.agent.id s.drawn found)] at hsave
  rw [run_of_session (session_of_load hs hload) hrun hsave, Sessions.put_put, concluded_ok]

/-- A station and its twin that was restarted report the same of a run, and are twins afterwards. -/
theorem Twins.run (hkeeps : e.host.Keeps) (ht : Twins e.config.threads a s s')
    (hroot : e.config.threads.rootTokens < 2 ^ 64) (hlimits : e.config.threads.maxDepth < 2 ^ 64)
    (hnow : e.now.IsCommon) (caller : Caller) (name : String) (args : Dict Json) (cancelled : Bool)
    (hlegible : ∀ h ∈ (s.run e caller name args cancelled).1.sessions.live.values, h.IsLegible) :
    (s'.run e caller name args cancelled).2 = (s.run e caller name args cancelled).2 ∧
      ∃ a' h, Twins e.config.threads a' (s.run e caller name args cancelled).1
          (s'.run e caller name args cancelled).1 ∧
        (s.run e caller name args cancelled).1.sessions.live.get? caller.agent.id = some h ∧
        (s'.run e caller name args cancelled).1.sessions.live.get? caller.agent.id = some h := by
  rcases ht.left.intact caller.agent.id with ⟨found, hload, hfound⟩
  have hopening : (opening e caller.agent.id s.drawn found).Filed caller.agent.id
      e.config.threads.limits := by
    cases found with
    | none => exact .new _ _ hroot _ hnow
    | some h => exact hfound h rfl
  rcases hrun : e.run caller name args (.start s.host (opening e caller.agent.id s.drawn found)
    (if found.isNone then s.drawn + 1 else s.drawn) cancelled) with ⟨result, w⟩
  have hf : w.hierarchy.Filed caller.agent.id e.config.threads.limits := by
    have hkept := Engine.run_filed (w := .start s.host (opening e caller.agent.id s.drawn found)
      (if found.isNone then s.drawn + 1 else s.drawn) cancelled) hlimits hnow caller name args hopening
    rwa [hrun] at hkept
  -- the other station starts its run in the same world
  have hrun' : e.run caller name args (.start s'.host (opening e caller.agent.id s'.drawn found)
      (if found.isNone then s'.drawn + 1 else s'.drawn) cancelled) = (result, w) := by
    rw [ht.host, ht.drawn]
    exact hrun
  rw [run_of_load hkeeps ht.left hload hrun] at hlegible ⊢
  rw [run_of_load hkeeps ht.right hload hrun']
  have hlive : ∀ t : Sessions,
      ((t.put caller.agent.id w.hierarchy).save w.hierarchy e.now).live.get? caller.agent.id =
        some w.hierarchy :=
    fun t => Dict.get?_insert_self t.live _ _
  have hl : w.hierarchy.IsLegible := hlegible w.hierarchy (Dict.mem_values_iff.2 ⟨_, hlive s.sessions⟩)
  refine ⟨rfl, a.save w.hierarchy e.now, w.hierarchy, ?_, hlive s.sessions, hlive s'.sessions⟩
  exact ⟨rfl, rfl, ht.left.save hf hl e.now, ht.right.save hf hl e.now⟩

end Station

/-! ## Sequences of runs -/

/-- What is asked of a station: a run for an agent, at a reading of the clock. -/
structure Errand where
  caller : Caller
  name : String
  args : Dict Json
  /-- Whether the run is cancelled before it starts. -/
  cancelled : Bool
  now : Time

namespace Station

def perform (e : Engine σ) (s : Station σ) (errand : Errand) : Station σ × Report :=
  s.run { e with now := errand.now } errand.caller errand.name errand.args errand.cancelled

/-- Does one errand after the other, and everything is started again before those that are marked. Each errand
gives what is left behind it and its report. -/
def serve (e : Engine σ) : Station σ → List (Bool × Errand) → List (Station σ × Report)
  | _, [] => []
  | s, (restarts, errand) :: rest =>
    let done := (if restarts then s.restart e else s).perform e errand
    done :: serve e done.1 rest

/-- Every hierarchy that is live is what the archive loads for its agent. -/
def Saved (s : Station σ) (limits : Limits) : Prop :=
  ∃ a, s.sessions.archive = some a ∧
    ∀ agent h, s.sessions.live.get? agent = some h → a.load agent limits = .ok (some h)

/-- What is the same after an errand of an agent without restarts and with some: the report, what the host and
the supply of ids have come to, and the hierarchy that every agent has once it is needed. The one of the agent
itself is live, and all that is live is saved. -/
structure Transparent (c : ThreadConfig) (agent : String) (plain again : Station σ × Report) : Prop where
  report : again.2 = plain.2
  host : again.1.host = plain.1.host
  drawn : again.1.drawn = plain.1.drawn
  hierarchy : ∀ agent fresh now,
    again.1.sessions.hierarchy agent fresh now = plain.1.sessions.hierarchy agent fresh now
  live : ∃ h, plain.1.sessions.live.get? agent = some h ∧ again.1.sessions.live.get? agent = some h
  saved : plain.1.Saved c.limits ∧ again.1.Saved c.limits

theorem Twins.transparent {c : ThreadConfig} {a : Archive} {plain again : Station σ × Report} {agent : String}
    {h : Hierarchy} (ht : Twins c a plain.1 again.1) (hreport : again.2 = plain.2)
    (hplain : plain.1.sessions.live.get? agent = some h)
    (hagain : again.1.sessions.live.get? agent = some h) : Transparent c agent plain again where
  report := hreport
  host := ht.host
  drawn := ht.drawn
  hierarchy := ht.right.hierarchy_eq ht.left
  live := ⟨h, hplain, hagain⟩
  saved := ⟨⟨a, ht.left.archive, ht.left.live⟩, ⟨a, ht.right.archive, ht.right.live⟩⟩

/-- Errands without restarts. -/
def unmarked (errands : List (Bool × Errand)) : List (Bool × Errand) := errands.map fun p => (false, p.2)

/-- The step from one errand to the next, with a restart before it or not. -/
theorem Twins.perform {e : Engine σ} {a : Archive} {s s' : Station σ} (hkeeps : e.host.Keeps)
    (ht : Twins e.config.threads a s s') (hroot : e.config.threads.rootTokens < 2 ^ 64)
    (hlimits : e.config.threads.maxDepth < 2 ^ 64) {errand : Errand} (hclock : errand.now.IsCommon) (restarts : Bool)
    (hlegible : ∀ h ∈ (s.perform e errand).1.sessions.live.values, h.IsLegible) :
    ∃ a', Twins e.config.threads a' (s.perform e errand).1
        ((if restarts then s'.restart e else s').perform e errand).1 ∧
      Transparent e.config.threads errand.caller.agent.id (s.perform e errand)
        ((if restarts then s'.restart e else s').perform e errand) := by
  have ht' : Twins e.config.threads a s (if restarts then s'.restart e else s') := by
    cases restarts with
    | false => exact ht
    | true => exact ht.restart
  have hrun := Twins.run (e := { e with now := errand.now }) hkeeps ht' hroot hlimits hclock errand.caller errand.name
    errand.args errand.cancelled hlegible
  rcases hrun with ⟨hreport, a', h, htwins, hplain, hagain⟩
  exact ⟨a', htwins, htwins.transparent hreport hplain hagain⟩

/-- One after the other, errands with restarts before some of them do what they do without. -/
theorem Twins.serve {e : Engine σ} {a : Archive} {s s' : Station σ} (hkeeps : e.host.Keeps)
    (ht : Twins e.config.threads a s s') (hroot : e.config.threads.rootTokens < 2 ^ 64)
    (hlimits : e.config.threads.maxDepth < 2 ^ 64) {errands : List (Bool × Errand)}
    (hclock : ∀ p ∈ errands, p.2.now.IsCommon)
    (hlegible : ∀ done ∈ s.serve e (unmarked errands), ∀ h ∈ done.1.sessions.live.values, h.IsLegible)
    {i : Nat} {p : Bool × Errand} (hi : errands[i]? = some p) :
    ∃ plain again, (s.serve e (unmarked errands))[i]? = some plain ∧ (s'.serve e errands)[i]? = some again ∧
      Transparent e.config.threads p.2.caller.agent.id plain again := by
  -- both stations move on, and the archive with them
  induction errands generalizing s s' a i with
  | nil => cases hi
  | cons first rest ih =>
    rcases first with ⟨restarts, errand⟩
    have hfirst : ∀ h ∈ (s.perform e errand).1.sessions.live.values, h.IsLegible :=
      hlegible (s.perform e errand) List.mem_cons_self
    rcases ht.perform hkeeps hroot hlimits (hclock _ List.mem_cons_self) restarts hfirst with
      ⟨a', htwins, htransparent⟩
    cases i with
    | zero =>
      cases hi
      exact ⟨_, _, rfl, rfl, htransparent⟩
    | succ i =>
      exact ih htwins (fun q hq => hclock q (List.mem_cons_of_mem _ hq))
        (fun done hdone => hlegible done (List.mem_cons_of_mem _ hdone)) hi

/-- Restarts cannot be told where saving never fails. Take any errands of any agents, one after the other, with
everything started again before some of them from nothing but the archive, and the same errands without: each errand
ends alike, every agent has the same hierarchy after it, and each hierarchy that is live is what its snapshot loads
back to. Of the texts of the snapshots only the numbers with a fraction are taken to read back. -/
theorem serve_restarts (e : Engine σ) (hkeeps : e.host.Keeps) {s : Station σ} {a : Archive}
    (hs : s.sessions.Archived e.config.threads a) (hroot : e.config.threads.rootTokens < 2 ^ 64)
    (hlimits : e.config.threads.maxDepth < 2 ^ 64) (errands : List (Bool × Errand))
    (hclock : ∀ p ∈ errands, p.2.now.IsCommon)
    (hlegible : ∀ done ∈ s.serve e (unmarked errands), ∀ h ∈ done.1.sessions.live.values, h.IsLegible) :
    ∀ (i : Nat) (p : Bool × Errand), errands[i]? = some p →
      ∃ plain again, (s.serve e (unmarked errands))[i]? = some plain ∧ (s.serve e errands)[i]? = some again ∧
        Transparent e.config.threads p.2.caller.agent.id plain again := by
  have htwins : Twins e.config.threads a s s := ⟨rfl, rfl, hs, hs⟩
  exact fun i p hi => htwins.serve hkeeps hroot hlimits hclock hlegible hi

end Station

/-! ## A desk that is closed between tours -/

namespace Tour

/-- A noon in June. -/
def noon : Time := ⟨1718452800, 250000000⟩

def desk : Station Unit := ⟨.new engine.config.threads (some .empty), (), 0⟩

def booking (name : String) (cancelled : Bool) : Errand := ⟨Outing.traveller, name, .empty, cancelled, noon⟩

/-- The slip fails, the inn leaves a session open, and the hike is cancelled before it starts. The desk is
closed before each of the three. -/
def bookings : List (Bool × Errand) :=
  [(false, booking "tour" false), (true, booking "slip" false), (true, booking "inn" false),
    (true, booking "hike" true)]

theorem isLegible_one : Double.one.IsLegible := by decide +kernel

theorem isLegible_defaultRatio : Limits.default.defaultRatio.IsLegible := by decide +kernel

/-- Sessions have the whole window or the usual share of it. -/
theorem windowRatio_of_bookings : ∀ done ∈ desk.serve engine (Station.unmarked bookings),
    ∀ h ∈ done.1.sessions.live.values, ∀ t ∈ h.threads.values,
      t.windowRatio = .one ∨ t.windowRatio = Limits.default.defaultRatio := by
  decide +kernel

theorem desk_restarts :
    (desk.serve engine (Station.unmarked bookings)).map (fun done =>
        done.2.result.toOption.map (·.status)) =
      [some .completed, none, some .completed, some .cancelled] ∧
    ∀ (i : Nat) (p : Bool × Errand), bookings[i]? = some p →
      ∃ plain again, (desk.serve engine (Station.unmarked bookings))[i]? = some plain ∧
        (desk.serve engine bookings)[i]? = some again ∧
        Station.Transparent engine.config.threads p.2.caller.agent.id plain again := by
  have harchived : desk.sessions.Archived engine.config.threads .empty :=
    Sessions.archived_new (Archive.intact_empty _)
  have hclock : ∀ p ∈ bookings, p.2.now.IsCommon := by decide
  have hlegible : ∀ done ∈ desk.serve engine (Station.unmarked bookings),
      ∀ h ∈ done.1.sessions.live.values, h.IsLegible := by
    intro done hdone h hh t ht
    rcases windowRatio_of_bookings done hdone h hh t ht with hratio | hratio
    · exact hratio ▸ isLegible_one
    · exact hratio ▸ isLegible_defaultRatio
  exact ⟨by decide +kernel,
    Station.serve_restarts engine (fun _ _ => rfl) harchived (by decide) (by decide) bookings hclock hlegible⟩

end Tour

end Playbook
