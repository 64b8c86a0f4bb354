import Playbook.Command.Disk
import Playbook.Command.Invocation
import Playbook.Config.Document
import Playbook.Definition.Outline
import Playbook.Hierarchy.Outline
import Playbook.Memory.Document
import Playbook.Memory.Search
import Playbook.Run.LocalHost
import Playbook.RunLog
import Playbook.Schema.Violations
import Playbook.Sessions.Document
import Playbook.Text.Truncation
import Playbook.Tokens

/-! # Executing commands

A command reads its configuration, does its work on the file system, and prints what it has found. What it
prints before it fails stays printed; a failure is told with the chain of its causes.
-/

namespace Playbook

/-! ## Failures -/

/-- Why a command fails: what it says, and the causes behind it. -/
structure Failure where
  message : String
  causes : List String
  deriving DecidableEq, Repr

namespace Failure

/-- The cause behind an error that only passes on another one. -/
def innerCause : Error → List String
  | .definition cause => [cause.message]
  | .io reason => [reason]
  | .json reason => [reason]
  | _ => []

def ofError (e : Error) : Failure := ⟨e.message, innerCause e⟩

/-- Says what was being done. -/
def within (doing : String) (f : Failure) : Failure := ⟨doing, f.message :: f.causes⟩

/-- A cause on lines of its own, set in by a margin that is wider for a number. -/
def indented (number : Option Nat) (cause : String) : String :=
  let (first, next) :=
    match number with
    | some n =>
      let digits := toString n
      (String.ofList (List.replicate (5 - digits.length) ' ') ++ digits ++ ": ", "       ")
    | none => ("    ", "    ")
  first ++ Text.join ("\n" ++ next) (Text.split '\n' cause)

/-- A failure with its causes, which are numbered if there are several. -/
def text (f : Failure) : String :=
  let lines :=
    match f.causes with
    | [] => []
    | [cause] => [indented none cause]
    | causes => causes.zipIdx.map (fun p => indented (some p.2) p.1)
  "Error: " ++ f.message ++
    (if lines.isEmpty then "" else "\n\nCaused by:\n" ++ Text.join "\n" lines) ++ "\n"

end Failure

/-! ## Surroundings -/

/-- What a command finds around it. -/
structure Surroundings (m : Type → Type) where
  disk : Disk m
  /-- The value of a variable. -/
  variableValue : String → m (Option String)
  workingDirectory : String
  /-- The stream of fresh ids. -/
  supply : Nat → ThreadId
  now : Time

/-- How a command has ended. -/
structure CommandResult where
  code : Nat
  out : String
  err : String
  deriving DecidableEq, Repr

/-- Work that prints, and that may fail. -/
abbrev Job (m : Type → Type) (α : Type) : Type := ExceptT Failure (StateT String m) α

namespace Job

variable {m : Type → Type} [Monad m] {α : Type}

def print (line : String) : Job m Unit := modify fun out => out ++ line ++ "\n"

def ofExcept : Except Error α → Job m α
  | .ok a => pure a
  | .error e => throw (.ofError e)

/-- An effect on the surroundings. -/
def effect (x : m α) : Job m α := ExceptT.lift (StateT.lift x)

/-- Work whose failure says what was being done. -/
def within (doing : String) (x : Job m α) : Job m α :=
  tryCatch x fun f => throw (f.within doing)

end Job

/-! ## What is kept on disk -/

namespace Command

variable {m : Type → Type} [Monad m]

/-- Where things are kept. -/
structure Places where
  playbooks : String
  memory : String
  archive : String
  /-- The directory of the log, if runs are logged. -/
  log? : Option String

/-- The places that the settings name. -/
def places (c : Config) (env : Environment) : Places :=
  { playbooks := c.playbookDir env
    memory := c.memoryPath env
    archive := Path.join (c.workspaceDir env) "threads.db"
    log? := c.logDir? env }

/-- The values of some variables. -/
def valuesOf (s : Surroundings m) (names : List String) : m Environment := do
  let values ← names.mapM fun name => do return (name, ← s.variableValue name)
  return fun name => (values.lookup name).join

/-- The settings that a file holds. -/
def readConfig (s : Surroundings m) (path : String) : Job m Config := do
  let text? ← Job.effect (s.disk.readFile path)
  let env ← Job.effect (valuesOf s ((text?.map referencedVariables).getD []))
  Job.ofExcept (Config.ofFile env path text?)

/-- The settings: those of the file if it is there, else those in the home directory, else the defaults. -/
def loadConfig (s : Surroundings m) (env : Environment) (path : String) : Job m Config := do
  if ← Job.effect (s.disk.isThere path) then readConfig s path
  else
    match env "HOME" with
    | none => pure .default
    | some home =>
      let path := Path.join (Path.join home ".trellis") "config.toml"
      if ← Job.effect (s.disk.isThere path) then readConfig s path else pure .default

/-- The playbooks of a directory. -/
def loadPlaybooks (s : Surroundings m) (dir : String) : Job m Registry := do
  match ← Job.effect (s.disk.fileNames dir) with
  | none => throw (.ofError (.io "the directory cannot be read"))
  | some names =>
    let files ← names.mapM fun name => do
      let text? ← Job.effect (s.disk.readFile (Path.join dir name))
      pure (name, text?)
    Job.ofExcept ((Registry.ofFiles files).mapError .definition)

/-- The text of a store, if it holds any. -/
def stored (s : Surroundings m) (path : String) : Job m (Option String) := do
  match ← Job.effect (s.disk.readFile path) with
  | some text => pure (if text = "" then none else some text)
  | none =>
    if ← Job.effect (s.disk.isThere path) then throw (.ofError (.database "the file cannot be read"))
    pure none

/-- The memory of all agents, whose directory is made if need be. -/
def loadMemory (s : Surroundings m) (path : String) : Job m Memory := do
  if !(← Job.effect (s.disk.makeDirectory (Path.parent path))) then
    throw (.ofError (.database "the directory cannot be made"))
  match ← stored s path with
  | none => pure .empty
  | some text =>
    match Memory.ofText? text with
    | some memory => pure memory
    | none => throw (.ofError (.database "the file is no memory"))

/-- The archive of sessions, whose directory is made if need be. -/
def loadArchive (s : Surroundings m) (path : String) : Job m Archive := do
  if !(← Job.effect (s.disk.makeDirectory (Path.parent path))) then
    throw (.ofError (.io "the directory cannot be made"))
  match ← stored s path with
  | none => pure .empty
  | some text =>
    match Archive.ofText? text with
    | some archive => pure archive
    | none => throw (.ofError (.database "the file is no archive"))

/-! ## Commands -/

/-- An argument of a playbook. The value is what its text denotes, or else the text. -/
def argument (item : String) : Except Failure (String × Json) :=
  match Text.cutAt ['='] item.toList with
  | none => .error ⟨"argument '" ++ item ++ "' is not key=value", []⟩
  | some (key, value) => .ok (String.ofList (Text.trim key), toolValue (String.ofList value))

/-- The answers of a model that replays a file. -/
def loadScript (s : Surroundings m) (path : String) : Job m ScriptedModel := do
  match ← Job.effect (s.disk.readFile path) with
  | none => throw (.ofError (.io "the file cannot be read"))
  | some text =>
    match Json.parse? text with
    | some (.arr answers) => pure (.replay answers)
    | _ => throw (.ofError (.json "the text is no list"))

/-- The date and the time of day of a moment. -/
def moment (t : Time) : String := t.parts.1 ++ " " ++ t.parts.2.1

/-- Writes the log of a run, if runs are logged. -/
def writeLog (s : Surroundings m) (p : Places) (c : Config) (agent : String)
    (events : List Event) : m Unit := do
  match p.log?, c.log with
  | some dir, some log =>
    let dir := Path.join dir agent
    if ← s.disk.makeDirectory dir then
      let stamp := (moment s.now).toList.filter (fun ch => ch != '-' && ch != ':')
      let name := String.ofList (stamp.map (fun ch => if ch = ' ' then '_' else ch)) ++ ".jsonl"
      let notices := events.map fun e => RunLog.Notice.mk e (some ⟨s.now, 0⟩)
      let lines := (RunLog.log agent log.level notices).map (·.compact ++ "\n")
      s.disk.writeFile (Path.join dir name) (String.join lines)
  | _, _ => pure ()

/-- Runs a playbook for an agent. What the run has remembered and the sessions of the agent are kept,
whatever the outcome. -/
def run (s : Surroundings m) (p : Places) (c : Config) (o : RunOrder) : Job m Unit := do
  let args ← ExceptT.mk (pure (o.args.mapM argument))
  let playbooks ← loadPlaybooks s p.playbooks
  let model ←
    match o.script with
    | none => pure (.replay [])
    | some path => Job.within ("loading script " ++ path) (loadScript s path)
  let memory ← loadMemory s p.memory
  let archive ← loadArchive s p.archive
  let plan := LocalPlan.plain Tokens.count (.builtin s.now)
  let engine : Engine Local :=
    { playbooks, config := c, host := plan.host, tokens := Tokens.count, supply := s.supply
      now := s.now, workingDirectory := s.workingDirectory }
  let station : Station Local :=
    { sessions := .new c.threads (some archive)
      host :=
        { model, memory, appends := 0, offered := [], delivered := [], interrupted := false }
      drawn := 0 }
  let caller : Caller :=
    { agent := ⟨o.agent, o.agentName.getD o.agent, none⟩
      history := []
      environment := Dict.empty.insert "cwd" s.workingDirectory
      orchestration := o.orchestration }
  let (station, report) := station.run engine caller o.playbook (Dict.ofList args) false
  -- all of this is written before the result is looked at, so a failed run leaves it behind as well
  Job.effect (s.disk.writeFile p.memory station.host.memory.text)
  Job.effect (s.disk.writeFile p.archive (station.sessions.archive.getD archive).text)
  Job.effect (writeLog s p c o.agent report.events)
  station.host.delivered.forM fun d => Job.print ("[" ++ d.1 ++ "] " ++ d.2)
  let outcome ← Job.ofExcept report.result
  match outcome.status with
  | .completed =>
    Job.print ("Completed in " ++ toString outcome.steps ++ " step(s), " ++
      toString outcome.outputs.length ++ " output(s), " ++ toString outcome.usage.total ++ " tokens")
  | .cancelled =>
    Job.print ("Cancelled after " ++ toString outcome.steps ++ " step(s), " ++
      toString outcome.outputs.length ++ " output(s)")
  match outcome.last? with
  | some v => Job.print ("last = " ++ v.compact)
  | none => pure ()

/-- A text filled up with blanks to a width, on the right or on the left. -/
def padded (width : Nat) (onRight : Bool) (text : String) : String :=
  let blanks := String.ofList (List.replicate (width - text.length) ' ')
  if onRight then text ++ blanks else blanks ++ text

/-- Shows the sessions of one agent, or lists those of all. -/
def showThreads (s : Surroundings m) (p : Places) (c : Config) (agent : Option String) : Job m Unit := do
  let archive ← loadArchive s p.archive
  match agent with
  | some agent =>
    match ← Job.ofExcept (archive.load agent c.threads.limits) with
    | some h => h.outline.forM fun line => Job.print line.text
    | none => Job.print ("No sessions stored for '" ++ agent ++ "'")
  | none =>
    if archive.rows.isEmpty then Job.print "No sessions stored."
    archive.rows.forM fun row =>
      Job.print (padded 20 true row.1 ++ " " ++ padded 4 false (toString row.2.threads) ++
        " thread(s)  updated " ++ moment row.2.savedAt)

/-- The most bytes of an entry that a line of hits holds. -/
def hitLimit : Nat := 120

def hitText (e : MemoryEntry) : String :=
  String.ofList ((moment e.time).toList.dropLast.dropLast.dropLast) ++ " " ++ e.agent ++ "/" ++
    e.role ++ " [" ++ Text.join "," e.tags ++ "] " ++ Text.truncated hitLimit e.content

/-- Searches the memory. -/
def searchMemory (s : Surroundings m) (p : Places) (query : String) (limit : Nat) : Job m Unit := do
  let memory ← loadMemory s p.memory
  let hits ← Job.ofExcept (memory.search query limit)
  if hits.isEmpty then Job.print "No matches."
  hits.forM fun e => Job.print (hitText e)

/-- Loads every playbook of a directory. -/
def validate (s : Surroundings m) (p : Places) (dir : Option String) : Job m Unit := do
  let dir := dir.getD p.playbooks
  let playbooks ← Job.within ("validating " ++ dir) (loadPlaybooks s dir)
  playbooks.names.forM fun name => Job.print ("ok  " ++ name)
  Job.print (toString playbooks.names.length ++ " playbook(s) valid")

/-- Prints a playbook. -/
def describe (s : Surroundings m) (p : Places) (name : String) : Job m Unit := do
  let playbooks ← loadPlaybooks s p.playbooks
  let d ← Job.ofExcept (playbooks.require name)
  d.outline.forM Job.print

/-- Does what is asked. -/
def perform (s : Surroundings m) (i : Invocation) : Job m Unit := do
  let env ← Job.effect (valuesOf s ["HOME"])
  let c ← loadConfig s env i.configPath
  let p := places c env
  match i.action with
  | .validate dir => validate s p dir
  | .describe name => describe s p name
  | .run order => run s p c order
  | .threads agent => showThreads s p c agent
  | .search query limit => searchMemory s p query limit
  | .config => Job.print c.tomlText

/-- Executes a command line. -/
def execute (s : Surroundings m) (args : List String) : m CommandResult := do
  match Invocation.parse? args with
  | none => pure ⟨2, "", "Error: no such command\n"⟩
  | some i =>
    let (result, out) ← (perform s i).run.run ""
    match result with
    | .ok () => pure ⟨0, out, ""⟩
    | .error failure => pure ⟨1, out, failure.text⟩

end Command

end Playbook
