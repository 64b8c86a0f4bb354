import Playbook.Error
import Playbook.Hierarchy
import Playbook.Node

/-! # Configuration

The settings of a system: limits of runs and sessions, tuning of the prompt profiles, places of files,
and the log of runs. Paths are texts; a path that starts with a tilde and a slash lies in the home
directory, if there is one.
-/

namespace Playbook

/-- What the surroundings answer for the name of a variable. -/
abbrev Environment : Type := String → Option String

/-! ## Settings -/

structure EngineConfig where
  /-- The most nodes that a walk through one playbook may dispatch. -/
  maxSteps : Nat
  /-- How deeply playbooks may call each other. -/
  maxCallDepth : Nat
  playbookDir : String
  workspace : String
  deriving DecidableEq, Repr

def EngineConfig.default : EngineConfig := ⟨256, 8, "playbooks", "~/.trellis"⟩

structure ThreadConfig where
  maxDepth : Nat
  defaultRatio : Double
  rootTokens : Nat
  anchorRecent : Nat
  deriving DecidableEq, Repr

def ThreadConfig.default : ThreadConfig :=
  ⟨Limits.default.maxDepth, Limits.default.defaultRatio, 100000, Limits.default.anchorRecent⟩

def ThreadConfig.limits (c : ThreadConfig) : Limits := ⟨c.maxDepth, c.defaultRatio, c.anchorRecent⟩

/-- The tuning of one profile. -/
structure Tuning where
  tier : Option Tier
  historyMessages : Option Nat
  deriving DecidableEq, Repr

structure ProfilesConfig where
  conversation : Option Tuning
  router : Option Tuning
  worker : Option Tuning
  workerLight : Option Tuning
  deriving DecidableEq, Repr

def ProfilesConfig.default : ProfilesConfig := ⟨none, none, none, none⟩

def ProfilesConfig.tuning? (c : ProfilesConfig) : ProfileName → Option Tuning
  | .conversation => c.conversation
  | .router => c.router
  | .worker => c.worker
  | .workerLight => c.workerLight

structure MemoryConfig where
  database : Option String
  recallLimit : Nat
  deriving DecidableEq, Repr

def MemoryConfig.default : MemoryConfig := ⟨none, 8⟩

structure LogConfig where
  enabled : Bool
  logDir : Option String
  level : Nat
  deriving DecidableEq, Repr

/-- All settings. -/
structure Config where
  engine : EngineConfig
  threads : ThreadConfig
  profiles : ProfilesConfig
  memory : MemoryConfig
  log : Option LogConfig
  deriving DecidableEq, Repr

namespace Config

def default : Config := ⟨.default, .default, .default, .default, none⟩

instance : Inhabited Config := ⟨default⟩

/-- Refuses settings that no run could honour. -/
def validate (c : Config) : Except Error Unit :=
  if !c.threads.defaultRatio.isFraction then
    .error (.config ("threads.default_window_ratio must be in (0, 1], got " ++
      Layout.message.text c.threads.defaultRatio))
  else if c.engine.maxSteps = 0 then .error (.config "engine.max_steps must be positive")
  else .ok ()

end Config

/-! ## Paths -/

namespace Path

def isAbsolute (path : String) : Bool := path.startsWith "/"

/-- A path seen from another one. An absolute path stays as it is, an empty one adds a slash. -/
def join (base path : String) : String :=
  if isAbsolute path || base = "" then path
  else if base.endsWith "/" then base ++ path
  else base ++ "/" ++ path

/-- A path with the home directory in place of its tilde. -/
def expandHome (env : Environment) (path : String) : String :=
  match path.toList with
  | '~' :: '/' :: rest =>
    match env "HOME" with
    | some home => join home (String.ofList rest)
    | none => path
  | _ => path

end Path

namespace Config

def workspaceDir (c : Config) (env : Environment) : String := Path.expandHome env c.engine.workspace

def playbookDir (c : Config) (env : Environment) : String :=
  Path.join (c.workspaceDir env) (Path.expandHome env c.engine.playbookDir)

def memoryPath (c : Config) (env : Environment) : String :=
  match c.memory.database with
  | some path => Path.expandHome env path
  | none => Path.join (c.workspaceDir env) "memory.db"

/-- The directory of the log, if runs are logged. -/
def logDir? (c : Config) (env : Environment) : Option String :=
  (c.log.filter (·.enabled)).map (fun log =>
    match log.logDir with
    | some dir => Path.expandHome env dir
    | none => Path.join (c.workspaceDir env) "logs")

end Config

end Playbook
