import Playbook.Config
import Playbook.Toml.Parser

/-! # Configurations as documents

A configuration is written as a value and as TOML, and read from both. Before the text of a file is
read, references to variables of the surroundings are replaced by their values.

Main definitions: `expandVariables`, `Config.ofJson?`, `Config.ofText`, `Config.toJson` and
`Config.tomlText`.
-/

namespace Playbook

/-! ## Variables -/

/-- The value of a variable. Which texts can be the name of one is for the surroundings to say. -/
def environmentValue? (env : Environment) (name : List Char) : Option (List Char) :=
  (env (String.ofList name)).map String.toList

/-- What stands for a reference: the value, or the reference itself if the variable is not set. -/
def reference (env : Environment) (name : List Char) : List Char :=
  match environmentValue? env name with
  | some value => value
  | none => ['$', '\x7b'] ++ name ++ ['\x7d']

/-- Replaces references. The first argument holds the name of the reference that is being read, last
character first. -/
def expandFrom (env : Environment) : Option (List Char) → List Char → List Char
  | none, [] => []
  | none, [c] => [c]
  | none, c :: d :: rest =>
    if c = '$' && d = '\x7b' then expandFrom env (some []) rest
    else c :: expandFrom env none (d :: rest)
  -- the text ends within the reference, which is then taken for a closed one
  | some name, [] => reference env name.reverse
  | some name, c :: rest =>
    if c = '\x7d' then reference env name.reverse ++ expandFrom env none rest
    else expandFrom env (some (c :: name)) rest

/-- A text with its references to variables replaced; values are not looked through again. -/
def expandVariables (env : Environment) (text : String) : String :=
  String.ofList (expandFrom env none text.toList)

/-- The names of the variables that a text refers to. The first argument is that of `expandFrom`. -/
def referencedFrom : Option (List Char) → List Char → List String
  | none, c :: d :: rest =>
    if c = '$' && d = '\x7b' then referencedFrom (some []) rest else referencedFrom none (d :: rest)
  | none, _ => []
  | some name, [] => [String.ofList name.reverse]
  | some name, c :: rest =>
    if c = '\x7d' then String.ofList name.reverse :: referencedFrom none rest
    else referencedFrom (some (c :: name)) rest

def referencedVariables (text : String) : List String := referencedFrom none text.toList

/-! ## Reading -/

def EngineConfig.read? (form : RecordForm) (v : Json) : Option EngineConfig := do
  let r ← v.recordIn? form ["max_steps", "max_call_depth", "playbook_dir", "workspace"]
  let d := EngineConfig.default
  some ⟨← r.defaulted "max_steps" Json.toWord? d.maxSteps,
    ← r.defaulted "max_call_depth" Json.toWord? d.maxCallDepth,
    ← r.defaulted "playbook_dir" Json.str? d.playbookDir,
    ← r.defaulted "workspace" Json.str? d.workspace⟩

def ThreadConfig.read? (form : RecordForm) (v : Json) : Option ThreadConfig := do
  let r ← v.recordIn? form ["max_depth", "default_window_ratio", "root_window_tokens",
    "anchor_recent_exchanges"]
  let d := ThreadConfig.default
  some ⟨← r.defaulted "max_depth" Json.toWord? d.maxDepth,
    ← r.defaulted "default_window_ratio" Json.toDouble? d.defaultRatio,
    ← r.defaulted "root_window_tokens" Json.toWord? d.rootTokens,
    ← r.defaulted "anchor_recent_exchanges" Json.toWord? d.anchorRecent⟩

def Tuning.read? (form : RecordForm) (v : Json) : Option Tuning := do
  let r ← v.recordIn? form ["tier", "history_messages"]
  some ⟨← r.optional "tier" (Json.choiceIn? form Tier.ofName?),
    ← r.optional "history_messages" Json.toWord?⟩

def ProfilesConfig.read? (form : RecordForm) (v : Json) : Option ProfilesConfig := do
  let r ← v.recordIn? form ["conversation", "router", "worker", "worker_light"]
  some ⟨← r.optional "conversation" (Tuning.read? form), ← r.optional "router" (Tuning.read? form),
    ← r.optional "worker" (Tuning.read? form), ← r.optional "worker_light" (Tuning.read? form)⟩

def MemoryConfig.read? (form : RecordForm) (v : Json) : Option MemoryConfig := do
  let r ← v.recordIn? form ["database", "recall_limit"]
  some ⟨← r.optional "database" Json.str?,
    ← r.defaulted "recall_limit" Json.toWord? MemoryConfig.default.recallLimit⟩

def LogConfig.read? (form : RecordForm) (v : Json) : Option LogConfig := do
  let r ← v.recordIn? form ["enabled", "log_dir", "level"]
  some ⟨← r.defaulted "enabled" Json.toBool? true, ← r.optional "log_dir" Json.str?,
    ← r.defaulted "level" (Json.toCount? 256) 2⟩

namespace Config

/-- Settings in some form; what is absent has its default. -/
def read? (form : RecordForm) (v : Json) : Option Config := do
  let r ← v.recordIn? form ["engine", "threads", "profiles", "memory", "log"]
  some ⟨← r.defaulted "engine" (EngineConfig.read? form) .default,
    ← r.defaulted "threads" (ThreadConfig.read? form) .default,
    ← r.defaulted "profiles" (ProfilesConfig.read? form) .default,
    ← r.defaulted "memory" (MemoryConfig.read? form) .default,
    ← r.optional "log" (LogConfig.read? form)⟩

/-- Settings from a value. -/
def ofJson? (v : Json) : Option Config := read? .plain v

/-- Settings from the text of a file. -/
def ofText (env : Environment) (text : String) : Except Error Config :=
  match (Toml.parse? (expandVariables env text)).bind (read? .toml) with
  | none => .error (.config "the text is no configuration")
  | some c => do
    c.validate
    .ok c

/-- Settings from a file; without text there is no file. -/
def ofFile (env : Environment) (path : String) (text? : Option String) : Except Error Config :=
  match text? with
  | none => .error (.configNotFound path)
  | some text => ofText env text

end Config

/-! ## Writing -/

/-- The fields of a tuning. -/
def Tuning.fields (t : Tuning) : List (String × Json) :=
  [("tier", Json.ofOption (fun t => .str t.name) t.tier),
    ("history_messages", Json.ofOption (fun n : Nat => .int n) t.historyMessages)]

namespace Config

/-- The sections and their settings in the order in which they are written. -/
def sections (c : Config) : List (String × List (String × Json)) :=
  let tuning (t : Option Tuning) : Json := Json.ofOption (fun t => .obj (t.fields)) t
  [("engine",
      [("max_steps", .int c.engine.maxSteps), ("max_call_depth", .int c.engine.maxCallDepth),
        ("playbook_dir", .str c.engine.playbookDir), ("workspace", .str c.engine.workspace)]),
    ("threads",
      [("max_depth", .int c.threads.maxDepth),
        ("default_window_ratio", .double c.threads.defaultRatio),
        ("root_window_tokens", .int c.threads.rootTokens),
        ("anchor_recent_exchanges", .int c.threads.anchorRecent)]),
    ("profiles",
      [("conversation", tuning c.profiles.conversation), ("router", tuning c.profiles.router),
        ("worker", tuning c.profiles.worker), ("worker_light", tuning c.profiles.workerLight)]),
    ("memory",
      [("database", Json.ofOption .str c.memory.database), ("recall_limit", .int c.memory.recallLimit)])] ++
    c.log.toList.map (fun log =>
      ("log",
        [("enabled", .bool log.enabled), ("log_dir", Json.ofOption .str log.logDir),
          ("level", .int log.level)]))

/-- Orders the fields of an object and of the objects right inside of it. -/
def sortedFields (fields : List (String × Json)) : Json :=
  Json.ofFields (fields.map (fun f =>
    match f.2 with
    | .obj inner => (f.1, Json.ofFields inner)
    | _ => f))

/-- The settings as a value; those that are absent are null. -/
def toJson (c : Config) : Json :=
  let written := c.sections.map (fun s => (s.1, sortedFields s.2))
  Json.ofFields ([("log", .null)] ++ written)

end Config

/-! ## Writing as TOML -/

namespace Toml

/-- A character inside a basic string. -/
def escapeChar (c : Char) : List Char :=
  if c = '"' then ['\\', '"']
  else if c = '\\' then ['\\', '\\']
  else if c = '\x08' then ['\\', 'b']
  else if c = '\t' then ['\\', 't']
  else if c = '\n' then ['\\', 'n']
  else if c = '\x0c' then ['\\', 'f']
  else if c = '\r' then ['\\', 'r']
  else if isForbidden c then
    let ds := Nat.toDigits 16 c.toNat
    ['\\', 'u'] ++ List.replicate (4 - ds.length) '0' ++ ds.map Char.toUpper
  else [c]

/-- The length of the longest row of a character. -/
def longestRun (c : Char) (s : List Char) : Nat :=
  let (best, current) := s.foldl
    (fun (acc : Nat × Nat) d => if d = c then (max acc.1 (acc.2 + 1), acc.2 + 1) else (acc.1, 0)) (0, 0)
  max best current

/-- A string in the plainest form that holds it: between double quotes if nothing has to be escaped,
else between single quotes, else between three quotes of either kind, else with escapes. -/
def stringText (s : String) : String :=
  let cs := s.toList
  let newline := cs.contains '\n'
  let controls := cs.any (fun c => isForbidden c && c != '\n')
  let doubles := longestRun '"' cs
  let singles := longestRun '\'' cs
  let backslash := cs.contains '\\'
  let first := if newline then "\n" else ""
  if !controls && !backslash && doubles = 0 && !newline then "\"" ++ s ++ "\""
  else if !controls && singles = 0 && !newline then "'" ++ s ++ "'"
  else if !controls && !backslash && doubles ≤ 2 then "\"\"\"" ++ first ++ s ++ "\"\"\""
  else if !controls && singles ≤ 2 then "'''" ++ first ++ s ++ "'''"
  else if newline then
    let body := cs.flatMap (fun c => if c = '\n' then [c] else escapeChar c)
    "\"\"\"" ++ first ++ String.ofList body ++ "\"\"\""
  else "\"" ++ String.ofList (cs.flatMap escapeChar) ++ "\""

/-- A number that may be infinite or none. -/
def doubleText (d : Double) : String :=
  if d.isNaN then if d.isNegative then "-nan" else "nan" else Layout.setting.text d

/-- A plain value. -/
def plainText : Json → String
  | .bool b => if b then "true" else "false"
  | .int n => toString n
  | .double d => doubleText d
  | .str s => stringText s
  | _ => ""

/-- The lines of a table: those of its own values, under its header, and then those of its tables. A
header is left out if there are only tables under it. -/
def tableText (header : String) (fields : List (String × Json)) : List String :=
  let present := fields.filter (fun f => f.2 != .null)
  let isTable (v : Json) : Bool := v.obj?.isSome
  let own := present.filter (fun f => !isTable f.2)
  let line (f : String × Json) : String := f.1 ++ " = " ++ plainText f.2 ++ "\n"
  let lines (fs : List (String × Json)) : String := String.join (fs.map line)
  let head := "[" ++ header ++ "]\n" ++ lines own
  let inner := present.filterMap (fun f =>
    match f.2 with
    | .obj fs =>
      some ("[" ++ header ++ "." ++ f.1 ++ "]\n" ++ lines (fs.filter (fun g => g.2 != .null)))
    | _ => none)
  if own.isEmpty && !inner.isEmpty then inner else head :: inner

end Toml

/-- The settings as the text of a file; absent ones are left out. -/
def Config.tomlText (c : Config) : String :=
  Text.join "\n" (c.sections.flatMap (fun s => Toml.tableText s.1 s.2))

end Playbook
