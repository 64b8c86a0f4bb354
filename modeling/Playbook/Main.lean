import Playbook.Command.Execute
import Playbook.Command.FreshId
import Std.Time.DateTime.Timestamp

/-! # The command line program

Executes the command of the command line on the files of the machine.
-/

namespace Playbook

/-- What an effect gives, if it succeeds. -/
def attempt {α : Type} (effect : IO α) : IO (Option α) :=
  try some <$> effect catch _ => pure none

/-- The file system of the machine. -/
def machineDisk : Disk IO where
  readFile path := attempt (IO.FS.readFile path)
  fileNames path := attempt do
    let entries ← ((← IO.currentDir) / path).readDir
    let files ← entries.filterM fun entry => do return !(← entry.path.isDir)
    return (files.map (·.fileName)).toList
  isThere path := do ((← IO.currentDir) / path).pathExists
  makeDirectory path := do
    return (← attempt (IO.FS.createDirAll ((← IO.currentDir) / path))).isSome
  writeFile path text := IO.FS.writeFile path text

/-- The moment that the clock of the machine shows. -/
def clock : IO Time := do
  let nanos := (← Std.Time.Timestamp.now).toNanosecondsSinceUnixEpoch.val
  return ⟨nanos.fdiv Time.secondNanos, (nanos.fmod Time.secondNanos).toNat⟩

/-- A number that no one can guess. -/
def seed : IO Nat := do
  return (← IO.getRandomBytes 16).foldl (fun n byte => n * 256 + byte.toNat) 0

/-- The value of a variable of the machine. No variable has an empty name or one with an equals sign or a zero byte. -/
def variableValue (name : String) : IO (Option String) :=
  if name.isEmpty || name.any (fun c => c = '=' || c = '\x00') then pure none else IO.getEnv name

def surroundings : IO (Surroundings IO) := do
  let seed ← seed
  return {
    disk := machineDisk
    variableValue
    workingDirectory := (← IO.currentDir).toString
    supply := ThreadId.stream seed
    now := ← clock }

end Playbook

def main (args : List String) : IO UInt32 := do
  let r ← Playbook.Command.execute (← Playbook.surroundings) args
  IO.print r.out
  IO.eprint r.err
  return r.code.toUInt32
