import FieldSchema.CommandLine.Reply

/-!
# The command line program

Writes the reply to the command line: texts to the standard output, and anything else to the
standard error.
-/

open FieldSchema.CommandLine

/-- The bytes of a file, if it can be read. -/
def readBytes? (path : String) : IO (Option ByteArray) := do
  match ← (IO.FS.readBinFile path).toBaseIO with
  | .ok bytes => return some bytes
  | .error _ => return none

/-- The values of the variables the program looks at. -/
def readEnvironment : IO (List (String × Option String)) :=
  (filterVariable :: Flag.general.filterMap Flag.environmentName?).mapM fun name => do
    return (name, ← IO.getEnv name)

/-- The path a command line names, which is the only file that the reply depends on. -/
def inputPath? (environment : String → Option String) (words : List String) : Option String :=
  match Invocation.ofWords environment words with
  | .ok (.request r) => some r.input
  | _ => none

/-- Answers the command line. -/
def main (words : List String) : IO UInt32 := do
  let settings ← readEnvironment
  let environment (name : String) : Option String :=
    (settings.find? fun v => v.1 = name).bind Prod.snd
  let bytes ←
    match inputPath? environment words with
    | some path => readBytes? path
    | none => pure none
  let reply := Reply.ofWords ⟨environment, fun _ => bytes⟩ words
  match reply with
  | .text s conflicts =>
    for _ in [0:conflicts] do
      IO.eprintln "WARN conflicting definitions share a name, keeping the first"
    IO.println s
  | .failure f => IO.eprintln s!"Error: {f.message}"
  | .misuse m => IO.eprintln s!"error: {m.message}"
  return reply.status
