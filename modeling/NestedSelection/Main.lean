import NestedSelection.Command.Run

/-! # The program

Looks at the files and the environment that a command line may ask for, runs it on what was seen,
and writes and prints what comes of it.
-/

namespace NestedSelection

namespace Program

def look (path : String) : IO (Option Entry) := do
  try
    return some (.file (← IO.FS.readBinFile path))
  catch
    | .inappropriateType .. => return some .directory
    | _ => return none

/-- Takes down what is on the way to a path, as far as it leads. -/
def survey (seen : FileTree) (path : String) : IO FileTree := do
  let p := Path.ofText path
  let mut seen := seen
  let mut way := if p.isAbsolute then "/" else ""
  for name in p.parts do
    way := way ++ name
    match ← look way, seen.locate (.ofText way) with
    | some e, .ok place => seen := seen.put place e
    | _, _ => return seen
    way := way ++ "/"
  return seen

def surveyAll (seen : FileTree) (paths : List String) : IO FileTree := paths.foldlM survey seen

/-- The paths where the standard settings are looked for. -/
def settingsPaths : List String :=
  Settings.standardPath ::
    (Format.values.flatMap Format.extensions).map fun e => Settings.standardPath ++ "." ++ e

def paths (line : CommandLine) (settings : Settings) : List String :=
  (line.schema <|> settings.schemaPath).toList ++
    match line.command with
    | .generate output => [output]
    | .relations _ => []
    | .compile _ selection _ => [selection]

/-- A variable and its value, parted by the first `=`. -/
def variableOf (bytes : List UInt8) : Option (String × String) := do
  let text ← Utf8.strict? ⟨bytes.toArray⟩
  let name := text.toList.takeWhile (· ≠ '=')
  return (String.ofList name, String.ofList (text.toList.drop (name.length + 1)))

def environment : IO Settings.Environment := do
  match ← look "/proc/self/environ" with
  | some (.file b) => return (b.data.toList.splitOn 0).filterMap variableOf
  | _ => return []

/-- Writes the files that were not seen as they now are. -/
def save (seen now : FileTree) : IO Unit := do
  for (place, e) in now.entries do
    match e, seen.at? place with
    | .file b, some (.file c) => if b.data ≠ c.data then write place b
    | .file b, _ => write place b
    | .directory, _ => pure ()
where
  write (place : Place) (b : ByteArray) : IO Unit := do
    IO.FS.createDirAll ("/" ++ String.intercalate "/" place.dropLast)
    IO.FS.writeBinFile ("/" ++ String.intercalate "/" place) b

/-- What has to be seen to run a command line. -/
def surveyFor (env : Settings.Environment) (words : List String) : IO FileTree := do
  let here := Path.ofText (← IO.currentDir).toString
  let seen ← surveyAll { workingDirectory := here.names } settingsPaths
  match CommandLine.read words, Settings.load seen env with
  | .ok line, .ok settings => surveyAll seen (paths line settings)
  | _, _ => return seen

end Program

end NestedSelection

open NestedSelection

def main (words : List String) : IO UInt32 := do
  let env ← Program.environment
  let seen ← Program.surveyFor env words
  let report := CommandLine.runWords seen env words
  Program.save seen report.files
  (← IO.getStdout).putStr report.printed
  match report.error with
  | some message => (← IO.getStderr).putStrLn ("Error: " ++ message)
  | none => pure ()
  return report.code.toUInt32
