import YamlLayout.CommandLine.Execution
import YamlLayout.CommandLine.FileTable
import YamlLayout.Yaml.RoundTrip

/-! The program itself: the files that the command line names are read, the run is
computed, and its output, reports and status are handed over. -/
namespace YamlLayout.CommandLine

/-- Some system errors carry the negated code. -/
def systemCode (code : UInt32) : UInt32 := if code < 0x80000000 then code else 0 - code

def systemError : IO.Error → Error
  | .noFileOrDirectory .. => FileTable.notFound
  | .inappropriateType _ code text | .permissionDenied _ code text =>
    .io s!"{text} (os error {systemCode code})"
  | e => .io e.toString

def readFile (path : String) : IO (Except Error Bytes) := do
  try
    return .ok (← IO.FS.readBinFile path).toList
  catch e =>
    return .error (systemError e)

partial def drain (stream : IO.FS.Stream) (seen : ByteArray) : IO ByteArray := do
  let more ← stream.read 65536
  if more.isEmpty then return seen else drain stream (seen ++ more)

def Arguments.paths (a : Arguments) : List String := a.configPath.toList ++ a.files

def Report.text (r : Report) : String :=
  let subject := match r.document with
    | some name => name ++ ": "
    | none => ""
  let detail := match r.error.message with
    | some text => ": " ++ text
    | none => ""
  subject ++ r.error.code ++ detail

def gather (a : Arguments) : IO (Read × Bytes) := do
  let contents ← a.paths.mapM fun path => do return (path, ← readFile path)
  let stdin ← if a.files.isEmpty then drain (← IO.getStdin) .empty else pure .empty
  return (fun path => (contents.lookup path).getD (.error FileTable.notFound), stdin.toList)

def handOver (x : Execution) : IO UInt32 := do
  let stdout ← IO.getStdout
  stdout.write ⟨x.output.toArray⟩
  stdout.flush
  x.reports.forM fun r => IO.eprintln r.text
  return x.status.toUInt32

def program (words : List String) : IO UInt32 := do
  match parse words with
  | .ok a =>
    let (read, stdin) ← gather a
    handOver (run Yaml.roundTrip read stdin a)
  | .error e =>
    let x := refuse e
    if x.status ≠ 0 then IO.eprintln (e.message.getD "error: invalid arguments" ++ "\n\n" ++ usage)
    handOver x

end YamlLayout.CommandLine

def main (words : List String) : IO UInt32 := YamlLayout.CommandLine.program words
