import YamlLayout.CommandLine.Arguments
import YamlLayout.CommandLine.Help
import YamlLayout.Config.FromToml
import YamlLayout.Proofs.Outcome

/-! A run over documents. Each one is formatted on its own: a document that cannot
be read or formatted is reported and adds nothing to the output. -/
namespace YamlLayout.CommandLine

abbrev Read := String → Except Error Bytes

/-- A report without a document concerns the configuration. -/
structure Report where
  document : Option String
  error : Error
  deriving DecidableEq

structure Execution where
  status : Nat
  output : Bytes
  reports : List Report
  deriving DecidableEq

def loadConfig (read : Read) : Option String → Except Error Config
  | none => .ok {}
  | some path => (read path).bind Config.ofBytes

def Arguments.override (a : Arguments) (c : Config) : Config where
  lineEnding := a.lineEnding.getD c.lineEnding
  retainLineBreaks := c.retainLineBreaks || a.retainLineBreaks
  retainLineBreaksSingle := c.retainLineBreaksSingle || a.retainLineBreaksSingle
  stripDirectives := c.stripDirectives || a.stripDirectives
  parseUnicode := c.parseUnicode || a.parseUnicode

def Arguments.resolve (a : Arguments) (read : Read) : Except Error Config :=
  (loadConfig read a.configPath).map a.override

def Arguments.loadEvents (a : Arguments) (read : Read) : List Event :=
  match a.configPath with
  | none => []
  | some path => Config.loadEvents path (loadConfig read (some path))

def stdinName : String := "<stdin>"

/-- Standard input stands in where no file is named. -/
def Arguments.documents (a : Arguments) (read : Read) (stdin : Bytes) :
    List (String × Except Error Bytes) :=
  if a.files.isEmpty then [(stdinName, .ok stdin)] else a.files.map fun path => (path, read path)

/-- What a run has written and reported so far. -/
structure Transcript where
  output : Bytes := []
  reports : List Report := []
  allOk : Bool := true

def Transcript.report (t : Transcript) (name : String) (e : Error) : Transcript :=
  { t with reports := t.reports ++ [⟨some name, e⟩], allOk := false }

def formatDocument (c : Config) (reformat : Reformat) (name : String) (content : Bytes)
    (t : Transcript) : Transcript :=
  match h : ((Formatter.ofConfig c reformat).format content).outcome with
  | .done output => { t with output := t.output ++ output }
  | .failed e => t.report name e
  -- configured features find the directives that they ask for
  | .breach cause => absurd h (Formatter.format_ne_breach c reformat content cause)

def formatAll (c : Config) (reformat : Reformat) :
    Transcript → List (String × Except Error Bytes) → Transcript
  | t, [] => t
  | t, (name, .error e) :: rest => formatAll c reformat (t.report name e) rest
  | t, (name, .ok content) :: rest =>
    formatAll c reformat (formatDocument c reformat name content t) rest

def run (yaml : Reformat) (read : Read) (stdin : Bytes) (a : Arguments) : Execution :=
  match a.resolve read with
  | .error e => ⟨2, [], [⟨none, e⟩]⟩
  | .ok config =>
    let reformat := if a.noReformat then .passthrough else yaml
    let last := formatAll config reformat {} (a.documents read stdin)
    ⟨if last.allOk then 0 else 2, last.output, last.reports⟩

/-- The run of words that are not read as arguments: a text asked for, or a refusal. -/
def refuse : UsageError → Execution
  | .help full => ⟨0, Utf8.ofString (helpText full), []⟩
  | .version => ⟨0, Utf8.ofString versionText, []⟩
  | _ => ⟨2, [], []⟩

def execute (yaml : Reformat) (read : Read) (stdin : Bytes) (words : List String) : Execution :=
  match parse words with
  | .ok a => run yaml read stdin a
  | .error e => refuse e

end YamlLayout.CommandLine
