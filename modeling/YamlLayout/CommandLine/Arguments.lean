import YamlLayout.LineEnding

/-! The words of a command line read as arguments. A value that an option waits
for, and a row of file names, are settled when the next option or the end comes;
a word that names nothing known is refused before that. -/
namespace YamlLayout.CommandLine

structure Arguments where
  files : List String := []
  configPath : Option String := none
  lineEnding : Option LineEnding := none
  retainLineBreaks : Bool := false
  retainLineBreaksSingle : Bool := false
  stripDirectives : Bool := false
  parseUnicode : Bool := false
  noReformat : Bool := false
  verbose : Bool := false
  deriving DecidableEq

inductive UsageError where
  | unknownArgument
  /-- An option without its value, or an empty file name. -/
  | invalidValue
  /-- An option or a switch given twice. -/
  | argumentConflict
  /-- A switch with a value attached. -/
  | tooManyValues
  | lineEndingValue (value : String) (cause : Error)
  | help (full : Bool)
  | version
  deriving DecidableEq

def UsageError.message : UsageError → Option String
  | .lineEndingValue value cause =>
    cause.message.map fun reason =>
      s!"error: invalid value '{value}' for '--line-ending <LINE_ENDING>': {reason}"
  | _ => none

inductive Switch where
  | retainLineBreaks | retainLineBreaksSingle | stripDirectives | parseUnicode
  | noReformat | verbose
  deriving DecidableEq

inductive Setting where
  | config | lineEnding
  deriving DecidableEq

inductive Name where
  | switch (s : Switch)
  | setting (s : Setting)
  | help (full : Bool)
  | version
  deriving DecidableEq

def long? : String → Option Name
  | "config" => some (.setting .config)
  | "line-ending" => some (.setting .lineEnding)
  | "retain-line-breaks" => some (.switch .retainLineBreaks)
  | "retain-line-breaks-single" => some (.switch .retainLineBreaksSingle)
  | "strip-directives" => some (.switch .stripDirectives)
  | "parse-unicode" => some (.switch .parseUnicode)
  | "no-reformat" => some (.switch .noReformat)
  | "verbose" => some (.switch .verbose)
  | "help" => some (.help true)
  | "version" => some .version
  | _ => none

def short? : Char → Option Name
  | 'c' => some (.setting .config)
  | 'v' => some (.switch .verbose)
  | 'h' => some (.help false)
  | 'V' => some .version
  | _ => none

def Arguments.has (a : Arguments) : Switch → Bool
  | .retainLineBreaks => a.retainLineBreaks
  | .retainLineBreaksSingle => a.retainLineBreaksSingle
  | .stripDirectives => a.stripDirectives
  | .parseUnicode => a.parseUnicode
  | .noReformat => a.noReformat
  | .verbose => a.verbose

def Arguments.turnOn (a : Arguments) : Switch → Arguments
  | .retainLineBreaks => { a with retainLineBreaks := true }
  | .retainLineBreaksSingle => { a with retainLineBreaksSingle := true }
  | .stripDirectives => { a with stripDirectives := true }
  | .parseUnicode => { a with parseUnicode := true }
  | .noReformat => { a with noReformat := true }
  | .verbose => { a with verbose := true }

inductive Pending where
  | nothing
  | setting (s : Setting) (value : Option String)
  | files (paths : List String)
  deriving DecidableEq

structure Progress where
  given : Arguments := {}
  pending : Pending := .nothing
  deriving DecidableEq

abbrev Step := Except UsageError Progress

def settleSetting (a : Arguments) (value : String) : Setting → Except UsageError Arguments
  | .config =>
    if a.configPath.isSome then .error .argumentConflict
    else if value = "" then .error .invalidValue
    else .ok { a with configPath := some value }
  | .lineEnding =>
    if a.lineEnding.isSome then .error .argumentConflict
    else match LineEnding.parse value with
      | .ok e => .ok { a with lineEnding := some e }
      | .error cause => .error (.lineEndingValue value cause)

def Progress.settle (p : Progress) : Step :=
  match p.pending with
  | .nothing => .ok p
  | .setting _ none => .error .invalidValue
  | .setting s (some value) => (settleSetting p.given value s).map (⟨·, .nothing⟩)
  | .files paths =>
    if paths.contains "" then .error .invalidValue
    else .ok ⟨{ p.given with files := p.given.files ++ paths }, .nothing⟩

def Progress.switch (p : Progress) (s : Switch) : Step :=
  p.settle.bind fun p =>
    if p.given.has s then .error .argumentConflict else .ok { p with given := p.given.turnOn s }

def Progress.setting (p : Progress) (s : Setting) (value : Option String) : Step :=
  p.settle.bind fun p =>
    let p := { p with pending := .setting s value }
    if value.isSome then p.settle else .ok p

def Progress.stop (p : Progress) (reason : UsageError) : Step :=
  p.settle.bind fun _ => .error reason

def Progress.long (p : Progress) (body : List Char) : Step :=
  let name := body.takeWhile (· != '=')
  let value := match body.dropWhile (· != '=') with
    | _ :: r => some (String.ofList r)
    | [] => none
  match long? (String.ofList name), value with
  | none, _ => .error .unknownArgument
  | some (.setting s), value => p.setting s value
  | some _, some _ => .error .tooManyValues
  | some (.switch s), none => p.switch s
  | some (.help full), none => p.stop (.help full)
  | some .version, none => p.stop .version

/-- The letters after one hyphen; an option among them takes the rest as its value. -/
def Progress.short (p : Progress) : List Char → Step
  | [] => .ok p
  | c :: r =>
    match short? c with
    | none => .error .unknownArgument
    | some (.switch s) => (p.switch s).bind (·.short r)
    | some (.help full) => p.stop (.help full)
    | some .version => p.stop .version
    | some (.setting s) =>
      match r with
      | [] => p.setting s none
      | '=' :: value | value => p.setting s (some (String.ofList value))

def Progress.file (p : Progress) (path : String) : Step :=
  match p.pending with
  | .files paths => .ok { p with pending := .files (paths ++ [path]) }
  | _ => p.settle.bind fun p => .ok { p with pending := .files [path] }

def Progress.word (p : Progress) (w : String) : Step :=
  match w.toList with
  | '-' :: '-' :: body => p.long body
  | '-' :: c :: letters => p.short (c :: letters)
  | _ =>
    match p.pending with
    | .setting s none => .ok { p with pending := .setting s (some w) }
    | _ => p.file w

/-- After a bare pair of hyphens every word is a file. -/
def Progress.words (p : Progress) : List String → Step
  | [] => p.settle
  | w :: ws =>
    if w = "--" then (ws.foldlM Progress.file p).bind Progress.settle
    else (p.word w).bind (·.words ws)

def parse (words : List String) : Except UsageError Arguments :=
  (Progress.words {} words).map (·.given)

end YamlLayout.CommandLine
