/-! The texts that the program shows about itself: its version, a summary with a
line for each option, and a full help with a paragraph for each. -/
namespace YamlLayout.CommandLine

def versionText : String := "yamlkeep_cli 0.1.0\n"

structure OptionHelp where
  letter : Option Char
  name : String
  value : Option String
  text : String

def OptionHelp.label (o : OptionHelp) : String :=
  let letter := match o.letter with
    | some c => String.ofList ['-', c, ',', ' ']
    | none => "    "
  let value := match o.value with
    | some v => " <" ++ v ++ ">"
    | none => ""
  letter ++ "--" ++ o.name ++ value

def optionHelps : List OptionHelp :=
  [⟨some 'c', "config", some "CONFIG", "Path to a TOML config file. Flags override its values"⟩,
   ⟨none, "line-ending", some "LINE_ENDING", "Line ending of the formatted output: `lf` or `crlf`"⟩,
   ⟨none, "retain-line-breaks", none, "Keep the blank lines of the input"⟩,
   ⟨none, "retain-line-breaks-single", none,
    "Keep blank lines, collapsing each run of them to one"⟩,
   ⟨none, "strip-directives", none,
    "Remove `%` directive lines before formatting and restore them after"⟩,
   ⟨none, "parse-unicode", none,
    "Decode `\\UXXXXXXXX` escapes written by the encoder back into UTF-8"⟩,
   ⟨none, "no-reformat", none, "Skip the YAML round trip and only run the features"⟩,
   ⟨some 'v', "verbose", none, "Enable verbose output"⟩]

def helpOption (pointer : String) : OptionHelp :=
  ⟨some 'h', "help", none, "Print help (see " ++ pointer ++ ")"⟩

def versionOption : OptionHelp := ⟨some 'V', "version", none, "Print version"⟩

def filesLabel : String := "[FILES]..."
def filesText : String := "Files to format. Reads stdin when omitted"
def usage : String := "Usage: yamlkeep [OPTIONS] [FILES]..."

def brief : String :=
  "Format YAML documents while keeping blank lines, directives and line endings."

def description : List String :=
  ["yamlkeep reformats YAML documents and restores the details a parse and serialize round trip "
     ++ "throws away: blank lines, `%` directive lines, `\\U` codepoint escapes and CRLF line "
     ++ "endings.",
   "",
   "Each file is formatted independently and written to stdout. With no files, stdin is formatted."]

def padded (width : Nat) (s : String) : String :=
  s ++ String.ofList (List.replicate (width - s.length) ' ')

def summaryLines : List String :=
  let options := optionHelps ++ [helpOption "more with '--help'", versionOption]
  let width := (options.map (·.label.length)).foldl max 0
  [brief, "", usage, "", "Arguments:", "  " ++ filesLabel ++ "  " ++ filesText, "", "Options:"]
    ++ options.map fun o => "  " ++ padded width o.label ++ "  " ++ o.text

def paragraph (label text : String) : List String := ["", "  " ++ label, "          " ++ text]

def fullLines : List String :=
  let options := optionHelps ++ [helpOption "a summary with '-h'", versionOption]
  description ++ ["", usage, "", "Arguments:"] ++ (paragraph filesLabel filesText).drop 1
    ++ ["", "Options:"] ++ (options.flatMap fun o => paragraph o.label o.text).drop 1

def helpText (full : Bool) : String :=
  String.join ((if full then fullLines else summaryLines).map (· ++ "\n"))

end YamlLayout.CommandLine
