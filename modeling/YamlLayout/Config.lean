import YamlLayout.Feature.Builtin

/-! The settings of a formatter and the features that they turn on, in a fixed
order: line endings, directives, blank lines, escapes. -/
namespace YamlLayout

structure Config where
  lineEnding : LineEnding := .default
  retainLineBreaks : Bool := false
  retainLineBreaksSingle : Bool := false
  stripDirectives : Bool := false
  parseUnicode : Bool := false
  deriving DecidableEq

namespace Config

def lineBreakMode (c : Config) : Option LineBreakMode :=
  if c.retainLineBreaksSingle then some .single
  else if c.retainLineBreaks then some .all
  else none

def features (c : Config) : List Feature :=
  [.lineEnding c.lineEnding]
    ++ (if c.stripDirectives then [.stripDirectives c.lineEnding] else [])
    ++ (c.lineBreakMode.map (.retainLineBreaks c.lineEnding)).toList
    ++ (if c.parseUnicode then [.parseUnicode] else [])

def configureEvents (c : Config) : List Event :=
  [.configured (Feature.describeNames c.features)]

def describe (c : Config) : String :=
  Quoted.record "FormatterConfig"
    [("line_ending", match c.lineEnding with | .lf => "Lf" | .crlf => "Crlf"),
     ("retain_line_breaks", Quoted.flag c.retainLineBreaks),
     ("retain_line_breaks_single", Quoted.flag c.retainLineBreaksSingle),
     ("strip_directives", Quoted.flag c.stripDirectives),
     ("parse_unicode", Quoted.flag c.parseUnicode)]

end Config
end YamlLayout
