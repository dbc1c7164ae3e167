import YamlLayout.Escape
import YamlLayout.Feature
import YamlLayout.LineBreaks
import YamlLayout.LineEnding

/-! The four features of the library: line endings, directives, blank lines and
character escapes. -/
namespace YamlLayout

def Directive.stripEvents (content : Bytes) : List Event :=
  (strip content).2.map fun d => .recordedDirective d.line

def Directive.Placed.event? : Placed → Option Event
  | .text _ => none
  | .restored d => some (.restoredDirective d.line)
  | .trailing d outputLine => some (.appendedDirective d.line outputLine)

def Directive.restoreEvents (content : Bytes) (directives : List Directive) : List Event :=
  (placed content directives).filterMap Placed.event?

def LineBreaks.Held.event? : Held → Option Event
  | .text _ => none
  | .gap padding => some (.replacedBlankLine padding.width)

def LineBreaks.replaceEvents (content : Bytes) : List Event :=
  (held content).filterMap Held.event?

namespace Feature

def pureAction (f : Bytes → Bytes) (events : Bytes → List Event) : Action :=
  fun context input => ⟨.done (f input), context, events input⟩

/-- Carriage returns always go before the reformat, and come back after it only
where they are part of the separator. -/
def lineEnding (ending : LineEnding) : Feature where
  name := "Line Ending"
  before := some (pureAction stripReturns fun _ => [])
  after := match ending with
    | .lf => none
    | .crlf => some (pureAction insertReturns fun _ => [])

def stripAction : Action := fun _ input =>
  let (output, directives) := Directive.strip input
  ⟨.done output, ⟨some directives⟩, Directive.stripEvents input⟩

def restoreAction (separator : Bytes) : Action := fun context input =>
  match context.directives with
  | none => ⟨.breach .directivesNeverRecorded, context, []⟩
  | some directives =>
    ⟨.done (Directive.restore input directives separator), ⟨none⟩,
      Directive.restoreEvents input directives⟩

def stripDirectives (ending : LineEnding) : Feature where
  name := "Strip Directives"
  before := some stripAction
  after := some (restoreAction ending.separator)

def retainLineBreaks (ending : LineEnding) (mode : LineBreakMode) : Feature where
  name := "Retain Line Breaks"
  before := some (pureAction LineBreaks.replace LineBreaks.replaceEvents)
  after := some (pureAction (LineBreaks.restore · ending.separator mode) fun _ => [])

def parseUnicode : Feature where
  name := "Parse Unicode Points"
  after := some fun context input => ⟨.ofExcept (Escape.decode input), context, []⟩

end Feature
end YamlLayout
