import YamlLayout.Error

/-! What a run tells about itself, in the order in which it happens. -/
namespace YamlLayout

inductive Level where
  | debug | trace
  deriving DecidableEq

inductive Event where
  | loadedConfig (path config : String)
  | configured (features : String)
  | reformatting (bytes : Nat)
  | applied (feature : String) (phase : Phase) (bytes : Nat)
  | failed (feature : String) (phase : Phase) (error : Error)
  | recordedDirective (line : Nat)
  | restoredDirective (line : Nat)
  | appendedDirective (line outputLine : Nat)
  | replacedBlankLine (padding : Nat)
  /-- A remark of an action that is not one of the library's own. -/
  | note (text : String)
  deriving DecidableEq

inductive FieldValue where
  | count (n : Nat)
  | text (s : String)
  deriving DecidableEq

namespace Event

def level : Event → Level
  | loadedConfig .. | configured _ | reformatting _ | applied .. | failed .. | note _ => .debug
  | recordedDirective _ | restoredDirective _ | appendedDirective .. | replacedBlankLine _ => .trace

def message : Event → String
  | loadedConfig .. => "loaded formatter config"
  | configured _ => "configured features"
  | reformatting _ => "reformatting document"
  | applied .. => "applied feature action"
  | failed .. => "feature action failed"
  | recordedDirective _ => "recorded directive"
  | restoredDirective _ => "restored directive"
  | appendedDirective .. => "appended trailing directive"
  | replacedBlankLine _ => "replaced blank line with placeholder"
  | note text => text

def fields : Event → List (String × FieldValue)
  | loadedConfig path config => [("path", .text path), ("config", .text config)]
  | configured features => [("features", .text features)]
  | reformatting bytes => [("bytes", .count bytes)]
  | applied feature phase bytes =>
    [("feature", .text feature), ("phase", .text phase.label), ("bytes", .count bytes)]
  | failed feature phase error =>
    [("feature", .text feature), ("phase", .text phase.label),
     ("error", .text (error.message.getD ""))]
  | recordedDirective line => [("line", .count line)]
  | restoredDirective line => [("line", .count line)]
  | appendedDirective line outputLine =>
    [("line", .count line), ("output_line", .count outputLine)]
  | replacedBlankLine padding => [("padding", .count padding)]
  | note _ => []

end Event
end YamlLayout
