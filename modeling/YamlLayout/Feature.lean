import YamlLayout.Directive
import YamlLayout.Event
import YamlLayout.Text.Quoted

/-! Features: named pairs of actions around the reformat of a document. Every
action of a phase runs in list order on the output and the context of the one
before it, up to the first that does not succeed. -/
namespace YamlLayout

/-- What one document's before phase leaves for its after phase. -/
structure Context where
  directives : Option (List Directive) := none
  deriving DecidableEq

structure Run where
  outcome : Outcome Bytes
  context : Context
  events : List Event
  deriving DecidableEq

abbrev Action := Context → Bytes → Run

structure Feature where
  name : String
  before : Option Action := none
  after : Option Action := none

namespace Feature

def action (f : Feature) : Phase → Option Action
  | .before => f.before
  | .after => f.after

def describe (f : Feature) : String :=
  Quoted.record "Feature"
    [("name", Quoted.text f.name), ("before", Quoted.flag f.before.isSome),
     ("after", Quoted.flag f.after.isSome)]

def describeAll (fs : List Feature) : String :=
  "FeatureList(" ++ Quoted.list (fs.map describe) ++ ")"

def describeNames (fs : List Feature) : String :=
  Quoted.list (fs.map fun f => Quoted.text f.name)

def apply (phase : Phase) : List Feature → Context → Bytes → Run
  | [], context, input => ⟨.done input, context, []⟩
  | f :: fs, context, input =>
    match f.action phase with
    | none => apply phase fs context input
    | some act =>
      let first := act context input
      match first.outcome with
      | .done output =>
        let rest := apply phase fs first.context output
        { rest with events := first.events ++ .applied f.name phase output.length :: rest.events }
      | .failed e =>
        ⟨.failed (.featureApply f.name phase e), first.context,
          first.events ++ [.failed f.name phase e]⟩
      | .breach cause => ⟨.breach cause, first.context, first.events⟩

end Feature
end YamlLayout
