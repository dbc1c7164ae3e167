import YamlLayout.Config

/-! A formatter runs its features around a reformat step, with a fresh context
for every document. -/
namespace YamlLayout

abbrev Reformat := Bytes → Except Error Bytes

def Reformat.passthrough : Reformat := .ok

structure Formatter where
  features : List Feature
  reformat : Reformat

namespace Formatter

def ofConfig (config : Config) (reformat : Reformat) : Formatter := ⟨config.features, reformat⟩

def prepare (f : Formatter) (input : Bytes) : Run := Feature.apply .before f.features {} input

def format (f : Formatter) (input : Bytes) : Run :=
  let first := f.prepare input
  match first.outcome with
  | .done prepared =>
    let events := first.events ++ [.reformatting prepared.length]
    match f.reformat prepared with
    | .error e => ⟨.failed e, first.context, events⟩
    | .ok reformatted =>
      let last := Feature.apply .after f.features first.context reformatted
      { last with events := events ++ last.events }
  | _ => first

end Formatter
end YamlLayout
