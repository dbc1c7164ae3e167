import YamlLayout.Error
import YamlLayout.Yaml.Printer
import YamlLayout.Yaml.Token.Stream
import YamlLayout.Yaml.Value.OfDocument

/-! A byte text read as YAML and written again, every document on its own. -/
namespace YamlLayout.Yaml

/-- An empty stream stands for one null document. -/
def values? (content : Bytes) : Option (List Value) := do
  let text ← Utf8.decode? content
  if text.all isAllowed then
    let documents ← Document.ofTokens? (← Token.ofText? text)
    if documents.isEmpty then some [.null] else documents.mapM Value.ofDocument?
  else none

def render? (values : List Value) : Option (List Char) := do
  let texts ← values.mapM Value.render?
  some (List.intercalate "---\n".toList texts)

def roundTrip (content : Bytes) : Except Error Bytes :=
  match (values? content).bind render? with
  | some text => .ok (Utf8.encodeAll text)
  | none => .error (.reformat none)

end YamlLayout.Yaml
