import YamlLayout.Yaml.Cursor

/-! The tokens of a YAML stream. -/
namespace YamlLayout.Yaml

inductive Token where
  | version (major minor : Nat)
  | tagHandle (handle start : Bytes)
  | documentStart
  | documentEnd
  | blockSequenceStart
  | blockMappingStart
  | blockEnd
  | flowSequenceStart
  | flowSequenceEnd
  | flowMappingStart
  | flowMappingEnd
  | blockEntry
  | flowEntry
  | key
  | value
  | alias (name : List Char)
  | anchor (name : List Char)
  | tag (handle suffix : Bytes)
  | scalar (text : List Char) (plain : Bool)
  | streamEnd
  deriving DecidableEq

end YamlLayout.Yaml
