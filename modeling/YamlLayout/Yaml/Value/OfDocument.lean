import YamlLayout.Yaml.Node.OfTokens
import YamlLayout.Yaml.Scalar

/-! The value of a document. Aliases are followed, up to a bound that the size of the
document sets; a mapping must not have a key twice. -/
namespace YamlLayout.Yaml.Value

/-- A reader that counts the aliases which may still be followed. -/
abbrev Following := StateT Nat Option

def follow (d : Document) (tagDone : Bool) : Node → Following (Bool × Node)
  | .alias number => do
    match ← get with
    | 0 => failure
    | left + 1 =>
      set left
      match d.target? number with
      | some node => pure (false, node)
      | none => failure
  | node => pure (tagDone, node)

def wrap (name : Option (List Char)) (value : Value) : Value :=
  match name with
  | some name => .tagged name value
  | none => value

/-- `tagDone` tells that the tag of the node, or of the mapping whose key it is, has
been taken into account. -/
def ofNode? (d : Document) : Nat → Bool → Node → Following Value
  | depth, tagDone, node => do
    let (tagDone, node) ← follow d tagDone node
    let own (tag : Option Bytes) := if tagDone then none else tag.bind Scalar.localName?
    match depth, node with
    | _, .alias _ => failure
    | _, .scalar tag text plain =>
      let name := own tag
      let tag := if tagDone || name.isSome then none else tag
      match Scalar.value? tag text plain with
      | some value => pure (wrap name value)
      | none => failure
    | 0, .sequence .. | 0, .mapping .. => failure
    | depth + 1, .sequence tag items => do
      return wrap (own tag) (.sequence (← items.mapM (ofNode? d depth false)))
    | depth + 1, .mapping tag entries => do
      let name := own tag
      let entries ← entries.mapM fun (key, value) => do
        return (← ofNode? d depth (tagDone || name.isSome) key, ← ofNode? d depth false value)
      if distinctKeys entries then return wrap name (.mapping entries) else failure

def ofDocument? (d : Document) : Option Value :=
  ((ofNode? d maxDepth false d.root).run (100 * d.size)).map (·.1)

end YamlLayout.Yaml.Value
