import YamlLayout.Yaml.Token

/-! The node graph of a document: scalars, sequences and mappings as written, with
aliases still pointing to the nodes that their anchors mark. -/
namespace YamlLayout.Yaml

inductive Node where
  | alias (number : Nat)
  | scalar (tag : Option Bytes) (text : List Char) (plain : Bool)
  | sequence (tag : Option Bytes) (items : List Node)
  | mapping (tag : Option Bytes) (entries : List (Node × Node))

namespace Node

def empty (tag : Option Bytes) : Node := scalar tag [] true

end Node

/-- A node with an anchor. The number counts the distinct names before it, so two
nodes may share one; the one that starts later is meant. -/
structure Mark where
  number : Nat
  position : Nat
  node : Node

structure Document where
  root : Node
  marks : List Mark
  /-- Starts and ends of nodes, which bound how often aliases may be followed. -/
  size : Nat

def Document.target? (d : Document) (number : Nat) : Option Node :=
  let later (best : Option Mark) (m : Mark) : Option Mark :=
    if m.number = number && best.all (·.position < m.position) then some m else best
  (d.marks.foldl later none).map (·.node)

end YamlLayout.Yaml
