import YamlLayout.Decimal.Binary64

/-! The values that a YAML document stands for. A mapping keeps the order of its
entries, but two mappings with the same entries are the same value. -/
namespace YamlLayout.Yaml

inductive Value where
  | null
  | boolean (b : Bool)
  | integer (n : Int)
  | float (x : Decimal.Binary64)
  | string (text : List Char)
  | sequence (items : List Value)
  | mapping (entries : List (Value × Value))
  /-- A value under a tag of the document's own. -/
  | tagged (name : List Char) (value : Value)

/-- The name of a tag without the exclamation mark that may start it. -/
def bareTag (name : List Char) : List Char :=
  match name with
  | '!' :: c :: rest => c :: rest
  | _ => name

namespace Value

mutual

def same : Value → Value → Bool
  | null, null => true
  | boolean a, boolean b => a == b
  | integer a, integer b => a == b
  | float a, float b => a.same b
  | string a, string b => a == b
  | sequence as, sequence bs => sameItems as bs
  | mapping as, mapping bs => as.length == bs.length && sameEntries as bs
  | tagged n a, tagged m b => bareTag n == bareTag m && same a b
  | _, _ => false

def sameItems : List Value → List Value → Bool
  | [], [] => true
  | a :: as, b :: bs => same a b && sameItems as bs
  | _, _ => false

def sameEntries : List (Value × Value) → List (Value × Value) → Bool
  | [], _ => true
  | (k, v) :: rest, bs => bs.any (fun (l, w) => same k l && same v w) && sameEntries rest bs

end

def distinctKeys : List (Value × Value) → Bool
  | [] => true
  | (k, _) :: rest => rest.all (fun (l, _) => !same k l) && distinctKeys rest

end Value
end YamlLayout.Yaml
