import YamlLayout.Decimal.Width
import YamlLayout.Text.Digits
import YamlLayout.Yaml.Value

/-! What a scalar stands for. One without quotes and without a tag is a number, a
flag or null if it is written like one; a tag may ask for one of these. -/
namespace YamlLayout.Yaml.Scalar
open Decimal

def isNull (text : List Char) : Bool :=
  ["null", "Null", "NULL", "~"].contains (String.ofList text)

def boolean? (text : List Char) : Option Bool :=
  let s := String.ofList text
  if ["true", "True", "TRUE"].contains s then some true
  else if ["false", "False", "FALSE"].contains s then some false
  else none

/-- Digits after a leading zero are text. -/
def isZeroLed (text : List Char) : Bool :=
  match (splitSign text).2 with
  | '0' :: d :: ds => (d :: ds).all isDigit
  | _ => false

def based? : List Char → Option (Nat × List Char)
  | '0' :: 'x' :: r => some (16, r)
  | '0' :: 'o' :: r => some (8, r)
  | '0' :: 'b' :: r => some (2, r)
  | _ => none

def integer? (text : List Char) : Option Int := do
  let (negative, r) := splitSign text
  let n ← match based? r with
    | some (base, ds) => Digits.natural? base ds
    | none => if isZeroLed text then none else Digits.natural? 10 r
  some (if negative then -n else n)

/-- The integers that a value can hold, 64 bits wide with or without a sign. -/
def fits : Int → Bool := isInteger 64

/-- Integers that count as integers, though a value cannot hold all of them. -/
def isWide : Int → Bool := isInteger 128

def float? (text : List Char) : Option Binary64 :=
  let s := String.ofList text
  if [".inf", ".Inf", ".INF", "+.inf", "+.Inf", "+.INF"].contains s then some (.infinite false)
  else if ["-.inf", "-.Inf", "-.INF"].contains s then some (.infinite true)
  else if [".nan", ".NaN", ".NAN"].contains s then some .nan
  else
    match (Literal.read? text).map Binary64.ofLiteral with
    | some (.finite s m e) => some (.finite s m e)
    | _ => none

/-- The value of a plain scalar; integers that are too wide have none. -/
def plain? (text : List Char) : Option Value :=
  if text.isEmpty || isNull text then some .null
  else match boolean? text with
  | some b => some (.boolean b)
  | none =>
    match (integer? text).filter isWide with
    | some n => if fits n then some (.integer n) else none
    | none =>
      match if isZeroLed text then none else float? text with
      | some x => some (.float x)
      | none => some (.string text)

def needsQuotes (text : List Char) : Bool :=
  isZeroLed text ||
    match plain? text with
    | some (.string _) => false
    | _ => true

def coreTag (name : String) : Bytes := Utf8.ofString ("tag:yaml.org,2002:" ++ name)

def isLocal (tag : Bytes) : Bool := tag.head? == some 0x21

/-- The name of such a tag; one that is not UTF-8 has none. -/
def localName? (tag : Bytes) : Option (List Char) :=
  if isLocal tag then Utf8.decode? (if tag.length = 1 then tag else tag.tail) else none

def tagged? (tag : Bytes) (text : List Char) (plain : Bool) : Option Value :=
  if tag = coreTag "bool" then (boolean? text).map .boolean
  else if tag = coreTag "int" then
    ((integer? text).filter fits).map .integer
  else if tag = coreTag "float" then (float? text).map .float
  else if tag = coreTag "null" then (if isNull text then some .null else none)
  else if isLocal tag && plain then plain? text
  else some (.string text)

def value? (tag : Option Bytes) (text : List Char) (plain : Bool) : Option Value :=
  match tag with
  | some tag => tagged? tag text plain
  | none => if plain then plain? text else some (.string text)

end YamlLayout.Yaml.Scalar
