import YamlLayout.Decimal.Shortest
import YamlLayout.Yaml.Scalar
import YamlLayout.Yaml.Sheet

/-! Values written in block style, two spaces for each level and none for a sequence
inside a mapping. -/
namespace YamlLayout.Yaml
open Decimal

/-! Scalars -/

/-- Digits of a number between a thousandth and ten to the sixteenth are positional,
with a point; others have one digit before the point and an exponent. -/
def floatDigits (r : Shortest.Scaled) : List Char :=
  let ds := Nat.toDigits 10 r.digits
  let point := (ds.length : Int) + r.exponent
  if 0 ≤ r.exponent && point ≤ 16 then
    ds ++ List.replicate r.exponent.toNat '0' ++ ['.', '0']
  else if 0 < point && point ≤ 16 then ds.take point.toNat ++ '.' :: ds.drop point.toNat
  else if -5 < point && point ≤ 0 then
    '0' :: '.' :: List.replicate (-point).toNat '0' ++ ds
  else
    let fraction := if ds.length = 1 then [] else '.' :: ds.tail
    ds.take 1 ++ fraction ++ 'e' :: (toString (point - 1)).toList

def floatText : Binary64 → List Char
  | .finite negative m e =>
    (if negative then ['-'] else [])
      ++ (if m = 0 then "0.0".toList else floatDigits (Shortest.ofMantissa .even m e))
  | .infinite negative => if negative then "-.inf".toList else ".inf".toList
  | .nan => ".nan".toList

/-- The form asked for, by what else the text could be read as. -/
def askedStyle (text : List Char) : Style :=
  if text.contains '\n' then .literal
  else if Scalar.needsQuotes text then .single
  else .plain

def scalarText? : Value → Option (List Char × Style)
  | .null => some ("null".toList, .plain)
  | .boolean b => some ((if b then "true" else "false").toList, .plain)
  | .integer n => some ((toString n).toList, .plain)
  | .float x => some (floatText x, .plain)
  | .string text => some (text, askedStyle text)
  | _ => none

/-! Tags -/

def tagMarks : List Char :=
  [';', '/', '?', ':', '@', '&', '=', '+', '$', ',', '_', '.', '~', '*', '\'', '(', ')', '[', ']']

def tagByte (b : UInt8) : List Char :=
  let c := Char.ofNat b.toNat
  if b < 0x80 && (isWord c || tagMarks.contains c) then [c] else '%' :: Digits.upperHex 2 b.toNat

def tagContent (cs : List Char) : List Char := (Utf8.encodeAll cs).flatMap tagByte

def tagText (name : List Char) : List Char :=
  match bareTag name with
  | '!' :: rest => '!' :: rest
  | bare => '!' :: bare

def putTag (name : List Char) (s : Sheet) : Sheet :=
  match tagText name with
  | '!' :: c :: rest => (s.spaceBefore.put '!').close (tagContent (c :: rest))
  | text => ((s.mark ['!', '<']).close (tagContent text)).close ['>']

def putTag? (tag : Option (List Char)) (s : Sheet) : Sheet :=
  match tag with
  | some name => putTag name s
  | none => s

/-! Values -/

def byteCount (cs : List Char) : Nat := (Utf8.encodeAll cs).length

def tagLength (tag : Option (List Char)) : Nat :=
  match tag with
  | some name => byteCount (tagText name)
  | none => 0

/-- A key of at most 128 bytes on one line stands in front of its colon. -/
def isShortKey (tag : Option (List Char)) : Value → Bool
  | .tagged name value => isShortKey (some name) value
  | .sequence items => items.isEmpty && tagLength tag ≤ 128
  | .mapping entries => entries.isEmpty && tagLength tag ≤ 128
  | value =>
    match scalarText? value with
    | some (text, _) => !text.any isBreak && tagLength tag + byteCount text ≤ 128
    | none => false

structure Place where
  indent : Int
  inMapping : Bool := false
  isKey : Bool := false

def deeper (indent : Int) (atRoot : Int) : Int := if indent < 0 then atRoot else indent + 2

def putScalar (place : Place) (s : Sheet) (text : List Char) (asked : Style) : Sheet :=
  s.scalar (deeper place.indent 2) (asked.choose place.isKey text) text

mutual

def putValue (place : Place) (tag : Option (List Char)) : Value → Sheet → Sheet
  | .tagged name value, s => putValue place (some name) value s
  | .sequence items, s =>
    let s := putTag? tag s
    if items.isEmpty then (s.bracket '[').close [']']
    else
      let flush := place.inMapping && !s.indented
      putItems (if flush && 0 ≤ place.indent then place.indent else deeper place.indent 0) items s
  | .mapping entries, s =>
    let s := putTag? tag s
    if entries.isEmpty then (s.bracket '\x7b').close ['\x7d']
    else putEntries (deeper place.indent 0) entries s
  | .null, s => putScalar place (putTag? tag s) "null".toList .plain
  | .boolean b, s => putScalar place (putTag? tag s) (if b then "true" else "false").toList .plain
  | .integer n, s => putScalar place (putTag? tag s) (toString n).toList .plain
  | .float x, s => putScalar place (putTag? tag s) (floatText x) .plain
  | .string text, s => putScalar place (putTag? tag s) text (askedStyle text)

def putItems (indent : Int) : List Value → Sheet → Sheet
  | [], s => s
  | item :: rest, s =>
    putItems indent rest (putValue { indent } none item ((s.indent indent).blockMark '-'))

def putEntries (indent : Int) : List (Value × Value) → Sheet → Sheet
  | [], s => s
  | (key, value) :: rest, s =>
    let s := s.indent indent
    let s :=
      if isShortKey none key then
        (putValue { indent, inMapping := true, isKey := true } none key s).close [':']
      else
        let s := putValue { indent, inMapping := true } none key (s.blockMark '?')
        (s.indent indent).blockMark ':'
    putEntries indent rest (putValue { indent, inMapping := true } none value s)

end

/-- An only key that is a one-entry mapping or tagged would run together with its own
mapping. -/
def runsTogether : List (Value × Value) → Bool
  | [(.mapping [_], _)] | [(.tagged .., _)] => true
  | _ => false

mutual

/-- Whether a value can be written; `underTag` tells that a tag stands before it. -/
def writable (underTag : Bool) : Value → Bool
  | .tagged _ value => !underTag && writable true value
  | .mapping entries => (underTag || !runsTogether entries) && writableEntries entries
  | .sequence items => writableItems items
  | _ => true

def writableItems : List Value → Bool
  | [] => true
  | item :: rest => writable false item && writableItems rest

def writableEntries : List (Value × Value) → Bool
  | [] => true
  | (key, value) :: rest => writable false key && writable false value && writableEntries rest

end

def Value.render? (v : Value) : Option (List Char) :=
  if writable false v then
    some ((putValue { indent := -1 } none v {}).indent 0).written.reverse
  else none

end YamlLayout.Yaml
