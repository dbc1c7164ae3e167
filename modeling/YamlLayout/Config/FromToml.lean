import YamlLayout.Config
import YamlLayout.Decimal.Shortest
import YamlLayout.Decimal.Width
import YamlLayout.Toml.Document

/-! Settings read from a TOML text. Keys are taken in byte order and the first one
that does not fit is reported. -/
namespace YamlLayout.Config
open Decimal

/-- A number in positional notation, always with a point. -/
def positional (s : Shortest.Scaled) : String :=
  let digits := Nat.toDigits 10 s.digits
  if 0 ≤ s.exponent then
    String.ofList (digits ++ List.replicate s.exponent.toNat '0') ++ ".0"
  else
    let places := (-s.exponent).toNat
    let padded := List.replicate (places + 1 - digits.length) '0' ++ digits
    let whole := padded.length - places
    String.ofList (padded.take whole ++ '.' :: padded.drop whole)

def floatText : Binary64 → String
  | .finite negative m e =>
    let shown := if m = 0 then "0.0" else positional (Shortest.ofMantissa .up m e)
    (if negative then "-" else "") ++ shown
  | .infinite negative => if negative then "-inf" else "inf"
  | .nan => "NaN"

/-- How a value that does not fit is named. Numbers beyond every width have no name. -/
def describeValue : Toml.Value → Option String
  | .string text => some ("string " ++ Quoted.text text)
  | .integer n =>
    if isInteger 64 n then some s!"integer `{n}`"
    else if isSigned 128 n then some s!"integer `{n}` as i128"
    else if isUnsigned 128 n then some s!"integer `{n}` as u128"
    else none
  | .float x => some s!"floating point `{floatText x}`"
  | .overflow => none
  | .boolean b => some s!"boolean `{Quoted.flag b}`"
  | .moment | .table .. => some "map"
  | .array _ | .tables _ => some "sequence"

def mismatch (value : Toml.Value) (expected : String) : Error :=
  .configParse ((describeValue value).map fun found =>
    s!"invalid type: {found}, expected {expected}")

def flag : Toml.Value → Except Error Bool
  | .boolean b => .ok b
  | value => .error (mismatch value "a boolean")

def ending : Toml.Value → Except Error LineEnding
  | .string text =>
    match LineEnding.parse text with
    | .ok e => .ok e
    | .error e => .error (.configParse e.message)
  | value => .error (mismatch value "a string")

def unknownField (key : String) : Error :=
  .configParse (some (s!"unknown field `{key}`, expected one of `line_ending`, "
    ++ "`retain_line_breaks`, `retain_line_breaks_single`, `strip_directives`, `parse_unicode`"))

def set (c : Config) (entry : String × Toml.Value) : Except Error Config :=
  match entry.1 with
  | "line_ending" => (ending entry.2).map fun e => { c with lineEnding := e }
  | "retain_line_breaks" => (flag entry.2).map fun b => { c with retainLineBreaks := b }
  | "retain_line_breaks_single" =>
    (flag entry.2).map fun b => { c with retainLineBreaksSingle := b }
  | "strip_directives" => (flag entry.2).map fun b => { c with stripDirectives := b }
  | "parse_unicode" => (flag entry.2).map fun b => { c with parseUnicode := b }
  | key => .error (unknownField key)

def ofEntries (entries : Toml.Entries) : Except Error Config :=
  (entries.mergeSort fun a b => a.1 ≤ b.1).foldlM set {}

def ofToml (text : String) : Except Error Config :=
  match Toml.parse? text with
  | some entries => ofEntries entries
  | none => .error (.configParse none)

def ofBytes (content : Bytes) : Except Error Config :=
  match Utf8.text? content with
  | some text => ofToml text
  | none => .error (.io "stream did not contain valid UTF-8")

def loadEvents (path : String) : Except Error Config → List Event
  | .ok c => [.loadedConfig path c.describe]
  | .error _ => []

end YamlLayout.Config
