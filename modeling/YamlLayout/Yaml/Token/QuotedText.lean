import YamlLayout.Text.Digits
import YamlLayout.Yaml.Token.Gap

/-! Scalars in single and in double quotes. -/
namespace YamlLayout.Yaml.QuotedText

def simpleEscape? : Char → Option Char
  | '0' => some '\x00'
  | 'a' => some '\x07'
  | 'b' => some '\x08'
  | 't' | '\t' => some '\t'
  | 'n' => some '\n'
  | 'v' => some '\x0b'
  | 'f' => some '\x0c'
  | 'r' => some '\r'
  | 'e' => some '\x1b'
  | ' ' => some ' '
  | '"' => some '"'
  | '/' => some '/'
  | '\\' => some '\\'
  | 'N' => some '\u0085'
  | '_' => some '\u00a0'
  | 'L' => some '\u2028'
  | 'P' => some '\u2029'
  | _ => none

def hexLength? : Char → Option Nat
  | 'x' => some 2
  | 'u' => some 4
  | 'U' => some 8
  | _ => none

def escape? (c : Cursor) : Option (Char × Cursor) := do
  let letter ← c.peekAt 1
  match hexLength? letter with
  | none => (simpleEscape? letter).map (·, c.skip 2)
  | some count => (Digits.character? count (c.rest.drop 2)).map (·, c.skip (2 + count))

/-- A run without gaps, and whether an escaped line break ended it. -/
def run? (single : Bool) : Nat → Cursor → Option (List Char × Bool × Cursor)
  | 0, _ => none
  | fuel + 1, c =>
    match c.peek with
    | none => some ([], false, c)
    | some x =>
      if isBlank x || isBreak x then some ([], false, c)
      else if single && x == '\'' && c.peekAt 1 == some '\'' then
        (run? single fuel (c.skip 2)).map fun (text, rest) => ('\'' :: text, rest)
      else if x == (if single then '\'' else '"') then some ([], false, c)
      else if !single && x == '\\' then
        if (c.peekAt 1).any isBreak then some ([], true, (c.skip 1).skipBreak)
        else do
          let (y, next) ← escape? c
          (run? single fuel next).map fun (text, rest) => (y :: text, rest)
      else (run? single fuel (c.skip 1)).map fun (text, rest) => (x :: text, rest)

/-- The text up to the closing quote; a document marker must not stand inside. -/
def body? (single : Bool) : Nat → Cursor → Option (List Char × Cursor)
  | 0, _ => none
  | fuel + 1, c =>
    if c.atDocumentMarker || c.atEnd then none
    else do
      let (text, escaped, c) ← run? single c.limit c
      if c.isAt (if single then '\'' else '"') then some (text, c.skip 1)
      else
        let (gap, c) ← Gap.after? 0 escaped c
        let (more, c) ← body? single fuel c
        some (text ++ gap.text ++ more, c)

def read? (single : Bool) (c : Cursor) : Option (List Char × Cursor) :=
  body? single c.limit (c.skip 1)

end YamlLayout.Yaml.QuotedText
