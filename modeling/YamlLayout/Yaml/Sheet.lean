import YamlLayout.Text.Digits
import YamlLayout.Yaml.Style

/-! Output under way: what has been written, the column, and whether a space or an
indentation has just gone out, which decides what the next token needs before it. -/
namespace YamlLayout.Yaml

structure Sheet where
  /-- The characters written, the last one first. -/
  written : List Char := []
  column : Nat := 0
  afterSpace : Bool := true
  /-- Nothing but indentation and block marks stand on the line. -/
  indented : Bool := true

namespace Sheet

def put (s : Sheet) (c : Char) : Sheet :=
  { s with written := c :: s.written, column := s.column + 1 }

def puts (s : Sheet) (cs : List Char) : Sheet := cs.foldl put s

def newline (s : Sheet) : Sheet := { s with written := '\n' :: s.written, column := 0 }

def copyBreak (s : Sheet) (c : Char) : Sheet := { s with written := c :: s.written, column := 0 }

def spaceBefore (s : Sheet) : Sheet := if s.afterSpace then s else s.put ' '

def settle (s : Sheet) (afterSpace indented : Bool) : Sheet := { s with afterSpace, indented }

/-- Goes to an indentation, on a new line if this one is taken. -/
def indent (s : Sheet) (width : Int) : Sheet :=
  let width := width.toNat
  let taken := !s.indented || width < s.column || (s.column == width && !s.afterSpace)
  let s := if taken then s.newline else s
  (s.puts (List.replicate (width - s.column) ' ')).settle true true

/-- A mark that needs no space before it. -/
def close (s : Sheet) (mark : List Char) : Sheet := (s.puts mark).settle false false

def mark (s : Sheet) (mark : List Char) : Sheet := s.spaceBefore.close mark

/-- A mark of a block, behind which the line still counts as indentation. -/
def blockMark (s : Sheet) (c : Char) : Sheet := (s.spaceBefore.put c).settle false s.indented

def bracket (s : Sheet) (c : Char) : Sheet := (s.spaceBefore.put c).settle true false

/-! Scalars -/

def plain (s : Sheet) (text : List Char) : Sheet :=
  ((if text.isEmpty then s else s.spaceBefore).puts text).settle false false

/-- A line break inside single quotes is followed by the indentation. -/
def singleBody (width : Int) : Bool → List Char → Sheet → Sheet
  | broken, [], s => if broken then s.indent width else s
  | broken, c :: rest, s =>
    if c == ' ' then singleBody width broken rest (s.put c)
    else if isBreak c then
      let s := if !broken && c == '\n' then s.newline else s
      singleBody width true rest { s.copyBreak c with indented := true }
    else
      let s := if broken then s.indent width else s
      let s := (if c == '\'' then s.put c else s).put c
      singleBody width false rest { s with indented := false }

def single (s : Sheet) (width : Int) (text : List Char) : Sheet :=
  (singleBody width false text (s.mark ['\''])).close ['\'']

def letter? (c : Char) : Option Char :=
  match c.toNat with
  | 0x00 => some '0'
  | 0x07 => some 'a'
  | 0x08 => some 'b'
  | 0x09 => some 't'
  | 0x0A => some 'n'
  | 0x0B => some 'v'
  | 0x0C => some 'f'
  | 0x0D => some 'r'
  | 0x1B => some 'e'
  | 0x22 => some '"'
  | 0x5C => some '\\'
  | 0x85 => some 'N'
  | 0x2028 => some 'L'
  | 0x2029 => some 'P'
  | _ => none

/-- The shortest escape that has room for the code point. -/
def escape (c : Char) : List Char :=
  let n := c.toNat
  '\\' :: match letter? c with
  | some l => [l]
  | none =>
    if n ≤ 0xFF then 'x' :: Digits.upperHex 2 n
    else if n ≤ 0xFFFF then 'u' :: Digits.upperHex 4 n
    else 'U' :: Digits.upperHex 8 n

def needsEscape (c : Char) : Bool :=
  !Style.isPrintable c || isBreak c || c == '"' || c == '\\'

def double (s : Sheet) (text : List Char) : Sheet :=
  ((s.mark ['"']).puts (text.flatMap fun c => if needsEscape c then escape c else [c])).close ['"']

def chompMark (text : List Char) : List Char :=
  match text.reverse with
  | [] => ['-']
  | [c] => if isBreak c then ['+'] else ['-']
  | c :: d :: _ => if !isBreak c then ['-'] else if isBreak d then ['+'] else []

def literalBody (width : Int) : Bool → List Char → Sheet → Sheet
  | _, [], s => s
  | broken, c :: rest, s =>
    if isBreak c then literalBody width true rest { s.copyBreak c with indented := true }
    else
      let s := if broken then s.indent width else s
      literalBody width false rest { s.put c with indented := false }

/-- A text that starts with a space or a line break states its indentation. -/
def literal (s : Sheet) (width : Int) (text : List Char) : Sheet :=
  let hint := if text.head?.any (fun c => c == ' ' || isBreak c) then ['2'] else []
  let s := s.mark ('|' :: hint ++ chompMark text)
  literalBody width true text (s.newline.settle true true)

def scalar (s : Sheet) (width : Int) (style : Style) (text : List Char) : Sheet :=
  match style with
  | .plain => s.plain text
  | .single => s.single width text
  | .double => s.double text
  | .literal => s.literal width text

end Sheet
end YamlLayout.Yaml
