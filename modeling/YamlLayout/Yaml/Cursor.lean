import YamlLayout.Text.Utf8

/-! Character classes of YAML, and a place in a text with its line and column. The
end of the text counts as a blank and as a line end. -/
namespace YamlLayout.Yaml

def isBlank (c : Char) : Bool := c == ' ' || c == '\t'

def isBreak (c : Char) : Bool :=
  c == '\n' || c == '\r' || c == '\u0085' || c == '\u2028' || c == '\u2029'

def isWord (c : Char) : Bool := c.isAlphanum || c == '_' || c == '-'

def isAllowed (c : Char) : Bool :=
  let n := c.toNat
  n == 0x9 || n == 0xA || n == 0xD || (0x20 ≤ n && n ≤ 0x7E) || n == 0x85
    || (0xA0 ≤ n && n ≤ 0xD7FF) || (0xE000 ≤ n && n ≤ 0xFFFD) || 0x10000 ≤ n

structure Cursor where
  rest : List Char
  /-- More than the characters of the whole text, a bound for every loop over it. -/
  limit : Nat := rest.length + 1
  index : Nat := 0
  line : Nat := 0
  column : Nat := 0

namespace Cursor

def peek (c : Cursor) : Option Char := c.rest.head?

def peekAt (c : Cursor) (n : Nat) : Option Char := (c.rest.drop n).head?

def atEnd (c : Cursor) : Bool := c.rest.isEmpty

def isAt (c : Cursor) (x : Char) : Bool := c.peek == some x

def atBlank (c : Cursor) : Bool := c.peek.any isBlank

def atBreak (c : Cursor) : Bool := c.peek.any isBreak

def endsLineAt (c : Cursor) (n : Nat) : Bool := (c.peekAt n).all isBreak

def atLineEnd (c : Cursor) : Bool := c.endsLineAt 0

/-- A blank, a line break or the end of the text. -/
def gapAt (c : Cursor) (n : Nat) : Bool := (c.peekAt n).all fun x => isBlank x || isBreak x

def atGap (c : Cursor) : Bool := c.gapAt 0

def skip (c : Cursor) : Nat → Cursor
  | 0 => c
  | n + 1 =>
    match c.rest with
    | [] => c
    | _ :: r => skip { c with rest := r, index := c.index + 1, column := c.column + 1 } n

def takeWhile (c : Cursor) (p : Char → Bool) : List Char × Cursor :=
  let run := c.rest.takeWhile p
  (run, c.skip run.length)

def skipWhile (c : Cursor) (p : Char → Bool) : Cursor := (c.takeWhile p).2

/-- Reads one line break; the separators of Unicode stay what they are. -/
def lineBreak (c : Cursor) : List Char × Cursor :=
  let next (taken : Nat) : Cursor :=
    ⟨c.rest.drop taken, c.limit, c.index + taken, c.line + 1, 0⟩
  match c.rest with
  | '\r' :: '\n' :: _ => (['\n'], next 2)
  | x :: _ =>
    if x == '\u2028' || x == '\u2029' then ([x], next 1)
    else if isBreak x then (['\n'], next 1)
    else ([], c)
  | [] => ([], c)

def skipBreak (c : Cursor) : Cursor := c.lineBreak.2

/-- Three equal characters in the first column, and then a gap. -/
def atMarker (c : Cursor) (x : Char) : Bool :=
  c.column == 0 && c.peek == some x && c.peekAt 1 == some x && c.peekAt 2 == some x && c.gapAt 3

def atDocumentMarker (c : Cursor) : Bool := c.atMarker '-' || c.atMarker '.'

end Cursor
end YamlLayout.Yaml
