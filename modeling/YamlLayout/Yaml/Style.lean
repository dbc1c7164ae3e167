import YamlLayout.Yaml.Cursor

/-! Which of its forms a scalar may be written in. The form asked for gives way, where
the text does not allow it, to one that allows more. -/
namespace YamlLayout.Yaml

inductive Style where
  | plain | single | double | literal
  deriving DecidableEq

structure Features where
  multiline : Bool := false
  plainAllowed : Bool := true
  singleAllowed : Bool := true
  literalAllowed : Bool := true
  deriving DecidableEq

namespace Style

def isPrintable (c : Char) : Bool :=
  let n := c.toNat
  n == 0xA || (0x20 ≤ n && n ≤ 0x7E) || (0xA0 ≤ n && n ≤ 0xD7FF)
    || (0xE000 ≤ n && n ≤ 0xFFFD && n != 0xFEFF) || 0x10000 ≤ n

def isGap : Option Char → Bool
  | none => true
  | some c => isBlank c || isBreak c || c == '\x00'

def startIndicators : List Char :=
  ['#', ',', '[', ']', '\x7b', '\x7d', '&', '*', '!', '|', '>', '\'', '"', '%', '@', '\u0060']

def startsWithIndicator : List Char → Bool
  | '-' :: '-' :: '-' :: _ | '.' :: '.' :: '.' :: _ => true
  | c :: rest =>
    startIndicators.contains c || ((c == '?' || c == ':' || c == '-') && isGap rest.head?)
  | [] => false

/-- A colon before a gap, or a number sign after one. -/
def holdsIndicator : List Char → Bool
  | a :: b :: rest =>
    (b == ':' && isGap rest.head?) || (b == '#' && isGap (some a)) || holdsIndicator (b :: rest)
  | _ => false

/-- Some character of the first kind stands right before one of the second. -/
def adjoins (p q : Char → Bool) : List Char → Bool
  | a :: b :: rest => (p a && q b) || adjoins p q (b :: rest)
  | _ => false

def isSpace (c : Char) : Bool := c == ' '

def features (text : List Char) : Features :=
  if text.isEmpty then { literalAllowed := false }
  else
    let edge (c : Char) := isSpace c || isBreak c
    let breaks := text.any isBreak
    let edges := text.head?.any edge || text.getLast?.any edge
    let spaceBreak := adjoins isSpace isBreak text
    let breakSpace := adjoins isBreak isSpace text
    let special := text.any (!isPrintable ·)
    let indicators := startsWithIndicator text || holdsIndicator text
    { multiline := breaks
      plainAllowed := !(edges || breakSpace || spaceBreak || special || breaks || indicators)
      singleAllowed := !(breakSpace || spaceBreak || special)
      literalAllowed := !(text.getLast?.any isSpace || spaceBreak || special) }

/-- The form for a text; `keyed` tells that it is written as a key in front of its colon. -/
def choose (asked : Style) (keyed : Bool) (text : List Char) : Style :=
  let f := features text
  let style := if keyed && f.multiline then double else asked
  let style :=
    if style = plain && (!f.plainAllowed || (text.isEmpty && keyed)) then single else style
  let style := if style = single && !f.singleAllowed then double else style
  if style = literal && (!f.literalAllowed || keyed) then double else style

end Style
end YamlLayout.Yaml
