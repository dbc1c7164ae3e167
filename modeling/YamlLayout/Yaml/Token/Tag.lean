import YamlLayout.Decimal.Literal
import YamlLayout.Text.Digits
import YamlLayout.Yaml.Token
import YamlLayout.Yaml.Cursor

/-! Tags, anchors and the directives that concern them. A tag is a byte text,
because its percent escapes name bytes; a zero byte ends it. -/
namespace YamlLayout.Yaml
namespace Tag

def uriMarks : List Char :=
  [';', '/', '?', ':', '@', '&', '=', '+', '$', '.', '%', '!', '~', '*', '\'', '(', ')']

def isUri (long : Bool) (c : Char) : Bool :=
  isWord c || uriMarks.contains c || (long && (c == ',' || c == '[' || c == ']'))

def octet? (c : Cursor) : Option UInt8 := do
  if c.isAt '%' then
    let high ← (c.peekAt 1).bind (Digits.value? 16)
    let low ← (c.peekAt 2).bind (Digits.value? 16)
    some (UInt8.ofNat (16 * high + low))
  else none

def sequenceWidth? (b : UInt8) : Option Nat :=
  if b &&& 0x80 == 0 then some 1
  else if b &&& 0xE0 == 0xC0 then some 2
  else if b &&& 0xF0 == 0xE0 then some 3
  else if b &&& 0xF8 == 0xF0 then some 4
  else none

def continuation? : Nat → Cursor → Option (Bytes × Cursor)
  | 0, c => some ([], c)
  | count + 1, c => do
    let b ← octet? c
    if b &&& 0xC0 == 0x80 then
      let (bs, c) ← continuation? count (c.skip 3)
      some (b :: bs, c)
    else none

def escaped? (c : Cursor) : Option (Bytes × Cursor) := do
  let b ← octet? c
  let width ← sequenceWidth? b
  let (bs, c) ← continuation? (width - 1) (c.skip 3)
  some (b :: bs, c)

def uri? (long : Bool) : Nat → Cursor → Option (Bytes × Cursor)
  | 0, _ => none
  | fuel + 1, c =>
    match c.peek with
    | none => some ([], c)
    | some x =>
      if !isUri long x then some ([], c)
      else do
        let (bs, c) ← if x == '%' then escaped? c else some (Utf8.encode x, c.skip 1)
        let (more, c) ← uri? long fuel c
        some (bs ++ more, c)

def readUri? (long : Bool) (c : Cursor) : Option (Bytes × Cursor) := uri? long c.limit c

def nonEmptyUri? (long : Bool) (c : Cursor) : Option (Bytes × Cursor) := do
  let (bs, c) ← readUri? long c
  if bs.isEmpty then none else some (bs, c)

def untilZero (bs : Bytes) : Bytes := bs.takeWhile (· != 0)

/-- An exclamation mark, word characters, and perhaps one more exclamation mark. -/
def handle? (c : Cursor) : Option (List Char × Bool × Cursor) :=
  if !c.isAt '!' then none
  else
    let (word, c) := (c.skip 1).takeWhile isWord
    if c.isAt '!' then some ('!' :: word ++ ['!'], true, c.skip 1)
    else some ('!' :: word, false, c)

def shorthand? (c : Cursor) : Option (Token × Cursor) := do
  let (handle, closed, c) ← handle? c
  if closed then
    let (suffix, c) ← nonEmptyUri? false c
    some (.tag (Utf8.encodeAll handle) (untilZero suffix), c)
  else
    let (suffix, c) ← readUri? false c
    let suffix := untilZero (Utf8.encodeAll handle.tail ++ suffix)
    if suffix.isEmpty then some (.tag [] (Utf8.ofString "!"), c)
    else some (.tag (Utf8.ofString "!") suffix, c)

def verbatim? (c : Cursor) : Option (Token × Cursor) := do
  let (suffix, c) ← nonEmptyUri? true (c.skip 2)
  if c.isAt '>' then some (.tag [] (untilZero suffix), c.skip 1) else none

def read? (flow : Bool) (c : Cursor) : Option (Token × Cursor) := do
  let (token, c) ← if c.peekAt 1 == some '<' then verbatim? c else shorthand? c
  if c.atGap || (flow && c.isAt ',') then some (token, c) else none

end Tag

def anchorEnds : List Char := ['?', ':', ',', ']', '\x7d', '%', '@', '`']

def anchorName? (c : Cursor) : Option (List Char × Cursor) :=
  let (name, c) := (c.skip 1).takeWhile isWord
  if name.isEmpty || !(c.atGap || c.peek.any anchorEnds.contains) then none else some (name, c)

namespace Directive

def number? (c : Cursor) : Option (Nat × Cursor) :=
  let (ds, c) := c.takeWhile Decimal.isDigit
  if ds.isEmpty || 9 < ds.length then none else some (Decimal.natOfDigits ds, c)

def version? (c : Cursor) : Option (Token × Cursor) := do
  let (major, c) ← number? (c.skipWhile isBlank)
  if c.isAt '.' then
    let (minor, c) ← number? (c.skip 1)
    some (.version major minor, c)
  else none

def tagHandle? (c : Cursor) : Option (Token × Cursor) := do
  let (handle, closed, c) ← Tag.handle? (c.skipWhile isBlank)
  if (closed || handle == ['!']) && c.atBlank then
    let (start, c) ← Tag.nonEmptyUri? true (c.skipWhile isBlank)
    if c.atGap then some (.tagHandle (Utf8.encodeAll handle) (Tag.untilZero start), c) else none
  else none

def read? (c : Cursor) : Option (Token × Cursor) := do
  let (name, c) := (c.skip 1).takeWhile isWord
  if !c.atGap then none
  else
    let (token, c) ←
      if name == "YAML".toList then version? c
      else if name == "TAG".toList then tagHandle? c
      else none
    let c := c.skipWhile isBlank
    let c := if c.isAt '#' then c.skipWhile (!isBreak ·) else c
    if c.atLineEnd then some (token, c.skipBreak) else none

end Directive
end YamlLayout.Yaml
