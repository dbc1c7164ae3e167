import YamlLayout.Yaml.Token.BlockText
import YamlLayout.Yaml.Token.PlainText
import YamlLayout.Yaml.Token.QuotedText
import YamlLayout.Yaml.Token.Tag

/-! The tokens of a whole text. Indentation opens and closes blocks. A place where a
key may start is remembered, and its key token is put in when the colon is met. -/
namespace YamlLayout.Yaml

/-- A token that turns out to be a key if a colon follows on its line. -/
structure PendingKey where
  required : Bool
  token : Nat
  index : Nat
  line : Nat
  column : Nat

structure Lexer where
  cursor : Cursor
  tokens : Array Token := #[]
  indent : Int := -1
  indents : List Int := []
  keyAllowed : Bool := true
  /-- The pending key between the innermost brackets. -/
  pending : Option PendingKey := none
  outer : List (Option PendingKey) := []

namespace Lexer

def inFlow (l : Lexer) : Bool := !l.outer.isEmpty

def push (l : Lexer) (t : Token) : Lexer := { l with tokens := l.tokens.push t }

def take (l : Lexer) (n : Nat) (t : Token) : Lexer :=
  { l with cursor := l.cursor.skip n, tokens := l.tokens.push t }

def allow (l : Lexer) (keyAllowed : Bool) : Lexer := { l with keyAllowed }

/-- How many blocks end at a column, with the indentation that is left. -/
def closedBy (column : Int) : Int → List Int → Nat × Int × List Int
  | indent, [] => (0, indent, [])
  | indent, i :: is =>
    if column < indent then
      let (n, rest) := closedBy column i is
      (n + 1, rest)
    else (0, indent, i :: is)

def unroll (l : Lexer) (column : Int) : Lexer :=
  if l.inFlow then l
  else
    let (n, indent, indents) := closedBy column l.indent l.indents
    { l with tokens := l.tokens ++ Array.replicate n .blockEnd, indent, indents }

def roll (l : Lexer) (column position : Nat) (t : Token) : Lexer :=
  if l.inFlow || (column : Int) ≤ l.indent then l
  else { l with
    tokens := l.tokens.insertIdxIfInBounds position t
    indent := column
    indents := l.indent :: l.indents }

def removeKey (l : Lexer) : Option Lexer :=
  match l.pending with
  | some key => if key.required then none else some { l with pending := none }
  | none => some l

def saveKey (l : Lexer) : Option Lexer :=
  if !l.keyAllowed then some l
  else l.removeKey.map fun l =>
    let c := l.cursor
    let required := !l.inFlow && l.indent == (c.column : Int)
    { l with pending := some ⟨required, l.tokens.size, c.index, c.line, c.column⟩ }

/-- A key stands on one line and within 1024 characters. -/
def fresh? (c : Cursor) : Option PendingKey → Option (Option PendingKey)
  | none => some none
  | some key =>
    if key.line < c.line || key.index + 1024 < c.index then
      if key.required then none else some none
    else some (some key)

def dropStale (l : Lexer) : Option Lexer := do
  let pending ← fresh? l.cursor l.pending
  let outer ← l.outer.mapM (fresh? l.cursor)
  some { l with pending, outer }

def skipToToken : Nat → Lexer → Lexer
  | 0, l => l
  | fuel + 1, l =>
    let c := if l.cursor.column == 0 && l.cursor.isAt '\uFEFF' then l.cursor.skip 1 else l.cursor
    let c := c.skipWhile fun x => x == ' ' || ((l.inFlow || !l.keyAllowed) && x == '\t')
    let c := if c.isAt '#' then c.skipWhile (!isBreak ·) else c
    if c.atBreak then
      skipToToken fuel { l with cursor := c.skipBreak, keyAllowed := l.keyAllowed || !l.inFlow }
    else { l with cursor := c }

def atTop (l : Lexer) : Option Lexer := ((l.unroll (-1)).removeKey).map (·.allow false)

def directive (l : Lexer) : Option Lexer := do
  let l ← l.atTop
  let (token, cursor) ← Directive.read? l.cursor
  some { l.push token with cursor }

def documentMarker (l : Lexer) (t : Token) : Option Lexer := do
  let l ← l.atTop
  some (l.take 3 t)

def openFlow (l : Lexer) (t : Token) : Option Lexer := do
  let l ← l.saveKey
  some (({ l with outer := l.pending :: l.outer, pending := none }.allow true).take 1 t)

def closeFlow (l : Lexer) (t : Token) : Option Lexer := do
  let l ← l.removeKey
  let l := match l.outer with
    | key :: outer => { l with pending := key, outer }
    | [] => l
  some ((l.allow false).take 1 t)

def flowEntry (l : Lexer) : Option Lexer := do
  let l ← l.removeKey
  some ((l.allow true).take 1 .flowEntry)

def blockEntry (l : Lexer) : Option Lexer := do
  if !l.inFlow && !l.keyAllowed then none
  else
    let l ← (l.roll l.cursor.column l.tokens.size .blockSequenceStart).removeKey
    some ((l.allow true).take 1 .blockEntry)

def explicitKey (l : Lexer) : Option Lexer := do
  if !l.inFlow && !l.keyAllowed then none
  else
    let l ← (l.roll l.cursor.column l.tokens.size .blockMappingStart).removeKey
    some ((l.allow (!l.inFlow)).take 1 .key)

def value (l : Lexer) : Option Lexer :=
  match l.pending with
  | some key =>
    let l := { l with tokens := l.tokens.insertIdxIfInBounds key.token .key, pending := none }
    some (((l.roll key.column key.token .blockMappingStart).allow false).take 1 .value)
  | none =>
    if !l.inFlow && !l.keyAllowed then none
    else
      let l := l.roll l.cursor.column l.tokens.size .blockMappingStart
      some ((l.allow (!l.inFlow)).take 1 .value)

/-- A token that may itself be a key, or belong to one. -/
def keyLike (l : Lexer) (read : Cursor → Option (Token × Cursor)) : Option Lexer := do
  let l ← l.saveKey
  let (token, cursor) ← read l.cursor
  some { (l.allow false).push token with cursor }

def blockText (l : Lexer) (literal : Bool) : Option Lexer := do
  let l ← l.removeKey
  let (text, cursor) ← BlockText.read? literal l.indent l.cursor
  some { (l.allow true).push (.scalar text false) with cursor }

def plainText (l : Lexer) : Option Lexer := do
  let l ← l.saveKey
  let (text, broken, cursor) ← PlainText.read? l.inFlow (l.indent + 1) l.cursor
  some { (l.allow broken).push (.scalar text true) with cursor }

def indicators : List Char :=
  ['-', '?', ':', ',', '[', ']', '\x7b', '\x7d', '#', '&', '*', '!', '|', '>', '\'', '"', '%',
   '@', '\u0060']

def startsPlain (l : Lexer) (x : Char) : Bool :=
  let c := l.cursor
  !(c.atGap || indicators.contains x)
    || (x == '-' && !(c.peekAt 1).any isBlank)
    || (!l.inFlow && (x == '?' || x == ':') && !c.gapAt 1)

def token (l : Lexer) (x : Char) : Option Lexer :=
  let c := l.cursor
  if c.column == 0 && x == '%' then l.directive
  else if c.atMarker '-' then l.documentMarker .documentStart
  else if c.atMarker '.' then l.documentMarker .documentEnd
  else if x == '[' then l.openFlow .flowSequenceStart
  else if x == '\x7b' then l.openFlow .flowMappingStart
  else if x == ']' then l.closeFlow .flowSequenceEnd
  else if x == '\x7d' then l.closeFlow .flowMappingEnd
  else if x == ',' then l.flowEntry
  else if x == '-' && c.gapAt 1 then l.blockEntry
  else if x == '?' && (l.inFlow || c.gapAt 1) then l.explicitKey
  else if x == ':' && (l.inFlow || c.gapAt 1) then l.value
  else if x == '*' then l.keyLike fun c => (anchorName? c).map fun (name, c) => (.alias name, c)
  else if x == '&' then l.keyLike fun c => (anchorName? c).map fun (name, c) => (.anchor name, c)
  else if x == '!' then l.keyLike (Tag.read? l.inFlow)
  else if x == '|' && !l.inFlow then l.blockText true
  else if x == '>' && !l.inFlow then l.blockText false
  else if x == '\'' || x == '"' then
    l.keyLike fun c => (QuotedText.read? (x == '\'') c).map fun (text, c) => (.scalar text false, c)
  else if l.startsPlain x then l.plainText
  else none

def finish (l : Lexer) : Option (Array Token) := do
  let l ← (l.unroll (-1)).removeKey
  some (l.push .streamEnd).tokens

def run? : Nat → Lexer → Option (Array Token)
  | 0, _ => none
  | fuel + 1, l => do
    let l ← (skipToToken l.cursor.limit l).dropStale
    let l := l.unroll l.cursor.column
    match l.cursor.peek with
    | none => l.finish
    | some x => do run? fuel (← l.token x)

end Lexer

def Token.ofText? (text : List Char) : Option (List Token) :=
  let cursor : Cursor := { rest := text }
  ((Lexer.run? cursor.limit { cursor }).map (·.toList))

end YamlLayout.Yaml
