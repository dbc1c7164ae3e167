import YamlLayout.Decimal.Literal
import YamlLayout.Yaml.Cursor

/-! Literal and folded block scalars. -/
namespace YamlLayout.Yaml.BlockText

inductive Chomp where
  | strip | clip | keep
  deriving DecidableEq

structure Header where
  chomp : Chomp := .clip
  increment : Nat := 0

def chomp? : Option Char → Option Chomp
  | some '+' => some .keep
  | some '-' => some .strip
  | _ => none

/-- An indentation of zero cannot be asked for. -/
def increment? (c : Cursor) : Option (Nat × Cursor) :=
  match c.peek with
  | some '0' => none
  | some x => if Decimal.isDigit x then some (x.toNat - 48, c.skip 1) else some (0, c)
  | none => some (0, c)

/-- The two marks may come in either order. -/
def header? (c : Cursor) : Option (Header × Cursor) :=
  match chomp? c.peek with
  | some chomp => (increment? (c.skip 1)).map fun (increment, c) => (⟨chomp, increment⟩, c)
  | none => do
    let (increment, c) ← increment? c
    match increment, chomp? c.peek with
    | _ + 1, some chomp => some (⟨chomp, increment⟩, c.skip 1)
    | _, _ => some (⟨.clip, increment⟩, c)

def headerEnd? (c : Cursor) : Option Cursor :=
  let c := c.skipWhile isBlank
  let c := if c.isAt '#' then c.skipWhile (!isBreak ·) else c
  if c.atLineEnd then some c.skipBreak else none

/-- Empty lines before the next text line: their breaks, and the deepest column met.
Without an indentation so far every leading space is skipped. -/
def breaks? (indent : Nat) : Nat → Nat → Cursor → Option (List Char × Nat × Cursor)
  | 0, _, _ => none
  | fuel + 1, deepest, c =>
    let spaces := (c.rest.takeWhile (· == ' ')).length
    let c := c.skip (if indent = 0 then spaces else min spaces (indent - c.column))
    let deepest := max deepest c.column
    if (indent = 0 || c.column < indent) && c.isAt '\t' then none
    else if c.atBreak then
      let (text, next) := c.lineBreak
      (breaks? indent fuel deepest next).map fun (more, rest) => (text ++ more, rest)
    else some ([], deepest, c)

def skipEmpty? (indent : Nat) (c : Cursor) : Option (List Char × Nat × Cursor) :=
  breaks? indent c.limit 0 c

/-- What stands between two text lines. A folded line end becomes a space unless
blanks or empty lines adjoin it. -/
def join (literal afterBlank beforeBlank : Bool) (lineEnd empty : List Char) : List Char :=
  if !literal && lineEnd == ['\n'] && !afterBlank && !beforeBlank then
    (if empty.isEmpty then [' '] else []) ++ empty
  else lineEnd ++ empty

structure Progress where
  text : List Char := []
  lineEnd : List Char := []
  empty : List Char := []
  afterBlank : Bool := false

def lines? (literal : Bool) (indent : Nat) : Nat → Progress → Cursor → Option (Progress × Cursor)
  | 0, _, _ => none
  | fuel + 1, p, c =>
    if c.column != indent || c.atEnd then some (p, c)
    else do
      let blank := c.atBlank
      let between := join literal p.afterBlank blank p.lineEnd p.empty
      let (line, c) := c.takeWhile (!isBreak ·)
      let (lineEnd, c) := c.lineBreak
      let (empty, _, c) ← skipEmpty? indent c
      lines? literal indent fuel ⟨p.text ++ between ++ line, lineEnd, empty, blank⟩ c

def chomped (chomp : Chomp) (p : Progress) : List Char :=
  match chomp with
  | .strip => p.text
  | .clip => p.text ++ p.lineEnd
  | .keep => p.text ++ p.lineEnd ++ p.empty

def read? (literal : Bool) (parent : Int) (c : Cursor) : Option (List Char × Cursor) := do
  let (header, c) ← header? (c.skip 1)
  let c ← headerEnd? c
  let asked := if header.increment = 0 then 0 else (max parent 0).toNat + header.increment
  let (empty, deepest, c) ← skipEmpty? asked c
  let indent := if asked = 0 then max (max deepest (parent + 1).toNat) 1 else asked
  let (p, c) ← lines? literal indent c.limit { empty } c
  some (chomped header.chomp p, c)

end YamlLayout.Yaml.BlockText
