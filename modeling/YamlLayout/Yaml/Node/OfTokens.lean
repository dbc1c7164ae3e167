import YamlLayout.Yaml.Node

/-! Documents read from tokens. Nothing is read where the tokens do not follow the
grammar, where a name or a handle is unknown, or where nodes nest too deeply. -/
namespace YamlLayout.Yaml

def maxDepth : Nat := 128

structure Reading where
  tokens : List Token
  /-- More than the tokens of the whole stream, a bound for every loop over them. -/
  limit : Nat
  handles : List (Bytes × Bytes) := []
  names : List (List Char × Nat) := []
  marks : List Mark := []
  size : Nat := 0

structure Properties where
  anchor : Option (List Char) := none
  tag : Option Bytes := none

inductive Kind where
  | indentless | flowSequence | flowMapping | blockSequence | blockMapping
  deriving DecidableEq

namespace Reading

def head (s : Reading) : Token := s.tokens.headD .streamEnd

def drop (s : Reading) : Reading := { s with tokens := s.tokens.tail }

def resolve? (s : Reading) (handle suffix : Bytes) : Option Bytes :=
  if handle.isEmpty then some suffix else (s.handles.lookup handle).map (· ++ suffix)

def properties? (s : Reading) : Option (Properties × Reading) :=
  match s.tokens with
  | .anchor name :: .tag handle suffix :: rest | .tag handle suffix :: .anchor name :: rest =>
    (s.resolve? handle suffix).map fun tag =>
      (⟨some name, some tag⟩, { s with tokens := rest })
  | .anchor name :: rest => some (⟨some name, none⟩, { s with tokens := rest })
  | .tag handle suffix :: rest =>
    (s.resolve? handle suffix).map fun tag => (⟨none, some tag⟩, { s with tokens := rest })
  | _ => some ({}, s)

def start (s : Reading) (anchor : Option (List Char)) : Option Nat × Reading :=
  let next := { s with size := s.size + 1 }
  match anchor with
  | none => (none, next)
  | some name =>
    let number := s.names.length
    let others := s.names.filter (·.1 != name)
    (some number, { next with names := (name, number) :: others })

def mark (s : Reading) (number : Option Nat) (position : Nat) (node : Node) : Node × Reading :=
  match number with
  | none => (node, s)
  | some number => (node, { s with marks := ⟨number, position, node⟩ :: s.marks })

def scalar (s : Reading) (p : Properties) (text : List Char) (plain : Bool) : Node × Reading :=
  let (number, next) := s.start p.anchor
  next.mark number s.size (.scalar p.tag text plain)

def empty (s : Reading) : Node × Reading := s.scalar {} [] true

def kind? (block indentless : Bool) : Token → Option Kind
  | .blockEntry => if indentless then some .indentless else none
  | .flowSequenceStart => some .flowSequence
  | .flowMappingStart => some .flowMapping
  | .blockSequenceStart => if block then some .blockSequence else none
  | .blockMappingStart => if block then some .blockMapping else none
  | _ => none

/-- Reads a node; the flags allow blocks, and a sequence without its own indentation. -/
abbrev NodeReader := Bool → Bool → Reading → Option (Node × Reading)

/-- A node, unless one of the given tokens shows that it was left out. -/
def optional? (node : NodeReader) (block indentless : Bool) (ends : List Token) (s : Reading) :
    Option (Node × Reading) :=
  if ends.contains s.head then some s.empty else node block indentless s

def blockItems? (node : NodeReader) : Nat → Reading → Option (List Node × Reading)
  | 0, _ => none
  | fuel + 1, s =>
    match s.head with
    | .blockEntry => do
      let (item, s) ← optional? node true false [.blockEntry, .blockEnd] s.drop
      let (items, s) ← blockItems? node fuel s
      some (item :: items, s)
    | .blockEnd => some ([], s.drop)
    | _ => none

def indentlessItems? (node : NodeReader) : Nat → Reading → Option (List Node × Reading)
  | 0, _ => none
  | fuel + 1, s =>
    match s.head with
    | .blockEntry => do
      let (item, s) ← optional? node true false [.blockEntry, .key, .value, .blockEnd] s.drop
      let (items, s) ← indentlessItems? node fuel s
      some (item :: items, s)
    | _ => some ([], s)

def blockEntries? (node : NodeReader) : Nat → Reading → Option (List (Node × Node) × Reading)
  | 0, _ => none
  | fuel + 1, s =>
    let part (s : Reading) := optional? node true true [.key, .value, .blockEnd] s
    match s.head with
    | .key => do
      let (key, s) ← part s.drop
      let (value, s) ← if s.head = .value then part s.drop else some s.empty
      let (entries, s) ← blockEntries? node fuel s
      some ((key, value) :: entries, s)
    | .blockEnd => some ([], s.drop)
    | _ => none

def separator? (first : Bool) (s : Reading) : Option Reading :=
  if first then some s else if s.head = .flowEntry then some s.drop else none

/-- A single entry inside a sequence, after its key mark. Where the key is left out,
the token that shows it goes too. -/
def singleEntry? (node : NodeReader) (s : Reading) : Option (Node × Reading) := do
  let (_, s) := s.start none
  let missing := [Token.value, .flowEntry, .flowSequenceEnd].contains s.head
  let (key, s) ← if missing then some s.drop.empty else node false false s
  let (value, s) ←
    if s.head = .value then
      optional? node false false [.flowEntry, .flowSequenceEnd] s.drop
    else some s.empty
  let (_, s) := s.start none
  some (.mapping none [(key, value)], s)

def flowItems? (node : NodeReader) : Nat → Bool → Reading → Option (List Node × Reading)
  | 0, _, _ => none
  | fuel + 1, first, s => do
    if s.head = .flowSequenceEnd then some ([], s.drop)
    else
      let s ← separator? first s
      if s.head = .flowSequenceEnd then some ([], s.drop)
      else
        let (item, s) ←
          if s.head = .key then singleEntry? node s.drop else node false false s
        let (items, s) ← flowItems? node fuel false s
        some (item :: items, s)

def flowEntries? (node : NodeReader) :
    Nat → Bool → Reading → Option (List (Node × Node) × Reading)
  | 0, _, _ => none
  | fuel + 1, first, s => do
    if s.head = .flowMappingEnd then some ([], s.drop)
    else
      let s ← separator? first s
      if s.head = .flowMappingEnd then some ([], s.drop)
      else
        let (key, value, s) ←
          if s.head = .key then do
            let (key, s) ← optional? node false false [.value, .flowEntry, .flowMappingEnd] s.drop
            let (value, s) ←
              if s.head = .value then
                optional? node false false [.flowEntry, .flowMappingEnd] s.drop
              else some s.empty
            some (key, value, s)
          else do
            let (key, s) ← node false false s
            let (value, s) := s.empty
            some (key, value, s)
        let (entries, s) ← flowEntries? node fuel false s
        some ((key, value) :: entries, s)

def content? (node : NodeReader) (tag : Option Bytes) (s : Reading) : Kind → Option (Node × Reading)
  | .indentless => (indentlessItems? node s.limit s).map fun (is, s) => (.sequence tag is, s)
  | .blockSequence => (blockItems? node s.limit s.drop).map fun (is, s) => (.sequence tag is, s)
  | .flowSequence => (flowItems? node s.limit true s.drop).map fun (is, s) => (.sequence tag is, s)
  | .blockMapping => (blockEntries? node s.limit s.drop).map fun (es, s) => (.mapping tag es, s)
  | .flowMapping => (flowEntries? node s.limit true s.drop).map fun (es, s) => (.mapping tag es, s)

def alias? (s : Reading) (name : List Char) : Option (Node × Reading) :=
  (s.names.lookup name).map fun number => (.alias number, { s.drop with size := s.size + 1 })

def node? : Nat → NodeReader
  | depth, block, indentless, s =>
    match s.head with
    | .alias name => s.alias? name
    | _ => do
      let (p, s) ← s.properties?
      match s.head, kind? block indentless s.head with
      | .scalar text plain, _ => some (s.drop.scalar p text plain)
      | _, some kind =>
        match depth with
        | 0 => none
        | depth + 1 => do
          let (number, next) := s.start p.anchor
          let (node, next) ← content? (node? depth) p.tag next kind
          let (_, next) := next.start none
          some (next.mark number s.size node)
      | _, none =>
        if p.anchor.isSome || p.tag.isSome then some (s.scalar p [] true) else none

end Reading

/-! Directives and documents -/

structure Preamble where
  versioned : Bool := false
  handles : List (Bytes × Bytes) := []

/-- Versions 1.1 and 1.2 are known; nothing is declared twice. -/
def preamble? : Preamble → List Token → Option (Preamble × List Token)
  | p, .version major minor :: rest =>
    if p.versioned || major != 1 || !(minor == 1 || minor == 2) then none
    else preamble? { p with versioned := true } rest
  | p, .tagHandle handle start :: rest =>
    if (p.handles.lookup handle).isSome then none
    else preamble? { p with handles := p.handles ++ [(handle, start)] } rest
  | p, rest => some (p, rest)

def defaultHandles : List (Bytes × Bytes) :=
  [(Utf8.ofString "!", Utf8.ofString "!"),
   (Utf8.ofString "!!", Utf8.ofString "tag:yaml.org,2002:")]

def endsContent : Token → Bool
  | .version .. | .tagHandle .. | .documentStart | .documentEnd | .streamEnd => true
  | _ => false

def content? (isExplicit : Bool) (handles : List (Bytes × Bytes)) (limit : Nat)
    (tokens : List Token) : Option (Document × List Token) := do
  let s : Reading := { tokens, limit, handles := handles ++ defaultHandles }
  let (root, s) ←
    if isExplicit && endsContent s.head then some s.empty
    else Reading.node? maxDepth true false s
  some (⟨root, s.marks, s.size⟩, s.tokens)

def dropEnds (tokens : List Token) : List Token := tokens.dropWhile (· == .documentEnd)

/-- Every document but the first needs its start mark. -/
def documents? (limit : Nat) : Nat → Bool → List Token → Option (List Document)
  | 0, _, _ => none
  | fuel + 1, first, tokens => do
    let tokens := if first then tokens else dropEnds tokens
    if tokens.head? = some .streamEnd then some []
    else
      let (p, rest) ← preamble? {} tokens
      let implied := first && p.handles.isEmpty && !p.versioned && rest.head? != some .documentStart
      let (d, rest) ←
        if implied then content? false [] limit rest
        else if rest.head? = some .documentStart then content? true p.handles limit rest.tail
        else none
      let rest := if rest.head? = some .documentEnd then rest.tail else rest
      let ds ← documents? limit fuel false rest
      some (d :: ds)

def Document.ofTokens? (tokens : List Token) : Option (List Document) :=
  documents? (tokens.length + 1) (tokens.length + 1) true tokens

end YamlLayout.Yaml
