import YamlLayout.Toml.Scalar

/-! TOML documents: keys, headers, arrays and tables in braces. Reading gives the
entries of the document, or nothing where the text breaks the grammar or defines
a key twice. -/
namespace YamlLayout.Toml

def maxDepth : Nat := 80

def skipComment? (cs : List Char) : Option (List Char) :=
  match cs with
  | '#' :: r =>
    let body := r.takeWhile (fun c => c != '\n' && c != '\r')
    if body.any isControl then none else some (r.drop body.length)
  | _ => some cs

def skipTrivia? : Nat → List Char → Option (List Char)
  | 0, _ => none
  | fuel + 1, cs => do
    let r ← skipComment? (skipGap cs)
    match newline? r with
    | some r => skipTrivia? fuel r
    | none => some r

def isBare (c : Char) : Bool := c.isAlphanum || c == '_' || c == '-'

def keyPart? (cs : List Char) : Option (String × List Char) :=
  match line? cs with
  | some (text, r) => some (String.ofList text, r)
  | none =>
    let bare := cs.takeWhile isBare
    if bare.isEmpty then none else some (String.ofList bare, cs.drop bare.length)

/-- A dotted key, as the path before its last part and that part. -/
def key? : Nat → List Char → Option (List String × String × List Char)
  | 0, _ => none
  | fuel + 1, cs => do
    let (part, r) ← keyPart? cs
    match skipGap r with
    | '.' :: r => do
      let (path, last, r) ← key? fuel (skipGap r)
      some (part :: path, last, r)
    | r => some ([], part, r)

def items? (value : List Char → Option (Value × List Char)) :
    Nat → List Char → Option (List Value × List Char)
  | 0, _ => none
  | fuel + 1, cs => do
    match ← skipTrivia? (cs.length + 1) cs with
    | ']' :: r => some ([], r)
    | cs => do
      let (item, r) ← value cs
      match ← skipTrivia? (r.length + 1) r with
      | ',' :: r => do
        let (items, r) ← items? value fuel r
        some (item :: items, r)
      | ']' :: r => some ([item], r)
      | _ => none

def entries? (value : List Char → Option (Value × List Char)) :
    Nat → Entries → List Char → Option (Entries × List Char)
  | 0, _, _ => none
  | fuel + 1, entries, cs => do
    match ← skipTrivia? (cs.length + 1) cs with
    | '\x7d' :: r => some (entries, r)
    | cs => do
      let (path, last, r) ← key? (cs.length + 1) cs
      let (item, r) ← value (skipGap (← expect '=' r))
      let entries ← assign path last item .inline entries
      match ← skipTrivia? (r.length + 1) r with
      | ',' :: r => entries? value fuel entries r
      | '\x7d' :: r => some (entries, r)
      | _ => none

def value? : Nat → List Char → Option (Value × List Char)
  | depth, '[' :: r =>
    match depth with
    | 0 => none
    | depth + 1 => (items? (value? depth) (r.length + 1) r).map fun (vs, r) => (.array vs, r)
  | depth, '\x7b' :: r =>
    match depth with
    | 0 => none
    | depth + 1 =>
      (entries? (value? depth) (r.length + 1) [] r).map fun (es, r) => (.table .inline es, r)
  | _, cs =>
    match cs.head? with
    | some '"' | some '\'' => (string? cs).map fun (text, r) => (.string (String.ofList text), r)
    | _ =>
      let (token, r) := plainToken cs
      (plain? token).map (·, r)

/-- A document while it is read; `path` leads to the table that keys go into. -/
structure Progress where
  root : Entries := []
  path : List String := []

def statement? (p : Progress) (cs : List Char) : Option (Progress × List Char) :=
  match cs with
  | '[' :: '[' :: r => do
    let (path, last, r) ← key? (r.length + 1) (skipGap r)
    let r ← expect ']' r >>= expect ']'
    let root ← openNext path last p.root
    some (⟨root, path ++ [last]⟩, r)
  | '[' :: r => do
    let (path, last, r) ← key? (r.length + 1) (skipGap r)
    let r ← expect ']' r
    let root ← openTable path last p.root
    some (⟨root, path ++ [last]⟩, r)
  | _ => do
    let (path, last, r) ← key? (cs.length + 1) cs
    let (item, r) ← value? maxDepth (skipGap (← expect '=' r))
    let root ← descend false (assign path last item) .header p.path p.root
    some ({ p with root }, r)

def statements? : Nat → Progress → List Char → Option Entries
  | 0, _, _ => none
  | fuel + 1, p, cs => do
    match ← skipTrivia? (cs.length + 1) cs with
    | [] => some p.root
    | cs => do
      let (p, r) ← statement? p cs
      match ← skipComment? (skipGap r) with
      | [] => some p.root
      | r => do statements? fuel p (← newline? r)

/-- A byte order mark at the start does not count. -/
def parse? (text : String) : Option Entries :=
  let cs := match text.toList with
    | '\uFEFF' :: r => r
    | cs => cs
  statements? (cs.length + 1) {} cs

end YamlLayout.Toml
