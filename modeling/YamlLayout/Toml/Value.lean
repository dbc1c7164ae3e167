import YamlLayout.Decimal.Binary64

/-! Values of a TOML document. A table remembers how it came about, because that
decides what a later line may still add to it. -/
namespace YamlLayout.Toml

inductive Origin where
  /-- Named only on the way to another table. -/
  | implied
  /-- Opened by a dotted key. -/
  | dotted
  /-- Opened by a header of its own, or the document itself. -/
  | header
  | inline
  deriving DecidableEq

inductive Value where
  | string (text : String)
  | integer (n : Int)
  | float (x : Decimal.Binary64)
  /-- A number with a point or an exponent that exceeds every finite value. -/
  | overflow
  | boolean (b : Bool)
  /-- A date, a time of day, or both. -/
  | moment
  | array (items : List Value)
  | table (origin : Origin) (entries : List (String × Value))
  /-- Tables under one header in double brackets, the last one still open. -/
  | tables (items : List (List (String × Value)))

abbrev Entries := List (String × Value)

def replaceEntry (key : String) (value : Value) (entries : Entries) : Entries :=
  entries.map fun entry => if entry.1 = key then (key, value) else entry

/-- Walks a path of tables, opening those that are missing, and updates the last
one. Keys do not reopen a table that had its header; headers do not enter braces. -/
def descend (byKey : Bool) (update : Origin → Entries → Option Entries) (origin : Origin) :
    List String → Entries → Option Entries
  | [], entries => update origin entries
  | key :: path, entries =>
    match entries.lookup key with
    | none =>
      let fresh := if byKey then .dotted else .implied
      (descend byKey update fresh path []).map fun inner => entries ++ [(key, .table fresh inner)]
    | some (.table inside inner) =>
      if inside = .inline || (byKey && inside = .header) then none
      else (descend byKey update inside path inner).map fun inner =>
        replaceEntry key (.table inside inner) entries
    | some (.tables items) =>
      match items.getLast? with
      | none => none
      | some inner => (descend byKey update .header path inner).map fun inner =>
        replaceEntry key (.tables (items.dropLast ++ [inner])) entries
    | some _ => none

def insertNew (key : String) (value : Value) (entries : Entries) : Option Entries :=
  if (entries.lookup key).isSome then none else some (entries ++ [(key, value)])

def assign (path : List String) (key : String) (value : Value) (origin : Origin)
    (entries : Entries) : Option Entries :=
  descend true (fun inside inner =>
    if path.isEmpty || inside = .dotted then insertNew key value inner else none)
    origin path entries

def openTable (path : List String) (key : String) (root : Entries) : Option Entries :=
  descend false (fun _ entries =>
    match entries.lookup key with
    | none => some (entries ++ [(key, .table .header [])])
    | some (.table .implied inner) => some (replaceEntry key (.table .header inner) entries)
    | some _ => none)
    .header path root

def openNext (path : List String) (key : String) (root : Entries) : Option Entries :=
  descend false (fun _ entries =>
    match entries.lookup key with
    | none => some (entries ++ [(key, .tables [[]])])
    | some (.tables items) => some (replaceEntry key (.tables (items ++ [[]])) entries)
    | some _ => none)
    .header path root

end YamlLayout.Toml
