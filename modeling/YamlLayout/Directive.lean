import YamlLayout.Lines

/-! Directive lines: taken out of a document with their line numbers, and placed
again by counting the lines of the finished text. A directive whose number has
already passed holds back those behind it until every line is written. -/
namespace YamlLayout

structure Directive where
  line : Nat
  content : Bytes
  deriving DecidableEq

namespace Directive

def marker : UInt8 := 0x25

def isDirective (line : Bytes) : Bool := line.head? == some marker

/-- The directive lines among these, the first of which has number `n`. -/
def numbered (n : Nat) (lines : List Bytes) : List Directive :=
  (lines.zipIdx n).filterMap fun (line, k) => if isDirective line then some ⟨k, line⟩ else none

def recorded (lines : List Bytes) : List Directive := numbered 1 lines

def strip (content : Bytes) : Bytes × List Directive :=
  let lines := Lines.split content
  (Lines.terminate [lineFeed] (lines.filter (!isDirective ·)), recorded lines)

inductive Placed where
  | text (line : Bytes)
  | restored (directive : Directive)
  | trailing (directive : Directive) (outputLine : Nat)
  deriving DecidableEq

def Placed.line : Placed → Bytes
  | .text line => line
  | .restored d => d.content
  | .trailing d _ => d.content

def placeTrailing : Nat → List Directive → List Placed
  | _, [] => []
  | n, d :: ds => .trailing d n :: placeTrailing (n + 1) ds

/-- Places directives among lines, the next output line having number `n`. -/
def place (n : Nat) : List Directive → List Bytes → List Placed
  | ds, [] => placeTrailing n ds
  | [], l :: ls => .text l :: place (n + 1) [] ls
  | d :: ds, l :: ls =>
    if d.line = n then .restored d :: place (n + 1) ds (l :: ls)
    else .text l :: place (n + 1) (d :: ds) ls
termination_by ds ls => ds.length + ls.length

def placed (content : Bytes) (directives : List Directive) : List Placed :=
  place 1 directives (Lines.split content)

def restore (content : Bytes) (directives : List Directive) (separator : Bytes) : Bytes :=
  Lines.terminate separator ((placed content directives).map Placed.line)

end Directive
end YamlLayout
