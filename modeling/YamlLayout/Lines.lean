import YamlLayout.Text.Blank

/-! Lines of a byte text: a line feed ends one, a single carriage return before
that end goes with it, and a final line feed opens no further line. -/
namespace YamlLayout

def lineFeed : UInt8 := 0x0A
def carriageReturn : UInt8 := 0x0D
def space : UInt8 := 0x20

namespace Lines

/-- Cuts at line feeds alone. -/
def cut : Bytes → List Bytes
  | [] => []
  | b :: r =>
    if b = lineFeed then [] :: cut r
    else match cut r with
      | [] => [[b]]
      | l :: ls => (b :: l) :: ls

def dropFinalReturn (line : Bytes) : Bytes :=
  if line.getLast? = some carriageReturn then line.dropLast else line

def split (content : Bytes) : List Bytes := (cut content).map dropFinalReturn

def terminate (separator : Bytes) (lines : List Bytes) : Bytes :=
  lines.flatMap (· ++ separator)

def indent (line : Bytes) : Nat := (line.takeWhile (· == space)).length

def trimIndent (line : Bytes) : Bytes := line.dropWhile (· == space)

end Lines

/-- The deepest indentation met so far. -/
structure Padding where
  width : Nat := 0
  deriving DecidableEq

def Padding.adjust (p : Padding) (line : Bytes) : Padding := ⟨max p.width (Lines.indent line)⟩

def Padding.bytes (p : Padding) : Bytes := List.replicate p.width space

end YamlLayout
