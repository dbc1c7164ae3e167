import YamlLayout.Text.Utf8

/-! White space in the sense of the Unicode property White_Space, and the lines
that hold nothing else. -/
namespace YamlLayout

def whiteSpaceRanges : List (Nat × Nat) :=
  [(0x9, 0xD), (0x20, 0x20), (0x85, 0x85), (0xA0, 0xA0), (0x1680, 0x1680), (0x2000, 0x200A),
   (0x2028, 0x2029), (0x202F, 0x202F), (0x205F, 0x205F), (0x3000, 0x3000)]

def isWhiteSpace (c : Char) : Bool :=
  whiteSpaceRanges.any fun (lo, hi) => lo ≤ c.toNat && c.toNat ≤ hi

def isAsciiBlank (b : UInt8) : Bool :=
  b == 0x20 || b == 0x9 || b == 0xA || b == 0xC || b == 0xD

def isBlank (line : Bytes) : Bool :=
  match Utf8.decode? line with
  | some cs => cs.all isWhiteSpace
  | none => line.all isAsciiBlank

def trimWhiteSpace (cs : List Char) : List Char :=
  ((cs.dropWhile isWhiteSpace).reverse.dropWhile isWhiteSpace).reverse

end YamlLayout
