/-! Decimal numbers as they are written: a sign, digits with an optional point,
and an optional exponent. -/
namespace YamlLayout.Decimal

def isDigit (c : Char) : Bool := '0' ≤ c && c ≤ '9'

def natOfDigits (cs : List Char) : Nat := cs.foldl (fun n c => 10 * n + (c.toNat - 48)) 0

def splitSign : List Char → Bool × List Char
  | '-' :: r => (true, r)
  | '+' :: r => (false, r)
  | r => (false, r)

/-- The number `digits · 10 ^ exponent` with its sign. -/
structure Literal where
  negative : Bool
  digits : Nat
  exponent : Int
  deriving DecidableEq

def exponent? : List Char → Option Int
  | [] => some 0
  | c :: r =>
    let (negative, ds) := splitSign r
    if (c == 'e' || c == 'E') && !ds.isEmpty && ds.all isDigit then
      some (if negative then -(natOfDigits ds : Int) else natOfDigits ds)
    else none

/-- At least one digit stands before or after the point. -/
def Literal.read? (cs : List Char) : Option Literal :=
  let (negative, r) := splitSign cs
  let whole := r.takeWhile isDigit
  let (fraction, r) := match r.dropWhile isDigit with
    | '.' :: r => (r.takeWhile isDigit, r.dropWhile isDigit)
    | r => ([], r)
  if whole.isEmpty && fraction.isEmpty then none
  else (exponent? r).map fun e => ⟨negative, natOfDigits (whole ++ fraction), e - fraction.length⟩

end YamlLayout.Decimal
