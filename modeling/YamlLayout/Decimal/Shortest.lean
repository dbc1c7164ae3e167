import YamlLayout.Decimal.Binary64

/-! The fewest decimal digits that read back as a given positive number, and of
those the nearest to it. -/
namespace YamlLayout.Decimal.Shortest

/-- Which of two equally near candidates is taken. -/
inductive Tie where
  | even | up
  deriving DecidableEq

structure Scaled where
  digits : Nat
  exponent : Int
  deriving DecidableEq

/-- `x · 2 ^ q` and `d · 10 ^ p` over one denominator. -/
def commonBinary (x : Nat) (q p : Int) : Nat := x * scale 2 q * scale 10 (-p)
def commonDecimal (d : Nat) (q p : Int) : Nat := d * scale 10 p * scale 2 (-q)

/-- The best multiple of `10 ^ p` that reads back as `m · 2 ^ e`, if there is one.
Four units of `2 ^ (e - 2)` make one of the significand, so that the ends of the
interval are whole. -/
def onGrid (tie : Tie) (m : Nat) (e p : Int) : Option Nat :=
  let q := e - 2
  let below := if m = scale 2 52 && Binary64.minExponent < e then 1 else 2
  let value := commonBinary (4 * m) q p
  let low := commonBinary (4 * m - below) q p
  let high := commonBinary (4 * m + 2) q p
  let closed := m % 2 == 0
  let reads (d : Nat) : Bool :=
    let x := commonDecimal d q p
    if closed then low ≤ x && x ≤ high else low < x && x < high
  let d := value / commonDecimal 1 q p
  match d != 0 && reads d, reads (d + 1) with
  | true, true =>
    let down := value - commonDecimal d q p
    let up := commonDecimal (d + 1) q p - value
    if down < up then some d
    else if up < down then some (d + 1)
    else some (if tie == .even && d % 2 == 0 then d else d + 1)
  | true, false => some d
  | false, true => some (d + 1)
  | false, false => none

def search (tie : Tie) (m : Nat) (e : Int) : Nat → Int → Scaled
  | 0, p => ⟨0, p⟩
  | fuel + 1, p =>
    match onGrid tie m e p with
    | some d => ⟨d, p⟩
    | none => search tie m e fuel (p - 1)

/-- The coarsest grid tried lies above the number, and seventeen digits always suffice. -/
def ofMantissa (tie : Tie) (m : Nat) (e : Int) : Scaled :=
  let bound := ((m.log2 : Int) + e + 1) * 30103 / 100000 + 1
  search tie m e 25 bound

end YamlLayout.Decimal.Shortest
