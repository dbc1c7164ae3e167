import YamlLayout.Decimal.Literal

/-! Numbers with a 53-bit significand. A decimal literal is rounded to the nearest
of them in exact integer arithmetic, a tie going to the even significand. -/
namespace YamlLayout.Decimal

/-- A finite value is `mantissa · 2 ^ exponent`, with `mantissa < 2 ^ 53`. -/
inductive Binary64 where
  | finite (negative : Bool) (mantissa : Nat) (exponent : Int)
  | infinite (negative : Bool)
  | nan
  deriving DecidableEq

def scale (base : Nat) (e : Int) : Nat := Nat.pow base e.toNat

namespace Binary64

def minExponent : Int := -1074
def maxExponent : Int := 971

def zero (negative : Bool) : Binary64 := finite negative 0 minExponent

/-- `num / den` in units of `2 ^ e`, as a ratio. -/
def inUnits (num den : Nat) (e : Int) : Nat × Nat := (num * scale 2 (-e), den * scale 2 e)

def nearestEven (num den : Nat) : Nat :=
  let q := num / den
  let r := num % den
  if 2 * r > den || (2 * r == den && q % 2 == 1) then q + 1 else q

def ofRatio (negative : Bool) (num den : Nat) : Binary64 :=
  if num = 0 then zero negative
  else
    let low := max minExponent ((num.log2 : Int) - den.log2 - 53)
    let (n, d) := inUnits num den low
    let e := if scale 2 53 ≤ n / d then low + 1 else low
    let (n, d) := inUnits num den e
    let m := nearestEven n d
    let (m, e) := if m = scale 2 53 then (scale 2 52, e + 1) else (m, e)
    if maxExponent < e then infinite negative else finite negative m e

/-- Literals far outside the range are settled by their size alone. -/
def ofLiteral (l : Literal) : Binary64 :=
  let size := (Nat.toDigits 10 l.digits).length + l.exponent
  if l.digits = 0 || size < -330 then zero l.negative
  else if 310 < size then infinite l.negative
  else ofRatio l.negative (l.digits * scale 10 l.exponent) (scale 10 (-l.exponent))

/-- Numeric equality, except that it also holds between two values that are no number. -/
def same : Binary64 → Binary64 → Bool
  | finite s m e, finite t n f => m == n && (m == 0 || (s == t && e == f))
  | infinite s, infinite t => s == t
  | nan, nan => true
  | _, _ => false

end Binary64
end YamlLayout.Decimal
