/-! Integers that a number of bits can hold. -/
namespace YamlLayout.Decimal

def isUnsigned (bits : Nat) (n : Int) : Bool := 0 ≤ n && n < Nat.pow 2 bits

def isSigned (bits : Nat) (n : Int) : Bool :=
  isUnsigned (bits - 1) n || isUnsigned (bits - 1) (-n - 1)

def isInteger (bits : Nat) (n : Int) : Bool := isSigned bits n || isUnsigned bits n

end YamlLayout.Decimal
