import YamlLayout.Text.Utf8

/-! Digits in bases up to thirty-six, and code points written in base sixteen. -/
namespace YamlLayout.Digits

/-- After nine come the letters, in either case. -/
def value? (base : Nat) (c : Char) : Option Nat :=
  let value :=
    if '0' ≤ c && c ≤ '9' then c.toNat - 48
    else if 'a' ≤ c && c ≤ 'z' then c.toNat - 87
    else if 'A' ≤ c && c ≤ 'Z' then c.toNat - 55
    else base
  if value < base then some value else none

def natural? (base : Nat) (ds : List Char) : Option Nat :=
  if ds.isEmpty then none
  else (ds.mapM (value? base)).map (·.foldl (fun n d => base * n + d) 0)

/-- The character whose code point the first `count` characters write. -/
def character? (count : Nat) (cs : List Char) : Option Char :=
  if cs.length < count then none else (natural? 16 (cs.take count)).bind Utf8.scalar?

def upperHex (width n : Nat) : List Char :=
  let ds := (Nat.toDigits 16 n).map Char.toUpper
  List.replicate (width - ds.length) '0' ++ ds

end YamlLayout.Digits
