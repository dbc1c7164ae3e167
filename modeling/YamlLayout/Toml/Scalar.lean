import YamlLayout.Text.Digits
import YamlLayout.Toml.Value

/-! The unstructured values of a TOML document: strings in four forms, numbers,
flags, dates and times. -/
namespace YamlLayout.Toml
open Decimal

def isControl (c : Char) : Bool := (c.toNat < 0x20 && c != '\t') || c.toNat == 0x7F

def isGap (c : Char) : Bool := c == ' ' || c == '\t'

def skipGap (cs : List Char) : List Char := cs.dropWhile isGap

def newline? : List Char → Option (List Char)
  | '\n' :: r => some r
  | '\r' :: '\n' :: r => some r
  | _ => none

/-! Strings -/

def hexEscape? (count : Nat) (cs : List Char) : Option (Char × List Char) :=
  (Digits.character? count cs).map (·, cs.drop count)

def escape? : List Char → Option (Char × List Char)
  | 'b' :: r => some ('\x08', r)
  | 't' :: r => some ('\t', r)
  | 'n' :: r => some ('\n', r)
  | 'f' :: r => some ('\x0c', r)
  | 'r' :: r => some ('\r', r)
  | 'e' :: r => some ('\x1b', r)
  | '"' :: r => some ('"', r)
  | '\\' :: r => some ('\\', r)
  | 'x' :: r => hexEscape? 2 r
  | 'u' :: r => hexEscape? 4 r
  | 'U' :: r => hexEscape? 8 r
  | _ => none

def basic : Nat → List Char → Option (List Char × List Char)
  | 0, _ => none
  | fuel + 1, cs =>
    match cs with
    | [] => none
    | '"' :: r => some ([], r)
    | '\\' :: r => do
      let (c, r) ← escape? r
      let (text, r) ← basic fuel r
      some (c :: text, r)
    | c :: r =>
      if isControl c then none
      else (basic fuel r).map fun (text, r) => (c :: text, r)

def literal : List Char → Option (List Char × List Char)
  | [] => none
  | c :: r =>
    if c = '\'' then some ([], r)
    else if isControl c then none
    else (literal r).map fun (text, r) => (c :: text, r)

def dropNewline (cs : List Char) : List Char := (newline? cs).getD cs

/-- Three quotes close a text of many lines; up to two more before them are text. -/
def closing? (quote : Char) (cs : List Char) : Option (List Char × List Char) :=
  let run := min (cs.takeWhile (· == quote)).length 5
  if 3 ≤ run then some (List.replicate (run - 3) quote, cs.drop run) else none

def skipLines : List Char → List Char
  | '\r' :: '\n' :: r => skipLines r
  | c :: r => if isGap c || c == '\n' then skipLines r else c :: r
  | [] => []

def basicLines : Nat → List Char → Option (List Char × List Char)
  | 0, _ => none
  | fuel + 1, cs =>
    match closing? '"' cs with
    | some done => some done
    | none =>
      match cs with
      | [] => none
      | '\\' :: r =>
        match newline? (skipGap r) with
        | some rest => basicLines fuel (skipLines rest)
        | none => do
          let (c, r) ← escape? r
          let (text, r) ← basicLines fuel r
          some (c :: text, r)
      | '\r' :: '\n' :: r => (basicLines fuel r).map fun (text, r) => ('\r' :: '\n' :: text, r)
      | c :: r =>
        if isControl c && c != '\n' then none
        else (basicLines fuel r).map fun (text, r) => (c :: text, r)

def literalLines : Nat → List Char → Option (List Char × List Char)
  | 0, _ => none
  | fuel + 1, cs =>
    match closing? '\'' cs with
    | some done => some done
    | none =>
      match cs with
      | [] => none
      | '\r' :: '\n' :: r => (literalLines fuel r).map fun (text, r) => ('\r' :: '\n' :: text, r)
      | c :: r =>
        if isControl c && c != '\n' then none
        else (literalLines fuel r).map fun (text, r) => (c :: text, r)

/-- A string on one line, which may also stand as a key. -/
def line? : List Char → Option (List Char × List Char)
  | '"' :: r => basic (r.length + 1) r
  | '\'' :: r => literal r
  | _ => none

def string? : List Char → Option (List Char × List Char)
  | '"' :: '"' :: '"' :: r => basicLines (r.length + 1) (dropNewline r)
  | '\'' :: '\'' :: '\'' :: r => literalLines (r.length + 1) (dropNewline r)
  | cs => line? cs

/-! Numbers -/

/-- Digits in groups that single underscores part. -/
def groups? (digit : Char → Bool) (cs : List Char) : Option (List Char) :=
  let ds := cs.filter (· != '_')
  let parts := cs.splitOn '_'
  if parts.all (fun p => !p.isEmpty) && ds.all digit then some ds else none

def noLeadingZero (ds : List Char) : Bool := ds.length == 1 || ds.head? != some '0'

def decimalInteger? (cs : List Char) : Option Value := do
  let (negative, r) := splitSign cs
  let ds ← groups? isDigit r
  if noLeadingZero ds then
    let n : Int := natOfDigits ds
    some (.integer (if negative then -n else n))
  else none

def baseInteger? (base : Nat) (cs : List Char) : Option Value := do
  let ds ← groups? (fun c => (Digits.value? base c).isSome) cs
  let n ← Digits.natural? base ds
  some (.integer n)

/-- The exponent with its letter and sign kept and its underscores gone. -/
def exponentText? : List Char → Option (List Char)
  | [] => some []
  | c :: r =>
    if c == 'e' || c == 'E' then
      let (negative, ds) := splitSign r
      (groups? isDigit ds).map fun ds => 'e' :: (if negative then '-' :: ds else ds)
    else none

def isGrouped (c : Char) : Bool := isDigit c || c == '_'

def float? (cs : List Char) : Option Value := do
  let (negative, r) := splitSign cs
  let whole ← groups? isDigit (r.takeWhile isGrouped)
  let r := r.dropWhile isGrouped
  if r.isEmpty || !noLeadingZero whole then none
  else
    let (fraction, r) ← match r with
      | '.' :: r => (groups? isDigit (r.takeWhile isGrouped)).map (·, r.dropWhile isGrouped)
      | _ => some ([], r)
    let tail ← exponentText? r
    let l ← Literal.read? (whole ++ '.' :: fraction ++ tail)
    match Binary64.ofLiteral { l with negative } with
    | .infinite _ => some .overflow
    | x => some (.float x)

/-! Dates and times -/

def twoDigits? : List Char → Option (Nat × List Char)
  | a :: b :: r => if isDigit a && isDigit b then some (natOfDigits [a, b], r) else none
  | _ => none

def expect (c : Char) : List Char → Option (List Char)
  | d :: r => if d = c then some r else none
  | [] => none

def daysIn (year month : Nat) : Nat :=
  if month = 2 then
    if year % 4 = 0 && (year % 100 != 0 || year % 400 = 0) then 29 else 28
  else if month = 4 || month = 6 || month = 9 || month = 11 then 30
  else 31

def date? (cs : List Char) : Option (List Char) := do
  let (century, r) ← twoDigits? cs
  let (years, r) ← twoDigits? r
  let (month, r) ← twoDigits? (← expect '-' r)
  let (day, r) ← twoDigits? (← expect '-' r)
  if 1 ≤ month && month ≤ 12 && 1 ≤ day && day ≤ daysIn (100 * century + years) month then some r
  else none

/-- Seconds and their fraction may be left out. -/
def time? (cs : List Char) : Option (List Char) := do
  let (hour, r) ← twoDigits? cs
  let (minute, r) ← twoDigits? (← expect ':' r)
  if 23 < hour || 59 < minute then none
  else match r with
    | ':' :: r => do
      let (second, r) ← twoDigits? r
      if 60 < second then none
      else match r with
        | '.' :: r => if (r.takeWhile isDigit).isEmpty then none else some (r.dropWhile isDigit)
        | r => some r
    | r => some r

def offset? : List Char → Option (List Char)
  | [] => some []
  | 'Z' :: r | 'z' :: r => some r
  | c :: r => do
    if c != '+' && c != '-' then none
    else
      let (hour, r) ← twoDigits? r
      let (minute, r) ← twoDigits? (← expect ':' r)
      if 23 < hour || 59 < minute then none else some r

def moment? (cs : List Char) : Option Value :=
  let rest := match date? cs with
    | some [] => some []
    | some (c :: r) =>
      if c == 'T' || c == 't' || c == ' ' then (time? r).bind offset? else none
    | none => time? cs
  if rest = some [] then some .moment else none

/-! Values without quotes or brackets -/

def isPlain (c : Char) : Bool := c.isAlphanum || c == '+' || c == '-' || c == '_' || c == '.' || c == ':'

/-- A date and a time that follows after a single space are one value. -/
def plainToken (cs : List Char) : List Char × List Char :=
  let token := cs.takeWhile isPlain
  match cs.dropWhile isPlain with
  | ' ' :: r =>
    if date? token = some [] && (r.head?.any isDigit) then
      (token ++ ' ' :: r.takeWhile isPlain, r.dropWhile isPlain)
    else (token, ' ' :: r)
  | r => (token, r)

def special? (cs : List Char) : Option Value :=
  let (negative, r) := splitSign cs
  if r = ['i', 'n', 'f'] then some (.float (.infinite negative))
  else if r = ['n', 'a', 'n'] then some (.float .nan)
  else none

def plain? (token : List Char) : Option Value :=
  match token with
  | ['t', 'r', 'u', 'e'] => some (.boolean true)
  | ['f', 'a', 'l', 's', 'e'] => some (.boolean false)
  | '0' :: 'x' :: r => baseInteger? 16 r
  | '0' :: 'o' :: r => baseInteger? 8 r
  | '0' :: 'b' :: r => baseInteger? 2 r
  | _ => special? token <|> decimalInteger? token <|> float? token <|> moment? token

end YamlLayout.Toml
