import YamlLayout.Error
import YamlLayout.Text.Utf8

/-! Escapes of the form `\UXXXXXXXX` read back as characters. The scanner looks at
one byte at a time; a complete escape is written when the next byte, or the end,
comes. Any other backslash is an error. -/
namespace YamlLayout.Escape

def lead : UInt8 := 0x5C
def marker : UInt8 := 0x55
def digitCount : Nat := 8

/-- Where the scanner stands; `start` is the offset of the escape's backslash. -/
inductive State where
  | copy
  | afterLead (start : Nat)
  | afterMarker (start : Nat)
  | digits (start : Nat) (value : UInt32) (count : Nat)
  | complete (start : Nat) (value : UInt32)
  deriving DecidableEq

/-- Upper-case digits only. -/
def hexValue? (b : UInt8) : Option UInt32 :=
  if 0x30 ≤ b && b ≤ 0x39 then some (b - 0x30).toUInt32
  else if 0x41 ≤ b && b ≤ 0x46 then some ((b - 0x41).toUInt32 + 10)
  else none

def character (start : Nat) (value : UInt32) : Except Error Bytes :=
  match Utf8.scalar? value.toNat with
  | some c => .ok (Utf8.encode c)
  | none => .error (.codePointOutOfRange value start)

def collect (position start : Nat) (value : UInt32) (count : Nat) (b : UInt8) :
    Except Error State :=
  match hexValue? b with
  | none => .error (.invalidCodePointSequence position)
  | some digit =>
    let value := (value <<< 4) ||| digit
    if count + 1 = digitCount then .ok (.complete start value)
    else .ok (.digits start value (count + 1))

def copyStep (position : Nat) (b : UInt8) : Bytes × State :=
  if b = lead then ([], .afterLead position) else ([b], .copy)

/-- What one byte adds to the output, and the state after it. -/
def step (position : Nat) (state : State) (b : UInt8) : Except Error (Bytes × State) :=
  match state with
  | .copy => .ok (copyStep position b)
  | .afterLead start =>
    if b = marker then .ok ([], .afterMarker start)
    else .error (.invalidCodePointSequence position)
  | .afterMarker start => (collect position start 0 0 b).map ([], ·)
  | .digits start value count => (collect position start value count b).map ([], ·)
  | .complete start value =>
    (character start value).map fun out =>
      let (more, next) := copyStep position b
      (out ++ more, next)

def finish : State → Except Error Bytes
  | .copy => .ok []
  | .complete start value => character start value
  | .afterLead start | .afterMarker start | .digits start _ _ =>
    .error (.unexpectedEndOfBuffer start)

def scan (position : Nat) (state : State) : Bytes → Except Error Bytes
  | [] => finish state
  | b :: r =>
    match step position state b with
    | .error e => .error e
    | .ok (out, next) => (scan (position + 1) next r).map (out ++ ·)

def decode (content : Bytes) : Except Error Bytes := scan 0 .copy content

end YamlLayout.Escape
