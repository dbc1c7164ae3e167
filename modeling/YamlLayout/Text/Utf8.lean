/-! Bytes and their strict reading as UTF-8. A character is read only where its
own encoding stands, so overlong forms, surrogates and cut sequences never read. -/
namespace YamlLayout

abbrev Bytes := List UInt8

namespace Utf8

def encode (c : Char) : Bytes := String.utf8EncodeChar c

def encodeAll (cs : List Char) : Bytes := cs.flatMap encode

def ofString (s : String) : Bytes := encodeAll s.toList

def scalar? (n : Nat) : Option Char :=
  if n.isValidChar then some (Char.ofNat n) else none

/-- The number of bytes that a first byte announces. -/
def width (a : UInt8) : Nat :=
  if a < 0x80 then 1 else if a < 0xE0 then 2 else if a < 0xF0 then 3 else 4

/-- The payload bits of one sequence, whether or not it is well formed. -/
def payload : Bytes → Nat
  | [a] => a.toNat
  | [a, b] => a.toNat % 32 * 64 + b.toNat % 64
  | [a, b, c] => (a.toNat % 16 * 64 + b.toNat % 64) * 64 + c.toNat % 64
  | [a, b, c, d] => ((a.toNat % 8 * 64 + b.toNat % 64) * 64 + c.toNat % 64) * 64 + d.toNat % 64
  | _ => 0x110000

/-- The character whose encoding is exactly these bytes. -/
def char? (bs : Bytes) : Option Char :=
  (scalar? (payload bs)).filter (fun c => encode c == bs)

/-- Reads on after `skip` bytes that belong to a character already read. -/
def decodeFrom : Nat → Bytes → Option (List Char)
  | _, [] => some []
  | skip + 1, _ :: r => decodeFrom skip r
  | 0, a :: r =>
    match char? ((a :: r).take (width a)) with
    | some c => (decodeFrom (width a - 1) r).map (c :: ·)
    | none => none

def decode? (bs : Bytes) : Option (List Char) := decodeFrom 0 bs

def text? (bs : Bytes) : Option String := (decode? bs).map String.ofList

end Utf8
end YamlLayout
