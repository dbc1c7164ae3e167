import YamlLayout.Error
import YamlLayout.Lines

/-! The two line terminators, and passing a byte text between them. -/
namespace YamlLayout

inductive LineEnding where
  | lf | crlf
  deriving DecidableEq

namespace LineEnding

def default : LineEnding := lf

def separator : LineEnding → Bytes
  | lf => [lineFeed]
  | crlf => [carriageReturn, lineFeed]

def label : LineEnding → String
  | lf => "lf"
  | crlf => "crlf"

def lowerAscii (c : Char) : Char :=
  if 'A' ≤ c && c ≤ 'Z' then Char.ofNat (c.toNat + 32) else c

/-- Surrounding white space and the case of ASCII letters do not count; an
unknown name is reported as it was given. -/
def parse (value : String) : Except Error LineEnding :=
  let name := String.ofList ((trimWhiteSpace value.toList).map lowerAscii)
  if name = "lf" then .ok lf
  else if name = "crlf" then .ok crlf
  else .error (.unsupportedLineEnding value)

end LineEnding

def stripReturns (content : Bytes) : Bytes := content.filter (· != carriageReturn)

/-- A text that does not end in a line feed gets nothing appended. -/
def insertReturns (content : Bytes) : Bytes :=
  content.flatMap fun b => if b = lineFeed then [carriageReturn, b] else [b]

/-- A text whose line feeds become the terminator. -/
def LineEnding.write : LineEnding → Bytes → Bytes
  | lf, content => content
  | crlf, content => insertReturns content

end YamlLayout
