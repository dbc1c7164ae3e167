import YamlLayout.Text.Unshown

/-! Texts, flags and lists in the quoted form of reports: double quotes around a
text, and a lower-case code point in braces for a character that is not shown. -/
namespace YamlLayout.Quoted

def codePoint (c : Char) : List Char :=
  "\\u\x7b".toList ++ Nat.toDigits 16 c.toNat ++ ['\x7d']

def char (c : Char) : List Char :=
  if c = '"' then ['\\', '"']
  else if c = '\\' then ['\\', '\\']
  else if c = '\t' then ['\\', 't']
  else if c = '\n' then ['\\', 'n']
  else if c = '\r' then ['\\', 'r']
  else if c.toNat = 0 then ['\\', '0']
  else if isUnshown c then codePoint c
  else [c]

def text (s : String) : String := "\"" ++ String.ofList (s.toList.flatMap char) ++ "\""

def flag (b : Bool) : String := if b then "true" else "false"

def list (items : List String) : String := "[" ++ String.intercalate ", " items ++ "]"

def record (name : String) (fields : List (String × String)) : String :=
  let shown := fields.map fun (key, value) => key ++ ": " ++ value
  name ++ " \x7b " ++ String.intercalate ", " shown ++ " \x7d"

end YamlLayout.Quoted
