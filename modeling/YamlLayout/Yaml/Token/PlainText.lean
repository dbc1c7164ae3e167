import YamlLayout.Yaml.Token.Gap

/-! Scalars without quotes. -/
namespace YamlLayout.Yaml.PlainText

def flowIndicators : List Char := [',', '[', ']', '\x7b', '\x7d']

/-- A run without gaps. Between brackets a colon must not touch an indicator. -/
def run? (flow : Bool) : Nat → Cursor → Option (List Char × Cursor)
  | 0, _ => none
  | fuel + 1, c =>
    match c.peek with
    | none => some ([], c)
    | some x =>
      if isBlank x || isBreak x then some ([], c)
      else if flow && x == ':' && (c.peekAt 1).any (fun y => y == '?' || flowIndicators.contains y)
      then none
      else if (x == ':' && c.gapAt 1) || (flow && flowIndicators.contains x) then some ([], c)
      else (run? flow fuel (c.skip 1)).map fun (text, rest) => (x :: text, rest)

def body? (flow : Bool) (indent : Int) : Nat → Gap → Cursor → Option (List Char × Bool × Cursor)
  | 0, _, _ => none
  | fuel + 1, gap, c =>
    if c.atDocumentMarker || c.isAt '#' then some ([], gap.broken, c)
    else do
      let (text, c) ← run? flow c.limit c
      if text.isEmpty then some ([], gap.broken, c)
      else
        let text := gap.text ++ text
        if c.atEnd || !c.atGap then some (text, false, c)
        else
          let (gap, c) ← Gap.after? indent false c
          if !flow && (c.column : Int) < indent then some (text, gap.broken, c)
          else
            let (more, broken, c) ← body? flow indent fuel gap c
            some (text ++ more, broken, c)

def read? (flow : Bool) (indent : Int) (c : Cursor) : Option (List Char × Bool × Cursor) :=
  body? flow indent c.limit {} c

end YamlLayout.Yaml.PlainText
