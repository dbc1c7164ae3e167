import YamlLayout.Yaml.Cursor

/-! The gap between two runs of a scalar that may span lines. Blanks on one line
stay; of line breaks the first becomes a space, unless more of them follow. -/
namespace YamlLayout.Yaml

structure Gap where
  blanks : List Char := []
  first : List Char := []
  more : List Char := []
  broken : Bool := false

def Gap.text (g : Gap) : List Char :=
  if g.broken then
    if g.first == ['\n'] then (if g.more.isEmpty then [' '] else g.more)
    else g.first ++ g.more
  else g.blanks

/-- A tab must not stand where a new line has not reached `indent` yet. -/
def Gap.read? (indent : Int) : Nat → Gap → Cursor → Option (Gap × Cursor)
  | 0, g, c => some (g, c)
  | fuel + 1, g, c =>
    match c.peek with
    | none => some (g, c)
    | some x =>
      if isBlank x then
        if g.broken then
          if x == '\t' && (c.column : Int) < indent then none
          else read? indent fuel g (c.skip 1)
        else read? indent fuel { g with blanks := g.blanks ++ [x] } (c.skip 1)
      else if isBreak x then
        let (text, next) := c.lineBreak
        if g.broken then read? indent fuel { g with more := g.more ++ text } next
        else read? indent fuel { g with first := text, broken := true } next
      else some (g, c)

def Gap.after? (indent : Int) (broken : Bool) (c : Cursor) : Option (Gap × Cursor) :=
  read? indent c.limit { broken } c

end YamlLayout.Yaml
