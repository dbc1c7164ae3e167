import YamlLayout.Lines

/-! Blank lines kept across a reformat. Before it each becomes a comment, padded
to the deepest indentation so far so that it cannot end a literal block; after it
the comments become blank lines, and blank lines of the reformat's own go away. -/
namespace YamlLayout

inductive LineBreakMode where
  | all | single
  deriving DecidableEq

def LineBreakMode.label : LineBreakMode → String
  | .all => "all"
  | .single => "single"

namespace LineBreaks

def placeholderText : String := "#magic___^_^___line"

def placeholder : Bytes := Utf8.ofString placeholderText

inductive Held where
  | text (line : Bytes)
  | gap (padding : Padding)
  deriving DecidableEq

def Held.line : Held → Bytes
  | .text line => line
  | .gap padding => padding.bytes ++ placeholder

/-- Blank lines deepen the padding too. -/
def hold : Padding → List Bytes → List Held
  | _, [] => []
  | p, l :: ls =>
    let q := p.adjust l
    (if isBlank l then .gap q else .text l) :: hold q ls

def held (content : Bytes) : List Held := hold {} (Lines.split content)

def replace (content : Bytes) : Bytes :=
  Lines.terminate [lineFeed] ((held content).map Held.line)

def isPlaceholder (line : Bytes) : Bool := placeholder.isPrefixOf (Lines.trimIndent line)

/-- `afterGap` tells that the line written last was a restored blank one. -/
def release (mode : LineBreakMode) : Bool → List Bytes → List Bytes
  | _, [] => []
  | afterGap, l :: ls =>
    if isBlank l then release mode afterGap ls
    else if isPlaceholder l then
      if mode = .single && afterGap then release mode afterGap ls
      else [] :: release mode true ls
    else l :: release mode false ls

def restore (content separator : Bytes) (mode : LineBreakMode) : Bytes :=
  Lines.terminate separator (release mode false (Lines.split content))

end LineBreaks
end YamlLayout
