import YamlLayout.Text.Digits

/-! What can go wrong with a document or a configuration, with the wording, the
diagnostic code and the advice of each cause. -/
namespace YamlLayout

inductive Phase where
  | before | after
  deriving DecidableEq

def Phase.label : Phase → String
  | .before => "before"
  | .after => "after"

inductive Error where
  | io (text : String)
  /-- A configuration that does not read; `none` where the text does not follow the grammar. -/
  | configParse (detail : Option String)
  | unsupportedLineEnding (style : String)
  | featureApply (feature : String) (phase : Phase) (source : Error)
  | invalidCodePointSequence (offset : Nat)
  | unexpectedEndOfBuffer (offset : Nat)
  | codePointOutOfRange (value : UInt32) (offset : Nat)
  /-- A failed reformat step; `none` where the document does not follow the grammar. -/
  | reformat (detail : Option String)
  deriving DecidableEq

def escapeDigits (value : UInt32) : String := String.ofList (Digits.upperHex 8 value.toNat)

namespace Error

def message : Error → Option String
  | io text => some text
  | configParse detail => detail.map ("failed to parse config file: " ++ ·)
  | unsupportedLineEnding style => some s!"unsupported line ending style `{style}`"
  | featureApply feature phase source =>
    source.message.map fun text =>
      s!"feature `{feature}` failed during the {phase.label} phase: {text}"
  | invalidCodePointSequence offset =>
    some s!"invalid codepoint escape sequence at byte {offset}"
  | unexpectedEndOfBuffer offset =>
    some s!"unexpected end of buffer inside codepoint escape starting at byte {offset}"
  | codePointOutOfRange value offset =>
    some s!"codepoint `{escapeDigits value}` at byte {offset} is not a valid unicode scalar value"
  | reformat detail => detail.map ("failed to reformat document: " ++ ·)

def code : Error → String
  | io _ => "yamlkeep::io_error"
  | configParse _ => "yamlkeep::config_parse"
  | unsupportedLineEnding _ => "yamlkeep::unsupported_line_ending"
  | featureApply .. => "yamlkeep::feature_apply"
  | invalidCodePointSequence _ => "yamlkeep::invalid_codepoint_sequence"
  | unexpectedEndOfBuffer _ => "yamlkeep::unexpected_end_of_buffer"
  | codePointOutOfRange .. => "yamlkeep::codepoint_out_of_range"
  | reformat _ => "yamlkeep::reformat"

def help : Error → Option String
  | configParse _ =>
    some ("supported keys: line_ending, retain_line_breaks, retain_line_breaks_single, "
      ++ "strip_directives, parse_unicode")
  | unsupportedLineEnding _ => some "supported line ending styles: lf, crlf"
  | featureApply feature _ _ =>
    some s!"disable the `{feature}` feature to format this document without it"
  | invalidCodePointSequence _ =>
    some "codepoint escapes must look like `\\U0001F60A` with 8 uppercase hex digits"
  | _ => none

end Error

/-- A caller's mistake, not a fault of the document. -/
inductive Breach where
  | directivesNeverRecorded
  deriving DecidableEq

def Breach.message : Breach → String
  | .directivesNeverRecorded =>
    "directives were never recorded in this context: the `Strip Directives` after action "
      ++ "ran without its before action"

inductive Outcome (α : Type) where
  | done (value : α)
  | failed (error : Error)
  | breach (cause : Breach)
  deriving DecidableEq

def Outcome.ofExcept {α : Type} : Except Error α → Outcome α
  | .ok a => .done a
  | .error e => .failed e

end YamlLayout
