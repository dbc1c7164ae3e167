import YamlLayout.Text.Utf8
import YamlLayout.Text.Blank
import YamlLayout.Text.Digits
import YamlLayout.Lines
import YamlLayout.Error
import YamlLayout.LineEnding
import YamlLayout.Directive
import YamlLayout.LineBreaks
import YamlLayout.Escape
import YamlLayout.Text.Unshown
import YamlLayout.Text.Quoted
import YamlLayout.Event
import YamlLayout.Feature
import YamlLayout.Feature.Builtin
import YamlLayout.Config
import YamlLayout.Formatter
import YamlLayout.Decimal.Literal
import YamlLayout.Decimal.Binary64
import YamlLayout.Decimal.Shortest
import YamlLayout.Decimal.Width
import YamlLayout.Toml.Value
import YamlLayout.Toml.Scalar
import YamlLayout.Toml.Document
import YamlLayout.Config.FromToml
import YamlLayout.CommandLine.Arguments
import YamlLayout.CommandLine.FileTable
import YamlLayout.CommandLine.Help
import YamlLayout.CommandLine.Execution
import YamlLayout.Yaml.Cursor
import YamlLayout.Yaml.Token
import YamlLayout.Yaml.Token.Gap
import YamlLayout.Yaml.Token.QuotedText
import YamlLayout.Yaml.Token.PlainText
import YamlLayout.Yaml.Token.BlockText
import YamlLayout.Yaml.Token.Tag
import YamlLayout.Yaml.Token.Stream
import YamlLayout.Yaml.Node
import YamlLayout.Yaml.Node.OfTokens
import YamlLayout.Yaml.Value
import YamlLayout.Yaml.Scalar
import YamlLayout.Yaml.Value.OfDocument
import YamlLayout.Yaml.Style
import YamlLayout.Yaml.Sheet
import YamlLayout.Yaml.Printer
import YamlLayout.Yaml.RoundTrip
import YamlLayout.Main
import YamlLayout.Proofs.Lines
import YamlLayout.Proofs.Text.Utf8
import YamlLayout.Proofs.Text.Blank
import YamlLayout.Proofs.LineEnding
import YamlLayout.Proofs.LineBreaks
import YamlLayout.Proofs.Directive
import YamlLayout.Proofs.Feature
import YamlLayout.Proofs.Outcome
import YamlLayout.Proofs.Formatter
import YamlLayout.Proofs.NormalForm
import YamlLayout.Proofs.Landing
import YamlLayout.Proofs.Escape.Digits
import YamlLayout.Proofs.Escape.Grammar
import YamlLayout.Proofs.Escape.Decoding
import YamlLayout.Proofs.Escape.Returns
import YamlLayout.Proofs.Terminators
import YamlLayout.Proofs.Prepared
import YamlLayout.Proofs.Conservation
import YamlLayout.Proofs.Escape.Spelling
import YamlLayout.Proofs.Cancellation
import YamlLayout.Proofs.Text.Pairs
import YamlLayout.Proofs.Consistency
import YamlLayout.Proofs.Collapsing
import YamlLayout.Proofs.Idempotence
import YamlLayout.Proofs.Immunity
import YamlLayout.Proofs.Text.Valid
import YamlLayout.Proofs.Validity
import YamlLayout.Proofs.Failure
import YamlLayout.Proofs.Session
import YamlLayout.Proofs.Commuting
import YamlLayout.Proofs.Idle
import YamlLayout.Proofs.Lateness
import YamlLayout.Proofs.Inverse
import YamlLayout.Proofs.FailFast
import YamlLayout.Proofs.Isolation
import YamlLayout.Proofs.Escape.Composition
import YamlLayout.Proofs.Joining
import YamlLayout.Proofs.Escape.Loop
import YamlLayout.Proofs.Unchanged
import YamlLayout.Proofs.Text.WhiteSpace
