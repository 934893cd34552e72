import HtmlTemplate.Main
import HtmlTemplate.Proofs.Checked.Calls
import HtmlTemplate.Proofs.Expr.Callees
import HtmlTemplate.Proofs.Expr.ErrorPoint
import HtmlTemplate.Proofs.Expr.References
import HtmlTemplate.Proofs.Expr.Shorthand
import HtmlTemplate.Proofs.Interpolation.Chains
import HtmlTemplate.Proofs.Interpolation.Spans
import HtmlTemplate.Proofs.Markup.Cascade
import HtmlTemplate.Proofs.Markup.Descent
import HtmlTemplate.Proofs.Markup.Indentation
import HtmlTemplate.Proofs.Markup.InsertionOrder
import HtmlTemplate.Proofs.Number.FloatInFront
import HtmlTemplate.Proofs.Program.Marks
import HtmlTemplate.Proofs.Program.Nearest
import HtmlTemplate.Proofs.Program.Runs
import HtmlTemplate.Proofs.Template.Covering
import HtmlTemplate.Proofs.Template.Dependence
import HtmlTemplate.Proofs.Template.Fragments
import HtmlTemplate.Proofs.Template.Frame
import HtmlTemplate.Proofs.Template.InPlace
import HtmlTemplate.Proofs.Template.Injection
import HtmlTemplate.Proofs.Template.Labels
import HtmlTemplate.Proofs.Template.LoopNames
import HtmlTemplate.Proofs.Template.Priority
import HtmlTemplate.Proofs.Template.Root
import HtmlTemplate.Proofs.Template.Unknown
import HtmlTemplate.Proofs.Template.Visibility
import HtmlTemplate.Proofs.Value.DigitSums
import HtmlTemplate.Proofs.Value.Equality
import HtmlTemplate.Proofs.Value.FixedText
import HtmlTemplate.Proofs.Value.Indices
import HtmlTemplate.Proofs.Value.RadixText
import HtmlTemplate.Proofs.Value.Slicing
import HtmlTemplate.Proofs.Value.Splitting
import HtmlTemplate.Proofs.Value.TextPositions
import HtmlTemplate.Proofs.Value.UnitEscapes
import HtmlTemplate.Proofs.Value.UriDecoding
