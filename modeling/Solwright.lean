import Solwright.Abi.Encoding
import Solwright.Compilation
import Solwright.Compiler.Document
import Solwright.Compiler.Output
import Solwright.Composition
import Solwright.Deployment.Payload
import Solwright.Failure.Named
import Solwright.Family
import Solwright.Feature
import Solwright.Interpretation
import Solwright.Json.Display
import Solwright.Json.Reader
import Solwright.Library.Closure
import Solwright.Number.Integer
import Solwright.Number.Shortest
import Solwright.Origins
import Solwright.Prompt
import Solwright.Proofs.Compiler.Consistent
import Solwright.Proofs.Compiler.Selection
import Solwright.Proofs.Composition.Applied
import Solwright.Proofs.Composition.AtOnce
import Solwright.Proofs.Composition.Conflicts
import Solwright.Proofs.Composition.Inherited
import Solwright.Proofs.Composition.Respelled
import Solwright.Proofs.Deployment.Cost
import Solwright.Proofs.Deployment.Decoded
import Solwright.Proofs.Deployment.Supply
import Solwright.Proofs.Library.Closure
import Solwright.Proofs.Library.Confinement
import Solwright.Proofs.Library.Lookup
import Solwright.Proofs.Library.Resolution
import Solwright.Proofs.Library.Sequence
import Solwright.Proofs.Load.Forgetting
import Solwright.Proofs.Load.Sharing
import Solwright.Proofs.Prompt.Parts
import Solwright.Proofs.Routes.Agreement
import Solwright.Proofs.Schema.Dumped
import Solwright.Proofs.Session.Gate
import Solwright.Proofs.Source.Commented
import Solwright.Proofs.Source.Resolved
import Solwright.Proofs.Source.Statement
import Solwright.Proofs.Suggestion.Refined
import Solwright.Proofs.Suggestion.Tiers
import Solwright.Proofs.Tools.Escapes
import Solwright.Proofs.Tools.Generated
import Solwright.Proofs.Written.Blocks
import Solwright.Proofs.Written.ReadBack
import Solwright.Routes
import Solwright.Settings.Threshold
import Solwright.Source.Structure
import Solwright.Suggestion.Keywords
import Solwright.Suggestion.Parameters
import Solwright.Suggestion.Reply
import Solwright.Text.Blank
import Solwright.Text.Digit
import Solwright.Text.Identifier
import Solwright.Text.Quoted
import Solwright.Text.Upper
import Solwright.Text.Word
import Solwright.Tools
import Solwright.Written.Reply
