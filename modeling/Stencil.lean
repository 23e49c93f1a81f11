import Stencil.Main
import Stencil.Proofs.Outcome
import Stencil.Proofs.Stream
import Stencil.Proofs.Execution
import Stencil.Proofs.Rendering
import Stencil.Proofs.Resolution
import Stencil.Proofs.Bindings
import Stencil.Proofs.Meaning
import Stencil.Proofs.Nesting
import Stencil.Proofs.Grammar
import Stencil.Proofs.Locality
import Stencil.Proofs.Confinement
import Stencil.Proofs.Wrappers
import Stencil.Proofs.Regions
import Stencil.Proofs.Verbatim
import Stencil.Proofs.OpenTags
import Stencil.Proofs.References
import Stencil.Proofs.Sections
import Stencil.Proofs.Brackets
import Stencil.Proofs.Chains
import Stencil.Proofs.Literals
import Stencil.Proofs.Freshness
import Stencil.Proofs.Atomicity
import Stencil.Proofs.Encoding
import Stencil.Proofs.Readers
import Stencil.Proofs.Vocabulary
import Stencil.Proofs.MemberNames
import Stencil.Proofs.Faults
import Stencil.Proofs.Cursor
import Stencil.Proofs.Verdicts
import Stencil.Proofs.Sites
import Stencil.Proofs.History
import Stencil.Proofs.Passthrough
import Stencil.Proofs.Skipping
import Stencil.Proofs.RoundTrip
import Stencil.Proofs.Alternatives
import Stencil.Proofs.Delimiters
import Stencil.Proofs.Layering
import Stencil.Proofs.Lines
import Stencil.Proofs.LineNumbers
import Stencil.Proofs.Segments
import Stencil.Proofs.Passages
import Stencil.Proofs.ErrorLines
import Stencil.Proofs.Shorthand
import Stencil.Proofs.Opacity
import Stencil.Proofs.Operators
import Stencil.Proofs.Parser
import Stencil.Proofs.Progress
import Stencil.Proofs.Pairs
import Stencil.Proofs.Positions
import Stencil.Proofs.Precedence
import Stencil.Proofs.Outline
import Stencil.Proofs.Construction
import Stencil.Proofs.Borders
import Stencil.Proofs.Persistence
import Stencil.Proofs.Selection
