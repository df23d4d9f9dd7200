import Courier.Main
import Courier.Source.Memory
import Courier.Token.Lexeme.Lemmas
import Courier.Token.Scan.Lemmas
import Courier.Tree.Walk
import Courier.Proofs.Syntax.Form
import Courier.Proofs.Syntax.Grammar
import Courier.Proofs.Parser.Lookahead
import Courier.Proofs.Parser.Yields
import Courier.Proofs.Parser.Leaves
import Courier.Proofs.Syntax.Prefix
import Courier.Proofs.Syntax.Reads
import Courier.Proofs.Syntax.Soundness
import Courier.Proofs.Syntax.Chain
import Courier.Proofs.Syntax.Takes
import Courier.Proofs.Syntax.Accepts
import Courier.Proofs.Syntax.Sentences
import Courier.Proofs.Syntax.Completeness
import Courier.Proofs.Parser.Lockstep
import Courier.Proofs.Syntax.Choices
import Courier.Proofs.Syntax.Paced
import Courier.Proofs.Syntax.Locality
import Courier.Proofs.Lexical.Grammar
import Courier.Proofs.Lexical.Readers
import Courier.Proofs.Lexical.Tokenize
import Courier.Proofs.Tree.Forest
import Courier.Proofs.Tree.Growth
import Courier.Proofs.Tree.Productions
import Courier.Proofs.Tree.OneTree
import Courier.Proofs.Tree.Schema
import Courier.Proofs.Tree.Draft
import Courier.Proofs.Tree.Building
import Courier.Proofs.Tree.Shapes
import Courier.Proofs.Tree.WellShaped
import Courier.Proofs.Lexical.Layout
import Courier.Proofs.Lexical.Positions
import Courier.Proofs.Text.Bytes
import Courier.Proofs.Text.Place
import Courier.Proofs.Parser.Coupling
import Courier.Proofs.Parser.Parallel
import Courier.Proofs.Parser.Tracing
import Courier.Proofs.Tree.Alike
import Courier.Proofs.Parser.Abreast
import Courier.Proofs.Parser.LayoutFree
import Courier.Proofs.Parser.Diagnostics
import Courier.Proofs.Tree.Uncommented
import Courier.Proofs.Parser.CommentFree
import Courier.Proofs.Tree.Comments
import Courier.Proofs.Parser.Comments
import Courier.Proofs.Parser.Assembly
import Courier.Proofs.Parser.Unlimited
import Courier.Proofs.Parser.Nesting
import Courier.Proofs.Parser.Located
import Courier.Proofs.Parser.Acts
import Courier.Proofs.Tree.Extends
import Courier.Proofs.Parser.Making
import Courier.Proofs.Parser.Targets
import Courier.Proofs.Parser.Statements
import Courier.Proofs.Parser.Assignments
import Courier.Proofs.Lexical.Recased
import Courier.Proofs.Parser.CaseFree
import Courier.Proofs.Files.Check
import Courier.Proofs.Tree.Ownership
import Courier.Proofs.Parser.CallPath
import Courier.Proofs.Tree.Discard
import Courier.Proofs.Tree.Levels
import Courier.Proofs.Tree.Rings
import Courier.Proofs.Lexical.Feeds
import Courier.Proofs.Lexical.Printing
import Courier.Proofs.Parser.Orderly
import Courier.Proofs.Text.Split
import Courier.Proofs.Lexical.Faults
import Courier.Proofs.Report.Excerpt
import Courier.Proofs.Report.Wording
import Courier.Proofs.Tree.Rollback
import Courier.Proofs.Tree.Visits
import Courier.Proofs.Parser.Stacks
import Courier.Proofs.Parser.Starts
import Courier.Proofs.Parser.Guard
import Courier.Proofs.Files.Verdicts
import Courier.Proofs.Files.Commands
import Courier.Proofs.Tree.Traversals
import Courier.Proofs.Tree.Faithful
import Courier.Proofs.Parser.Flagged
import Courier.Proofs.Tree.DumpLines
import Courier.Proofs.Syntax.Foresight
import Courier.Proofs.Syntax.FlagPrefix
import Courier.Proofs.Tree.Extents
import Courier.Proofs.Tree.Spread
import Courier.Proofs.Tree.Spans
import Courier.Proofs.Tree.TextOrder
import Courier.Proofs.Tree.Shallow
import Courier.Proofs.Files.Paths
import Courier.Proofs.Files.Expansion
import Courier.Proofs.Parser.Progress
import Courier.Proofs.Text.Slices
import Courier.Proofs.Lexical.Runs
import Courier.Proofs.Lexical.Standing
import Courier.Proofs.Lexical.Turns
import Courier.Proofs.Lexical.States
import Courier.Proofs.Lexical.Automaton
import Courier.Proofs.Lexical.LineFinders
