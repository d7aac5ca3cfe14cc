import RustFlow.Ast.Expr
import RustFlow.Ast.Item
import RustFlow.Ast.Path
import RustFlow.Binary64
import RustFlow.Binary64.Shortest
import RustFlow.Cfg
import RustFlow.Cfg.Closing
import RustFlow.Config
import RustFlow.Config.Reader
import RustFlow.Construct
import RustFlow.Error
import RustFlow.Grammar.Bound
import RustFlow.Grammar.Cursor
import RustFlow.Grammar.Expr
import RustFlow.Grammar.File
import RustFlow.Grammar.Item
import RustFlow.Grammar.Path
import RustFlow.Grammar.Pattern
import RustFlow.Grammar.Stmt
import RustFlow.Grammar.Type
import RustFlow.Graph
import RustFlow.Graph.Contraction
import RustFlow.Graph.Traversal
import RustFlow.Json
import RustFlow.Location
import RustFlow.Lowering.Binding
import RustFlow.Lowering.Body
import RustFlow.Lowering.Context
import RustFlow.Lowering.Expr
import RustFlow.Lowering.Fields
import RustFlow.Lowering.Fragment
import RustFlow.Lowering.Function
import RustFlow.Operator
import RustFlow.Program
import RustFlow.Program.Assembly
import RustFlow.Program.Build
import RustFlow.Statement
import RustFlow.Term
import RustFlow.Term.Render
import RustFlow.Text.Escaped
import RustFlow.Text.FileStem
import RustFlow.Text.Identifier
import RustFlow.Text.Quoted
import RustFlow.Text.Ranges
import RustFlow.Token
import RustFlow.Token.Lexer
import RustFlow.Token.Numeral
import RustFlow.Token.Quotation
import RustFlow.Token.Text
import RustFlow.Types.Arena
import RustFlow.Types.Assignable
import RustFlow.Types.Display
import RustFlow.Types.Resolve
import RustFlow.Proofs.Attempt
import RustFlow.Proofs.GraphOps
import RustFlow.Proofs.Recursion
import RustFlow.Proofs.Traversal
import RustFlow.Proofs.Pointwise
import RustFlow.Proofs.Contraction
import RustFlow.Proofs.Growth
import RustFlow.Proofs.Parametricity
import RustFlow.Proofs.Closing
import RustFlow.Proofs.ExitShape
import RustFlow.Proofs.Behaviour
import RustFlow.Proofs.Routes
import RustFlow.Proofs.Simulation
import RustFlow.Proofs.Tracking
import RustFlow.Proofs.Branching
import RustFlow.Proofs.Iteration
import RustFlow.Proofs.Realization
import RustFlow.Proofs.Traces
import RustFlow.Proofs.Interning
import RustFlow.Proofs.Alike
import RustFlow.Proofs.Agreement
import RustFlow.Proofs.AgreeingTerms
import RustFlow.Proofs.AgreeingBodies
import RustFlow.Proofs.Declarations
import RustFlow.Proofs.Independence
import RustFlow.Proofs.Handles
import RustFlow.Proofs.Catalogue
import RustFlow.Proofs.Accounting
import RustFlow.Proofs.Walks
import RustFlow.Proofs.Bindings
import RustFlow.Proofs.Scoping
import RustFlow.Proofs.Mirroring
import RustFlow.Proofs.LexicalScope
import RustFlow.Proofs.FailFast
import RustFlow.Proofs.Leniency
import RustFlow.Proofs.Strictness
import RustFlow.Proofs.Liveness
import RustFlow.Proofs.Grafting
import RustFlow.Proofs.Isolation
import RustFlow.Proofs.WellFormed
import RustFlow.Proofs.Assignability
import RustFlow.Proofs.Permanence
import RustFlow.Proofs.Layout
import RustFlow.Proofs.Jumpless
import RustFlow.Proofs.Ledger
import RustFlow.Proofs.Drawing
import RustFlow.Proofs.JumpRouting
import RustFlow.Proofs.Forks
import RustFlow.Proofs.Reachability
import RustFlow.Proofs.ForwardOrder
import RustFlow.Proofs.TypedTerms
import RustFlow.Proofs.TypedBodies
import RustFlow.Proofs.Coverage
import RustFlow.Proofs.LiteralLayouts
import RustFlow.Proofs.Crossings
import RustFlow.Proofs.Initializers
import RustFlow.Proofs.Evaluations
import RustFlow.Proofs.FieldOrder
import RustFlow.Proofs.Repeatability
import RustFlow.Proofs.Splitting
import RustFlow.Proofs.TypeTexts
import RustFlow.Proofs.DecimalTexts
import RustFlow.Proofs.LiteralTexts
import RustFlow.Proofs.PatternTexts
import RustFlow.Proofs.Locality
import RustFlow.Proofs.FieldGlobals
import RustFlow.Proofs.Hygiene
