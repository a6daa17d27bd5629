import BlockCompiler.Compile
import BlockCompiler.Diagnostic
import BlockCompiler.Emission.Fault
import BlockCompiler.Emission.Frame
import BlockCompiler.Emission.Module
import BlockCompiler.Emission.Statement
import BlockCompiler.Emission.Value
import BlockCompiler.Name.Order
import BlockCompiler.Name.Path
import BlockCompiler.Resolution
import BlockCompiler.Scope.Basic
import BlockCompiler.Scope.Build
import BlockCompiler.Scope.Table
import BlockCompiler.Session
import BlockCompiler.Source.Expr
import BlockCompiler.Source.Operator
import BlockCompiler.Source.Outline
import BlockCompiler.Source.Position
import BlockCompiler.Source.Program
import BlockCompiler.Source.Render
import BlockCompiler.Source.Stmt
import BlockCompiler.Source.Tags
import BlockCompiler.Source.Ty
import BlockCompiler.Target.Builder
import BlockCompiler.Target.Code
import BlockCompiler.Target.Render
import BlockCompiler.Target.Width
import BlockCompiler.Text.Blank
import BlockCompiler.Text.Bytes
import BlockCompiler.Text.CharClass
import BlockCompiler.Text.Combining
import BlockCompiler.Text.Hidden
import BlockCompiler.Text.Line
import BlockCompiler.Text.Outline
import BlockCompiler.Text.Quoted
import BlockCompiler.Trace.Event
import BlockCompiler.Trace.Traced
import BlockCompiler.Typing.Ascription
import BlockCompiler.Typing.Check
import BlockCompiler.Typing.Infer
import BlockCompiler.Typing.Operator
import BlockCompiler.Typing.Rules
import BlockCompiler.Proofs.Control
import BlockCompiler.Proofs.Growth
import BlockCompiler.Proofs.Live
import BlockCompiler.Proofs.Ascribed
import BlockCompiler.Proofs.Skeleton
import BlockCompiler.Proofs.Outcome
import BlockCompiler.Proofs.Bodies
import BlockCompiler.Proofs.Naming
import BlockCompiler.Proofs.Stages
import BlockCompiler.Proofs.Meaning.Effect
import BlockCompiler.Proofs.Meaning.Machine
import BlockCompiler.Proofs.Meaning.Source
import BlockCompiler.Proofs.Meaning.Passes
import BlockCompiler.Proofs.Meaning.Expressions
import BlockCompiler.Proofs.Meaning.Points
import BlockCompiler.Proofs.Meaning.Statements
import BlockCompiler.Proofs.Meaning.Preservation
import BlockCompiler.Proofs.Closed
import BlockCompiler.Proofs.Emittable
import BlockCompiler.Proofs.Visible
import BlockCompiler.Proofs.Faults
import BlockCompiler.Proofs.Code
import BlockCompiler.Proofs.RegisterTypes
import BlockCompiler.Proofs.TypedCode
import BlockCompiler.Proofs.Returns
import BlockCompiler.Proofs.Permitted
import BlockCompiler.Proofs.Graph
import BlockCompiler.Proofs.Registers
import BlockCompiler.Proofs.SingleAssignment
import BlockCompiler.Proofs.Agreement
import BlockCompiler.Proofs.Assumptions
import BlockCompiler.Proofs.Fixpoint
import BlockCompiler.Proofs.Positions
import BlockCompiler.Proofs.Linkage
import BlockCompiler.Proofs.Separate
import BlockCompiler.Proofs.Roster
import BlockCompiler.Proofs.Reordering
import BlockCompiler.Proofs.Weakening
import BlockCompiler.Proofs.Importing
import BlockCompiler.Proofs.Retagging
import BlockCompiler.Proofs.Relocation
import BlockCompiler.Proofs.History
import BlockCompiler.Proofs.Declarations
import BlockCompiler.Proofs.Nodes
import BlockCompiler.Proofs.Qualified
import BlockCompiler.Proofs.Checking
import BlockCompiler.Proofs.Blame
import BlockCompiler.Proofs.Mismatch
import BlockCompiler.Proofs.Layout
import BlockCompiler.Proofs.Cycles
import BlockCompiler.Proofs.Quiet
import BlockCompiler.Proofs.Collisions
import BlockCompiler.Proofs.Admitted
import BlockCompiler.Proofs.StringSlots
import BlockCompiler.Proofs.Readable.Words
import BlockCompiler.Proofs.Readable.Expressions
import BlockCompiler.Proofs.Readable.Statements
import BlockCompiler.Proofs.TwosComplement
import BlockCompiler.Proofs.FlatNames
import BlockCompiler.Proofs.DottedNames
import BlockCompiler.Proofs.Traversal
import BlockCompiler.Proofs.Readable.Operands
import BlockCompiler.Proofs.Readable.Code
