import DocFlow.Text.Uppercase
import DocFlow.Number.Shortest
import DocFlow.TypeExpr.Basic
import DocFlow.Comment.Tag
import DocFlow.Script.Parser
import DocFlow.Literal.Value
import DocFlow.Literal.Basic
import DocFlow.Documented.Find
import DocFlow.Documented.Name
import DocFlow.Documented.Parameter
import DocFlow.Declaration.Collection
import DocFlow.Declaration.Layout
import DocFlow.Inline.Annotation
import DocFlow.Settings.LogLevel
import DocFlow.Main
import DocFlow.Proofs.TypeExpr.Derivation
import DocFlow.Proofs.Outcome
import DocFlow.Proofs.TypeExpr.Soundness
import DocFlow.Proofs.TypeExpr.Completeness
import DocFlow.Proofs.Documented.Annotation
import DocFlow.Proofs.Documented.Located
import DocFlow.Proofs.Inline.Piece
import DocFlow.Proofs.Declaration.Change
import DocFlow.Proofs.Inline.Agreement
import DocFlow.Proofs.Inline.TypeComment
import DocFlow.Proofs.Declaration.Insertion
import DocFlow.Proofs.Declaration.Entry
import DocFlow.Proofs.Declaration.History
import DocFlow.Proofs.Inline.Rewriting
import DocFlow.Proofs.Declaration.Reserved
import DocFlow.Proofs.Declaration.Leaf
import DocFlow.Proofs.Declaration.Block
import DocFlow.Proofs.TypeExpr.Operand
import DocFlow.Proofs.TypeExpr.Rereading
import DocFlow.Proofs.Script.Path
import DocFlow.Proofs.Documented.CommentRun
import DocFlow.Proofs.Documented.Attribution
import DocFlow.Proofs.Script.SameCode
import DocFlow.Proofs.Declaration.Frame
import DocFlow.Proofs.Documented.NameScope
import DocFlow.Proofs.Comment.RoundTrip
import DocFlow.Proofs.Inline.Interleaving
import DocFlow.Proofs.Command.InlineRun
import DocFlow.Proofs.Declaration.Method
import DocFlow.Proofs.Documented.HiddenLiteral
import DocFlow.Proofs.Documented.Extraction
import DocFlow.Proofs.TypeExpr.Step
import DocFlow.Proofs.TypeExpr.Lookahead
import DocFlow.Proofs.TypeExpr.Completion
import DocFlow.Proofs.TypeExpr.FaultPlace
import DocFlow.Proofs.Comment.TagList
import DocFlow.Proofs.TypeExpr.Delimiter
import DocFlow.Proofs.Declaration.Qualifier
import DocFlow.Proofs.TypeExpr.ArraySpelling
import DocFlow.Proofs.TypeExpr.Renaming
import DocFlow.Proofs.Declaration.Retargeting
import DocFlow.Proofs.Literal.Integer
import DocFlow.Proofs.Literal.CodeUnit
import DocFlow.Proofs.Literal.StringLiteral
import DocFlow.Proofs.Declaration.PropertyKey
import DocFlow.Proofs.Comment.Margin
import DocFlow.Proofs.TypeExpr.Lossless
import DocFlow.Proofs.Declaration.InPlace
import DocFlow.Proofs.Declaration.LineReference
import DocFlow.Proofs.Literal.Printable
import DocFlow.Proofs.Declaration.Nesting
import DocFlow.Proofs.Declaration.Indentation
import DocFlow.Proofs.Comment.TagStart
import DocFlow.Proofs.Script.DocumentOrder
