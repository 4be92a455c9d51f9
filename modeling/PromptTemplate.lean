import PromptTemplate.Json.Reader
import PromptTemplate.Expr.EachHeader
import PromptTemplate.Expr.Json
import PromptTemplate.Expr.Evaluation
import PromptTemplate.Message.Json
import PromptTemplate.Text.Indent
import PromptTemplate.Template.Json
import PromptTemplate.Chain
import PromptTemplate.Metadata
import PromptTemplate.Proofs.Scope.Session
import PromptTemplate.Proofs.Chain.Seamless
import PromptTemplate.Proofs.Chain.Parameters
import PromptTemplate.Proofs.Expr.Inverse
import PromptTemplate.Proofs.Chain.Protocol
import PromptTemplate.Proofs.Compilation.Telling
import PromptTemplate.Proofs.Metadata.Ways
import PromptTemplate.Proofs.Expr.Effects
import PromptTemplate.Proofs.Expr.Compound
import PromptTemplate.Proofs.Expr.Parentheses
import PromptTemplate.Proofs.Expr.Kinds
import PromptTemplate.Proofs.Metadata.Clean
import PromptTemplate.Proofs.Metadata.Inlining
import PromptTemplate.Proofs.Metadata.Reported
import PromptTemplate.Proofs.Chain.Leaking
import PromptTemplate.Proofs.Chain.Shapes
import PromptTemplate.Proofs.Compilation.Blocks
import PromptTemplate.Proofs.Template.Spans
import PromptTemplate.Proofs.Compilation.Storage
import PromptTemplate.Proofs.Template.Standalone
import PromptTemplate.Proofs.Offsets.Templates
import PromptTemplate.Proofs.Token.Printing
import PromptTemplate.Proofs.Template.Escaping
import PromptTemplate.Proofs.Chain.Comments
import PromptTemplate.Proofs.Expr.EachHeader
import PromptTemplate.Proofs.Number.Conversion
import PromptTemplate.Proofs.Value.Equality
import PromptTemplate.Proofs.Value.JsonText
import PromptTemplate.Proofs.Metadata.Paths
import PromptTemplate.Proofs.Metadata.Splicing
import PromptTemplate.Proofs.Compilation.Places
import PromptTemplate.Proofs.Template.LeftOpen
import PromptTemplate.Proofs.Text.Indent
