import MessagePattern.Arguments
import MessagePattern.Compact
import MessagePattern.Proofs.Braces
import MessagePattern.Proofs.CompactCases
import MessagePattern.Proofs.Coordinates
import MessagePattern.Proofs.NumberText
import MessagePattern.Proofs.PlainText
import MessagePattern.Proofs.Excerpts
import MessagePattern.Proofs.Introspected
import MessagePattern.Proofs.JsonDiagnostic
import MessagePattern.Proofs.Quoted
import MessagePattern.Proofs.StyleBounds
import MessagePattern.Proofs.TextTokens
import MessagePattern.Tree.Equality
