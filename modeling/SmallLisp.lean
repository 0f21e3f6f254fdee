import SmallLisp.Main
import SmallLisp.Scope.Tree
import SmallLisp.Proofs.Reading
import SmallLisp.Proofs.Alike
import SmallLisp.Proofs.Scoping
import SmallLisp.Proofs.Course
import SmallLisp.Proofs.Names
import SmallLisp.Proofs.Parameters
import SmallLisp.Proofs.Immutability
import SmallLisp.Proofs.Limits
import SmallLisp.Proofs.EmptyFrames
import SmallLisp.Proofs.Meaning
import SmallLisp.Proofs.Desugaring
import SmallLisp.Proofs.Dialogue
import SmallLisp.Proofs.Terms
import SmallLisp.Proofs.Unwinding
import SmallLisp.Proofs.Blame
import SmallLisp.Proofs.Surrogates
import SmallLisp.Proofs.Mapping
import SmallLisp.Proofs.Scanning
import SmallLisp.Proofs.Prefixes
import SmallLisp.Proofs.Printing
import SmallLisp.Proofs.Places
import SmallLisp.Proofs.Lasting
import SmallLisp.Proofs.Held
import SmallLisp.Proofs.Library
import SmallLisp.Proofs.Nodes
import SmallLisp.Proofs.Origins
import SmallLisp.Proofs.Utf8
import SmallLisp.Proofs.Comparison
import SmallLisp.Proofs.Relocation
import SmallLisp.Proofs.Concatenation
import SmallLisp.Proofs.Spacing
import SmallLisp.Proofs.Assertions
import SmallLisp.Proofs.Dispatch
import SmallLisp.Proofs.Rendering
import SmallLisp.Proofs.StringOrder
import SmallLisp.Proofs.Operands
import SmallLisp.Proofs.Sums
import SmallLisp.Proofs.Arithmetic
import SmallLisp.Proofs.Unmentioned
import SmallLisp.Proofs.Preorder
import SmallLisp.Proofs.Effects
import SmallLisp.Proofs.Outlines
import SmallLisp.Proofs.Histories
import SmallLisp.Proofs.Numerals
import SmallLisp.Proofs.Outcomes
import SmallLisp.Parser.Descent
import SmallLisp.Proofs.Lookahead
import SmallLisp.Proofs.Following
import SmallLisp.Proofs.Descents
import SmallLisp.Proofs.Termination
import SmallLisp.Proofs.Calls
