import TerseStyle.File.Tree
import TerseStyle.Main
import TerseStyle.Proofs.Inlining
import TerseStyle.Proofs.Resolved
import TerseStyle.Proofs.Place
import TerseStyle.Proofs.PlainBody
import TerseStyle.Proofs.VariableName
import TerseStyle.Proofs.Block
import TerseStyle.Proofs.Layout
import TerseStyle.Proofs.Rendering
import TerseStyle.Proofs.Hoisting
import TerseStyle.Proofs.PlainClass
import TerseStyle.Proofs.Context
import TerseStyle.Proofs.Closure
import TerseStyle.Proofs.Printing
import TerseStyle.Proofs.Concatenation
import TerseStyle.Proofs.Grammar
import TerseStyle.Proofs.Agreement
import TerseStyle.Proofs.Animation
import TerseStyle.Proofs.Splitting
import TerseStyle.Proofs.BracketGroup
import TerseStyle.Proofs.QueryText
import TerseStyle.Proofs.Draining
import TerseStyle.Proofs.Merging
import TerseStyle.Proofs.Reordering
import TerseStyle.Proofs.Isolation
import TerseStyle.Proofs.Brace
import TerseStyle.Proofs.ErrorLine
import TerseStyle.Proofs.Wrapping
import TerseStyle.Proofs.NestedCall
import TerseStyle.Proofs.Descendant
import TerseStyle.Proofs.QuotedString
import TerseStyle.Proofs.Content
import TerseStyle.Proofs.Reserved
import TerseStyle.Proofs.Segment
import TerseStyle.Proofs.Reflow
