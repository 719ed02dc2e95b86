import DocTree.Arena.Basic
import DocTree.Arena.Cloning
import DocTree.Arena.Edit
import DocTree.Arena.Insertion
import DocTree.Arena.Navigation
import DocTree.Arena.Walk
import DocTree.Arena.Worklist
import DocTree.Attribute.Store
import DocTree.Attribute.Value
import DocTree.Error
import DocTree.Json.Basic
import DocTree.Json.Number
import DocTree.Json.Reader
import DocTree.Markup.Format
import DocTree.Markup.Path
import DocTree.Markup.Serializer
import DocTree.Node
import DocTree.Number.Binary64
import DocTree.Number.Integer
import DocTree.Number.Shortest
import DocTree.Query
import DocTree.Selector.Basic
import DocTree.Selector.Builder
import DocTree.Selector.Listing
import DocTree.Selector.Matching
import DocTree.Selector.Nesting
import DocTree.Selector.Nth
import DocTree.Selector.Parser
import DocTree.Text.Blank
import DocTree.Text.Entity
import DocTree.Text.Graphic
import DocTree.Text.Letter
import DocTree.Text.Quoted
import DocTree.Proofs.Arena.Mapping
import DocTree.Proofs.Arena.Forest
import DocTree.Proofs.Arena.Navigation
import DocTree.Proofs.Arena.Subtree
import DocTree.Proofs.Arena.WellFormed
import DocTree.Proofs.Arena.InPlace
import DocTree.Proofs.Arena.Linking
import DocTree.Proofs.Edit.Basic
import DocTree.Proofs.Arena.Moving
import DocTree.Proofs.Edit.Admission
import DocTree.Proofs.Edit.Insertion
import DocTree.Proofs.Edit.Bulk
import DocTree.Proofs.Arena.Copying
import DocTree.Proofs.Edit.Cloning
import DocTree.Proofs.Edit.Operation
import DocTree.Proofs.Arena.Siblings
import DocTree.Proofs.Selector.Meaning
import DocTree.Proofs.Selector.Selection
import DocTree.Proofs.Number.Decimal
import DocTree.Proofs.Selector.Argument
import DocTree.Proofs.Selector.Progression
import DocTree.Proofs.Selector.Reading
import DocTree.Proofs.Selector.Queries
import DocTree.Proofs.Markup.Path
import DocTree.Proofs.Selector.Rows
import DocTree.Proofs.Selector.Builder
import DocTree.Proofs.Selector.Unremembered
import DocTree.Proofs.Text.Trim
import DocTree.Proofs.Text.Letter
import DocTree.Proofs.Selector.Backward
import DocTree.Proofs.Selector.Shape
import DocTree.Proofs.Selector.Forward
import DocTree.Proofs.Selector.Written
import DocTree.Proofs.Selector.Parts
import DocTree.Proofs.Selector.Accepted
import DocTree.Proofs.Selector.Printed
import DocTree.Proofs.Selector.RoundTrip
import DocTree.Proofs.Failure.Basic
import DocTree.Proofs.Failure.Edits
import DocTree.Proofs.Failure.Queries
import DocTree.Proofs.Failure.Dangling
import DocTree.Proofs.Arena.Owners
import DocTree.Proofs.Edit.Reached
import DocTree.Proofs.Arena.Likeness
import DocTree.Proofs.Arena.Mirror
import DocTree.Proofs.Attribute.Agreement
import DocTree.Proofs.Edit.Cloned
import DocTree.Proofs.Edit.Placement
import DocTree.Proofs.Text.Entity
import DocTree.Proofs.Markup.Outline
import DocTree.Proofs.Markup.Decoding
import DocTree.Proofs.Arena.Gathering
import DocTree.Proofs.Edit.Gathering
import DocTree.Proofs.Edit.Numbering
import DocTree.Proofs.Arena.Equality
import DocTree.Proofs.Markup.Recursion
import DocTree.Proofs.Markup.Zeros
import DocTree.Proofs.Selector.Classes
import DocTree.Proofs.Arena.Bare
import DocTree.Proofs.Selector.Uncommented
import DocTree.Proofs.Edit.Remarks
import DocTree.Proofs.Selector.OnlyChild
import DocTree.Proofs.Selector.Groups
import DocTree.Proofs.Selector.Comma
import DocTree.Proofs.Arena.Lowered
import DocTree.Proofs.Selector.LetterCase
import DocTree.Proofs.Failure.Answers
import DocTree.Proofs.Edit.Release
import DocTree.Proofs.Arena.Stepping
import DocTree.Proofs.Arena.Visits
import DocTree.Proofs.Edit.Adoption
import DocTree.Proofs.Edit.Undoing
import DocTree.Proofs.Json.Printed
import DocTree.Proofs.Attribute.Json
import DocTree.Proofs.Markup.Format
import DocTree.Proofs.Selector.Places
import DocTree.Proofs.Selector.Bytes
import DocTree.Proofs.Text.Slice
import DocTree.Proofs.Selector.Cuts
import DocTree.Proofs.Selector.Sliced
import DocTree.Proofs.Attribute.Table
import DocTree.Proofs.Attribute.Orders
import DocTree.Proofs.Attribute.History
