import Repeater.Text.Blank
import Repeater.Text.Bytes
import Repeater.Text.Decimal
import Repeater.Text.Letter
import Repeater.Text.Literal
import Repeater.Text.LowerCase
import Repeater.Text.Split
import Repeater.Text.WordChar
import Repeater.Dom.Copy
import Repeater.Dom.Document
import Repeater.Event.Listeners
import Repeater.Vocabulary
import Repeater.Error
import Repeater.Host
import Repeater.Hook.Registered
import Repeater.Hook.Program
import Repeater.Hook.Run
import Repeater.Stamp.Marks
import Repeater.Config
import Repeater.Scope.Items
import Repeater.Page
import Repeater.Json.Settings
import Repeater.Markup.Printer
import Repeater.Markup.ParseTree
import Repeater.Markup.Construct
import Repeater.Command.Render
import Repeater.Main
import Repeater.Proofs.Run
import Repeater.Proofs.Dom.Nodes
import Repeater.Proofs.Dom.WellFormed
import Repeater.Proofs.Dom.Walks
import Repeater.Proofs.Dom.Edits
import Repeater.Proofs.Dom.Nesting
import Repeater.Proofs.Dom.Shapes
import Repeater.Proofs.Dom.Steady
import Repeater.Proofs.Dom.Copies
import Repeater.Proofs.Dom.Operations
import Repeater.Proofs.Stamp.Sequences
import Repeater.Proofs.Stamp.IndexMarks
import Repeater.Proofs.Stamp.Index
import Repeater.Proofs.Stamp.Drafts
import Repeater.Proofs.Stamp.Display
import Repeater.Proofs.Stamp.Seeding
import Repeater.Proofs.Stamp.Exposure
import Repeater.Proofs.Hook.Effects
import Repeater.Proofs.Scope.Flows
import Repeater.Proofs.Scope.Adding
import Repeater.Proofs.Scope.Inserting
import Repeater.Proofs.Scope.Deleting
import Repeater.Proofs.Scope.Starting
import Repeater.Proofs.Scope.Outcomes
import Repeater.Proofs.Page.Wiring
import Repeater.Proofs.Page.Keeping
import Repeater.Proofs.Page.Runs
import Repeater.Proofs.Page.Failures
import Repeater.Proofs.Page.Deeds
import Repeater.Proofs.Page.Ledger
import Repeater.Proofs.Page.FirstStart
import Repeater.Proofs.Dom.Documents
import Repeater.Proofs.Dom.Links
import Repeater.Proofs.Dom.LinkedEdits
import Repeater.Proofs.Dom.Templates
import Repeater.Proofs.Dom.Construction
import Repeater.Proofs.Dom.Insertions
import Repeater.Proofs.Dom.Placements
import Repeater.Proofs.Dom.Tops
import Repeater.Proofs.Page.Refusals
import Repeater.Proofs.Dom.Lasting
import Repeater.Proofs.Scope.Lasting
import Repeater.Proofs.Page.Bystanders
import Repeater.Proofs.Dom.Isomorphisms
import Repeater.Proofs.Markup.Printing
import Repeater.Proofs.Stamp.Substitution
import Repeater.Proofs.Hook.Grammar
import Repeater.Proofs.Scope.Bindings
import Repeater.Proofs.Scope.Removing
import Repeater.Proofs.Page.Restarts
import Repeater.Proofs.Page.Deletions
import Repeater.Proofs.Scope.Courses
import Repeater.Proofs.Scope.Rewiring
import Repeater.Proofs.Page.Rewiring
import Repeater.Proofs.Hook.Denied
import Repeater.Proofs.Page.Callbacks
import Repeater.Proofs.Markup.Pictures
import Repeater.Proofs.Markup.ReadingBack
import Repeater.Proofs.Markup.Planting
import Repeater.Proofs.Page.Removals
import Repeater.Proofs.Hook.Footprint
import Repeater.Proofs.Scope.LeavingOthers
import Repeater.Proofs.Page.Neighbours
import Repeater.Proofs.Dom.Selections
import Repeater.Proofs.Dom.Steps
import Repeater.Proofs.Stamp.Texts
import Repeater.Proofs.Stamp.Making
import Repeater.Proofs.Scope.DataAdditions
import Repeater.Proofs.Scope.Editing
import Repeater.Proofs.Page.Upkeep
import Repeater.Proofs.Page.DataAdditions
import Repeater.Proofs.Scope.Plans
import Repeater.Proofs.Scope.PlainAdditions
import Repeater.Proofs.Scope.Laden
import Repeater.Proofs.Page.Growing
import Repeater.Proofs.Page.Additions
import Repeater.Proofs.Page.Orders
import Repeater.Event.Buckets
import Repeater.Proofs.Event.Buckets
import Repeater.Proofs.Markup.Layout
import Repeater.Proofs.Markup.Frames
import Repeater.Proofs.Stamp.Slots
import Repeater.Proofs.Scope.Filling
import Repeater.Proofs.Page.Fillings
import Repeater.Proofs.Stamp.Numbering
import Repeater.Proofs.Stamp.Passes
import Repeater.Proofs.Scope.Controls
import Repeater.Proofs.Page.Controls
import Repeater.Proofs.Dom.Traversals
import Repeater.Proofs.Stamp.Replacements
import Repeater.Proofs.Stamp.SlotOrder
import Repeater.Proofs.Hook.Places
import Repeater.Proofs.Hook.Blame
import Repeater.Proofs.Hook.Integers
import Repeater.Proofs.Hook.Sums
import Repeater.Proofs.Dom.WrittenSelectors
import Repeater.Proofs.Dom.TagCase
import Repeater.Proofs.Dom.TextContent
import Repeater.Proofs.Text.Words
import Repeater.Proofs.Hook.Classes
import Repeater.Proofs.Command.Steps
import Repeater.Proofs.Command.Occurrences
import Repeater.Proofs.Command.Reading
import Repeater.Proofs.Markup.VisibleTexts
import Repeater.Hook.Positions
import Repeater.Proofs.Text.Boundaries
import Repeater.Proofs.Hook.Readings
import Repeater.Proofs.Hook.ByByte
import Repeater.Proofs.Hook.ByIndex
import Repeater.Proofs.Hook.Bounds
