import XmlTemplate.Main
import XmlTemplate.Proofs.Render.Step
import XmlTemplate.Proofs.Render.Growth
import XmlTemplate.Proofs.Slot.Layout
import XmlTemplate.Proofs.Render.Drawing
import XmlTemplate.Proofs.Render.Correspondence
import XmlTemplate.Proofs.Render.Splice
import XmlTemplate.Proofs.Expr.Extent
import XmlTemplate.Proofs.Expr.Bracket
import XmlTemplate.Proofs.Expr.Grammar
import XmlTemplate.Proofs.Expr.Parse
import XmlTemplate.Proofs.Expr.Printer
import XmlTemplate.Proofs.Expr.Reading
import XmlTemplate.Proofs.Expr.RoundTrip
import XmlTemplate.Proofs.Json.ReadBack
import XmlTemplate.Proofs.Expr.Stored
import XmlTemplate.Proofs.Template.Stored
import XmlTemplate.Proofs.Template.Numbers
import XmlTemplate.Proofs.Dictionary.Stored
import XmlTemplate.Proofs.Cache.Payload
import XmlTemplate.Proofs.Files.Segment
import XmlTemplate.Proofs.Files.Way
import XmlTemplate.Proofs.Cache.Place
import XmlTemplate.Proofs.Cache.Run
import XmlTemplate.Proofs.Render.Consult
import XmlTemplate.Proofs.Engine.Learn
import XmlTemplate.Proofs.Workspace.History
import XmlTemplate.Proofs.Path
import XmlTemplate.Proofs.Render.Loads
import XmlTemplate.Proofs.Engine.Find
import XmlTemplate.Proofs.Engine.Coherence
import XmlTemplate.Proofs.Template.Tree
import XmlTemplate.Proofs.Expr.Pair
import XmlTemplate.Proofs.Fault
import XmlTemplate.Proofs.Function.BuiltIn
import XmlTemplate.Proofs.Engine.Asked
import XmlTemplate.Proofs.Engine.Steady
import XmlTemplate.Proofs.Engine.Overlook
import XmlTemplate.Proofs.Render.Lockstep
import XmlTemplate.Proofs.Render.Depth
import XmlTemplate.Proofs.Render.Simulation
import XmlTemplate.Proofs.Render.Alone
import XmlTemplate.Proofs.Render.Order
import XmlTemplate.Proofs.Render.Termination
import XmlTemplate.Proofs.Template.Matching
import XmlTemplate.Proofs.Render.Attachment
import XmlTemplate.Proofs.Render.Joint
import XmlTemplate.Proofs.Render.Abreast
import XmlTemplate.Proofs.Render.Inclusion
import XmlTemplate.Proofs.Render.Recall
import XmlTemplate.Proofs.Render.Overlay
import XmlTemplate.Proofs.Render.Inert
import XmlTemplate.Proofs.Render.Call
import XmlTemplate.Proofs.Render.Reached
import XmlTemplate.Proofs.Text.Entity
import XmlTemplate.Proofs.Markup.Single
import XmlTemplate.Proofs.Render.Standalone
import XmlTemplate.Proofs.Template.Search
import XmlTemplate.Proofs.Render.Quotes
import XmlTemplate.Proofs.Render.Anew
import XmlTemplate.Proofs.Render.Oblivious
import XmlTemplate.Proofs.Engine.Answers
import XmlTemplate.Proofs.Template.Names
import XmlTemplate.Proofs.Render.Names
import XmlTemplate.Proofs.Render.Retold
import XmlTemplate.Proofs.Template.Rename
import XmlTemplate.Proofs.Engine.Prefix
import XmlTemplate.Proofs.Render.Nested
import XmlTemplate.Proofs.Render.Walk
import XmlTemplate.Proofs.Expr.Enclosed
import XmlTemplate.Proofs.Expr.Byte
import XmlTemplate.Proofs.Expr.Place
import XmlTemplate.Proofs.Template.Accepted
import XmlTemplate.Proofs.Render.Interpolation
import XmlTemplate.Proofs.Render.Escaped
import XmlTemplate.Proofs.Render.Placeholder
import XmlTemplate.Proofs.Markup.Opening
import XmlTemplate.Proofs.Render.Plain
import XmlTemplate.Proofs.Render.Translation
import XmlTemplate.Proofs.Render.Mounting
import XmlTemplate.Proofs.Value.Comparison
import XmlTemplate.Proofs.Function.Substring
import XmlTemplate.Proofs.Number.Grammar
import XmlTemplate.Proofs.Render.Arithmetic
import XmlTemplate.Proofs.Value.Difference
import XmlTemplate.Proofs.Dictionary.FirstWins
import XmlTemplate.Proofs.Dictionary.Occurrences
import XmlTemplate.Proofs.Markup.Spelling
import XmlTemplate.Proofs.Markup.Line
import XmlTemplate.Proofs.Markup.ReadBack
import XmlTemplate.Proofs.Markup.Written
import XmlTemplate.Proofs.Path.Depth
import XmlTemplate.Proofs.Path.Extension
import XmlTemplate.Proofs.Files.Agree
import XmlTemplate.Proofs.Files.Descent
import XmlTemplate.Proofs.Calendar.Specifier
import XmlTemplate.Proofs.Workspace.Check
import XmlTemplate.Proofs.Render.Confined
import XmlTemplate.Proofs.Dictionary.History
import XmlTemplate.Proofs.Value.Json
