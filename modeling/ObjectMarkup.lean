import ObjectMarkup.Text.Blank
import ObjectMarkup.Text.Place
import ObjectMarkup.Text.Quoted
import ObjectMarkup.Text.Scan
import ObjectMarkup.Number.Shortest
import ObjectMarkup.Number.Whole
import ObjectMarkup.Value.Literal
import ObjectMarkup.Markup.Name
import ObjectMarkup.Markup.Reader
import ObjectMarkup.Expression.Parse
import ObjectMarkup.Vocabulary.Scope
import ObjectMarkup.Document
import ObjectMarkup.Record.Behavior
import ObjectMarkup.Record.TypeSpec
import ObjectMarkup.Proofs.Operation
import ObjectMarkup.Proofs.Interpretation
import ObjectMarkup.Proofs.Recursion
import ObjectMarkup.Proofs.Assembling
import ObjectMarkup.Proofs.AssemblySteps
import ObjectMarkup.Proofs.Ledger
import ObjectMarkup.Proofs.ObjectTree
import ObjectMarkup.Proofs.Outline
import ObjectMarkup.Proofs.TraceInvariant
import ObjectMarkup.Proofs.Trace
import ObjectMarkup.Proofs.Elements
import ObjectMarkup.Proofs.Compiled
import ObjectMarkup.Proofs.Texts
import ObjectMarkup.Proofs.Settlement
import ObjectMarkup.Proofs.Honesty
import ObjectMarkup.Proofs.Failing
import ObjectMarkup.Proofs.Release
import ObjectMarkup.Proofs.Stability
import ObjectMarkup.Proofs.References
import ObjectMarkup.Proofs.Expressions
import ObjectMarkup.Proofs.StepObligations
import ObjectMarkup.Proofs.RunInvariants
import ObjectMarkup.Proofs.CoarseObligations
import ObjectMarkup.Proofs.Finality
import ObjectMarkup.Proofs.Names
import ObjectMarkup.Proofs.NameResolution
import ObjectMarkup.Proofs.Nesting
import ObjectMarkup.Proofs.Declared
import ObjectMarkup.Proofs.Unresolved
import ObjectMarkup.Proofs.Scanning
import ObjectMarkup.Proofs.Grammar
import ObjectMarkup.Proofs.Spelling
import ObjectMarkup.Proofs.Rendering
import ObjectMarkup.Proofs.Typing
import ObjectMarkup.Proofs.PropertyTags
import ObjectMarkup.Proofs.Reading
import ObjectMarkup.Proofs.CharacterReferences
import ObjectMarkup.Proofs.Guards
import ObjectMarkup.Proofs.Additions
import ObjectMarkup.Proofs.Growth
import ObjectMarkup.Proofs.QualifiedTags
import ObjectMarkup.Proofs.Placing
import ObjectMarkup.Proofs.Handles
import ObjectMarkup.Proofs.Grounding
import ObjectMarkup.Proofs.Declaring
import ObjectMarkup.Proofs.Classes
import ObjectMarkup.Proofs.Leniency
import ObjectMarkup.Proofs.WriteOrder
import ObjectMarkup.Proofs.ContentOrder
import ObjectMarkup.Proofs.Draining
import ObjectMarkup.Proofs.Lineages
import ObjectMarkup.Proofs.DataContexts
import ObjectMarkup.Proofs.PlainExpressions
import ObjectMarkup.Proofs.WaitingPlaces
import ObjectMarkup.Proofs.TextHistories
import ObjectMarkup.Proofs.NestedReferences
import ObjectMarkup.Proofs.Calls
import ObjectMarkup.Proofs.Assignment
import ObjectMarkup.Proofs.Repetition
import ObjectMarkup.Proofs.Permission
import ObjectMarkup.Proofs.Keys
import ObjectMarkup.Proofs.StartTags
import ObjectMarkup.Proofs.MapEntries
import ObjectMarkup.Proofs.Insertions
import ObjectMarkup.Proofs.Places
import ObjectMarkup.Proofs.TokenTiles
import ObjectMarkup.Proofs.Tiling
import ObjectMarkup.Proofs.Cursor
import ObjectMarkup.Proofs.Progress
import ObjectMarkup.Proofs.Misfits
