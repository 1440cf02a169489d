import MarkupTemplate.Inspection
import MarkupTemplate.Template.Draft
import MarkupTemplate.Proofs.NodeSets
import MarkupTemplate.Proofs.Tokens
import MarkupTemplate.Proofs.Precedence
import MarkupTemplate.Proofs.Paths
import MarkupTemplate.Proofs.Printing
import MarkupTemplate.Proofs.BranchExpr
import MarkupTemplate.Proofs.BranchReading
import MarkupTemplate.Proofs.Safety
import MarkupTemplate.Proofs.Validation
import MarkupTemplate.Proofs.Counts
import MarkupTemplate.Proofs.Patterns
import MarkupTemplate.Proofs.Scanning
import MarkupTemplate.Proofs.PatternReading
import MarkupTemplate.Proofs.Words
import MarkupTemplate.Proofs.Steps
import MarkupTemplate.Proofs.Matching
import MarkupTemplate.Proofs.Runs
import MarkupTemplate.Proofs.Strictness
import MarkupTemplate.Proofs.Reports
import MarkupTemplate.Proofs.Entries
import MarkupTemplate.Proofs.Marks
import MarkupTemplate.Proofs.Forests
import MarkupTemplate.Proofs.Identities
import MarkupTemplate.Proofs.Plans
import MarkupTemplate.Proofs.Copies
import MarkupTemplate.Proofs.ListFilling
import MarkupTemplate.Proofs.Links
import MarkupTemplate.Proofs.Building
import MarkupTemplate.Proofs.Modes
import MarkupTemplate.Proofs.Levels
import MarkupTemplate.Proofs.Reworking
import MarkupTemplate.Proofs.Slots
import MarkupTemplate.Proofs.TextFilling
import MarkupTemplate.Proofs.Renaming
import MarkupTemplate.Proofs.Compositions
import MarkupTemplate.Proofs.Retries
import MarkupTemplate.Proofs.Failures
import MarkupTemplate.Proofs.Writing
import MarkupTemplate.Proofs.SecondPass
import MarkupTemplate.Proofs.CacheRuns
import MarkupTemplate.Proofs.Assignments
import MarkupTemplate.Proofs.Enclosed
import MarkupTemplate.Proofs.Locality
import MarkupTemplate.Proofs.Extensions
import MarkupTemplate.Proofs.Positions
import MarkupTemplate.Proofs.NodePaths
import MarkupTemplate.Proofs.Contexts
import MarkupTemplate.Proofs.Scoping
import MarkupTemplate.Proofs.Integers
import MarkupTemplate.Proofs.Formulas
import MarkupTemplate.Proofs.Deciding
import MarkupTemplate.Proofs.AttributeTests
import MarkupTemplate.Proofs.Siblings
import MarkupTemplate.Proofs.Compounds
import MarkupTemplate.Proofs.Spellings
import MarkupTemplate.Proofs.Selections
import MarkupTemplate.Proofs.AttributeBlocks
import MarkupTemplate.Proofs.WordSelectors
import MarkupTemplate.Proofs.Walks
import MarkupTemplate.Proofs.Kinship
import MarkupTemplate.Proofs.AttributeAxes
import MarkupTemplate.Proofs.Literals
import MarkupTemplate.Proofs.Homes
import MarkupTemplate.Proofs.Locations
import MarkupTemplate.Proofs.Clones
import MarkupTemplate.Proofs.WorkingLists
import MarkupTemplate.Proofs.Alignment
import MarkupTemplate.Proofs.DirectiveOrder
import MarkupTemplate.Proofs.Rows
import MarkupTemplate.Proofs.Moves
import MarkupTemplate.Proofs.NewNodes
import MarkupTemplate.Proofs.TreeEdits
import MarkupTemplate.Proofs.AttributeValues
import MarkupTemplate.Proofs.InsertedMarkup
import MarkupTemplate.Proofs.LocationTexts
import MarkupTemplate.Proofs.Fragments
import MarkupTemplate.Proofs.DirectiveKeys
import MarkupTemplate.Proofs.Vocabulary
import MarkupTemplate.Proofs.Nesting
import MarkupTemplate.Proofs.StrategyNames
import MarkupTemplate.Proofs.Comparisons
import MarkupTemplate.Proofs.Detection
import MarkupTemplate.Proofs.BranchParts
import MarkupTemplate.Proofs.SelectorLists
