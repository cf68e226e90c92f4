import TypeScribe.Graph.Survey
import TypeScribe.Main
import TypeScribe.Proofs.Spelling
import TypeScribe.Proofs.Whole
import TypeScribe.Proofs.Tracking
import TypeScribe.Proofs.Conversion
import TypeScribe.Proofs.Reading
import TypeScribe.Proofs.Construction
import TypeScribe.Proofs.Course
import TypeScribe.Proofs.Recursion
import TypeScribe.Proofs.Emission
import TypeScribe.Proofs.Unfinished
import TypeScribe.Proofs.Syntax
import TypeScribe.Proofs.Wording
import TypeScribe.Proofs.Closure
import TypeScribe.Proofs.Together
import TypeScribe.Proofs.Resolving
import TypeScribe.Proofs.Labels
import TypeScribe.Proofs.Loading
import TypeScribe.Proofs.Depth
import TypeScribe.Proofs.Pieces
import TypeScribe.Proofs.Shelves
import TypeScribe.Proofs.Ending
import TypeScribe.Proofs.Characters
import TypeScribe.Proofs.Literals
import TypeScribe.Proofs.Tokens
import TypeScribe.Proofs.Yield
import TypeScribe.Proofs.Acceptance
import TypeScribe.Proofs.FullLines
import TypeScribe.Proofs.Sentences
import TypeScribe.Proofs.Appending
import TypeScribe.Proofs.Names
import TypeScribe.Proofs.Diary
import TypeScribe.Proofs.History
import TypeScribe.Proofs.Chronicle
import TypeScribe.Proofs.Keys
import TypeScribe.Proofs.Causes
import TypeScribe.Proofs.Titles
import TypeScribe.Proofs.Roots
import TypeScribe.Proofs.Budget
import TypeScribe.Proofs.Keywords
import TypeScribe.Proofs.Annotations
import TypeScribe.Proofs.Nulls
import TypeScribe.Proofs.Pairing
import TypeScribe.Proofs.Alignment
import TypeScribe.Proofs.Padding
import TypeScribe.Proofs.Writing
import TypeScribe.Proofs.Steering
import TypeScribe.Proofs.Runs
import TypeScribe.Proofs.Raising
import TypeScribe.Proofs.Repeating
import TypeScribe.Proofs.Senses
import TypeScribe.Proofs.Operands
import TypeScribe.Proofs.Circles
import TypeScribe.Proofs.PropertyNames
import TypeScribe.Proofs.Elements
import TypeScribe.Proofs.References
import TypeScribe.Proofs.Printing
import TypeScribe.Proofs.Words
import TypeScribe.Proofs.Identifiers
import TypeScribe.Proofs.Staging
import TypeScribe.Proofs.Atomicity
import TypeScribe.Proofs.Headings
import TypeScribe.Proofs.Commenting
import TypeScribe.Proofs.Recall
import TypeScribe.Proofs.Detours
import TypeScribe.Proofs.Versions
