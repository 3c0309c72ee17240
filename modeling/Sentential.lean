import Sentential.Main
import Sentential.Formula.Order
import Sentential.Report
import Sentential.Proofs.Grammar
import Sentential.Proofs.Scanning
import Sentential.Proofs.Moves
import Sentential.Proofs.Reading
import Sentential.Proofs.Spacing
import Sentential.Proofs.Drafts
import Sentential.Proofs.Printing
import Sentential.Proofs.Paths
import Sentential.Proofs.Fragments
import Sentential.Proofs.Matching
import Sentential.Proofs.Extensions
import Sentential.Proofs.Arrangements
import Sentential.Proofs.Nodes
import Sentential.Proofs.Columns
import Sentential.Proofs.Rows
import Sentential.Proofs.Joining
import Sentential.Proofs.Tables
import Sentential.Proofs.Arguments
import Sentential.Proofs.Validity
import Sentential.Proofs.Selections
import Sentential.Proofs.Agreement
import Sentential.Proofs.Replacement
import Sentential.Proofs.Texts
import Sentential.Proofs.Reversal
import Sentential.Proofs.Lines
import Sentential.Proofs.Edits
import Sentential.Proofs.Runs
import Sentential.Proofs.Citations
import Sentential.Proofs.Soundness
import Sentential.Proofs.Faults
import Sentential.Proofs.Parts
import Sentential.Proofs.Descent
import Sentential.Proofs.Layout
import Sentential.Proofs.Typesetting
import Sentential.Proofs.Comparisons
import Sentential.Proofs.Requests
import Sentential.Proofs.Removals
import Sentential.Proofs.Commands
import Sentential.Proofs.Limits
import Sentential.Proofs.Kinds
import Sentential.Proofs.Headers
import Sentential.Proofs.Splicing
import Sentential.Proofs.Rendering
import Sentential.Proofs.Accounts
import Sentential.Proofs.Enumeration
import Sentential.Proofs.Filling
