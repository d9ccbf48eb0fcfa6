import Pseudocode.CommandLine.Report
import Pseudocode.Compilation
import Pseudocode.Listing
import Pseudocode.Main
import Pseudocode.Settings
import Pseudocode.Proofs.Acceptance
import Pseudocode.Proofs.Zones
import Pseudocode.Proofs.Context
import Pseudocode.Proofs.Composition
import Pseudocode.Proofs.Words
import Pseudocode.Proofs.Provenance
import Pseudocode.Proofs.Replacement
import Pseudocode.Proofs.OutputLines
import Pseudocode.Proofs.Braces
import Pseudocode.Proofs.Indentation
import Pseudocode.Proofs.PythonLines
import Pseudocode.Proofs.PythonOutput
import Pseudocode.Proofs.Branches
import Pseudocode.Proofs.PythonBodies
import Pseudocode.Proofs.History
import Pseudocode.Proofs.Lockstep
import Pseudocode.Proofs.Delimiters
import Pseudocode.Proofs.Partners
import Pseudocode.Proofs.Hoisting
import Pseudocode.Proofs.Diagnostics
import Pseudocode.Proofs.Enclosure
import Pseudocode.Proofs.Separators
import Pseudocode.Proofs.Spacing
import Pseudocode.Proofs.Keywords
import Pseudocode.Proofs.Fillers
import Pseudocode.Proofs.Calls
import Pseudocode.Proofs.Imports
import Pseudocode.Proofs.Window
import Pseudocode.Proofs.Unwords
import Pseudocode.Proofs.Partition
import Pseudocode.Proofs.Terminators
import Pseudocode.Proofs.Parameters
import Pseudocode.Proofs.Levels
import Pseudocode.Proofs.Renaming
import Pseudocode.Proofs.Arguments
import Pseudocode.Proofs.Commands
import Pseudocode.Proofs.Conditions
import Pseudocode.Proofs.Literals
