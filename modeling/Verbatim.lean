import Verbatim.Green.Assembly
import Verbatim.Main
import Verbatim.Database
import Verbatim.Parse.Incremental
import Verbatim.Position.Cursor
import Verbatim.Position.Walk
import Verbatim.Typed.Fields
import Verbatim.Typed.Leaf
import Verbatim.Typed.Mandatory
import Verbatim.Proofs.Edits
import Verbatim.Proofs.Trivia
import Verbatim.Proofs.Collection
import Verbatim.Proofs.Anchors
import Verbatim.Proofs.Braces
import Verbatim.Proofs.Fragments
import Verbatim.Proofs.Composition
import Verbatim.Proofs.Precedence
import Verbatim.Proofs.Tiling
import Verbatim.Proofs.Navigation
import Verbatim.Proofs.Resolution
import Verbatim.Proofs.Accessors
import Verbatim.Proofs.Holes
import Verbatim.Proofs.Blocks
import Verbatim.Proofs.Diagnosis
import Verbatim.Proofs.Order
import Verbatim.Proofs.Skipping
import Verbatim.Proofs.Balance
import Verbatim.Proofs.Calls
import Verbatim.Proofs.Placement
import Verbatim.Proofs.Punctuation
import Verbatim.Proofs.StatementLists
import Verbatim.Proofs.Replacing
import Verbatim.Proofs.Assembling
import Verbatim.Proofs.Checkpoints
import Verbatim.Proofs.Integers
import Verbatim.Proofs.Scanning
import Verbatim.Proofs.Searching
import Verbatim.Proofs.Terminators
import Verbatim.Proofs.Walking
