import TapeTree.Document.Reader
import TapeTree.Machine.Ends
import TapeTree.Machine.Flat
import TapeTree.Main
import TapeTree.Optimize.Normal
import TapeTree.Optimize.Skeleton
import TapeTree.Tree.Source
import TapeTree.Proofs.Machine.Runs
import TapeTree.Proofs.Machine.Tape
import TapeTree.Proofs.Machine.Coupling
import TapeTree.Proofs.Machine.Following
import TapeTree.Proofs.Machine.Silent
import TapeTree.Proofs.Optimize.Prepaid
import TapeTree.Proofs.Optimize.Rules
import TapeTree.Proofs.Optimize.Forms
import TapeTree.Proofs.Optimize.Sound
import TapeTree.Proofs.Tree.Reading
import TapeTree.Proofs.Tree.Grammar
import TapeTree.Proofs.Machine.Partners
import TapeTree.Proofs.Machine.Flat
import TapeTree.Proofs.Machine.Refinement
import TapeTree.Proofs.Optimize.Rewriting
import TapeTree.Proofs.Optimize.Settling
import TapeTree.Proofs.Optimize.Shapes
import TapeTree.Proofs.Machine.Unnoticed
import TapeTree.Proofs.Optimize.Cost
import TapeTree.Proofs.Machine.Restoring
import TapeTree.Proofs.Optimize.Termination
import TapeTree.Proofs.Machine.Sessions
import TapeTree.Proofs.Machine.Limits
import TapeTree.Proofs.Machine.Snapshot
import TapeTree.Proofs.Machine.Halts
import TapeTree.Proofs.Machine.Failures
import TapeTree.Proofs.Tree.Places
import TapeTree.Proofs.Optimize.Residue
import TapeTree.Proofs.Optimize.Unchanged
import TapeTree.Proofs.Optimize.NormalForms
import TapeTree.Proofs.Optimize.NestedPairs
import TapeTree.Proofs.Optimize.Linking
import TapeTree.Proofs.Optimize.Iterating
import TapeTree.Proofs.Optimize.Tidy
import TapeTree.Proofs.Optimize.Transfers
import TapeTree.Proofs.Optimize.Accumulating
import TapeTree.Proofs.Optimize.Skeleton
import TapeTree.Proofs.Machine.Pieces
import TapeTree.Proofs.Text.Reading
import TapeTree.Proofs.CommandLine.TapeRows
import TapeTree.Proofs.CommandLine.Reports
import TapeTree.Proofs.Tree.Resuming
import TapeTree.Proofs.Tree.Comments
import TapeTree.Proofs.Diagnostic.Carets
import TapeTree.Proofs.Diagnostic.Window
import TapeTree.Proofs.Token.Indices
import TapeTree.Proofs.Document.RoundTrip
import TapeTree.Proofs.Machine.Shifting
import TapeTree.Proofs.Machine.Unread
import TapeTree.Proofs.Machine.Usage
import TapeTree.Proofs.Machine.NodeCounts
import TapeTree.Proofs.Text.LineEnds
