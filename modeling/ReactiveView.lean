import ReactiveView.Config
import ReactiveView.Program.Listing
import ReactiveView.Proofs.Artifacts.Provenance
import ReactiveView.Proofs.Compilation.Indistinguishable
import ReactiveView.Proofs.Compilation.Numbering
import ReactiveView.Proofs.Confinement
import ReactiveView.Proofs.Editing
import ReactiveView.Proofs.FreeVariables
import ReactiveView.Proofs.Interruption
import ReactiveView.Proofs.Lengths.Machine
import ReactiveView.Proofs.Likeness.Ignored
import ReactiveView.Proofs.Lines.Sessions
import ReactiveView.Proofs.Lookups
import ReactiveView.Proofs.Namespaces.Sessions
import ReactiveView.Proofs.Parsing.Offsets
import ReactiveView.Proofs.Parsing.Trees
import ReactiveView.Proofs.Printing.Inversion
import ReactiveView.Proofs.Readership
import ReactiveView.Proofs.Refreshing
import ReactiveView.Proofs.Selective.Remounting
import ReactiveView.Proofs.Structure.Abandonment
import ReactiveView.Proofs.Structure.Restarts
import ReactiveView.Proofs.Tenancy
import ReactiveView.Proofs.Termination.Calls
import ReactiveView.Proofs.Wire.Conversions
import ReactiveView.Proofs.Wire.Pictures
