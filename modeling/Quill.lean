import Quill.Main
import Quill.Proofs.Arena
import Quill.Proofs.Binding.Checked
import Quill.Proofs.Binding.Declarations
import Quill.Proofs.Closures.Activation
import Quill.Proofs.Compiling
import Quill.Proofs.Confinement
import Quill.Proofs.Exactness
import Quill.Proofs.Lines
import Quill.Proofs.Listing.Readers
import Quill.Proofs.Mismatches
import Quill.Proofs.Parsing.Agreement
import Quill.Proofs.Parsing.Annotations
import Quill.Proofs.Printing.RoundTrip
import Quill.Proofs.Reordering
import Quill.Proofs.Scanning.LineStarts
import Quill.Proofs.Scanning.Rendering
import Quill.Proofs.Spans.Attempts
import Quill.Proofs.Spans.Programs
import Quill.Proofs.Storage.Atomicity
import Quill.Proofs.Storage.Indices
import Quill.Proofs.Storage.Insertion
import Quill.Proofs.Storage.WriteBack
import Quill.Proofs.Tandem.Concatenation
import Quill.Proofs.Tandem.Isolation
import Quill.Proofs.Tandem.Respacing
import Quill.Proofs.Twins.Callers
import Quill.Proofs.Twins.Truncation
import Quill.Proofs.Typing.Soundness
