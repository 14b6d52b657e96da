import Lisp.Category
import Lisp.Main
import Lisp.Proofs.Printing
import Lisp.Proofs.DirectSubstitution
import Lisp.Proofs.Application
import Lisp.Proofs.Reachability
import Lisp.Proofs.Batches
import Lisp.Proofs.Spans
import Lisp.Proofs.Definitions
import Lisp.Proofs.References
import Lisp.Proofs.Boundary
import Lisp.Proofs.Equality
import Lisp.Proofs.Legibility
import Lisp.Proofs.FloatReading
import Lisp.Proofs.FirstDatum
import Lisp.Proofs.Likeness
import Lisp.Proofs.Destructuring
import Lisp.Proofs.Arity
import Lisp.Proofs.Division
import Lisp.Proofs.Comparisons
import Lisp.Proofs.HostCalls
import Lisp.Proofs.ExpansionFaults
import Lisp.Proofs.Placement
import Lisp.Proofs.Spelling
import Lisp.Proofs.Display
import Lisp.Proofs.Balance
import Lisp.Proofs.FailedDefinitions
import Lisp.Proofs.BackTraces
import Lisp.Proofs.NumberGrammar
import Lisp.Proofs.Categories
import Lisp.Proofs.RecordedDepths
import Lisp.Proofs.Embedding
