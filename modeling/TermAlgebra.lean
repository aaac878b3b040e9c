import TermAlgebra.Proofs.Ambiguity
import TermAlgebra.Proofs.Application
import TermAlgebra.Proofs.BindingList
import TermAlgebra.Proofs.Coincidence
import TermAlgebra.Proofs.CompositionKeeping
import TermAlgebra.Proofs.CompositionTrace
import TermAlgebra.Proofs.Declaration
import TermAlgebra.Proofs.Frame
import TermAlgebra.Proofs.Identity
import TermAlgebra.Proofs.NameClash
import TermAlgebra.Proofs.OwnSignature
import TermAlgebra.Proofs.SignatureExtension
import TermAlgebra.Proofs.VariableOrder
