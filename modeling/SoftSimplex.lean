import SoftSimplex.Scalar.Double
import SoftSimplex.Scalar.Exact
import SoftSimplex.Solver.History
import SoftSimplex.LinearForm.Lemmas
import SoftSimplex.Proofs.Waiting
import SoftSimplex.Proofs.Requests
import SoftSimplex.Proofs.Optimality
import SoftSimplex.Proofs.Refusal
import SoftSimplex.Proofs.RequiredValues
import SoftSimplex.Proofs.Upkeep
import SoftSimplex.Proofs.Boundedness
import SoftSimplex.Proofs.Termination
import SoftSimplex.Proofs.Contradictions
import SoftSimplex.Proofs.Consistency
import SoftSimplex.Proofs.Independence
import SoftSimplex.Proofs.ReducedCosts
import SoftSimplex.Proofs.AutoSolve
import SoftSimplex.Proofs.Bookkeeping
import SoftSimplex.Proofs.Exchanges
import SoftSimplex.Proofs.Preferences
import SoftSimplex.Proofs.Rejection
import SoftSimplex.Proofs.Violations
import SoftSimplex.Proofs.Drift
import SoftSimplex.Proofs.Divisions
import SoftSimplex.Proofs.Reset
import SoftSimplex.Proofs.Reversal
import SoftSimplex.Proofs.Leftovers
import SoftSimplex.Proofs.Tolerance
import SoftSimplex.Proofs.Circles
import SoftSimplex.Proofs.Remainders
import SoftSimplex.Proofs.Construction
import SoftSimplex.Proofs.Formulas
import SoftSimplex.Proofs.ArtificialRow
import SoftSimplex.Proofs.Choices
