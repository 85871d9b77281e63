import BoxNewton.Problem.Catalogue
import BoxNewton.Problem.Reading
import BoxNewton.Minimizer.Settings
import BoxNewton.Report
import BoxNewton.Session
import BoxNewton.Proofs.Minimizer.Descent
import BoxNewton.Proofs.Minimizer.Exit
import BoxNewton.Proofs.Box.Stationarity
import BoxNewton.Proofs.Minimizer.Feasibility
import BoxNewton.Proofs.Problem.Quadratic
import BoxNewton.Proofs.Minimizer.Quadratic
import BoxNewton.Proofs.Minimizer.Certificate
import BoxNewton.Proofs.Subproblem.SmallRadius
import BoxNewton.Proofs.Minimizer.Acceptance
import BoxNewton.Proofs.Exact.Laws
import BoxNewton.Proofs.Symmetry.Motion
import BoxNewton.Proofs.Symmetry.Box
import BoxNewton.Proofs.Symmetry.Minimizer
import BoxNewton.Proofs.Minimizer.Iteration
import BoxNewton.Proofs.Matrix.Triangular
import BoxNewton.Proofs.ConjugateGradient.Descent
import BoxNewton.Proofs.Subproblem.Ascent
import BoxNewton.Proofs.Subproblem.FreeCoordinates
import BoxNewton.Proofs.Subproblem.CauchySearch
import BoxNewton.Proofs.ConjugateGradient.Scaling
import BoxNewton.Proofs.Reduction.Mask
import BoxNewton.Proofs.Reduction.Face
import BoxNewton.Proofs.Minimizer.Radius
import BoxNewton.Proofs.Box.DescentRate
import BoxNewton.Proofs.Box.Course
import BoxNewton.Proofs.Minimizer.Budget
