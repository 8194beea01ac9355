import ContextFree.Chart.Text
import ContextFree.Derivation
import ContextFree.Linear.Text
import ContextFree.NormalForm.Text
import ContextFree.Parse
import ContextFree.Proofs.Compression
import ContextFree.Proofs.PartShapes
import ContextFree.Proofs.Redundancy
import ContextFree.Proofs.EmptyDerivations
import ContextFree.Proofs.Guarded.Parse
import ContextFree.Proofs.Guarded.Storage
import ContextFree.Proofs.KeptPositions
import ContextFree.Proofs.LinearBoundaries
import ContextFree.Proofs.Locality
import ContextFree.Proofs.Collapsing
import ContextFree.Proofs.Modes
import ContextFree.Proofs.Rendering
import ContextFree.Proofs.RuleTrees
import ContextFree.Proofs.Sharing
import ContextFree.Proofs.Renaming.Parse
import ContextFree.Proofs.ShortestRoutes
import ContextFree.Proofs.Trimming
import ContextFree.Proofs.Unfolding
