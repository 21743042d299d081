import Ehgp.Propagation
import Ehgp.VirtualCallers
import Ehgp.Reports
import Ehgp.Callers
import Ehgp.Catching
import Ehgp.Drawing
import Ehgp.Interleaving
import Ehgp.Handlers
import Ehgp.Callees
import Ehgp.Paths
import Ehgp.TypeIds
import Ehgp.Completeness
import Ehgp.UseLists
import Ehgp.Reruns
import Ehgp.Termination
import Ehgp.Labels
import Ehgp.Specification
import Ehgp.Execution
import Ehgp.Output
import Ehgp.Composition
import Ehgp.Sessions
import Ehgp.Comparisons
import Ehgp.Linking
