import Firefly.Clock.Refinement
import Firefly.Clock.Equivalence
import Firefly.Clock.Provisioning
import Firefly.Clock.ProvisioningOrder
import Firefly.Clock.Spacing
import Firefly.Cadence
import Firefly.GroupCadence
import Firefly.ExcessPower
import Firefly.IdealUnit
import Firefly.Stopping
import Firefly.OnDemand
import Firefly.Amount.Settling
import Firefly.Amount.Limit
import Firefly.Amount.Monotone
import Firefly.Amount.ClosedLoop
import Firefly.Amount.Reach
import Firefly.Clique.ClosedClique
import Firefly.Clique.PeriodsInUse
import Firefly.Clique.Agreement
import Firefly.Clique.Stabilisation
import Firefly.Clique.LateWorkSync
import Firefly.Clique.RotatingMasters
import Firefly.Clique.Disturbance
import Firefly.Clique.Asynchronous
import Firefly.Clique.Reprovisioning
import Firefly.Clique.MixedClique
import Firefly.Clique.PowerIndependence
import Firefly.Clique.WorkSyncLedger
import Firefly.Clique.OnDemand
