import Wpa.Basic.Go
import Wpa.Basic.IntStr
import Wpa.Decision.Rules
import Wpa.Decision.Bounds
import Wpa.Decision.Monotone
import Wpa.Decision.Settings
import Wpa.Decision.ClosedLoop
import Wpa.Controller.Objects
import Wpa.Controller.WorkQueue
import Wpa.Controller.Queues
import Wpa.Controller.Sync
import Wpa.Controller.Process
import Wpa.Controller.Registry
import Wpa.Controller.Phases
import Wpa.Controller.Freshness
import Wpa.Controller.Commute
import Wpa.Controller.Status
