import Vhost.Basic
import Vhost.Region
import Vhost.Cut
import Vhost.Unassign
import Vhost.Assign
import Vhost.Table
import Vhost.Device
import Vhost.Logic
import Vhost.LogSize
import Vhost.Sync
import Vhost.SetMemory
import Vhost.SetLog
import Vhost.Lifecycle
import Vhost.Notifiers
import Vhost.Run
import Vhost.LogInvariant
import Vhost.AccelInvariant
import Vhost.RingMappings
import Vhost.LogOwnership
import Vhost.GuestMemory
import Vhost.Handover
