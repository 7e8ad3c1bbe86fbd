import Arkiv.Bytes
import Arkiv.Chain
import Arkiv.Entity.MetaData
import Arkiv.Expiration.Index
import Arkiv.Expiration.Linked
import Arkiv.Entity.Store
import Arkiv.Entity.Invariant
import Arkiv.Housekeeping
import Arkiv.Entity.Lifecycle
import Arkiv.Entity.LinkedStore
import Arkiv.Events.BlockToEvents
import Arkiv.Events.Order
import Arkiv.Events.Expiry
import Arkiv.Stream.Batch
import Arkiv.Stream.Iterator
import Arkiv.Events.Content
import Arkiv.Events.Panic
import Arkiv.Receipts.OPStack
