import Dpa.Duplicator.Progress
import Dpa.Driver.IntelDelivery
import Dpa.Driver.IntelUntrusted
import Dpa.Driver.IntelSerial
import Dpa.Library.Paged
import Dpa.Driver.Bnx2
import Dpa.Driver.Bnx2Sync
import Dpa.Driver.Bnx2Reset
import Dpa.Driver.Bnx2Delivery
import Dpa.Driver.Bnx2Ownership
import Dpa.Kernel.Pool
import Dpa.Kernel.PoolSpec
import Dpa.Kernel.PoolBuild
import Dpa.Kernel.PoolRuns
import Dpa.Kernel.Interface
import Dpa.Kernel.PoolBatch
import Dpa.Kernel.InterfaceSpec
import Dpa.Kernel.Registration
import Dpa.Kernel.Layout
import Dpa.Kernel.LayoutSizes
import Dpa.Kernel.Host
import Dpa.Driver.Capacity
import Dpa.Kernel.Unregistration
import Dpa.Kernel.AddressSpace
import Dpa.Kernel.UserView
import Dpa.Kernel.Lifecycle
import Dpa.Driver.Promiscuity
import Dpa.Driver.Rss
import Dpa.Kernel.Poll
import Dpa.Kernel.Wakeup
import Dpa.Duplicator.Shm
import Dpa.Driver.ReleaseTarget
import Dpa.Driver.BufferCheck
import Dpa.Driver.Recovery
import Dpa.Driver.Bnx2Accounting
import Dpa.Kernel.PoolPages
import Dpa.Kernel.PoolDegraded
import Dpa.Kernel.PoolBalance
import Dpa.Kernel.Mmap
import Dpa.Driver.RxStats
import Dpa.Client.RawStats
import Dpa.Client.DupStats
import Dpa.Duplicator.Bnx2
import Dpa.Duplicator.Bnx2Agrees
import Dpa.Duplicator.Bnx2Batch
import Dpa.Kernel.SharedPools
import Dpa.Kernel.SharedObjects
import Dpa.Kernel.SharedInterfaces
import Dpa.Kernel.SharedCalls
import Dpa.Kernel.IndexTranslation
import Dpa.Tools.Dpastats
import Dpa.Tools.Affinity
import Dpa.Library.Template
import Dpa.Tools.OutputName
import Dpa.Duplicator.Pipeline
import Dpa.Duplicator.Restart
import Dpa.Kernel.LockOrder
import Dpa.Client.ReceiveLoop
import Dpa.Client.RawCounts
import Dpa.Duplicator.Attach
import Dpa.Tools.OpCodes
import Dpa.Driver.IntelContainment
