import Kubezonnet.PayloadCodec
import Kubezonnet.Runs
import Kubezonnet.ServerAccounting
import Kubezonnet.Cluster
import Kubezonnet.PodLifecycle
import Kubezonnet.ServerPodIndex
import Kubezonnet.Deletion
import Kubezonnet.WatchOrder
import Kubezonnet.ElemMap
import Kubezonnet.HandleV4
import Kubezonnet.LostUpdates
import Kubezonnet.AgentFilter
import Kubezonnet.Pipeline
import Kubezonnet.AgentLoop
import Kubezonnet.AgentReporting
import Kubezonnet.Series
import Kubezonnet.SingleReporter
import Kubezonnet.Registration
import Kubezonnet.Admission
import Kubezonnet.FlowTotals
import Kubezonnet.Cidr
import Kubezonnet.TransportPorts
import Kubezonnet.Subnet
import Kubezonnet.FlushLoss
import Kubezonnet.NodeAddresses
import Kubezonnet.AddressNumbers
import Kubezonnet.HostFlows
import Kubezonnet.HostOrder
import Kubezonnet.CriticalSections
import Kubezonnet.ServerCalls
import Kubezonnet.Serialization
import Kubezonnet.AgentLedger
import Kubezonnet.Deployment
import Kubezonnet.ExactlyOnce
import Kubezonnet.AuditTrail
import Kubezonnet.DebugOutput
import Kubezonnet.Restart
import Kubezonnet.Rounding
import Kubezonnet.Scrape
import Kubezonnet.Settling
import Kubezonnet.NeverOvercounted
