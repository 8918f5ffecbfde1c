import Vrouter.Htable.Refine
import Vrouter.Htable.Conserve
import Vrouter.Flow.Fresh
import Vrouter.Flow.Stale
import Vrouter.Flow.Held
import Vrouter.Flow.HoldCount
import Vrouter.Flow.Locks
import Vrouter.Flow.Rejected
import Vrouter.Itable.Runs
import Vrouter.FlowKey.Datagram
import Vrouter.FlowNat.Header
import Vrouter.Parse.Ip6
import Vrouter.Nh.CountRuns
import Vrouter.Nh.Ecmp
import Vrouter.Gso.Metadata
import Vrouter.Gro.Accept
import Vrouter.Dpdk.Lcore
import Vrouter.Packet.Mss
import Vrouter.FlowNat.RoundTrip
import Vrouter.Bridge.Stitch
import Vrouter.Route.Offload
import Vrouter.FlowKey.IcmpError
import Vrouter.Mcast.Labels
import Vrouter.Flow.TcpClose
import Vrouter.N3k.Mpls
import Vrouter.Packet.Window
import Vrouter.Parse.EtherType
import Vrouter.FlowNat.Icmp6
import Vrouter.Flow.Counters
