import SubstratePoc.Tunnel.Buffer
import SubstratePoc.Broker.Goroutine
import SubstratePoc.Tunnel.Message
import SubstratePoc.Broker.Session
import SubstratePoc.Lib.BigEndian
import SubstratePoc.Lib.Bufio
import SubstratePoc.Tunnel.Wire
import SubstratePoc.Broker.Inversion
import SubstratePoc.Broker.Upstream
import SubstratePoc.Broker.Dial
import SubstratePoc.Broker.Wake
import SubstratePoc.Broker.Pending
import SubstratePoc.Broker.Attach
import SubstratePoc.Pair.System
import SubstratePoc.Pair.Inversion
import SubstratePoc.Pair.Sessions
import SubstratePoc.Pair.Delivery
import SubstratePoc.Pair.Recreate
import SubstratePoc.Pair.Protocol
import SubstratePoc.Pair.Lossless
import SubstratePoc.Pair.Trim
import SubstratePoc.Broker.Policy
import SubstratePoc.Tunnel.Codec
import SubstratePoc.Broker.DialFailure
import SubstratePoc.Broker.Resumer
import SubstratePoc.Pair.Connections
import SubstratePoc.Pair.HalfClose
import SubstratePoc.Pair.Uplink
import SubstratePoc.Pair.Lines
import SubstratePoc.Pair.AgentStream
import SubstratePoc.Pair.UpClose
import SubstratePoc.Pair.ReaderEnd
import SubstratePoc.Pair.DownLine
import SubstratePoc.Pair.DownClose
import SubstratePoc.Actor.Ingress
import SubstratePoc.Actor.Suspender
import SubstratePoc.Actor.System
import SubstratePoc.Actor.Idle
import SubstratePoc.Actor.Blocked
import SubstratePoc.Relay.Broker
import SubstratePoc.Relay.Matching
import SubstratePoc.Relay.System
import SubstratePoc.Relay.Whole
import SubstratePoc.Relay.Once
import SubstratePoc.Server.Owned
import SubstratePoc.Lib.Keep
import SubstratePoc.Server.Isolation
import SubstratePoc.Server.Sessions
import SubstratePoc.Server.Bindings
import SubstratePoc.Server.Rest
import SubstratePoc.Server.Release
import SubstratePoc.Pair.Memory
import SubstratePoc.Pair.Orphans
import SubstratePoc.Tunnel.Reencode
import SubstratePoc.Broker.Commute
import SubstratePoc.Tunnel.Words
import SubstratePoc.Pair.Receivers
import SubstratePoc.Actor.Ages
import SubstratePoc.Actor.Pacing
import SubstratePoc.Lib.Index
import SubstratePoc.Server.Targets
import SubstratePoc.Lib.BufReader
import SubstratePoc.Sidecar.HostPort
import SubstratePoc.Loopback.Wire
import SubstratePoc.Sidecar.Proxy
import SubstratePoc.Loopback.Stream
import SubstratePoc.Client.Inversion
import SubstratePoc.Client.Announce
import SubstratePoc.Client.Truthful
import SubstratePoc.Pair.Jam
import SubstratePoc.Lib.Decoder
import SubstratePoc.Pair.Window
import SubstratePoc.Tunnel.Segments
import SubstratePoc.Lib.Cond
import SubstratePoc.Pair.Sleep
import SubstratePoc.Pair.Keepalive
import SubstratePoc.Lib.Simulation
import SubstratePoc.Deployment.Refinement
