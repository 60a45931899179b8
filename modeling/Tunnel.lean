import Tunnel.Lib.Machine
import Tunnel.Lib.Chan
import Tunnel.Lib.SyncMap
import Tunnel.Server.Leader
import Tunnel.Server.LeaderStop
import Tunnel.Lib.BigEndian
import Tunnel.Multiplexer.Link
import Tunnel.Lib.Pool
import Tunnel.Multiplexer.Peer
import Tunnel.State.PeerMap
import Tunnel.State.PeerMapCount
import Tunnel.Gateway.Link
import Tunnel.Server.Routing
import Tunnel.Server.SingleHop
import Tunnel.Lib.NetIP
import Tunnel.Messaging.Channel
import Tunnel.Messaging.Teardown
import Tunnel.Server.Agreement
import Tunnel.Server.Eviction
import Tunnel.Server.Gossip
import Tunnel.Server.Handshake
import Tunnel.Server.Reconnect
import Tunnel.Server.NodeRouter
import Tunnel.Acme.CertManager
import Tunnel.Acme.KeySafety
import Tunnel.Messaging.Replies
import Tunnel.Multiplexer.Channel
import Tunnel.Server.AcmeAnnounce
import Tunnel.Server.AcmeSync
import Tunnel.Server.Clients
import Tunnel.Server.Ghost
import Tunnel.Server.LeaderTimer
import Tunnel.State.LatestUpdate
import Tunnel.Acme.Names
import Tunnel.Client.Negotiation
import Tunnel.Gateway.Sni
import Tunnel.Messaging.Message
import Tunnel.Messaging.Reader
import Tunnel.Server.HandshakeRead
import Tunnel.Server.KeyMaterial
import Tunnel.Server.NoSelf
import Tunnel.Server.Relay
import Tunnel.State.BinaryFuse
import Tunnel.State.FilterCodec
import Tunnel.Acme.PrivateKey
import Tunnel.Lib.Register
import Tunnel.Messaging.Blocked
import Tunnel.Multiplexer.Stranded
import Tunnel.Server.AcmeLeaf
import Tunnel.Server.Config
import Tunnel.Server.Hostname
import Tunnel.State.ClientOrder
import Tunnel.Lib.Conns
import Tunnel.Multiplexer.Pipe
import Tunnel.Multiplexer.PipeEnd
import Tunnel.Multiplexer.Relaying
import Tunnel.Mux.Session
import Tunnel.Mux.Sound
import Tunnel.Mux.Teardown
import Tunnel.Mux.Streams
import Tunnel.Server.Cluster
import Tunnel.Server.Convergence
import Tunnel.Server.Accounts
import Tunnel.Server.SessionNet
import Tunnel.Gateway.Front
import Tunnel.Gateway.FrontRoutes
import Tunnel.Lib.RWMutex
import Tunnel.Lib.Guarded
import Tunnel.Acme.Locking
import Tunnel.Acme.Exports
import Tunnel.Acme.Durable
import Tunnel.Server.AcmeCrash
