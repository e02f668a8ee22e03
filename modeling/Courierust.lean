import Courierust.Quic.Nonce
import Courierust.Quic.Flow
import Courierust.Quic.Append
import Courierust.Quic.Replay
import Courierust.Quic.KeyPhase
import Courierust.Hpack.Sync
import Courierust.Qpack.Link
import Courierust.H2.CreditRun
import Courierust.H2.Goaway
import Courierust.H2.Blocks
import Courierust.H2.Poll
import Courierust.Deflate.Canonical
import Courierust.Deflate.History
import Courierust.Deflate.Member
import Courierust.Ws.Failure
import Courierust.Ws.Fidelity
import Courierust.Server.Forward
import Courierust.Ws.Forwarded
import Courierust.Tls.Hostile
import Courierust.Grpc.Timeout
import Courierust.Grpc.Proto
import Courierust.Client.Expiry
import Courierust.Client.Redirect
import Courierust.H2.FrameCodec
import Courierust.H2.Aligned
import Courierust.Server.Reserve
import Courierust.Tls.Chain
import Courierust.Tls.Nonce
import Courierust.Tls.Names
import Courierust.Pool.Wakeup
import Courierust.H2.Outbound
import Courierust.Qpack.Prefix
import Courierust.Qpack.Line
import Courierust.Quic.FinalSize
import Courierust.Quic.Crypto
import Courierust.Quic.Packet
