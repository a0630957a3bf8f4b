import Ccbt.Cipher.Stream
import Ccbt.Concurrency.Conversation
import Ccbt.Concurrency.EventLoop
import Ccbt.Core.Bencode.Canonical
import Ccbt.Core.Bencode.Termination
import Ccbt.Core.InfoHash
import Ccbt.Core.MagnetLayout
import Ccbt.Core.MagnetLinks
import Ccbt.Core.Torrent
import Ccbt.Core.TorrentV2.Hybrid
import Ccbt.Core.TorrentV2.HybridIdentity
import Ccbt.Core.TorrentV2.HybridPieces
import Ccbt.Core.TorrentV2.LayerContents
import Ccbt.Core.TorrentV2.PieceCount
import Ccbt.Core.TorrentV2.PieceNumbering
import Ccbt.Core.TorrentV2.SourceDescription
import Ccbt.Core.TorrentV2.TreeDict
import Ccbt.Crash.FileSteps
import Ccbt.Discovery.HttpTracker
import Ccbt.Discovery.IterativeLookup
import Ccbt.Discovery.MutableData
import Ccbt.Discovery.PexView
import Ccbt.Discovery.Queries
import Ccbt.Discovery.StoredData
import Ccbt.Discovery.UdpTrackerServer
import Ccbt.Extensions.Protocol
import Ccbt.Extensions.Xet
import Ccbt.Framing.Cutter
import Ccbt.Framing.Reader
import Ccbt.Interval.Overlap
import Ccbt.NAT.GatewayTable
import Ccbt.NAT.PortMapping
import Ccbt.Peer.Choking
import Ccbt.Peer.Coalescing
import Ccbt.Peer.ConnectionSlots
import Ccbt.Peer.Dispatch
import Ccbt.Peer.LockDiscipline
import Ccbt.Peer.Malformed
import Ccbt.Peer.PieceLayers
import Ccbt.Peer.PipelineSafety
import Ccbt.Peer.TitForTat
import Ccbt.Piece.Authenticity
import Ccbt.Piece.Availability
import Ccbt.Piece.Callbacks
import Ccbt.Piece.Checkpoint
import Ccbt.Piece.Distribution
import Ccbt.Piece.FileTreeHash
import Ccbt.Piece.Initialisation
import Ccbt.Piece.Metadata.AcceptedBytes
import Ccbt.Piece.Metadata.Exchange
import Ccbt.Piece.Metadata.HonestPeer
import Ccbt.Piece.Progress
import Ccbt.Piece.RarestFirst
import Ccbt.Piece.SelectorLocks
import Ccbt.Piece.V2PieceHash
import Ccbt.Piece.Verification
import Ccbt.Protocols.HandshakeReading
import Ccbt.Python.BinAscii
import Ccbt.Python.Dict
import Ccbt.Python.Hashlib
import Ccbt.Python.NormPath
import Ccbt.Python.Value
import Ccbt.Queue.LockDiscipline
import Ccbt.Queue.Ordering
import Ccbt.Security.Ciphers
import Ccbt.Security.EncryptedStream
import Ccbt.Security.FilterLines
import Ccbt.Security.HandshakeAgreement
import Ccbt.Security.IpFilter
import Ccbt.Security.RateWindows
import Ccbt.Security.RefusedCalls
import Ccbt.Storage.AssemblerReads
import Ccbt.Storage.BatchedWrites
import Ccbt.Storage.BlockReads
import Ccbt.Storage.Buffers
import Ccbt.Storage.Checkpoint.BinaryRoundTrip
import Ccbt.Storage.Checkpoint.CrashSafety
import Ccbt.Storage.FastResume
import Ccbt.Storage.FlushedWrites
import Ccbt.Storage.PathContainment
import Ccbt.Storage.V2Files
import Ccbt.Storage.WriteQueue
import Ccbt.Storage.WriteQueueFutures
import Ccbt.Storage.WriteQueueRuns
import Ccbt.Storage.Xet.ChunkStream
import Ccbt.Storage.Xet.Deduplication
import Ccbt.Storage.Xet.Hashing
import Ccbt.Storage.Xet.RoundTrip
import Ccbt.Transport.Utp.Handshake
import Ccbt.Transport.Utp.Packet
import Ccbt.Transport.Utp.Reliability
import Ccbt.Transport.Utp.SackBlocks
import Ccbt.Transport.Utp.SerialOrder
import Ccbt.Transport.Utp.Stream
import Ccbt.Transport.Utp.WindowAgreement
import Ccbt.Utils.CircuitBreaker
import Ccbt.Utils.Events
