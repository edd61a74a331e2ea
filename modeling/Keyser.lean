import Keyser.Runs
import Keyser.Ownership
import Keyser.Memory
import Keyser.Primitives
import Keyser.Framing
import Keyser.PeerReceive
import Keyser.PeerSend
import Keyser.NetInterface
import Keyser.MessagePump
import Keyser.Mining
import Keyser.Hex
import Keyser.CryptoUtils
import Keyser.HexCodecs
import Keyser.Difficulty
import Keyser.Walk
import Keyser.CryptoRing
import Keyser.RingEquation
import Keyser.RingCompleteness
import Keyser.RingBinding
import Keyser.RingMembership
import Keyser.ScalarRange
import Keyser.HashToCurve
import Keyser.AesCipher
import Keyser.MainMenu
import Keyser.Shutdown
import Keyser.BlockCommitments
import Keyser.InboundDelivery
import Keyser.HostileStreams
import Keyser.Tokenizer
import Keyser.PeerInfo
import Keyser.JsonValue
import Keyser.InfoCodec
import Keyser.Connections
import Keyser.ContextLifecycle
import Keyser.PeerIds
import Keyser.PeerManagement
import Keyser.PeerLifetime
import Keyser.CommandLine
import Keyser.Chain
import Keyser.WalletStore
import Keyser.Streams
import Keyser.Links
import Keyser.LinkSteps
import Keyser.Relaying
import Keyser.Flushing
import Keyser.Broadcasting
import Keyser.Torsion
import Keyser.RingForks
import Keyser.RingSymmetry
import Keyser.RingTranscripts
import Keyser.Monitors
import Keyser.Tsqueue
import Keyser.LockedInbound
import Keyser.Exiting
import Keyser.MiningThreads
import Keyser.Session
import Keyser.Startup
